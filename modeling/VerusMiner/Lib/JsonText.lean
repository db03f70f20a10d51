import VerusMiner.Lib.Hex
import VerusMiner.Lib.Utf8

/-! A reader of JSON texts of one character a byte, and what it makes of a
string that was put between quotes as it is. -/

namespace VerusMiner

inductive JsonValue where
  | null
  | bool (b : Bool)
  | number (text : List Char)
  | string (s : List Char)
  | array (elements : List JsonValue)
  | object (members : List (List Char × JsonValue))

section Reader

def skipSpace (s : List Char) : List Char :=
  s.dropWhile fun c => c = ' ' || c = '\t' || c = '\n' || c = '\r'

def utf8Bytes (n : Nat) : List Char :=
  let tail (k : Nat) : Char := Char.ofNat (0x80 + n / 64 ^ k % 64)
  if n < 0x80 then [Char.ofNat n]
  else if n < 0x800 then [Char.ofNat (0xc0 + n / 64), tail 0]
  else if n < 0x10000 then [Char.ofNat (0xe0 + n / 4096), tail 1, tail 0]
  else [Char.ofNat (0xf0 + n / 262144), tail 2, tail 1, tail 0]

def readHex4 : List Char → Option (Nat × List Char)
  | a :: b :: c :: d :: s => do
    let w ← hexVal a
    let x ← hexVal b
    let y ← hexVal c
    let z ← hexVal d
    some (((w * 16 + x) * 16 + y) * 16 + z, s)
  | _ => none

/-- A code point, which may take a second escape. -/
def readUnicode (s : List Char) : Option (List Char × List Char) := do
  let (n, s) ← readHex4 s
  if 0xd800 ≤ n ∧ n < 0xdc00 then
    match s with
    | '\\' :: 'u' :: s => do
      let (m, s) ← readHex4 s
      if 0xdc00 ≤ m ∧ m < 0xe000 then some (utf8Bytes (0x10000 + (n - 0xd800) * 1024 + (m - 0xdc00)), s)
      else none
    | _ => none
  else if 0xdc00 ≤ n ∧ n < 0xe000 then none
  else some (utf8Bytes n, s)

/-- What a backslash and one character mean. -/
def simpleEscape (c : Char) : Option Char :=
  if c = '"' ∨ c = '\\' ∨ c = '/' then some c
  else if c = 'b' then some '\x08'
  else if c = 'f' then some '\x0c'
  else if c = 'n' then some '\n'
  else if c = 'r' then some '\r'
  else if c = 't' then some '\t'
  else none

/-- From behind the backslash on: what is meant, and what follows. -/
def readEscape : List Char → Option (List Char × List Char)
  | [] => none
  | c :: s =>
    match simpleEscape c with
    | some e => some ([e], s)
    | none => if c = 'u' then readUnicode s else none

def readChars : Nat → List Char → Option (List Char × List Char)
  | 0, _ => none
  | _ + 1, [] => none
  | n + 1, c :: s =>
    if c = '"' then some ([], s)
    else if c = '\\' then do
      let (out, s) ← readEscape s
      let (rest, s) ← readChars n s
      some (out ++ rest, s)
    else if c.toNat < 0x20 then none
    else do
      let (rest, s) ← readChars n s
      some (c :: rest, s)

/-- A string from behind its opening quote on. -/
def readString (s : List Char) : Option (List Char × List Char) := readChars s.length s

def readDigits (s : List Char) : Option (List Char × List Char) :=
  match s.takeWhile Char.isDigit with
  | [] => none
  | ds => some (ds, s.dropWhile Char.isDigit)

def readInt : List Char → Option (List Char × List Char)
  | '0' :: s => some (['0'], s)
  | s => readDigits s

def readFraction : List Char → Option (List Char × List Char)
  | '.' :: s => (readDigits s).map fun (ds, s) => ('.' :: ds, s)
  | s => some ([], s)

def readExponent (s : List Char) : Option (List Char × List Char) :=
  match s with
  | 'e' :: '+' :: s | 'E' :: '+' :: s => (readDigits s).map fun (ds, s) => ('e' :: '+' :: ds, s)
  | 'e' :: '-' :: s | 'E' :: '-' :: s => (readDigits s).map fun (ds, s) => ('e' :: '-' :: ds, s)
  | 'e' :: s | 'E' :: s => (readDigits s).map fun (ds, s) => ('e' :: ds, s)
  | s => some ([], s)

def readNumber (s : List Char) : Option (List Char × List Char) := do
  let (sign, s) := match s with
    | '-' :: s => (['-'], s)
    | s => ([], s)
  let (int, s) ← readInt s
  let (fraction, s) ← readFraction s
  let (exponent, s) ← readExponent s
  some (sign ++ int ++ fraction ++ exponent, s)

mutual

def readValue : Nat → List Char → Option (JsonValue × List Char)
  | 0, _ => none
  | n + 1, s =>
    match skipSpace s with
    | '"' :: s => (readString s).map fun (t, s) => (.string t, s)
    | '[' :: s =>
      match skipSpace s with
      | ']' :: s => some (.array [], s)
      | s => (readElements n s).map fun (vs, s) => (.array vs, s)
    | '\x7b' :: s =>
      match skipSpace s with
      | '\x7d' :: s => some (.object [], s)
      | s => (readMembers n s).map fun (ms, s) => (.object ms, s)
    | 'n' :: 'u' :: 'l' :: 'l' :: s => some (.null, s)
    | 't' :: 'r' :: 'u' :: 'e' :: s => some (.bool true, s)
    | 'f' :: 'a' :: 'l' :: 's' :: 'e' :: s => some (.bool false, s)
    | s => (readNumber s).map fun (t, s) => (.number t, s)

def readElements : Nat → List Char → Option (List JsonValue × List Char)
  | 0, _ => none
  | n + 1, s => do
    let (v, s) ← readValue n s
    match skipSpace s with
    | ',' :: s => (readElements n s).map fun (vs, s) => (v :: vs, s)
    | ']' :: s => some ([v], s)
    | _ => none

def readMembers : Nat → List Char → Option (List (List Char × JsonValue) × List Char)
  | 0, _ => none
  | n + 1, s =>
    match skipSpace s with
    | '"' :: s => do
      let (k, s) ← readString s
      match skipSpace s with
      | ':' :: s => do
        let (v, s) ← readValue n s
        match skipSpace s with
        | ',' :: s => (readMembers n s).map fun (ms, s) => ((k, v) :: ms, s)
        | '\x7d' :: s => some ([(k, v)], s)
        | _ => none
      | _ => none
    | _ => none

end

/-- Every call of the reader that is not the last takes a character. -/
def parseJson (s : List Char) : Option JsonValue :=
  if utf8Valid s then
    match readValue (s.length + 1) s with
    | some (v, rest) => if skipSpace rest = [] then some v else none
    | none => none
  else none

end Reader

/-- What may stand between quotes as it is. -/
def PlainChar (c : Char) : Prop := c ≠ '"' ∧ c ≠ '\\' ∧ 0x20 ≤ c.toNat

def PlainText (s : List Char) : Prop := ∀ c ∈ s, PlainChar c

section Strings

theorem readChars_plain {p t : List Char} (hp : PlainText p) {n : Nat} (hn : p.length < n) :
    readChars n (p ++ '"' :: t) = some (p, t) := by
  induction p generalizing n with
  | nil =>
    obtain ⟨n, rfl⟩ := Nat.exists_eq_succ_of_ne_zero (by omega : n ≠ 0)
    rfl
  | cons c p ih =>
    obtain ⟨n, rfl⟩ := Nat.exists_eq_succ_of_ne_zero (by omega : n ≠ 0)
    obtain ⟨hquote, hbackslash, hcontrol⟩ := hp c List.mem_cons_self
    rw [List.length_cons] at hn
    rw [List.cons_append, readChars, if_neg hquote, if_neg hbackslash, if_neg (by omega),
      ih (fun d hd => hp d (List.mem_cons_of_mem _ hd)) (by omega)]
    rfl

theorem readString_plain {p t : List Char} (hp : PlainText p) : readString (p ++ '"' :: t) = some (p, t) :=
  readChars_plain hp (by rw [List.length_append, List.length_cons]; omega)

theorem length_utf8Bytes (n : Nat) : (utf8Bytes n).length ≤ 4 := by
  simp only [utf8Bytes]
  split_ifs <;> simp

variable {pre post out rest : List Char}

theorem readHex4_before (hpre : '"' ∉ pre) {n : Nat} (h : readHex4 (pre ++ '"' :: post) = some (n, rest)) :
    ∃ pre', rest = pre' ++ '"' :: post ∧ '"' ∉ pre' ∧ pre'.length + 4 = pre.length := by
  have hquote : hexVal '"' = none := by decide
  match pre, hpre, h with
  | [], _, h =>
    cases post with
    | nil => cases h
    | cons b post => match post, h with
      | [], h => cases h
      | [_], h => cases h
      | _ :: _ :: _, h => simp [readHex4, hquote] at h
  | [a], _, h => match post, h with
    | [], h => cases h
    | [_], h => cases h
    | _ :: _ :: _, h => simp [readHex4, hquote] at h
  | [a, b], _, h => match post, h with
    | [], h => cases h
    | _ :: _, h => simp [readHex4, hquote] at h
  | [a, b, c], _, h => simp [readHex4, hquote] at h
  | a :: b :: c :: d :: pre', hpre, h =>
    simp only [readHex4, List.cons_append, Option.bind_eq_bind, Option.bind_eq_some_iff] at h
    obtain ⟨_, _, _, _, _, _, _, _, heq⟩ := h
    cases heq
    refine ⟨pre', rfl, fun hmem => hpre ?_, by simp⟩
    exact List.mem_cons_of_mem _ (List.mem_cons_of_mem _ (List.mem_cons_of_mem _ (List.mem_cons_of_mem _ hmem)))

theorem readUnicode_before (hpre : '"' ∉ pre) (h : readUnicode (pre ++ '"' :: post) = some (out, rest)) :
    ∃ pre', rest = pre' ++ '"' :: post ∧ '"' ∉ pre' ∧ out.length + pre'.length ≤ pre.length := by
  simp only [readUnicode, Option.bind_eq_bind, Option.bind_eq_some_iff] at h
  obtain ⟨⟨n, s⟩, hfirst, h⟩ := h
  obtain ⟨pre₁, rfl, hpre₁, hlength₁⟩ := readHex4_before hpre hfirst
  split_ifs at h
  · split at h
    · rename_i s' heq
      obtain ⟨⟨m, s₂⟩, hsecond, h⟩ := Option.bind_eq_some_iff.mp h
      split_ifs at h
      obtain ⟨hout, rfl⟩ := Prod.mk.inj (Option.some.inj h)
      -- the second escape lies before the quote as well
      obtain ⟨pre₂, rfl⟩ : ∃ pre₂, pre₁ = '\\' :: 'u' :: pre₂ := by
        match pre₁, heq with
        | [], heq => cases heq
        | [_], heq => cases heq
        | a :: b :: pre₂, heq =>
          simp only [List.cons_append, List.cons.injEq] at heq
          exact ⟨pre₂, by rw [heq.1, heq.2.1]⟩
      simp only [List.cons_append, List.cons.injEq, true_and] at heq
      rw [← heq] at hsecond
      have hpre₂ : '"' ∉ pre₂ := fun hmem =>
        hpre₁ (List.mem_cons_of_mem _ (List.mem_cons_of_mem _ hmem))
      obtain ⟨pre₃, rfl, hpre₃, hlength₃⟩ := readHex4_before hpre₂ hsecond
      have hbytes : out.length ≤ 4 := by
        rw [← hout]
        exact length_utf8Bytes _
      simp only [List.length_cons] at hlength₁
      exact ⟨pre₃, rfl, hpre₃, by omega⟩
    · cases h
  · obtain ⟨hout, rfl⟩ := Prod.mk.inj (Option.some.inj h)
    have hbytes : out.length ≤ 4 := by
      rw [← hout]
      exact length_utf8Bytes _
    exact ⟨pre₁, rfl, hpre₁, by omega⟩

/-- An escape takes the first quote, or it lies before it and means no more
characters than it has. -/
theorem readEscape_before (hpre : '"' ∉ pre) (h : readEscape (pre ++ '"' :: post) = some (out, rest)) :
    (pre = [] ∧ out = ['"']) ∨
      ∃ pre', rest = pre' ++ '"' :: post ∧ '"' ∉ pre' ∧ out.length + pre'.length ≤ pre.length := by
  cases pre with
  | nil =>
    cases h
    exact .inl ⟨rfl, rfl⟩
  | cons c pre =>
    have hpre' : '"' ∉ pre := fun hmem => hpre (List.mem_cons_of_mem _ hmem)
    rw [List.cons_append, readEscape] at h
    right
    split at h
    · obtain ⟨rfl, rfl⟩ := Prod.mk.inj (Option.some.inj h)
      refine ⟨pre, rfl, hpre', ?_⟩
      simp only [List.length_cons, List.length_nil]
      omega
    · split_ifs at h
      obtain ⟨pre', rfl, hquote, hlength⟩ := readUnicode_before hpre' h
      exact ⟨pre', rfl, hquote, by rw [List.length_cons]; omega⟩

/-- A string that is read across its first quote has one in it, before the
place where the quote stood. -/
theorem readChars_before {n : Nat} (hpre : '"' ∉ pre) (h : readChars n (pre ++ '"' :: post) = some (out, rest)) :
    (out.length ≤ pre.length ∧ (out.length = pre.length → PlainText pre ∧ rest = post)) ∨
      '"' ∈ out.take pre.length := by
  induction n generalizing pre out with
  | zero => cases h
  | succ n ih =>
    cases pre with
    | nil =>
      cases h
      exact .inl ⟨le_rfl, fun _ => ⟨fun _ hc => (by cases hc), rfl⟩⟩
    | cons c pre =>
      have hc : c ≠ '"' := fun hc => hpre (by rw [hc]; exact List.mem_cons_self)
      have hpre' : '"' ∉ pre := fun hmem => hpre (List.mem_cons_of_mem _ hmem)
      rw [List.cons_append, readChars, if_neg hc] at h
      split_ifs at h with hbackslash hcontrol
      · simp only [Option.bind_eq_bind, Option.bind_eq_some_iff] at h
        obtain ⟨⟨e, s⟩, hescape, ⟨tail, r⟩, htail, heq⟩ := h
        obtain ⟨hout, rfl⟩ := Prod.mk.inj (Option.some.inj heq)
        obtain rfl : e ++ tail = out := hout
        rcases readEscape_before hpre' hescape with ⟨rfl, rfl⟩ | ⟨pre', rfl, hquote, hlength⟩
        · exact .inr List.mem_cons_self
        · rcases ih hquote htail with ⟨hle, _⟩ | hmem
          · left
            rw [List.length_append, List.length_cons]
            exact ⟨by omega, fun heq => by omega⟩
          · right
            rw [List.take_append, List.length_cons]
            have hle : pre'.length ≤ pre.length + 1 - e.length := by omega
            exact List.mem_append_right _ (List.take_subset_take_left _ hle hmem)
      · simp only [Option.bind_eq_bind, Option.bind_eq_some_iff] at h
        obtain ⟨⟨tail, r⟩, htail, heq⟩ := h
        obtain ⟨hout, rfl⟩ := Prod.mk.inj (Option.some.inj heq)
        obtain rfl : c :: tail = out := hout
        rcases ih hpre' htail with ⟨hle, hsame⟩ | hmem
        · left
          rw [List.length_cons, List.length_cons]
          refine ⟨by omega, fun heq => ?_⟩
          obtain ⟨hplain, hrest⟩ := hsame (by omega)
          refine ⟨fun d hd => ?_, hrest⟩
          rcases List.mem_cons.mp hd with rfl | hd
          · exact ⟨hc, hbackslash, by omega⟩
          · exact hplain d hd
        · exact .inr (List.mem_cons_of_mem _ hmem)

/-- What is read back as it was put between the quotes had nothing special in
it, also when not all of it was put there. -/
theorem plain_of_readString {s t : List Char} {m : Nat}
    (h : readString (s.take m ++ '"' :: t) = some (s, rest)) : s.length ≤ m ∧ PlainText s ∧ rest = t := by
  rw [readString] at h
  by_cases hquote : '"' ∈ s.take m
  · exfalso
    obtain ⟨pre, post, hsplit, hpre⟩ := List.eq_append_cons_of_mem hquote
    have htake : s.take pre.length = pre := by
      have hle : pre.length ≤ m := by
        have hlength := congrArg List.length hsplit
        rw [List.length_take, List.length_append, List.length_cons] at hlength
        omega
      rw [← min_eq_left hle, ← List.take_take, hsplit, List.take_left]
    rw [hsplit, List.append_assoc, List.cons_append] at h
    rcases readChars_before hpre h with ⟨hle, _⟩ | hmem
    · have hlength := congrArg List.length hsplit
      rw [List.length_take, List.length_append, List.length_cons] at hlength
      omega
    · rw [htake] at hmem
      exact hpre hmem
  · rcases readChars_before hquote h with ⟨hle, hsame⟩ | hmem
    · rw [List.length_take] at hle hsame
      have hall : s.length ≤ m := by omega
      rw [List.take_of_length_le hall] at hsame
      exact ⟨hall, hsame (by omega)⟩
    · rw [List.length_take, ← List.take_take, List.take_length] at hmem
      exact absurd hmem hquote

end Strings

section Elements

def inQuotes (s : List Char) : List Char := '"' :: (s ++ ['"'])

theorem readValue_quote (n : Nat) (s : List Char) :
    readValue (n + 1) ('"' :: s) = (readString s).map fun (t, s) => (.string t, s) := rfl

theorem readValue_bracket (n : Nat) (s : List Char) : readValue (n + 1) ('[' :: '"' :: s) =
    (readElements n ('"' :: s)).map fun (vs, s) => (.array vs, s) := rfl

/-- A member whose name stands between quotes as it is, and what follows. -/
theorem readMembers_plain {k : List Char} (hk : PlainText k) (n : Nat) (s : List Char) :
    readMembers (n + 1) (inQuotes k ++ ':' :: s) = (readValue n s).bind fun (v, s) =>
      match skipSpace s with
      | ',' :: s => (readMembers n s).map fun (ms, s) => ((k, v) :: ms, s)
      | '\x7d' :: s => some ([(k, v)], s)
      | _ => none := by
  rw [inQuotes, List.cons_append, List.append_assoc, List.singleton_append, readMembers]
  change ((readString (k ++ '"' :: ':' :: s)).bind fun (k, s) => _) = _
  rw [readString_plain hk]
  rfl

theorem readElements_cons {n : Nat} {s u : List Char} {t : List Char} (hs : readString s = some (u, t)) :
    readElements (n + 2) ('"' :: s) =
      match skipSpace t with
      | ',' :: t => (readElements (n + 1) t).map fun (vs, t) => (.string u :: vs, t)
      | ']' :: t => some ([.string u], t)
      | _ => none := by
  rw [readElements, readValue_quote, hs]
  rfl

/-- The texts between quotes, one after the other. -/
def joinQuoted (ss : List (List Char)) : List Char := [','].intercalate (ss.map inQuotes)

theorem joinQuoted_cons_cons (s s' : List Char) (ss : List (List Char)) (t : List Char) :
    joinQuoted (s :: s' :: ss) ++ t = '"' :: (s ++ '"' :: ',' :: (joinQuoted (s' :: ss) ++ t)) := by
  simp [joinQuoted, inQuotes, List.intercalate_cons_cons]

theorem joinQuoted_singleton (s t : List Char) : joinQuoted [s] ++ t = '"' :: (s ++ '"' :: t) := by
  simp [joinQuoted, inQuotes]

theorem readElements_plain {ss : List (List Char)} (hne : ss ≠ []) (hp : ∀ s ∈ ss, PlainText s) {n : Nat}
    (hn : ss.length < n) (t : List Char) :
    readElements n (joinQuoted ss ++ ']' :: t) = some (ss.map .string, t) := by
  induction ss generalizing n with
  | nil => exact absurd rfl hne
  | cons s ss ih =>
    rw [List.length_cons] at hn
    obtain ⟨n, rfl⟩ : ∃ k, n = k + 2 := ⟨n - 2, by omega⟩
    have hs := hp s List.mem_cons_self
    cases ss with
    | nil =>
      rw [joinQuoted_singleton, readElements_cons (readString_plain hs)]
      rfl
    | cons s' ss =>
      have htail := ih (List.cons_ne_nil _ _) (fun s hs => hp s (List.mem_cons_of_mem _ hs)) (n := n + 1) (by omega)
      rw [joinQuoted_cons_cons, readElements_cons (readString_plain hs)]
      change (readElements (n + 1) (joinQuoted (s' :: ss) ++ ']' :: t)).map _ = _
      rw [htail]
      rfl

theorem readElements_of_quote {n : Nat} {s : List Char} {vs : List JsonValue} {rest : List Char}
    (h : readElements n ('"' :: s) = some (vs, rest)) :
    ∃ k u t, n = k + 2 ∧ readString s = some (u, t) ∧ vs.head? = some (.string u) := by
  match n, h with
  | 0, h => cases h
  | 1, h => cases h
  | k + 2, h =>
    cases hs : readString s with
    | none =>
      rw [readElements, readValue_quote, hs] at h
      cases h
    | some p =>
      refine ⟨k, p.1, p.2, rfl, rfl, ?_⟩
      rw [readElements_cons hs] at h
      split at h
      · obtain ⟨q, _, heq⟩ := Option.map_eq_some_iff.mp h
        rw [← (Prod.mk.inj heq).1]
        rfl
      · rw [← (Prod.mk.inj (Option.some.inj h)).1]
        rfl
      · cases h

/-- Texts that are read back as what they are the starts of. -/
theorem plain_of_readElements {us ss : List (List Char)} (hcut : List.Forall₂ (fun u s => ∃ m, s = u.take m) us ss)
    {n : Nat} {t rest : List Char}
    (h : readElements n (joinQuoted ss ++ ']' :: t) = some (us.map .string, rest)) :
    ss = us ∧ ∀ u ∈ us, PlainText u := by
  induction hcut generalizing n with
  | nil => exact ⟨rfl, fun _ hu => (by cases hu)⟩
  | @cons u s us ss hus hcut ih =>
    obtain ⟨m, rfl⟩ := hus
    obtain ⟨tail, htail⟩ : ∃ tail,
        joinQuoted (u.take m :: ss) ++ ']' :: t = '"' :: (u.take m ++ '"' :: tail) := by
      cases ss with
      | nil => exact ⟨_, joinQuoted_singleton _ _⟩
      | cons s' ss => exact ⟨_, joinQuoted_cons_cons _ _ _ _⟩
    have hfirst := h
    rw [htail] at hfirst
    obtain ⟨k, u', t', rfl, hstring, hhead⟩ := readElements_of_quote hfirst
    obtain rfl : u = u' := by
      simpa only [List.map_cons, List.head?_cons, Option.some.injEq, JsonValue.string.injEq] using hhead
    obtain ⟨hlength, hplain, rfl⟩ := plain_of_readString hstring
    rw [List.take_of_length_le hlength] at h ⊢
    cases hcut with
    | nil =>
      refine ⟨rfl, fun v hv => ?_⟩
      rw [List.mem_singleton.mp hv]
      exact hplain
    | @cons u₂ s₂ us ss hus₂ hcut =>
      rw [joinQuoted_cons_cons, readElements_cons (readString_plain hplain)] at h
      change (readElements (k + 1) (joinQuoted (s₂ :: ss) ++ ']' :: t)).map _ = _ at h
      obtain ⟨⟨vs, r⟩, hrest, heq⟩ := Option.map_eq_some_iff.mp h
      simp only [List.map_cons, Prod.mk.injEq, List.cons.injEq, true_and] at heq
      obtain ⟨hvs, rfl⟩ := heq
      rw [hvs] at hrest
      obtain ⟨hsame, hplains⟩ := ih hrest
      refine ⟨by rw [hsame], fun v hv => ?_⟩
      rcases List.mem_cons.mp hv with rfl | hv
      · exact hplain
      · exact hplains v hv

end Elements

section Numbers

theorem readDigits_append {ds t : List Char} (hne : ds ≠ []) (hds : ∀ c ∈ ds, c.isDigit = true)
    (ht : t.takeWhile Char.isDigit = []) : readDigits (ds ++ t) = some (ds, t) := by
  have htake : (ds ++ t).takeWhile Char.isDigit = ds := by
    rw [List.takeWhile_append_of_pos hds, ht, List.append_nil]
  have hdrop : (ds ++ t).dropWhile Char.isDigit = t := by
    have hsplit := List.takeWhile_append_dropWhile (p := Char.isDigit) (l := ds ++ t)
    rw [htake] at hsplit
    exact List.append_cancel_left hsplit
  rw [readDigits, htake, hdrop]
  cases ds with
  | nil => exact absurd rfl hne
  | cons c ds => rfl

theorem toDigits_head {n : Nat} : (Nat.toDigits 10 n).head? = some '0' → n = 0 := by
  induction n using Nat.strongRecOn with
  | _ n ih =>
    intro h
    by_cases hn : n < 10
    · rw [Nat.toDigits_of_lt_base hn, List.head?_cons, Option.some.injEq] at h
      interval_cases n <;> first | rfl | exact absurd h (by decide)
    · rw [Nat.toDigits_of_base_le (by decide) (by omega),
        List.head?_append_of_ne_nil _ Nat.toDigits_ne_nil] at h
      have hzero := ih (n / 10) (by omega) h
      omega

/-- A number as it is printed, before a character that is in no number. -/
theorem readNumber_toDigits (n : Nat) (t : List Char) :
    readNumber (Nat.toDigits 10 n ++ '\x7d' :: t) = some (Nat.toDigits 10 n, '\x7d' :: t) := by
  have hdigits : ∀ c ∈ Nat.toDigits 10 n, c.isDigit = true :=
    fun c hc => Nat.isDigit_of_mem_toDigits (by decide) le_rfl hc
  have hread : readDigits (Nat.toDigits 10 n ++ '\x7d' :: t) = some (Nat.toDigits 10 n, '\x7d' :: t) :=
    readDigits_append Nat.toDigits_ne_nil hdigits rfl
  by_cases hn : n = 0
  · subst hn
    rfl
  · have hhead := mt toDigits_head hn
    cases htext : Nat.toDigits 10 n with
    | nil => exact absurd htext Nat.toDigits_ne_nil
    | cons c ds =>
      rw [htext] at hread hhead hdigits
      have hc : c ≠ '0' := fun hc => hhead (by rw [hc]; rfl)
      have hminus : c ≠ '-' := fun hc => by
        have hdigit := hdigits c List.mem_cons_self
        rw [hc] at hdigit
        cases hdigit
      have hint : readInt (c :: (ds ++ '\x7d' :: t)) = some (c :: ds, '\x7d' :: t) := by
        unfold readInt
        split
        · rename_i heq
          exact absurd (List.cons.inj heq).1 hc
        · exact hread
      rw [List.cons_append]
      unfold readNumber
      split
      rename_i sign s heq
      split at heq
      · rename_i heq'
        exact absurd (List.cons.inj heq').1 hminus
      · cases heq
        rw [hint]
        change some ((c :: ds) ++ [] ++ [], '\x7d' :: t) = _
        rw [List.append_nil, List.append_nil]

theorem readValue_toDigits (k n : Nat) (t : List Char) : readValue (k + 1) (Nat.toDigits 10 n ++ '\x7d' :: t) =
    some (.number (Nat.toDigits 10 n), '\x7d' :: t) := by
  have hnumber := readNumber_toDigits n t
  cases htext : Nat.toDigits 10 n with
  | nil => exact absurd htext Nat.toDigits_ne_nil
  | cons c ds =>
    have hdigit : c.isDigit = true := by
      refine Nat.isDigit_of_mem_toDigits (n := n) (by decide : 0 < 10) le_rfl ?_
      rw [htext]
      exact List.mem_cons_self
    have hother {d : Char} (hd : d.isDigit = false) : c ≠ d := fun hc => by
      rw [hc, hd] at hdigit
      cases hdigit
    have hspace : skipSpace (c :: (ds ++ '\x7d' :: t)) = c :: (ds ++ '\x7d' :: t) := by
      refine List.dropWhile_cons_of_neg ?_
      simp only [hother (d := ' ') rfl, hother (d := '\t') rfl, hother (d := '\n') rfl,
        hother (d := '\r') rfl]
      decide
    rw [htext, List.cons_append] at hnumber
    rw [List.cons_append, readValue, hspace]
    split
    all_goals rename_i heq
    · exact absurd (List.cons.inj heq).1 (hother rfl)
    · exact absurd (List.cons.inj heq).1 (hother rfl)
    · exact absurd (List.cons.inj heq).1 (hother rfl)
    · exact absurd (List.cons.inj heq).1 (hother rfl)
    · exact absurd (List.cons.inj heq).1 (hother rfl)
    · exact absurd (List.cons.inj heq).1 (hother rfl)
    · rw [hnumber]
      rfl

end Numbers

end VerusMiner
