import VerusMiner.ApiGroups

/-! The addresses the API is open to: how the option is read, and which client
is accepted. -/

namespace VerusMiner

structure Ip4Access where
  ip : Word
  mask : Word
  group : Char

section Setup

variable (undefinedShift : Word → Int → Word)

/-- A shift of 32 bits; by an amount that is not from 0 to 31 it gives anything. -/
def shl (x : Word) (n : Int) : Word := if 0 ≤ n ∧ n < 32 then x <<< n.toNat else undefinedShift x n

/-- A turn of the loop that builds a mask, and the amounts it shifts by. -/
def maskTurn (mask : Int) (m : Word × List Int) : Word × List Int :=
  let octet := shl undefinedShift 1 (mask.tmod 8)
  let place := 24 - 8 * (mask >>> (3 : Nat))
  (m.1 ||| shl undefinedShift octet place, m.2 ++ [mask.tmod 8, place])

/-- `while (mask-- >= 0)`, which has a last turn with -1. -/
def maskLoop : Nat → Word × List Int → Word × List Int
  | 0, m => maskTurn undefinedShift (-1) m
  | mask + 1, m => maskLoop mask (maskTurn undefinedShift mask m)

def setupOctets : List CString → Nat → Word → Option Word
  | [], _, ip => some ip
  | text :: texts, i, ip =>
    let octet := atoi text
    if octet < 0 ∨ 255 < octet then none
    else setupOctets texts (i + 1) (ip ||| BitVec.ofInt 32 octet <<< (24 - i * 8))

variable (apigroups : ApiGroups)

def setupEntryGroup (text : CString) : Char × CString :=
  match text with
  | c :: ':' :: rest =>
    if c.isAlpha then (if definedgroup apigroups c then c.toUpper else noprivgroup, rest)
    else (noprivgroup, text)
  | _ => (noprivgroup, text)

def allips : CString := "0/0".toList

def allip4 : CString := "0.0.0.0".toList

def localaddr : Word := 0x7f000001

/-- The entry, if it is valid, and the shifts made for its mask. -/
def setupEntry (text : CString) : Option Ip4Access × List Int :=
  let (group, addr) := setupEntryGroup apigroups text
  if addr = allips ∨ addr = allip4 then (some ⟨0, 0, group⟩, [])
  else
    match strchr addr '/' with
    | none =>
      ((setupOctets ((addr.splitOn '.').take 4) 0 0).map fun ip => ⟨ip &&& 0xffffffff, 0xffffffff, group⟩, [])
    | some slash =>
      let mask := atoi (addr.drop (slash + 1))
      if mask < 1 ∨ 32 < mask then (none, [])
      else
        let (mask, shifts) := maskLoop undefinedShift mask.toNat (0, [])
        ((setupOctets (((addr.take slash).splitOn '.').take 4) 0 0).map fun ip => ⟨ip &&& mask, mask, group⟩,
          shifts)

def skipBlanks (text : CString) : CString := text.dropWhile fun c => c = ' ' || c = '\t'

/-- The parts of the option that are taken for entries: not blank ones, unless
blanks are all that follows the last comma. -/
def entryTexts : List CString → List CString
  | [] => []
  | [text] => if text = [] then [] else [skipBlanks text]
  | text :: texts => (if skipBlanks text = [] then [] else [skipBlanks text]) ++ entryTexts texts

def setupIpaccess (optApiAllow : CString) : List Ip4Access :=
  (entryTexts (optApiAllow.splitOn ',')).filterMap fun text => (setupEntry undefinedShift apigroups text).1

def setupShifts (optApiAllow : CString) : List Int :=
  (entryTexts (optApiAllow.splitOn ',')).flatMap fun text => (setupEntry undefinedShift apigroups text).2

end Setup

/-- The group of a client that is accepted. Without an access list the API is
open to all if it is bound to all addresses, otherwise to the local one. -/
def checkConnect (ipaccess : Option (List Ip4Access)) (optApiBind : CString) (client : Word) : Option Char :=
  match ipaccess with
  | some entries => (entries.find? fun e => client &&& e.mask == e.ip).map Ip4Access.group
  | none => if optApiBind = allip4 ∨ client = localaddr then some noprivgroup else none

section Entries

structure Numeral where
  text : CString
  ne_nil : text ≠ []
  digits : ∀ c ∈ text, c.isDigit = true

def Numeral.value (n : Numeral) : Nat := decimal n.text

structure Octet extends Numeral where
  value_le : decimal text ≤ 255

structure PrefixLength extends Numeral where
  value_pos : 1 ≤ decimal text
  value_le : decimal text ≤ 32

inductive AddressRange where
  | all
  | net (a b c d : Octet) (len : Option PrefixLength)

structure AllowEntry where
  group : Option { c : Char // c.isAlpha = true }
  range : AddressRange

namespace AddressRange

def dotted (a b c d : Octet) : CString := ['.'].intercalate [a.text, b.text, c.text, d.text]

def text : AddressRange → CString
  | all => allips
  | net a b c d none => dotted a b c d
  | net a b c d (some len) => dotted a b c d ++ '/' :: len.text

def topBits : AddressRange → Nat
  | all => 0
  | net _ _ _ _ none => 32
  | net _ _ _ _ (some len) => len.value

def address : AddressRange → Word
  | all => 0
  | net a b c d _ => BitVec.ofNat 8 a.value ++ BitVec.ofNat 8 b.value ++ BitVec.ofNat 8 c.value ++
      BitVec.ofNat 8 d.value

def Covers (r : AddressRange) (client : Word) : Prop :=
  client >>> (32 - r.topBits) = r.address >>> (32 - r.topBits)

instance (r : AddressRange) (client : Word) : Decidable (r.Covers client) :=
  inferInstanceAs (Decidable (_ = _))

def hasLength : AddressRange → Bool
  | net _ _ _ _ (some _) => true
  | _ => false

end AddressRange

namespace AllowEntry

def text (e : AllowEntry) : CString :=
  match e.group with
  | none => e.range.text
  | some c => c.val :: ':' :: e.range.text

def groupIn (apigroups : ApiGroups) (e : AllowEntry) : Char :=
  match e.group with
  | none => noprivgroup
  | some c => if definedgroup apigroups c.val then c.val.toUpper else noprivgroup

end AllowEntry

def listOf (entries : List AllowEntry) : CString := [','].intercalate (entries.map AllowEntry.text)

def allowedGroup (apigroups : ApiGroups) (entries : List AllowEntry) (client : Word) : Option Char :=
  (entries.find? fun e => e.range.Covers client).map (AllowEntry.groupIn apigroups)

end Entries

section Texts

open AddressRange

def plainChar (c : Char) : Bool := c.isDigit || c == '.' || c == '/'

theorem Numeral.plain (n : Numeral) : ∀ c ∈ n.text, plainChar c = true := by
  intro c hc
  rw [plainChar, n.digits c hc]
  rfl

theorem Numeral.not_mem (n : Numeral) {c : Char} (h : c.isDigit = false) : c ∉ n.text := by
  intro hc
  rw [n.digits c hc] at h
  cases h

theorem dotted_eq (a b c d : Octet) :
    dotted a b c d = a.text ++ '.' :: (b.text ++ '.' :: (c.text ++ '.' :: d.text)) := by
  simp [dotted]

theorem dotted_plain (a b c d : Octet) : ∀ x ∈ dotted a b c d, plainChar x = true := by
  have hdot : plainChar '.' = true := rfl
  rw [dotted_eq, List.forall_mem_append, List.forall_mem_cons, List.forall_mem_append,
    List.forall_mem_cons, List.forall_mem_append, List.forall_mem_cons]
  exact ⟨a.plain, hdot, b.plain, hdot, c.plain, hdot, d.plain⟩

theorem text_plain (r : AddressRange) : ∀ x ∈ r.text, plainChar x = true := by
  cases r with
  | all => exact List.all_eq_true.mp rfl
  | net a b c d len =>
    cases len with
    | none => exact dotted_plain a b c d
    | some len =>
      rw [AddressRange.text, List.forall_mem_append, List.forall_mem_cons]
      exact ⟨dotted_plain a b c d, rfl, len.plain⟩

theorem text_head (r : AddressRange) : ∃ x rest, r.text = x :: rest ∧ x.isDigit = true := by
  cases r with
  | all => exact ⟨'0', "/0".toList, by decide, by decide⟩
  | net a b c d len =>
    obtain ⟨x, rest, ha⟩ := List.exists_cons_of_ne_nil a.ne_nil
    have hx : x.isDigit = true := a.digits x (ha ▸ List.mem_cons_self)
    cases len with
    | none => exact ⟨x, _, by rw [AddressRange.text, dotted_eq, ha, List.cons_append], hx⟩
    | some len =>
      exact ⟨x, _, by rw [AddressRange.text, dotted_eq, ha, List.cons_append, List.cons_append], hx⟩

theorem setupEntryGroup_text (apigroups : ApiGroups) (e : AllowEntry) :
    setupEntryGroup apigroups e.text = (e.groupIn apigroups, e.range.text) := by
  obtain ⟨group, range⟩ := e
  cases group with
  | none =>
    have hcolon : ':' ∉ range.text := fun hc => absurd (text_plain range _ hc) (by decide)
    change setupEntryGroup apigroups range.text = (noprivgroup, range.text)
    unfold setupEntryGroup
    split
    · rename_i htext
      rw [htext] at hcolon
      exact absurd (List.mem_cons_of_mem _ List.mem_cons_self) hcolon
    · rfl
  | some c =>
    change setupEntryGroup apigroups (c.val :: ':' :: range.text) = _
    rw [setupEntryGroup, if_pos c.property]
    rfl

theorem or_octet {ip : Word} {v o s : Nat} (hip : ip.toNat = 2 ^ (s + 8) * v) (ho : o ≤ 255)
    (hs : s ≤ 24) : (ip ||| BitVec.ofInt 32 (o : Int) <<< s).toNat = 2 ^ s * (v * 256 + o) := by
  have hpow : 2 ^ (s + 8) = 2 ^ s * 256 := pow_add 2 s 8
  have hplace : o * 2 ^ s < 2 ^ (s + 8) := by
    rw [hpow, Nat.mul_comm]
    exact Nat.mul_lt_mul_of_pos_left (by omega) (Nat.two_pow_pos s)
  have hword : 2 ^ (s + 8) ≤ 2 ^ 32 := Nat.pow_le_pow_right (by omega) (by omega)
  -- the octet goes below all the bits set before
  rw [BitVec.toNat_or, BitVec.toNat_shiftLeft, BitVec.ofInt_natCast, BitVec.toNat_ofNat,
    Nat.mod_eq_of_lt (show o < 2 ^ 32 by omega), Nat.shiftLeft_eq, Nat.mod_eq_of_lt (by omega), hip,
    ← Nat.two_pow_add_eq_or_of_lt hplace, hpow]
  ring

theorem atoi_octet (o : Octet) : atoi o.text = (o.value : Int) :=
  atoi_of_digits o.digits (lt_of_le_of_lt o.value_le (by decide))

theorem setupOctets_cons (o : Octet) (texts : List CString) (i : Nat) (ip : Word) :
    setupOctets (o.text :: texts) i ip =
      setupOctets texts (i + 1) (ip ||| BitVec.ofInt 32 (o.value : Int) <<< (24 - i * 8)) := by
  have hle : o.value ≤ 255 := o.value_le
  rw [setupOctets, atoi_octet]
  exact if_neg (by omega)

theorem setupOctets_dotted (a b c d : Octet) (len : Option PrefixLength) :
    setupOctets (((dotted a b c d).splitOn '.').take 4) 0 0 = some (net a b c d len).address := by
  have hsplit : (dotted a b c d).splitOn '.' = [a.text, b.text, c.text, d.text] := by
    refine List.splitOn_intercalate '.' ?_ (List.cons_ne_nil _ _)
    simp [Numeral.not_mem]
  have hzero : (0 : Word).toNat = 2 ^ (24 + 8) * 0 := rfl
  have ha := or_octet hzero a.value_le (Nat.le_refl _)
  have hb := or_octet (s := 16) ha b.value_le (by omega)
  have hc := or_octet (s := 8) hb c.value_le (by omega)
  have hd := or_octet (s := 0) hc d.value_le (by omega)
  rw [hsplit, List.take_of_length_le (by simp), setupOctets_cons, setupOctets_cons, setupOctets_cons,
    setupOctets_cons, setupOctets, Option.some.injEq]
  apply BitVec.eq_of_toNat_eq
  refine hd.trans ?_
  have hbyte : ∀ o : Octet, (BitVec.ofNat 8 o.value).toNat = o.value := fun o =>
    Nat.mod_eq_of_lt (Nat.lt_succ_of_le o.value_le)
  rw [address, toNat_append_byte, toNat_append_byte, toNat_append_byte, hbyte, hbyte, hbyte, hbyte]
  simp [Numeral.value]

theorem slash_not_mem_dotted (a b c d : Octet) : '/' ∉ dotted a b c d := by
  have hslash : ∀ o : Octet, '/' ∉ o.text := fun o => o.not_mem (by decide)
  rw [dotted_eq]
  simp [hslash]

theorem strchr_dotted (a b c d : Octet) (rest : CString) :
    strchr (dotted a b c d ++ '/' :: rest) '/' = some (dotted a b c d).length :=
  strchr_eq_some_iff.mpr ⟨_, _, rfl, slash_not_mem_dotted a b c d, rfl⟩

/-- The text 0.0.0.0 without a length, which is taken for all addresses. -/
def AddressRange.isAllip4 (r : AddressRange) : Bool := r.text == allip4

variable (undefinedShift : Word → Int → Word) (apigroups : ApiGroups)

def keptEntry (e : AllowEntry) : Ip4Access :=
  if e.range.topBits = 0 ∨ e.range.isAllip4 = true then ⟨0, 0, e.groupIn apigroups⟩
  else ⟨e.range.address, 0xffffffff, e.groupIn apigroups⟩

theorem setupEntry_text (e : AllowEntry) :
    setupEntry undefinedShift apigroups e.text =
      if e.range.text = allips ∨ e.range.text = allip4 then (some ⟨0, 0, e.groupIn apigroups⟩, [])
      else
        match strchr e.range.text '/' with
        | none =>
          ((setupOctets ((e.range.text.splitOn '.').take 4) 0 0).map fun ip =>
            ⟨ip &&& 0xffffffff, 0xffffffff, e.groupIn apigroups⟩, [])
        | some slash =>
          let mask := atoi (e.range.text.drop (slash + 1))
          if mask < 1 ∨ 32 < mask then (none, [])
          else
            let (mask, shifts) := maskLoop undefinedShift mask.toNat (0, [])
            ((setupOctets (((e.range.text.take slash).splitOn '.').take 4) 0 0).map fun ip =>
              ⟨ip &&& mask, mask, e.groupIn apigroups⟩, shifts) := by
  rw [setupEntry, setupEntryGroup_text]

theorem setupEntry_no_length {e : AllowEntry} (h : e.range.hasLength = false) :
    setupEntry undefinedShift apigroups e.text = (some (keptEntry apigroups e), []) := by
  obtain ⟨group, range⟩ := e
  rw [setupEntry_text]
  cases range with
  | all => rfl
  | net a b c d len =>
    cases len with
    | some len => cases h
    | none =>
      have hslash := slash_not_mem_dotted a b c d
      have hall : dotted a b c d ≠ allips := fun heq => hslash (heq ▸ by decide)
      have htext : (AllowEntry.mk group (net a b c d none)).range.text = dotted a b c d := rfl
      rw [htext]
      by_cases hzero : dotted a b c d = allip4
      · rw [if_pos (.inr hzero), keptEntry, if_pos (.inr (beq_iff_eq.mpr hzero))]
      · have hnot : ¬((AllowEntry.mk group (net a b c d none)).range.topBits = 0 ∨
            (AllowEntry.mk group (net a b c d none)).range.isAllip4 = true) := by
          rintro (hbits | hbare)
          · cases hbits
          · exact hzero (beq_iff_eq.mp hbare)
        rw [if_neg (not_or.mpr ⟨hall, hzero⟩), keptEntry, if_neg hnot, strchr_eq_none_iff.mpr hslash]
        simp only
        rw [setupOctets_dotted a b c d none, Option.map_some]
        exact congrArg (fun ip => (some (⟨ip, 0xffffffff, _⟩ : Ip4Access), [])) BitVec.and_allOnes

theorem mem_maskLoop (mask : Nat) (m : Word × List Int) : -1 ∈ (maskLoop undefinedShift mask m).2 := by
  induction mask generalizing m with
  | zero => exact List.mem_append_right _ List.mem_cons_self
  | succ mask ih => exact ih _

theorem setupEntry_length {e : AllowEntry} (h : e.range.hasLength = true) :
    -1 ∈ (setupEntry undefinedShift apigroups e.text).2 := by
  obtain ⟨group, range⟩ := e
  rw [setupEntry_text]
  cases range with
  | all => cases h
  | net a b c d len =>
    cases len with
    | none => cases h
    | some len =>
      have hdot : '.' ∈ dotted a b c d ++ '/' :: len.text := by
        rw [dotted_eq]
        simp
      have hall : dotted a b c d ++ '/' :: len.text ≠ allips := fun heq => absurd (heq ▸ hdot) (by decide)
      have hslash : '/' ∈ dotted a b c d ++ '/' :: len.text := by simp
      have hzero : dotted a b c d ++ '/' :: len.text ≠ allip4 := fun heq =>
        absurd (heq ▸ hslash) (by decide)
      have hatoi : atoi len.text = (len.value : Int) :=
        atoi_of_digits len.digits (lt_of_le_of_lt len.value_le (by decide))
      have hpos : 1 ≤ len.value := len.value_pos
      have hle : len.value ≤ 32 := len.value_le
      have hdrop : (dotted a b c d ++ '/' :: len.text).drop ((dotted a b c d).length + 1) = len.text := by
        simp
      have htext : (AllowEntry.mk group (net a b c d (some len))).range.text =
          dotted a b c d ++ '/' :: len.text := rfl
      rw [htext, if_neg (not_or.mpr ⟨hall, hzero⟩), strchr_dotted]
      simp only [hdrop, hatoi]
      rw [if_neg (by omega)]
      -- whatever the length, the last turn shifts by -1
      exact mem_maskLoop undefinedShift _ _

theorem entry_text_head (e : AllowEntry) : ∃ x rest, e.text = x :: rest ∧ x ≠ ' ' ∧ x ≠ '\t' := by
  obtain ⟨group, range⟩ := e
  cases group with
  | none =>
    obtain ⟨x, rest, htext, hx⟩ := text_head range
    refine ⟨x, rest, htext, ?_, ?_⟩
    all_goals
      rintro rfl
      exact absurd hx (by decide)
  | some c =>
    refine ⟨c.val, _, rfl, ?_, ?_⟩
    all_goals
      intro hc
      exact absurd (hc ▸ c.property) (by decide)

theorem comma_not_mem_text (e : AllowEntry) : ',' ∉ e.text := by
  obtain ⟨group, range⟩ := e
  have hrange : ',' ∉ range.text := fun hc => absurd (text_plain range _ hc) (by decide)
  cases group with
  | none => exact hrange
  | some c =>
    intro hmem
    rcases List.mem_cons.mp hmem with hc | hmem
    · exact absurd (hc ▸ c.property) (by decide)
    · rcases List.mem_cons.mp hmem with hcolon | hmem
      · exact absurd hcolon (by decide)
      · exact hrange hmem

theorem skipBlanks_text (e : AllowEntry) : skipBlanks e.text = e.text ∧ e.text ≠ [] := by
  obtain ⟨x, rest, htext, hspace, htab⟩ := entry_text_head e
  rw [htext, skipBlanks]
  simp [hspace, htab]

theorem entryTexts_texts (entries : List AllowEntry) :
    entryTexts (entries.map AllowEntry.text) = entries.map AllowEntry.text := by
  induction entries with
  | nil => rfl
  | cons e entries ih =>
    obtain ⟨hskip, hne⟩ := skipBlanks_text e
    cases entries with
    | nil =>
      rw [List.map_singleton, entryTexts, if_neg hne, hskip]
    | cons e' entries =>
      rw [List.map_cons, List.map_cons, entryTexts, ← List.map_cons, ih, hskip, if_neg hne]
      · rfl
      · simp

theorem entryTexts_listOf (entries : List AllowEntry) :
    entryTexts ((listOf entries).splitOn ',') = entries.map AllowEntry.text := by
  cases entries with
  | nil => rfl
  | cons e entries =>
    rw [listOf, List.splitOn_intercalate ',' (fun text htext => ?_) (by simp), entryTexts_texts]
    obtain ⟨e', _, rfl⟩ := List.mem_map.mp htext
    exact comma_not_mem_text e'

theorem setupIpaccess_listOf {entries : List AllowEntry} (h : ∀ e ∈ entries, e.range.hasLength = false) :
    setupIpaccess undefinedShift apigroups (listOf entries) = entries.map (keptEntry apigroups) := by
  rw [setupIpaccess, entryTexts_listOf, List.filterMap_map]
  induction entries with
  | nil => rfl
  | cons e entries ih =>
    obtain ⟨he, hentries⟩ := List.forall_mem_cons.mp h
    rw [List.filterMap_cons, Function.comp_apply, setupEntry_no_length _ _ he, List.map_cons, ih hentries]

theorem setupShifts_listOf (entries : List AllowEntry) :
    setupShifts undefinedShift apigroups (listOf entries) =
      entries.flatMap fun e => (setupEntry undefinedShift apigroups e.text).2 := by
  rw [setupShifts, entryTexts_listOf, List.flatMap_map]

theorem shifts_defined_iff (entries : List AllowEntry) :
    (∀ n ∈ setupShifts undefinedShift apigroups (listOf entries), 0 ≤ n ∧ n ≤ 31) ↔
      ∀ e ∈ entries, e.range.hasLength = false := by
  rw [setupShifts_listOf]
  constructor
  · intro h e he
    by_contra hlength
    have hshift := setupEntry_length undefinedShift apigroups (Bool.eq_true_of_not_eq_false hlength)
    have hbounds := h (-1) (List.mem_flatMap.mpr ⟨e, he, hshift⟩)
    omega
  · intro h n hn
    obtain ⟨e, he, hn⟩ := List.mem_flatMap.mp hn
    rw [setupEntry_no_length _ _ (h e he)] at hn
    cases hn

end Texts

section Matching

open AddressRange

variable {e : AllowEntry} {client : Word}

theorem covers_all (group : Option { c : Char // c.isAlpha = true }) :
    (AllowEntry.mk group .all).range.Covers client := by
  change client >>> 32 = (0 : Word) >>> 32
  rw [BitVec.ushiftRight_eq_zero (Nat.le_refl 32)]
  rfl

theorem covers_host {a b c d : Octet} : (net a b c d none).Covers client ↔ client = (net a b c d none).address := by
  change client >>> 0 = (net a b c d none).address >>> 0 ↔ _
  rw [BitVec.ushiftRight_zero, BitVec.ushiftRight_zero]

theorem address_of_isAllip4 {r : AddressRange} (h : r.isAllip4 = true) :
    r.address = 0 ∧ ∃ a b c d, r = net a b c d none := by
  have htext := beq_iff_eq.mp h
  cases r with
  | all => exact absurd htext (by decide)
  | net a b c d len =>
    cases len with
    | some len =>
      have hslash : '/' ∈ (net a b c d (some len)).text := List.mem_append_right _ List.mem_cons_self
      exact absurd (htext ▸ hslash) (by decide)
    | none =>
      have hoctets := setupOctets_dotted a b c d none
      have hdotted : dotted a b c d = allip4 := htext
      rw [hdotted] at hoctets
      refine ⟨(Option.some.inj hoctets).symm, a, b, c, d, rfl⟩

variable (apigroups : ApiGroups)

/-- A client that matches an entry as it is kept is covered by it, unless the
entry is the bare 0.0.0.0. -/
theorem keptEntry_matches_iff (h : e.range.hasLength = false) :
    (client &&& (keptEntry apigroups e).mask == (keptEntry apigroups e).ip) = true ↔
      e.range.isAllip4 = true ∨ e.range.Covers client := by
  obtain ⟨group, range⟩ := e
  rw [beq_iff_eq, keptEntry]
  cases range with
  | all =>
    rw [if_pos (.inl rfl)]
    exact ⟨fun _ => .inr (covers_all group), fun _ => BitVec.and_zero⟩
  | net a b c d len =>
    cases len with
    | some len => cases h
    | none =>
      rw [covers_host]
      split_ifs with hkept
      · have hbare := hkept.resolve_left (by rintro ⟨⟩)
        exact ⟨fun _ => .inl hbare, fun _ => BitVec.and_zero⟩
      · have hbare := (not_or.mp hkept).2
        have hmask : client &&& (0xffffffff : Word) = client := BitVec.and_allOnes
        exact ⟨fun heq => .inr (hmask.symm.trans heq), fun hor => hmask.trans (hor.resolve_left hbare)⟩

theorem keptEntry_group : (keptEntry apigroups e).group = e.groupIn apigroups := by
  rw [keptEntry]
  split_ifs <;> rfl

theorem checkConnect_kept (entries : List AllowEntry) (h : ∀ e ∈ entries, e.range.hasLength = false)
    (optApiBind : CString) (client : Word) :
    checkConnect (some (entries.map (keptEntry apigroups))) optApiBind client =
      (entries.find? fun e => decide (e.range.isAllip4 = true ∨ e.range.Covers client)).map
        (AllowEntry.groupIn apigroups) := by
  rw [checkConnect]
  induction entries with
  | nil => rfl
  | cons e entries ih =>
    obtain ⟨he, hentries⟩ := List.forall_mem_cons.mp h
    have hmatches : (client &&& (keptEntry apigroups e).mask == (keptEntry apigroups e).ip) = true ↔
        e.range.isAllip4 = true ∨ e.range.Covers client := keptEntry_matches_iff apigroups he
    rw [List.map_cons, List.find?_cons, List.find?_cons]
    by_cases hor : e.range.isAllip4 = true ∨ e.range.Covers client
    · rw [hmatches.mpr hor, decide_eq_true hor]
      exact congrArg some (keptEntry_group apigroups)
    · rw [Bool.eq_false_iff.mpr fun heq => hor (hmatches.mp heq), decide_eq_false hor]
      exact ih hentries

/-- The first bare 0.0.0.0 takes no client that is not covered before it, and
that the entries after it would not give the same group. -/
def BareZeroHarmless (entries : List AllowEntry) (client : Word) : Prop :=
  ∀ pre e post, entries = pre ++ e :: post → e.range.isAllip4 = true →
    (∀ e' ∈ pre, e'.range.isAllip4 = false ∧ ¬e'.range.Covers client) →
    allowedGroup apigroups post client = some (e.groupIn apigroups)

theorem bareZeroHarmless_cons {entries : List AllowEntry} :
    BareZeroHarmless apigroups (e :: entries) client ↔
      (e.range.isAllip4 = true → allowedGroup apigroups entries client = some (e.groupIn apigroups)) ∧
      (e.range.isAllip4 = false → ¬e.range.Covers client → BareZeroHarmless apigroups entries client) := by
  constructor
  · intro h
    refine ⟨fun hbare => h [] e entries rfl hbare (by simp), fun hnot hcovers pre e' post hsplit hbare hpre => ?_⟩
    exact h (e :: pre) e' post (by rw [hsplit]; rfl) hbare (List.forall_mem_cons.mpr ⟨⟨hnot, hcovers⟩, hpre⟩)
  · rintro ⟨hfirst, hrest⟩ pre e' post hsplit hbare hpre
    cases pre with
    | nil =>
      obtain ⟨rfl, rfl⟩ := List.cons.inj hsplit
      exact hfirst hbare
    | cons e'' pre =>
      obtain ⟨rfl, htail⟩ := List.cons.inj hsplit
      obtain ⟨⟨hnot, hcovers⟩, hpre⟩ := List.forall_mem_cons.mp hpre
      exact hrest hnot hcovers pre e' post htail hbare hpre

theorem checkConnect_eq_iff (entries : List AllowEntry) (hclient : client ≠ 0) :
    (entries.find? fun e => decide (e.range.isAllip4 = true ∨ e.range.Covers client)).map
        (AllowEntry.groupIn apigroups) = allowedGroup apigroups entries client ↔
      BareZeroHarmless apigroups entries client := by
  induction entries with
  | nil =>
    refine ⟨fun _ pre e post hsplit => ?_, fun _ => rfl⟩
    cases pre <;> cases hsplit
  | cons e entries ih =>
    rw [bareZeroHarmless_cons, ← ih, allowedGroup, List.find?_cons, List.find?_cons]
    cases hbare : e.range.isAllip4 with
    | true =>
      obtain ⟨hzero, a, b, c, d, hnet⟩ := address_of_isAllip4 hbare
      have hcovers : ¬e.range.Covers client := by
        rw [hnet, covers_host, ← hnet, hzero]
        exact hclient
      simp only [true_or, decide_true, decide_eq_false hcovers, Option.map_some, forall_true_left,
        Bool.true_eq_false, false_imp_iff, and_true]
      exact eq_comm
    | false =>
      by_cases hcovers : e.range.Covers client
      · simp [hcovers]
      · simp [hcovers, allowedGroup]

variable (undefinedShift : Word → Int → Word)

/-- A list is kept as it was given exactly if it has no prefix lengths, and a
bare 0.0.0.0 in it changes nothing for the other addresses. -/
theorem accessList_iff (entries : List AllowEntry) (optApiBind : CString) :
    ((∀ client, checkConnect (some (setupIpaccess undefinedShift apigroups (listOf entries))) optApiBind
          client = allowedGroup apigroups entries client) ∧
        ∀ n ∈ setupShifts undefinedShift apigroups (listOf entries), 0 ≤ n ∧ n ≤ 31) ↔
      (∀ e ∈ entries, e.range.hasLength = false) ∧
        ∀ client, client ≠ 0 → BareZeroHarmless apigroups entries client := by
  rw [shifts_defined_iff, and_comm]
  refine and_congr_right fun hlength => ?_
  rw [setupIpaccess_listOf undefinedShift apigroups hlength]
  simp only [checkConnect_kept apigroups entries hlength]
  constructor
  · intro h client hclient
    exact (checkConnect_eq_iff apigroups entries hclient).mp (h client)
  · intro h client
    by_cases hclient : client = 0
    · -- a bare 0.0.0.0 does cover this one
      have hbare : ∀ e : AllowEntry, e.range.isAllip4 = true → e.range.Covers client := by
        intro e hbare
        obtain ⟨hzero, a, b, c, d, hnet⟩ := address_of_isAllip4 hbare
        rw [hnet, covers_host, ← hnet, hzero, hclient]
      simp only [allowedGroup, or_iff_right_of_imp (hbare _)]
    · exact (checkConnect_eq_iff apigroups entries hclient).mpr (h client hclient)

end Matching

section Masks

/-- A shift as the processor makes it, by the amount modulo 32. -/
def wrappedShift (x : Word) (n : Int) : Word := x <<< (n % 32).toNat

/-- The place in an address of the bit that turn `i` sets: the octets come
from the left, the bits of an octet from the right. -/
def turnBit (i : Nat) : Nat := 24 - 8 * (i / 8) + i % 8

theorem shl_cast (undefinedShift : Word → Int → Word) (x : Word) {n : Nat} (hn : n < 32) :
    shl undefinedShift x n = x <<< n := by
  rw [shl, if_pos (by omega), Int.toNat_natCast]

theorem maskTurn_natCast {i : Nat} (hi : i < 32) (undefinedShift : Word → Int → Word) (m : Word × List Int) :
    (maskTurn undefinedShift i m).1 = m.1 ||| BitVec.twoPow 32 (turnBit i) := by
  have hbit : (i : Int).tmod 8 = (i % 8 : Nat) := rfl
  have hplace : 24 - 8 * ((i : Int) >>> (3 : Nat)) = (24 - 8 * (i / 8) : Nat) := by
    have hoctet : (i : Int) >>> (3 : Nat) = (i / 8 : Nat) := congrArg Nat.cast (Nat.shiftRight_eq_div_pow i 3)
    rw [hoctet]
    omega
  rw [maskTurn, hbit, hplace, shl_cast _ _ (by omega), shl_cast _ _ (by omega), ← BitVec.shiftLeft_add,
    BitVec.twoPow_eq, turnBit, Nat.add_comm]
  rfl

theorem maskTurn_last (m : Word × List Int) : (maskTurn wrappedShift (-1) m).1 = m.1 ||| BitVec.twoPow 32 31 := rfl

/-- Turn `-1` sets the leftmost bit, and every other turn its own. -/
theorem getLsbD_maskLoop {p : Nat} (hp : p ≤ 32) (m : Word × List Int) {b : Nat} :
    (maskLoop wrappedShift p m).1.getLsbD b = true ↔ m.1.getLsbD b = true ∨ b = 31 ∨ ∃ i < p, turnBit i = b := by
  induction p generalizing m with
  | zero =>
    rw [maskLoop, maskTurn_last, BitVec.getLsbD_or, BitVec.getLsbD_twoPow, Bool.or_eq_true, Bool.and_eq_true,
      decide_eq_true_eq, decide_eq_true_eq, eq_comm (a := 31)]
    simp only [Nat.not_lt_zero, false_and, exists_false, or_false, Nat.lt_succ_self, true_and]
  | succ p ih =>
    have hturn : turnBit p < 32 := by rw [turnBit]; omega
    rw [maskLoop, ih (by omega), maskTurn_natCast (by omega), BitVec.getLsbD_or, BitVec.getLsbD_twoPow,
      Nat.exists_lt_succ_right]
    simp only [Bool.or_eq_true, hturn, decide_true, Bool.true_and, decide_eq_true_eq]
    rw [or_assoc, or_comm (a := turnBit p = b), or_assoc]

/-- With such shifts the mask is right for whole octets only. -/
theorem maskLoop_eq_iff (p : Nat) (hp : 1 ≤ p) (hle : p ≤ 32) :
    (maskLoop wrappedShift p (0, [])).1 = BitVec.allOnes 32 <<< (32 - p) ↔ p % 8 = 0 := by
  have hmask {b : Nat} : (maskLoop wrappedShift p (0, [])).1.getLsbD b = true ↔
      b = 31 ∨ ∃ i < p, turnBit i = b := by
    have hzero : ((0, []) : Word × List Int).1.getLsbD b = false := BitVec.getLsbD_zero
    rw [getLsbD_maskLoop hle, hzero, or_iff_right Bool.false_ne_true]
  have hwanted {b : Nat} (hb : b < 32) : (BitVec.allOnes 32 <<< (32 - p)).getLsbD b = true ↔ 32 - p ≤ b := by
    have hback : b - (32 - p) < 32 := by omega
    rw [BitVec.getLsbD_shiftLeft, BitVec.getLsbD_allOnes, decide_eq_true hb, decide_eq_true hback]
    simp
  constructor
  · intro heq
    by_contra hrest
    -- the last octet that is begun has its bits set from the wrong side
    have hset := hmask.mpr (.inr ⟨8 * (p / 8), by omega, rfl⟩)
    rw [heq, hwanted (by rw [turnBit]; omega), turnBit] at hset
    omega
  · intro hrest
    apply BitVec.eq_of_getLsbD_eq
    intro b hb
    rw [Bool.eq_iff_iff, hmask, hwanted hb]
    constructor
    · rintro (rfl | ⟨i, hi, rfl⟩)
      · omega
      · rw [turnBit]
        omega
    · intro hle
      refine .inr ⟨8 * (3 - b / 8) + b % 8, by omega, ?_⟩
      rw [turnBit]
      omega

def octetOf (text : CString) (ne_nil : text ≠ []) (digits : text.all Char.isDigit = true)
    (value_le : decimal text ≤ 255) : Octet := ⟨⟨text, ne_nil, List.all_eq_true.mp digits⟩, value_le⟩

def netEntry : AllowEntry where
  group := none
  range := .net (octetOf ['1', '0'] (by decide) rfl (by decide)) (octetOf ['1', '6'] (by decide) rfl (by decide))
    (octetOf ['0'] (by decide) rfl (by decide)) (octetOf ['0'] (by decide) rfl (by decide))
    (some ⟨⟨['1', '2'], by decide, List.all_eq_true.mp rfl⟩, by decide, by decide⟩)

/-- The client 10.32.0.1 is let in, and a shift by -1 is made. -/
theorem wrong_mask_accepts :
    ∃ entries client, checkConnect (some (setupIpaccess wrappedShift (fun _ => none) (listOf entries)))
        allip4 client = some noprivgroup ∧
      allowedGroup (fun _ => none) entries client = none ∧
      -1 ∈ setupShifts wrappedShift (fun _ => none) (listOf entries) :=
  ⟨[netEntry], 0x0a200001, by decide +kernel, by decide +kernel, by decide +kernel⟩

end Masks

end VerusMiner
