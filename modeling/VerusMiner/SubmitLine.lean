import VerusMiner.Lib.JsonText
import VerusMiner.Workio

/-! Whether a pool reads back from a submitted line what was put into it: the
user and the job id stand in it as they are. -/

namespace VerusMiner

/-- `char user[192]` of a pool. -/
def PoolUser : Type := { s : CString // s.length < 192 }

/-- A copy of a work that was generated for a job of this id. -/
def WorkOfJob (jobId : CString) (work : Work) : Prop :=
  ∃ optDifficulty sctx buf gWork, sctx.job.jobId = some jobId ∧
    stratumGenWork optDifficulty sctx buf = some gWork ∧ work.jobId = gWork.jobId

def Submission.params (s : Submission) (user jobId : CString) : List CString :=
  [user, jobId, s.timehex, s.noncestr, s.solhex]

def paramsName : CString := ['p', 'a', 'r', 'a', 'm', 's']

/-- One line, one object, and the parameters in it are the ones meant. -/
structure ReadBack (line user jobId : CString) (s : Submission) : Prop where
  oneLine : '\n' ∉ line
  parsed : ∃ members, parseJson line = some (.object members) ∧ (∃ v, (paramsName, v) ∈ members) ∧
    ∀ v, (paramsName, v) ∈ members → v = .array ((s.params user jobId).map .string)

/-- The whole line, before the end of its buffer cuts it off. -/
def submitText (user : CString) (s : Submission) (sharesCount : Word) : CString :=
  '\x7b' :: (inQuotes ['m', 'e', 't', 'h', 'o', 'd'] ++ ':' ::
    (inQuotes ['m', 'i', 'n', 'i', 'n', 'g', '.', 's', 'u', 'b', 'm', 'i', 't'] ++ ',' ::
      (inQuotes paramsName ++ ':' :: '[' :: (joinQuoted (s.params user s.jobid) ++ ']' :: ',' :: ' ' ::
        (inQuotes ['i', 'd'] ++ ':' :: (sprintfU (sharesCount + 10) ++ ['\x7d']))))))

section Text

theorem submitLine_take (user : CString) (s : Submission) (sharesCount : Word) :
    submitLine user s sharesCount = (submitText user s sharesCount).take (20 * 1024 - 1) := by
  refine congrArg (List.take _) ?_
  simp only [submitText, joinQuoted, Submission.params, List.append_assoc, List.map_cons,
    List.map_nil]
  rfl

def HexText (s : CString) : Prop := ∀ c ∈ s, ∃ d < 16, c = hexDigit d

theorem hexText_hexEncode (bs : List Byte) : HexText (hexEncode bs) := by
  intro c hc
  obtain ⟨b, _, hc⟩ := List.mem_flatMap.mp hc
  have hb := b.isLt
  rcases List.mem_cons.mp hc with rfl | hc
  · exact ⟨b.toNat / 16, by omega, rfl⟩
  · rw [List.mem_singleton.mp hc]
    exact ⟨b.toNat % 16, by omega, rfl⟩

theorem hexText_sprintfX (n : Nat) (v : Word) : HexText (sprintfX n v) := by
  intro c hc
  obtain ⟨i, _, rfl⟩ := List.mem_map.mp hc
  exact ⟨_, Nat.mod_lt _ (by decide), rfl⟩

theorem hexText_solutionHex (work : Work) : HexText (solutionHex work) := by
  intro c hc
  rcases List.mem_append.mp hc with hc | hc
  · rcases List.mem_append.mp hc with hc | hc
    · exact hexText_hexEncode _ c (List.mem_of_mem_take hc)
    · exact hexText_hexEncode _ c hc
  · exact hexText_hexEncode _ c (List.mem_of_mem_drop hc)

theorem hexDigit_text {d : Nat} (hd : d < 16) :
    PlainChar (hexDigit d) ∧ (hexDigit d).toNat < 0x80 := by
  unfold PlainChar
  interval_cases d <;> decide

theorem HexText.plain {s : CString} (h : HexText s) : PlainText s := by
  intro c hc
  obtain ⟨d, hd, rfl⟩ := h c hc
  exact (hexDigit_text hd).1

theorem HexText.ascii {s : CString} (h : HexText s) : ∀ c ∈ s, c.toNat < 0x80 := by
  intro c hc
  obtain ⟨d, hd, rfl⟩ := h c hc
  exact (hexDigit_text hd).2

theorem length_solutionHex (work : Work) : (solutionHex work).length ≤ 2844 := by
  simp only [solutionHex, cbin2hex, List.length_append, List.length_take, List.length_drop,
    length_hexEncode, length_bytesAt]
  decide

theorem length_sprintfU (v : Word) : (sprintfU v).length ≤ 10 := by
  have hv := v.isLt
  exact (Nat.length_toDigits_le_iff (by decide) (by decide)).mpr (by omega)

/-- Nothing is cut off: user and job id are bounded, and so is the rest. -/
theorem submitLine_eq (user : PoolUser) (size : Nat) {work : Work} (hjob : work.jobId.length ≤ 127)
    (sharesCount : Word) : submitLine user.1 (verusStratumSubmit size work) sharesCount =
      submitText user.1 (verusStratumSubmit size work) sharesCount := by
  have huser := user.2
  have hsolution := length_solutionHex work
  have hcount := length_sprintfU (sharesCount + 10)
  have hlength : (submitText user.1 (verusStratumSubmit size work) sharesCount).length ≤ 20 * 1024 - 1 := by
    simp only [submitText, joinQuoted, Submission.params, inQuotes, verusStratumSubmit, List.map_cons,
      List.map_nil, List.intercalate_cons_cons, List.intercalate_singleton, List.length_cons,
      List.length_append, List.length_nil, cbin2hex, length_hexEncode, length_bytesAt, sprintfX,
      List.length_map, List.length_reverse, List.length_range, List.length_drop, paramsName]
    omega
  rw [submitLine_take, List.take_of_length_le hlength]

end Text

section Read

/-- The line behind its brace, and from its second and third member on. -/
def idMember (sharesCount : Word) : CString :=
  ' ' :: (inQuotes ['i', 'd'] ++ ':' :: (sprintfU (sharesCount + 10) ++ ['\x7d']))

def paramsMember (params : List CString) (sharesCount : Word) : CString :=
  inQuotes paramsName ++ ':' :: '[' :: (joinQuoted params ++ ']' :: ',' :: idMember sharesCount)

def methodName : CString := ['m', 'e', 't', 'h', 'o', 'd']

def methodValue : CString := ['m', 'i', 'n', 'i', 'n', 'g', '.', 's', 'u', 'b', 'm', 'i', 't']

theorem submitText_eq (user : CString) (s : Submission) (sharesCount : Word) :
    submitText user s sharesCount = '\x7b' :: (inQuotes methodName ++ ':' ::
      (inQuotes methodValue ++ ',' :: paramsMember (s.params user s.jobid) sharesCount)) := rfl

theorem plain_names :
    PlainText methodName ∧ PlainText methodValue ∧ PlainText paramsName ∧ PlainText ['i', 'd'] := by
  simp [PlainText, PlainChar, methodName, methodValue, paramsName]

theorem readMembers_method (n : Nat) (t : CString) :
    readMembers (n + 2) (inQuotes methodName ++ ':' :: (inQuotes methodValue ++ ',' :: t)) =
      (readMembers (n + 1) t).map fun (ms, s) => ((methodName, .string methodValue) :: ms, s) := by
  rw [readMembers_plain plain_names.1]
  have hvalue : readValue (n + 1) (inQuotes methodValue ++ ',' :: t) = some (.string methodValue, ',' :: t) := by
    rw [inQuotes, List.cons_append, List.append_assoc, List.singleton_append, readValue_quote,
      readString_plain plain_names.2.1]
    rfl
  rw [hvalue]
  rfl

theorem readMembers_params {u : CString} {us : List CString} (n : Nat) (sharesCount : Word) :
    readMembers (n + 2) (paramsMember (u :: us) sharesCount) =
      (readElements n (joinQuoted (u :: us) ++ ']' :: ',' :: idMember sharesCount)).bind fun (vs, s) =>
        match skipSpace s with
        | ',' :: s => (readMembers (n + 1) s).map fun (ms, s) => ((paramsName, .array vs) :: ms, s)
        | '\x7d' :: s => some ([(paramsName, .array vs)], s)
        | _ => none := by
  rw [paramsMember, readMembers_plain plain_names.2.2.1]
  obtain ⟨t, ht⟩ : ∃ t, joinQuoted (u :: us) ++ ']' :: ',' :: idMember sharesCount = '"' :: t := by
    cases us with
    | nil => exact ⟨_, joinQuoted_singleton _ _⟩
    | cons u' us => exact ⟨_, joinQuoted_cons_cons _ _ _ _⟩
  rw [ht, readValue_bracket]
  cases readElements n ('"' :: t) <;> rfl

theorem readMembers_id (n : Nat) (sharesCount : Word) : readMembers (n + 2) (idMember sharesCount) =
    some ([(['i', 'd'], .number (sprintfU (sharesCount + 10)))], []) := by
  have hspace (t : CString) : readMembers (n + 2) (' ' :: '"' :: t) = readMembers (n + 2) ('"' :: t) := rfl
  have hmember := readMembers_plain plain_names.2.2.2 (n + 1) (sprintfU (sharesCount + 10) ++ ['\x7d'])
  rw [idMember]
  refine (hspace _).trans (hmember.trans ?_)
  rw [sprintfU, readValue_toDigits]
  rfl

end Read

section Line

theorem submitText_utf8 (user : CString) {s : Submission} (htime : HexText s.timehex)
    (hnonce : HexText s.noncestr) (hsolution : HexText s.solhex) (sharesCount : Word) :
    utf8Valid (submitText user s sharesCount) = (utf8Valid user && utf8Valid s.jobid) := by
  let behind : CString := ',' :: '"' :: (s.timehex ++ '"' :: ',' :: '"' :: (s.noncestr ++ '"' :: ',' :: '"' ::
    (s.solhex ++ '"' :: ']' :: ',' :: idMember sharesCount)))
  have hsplit : submitText user s sharesCount =
      ('\x7b' :: (inQuotes methodName ++ ':' :: (inQuotes methodValue ++ ',' ::
        (inQuotes paramsName ++ [':', '['])))) ++ '"' :: (user ++ '"' :: ([','] ++ '"' ::
          (s.jobid ++ '"' :: behind))) := by
    simp [submitText_eq, paramsMember, joinQuoted, inQuotes, Submission.params, List.intercalate_cons_cons,
      behind]
  have hdigits : ∀ c ∈ sprintfU (sharesCount + 10), c.toNat < 0x80 := by
    intro c hc
    have hdigit := Nat.isDigit_of_mem_toDigits (by decide) le_rfl hc
    simp only [Char.isDigit, Bool.and_eq_true, decide_eq_true_eq] at hdigit
    exact lt_of_le_of_lt hdigit.2 (by decide)
  have hbehind : utf8Valid behind = true := by
    refine utf8Valid_of_ascii ?_
    have htexts := And.intro htime.ascii (And.intro hnonce.ascii (And.intro hsolution.ascii hdigits))
    simp only [behind, idMember, inQuotes, List.cons_append, List.nil_append, List.forall_mem_cons,
      List.forall_mem_append]
    simpa using htexts
  have hquote : '"'.toNat < 0x80 := by decide
  rw [hsplit, utf8Valid_append hquote, utf8Valid_append hquote, utf8Valid_append hquote,
    utf8Valid_append hquote, hbehind]
  have hopen : utf8Valid ('\x7b' :: (inQuotes methodName ++ ':' :: (inQuotes methodValue ++ ',' ::
      (inQuotes paramsName ++ [':', '['])))) = true := rfl
  have hcomma : utf8Valid [','] = true := rfl
  rw [hopen, hcomma, Bool.true_and, Bool.true_and, Bool.and_true]

theorem jobid_of_job {jobId : CString} {work : Work} (h : WorkOfJob jobId work) :
    work.jobId.length ≤ 127 ∧ work.jobId.drop 8 = jobId.take 119 := by
  obtain ⟨optDifficulty, sctx, buf, gWork, hjob, hwork, heq⟩ := h
  rw [stratumGenWork, hjob] at hwork
  have hgWork : gWork.jobId = genWorkJobId sctx.job jobId := by
    rw [← Option.some.inj hwork]
    rfl
  rw [heq, hgWork, genWorkJobId_eq]
  refine ⟨?_, rfl⟩
  simp only [List.length_append, sprintfX, List.length_map, List.length_reverse, List.length_range,
    List.length_cons, List.length_take]
  omega

theorem newline_not_mem {s : CString} (h : ∀ c ∈ s, 0x20 ≤ c.toNat) : '\n' ∉ s :=
  fun hmem => absurd (h _ hmem) (by decide)

theorem newline_not_mem_submitText {user : CString} {s : Submission} (huser : PlainText user) (hjob : PlainText s.jobid)
    (htime : HexText s.timehex) (hnonce : HexText s.noncestr) (hsolution : HexText s.solhex)
    (sharesCount : Word) : '\n' ∉ submitText user s sharesCount := by
  have hplain {t : CString} (ht : PlainText t) : '\n' ∉ t := newline_not_mem fun c hc => (ht c hc).2.2
  have hdigits : '\n' ∉ sprintfU (sharesCount + 10) := fun hmem => by
    have hdigit := Nat.isDigit_of_mem_toDigits (by decide) le_rfl hmem
    cases hdigit
  simpa [submitText, joinQuoted, inQuotes, Submission.params, List.intercalate_cons_cons, paramsName,
    hplain huser, hplain hjob, hplain htime.plain, hplain hnonce.plain, hplain hsolution.plain] using hdigits

theorem le_length_submitText (user : CString) (s : Submission) (sharesCount : Word) :
    10 ≤ (submitText user s sharesCount).length := by
  simp only [submitText, inQuotes, List.length_cons, List.length_append]
  omega

/-- What the object read from the line holds under its second name was read
from the list of the parameters. -/
theorem params_of_parse {user : CString} {s : Submission} {sharesCount : Word}
    {members : List (CString × JsonValue)}
    (h : parseJson (submitText user s sharesCount) = some (.object members)) :
    ∃ n vs rest, (paramsName, .array vs) ∈ members ∧
      readElements n (joinQuoted (s.params user s.jobid) ++ ']' :: ',' :: idMember sharesCount) = some (vs, rest) := by
  obtain ⟨n, hn⟩ := Nat.exists_eq_add_of_le (le_length_submitText user s sharesCount)
  rw [parseJson, hn] at h
  split_ifs at h
  split at h
  · rename_i v rest hvalue
    split_ifs at h
    obtain rfl := Option.some.inj h
    rw [submitText_eq, show 10 + n + 1 = n + 8 + 3 by omega] at hvalue
    change (readMembers (n + 8 + 2) (inQuotes methodName ++ _)).map _ = _ at hvalue
    rw [readMembers_method] at hvalue
    obtain ⟨⟨ms, t⟩, hms, heq⟩ := Option.map_eq_some_iff.mp hvalue
    obtain ⟨⟨ms₂, t₂⟩, hparams, heq₂⟩ := Option.map_eq_some_iff.mp hms
    obtain rfl : ms = members := JsonValue.object.inj (Prod.mk.inj heq).1
    have hmembers : (methodName, .string methodValue) :: ms₂ = ms := (Prod.mk.inj heq₂).1
    rw [show n + 8 + 1 = n + 7 + 2 by omega, Submission.params, readMembers_params] at hparams
    obtain ⟨⟨vs, r⟩, helements, hcase⟩ := Option.bind_eq_some_iff.mp hparams
    refine ⟨n + 7, vs, r, ?_, helements⟩
    rw [← hmembers]
    refine List.mem_cons_of_mem _ ?_
    dsimp only at hcase
    split at hcase
    · obtain ⟨_, _, heq₃⟩ := Option.map_eq_some_iff.mp hcase
      rw [← (Prod.mk.inj heq₃).1]
      exact List.mem_cons_self
    · rw [← (Prod.mk.inj (Option.some.inj hcase)).1]
      exact List.mem_cons_self
    · cases hcase
  · cases h

theorem parseJson_submitText {user : CString} {s : Submission} {sharesCount : Word}
    (hvalid : utf8Valid (submitText user s sharesCount) = true) (hplain : ∀ t ∈ s.params user s.jobid, PlainText t) :
    parseJson (submitText user s sharesCount) = some (.object [(methodName, .string methodValue),
      (paramsName, .array ((s.params user s.jobid).map .string)),
      (['i', 'd'], .number (sprintfU (sharesCount + 10)))]) := by
  obtain ⟨n, hn⟩ := Nat.exists_eq_add_of_le (le_length_submitText user s sharesCount)
  have hne : s.params user s.jobid ≠ [] := List.cons_ne_nil _ _
  have helements := readElements_plain hne hplain (show 5 < n + 7 by omega) (',' :: idMember sharesCount)
  have hparams : readMembers (n + 7 + 2) (paramsMember (s.params user s.jobid) sharesCount) =
      some ([(paramsName, .array ((s.params user s.jobid).map .string)),
        (['i', 'd'], .number (sprintfU (sharesCount + 10)))], []) := by
    refine (readMembers_params (n + 7) sharesCount).trans ?_
    change (readElements (n + 7) (joinQuoted (s.params user s.jobid) ++ _)).bind _ = _
    rw [helements]
    change (readMembers (n + 6 + 2) (idMember sharesCount)).map _ = _
    rw [readMembers_id]
    rfl
  have hvalue : readValue (n + 8 + 3) (submitText user s sharesCount) =
      some (.object [(methodName, .string methodValue),
        (paramsName, .array ((s.params user s.jobid).map .string)),
        (['i', 'd'], .number (sprintfU (sharesCount + 10)))], []) := by
    rw [submitText_eq]
    change (readMembers (n + 8 + 2) (inQuotes methodName ++ _)).map _ = _
    rw [readMembers_method]
    change ((readMembers (n + 7 + 2) (paramsMember (s.params user s.jobid) sharesCount)).map _).map _ = _
    rw [hparams]
    rfl
  rw [parseJson, if_pos hvalid, hn, show 10 + n + 1 = n + 8 + 3 by omega, hvalue]
  rfl

theorem submitText_readBack_iff {user jobId : CString} {s : Submission} (hjobid : s.jobid = jobId.take 119)
    (htime : HexText s.timehex) (hnonce : HexText s.noncestr) (hsolution : HexText s.solhex)
    (sharesCount : Word) : ReadBack (submitText user s sharesCount) user jobId s ↔
      jobId.length ≤ 119 ∧ (PlainText user ∧ utf8Valid user = true) ∧ PlainText jobId ∧ utf8Valid jobId = true := by
  constructor
  · rintro ⟨_, members, hparse, _, hparams⟩
    obtain ⟨n, vs, rest, hmember, helements⟩ := params_of_parse hparse
    rw [JsonValue.array.inj (hparams _ hmember)] at helements
    have hself (u : CString) : ∃ m, u = u.take m := ⟨u.length, (List.take_length ..).symm⟩
    have hcut : List.Forall₂ (fun u t => ∃ m, t = u.take m) (s.params user jobId) (s.params user s.jobid) :=
      .cons (hself _) (.cons ⟨119, hjobid⟩ (.cons (hself _) (.cons (hself _) (.cons (hself _) .nil))))
    obtain ⟨hsame, hplain⟩ := plain_of_readElements hcut helements
    have hwhole : s.jobid = jobId := (List.cons.inj (List.cons.inj hsame).2).1
    have hvalid : utf8Valid (submitText user s sharesCount) = true := by
      by_contra hinvalid
      rw [parseJson, if_neg hinvalid] at hparse
      cases hparse
    rw [submitText_utf8 user htime hnonce hsolution, Bool.and_eq_true, hwhole] at hvalid
    have hfits : jobId.length ≤ 119 := by
      rw [hwhole] at hjobid
      rw [hjobid, List.length_take]
      omega
    exact ⟨hfits, ⟨hplain _ List.mem_cons_self, hvalid.1⟩,
      hplain _ (List.mem_cons_of_mem _ List.mem_cons_self), hvalid.2⟩
  · rintro ⟨hfits, ⟨huser, huser8⟩, hjob, hjob8⟩
    have hwhole : s.jobid = jobId := by rw [hjobid, List.take_of_length_le hfits]
    have hplain : ∀ t ∈ s.params user s.jobid, PlainText t := by
      simp only [Submission.params, List.forall_mem_cons, hwhole]
      exact ⟨huser, hjob, htime.plain, hnonce.plain, hsolution.plain, fun _ ht => (by cases ht)⟩
    have hvalid : utf8Valid (submitText user s sharesCount) = true := by
      rw [submitText_utf8 user htime hnonce hsolution, hwhole, huser8, hjob8]
      rfl
    have hjobPlain : PlainText s.jobid := by rw [hwhole]; exact hjob
    refine ⟨newline_not_mem_submitText huser hjobPlain htime hnonce hsolution sharesCount, _,
      parseJson_submitText hvalid hplain, ⟨_, List.mem_cons_of_mem _ List.mem_cons_self⟩, fun v hv => ?_⟩
    rw [hwhole] at hv
    simpa [paramsName, methodName] using hv

theorem verusStratumSubmit_texts {jobId : CString} {work : Work} (hwork : WorkOfJob jobId work) (size : Nat) :
    let s := verusStratumSubmit size work
    s.jobid = jobId.take 119 ∧ HexText s.timehex ∧ HexText s.noncestr ∧ HexText s.solhex :=
  ⟨(jobid_of_job hwork).2, hexText_sprintfX _ _, hexText_hexEncode _, hexText_solutionHex _⟩

/-- The pool reads back what was submitted exactly if the job id fits its field
and nothing in the user and the job id is special in JSON. -/
theorem submitLine_readBack_iff (user : PoolUser) (size : Fin 33) {jobId : CString} {work : Work}
    (hwork : WorkOfJob jobId work) (sharesCount : Word) :
    ReadBack (submitLine user.1 (verusStratumSubmit size work) sharesCount) user.1 jobId
        (verusStratumSubmit size work) ↔
      jobId.length ≤ 119 ∧ (PlainText user.1 ∧ utf8Valid user.1 = true) ∧ PlainText jobId ∧ utf8Valid jobId = true := by
  obtain ⟨hjobid, htime, hnonce, hsolution⟩ := verusStratumSubmit_texts hwork size
  rw [submitLine_eq user size (jobid_of_job hwork).1]
  exact submitText_readBack_iff hjobid htime hnonce hsolution sharesCount

/-- Every notify that is accepted makes such works, whatever its job id. -/
theorem verusStratumNotify_workOfJob {now : Word} {ntimeStack : Mem} {sctx sctx' : StratumCtx} {params : Json}
    (h : verusStratumNotify now ntimeStack sctx params = some (true, sctx')) {optDifficulty : Float}
    {buf work : Work} (hwork : stratumGenWork optDifficulty sctx' buf = some work) :
    ∃ jobId, jsonStringValue (jsonArrayGet params 0) = some jobId ∧ WorkOfJob jobId work := by
  simp only [verusStratumNotify] at h
  split at h
  · cases h
  · rename_i p hp
    obtain ⟨sctx₁, _, heq⟩ := Option.map_eq_some_iff.mp h
    have hjob : sctx'.job.jobId = some p.jobId := by
      rw [← (Prod.mk.inj heq).2]
      rfl
    have hparam : jsonStringValue (jsonArrayGet params 0) = some p.jobId := by
      simp only [notifyParams, Option.bind_eq_bind, Option.bind_eq_some_iff] at hp
      obtain ⟨jobId, hfirst, _, _, _, _, _, _, _, _, _, _, _, _, hlast⟩ := hp
      split_ifs at hlast
      rw [hfirst, ← Option.some.inj hlast]
    exact ⟨p.jobId, hparam, optDifficulty, sctx', buf, work, hjob, hwork, rfl⟩

def ctxOfJob (jobId : CString) : StratumCtx := { zeroCtx with job := { zeroCtx.job with jobId := some jobId } }

theorem generated_workOfJob (jobId : CString) : WorkOfJob jobId (generated (ctxOfJob jobId)) :=
  ⟨1.0, ctxOfJob jobId, zeroWork, _, rfl, stratumGenWork_generated rfl, rfl⟩

theorem submitLine_readBack_plain :
    ReadBack (submitLine ['u'] (verusStratumSubmit (4 : Fin 33) (generated (ctxOfJob ['1']))) 0) ['u'] ['1']
      (verusStratumSubmit (4 : Fin 33) (generated (ctxOfJob ['1']))) := by
  have huser : PlainText ['u'] ∧ PlainText ['1'] := by simp [PlainText, PlainChar]
  exact (submitLine_readBack_iff ⟨['u'], by decide⟩ 4 (generated_workOfJob ['1']) 0).mpr
    ⟨by decide, ⟨huser.1, rfl⟩, huser.2, rfl⟩

/-- A quote in the job id ends its string. -/
theorem quote_in_jobId_not_readBack :
    ¬ ReadBack (submitLine ['u'] (verusStratumSubmit 4 (generated (ctxOfJob ['1', '"']))) 0) ['u'] ['1', '"']
      (verusStratumSubmit 4 (generated (ctxOfJob ['1', '"']))) := by
  obtain ⟨hjobid, htime, hnonce, hsolution⟩ := verusStratumSubmit_texts (generated_workOfJob ['1', '"']) 4
  rw [submitLine_eq ⟨['u'], by decide⟩ 4 (jobid_of_job (generated_workOfJob _)).1,
    submitText_readBack_iff hjobid htime hnonce hsolution]
  rintro ⟨_, _, hplain, _⟩
  exact (hplain '"' (List.mem_cons_of_mem _ List.mem_cons_self)).1 rfl

end Line

end VerusMiner
