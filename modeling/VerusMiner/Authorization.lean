import VerusMiner.AccessList

/-! Which clients may run which commands: the groups against the loop that
dispatches a request. -/

namespace VerusMiner

structure ApiConfig where
  optApiGroups : CString
  optApiAllow : Option CString
  optApiBind : CString

section Api

variable (undefinedShift : Word → Int → Word) (apigroups : ApiGroups) (cfg : ApiConfig)

def connectGroup (client : Word) : Option Char :=
  checkConnect (cfg.optApiAllow.map (setupIpaccess undefinedShift apigroups)) cfg.optApiBind client

/-- The command a request asks for; nothing is said of one that breaks the
memory it is taken apart in. -/
def requestCommand (req : List Char) : Option ApiCommand :=
  let (accesses, parsed) := parseRequest (received req)
  if ∀ a ∈ accesses, a.Safe then (parsed.bind dispatch).map Dispatched.cmd else none

/-- The command the server runs for a client: its group plays no part in it. -/
def executed (client : Word) (req : List Char) : Option ApiCommand :=
  if (connectGroup undefinedShift apigroups cfg client).isSome then requestCommand req else none

/-- A command runs only for the privileged group or one whose list has it, and
one that writes only for a group of the access list that is more than read-only. -/
def RunsAuthorized (client : Word) : Prop :=
  ∀ req group cmd, req.length ≤ sockRecBufsz →
    connectGroup undefinedShift apigroups cfg client = some group →
    executed undefinedShift apigroups cfg client req = some cmd →
    Authorized apigroups group cmd ∧
      (cmd.iswritemode = true → group ≠ noprivgroup ∧ cfg.optApiAllow.isSome = true)

end Api

section Groups

variable {undefinedShift : Word → Int → Word} {apigroups : ApiGroups} {cfg : ApiConfig} {client : Word}

theorem help_not_authorized (h : setupGroups cfg.optApiGroups = some apigroups) {group : Char}
    (hgroup : group ≠ privgroup) : ¬Authorized apigroups group .help := by
  rintro (hpriv | ⟨commands, hlist, hin⟩)
  · exact hgroup hpriv
  · obtain ⟨names, rfl, _, hknown⟩ := setupGroups_hold h group commands hlist
    have hhelp := hknown _ ((cmdbuf_infix_iff _ names).mp hin)
    exact absurd hhelp (by decide)

/-- The read-only group may run what does not write, but for `help`. -/
theorem noprivgroup_authorized_iff (h : setupGroups cfg.optApiGroups = some apigroups) (cmd : ApiCommand) :
    Authorized apigroups noprivgroup cmd ↔ cmd.iswritemode = false ∧ cmd ≠ .help := by
  obtain ⟨given, _, rfl⟩ := Option.map_eq_some_iff.mp h
  have hread : cmd ∈ readCmds ↔ cmd.iswritemode = false ∧ cmd ≠ .help := by
    cases cmd <;> decide
  rw [← hread, ← cmdbuf_infix_iff, ← readList_eq, Authorized, Function.update_self]
  constructor
  · rintro (hpriv | ⟨commands, hlist, hin⟩)
    · exact absurd hpriv (by decide)
    · cases hlist
      exact hin
  · exact fun hin => .inr ⟨_, rfl, hin⟩

theorem connectGroup_no_list (hallow : cfg.optApiAllow = none) {group : Char}
    (h : connectGroup undefinedShift apigroups cfg client = some group) : group = noprivgroup := by
  rw [connectGroup, hallow, Option.map_none, checkConnect] at h
  split_ifs at h
  exact (Option.some.inj h).symm

theorem requestCommand_name (cmd : ApiCommand) : requestCommand cmd.name = some cmd := by
  cases cmd <;> decide +kernel

theorem executed_name {group : Char} (h : connectGroup undefinedShift apigroups cfg client = some group)
    (cmd : ApiCommand) : executed undefinedShift apigroups cfg client cmd.name = some cmd := by
  rw [executed, h, Option.isSome_some, if_pos rfl, requestCommand_name]

end Groups

/-- The requests of a client are authorized exactly if the client is not let in
or is of the privileged group. -/
theorem runsAuthorized_iff (undefinedShift : Word → Int → Word) {apigroups : ApiGroups} {cfg : ApiConfig}
    (hgroups : setupGroups cfg.optApiGroups = some apigroups) (client : Word) :
    RunsAuthorized undefinedShift apigroups cfg client ↔
      ∀ group, connectGroup undefinedShift apigroups cfg client = some group → group = privgroup := by
  constructor
  · -- `help` runs for every client, but is authorized for the privileged group alone
    intro h group hgroup
    by_contra hnot
    exact help_not_authorized hgroups hnot
      (h _ group .help (by decide) hgroup (executed_name hgroup .help)).1
  · intro h req group cmd _ hgroup _
    obtain rfl := h group hgroup
    refine ⟨.inl rfl, fun _ => ⟨by decide, ?_⟩⟩
    by_contra hallow
    exact absurd (connectGroup_no_list (Option.not_isSome_iff_eq_none.mp hallow) hgroup) (by decide)

def privConfig : ApiConfig := ⟨[], some "W:0/0".toList, allip4⟩

def openConfig : ApiConfig := ⟨[], none, "127.0.0.1".toList⟩

theorem runsAuthorized_privileged :
    ∃ apigroups, setupGroups privConfig.optApiGroups = some apigroups ∧
      (RunsAuthorized wrappedShift apigroups privConfig localaddr ↔
        ∀ group, connectGroup wrappedShift apigroups privConfig localaddr = some group → group = privgroup) :=
  ⟨_, rfl, runsAuthorized_iff wrappedShift rfl localaddr⟩

/-- Without an access list the local client is of the read-only group, and may
stop the miner all the same. -/
theorem quit_runs_unauthorized :
    ∃ apigroups, setupGroups openConfig.optApiGroups = some apigroups ∧
      connectGroup wrappedShift apigroups openConfig localaddr = some noprivgroup ∧
      executed wrappedShift apigroups openConfig localaddr "quit".toList = some .quit ∧
      ApiCommand.quit.iswritemode = true ∧ ¬Authorized apigroups noprivgroup .quit := by
  refine ⟨_, rfl, by decide +kernel, by decide +kernel, rfl, fun h => ?_⟩
  have hsetup : setupGroups openConfig.optApiGroups = some _ := rfl
  have hread := (noprivgroup_authorized_iff hsetup .quit).mp h
  exact absurd hread.1 (by decide)

end VerusMiner
