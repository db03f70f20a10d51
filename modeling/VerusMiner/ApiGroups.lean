import VerusMiner.ApiRequest
import VerusMiner.Lib.Enclosed

/-! The groups of API clients and the commands they are for. -/

namespace VerusMiner

/-- The list of a group looks like `|cmd1|cmd2|cmd3|`. -/
abbrev ApiGroups := Char → Option CString

def privgroup : Char := 'W'

def noprivgroup : Char := 'R'

def validgroup (g : Char) : Bool := 'A' ≤ g.toUpper && g.toUpper ≤ 'Z'

def definedgroup (apigroups : ApiGroups) (g : Char) : Bool :=
  g.toUpper == privgroup || (apigroups g.toUpper).isSome

def cmdbuf (cmd : ApiCommand) : CString := '|' :: (cmd.name ++ ['|'])

/-- The commands of a list never include the last one of the table. -/
def groupCmds : List ApiCommand := cmds.dropLast

def addCommand (commands : CString) (cmd : ApiCommand) : CString :=
  if (strstr commands (cmdbuf cmd)).isSome then commands else commands ++ cmd.name ++ ['|']

def readCmds : List ApiCommand := groupCmds.filter fun cmd => !cmd.iswritemode

/-- One item of a list, and whether all read-only commands are asked for. -/
def groupItem (list : CString × Bool) (item : CString) : Option (CString × Bool) :=
  if item = ['*'] then some (list.1, true)
  else (groupCmds.find? fun cmd => strcasecmp item cmd.name).map fun cmd => (addCommand list.1 cmd, list.2)

/-- A group of the option; nothing when the program ends over it. -/
def setupGroup (apigroups : ApiGroups) (text : CString) : Option ApiGroups :=
  match text with
  | c :: ':' :: list =>
    let group := c.toUpper
    if !validgroup c || group == privgroup || group == noprivgroup || (apigroups group).isSome then none
    else ((tokens list ':').foldlM groupItem (['|'], false)).map fun (commands, addstar) =>
      Function.update apigroups group
        (some (if addstar then readCmds.foldl addCommand commands else commands))
  | _ => none

/-- What `opt_api_groups` asks for, and the group of all read-only commands. -/
def setupGroups (optApiGroups : CString) : Option ApiGroups :=
  ((tokens optApiGroups ',').foldlM setupGroup fun _ => none).map fun apigroups =>
    Function.update apigroups noprivgroup
      (some (readCmds.foldl (fun commands cmd => commands ++ cmd.name ++ ['|']) ['|']))

/-- Whether a group may run a command: the privileged one may run all, another
one those of its list. -/
def Authorized (apigroups : ApiGroups) (group : Char) (cmd : ApiCommand) : Prop :=
  group = privgroup ∨ ∃ commands, apigroups group = some commands ∧ cmdbuf cmd <:+: commands

section Lists

def listText (names : List ApiCommand) : CString := enclosed '|' (names.map ApiCommand.name)

theorem not_bar_mem_name (cmd : ApiCommand) : '|' ∉ cmd.name := by
  cases cmd <;> decide

theorem name_injective {cmd cmd' : ApiCommand} (h : cmd.name = cmd'.name) : cmd = cmd' := by
  have hfound := findCommand_name cmd
  rw [h, findCommand_name] at hfound
  exact (Option.some.inj hfound).symm

theorem cmdbuf_infix_iff (cmd : ApiCommand) (names : List ApiCommand) :
    cmdbuf cmd <:+: listText names ↔ cmd ∈ names := by
  rw [cmdbuf, listText, infix_enclosed_iff (fun w hw => ?_) (not_bar_mem_name cmd)]
  · constructor
    · intro h
      obtain ⟨cmd', hmem, hname⟩ := List.mem_map.mp h
      exact name_injective hname ▸ hmem
    · exact List.mem_map_of_mem
  · obtain ⟨cmd', _, rfl⟩ := List.mem_map.mp hw
    exact not_bar_mem_name cmd'

theorem listText_append (names : List ApiCommand) (cmd : ApiCommand) :
    listText names ++ cmd.name ++ ['|'] = listText (names ++ [cmd]) := by
  rw [listText, listText, List.map_append, List.map_singleton, enclosed_append_singleton]

/-- A list holds each of its commands once. -/
structure ListHolds (commands : CString) (names : List ApiCommand) : Prop where
  text : commands = listText names
  nodup : names.Nodup
  known : ∀ cmd ∈ names, cmd ∈ groupCmds

theorem ListHolds.add {commands : CString} {names : List ApiCommand} (h : ListHolds commands names)
    {cmd : ApiCommand} (hcmd : cmd ∈ groupCmds) :
    ∃ names', ListHolds (addCommand commands cmd) names' ∧ ∀ c, c ∈ names' ↔ c ∈ names ∨ c = cmd := by
  obtain ⟨rfl, hnodup, hknown⟩ := h
  rw [addCommand]
  by_cases hmem : cmd ∈ names
  · rw [if_pos (strstr_isSome_iff.mpr ((cmdbuf_infix_iff cmd names).mpr hmem))]
    exact ⟨names, ⟨rfl, hnodup, hknown⟩, fun c => ⟨.inl, fun hc => hc.elim id fun hc => hc ▸ hmem⟩⟩
  · rw [if_neg (fun hin => hmem ((cmdbuf_infix_iff cmd names).mp (strstr_isSome_iff.mp hin))),
      listText_append]
    refine ⟨names ++ [cmd], ⟨rfl, ?_, ?_⟩, fun c => by simp⟩
    · rw [List.nodup_append]
      exact ⟨hnodup, List.nodup_singleton cmd, fun c hc d hd heq => hmem (by
        rw [List.mem_singleton.mp hd] at heq
        exact heq ▸ hc)⟩
    · intro c hc
      rcases List.mem_append.mp hc with hin | hlast
      · exact hknown c hin
      · exact List.mem_singleton.mp hlast ▸ hcmd

theorem ListHolds.addAll {commands : CString} {names : List ApiCommand} (h : ListHolds commands names)
    {added : List ApiCommand} (hadded : ∀ cmd ∈ added, cmd ∈ groupCmds) :
    ∃ names', ListHolds (added.foldl addCommand commands) names' ∧
      ∀ c, c ∈ names' ↔ c ∈ names ∨ c ∈ added := by
  induction added generalizing commands names with
  | nil => exact ⟨names, h, by simp⟩
  | cons cmd added ih =>
    obtain ⟨hcmd, hadded⟩ := List.forall_mem_cons.mp hadded
    obtain ⟨names', h', hmem⟩ := h.add hcmd
    obtain ⟨names'', h'', hmem'⟩ := ih h' hadded
    refine ⟨names'', h'', fun c => ?_⟩
    rw [hmem', hmem, List.mem_cons, or_assoc]

theorem listHolds_nil : ListHolds ['|'] [] := ⟨rfl, .nil, by simp⟩

theorem groupItem_holds {list list' : CString × Bool} {names : List ApiCommand}
    (h : ListHolds list.1 names) {item : CString} (hitem : groupItem list item = some list') :
    ∃ names', ListHolds list'.1 names' := by
  rw [groupItem] at hitem
  split_ifs at hitem
  · cases hitem
    exact ⟨names, h⟩
  · obtain ⟨cmd, hfound, rfl⟩ := Option.map_eq_some_iff.mp hitem
    obtain ⟨names', h', _⟩ := h.add (List.mem_of_find?_eq_some hfound)
    exact ⟨names', h'⟩

theorem groupItems_hold {items : List CString} {list list' : CString × Bool} {names : List ApiCommand}
    (h : ListHolds list.1 names) (hitems : items.foldlM groupItem list = some list') :
    ∃ names', ListHolds list'.1 names' := by
  induction items generalizing list names with
  | nil =>
    cases hitems
    exact ⟨names, h⟩
  | cons item items ih =>
    rw [List.foldlM_cons] at hitems
    obtain ⟨next, hitem, hrest⟩ := Option.bind_eq_some_iff.mp hitems
    obtain ⟨names', h'⟩ := groupItem_holds h hitem
    exact ih h' hrest

end Lists

section Groups

def GroupsHold (apigroups : ApiGroups) : Prop :=
  ∀ group commands, apigroups group = some commands → ∃ names, ListHolds commands names

theorem GroupsHold.update {apigroups : ApiGroups} (h : GroupsHold apigroups) {commands : CString}
    {names : List ApiCommand} (hlist : ListHolds commands names) (group : Char) :
    GroupsHold (Function.update apigroups group (some commands)) := by
  intro g commands' hg
  by_cases heq : g = group
  · subst heq
    rw [Function.update_self] at hg
    cases hg
    exact ⟨names, hlist⟩
  · rw [Function.update_of_ne heq] at hg
    exact h g commands' hg

theorem readCmds_known : ∀ cmd ∈ readCmds, cmd ∈ groupCmds := fun _ hcmd => (List.mem_filter.mp hcmd).1

theorem setupGroup_holds {apigroups apigroups' : ApiGroups} (h : GroupsHold apigroups) {text : CString}
    (hsetup : setupGroup apigroups text = some apigroups') : GroupsHold apigroups' := by
  unfold setupGroup at hsetup
  split at hsetup
  · simp only at hsetup
    split_ifs at hsetup
    obtain ⟨⟨commands, addstar⟩, hitems, rfl⟩ := Option.map_eq_some_iff.mp hsetup
    obtain ⟨names, hlist⟩ := groupItems_hold listHolds_nil hitems
    cases addstar with
    | false => exact h.update hlist _
    | true =>
      obtain ⟨names', hstar, _⟩ := hlist.addAll readCmds_known
      exact h.update hstar _
  · cases hsetup

theorem setupGroups_steps {texts : List CString} {apigroups apigroups' : ApiGroups}
    (h : GroupsHold apigroups) (hsetup : texts.foldlM setupGroup apigroups = some apigroups') :
    GroupsHold apigroups' := by
  induction texts generalizing apigroups with
  | nil =>
    cases hsetup
    exact h
  | cons text texts ih =>
    rw [List.foldlM_cons] at hsetup
    obtain ⟨next, htext, hrest⟩ := Option.bind_eq_some_iff.mp hsetup
    exact ih (setupGroup_holds h htext) hrest

theorem readList_eq : readCmds.foldl (fun commands cmd => commands ++ cmd.name ++ ['|']) ['|'] =
    listText readCmds := by
  decide +kernel

/-- However the groups are given, each list names commands of the table, `help`
never among them. -/
theorem setupGroups_hold {optApiGroups : CString} {apigroups : ApiGroups}
    (h : setupGroups optApiGroups = some apigroups) : GroupsHold apigroups := by
  obtain ⟨given, hgiven, rfl⟩ := Option.map_eq_some_iff.mp h
  have hstart : GroupsHold fun _ => none := fun _ _ hnone => by cases hnone
  have hread : ListHolds (readCmds.foldl (fun commands cmd => commands ++ cmd.name ++ ['|']) ['|']) readCmds :=
    ⟨readList_eq, by decide, readCmds_known⟩
  exact (setupGroups_steps hstart hgiven).update hread noprivgroup

end Groups

end VerusMiner
