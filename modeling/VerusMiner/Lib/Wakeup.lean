import Mathlib.Logic.Basic

/-! A flag by which a worker is told of something newer. The worker copies
what is current, later clears the flag, and works on its copy. -/

namespace VerusMiner

/-- `announced` numbers what the worker was told of last: whoever announces it
has been at the flag. -/
structure Watch where
  announced : Nat
  copied : Nat
  flag : Bool
  working : Bool

namespace Watch

def Told (w : Watch) : Prop :=
  w.working = true → w.flag = false → w.announced ≤ w.copied

def InTime (w : Watch) : Prop := w.announced ≤ w.copied

/-- What a step may do, and whether the worker clears its flag in it. -/
inductive Step (w : Watch) : Bool → Watch → Prop
  | keep : Step w false w
  | raise {announced : Nat} : Step w false { w with announced := announced, flag := true }
  | stop {copied : Nat} : Step w false { w with copied := copied, working := false }
  | start : Step w true { w with flag := false, working := true }

theorem Step.told_iff {w w' : Watch} {starts : Bool} (hw : w.Told) (h : w.Step starts w') :
    w'.Told ↔ (starts = true → w.InTime) := by
  cases h with
  | keep => exact iff_of_true hw nofun
  | raise => exact iff_of_true (fun _ hflag => nomatch hflag) nofun
  | stop => exact iff_of_true nofun nofun
  | start => exact ⟨fun h _ => h rfl rfl, fun h _ _ => h rfl⟩

end Watch

end VerusMiner
