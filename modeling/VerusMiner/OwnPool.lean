import VerusMiner.WorkioMoves

/-! Which pool a share is sent to, by whom, and with which extranonce length. -/

namespace VerusMiner

/-- The line went to the share's own pool, which was the current one, with its
user and the extranonce length of its session. -/
def Sent.Right (s : WorkioState) (r : Sent) : Prop :=
  r.pooln = r.command.work.pooln.toNat ∧ r.user = (s.pools r.command.work.pooln.toNat).user ∧
    (∀ n ∈ r.xnonce1Size, n = r.due) ∧ r.command.current = true

section Pools

variable {cfg : WorkioConfig} {s s' : WorkioState} {e : WorkioEvent}

/-- The session of a pool: the shared one, or the one kept for it. -/
def WorkioState.session (s : WorkioState) (n : Nat) : Session :=
  if n = s.curPooln then s.stratum else (s.pools n).stratum

/-- The session a switch leaves, and the pools once it is kept there. -/
def WorkioState.left (s : WorkioState) : Session :=
  if (s.pools s.curPooln).isStratum then s.stratum.freeJob else s.stratum

def WorkioState.saved (s : WorkioState) : Nat → PoolInfos :=
  if (s.pools s.curPooln).isStratum then
    Function.update s.pools s.curPooln { s.pools s.curPooln with stratum := s.left }
  else s.pools

theorem session_curPooln (s : WorkioState) : s.session s.curPooln = s.stratum := if_pos rfl

theorem session_of_ne {n : Nat} {s : WorkioState} (hn : n ≠ s.curPooln) :
    s.session n = (s.pools n).stratum := if_neg hn

/-- Of which pools the session is a connection that the stratum thread made
while it was started for them and they were current (`joined`), and to which
it has subscribed there as well (`ready`). -/
structure OrderedWorkio extends WorkioState where
  joined : Nat → Bool
  ready : Nat → Bool

def OrderedWorkio.joinedAfter (s : OrderedWorkio) : WorkioEvent → Nat → Bool
  | .connect => Function.update s.joined s.curPooln
      (decide (s.threadPooln = s.curPooln) && (s.pools s.curPooln).isStratum)
  | _ => s.joined

def OrderedWorkio.readyAfter (s : OrderedWorkio) : WorkioEvent → Nat → Bool
  | .connect => Function.update s.ready s.curPooln
      (decide (s.threadPooln = s.curPooln) && s.ready s.curPooln)
  | .subscribed _ =>
    if s.joined s.curPooln then Function.update s.ready s.curPooln true else fun _ => false
  | _ => s.ready

structure SessionsKept (s : OrderedWorkio) : Prop where
  joined : ∀ n, s.joined n = true → (s.pools n).isStratum = true ∧
    s.owner (s.session n).sock = n ∧ (s.session n).sock < s.nextSock
  ready : ∀ n, s.ready n = true → s.joined n = true ∧ (s.session n).xnonce1Size = s.sizes n

section Ordered

variable {s s' : OrderedWorkio}

theorem SessionsKept.same (h : SessionsKept s)
    (hpools : ∀ n, (s'.pools n).isStratum = (s.pools n).isStratum)
    (hsession : ∀ n, (s.pools n).isStratum = true → (s'.session n).sock = (s.session n).sock ∧
      (s'.session n).xnonce1Size = (s.session n).xnonce1Size)
    (howner : s'.owner = s.owner) (hsizes : s'.sizes = s.sizes) (hnext : s'.nextSock = s.nextSock)
    (hjoined : s'.joined = s.joined) (hready : s'.ready = s.ready) : SessionsKept s' where
  joined := fun n hn => by
    obtain ⟨hpool, hown, hlt⟩ := h.joined n (hjoined ▸ hn)
    rw [hpools, (hsession n hpool).1, howner, hnext]
    exact ⟨hpool, hown, hlt⟩
  ready := fun n hn => by
    obtain ⟨hn, hsize⟩ := h.ready n (hready ▸ hn)
    rw [hjoined, (hsession n (h.joined n hn).1).2, hsizes]
    exact ⟨hn, hsize⟩

theorem SessionsKept.connect (h : SessionsKept s) (hpools : s'.pools = s.pools)
    (hcurPooln : s'.curPooln = s.curPooln)
    (howner : s'.owner = Function.update s.owner s.nextSock s.threadPooln)
    (hnext : s'.nextSock = s.nextSock + 1) (hsizes : s'.sizes = s.sizes)
    (hstratum : s'.stratum = { s.stratum with sock := s.nextSock })
    (hjoins : s'.joined = s.joinedAfter .connect) (hready : s'.ready = s.readyAfter .connect) :
    SessionsKept s' where
  joined := fun n hn => by
    rw [hjoins] at hn
    by_cases hcur : n = s.curPooln
    · subst hcur
      simp only [OrderedWorkio.joinedAfter, Function.update_self, Bool.and_eq_true, decide_eq_true_eq] at hn
      rw [hpools, ← hcurPooln, session_curPooln, hstratum, howner, Function.update_self, hnext, hcurPooln]
      exact ⟨hn.2, hn.1, Nat.lt_succ_self _⟩
    · simp only [OrderedWorkio.joinedAfter, Function.update_of_ne hcur] at hn
      obtain ⟨hpool, hown, hlt⟩ := h.joined n hn
      rw [session_of_ne hcur] at hown hlt
      rw [hpools, session_of_ne (hcurPooln ▸ hcur), hpools, howner, Function.update_of_ne hlt.ne, hnext]
      exact ⟨hpool, hown, hlt.trans (Nat.lt_succ_self _)⟩
  ready := fun n hn => by
    rw [hready] at hn
    by_cases hcur : n = s.curPooln
    · subst hcur
      simp only [OrderedWorkio.readyAfter, Function.update_self, Bool.and_eq_true, decide_eq_true_eq] at hn
      obtain ⟨hjoined, hsize⟩ := h.ready _ hn.2
      rw [session_curPooln] at hsize
      rw [hjoins, hsizes, ← hsize, ← hcurPooln, session_curPooln, hstratum, hcurPooln]
      simp only [OrderedWorkio.joinedAfter, Function.update_self, hn.1, (h.joined _ hjoined).1, decide_true,
        Bool.and_self, true_and]
    · simp only [OrderedWorkio.readyAfter, Function.update_of_ne hcur] at hn
      obtain ⟨hjoined, hsize⟩ := h.ready n hn
      rw [session_of_ne hcur] at hsize
      rw [session_of_ne (hcurPooln ▸ hcur), hpools, hsizes, hjoins]
      exact ⟨(Function.update_of_ne hcur ..).trans hjoined, hsize⟩

theorem SessionsKept.subscribed (h : SessionsKept s) {size : Nat} (hpools : s'.pools = s.pools)
    (hcurPooln : s'.curPooln = s.curPooln) (howner : s'.owner = s.owner)
    (hnext : s'.nextSock = s.nextSock)
    (hsizes : s'.sizes = Function.update s.sizes (s.owner s.stratum.sock) size)
    (hstratum : s'.stratum = { s.stratum with xnonce1Size := size }) (hjoins : s'.joined = s.joined)
    (hready : s'.ready = s.readyAfter (.subscribed size)) : SessionsKept s' where
  joined := fun n hn => by
    obtain ⟨hpool, hown, hlt⟩ := h.joined n (hjoins ▸ hn)
    have hsock : (s'.session n).sock = (s.session n).sock := by
      simp only [WorkioState.session, hcurPooln, hpools, hstratum]
      split_ifs <;> rfl
    rw [hpools, howner, hnext, hsock]
    exact ⟨hpool, hown, hlt⟩
  ready := fun n hn => by
    simp only [hready, OrderedWorkio.readyAfter] at hn
    split_ifs at hn with hjoined
    obtain ⟨-, hown, -⟩ := h.joined _ hjoined
    rw [session_curPooln] at hown
    rw [hjoins, hsizes, hown]
    by_cases hcur : n = s.curPooln
    · subst hcur
      rw [Function.update_self, ← hcurPooln, session_curPooln, hstratum, hcurPooln]
      exact ⟨hjoined, rfl⟩
    · rw [Function.update_of_ne hcur] at hn ⊢
      obtain ⟨hn, hsize⟩ := h.ready n hn
      rw [session_of_ne hcur] at hsize
      rw [session_of_ne (hcurPooln ▸ hcur), hpools]
      exact ⟨hn, hsize⟩

end Ordered

end Pools

end VerusMiner
