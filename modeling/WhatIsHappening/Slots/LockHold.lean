/-
# What a process has of the lock

What a process has of `entry_search_lock` is a number of shared acquisitions (`metrics_handler`
takes the lock once more for every entry it looks up) and whether it holds it exclusively.  Its own
operations change that by a function (`LockHold.after`), those of the others leave it alone
(`holdOf_exec`).  So the discipline of a program is a matter of this value alone, and there are
rules that follow it through a program.
-/
import WhatIsHappening.Slots.Protocol

namespace WhatIsHappening

open Interleaving Prog

variable {D : Type}

/-! ## 1. What a process has of the lock -/

/-- Whether a process holds the lock exclusively, and how often it holds it shared. -/
structure LockHold where
  exclusive : Bool
  shared : Nat
  deriving DecidableEq, Repr

namespace LockHold

/-- It does not hold it. -/
def free : LockHold := ⟨false, 0⟩

/-- What an operation of the process makes of it. -/
def after (h : LockHold) : Op D → LockHold
  | .lwLockAcquire .LW_SHARED => { h with shared := h.shared + 1 }
  | .lwLockAcquire .LW_EXCLUSIVE => { h with exclusive := true }
  | .lwLockRelease =>
    if h.exclusive then { h with exclusive := false } else { h with shared := h.shared - 1 }
  | .lwLockReleaseAll | .processExit => free
  | _ => h

/-- Nothing the process has itself stands in the way of an operation. -/
def Admits (h : LockHold) : Op D → Prop
  | .lwLockAcquire .LW_SHARED => h.exclusive = false
  | .lwLockAcquire .LW_EXCLUSIVE => h = free
  | _ => True

/-- What an operation may answer: a release says whether the lock was held, and no error is raised
while it is held shared. -/
def Answers (h : LockHold) : (o : Op D) → Res o → Prop
  | .lwLockRelease, held => held = decide (h ≠ free)
  | .raisesHere, raised => raised = true → h.shared = 0
  | _, _ => True

end LockHold

/-- What process `p` has of a lock. -/
def LWLock.holdOf (l : LWLock) (p : Pid) : LockHold := ⟨l.exclusive = some p, l.shared.count p⟩

/-- The lock discipline of a process, on what it has of the lock. -/
def lockContract (D : Type) : Contract (Res (D := D)) LockHold :=
  .sequential (fun o h r h' => h.Answers o r ∧ h' = h.after o) (fun _ => True)
    (fun o h => h.Admits o)

/-! ## 2. Rules -/

section Rules

variable {α β : Type} {m : Bool} {h : LockHold} {o : Op D} {f : Res o → PgProg D α}
  {Q : α → LockHold → Prop} {E : LockHold → Prop}

/-- One operation. -/
theorem wp_lock_op (hm : m = true → E h) (ha : h.Admits o)
    (hk : ∀ r, h.Answers o r → (lockContract D).wp m (f r) Q E (h.after o)) :
    (lockContract D).wp m (act o >>= f) Q E h := by
  refine Contract.seq_op (fun hf _ => hm hf) (fun _ => ha) fun _ r t hstep => ?_
  obtain ⟨hans, rfl⟩ := hstep
  exact ⟨trivial, hk r hans⟩

/-- The same where no error is about to leave. -/
theorem wp_lock_step (ha : h.Admits o)
    (hk : ∀ r, h.Answers o r → (lockContract D).wp false (f r) Q E (h.after o)) :
    (lockContract D).wp false (act o >>= f) Q E h :=
  wp_lock_op nofun ha hk

theorem wp_lock_ret {a : α} (hQ : Q a h) : (lockContract D).wp m (.ret a) Q E h :=
  Contract.seq_ret fun _ => hQ

/-- An operation that has nothing to do with the lock. -/
def Op.IgnoresLock : Op D → Prop
  | .lwLockAcquire _ | .lwLockRelease | .lwLockReleaseAll | .processExit => False
  | _ => True

theorem Op.IgnoresLock.after (ho : o.IgnoresLock) (h : LockHold) : h.after o = h := by
  cases o <;> first | rfl | exact ho.elim

theorem Op.IgnoresLock.admits (ho : o.IgnoresLock) (h : LockHold) : h.Admits o := by
  cases o <;> trivial

/-- A program without the lock's operations. -/
theorem wp_lock_ignored {prog : PgProg D α} (hall : prog.All Op.IgnoresLock) :
    (lockContract D).wp m prog (fun _ t => t = h) (fun t => t = h) h := by
  refine Contract.wp_of_all hall (Contract.seq_stable _) ?_ rfl
  rintro o t r t' ho - rfl - ⟨-, rfl⟩
  exact ⟨trivial, ho.admits t, ho.after t⟩

/-- ...that raises no error. -/
theorem wp_lock_reads {prog : PgProg D α} (hall : prog.All Op.IgnoresLock) (hn : prog.NoRaise) :
    (lockContract D).wp false prog (fun _ t => t = h) E h :=
  Contract.wp_noRaise hn (wp_lock_ignored hall)

theorem wp_lock_bind {p : PgProg D β} {g : β → PgProg D α} {A : LockHold → Prop}
    (hp : (lockContract D).wp m p (fun _ => A) E h)
    (hg : ∀ b t, A t → (lockContract D).wp m (g b) Q E t) :
    (lockContract D).wp m (p >>= g) Q E h :=
  Contract.wp_bind (Contract.wp_mono hp (fun b t _ ht => hg b t ht) fun _ _ h => h)

/-- A release of a lock that is held. -/
theorem wp_lock_release {f : Unit → PgProg D α} (hm : m = true → E h) (hheld : h ≠ .free)
    (hk : (lockContract D).wp m (f ()) Q E (h.after (.lwLockRelease : Op D))) :
    (lockContract D).wp m (pwhLwlockRelease >>= f) Q E h := by
  rw [pwhLwlockRelease_bind]
  refine wp_lock_op hm trivial fun held hans => ?_
  have hans : held = decide (h ≠ .free) := hans
  rw [hans, decide_eq_true hheld]
  exact hk

theorem wp_lock_release_last {Q : Unit → LockHold → Prop} (hm : m = true → E h)
    (hheld : h ≠ .free) (hQ : Q () (h.after (.lwLockRelease : Op D))) :
    (lockContract D).wp m pwhLwlockRelease Q E h := by
  refine wp_lock_op (o := .lwLockRelease) (f := fun held => if held then .ret () else .raise) hm
    trivial fun held hans => ?_
  have hans : held = decide (h ≠ .free) := hans
  rw [hans, decide_eq_true hheld]
  exact wp_lock_ret hQ

/-- A statement in front of which an error may be raised, if the lock is not held shared. -/
theorem wp_lock_fault (hm : h.shared = 0 → E h) (ha : h.Admits o)
    (hk : ∀ r, h.Answers o r →
      (lockContract D).wp false ((f r).faulty (.raisesHere : Op D) id) Q E (h.after o)) :
    (lockContract D).wp false ((act o >>= f).faulty (.raisesHere : Op D) id) Q E h := by
  refine wp_lock_step (o := .raisesHere) trivial fun b hb => ?_
  cases b with
  | true => exact Contract.seq_raise fun _ => hm (hb rfl)
  | false => exact wp_lock_step ha hk

theorem wp_lock_fault_release {f : Unit → PgProg D α} (hm : h.shared = 0 → E h) (hheld : h ≠ .free)
    (hk : (lockContract D).wp false ((f ()).faulty (.raisesHere : Op D) id) Q E
      (h.after (.lwLockRelease : Op D))) :
    (lockContract D).wp false ((pwhLwlockRelease >>= f).faulty (.raisesHere : Op D) id) Q E h := by
  rw [pwhLwlockRelease_bind]
  refine wp_lock_fault hm trivial fun held hans => ?_
  have hans : held = decide (h ≠ .free) := hans
  rw [hans, decide_eq_true hheld]
  exact hk

/-- A part of a try block that has nothing to do with the lock. -/
theorem wp_lock_fault_ignored {p : PgProg D β} {g : β → PgProg D α}
    (hall : p.All Op.IgnoresLock) (hm : E h)
    (hg : ∀ b, (lockContract D).wp false ((g b).faulty (.raisesHere : Op D) id) Q E h) :
    (lockContract D).wp false ((p >>= g).faulty (.raisesHere : Op D) id) Q E h := by
  rw [faulty_bind]
  have hfree : (p.faulty (.raisesHere : Op D) id).All Op.IgnoresLock := All.faulty trivial hall
  have hp := wp_lock_ignored (m := false) (h := h) hfree
  refine Contract.wp_bind (Contract.wp_mono hp ?_ ?_)
  · rintro b t - rfl
    exact hg b
  · rintro t - rfl
    exact hm

end Rules

/-! ## 3. One step -/

section Exec

variable {srv : Server D} {p q : Pid} {o : Op D} {e : Env D} {s t : State D} {r : Res o}

namespace LWLock

variable {l l' : LWLock}

theorem heldBy_iff : l.HeldBy p ↔ l.holdOf p ≠ .free := by
  simp only [HeldBy, holdOf, LockHold.free, ne_eq, LockHold.mk.injEq, decide_eq_false_iff_not,
    List.count_eq_zero]
  tauto

theorem holdOf_acquire {mode : LWLockMode} (h : l.acquire mode p = some l') :
    l'.holdOf p = (l.holdOf p).after (.lwLockAcquire mode : Op D) := by
  cases mode with
  | LW_SHARED =>
    obtain ⟨-, h⟩ := Option.ite_none_right_eq_some.mp h
    cases h
    simp [holdOf, LockHold.after]
  | LW_EXCLUSIVE =>
    obtain ⟨-, h⟩ := Option.ite_none_right_eq_some.mp h
    cases h
    simp [holdOf, LockHold.after]

theorem holdOf_release (h : l.release p = some l') :
    l.holdOf p ≠ .free ∧ l'.holdOf p = (l.holdOf p).after (.lwLockRelease : Op D) := by
  simp only [release] at h
  split at h
  · rename_i hex
    cases h
    exact ⟨heldBy_iff.mp (.inl hex), by simp [holdOf, LockHold.after, hex]⟩
  · rename_i hex
    obtain ⟨hmem, h⟩ := Option.ite_none_right_eq_some.mp h
    cases h
    exact ⟨heldBy_iff.mp (.inr hmem), by simp [holdOf, LockHold.after, hex]⟩

theorem holdOf_release_none (h : l.release p = none) : l.holdOf p = .free := by
  simp only [release] at h
  split at h
  · cases h
  · rename_i hex
    split at h
    · cases h
    · rename_i hmem
      simp [holdOf, LockHold.free, hex, List.count_eq_zero_of_not_mem hmem]

theorem holdOf_releaseAll : (l.releaseAll p).holdOf p = .free := by
  have hcount : (l.shared.filter (· ≠ p)).count p = 0 := List.count_eq_zero_of_not_mem (by simp)
  have hex : (l.releaseAll p).exclusive ≠ some p := by
    simp only [releaseAll]
    split <;> simp_all
  simp only [holdOf, hex, decide_false, LockHold.free]
  exact congrArg _ hcount

/-- A lock nobody holds is granted. -/
theorem acquire_of_free {m : LWLockMode} (h : ∀ q, ¬ l.HeldBy q) : l.acquire m p ≠ none := by
  have hex : l.exclusive = none := by
    by_contra hex
    obtain ⟨q, hq⟩ := Option.ne_none_iff_exists'.mp hex
    exact h q (.inl hq)
  have hsh : l.shared = [] := List.eq_nil_iff_forall_not_mem.mpr fun q hq => h q (.inr hq)
  cases m <;> simp [acquire, hex, hsh]

/-- What the others do leaves it alone. -/
theorem holdOf_of_lockStep (h : LockStep q l l') (hpq : p ≠ q) : l'.holdOf p = l.holdOf p := by
  simp only [holdOf, h.exclusive p hpq, h.shared p hpq]

end LWLock

/-- A process acts on what it has of the lock. -/
theorem holdOf_exec (h : exec srv p o e s = some (r, t)) :
    t.entrySearchLock.holdOf p = (s.entrySearchLock.holdOf p).after o := by
  cases o
  case lwLockAcquire m =>
    obtain ⟨l, hl, ht⟩ := Option.map_eq_some_iff.mp h
    cases ht
    exact LWLock.holdOf_acquire hl
  case lwLockRelease =>
    simp only [exec] at h
    split at h
    · rename_i l hl
      cases h
      exact (LWLock.holdOf_release hl).2
    · rename_i hl
      cases h
      have hfree := LWLock.holdOf_release_none hl
      simp only [State.lock_modifyBackend, hfree]
      rfl
  case lwLockReleaseAll => cases h; exact LWLock.holdOf_releaseAll
  case processExit => cases h; exact LWLock.holdOf_releaseAll
  case mark m => cases m <;> cases h <;> rfl
  case readInstrument ps => cases h; cases e.instrument <;> rfl
  case raisesHere => cases h; cases e.raises <;> rfl
  all_goals cases h; rfl

/-- Nothing waits but for the lock. -/
theorem exec_ne_none (h : ∀ m, o = .lwLockAcquire m → s.entrySearchLock.acquire m p ≠ none) :
    ∃ r t, exec srv p o e s = some (r, t) := by
  cases o
  case lwLockAcquire m =>
    obtain ⟨l, hl⟩ := Option.ne_none_iff_exists'.mp (h m rfl)
    exact ⟨_, _, by simp only [exec, hl]; rfl⟩
  case lwLockRelease =>
    simp only [exec]
    split <;> exact ⟨_, _, rfl⟩
  all_goals exact ⟨_, _, rfl⟩

end Exec

end WhatIsHappening
