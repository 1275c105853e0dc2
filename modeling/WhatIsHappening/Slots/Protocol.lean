/-
# The slot protocol

What the processes promise each other about `backend_pid`, `entry_search_lock` and the order in
which a process installs its handler, claims a slot, gives it up and ends.  Two rules can be
switched on: that a claim finds its slot still free when it writes its pid, and that a slot is not
released between the two reads of a poll.  Everything else is what the code does by itself.
-/
import WhatIsHappening.Frame.Upkeep

namespace WhatIsHappening

open Interleaving Prog

variable {D : Type}

/-! ## 1. Where a process stands

Of the globals of a process the protocol needs few: whether it lives, whether its handler and its
exit callback are there, whether it has begun to leave, and which entry it was given.  They change
at operations of the process itself only. -/

/-- The globals and marks of a process that the protocol speaks of. -/
structure Standing where
  isAlive : Bool
  wasInitialized : Bool
  isInstalled : Bool
  isUnlinked : Bool
  exitCallbacks : Nat
  held : Option Nat
  polling : Option Nat

def State.standing (s : State D) (p : Pid) : Standing where
  isAlive := (s.backends p).isAlive
  wasInitialized := (s.backends p).wasBackendInitialized
  isInstalled := (s.backends p).wasSignalHandlerInstalled
  isUnlinked := (s.backends p).isUnlinked
  exitCallbacks := (s.backends p).exitCallbacks
  held := (s.backends p).heldEntry
  polling := (s.backends p).polling

namespace Standing

/-- Alive, with the handler installed, and the table not yet searched for it on exit. -/
def Prepared (b : Standing) : Prop :=
  b.isAlive = true ∧ b.isInstalled = true ∧ b.isUnlinked = false

/-- Initialized, and able to take itself out of the table. -/
def Tracking (b : Standing) : Prop :=
  b.Prepared ∧ b.wasInitialized = true ∧ 0 < b.exitCallbacks

/-- What holds of a process between two calls. -/
def Idle (b : Standing) : Prop :=
  (b.wasInitialized = true → b.isInstalled = true ∧ b.isUnlinked = false) ∧
    (b.isInstalled = true → b.isUnlinked = true ∨ 0 < b.exitCallbacks)

/-- Out of the table for good, unless it initializes itself again. -/
def Unlinked (b : Standing) : Prop :=
  b.isAlive = true ∧ b.wasInitialized = false ∧ b.isUnlinked = true

theorem Tracking.idle {b : Standing} (h : b.Tracking) : b.Idle :=
  ⟨fun _ => ⟨h.1.2.1, h.1.2.2⟩, fun _ => .inr h.2.2⟩

theorem Unlinked.idle {b : Standing} (h : b.Unlinked) : b.Idle :=
  ⟨fun hw => absurd h.2.1 (by simp [hw]), fun _ => .inl h.2.2⟩

/-- An initialized process is tracking. -/
theorem Idle.tracking {b : Standing} (h : b.Idle) (ha : b.isAlive = true)
    (hw : b.wasInitialized = true) : b.Tracking := by
  obtain ⟨hi, hu⟩ := h.1 hw
  refine ⟨⟨ha, hi, hu⟩, hw, (h.2 hi).resolve_left (by simp [hu])⟩

end Standing

/-- An operation that changes no pid, no lock and nothing of where its process stands. -/
def Op.IsQuiet : Op D → Prop
  | .lwLockAcquire _ | .lwLockRelease | .lwLockReleaseAll | .pollBackendPid _ _
  | .writeBackendPid _ _ | .setWasBackendInitialized _ | .beforeShmemExit
  | .pwhInstallSignalHandler | .popExitCallbacks | .processExit | .fork _ _
  | .mark (.entryReturned _) | .mark .exitScan | .kill _ .SIGUSR2 => False
  | _ => True

section Frames

variable {srv : Server D} {p q : Pid} {o : Op D} {e : Env D} {s t : State D} {r : Res o}

/-- Nobody else's standing changes. -/
theorem standing_of_ne (h : exec srv p o e s = some (r, t)) (hq : q ≠ p) :
    t.standing q = s.standing q := by
  simp only [State.standing, exec_backends_of_ne h hq]

/-- A quiet operation leaves where its process stands alone. -/
theorem standing_of_isQuiet (h : exec srv p o e s = some (r, t)) (ho : o.IsQuiet) :
    t.standing p = s.standing p := by
  cases o
  case mark m => cases m <;> first | exact ho.elim | (cases h; simp [State.record, State.standing])
  case kill v sig => cases sig <;> first | exact ho.elim | (cases h; rfl)
  case readInstrument ps => cases h; cases e.instrument <;> rfl
  case raisesHere => cases h; cases e.raises <;> simp [State.standing]
  all_goals first | exact ho.elim | (cases h; first | rfl | simp [State.standing])

/-- A quiet operation writes no pid, -/
theorem pid_of_isQuiet (h : exec srv p o e s = some (r, t)) (ho : o.IsQuiet) (i : Nat) :
    t.pid i = s.pid i := by
  rcases exec_pid h i with h | ⟨v, rfl, -⟩
  · exact h
  · exact ho.elim

/-- ...leaves the lock alone, -/
theorem lock_of_isQuiet (h : exec srv p o e s = some (r, t)) (ho : o.IsQuiet) :
    t.entrySearchLock = s.entrySearchLock := by
  rcases exec_lock h with h | ⟨m, rfl⟩ | rfl | rfl | rfl
  · exact h
  all_goals exact ho.elim

/-! How the other operations change where their process stands. -/

theorem standing_entryReturned {i : Nat}
    (h : exec srv p (.mark (.entryReturned i)) e s = some (u, t)) :
    t.standing p = { s.standing p with held := some i } := by
  cases h
  simp [State.record, State.standing]

theorem standing_exitScan (h : exec srv p (.mark .exitScan) e s = some (u, t)) :
    t.standing p = { s.standing p with isUnlinked := true } := by
  cases h
  simp [State.record, State.standing]

theorem standing_setWasBackendInitialized {v : Bool}
    (h : exec srv p (.setWasBackendInitialized v) e s = some (u, t)) :
    t.standing p = { s.standing p with
      wasInitialized := v, isUnlinked := if v then false else (s.standing p).isUnlinked } := by
  cases h
  simp [State.standing]

theorem standing_beforeShmemExit (h : exec srv p .beforeShmemExit e s = some (u, t)) :
    t.standing p = { s.standing p with exitCallbacks := (s.standing p).exitCallbacks + 1 } := by
  cases h
  simp [State.standing]

theorem standing_pwhInstallSignalHandler
    (h : exec srv p .pwhInstallSignalHandler e s = some (u, t)) :
    t.standing p = { s.standing p with isInstalled := true } := by
  cases h
  simp [State.standing]

theorem standing_popExitCallbacks (h : exec srv p .popExitCallbacks e s = some (u, t)) :
    t.standing p = { s.standing p with exitCallbacks := 0 } := by
  cases h
  simp [State.standing]

theorem standing_processExit (h : exec srv p .processExit e s = some (u, t)) :
    t.standing p = { s.standing p with isAlive := false } := by
  cases h
  simp [State.standing]

theorem standing_fork {enabled : Bool} {minCost : D}
    (h : exec srv p (.fork enabled minCost) e s = some (u, t)) :
    t.standing p = ⟨true, false, false, false, 0, none, none⟩ := by
  cases h
  simp [State.standing]

theorem standing_pollBackendPid {i : Nat} {again : Bool} {u : Pid}
    (h : exec srv p (.pollBackendPid i again) e s = some (u, t)) :
    t.standing p = { s.standing p with
      polling := if again = true ∨ s.pid i = 0 then none else some i } := by
  cases h
  simp [State.standing]

end Frames

/-! ## 2. The contract

The rely of `p` says what others leave alone: its standing, its slots, and the slots it polls; the
guarantee of an operation is what the others' rely asks for. -/

/-- The two rules that a run may be asked to keep. -/
structure SlotRules where
  claimsFree : Bool
  pollsKeep : Bool

/-- What holds of the table and the lock at every point. -/
structure SlotInv (R : SlotRules) (srv : Server D) (s : State D) : Prop where
  pid_ne_zero : ∀ p, (s.standing p).isAlive = true → p ≠ 0
  prepared : ∀ i, s.pid i ≠ 0 →
    i < srv.gucs.maxTrackedQueries ∧ (s.standing (s.pid i)).Prepared
  unique : ∀ i j, s.pid i ≠ 0 → s.pid i = s.pid j → i = j
  lock : s.entrySearchLock.exclusive ≠ none → s.entrySearchLock.shared = []
  held : R.claimsFree = true → ∀ p e, (s.standing p).held = some e → s.pid e = p ∧ p ≠ 0

/-- What the others may do while `p` does nothing. -/
structure SlotRely (R : SlotRules) (p : Pid) (s t : State D) : Prop where
  own : t.standing p = s.standing p
  adds : p ≠ 0 → ∀ i, t.pid i = p → s.pid i = p
  exclusive : t.entrySearchLock.exclusive = some p ↔ s.entrySearchLock.exclusive = some p
  shared : t.entrySearchLock.shared.count p = s.entrySearchLock.shared.count p
  prepared : p ∈ s.entrySearchLock.shared → ∀ v, (s.standing v).Prepared → (t.standing v).Prepared
  keeps : R.claimsFree = true → p ≠ 0 → ∀ i, s.pid i = p → t.pid i = p
  polled : R.pollsKeep = true → ∀ i, (s.standing p).polling = some i → s.pid i ≠ 0 → t.pid i ≠ 0

/-- What a run grants. -/
def slotAssume (R : SlotRules) (o : Op D) (s : State D) : Prop :=
  ∀ i v, o = .writeBackendPid i v →
    (R.claimsFree = true → v ≠ 0 → s.pid i = 0) ∧
      (R.pollsKeep = true → v = 0 → ∀ q, (s.standing q).polling ≠ some i)

/-- What each operation of `p` promises: to stay within what the others rely on, to write into its
own slot, or its pid into a free one, and into none that another process holds, and to signal only
a process that is prepared for it. -/
structure SlotGuar (R : SlotRules) (p : Pid) (o : Op D) (s t : State D) : Prop where
  rely : ∀ q, q ≠ p → SlotRely R q s t
  mine : R.claimsFree = true → ∀ i, o.FillsOrClaims i →
    s.pid i = p ∨ o = .writeBackendPid i p ∧ s.pid i = 0
  fills : R.claimsFree = true → ∀ i, o.FillsOrClaims i →
    ∀ q, q ≠ p → (s.standing q).held ≠ some i
  kills : R.pollsKeep = true → ∀ v, o = .kill v .SIGUSR2 → v ≠ 0 ∧ (s.standing v).Prepared

theorem SlotRely.refl (R : SlotRules) (p : Pid) (s : State D) : SlotRely R p s s where
  own := rfl
  adds _ _ h := h
  exclusive := Iff.rfl
  shared := rfl
  prepared _ _ h := h
  keeps _ _ _ h := h
  polled _ _ _ h := h

theorem SlotRely.trans {R : SlotRules} {p : Pid} {s t u : State D} (h : SlotRely R p s t)
    (h' : SlotRely R p t u) : SlotRely R p s u where
  own := h'.own.trans h.own
  adds hp i hi := h.adds hp i (h'.adds hp i hi)
  exclusive := h'.exclusive.trans h.exclusive
  shared := h'.shared.trans h.shared
  prepared hs v hv := h'.prepared
    (List.count_pos_iff.mp (h.shared ▸ List.count_pos_iff.mpr hs)) v (h.prepared hs v hv)
  keeps hR hp i hi := h'.keeps hR hp i (h.keeps hR hp i hi)
  polled hR i hi hs := h'.polled hR i (by rw [h.own]; exact hi) (h.polled hR i hi hs)

/-- The contract of process `p`. -/
def slotContract (R : SlotRules) (srv : Server D) (p : Pid) :
    Contract (Res (D := D)) (State D) where
  sem o s r t := ∃ e, exec srv p o e s = some (r, t)
  inv := SlotInv R srv
  rely := SlotRely R p
  assume := slotAssume R
  guar o s _ t := SlotGuar R p o s t
  rely_refl := SlotRely.refl R p
  rely_trans := SlotRely.trans

variable {R : SlotRules} {srv : Server D} {p : Pid}

/-! ## 3. Conditions the others cannot make false

Only these may be carried from one operation to the next. -/

/-- Anything about where the process itself stands. -/
theorem stable_standing (X : Standing → Prop) :
    (slotContract R srv p).Stable fun s => X (s.standing p) := by
  intro s t h hr _
  rw [hr.own]
  exact h

/-- Slot `i` does not carry the pid of the process. -/
theorem stable_not_mine (I : Nat → Prop) :
    (slotContract R srv p).Stable fun s => p ≠ 0 ∧ ∀ i, I i → s.pid i ≠ p :=
  fun _ _ h hr _ => ⟨h.1, fun i hi ht => h.2 i hi (hr.adds h.1 i ht)⟩

/-- `be` is the slot of the process, as far as claims are exclusive. -/
def Owns (R : SlotRules) (p : Pid) (be : Nat) (s : State D) : Prop :=
  p ≠ 0 ∧ (R.claimsFree = true → s.pid be = p)

/-- A slot of ours stays ours. -/
theorem stable_owns (be : Nat) : (slotContract R srv p).Stable (Owns R p be) :=
  fun _ _ h hr _ => ⟨h.1, fun hR => hr.keeps hR h.1 be (h.2 hR)⟩

/-- No other process holds a slot that is ours. -/
theorem Owns.not_held {be : Nat} {s : State D} (hi : SlotInv R srv s) (h : Owns R p be s)
    (hR : R.claimsFree = true) {q : Pid} (hq : q ≠ p) : (s.standing q).held ≠ some be := by
  intro hheld
  exact hq ((hi.held hR q be hheld).1.symm.trans (h.2 hR))

/-! ## 4. Quiet operations

Reads, and writes to a slot of one's own other than its pid: no part of the protocol sees them. -/

section Quiet

variable {o : Op D} {e : Env D} {s t : State D} {r : Res o}

/-- ...and everybody where they stand. -/
theorem standing_eq_of_isQuiet (h : exec srv p o e s = some (r, t)) (ho : o.IsQuiet) :
    t.standing = s.standing := by
  funext q
  by_cases hq : q = p
  · subst hq
    exact standing_of_isQuiet h ho
  · exact standing_of_ne h hq

/-- Two states that agree on pids, lock and standings. -/
theorem SlotRely.of_eq (hpid : ∀ i, t.pid i = s.pid i)
    (hlock : t.entrySearchLock = s.entrySearchLock) (hst : t.standing = s.standing) (q : Pid) :
    SlotRely R q s t where
  own := by rw [hst]
  adds _ i h := (hpid i).symm.trans h
  exclusive := by rw [hlock]
  shared := by rw [hlock]
  prepared _ v h := by rwa [hst]
  keeps _ _ i h := (hpid i).trans h
  polled _ i _ h := by rwa [hpid]

/-- The invariant speaks of pids, the lock and the standings only. -/
theorem SlotInv.of_eq (hi : SlotInv R srv s) (hpid : ∀ i, t.pid i = s.pid i)
    (hlock : t.entrySearchLock = s.entrySearchLock) (hst : t.standing = s.standing) :
    SlotInv R srv t where
  pid_ne_zero := by rw [hst]; exact hi.pid_ne_zero
  prepared i h := by rw [hst, hpid]; exact hi.prepared i (by rwa [hpid] at h)
  unique i j h h' := hi.unique i j (by rwa [hpid] at h) (by rwa [hpid, hpid] at h')
  lock := by rw [hlock]; exact hi.lock
  held hR q e h := by rw [hpid]; exact hi.held hR q e (by rwa [hst] at h)

/-- An operation that is quiet, and fills at most slot `be`. -/
def Op.QuietAt (be : Nat) (o : Op D) : Prop := o.IsQuiet ∧ ∀ i, o.fills = some i → i = be

/-- A quiet operation on a slot of ours keeps what is asked of it. -/
theorem silent_quietAt {be : Nat} (ho : o.QuietAt be) :
    (slotContract R srv p).Silent (Owns R p be) o := by
  intro s r t hi hown _ ⟨e, he⟩
  have hpid := pid_of_isQuiet he ho.1
  have hlock := lock_of_isQuiet he ho.1
  have hst := standing_eq_of_isQuiet he ho.1
  refine ⟨SlotInv.of_eq hi hpid hlock hst, ⟨fun q _ => .of_eq hpid hlock hst q, ?_, ?_, ?_⟩,
    .of_eq hpid hlock hst p⟩
  · rintro hR i (hf | ⟨v, rfl⟩)
    · exact .inl ((ho.2 i hf).symm ▸ hown.2 hR)
    · exact ho.1.elim
  · rintro hR i (hf | ⟨v, rfl⟩) q hq
    · exact (ho.2 i hf).symm ▸ hown.not_held hi hR hq
    · exact ho.1.elim
  · rintro - v rfl
    exact ho.1.elim

/-- A quiet operation that fills no slot. -/
theorem silent_quiet {A : State D → Prop} (ho : o.IsQuiet) (hf : o.fills = none) :
    (slotContract R srv p).Silent A o := by
  intro s r t hi _ _ ⟨e, he⟩
  have hpid := pid_of_isQuiet he ho
  have hlock := lock_of_isQuiet he ho
  have hst := standing_eq_of_isQuiet he ho
  refine ⟨SlotInv.of_eq hi hpid hlock hst, ⟨fun q _ => .of_eq hpid hlock hst q, ?_, ?_, ?_⟩,
    .of_eq hpid hlock hst p⟩
  · rintro - i (h | ⟨v, rfl⟩)
    · rw [hf] at h
      cases h
    · exact ho.elim
  · rintro - i (h | ⟨v, rfl⟩) q -
    · rw [hf] at h
      cases h
    · exact ho.elim
  · rintro - v rfl
    exact ho.elim

/-- Recording a query is quiet. -/
theorem Op.OfTrack.quietAt {be : Nat} {o : Op D} (h : o.OfTrack be) : o.QuietAt be := by
  refine ⟨?_, fun i hi => ?_⟩
  · cases o
    case mark m => cases m <;> trivial
    all_goals trivial
  · cases o <;> cases hi <;> exact h

end Quiet

/-! ## 5. What the other operations do

Claims, releases, the lock and the marks, each with the part of the invariant it touches. -/

/-- How `p` may change the lock. -/
structure LockStep (p : Pid) (l l' : LWLock) : Prop where
  exclusive : ∀ q, q ≠ p → (l'.exclusive = some q ↔ l.exclusive = some q)
  shared : ∀ q, q ≠ p → l'.shared.count q = l.shared.count q
  excludes : (l.exclusive ≠ none → l.shared = []) → l'.exclusive ≠ none → l'.shared = []

namespace LockStep

theorem refl (p : Pid) (l : LWLock) : LockStep p l l :=
  ⟨fun _ _ => Iff.rfl, fun _ _ => rfl, fun h => h⟩

theorem acquire {p : Pid} {m : LWLockMode} {l l' : LWLock} (h : l.acquire m p = some l') :
    LockStep p l l' := by
  cases m with
  | LW_SHARED =>
    simp only [LWLock.acquire, Option.ite_none_right_eq_some, Option.some.injEq] at h
    obtain ⟨hex, rfl⟩ := h
    exact ⟨fun _ _ => Iff.rfl, fun q hq => by simp [Ne.symm hq], fun _ h => absurd hex h⟩
  | LW_EXCLUSIVE =>
    simp only [LWLock.acquire, Option.ite_none_right_eq_some, Option.some.injEq] at h
    obtain ⟨⟨hex, hsh⟩, rfl⟩ := h
    exact ⟨fun q hq => by simp [hex, Ne.symm hq], fun _ _ => rfl, fun _ _ => hsh⟩

theorem release {p : Pid} {l l' : LWLock} (h : l.release p = some l') : LockStep p l l' := by
  simp only [LWLock.release] at h
  split at h
  · rename_i hex
    cases h
    exact ⟨fun q hq => by simp [hex, Ne.symm hq], fun _ _ => rfl, fun _ h => absurd rfl h⟩
  · split at h
    · cases h
      refine ⟨fun _ _ => Iff.rfl, fun q hq => by simp [List.count_erase_of_ne hq],
        fun hl h => ?_⟩
      simp [hl h]
    · cases h

theorem releaseAll (p : Pid) (l : LWLock) : LockStep p l (l.releaseAll p) := by
  refine ⟨fun q hq => ?_, fun q hq => ?_, fun hl h => ?_⟩
  · simp only [LWLock.releaseAll]
    split
    · rename_i hex
      simp [hex, Ne.symm hq]
    · rfl
  · simp [LWLock.releaseAll, hq]
  · by_cases hex : l.exclusive = some p
    · simp [LWLock.releaseAll, hex] at h
    · simp only [LWLock.releaseAll, if_neg hex] at h ⊢
      simp [hl h]

end LockStep

/-- A step of `p` that changes no pid.  It may end `p`'s being prepared only when no slot carries
its pid and nobody holds the lock shared. -/
theorem SlotInv.of_owner_step {s t : State D} (hi : SlotInv R srv s)
    (hpid : ∀ i, t.pid i = s.pid i) (hlock : LockStep p s.entrySearchLock t.entrySearchLock)
    (hst : ∀ q, q ≠ p → t.standing q = s.standing q)
    (halive : (t.standing p).isAlive = true → p ≠ 0)
    (hprep : (s.standing p).Prepared → (t.standing p).Prepared ∨
      (∀ i, s.pid i ≠ p) ∧ s.entrySearchLock.shared = [])
    (hheld : R.claimsFree = true → ∀ e, (t.standing p).held = some e → s.pid e = p ∧ p ≠ 0) :
    SlotInv R srv t ∧ ∀ q, q ≠ p → SlotRely R q s t := by
  refine ⟨⟨fun q hq => ?_, fun i h => ?_, fun i j h h' => ?_, hlock.excludes hi.lock,
    fun hR q e h => ?_⟩, fun q hq => ⟨hst q hq, fun _ i h => (hpid i) ▸ h, hlock.exclusive q hq,
      hlock.shared q hq, fun hsh v hv => ?_, fun _ _ i h => (hpid i).trans h, fun _ i _ h => ?_⟩⟩
  · by_cases hqp : q = p
    · subst hqp
      exact halive hq
    · exact hi.pid_ne_zero q (by rwa [hst q hqp] at hq)
  · rw [hpid] at h ⊢
    refine ⟨(hi.prepared i h).1, ?_⟩
    by_cases hip : s.pid i = p
    · rw [hip]
      exact (hprep (hip ▸ (hi.prepared i h).2)).resolve_right fun hno => hno.1 i hip
    · rw [hst _ hip]
      exact (hi.prepared i h).2
  · rw [hpid] at h
    rw [hpid, hpid] at h'
    exact hi.unique i j h h'
  · rw [hpid]
    by_cases hqp : q = p
    · subst hqp
      exact hheld hR e h
    · exact hi.held hR q e (by rwa [hst q hqp] at h)
  · by_cases hvp : v = p
    · subst hvp
      refine (hprep hv).resolve_right fun hno => ?_
      simp [hno.2] at hsh
    · rw [hst v hvp]
      exact hv
  · rwa [hpid]

/-- Such a step keeps what `p` owes. -/
theorem SlotGuar.of_rely {o : Op D} {s t : State D} (h : ∀ q, q ≠ p → SlotRely R q s t)
    (hf : o.fills = none) (hw : ∀ i v, o ≠ .writeBackendPid i v) (hk : ∀ v, o ≠ .kill v .SIGUSR2) :
    SlotGuar R p o s t := by
  have hnone : ∀ i, ¬ o.FillsOrClaims i := by
    rintro i (h | ⟨v, h⟩)
    · rw [hf] at h
      cases h
    · exact hw i v h
  exact ⟨h, fun _ i hi => absurd hi (hnone i), fun _ i hi => absurd hi (hnone i),
    fun _ v ho => absurd ho (hk v)⟩

/-- Every operation changes the lock in one of these ways. -/
theorem exec_lockStep {o : Op D} {e : Env D} {s t : State D} {r : Res o}
    (h : exec srv p o e s = some (r, t)) : LockStep p s.entrySearchLock t.entrySearchLock := by
  rcases exec_lock h with hl | ⟨m, rfl⟩ | rfl | rfl | rfl
  · rw [hl]
    exact .refl p _
  · obtain ⟨l, hl, ht⟩ := Option.map_eq_some_iff.mp h
    cases ht
    exact .acquire hl
  · simp only [exec] at h
    split at h
    · rename_i l hl
      cases h
      exact .release hl
    · cases h
      exact .refl p _
  · cases h
    exact .releaseAll p _
  · cases h
    exact .releaseAll p _

/-- An operation that changes no pid. -/
theorem own_step {o : Op D} {e : Env D} {s t : State D} {r : Res o} (hi : SlotInv R srv s)
    (h : exec srv p o e s = some (r, t)) (hf : o.fills = none)
    (hw : ∀ i v, o ≠ .writeBackendPid i v) (hk : ∀ v, o ≠ .kill v .SIGUSR2)
    (halive : (t.standing p).isAlive = true → p ≠ 0)
    (hprep : (s.standing p).Prepared → (t.standing p).Prepared ∨
      (∀ i, s.pid i ≠ p) ∧ s.entrySearchLock.shared = [])
    (hheld : R.claimsFree = true → ∀ e, (t.standing p).held = some e → s.pid e = p ∧ p ≠ 0) :
    SlotInv R srv t ∧ SlotGuar R p o s t := by
  have hpid : ∀ i, t.pid i = s.pid i := fun i =>
    (exec_pid h i).resolve_right fun ⟨v, ho, _⟩ => hw i v ho
  obtain ⟨hi', hr⟩ := hi.of_owner_step hpid (exec_lockStep h) (fun q hq => standing_of_ne h hq)
    halive hprep hheld
  exact ⟨hi', .of_rely hr hf hw hk⟩

/-- An operation that changes no pid, fills no slot and leaves where its process stands alone. -/
def Op.IsPlain : Op D → Prop
  | .lwLockAcquire _ | .lwLockRelease | .lwLockReleaseAll => True
  | o => o.IsQuiet ∧ o.fills = none

theorem Op.IsPlain.ne_write {o : Op D} (ho : o.IsPlain) (i : Nat) (v : Pid) :
    o ≠ .writeBackendPid i v := by
  rintro rfl
  exact ho.1

theorem Op.IsPlain.ne_kill {o : Op D} (ho : o.IsPlain) (v : Pid) : o ≠ .kill v .SIGUSR2 := by
  rintro rfl
  exact ho.1

theorem Op.IsPlain.fills_eq {o : Op D} (ho : o.IsPlain) : o.fills = none := by
  cases o
  case lwLockAcquire m => rfl
  case lwLockRelease => rfl
  case lwLockReleaseAll => rfl
  all_goals exact ho.2

/-- A plain operation leaves its process where it stands, -/
theorem standing_of_isPlain {o : Op D} {e : Env D} {s t : State D} {r : Res o} (ho : o.IsPlain)
    (h : exec srv p o e s = some (r, t)) : t.standing p = s.standing p := by
  cases o
  case lwLockAcquire m =>
    obtain ⟨l, -, hl⟩ := Option.map_eq_some_iff.mp h
    cases hl
    simp [State.standing]
  case lwLockRelease =>
    simp only [exec] at h
    split at h <;> cases h <;> simp [State.standing]
  case lwLockReleaseAll => cases h; rfl
  all_goals exact standing_of_isQuiet h ho.1

/-- ...writes no pid, -/
theorem pid_of_isPlain {o : Op D} {e : Env D} {s t : State D} {r : Res o} (ho : o.IsPlain)
    (h : exec srv p o e s = some (r, t)) (i : Nat) : t.pid i = s.pid i :=
  (exec_pid h i).resolve_right fun ⟨v, hv, _⟩ => ho.ne_write i v hv

/-- ...and keeps the invariant and what is promised. -/
theorem plain_step {o : Op D} {e : Env D} {s t : State D} {r : Res o} (hi : SlotInv R srv s)
    (ho : o.IsPlain) (h : exec srv p o e s = some (r, t)) :
    SlotInv R srv t ∧ SlotGuar R p o s t ∧ t.standing p = s.standing p := by
  have hst := standing_of_isPlain ho h
  obtain ⟨hi', hg⟩ := own_step hi h ho.fills_eq ho.ne_write ho.ne_kill
    (by rw [hst]; exact hi.pid_ne_zero p) (by rw [hst]; exact .inl)
    (by rw [hst]; exact fun hR => hi.held hR p)
  exact ⟨hi', hg, hst⟩

/-- A condition on where a process stands that does not depend on its marks. -/
def Unmarked (X : Standing → Prop) : Prop :=
  ∀ b h g, X b → X { b with held := h, polling := g }

theorem unmarked_tracking : Unmarked Standing.Tracking := fun _ _ _ h => h

/-- A condition on the pids and on where `p` stands. -/
def Plainly (p : Pid) (A : State D → Prop) : Prop :=
  ∀ s t, (∀ i, t.pid i = s.pid i) → t.standing p = s.standing p → A s → A t

/-- Plain operations keep any condition on where the process stands, -/
theorem plainly_standing (X : Standing → Prop) : Plainly (D := D) p fun s => X (s.standing p) :=
  fun s t _ hst h => by simpa only [hst] using h

/-- ...that slots are not ours, -/
theorem plainly_not_mine (I : Nat → Prop) :
    Plainly (D := D) p fun s => p ≠ 0 ∧ ∀ i, I i → s.pid i ≠ p :=
  fun s t hpid _ h => ⟨h.1, fun i hi => by rw [hpid]; exact h.2 i hi⟩

/-- ...and that one is. -/
theorem plainly_owns (be : Nat) : Plainly (D := D) p (Owns R p be) :=
  fun s t hpid _ h => ⟨h.1, fun hR => by rw [hpid]; exact h.2 hR⟩

theorem Plainly.and {A B : State D → Prop} (hA : Plainly p A) (hB : Plainly p B) :
    Plainly p fun s => A s ∧ B s :=
  fun s t hpid hst h => ⟨hA s t hpid hst h.1, hB s t hpid hst h.2⟩

/-! ## 6. Rules for the operations

One rule for each kind of operation; the programs are proved from these. -/

section Rules

variable {m : Bool} {α : Type} {X : Standing → Prop} {A : State D → Prop} {s : State D}
  {Q : α → State D → Prop} {E : State D → Prop}

/-- A quiet operation, with its answer. -/
theorem wp_quiet {o : Op D} {k : Res o → PgProg D α} (ho : o.IsQuiet) (hf : o.fills = none)
    (hst : (slotContract R srv p).Stable A) (hA : A s)
    (hE : m = true → ∀ t, SlotInv R srv t → A t → E t)
    (hk : ∀ t e r t', SlotInv R srv t → A t → exec srv p o e t = some (r, t') →
      SlotInv R srv t' → A t' → (slotContract R srv p).wp m (k r) Q E t') :
    (slotContract R srv p).wp m (act o >>= k) Q E s := by
  refine Contract.wp_op hst hA hE fun t r t' hi hAt ha ⟨e, he⟩ => ?_
  obtain ⟨hi', hg, hr⟩ := silent_quiet (A := A) ho hf t r t' hi hAt ha ⟨e, he⟩
  exact ⟨hi', hg, hk t e r t' hi hAt he hi' (hst t t' hAt hr hi')⟩

/-- A plain operation, with its answer. -/
theorem wp_plain_op {o : Op D} {k : Res o → PgProg D α} (ho : o.IsPlain) (hpl : Plainly p A)
    (hst : (slotContract R srv p).Stable A) (hA : A s)
    (hE : m = true → ∀ t, SlotInv R srv t → A t → E t)
    (hk : ∀ t e r t', SlotInv R srv t → A t → exec srv p o e t = some (r, t') →
      SlotInv R srv t' → A t' → (slotContract R srv p).wp m (k r) Q E t') :
    (slotContract R srv p).wp m (act o >>= k) Q E s := by
  refine Contract.wp_op hst hA hE fun t r t' hi hAt _ ⟨e, he⟩ => ?_
  obtain ⟨hi', hg, hst'⟩ := plain_step hi ho he
  exact ⟨hi', hg, hk t e r t' hi hAt he hi' (hpl t t' (pid_of_isPlain ho he) hst' hAt)⟩

/-- ...where it matters only how the process stands. -/
theorem wp_plain_at (X : Standing → Prop) {o : Op D} {k : Res o → PgProg D α} (ho : o.IsPlain)
    (hX : X (s.standing p)) (hE : m = true → ∀ t, SlotInv R srv t → X (t.standing p) → E t)
    (hk : ∀ t e r t', exec srv p o e t = some (r, t') → X (t'.standing p) →
      (slotContract R srv p).wp m (k r) Q E t') :
    (slotContract R srv p).wp m (act o >>= k) Q E s :=
  wp_plain_op ho (plainly_standing X) (stable_standing X) hX hE
    fun t e r t' _ _ he _ hX' => hk t e r t' he hX'

/-- Giving up the lock, where it may turn out not to be held. -/
theorem wp_unlock {f : Unit → PgProg D α} (hpl : Plainly p A)
    (hst : (slotContract R srv p).Stable A) (hA : A s)
    (hE : ∀ t, SlotInv R srv t → A t → E t)
    (hk : ∀ t, SlotInv R srv t → A t → (slotContract R srv p).wp m (f ()) Q E t) :
    (slotContract R srv p).wp m (pwhLwlockRelease >>= f) Q E s := by
  rw [pwhLwlockRelease_bind]
  refine wp_plain_op trivial hpl hst hA (fun _ => hE) fun t e r t' _ _ _ hi' hA' => ?_
  cases r
  · exact fun u hu hiu => hE u hiu (hst t' u hA' hu hiu)
  · exact hk t' hi' hA'

/-- The release of the lock at the end of a program. -/
theorem wp_unlock_last {E : State D → Prop} (hpl : Plainly p A)
    (hst : (slotContract R srv p).Stable A) (hA : A s) (hE : ∀ t, SlotInv R srv t → A t → E t) :
    (slotContract R srv p).wp m pwhLwlockRelease (fun _ => A) E s := by
  have hret : (pwhLwlockRelease : PgProg D Unit) = pwhLwlockRelease >>= fun _ => .ret () := by
    rw [pwhLwlockRelease_bind]
    rfl
  rw [hret]
  exact wp_unlock hpl hst hA hE fun t _ ht => Contract.wp_ret hst ht

/-- A program of plain operations leaves where its process stands alone. -/
theorem wp_plain {β : Type} {prog : PgProg D β} (hall : prog.All Op.IsPlain)
    (hX : X (s.standing p)) :
    (slotContract R srv p).wp m prog (fun _ t => X (t.standing p)) (fun t => X (t.standing p)) s :=
  Contract.wp_of_all hall (stable_standing X) (fun _ _ _ _ ho hi hXt _ ⟨_, he⟩ => by
    obtain ⟨hi', hg, hst⟩ := plain_step hi ho he
    exact ⟨hi', hg, by rw [hst]; exact hXt⟩) hX

/-- An operation of the process that changes no pid. -/
theorem wp_own {o : Op D} {k : Res o → PgProg D α} (hf : o.fills = none)
    (hw : ∀ i v, o ≠ .writeBackendPid i v) (hk : ∀ v, o ≠ .kill v .SIGUSR2)
    (hst : (slotContract R srv p).Stable A) (hA : A s)
    (hE : m = true → ∀ t, SlotInv R srv t → A t → E t)
    (h : ∀ t e r t', SlotInv R srv t → A t → exec srv p o e t = some (r, t') →
      ((t'.standing p).isAlive = true → p ≠ 0) ∧
      ((t.standing p).Prepared → (t'.standing p).Prepared ∨
        (∀ i, t.pid i ≠ p) ∧ t.entrySearchLock.shared = []) ∧
      (R.claimsFree = true → ∀ e, (t'.standing p).held = some e → t.pid e = p ∧ p ≠ 0) ∧
      (slotContract R srv p).wp m (k r) Q E t') :
    (slotContract R srv p).wp m (act o >>= k) Q E s := by
  refine Contract.wp_op hst hA hE fun t r t' hi hAt _ ⟨e, he⟩ => ?_
  obtain ⟨halive, hprep, hheld, hwp⟩ := h t e r t' hi hAt he
  obtain ⟨hi', hg⟩ := own_step hi he hf hw hk halive hprep hheld
  exact ⟨hi', hg, hwp⟩

/-- An operation that changes where `p` stands by `f`, and does not end its being prepared. -/
theorem wp_standing {X Y : Standing → Prop} {f : Standing → Standing} {o : Op D}
    {k : Res o → PgProg D α} (hf : o.fills = none) (hw : ∀ i v, o ≠ .writeBackendPid i v)
    (hk : ∀ v, o ≠ .kill v .SIGUSR2)
    (hstd : ∀ e s r t, exec srv p o e s = some (r, t) → t.standing p = f (s.standing p))
    (hp : p ≠ 0) (hprep : ∀ b, X b → b.Prepared → (f b).Prepared)
    (hheld : ∀ b, (f b).held = b.held) (hXY : ∀ b, X b → Y (f b)) (hX : X (s.standing p))
    (hE : m = true → ∀ t, SlotInv R srv t → X (t.standing p) → E t)
    (hk : ∀ r t, Y (t.standing p) → (slotContract R srv p).wp m (k r) Q E t) :
    (slotContract R srv p).wp m (act o >>= k) Q E s := by
  refine wp_own hf hw ‹_› (stable_standing X) hX hE fun t e r t' hi hXt he => ?_
  have hst := hstd e t r t' he
  rw [hst]
  exact ⟨fun _ => hp, fun h => .inl (hprep _ hXt h), fun hR e h => hi.held hR p e (hheld _ ▸ h),
    hk r t' (by rw [hst]; exact hXY _ hXt)⟩

/-- `p` claims a free slot. -/
theorem wp_claim {i : Nat} {k : Unit → PgProg D α} (hin : i < srv.gucs.maxTrackedQueries)
    (hs : (s.standing p).Tracking) (hp : p ≠ 0) (hmine : ∀ j, s.pid j ≠ p)
    (hE : m = true → ∀ t, SlotInv R srv t → (t.standing p).Tracking → E t)
    (hk : ∀ t, (t.standing p).Tracking → Owns R p i t →
      (slotContract R srv p).wp m (k ()) Q E t) :
    (slotContract R srv p).wp m (act (.writeBackendPid i p) >>= k) Q E s := by
  refine Contract.wp_op ((stable_standing Standing.Tracking).and (stable_not_mine fun _ => True))
    ⟨hs, hp, fun j _ => hmine j⟩ (fun hm t hi h => hE hm t hi h.1) ?_
  rintro t r t' hi ⟨htr, -, hmine⟩ ha ⟨e, he⟩
  have hst : t'.standing = t.standing := by
    funext q
    by_cases hq : q = p
    · subst hq
      cases he
      simp [State.standing, hp]
    · exact standing_of_ne he hq
  have hlock : t'.entrySearchLock = t.entrySearchLock := by cases he; rfl
  have hself : t'.pid i = p := by cases he; simp [State.pid]
  have hother : ∀ j, j ≠ i → t'.pid j = t.pid j := by
    intro j hj
    cases he
    simp [State.pid, State.entries_modifyEntry_of_ne t _ hj]
  have hfree : R.claimsFree = true → t.pid i = 0 := fun hR => (ha i p rfl).1 hR hp
  refine ⟨⟨by rw [hst]; exact hi.pid_ne_zero, fun j h => ?_, fun j j' h h' => ?_,
    by rw [hlock]; exact hi.lock, fun hR q e h => ?_⟩,
    ⟨fun q hq => ⟨by rw [hst], fun _ j h => ?_, by rw [hlock], by rw [hlock],
      fun _ v hv => by rwa [hst], fun hR hq0 j h => ?_, fun _ j _ h => ?_⟩,
      fun hR j hj => ?_, fun hR j hj q hq hheld => ?_, fun _ v ho => by cases ho⟩,
    hk t' (by rw [hst]; exact htr) ⟨hp, fun _ => hself⟩⟩
  · by_cases hj : j = i
    · subst hj
      rw [hst, hself]
      exact ⟨hin, htr.1⟩
    · rw [hother j hj] at h ⊢
      rw [hst]
      exact hi.prepared j h
  · by_cases hj : j = i <;> by_cases hj' : j' = i
    · rw [hj, hj']
    · rw [hj, hself, hother j' hj'] at h'
      exact absurd h'.symm (hmine j' trivial)
    · rw [hj', hself, hother j hj] at h'
      exact absurd h' (hmine j trivial)
    · rw [hother j hj] at h
      rw [hother j hj, hother j' hj'] at h'
      exact hi.unique j j' h h'
  · rw [hst] at h
    have hqe := hi.held hR q e h
    have hei : e ≠ i := by
      rintro rfl
      exact hqe.2 (hqe.1.symm.trans (hfree hR))
    rw [hother e hei]
    exact hqe
  · by_cases hj : j = i
    · subst hj
      exact absurd (h.symm.trans hself) hq
    · rwa [hother j hj] at h
  · have hj : j ≠ i := by
      rintro rfl
      exact hq0 (h.symm.trans (hfree hR))
    rwa [hother j hj]
  · by_cases hj : j = i
    · subst hj
      rw [hself]
      exact hp
    · rwa [hother j hj]
  · rcases hj with hj | ⟨v, hj⟩ <;> cases hj
    exact .inr ⟨rfl, hfree hR⟩
  · obtain rfl : j = i := by
      rcases hj with hj | ⟨v, hj⟩ <;> cases hj
      rfl
    have hqe := hi.held hR q j hheld
    exact hqe.2 (hqe.1.symm.trans (hfree hR))

/-- `p` releases a slot of its own. -/
theorem wp_release {I : Nat → Prop} {be : Nat} {k : Unit → PgProg D α} (hX : Unmarked X)
    (hs : X (s.standing p)) (hown : Owns R p be s) (hI : ∀ j, I j → s.pid j ≠ p)
    (hE : m = true → ∀ t, SlotInv R srv t → X (t.standing p) → E t)
    (hk : ∀ t, X (t.standing p) → p ≠ 0 → (∀ j, I j ∨ j = be → t.pid j ≠ p) →
      (slotContract R srv p).wp m (k ()) Q E t) :
    (slotContract R srv p).wp m (act (.writeBackendPid be 0) >>= k) Q E s := by
  refine Contract.wp_op
    (((stable_standing X).and (stable_owns be)).and (stable_not_mine I))
    ⟨⟨hs, hown⟩, hown.1, hI⟩ (fun hm t hi h => hE hm t hi h.1.1) ?_
  rintro t r t' hi ⟨⟨hXt, hown⟩, hp, hI⟩ ha ⟨e, he⟩
  have hst : ∀ q, q ≠ p → t'.standing q = t.standing q := fun q hq => standing_of_ne he hq
  have hstp : ∃ h, t'.standing p = { t.standing p with held := h } ∧
      ∀ i, h = some i → (t.standing p).held = some i ∧ i ≠ be := by
    cases he
    by_cases hh : (t.backends p).heldEntry = some be
    · exact ⟨none, by simp [State.standing, hh], nofun⟩
    · exact ⟨(t.standing p).held, by simp [State.standing, hh],
        fun i h => ⟨h, fun hib => hh (hib ▸ h)⟩⟩
  have hprep : ∀ v, (t'.standing v).Prepared ↔ (t.standing v).Prepared := by
    intro v
    by_cases hv : v = p
    · subst hv
      obtain ⟨h, hh, -⟩ := hstp
      rw [hh]
      rfl
    · rw [hst v hv]
  have hlock : t'.entrySearchLock = t.entrySearchLock := by cases he; rfl
  have hself : t'.pid be = 0 := by cases he; simp [State.pid]
  have hother : ∀ j, j ≠ be → t'.pid j = t.pid j := by
    intro j hj
    cases he
    simp [State.pid, State.entries_modifyEntry_of_ne t _ hj]
  have hle : ∀ j, t'.pid j ≠ 0 → j ≠ be ∧ t'.pid j = t.pid j := by
    intro j hj
    have hjbe : j ≠ be := by
      rintro rfl
      exact hj hself
    exact ⟨hjbe, hother j hjbe⟩
  refine ⟨⟨fun q hq => ?_, fun j h => ?_, fun j j' h h' => ?_,
    by rw [hlock]; exact hi.lock, fun hR q e h => ?_⟩,
    ⟨fun q hq => ⟨hst q hq, fun hq0 j h => ?_, by rw [hlock], by rw [hlock],
      fun _ v hv => (hprep v).mpr hv, fun hR hq0 j h => ?_, fun hR j hj h => ?_⟩,
      fun hR j hj => ?_, fun hR j hj q hq hheld => ?_, fun _ v ho => by cases ho⟩, ?_⟩
  · by_cases hqp : q = p
    · subst hqp
      exact hp
    · exact hi.pid_ne_zero q (by rwa [hst q hqp] at hq)
  · have hj := (hle j h).2
    rw [hj] at h ⊢
    rw [hprep]
    exact hi.prepared j h
  · have hj' : t'.pid j' ≠ 0 := h' ▸ h
    rw [(hle j h).2, (hle j' hj').2] at h'
    rw [(hle j h).2] at h
    exact hi.unique j j' h h'
  · by_cases hqp : q = p
    · subst hqp
      obtain ⟨g, hg, hgi⟩ := hstp
      rw [hg] at h
      obtain ⟨hheld, hne⟩ := hgi e h
      rw [hother e hne]
      exact hi.held hR q e hheld
    · rw [hst q hqp] at h
      have hqe := hi.held hR q e h
      have hne : e ≠ be := by
        rintro rfl
        exact hown.not_held hi hR hqp h
      rw [hother e hne]
      exact hqe
  · have hj0 : t'.pid j ≠ 0 := h.symm ▸ hq0
    rwa [(hle j hj0).2] at h
  · have hj : j ≠ be := by
      rintro rfl
      exact hq (h.symm.trans (hown.2 hR))
    rwa [hother j hj]
  · have hjbe : j ≠ be := by
      rintro rfl
      exact (ha j 0 rfl).2 hR rfl q hj
    rwa [hother j hjbe]
  · rcases hj with hj | ⟨v, hj⟩ <;> cases hj
    exact .inl (hown.2 hR)
  · obtain rfl : j = be := by
      rcases hj with hj | ⟨v, hj⟩ <;> cases hj
      rfl
    exact hown.not_held hi hR hq hheld
  · obtain ⟨h, hh, -⟩ := hstp
    refine hk t' (by rw [hh]; exact hX _ h (t.standing p).polling hXt) hp fun j hj => ?_
    by_cases hjbe : j = be
    · subst hjbe
      rw [hself]
      exact Ne.symm hp
    · rw [hother j hjbe]
      exact hI j (hj.resolve_right hjbe)

end Rules

end WhatIsHappening
