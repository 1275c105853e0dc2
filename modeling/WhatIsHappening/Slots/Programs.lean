/-
# The programs keep the slot protocol

One specification for each function of the extension that touches a pid or the lock, from the
search for a slot up to the hooks, the callbacks and the end of a process.

Every one of them says where the process stands before and behind the function, as a condition on
its `Standing`, and under which errors that is still known (`At`).  What goes on in between is
covered by the contract: each operation keeps `SlotInv`, and gives to the others what they rely on.
-/
import WhatIsHappening.Slots.Protocol

namespace WhatIsHappening

open Interleaving Prog

variable {D : Type} {R : SlotRules} {srv : Server D} {p : Pid} {m : Bool} {s : State D}

/-! ## 1. Claiming and releasing

The search has looked at every slot before it claims one, so a process that comes to the claim has
none (`searchSlots_wp`); and a process has one slot at most, so the first release is the last
(`releaseFirst_wp`).  What is known of the slots behind the loop variable is stable, since nobody
else writes a pid of ours. -/

/-- What a search for our slot answers. -/
def Found (R : SlotRules) (p : Pid) (r : Option Nat) (s : State D) : Prop :=
  (s.standing p).Tracking ∧ ∀ be, r = some be → Owns R p be s

/-- Interference takes neither our standing nor our slot. -/
theorem stable_found (r : Option Nat) : (slotContract R srv p).Stable (Found R p r) :=
  fun s t h hr hi => ⟨stable_standing Standing.Tracking s t h.1 hr hi,
    fun be hbe => stable_owns be s t (h.2 be hbe) hr hi⟩

/-- Any condition on where `p` stands, as a postcondition. -/
abbrev At (X : Standing → Prop) (p : Pid) (s : State D) : Prop := X (s.standing p)

/-- The entry that is returned is ours. -/
theorem wp_unlock_return {be : Nat} (hs : (s.standing p).Tracking) (hown : Owns R p be s) :
    (slotContract R srv p).wp m (pwhLwlockRelease >>= fun _ => returnEntry be)
      (Found R p) (At Standing.Tracking p) s := by
  refine wp_unlock ((plainly_standing Standing.Tracking).and (plainly_owns be))
    ((stable_standing Standing.Tracking).and (stable_owns be)) ⟨hs, hown⟩ (fun _ _ h => h.1)
    fun t _ h => ?_
  refine wp_own rfl nofun nofun ((stable_standing Standing.Tracking).and (stable_owns be)) h
    (fun _ _ _ h => h.1) ?_
  rintro u e r u' hi ⟨htr, hown⟩ he
  have hst := standing_entryReturned he
  cases he
  rw [hst]
  refine ⟨fun _ => hown.1, .inl, fun hR e he => ?_, ?_⟩
  · cases he
    exact ⟨hown.2 hR, hown.1⟩
  · refine Contract.wp_ret (stable_found _) ⟨by rw [hst]; exact htr, fun be' hbe => ?_⟩
    cases hbe
    exact hown

/-- No entry is returned. -/
theorem wp_unlock_none {X : Standing → Prop} {shouldCreate : Bool} (hs : X (s.standing p)) :
    (slotContract R srv p).wp m (pwhLwlockRelease >>= fun _ =>
        pgWhen shouldCreate (act (.mark .entriesExhausted)) >>= fun _ =>
        (return none : PgProg D (Option Nat)))
      (fun r t => X (t.standing p) ∧ r = none) (At X p) s := by
  refine wp_unlock (plainly_standing X) (stable_standing X) hs (fun _ _ h => h) fun t _ h => ?_
  have hlast : ∀ t : State D, X (t.standing p) → (slotContract R srv p).wp m
      (.ret none : PgProg D (Option Nat)) (fun r t => X (t.standing p) ∧ r = none) (At X p) t :=
    fun t h => Contract.wp_ret_of (stable_standing X) h fun _ _ h => ⟨h, rfl⟩
  cases shouldCreate
  · exact hlast t h
  · exact wp_plain_at X (o := .mark .entriesExhausted) ⟨trivial, rfl⟩ h (fun _ _ _ h => h)
      fun _ _ _ t _ h => hlast t h

/-- The search passes no slot of ours, so that a claim at its end is the only one. -/
theorem searchSlots_wp {shouldCreate : Bool} (hp : p ≠ 0) :
    ∀ k i free (s : State D), i + k = srv.gucs.maxTrackedQueries →
      (free ≠ NO_FREE_SLOT → free < i) → (s.standing p).Tracking → (∀ j, j < i → s.pid j ≠ p) →
      (slotContract R srv p).wp m (searchSlots p shouldCreate k i free) (Found R p)
        (At Standing.Tracking p) s
  | 0, i, free, s, hik, hfree, hs, hmine => by
    simp only [searchSlots, claimFreeSlot]
    split
    -- no slot of ours was passed, nor does interference add one
    · rename_i hclaim
      have hin : free < srv.gucs.maxTrackedQueries := by
        have := hfree hclaim.2
        omega
      refine Contract.wp_of_rely fun t hr hi => ?_
      have hmine' : ∀ j, t.pid j ≠ p := by
        intro j hj
        have hjn := (hi.prepared j (hj ▸ hp)).1
        exact hmine j (by omega) (hr.adds hp j hj)
      refine wp_claim hin (by rw [hr.own]; exact hs) hp hmine' (fun _ _ _ h => h)
        fun u hu hown => ?_
      exact wp_unlock_return hu hown
    · exact Contract.wp_mono (wp_unlock_none hs) (fun r t _ h => ⟨h.1, by simp [h.2]⟩)
        fun _ _ h => h
  | k + 1, i, free, s, hik, hfree, hs, hmine => by
    have hst : (slotContract R srv p).Stable fun s : State D =>
        (s.standing p).Tracking ∧ (p ≠ 0 ∧ ∀ j, j < i → s.pid j ≠ p) :=
      (stable_standing Standing.Tracking).and (stable_not_mine (· < i))
    have hpl : Plainly p fun s : State D =>
        (s.standing p).Tracking ∧ (p ≠ 0 ∧ ∀ j, j < i → s.pid j ≠ p) :=
      (plainly_standing Standing.Tracking).and (plainly_not_mine (· < i))
    -- the `else if` that both branches share
    have hread : ∀ free (s : State D), (free ≠ NO_FREE_SLOT → free < i + 1) →
        (s.standing p).Tracking → (∀ j, j < i → s.pid j ≠ p) →
        (slotContract R srv p).wp m (act (.readBackendPid i) >>= fun pid =>
          if pid = p then (pwhLwlockRelease >>= fun _ => returnEntry i)
          else searchSlots p shouldCreate k (i + 1) free) (Found R p)
          (At Standing.Tracking p) s := by
      intro free s hfree hs hmine
      refine wp_plain_op ⟨trivial, rfl⟩ hpl hst ⟨hs, hp, hmine⟩ (fun _ _ _ h => h.1) ?_
      rintro t e r t' hi ⟨htr, -, hmine⟩ he - -
      cases he
      by_cases hpid : t.pid i = p
      · simp only [hpid, if_true]
        exact wp_unlock_return htr ⟨hp, fun _ => hpid⟩
      · simp only [hpid, if_false]
        refine searchSlots_wp hp k (i + 1) free t (by omega) hfree htr fun j hj => ?_
        rcases Nat.lt_succ_iff_lt_or_eq.mp hj with hj | rfl
        · exact hmine j hj
        · exact hpid
    rw [searchSlots]
    split
    -- no free slot yet: this one may be the first
    · rename_i hno
      subst hno
      refine wp_plain_op ⟨trivial, rfl⟩ hpl hst ⟨hs, hp, hmine⟩ (fun _ _ _ h => h.1) ?_
      rintro t e r t' hi ⟨htr, -, hmine⟩ he - -
      cases he
      by_cases hpid : t.pid i = 0
      · simp only [hpid, if_true]
        refine searchSlots_wp hp k (i + 1) i t (by omega) (by omega) htr fun j hj => ?_
        rcases Nat.lt_succ_iff_lt_or_eq.mp hj with hj | rfl
        · exact hmine j hj
        · rw [hpid]
          exact Ne.symm hp
      · simp only [hpid, if_false]
        exact hread NO_FREE_SLOT t (fun h => absurd rfl h) htr hmine
    · rename_i hno
      exact hread free s (fun h => Nat.lt_succ_of_lt (hfree h)) hs hmine

/-- `pwh_get_or_create_my_backend_entry_impl` of a process that may track. -/
theorem pwhGetOrCreateMyBackendEntryImpl_wp {shouldCreate : Bool} (hp : p ≠ 0)
    (hs : (s.standing p).Tracking) :
    (slotContract R srv p).wp m (pwhGetOrCreateMyBackendEntryImpl srv p shouldCreate)
      (Found R p) (At Standing.Tracking p) s := by
  rw [pwhGetOrCreateMyBackendEntryImpl]
  refine wp_plain_at _ trivial hs (fun _ _ _ h => h) ?_
  intro t e r t' _ htr
  exact searchSlots_wp hp _ _ _ t' (by omega) (fun h => absurd rfl h) htr (by omega)

/-- What holds once a search to release has been made: the table has no slot of ours. -/
abbrev Cleared (X : Standing → Prop) (p : Pid) (s : State D) : Prop :=
  X (s.standing p) ∧ (p ≠ 0 ∧ ∀ j, True → s.pid j ≠ p)

/-- Nobody gives us a slot. -/
theorem stable_cleared (X : Standing → Prop) : (slotContract R srv p).Stable (Cleared X p) :=
  (stable_standing X).and (stable_not_mine fun _ => True)

/-- Nor does an operation of ours that writes no pid. -/
theorem plainly_cleared (X : Standing → Prop) : Plainly (D := D) p (Cleared X p) :=
  (plainly_standing X).and (plainly_not_mine fun _ => True)

/-- The release of the first slot of ours releases the only one. -/
theorem releaseFirst_wp {X : Standing → Prop} {E : State D → Prop} (hX : Unmarked X) (hp : p ≠ 0)
    (hE : m = true → ∀ t, SlotInv R srv t → X (t.standing p) → E t) :
    ∀ k i (s : State D), i + k = srv.gucs.maxTrackedQueries → X (s.standing p) →
      (∀ j, j < i → s.pid j ≠ p) →
      (slotContract R srv p).wp m (releaseFirst p k i) (fun _ => Cleared X p) E s
  | 0, i, s, hik, hs, hmine => by
    refine Contract.wp_ret_of ((stable_standing X).and (stable_not_mine (· < i)))
      ⟨hs, hp, hmine⟩ fun t hi h => ⟨h.1, hp, fun j _ hj => ?_⟩
    have hjn := (hi.prepared j (hj ▸ hp)).1
    exact h.2.2 j (by omega) hj
  | k + 1, i, s, hik, hs, hmine => by
    rw [releaseFirst]
    refine wp_plain_op ⟨trivial, rfl⟩ ((plainly_standing X).and (plainly_not_mine (· < i)))
      ((stable_standing X).and (stable_not_mine (· < i))) ⟨hs, hp, hmine⟩
      (fun hm t hi h => hE hm t hi h.1) ?_
    rintro t e r t' hi ⟨hXt, -, hmine⟩ he - -
    cases he
    by_cases hpid : t.pid i = p
    -- pids are unique, so behind this slot there is nothing of ours
    · simp only [hpid, if_true]
      have hone : ∀ j, j ≠ i → t.pid j ≠ p := fun j hj hjp =>
        hj (hi.unique j i (hjp ▸ hp) (hjp.trans hpid.symm))
      refine wp_release (I := (· ≠ i)) hX hXt ⟨hp, fun _ => hpid⟩ hone hE ?_
      intro u hXu _ hno
      refine wp_plain_op ⟨trivial, rfl⟩ (plainly_cleared X) (stable_cleared X)
        ⟨hXu, hp, fun j _ => hno j ((em (j = i)).symm)⟩ (fun hm t hi h => hE hm t hi h.1) ?_
      intro _ _ _ _ _ _ _ _ hA
      exact Contract.wp_ret (stable_cleared X) hA
    · simp only [hpid, if_false]
      refine releaseFirst_wp hX hp hE k (i + 1) t (by omega) hXt fun j hj => ?_
      rcases Nat.lt_succ_iff_lt_or_eq.mp hj with hj | rfl
      · exact hmine j hj
      · exact hpid

/-- `pwh_release_my_backend_entry` leaves a process where it stood. -/
theorem pwhReleaseMyBackendEntry_wp {X : Standing → Prop} (hX : Unmarked X) (hp : p ≠ 0)
    (hs : X (s.standing p)) :
    (slotContract R srv p).wp m (pwhReleaseMyBackendEntry srv p) (fun _ => At X p) (At X p) s := by
  rw [pwhReleaseMyBackendEntry]
  refine wp_plain_at X trivial hs (fun _ _ _ h => h) ?_
  intro t e r t' _ hXt
  refine Contract.wp_bind (Contract.wp_mono
    (releaseFirst_wp hX hp (fun _ _ _ h => h) _ 0 t' (by omega) hXt (by omega))
    (fun _ u _ hu => ?_) fun _ _ h => h)
  exact wp_unlock_last (plainly_standing X) (stable_standing X) hu.1 fun _ _ h => h

/-! ## 2. The callbacks

`backend_exit_callback` is the one place where a process stops being prepared for SIGUSR2.  It may,
since it holds the lock exclusively while it clears its slot, and no poll is under way then. -/

/-- The process holds the lock exclusively. -/
def HoldsExclusive (p : Pid) (s : State D) : Prop := s.entrySearchLock.exclusive = some p

/-- The holder of the lock keeps it. -/
theorem stable_holdsExclusive : (slotContract R srv p).Stable (HoldsExclusive p) :=
  fun _ _ h hr _ => hr.exclusive.mpr h

/-- An operation that is not one of the lock's own, nor the end of the process. -/
def Op.KeepsLock : Op D → Prop
  | .lwLockAcquire _ | .lwLockRelease | .lwLockReleaseAll | .processExit => False
  | _ => True

/-- Any other operation leaves the lock as it is. -/
theorem lock_of_keepsLock {o : Op D} {e : Env D} {s t : State D} {r : Res o} (ho : o.KeepsLock)
    (h : exec srv p o e s = some (r, t)) : t.entrySearchLock = s.entrySearchLock := by
  rcases exec_lock h with h | ⟨m, rfl⟩ | rfl | rfl | rfl
  · exact h
  all_goals exact ho.elim

/-- The search for our slot does not touch the lock. -/
theorem releaseFirst_keepsLock :
    ∀ k i, (releaseFirst p k i : PgProg D Unit).All Op.KeepsLock
  | 0, _ => trivial
  | k + 1, i => by
    rw [releaseFirst, act_bind]
    refine ⟨trivial, fun pid => ?_⟩
    by_cases hpid : pid = p
    · simp only [hpid, if_true]
      exact ⟨trivial, fun _ => ⟨trivial, fun _ => trivial⟩⟩
    · simp only [hpid, if_false]
      exact releaseFirst_keepsLock k (i + 1)

/-- The search of `backend_exit_callback`, with the lock that it holds meanwhile. -/
theorem releaseFirst_wp_exclusive {X : Standing → Prop} {E : State D → Prop} (hX : Unmarked X)
    (hp : p ≠ 0) (hs : X (s.standing p)) (hex : HoldsExclusive p s) :
    (slotContract R srv p).wp false (releaseFirst p srv.gucs.maxTrackedQueries 0)
      (fun _ t => Cleared X p t ∧ HoldsExclusive p t) E s := by
  have hrel : (slotContract R srv p).wp false (releaseFirst p srv.gucs.maxTrackedQueries 0)
      (fun _ => Cleared X p) (fun _ => False) s :=
    releaseFirst_wp hX hp nofun _ 0 s (by omega) hs (by omega)
  refine Contract.wp_mono (Contract.wp_frame (releaseFirst_keepsLock _ _) stable_holdsExclusive
    (fun o t r t' ho _ hb hsem => ?_) hrel hex) (fun _ _ _ h => h) (fun _ _ h => h.1.elim)
  obtain ⟨e, he⟩ := hsem
  rw [HoldsExclusive, lock_of_keepsLock ho he]
  exact hb

/-- Nobody reads the pids while the exit callback clears its slot, so that from then on the
process may stop being prepared. -/
theorem backendExitCallback_wp {E : State D → Prop} (hp : p ≠ 0)
    (ha : (s.standing p).isAlive = true) :
    (slotContract R srv p).wp false (backendExitCallback srv p) (fun _ => At Standing.Unlinked p) E
      s := by
  have hX : Unmarked fun b => b.isAlive = true := fun _ _ _ h => h
  rw [backendExitCallback]
  refine wp_plain_at (·.isAlive = true) trivial ha (by simp) ?_
  intro t e r t' he hXt
  have hex : HoldsExclusive p t' := by
    obtain ⟨l, hl, ht⟩ := Option.map_eq_some_iff.mp he
    cases ht
    simp only [LWLock.acquire, Option.ite_none_right_eq_some, Option.some.injEq] at hl
    obtain ⟨-, rfl⟩ := hl
    rfl
  refine Contract.wp_bind (Contract.wp_mono (releaseFirst_wp_exclusive hX hp hXt hex)
    (fun _ u _ hu => ?_) fun _ _ h => h)
  refine wp_own rfl (by simp) (by simp) ((stable_cleared _).and stable_holdsExclusive) hu
    (by simp) ?_
  rintro v e r v' hi ⟨⟨hav, -, hno⟩, hexv⟩ he
  have hst := standing_exitScan he
  cases he
  rw [hst]
  refine ⟨fun _ => hp, fun _ => .inr ⟨fun i => hno i trivial, hi.lock ?_⟩,
    fun hR => hi.held hR p, ?_⟩
  · rw [show v.entrySearchLock.exclusive = some p from hexv]
    simp
  -- unlinked from here on: the flag may be cleared before or behind the lock
  · let X' : Standing → Prop := fun b => b.isAlive = true ∧ b.isUnlinked = true
    have hA : X' ((v.record p .exitScan).standing p) ∧ HoldsExclusive p (v.record p .exitScan) := by
      rw [hst]
      exact ⟨⟨hav, rfl⟩, hexv⟩
    rw [pwhLwlockRelease_bind]
    refine wp_own rfl (by simp) (by simp) ((stable_standing X').and stable_holdsExclusive) hA
      (by simp) ?_
    rintro w e r w' hiw ⟨hXw, hexw⟩ he
    have hstw := standing_of_isPlain (o := .lwLockRelease) trivial he
    refine ⟨fun _ => hp, fun h => absurd h.2.2 (by simp [hXw.2]),
      by rw [hstw]; exact fun hR => hiw.held hR p, ?_⟩
    simp only [exec, LWLock.release, show w.entrySearchLock.exclusive = some p from hexw,
      if_true, Option.some.injEq, Prod.mk.injEq] at he
    obtain ⟨rfl, -⟩ := he
    refine wp_standing (X := X') (Y := Standing.Unlinked)
      (f := fun b => { b with wasInitialized := false }) rfl (by simp) (by simp)
      (fun _ _ _ _ => standing_setWasBackendInitialized) hp (fun b hb h => absurd h.2.2 ?_)
      (fun _ => rfl) (fun b hb => ⟨hb.1, rfl, hb.2⟩) (by rwa [hstw]) (by simp) fun _ x hx =>
        Contract.wp_ret (stable_standing Standing.Unlinked) hx
    simp [hb.2]

/-- Once it is through, the process is tracking. -/
theorem initializeStateOncePerBackend_wp {E : State D → Prop} (hp : p ≠ 0)
    (ha : (s.standing p).isAlive = true) :
    (slotContract R srv p).wp false initializeStateOncePerBackend
      (fun _ => At Standing.Tracking p) E s := by
  -- first the exit callback, then the handler, then the flag: a process that is prepared has all
  unfold initializeStateOncePerBackend
  refine wp_plain_at (·.isAlive = true) ⟨trivial, rfl⟩ ha nofun fun _ _ _ t _ ha => ?_
  refine wp_standing (X := (·.isAlive = true))
    (Y := fun b => b.isAlive = true ∧ 0 < b.exitCallbacks)
    (f := fun b => { b with exitCallbacks := b.exitCallbacks + 1 }) rfl nofun nofun
    (fun _ _ _ _ => standing_beforeShmemExit) hp (fun _ _ h => h) (fun _ => rfl)
    (fun b hb => ⟨hb, Nat.succ_pos _⟩) ha nofun fun _ t h => ?_
  refine wp_standing (X := fun b => b.isAlive = true ∧ 0 < b.exitCallbacks)
    (Y := fun b => b.isAlive = true ∧ 0 < b.exitCallbacks ∧ b.isInstalled = true)
    (f := fun b => { b with isInstalled := true }) rfl nofun nofun
    (fun _ _ _ _ => standing_pwhInstallSignalHandler) hp (fun _ _ h => ⟨h.1, rfl, h.2.2⟩)
    (fun _ => rfl) (fun b hb => ⟨hb.1, hb.2, rfl⟩) h nofun fun _ t h => ?_
  exact wp_standing
    (X := fun b => b.isAlive = true ∧ 0 < b.exitCallbacks ∧ b.isInstalled = true)
    (Y := Standing.Tracking)
    (f := fun b => { b with wasInitialized := true, isUnlinked := false }) rfl nofun nofun
    (fun _ _ _ _ => standing_setWasBackendInitialized) hp (fun _ _ h => ⟨h.1, h.2.1, rfl⟩)
    (fun _ => rfl) (fun b hb => ⟨⟨hb.1, hb.2.2, rfl⟩, rfl, hb.2.1⟩) h nofun
    fun _ t h => Contract.wp_ret (stable_standing _) h

/-- `query_cleanup_callback` leaves a process where it stood. -/
theorem queryCleanupCallback_wp {X : Standing → Prop} (hX : Unmarked X) (hp : p ≠ 0)
    (event : XactEvent) (hs : X (s.standing p)) :
    (slotContract R srv p).wp m (queryCleanupCallback srv p event) (fun _ => At X p) (At X p)
      s := by
  unfold queryCleanupCallback
  split
  · exact Contract.wp_ret (stable_standing X) hs
  · refine wp_plain_at X ⟨trivial, rfl⟩ hs (fun _ _ _ h => h) fun _ _ _ t _ hs => ?_
    refine wp_plain_at X ⟨trivial, rfl⟩ hs (fun _ _ _ h => h) fun _ _ enabled t _ hs => ?_
    cases enabled
    · exact Contract.wp_ret (stable_standing X) hs
    · exact pwhReleaseMyBackendEntry_wp hX hp hs

/-- However often the callback is registered. -/
theorem callXactCallbacks_wp {X : Standing → Prop} (hX : Unmarked X) (hp : p ≠ 0)
    (event : XactEvent) :
    ∀ n (s : State D), X (s.standing p) →
      (slotContract R srv p).wp m (callXactCallbacks srv p event n) (fun _ => At X p) (At X p) s
  | 0, _, hs => Contract.wp_ret (stable_standing X) hs
  | n + 1, _, hs => Contract.wp_bind (Contract.wp_mono (queryCleanupCallback_wp hX hp event hs)
      (fun _ t _ ht => callXactCallbacks_wp hX hp event n t ht) fun _ _ h => h)

/-- An abort leaves a process where it stood. -/
theorem abortTransaction_wp {X : Standing → Prop} (hX : Unmarked X) (hp : p ≠ 0)
    (event : XactEvent) (hs : X (s.standing p)) :
    (slotContract R srv p).wp m (abortTransaction srv p event) (fun _ => At X p) (At X p) s := by
  unfold abortTransaction
  refine wp_plain_at X trivial hs (fun _ _ _ h => h) fun _ _ _ t _ hs => ?_
  refine wp_plain_at X ⟨trivial, rfl⟩ hs (fun _ _ _ h => h) fun _ _ n t _ hs => ?_
  refine Contract.wp_bind (Contract.wp_mono (callXactCallbacks_wp hX hp event n t hs)
    (fun _ t _ ht => ?_) fun _ _ h => h)
  have hdiscard : (act .discardAll : PgProg D Unit).All Op.IsPlain :=
    ⟨⟨trivial, rfl⟩, fun _ => trivial⟩
  exact wp_plain hdiscard ht

/-- So does a commit, whose callback does nothing. -/
theorem commitTransaction_wp {X : Standing → Prop} (hX : Unmarked X) (hp : p ≠ 0)
    (hs : X (s.standing p)) :
    (slotContract R srv p).wp m (commitTransaction srv p) (fun _ => At X p) (At X p) s := by
  rw [commitTransaction]
  exact wp_plain_at X ⟨trivial, rfl⟩ hs (fun _ _ _ h => h) fun _ _ n t _ hs =>
    callXactCallbacks_wp hX hp _ n t hs

/-! ## 3. The hooks

Both hooks enter their try blocks `Tracking`, with the callback registered and the handler
installed, and leave them `Idle` by either way. -/

section Hooks

variable [CDouble D]

/-- The try block of the start hook writes the slot it got, if it got one. -/
theorem queryStartTry_wp (hp : p ≠ 0) (q : QueryDescPtr) (hs : (s.standing p).Tracking) :
    (slotContract R srv p).wp m (queryStartTry srv p q) (fun _ => At Standing.Tracking p)
      (At Standing.Tracking p) s := by
  refine Contract.wp_bind (Contract.wp_mono (pwhGetOrCreateMyBackendEntryImpl_wp hp hs)
    (fun entry t _ ht => ?_) fun _ _ h => h)
  cases entry with
  | none => exact Contract.wp_ret (stable_standing _) ht.1
  | some be =>
    have hown : Owns R p be t := ht.2 be rfl
    refine Contract.wp_mono (Contract.wp_silent
      ((trackQuery_all be q).mono fun o ho => (silent_quietAt ho.quietAt).mono fun _ h => h.2)
      ((stable_standing Standing.Tracking).and (stable_owns be)) ⟨ht.1, hown⟩)
      (fun _ _ _ h => h.1) fun _ _ h => h.1

omit [CDouble D] in
/-- Its catch block calls the exit callback, and so ends the tracking of this process. -/
theorem queryStartCatch_wp {E : State D → Prop} (hp : p ≠ 0) (hs : (s.standing p).Tracking) :
    (slotContract R srv p).wp false (queryStartCatch srv p) (fun _ => At Standing.Idle p) E s := by
  refine wp_plain_at _ ⟨trivial, rfl⟩ hs nofun fun _ _ _ t _ hs => ?_
  exact Contract.wp_mono (backendExitCallback_wp hp hs.1.1) (fun _ _ _ h => h.idle) fun _ _ h => h

omit [CDouble D] in
/-- The rule for a try block, when both the body and the handler start from tracking. -/
theorem wp_tryBlock {body handler : PgProg D Unit}
    (hb : (slotContract R srv p).wp true body (fun _ => At Standing.Tracking p)
      (At Standing.Tracking p) s)
    (hh : ∀ t, (t.standing p).Tracking → (slotContract R srv p).wp false handler
      (fun _ => At Standing.Idle p) (At Standing.Idle p) t) :
    (slotContract R srv p).wp false (pgTryCatch body handler) (fun _ => At Standing.Idle p)
      (At Standing.Idle p) s :=
  wp_pgTryCatch (fun _ _ _ h => raisesHere_false h) (stable_standing Standing.Tracking)
    (silent_quiet trivial rfl) (fun _ _ _ h => by cases h)
    (Contract.wp_mono hb (fun _ _ _ h => h.idle) fun _ _ h => h) fun t _ ht => hh t ht

/-- `query_start_hook`. -/
theorem queryStartHook_wp (hp : p ≠ 0) (q : QueryDescPtr)
    (hs : (s.standing p).isAlive = true ∧ (s.standing p).Idle) :
    (slotContract R srv p).wp false (queryStartHook srv p q) (fun _ => At Standing.Idle p)
      (At Standing.Idle p) s := by
  unfold queryStartHook
  let X : Standing → Prop := fun b => b.isAlive = true ∧ b.Idle
  have hdone : ∀ t : State D, (t.standing p).isAlive = true ∧ (t.standing p).Idle →
      (slotContract R srv p).wp false (.ret ()) (fun _ => At Standing.Idle p)
        (At Standing.Idle p) t := fun t ht => Contract.wp_ret (stable_standing _) ht.2
  refine wp_plain_at X ⟨trivial, rfl⟩ hs nofun fun _ _ _ t _ hs => ?_
  refine wp_plain_at X ⟨trivial, rfl⟩ hs nofun fun _ _ enabled t _ hs => ?_
  cases enabled
  · exact hdone t hs
  refine wp_plain_at X ⟨trivial, rfl⟩ hs nofun fun _ _ minCost t _ hs => ?_
  split
  · exact hdone t hs
  refine wp_plain_at X ⟨trivial, rfl⟩ hs nofun fun u _ initialized t he hs => ?_
  have hinit : initialized = (t.standing p).wasInitialized := by
    cases he
    rfl
  have htry : ∀ t : State D, (t.standing p).Tracking → (slotContract R srv p).wp false
      (pgTryCatch (queryStartTry srv p q) (queryStartCatch srv p))
      (fun _ => At Standing.Idle p) (At Standing.Idle p) t := fun t ht =>
    wp_tryBlock (queryStartTry_wp hp q ht) fun u hu => queryStartCatch_wp hp hu
  -- the flag of the process says whether it is tracking already
  cases initialized
  · exact Contract.wp_bind (Contract.wp_mono (initializeStateOncePerBackend_wp hp hs.1)
      (fun _ u _ hu => htry u hu) fun _ _ h => h)
  · exact htry t (hs.2.tracking hs.1 hinit.symm)

/-- The entry that the end hook found is captured and released. -/
theorem finishQuery_wp {be : Nat} (q : QueryDescPtr) (hs : (s.standing p).Tracking)
    (hown : Owns R p be s) :
    (slotContract R srv p).wp m (finishQuery srv be q) (fun _ => At Standing.Tracking p)
      (At Standing.Tracking p) s := by
  have hpl : Plainly p fun s : State D => (s.standing p).Tracking ∧ Owns R p be s :=
    (plainly_standing Standing.Tracking).and (plainly_owns be)
  have hst : (slotContract R srv p).Stable fun s : State D =>
      (s.standing p).Tracking ∧ Owns R p be s :=
    (stable_standing Standing.Tracking).and (stable_owns be)
  have hleave : ∀ t : State D, (t.standing p).Tracking → (slotContract R srv p).wp m
      (pwhLwlockRelease >>= fun _ => pwhSetCurrentQueryDesc none)
      (fun _ => At Standing.Tracking p) (At Standing.Tracking p) t := fun t ht =>
    wp_unlock (plainly_standing _) (stable_standing _) ht (fun _ _ h => h) fun u _ hu =>
      wp_plain ⟨⟨trivial, rfl⟩, fun _ => trivial⟩ hu
  unfold finishQuery
  refine wp_plain_op trivial hpl hst ⟨hs, hown⟩ (fun _ _ _ h => h.1) fun _ _ _ t _ _ _ _ h => ?_
  refine wp_plain_op ⟨trivial, rfl⟩ hpl hst h (fun _ _ _ h => h.1) fun _ _ pid t _ _ _ _ h => ?_
  -- a slot that was lost meanwhile is neither captured nor released
  by_cases hactive : pid = 0
  · simp only [hactive, pgWhen, ret_bind, ne_eq, not_true_eq_false, decide_false,
      Bool.false_eq_true, if_false]
    exact hleave t h.1
  · simp only [pgWhen, ne_eq, hactive, not_false_eq_true, decide_true, if_true]
    refine Contract.wp_bind (Contract.wp_bind (Contract.wp_mono (Contract.wp_silent
      ((pwhCollectPlanstateMetrics_all _ be _).mono
        fun o ho => (silent_quietAt ho.ofTrack.quietAt).mono fun _ h => h.2) hst h)
      (fun _ u _ hu => ?_) fun _ _ h => h.1))
    refine wp_release (I := fun _ => False) unmarked_tracking hu.1 hu.2 nofun
      (fun _ _ _ h => h) fun v hv _ _ => ?_
    exact Contract.wp_mono (wp_plain (X := Standing.Tracking)
      ⟨⟨trivial, rfl⟩, fun _ => trivial⟩ hv) (fun _ w _ hw => hleave w hw) fun _ _ h => h

/-- The try block of the end hook. -/
theorem queryEndTry_wp (hp : p ≠ 0) (q : QueryDescPtr) (hs : (s.standing p).Tracking) :
    (slotContract R srv p).wp m (queryEndTry srv p q) (fun _ => At Standing.Tracking p)
      (At Standing.Tracking p) s := by
  refine Contract.wp_bind (Contract.wp_mono (pwhGetOrCreateMyBackendEntryImpl_wp hp hs)
    (fun entry t _ ht => ?_) fun _ _ h => h)
  cases entry with
  | none => exact Contract.wp_ret (stable_standing _) ht.1
  | some be => exact finishQuery_wp q ht.1 (ht.2 be rfl)

omit [CDouble D] in
/-- Its catch block forgets the query and releases the lock, or raises an error again. -/
theorem queryEndCatch_wp (q : QueryDescPtr) (hs : (s.standing p).Tracking) :
    (slotContract R srv p).wp false (queryEndCatch q) (fun _ => At Standing.Idle p)
      (At Standing.Idle p) s := by
  refine wp_plain_at _ (o := .mark (.endHookFailed q)) ⟨trivial, rfl⟩ hs nofun
    fun _ _ _ t _ hs => ?_
  refine wp_plain_at _ ⟨trivial, rfl⟩ hs nofun fun _ _ _ t _ hs => ?_
  exact Contract.wp_mono (wp_unlock_last (E := At Standing.Tracking p) (plainly_standing _)
    (stable_standing Standing.Tracking) hs fun _ _ h => h) (fun _ _ _ h => h.idle)
    fun _ _ h => h.idle

/-- `query_end_hook`, for a process that was initialised or was not. -/
theorem queryEndHook_wp (hp : p ≠ 0) (q : QueryDescPtr)
    (hs : (s.standing p).isAlive = true ∧ (s.standing p).Idle) :
    (slotContract R srv p).wp false (queryEndHook srv p q) (fun _ => At Standing.Idle p)
      (At Standing.Idle p) s := by
  let X : Standing → Prop := fun b => b.isAlive = true ∧ b.Idle
  have hlast : ∀ t : State D, (t.standing p).Idle → (slotContract R srv p).wp false
      (act (.standardExecutorEnd q)) (fun _ => At Standing.Idle p) (At Standing.Idle p) t :=
    fun t ht => wp_plain ⟨⟨trivial, rfl⟩, fun _ => trivial⟩ ht
  unfold queryEndHook
  refine wp_plain_at X ⟨trivial, rfl⟩ hs nofun fun _ _ enabled t _ hs => ?_
  refine wp_plain_at X ⟨trivial, rfl⟩ hs nofun fun u _ initialized t he hs => ?_
  have hinit : initialized = (t.standing p).wasInitialized := by
    cases he
    rfl
  by_cases hc : (enabled && initialized) = true
  · have htr : (t.standing p).Tracking :=
      hs.2.tracking hs.1 (hinit.symm.trans (Bool.and_eq_true_iff.mp hc).2)
    simp only [hc, pgWhen, if_true]
    exact Contract.wp_bind (Contract.wp_mono (wp_tryBlock (queryEndTry_wp hp q htr)
      fun u hu => queryEndCatch_wp q hu) (fun _ u _ hu => hlast u hu) fun _ _ h => h)
  · simp only [hc, pgWhen]
    exact hlast t hs.2

end Hooks

/-! ## 4. The end of a process

The exit callbacks come first and the abort of the transaction behind them, when no slot is left to
release; only then is the process gone. -/

/-- A process on its way out: no slot of its own, and none to come. -/
def Standing.Leaving (b : Standing) : Prop :=
  b.isAlive = true ∧ b.Idle ∧ (b.isInstalled = true → b.isUnlinked = true)

/-- The exit callback leaves a process that may go. -/
theorem Standing.Unlinked.leaving {b : Standing} (h : b.Unlinked) : b.Leaving :=
  ⟨h.1, h.idle, fun _ => h.2.2⟩

/-- Such a process is not signalled any more. -/
theorem Standing.Leaving.not_prepared {b : Standing} (h : b.Leaving) : ¬ b.Prepared := by
  intro hp
  have hu := h.2.2 hp.2.1
  rw [hp.2.2] at hu
  cases hu

/-- Every registration calls the callback once more, which finds nothing then. -/
theorem callExitCallbacks_wp {E : State D → Prop} (hp : p ≠ 0) :
    ∀ n (s : State D), (s.standing p).Leaving →
      (slotContract R srv p).wp false (callExitCallbacks srv p n)
        (fun _ => At Standing.Leaving p) E s
  | 0, _, hs => Contract.wp_ret (stable_standing _) hs
  | n + 1, _, hs => Contract.wp_bind (Contract.wp_mono (backendExitCallback_wp hp hs.1)
      (fun _ t _ ht => callExitCallbacks_wp hp n t ht.leaving) fun _ _ h => h)

/-- `proc_exit`: the process is gone when its slot is. -/
theorem procExit_wp (hp : p ≠ 0) (hs : (s.standing p).isAlive = true ∧ (s.standing p).Idle) :
    (slotContract R srv p).wp false (procExit srv p) (fun _ => At Standing.Idle p)
      (At Standing.Idle p) s := by
  let X : Standing → Prop := fun b => b.isAlive = true ∧ b.Idle
  unfold procExit
  refine wp_plain_at X ⟨trivial, rfl⟩ hs nofun fun u _ n t he hs => ?_
  have hn : n = (t.standing p).exitCallbacks := by
    cases he
    rfl
  have hcalls : (slotContract R srv p).wp false (callExitCallbacks srv p n)
      (fun _ => At Standing.Leaving p) (At Standing.Idle p) t := by
    cases n with
    -- a process that never tracked anything has no handler installed either
    | zero =>
      refine Contract.wp_ret (stable_standing _) ⟨hs.1, hs.2, fun hi => ?_⟩
      exact (hs.2.2 hi).resolve_right (by rw [← hn]; exact Nat.lt_irrefl 0)
    | succ n =>
      exact Contract.wp_bind (Contract.wp_mono (backendExitCallback_wp hp hs.1)
        (fun _ t _ ht => callExitCallbacks_wp hp n t ht.leaving) fun _ _ h => h)
  refine Contract.wp_bind (Contract.wp_mono hcalls (fun _ t _ ht => ?_) fun _ _ h => h)
  refine wp_standing (X := Standing.Leaving) (Y := Standing.Leaving)
    (f := fun b => { b with exitCallbacks := 0 }) rfl nofun nofun
    (fun _ _ _ _ => standing_popExitCallbacks) hp (fun _ _ h => h) (fun _ => rfl)
    (fun b hb => ⟨hb.1, ⟨hb.2.1.1, fun hi => .inl (hb.2.2 hi)⟩, hb.2.2⟩) ht nofun
    fun _ t ht => ?_
  refine Contract.wp_bind (Contract.wp_mono (abortTransaction_wp (X := Standing.Leaving)
    (fun _ _ _ h => h) hp .XACT_EVENT_ABORT ht) (fun _ t _ ht => ?_) fun _ _ h => h.2.1)
  exact wp_standing (X := Standing.Leaving) (Y := Standing.Idle) (k := fun _ => .ret ())
    (f := fun b => { b with isAlive := false }) rfl nofun nofun
    (fun _ _ _ _ => standing_processExit) hp (fun _ hb h => absurd h hb.not_prepared)
    (fun _ => rfl) (fun b hb => hb.2.1) ht nofun
    fun _ t ht => Contract.wp_ret (stable_standing _) ht

/-- A new process, which nobody knows yet. -/
theorem fork_wp {enabled : Bool} {minCost : D} (hp : p ≠ 0)
    (hs : (s.standing p).isAlive = false) :
    (slotContract R srv p).wp false (act (.fork enabled minCost)) (fun _ => At Standing.Idle p)
      (At Standing.Idle p) s := by
  refine wp_own (A := fun s => (s.standing p).isAlive = false) (k := fun _ => .ret ()) rfl nofun
    nofun (stable_standing (·.isAlive = false)) hs nofun fun t e r t' hi hAt he => ?_
  have hst := standing_fork he
  rw [hst]
  refine ⟨fun _ => hp, fun h => ?_, nofun, Contract.wp_ret (stable_standing _) ?_⟩
  · rw [h.1] at hAt
    cases hAt
  · rw [At, hst]
    exact ⟨nofun, nofun⟩

end WhatIsHappening
