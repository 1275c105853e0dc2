/-
# Every run keeps the slot protocol

The readers, which hold the lock shared while they look at the table, the handler of SIGUSR2, which
runs between two operations of its process, and the rule `slots_sound` for every run of the cluster.
-/
import WhatIsHappening.Slots.Programs

namespace WhatIsHappening

open Interleaving Prog

variable {D : Type} {R : SlotRules} {srv : Server D} {p : Pid} {m : Bool} {s : State D}

/-! ## 1. The readers

The shared lock keeps out the exit callback, so whoever stands in the table while it is held stays
prepared.  It does not keep out the abort callback, which releases under the shared lock too: a slot
may be emptied between the two reads of a poll, unless the run keeps the rule `pollsKeep`. -/

section Readers

/-- The lock is held shared. -/
def HoldsShared (p : Pid) (s : State D) : Prop := p ∈ s.entrySearchLock.shared

/-- The lock is ours as often as we took it. -/
theorem stable_holdsShared : (slotContract R srv p).Stable (HoldsShared p) := by
  intro s t h hr _
  rw [HoldsShared, ← List.count_pos_iff, hr.shared, List.count_pos_iff]
  exact h

/-- Where a reader stands between its reads of the table. -/
def Reading (p : Pid) (s : State D) : Prop :=
  ((s.standing p).isAlive = true ∧ (s.standing p).Idle) ∧ HoldsShared p s

/-- Nobody ends the reading of another process. -/
theorem stable_reading : (slotContract R srv p).Stable (Reading p) :=
  (stable_standing fun b => b.isAlive = true ∧ b.Idle).and stable_holdsShared

/-- A reader is not in a hook. -/
theorem Reading.idle (h : Reading p s) : (s.standing p).Idle := h.1.2

/-- An operation of a reader that does not touch the lock. -/
theorem wp_reading {α : Type} {o : Op D} {k : Res o → PgProg D α} {Q : α → State D → Prop}
    {E : State D → Prop} (ho : o.IsPlain) (hl : o.KeepsLock) (hs : Reading p s)
    (hE : m = true → ∀ t, SlotInv R srv t → Reading p t → E t)
    (hk : ∀ t e r t', SlotInv R srv t → exec srv p o e t = some (r, t') → SlotInv R srv t' →
      Reading p t' → (slotContract R srv p).wp m (k r) Q E t') :
    (slotContract R srv p).wp m (act o >>= k) Q E s := by
  refine Contract.wp_op stable_reading hs hE fun t r t' hi hr _ ⟨e, he⟩ => ?_
  obtain ⟨hi', hg, hst⟩ := plain_step hi ho he
  refine ⟨hi', hg, hk t e r t' hi he hi' ⟨by rw [hst]; exact hr.1, ?_⟩⟩
  rw [HoldsShared, lock_of_keepsLock hl he]
  exact hr.2

/-- `pwh_get_backend_entry` takes the lock once more and gives that up again. -/
theorem pwhGetBackendEntry_wp (index : Nat) (hs : Reading p s) :
    (slotContract R srv p).wp false (pwhGetBackendEntry srv index) (fun _ => Reading p)
      (At Standing.Idle p) s := by
  unfold pwhGetBackendEntry
  split
  · exact Contract.wp_ret stable_reading hs
  -- the lock is held twice now
  let Twice : State D → Prop := fun t =>
    ((t.standing p).isAlive = true ∧ (t.standing p).Idle) ∧ 2 ≤ t.entrySearchLock.shared.count p
  have hTwice : (slotContract R srv p).Stable Twice := fun t u h hr hi =>
    ⟨stable_standing (fun b => b.isAlive = true ∧ b.Idle) t u h.1 hr hi, by
      rw [hr.shared]
      exact h.2⟩
  refine Contract.wp_op (A := Reading p) stable_reading hs (by simp) fun t r t' hi hr _ hex => ?_
  obtain ⟨e, he⟩ := hex
  obtain ⟨hi', hg, hst⟩ := plain_step (R := R) hi (o := .lwLockAcquire .LW_SHARED) trivial he
  refine ⟨hi', hg, ?_⟩
  have ht' : Twice t' := by
    refine ⟨by rw [hst]; exact hr.1, ?_⟩
    obtain ⟨l, hl, heq⟩ := Option.map_eq_some_iff.mp he
    cases heq
    simp only [LWLock.acquire, Option.ite_none_right_eq_some, Option.some.injEq] at hl
    obtain ⟨-, rfl⟩ := hl
    have hpos : 0 < t.entrySearchLock.shared.count p := List.count_pos_iff.mpr hr.2
    simp only [State.lock_modifyBackend, List.count_cons_self]
    omega
  change (slotContract R srv p).wp false (pwhLwlockRelease >>= fun _ => .ret (some index)) _ _ t'
  rw [pwhLwlockRelease_bind]
  refine Contract.wp_op hTwice ht' (by simp) fun u r u' hi hu _ hex => ?_
  obtain ⟨e, he⟩ := hex
  obtain ⟨hi', hg, hst⟩ := plain_step (R := R) hi (o := .lwLockRelease) trivial he
  have hmem : p ∈ u.entrySearchLock.shared := List.count_pos_iff.mp (by have := hu.2; omega)
  have hnone : u.entrySearchLock.exclusive = none := by
    by_contra hne
    rw [hi.lock hne] at hmem
    cases hmem
  simp only [exec, LWLock.release, hnone, hmem, reduceCtorEq, if_false, if_true,
    Option.some.injEq, Prod.mk.injEq] at he
  obtain ⟨rfl, rfl⟩ := he
  refine ⟨hi', hg, Contract.wp_ret stable_reading ⟨by rw [hst]; exact hu.1, ?_⟩⟩
  rw [HoldsShared, ← List.count_pos_iff]
  have := hu.2
  simp only [State.lock_modifyBackend, List.count_erase_self]
  omega

/-- A pid read from the table while the lock is held: nobody, or a process that stays prepared. -/
def Signalable (p v : Pid) (s : State D) : Prop :=
  Reading p s ∧ (v ≠ 0 → (s.standing v).Prepared)

theorem stable_signalable (v : Pid) : (slotContract R srv p).Stable (Signalable p v) :=
  fun s t h hr hi => ⟨stable_reading s t h.1 hr hi, fun hv => hr.prepared h.1.2 v (h.2 hv)⟩

/-- No slot is orphaned: the process whose pid is read exists. -/
theorem cleanupOrphanedSlots_wp :
    ∀ k i n (s : State D), Reading p s →
      (slotContract R srv p).wp false (cleanupOrphanedSlots srv k i n) (fun _ => Reading p)
        (At Standing.Idle p) s
  | 0, _, _, _, hs => Contract.wp_ret stable_reading hs
  | k + 1, i, n, s, hs => by
    unfold cleanupOrphanedSlots
    refine Contract.wp_bind (Contract.wp_mono (pwhGetBackendEntry_wp i hs) (fun _ t _ ht => ?_)
      fun _ _ h => h)
    rw [pwhIsBackendEntryActive_bind]
    refine wp_reading (o := .readBackendPid i) ⟨trivial, rfl⟩ trivial ht (by simp)
      fun _ _ pid t _ _ _ ht => ?_
    by_cases hactive : pid = 0
    · simp only [hactive, ne_eq, not_true_eq_false, decide_false, Bool.false_eq_true, if_false]
      exact cleanupOrphanedSlots_wp k (i + 1) n t ht
    simp only [ne_eq, hactive, not_false_eq_true, decide_true, if_true]
    refine wp_reading ⟨trivial, rfl⟩ trivial ht (by simp) fun u e v t hi he _ ht => ?_
    have hv : Signalable p v t := by
      cases he
      exact ⟨ht, fun h => (hi.prepared i h).2⟩
    refine wp_quiet trivial rfl (stable_signalable v) hv (by simp) fun u e ok t hi hu he _ ht => ?_
    have hok : ok = true := by
      cases he
      by_cases hv0 : v = 0
      · simp [State.killSucceeds, hv0]
      · have halive : (u.backends v).isAlive = true := (hu.2 hv0).1
        simp [State.killSucceeds, halive]
    rw [hok]
    exact cleanupOrphanedSlots_wp k (i + 1) n t ht.1

/-- The condition for a signal: with slots kept during a poll, the pid is that of a prepared
process. -/
theorem wp_kill {α : Type} {v : Pid} {k : Bool → PgProg D α} {Q : α → State D → Prop}
    {E : State D → Prop} (hs : Signalable p v s) (hv : R.pollsKeep = true → v ≠ 0)
    (hE : m = true → ∀ t, SlotInv R srv t → Signalable p v t → E t)
    (hk : ∀ r t, Reading p t → (slotContract R srv p).wp m (k r) Q E t) :
    (slotContract R srv p).wp m (act (.kill v .SIGUSR2) >>= k) Q E s := by
  refine Contract.wp_op (stable_signalable v) hs hE ?_
  rintro t r t' hi ht _ ⟨e, he⟩
  cases he
  refine ⟨hi, ⟨fun q _ => .refl R q t, ?_, ?_, ?_⟩, hk _ t ht.1⟩
  · rintro - i (h | ⟨v', h⟩) <;> cases h
  · rintro - i (h | ⟨v', h⟩) <;> cases h
  · rintro hR v' h
    cases h
    exact ⟨hv hR, ht.2 (hv hR)⟩

/-- Between the two reads of a poll the slot that was found active stays so, when polls keep
slots. -/
def Polling (R : SlotRules) (p : Pid) (i : Nat) (s : State D) : Prop :=
  Reading p s ∧ (R.pollsKeep = true → (s.standing p).polling = some i ∧ s.pid i ≠ 0)

/-- Nobody releases a slot while it is polled, when polls keep slots. -/
theorem stable_polling (i : Nat) : (slotContract R srv p).Stable (Polling R p i) :=
  fun s t h hr hi => ⟨stable_reading s t h.1 hr hi, fun hR => by
    obtain ⟨hpoll, hne⟩ := h.2 hR
    exact ⟨by rw [hr.own]; exact hpoll, hr.polled hR i hpoll hne⟩⟩

/-- A read of a poll, which records whether the slot was found active. -/
theorem wp_poll {α : Type} {i : Nat} {again : Bool} {k : Pid → PgProg D α} {A : State D → Prop}
    {Q : α → State D → Prop} {E : State D → Prop}
    (hst : (slotContract R srv p).Stable A) (hA : A s) (hr : ∀ t, A t → Reading p t)
    (hE : m = true → ∀ t, SlotInv R srv t → A t → E t)
    (hk : ∀ t t', SlotInv R srv t → A t → Reading p t' → (∀ j, t'.pid j = t.pid j) →
      t'.standing p = { t.standing p with
        polling := if again = true ∨ t.pid i = 0 then none else some i } →
      (∀ v, (t.standing v).Prepared → (t'.standing v).Prepared) →
      (slotContract R srv p).wp m (k (t.pid i)) Q E t') :
    (slotContract R srv p).wp m (act (.pollBackendPid i again) >>= k) Q E s := by
  refine wp_own rfl nofun nofun hst hA hE fun t e r t' hi hAt he => ?_
  have hstd := standing_pollBackendPid he
  have hother := fun q (hq : q ≠ p) => standing_of_ne he hq
  have hrd := hr t hAt
  cases he
  refine ⟨fun _ => hi.pid_ne_zero p hrd.1.1, fun h => .inl (by rw [hstd]; exact h),
    fun hR e h => hi.held hR p e (by rwa [hstd] at h), ?_⟩
  refine hk t _ hi hAt ⟨by rw [hstd]; exact hrd.1, hrd.2⟩ (fun _ => rfl) hstd fun v hv => ?_
  by_cases hvp : v = p
  · subst hvp
    rw [hstd]
    exact hv
  · rw [hother v hvp]
    exact hv

/-- Every process that is signalled was found in the table while the lock was held. -/
theorem requestBackendMetrics_wp :
    ∀ k i n (s : State D), Reading p s →
      (slotContract R srv p).wp false (requestBackendMetrics k i n) (fun _ => Reading p)
        (At Standing.Idle p) s
  | 0, _, _, _, hs => Contract.wp_ret stable_reading hs
  | k + 1, i, n, s, hs => by
    unfold requestBackendMetrics
    refine wp_poll stable_reading hs (fun _ h => h) (by simp)
      fun t t' hi ht ht' hpid hstd hprep => ?_
    by_cases hactive : t.pid i = 0
    · simp only [hactive, ne_eq, not_true_eq_false, if_false]
      exact requestBackendMetrics_wp k (i + 1) n t' ht'
    simp only [ne_eq, hactive, not_false_eq_true, if_true]
    have hpolling : Polling R p i t' := by
      refine ⟨ht', fun _ => ⟨?_, by rwa [hpid]⟩⟩
      rw [hstd]
      simp [hactive]
    refine wp_poll (stable_polling i) hpolling (fun _ h => h.1) (by simp)
      fun u u' hi hu hu' hpid _ hprep => ?_
    refine Contract.wp_bind (Contract.wp_mono (wp_kill (k := .ret)
      (Q := fun _ => Reading p) (E := At Standing.Idle p)
      ⟨hu', fun hv => hprep _ (hi.prepared i hv).2⟩ (fun hR => (hu.2 hR).2) (by simp)
      fun _ _ h => Contract.wp_ret stable_reading h) (fun ok v _ hv => ?_) fun _ _ h => h)
    cases ok <;> exact requestBackendMetrics_wp k (i + 1) _ v hv

/-- A reader neither claims nor releases. -/
theorem Op.OfReader.isPlain {o : Op D} (h : o.OfReader) : o.IsPlain := by
  cases o
  case mark m => cases m <;> first | exact h.elim | exact ⟨trivial, rfl⟩
  all_goals first | exact h.elim | exact trivial | exact ⟨trivial, rfl⟩

/-- What only shows slots leaves a process where it stood. -/
theorem wp_reader {α : Type} {prog : PgProg D α} {X : Standing → Prop}
    (hall : prog.All Op.OfReader) (hs : X (s.standing p)) :
    (slotContract R srv p).wp m prog (fun _ => At X p) (At X p) s :=
  wp_plain (hall.mono fun _ h => h.isPlain) hs

/-- Taking the lock to read. -/
theorem wp_lockShared {α : Type} {k : Unit → PgProg D α} {Q : α → State D → Prop}
    {E : State D → Prop} (hs : (s.standing p).isAlive = true ∧ (s.standing p).Idle)
    (hk : ∀ t, Reading p t → (slotContract R srv p).wp false (k ()) Q E t) :
    (slotContract R srv p).wp false (pwhLwlockAcquire .LW_SHARED >>= k) Q E s := by
  have hst : (slotContract R srv p).Stable fun s : State D =>
      (s.standing p).isAlive = true ∧ (s.standing p).Idle :=
    stable_standing fun b => b.isAlive = true ∧ b.Idle
  refine wp_plain_op trivial (plainly_standing fun b => b.isAlive = true ∧ b.Idle) hst hs nofun
    fun t e r t' _ _ he _ ht => hk t' ⟨ht, ?_⟩
  obtain ⟨l, hl, heq⟩ := Option.map_eq_some_iff.mp he
  cases heq
  simp only [LWLock.acquire, Option.ite_none_right_eq_some, Option.some.injEq] at hl
  obtain ⟨-, rfl⟩ := hl
  exact List.mem_cons_self

variable [CDouble D]

/-- `v1_status_f`. -/
theorem v1StatusF_wp (hs : (s.standing p).isAlive = true ∧ (s.standing p).Idle) :
    (slotContract R srv p).wp false (v1StatusF srv) (fun _ => At Standing.Idle p)
      (At Standing.Idle p) s := by
  let X : Standing → Prop := fun b => b.isAlive = true ∧ b.Idle
  unfold v1StatusF
  refine wp_plain_at X ⟨trivial, rfl⟩ hs nofun fun _ _ scan t _ hs => ?_
  cases scan with
  | some at_ => exact wp_reader (v1StatusLoop_all _ _ _) hs.2
  | none =>
    refine Contract.wp_bind ?_
    unfold v1StatusFirstCall
    refine wp_lockShared hs fun t ht => ?_
    refine Contract.wp_bind (Contract.wp_mono (requestBackendMetrics_wp _ _ _ t ht)
      (fun _ u _ hu => ?_) fun _ _ h => h)
    refine wp_unlock (plainly_standing _) (stable_standing Standing.Idle) hu.idle
      (fun _ _ h => h) fun v _ hv => ?_
    exact Contract.wp_mono (wp_plain (m := false) (X := Standing.Idle)
      ⟨⟨trivial, rfl⟩, fun _ => trivial⟩ hv)
      (fun _ w _ hw => wp_reader (v1StatusLoop_all _ _ _) hw) fun _ _ h => h

/-- `metrics_handler`: the cleanup, the requests and the page, all under the lock. -/
theorem metricsHandler_wp (palloced : Nat → UInt8) (req : HttpRequest)
    (hs : (s.standing p).isAlive = true ∧ (s.standing p).Idle) :
    (slotContract R srv p).wp false (metricsHandler srv palloced req) (fun _ => At Standing.Idle p)
      (At Standing.Idle p) s := by
  unfold metricsHandler
  split
  · exact Contract.wp_ret (stable_standing Standing.Idle) hs.2
  refine wp_lockShared hs fun t ht => ?_
  refine Contract.wp_bind (Contract.wp_mono (cleanupOrphanedSlots_wp _ _ _ t ht)
    (fun _ u _ hu => ?_) fun _ _ h => h)
  refine Contract.wp_bind (Contract.wp_mono (requestBackendMetrics_wp _ _ _ u hu)
    (fun _ v _ hv => ?_) fun _ _ h => h)
  refine Contract.wp_bind (Contract.wp_mono (wp_reader (X := Standing.Idle)
    ((formatEntries_all _ _ _).bind fun _ => trivial) hv.idle) (fun _ w _ hw => ?_)
    fun _ _ h => h)
  exact wp_unlock (plainly_standing _) (stable_standing Standing.Idle) hw
    (fun _ _ h => h) fun x _ hx => Contract.wp_ret (stable_standing Standing.Idle) hx

end Readers

/-! ## 2. The signal handler

It changes numbers only, and the code it interrupts is in the middle of a function: so its rule is
that the state it leaves looks as if other processes had run. -/

/-- `t` looks to `p` like what interference may leave of `s`. -/
theorem stable_rely (s : State D) : (slotContract R srv p).Stable (SlotRely R p s) :=
  fun _ _ h hr _ => h.trans hr

/-- The search of the handler finds a slot of ours. -/
theorem findMySlot_wp {E : State D → Prop} (hp : p ≠ 0) {s₀ : State D} :
    ∀ k i (s : State D), SlotRely R p s₀ s →
      (slotContract R srv p).wp false (findMySlot p k i)
        (fun r t => SlotRely R p s₀ t ∧ ∀ be, r = some be → Owns R p be t) E s
  | 0, _, _, hs => Contract.wp_ret_of (stable_rely s₀) hs fun _ _ h => ⟨h, by simp⟩
  | k + 1, i, s, hs => by
    unfold findMySlot
    refine wp_quiet trivial rfl (stable_rely s₀) hs (by simp) fun u e pid t _ _ he _ ht => ?_
    by_cases hpid : pid = p
    · simp only [hpid, if_true]
      have hown : Owns R p i t := by
        cases he
        exact ⟨hp, fun _ => hpid⟩
      refine Contract.wp_ret_of ((stable_rely s₀).and (stable_owns i)) ⟨ht, hown⟩
        fun v _ h => ⟨h.1, fun be hbe => ?_⟩
      cases hbe
      exact h.2
    · simp only [hpid, if_false]
      exact findMySlot_wp hp k (i + 1) t ht

variable [CDouble D]

/-- The handler refreshes at most the slot of its own process. -/
theorem pwhSigusr2Handler_wp (hp : p ≠ 0) {s₀ : State D} (hs : SlotRely R p s₀ s) :
    (slotContract R srv p).wp false (pwhSigusr2Handler srv p) (fun _ => SlotRely R p s₀)
      (SlotRely R p s₀) s := by
  unfold pwhSigusr2Handler
  refine wp_quiet trivial rfl (stable_rely s₀) hs nofun fun _ _ current t _ _ _ _ ht => ?_
  cases current with
  | none => exact Contract.wp_ret (stable_rely s₀) ht
  | some q =>
    dsimp only
    split
    · exact Contract.wp_ret (stable_rely s₀) ht
    refine Contract.wp_bind (Contract.wp_mono (findMySlot_wp hp _ _ t ht) (fun found u _ hu => ?_)
      fun _ _ h => h)
    cases found with
    | none => exact Contract.wp_ret (stable_rely s₀) hu.1
    | some be =>
      have hrely : (slotContract R srv p).Stable (SlotRely R p s₀) := stable_rely s₀
      have hst := hrely.and (stable_owns be)
      refine Contract.wp_bind (Contract.wp_mono (Contract.wp_silent
        ((pwhCollectPlanstateMetrics_all _ be _).mono
          fun o ho => (silent_quietAt ho.ofTrack.quietAt).mono fun _ h => h.2) hst
            ⟨hu.1, hu.2 be rfl⟩)
        (fun _ v _ hv => ?_) fun _ _ h => h.1)
      exact wp_quiet (k := fun _ => .ret ()) trivial rfl hst hv nofun
        fun _ _ _ w _ _ _ _ hw => Contract.wp_ret (stable_rely s₀) hw.1

/-- SIGUSR2, whose handler may raise an error or not. -/
theorem deliverSigusr2_wp (hp : p ≠ 0) :
    (slotContract R srv p).wp false (deliverSigusr2 srv p) (fun _ => SlotRely R p s)
      (fun _ => False) s := by
  have hlast : ∀ t, SlotRely R p s t → (slotContract R srv p).wp false
      (act (.setInSignalHandler false)) (fun _ => SlotRely R p s) (fun _ => False) t := fun t ht =>
    wp_quiet (k := fun _ => .ret ()) trivial rfl (stable_rely s) ht nofun
      fun _ _ _ u _ _ _ _ hu => Contract.wp_ret (stable_rely s) hu
  unfold deliverSigusr2
  refine wp_quiet trivial rfl (stable_rely s) (.refl R p s) nofun fun _ _ _ t _ _ _ _ ht => ?_
  refine Contract.wp_bind (Contract.wp_catching ?_ nofun)
  refine Contract.wp_mono (pwhSigusr2Handler_wp hp ht) (fun _ u _ hu => hlast u hu) fun u _ hu => ?_
  exact Contract.wp_ret_of (stable_rely s) hu fun v _ hv => hlast v hv

/-! ## 3. Every run

The rules of the programs, put together. -/

/-- The condition on a run under which the rules that are switched on are kept. -/
def SlotRules.Keeps (R : SlotRules) (c : Config Pid (State D) (Res (D := D)))
    (e : Event Pid (Call D) Empty (Env D)) : Prop :=
  ∀ p env o k, e = .run p env → c.thread p = .op o k → slotAssume R o c.shared

/-- Every program of a process that is admitted keeps the contract and leaves the process idle. -/
theorem Call.program_wp (c : Call D) (hadm : c.admitted s p = true) (hi : SlotInv R srv s)
    (hidle : (s.standing p).Idle) :
    (slotContract R srv p).wp false (c.program srv p) (fun _ => At Standing.Idle p)
      (At Standing.Idle p) s := by
  cases c with
  | fork enabled minCost =>
    simp only [Call.admitted, bne_iff_ne, ne_eq, Bool.and_eq_true, Bool.not_eq_true'] at hadm
    exact fork_wp hadm.1 hadm.2
  | reload enabled minCost => exact wp_plain ⟨⟨trivial, rfl⟩, fun _ => trivial⟩ hidle
  | executorStart q =>
    have ha : (s.standing p).isAlive = true := (Bool.and_eq_true_iff.mp hadm).1
    exact queryStartHook_wp (hi.pid_ne_zero p ha) q ⟨ha, hidle⟩
  | executorEnd q =>
    have ha : (s.standing p).isAlive = true := (Bool.and_eq_true_iff.mp hadm).1
    exact queryEndHook_wp (hi.pid_ne_zero p ha) q ⟨ha, hidle⟩
  | abort event =>
    have ha : (s.standing p).isAlive = true := (Bool.and_eq_true_iff.mp hadm).1
    exact abortTransaction_wp (fun _ _ _ h => h) (hi.pid_ne_zero p ha) event hidle
  | commit => exact commitTransaction_wp (fun _ _ _ h => h) (hi.pid_ne_zero p hadm) hidle
  | abortSub qs =>
    exact wp_plain ⟨trivial, fun _ => ⟨⟨trivial, rfl⟩, fun _ => trivial⟩⟩ hidle
  | fetchStatus =>
    exact Contract.wp_bind (Contract.wp_mono (v1StatusF_wp ⟨hadm, hidle⟩)
      (fun _ _ _ h => Contract.wp_ret (stable_standing Standing.Idle) h) fun _ _ h => h)
  | scrape req palloced =>
    exact Contract.wp_bind (Contract.wp_mono (metricsHandler_wp palloced req ⟨hadm, hidle⟩)
      (fun _ _ _ h => Contract.wp_ret (stable_standing Standing.Idle) h) fun _ _ h => h)
  | exit => exact procExit_wp (hi.pid_ne_zero p hadm) ⟨hadm, hidle⟩

/-- **Every process keeps its contract in every run of the cluster.** -/
theorem slots_sound (R : SlotRules) (srv : Server D) :
    System.Sound (clusterSystem srv) R.Keeps (SlotInv R srv) (slotContract R srv)
      (At Standing.Idle) where
  sem_of_ok _ _ e _ _ _ _ _ _ h := ⟨e, h⟩
  inv_eq _ := rfl
  stable p := stable_standing Standing.Idle
  guar_rely p q o s r t h hpq := h.rely q (Ne.symm hpq)
  assume_of_ok c p e o k hp hok := hok p e o k rfl hp
  call c p cl prog hi hidle _ hent := by
    obtain ⟨hadm, hprog⟩ := Option.ite_none_right_eq_some.mp hent
    cases hprog
    exact cl.program_wp hadm hi hidle
  interrupt c p h hi _ hint := by
    obtain ⟨hadm, hprog⟩ := Option.ite_none_right_eq_some.mp hint
    cases hprog
    have halive := (Bool.and_eq_true_iff.mp (Bool.and_eq_true_iff.mp hadm).1).1
    exact deliverSigusr2_wp (hi.pid_ne_zero p halive)
  external _ x := nomatch x

/-- The empty table. -/
theorem slotInv_init (R : SlotRules) (srv : Server D) : SlotInv R srv (State.init : State D) where
  pid_ne_zero _ h := by cases h
  prepared i h := absurd rfl h
  unique i j h := absurd rfl h
  lock _ := rfl
  held _ p e h := by cases h

/-- No process has started. -/
theorem idle_init (p : Pid) : ((State.init : State D).standing p).Idle := ⟨nofun, nofun⟩

/-- What is known of every configuration of every run that keeps the rules. -/
theorem slots_hold {c : Config Pid (State D) (Res (D := D))}
    (h : (clusterSystem srv).Reach R.Keeps clusterInit c) :
    System.Sound.Holds (SlotInv R srv) (slotContract R srv) (At Standing.Idle) c :=
  System.Reach.sound (slots_sound R srv) (slotInv_init R srv) idle_init
    (fun _ => rfl) h

end WhatIsHappening
