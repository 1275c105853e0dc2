/-
# What the orphan cleanup finds

Before each exposition the scraper asks, of every taken slot, whether its process still exists, and
frees the slot when it does not.  A process leaves only through its exit callback, which clears its
slot under the exclusive lock, and the scraper holds the lock shared while it asks: so the answer is
always yes, and the branch that frees a slot is never entered.
-/
import WhatIsHappening.Slots.Sound
import WhatIsHappening.Readers.Polling

namespace WhatIsHappening

open Interleaving Prog

variable {D : Type} {R : SlotRules} {srv : Server D} {p : Pid} {s : State D}

/-! ## 1. What is promised of a null signal -/

/-- Whoever is asked for exists. -/
def AsksForExisting (o : Op D) (s : State D) : Prop :=
  ∀ v, o = .kill v .null → s.killSucceeds v = true

/-- The contract of the slots, for a process that asks for existing processes only. -/
abbrev askingContract (R : SlotRules) (srv : Server D) (p : Pid) :
    Contract (Res (D := D)) (State D) :=
  (slotContract R srv p).promising AsksForExisting

/-- What others keep does not depend on what is promised. -/
theorem stable_asking {A : State D → Prop} (h : (slotContract R srv p).Stable A) :
    (askingContract R srv p).Stable A := h

/-- Any operation but a null signal. -/
def Op.AsksNobody (o : Op D) : Prop := ∀ v, o ≠ .kill v .null

theorem Op.AsksNobody.asks {o : Op D} (h : o.AsksNobody) (t : State D) : AsksForExisting o t :=
  fun v hv => absurd hv (h v)

theorem Op.OfHook.asksNobody {o : Op D} (h : o.OfHook) : o.AsksNobody := by
  rintro v rfl
  exact h.elim

theorem Op.OfReader.asksNobody {o : Op D} (h : o.OfReader) : o.AsksNobody := by
  rintro v rfl
  exact h.elim

theorem Op.IsMeasuring.asksNobody {o : Op D} (h : o.IsMeasuring) : o.AsksNobody := by
  rintro v rfl
  exact h.elim

/-- A program that asks nobody keeps the stronger contract as it keeps the other. -/
theorem asking_of_wp {α : Type} {m : Bool} {prog : PgProg D α}
    {Q : α → State D → Prop} {E : State D → Prop} (h : (slotContract R srv p).wp m prog Q E s)
    (hall : prog.All Op.AsksNobody) : (askingContract R srv p).wp m prog Q E s :=
  Contract.wp_promising h (hall.mono fun _ ho => ho.asks)

theorem requestBackendMetrics_asksNobody :
    ∀ k i n, (requestBackendMetrics k i n : PgProg D Nat).All Op.AsksNobody
  | 0, _, _ => trivial
  | k + 1, i, n => by
    refine act_all (fun _ => nofun) fun pid => ?_
    split
    · refine act_all (fun _ => nofun) fun v => ?_
      refine Prog.All.bind (act_all (fun _ => nofun) fun _ => trivial) fun ok => ?_
      cases ok <;> exact requestBackendMetrics_asksNobody k (i + 1) _
    · exact requestBackendMetrics_asksNobody k (i + 1) n

theorem pwhLwlockRelease_asksNobody : (pwhLwlockRelease : PgProg D Unit).All Op.AsksNobody :=
  pwhLwlockRelease_all fun _ => nofun

theorem pwhGetBackendEntry_asksNobody (index : Nat) :
    (pwhGetBackendEntry srv index).All Op.AsksNobody :=
  (pwhGetBackendEntry_all index).mono fun _ h => h.asksNobody

/-! ## 2. The cleanup -/

/-- Whoever was read from the table while the lock was held exists. -/
theorem Signalable.exists {v : Pid} (h : Signalable p v s) : s.killSucceeds v = true := by
  by_cases hv : v = 0
  · simp [State.killSucceeds, hv]
  · have halive : (s.backends v).isAlive = true := (h.2 hv).1
    simp [State.killSucceeds, halive]

/-- The question itself, which is answered with yes. -/
theorem wp_ask {α : Type} {v : Pid} {k : Bool → PgProg D α} {Q : α → State D → Prop}
    {E : State D → Prop} (hs : Signalable p v s)
    (hk : ∀ t, Reading p t → (askingContract R srv p).wp false (k true) Q E t) :
    (askingContract R srv p).wp false (act (.kill v .null) >>= k) Q E s := by
  refine Contract.wp_op (L := askingContract R srv p) (A := Signalable p v)
    (stable_asking (stable_signalable v)) hs nofun fun t r t' hi ht ha ⟨e, he⟩ => ?_
  obtain ⟨hi', hg, -⟩ := silent_quiet (A := Signalable p v) (o := .kill v .null) trivial rfl t r t'
    hi ht ha ⟨e, he⟩
  cases he
  have hasks : AsksForExisting (.kill v .null) t := by
    rintro w hw
    cases hw
    exact ht.exists
  refine ⟨hi', ⟨hg, hasks⟩, ?_⟩
  rw [ht.exists]
  exact hk t ht.1

/-- One read of the scraper, for which there is nothing to promise. -/
theorem asking_read {α : Type} {o : Op D} {k : Res o → PgProg D α} {Q : α → State D → Prop}
    {E : State D → Prop} (ho : o.IsPlain) (hl : o.KeepsLock) (hask : o.AsksNobody)
    (hs : Reading p s)
    (hk : ∀ t e r t', SlotInv R srv t → exec srv p o e t = some (r, t') → Reading p t' →
      (askingContract R srv p).wp false (k r) Q E t') :
    (askingContract R srv p).wp false (act o >>= k) Q E s := by
  refine Contract.wp_op (L := askingContract R srv p) (A := Reading p)
    (stable_asking stable_reading) hs nofun fun t r t' hi ht _ ⟨e, he⟩ => ?_
  obtain ⟨hi', hg, hst⟩ := plain_step hi ho he
  refine ⟨hi', ⟨hg, hask.asks t⟩, hk t e r t' hi he ⟨by rw [hst]; exact ht.1, ?_⟩⟩
  rw [HoldsShared, lock_of_keepsLock hl he]
  exact ht.2

/-- Every slot that is found taken is left as it is. -/
theorem cleanupOrphanedSlots_asking :
    ∀ k i n (s : State D), Reading p s →
      (askingContract R srv p).wp false (cleanupOrphanedSlots srv k i n) (fun _ => Reading p)
        (At Standing.Idle p) s := by
  intro k
  induction k with
  | zero =>
    intro _ _ _ hs
    exact Contract.wp_ret (L := askingContract R srv p) (stable_asking stable_reading) hs
  | succ k ih =>
    intro i n s hs
    unfold cleanupOrphanedSlots
    refine Contract.wp_promising_bind (pwhGetBackendEntry_wp i hs)
      ((pwhGetBackendEntry_asksNobody i).mono fun _ ho => ho.asks) fun _ t _ ht => ?_
    rw [pwhIsBackendEntryActive_bind]
    refine asking_read (o := .readBackendPid i) ⟨trivial, rfl⟩ trivial
      (Op.OfReader.asksNobody trivial) ht fun _ _ pid t _ _ ht => ?_
    by_cases hactive : pid = 0
    · simp only [hactive, ne_eq, not_true_eq_false, decide_false, Bool.false_eq_true, if_false]
      exact ih (i + 1) n t ht
    simp only [ne_eq, hactive, not_false_eq_true, decide_true, if_true]
    refine asking_read ⟨trivial, rfl⟩ trivial (Op.OfReader.asksNobody trivial) ht
      fun u e v t hi he ht => ?_
    have hv : Signalable p v t := by
      cases he
      exact ⟨ht, fun h => (hi.prepared i h).2⟩
    -- the other branch, which would free the slot, needs an answer that is never given
    exact wp_ask hv fun t ht => ih (i + 1) n t ht

/-! ## 3. The readers and the hooks -/

variable [CDouble D]

theorem v1StatusF_asksNobody : (v1StatusF srv).All Op.AsksNobody := by
  have hloop : ∀ k slotIdx nodeIdx, (v1StatusLoop srv k slotIdx nodeIdx).All Op.AsksNobody :=
    fun k slotIdx nodeIdx => (v1StatusLoop_all k slotIdx nodeIdx).mono fun _ h => h.asksNobody
  refine act_all (fun _ => nofun) fun scan => ?_
  rcases scan with _ | ⟨slotIdx, nodeIdx⟩
  · refine Prog.All.bind (p := v1StatusFirstCall srv) ?_ fun _ => hloop _ _ _
    exact act_all (fun _ => nofun) fun _ => (requestBackendMetrics_asksNobody _ _ _).bind
      fun _ => pwhLwlockRelease_asksNobody.bind fun _ => act_all (fun _ => nofun) fun _ => trivial
  · exact hloop _ _ _

theorem metricsHandler_asking (palloced : Nat → UInt8) (req : HttpRequest)
    (hs : (s.standing p).isAlive = true ∧ (s.standing p).Idle) :
    (askingContract R srv p).wp false (metricsHandler srv palloced req)
      (fun _ => At Standing.Idle p) (At Standing.Idle p) s := by
  have hidle : (slotContract R srv p).Stable (At Standing.Idle p) := stable_standing Standing.Idle
  unfold metricsHandler
  split
  · exact Contract.wp_ret (L := askingContract R srv p) hidle hs.2
  have hlock : (slotContract R srv p).wp false (pwhLwlockAcquire .LW_SHARED >>= fun _ => .ret ())
      (fun _ => Reading p) (At Standing.Idle p) s :=
    wp_lockShared hs fun t ht => Contract.wp_ret stable_reading ht
  refine Contract.wp_promising_bind hlock (act_all (fun _ _ => nofun) fun _ => trivial)
    fun _ t _ ht => ?_
  refine Contract.wp_bind (Contract.wp_mono (cleanupOrphanedSlots_asking _ _ _ t ht)
    (fun _ u _ hu => ?_) fun _ _ h => h)
  refine Contract.wp_promising_bind (requestBackendMetrics_wp _ _ _ u hu)
    ((requestBackendMetrics_asksNobody _ _ _).mono fun _ ho => ho.asks) fun _ v _ hv => ?_
  have hformat : (pwhFormatOpenmetrics srv palloced).All Op.OfReader :=
    (formatEntries_all _ _ _).bind fun _ => trivial
  refine Contract.wp_promising_bind (wp_reader (X := Standing.Idle) hformat hv.idle)
    (hformat.mono fun _ ho => ho.asksNobody.asks) fun _ w _ hw => ?_
  exact asking_of_wp (wp_unlock (plainly_standing _) hidle hw (fun _ _ h => h)
    fun x _ hx => Contract.wp_ret hidle hx) (pwhLwlockRelease_asksNobody.bind fun _ => trivial)

theorem Call.program_asking (c : Call D) (hadm : c.admitted s p = true) (hi : SlotInv R srv s)
    (hidle : (s.standing p).Idle) :
    (askingContract R srv p).wp false (c.program srv p) (fun _ => At Standing.Idle p)
      (At Standing.Idle p) s := by
  have hhook : c.IsHook → (askingContract R srv p).wp false (c.program srv p)
      (fun _ => At Standing.Idle p) (At Standing.Idle p) s := fun hc =>
    asking_of_wp (c.program_wp hadm hi hidle)
      ((Call.program_ofHook hc).mono fun _ ho => ho.asksNobody)
  cases c with
  | fetchStatus =>
    exact asking_of_wp (Call.program_wp .fetchStatus hadm hi hidle)
      (v1StatusF_asksNobody.bind fun _ => trivial)
  | scrape req palloced =>
    exact Contract.wp_bind (Contract.wp_mono (metricsHandler_asking palloced req ⟨hadm, hidle⟩)
      (fun _ _ _ h => Contract.wp_ret (L := askingContract R srv p)
        (stable_asking (stable_standing Standing.Idle)) h) fun _ _ h => h)
  | _ => exact hhook trivial

/-! ## 4. Every run -/

/-- The stronger contract is kept too. -/
theorem asking_sound (R : SlotRules) (srv : Server D) :
    System.Sound (clusterSystem srv) R.Keeps (SlotInv R srv) (askingContract R srv)
      (At Standing.Idle) where
  sem_of_ok := (slots_sound R srv).sem_of_ok
  inv_eq _ := rfl
  stable p := stable_asking (stable_standing Standing.Idle)
  guar_rely p q o s r t h hpq := (slots_sound R srv).guar_rely p q o s r t h.1 hpq
  assume_of_ok := (slots_sound R srv).assume_of_ok
  call c p cl prog hi hidle _ hent := by
    obtain ⟨hadm, hprog⟩ := Option.ite_none_right_eq_some.mp hent
    cases hprog
    exact cl.program_asking hadm hi hidle
  interrupt c p h hi hok hint := by
    have hwp := (slots_sound R srv).interrupt c p h hi hok hint
    obtain ⟨-, hprog⟩ := Option.ite_none_right_eq_some.mp hint
    cases hprog
    exact asking_of_wp hwp (deliverSigusr2_measuring.mono fun _ ho => ho.asksNobody)
  external := (slots_sound R srv).external

/-- **No slot is ever orphaned**, in any run: a taken slot lies in the table and its process is
alive, and whenever the scraper asks whether the process of a slot exists, it does.  So the cleanup
frees nothing. -/
theorem no_slot_is_orphaned (srv : Server D) {c : Config Pid (State D) (Res (D := D))}
    (h : (clusterSystem srv).Reach anyRun clusterInit c) :
    (∀ i, c.shared.pid i ≠ 0 → i < srv.gucs.maxTrackedQueries ∧
      (c.shared.backends (c.shared.pid i)).isAlive = true) ∧
    ∀ p v k, c.thread p = .op (.kill v .null) k → c.shared.killSucceeds v = true := by
  have hkeeps : ∀ c e, anyRun c e → SlotRules.Keeps (D := D) ⟨false, false⟩ c e :=
    fun _ _ _ _ _ _ _ _ _ _ _ _ => ⟨nofun, nofun⟩
  have hall := System.Reach.sound (asking_sound ⟨false, false⟩ srv) (slotInv_init _ srv) idle_init
    (fun _ => rfl) (h.mono hkeeps)
  refine ⟨fun i hi => ?_, fun p v k hp => ?_⟩
  · obtain ⟨hin, hprep⟩ := hall.1.prepared i hi
    exact ⟨hin, hprep.1⟩
  · obtain ⟨-, ⟨-, hasks⟩, -⟩ := System.Sound.guar_of_holds (asking_sound ⟨false, false⟩ srv) hall
      hp (hkeeps c (.run p {}) trivial) (e := {}) rfl
    exact hasks v rfl

/-- Process 2 scrapes while process 1 runs a query and then begins to exit. -/
def exitingRun : List (Event Pid (Call ℚ) Empty (Env ℚ)) :=
  startQuery 1 10 ++ [.call 2 (.fork true 0)] ++ runs 2 1 ++
    [.call 2 (.scrape ⟨str "GET", str "/metrics"⟩ fun _ => 0)] ++ runs 2 5 ++
    [.call 1 .exit] ++ runs 1 1

/-- Process `p` is about to ask whether process `v` exists, and process `q` to take the lock to
itself. -/
def asksWhileExiting (p v q : Pid) (c : Config Pid (State ℚ) (Res (D := ℚ))) : Bool :=
  match c.thread p, c.thread q with
  | .op (.kill w .null) _, .op (.lwLockAcquire .LW_EXCLUSIVE) _ => w = v
  | _, _ => false

theorem thread_of_asksWhileExiting {c : Config Pid (State ℚ) (Res (D := ℚ))} {p v q : Pid}
    (h : asksWhileExiting p v q c = true) :
    (∃ k, c.thread p = .op (.kill v .null) k) ∧
      ∃ k, c.thread q = .op (.lwLockAcquire .LW_EXCLUSIVE) k := by
  unfold asksWhileExiting at h
  split at h
  · rename_i w k l hp hq
    obtain rfl := of_decide_eq_true h
    exact ⟨⟨k, hp⟩, l, hq⟩
  · cases h

set_option maxRecDepth 10000 in
/-- The process that exits has to wait for the lock, and exists when it is asked for. -/
theorem exitingRun_finds_process : ∃ c : Config Pid (State ℚ) (Res (D := ℚ)),
    (clusterSystem smallServer).Reach anyRun clusterInit c ∧
      (∃ k, c.thread 2 = .op (.kill 1 .null) k) ∧
      (∃ k, c.thread 1 = .op (.lwLockAcquire .LW_EXCLUSIVE) k) ∧
      c.shared.killSucceeds 1 = true := by
  have hrun : ∃ c, (clusterSystem smallServer).Reach anyRun clusterInit c ∧
      asksWhileExiting 2 1 1 c = true :=
    System.exists_reach (clusterSystem smallServer) (fun _ _ => true) (fun _ _ _ => trivial)
      clusterInit exitingRun _ (by decide +kernel)
  obtain ⟨c, hc, hasks⟩ := hrun
  obtain ⟨⟨k, hk⟩, hexit⟩ := thread_of_asksWhileExiting hasks
  exact ⟨c, hc, ⟨k, hk⟩, hexit, (no_slot_is_orphaned smallServer hc).2 2 1 k hk⟩

end WhatIsHappening
