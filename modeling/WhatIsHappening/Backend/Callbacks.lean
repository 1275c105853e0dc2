/-
# The callbacks are registered once

Only `initialize_state_once_per_backend` registers callbacks, and `WAS_BACKEND_INITIALIZED` is to
keep it from doing so twice.  The catch block of the start hook borrows the exit callback for its
cleanup, which clears the flag: the next tracked query registers everything again.
-/
import WhatIsHappening.Backend.Tidy

namespace WhatIsHappening

open Interleaving Prog

variable {D : Type} {α : Type} {srv : Server D} {p : Pid}

/-! ## 1. Programs that register nothing

All of them, but for the initialization in the start hook.  The signal handler may run inside that
hook, so it must keep the flag and the settings too (`Op.KeepsSetup`). -/

/-- The operation registers no callback. -/
def Op.RegistersNone : Op D → Prop
  | .registerXactCallback | .beforeShmemExit => False
  | _ => True

theorem Op.IsUpkeep.registersNone {o : Op D} (h : o.IsUpkeep) : o.RegistersNone := by
  cases o <;> trivial

theorem Op.OfReader.registersNone {o : Op D} (h : o.OfReader) : o.RegistersNone := by
  cases o <;> trivial

theorem Op.OfWalk.registersNone {be : Nat} {o : Op D} (h : o.OfWalk be) : o.RegistersNone := by
  cases o <;> trivial

theorem Op.OfTrack.registersNone {be : Nat} {o : Op D} (h : o.OfTrack be) : o.RegistersNone := by
  cases o <;> trivial

/-- The operation changes neither the settings, nor the flag, nor the callbacks. -/
def Op.KeepsSetup : Op D → Prop
  | .registerXactCallback | .beforeShmemExit | .popExitCallbacks | .setWasBackendInitialized _
  | .reload _ _ | .fork _ _ => False
  | _ => True

theorem Op.OfWalk.keepsSetup {be : Nat} {o : Op D} (h : o.OfWalk be) : o.KeepsSetup := by
  cases o <;> trivial

theorem findMySlot_keepsSetup :
    ∀ k i, (findMySlot p k i : PgProg D (Option Nat)).All Op.KeepsSetup := by
  intro k
  induction k with
  | zero => exact fun _ => trivial
  | succ k ih =>
    intro i
    unfold findMySlot
    refine act_all trivial fun pid => ?_
    split
    · trivial
    · exact ih _

theorem upkeep_registersNone {prog : PgProg D α} (h : prog.All Op.IsUpkeep) :
    prog.All Op.RegistersNone :=
  h.mono fun _ ho => ho.registersNone

theorem reader_registersNone {prog : PgProg D α}
    (h : prog.All fun o => o.IsUpkeep ∨ o.OfReader) : prog.All Op.RegistersNone :=
  h.mono fun _ ho => ho.elim (fun h => h.registersNone) fun h => h.registersNone

theorem walk_registersNone {be : Nat} {prog : PgProg D α} (h : prog.All (Op.OfWalk be)) :
    prog.All Op.RegistersNone :=
  h.mono fun _ ho => ho.registersNone

section Programs

variable [CDouble D]

/-- The try block of the start hook, with its catch block. -/
theorem queryStart_registersNone (q : QueryDescPtr) :
    (pgTryCatch (queryStartTry srv p q) (queryStartCatch srv p)).All Op.RegistersNone := by
  have hcatch : (queryStartCatch srv p).All Op.RegistersNone :=
    act_all trivial fun _ => upkeep_registersNone backendExitCallback_all
  refine Prog.All.catching (Prog.All.faulty (f := Op.raisesHere) trivial ?_) hcatch
  refine (upkeep_registersNone (pwhGetOrCreateMyBackendEntryImpl_all true)).bind fun entry => ?_
  cases entry with
  | none => trivial
  | some be => exact (trackQuery_all be q).mono fun _ h => h.registersNone

theorem queryEndHook_registersNone (q : QueryDescPtr) :
    (queryEndHook srv p q).All Op.RegistersNone := by
  refine act_all trivial fun enabled => act_all trivial fun initialized =>
    Prog.All.bind ?_ fun _ => ⟨trivial, fun _ => trivial⟩
  unfold pgWhen
  split
  · have hcatch : (queryEndCatch q : PgProg D Unit).All Op.RegistersNone :=
      act_all trivial fun _ => act_all trivial fun _ => pwhLwlockRelease_all trivial
    have htry : (queryEndTry srv p q).All Op.RegistersNone :=
      queryEndTry_all (fun _ h => h.registersNone)
        (fun be _ => walk_registersNone (pwhCollectPlanstateMetrics_all _ be _)) q
    exact Prog.All.catching (Prog.All.faulty (f := Op.raisesHere) trivial htry) hcatch
  · trivial

theorem deliverSigusr2_keepsSetup : (deliverSigusr2 srv p).All Op.KeepsSetup := by
  refine act_all trivial fun _ => Prog.All.bind ?_ fun _ => ⟨trivial, fun _ => trivial⟩
  refine Prog.All.catching ?_ trivial
  refine act_all trivial fun current => ?_
  cases current with
  | none => trivial
  | some q =>
    dsimp only
    split
    · trivial
    refine (findMySlot_keepsSetup _ _).bind fun found => ?_
    cases found with
    | none => trivial
    | some be =>
      refine Prog.All.bind ?_ fun _ => ⟨trivial, fun _ => trivial⟩
      exact (pwhCollectPlanstateMetrics_all _ be _).mono fun _ h => h.keepsSetup

end Programs

/-! ## 2. The count

The abort callback is registered first, and the exit callbacks go when they are run, so there are
never more of these than of the others. -/

/-- What decides whether a query start registers the callbacks, and how often they are. -/
structure Setup (D : Type) where
  isEnabled : Bool
  minCostToTrack : D
  wasInitialized : Bool
  xactCallbacks : Nat
  exitCallbacks : Nat

def View.setup (v : View D) : Setup D :=
  ⟨v.isEnabled, v.minCostToTrack, v.wasInitialized, v.xactCallbacks, v.exitCallbacks⟩

/-- Each callback is registered at most once. -/
def Setup.RegisteredOnce (x : Setup D) : Prop :=
  x.exitCallbacks ≤ x.xactCallbacks ∧ x.xactCallbacks ≤ 1

/-- The count grows only where a callback is registered. -/
theorem registeredOnce_after {v : View D} (h : v.setup.RegisteredOnce) {o : Op D}
    (ho : o.RegistersNone) (hd : Header) : (v.after p hd o).setup.RegisteredOnce := by
  cases o
  case popExitCallbacks => exact ⟨Nat.zero_le _, h.2⟩
  case fork enabled minCost => exact ⟨Nat.le_refl _, Nat.zero_le _⟩
  case registerXactCallback => exact ho.elim
  case beforeShmemExit => exact ho.elim
  case mark m => cases m <;> exact h
  all_goals exact h

theorem setup_after {v : View D} {o : Op D} (ho : o.KeepsSetup) (hd : Header) :
    (v.after p hd o).setup = v.setup := by
  cases o
  case mark m => cases m <;> rfl
  all_goals first | rfl | exact ho.elim

/-- The contract of a process that registers its callbacks once. -/
def callbackContract (srv : Server D) (p : Pid) : Contract (Res (D := D)) (State D) where
  sem o s r t := ∃ e, exec srv p o e s = some (r, t)
  inv s := (s.view p).setup.RegisteredOnce
  rely s t := (s.view p).setup = (t.view p).setup
  assume _ _ := True
  guar _ _ _ _ := True
  rely_refl _ := rfl
  rely_trans := Eq.trans

section Rules

variable {m : Bool} {s : State D} {x : Setup D}

theorem wp_registersNone {prog : PgProg D α} (hall : prog.All Op.RegistersNone) :
    (callbackContract srv p).wp m prog (fun _ _ => True) (fun _ => True) s := by
  refine Contract.wp_of_all hall Contract.stable_true ?_ trivial
  rintro o t r t' ho hi - - ⟨e, he⟩
  obtain ⟨hd, hview⟩ := view_exec he
  have hi' : (t'.view p).setup.RegisteredOnce := hview ▸ registeredOnce_after hi ho hd
  exact ⟨hi', trivial, trivial⟩

theorem stable_setup (x : Setup D) :
    (callbackContract srv p).Stable fun t => (t.view p).setup = x :=
  fun _ _ h hr _ => hr.symm.trans h

theorem wp_keepsSetup {prog : PgProg D α} (hall : prog.All Op.KeepsSetup)
    (hs : (s.view p).setup = x) :
    (callbackContract srv p).wp m prog (fun _ t => (t.view p).setup = x)
      (fun t => (t.view p).setup = x) s := by
  refine Contract.wp_of_all hall (stable_setup x) ?_ hs
  rintro o t r t' ho hi ht - ⟨e, he⟩
  obtain ⟨hd, hview⟩ := view_exec he
  have hkeep : (t'.view p).setup = (t.view p).setup := hview ▸ setup_after ho hd
  have hi' : (t'.view p).setup.RegisteredOnce := hkeep ▸ hi
  exact ⟨hi', trivial, hkeep.trans ht⟩

/-- One operation of a process whose setup is known. -/
theorem wp_callback_op {o : Op D} {k : Res o → PgProg D α} {Q : α → State D → Prop}
    {E : State D → Prop} (hs : (s.view p).setup = x) (hE : ∀ t, E t)
    (h : x.RegisteredOnce → ∀ (v : View D) r t e hd, v.setup = x → v.Answers p e o r →
      t.view p = v.after p hd o → (t.view p).setup.RegisteredOnce ∧
        (callbackContract srv p).wp m (k r) Q E t) :
    (callbackContract srv p).wp m (act o >>= k) Q E s := by
  refine Contract.wp_op (stable_setup x) hs (fun _ t _ _ => hE t) ?_
  rintro t r u hi ht - ⟨e, he⟩
  obtain ⟨hd, hview⟩ := view_exec he
  have hi : (t.view p).setup.RegisteredOnce := hi
  rw [ht] at hi
  obtain ⟨hi', hk⟩ := h hi (t.view p) r u e hd ht (answers_exec he) hview
  exact ⟨hi', trivial, hk⟩

/-- An operation that keeps the setup. -/
theorem wp_callback_read {o : Op D} {k : Res o → PgProg D α} {Q : α → State D → Prop}
    {E : State D → Prop} (hs : (s.view p).setup = x) (hE : ∀ t, E t) (ho : o.KeepsSetup)
    (h : ∀ (v : View D) r t e, v.setup = x → v.Answers p e o r → (t.view p).setup = x →
      (callbackContract srv p).wp m (k r) Q E t) :
    (callbackContract srv p).wp m (act o >>= k) Q E s := by
  refine wp_callback_op hs hE fun hi v r t e hd hv hans ht => ?_
  have htx : (t.view p).setup = x := by rw [ht, setup_after ho hd, hv]
  exact ⟨htx ▸ hi, h v r t e hv hans htx⟩

/-- `initialize_state_once_per_backend`, while nothing is registered. -/
theorem wp_registerOnce {E : State D → Prop} (hs : (s.view p).setup = x) (hE : ∀ t, E t)
    (h : x.xactCallbacks = 0) :
    (callbackContract srv p).wp m initializeStateOncePerBackend (fun _ _ => True) E s := by
  refine wp_callback_op hs hE fun hi v _ t _ hd hv _ ht => ?_
  have ht : (t.view p).setup = { x with xactCallbacks := x.xactCallbacks + 1 } := by
    rw [ht, ← hv]
    rfl
  rw [ht]
  refine ⟨⟨Nat.le_trans hi.1 (Nat.le_succ _), Nat.le_of_eq (congrArg (· + 1) h)⟩, ?_⟩
  refine wp_callback_op ht hE fun _ w _ u _ hd hw _ hu => ?_
  have hu : (u.view p).setup = { x with
      xactCallbacks := x.xactCallbacks + 1, exitCallbacks := x.exitCallbacks + 1 } := by
    rw [hu]
    exact congrArg (fun y : Setup D => { y with exitCallbacks := y.exitCallbacks + 1 }) hw
  rw [hu]
  refine ⟨⟨Nat.succ_le_succ hi.1, Nat.le_of_eq (congrArg (· + 1) h)⟩, ?_⟩
  exact Contract.wp_mono (wp_registersNone (act_all trivial fun _ => ⟨trivial, fun _ => trivial⟩))
    (fun _ _ _ h => h) fun t _ _ => hE t

variable [CDouble D]

/-- **The start hook** registers the callbacks once, unless it finds the flag cleared while they are
registered. -/
theorem wp_startHook (q : QueryDescPtr) (hs : (s.view p).setup = x)
    (h : x.isEnabled = true → CDouble.gt x.minCostToTrack (srv.queryDesc q).totalCost = false →
      x.wasInitialized = false → x.xactCallbacks = 0) :
    (callbackContract srv p).wp false (queryStartHook srv p q) (fun _ _ => True)
      (fun _ => True) s := by
  have hE : ∀ _ : State D, True := fun _ => trivial
  have hdone : ∀ t, (callbackContract srv p).wp false (.ret ()) (fun _ _ => True)
      (fun _ => True) t := fun t => Contract.wp_ret Contract.stable_true trivial
  refine wp_callback_read hs hE trivial fun _ _ t _ _ _ ht => ?_
  refine wp_callback_read ht hE trivial fun v enabled t _ hv henabled ht => ?_
  have henabled : enabled = x.isEnabled := by
    rw [← hv]
    exact henabled
  split
  swap
  · exact hdone t
  rename_i hen
  refine wp_callback_read ht hE trivial fun v minCost t _ hv hcost ht => ?_
  have hcost : minCost = x.minCostToTrack := by
    rw [← hv]
    exact hcost
  split
  · exact hdone t
  rename_i hgt
  refine wp_callback_read ht hE trivial fun v initialized t _ hv hinit ht => ?_
  have hinit : initialized = x.wasInitialized := by
    rw [← hv]
    exact hinit
  refine Contract.wp_bind (Contract.wp_mono (Q := fun _ _ => True) (E := fun _ => True) ?_
    (fun _ t _ _ => wp_registersNone (queryStart_registersNone q)) fun _ _ h => h)
  cases initialized
  · refine wp_registerOnce ht hE ?_
    exact h (henabled.symm.trans hen) (by simpa [hcost] using hgt) hinit.symm
  · exact hdone t

end Rules

/-! ## 3. Runs -/

section Runs

variable [CDouble D]

/-- The next event does not start a tracked query where `WAS_BACKEND_INITIALIZED` was cleared while
the callbacks are registered. -/
def registersOnce (srv : Server D) (p : Pid) (c : Config Unit (State D) (Res (D := D))) :
    Event Unit (Call D) (ForeignWrite D) (Env D) → Bool
  | .call _ (.executorStart q) =>
    let b := c.shared.backends p
    b.wasBackendInitialized || b.xactCallbacks = 0 || !b.isEnabled ||
      CDouble.gt b.minCostToTrack (srv.queryDesc q).totalCost
  | _ => true

/-- By the condition nothing is registered where a tracked query starts with the flag cleared. -/
theorem callback_sound (srv : Server D) (p : Pid) :
    System.Sound (backendSystem srv p) (fun c e => registersOnce srv p c e)
      (fun s => (s.view p).setup.RegisteredOnce) (fun _ => callbackContract srv p)
      (fun _ _ => True) where
  sem_of_ok _ _ e _ _ _ _ _ _ hx := ⟨e, hx⟩
  inv_eq _ := rfl
  stable _ := Contract.stable_true
  guar_rely i j _ _ _ _ _ hij := absurd rfl hij
  assume_of_ok _ _ _ _ _ _ _ := trivial
  call c _ cl prog _ _ hok henter := by
    obtain ⟨-, rfl⟩ : cl.admitted c.shared p = true ∧ cl.program srv p = prog := by
      simpa [backendSystem, enter] using henter
    cases cl with
    | executorStart q =>
      refine wp_startHook q rfl fun hen hgt hinit => ?_
      have hen : (c.shared.backends p).isEnabled = true := hen
      have hinit : (c.shared.backends p).wasBackendInitialized = false := hinit
      have hgt : CDouble.gt (c.shared.backends p).minCostToTrack (srv.queryDesc q).totalCost =
        false := hgt
      have : (c.shared.backends p).xactCallbacks = 0 := by
        simpa [registersOnce, hen, hinit, hgt] using hok
      exact this
    | fork enabled minCost => exact wp_registersNone ⟨trivial, fun _ => trivial⟩
    | reload enabled minCost => exact wp_registersNone ⟨trivial, fun _ => trivial⟩
    | executorEnd q => exact wp_registersNone (queryEndHook_registersNone q)
    | abort event => exact wp_registersNone (upkeep_registersNone (abortTransaction_all event))
    | commit => exact wp_registersNone (upkeep_registersNone commitTransaction_all)
    | abortSub qs => exact wp_registersNone (upkeep_registersNone (abortSubTransaction_all qs))
    | fetchStatus =>
      exact wp_registersNone ((reader_registersNone v1StatusF_all).bind fun _ => trivial)
    | scrape req palloced =>
      exact wp_registersNone ((reader_registersNone (metricsHandler_all palloced req)).bind
        fun _ => trivial)
    | exit => exact wp_registersNone (upkeep_registersNone procExit_all)
  interrupt c _ prog _ _ hint := by
    have hprog : deliverSigusr2 srv p = prog := by
      simp only [backendSystem, takeSigusr2] at hint
      exact (Option.ite_none_right_eq_some.mp hint).2 |> Option.some.inj
    subst hprog
    refine Contract.wp_noRaise deliverSigusr2_noRaise (Contract.wp_mono
      (wp_keepsSetup deliverSigusr2_keepsSetup rfl) (fun _ t _ ht => ?_) fun _ _ h => h)
    exact ht.symm
  external _ _ _ hinv _ hx := by
    have hv := ForeignWrite.view_eq hx
    exact ⟨hv ▸ hinv, fun _ => congrArg View.setup hv.symm⟩

/-- **The callbacks are registered once** in every run in which no tracked query start finds the
flag cleared by a failed one. -/
theorem callbacks_registered_once (srv : Server D) {p : Pid}
    {c : Config Unit (State D) (Res (D := D))}
    (h : (backendSystem srv p).Reach (fun c e => registersOnce srv p c e) backendInit c) :
    (c.shared.backends p).xactCallbacks ≤ 1 ∧ (c.shared.backends p).exitCallbacks ≤ 1 := by
  have hinit : ((backendInit : Config Unit (State D) Res).shared.view p).setup.RegisteredOnce :=
    ⟨Nat.le_refl 0, Nat.zero_le 1⟩
  have hinv : (c.shared.view p).setup.RegisteredOnce :=
    (System.Reach.sound (callback_sound srv p) hinit (fun _ => trivial) (fun _ => rfl) h).1
  exact ⟨hinv.2, Nat.le_trans hinv.1 hinv.2⟩

end Runs

/-! ## 4. Two starts -/

set_option maxRecDepth 20000 in
/-- A query is started and ended, and another one is started. -/
theorem secondStart_registers_once : ∃ c : Config Unit (State ℚ) (Res (D := ℚ)),
    (backendSystem smallServer 1).Reach (fun c e => registersOnce smallServer 1 c e) backendInit c ∧
      (c.shared.backends 1).started = [20] ∧ (c.shared.backends 1).xactCallbacks ≤ 1 ∧
      (c.shared.backends 1).exitCallbacks ≤ 1 := by
  obtain ⟨c, hc, hf⟩ := System.exists_reach (backendSystem smallServer 1)
    (registersOnce smallServer 1) (fun _ _ h => h) backendInit
    (ownStartEnd 10 ++ [.call () (.executorStart 20)] ++ runs () 20)
    (fun c => (c.shared.backends 1).started = [20]) (by decide)
  exact ⟨c, hc, of_decide_eq_true hf, callbacks_registered_once smallServer hc⟩

/-- The start of a query fails in front of the first statement of the try block. -/
def failedStart (q : QueryDescPtr) : List (Event Unit (Call ℚ) (ForeignWrite ℚ) (Env ℚ)) :=
  [.call () (.executorStart q)] ++ runs () 8 ++ [.run () { raises := true }] ++ runs () 7

set_option maxRecDepth 20000 in
/-- The query that is started after a failed one registers both callbacks again. -/
theorem failedStart_registers_again :
    ¬ ∀ c : Config Unit (State ℚ) (Res (D := ℚ)),
      (backendSystem smallServer 1).Reach anyRun backendInit c →
        (c.shared.backends 1).xactCallbacks ≤ 1 ∧ (c.shared.backends 1).exitCallbacks ≤ 1 := by
  intro h
  obtain ⟨c, hc, hf⟩ := System.exists_reach (backendSystem smallServer 1) (fun _ _ => true)
    (fun _ _ _ => trivial) backendInit
    ([.call () (.fork true 0)] ++ runs () 1 ++ failedStart 10 ++ [.call () (.executorStart 20)] ++
      runs () 6)
    (fun c => (c.shared.backends 1).xactCallbacks = 2) (by decide)
  have htwo := of_decide_eq_true hf
  have hone := (h c hc).1
  omega

end WhatIsHappening
