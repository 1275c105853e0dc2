/-
# What each call leaves

`Idle` is what is known of a process between two calls.  Every call of a run that meets
`Watch.callOk` starts from an idle process and leaves one, whether it returns or raises an error.
-/
import WhatIsHappening.Backend.Release

namespace WhatIsHappening

open Interleaving Prog

variable {D : Type} [CDouble D] {W : Watch} {srv : Server D} {p : Pid} {v v' : View D}
  {E : View D → Prop} {q : QueryDescPtr}

/-! ## 1. The idle process

Between two calls a process has at most one slot, not the lock, and its slot shows the query it was
filled for (`View.Core`); what more is known depends on what the run is watched for (`Idle`).  Each
call of this module starts and ends there. -/

/-- The query passes the test of `min_cost_to_track`. -/
def Tracked (srv : Server D) (minCost : D) (q : QueryDescPtr) : Prop :=
  CDouble.gt minCost (srv.queryDesc q).totalCost = false

omit [CDouble D] in
/-- What is known of an idle process in any run. -/
structure View.Core (srv : Server D) (p : Pid) (v : View D) : Prop where
  slots : v.Slots srv
  lock : v.lock = {}
  ready : ∀ i, v.slot i ≠ none → v.wasInitialized = true ∧ v.isAlive = true
  callbacks : v.wasInitialized = true → 0 < v.xactCallbacks ∧ 0 < v.exitCallbacks
  notRecording : v.isRecording = false
  holds : v.NoSlot → v.current = none
  shows : ∀ i h, v.slot i = some h → ∃ q, v.tree i = some q ∧ Shows srv p q h (v.node i) ∧
    ∀ q', v.current = some q' → q' = q
  nodup : v.started.Nodup

/-- What is known of it in a run that is watched for errors: the tracked queries that are open are
the recorded ones, and the slot is one of theirs. -/
structure View.Visible (srv : Server D) (v : View D) : Prop where
  enabled : v.isAlive = true → v.isEnabled = true
  recorded : ∀ q ∈ v.recorded, q ∈ v.started ∧ Tracked srv v.minCostToTrack q
  tracked : ∀ q ∈ v.started, Tracked srv v.minCostToTrack q → q ∈ v.recorded
  owns : v.recorded ≠ [] → ¬ v.NoSlot
  tree : ∀ i, v.slot i ≠ none → ∃ q ∈ v.recorded, v.tree i = some q

/-- What holds between two calls. -/
structure Idle (W : Watch) (srv : Server D) (p : Pid) (v : View D) : Prop where
  core : v.Core srv p
  tidy : W.tidy = true → v.recorded = [] → v.NoSlot
  clean : W.clean = true → v.Visible srv

omit [CDouble D] in
/-- A slot of ours is one of the table. -/
theorem View.owns_of_slot (hS : v.Slots srv) {i : Nat} (h : v.slot i ≠ none) : v.Owns srv :=
  ⟨i, hS.lt i h, h⟩

omit [CDouble D] in
/-- There is one, or none. -/
theorem View.owns_or_noSlot (hS : v.Slots srv) : v.Owns srv ∨ v.NoSlot := by
  by_cases h : v.NoSlot
  · exact .inr h
  · obtain ⟨i, hi⟩ := not_forall.mp h
    exact .inl (View.owns_of_slot hS hi)

omit [CDouble D] in
/-- A process that gave its slot up. -/
theorem View.Core.noSlot (hnone : v.NoSlot) (hlock : v.lock = {})
    (hcb : v.wasInitialized = true → 0 < v.xactCallbacks ∧ 0 < v.exitCallbacks)
    (hrec : v.isRecording = false) (hcur : v.current = none) (hnodup : v.started.Nodup) :
    v.Core srv p where
  slots := ⟨fun i h => absurd (hnone i) h, fun i _ h => absurd (hnone i) h⟩
  lock := hlock
  ready i h := absurd (hnone i) h
  callbacks := hcb
  notRecording := hrec
  holds _ := hcur
  shows i _ hi := absurd ((hnone i).symm.trans hi) nofun
  nodup := hnodup

omit [CDouble D] in
/-- What the executor keeps is no concern of the slots. -/
theorem View.Core.setStarted (hC : v.Core srv p) {started recorded : List QueryDescPtr}
    (h : started.Nodup) : View.Core srv p { v with started := started, recorded := recorded } :=
  ⟨⟨hC.slots.lt, hC.slots.unique⟩, hC.lock, hC.ready, hC.callbacks, hC.notRecording, hC.holds,
    hC.shows, h⟩

omit [CDouble D] in
/-- What a cleanup without the slot leaves. -/
theorem View.Core.forget (hC : v.Core srv p) : v.forget.Core srv p where
  slots := ⟨hC.slots.lt, hC.slots.unique⟩
  lock := hC.lock
  ready := hC.ready
  callbacks := hC.callbacks
  notRecording := rfl
  holds _ := rfl
  shows i h hi := by
    obtain ⟨q, htree, hshows, -⟩ := hC.shows i h hi
    exact ⟨q, htree, hshows, nofun⟩
  nodup := hC.nodup

omit [CDouble D] in
/-- ...and with it. -/
theorem View.Core.dropSlots (hC : v.Core srv p) : v.dropSlots.forget.Core srv p :=
  .noSlot (fun _ => rfl) hC.lock hC.callbacks rfl rfl hC.nodup

omit [CDouble D] in
/-- A process that has just filled its slot. -/
theorem View.Core.track (hC : v.Core srv p) {be : Nat} {h : Header}
    {node : Nat → Option PlanStatePtr} (honly : v.OnlySlot srv be) (hinit : v.wasInitialized = true)
    (halive : v.isAlive = true) (hshows : Shows srv p q h node) :
    (v.track be h q node).Core srv p := by
  have hslot : ∀ i, (v.track be h q node).slot i ≠ none → i = be := fun i hi => by
    by_contra hne
    exact hi (by simpa [View.track, View.fill, hne] using honly.2 i hne)
  refine ⟨⟨fun i hi => hslot i hi ▸ honly.1, fun i j hi hj => (hslot i hi).trans (hslot j hj).symm⟩,
    hC.lock, fun _ _ => ⟨hinit, halive⟩, hC.callbacks, rfl, fun hno => ?_, fun i hd hi => ?_,
    hC.nodup⟩
  · exact absurd (hno be) (by simp [View.track, View.fill])
  · obtain rfl := hslot i (by simp [hi])
    have hhd : h = hd := by simpa [View.track, View.fill] using hi
    subst hhd
    refine ⟨q, by simp [View.track, View.fill], by simpa [View.track, View.fill] using hshows, ?_⟩
    rintro q' ⟨⟩
    rfl

/-! ## 2. The condition on calls

A call is admitted under one condition for each thing that a run may be watched for; where nothing
is watched every call is admitted. -/

/-- What a run grants when a call is made. -/
def Watch.callOk (W : Watch) (srv : Server D) (v : View D) : Call D → Prop
  | .fork enabled _ => W.clean = true → enabled = true
  | .executorStart _ => True
  | .executorEnd q =>
    (W.live = true → v.current = some q → v.isEnabled = true) ∧
    (W.tidy = true → v.isEnabled = false → v.Owns srv → v.recorded.filter (· ≠ q) ≠ []) ∧
    (W.numbers = true → v.isEnabled = true → ∀ i < srv.gucs.maxTrackedQueries, v.slot i ≠ none →
      (srv.queryDesc q).planstate = none ∨ ∃ q', v.tree i = some q' ∧
        (srv.queryDesc q').planstate = (srv.queryDesc q).planstate) ∧
    (W.clean = true → v.recorded.filter (· ≠ q) = [])
  | .abort event =>
    (W.live = true → pwhIsAbortEvent event = false → v.current = none) ∧
    (W.tidy = true → v.Owns srv → v.isEnabled = true ∧ pwhIsAbortEvent event = true) ∧
    W.clean = false
  | .abortSub qs =>
    (W.live = true → ∀ q, v.current = some q → q ∉ qs) ∧
    (W.tidy = true → v.Owns srv → v.recorded.filter (· ∉ qs) ≠ []) ∧ W.clean = false
  | _ => W.clean = false

/-! ## 3. The start of a query

The try block may be left by an error at any point; the exit callback of its catch block clears the
slot whatever it shows then. -/

section Start

/-- The process once it has called `standard_ExecutorStart` and initialized itself. -/
structure View.Prepared (W : Watch) (srv : Server D) (p : Pid) (q : QueryDescPtr) (v : View D) :
    Prop where
  core : v.Core srv p
  tidy : W.tidy = true → v.recorded = [] → v.NoSlot
  initialized : v.wasInitialized = true
  alive : v.isAlive = true
  started : q ∈ v.started
  clean : W.clean = true → v.isEnabled = true ∧
    (∀ q' ∈ v.recorded, q' ∈ v.started ∧ Tracked srv v.minCostToTrack q') ∧
    Tracked srv v.minCostToTrack q ∧
    ∀ q' ∈ v.started, Tracked srv v.minCostToTrack q' → q' = q ∨ q' ∈ v.recorded

/-- Behind the hook of a start, however it went. -/
theorem Idle.of_tried (h : v.Prepared W srv p q) (ht : v.Tried W srv p q v') :
    Idle W srv p v' := by
  rcases ht with ⟨hnone, hclean, rfl⟩ | ⟨be, hd, node, honly, hshows, rfl⟩
  · exact ⟨h.core, fun _ _ => hnone, fun hc => absurd (hc.symm.trans hclean) (by simp)⟩
  refine ⟨h.core.track honly h.initialized h.alive hshows,
    fun _ h => by simp [View.track] at h, fun hc => ?_⟩
  obtain ⟨henabled, hrec, hq, htracked⟩ := h.clean hc
  have hslot : (v.track be hd q node).slot be = some hd := by simp [View.track, View.fill]
  refine ⟨fun _ => henabled, fun q' hq' => ?_, fun q' hs ht => ?_, fun _ hno => ?_, fun i hi => ?_⟩
  · rcases List.mem_cons.mp hq' with rfl | hq'
    · exact ⟨h.started, hq⟩
    · exact hrec q' hq'
  · exact List.mem_cons.mpr (htracked q' hs ht)
  · exact absurd ((hno be).symm.trans hslot) (by simp)
  · refine ⟨q, by simp [View.track], ?_⟩
    by_cases hib : i = be
    · subst hib
      simp [View.track, View.fill]
    · exact absurd (honly.2 i hib) (by simpa [View.track, View.fill, hib] using hi)

/-- After an error in the try block the slot is given up. -/
theorem wp_queryStartCatch (hp : p ≠ 0) (h : v.Prepared W srv p q) (hf : v.Failed W srv p v') :
    (viewContract W srv p).wp false (queryStartCatch srv p) (fun _ => Idle W srv p) E v' := by
  obtain ⟨be, honly, hclean, hd, tree, node, b, l, hl, rfl⟩ := hf
  have hslots : ((v.fill be hd tree node b).withLock l).forget.Slots srv := by
    have hslot : ∀ i, (v.fill be hd tree node b).slot i ≠ none → i = be := fun i hi => by
      by_contra hne
      exact hi (by simpa [View.fill, hne] using honly.2 i hne)
    exact ⟨fun i hi => hslot i hi ▸ honly.1, fun i j hi hj => (hslot i hi).trans (hslot j hj).symm⟩
  refine wp_view_op (by simp) (fun _ => trivial) fun _ _ _ hd _ _ => ⟨.forget, ?_⟩
  refine Contract.wp_mono (wp_backendExitCallback hp hslots) ?_ fun _ _ h => h
  rintro _ _ - rfl
  refine ⟨.noSlot (fun _ => rfl) rfl (by simp) rfl rfl h.core.nodup, fun _ _ _ => rfl,
    fun hc => ?_⟩
  exact absurd (hc.symm.trans hclean) (by simp)

/-- The process with its callbacks registered. -/
def View.prepare (xact exit : Nat) (v : View D) : View D :=
  { v with wasInitialized := true, xactCallbacks := xact, exitCallbacks := exit }

omit [CDouble D] in
/-- `initialize_state_once_per_backend`, if it has not run yet. -/
theorem wp_prepare (hC : v.Core srv p) :
    (viewContract W srv p).wp false (pgWhen (!v.wasInitialized) initializeStateOncePerBackend)
      (fun _ v' => ∃ xact exit, v' = View.prepare xact exit v ∧ 0 < xact ∧ 0 < exit) E v := by
  cases hinit : v.wasInitialized
  · refine wp_view_op nofun (fun _ => trivial) fun hi _ _ _ _ _ =>
      ⟨⟨hi.live, hi.numbers, hi.shown⟩, ?_⟩
    refine wp_view_op nofun (fun _ => trivial) fun hi _ _ _ _ _ =>
      ⟨⟨hi.live, hi.numbers, hi.shown⟩, ?_⟩
    refine wp_view_read nofun (fun _ => rfl) (fun _ => trivial) fun _ _ _ _ => ?_
    refine wp_view_op nofun (fun _ => trivial) fun hi _ _ _ _ _ =>
      ⟨⟨hi.live, hi.numbers, hi.shown⟩, ?_⟩
    exact Contract.seq_ret fun _ =>
      ⟨v.xactCallbacks + 1, v.exitCallbacks + 1, rfl, Nat.succ_pos _, Nat.succ_pos _⟩
  · refine Contract.seq_ret fun _ => ⟨v.xactCallbacks, v.exitCallbacks, ?_, hC.callbacks hinit⟩
    rw [View.prepare, ← hinit]

/-- **The start hook** keeps an idle process idle. -/
theorem wp_queryStartHook (hp : p ≠ 0) (h : Idle W srv p v) (halive : v.isAlive = true)
    (hq : q ∉ v.started) :
    (viewContract W srv p).wp false (queryStartHook srv p q) (fun _ => Idle W srv p) E v := by
  refine wp_view_op nofun (fun _ => trivial) fun hi _ _ hd _ _ => ?_
  have hafter : v.after p hd (.standardExecutorStart q) = { v with started := q :: v.started } :=
    rfl
  rw [hafter]
  have hnodup : (q :: v.started).Nodup := List.nodup_cons.mpr ⟨hq, h.core.nodup⟩
  refine ⟨⟨fun hl q' hq' => List.mem_cons_of_mem _ (hi.live hl q' hq'), hi.numbers, hi.shown⟩, ?_⟩
  refine wp_view_read nofun (fun _ => rfl) (fun _ => trivial) fun enabled _ _ henabled => ?_
  have henabled : enabled = v.isEnabled := henabled
  -- a query that is not tracked leaves the process as it was
  have huntracked : (W.clean = true → ¬ Tracked srv v.minCostToTrack q) →
      Idle W srv p { v with started := q :: v.started } := fun hno => by
    refine ⟨h.core.setStarted hnodup, h.tidy, fun hc => ?_⟩
    obtain ⟨hen, hrec, htracked, howns, htree⟩ := h.clean hc
    refine ⟨hen, fun q' hq' => ⟨List.mem_cons_of_mem _ (hrec q' hq').1, (hrec q' hq').2⟩,
      fun q' hs ht => ?_, howns, htree⟩
    rcases List.mem_cons.mp hs with rfl | hs
    · exact absurd ht (hno hc)
    · exact htracked q' hs ht
  split
  swap
  · rename_i hdisabled
    refine Contract.seq_ret fun _ => huntracked fun hc => ?_
    exact absurd (henabled.trans ((h.clean hc).enabled halive)) hdisabled
  refine wp_view_read nofun (fun _ => rfl) (fun _ => trivial) fun minCost _ _ hmin => ?_
  have hmin : minCost = v.minCostToTrack := hmin
  subst hmin
  split
  · rename_i hgt
    refine Contract.seq_ret fun _ => huntracked fun _ ht => ?_
    exact absurd (hgt.symm.trans ht) nofun
  rename_i hgt
  refine wp_view_read nofun (fun _ => rfl) (fun _ => trivial) fun initialized _ _ hinit => ?_
  have hinit : initialized = v.wasInitialized := hinit
  subst hinit
  refine Contract.wp_bind (Contract.wp_mono (wp_prepare (h.core.setStarted hnodup)) ?_
    fun _ _ h => h)
  rintro _ _ hi' ⟨xact, exit, rfl, hxact, hexit⟩
  have hprep : View.Prepared W srv p q
      (View.prepare xact exit { v with started := q :: v.started }) := by
    refine ⟨⟨⟨h.core.slots.lt, h.core.slots.unique⟩, h.core.lock, fun i hi => ⟨rfl, halive⟩,
      fun _ => ⟨hxact, hexit⟩, h.core.notRecording, h.core.holds, h.core.shows, hnodup⟩, h.tidy,
      rfl, halive, List.mem_cons_self, fun hc => ?_⟩
    obtain ⟨hen, hrec, htracked, -, -⟩ := h.clean hc
    refine ⟨hen halive, fun q' hq' => ⟨List.mem_cons_of_mem _ (hrec q' hq').1, (hrec q' hq').2⟩,
      eq_false_of_ne_true hgt, fun q' hs ht => ?_⟩
    exact (List.mem_cons.mp hs).imp_right fun hs => htracked q' hs ht
  refine wp_view_tryCatch (F := View.Failed W srv p _) (fun m hm => ?_)
    fun t _ ht => wp_queryStartCatch hp hprep ht
  exact Contract.wp_mono (wp_queryStartTry hm hprep.core.lock hp hprep.core.slots hprep.core.holds
    fun _ => List.mem_cons_self) (fun _ _ _ ht => Idle.of_tried hprep ht) fun _ _ h => h

end Start

/-! ## 4. The end of a query

The end hook gives the slot up and then forgets the query.  An error on the way comes before or
behind the release, and its catch block forgets the query only; the executor's own end is last. -/

section End

/-- The process once `standard_ExecutorEnd` has closed `q`. -/
def View.close (q : QueryDescPtr) (v : View D) : View D :=
  { v with started := v.started.erase q, recorded := v.recorded.filter (· ≠ q) }

omit [CDouble D] in
/-- The executor's end takes the query from those that are started. -/
theorem wp_standardExecutorEnd {Q : Unit → View D → Prop}
    (hlive : W.Inv srv p v → W.live = true → ∀ q', v.current = some q' → q' ∈ v.started.erase q)
    (hQ : Q () (v.close q)) :
    (viewContract W srv p).wp false (act (.standardExecutorEnd q)) Q E v :=
  wp_view_op nofun (fun _ => trivial) fun hi _ _ _ _ _ =>
    ⟨⟨hlive hi, hi.numbers, hi.shown⟩, Contract.seq_ret fun _ => hQ⟩

/-- A process that gave up its slot at the end of a query. -/
theorem Idle.dropped (h : Idle W srv p v)
    (hclean : W.clean = true → v.recorded.filter (· ≠ q) = []) :
    Idle W srv p (v.dropSlots.forget.close q) := by
  refine ⟨h.core.dropSlots.setStarted (h.core.nodup.erase q), fun _ _ _ => rfl, fun hc => ?_⟩
  obtain ⟨hen, hrec, htracked, -, -⟩ := h.clean hc
  have hnil : (v.dropSlots.forget.close q).recorded = [] := hclean hc
  refine ⟨hen, fun q' hq' => ?_, fun q' hs ht => ?_, fun hne => absurd hnil hne,
    fun i hi => absurd rfl hi⟩
  · rw [hnil] at hq'
    cases hq'
  · obtain ⟨hne, hs⟩ := (h.core.nodup.mem_erase_iff).mp hs
    have hmem := htracked q' hs ht
    have : q' ∈ v.recorded.filter (· ≠ q) := List.mem_filter.mpr ⟨hmem, by simpa using hne⟩
    rw [hclean hc] at this
    cases this

/-- Behind a failed end hook, before and behind the executor's end. -/
theorem Idle.endFailed (h : Idle W srv p v) (hf : v.EndFailed W srv q v') :
    Idle W srv p v' ∧ Idle W srv p (v'.close q) := by
  obtain ⟨hclean, hv⟩ := hf
  have hnot : ∀ {P : Prop}, W.clean = true → P := fun hc => absurd (hc.symm.trans hclean) nofun
  rcases hv with rfl | ⟨rfl, htidy⟩
  · exact ⟨⟨h.core.dropSlots, fun _ _ _ => rfl, fun hc => hnot hc⟩, h.dropped fun hc => hnot hc⟩
  · refine ⟨⟨h.core.forget, h.tidy, fun hc => hnot hc⟩, h.core.forget.setStarted
      (h.core.nodup.erase q), fun ht hnil => ?_, fun hc => hnot hc⟩
    rcases View.owns_or_noSlot h.core.slots with howns | hno
    · exact absurd hnil (htidy ht howns)
    · exact hno

/-- Where the final metrics of `q` would be written, its tree was recorded. -/
theorem Idle.measures (h : Idle W srv p v) (hok : W.callOk srv v (.executorEnd q))
    (henabled : v.isEnabled = true) : v.Measures W srv q := by
  intro hn i ps hslot hps
  obtain ⟨hd, hhd⟩ := Option.ne_none_iff_exists'.mp hslot
  obtain ⟨q₁, htree₁, hshows, -⟩ := h.core.shows i hd hhd
  rcases hok.2.2.1 hn henabled i (h.core.slots.lt i hslot) hslot with hnone | ⟨q', htree, hplan⟩
  · exact absurd (hps.symm.trans hnone) nofun
  · obtain rfl : q₁ = q' := Option.some.inj (htree₁.symm.trans htree)
    obtain ⟨acc, hlist, -, hrec⟩ := hshows.nodes
    exact ⟨q₁, htree, hplan.trans hps, acc, hd.ident, hlist, hrec⟩

/-- **The end hook** keeps an idle process idle. -/
theorem wp_queryEndHook (hp : p ≠ 0) (h : Idle W srv p v) (halive : v.isAlive = true)
    (hok : W.callOk srv v (.executorEnd q)) :
    (viewContract W srv p).wp false (queryEndHook srv p q) (fun _ => Idle W srv p)
      (Idle W srv p) v := by
  obtain ⟨hlive, htidy, -, hclean⟩ := id hok
  refine wp_view_read nofun (fun _ => rfl) (fun _ => trivial) fun enabled _ _ henabled => ?_
  have henabled : enabled = v.isEnabled := henabled
  refine wp_view_read nofun (fun _ => rfl) (fun _ => trivial) fun initialized _ _ hinit => ?_
  have hinit : initialized = v.wasInitialized := hinit
  subst henabled hinit
  by_cases hboth : (v.isEnabled && v.wasInitialized) = true
  · have hen : v.isEnabled = true := (Bool.and_eq_true_iff.mp hboth).1
    simp only [hboth, pgWhen, if_true]
    refine Contract.wp_bind (Contract.wp_mono (wp_view_tryCatch
      (Q := fun _ v' => v' = v.dropSlots.forget ∨ v.EndFailed W srv q v')
      (F := v.Ending W p) (E := v.EndFailed W srv q)
      (fun m hm => ?_) fun t _ ht => ?_) ?_ fun t _ ht => (h.endFailed ht).1)
    · exact Contract.wp_mono (wp_queryEndTry hm hp h.core.slots h.core.lock (h.measures hok hen)
        fun hno => ⟨h.core.holds hno, h.core.notRecording⟩) (fun _ _ _ => .inl) fun _ _ h => h
    · exact Contract.wp_mono (wp_queryEndCatch h.core.lock ht) (fun _ _ _ => .inr) fun _ _ h => h
    · rintro _ v' - (rfl | hf)
      · exact wp_standardExecutorEnd (fun _ _ _ hq => nomatch hq) (h.dropped hclean)
      · refine wp_standardExecutorEnd (fun _ _ q' hq => ?_) (h.endFailed hf).2
        obtain ⟨-, rfl | ⟨rfl, -⟩⟩ := hf <;> cases hq
  · simp only [hboth, pgWhen]
    have hcase : v.isEnabled = false ∨ v.NoSlot := by
      by_contra hne
      obtain ⟨hen, hno⟩ := not_or.mp hne
      obtain ⟨i, hi⟩ := not_forall.mp hno
      exact hboth (by simp [eq_true_of_ne_false hen, (h.core.ready i hi).1])
    refine wp_standardExecutorEnd (fun hi hl q' hq' => ?_) ?_
    · refine (h.core.nodup.mem_erase_iff).mpr ⟨?_, hi.live hl q' hq'⟩
      rintro rfl
      rcases hcase with hdis | hno
      · exact absurd ((hlive hl hq').symm.trans hdis) nofun
      · exact absurd ((h.core.holds hno).symm.trans hq') nofun
    · refine ⟨h.core.setStarted (h.core.nodup.erase q), fun ht hnil => ?_, fun hc => ?_⟩
      · rcases View.owns_or_noSlot h.core.slots with howns | hno
        · rcases hcase with hdis | hno
          · exact absurd hnil (htidy ht hdis howns)
          · exact hno
        · exact hno
      · obtain ⟨hen, hrec, htracked, howns, htree⟩ := h.clean hc
        have hno : v.NoSlot := hcase.resolve_left (by simp [hen halive])
        have hnil : v.recorded = [] := by
          by_contra hne
          exact howns hne hno
        refine ⟨hen, fun q' hq' => ?_, fun q' hs ht => ?_, fun hne => ?_, fun i hi => ?_⟩
        · simp [View.close, hnil] at hq'
        · have := htracked q' (List.mem_of_mem_erase hs) ht
          simp [hnil] at this
        · exact absurd (by simp [View.close, hnil]) hne
        · exact absurd (hno i) hi

end End

/-! ## 5. The end of a transaction and of the process

The callbacks are called as often as they are registered; once would do. -/

section Transactions

variable {event : XactEvent} (hp : p ≠ 0)

/-- The process once every query is discarded. -/
def View.discardAll (v : View D) : View D := { v with started := [], recorded := [] }

omit [CDouble D] in
/-- `LWLockReleaseAll` where nothing is held. -/
theorem withLock_releaseAll (hlock : v.lock = {}) : v.withLock (v.lock.releaseAll p) = v := by
  have : v.lock.releaseAll p = v.lock := by rw [hlock]; rfl
  rw [this, View.withLock_self]

omit [CDouble D] in
include hp in
/-- The abort of a transaction, with or without a callback. -/
theorem wp_abortTransaction (hS : v.Slots srv) (hlock : v.lock = {})
    (hcur : W.live = true →
      (if v.xactCallbacks = 0 then v else v.cleanup event).current = none) :
    (viewContract W srv p).wp false (abortTransaction srv p event)
      (fun _ v' => v' = (if v.xactCallbacks = 0 then v else v.cleanup event).discardAll) E v := by
  refine wp_view_read nofun (fun _ => withLock_releaseAll hlock) (fun _ => trivial)
    fun _ _ _ _ => ?_
  refine wp_view_read nofun (fun _ => rfl) (fun _ => trivial) fun n _ _ hn => ?_
  have hn : n = v.xactCallbacks := hn
  subst hn
  refine Contract.wp_bind (Contract.wp_mono (wp_callXactCallbacks hp event v.xactCallbacks v hS
    hlock) ?_ fun _ _ h => h)
  rintro _ _ - rfl
  refine wp_view_op nofun (fun _ => trivial) fun hi _ _ _ _ _ => ?_
  exact ⟨⟨fun hl q hq => absurd ((hcur hl).symm.trans hq) nofun, hi.numbers, hi.shown⟩,
    Contract.seq_ret fun _ => rfl⟩

omit [CDouble D] in
/-- Without a registered callback there is no slot, and no current query. -/
theorem View.Core.noSlot_of_callbacks (hC : v.Core srv p) (h : v.xactCallbacks = 0) :
    v.NoSlot := by
  intro i
  by_contra hi
  have := (hC.callbacks (hC.ready i hi).1).1
  omega

/-- **An abort** keeps an idle process idle. -/
theorem wp_abort (hp : p ≠ 0) (h : Idle W srv p v) (hok : W.callOk srv v (.abort event)) :
    (viewContract W srv p).wp false (abortTransaction srv p event) (fun _ => Idle W srv p) E v := by
  obtain ⟨hlive, htidy, hclean⟩ := hok
  refine Contract.wp_mono (wp_abortTransaction hp h.core.slots h.core.lock fun hl => ?_) ?_
    fun _ _ h => h
  · split
    · rename_i hx
      exact h.core.holds (h.core.noSlot_of_callbacks hx)
    · unfold View.cleanup
      split
      · split <;> rfl
      · rename_i he
        exact hlive hl (by simpa using he)
  rintro _ _ - rfl
  have hdiscard : ∀ w : View D, w.Core srv p → (W.tidy = true → w.NoSlot) →
      Idle W srv p w.discardAll := fun w hw hno =>
    ⟨hw.setStarted List.nodup_nil, fun ht _ => hno ht,
      fun hc => absurd (hc.symm.trans hclean) nofun⟩
  have hno_or : W.tidy = true → v.NoSlot ∨ v.isEnabled = true ∧ pwhIsAbortEvent event = true :=
    fun ht => (View.owns_or_noSlot h.core.slots).symm.imp_right (htidy ht)
  split
  · rename_i hx
    exact hdiscard v h.core fun _ => h.core.noSlot_of_callbacks hx
  · unfold View.cleanup
    split
    · split
      · exact hdiscard _ h.core.dropSlots fun _ _ => rfl
      · rename_i hen
        refine hdiscard _ h.core.forget fun ht => ?_
        rcases hno_or ht with hno | ⟨hen', -⟩
        · exact hno
        · exact absurd hen' hen
    · rename_i he
      refine hdiscard v h.core fun ht => ?_
      rcases hno_or ht with hno | ⟨-, he'⟩
      · exact hno
      · exact absurd he' he

/-- A commit changes nothing: the callback does nothing at it. -/
theorem wp_commit (hp : p ≠ 0) (h : Idle W srv p v) :
    (viewContract W srv p).wp false (commitTransaction srv p) (fun _ => Idle W srv p) E v := by
  refine wp_view_read nofun (fun _ => rfl) (fun _ => trivial) fun n _ _ _ => ?_
  refine Contract.wp_mono (wp_callXactCallbacks hp .XACT_EVENT_COMMIT n v h.core.slots h.core.lock)
    ?_ fun _ _ h => h
  rintro _ _ - rfl
  have hsame : v.cleanup .XACT_EVENT_COMMIT = v := by simp [View.cleanup, pwhIsAbortEvent]
  simpa [hsame] using h

/-- The abort of a subtransaction ends its queries without a hook. -/
theorem wp_abortSub {qs : List QueryDescPtr} (h : Idle W srv p v)
    (hok : W.callOk srv v (.abortSub qs)) :
    (viewContract W srv p).wp false (abortSubTransaction qs) (fun _ => Idle W srv p) E v := by
  obtain ⟨hlive, htidy, hclean⟩ := hok
  refine wp_view_read nofun (fun _ => withLock_releaseAll h.core.lock) (fun _ => trivial)
    fun _ _ _ _ => ?_
  refine wp_view_op nofun (fun _ => trivial) fun hi _ _ _ _ _ => ?_
  refine ⟨⟨fun hl q hq => ?_, hi.numbers, hi.shown⟩, Contract.seq_ret fun _ => ?_⟩
  · exact List.mem_filter.mpr ⟨hi.live hl q hq, by simpa using hlive hl q hq⟩
  · refine ⟨h.core.setStarted (h.core.nodup.filter _), fun ht hnil => ?_,
      fun hc => absurd (hc.symm.trans hclean) nofun⟩
    rcases View.owns_or_noSlot h.core.slots with howns | hno
    · exact absurd hnil (htidy ht howns)
    · exact hno

omit [CDouble D] in
include hp in
/-- The exit callbacks, one after the other. -/
theorem wp_callExitCallbacks :
    ∀ (n : Nat) (v : View D), v.Slots srv → v.lock = {} →
      (viewContract W srv p).wp false (callExitCallbacks srv p n)
        (fun _ v' => v' = if n = 0 then v else { v.dropSlots with wasInitialized := false }) E v
  | 0, v, _, _ => Contract.seq_ret fun _ => rfl
  | n + 1, v, hS, hlock => by
    refine Contract.wp_bind (Contract.wp_mono (wp_backendExitCallback hp hS) ?_ fun _ _ h => h)
    rintro _ _ - rfl
    refine Contract.wp_mono (wp_callExitCallbacks n _
      ⟨fun i h => absurd rfl h, fun i _ h => absurd rfl h⟩ rfl) ?_ fun _ _ h => h
    rintro _ _ - rfl
    simp [View.dropSlots, hlock]

/-- **The end of the process** leaves no slot behind. -/
theorem wp_procExit (hp : p ≠ 0) (h : Idle W srv p v) (hclean : W.clean = false) :
    (viewContract W srv p).wp false (procExit srv p) (fun _ => Idle W srv p) E v := by
  refine wp_view_read nofun (fun _ => rfl) (fun _ => trivial) fun n _ _ hn => ?_
  have hn : n = v.exitCallbacks := hn
  subst hn
  refine Contract.wp_bind (Contract.wp_mono (wp_callExitCallbacks hp _ v h.core.slots h.core.lock)
    ?_ fun _ _ h => h)
  rintro _ w - hw
  have hslot : w.NoSlot ∧ w.wasInitialized = false := by
    rw [hw]
    split
    · rename_i hx
      have hinit : v.wasInitialized = false := by
        by_contra hne
        have := (h.core.callbacks (eq_true_of_ne_false hne)).2
        omega
      refine ⟨fun i => ?_, hinit⟩
      by_contra hi
      exact absurd ((h.core.ready i hi).1.symm.trans hinit) nofun
    · exact ⟨fun _ => rfl, rfl⟩
  have hsame : w.xactCallbacks = v.xactCallbacks ∧ w.current = v.current ∧ w.lock = {} ∧
      w.isRecording = false := by
    rw [hw]
    split <;> exact ⟨rfl, rfl, h.core.lock, h.core.notRecording⟩
  obtain ⟨hxact, hcur, hlock, hrec⟩ := hsame
  refine wp_view_op nofun (fun _ => trivial) fun hi _ _ _ _ _ =>
    ⟨⟨hi.live, hi.numbers, hi.shown⟩, ?_⟩
  change (viewContract W srv p).wp false (_ >>= _) _ E { w with exitCallbacks := 0 }
  obtain ⟨u, hu⟩ : ∃ u : View D, u = { w with exitCallbacks := 0 } := ⟨_, rfl⟩
  rw [← hu]
  have hu' : u.NoSlot ∧ u.wasInitialized = false ∧ u.lock = {} ∧ u.isRecording = false := by
    rw [hu]
    exact ⟨hslot.1, hslot.2, hlock, hrec⟩
  have hforget : u.xactCallbacks = 0 → u.current = none := fun hx => by
    have hx : v.xactCallbacks = 0 := by rwa [hu, hxact] at hx
    rw [hu]
    exact hcur.trans (h.core.holds (h.core.noSlot_of_callbacks hx))
  have hend : (if u.xactCallbacks = 0 then u else u.cleanup .XACT_EVENT_ABORT).current = none ∧
      (if u.xactCallbacks = 0 then u else u.cleanup .XACT_EVENT_ABORT).NoSlot ∧
      (if u.xactCallbacks = 0 then u else u.cleanup .XACT_EVENT_ABORT).wasInitialized = false ∧
      (if u.xactCallbacks = 0 then u else u.cleanup .XACT_EVENT_ABORT).lock = {} ∧
      (if u.xactCallbacks = 0 then u else u.cleanup .XACT_EVENT_ABORT).isRecording = false := by
    obtain ⟨hno, hinit, hl, hr⟩ := hu'
    split
    · rename_i hx
      exact ⟨hforget hx, hno, hinit, hl, hr⟩
    · unfold View.cleanup
      rw [if_pos (by decide)]
      split
      · exact ⟨rfl, fun _ => rfl, hinit, hl, rfl⟩
      · exact ⟨rfl, hno, hinit, hl, rfl⟩
  refine Contract.wp_bind (Contract.wp_mono (wp_abortTransaction hp
    ⟨fun i hi => absurd (hu'.1 i) hi, fun i _ hi => absurd (hu'.1 i) hi⟩ hu'.2.2.1
    fun _ => hend.1) ?_ fun _ _ h => h)
  rintro _ _ - rfl
  obtain ⟨hcur', hno', hinit', hlock', hrec'⟩ := hend
  refine wp_view_op nofun (fun _ => trivial) fun hi _ _ _ _ _ =>
    ⟨⟨hi.live, hi.numbers, hi.shown⟩, ?_⟩
  refine Contract.seq_ret fun _ => ⟨.noSlot hno' ?_ (fun hw => absurd (hw.symm.trans hinit') nofun)
    hrec' hcur' List.nodup_nil, fun _ _ => hno', fun hc => absurd (hc.symm.trans hclean) nofun⟩
  change LWLock.releaseAll _ p = {}
  rw [show View.lock (View.discardAll _) = {} from hlock']
  rfl

end Transactions

end WhatIsHappening
