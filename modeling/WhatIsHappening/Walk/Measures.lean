/-
# The two walks number nodes alike

The instrumentation walk is run on a slot that the topology walk has filled, with any
instrumentation.  It goes along the recorded list: it finds every record it looks at, and measures
in record `i` the plan node that was recorded there (`collect_follows_remember`).
-/
import WhatIsHappening.Walk.Topology

namespace WhatIsHappening

open Interleaving Prog

variable {D : Type} [CDouble D]

/-! ## 1. Measured records

`measuredEntries` is what the walk should leave: each record of the list has the numbers of its node
where the node is instrumented, and nothing else is changed. -/

/-- A record with the values computed from an instrumentation; a node without one keeps its
record. -/
def PwhNodeMetrics.measure (x : PwhNodeMetrics D) : Option (Instrumentation D) → PwhNodeMetrics D
  | none => x
  | some instr =>
    { x with
      execution :=
        { tuplesReturned := CDouble.add instr.ntuples instr.tuplecount
          loopsExecuted := CDouble.add instr.nloops
            (if instr.running then CDouble.ofNat 1 else CDouble.ofNat 0)
          startupTimeUs :=
            CDouble.mul (CDouble.add instr.startup instr.firsttuple) (CDouble.ofNat 1000000)
          totalTimeUs := CDouble.mul (CDouble.add instr.total instr.counter) (CDouble.ofNat 1000000)
          rowsFilteredByJoins := instr.nfiltered1
          rowsFilteredByExpressions := instr.nfiltered2 }
      bufferUsage :=
        { cacheHits := instr.bufusage.sharedBlksHit
          cacheMisses := instr.bufusage.sharedBlksRead
          localCacheHits := instr.bufusage.localBlksHit
          localCacheMisses := instr.bufusage.localBlksRead
          spillFileReads := instr.bufusage.tempBlksRead
          spillFileWrites := instr.bufusage.tempBlksWritten } }

/-- The fields of the visitor, all of them, are the measured record. -/
theorem setAll_instrumentationFields (x : PwhNodeMetrics D) (instr : Instrumentation D) :
    x.setAll (instrumentationFields instr) = x.measure (some instr) := by
  simp only [PwhNodeMetrics.setAll, instrumentationFields, List.foldl_cons, List.foldl_nil,
    PwhNodeMetrics.set, PwhNodeMetrics.measure]

/-- Measuring does not change which node a record is about. -/
theorem measure_get (x : PwhNodeMetrics D) (i : Option (Instrumentation D)) {f : NodeField}
    (hf : f.identifies = true) : (x.measure i).get f = x.get f := by
  cases i with
  | none => rfl
  | some instr => cases f <;> first | rfl | cases hf

/-- A table after the nodes `acc` were measured in slot `be`. -/
def measuredEntries (be : Nat) (instr : PlanStatePtr → Option (Instrumentation D)) (acc : Visited)
    (entries : Nat → PwhSharedMemoryBackendEntry D) : Nat → PwhSharedMemoryBackendEntry D :=
  Function.update entries be { entries be with
    metrics := fun id => (acc[id]?).elim ((entries be).metrics id) fun x =>
      ((entries be).metrics id).measure (instr x.1) }

section Entries

variable {be : Nat} {instr : PlanStatePtr → Option (Instrumentation D)}
  {entries : Nat → PwhSharedMemoryBackendEntry D}

/-- No record, nothing measured. -/
theorem measuredEntries_nil : measuredEntries be instr [] entries = entries := by
  rw [measuredEntries]
  exact Function.update_eq_self be entries

/-- Record `id` of the slot, measured or not. -/
theorem measuredEntries_metrics (acc : Visited) (id : Nat) :
    ((measuredEntries be instr acc entries) be).metrics id =
      (acc[id]?).elim ((entries be).metrics id) fun x =>
        ((entries be).metrics id).measure (instr x.1) := by
  rw [measuredEntries, Function.update_self]

/-- Measuring one more node. -/
theorem measuredEntries_concat {s : State D} {acc : Visited} (x : PlanStatePtr × Int)
    (hs : s.entries = measuredEntries be instr acc entries) :
    (s.setRecord be acc.length (((s.entries be).metrics acc.length).measure (instr x.1))).entries =
      measuredEntries be instr (acc ++ [x]) entries := by
  have hold : ((s.entries be).metrics acc.length) = (entries be).metrics acc.length := by
    rw [hs, measuredEntries_metrics, List.getElem?_eq_none (Nat.le_refl _)]
    rfl
  have hnodes := elim_concat acc x (entries be).metrics fun id x =>
    ((entries be).metrics id).measure (instr x.1)
  simp only [State.setRecord, State.modifyEntry]
  rw [hold, hs]
  simp only [measuredEntries, Function.update_self, Function.update_idem, hnodes]

/-- Measured records are about the nodes they were about. -/
theorem measuredEntries_get (acc : Visited) (id : Nat) {f : NodeField}
    (hf : f.identifies = true) :
    (((measuredEntries be instr acc entries) be).metrics id).get f =
      ((entries be).metrics id).get f := by
  rw [measuredEntries_metrics]
  cases acc[id]? with
  | none => rfl
  | some x => exact measure_get _ _ hf

end Entries

/-! ## 2. The instrumentation walk

The proof follows the recursion of the walk, with the recording walk beside it: as long as both make
the same calls, the counter is the number of records so far, and the magic of the next record is
valid. -/

/-- A walk that reads a magic finds it. -/
def MagicHolds (be : Nat) (o : Op D) (s : State D) : Prop :=
  ∀ j, o = .readNode be j .magic → ((s.entries be).metrics j).magic = PWH_NODE_MAGIC

section Walk

variable {srv : Server D} {p : Pid} {stackFrames be maxNodes : Nat}
  {instr : PlanStatePtr → Option (Instrumentation D)} {s : State D}
  {entries : Nat → PwhSharedMemoryBackendEntry D}

variable (srv p stackFrames instr s) in
omit [CDouble D] in
/-- Reading an instrumentation changes nothing. -/
theorem walkAlone_readInstrument (ps : PlanStatePtr) :
    ∃ t, walkAlone srv p stackFrames instr (.readInstrument ps) s = some (instr ps, t) ∧
      t.entries = s.entries := by
  refine ⟨_, rfl, ?_⟩
  cases hinstr : instr ps <;> simp [hinstr]

/-- The visitor below its limit, on a record with a magic. -/
theorem wp_measureVisitor {acc : Visited} {ps : PlanStatePtr} {parent : Int} (parent' : Int)
    (hlt : acc.length < maxNodes) (hs : s.entries = measuredEntries be instr acc entries)
    (hmagic : ((entries be).metrics acc.length).magic = PWH_NODE_MAGIC) {E : State D → Prop} :
    (walkContract srv p stackFrames instr (MagicHolds be)).wp false
      (instrumentationVisitor be maxNodes ps parent acc.length)
      (fun r t => r = ((acc.length : Int), acc.length + 1) ∧
        t.entries = measuredEntries be instr (acc ++ [(ps, parent')]) entries) E s := by
  have hfound : ((s.entries be).metrics acc.length).magic = PWH_NODE_MAGIC := by
    rw [hs]
    exact (measuredEntries_get (f := .magic) acc acc.length rfl).trans hmagic
  rw [instrumentationVisitor, if_neg (by omega), pwhValidateNodeMagic_bind]
  refine wp_walk_op rfl ?_ ?_
  · rintro j ⟨⟩
    exact hfound
  change (walkContract srv p stackFrames instr (MagicHolds be)).wp false
    (if decide (((s.entries be).metrics acc.length).magic = PWH_NODE_MAGIC) then _ else _) _ _ _
  rw [if_pos (decide_eq_true hfound)]
  refine wp_walk_op rfl (fun j h => by cases h) ?_
  obtain ⟨t, hread, ht⟩ := walkAlone_readInstrument srv p stackFrames instr s ps
  refine wp_walk_op hread (fun j h => by cases h) ?_
  rw [← ht] at hfound hs
  have hdone := measuredEntries_concat (ps, parent') hs
  cases hinstr : instr ps with
  | none =>
    rw [hinstr] at hdone
    refine Contract.seq_ret fun _ => ⟨rfl, ?_⟩
    rw [← hdone]
    exact congrArg State.entries (setRecord_self t).symm
  | some i =>
    rw [hinstr] at hdone
    refine Contract.wp_bind (Contract.wp_mono (wp_writeRecord (fun _ _ _ j h => by cases h)
      (instrumentationFields i) _) ?_ fun _ _ h => h)
    rintro _ _ - rfl
    refine Contract.seq_ret fun _ => ⟨rfl, ?_⟩
    rw [setAll_instrumentationFields]
    exact hdone

/-- Where a walk along the list `all` stands when an error stops it. -/
def StoppedAlong (be : Nat) (instr : PlanStatePtr → Option (Instrumentation D))
    (entries : Nat → PwhSharedMemoryBackendEntry D) (all : Visited) (t : State D) : Prop :=
  ∃ acc, acc <+: all ∧ t.entries = measuredEntries be instr acc entries

/-- The calls below a node, if each of them measures what it lists. -/
theorem wp_measureCalls {walk : Option PlanStatePtr → Nat → PgProg D (Bool × Nat)}
    {visit : Option PlanStatePtr → Visited → Option (Bool × Visited)} {all : Visited}
    {E : State D → Prop} (hext : ∀ call acc r, visit call acc = some r → Extends maxNodes acc r.2)
    (hwalk : ∀ call acc b acc₁ s, visit call acc = some (b, acc₁) → acc₁ <+: all →
      s.entries = measuredEntries be instr acc entries →
      (walkContract srv p stackFrames instr (MagicHolds be)).wp false (walk call acc.length)
        (fun r t => r = (b, acc₁.length) ∧ t.entries = measuredEntries be instr acc₁ entries) E s) :
    ∀ calls acc b acc₁ s, visitCalls visit calls acc = some (b, acc₁) → acc₁ <+: all →
      s.entries = measuredEntries be instr acc entries →
      (walkContract srv p stackFrames instr (MagicHolds be)).wp false
        (walkCalls walk calls acc.length)
        (fun r t => r = (b, acc₁.length) ∧ t.entries = measuredEntries be instr acc₁ entries)
        E s := by
  intro calls
  induction calls with
  | nil =>
    intro acc b acc₁ s hvisit _ hs
    cases hvisit
    exact Contract.seq_ret fun _ => ⟨rfl, hs⟩
  | cons call rest ih =>
    intro acc b acc₁ s hvisit hpre hs
    rw [visitCalls] at hvisit
    cases hcall : visit call acc with
    | none =>
      rw [hcall] at hvisit
      cases hvisit
    | some r =>
    obtain ⟨goOn, acc₂⟩ := r
    rw [hcall] at hvisit
    cases goOn
    · cases hvisit
      refine Contract.wp_bind (Contract.wp_mono (hwalk call acc _ _ s hcall hpre hs) ?_
        fun _ _ h => h)
      rintro _ t - ⟨rfl, ht⟩
      exact Contract.seq_ret fun _ => ⟨rfl, ht⟩
    · have hpre₂ : acc₂ <+: all := (visitCalls_extends hext _ _ _ hvisit).1.trans hpre
      refine Contract.wp_bind (Contract.wp_mono (hwalk call acc _ _ s hcall hpre₂ hs) ?_
        fun _ _ h => h)
      rintro _ t - ⟨rfl, ht⟩
      exact ih acc₂ b acc₁ t hvisit hpre ht

/-- **The instrumentation walk** goes along the walk that recorded the tree. -/
theorem wp_measureWalk {all : Visited} :
    ∀ frames frames' ptr parent parent' acc b acc₁ s,
      visits srv maxNodes frames' ptr parent' acc = some (b, acc₁) → acc₁ <+: all →
      (∀ i < all.length, ((entries be).metrics i).magic = PWH_NODE_MAGIC) →
      s.entries = measuredEntries be instr acc entries →
      (walkContract srv p stackFrames instr (MagicHolds be)).wp false
        (walkPlanstateRecursive srv (instrumentationVisitor be maxNodes) frames ptr parent
          acc.length)
        (fun r t => r = (b, acc₁.length) ∧ t.entries = measuredEntries be instr acc₁ entries)
        (fun t => frames < frames' ∧ StoppedAlong be instr entries all t) s := by
  intro frames
  induction frames with
  | zero =>
    intro frames' ptr parent parent' acc b acc₁ s hvisit hpre _ hs
    have hframes : 0 < frames' := by
      cases frames' with
      | zero => cases hvisit
      | succ frames' => exact Nat.succ_pos frames'
    refine Contract.seq_op nofun (fun _ j h => by cases h) fun _ _ t ht => ⟨trivial, ?_⟩
    cases ht
    exact Contract.seq_raise fun _ =>
      ⟨hframes, acc, (visits_extends _ _ _ _ _ hvisit).1.trans hpre, hs⟩
  | succ frames ih =>
    intro frames' ptr parent parent' acc b acc₁ s hvisit hpre hmagic hs
    cases frames' with
    | zero => cases hvisit
    | succ frames' =>
    cases ptr with
    | none =>
      cases hvisit
      exact Contract.seq_ret fun _ => ⟨rfl, hs⟩
    | some ps =>
    rw [visits] at hvisit
    rw [walkPlanstateRecursive]
    split at hvisit
    · cases hvisit
      rw [if_pos ‹_›]
      exact Contract.seq_ret fun _ => ⟨rfl, hs⟩
    rw [if_neg ‹_›]
    by_cases hfull : maxNodes ≤ acc.length
    · rw [if_pos hfull] at hvisit
      cases hvisit
      rw [instrumentationVisitor, if_pos hfull]
      exact Contract.seq_ret fun _ => ⟨rfl, hs⟩
    · rw [if_neg hfull] at hvisit
      have hext : ∀ call acc' r, visits srv maxNodes frames' call acc.length acc' = some r →
          Extends maxNodes acc' r.2 := fun call acc' r => visits_extends _ _ _ _ _
      have hbelow : acc ++ [(ps, parent')] <+: all :=
        (visitCalls_extends hext _ _ _ hvisit).1.trans hpre
      have hplace : acc.length < all.length := by
        have := hbelow.length_le
        rw [List.length_append, List.length_singleton] at this
        omega
      refine Contract.wp_bind (Contract.wp_mono (wp_measureVisitor parent' (by omega) hs
        (hmagic _ hplace)) ?_ fun _ _ h => h)
      rintro _ t - ⟨rfl, ht⟩
      have hpos : ¬ ((acc.length : Int) < 0) := by omega
      have hlength : acc.length + 1 = (acc ++ [(ps, parent')]).length := by simp
      change (walkContract srv p stackFrames instr (MagicHolds be)).wp false
        (if (acc.length : Int) < 0 then _ else _) _ _ _
      rw [if_neg hpos, hlength]
      refine Contract.wp_mono (wp_measureCalls (E := fun t => frames < frames' ∧
          StoppedAlong be instr entries all t) hext
        (fun call acc b acc₁ s h hpre' hs' => ih frames' call _ _ acc b acc₁ s h hpre' hmagic hs')
        _ _ _ _ _ hvisit hpre ht) (fun _ _ _ h => h) ?_
      rintro t - ⟨hlt, hstopped⟩
      exact ⟨Nat.succ_lt_succ hlt, hstopped⟩

variable (p stackFrames instr) in
/-- How `pwh_collect_planstate_metrics` ends on a slot that a walk has recorded. -/
theorem collect_outcome {frames' : Nat} {ps : PlanStatePtr} {b : Bool} {acc : Visited}
    (hvisit : visits srv maxNodes frames' (some ps) (-1) [] = some (b, acc))
    (hmagic : ∀ i < acc.length, ((s.entries be).metrics i).magic = PWH_NODE_MAGIC) :
    ∃ r t, (pwhCollectPlanstateMetrics srv (some ps) be maxNodes).outcome
        (walkAlone srv p stackFrames instr) s = some (r, t) ∧
      (frames' ≤ stackFrames → r = some ()) ∧
      (∀ x ∈ (pwhCollectPlanstateMetrics srv (some ps) be maxNodes).performed
        (walkAlone srv p stackFrames instr) s, MagicHolds be x.1 x.2) ∧
      (r = some () → t.entries = measuredEntries be instr acc s.entries) ∧
      StoppedAlong be instr s.entries acc t := by
  have hops : (pwhCollectPlanstateMetrics srv (some ps) be maxNodes).All
      (Op.OfWalk be) := pwhCollectPlanstateMetrics_all (some ps) be maxNodes
  have hwp : (walkContract srv p stackFrames instr (MagicHolds be)).wp false
      (pwhCollectPlanstateMetrics srv (some ps) be maxNodes)
      (fun _ t => t.entries = measuredEntries be instr acc s.entries)
      (fun t => stackFrames < frames' ∧ StoppedAlong be instr s.entries acc t) s := by
    refine wp_walk_op rfl (fun j h => by cases h) ?_
    refine wp_walk_op rfl (fun j h => by cases h) ?_
    refine Contract.wp_bind (Contract.wp_mono (wp_measureWalk stackFrames frames' (some ps) (-1)
      (-1) [] b acc s hvisit List.prefix_rfl hmagic measuredEntries_nil.symm) ?_ fun _ _ h => h)
    rintro _ t - ⟨rfl, ht⟩
    exact Contract.seq_ret fun _ => ht
  obtain ⟨⟨r, t⟩, houtcome⟩ := Option.ne_none_iff_exists'.mp
    (outcome_ne_none (hops.mono fun o h s => walkAlone_ne_none h s) s)
  obtain ⟨hret, hraise, hperformed⟩ := Contract.seq_outcome hwp
  refine ⟨r, t, houtcome, ?_, hperformed, ?_, ?_⟩
  · intro hle
    cases r with
    | none => exact absurd (hraise t houtcome).1 (Nat.not_lt.mpr hle)
    | some u => rfl
  · rintro rfl
    exact hret () t houtcome
  · cases r with
    | none => exact (hraise t houtcome).2
    | some u => exact ⟨acc, List.prefix_rfl, hret u t houtcome⟩

/-- **Both walks number nodes alike.**  On a slot that still has the records of a topology walk,
the instrumentation walk finds the magic of every record it looks at, measures in record `i` the
plan node that was recorded there, and leaves everything else alone; an error stops it in between,
and only where less stack is left than the topology walk had. -/
theorem collect_follows_remember {root : Option PlanStatePtr} {frames₁ frames₂ c : Nat}
    {instr₁ instr₂ : PlanStatePtr → Option (Instrumentation D)} {s₀ s₁ s₂ : State D}
    (hrem : (pwhRememberPlanstateTreeAsMetricStructure srv root be maxNodes).outcome
      (walkAlone srv p frames₁ instr₁) s₀ = some (some c, s₁))
    (hkept : ∀ i < c,
      ((s₂.entries be).metrics i).magic = ((s₁.entries be).metrics i).magic) :
    ∃ r t, (pwhCollectPlanstateMetrics srv root be maxNodes).outcome
        (walkAlone srv p frames₂ instr₂) s₂ = some (r, t) ∧
      (frames₁ ≤ frames₂ → r = some ()) ∧
      (∀ x ∈ (pwhCollectPlanstateMetrics srv root be maxNodes).performed
        (walkAlone srv p frames₂ instr₂) s₂, MagicHolds be x.1 x.2) ∧
      (∀ i < c, ∃ ps, s₁.recordedNode be i = some ps ∧
        ((t.entries be).metrics i = ((s₂.entries be).metrics i).measure (instr₂ ps) ∨
          r = none ∧ (t.entries be).metrics i = (s₂.entries be).metrics i)) ∧
      (∀ i f, f.identifies = true →
        ((t.entries be).metrics i).get f = ((s₂.entries be).metrics i).get f) ∧
      (∀ i, c ≤ i → (t.entries be).metrics i = (s₂.entries be).metrics i) ∧
      ∀ i, i ≠ be → t.entries i = s₂.entries i := by
  cases root with
  | none =>
    cases hrem
    have hnone : ∀ x ∈ (pwhCollectPlanstateMetrics srv none be maxNodes).performed
        (walkAlone srv p frames₂ instr₂) s₂, MagicHolds be x.1 x.2 :=
      fun x hx => absurd hx List.not_mem_nil
    exact ⟨some (), s₂, rfl, fun _ => rfl, hnone, fun i hi => absurd hi (Nat.not_lt_zero i),
      fun _ _ _ => rfl, fun _ _ => rfl, fun _ _ => rfl⟩
  | some ps =>
    obtain ⟨r, t, houtcome, -, hret⟩ := remember_outcome srv p frames₁ be maxNodes instr₁ s₀ ps
    rw [hrem] at houtcome
    cases houtcome
    obtain ⟨b, acc, hvisit, rfl, rfl⟩ := hret c rfl
    have hrecord : ∀ i (hi : i < acc.length),
        ((s₀.recordTree srv be acc).entries be).metrics i = topologyRecord srv i acc[i] ∧
          (s₀.recordTree srv be acc).recordedNode be i = some acc[i].1 := by
      intro i hi
      rw [recordTree_metrics, recordTree_recordedNode, List.getElem?_eq_getElem hi]
      exact ⟨rfl, rfl⟩
    have hmagic : ∀ i < acc.length, ((s₂.entries be).metrics i).magic = PWH_NODE_MAGIC := by
      intro i hi
      rw [hkept i hi, (hrecord i hi).1]
      rfl
    obtain ⟨r, t, houtcome, hret, hperformed, hdone, acc', hpre, ht⟩ :=
      collect_outcome p frames₂ instr₂ hvisit hmagic
    refine ⟨r, t, houtcome, hret, hperformed, ?_, ?_, ?_, ?_⟩
    · intro i hi
      refine ⟨acc[i].1, (hrecord i hi).2, ?_⟩
      cases r with
      | some u =>
        left
        rw [hdone rfl, measuredEntries_metrics, List.getElem?_eq_getElem hi]
        rfl
      | none =>
        rw [ht, measuredEntries_metrics]
        cases hi' : acc'[i]? with
        | none => exact .inr ⟨rfl, rfl⟩
        | some x =>
          left
          obtain ⟨hi'', rfl⟩ := List.getElem?_eq_some_iff.mp hi'
          rw [hpre.getElem hi'']
          rfl
    · intro i f hf
      rw [ht]
      exact measuredEntries_get acc' i hf
    · intro i hi
      rw [ht, measuredEntries_metrics, List.getElem?_eq_none (Nat.le_trans hpre.length_le hi)]
      rfl
    · intro i hi
      rw [ht, measuredEntries, Function.update_of_ne hi]

end Walk

/-- Seven rows of one loop. -/
def sevenRows : Instrumentation ℚ where
  running := false
  ntuples := 7
  tuplecount := 0
  nloops := 1
  startup := 0
  firsttuple := 0
  total := 2
  counter := 0
  nfiltered1 := 0
  nfiltered2 := 0
  bufusage := ⟨3, 0, 0, 0, 0, 0⟩

/-- A nested loop whose left scan alone has an instrumentation. -/
theorem nestLoop_collect_follows_remember :
    ∃ s₁ t, (pwhRememberPlanstateTreeAsMetricStructure (planServer .v14_ nestLoopPlan) (some 0) 0
        16).outcome (walkAlone (planServer .v14_ nestLoopPlan) 1 5 fun _ => none) State.init =
        some (some 3, s₁) ∧
      (pwhCollectPlanstateMetrics (planServer .v14_ nestLoopPlan) (some 0) 0 16).outcome
        (walkAlone (planServer .v14_ nestLoopPlan) 1 5 fun ps =>
          if ps = 1 then some sevenRows else none) s₁ = some (some (), t) ∧
      (t.entries 0).metrics 1 = ((s₁.entries 0).metrics 1).measure (some sevenRows) ∧
      (t.entries 0).metrics 2 = (s₁.entries 0).metrics 2 := by
  obtain ⟨s₁, hrem, hnode₁, hnode₂⟩ : ∃ s₁, (pwhRememberPlanstateTreeAsMetricStructure
      (planServer .v14_ nestLoopPlan) (some 0) 0 16).outcome
        (walkAlone (planServer .v14_ nestLoopPlan) 1 5 fun _ => none) State.init =
        some (some 3, s₁) ∧ s₁.recordedNode 0 1 = some 1 ∧ s₁.recordedNode 0 2 = some 2 :=
    ⟨_, rfl, rfl, rfl⟩
  obtain ⟨r, t, hcollect, hret, -, hmetrics, -⟩ := @collect_follows_remember ℚ _ _ _ _ _ _ _ 5 _
    _ (fun ps => if ps = 1 then some sevenRows else none) _ _ _ hrem fun _ _ => rfl
  obtain rfl := hret (Nat.le_refl 5)
  obtain ⟨ps₁, hps₁, hm₁ | ⟨h, -⟩⟩ := hmetrics 1 (by decide)
  swap
  · cases h
  obtain ⟨ps₂, hps₂, hm₂ | ⟨h, -⟩⟩ := hmetrics 2 (by decide)
  swap
  · cases h
  cases hnode₁.symm.trans hps₁
  cases hnode₂.symm.trans hps₂
  exact ⟨s₁, t, hrem, hcollect, hm₁, hm₂⟩

end WhatIsHappening
