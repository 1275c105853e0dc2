/-
# The share of the query's time

Both readers divide the time of a node by the sum of the times of all nodes.  PostgreSQL counts the
time of a node's children into its own, so the sum counts the time of a node once for itself and
once for each node above it.  `divides_by_query_time_iff` says when it is the time of the query,
that of the root, nevertheless.
-/
import Mathlib.Algebra.Order.BigOperators.Group.Finset
import WhatIsHappening.Exposition.Columns
import WhatIsHappening.Walk.Measures

namespace WhatIsHappening

open Interleaving Prog

variable {srv : Server ℚ} {p : Pid} {be : Nat}

/-! ## 1. Inclusive times -/

/-- `total_time_us` of a node, as the walk of the instrumentation computes it. -/
def timeUs : Option (Instrumentation ℚ) → ℚ
  | none => 0
  | some instr => (instr.total + instr.counter) * 1000000

/-- The times of the recorded nodes are none negative, and that of a node includes those of its
children. -/
structure InclusiveTimes (srv : Server ℚ) (acc : Visited)
    (instr : PlanStatePtr → Option (Instrumentation ℚ)) : Prop where
  nonneg : ∀ x ∈ acc, 0 ≤ timeUs (instr x.1)
  includes : ∀ x ∈ acc, ∀ y ∈ acc, some y.1 ∈ childCalls (srv.planState x.1) →
    timeUs (instr y.1) ≤ timeUs (instr x.1)

/-- A slot in which the nodes `acc` are recorded and measured. -/
structure MeasuredPlan (srv : Server ℚ) (acc : Visited)
    (instr : PlanStatePtr → Option (Instrumentation ℚ)) (e : PwhSharedMemoryBackendEntry ℚ) :
    Prop where
  count : e.countOfMetrics.toNat = acc.length
  records : ∀ j x, acc[j]? = some x → e.metrics j = (topologyRecord srv j x).measure (instr x.1)

theorem MeasuredPlan.time {acc : Visited} {instr : PlanStatePtr → Option (Instrumentation ℚ)}
    {e : PwhSharedMemoryBackendEntry ℚ} (h : MeasuredPlan srv acc instr e) {j : Nat}
    {x : PlanStatePtr × Int} (hx : acc[j]? = some x) :
    (e.metrics j).execution.totalTimeUs = timeUs (instr x.1) := by
  rw [h.records j x hx]
  cases instr x.1 <;> rfl

/-- **The two walks leave such a slot**, when both come to their end. -/
theorem walks_leave_measuredPlan {n frames₁ frames₂ c : Nat} {root : PlanStatePtr}
    {instr₁ instr : PlanStatePtr → Option (Instrumentation ℚ)} {s₀ s₁ s₂ t : State ℚ}
    (hheight : HeightLe srv n (some root))
    (hrem : (pwhRememberPlanstateTreeAsMetricStructure srv (some root) be
      srv.gucs.maxNodesPerQuery).outcome (walkAlone srv p frames₁ instr₁) s₀ = some (some c, s₁))
    (hkept : (s₂.entries be).metrics = (s₁.entries be).metrics)
    (hcount : (s₂.entries be).countOfMetrics = UInt32.ofNat c)
    (hcol : (pwhCollectPlanstateMetrics srv (some root) be srv.gucs.maxNodesPerQuery).outcome
      (walkAlone srv p frames₂ instr) s₂ = some (some (), t)) :
    MeasuredPlan srv ((preorder srv n (some root) (-1) 0).take srv.gucs.maxNodesPerQuery) instr
      (t.entries be) := by
  obtain ⟨r, t', houtcome, -, hret⟩ := remember_outcome srv p frames₁ be
    srv.gucs.maxNodesPerQuery instr₁ s₀ root
  rw [hrem] at houtcome
  cases houtcome
  obtain ⟨b, acc, hvisit, rfl, rfl⟩ := hret c rfl
  have hacc : acc = (preorder srv n (some root) (-1) 0).take srv.gucs.maxNodesPerQuery :=
    visits_root hheight hvisit
  rw [← hacc]
  have hrecord : ∀ j x, acc[j]? = some x → (s₂.entries be).metrics j = topologyRecord srv j x := by
    intro j x hx
    rw [hkept, recordTree_metrics, hx]
    rfl
  have hmagic : ∀ i < acc.length, ((s₂.entries be).metrics i).magic = PWH_NODE_MAGIC := by
    intro i hi
    rw [hrecord i _ (List.getElem?_eq_getElem hi)]
    rfl
  obtain ⟨r, u, hrun, -, -, hdone, -⟩ := collect_outcome p frames₂ instr hvisit hmagic
  rw [hcol] at hrun
  cases hrun
  have ht := hdone rfl
  constructor
  · have hmax : acc.length ≤ 256 :=
      Nat.le_trans (visits_length_le hvisit) srv.gucs.maxNodesPerQuery_le
    rw [ht, measuredEntries, Function.update_self, hcount, UInt32.toNat_ofNat']
    exact Nat.mod_eq_of_lt (by omega)
  · intro j x hx
    rw [ht, measuredEntries_metrics, hx, hrecord j x hx]
    rfl

/-! ## 2. The sum -/

theorem totalQueryTime_eq (e : PwhSharedMemoryBackendEntry ℚ) :
    e.totalQueryTime =
      ∑ j ∈ Finset.range e.countOfMetrics.toNat, (e.metrics j).execution.totalTimeUs := by
  unfold PwhSharedMemoryBackendEntry.totalQueryTime
  generalize e.countOfMetrics.toNat = n
  induction n with
  | zero => rfl
  | succ n ih =>
    rw [List.range_succ, List.foldl_append, ih, Finset.sum_range_succ]
    rfl

/-- The sum over a plan whose times are none negative is the time of the root exactly where the
other nodes took none. -/
theorem MeasuredPlan.total_eq_root_iff {acc : Visited}
    {instr : PlanStatePtr → Option (Instrumentation ℚ)} {e : PwhSharedMemoryBackendEntry ℚ}
    (h : MeasuredPlan srv acc instr e) (hne : acc ≠ [])
    (hnonneg : ∀ x ∈ acc, 0 ≤ timeUs (instr x.1)) :
    e.totalQueryTime = (e.metrics 0).execution.totalTimeUs ↔
      ∀ j x, 0 < j → acc[j]? = some x → timeUs (instr x.1) = 0 := by
  obtain ⟨m, hm⟩ : ∃ m, acc.length = m + 1 :=
    Nat.exists_eq_succ_of_ne_zero (List.length_eq_zero_iff.not.mpr hne)
  have hlater : ∀ j ∈ Finset.range m, 0 ≤ (e.metrics (j + 1)).execution.totalTimeUs := by
    intro j hj
    have hlt : j + 1 < acc.length := by
      rw [hm]
      exact Nat.succ_lt_succ (Finset.mem_range.mp hj)
    rw [h.time (List.getElem?_eq_getElem hlt)]
    exact hnonneg _ (List.getElem_mem hlt)
  rw [totalQueryTime_eq, h.count, hm, Finset.sum_range_succ', add_eq_right,
    Finset.sum_eq_zero_iff_of_nonneg hlater]
  constructor
  · intro hall j x hj hx
    obtain ⟨i, rfl⟩ := Nat.exists_eq_succ_of_ne_zero hj.ne'
    have hlt := (List.getElem?_eq_some_iff.mp hx).1
    rw [← h.time hx]
    exact hall i (Finset.mem_range.mpr (by omega))
  · intro hall j hj
    have hlt : j + 1 < acc.length := by
      rw [hm]
      exact Nat.succ_lt_succ (Finset.mem_range.mp hj)
    rw [h.time (List.getElem?_eq_getElem hlt)]
    exact hall (j + 1) _ (Nat.succ_pos j) (List.getElem?_eq_getElem hlt)

/-- What every reader divides by is the time of the root, and a node that took all of it gets 100
percent, in the view and at the endpoint. -/
structure DividesByQueryTime (srv : Server ℚ) (p : Pid)
    (entries : Nat → PwhSharedMemoryBackendEntry ℚ) (be : Nat) : Prop where
  total : Yields (alone srv p) (Holding entries) (sumTotalQueryTime be)
    ((entries be).metrics 0).execution.totalTimeUs
  full : ∀ j, 0 < ((entries be).metrics 0).execution.totalTimeUs →
    ((entries be).metrics j).execution.totalTimeUs =
      ((entries be).metrics 0).execution.totalTimeUs →
    ((entries be).statusRow srv j).timePercent = 100 ∧
      (entries be).metricValue j .timePercent = .double 100

theorem dividesByQueryTime_iff_total {entries : Nat → PwhSharedMemoryBackendEntry ℚ} :
    DividesByQueryTime srv p entries be ↔
      (entries be).totalQueryTime = ((entries be).metrics 0).execution.totalTimeUs := by
  have hyields : Yields (alone srv p) (Holding entries) (sumTotalQueryTime be)
      (entries be).totalQueryTime := sumTotalQueryTime_yields be
  constructor
  · intro h
    have hstart : Holding entries { (State.init : State ℚ) with entries := entries } := ⟨rfl, rfl⟩
    obtain ⟨t, ht, -⟩ := hyields _ hstart
    obtain ⟨t', ht', -⟩ := h.total _ hstart
    rw [ht] at ht'
    exact (Prod.mk.inj (Option.some.inj ht')).1
  · intro h
    refine ⟨h ▸ hyields, fun j hpos hall => ?_⟩
    have hshare : ((entries be).timeShares j).2 = 100 := by
      have hgt : CDouble.gt (entries be).totalQueryTime (CDouble.ofNat 0) = true := by
        rw [h]
        exact decide_eq_true (by exact_mod_cast hpos)
      rw [PwhSharedMemoryBackendEntry.timeShares]
      dsimp only
      rw [if_pos hgt, hall, h]
      show ((entries be).metrics 0).execution.totalTimeUs /
        ((entries be).metrics 0).execution.totalTimeUs * ((100 : ℕ) : ℚ) = 100
      rw [div_self hpos.ne', one_mul]
      rfl
    exact ⟨hshare, congrArg MetricValue.double hshare⟩

/-! ## 3. When it is the time of the query -/

section Plan

variable {n : Nat} {root : PlanStatePtr} {maxNodes : Nat}
  {instr : PlanStatePtr → Option (Instrumentation ℚ)}

/-- A recorded node but the root has its parent before it. -/
theorem recorded_parent {j : Nat} {x : PlanStatePtr × Int} (hj : 0 < j)
    (hx : ((preorder srv n (some root) (-1) 0).take maxNodes)[j]? = some x) :
    ∃ i y, i < j ∧ x.2 = (i : Int) ∧
      ((preorder srv n (some root) (-1) 0).take maxNodes)[i]? = some y ∧
      some x.1 ∈ childCalls (srv.planState y.1) := by
  rw [List.getElem?_take] at hx
  split at hx
  · rename_i hlt
    rcases preorder_parent hx with ⟨hzero, -⟩ | ⟨i, y, hi, hparent, hy, hchild⟩
    · omega
    · refine ⟨i, y, hi, by rw [hparent, Nat.zero_add], ?_, hchild⟩
      rw [List.getElem?_take, if_pos (by omega), hy]
  · cases hx

/-- Where the children of the root took no time, no other node did. -/
theorem no_time_below {acc : Visited}
    (hacc : acc = (preorder srv n (some root) (-1) 0).take maxNodes)
    (hincl : InclusiveTimes srv acc instr) (hzero : ∀ x ∈ acc, x.2 = 0 → timeUs (instr x.1) = 0) :
    ∀ j x, 0 < j → acc[j]? = some x → timeUs (instr x.1) = 0 := by
  intro j
  induction j using Nat.strong_induction_on with
  | _ j ih =>
    intro x hj hx
    have hmem : x ∈ acc := List.mem_of_getElem? hx
    obtain ⟨i, y, hi, hparent, hy, hchild⟩ := recorded_parent hj (hacc ▸ hx)
    rw [← hacc] at hy
    rcases Nat.eq_zero_or_pos i with rfl | hpos
    · exact hzero x hmem hparent
    · have hbelow := hincl.includes y (List.mem_of_getElem? hy) x hmem hchild
      rw [ih i hi y hpos hy] at hbelow
      exact le_antisymm hbelow (hincl.nonneg x hmem)

/-- **The shares are shares of the query's time** exactly where the recorded children of the root
took no time at all. -/
theorem divides_by_query_time_iff {frames₁ frames₂ c : Nat}
    {instr₁ : PlanStatePtr → Option (Instrumentation ℚ)} {s₀ s₁ s₂ t : State ℚ}
    (hheight : HeightLe srv n (some root)) (hplan : (srv.planState root).plan ≠ none)
    (hrem : (pwhRememberPlanstateTreeAsMetricStructure srv (some root) be
      srv.gucs.maxNodesPerQuery).outcome (walkAlone srv p frames₁ instr₁) s₀ = some (some c, s₁))
    (hkept : (s₂.entries be).metrics = (s₁.entries be).metrics)
    (hcount : (s₂.entries be).countOfMetrics = UInt32.ofNat c)
    (hcol : (pwhCollectPlanstateMetrics srv (some root) be srv.gucs.maxNodesPerQuery).outcome
      (walkAlone srv p frames₂ instr) s₂ = some (some (), t))
    (hincl : InclusiveTimes srv
      ((preorder srv n (some root) (-1) 0).take srv.gucs.maxNodesPerQuery) instr) :
    DividesByQueryTime srv p t.entries be ↔
      ∀ x ∈ (preorder srv n (some root) (-1) 0).take srv.gucs.maxNodesPerQuery,
        x.2 = 0 → timeUs (instr x.1) = 0 := by
  have hmeasured := walks_leave_measuredPlan hheight hrem hkept hcount hcol
  generalize hacc : (preorder srv n (some root) (-1) 0).take srv.gucs.maxNodesPerQuery = acc at *
  have hroot : acc[0]? = some (root, -1) := by
    have hpos : 0 < srv.gucs.maxNodesPerQuery :=
      Nat.lt_of_lt_of_le (by decide) srv.gucs.maxNodesPerQuery_range.1
    cases n with
    | zero => exact hheight.elim
    | succ n =>
      rw [← hacc, List.getElem?_take, if_pos hpos, preorder, if_neg hplan]
      rfl
  have hne : acc ≠ [] := List.ne_nil_of_mem (List.mem_of_getElem? hroot)
  rw [dividesByQueryTime_iff_total, hmeasured.total_eq_root_iff hne hincl.nonneg]
  constructor
  · intro hall x hx hparent
    obtain ⟨j, hj⟩ := List.getElem?_of_mem hx
    rcases Nat.eq_zero_or_pos j with rfl | hpos
    · rw [hroot] at hj
      cases hj
      cases hparent
    · exact hall j x hpos hj
  · exact no_time_below hacc.symm hincl

end Plan

/-! ## 4. A nested loop -/

/-- Both walks of a nested loop run to their ends. -/
theorem nestLoop_walks (instr : PlanStatePtr → Option (Instrumentation ℚ)) : ∃ s₁ s₂ t : State ℚ,
    (pwhRememberPlanstateTreeAsMetricStructure (planServer .v14_ nestLoopPlan) (some 0) 0
      128).outcome (walkAlone (planServer .v14_ nestLoopPlan) 1 5 fun _ => none)
      State.init = some (some 3, s₁) ∧
    (s₂.entries 0).metrics = (s₁.entries 0).metrics ∧
    (s₂.entries 0).countOfMetrics = UInt32.ofNat 3 ∧
    (pwhCollectPlanstateMetrics (planServer .v14_ nestLoopPlan) (some 0) 0 128).outcome
      (walkAlone (planServer .v14_ nestLoopPlan) 1 5 instr) s₂ = some (some (), t) := by
  obtain ⟨s₁, hrem⟩ : ∃ s₁ : State ℚ, (pwhRememberPlanstateTreeAsMetricStructure
      (planServer .v14_ nestLoopPlan) (some 0) 0 128).outcome
        (walkAlone (planServer .v14_ nestLoopPlan) 1 5 fun _ => none) State.init =
        some (some 3, s₁) := ⟨_, rfl⟩
  let e : PwhSharedMemoryBackendEntry ℚ := { s₁.entries 0 with countOfMetrics := UInt32.ofNat 3 }
  obtain ⟨r, t, hcollect, hret, -⟩ := @collect_follows_remember ℚ _ _ _ _ _ _ _ 5 _ _ instr _ _
    { s₁ with entries := Function.update s₁.entries 0 e } hrem fun _ _ => rfl
  obtain rfl := hret (Nat.le_refl 5)
  exact ⟨s₁, { s₁ with entries := Function.update s₁.entries 0 e }, t, hrem, rfl, rfl, hcollect⟩

/-- A nested loop over two scans that took no time. -/
theorem idleScans_divide : ∃ s₂ t : State ℚ,
    (pwhCollectPlanstateMetrics (planServer .v14_ nestLoopPlan) (some 0) 0 128).outcome
      (walkAlone (planServer .v14_ nestLoopPlan) 1 5 fun ps =>
        if ps = 0 then some sevenRows else none) s₂ = some (some (), t) ∧
    DividesByQueryTime (planServer .v14_ nestLoopPlan) 1 t.entries 0 := by
  obtain ⟨s₁, s₂, t, hrem, hkept, hcount, hcol⟩ :=
    nestLoop_walks fun ps => if ps = 0 then some sevenRows else none
  have hheight : HeightLe (planServer .v14_ nestLoopPlan) 2 (some 0) := by decide
  refine ⟨s₂, t, hcol, ?_⟩
  refine (divides_by_query_time_iff hheight (by decide) hrem hkept hcount hcol ⟨?_, ?_⟩).mpr ?_
  all_goals decide +kernel

/-- A nested loop whose left scan took all of its time. -/
theorem busyScan_takes_half : ¬ ∀ (instr : PlanStatePtr → Option (Instrumentation ℚ))
    (s₁ s₂ t : State ℚ),
    (pwhRememberPlanstateTreeAsMetricStructure (planServer .v14_ nestLoopPlan) (some 0) 0
      128).outcome (walkAlone (planServer .v14_ nestLoopPlan) 1 5 fun _ => none)
      State.init = some (some 3, s₁) →
    (s₂.entries 0).metrics = (s₁.entries 0).metrics →
    (s₂.entries 0).countOfMetrics = UInt32.ofNat 3 →
    (pwhCollectPlanstateMetrics (planServer .v14_ nestLoopPlan) (some 0) 0 128).outcome
      (walkAlone (planServer .v14_ nestLoopPlan) 1 5 instr) s₂ = some (some (), t) →
    InclusiveTimes (planServer .v14_ nestLoopPlan)
      ((preorder (planServer .v14_ nestLoopPlan) 2 (some 0) (-1) 0).take 128) instr →
    DividesByQueryTime (planServer .v14_ nestLoopPlan) 1 t.entries 0 := by
  intro hall
  let busy : PlanStatePtr → Option (Instrumentation ℚ) := fun ps =>
    if ps = 2 then none else some sevenRows
  obtain ⟨s₁, s₂, t, hrem, hkept, hcount, hcol⟩ := nestLoop_walks busy
  have hheight : HeightLe (planServer .v14_ nestLoopPlan) 2 (some 0) := by decide
  have hmeasured := walks_leave_measuredPlan hheight hrem hkept hcount hcol
  have hincl : InclusiveTimes (planServer .v14_ nestLoopPlan)
      ((preorder (planServer .v14_ nestLoopPlan) 2 (some 0) (-1) 0).take 128) busy := by
    constructor
    all_goals decide +kernel
  have htotal := dividesByQueryTime_iff_total.mp (hall busy s₁ s₂ t hrem hkept hcount hcol hincl)
  rw [totalQueryTime_eq, hmeasured.count] at htotal
  have hsum : (∑ j ∈ Finset.range 3, ((t.entries 0).metrics j).execution.totalTimeUs) =
      4000000 := by
    rw [Finset.sum_range_succ, Finset.sum_range_succ, Finset.sum_range_one,
      hmeasured.time (j := 0) rfl, hmeasured.time (j := 1) rfl, hmeasured.time (j := 2) rfl]
    decide +kernel
  rw [hmeasured.time (j := 0) rfl] at htotal
  exact absurd (hsum.symm.trans htotal) (by decide +kernel)

end WhatIsHappening
