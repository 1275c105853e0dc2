/-
# Which plan nodes get an id

The children of a plan state are those of PostgreSQL's own planstate walker
(`planstateChildren`); `walk_planstate_recursive` follows some of them, and the plan of a CTE.
`every_node_has_id_iff` says for which plans every node with a plan gets an id all the same.
-/
import WhatIsHappening.Walk.Topology
import Mathlib.Data.List.Perm.Subperm
import Mathlib.Logic.Relation

namespace WhatIsHappening

open Interleaving Prog Relation

variable {D : Type}

/-! ## 1. The children of a plan state -/

/-- The member plans of a node, as PostgreSQL's planstate walker takes them from its kind. -/
def memberPlans (version : PgVersion) : PlanStateKind → List (Option PlanStatePtr)
  | .appendState plans => plans
  | .mergeAppendState plans => plans
  | .bitmapAndState plans => plans
  | .bitmapOrState plans => plans
  | .subqueryScanState plan => [plan]
  | .customScanState plans => plans
  | .modifyTableState plans => if version = .v14_ then [] else plans
  | _ => []

/-- The children of a plan state, as PostgreSQL's planstate walker takes them. -/
def planstateChildren (version : PgVersion) (ps : PlanState) : List (Option PlanStatePtr) :=
  ps.initPlan ++ [ps.lefttree, ps.righttree] ++ memberPlans version ps.kind ++ ps.subPlan

/-- The children `walk_planstate_recursive` does not follow. -/
def childrenLeftOut (version : PgVersion) (ps : PlanState) : List (Option PlanStatePtr) :=
  if ps.plan = none then planstateChildren version ps
  else ps.initPlan ++
    match ps.kind with
    | .customScanState plans => plans
    | .modifyTableState plans => if version = .v14_ then [] else plans
    | _ => []

theorem childrenLeftOut_subset (version : PgVersion) (ps : PlanState) :
    childrenLeftOut version ps ⊆ planstateChildren version ps := by
  intro call h
  rw [childrenLeftOut] at h
  split at h
  · exact h
  · simp only [planstateChildren, memberPlans, List.mem_append] at h ⊢
    rcases h with h | h
    · exact .inl (.inl (.inl h))
    · cases hkind : ps.kind <;> simp_all

theorem some_mem_nonNull {call : Option PlanStatePtr} {x : PlanStatePtr} :
    some x ∈ nonNull call ↔ call = some x := by
  cases call <;> simp [nonNull, eq_comm]

/-- Every other child is followed. -/
theorem childCalls_or_leftOut {version : PgVersion} {ps : PlanState} {child : PlanStatePtr}
    (hplan : ps.plan ≠ none) (h : some child ∈ planstateChildren version ps) :
    some child ∈ childCalls ps ∨ some child ∈ childrenLeftOut version ps := by
  simp only [planstateChildren, List.mem_append, List.mem_cons, List.not_mem_nil, or_false] at h
  simp only [childrenLeftOut, if_neg hplan, childCalls, List.mem_append, some_mem_nonNull]
  rcases h with ((h | h | h) | h) | h
  · exact .inr (.inl h)
  · exact .inl (.inl (.inl (.inl h.symm)))
  · exact .inl (.inl (.inl (.inr h.symm)))
  · cases hkind : ps.kind with
    | subqueryScanState subplan =>
      rw [hkind] at h
      exact .inl (.inr (some_mem_nonNull.mpr (List.mem_singleton.mp h).symm))
    | _ => simp_all [memberPlans]
  · exact .inl (.inl (.inr h))

/-! ## 2. The nodes of a plan and the nodes that are walked -/

/-- `y` is a child of `x` in the plan tree. -/
def IsChild (srv : Server D) (x y : PlanStatePtr) : Prop :=
  some y ∈ planstateChildren srv.version (srv.planState x)

/-- The walk goes on from `x` to `y`. -/
def IsWalkedChild (srv : Server D) (x y : PlanStatePtr) : Prop :=
  (srv.planState x).plan ≠ none ∧ some y ∈ childCalls (srv.planState x) ∧
    (srv.planState y).plan ≠ none

/-- The plan states of the tree below `root`. -/
def InTree (srv : Server D) (root x : PlanStatePtr) : Prop := ReflTransGen (IsChild srv) root x

/-- The plan states the walk comes to from `root` when nothing limits it. -/
def IsWalked (srv : Server D) (root x : PlanStatePtr) : Prop :=
  (srv.planState root).plan ≠ none ∧ ReflTransGen (IsWalkedChild srv) root x

theorem IsWalked.plan {srv : Server D} {root x : PlanStatePtr} (h : IsWalked srv root x) :
    (srv.planState x).plan ≠ none := by
  rcases ReflTransGen.cases_tail h.2 with rfl | ⟨y, -, hstep⟩
  · exact h.1
  · exact hstep.2.2

theorem mem_preorderCalls {walk : Option PlanStatePtr → Nat → Visited} {x : PlanStatePtr}
    {calls : List (Option PlanStatePtr)} :
    ∀ {pos : Nat}, x ∈ (preorderCalls walk calls pos).map Prod.fst →
      ∃ call ∈ calls, ∃ pos', x ∈ (walk call pos').map Prod.fst := by
  induction calls with
  | nil =>
    intro pos h
    cases h
  | cons call rest ih =>
    intro pos h
    rw [preorderCalls, List.map_append, List.mem_append] at h
    rcases h with h | h
    · exact ⟨call, List.mem_cons_self, pos, h⟩
    · obtain ⟨call', hmem, h⟩ := ih h
      exact ⟨call', List.mem_cons_of_mem _ hmem, h⟩

theorem mem_preorderCalls_of_mem {walk : Option PlanStatePtr → Nat → Visited} {x : PlanStatePtr}
    {call : Option PlanStatePtr} (hwalk : ∀ pos, x ∈ (walk call pos).map Prod.fst)
    {calls : List (Option PlanStatePtr)} (h : call ∈ calls) :
    ∀ pos, x ∈ (preorderCalls walk calls pos).map Prod.fst := by
  induction calls with
  | nil => cases h
  | cons call' rest ih =>
    intro pos
    rw [preorderCalls, List.map_append, List.mem_append]
    rcases List.mem_cons.mp h with rfl | h
    · exact .inl (hwalk pos)
    · exact .inr (ih h _)

/-- **The preorder list has the nodes that are walked**, wherever it starts. -/
theorem mem_preorder_iff {srv : Server D} :
    ∀ {n : Nat} {ps x : PlanStatePtr}, HeightLe srv n (some ps) → ∀ parent pos,
      (x ∈ (preorder srv n (some ps) parent pos).map Prod.fst ↔ IsWalked srv ps x) := by
  intro n
  induction n with
  | zero => exact fun h => h.elim
  | succ n ih =>
    intro ps x hheight parent pos
    by_cases hplan : (srv.planState ps).plan = none
    · rw [preorder, if_pos hplan]
      exact ⟨by simp, fun h => absurd hplan h.1⟩
    rw [preorder, if_neg hplan, List.map_cons, List.mem_cons]
    constructor
    · rintro (rfl | h)
      · exact ⟨hplan, .refl⟩
      · obtain ⟨call, hmem, pos', h⟩ := mem_preorderCalls h
        cases call with
        | none => cases n <;> cases h
        | some child =>
          obtain ⟨hchild, hwalked⟩ := (ih (hheight hplan _ hmem) _ _).mp h
          exact ⟨hplan, .head ⟨hplan, hmem, hchild⟩ hwalked⟩
    · rintro ⟨-, hwalked⟩
      rcases ReflTransGen.cases_head hwalked with rfl | ⟨child, hstep, hwalked⟩
      · exact .inl rfl
      · refine .inr (mem_preorderCalls_of_mem (fun pos' => ?_) hstep.2.1 _)
        exact (ih (hheight hplan _ hstep.2.1) _ _).mpr ⟨hstep.2.2, hwalked⟩

/-! ## 3. Ids -/

section Ids

variable [CDouble D] {srv : Server D} {p : Pid} {stackFrames be maxNodes c : Nat}
  {instr : PlanStatePtr → Option (Instrumentation D)} {s t : State D}

/-- One of the first `c` records of slot `be` was made for the plan state `x`. -/
def HasId (srv : Server D) (be c : Nat) (t : State D) (x : PlanStatePtr) : Prop :=
  ∃ i parent, i < c ∧ t.recordedNode be i = some x ∧
    (t.entries be).metrics i = topologyRecord srv i (x, parent)

/-- The plan states with an id are those among the first `max_nodes` of the preorder list. -/
theorem hasId_iff {n : Nat} {root x : PlanStatePtr} (hheight : HeightLe srv n (some root))
    (hrem : (pwhRememberPlanstateTreeAsMetricStructure srv (some root) be maxNodes).outcome
      (walkAlone srv p stackFrames instr) s = some (some c, t)) :
    HasId srv be c t x ↔ ∃ i parent, i < maxNodes ∧
      (preorder srv n (some root) (-1) 0)[i]? = some (x, parent) := by
  obtain ⟨rfl, rfl⟩ := remember_take hheight hrem
  constructor
  · rintro ⟨i, parent, hi, hptr, -⟩
    rw [recordTree_recordedNode, List.getElem?_eq_getElem hi] at hptr
    rw [List.length_take] at hi
    refine ⟨i, (preorder srv n (some root) (-1) 0)[i].2, by omega, ?_⟩
    rw [List.getElem?_eq_getElem (by omega), ← Option.some.inj hptr, List.getElem_take]
  · rintro ⟨i, parent, hlt, hmem⟩
    have hi : ((preorder srv n (some root) (-1) 0).take maxNodes)[i]? = some (x, parent) := by
      rw [List.getElem?_take, if_pos hlt, hmem]
    refine ⟨i, parent, (List.getElem?_eq_some_iff.mp hi).1, ?_, ?_⟩
    · rw [recordTree_recordedNode, hi]
      rfl
    · rw [recordTree_metrics, hi]
      rfl

/-- The walk comes to every child that it does not follow by another way, through the plan of a
CTE. -/
def ReachesLeftOut (srv : Server D) (root : PlanStatePtr) : Prop :=
  ∀ x y, InTree srv root x → (srv.planState x).plan = none ∨ IsWalked srv root x →
    some y ∈ childrenLeftOut srv.version (srv.planState x) → (srv.planState y).plan ≠ none →
    IsWalked srv root y

/-- Every node of the tree that the walk comes to stands among the first `max_nodes` places of the
preorder list, which has the plan of a CTE once for every scan of it. -/
def WithinLimit (srv : Server D) (maxNodes n : Nat) (root : PlanStatePtr) : Prop :=
  ∀ x, InTree srv root x → IsWalked srv root x → ∃ i parent, i < maxNodes ∧
    (preorder srv n (some root) (-1) 0)[i]? = some (x, parent)

omit [CDouble D] in
/-- A tree whose left out children are reached is walked as a whole. -/
theorem isWalked_of_inTree {root : PlanStatePtr} (hleft : ReachesLeftOut srv root)
    {x : PlanStatePtr} (htree : InTree srv root x) :
    (srv.planState x).plan = none ∨ IsWalked srv root x := by
  induction htree with
  | refl =>
    by_cases hplan : (srv.planState root).plan = none
    · exact .inl hplan
    · exact .inr ⟨hplan, .refl⟩
  | @tail x y hx hchild ih =>
    by_cases hplan : (srv.planState y).plan = none
    · exact .inl hplan
    right
    rcases ih with hnone | hwalked
    · refine hleft x y hx (.inl hnone) ?_ hplan
      rw [childrenLeftOut, if_pos hnone]
      exact hchild
    · rcases childCalls_or_leftOut hwalked.plan hchild with hcall | hout
      · exact ⟨hwalked.1, hwalked.2.tail ⟨hwalked.plan, hcall, hplan⟩⟩
      · exact hleft x y hx (.inr hwalked) hout hplan

/-- **Which plans are covered.**  Every node of the tree that has a plan gets an id exactly when
the walk comes to the children it does not follow by another way, and no node it comes to stands
only beyond the limit. -/
theorem every_node_has_id_iff {n : Nat} {root : PlanStatePtr}
    (hheight : HeightLe srv n (some root))
    (hrem : (pwhRememberPlanstateTreeAsMetricStructure srv (some root) be maxNodes).outcome
      (walkAlone srv p stackFrames instr) s = some (some c, t)) :
    (∀ x, InTree srv root x → (srv.planState x).plan ≠ none → HasId srv be c t x) ↔
      ReachesLeftOut srv root ∧ WithinLimit srv maxNodes n root := by
  constructor
  · intro hall
    constructor
    · intro x y hx _ hout hplan
      have hy : InTree srv root y := hx.tail (childrenLeftOut_subset _ _ hout)
      obtain ⟨i, parent, -, hmem⟩ := (hasId_iff hheight hrem).mp (hall y hy hplan)
      exact (mem_preorder_iff hheight (-1) 0).mp
        (List.mem_map.mpr ⟨(y, parent), List.mem_of_getElem? hmem, rfl⟩)
    · intro x hx hwalked
      exact (hasId_iff hheight hrem).mp (hall x hx hwalked.plan)
  · rintro ⟨hleft, hlimit⟩ x hx hplan
    have hwalked := (isWalked_of_inTree hleft hx).resolve_left hplan
    exact (hasId_iff hheight hrem).mpr (hlimit x hx hwalked)

end Ids

/-! ## 4. A plan that is covered, and one that is not -/

theorem nestLoop_inTree {x : PlanStatePtr}
    (h : InTree (planServer .v14_ nestLoopPlan) 0 x) : x = 0 ∨ x = 1 ∨ x = 2 := by
  induction h with
  | refl => exact .inl rfl
  | @tail x y _ hchild ih =>
    simp only [IsChild, planServer, planstateChildren] at hchild
    rcases ih with rfl | rfl | rfl
    · right
      simpa [nestLoopPlan, memberPlans] using hchild
    · simp [nestLoopPlan, memberPlans] at hchild
    · simp [nestLoopPlan, memberPlans] at hchild

/-- Every node of a nested loop gets an id. -/
theorem nestLoop_has_ids :
    ∃ t, (pwhRememberPlanstateTreeAsMetricStructure (planServer .v14_ nestLoopPlan) (some 0) 0
        16).outcome (walkAlone (planServer .v14_ nestLoopPlan) 1 5 fun _ => none) State.init =
        some (some 3, t) ∧
      ∀ x, InTree (planServer .v14_ nestLoopPlan) 0 x →
        ((planServer .v14_ nestLoopPlan).planState x).plan ≠ none →
        HasId (planServer .v14_ nestLoopPlan) 0 3 t x := by
  have hheight : HeightLe (planServer .v14_ nestLoopPlan) 2 (some 0) := by decide
  obtain ⟨t, hrem⟩ : ∃ t, (pwhRememberPlanstateTreeAsMetricStructure
      (planServer .v14_ nestLoopPlan) (some 0) 0 16).outcome
        (walkAlone (planServer .v14_ nestLoopPlan) 1 5 fun _ => none) State.init =
        some (some 3, t) := ⟨_, rfl⟩
  refine ⟨t, hrem, (every_node_has_id_iff hheight hrem).mpr ⟨?_, ?_⟩⟩
  · intro x y hx _ hout
    rcases nestLoop_inTree hx with rfl | rfl | rfl <;> cases hout
  · intro x hx _
    rcases nestLoop_inTree hx with rfl | rfl | rfl
    · exact ⟨0, -1, by decide, by decide⟩
    · exact ⟨1, 0, by decide, by decide⟩
    · exact ⟨2, 0, by decide, by decide⟩

/-- A result whose initplan is a scan. -/
def initPlanPlan : PlanStatePtr → PlanState
  | 0 => { plan := some .result, initPlan := [some 1] }
  | _ => { plan := some .seqScan }

theorem initPlan_inTree {x : PlanStatePtr} :
    InTree (planServer .v14_ initPlanPlan) 0 x ↔ x = 0 ∨ x = 1 := by
  constructor
  · intro h
    induction h with
    | refl => exact .inl rfl
    | @tail x y _ hchild ih =>
      simp only [IsChild, planServer, planstateChildren] at hchild
      rcases ih with rfl | rfl
      · right
        simpa [initPlanPlan, memberPlans] using hchild
      · simp [initPlanPlan, memberPlans] at hchild
  · rintro (rfl | rfl)
    · exact .refl
    · exact .single List.mem_cons_self

/-- **An initplan gets no id**, in a tree of two nodes with room for sixteen. -/
theorem initPlan_has_no_id :
    ∃ c t, (pwhRememberPlanstateTreeAsMetricStructure (planServer .v14_ initPlanPlan) (some 0) 0
        16).outcome (walkAlone (planServer .v14_ initPlanPlan) 1 5 fun _ => none) State.init =
        some (some c, t) ∧
      (∀ x, InTree (planServer .v14_ initPlanPlan) 0 x ↔ x = 0 ∨ x = 1) ∧
      ((planServer .v14_ initPlanPlan).planState 1).plan ≠ none ∧
      ¬ HasId (planServer .v14_ initPlanPlan) 0 c t 1 := by
  refine ⟨1, _, rfl, fun x => initPlan_inTree, by decide, ?_⟩
  rintro ⟨i, parent, hi, hptr, -⟩
  obtain rfl : i = 0 := Nat.lt_one_iff.mp hi
  cases hptr

end WhatIsHappening
