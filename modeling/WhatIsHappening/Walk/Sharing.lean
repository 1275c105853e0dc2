/-
# Which plan nodes get one id

The scans of a CTE share its plan, and the walk follows it from each of them.  In a plan that
shares nothing else, `ids_unique_iff` says when every plan state has one id at most.
-/
import WhatIsHappening.Walk.Coverage
import Mathlib.Data.List.Pairwise
import Mathlib.Data.List.ReduceOption

namespace WhatIsHappening

open Interleaving Prog Relation

variable {D : Type} {srv : Server D}

/-! ## 1. A walk that ends comes to no node from itself

The height falls from a node to its children. -/

theorem HeightLe.succ : ∀ {n : Nat} {ptr : Option PlanStatePtr},
    HeightLe srv n ptr → HeightLe srv (n + 1) ptr := by
  intro n
  induction n with
  | zero => exact fun h => h.elim
  | succ n ih =>
    intro ptr h
    cases ptr with
    | none => trivial
    | some ps => exact fun hplan call hmem => ih (h hplan call hmem)

theorem HeightLe.walked {n : Nat} {x y : PlanStatePtr} (hheight : HeightLe srv n (some x))
    (hwalked : ReflTransGen (IsWalkedChild srv) x y) : HeightLe srv n (some y) := by
  induction hwalked with
  | refl => exact hheight
  | tail _ hstep ih =>
    cases n with
    | zero => exact ih
    | succ n => exact (ih hstep.1 _ hstep.2.1).succ

theorem not_cycle : ∀ {n : Nat} {x y : PlanStatePtr}, HeightLe srv n (some x) →
    IsWalkedChild srv x y → ¬ ReflTransGen (IsWalkedChild srv) y x := by
  intro n
  induction n with
  | zero => exact fun h => h.elim
  | succ n ih =>
    intro x y hheight hstep hback
    exact ih ((hheight hstep.1 _ hstep.2.1).walked hback) hstep hback

/-! ## 2. The children of one place -/

/-- What is listed from a pointer on: the node itself, or one with its parent among the listed. -/
theorem preorder_mem {n : Nat} {ptr : Option PlanStatePtr} {parent : Int} {pos : Nat}
    {x : PlanStatePtr × Int} (h : x ∈ preorder srv n ptr parent pos) :
    (ptr = some x.1 ∧ x.2 = parent) ∨
      ((pos : Int) ≤ x.2 ∧ x.2 < pos + (preorder srv n ptr parent pos).length) := by
  obtain ⟨i, hi⟩ := List.mem_iff_getElem?.mp h
  rcases preorder_parent hi with ⟨-, hptr, hparent⟩ | ⟨q, y, hq, hparent, hy, -⟩
  · exact .inl ⟨hptr, hparent⟩
  · have hlt := (List.getElem?_eq_some_iff.mp hi).1
    right
    omega

/-- Two listed nodes with the same parent place are different plan states. -/
def OneChildEach (x y : PlanStatePtr × Int) : Prop := x.2 = y.2 → x.1 ≠ y.1

theorem preorderCalls_pairwise {walk : Option PlanStatePtr → Nat → Visited} {parent : Int}
    (hmem : ∀ call pos x, x ∈ walk call pos → (call = some x.1 ∧ x.2 = parent) ∨
      ((pos : Int) ≤ x.2 ∧ x.2 < pos + (walk call pos).length)) :
    ∀ {calls : List (Option PlanStatePtr)} {pos : Nat}, parent < pos →
      calls.reduceOption.Nodup →
      (∀ call ∈ calls, ∀ pos' : Nat, parent < pos' → (walk call pos').Pairwise OneChildEach) →
      (preorderCalls walk calls pos).Pairwise OneChildEach ∧
        ∀ x ∈ preorderCalls walk calls pos,
          (some x.1 ∈ calls ∧ x.2 = parent) ∨ (pos : Int) ≤ x.2 := by
  intro calls
  induction calls with
  | nil =>
    intro pos _ _ _
    exact ⟨List.Pairwise.nil, nofun⟩
  | cons call rest ih =>
    intro pos hpos hnodup hwalk
    have hrest_nodup : rest.reduceOption.Nodup :=
      hnodup.sublist (List.Sublist.filterMap _ (List.sublist_cons_self call rest))
    have hlater : parent < (pos + (walk call pos).length : Nat) := by omega
    obtain ⟨hpair, hrest⟩ := ih hlater hrest_nodup fun call' hmem' =>
      hwalk call' (List.mem_cons_of_mem _ hmem')
    rw [preorderCalls]
    constructor
    · refine List.pairwise_append.mpr ⟨hwalk call List.mem_cons_self pos hpos, hpair, ?_⟩
      intro x hx y hy hsame heq
      rcases hmem call pos x hx with ⟨hcall, hxp⟩ | ⟨hge, hlt⟩
      · rcases hrest y hy with ⟨hin, -⟩ | hge
        · rw [hcall, List.reduceOption_cons_of_some, List.nodup_cons] at hnodup
          rw [heq] at hnodup
          exact hnodup.1 (List.reduceOption_mem_iff.mpr hin)
        · omega
      · rcases hrest y hy with ⟨-, hyp⟩ | hge
        · omega
        · omega
    · intro x hx
      rcases List.mem_append.mp hx with hx | hx
      · rcases hmem call pos x hx with ⟨rfl, hxp⟩ | ⟨hge, -⟩
        · exact .inl ⟨List.mem_cons_self, hxp⟩
        · exact .inr hge
      · rcases hrest x hx with ⟨hin, hxp⟩ | hge
        · exact .inl ⟨List.mem_cons_of_mem _ hin, hxp⟩
        · right
          omega

/-- **Siblings are different plan states** where no node calls the walk twice for one of them. -/
theorem preorder_pairwise : ∀ (n : Nat) (ptr : Option PlanStatePtr) (parent : Int) (pos : Nat),
    parent < pos → (∀ ps x, ptr = some ps → IsWalked srv ps x →
      (childCalls (srv.planState x)).reduceOption.Nodup) →
    (preorder srv n ptr parent pos).Pairwise OneChildEach := by
  intro n
  induction n with
  | zero => exact fun _ _ _ _ _ => List.Pairwise.nil
  | succ n ih =>
    intro ptr parent pos hparent hnodup
    cases ptr with
    | none => exact List.Pairwise.nil
    | some ps =>
    by_cases hplan : (srv.planState ps).plan = none
    · rw [preorder, if_pos hplan]
      exact List.Pairwise.nil
    rw [preorder, if_neg hplan]
    have hbelow : (pos : Int) < (pos + 1 : Nat) := by omega
    obtain ⟨hpair, hmem⟩ := preorderCalls_pairwise
      (fun call pos' x (hx : x ∈ preorder srv n call pos pos') => preorder_mem hx) hbelow
      (hnodup ps ps rfl ⟨hplan, .refl⟩) fun call hmem pos' hpos' =>
        ih call pos pos' hpos' fun child x hchild hwalked => hnodup ps x rfl
          ⟨hplan, .head ⟨hplan, hchild ▸ hmem, hwalked.1⟩ hwalked.2⟩
    refine List.pairwise_cons.mpr ⟨fun y hy hsame => ?_, hpair⟩
    rcases hmem y hy with ⟨-, hyp⟩ | hge <;> simp only at hsame <;> omega

/-! ## 3. Ids -/

/-- Nothing is shared but the plans of CTEs: no node calls the walk twice for one plan state, and
where two nodes do, both are scans of the CTE whose plan it is. -/
structure OnlyCtePlansShared (srv : Server D) (root : PlanStatePtr) : Prop where
  nodup : ∀ x, IsWalked srv root x → (childCalls (srv.planState x)).reduceOption.Nodup
  shared : ∀ x y z, IsWalked srv root x → IsWalked srv root y → x ≠ y →
    some z ∈ childCalls (srv.planState x) → some z ∈ childCalls (srv.planState y) →
    (srv.planState x).kind = .cteScanState (some z) ∧
      (srv.planState y).kind = .cteScanState (some z)

/-- One of the first `maxNodes` listed nodes is `z`, as a child of `x`. -/
def ListedBelow (l : Visited) (maxNodes : Nat) (x z : PlanStatePtr) : Prop :=
  ∃ i q y, i < maxNodes ∧ l[i]? = some (z, ((q : Nat) : Int)) ∧ l[q]? = some y ∧ y.1 = x

/-- Among the first `maxNodes` listed nodes, the plan of a CTE stands below two of its scans. -/
def ScannedTwice (srv : Server D) (maxNodes : Nat) (l : Visited) : Prop :=
  ∃ x y z, x ≠ y ∧ (srv.planState x).kind = .cteScanState (some z) ∧
    (srv.planState y).kind = .cteScanState (some z) ∧ ListedBelow l maxNodes x z ∧
    ListedBelow l maxNodes y z

/-- A plan state that is listed twice makes a CTE scanned twice: its places have parents of their
own, which are different nodes, or else are a plan state that is listed twice before. -/
theorem scannedTwice_of_repeated {n maxNodes : Nat} {root : PlanStatePtr}
    (hheight : HeightLe srv n (some root)) (hsharing : OnlyCtePlansShared srv root) :
    ∀ j i, i < j → j < maxNodes → ∀ x y, (preorder srv n (some root) (-1) 0)[i]? = some x →
      (preorder srv n (some root) (-1) 0)[j]? = some y → x.1 = y.1 →
      ScannedTwice srv maxNodes (preorder srv n (some root) (-1) 0) := by
  intro j
  induction j using Nat.strong_induction_on with
  | _ j ih =>
  intro i hij hj x y hx hy hsame
  have hwalked : ∀ (k : Nat) (z : PlanStatePtr × Int),
      (preorder srv n (some root) (-1) 0)[k]? = some z →
      IsWalked srv root z.1 := fun _ z hz =>
    (mem_preorder_iff hheight (-1) 0).mp (List.mem_map.mpr ⟨z, List.mem_of_getElem? hz, rfl⟩)
  rcases preorder_parent hy with ⟨rfl, -, -⟩ | ⟨q, u, hq, hyq, hu, hychild⟩
  · exact absurd hij (Nat.not_lt_zero i)
  have hu_walked := hwalked q u hu
  have hystep : IsWalkedChild srv u.1 y.1 := ⟨hu_walked.plan, hychild, (hwalked j y hy).plan⟩
  rcases preorder_parent hx with ⟨-, hroot, -⟩ | ⟨q', u', hq', hxq, hu', hxchild⟩
  · -- the root does not stand below itself
    rw [Option.some.inj hroot, hsame] at hheight hu_walked
    exact (not_cycle (hheight.walked hu_walked.2) hystep hu_walked.2).elim
  rw [Nat.zero_add] at hyq hxq
  by_cases hparents : u'.1 = u.1
  · rcases Nat.lt_trichotomy q' q with hlt | rfl | hgt
    · exact ih q hq q' hlt (by omega) u' u hu' hu hparents
    · have hpair := preorder_pairwise n (some root) (-1) 0 (by decide) fun ps x hps hw =>
        hsharing.nodup x (Option.some.inj hps ▸ hw)
      obtain ⟨hi_lt, rfl⟩ := List.getElem?_eq_some_iff.mp hx
      obtain ⟨hj_lt, rfl⟩ := List.getElem?_eq_some_iff.mp hy
      exact absurd hsame
        (List.pairwise_iff_getElem.mp hpair i j hi_lt hj_lt hij (hxq.trans hyq.symm))
    · exact ih q' (by omega) q hgt (by omega) u u' hu hu' hparents.symm
  · rw [hsame] at hxchild
    obtain ⟨hkind', hkind⟩ := hsharing.shared u'.1 u.1 y.1 (hwalked q' u' hu') hu_walked hparents
      hxchild hychild
    refine ⟨u'.1, u.1, y.1, hparents, hkind', hkind, ⟨i, q', u', by omega, ?_, hu', rfl⟩,
      ⟨j, q, u, hj, ?_, hu, rfl⟩⟩
    · rw [hx, ← hsame, ← hxq]
    · rw [hy, ← hyq]

variable [CDouble D] {p : Pid} {stackFrames be maxNodes c : Nat}
  {instr : PlanStatePtr → Option (Instrumentation D)} {s t : State D}

/-- **When ids are unique.**  In a plan that shares only the plans of CTEs, no plan state gets two
ids exactly when no CTE is scanned twice among the nodes that get one. -/
theorem ids_unique_iff {n : Nat} {root : PlanStatePtr} (hheight : HeightLe srv n (some root))
    (hsharing : OnlyCtePlansShared srv root)
    (hrem : (pwhRememberPlanstateTreeAsMetricStructure srv (some root) be maxNodes).outcome
      (walkAlone srv p stackFrames instr) s = some (some c, t)) :
    (∀ i j, i < c → j < c → t.recordedNode be i = t.recordedNode be j → i = j) ↔
      ¬ ScannedTwice srv maxNodes (preorder srv n (some root) (-1) 0) := by
  obtain ⟨rfl, rfl⟩ := remember_take hheight hrem
  have hrecorded : ∀ (i : Nat) (x : PlanStatePtr × Int), i < maxNodes →
      (preorder srv n (some root) (-1) 0)[i]? = some x →
      i < ((preorder srv n (some root) (-1) 0).take maxNodes).length ∧
        (s.recordTree srv be
          ((preorder srv n (some root) (-1) 0).take maxNodes)).recordedNode be i = some x.1 := by
    intro i x hi hx
    have hi' : ((preorder srv n (some root) (-1) 0).take maxNodes)[i]? = some x := by
      rw [List.getElem?_take, if_pos hi, hx]
    refine ⟨(List.getElem?_eq_some_iff.mp hi').1, ?_⟩
    rw [recordTree_recordedNode, hi']
    rfl
  constructor
  · rintro hunique ⟨x, y, z, hne, -, -, ⟨i, q, u, hi, hzi, hu, rfl⟩, ⟨j, r, v, hj, hzj, hv, rfl⟩⟩
    obtain ⟨hic, hri⟩ := hrecorded i _ hi hzi
    obtain ⟨hjc, hrj⟩ := hrecorded j _ hj hzj
    obtain rfl := hunique i j hic hjc (hri.trans hrj.symm)
    have hqr : q = r := by
      have := congrArg Prod.snd (Option.some.inj (hzi.symm.trans hzj))
      exact Int.ofNat.inj this
    subst hqr
    exact hne (congrArg Prod.fst (Option.some.inj (hu.symm.trans hv)))
  · intro hscan i j hi hj hsame
    rw [List.length_take] at hi hj
    have hxi :=
      List.getElem?_eq_getElem (l := preorder srv n (some root) (-1) 0) (i := i) (by omega)
    have hxj :=
      List.getElem?_eq_getElem (l := preorder srv n (some root) (-1) 0) (i := j) (by omega)
    rw [(hrecorded i _ (by omega) hxi).2, (hrecorded j _ (by omega) hxj).2] at hsame
    have hsame := Option.some.inj hsame
    rcases Nat.lt_trichotomy i j with hlt | heq | hgt
    · exact (hscan (scannedTwice_of_repeated hheight hsharing j i hlt (by omega) _ _ hxi hxj
        hsame)).elim
    · exact heq
    · exact (hscan (scannedTwice_of_repeated hheight hsharing i j hgt (by omega) _ _ hxj hxi
        hsame.symm)).elim

/-! ## 4. Scans of a CTE -/

/-- A nested loop over two scans of one CTE. -/
def cteTwicePlan : PlanStatePtr → PlanState
  | 0 => { plan := some .nestLoop, lefttree := some 1, righttree := some 2, initPlan := [some 3] }
  | 1 => { plan := some .cteScan, kind := .cteScanState (some 3) }
  | 2 => { plan := some .cteScan, kind := .cteScanState (some 3) }
  | _ => { plan := some .seqScan }

/-- A nested loop over a scan of a CTE and another scan. -/
def cteOncePlan : PlanStatePtr → PlanState
  | 0 => { plan := some .nestLoop, lefttree := some 1, righttree := some 2, initPlan := [some 3] }
  | 1 => { plan := some .cteScan, kind := .cteScanState (some 3) }
  | _ => { plan := some .seqScan }

theorem cteTwice_shared : OnlyCtePlansShared (planServer .v14_ cteTwicePlan) 0 := by
  have hwalked : ∀ x, IsWalked (planServer .v14_ cteTwicePlan) 0 x →
      x = 0 ∨ x = 1 ∨ x = 3 ∨ x = 2 := by
    intro x h
    have hmem := (mem_preorder_iff (n := 3) (by decide) (-1) 0).mpr h
    rw [show (preorder (planServer .v14_ cteTwicePlan) 3 (some 0) (-1) 0).map Prod.fst =
      [0, 1, 3, 2, 3] by decide] at hmem
    simp only [List.mem_cons, List.not_mem_nil, or_false] at hmem
    rcases hmem with h | h | h | h | h <;> simp [h]
  constructor
  · intro x h
    rcases hwalked x h with rfl | rfl | rfl | rfl <;> decide
  · intro x y z hx hy hne hxz hyz
    rcases hwalked x hx with rfl | rfl | rfl | rfl <;>
      rcases hwalked y hy with rfl | rfl | rfl | rfl <;>
        simp_all [planServer, cteTwicePlan, childCalls, nonNull]

/-- **The plan of a CTE with two scans gets two ids.** -/
theorem cteTwice_two_ids :
    OnlyCtePlansShared (planServer .v14_ cteTwicePlan) 0 ∧
      ∃ t, (pwhRememberPlanstateTreeAsMetricStructure (planServer .v14_ cteTwicePlan) (some 0) 0
          16).outcome (walkAlone (planServer .v14_ cteTwicePlan) 1 5 fun _ => none) State.init =
          some (some 5, t) ∧
        t.recordedNode 0 2 = some 3 ∧ t.recordedNode 0 4 = some 3 :=
  ⟨cteTwice_shared, _, rfl, rfl, rfl⟩

theorem cteOnce_shared : OnlyCtePlansShared (planServer .v14_ cteOncePlan) 0 := by
  have hwalked : ∀ x, IsWalked (planServer .v14_ cteOncePlan) 0 x →
      x = 0 ∨ x = 1 ∨ x = 3 ∨ x = 2 := by
    intro x h
    have hmem := (mem_preorder_iff (n := 3) (by decide) (-1) 0).mpr h
    rw [show (preorder (planServer .v14_ cteOncePlan) 3 (some 0) (-1) 0).map Prod.fst =
      [0, 1, 3, 2] by decide] at hmem
    simpa using hmem
  constructor
  · intro x h
    rcases hwalked x h with rfl | rfl | rfl | rfl <;> decide
  · intro x y z hx hy hne hxz hyz
    rcases hwalked x hx with rfl | rfl | rfl | rfl <;>
      rcases hwalked y hy with rfl | rfl | rfl | rfl <;>
        simp_all [planServer, cteOncePlan, childCalls, nonNull]

/-- The nodes of a plan with one scan of a CTE have one id each. -/
theorem cteOnce_ids_unique :
    ∃ t, (pwhRememberPlanstateTreeAsMetricStructure (planServer .v14_ cteOncePlan) (some 0) 0
        16).outcome (walkAlone (planServer .v14_ cteOncePlan) 1 5 fun _ => none) State.init =
        some (some 4, t) ∧
      ∀ i j, i < 4 → j < 4 → t.recordedNode 0 i = t.recordedNode 0 j → i = j := by
  obtain ⟨t, hrem⟩ : ∃ t, (pwhRememberPlanstateTreeAsMetricStructure
      (planServer .v14_ cteOncePlan) (some 0) 0 16).outcome
        (walkAlone (planServer .v14_ cteOncePlan) 1 5 fun _ => none) State.init =
        some (some 4, t) := ⟨_, rfl⟩
  refine ⟨t, hrem, (ids_unique_iff (n := 3) (by decide) cteOnce_shared hrem).mpr ?_⟩
  rintro ⟨x, y, z, hne, hx, hy, -⟩
  have honly : ∀ x z, (cteOncePlan x).kind = .cteScanState (some z) → x = 1 := by
    intro x z h
    match x, h with
    | 1, _ => rfl
  exact hne ((honly x z hx).trans (honly y z hy).symm)

end WhatIsHappening
