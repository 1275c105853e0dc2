/-
# The preorder of a plan

`preorder` lists the nodes of a plan with the place of each node's parent, the way
`walk_planstate_recursive` visits them when nothing limits it.  A walk that is limited visits the
beginning of that list (`visits_preorder`), and one that is left enough stack comes to its end
(`visits_ne_none`).

A plan is a graph of pointers; `HeightLe` says that the walk from a pointer is finite.
-/
import WhatIsHappening.Walk

namespace WhatIsHappening

variable {D : Type}

/-! ## 1. The list -/

/-- The nodes below a list of calls, the first of them in place `pos`. -/
def preorderCalls (walk : Option PlanStatePtr → Nat → Visited) :
    List (Option PlanStatePtr) → Nat → Visited
  | [], _ => []
  | call :: rest, pos =>
    walk call pos ++ preorderCalls walk rest (pos + (walk call pos).length)

/-- The nodes from a pointer on, in places from `pos` on, each with the place of its parent.
`NULL` states, and states without a plan, are skipped with everything below them. -/
def preorder (srv : Server D) : (height : Nat) → Option PlanStatePtr → Int → Nat → Visited
  | 0, _, _, _ => []
  | _ + 1, none, _, _ => []
  | height + 1, some ps, parent, pos =>
    if (srv.planState ps).plan = none then []
    else (ps, parent) :: preorderCalls (fun call => preorder srv height call pos)
      (childCalls (srv.planState ps)) (pos + 1)

/-- The walk from a pointer is finite, and calls itself less than `n` deep. -/
def HeightLe (srv : Server D) : (n : Nat) → Option PlanStatePtr → Prop
  | 0, _ => False
  | _ + 1, none => True
  | n + 1, some ps => (srv.planState ps).plan ≠ none →
      ∀ call ∈ childCalls (srv.planState ps), HeightLe srv n call

instance decidableHeightLe (srv : Server D) :
    ∀ n ptr, Decidable (HeightLe srv n ptr)
  | 0, _ => isFalse id
  | _ + 1, none => isTrue trivial
  | n + 1, some ps =>
    have : ∀ call, Decidable (HeightLe srv n call) := decidableHeightLe srv n
    inferInstanceAs (Decidable ((srv.planState ps).plan ≠ none →
      ∀ call ∈ childCalls (srv.planState ps), HeightLe srv n call))

/-- A server whose plan states are given. -/
def planServer (version : PgVersion) (planState : PlanStatePtr → PlanState) : Server ℚ where
  version := version
  gucs := {}
  planState := planState
  queryDesc q := { planstate := some q, queryId := 1, totalCost := 0, sourceText := none }

/-- A nested loop over two scans. -/
def nestLoopPlan : PlanStatePtr → PlanState
  | 0 => { plan := some .nestLoop, lefttree := some 1, righttree := some 2 }
  | _ => { plan := some .seqScan }

example : preorder (planServer .v14_ nestLoopPlan) 2 (some 0) (-1) 0 = [(0, -1), (1, 0), (2, 0)] :=
  by decide

variable {srv : Server D} {maxNodes : Nat}

/-! ## 2. Limited walks -/

/-- A list that is cut off, and whether it was. -/
def cutOff (maxNodes : Nat) (acc : Visited) : Bool × Visited :=
  (decide (acc.length ≤ maxNodes), acc.take maxNodes)

theorem cutOff_of_le {acc : Visited} (h : acc.length ≤ maxNodes) :
    cutOff maxNodes acc = (true, acc) := by
  rw [cutOff, List.take_of_length_le h, decide_eq_true h]

/-- Once a list is cut off, what is appended makes no difference. -/
theorem cutOff_append {acc acc' : Visited} (h : maxNodes < acc.length) :
    cutOff maxNodes (acc ++ acc') = (false, acc.take maxNodes) := by
  have hlt : ¬ (acc ++ acc').length ≤ maxNodes := by
    rw [List.length_append]
    omega
  rw [cutOff, List.take_append_of_le_length (Nat.le_of_lt h), decide_eq_false hlt]

theorem visitCalls_preorder {visit : Option PlanStatePtr → Visited → Option (Bool × Visited)}
    {walk : Option PlanStatePtr → Nat → Visited} {calls : List (Option PlanStatePtr)}
    (hvisit : ∀ call ∈ calls, ∀ acc r, acc.length ≤ maxNodes → visit call acc = some r →
      r = cutOff maxNodes (acc ++ walk call acc.length)) :
    ∀ acc r, acc.length ≤ maxNodes → visitCalls visit calls acc = some r →
      r = cutOff maxNodes (acc ++ preorderCalls walk calls acc.length) := by
  induction calls with
  | nil =>
    intro acc r hacc h
    cases h
    rw [preorderCalls, List.append_nil, cutOff_of_le hacc]
  | cons call rest ih =>
    intro acc r hacc h
    have hrest := ih fun call hmem => hvisit call (List.mem_cons_of_mem _ hmem)
    rw [preorderCalls, ← List.append_assoc]
    rw [visitCalls] at h
    by_cases hle : (acc ++ walk call acc.length).length ≤ maxNodes
    · cases hcall : visit call acc with
      | none =>
        rw [hcall] at h
        cases h
      | some r₁ =>
        have hr₁ := hvisit call List.mem_cons_self acc r₁ hacc hcall
        rw [cutOff_of_le hle] at hr₁
        rw [hcall, hr₁] at h
        have := hrest _ r hle h
        rwa [List.length_append] at this
    · cases hcall : visit call acc with
      | none =>
        rw [hcall] at h
        cases h
      | some r₁ =>
        have hr₁ := hvisit call List.mem_cons_self acc r₁ hacc hcall
        rw [cutOff, decide_eq_false hle] at hr₁
        rw [hcall, hr₁] at h
        cases h
        rw [cutOff_append (Nat.lt_of_not_le hle)]

/-- **A limited walk visits the beginning of the preorder list**, and says whether that was all
of it. -/
theorem visits_preorder :
    ∀ {n stackFrames : Nat} {ptr : Option PlanStatePtr} {parent : Int} {acc : Visited}
      {r : Bool × Visited}, HeightLe srv n ptr → acc.length ≤ maxNodes →
      visits srv maxNodes stackFrames ptr parent acc = some r →
      r = cutOff maxNodes (acc ++ preorder srv n ptr parent acc.length) := by
  intro n
  induction n with
  | zero => exact fun h => h.elim
  | succ n ih =>
    intro stackFrames ptr parent acc r hheight hacc h
    cases stackFrames with
    | zero => cases h
    | succ stackFrames =>
    cases ptr with
    | none =>
      cases h
      rw [preorder, List.append_nil, cutOff_of_le hacc]
    | some ps =>
    by_cases hplan : (srv.planState ps).plan = none
    · rw [visits, if_pos hplan] at h
      cases h
      rw [preorder, if_pos hplan, List.append_nil, cutOff_of_le hacc]
    rw [visits, if_neg hplan] at h
    rw [preorder, if_neg hplan, ← List.singleton_append, ← List.append_assoc]
    have hlength : (acc ++ [(ps, parent)]).length = acc.length + 1 := List.length_append
    by_cases hfull : maxNodes ≤ acc.length
    · rw [if_pos hfull] at h
      cases h
      rw [cutOff_append (by omega), List.take_append_of_le_length (by omega),
        List.take_of_length_le hacc]
    · rw [if_neg hfull] at h
      have hcalls := visitCalls_preorder (fun call hmem acc' r' hacc' h' =>
        ih (hheight hplan call hmem) hacc' h') _ r (by omega) h
      rwa [hlength] at hcalls

/-- A walk that is left enough stack comes to its end. -/
theorem visits_ne_none :
    ∀ {n stackFrames : Nat} {ptr : Option PlanStatePtr} {parent : Int} {acc : Visited},
      HeightLe srv n ptr → n ≤ stackFrames →
      visits srv maxNodes stackFrames ptr parent acc ≠ none := by
  intro n
  induction n with
  | zero => exact fun h => h.elim
  | succ n ih =>
    intro stackFrames ptr parent acc hheight hle
    obtain ⟨stackFrames, rfl⟩ := Nat.exists_eq_add_of_le' (Nat.le_trans (Nat.succ_pos n) hle)
    cases ptr with
    | none => exact Option.some_ne_none _
    | some ps =>
    rw [visits]
    split
    · exact Option.some_ne_none _
    rename_i hplan
    split
    · exact Option.some_ne_none _
    have hcalls : ∀ calls : List (Option PlanStatePtr), (∀ call ∈ calls, HeightLe srv n call) →
        ∀ acc', visitCalls (fun call => visits srv maxNodes stackFrames call acc.length) calls
          acc' ≠ none := by
      intro calls
      induction calls with
      | nil => exact fun _ acc' => Option.some_ne_none _
      | cons call rest ihrest =>
        intro hmem acc'
        rw [visitCalls]
        split
        · rename_i hnone
          exact absurd hnone (ih (hmem call List.mem_cons_self) (by omega))
        · exact ihrest (fun c hc => hmem c (List.mem_cons_of_mem _ hc)) _
        · exact Option.some_ne_none _
    exact hcalls _ (hheight hplan) _

/-- The nodes of a whole plan that a walk visits. -/
theorem visits_root {n stackFrames : Nat} {ptr : Option PlanStatePtr} {r : Bool × Visited}
    (hheight : HeightLe srv n ptr) (h : visits srv maxNodes stackFrames ptr (-1) [] = some r) :
    r.2 = (preorder srv n ptr (-1) 0).take maxNodes := by
  rw [visits_preorder hheight (Nat.zero_le _) h]
  rfl

/-! ## 3. Places and parents -/

/-- `y` stands before place `i` and calls `x`, whose parent is given by the place of `y`. -/
def HasParent (srv : Server D) (l : Visited) (pos i : Nat) (x : PlanStatePtr × Int) : Prop :=
  ∃ q y, q < i ∧ x.2 = ((pos + q : Nat) : Int) ∧ l[q]? = some y ∧
    some x.1 ∈ childCalls (srv.planState y.1)

theorem preorderCalls_parent {walk : Option PlanStatePtr → Nat → Visited} {parent : Int}
    (hwalk : ∀ call pos i x, (walk call pos)[i]? = some x →
      (i = 0 ∧ call = some x.1 ∧ x.2 = parent) ∨ HasParent srv (walk call pos) pos i x) :
    ∀ calls pos i x, (preorderCalls walk calls pos)[i]? = some x →
      (some x.1 ∈ calls ∧ x.2 = parent) ∨
        HasParent srv (preorderCalls walk calls pos) pos i x := by
  intro calls
  induction calls with
  | nil =>
    intro pos i x h
    cases h
  | cons call rest ih =>
    intro pos i x h
    rw [preorderCalls] at h ⊢
    rcases Nat.lt_or_ge i (walk call pos).length with hlt | hge
    · rw [List.getElem?_append_left hlt] at h
      rcases hwalk call pos i x h with ⟨-, rfl, hparent⟩ | ⟨q, y, hq, hpos, hy, hchild⟩
      · exact .inl ⟨List.mem_cons_self, hparent⟩
      · refine .inr ⟨q, y, hq, hpos, ?_, hchild⟩
        rw [List.getElem?_append_left (by omega)]
        exact hy
    · rw [List.getElem?_append_right hge] at h
      rcases ih _ _ x h with ⟨hmem, hparent⟩ | ⟨q, y, hq, hpos, hy, hchild⟩
      · exact .inl ⟨List.mem_cons_of_mem _ hmem, hparent⟩
      · refine .inr ⟨(walk call pos).length + q, y, by omega, ?_, ?_, hchild⟩
        · rw [hpos]
          omega
        · rw [List.getElem?_append_right (Nat.le_add_right _ _), Nat.add_sub_cancel_left]
          exact hy

/-- **The parent of a node stands before it**, and calls it. -/
theorem preorder_parent :
    ∀ {n : Nat} {ptr : Option PlanStatePtr} {parent : Int} {pos i : Nat}
      {x : PlanStatePtr × Int}, (preorder srv n ptr parent pos)[i]? = some x →
      (i = 0 ∧ ptr = some x.1 ∧ x.2 = parent) ∨
        HasParent srv (preorder srv n ptr parent pos) pos i x := by
  intro n
  induction n with
  | zero =>
    intro ptr parent pos i x h
    cases h
  | succ n ih =>
    intro ptr parent pos i x h
    cases ptr with
    | none => cases h
    | some ps =>
    by_cases hplan : (srv.planState ps).plan = none
    · rw [preorder, if_pos hplan] at h
      cases h
    rw [preorder, if_neg hplan] at h ⊢
    cases i with
    | zero =>
      cases h
      exact .inl ⟨rfl, rfl, rfl⟩
    | succ i =>
      rw [List.getElem?_cons_succ] at h
      right
      rcases preorderCalls_parent (fun call pos' i' x' h' => ih h') _ _ _ x h with
        ⟨hmem, hparent⟩ | ⟨q, y, hq, hpos, hy, hchild⟩
      · exact ⟨0, (ps, parent), Nat.succ_pos i, by rw [hparent, Nat.add_zero], rfl, hmem⟩
      · refine ⟨q + 1, y, by omega, ?_, ?_, hchild⟩
        · rw [hpos]
          omega
        · rw [List.getElem?_cons_succ]
          exact hy

end WhatIsHappening
