/-
# The recorded topology

The topology walk is run alone on a slot with any prior content.  What it leaves there is the
preorder list of the plan, cut off at `max_nodes`, and nothing else changes
(`remember_records_preorder`).
-/
import WhatIsHappening.Frame.Walks
import WhatIsHappening.Walk.Preorder

namespace WhatIsHappening

open Interleaving Prog

variable {D : Type}

/-! ## 1. A walk alone -/

/-- The operations of a process that is left `stackFrames` calls and finds the instrumentation
`instr`. -/
def walkAlone (srv : Server D) (p : Pid) (stackFrames : Nat)
    (instr : PlanStatePtr → Option (Instrumentation D)) (o : Op D) (s : State D) :
    Option (Res o × State D) :=
  exec srv p o
    { stackFrames := stackFrames,
      instrument := match o with
        | .readInstrument ps => instr ps
        | _ => none } s

/-- The contract of such a walk; `guar` is what is asked of the states its operations meet. -/
abbrev walkContract (srv : Server D) (p : Pid) (stackFrames : Nat)
    (instr : PlanStatePtr → Option (Instrumentation D)) (guar : Op D → State D → Prop) :
    Contract (Res (D := D)) (State D) :=
  .sequential (fun o s r t => walkAlone srv p stackFrames instr o s = some (r, t))
    (fun _ => True) guar

/-- One operation of such a walk. -/
theorem wp_walk_op {srv : Server D} {p : Pid} {stackFrames : Nat}
    {instr : PlanStatePtr → Option (Instrumentation D)} {guar : Op D → State D → Prop} {α : Type}
    {o : Op D} {f : Res o → PgProg D α} {Q : α → State D → Prop} {E : State D → Prop}
    {s t : State D} {r : Res o} (hrun : walkAlone srv p stackFrames instr o s = some (r, t))
    (hg : guar o s) (h : (walkContract srv p stackFrames instr guar).wp false (f r) Q E t) :
    (walkContract srv p stackFrames instr guar).wp false (act o >>= f) Q E s := by
  refine Contract.seq_op nofun (fun _ => hg) fun _ r' t' ht => ⟨trivial, ?_⟩
  rw [hrun] at ht
  cases ht
  exact h

/-- None of its operations has to wait. -/
theorem walkAlone_ne_none {srv : Server D} {p : Pid} {stackFrames be : Nat}
    {instr : PlanStatePtr → Option (Instrumentation D)} {o : Op D} (h : o.OfWalk be)
    (s : State D) : walkAlone srv p stackFrames instr o s ≠ none := by
  cases o <;> first | exact Option.some_ne_none _ | exact h.elim

/-! ## 2. Records -/

/-- What writing fields one by one makes of a record. -/
def PwhNodeMetrics.setAll (x : PwhNodeMetrics D) (ws : List (Sigma fun f : NodeField => f.ty D)) :
    PwhNodeMetrics D := ws.foldl (fun x w => x.set w.1 w.2) x

/-- A state with another record `id` in slot `be`. -/
def State.setRecord (s : State D) (be id : Nat) (x : PwhNodeMetrics D) : State D :=
  s.modifyEntry be fun e => { e with metrics := Function.update e.metrics id x }

section Writes

variable {srv : Server D} {p : Pid} {stackFrames : Nat}
  {instr : PlanStatePtr → Option (Instrumentation D)} {guar : Op D → State D → Prop}
  {be id : Nat} {E : State D → Prop}

theorem setRecord_self (s : State D) : s.setRecord be id ((s.entries be).metrics id) = s := by
  simp [State.setRecord, State.modifyEntry]

theorem setRecord_setRecord (s : State D) (x y : PwhNodeMetrics D) :
    (s.setRecord be id x).setRecord be id y = s.setRecord be id y := by
  simp [State.setRecord, State.modifyEntry]

/-- Writing fields one by one. -/
theorem wp_writeRecord (hg : ∀ f v s, guar (.writeNode be id f v) s) :
    ∀ (ws : List (Sigma fun f : NodeField => f.ty D)) (s : State D),
      (walkContract srv p stackFrames instr guar).wp false (writeNodeFields be id ws)
        (fun _ t => t = s.setRecord be id (((s.entries be).metrics id).setAll ws)) E s := by
  intro ws
  induction ws with
  | nil =>
    intro s
    exact Contract.seq_ret fun _ => (setRecord_self s).symm
  | cons w ws ih =>
    intro s
    refine wp_walk_op rfl (hg _ _ _) ?_
    refine Contract.wp_mono (ih _) ?_ fun _ _ h => h
    rintro _ _ - rfl
    have hrecord : ∀ x : PwhNodeMetrics D,
        ((s.setRecord be id x).entries be).metrics id = x := by
      intro x
      simp [State.setRecord, State.modifyEntry]
    change (s.setRecord be id _).setRecord be id _ = _
    rw [setRecord_setRecord]
    change s.setRecord be id ((((s.setRecord be id _).entries be).metrics id).setAll ws) = _
    rw [hrecord]
    rfl

end Writes

/-! ## 3. The topology walk -/

section Topology

variable [CDouble D]

/-- The record of node `id`: which plan node it is about, and nothing measured. -/
def topologyRecord (srv : Server D) (id : Nat) (x : PlanStatePtr × Int) : PwhNodeMetrics D where
  tag := planTag srv x.1
  nodeId := UInt32.ofNat id
  parentNodeId := (Int32.ofInt x.2).toUInt32
  execution :=
    let zero := CDouble.ofNat 0
    ⟨zero, zero, zero, zero, zero, zero⟩
  bufferUsage := ⟨0, 0, 0, 0, 0, 0⟩
  magic := PWH_NODE_MAGIC

theorem setAll_topologyFields (srv : Server D) (id : Nat) (x : PlanStatePtr × Int)
    (old : PwhNodeMetrics D) :
    old.setAll (topologyFields id x.2 (planTag srv x.1)) = topologyRecord srv id x := rfl

/-- A node array after the nodes `acc` were recorded in it. -/
def recordNodes (srv : Server D) (acc : Visited) (metrics : Nat → PwhNodeMetrics D) :
    Nat → PwhNodeMetrics D :=
  fun id => (acc[id]?).elim (metrics id) (topologyRecord srv id)

/-- A state after the nodes `acc` were recorded in slot `be`. -/
def State.recordTree (srv : Server D) (be : Nat) (acc : Visited) (s : State D) : State D :=
  { s.modifyEntry be fun e => { e with metrics := recordNodes srv acc e.metrics } with
    recordedNode := Function.update s.recordedNode be fun id =>
      (acc[id]?).elim (s.recordedNode be id) fun x => some x.1 }

/-- Recording one more node. -/
theorem elim_concat {β : Type} (acc : Visited) (x : PlanStatePtr × Int) (old : Nat → β)
    (f : Nat → PlanStatePtr × Int → β) :
    (fun id => ((acc ++ [x])[id]?).elim (old id) (f id)) =
      Function.update (fun id => (acc[id]?).elim (old id) (f id)) acc.length (f acc.length x) := by
  funext id
  rcases Nat.lt_trichotomy id acc.length with hlt | rfl | hgt
  · rw [List.getElem?_append_left hlt, Function.update_of_ne hlt.ne]
  · rw [List.getElem?_concat_length, Function.update_self]
    rfl
  · rw [List.getElem?_eq_none (by simp; omega), Function.update_of_ne hgt.ne',
      List.getElem?_eq_none (by omega)]

theorem recordNodes_nil (srv : Server D) (metrics : Nat → PwhNodeMetrics D) :
    recordNodes srv [] metrics = metrics := rfl

theorem recordNodes_concat (srv : Server D) (acc : Visited) (x : PlanStatePtr × Int)
    (metrics : Nat → PwhNodeMetrics D) :
    recordNodes srv (acc ++ [x]) metrics =
      Function.update (recordNodes srv acc metrics) acc.length
        (topologyRecord srv acc.length x) :=
  elim_concat acc x metrics (topologyRecord srv)

theorem recordTree_nil (srv : Server D) (be : Nat) (s : State D) :
    s.recordTree srv be [] = s := by
  simp [State.recordTree, recordNodes_nil, State.modifyEntry]

variable {srv : Server D} {p : Pid} {stackFrames be maxNodes : Nat}
  {instr : PlanStatePtr → Option (Instrumentation D)} {s : State D}

theorem recordTree_concat (acc : Visited) (x : PlanStatePtr × Int) :
    (({ s.recordTree srv be acc with
        recordedNode := Function.update (s.recordTree srv be acc).recordedNode be
          (Function.update ((s.recordTree srv be acc).recordedNode be) acc.length (some x.1)) } :
      State D).setRecord be acc.length (topologyRecord srv acc.length x)) =
      s.recordTree srv be (acc ++ [x]) := by
  have hptrs := elim_concat acc x (s.recordedNode be) fun _ x => some x.1
  simp only [State.recordTree, recordNodes_concat, State.setRecord, State.modifyEntry,
    Function.update_self, Function.update_idem, hptrs]

/-- What a call of the walk leaves: the nodes that `visited` says. -/
def Recorded (srv : Server D) (be : Nat) (s : State D) (visited : Option (Bool × Visited))
    (r : Bool × Nat) (t : State D) : Prop :=
  ∃ acc, visited = some (r.1, acc) ∧ r.2 = acc.length ∧ t = s.recordTree srv be acc

/-- The visitor below its limit. -/
theorem wp_recordVisitor {acc : Visited} {ps : PlanStatePtr} {parent : Int}
    (hlt : acc.length < maxNodes) {E : State D → Prop} :
    (walkContract srv p stackFrames instr fun _ _ => True).wp false
      (topologyVisitor srv be maxNodes ps parent acc.length)
      (fun r t => r = ((acc.length : Int), acc.length + 1) ∧
        t = s.recordTree srv be (acc ++ [(ps, parent)])) E (s.recordTree srv be acc) := by
  rw [topologyVisitor, if_neg (by omega)]
  refine wp_walk_op rfl trivial ?_
  refine Contract.wp_bind (Contract.wp_mono (wp_writeRecord (fun _ _ _ => trivial) _ _) ?_
    fun _ _ h => h)
  rintro _ _ - rfl
  refine Contract.seq_ret fun _ => ⟨rfl, ?_⟩
  rw [setAll_topologyFields srv acc.length (ps, parent)]
  exact recordTree_concat acc (ps, parent)

theorem wp_recordCalls {walk : Option PlanStatePtr → Nat → PgProg D (Bool × Nat)}
    {visit : Option PlanStatePtr → Visited → Option (Bool × Visited)}
    (hwalk : ∀ call acc, (walkContract srv p stackFrames instr fun _ _ => True).wp false
      (walk call acc.length) (Recorded srv be s (visit call acc))
      (fun _ => visit call acc = none) (s.recordTree srv be acc)) :
    ∀ calls acc, (walkContract srv p stackFrames instr fun _ _ => True).wp false
      (walkCalls walk calls acc.length) (Recorded srv be s (visitCalls visit calls acc))
      (fun _ => visitCalls visit calls acc = none) (s.recordTree srv be acc) := by
  intro calls
  induction calls with
  | nil =>
    intro acc
    exact Contract.seq_ret fun _ => ⟨acc, rfl, rfl, rfl⟩
  | cons call rest ih =>
    intro acc
    refine Contract.wp_bind (Contract.wp_mono (hwalk call acc) ?_ ?_)
    · rintro ⟨goOn, counter⟩ _ - ⟨acc', hvisit, rfl, rfl⟩
      cases goOn
      · exact Contract.seq_ret fun _ => ⟨acc', by rw [visitCalls, hvisit], rfl, rfl⟩
      · rw [visitCalls, hvisit]
        exact ih acc'
    · intro _ _ hnone
      rw [visitCalls, hnone]

/-- **The topology walk** records the nodes that `visits` lists; an error stops it where
`visits` runs out of calls. -/
theorem wp_recordWalk :
    ∀ frames ptr parent acc, (walkContract srv p stackFrames instr fun _ _ => True).wp false
      (walkPlanstateRecursive srv (topologyVisitor srv be maxNodes) frames ptr parent acc.length)
      (Recorded srv be s (visits srv maxNodes frames ptr parent acc))
      (fun _ => visits srv maxNodes frames ptr parent acc = none) (s.recordTree srv be acc) := by
  intro frames
  induction frames with
  | zero =>
    intro ptr parent acc
    refine Contract.seq_op nofun (fun _ => trivial) fun _ _ t _ => ⟨trivial, ?_⟩
    exact Contract.seq_raise fun _ => rfl
  | succ frames ih =>
    intro ptr parent acc
    cases ptr with
    | none => exact Contract.seq_ret fun _ => ⟨acc, rfl, rfl, rfl⟩
    | some ps =>
    rw [walkPlanstateRecursive, visits]
    split
    · exact Contract.seq_ret fun _ => ⟨acc, rfl, rfl, rfl⟩
    by_cases hfull : maxNodes ≤ acc.length
    · rw [if_pos hfull, topologyVisitor, if_pos hfull]
      exact Contract.seq_ret fun _ => ⟨acc, rfl, rfl, rfl⟩
    · rw [if_neg hfull]
      refine Contract.wp_bind (Contract.wp_mono (wp_recordVisitor (by omega)) ?_
        fun _ _ h => h)
      rintro _ _ - ⟨rfl, rfl⟩
      have hpos : ¬ ((acc.length : Int) < 0) := by omega
      have hlength : acc.length + 1 = (acc ++ [(ps, parent)]).length := by simp
      change (walkContract srv p stackFrames instr fun _ _ => True).wp false
        (if (acc.length : Int) < 0 then _ else _) _ _ _
      rw [if_neg hpos, hlength]
      exact wp_recordCalls (fun call acc' => ih call _ acc') _ _

variable (srv p stackFrames be maxNodes instr s) in
/-- How `pwh_remember_planstate_tree_as_metric_structure` ends. -/
theorem remember_outcome (ps : PlanStatePtr) :
    ∃ r t, (pwhRememberPlanstateTreeAsMetricStructure srv (some ps) be maxNodes).outcome
        (walkAlone srv p stackFrames instr) s = some (r, t) ∧
      (r = none → visits srv maxNodes stackFrames (some ps) (-1) [] = none) ∧
      ∀ c, r = some c → ∃ goOn acc,
        visits srv maxNodes stackFrames (some ps) (-1) [] = some (goOn, acc) ∧
          c = acc.length ∧ t = s.recordTree srv be acc := by
  have hops : (pwhRememberPlanstateTreeAsMetricStructure srv (some ps) be maxNodes).All
      (Op.OfWalk be) := pwhRememberPlanstateTreeAsMetricStructure_all (some ps) be maxNodes
  have hwp : (walkContract srv p stackFrames instr fun _ _ => True).wp false
      (pwhRememberPlanstateTreeAsMetricStructure srv (some ps) be maxNodes)
      (fun c t => ∃ goOn acc,
        visits srv maxNodes stackFrames (some ps) (-1) [] = some (goOn, acc) ∧
          c = acc.length ∧ t = s.recordTree srv be acc)
      (fun _ => visits srv maxNodes stackFrames (some ps) (-1) [] = none) s := by
    refine wp_walk_op rfl trivial ?_
    have hwalk : (walkContract srv p stackFrames instr fun _ _ => True).wp false
        (walkPlanstateRecursive srv (topologyVisitor srv be maxNodes) stackFrames (some ps) (-1) 0)
        (Recorded srv be s (visits srv maxNodes stackFrames (some ps) (-1) []))
        (fun _ => visits srv maxNodes stackFrames (some ps) (-1) [] = none)
        (s.recordTree srv be []) :=
      wp_recordWalk stackFrames (some ps) (-1) []
    rw [recordTree_nil] at hwalk
    refine Contract.wp_bind (Contract.wp_mono hwalk ?_ fun _ _ h => h)
    rintro ⟨goOn, counter⟩ _ - ⟨acc, hvisit, rfl, rfl⟩
    exact Contract.seq_ret fun _ => ⟨goOn, acc, hvisit, rfl, rfl⟩
  obtain ⟨⟨r, t⟩, houtcome⟩ := Option.ne_none_iff_exists'.mp
    (outcome_ne_none (hops.mono fun o h s => walkAlone_ne_none h s) s)
  obtain ⟨hret, hraise, -⟩ := Contract.seq_outcome hwp
  refine ⟨r, t, houtcome, ?_, ?_⟩
  · rintro rfl
    exact hraise t houtcome
  · rintro c rfl
    exact hret c t houtcome

/-- ...when it returns: with the beginning of the preorder list recorded. -/
theorem remember_take {n c : Nat} {ps : PlanStatePtr} {t : State D}
    (hheight : HeightLe srv n (some ps))
    (hrem : (pwhRememberPlanstateTreeAsMetricStructure srv (some ps) be maxNodes).outcome
      (walkAlone srv p stackFrames instr) s = some (some c, t)) :
    c = ((preorder srv n (some ps) (-1) 0).take maxNodes).length ∧
      t = s.recordTree srv be ((preorder srv n (some ps) (-1) 0).take maxNodes) := by
  obtain ⟨r, t', houtcome, -, hret⟩ := remember_outcome srv p stackFrames be maxNodes instr s ps
  rw [hrem] at houtcome
  cases houtcome
  obtain ⟨goOn, acc, hvisit, hc, ht⟩ := hret c rfl
  have hacc : acc = (preorder srv n (some ps) (-1) 0).take maxNodes := visits_root hheight hvisit
  rw [← hacc]
  exact ⟨hc, ht⟩

theorem recordTree_metrics (acc : Visited) (i : Nat) :
    ((s.recordTree srv be acc).entries be).metrics i =
      (acc[i]?).elim ((s.entries be).metrics i) (topologyRecord srv i) := by
  simp [State.recordTree, State.modifyEntry, recordNodes]

theorem recordTree_recordedNode (acc : Visited) (i : Nat) :
    (s.recordTree srv be acc).recordedNode be i =
      (acc[i]?).elim (s.recordedNode be i) fun x => some x.1 := by
  simp [State.recordTree]

/-- **The recorded topology** is the preorder list of the plan, cut off at `max_nodes`: the first
`c` records say which node it is and where its parent stands, the others are as they were. -/
theorem remember_records_preorder {n : Nat} {root : Option PlanStatePtr}
    (hheight : HeightLe srv n root) (s : State D) :
    ∃ r t, (pwhRememberPlanstateTreeAsMetricStructure srv root be maxNodes).outcome
        (walkAlone srv p stackFrames instr) s = some (r, t) ∧
      (n ≤ stackFrames → r ≠ none) ∧
      ∀ c, r = some c → c = min maxNodes (preorder srv n root (-1) 0).length ∧
        (∀ i x, i < c → (preorder srv n root (-1) 0)[i]? = some x →
          (t.entries be).metrics i = topologyRecord srv i x ∧
            (i = 0 ∧ x.2 = -1 ∨ ∃ q : Nat, q < i ∧ x.2 = q)) ∧
        ∀ i, c ≤ i → (t.entries be).metrics i = (s.entries be).metrics i := by
  cases root with
  | none =>
    refine ⟨some 0, s, rfl, fun _ => Option.some_ne_none _, ?_⟩
    rintro _ ⟨⟩
    have hnil : preorder srv n none (-1) 0 = [] := by
      cases n <;> rfl
    refine ⟨by rw [hnil]; exact (Nat.min_zero _).symm, ?_, fun _ _ => rfl⟩
    intro i x hi
    exact absurd hi (Nat.not_lt_zero i)
  | some ps =>
    obtain ⟨r, t, houtcome, hraise, -⟩ := remember_outcome srv p stackFrames be maxNodes instr s ps
    refine ⟨r, t, houtcome, fun hle h => visits_ne_none hheight hle (hraise h), ?_⟩
    intro c hc
    rw [hc] at houtcome
    obtain ⟨hlength, rfl⟩ := remember_take hheight houtcome
    refine ⟨by rw [hlength, List.length_take], ?_, ?_⟩
    · intro i x hi hx
      have hi' : ((preorder srv n (some ps) (-1) 0).take maxNodes)[i]? = some x := by
        rw [hlength, List.length_take] at hi
        rw [List.getElem?_take, if_pos (by omega), hx]
      refine ⟨by rw [recordTree_metrics, hi']; rfl, ?_⟩
      rcases preorder_parent hx with ⟨hi, -, hparent⟩ | ⟨q, y, hq, hparent, -⟩
      · exact .inl ⟨hi, hparent⟩
      · exact .inr ⟨q, hq, by rw [hparent, Nat.zero_add]⟩
    · intro i hi
      rw [recordTree_metrics, List.getElem?_eq_none (by rwa [hlength] at hi)]
      rfl

end Topology

/-- The topology of a nested loop, cut off after two of its three nodes. -/
theorem nestLoop_records_preorder :
    ∃ t, (pwhRememberPlanstateTreeAsMetricStructure (planServer .v14_ nestLoopPlan) (some 0) 0
        2).outcome (walkAlone (planServer .v14_ nestLoopPlan) 1 2 fun _ => none) State.init =
        some (some 2, t) ∧
      (t.entries 0).metrics 1 = topologyRecord (planServer .v14_ nestLoopPlan) 1 (1, 0) ∧
      (t.entries 0).metrics 2 = PwhNodeMetrics.zero := by
  have hheight : HeightLe (planServer .v14_ nestLoopPlan) 2 (some 0) := by decide
  obtain ⟨r, t, houtcome, hraise, hret⟩ := @remember_records_preorder ℚ _
    (planServer .v14_ nestLoopPlan) 1 2 0 2 (fun _ => none) 2 (some 0) hheight State.init
  obtain ⟨c, rfl⟩ := Option.ne_none_iff_exists'.mp (hraise (Nat.le_refl 2))
  obtain ⟨hc, hrecords, hrest⟩ := hret c rfl
  have hc : c = 2 := hc.trans (by decide)
  subst hc
  exact ⟨t, houtcome, (hrecords 1 (1, 0) (by decide) (by decide)).1, hrest 2 (Nat.le_refl 2)⟩

end WhatIsHappening
