/-
# What the walks of a plan tree perform

A walk performs what its visitor performs and asks for the stack, and the error of
`check_stack_depth` is the only one it raises.  The two visitors of the extension write to records
of one slot below `max_nodes`, so a whole walk does; and so does the recording of a query, which
writes the other fields of that slot behind its walk.
-/
import WhatIsHappening.Frame

namespace WhatIsHappening

open Interleaving Prog

variable {D : Type} {srv : Server D} {p : Pid} {o : Op D} {e : Env D} {s t : State D}
  {r : Res o}

/-! ## 1. Walks with any visitor -/

/-- The operations of a walk that writes into slot `be`. -/
def Op.OfWalk (be : Nat) : Op D → Prop
  | .mark (.rememberNode i _ _) | .mark (.collectTree i _) | .mark (.collectNode i _ _) => i = be
  | .readNode i _ _ | .writeNode i _ _ _ => i = be
  | .stackFramesLeft | .readInstrument _ | .ereportError => True
  | _ => False

section Walks

variable {P : Op D → Prop} {bad : (o : Op D) → Res o → Prop}

/-- The calls from one node perform what the walks below it do. -/
theorem walkCalls_all {walk : Option PlanStatePtr → Nat → PgProg D (Bool × Nat)}
    (h : ∀ call counter, (walk call counter).All P) :
    ∀ calls counter, (walkCalls walk calls counter).All P
  | [], _ => trivial
  | call :: rest, counter => (h call counter).bind fun a => by
    obtain ⟨goOn, counter⟩ := a
    cases goOn
    · trivial
    · exact walkCalls_all h rest counter

/-- A walk performs what its visitor performs, and may raise an error. -/
theorem walkPlanstateRecursive_all {visitFn : PwhNodeVisitorFn D} (he : P .ereportError)
    (h : ∀ ps parentId counter, (visitFn ps parentId counter).All P) :
    ∀ stackFrames ptr parentId counter,
      (walkPlanstateRecursive srv visitFn stackFrames ptr parentId counter).All P
  | 0, _, _, _ => ⟨he, fun _ => trivial⟩
  | _ + 1, none, _, _ => trivial
  | stackFrames + 1, some ps, parentId, counter => by
    simp only [walkPlanstateRecursive]
    split
    · trivial
    · refine (h ps parentId counter).bind fun a => ?_
      obtain ⟨currentId, counter⟩ := a
      by_cases hneg : currentId < 0
      · simp [hneg]
      · simp only [hneg, if_false]
        exact walkCalls_all
          (fun call counter => walkPlanstateRecursive_all he h stackFrames call currentId counter)
          _ counter

section WalkRule

variable {σ : Type} {L : Contract (Res (D := D)) σ} {m : Bool} {I : Nat → σ → Prop} {E : σ → Prop}
  {visitFn : PwhNodeVisitorFn D}

/-- What holds of the counter, and is kept by every visit, is kept by a walk. -/
theorem wp_walkPlanstateRecursive (hst : ∀ counter, L.Stable (I counter))
    (herror : ∀ counter s, I counter s →
      L.wp m (ereportError : PgProg D (Bool × Nat)) (fun r => I r.2) E s)
    (hvisit : ∀ ps parentId counter s, I counter s →
      L.wp m (visitFn ps parentId counter) (fun r => I r.2) E s) :
    ∀ stackFrames ptr parentId counter s, I counter s →
      L.wp m (walkPlanstateRecursive srv visitFn stackFrames ptr parentId counter)
        (fun r => I r.2) E s
  | 0, _, _, counter, s, hs => herror counter s hs
  | _ + 1, none, _, counter, s, hs => Contract.wp_ret (hst counter) hs
  | stackFrames + 1, some ps, parentId, counter, s, hs => by
    unfold walkPlanstateRecursive
    split
    · exact Contract.wp_ret (hst counter) hs
    refine Contract.wp_bind (Contract.wp_mono (hvisit ps parentId counter s hs) ?_ fun _ _ h => h)
    rintro ⟨currentId, counter'⟩ t - ht
    by_cases hneg : currentId < 0
    · simp only [hneg, if_true]
      exact Contract.wp_ret (hst counter') ht
    simp only [hneg, if_false]
    -- the counter goes from one call to the next
    have hcalls : ∀ calls counter s, I counter s →
        L.wp m (walkCalls
          (fun call => walkPlanstateRecursive srv visitFn stackFrames call currentId)
          calls counter) (fun r => I r.2) E s := by
      intro calls
      induction calls with
      | nil => exact fun counter s hs => Contract.wp_ret (hst counter) hs
      | cons call rest ih =>
        intro counter s hs
        refine Contract.wp_bind (Contract.wp_mono (wp_walkPlanstateRecursive hst herror hvisit
          stackFrames call currentId counter s hs) ?_ fun _ _ h => h)
        rintro ⟨goOn, counter'⟩ t - ht
        cases goOn
        · exact Contract.wp_ret (hst counter') ht
        · exact ih counter' t ht
    exact hcalls _ counter' t ht

end WalkRule

/-- Of the calls from one node each may raise an error. -/
theorem walkCalls_raisesAfter {walk : Option PlanStatePtr → Nat → PgProg D (Bool × Nat)}
    (hwalk : ∀ call counter, (walk call counter).RaisesAfter bad) :
    ∀ calls counter, (walkCalls walk calls counter).RaisesAfter bad := by
  intro calls
  induction calls with
  | nil => exact fun _ => trivial
  | cons call rest ih =>
    intro counter
    refine (hwalk call counter).bind fun r => ?_
    dsimp only
    split
    · exact ih _
    · trivial

/-- With a visitor that raises none, the only error of a walk is the one at the end of the stack. -/
theorem walkPlanstate_raisesAfter {visitFn : PwhNodeVisitorFn D}
    (hbad : ∀ r, bad .ereportError r)
    (hvisit : ∀ ps parent counter, (visitFn ps parent counter).NoRaise) :
    ∀ frames ptr parent counter, (walkPlanstateRecursive srv visitFn frames ptr parent
      counter).RaisesAfter bad := by
  intro frames
  induction frames with
  | zero => exact fun _ _ _ => ereportError_raisesAfter hbad
  | succ frames ih =>
    intro ptr parent counter
    cases ptr with
    | none => trivial
    | some ps =>
    rw [walkPlanstateRecursive]
    split
    · trivial
    refine (hvisit ps parent counter).raisesAfter.bind fun r => ?_
    dsimp only
    split
    · trivial
    · exact walkCalls_raisesAfter (fun call counter => ih call _ counter) _ _

/-- Fields are written one after the other... -/
theorem writeNodeFields_all {be id : Nat} :
    ∀ ws : List (Sigma fun f : NodeField => f.ty D), (∀ w ∈ ws, P (.writeNode be id w.1 w.2)) →
      (writeNodeFields be id ws).All P
  | [], _ => trivial
  | w :: ws, h => ⟨h w (by simp), fun _ => writeNodeFields_all ws fun v hv => h v (by simp [hv])⟩

theorem writeNodeFields_noRaise {be id : Nat} :
    ∀ ws : List (Sigma fun f : NodeField => f.ty D), (writeNodeFields be id ws).NoRaise
  | [] => trivial
  | _ :: ws => fun _ => writeNodeFields_noRaise ws

/-- ...and so are the bytes of a text. -/
theorem writeQueryText_all {be : Nat} :
    ∀ ws : List (Nat × UInt8), (∀ w ∈ ws, P (.writeQueryTextByte be w.1 w.2)) →
      (writeQueryText be ws).All P
  | [], _ => trivial
  | w :: ws, h => ⟨h w (by simp), fun _ => writeQueryText_all ws fun v hv => h v (by simp [hv])⟩

/-! ## 2. The two walks of the extension -/

variable [CDouble D]

/-- The fields `topology_visitor` writes are all there are. -/
theorem mem_topologyFields (id : Nat) (parentId : Int) (tag : NodeTag) (f : NodeField) :
    f ∈ (topologyFields id parentId tag :
      List (Sigma fun f : NodeField => f.ty D)).map Sigma.fst := by
  cases f <;> simp [topologyFields]

/-- The operations of a walk that writes to records below `max_nodes` only. -/
theorem pwhRememberPlanstateTreeAsMetricStructure_all_of {be maxNodes : Nat}
    (hP : ∀ o : Op D, o.OfWalk be → (∀ i k f v, o = .writeNode i k f v → k < maxNodes) → P o)
    (ps : Option PlanStatePtr) :
    (pwhRememberPlanstateTreeAsMetricStructure srv ps be maxNodes).All P := by
  cases ps with
  | none => trivial
  | some ps =>
    refine act_all (hP _ trivial (by simp)) fun stackFrames => ?_
    refine (walkPlanstateRecursive_all (hP _ trivial (by simp))
      (fun ps parentId counter => ?_) _ _ _ _).bind fun _ => trivial
    unfold topologyVisitor
    split
    · trivial
    · have hcounter : counter < maxNodes := by omega
      refine act_all (hP _ rfl (by simp)) fun _ => Prog.All.bind ?_ fun _ => trivial
      exact writeNodeFields_all _ fun w _ => hP _ rfl (by rintro _ _ _ _ ⟨⟩; exact hcounter)

/-- The same of a collection, which writes where the magic is right. -/
theorem pwhCollectPlanstateMetrics_all_of {be maxNodes : Nat}
    (hP : ∀ o : Op D, o.OfWalk be → (∀ i k f v, o = .writeNode i k f v → k < maxNodes) → P o)
    (ps : Option PlanStatePtr) : (pwhCollectPlanstateMetrics srv ps be maxNodes).All P := by
  cases ps with
  | none => trivial
  | some ps =>
    refine act_all (hP _ rfl (by simp)) fun _ => act_all (hP _ trivial (by simp))
      fun stackFrames => ?_
    refine (walkPlanstateRecursive_all (hP _ trivial (by simp))
      (fun ps parentId counter => ?_) _ _ _ _).bind fun _ => trivial
    unfold instrumentationVisitor
    split
    · trivial
    · have hcounter : counter < maxNodes := by omega
      rw [pwhValidateNodeMagic_bind]
      refine act_all (hP _ rfl (by simp)) fun magic => ?_
      by_cases hm : magic = PWH_NODE_MAGIC
      · simp only [hm, decide_true, if_true]
        refine act_all (hP _ rfl (by simp)) fun _ => act_all (hP _ trivial (by simp))
          fun instr => ?_
        cases instr with
        | none => trivial
        | some instr =>
          refine Prog.All.bind ?_ fun _ => trivial
          exact writeNodeFields_all _ fun w _ => hP _ rfl (by rintro _ _ _ _ ⟨⟩; exact hcounter)
      · simp [hm]

/-- Both walks keep to their slot. -/
theorem pwhRememberPlanstateTreeAsMetricStructure_all (ps : Option PlanStatePtr)
    (be maxNodes : Nat) :
    (pwhRememberPlanstateTreeAsMetricStructure srv ps be maxNodes).All (Op.OfWalk be) :=
  pwhRememberPlanstateTreeAsMetricStructure_all_of (fun _ ho _ => ho) ps

theorem pwhCollectPlanstateMetrics_all (ps : Option PlanStatePtr) (be maxNodes : Nat) :
    (pwhCollectPlanstateMetrics srv ps be maxNodes).All (Op.OfWalk be) :=
  pwhCollectPlanstateMetrics_all_of (fun _ ho _ => ho) ps

/-- A collection reads nothing of a node but its magic. -/
theorem pwhCollectPlanstateMetrics_performs {be : Nat}
    (htree : ∀ ps, P (.mark (.collectTree be ps))) (hstack : P .stackFramesLeft)
    (herror : P .ereportError) (hmagic : ∀ j, P (.readNode be j .magic))
    (hnode : ∀ j ps, P (.mark (.collectNode be j ps))) (hread : ∀ ps, P (.readInstrument ps))
    (hwrite : ∀ j (instr : Instrumentation D), ∀ w ∈ instrumentationFields instr,
      P (.writeNode be j w.1 w.2))
    (ps : Option PlanStatePtr) (maxNodes : Nat) :
    (pwhCollectPlanstateMetrics srv ps be maxNodes).All P := by
  cases ps with
  | none => trivial
  | some ps =>
    refine act_all (htree ps) fun _ => act_all hstack fun stackFrames => ?_
    refine (walkPlanstateRecursive_all herror (fun ps parentId counter => ?_) _ _ _ _).bind
      fun _ => trivial
    unfold instrumentationVisitor
    split
    · trivial
    · rw [pwhValidateNodeMagic_bind]
      refine act_all (hmagic counter) fun magic => ?_
      split
      · refine act_all (hnode counter ps) fun _ => act_all (hread ps) fun instr => ?_
        cases instr with
        | none => trivial
        | some instr =>
          exact (writeNodeFields_all _ (hwrite counter instr)).bind fun _ => trivial
      · trivial

theorem instrumentationVisitor_noRaise (be maxNodes : Nat) (ps : PlanStatePtr) (parent : Int)
    (counter : Nat) : (instrumentationVisitor be maxNodes ps parent counter :
      PgProg D (Int × Nat)).NoRaise := by
  rw [instrumentationVisitor]
  split
  · trivial
  rw [pwhValidateNodeMagic_bind]
  refine act_noRaise fun magic => ?_
  split
  · refine act_noRaise fun _ => act_noRaise fun i => ?_
    cases i with
    | none => trivial
    | some i => exact (writeNodeFields_noRaise _).bind fun _ => trivial
  · trivial

/-- A collection fails where the stack ends, and nowhere else. -/
theorem pwhCollectPlanstateMetrics_raisesAfter (hbad : ∀ r, bad .ereportError r)
    (ps : Option PlanStatePtr) (be maxNodes : Nat) :
    (pwhCollectPlanstateMetrics srv ps be maxNodes).RaisesAfter bad := by
  cases ps with
  | none => trivial
  | some ps =>
    refine act_raisesAfter fun _ => act_raisesAfter fun _ => ?_
    exact (walkPlanstate_raisesAfter hbad (instrumentationVisitor_noRaise be _) _ _ _ _).bind
      fun _ => trivial

/-! ## 3. A query is recorded -/

/-- The operations with which a query is recorded in slot `be`. -/
def Op.OfTrack (be : Nat) : Op D → Prop
  | .mark (.rememberQuery i _) => i = be
  | .writeCountOfMetrics i _ | .writeQueryStartTime i _ | .writeQueryId i _
  | .writeQueryTextByte i _ _ => i = be
  | .getCurrentTimestamp | .setCurrentQueryDesc _ => True
  | o => o.OfWalk be

omit [CDouble D] in
/-- The walk is a part of it. -/
theorem Op.OfWalk.ofTrack {be : Nat} {o : Op D} (h : o.OfWalk be) : o.OfTrack be := by
  cases o
  case mark m => cases m <;> first | exact h | exact h.elim
  all_goals first | exact h | exact h.elim

/-- The walk comes first, then the count, the time, the id and the text. -/
theorem trackQuery_all (be : Nat) (q : QueryDescPtr) :
    (trackQuery srv p be q).All (Op.OfTrack be) := by
  unfold trackQuery
  refine act_all rfl fun _ => ?_
  refine ((pwhRememberPlanstateTreeAsMetricStructure_all _ be _).mono
    fun _ h => h.ofTrack).bind fun numNodes => ?_
  refine act_all rfl fun _ => act_all trivial fun now => act_all rfl fun _ => ?_
  refine Prog.All.bind ?_ fun queryId => act_all rfl fun _ => Prog.All.bind ?_ fun _ =>
    ⟨trivial, fun _ => trivial⟩
  · unfold getQueryId
    split
    · exact act_all trivial fun _ => trivial
    · trivial
  · unfold copyQueryText
    split
    · exact writeQueryText_all _ fun _ _ => rfl
    · exact ⟨rfl, fun _ => trivial⟩

omit [CDouble D] in
/-- Nothing but that slot changes, and its pid does not. -/
theorem exec_ofTrack {be : Nat} (ho : o.OfTrack be) (h : exec srv p o e s = some (r, t)) :
    (∀ i ≠ be, t.entries i = s.entries i) ∧ ∀ i, t.pid i = s.pid i := by
  refine ⟨fun i hi => ?_, fun i => (exec_pid h i).resolve_right ?_⟩
  · cases o
    case mark m => cases m <;> (cases h; rfl)
    case readInstrument ps => cases h; cases e.instrument <;> rfl
    all_goals first
      | exact ho.elim
      | (cases h; first | rfl | (cases ho; exact State.entries_modifyEntry_of_ne s _ hi))
  · rintro ⟨v, rfl, -⟩
    exact ho.elim

end Walks

end WhatIsHappening
