/-
# `plan_tree_walker.c`

One traversal, two visitors: the topology visitor writes which plan node a record is about, the
instrumentation visitor what was measured on it.  `be` is the slot whose node array is written;
`*ctx->node_counter` is passed along.

The recursion is on the number of calls that `check_stack_depth` still admits.
-/
import WhatIsHappening.SharedMemory

namespace WhatIsHappening

open Interleaving Prog

variable {D : Type}

/-! ## 1. The traversal -/

/-- `PwhNodeVisitorFn`: a plan state, the id of its parent and the counter give the node's id,
negative to stop the traversal, and the new counter. -/
abbrev PwhNodeVisitorFn (D : Type) := PlanStatePtr → Int → Nat → PgProg D (Int × Nat)

/-- The member of a node that is followed only when it is not `NULL`. -/
def nonNull : Option PlanStatePtr → List (Option PlanStatePtr)
  | none => []
  | some ps => [some ps]

/-- The arguments of the recursive calls `walk_planstate_recursive` makes below a node, in order.
Initplans, the children of a ModifyTable and those of a custom scan are not among them. -/
def childCalls (ps : PlanState) : List (Option PlanStatePtr) :=
  nonNull ps.lefttree ++ nonNull ps.righttree ++ ps.subPlan ++
    match ps.kind with
    | .appendState plans => plans
    | .cteScanState plan => nonNull plan
    | .mergeAppendState plans => plans
    | .bitmapAndState plans => plans
    | .bitmapOrState plans => plans
    | .subqueryScanState plan => nonNull plan
    | _ => []

/-- Make the calls one after the other; the first that returns false ends the walk. -/
def walkCalls (walk : Option PlanStatePtr → Nat → PgProg D (Bool × Nat)) :
    List (Option PlanStatePtr) → Nat → PgProg D (Bool × Nat)
  | [], counter => return (true, counter)
  | call :: rest, counter => do
    let (goOn, counter) ← walk call counter
    if goOn then walkCalls walk rest counter else return (false, counter)

/-- `walk_planstate_recursive`. -/
def walkPlanstateRecursive (srv : Server D) (visitFn : PwhNodeVisitorFn D) :
    (stackFrames : Nat) → Option PlanStatePtr → Int → Nat → PgProg D (Bool × Nat)
  | 0, _, _, _ => ereportError
  | _ + 1, none, _, counter => return (true, counter)
  | stackFrames + 1, some planstate, parentId, counter =>
    if (srv.planState planstate).plan = none then return (true, counter)
    else do
      let (currentId, counter) ← visitFn planstate parentId counter
      if currentId < 0 then return (false, counter)
      walkCalls (fun call => walkPlanstateRecursive srv visitFn stackFrames call currentId)
        (childCalls (srv.planState planstate)) counter

/-! ## 2. The visitors

A visitor takes its node's id from the counter by a cast to `i32`.  The array has `max_nodes`
records and the setting behind `max_nodes` is at most 256, so the cast changes no id; in the
definitions below the id is the counter itself. -/

theorem nodeCounter_cast {gucs : Gucs} {counter : Nat} (h : counter < gucs.maxNodesPerQuery) :
    (Int32.ofNat counter).toInt = counter := by
  have hmax := gucs.maxNodesPerQuery_le
  exact Int32.toInt_ofNat_of_lt (by omega)

/-- Write the fields of record `id` one by one. -/
def writeNodeFields (be id : Nat) : List (Sigma fun f : NodeField => f.ty D) → PgProg D Unit
  | [] => return ()
  | w :: ws => do
    act (.writeNode be id w.1 w.2)
    writeNodeFields be id ws

section Visitors

variable [CDouble D]

/-- What `topology_visitor` writes into record `id`, in its order. -/
def topologyFields (id : Nat) (parentId : Int) (tag : NodeTag) :
    List (Sigma fun f : NodeField => f.ty D) :=
  [⟨.nodeId, UInt32.ofNat id⟩, ⟨.parentNodeId, (Int32.ofInt parentId).toUInt32⟩, ⟨.tag, tag⟩,
    ⟨.tuplesReturned, CDouble.ofNat 0⟩, ⟨.startupTimeUs, CDouble.ofNat 0⟩,
    ⟨.totalTimeUs, CDouble.ofNat 0⟩, ⟨.loopsExecuted, CDouble.ofNat 0⟩,
    ⟨.rowsFilteredByJoins, CDouble.ofNat 0⟩, ⟨.rowsFilteredByExpressions, CDouble.ofNat 0⟩,
    ⟨.cacheHits, (0 : UInt64)⟩, ⟨.cacheMisses, (0 : UInt64)⟩, ⟨.localCacheHits, (0 : UInt64)⟩,
    ⟨.localCacheMisses, (0 : UInt64)⟩, ⟨.spillFileReads, (0 : UInt64)⟩,
    ⟨.spillFileWrites, (0 : UInt64)⟩, ⟨.magic, PWH_NODE_MAGIC⟩]

/-- `nodeTag(planstate->plan)`. -/
def planTag (srv : Server D) (planstate : PlanStatePtr) : NodeTag :=
  (srv.planState planstate).plan.getD (.other 0)

/-- `topology_visitor`. -/
def topologyVisitor (srv : Server D) (be maxNodes : Nat) : PwhNodeVisitorFn D :=
  fun planstate parentId counter =>
    if maxNodes ≤ counter then return (-1, counter)
    else do
      act (.mark (.rememberNode be counter planstate))
      writeNodeFields be counter (topologyFields counter parentId (planTag srv planstate))
      return (counter, counter + 1)

/-- What `instrumentation_visitor` writes, in its order. -/
def instrumentationFields (instr : Instrumentation D) :
    List (Sigma fun f : NodeField => f.ty D) :=
  [⟨.tuplesReturned, CDouble.add instr.ntuples instr.tuplecount⟩,
    ⟨.loopsExecuted,
      CDouble.add instr.nloops (if instr.running then CDouble.ofNat 1 else CDouble.ofNat 0)⟩,
    ⟨.startupTimeUs,
      CDouble.mul (CDouble.add instr.startup instr.firsttuple) (CDouble.ofNat 1000000)⟩,
    ⟨.totalTimeUs, CDouble.mul (CDouble.add instr.total instr.counter) (CDouble.ofNat 1000000)⟩,
    ⟨.rowsFilteredByJoins, instr.nfiltered1⟩, ⟨.rowsFilteredByExpressions, instr.nfiltered2⟩,
    ⟨.cacheHits, instr.bufusage.sharedBlksHit⟩, ⟨.cacheMisses, instr.bufusage.sharedBlksRead⟩,
    ⟨.localCacheHits, instr.bufusage.localBlksHit⟩,
    ⟨.localCacheMisses, instr.bufusage.localBlksRead⟩,
    ⟨.spillFileReads, instr.bufusage.tempBlksRead⟩,
    ⟨.spillFileWrites, instr.bufusage.tempBlksWritten⟩]

/-- `instrumentation_visitor`. -/
def instrumentationVisitor (be maxNodes : Nat) : PwhNodeVisitorFn D :=
  fun planstate _ counter =>
    if maxNodes ≤ counter then return (-1, counter)
    else do
      if ← pwhValidateNodeMagic be counter then
        act (.mark (.collectNode be counter planstate))
        match ← act (.readInstrument planstate) with
        | some instr =>
          writeNodeFields be counter (instrumentationFields instr)
          return ((counter : Int), counter + 1)
        | none => return ((counter : Int), counter + 1)
      else return (-1, counter + 1)

/-! ## 3. The two walks -/

/-- `pwh_remember_planstate_tree_as_metric_structure`. -/
def pwhRememberPlanstateTreeAsMetricStructure (srv : Server D) (planstate : Option PlanStatePtr)
    (be maxNodes : Nat) : PgProg D Nat :=
  match planstate with
  | none => return 0
  | some ps => do
    let stackFrames ← act .stackFramesLeft
    let (_, nodeCounter) ← walkPlanstateRecursive srv (topologyVisitor srv be maxNodes)
      stackFrames (some ps) (-1) 0
    return nodeCounter

/-- `pwh_collect_planstate_metrics`. -/
def pwhCollectPlanstateMetrics (srv : Server D) (planstate : Option PlanStatePtr)
    (be maxNodes : Nat) : PgProg D Unit :=
  match planstate with
  | none => return ()
  | some ps => do
    act (.mark (.collectTree be ps))
    let stackFrames ← act .stackFramesLeft
    let _ ← walkPlanstateRecursive srv (instrumentationVisitor be maxNodes)
      stackFrames (some ps) (-1) 0
    return ()

end Visitors

end WhatIsHappening
