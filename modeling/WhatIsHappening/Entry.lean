/-
# The data

The records of `shared_memory.h`, and what the extension sees of PostgreSQL's own: plan state
nodes, their instrumentation, and query descriptors.  Pointers into PostgreSQL's memory are
numbers; `Server` says what they point at.
-/
import WhatIsHappening.Common

namespace WhatIsHappening

/-! ## 1. Plan nodes -/

/-- A pointer to a `PlanState`. -/
abbrev PlanStatePtr := Nat

/-- A pointer to a `QueryDesc`. -/
abbrev QueryDescPtr := Nat

/-- A process id: an `int` that is not negative.  In a slot, `0` stands for "nobody". -/
abbrev Pid := Fin 2147483648

/-- What the numerals of `Pid` rest on. -/
instance pidBound_neZero : NeZero (2147483648 : Nat) := ⟨by decide⟩

/-- The node tags the source names; every other tag is `other`. -/
inductive NodeTag where
  | result | modifyTable | append | mergeAppend | recursiveUnion | bitmapAnd | bitmapOr
  | seqScan | indexScan | indexOnlyScan | bitmapIndexScan | bitmapHeapScan | tidScan
  | subqueryScan | functionScan | valuesScan | cteScan | workTableScan | foreignScan
  | nestLoop | mergeJoin | hashJoin | material | sort | group | agg | windowAgg | unique
  | hash | setOp | lockRows | limit | customScan | gather | gatherMerge | projectSet
  | tableFuncScan | namedTuplestoreScan | incrementalSort | memoize
  | other (n : Nat)
  deriving DecidableEq, Repr

/-- `nodeTag(planstate)` together with the members that only this kind of node has. -/
inductive PlanStateKind where
  | appendState (appendplans : List (Option PlanStatePtr))
  | cteScanState (cteplanstate : Option PlanStatePtr)
  | mergeAppendState (mergeplans : List (Option PlanStatePtr))
  | bitmapAndState (bitmapplans : List (Option PlanStatePtr))
  | bitmapOrState (bitmapplans : List (Option PlanStatePtr))
  | subqueryScanState (subplan : Option PlanStatePtr)
  | modifyTableState (mtPlans : List (Option PlanStatePtr))
  | customScanState (customPs : List (Option PlanStatePtr))
  | otherState

/-- A `PlanState`: the tag of its plan (`none` for a `NULL` plan) and its children.  The
instrumentation changes while the query runs and is read by an operation of its own. -/
structure PlanState where
  plan : Option NodeTag
  kind : PlanStateKind := .otherState
  lefttree : Option PlanStatePtr := none
  righttree : Option PlanStatePtr := none
  initPlan : List (Option PlanStatePtr) := []
  subPlan : List (Option PlanStatePtr) := []

/-- `BufferUsage`, as far as `PWH_COPY_BUFUSAGE` reads it. -/
structure BufUsage where
  sharedBlksHit : UInt64
  sharedBlksRead : UInt64
  localBlksHit : UInt64
  localBlksRead : UInt64
  tempBlksRead : UInt64
  tempBlksWritten : UInt64
  deriving DecidableEq

/-- `Instrumentation`.  The four times are in seconds, as the version's accessor returns them. -/
structure Instrumentation (D : Type) where
  running : Bool
  ntuples : D
  tuplecount : D
  nloops : D
  startup : D
  firsttuple : D
  total : D
  counter : D
  nfiltered1 : D
  nfiltered2 : D
  bufusage : BufUsage

/-- A C string: bytes without a NUL. -/
structure CString where
  bytes : List UInt8
  nul_free : 0 ∉ bytes := by decide

/-- A `QueryDesc`: `queryId` is `PWH_GET_QUERY_ID(plannedstmt)`, which is `0` before version 12
and while no module computes query ids. -/
structure QueryDesc (D : Type) where
  planstate : Option PlanStatePtr
  queryId : UInt64
  totalCost : D
  sourceText : Option CString

/-- The server versions `compatibility.h` tells apart where it names node tags. -/
inductive PgVersion where
  | v9_4 | v9_5 | v9_6 | v10_12 | v13 | v14_
  deriving DecidableEq, Repr

/-- The fixed part of a server: its version, its settings, and what the pointers point at. -/
structure Server (D : Type) where
  version : PgVersion
  gucs : Gucs
  planState : PlanStatePtr → PlanState
  queryDesc : QueryDescPtr → QueryDesc D

/-! ## 2. Node records -/

/-- `PWH_NODE_MAGIC`. -/
def PWH_NODE_MAGIC : UInt64 := 0xDEADBEEF

/-- `PwhNodeMetrics.execution`. -/
structure Execution (D : Type) where
  tuplesReturned : D
  loopsExecuted : D
  startupTimeUs : D
  totalTimeUs : D
  rowsFilteredByJoins : D
  rowsFilteredByExpressions : D

/-- `PwhNodeMetrics.buffer_usage`. -/
structure BufferUsage where
  cacheHits : UInt64
  cacheMisses : UInt64
  localCacheHits : UInt64
  localCacheMisses : UInt64
  spillFileReads : UInt64
  spillFileWrites : UInt64

/-- `PwhNodeMetrics`. -/
structure PwhNodeMetrics (D : Type) where
  tag : NodeTag
  nodeId : UInt32
  parentNodeId : UInt32
  execution : Execution D
  bufferUsage : BufferUsage
  magic : UInt64

/-- The fields of a `PwhNodeMetrics`, each of which is read and written in one step. -/
inductive NodeField where
  | tag | nodeId | parentNodeId | tuplesReturned | loopsExecuted | startupTimeUs
  | totalTimeUs | rowsFilteredByJoins | rowsFilteredByExpressions | cacheHits | cacheMisses
  | localCacheHits | localCacheMisses | spillFileReads | spillFileWrites | magic
  deriving DecidableEq, Repr

namespace NodeField

/-- The type of a field. -/
@[reducible] def ty (D : Type) : NodeField → Type
  | tag => NodeTag
  | nodeId | parentNodeId => UInt32
  | tuplesReturned | loopsExecuted | startupTimeUs | totalTimeUs => D
  | rowsFilteredByJoins | rowsFilteredByExpressions => D
  | cacheHits | cacheMisses | localCacheHits | localCacheMisses => UInt64
  | spillFileReads | spillFileWrites | magic => UInt64

/-- Whether a field says which plan node the record is about, rather than what was measured. -/
def identifies : NodeField → Bool
  | tag | nodeId | parentNodeId | magic => true
  | _ => false

end NodeField

namespace PwhNodeMetrics

variable {D : Type}

/-- Read one field. -/
def get (n : PwhNodeMetrics D) : (f : NodeField) → f.ty D
  | .tag => n.tag
  | .nodeId => n.nodeId
  | .parentNodeId => n.parentNodeId
  | .tuplesReturned => n.execution.tuplesReturned
  | .loopsExecuted => n.execution.loopsExecuted
  | .startupTimeUs => n.execution.startupTimeUs
  | .totalTimeUs => n.execution.totalTimeUs
  | .rowsFilteredByJoins => n.execution.rowsFilteredByJoins
  | .rowsFilteredByExpressions => n.execution.rowsFilteredByExpressions
  | .cacheHits => n.bufferUsage.cacheHits
  | .cacheMisses => n.bufferUsage.cacheMisses
  | .localCacheHits => n.bufferUsage.localCacheHits
  | .localCacheMisses => n.bufferUsage.localCacheMisses
  | .spillFileReads => n.bufferUsage.spillFileReads
  | .spillFileWrites => n.bufferUsage.spillFileWrites
  | .magic => n.magic

/-- Write one field. -/
def set (n : PwhNodeMetrics D) : (f : NodeField) → f.ty D → PwhNodeMetrics D
  | .tag, v => { n with tag := v }
  | .nodeId, v => { n with nodeId := v }
  | .parentNodeId, v => { n with parentNodeId := v }
  | .tuplesReturned, v => { n with execution := { n.execution with tuplesReturned := v } }
  | .loopsExecuted, v => { n with execution := { n.execution with loopsExecuted := v } }
  | .startupTimeUs, v => { n with execution := { n.execution with startupTimeUs := v } }
  | .totalTimeUs, v => { n with execution := { n.execution with totalTimeUs := v } }
  | .rowsFilteredByJoins, v =>
    { n with execution := { n.execution with rowsFilteredByJoins := v } }
  | .rowsFilteredByExpressions, v =>
    { n with execution := { n.execution with rowsFilteredByExpressions := v } }
  | .cacheHits, v => { n with bufferUsage := { n.bufferUsage with cacheHits := v } }
  | .cacheMisses, v => { n with bufferUsage := { n.bufferUsage with cacheMisses := v } }
  | .localCacheHits, v => { n with bufferUsage := { n.bufferUsage with localCacheHits := v } }
  | .localCacheMisses, v =>
    { n with bufferUsage := { n.bufferUsage with localCacheMisses := v } }
  | .spillFileReads, v => { n with bufferUsage := { n.bufferUsage with spillFileReads := v } }
  | .spillFileWrites, v => { n with bufferUsage := { n.bufferUsage with spillFileWrites := v } }
  | .magic, v => { n with magic := v }

@[simp] theorem get_set_self (n : PwhNodeMetrics D) (f : NodeField) (v : f.ty D) :
    (n.set f v).get f = v := by
  cases f <;> rfl

theorem get_set_of_ne (n : PwhNodeMetrics D) {f g : NodeField} (v : f.ty D) (h : g ≠ f) :
    (n.set f v).get g = n.get g := by
  cases f <;> cases g <;> first | rfl | exact absurd rfl h

end PwhNodeMetrics

/-! ## 3. Slots -/

/-- `PwhSharedMemoryBackendEntry` with the two regions that follow it: the query text and the
node array. -/
structure PwhSharedMemoryBackendEntry (D : Type) where
  backendPid : Pid
  queryId : UInt64
  pollGeneration : UInt32
  queryStartTime : Int64
  countOfMetrics : UInt32
  queryText : Nat → UInt8
  metrics : Nat → PwhNodeMetrics D

namespace PwhSharedMemoryBackendEntry

variable {D : Type}

/-- `pwh_is_backend_entry_active`. -/
def isActive (be : PwhSharedMemoryBackendEntry D) : Bool := be.backendPid != 0

/-- The query text as a C string: the bytes before the first NUL of its region. -/
def text (maxQueryTextLen : Nat) (be : PwhSharedMemoryBackendEntry D) : List UInt8 :=
  ((List.range maxQueryTextLen).map be.queryText).takeWhile (· ≠ 0)

end PwhSharedMemoryBackendEntry

/-! ## 4. What the readers show -/

/-- `MetricType` (`metrics.h`). -/
inductive MetricType where
  | tuplesReturned
  | startupTimeUs
  | totalTimeUs
  | loopsExecuted
  | timeSeconds
  | timePercent
  | cacheHits
  | cacheMisses
  | localCacheHits
  | localCacheMisses
  | spillFileReads
  | spillFileWrites
  | rowsFilteredByJoins
  | rowsFilteredByExpressions
  deriving DecidableEq, Repr

/-- One row of `what_is_happening.v1_status`, by column. -/
structure StatusRow (D : Type) where
  backendPid : Pid
  queryId : UInt64
  queryText : List UInt8
  nodeId : UInt32
  parentNodeId : UInt32
  nodeTag : NodeTag
  startupTimeUs : D
  totalTimeUs : D
  loopsExecuted : D
  tuplesReturned : D
  timeSeconds : D
  timePercent : D
  cacheHits : UInt64
  cacheMisses : UInt64
  localCacheHits : UInt64
  localCacheMisses : UInt64
  spillFileReads : UInt64
  spillFileWrites : UInt64
  rowsFilteredByJoins : D
  rowsFilteredByExpressions : D

/-- The value of a sample before it is printed: a `double` or an integer counter. -/
inductive MetricValue (D : Type) where
  | double (x : D)
  | counter (n : UInt64)

/-- One sample line of `/metrics`, as `formatter_append_metric` reads it. -/
structure NodeSample (D : Type) where
  type : MetricType
  queryId : UInt64
  nodeId : UInt32
  parentNodeId : UInt32
  tag : NodeTag
  value : MetricValue D

/-- What `pwh_format_openmetrics` reads of one active slot: the query_info line and the
samples. -/
structure EntryReading (D : Type) where
  queryId : UInt64
  backendPid : Pid
  queryText : List UInt8
  samples : List (NodeSample D)

/-- What a reader shows of one slot. -/
inductive Emission (D : Type) where
  | row (r : StatusRow D)
  | entry (r : EntryReading D)

end WhatIsHappening
