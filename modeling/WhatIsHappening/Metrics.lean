/-
# `metrics.c` and the scan of `v1_status_f`

The two ways a slot is shown: rows of the view, and lines of the exposition.  Reading a slot is a
program, since the slot may change between two reads; turning what was read into text is a
function.
-/
import WhatIsHappening.SharedMemory

namespace WhatIsHappening

open Interleaving Prog

variable {D : Type}

/-! ## 1. Names -/

/-- The metric types in the order of the enumeration, `METRIC_START` to `METRIC_COUNT - 1`. -/
def metricTypes : List MetricType :=
  [.tuplesReturned, .startupTimeUs, .totalTimeUs, .loopsExecuted, .timeSeconds, .timePercent,
    .cacheHits, .cacheMisses, .localCacheHits, .localCacheMisses, .spillFileReads,
    .spillFileWrites, .rowsFilteredByJoins, .rowsFilteredByExpressions]

/-- `metric_suffix`. -/
def metricSuffix : MetricType → String
  | .tuplesReturned => "tuples_returned"
  | .startupTimeUs => "startup_time_us"
  | .totalTimeUs => "total_time_us"
  | .loopsExecuted => "loops_executed"
  | .timeSeconds => "time_seconds"
  | .timePercent => "time_percent"
  | .cacheHits => "cache_hits"
  | .cacheMisses => "cache_misses"
  | .localCacheHits => "local_cache_hits"
  | .localCacheMisses => "local_cache_misses"
  | .spillFileReads => "spill_file_reads"
  | .spillFileWrites => "spill_file_writes"
  | .rowsFilteredByJoins => "rows_filtered_by_joins"
  | .rowsFilteredByExpressions => "rows_filtered_by_expressions"

/-- `metric_help`. -/
def metricHelp : MetricType → String
  | .tuplesReturned => "Number of tuples returned by plan node"
  | .startupTimeUs => "Startup time in microseconds"
  | .totalTimeUs => "Total execution time in microseconds"
  | .loopsExecuted => "Number of times plan node was executed"
  | .timeSeconds => "Execution time for active query plan node in seconds"
  | .timePercent => "Percentage of total query time spent in this node"
  | .cacheHits => "Shared buffer cache hits"
  | .cacheMisses => "Shared buffer cache misses"
  | .localCacheHits => "Local buffer cache hits"
  | .localCacheMisses => "Local buffer cache misses"
  | .spillFileReads => "Blocks read from spill files"
  | .spillFileWrites => "Blocks written to spill files"
  | .rowsFilteredByJoins => "Rows filtered by scan or join conditions"
  | .rowsFilteredByExpressions => "Rows filtered by other filter expressions"

/-- `node_to_name`. -/
def nodeToName : NodeTag → Option String
  | .result => some "Result"
  | .modifyTable => some "ModifyTable"
  | .append => some "Append"
  | .mergeAppend => some "MergeAppend"
  | .recursiveUnion => some "RecursiveUnion"
  | .bitmapAnd => some "BitmapAnd"
  | .bitmapOr => some "BitmapOr"
  | .seqScan => some "SeqScan"
  | .indexScan => some "IndexScan"
  | .indexOnlyScan => some "IndexOnlyScan"
  | .bitmapIndexScan => some "BitmapIndexScan"
  | .bitmapHeapScan => some "BitmapHeapScan"
  | .tidScan => some "TidScan"
  | .subqueryScan => some "SubqueryScan"
  | .functionScan => some "FunctionScan"
  | .valuesScan => some "ValuesScan"
  | .cteScan => some "CteScan"
  | .workTableScan => some "WorkTableScan"
  | .foreignScan => some "ForeignScan"
  | .nestLoop => some "NestLoop"
  | .mergeJoin => some "MergeJoin"
  | .hashJoin => some "HashJoin"
  | .material => some "Material"
  | .sort => some "Sort"
  | .group => some "Group"
  | .agg => some "Agg"
  | .windowAgg => some "WindowAgg"
  | .unique => some "Unique"
  | .hash => some "Hash"
  | .setOp => some "SetOp"
  | .lockRows => some "LockRows"
  | .limit => some "Limit"
  | _ => none

/-- `pwh_node_tag_to_string_inline`, by server version. -/
def pwhNodeTagToStringInline : PgVersion → NodeTag → Option String
  | .v9_4, _ => none
  | .v9_5, .customScan => some "CustomScan"
  | .v9_5, _ => none
  | .v9_6, .customScan => some "CustomScan"
  | .v9_6, .gather => some "Gather"
  | .v9_6, _ => none
  | _, .customScan => some "CustomScan"
  | _, .gather => some "Gather"
  | _, .gatherMerge => some "GatherMerge"
  | _, .projectSet => some "ProjectSet"
  | _, .tableFuncScan => some "TableFuncScan"
  | _, .namedTuplestoreScan => some "NamedTuplestoreScan"
  | .v13, .incrementalSort => some "IncrementalSort"
  | .v14_, .incrementalSort => some "IncrementalSort"
  | .v14_, .memoize => some "Memoize"
  | _, _ => none

/-- `pwh_node_tag_to_string`. -/
def pwhNodeTagToString (ver : PgVersion) (tag : NodeTag) : String :=
  match nodeToName tag with
  | some name => name
  | none => (pwhNodeTagToStringInline ver tag).getD "Unknown"

/-! ## 2. The output buffer -/

/-- `METRIC_BUFFER_SIZE`. -/
def METRIC_BUFFER_SIZE : Nat := 65536

/-- `FormatterBuffer`: the allocated memory, of which the first `size` bytes are ours. -/
structure FormatterBuffer where
  data : Nat → UInt8
  offset : Nat
  size : Nat

namespace FormatterBuffer

/-- `buffer_init`; `palloc` does not clear the memory. -/
def init (palloced : Nat → UInt8) : FormatterBuffer := ⟨palloced, 0, METRIC_BUFFER_SIZE⟩

/-- `buffer_ensure_capacity`. -/
def ensureCapacity (buf : FormatterBuffer) (needed : Nat) : FormatterBuffer :=
  if buf.size ≤ buf.offset + needed then { buf with size := buf.size * 2 } else buf

/-- `vsnprintf(data + at, n, ...)` of the text `s`: at most `n - 1` of its bytes and a NUL. -/
def vsnprintf (data : Nat → UInt8) (at_ n : Nat) (s : List UInt8) : Nat → UInt8 :=
  if n = 0 then data
  else
    let shown := s.take (n - 1)
    fun k => if k < at_ then data k
      else if k < at_ + shown.length then shown.getD (k - at_) 0
      else if k = at_ + shown.length then 0
      else data k

/-- `buffer_append` of the formatted text `s`.  `vsnprintf` returns the length of the whole text,
whether or not it was stored. -/
def append (buf : FormatterBuffer) (s : List UInt8) : FormatterBuffer :=
  let buf := buf.ensureCapacity 1024
  { buf with
    data := vsnprintf buf.data buf.offset (buf.size - buf.offset) s
    offset := if 0 < s.length then buf.offset + s.length else buf.offset }

/-- The step of `buffer_append_escaped` for one byte. -/
def appendEscapedByte (buf : FormatterBuffer) (b : UInt8) : FormatterBuffer :=
  if b = 34 then buf.append (str "\\\"")
  else if b = 92 then buf.append (str "\\\\")
  else if b = 10 then buf.append (str "\\n")
  else
    let buf := buf.ensureCapacity 1
    { buf with data := Function.update buf.data buf.offset b, offset := buf.offset + 1 }

/-- `buffer_append_escaped`. -/
def appendEscaped (buf : FormatterBuffer) (text : List UInt8) : FormatterBuffer :=
  text.foldl appendEscapedByte buf

/-- The buffer read as a C string. -/
def cString (buf : FormatterBuffer) : List UInt8 :=
  ((List.range buf.size).map buf.data).takeWhile (· ≠ 0)

end FormatterBuffer

/-! ## 3. The lines -/

/-- The HELP and TYPE lines of `pg_what_is_happening_query_info`. -/
def queryInfoHeader : List UInt8 :=
  str "# HELP pg_what_is_happening_query_info " ++ str "Query metadata for active queries\n" ++
    str "# TYPE pg_what_is_happening_query_info gauge\n"

/-- The HELP and TYPE lines of one metric. -/
def metricHeader (type : MetricType) : List UInt8 :=
  str "# HELP pg_what_is_happening_active_query_node_" ++ str (metricSuffix type) ++ str " " ++
    str (metricHelp type) ++ str "\n" ++
    str "# TYPE pg_what_is_happening_active_query_node_" ++ str (metricSuffix type) ++
    str " gauge\n"

/-- The text `formatter_append_query_info` prints before the query text. -/
def queryInfoPrefix (queryId : UInt64) (pid : Pid) : List UInt8 :=
  str "pg_what_is_happening_query_info\x7bquery_id=\"" ++ decimal queryId.toNat ++ str "\"," ++
    str "pid=\"" ++ decimal pid.val ++ str "\",query_text=\""

/-- The text it prints after the query text. -/
def queryInfoSuffix : List UInt8 := str "\"\x7d 1\n"

section Format

variable [CDouble D]

/-- The digits after the point with which a metric is printed. -/
def metricPrecision : MetricType → Nat
  | .timeSeconds => 6
  | .timePercent => 2
  | _ => 0

/-- `value_buf`: the printed value, of which 255 bytes fit. -/
def valueBuf (type : MetricType) : MetricValue D → List UInt8
  | .double x => (CDouble.fixed (metricPrecision type) x).take 255
  | .counter n => (decimalInt n.toInt64.toInt).take 255

/-- The line of one sample.  `node_id` is an unsigned 32-bit value printed with `%lu`. -/
def sampleLine (ver : PgVersion) (x : NodeSample D) : List UInt8 :=
  str "pg_what_is_happening_active_query_node_" ++ str (metricSuffix x.type) ++ str "\x7b" ++
    str "query_id=\"" ++ decimal x.queryId.toNat ++ str "\",node_id=\"" ++
    decimal x.nodeId.toNat ++ str "\"," ++ str "parent_node_id=\"" ++
    decimalInt x.parentNodeId.toInt32.toInt ++ str "\",node_tag=\"" ++
    str (pwhNodeTagToString ver x.tag) ++ str "\"\x7d " ++ valueBuf x.type x.value ++ str "\n"

/-! ## 4. Reading the nodes of a slot -/

/-- `for (u32 j = 0; j < be->count_of_metrics; j++)`, from `j` on.  The count is read again before
each iteration; `fuel` bounds a 32-bit counter that only grows. -/
def forNodes {α : Type} (be : Nat) (body : Nat → α → PgProg D α) :
    (fuel j : Nat) → α → PgProg D α
  | 0, _, acc => return acc
  | fuel + 1, j, acc => do
    let count ← act (.readCountOfMetrics be)
    if j < count.toNat then
      let acc ← body j acc
      forNodes be body fuel (j + 1) acc
    else return acc

/-- As many iterations as a `u32` counter below a `u32` bound can make. -/
def U32_RANGE : Nat := 4294967296

/-- `total_query_time`. -/
def sumTotalQueryTime (be : Nat) : PgProg D D :=
  forNodes be (fun j total => do
    let time ← act (.readNode be j .totalTimeUs)
    return CDouble.add total time) U32_RANGE 0 (CDouble.ofNat 0)

/-- `node_time_seconds` and `node_percent`. -/
def nodeTimeShares (be j : Nat) (totalQueryTime : D) : PgProg D (D × D) := do
  let time ← act (.readNode be j .totalTimeUs)
  let nodeTimeSeconds := CDouble.div time (CDouble.ofNat 1000000)
  if CDouble.gt totalQueryTime (CDouble.ofNat 0) then
    let time ← act (.readNode be j .totalTimeUs)
    return (nodeTimeSeconds, CDouble.mul (CDouble.div time totalQueryTime) (CDouble.ofNat 100))
  else return (nodeTimeSeconds, CDouble.ofNat 0)

/-- The argument that `formatter_append_all_node_metrics` passes for a metric. -/
def readMetricValue (be j : Nat) (shares : D × D) : MetricType → PgProg D (MetricValue D)
  | .timeSeconds => return .double shares.1
  | .timePercent => return .double shares.2
  | .tuplesReturned => do return .double (← act (.readNode be j .tuplesReturned))
  | .startupTimeUs => do return .double (← act (.readNode be j .startupTimeUs))
  | .totalTimeUs => do return .double (← act (.readNode be j .totalTimeUs))
  | .loopsExecuted => do return .double (← act (.readNode be j .loopsExecuted))
  | .cacheHits => do return .counter (← act (.readNode be j .cacheHits))
  | .cacheMisses => do return .counter (← act (.readNode be j .cacheMisses))
  | .localCacheHits => do return .counter (← act (.readNode be j .localCacheHits))
  | .localCacheMisses => do return .counter (← act (.readNode be j .localCacheMisses))
  | .spillFileReads => do return .counter (← act (.readNode be j .spillFileReads))
  | .spillFileWrites => do return .counter (← act (.readNode be j .spillFileWrites))
  | .rowsFilteredByJoins => do return .double (← act (.readNode be j .rowsFilteredByJoins))
  | .rowsFilteredByExpressions => do
    return .double (← act (.readNode be j .rowsFilteredByExpressions))

/-- `formatter_append_metric`. -/
def formatterAppendMetric (ver : PgVersion) (be j : Nat) (queryId : UInt64) (shares : D × D)
    (type : MetricType) (acc : FormatterBuffer × List (NodeSample D)) :
    PgProg D (FormatterBuffer × List (NodeSample D)) := do
  let value ← readMetricValue be j shares type
  let tag ← act (.readNode be j .tag)
  let nodeId ← act (.readNode be j .nodeId)
  let parentNodeId ← act (.readNode be j .parentNodeId)
  let sample : NodeSample D := ⟨type, queryId, nodeId, parentNodeId, tag, value⟩
  return (acc.1.append (sampleLine ver sample), acc.2 ++ [sample])

/-- `formatter_append_metric` for each of a list of metrics. -/
def formatterAppendMetrics (ver : PgVersion) (be j : Nat) (queryId : UInt64) (shares : D × D) :
    List MetricType → FormatterBuffer × List (NodeSample D) →
    PgProg D (FormatterBuffer × List (NodeSample D))
  | [], acc => return acc
  | type :: types, acc => do
    let acc ← formatterAppendMetric ver be j queryId shares type acc
    formatterAppendMetrics ver be j queryId shares types acc

/-- `formatter_append_all_node_metrics`, which appends the metrics in the order of the
enumeration. -/
def formatterAppendAllNodeMetrics (ver : PgVersion) (be j : Nat) (queryId : UInt64)
    (totalQueryTime : D) (acc : FormatterBuffer × List (NodeSample D)) :
    PgProg D (FormatterBuffer × List (NodeSample D)) := do
  let shares ← nodeTimeShares be j totalQueryTime
  formatterAppendMetrics ver be j queryId shares metricTypes acc

/-! ## 5. `pwh_format_openmetrics` -/

/-- `formatter_append_query_info`: the buffer, and what was read. -/
def formatterAppendQueryInfo (be : Nat) (buf : FormatterBuffer) :
    PgProg D (FormatterBuffer × EntryReading D) := do
  let queryId ← act (.readQueryId be)
  let pid ← act (.readBackendPid be)
  let queryText ← act (.readQueryText be)
  let buf := ((buf.append (queryInfoPrefix queryId pid)).appendEscaped queryText).append
    queryInfoSuffix
  return (buf, ⟨queryId, pid, queryText, []⟩)

/-- The body of the loop of `pwh_format_openmetrics` for an active entry. -/
def formatEntry (ver : PgVersion) (be : Nat) (buf : FormatterBuffer) :
    PgProg D FormatterBuffer := do
  let (buf, reading) ← formatterAppendQueryInfo be buf
  let queryId ← act (.readQueryId be)
  let totalQueryTime ← sumTotalQueryTime be
  let (buf, samples) ← forNodes be (fun j acc => do
    if ← pwhValidateNodeMagic be j then
      formatterAppendAllNodeMetrics ver be j queryId totalQueryTime acc
    else return acc) U32_RANGE 0 (buf, [])
  act (.emit (.entry { reading with samples := samples }))
  return buf

/-- The loop of `pwh_format_openmetrics`: `k` slots from `i` on are left. -/
def formatEntries (srv : Server D) :
    (k i : Nat) → FormatterBuffer → PgProg D FormatterBuffer
  | 0, _, buf => return buf
  | k + 1, i, buf => do
    let _ ← pwhGetBackendEntry srv i
    act (.mark (.visitEntry i))
    if ← pwhIsBackendEntryActive i then
      let buf ← formatEntry srv.version i buf
      formatEntries srv k (i + 1) buf
    else
      act (.mark .leaveEntry)
      formatEntries srv k (i + 1) buf

/-- The header lines. -/
def formatHeader (buf : FormatterBuffer) : FormatterBuffer :=
  metricTypes.foldl (fun buf type => buf.append (metricHeader type)) (buf.append queryInfoHeader)

/-- `pwh_format_openmetrics`. -/
def pwhFormatOpenmetrics (srv : Server D) (palloced : Nat → UInt8) :
    PgProg D (List UInt8) := do
  let buf ← formatEntries srv srv.gucs.maxTrackedQueries 0
    (formatHeader (FormatterBuffer.init palloced))
  return buf.cString

/-! ## 6. `v1_status_f` -/

/-- `pwh_fill_v1_status_tuple`, with the columns in the order in which it fills them. -/
def pwhFillV1StatusTuple (be j : Nat) (totalQueryTime : D) : PgProg D (StatusRow D) := do
  let shares ← nodeTimeShares be j totalQueryTime
  let backendPid ← act (.readBackendPid be)
  let queryId ← act (.readQueryId be)
  let queryText ← act (.readQueryText be)
  let nodeId ← act (.readNode be j .nodeId)
  let parentNodeId ← act (.readNode be j .parentNodeId)
  let nodeTag ← act (.readNode be j .tag)
  let startupTimeUs ← act (.readNode be j .startupTimeUs)
  let totalTimeUs ← act (.readNode be j .totalTimeUs)
  let loopsExecuted ← act (.readNode be j .loopsExecuted)
  let tuplesReturned ← act (.readNode be j .tuplesReturned)
  let cacheHits ← act (.readNode be j .cacheHits)
  let cacheMisses ← act (.readNode be j .cacheMisses)
  let localCacheHits ← act (.readNode be j .localCacheHits)
  let localCacheMisses ← act (.readNode be j .localCacheMisses)
  let spillFileReads ← act (.readNode be j .spillFileReads)
  let spillFileWrites ← act (.readNode be j .spillFileWrites)
  let rowsFilteredByJoins ← act (.readNode be j .rowsFilteredByJoins)
  let rowsFilteredByExpressions ← act (.readNode be j .rowsFilteredByExpressions)
  return { backendPid, queryId, queryText, nodeId, parentNodeId, nodeTag, startupTimeUs,
           totalTimeUs, loopsExecuted, tuplesReturned, timeSeconds := shares.1,
           timePercent := shares.2, cacheHits, cacheMisses, localCacheHits, localCacheMisses,
           spillFileReads, spillFileWrites, rowsFilteredByJoins, rowsFilteredByExpressions }

/-- `pwh_is_backend_entry_active(be) && node_idx < be->count_of_metrics`. -/
def isNodeCounted (be : Nat) (nodeIdx : UInt32) : PgProg D Bool := do
  if ← pwhIsBackendEntryActive be then
    let count ← act (.readCountOfMetrics be)
    return decide (nodeIdx < count)
  else return false

/-- The loop of one call of `v1_status_f`: `k` slots from `slotIdx` on are left.  Its answer is
the row it returns, `none` for SRF_RETURN_DONE. -/
def v1StatusLoop (srv : Server D) :
    (k : Nat) → (slotIdx nodeIdx : UInt32) → PgProg D (Option (StatusRow D))
  | 0, _, _ => do
    act (.setScan none)
    return none
  | k + 1, slotIdx, nodeIdx => do
    let be := slotIdx.toNat
    let _ ← pwhGetBackendEntry srv be
    act (.mark (.visitEntry be))
    if ← isNodeCounted be nodeIdx then
      let totalQueryTime ← sumTotalQueryTime be
      let row ← pwhFillV1StatusTuple be nodeIdx.toNat totalQueryTime
      act (.emit (.row row))
      act (.setScan (some (slotIdx, nodeIdx + 1)))
      return some row
    else
      act (.mark .leaveEntry)
      act (.setScan (some (slotIdx + 1, 0)))
      v1StatusLoop srv k (slotIdx + 1) 0

/-- The part of `v1_status_f` that runs on its first call. -/
def v1StatusFirstCall (srv : Server D) : PgProg D Unit := do
  pwhLwlockAcquire .LW_SHARED
  let _ ← pwhRequestBackendMetricsUnlocked srv
  pwhLwlockRelease
  act (.setScan (some (0, 0)))

/-- `v1_status_f`: one call. -/
def v1StatusF (srv : Server D) : PgProg D (Option (StatusRow D)) := do
  match ← act .getScan with
  | none =>
    v1StatusFirstCall srv
    v1StatusLoop srv srv.gucs.maxTrackedQueries 0 0
  | some (slotIdx, nodeIdx) =>
    v1StatusLoop srv (srv.gucs.maxTrackedQueries - slotIdx.toNat) slotIdx nodeIdx

end Format

end WhatIsHappening
