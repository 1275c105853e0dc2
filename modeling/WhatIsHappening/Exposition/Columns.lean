/-
# The columns of `what_is_happening.v1_status`

What a column of the view is called, of which type it is and which value stands in it is written
down in four places: the descriptor, the tuple, and the two scripts that may have declared the
function.  `columns_mean_names_iff` says after which scripts the four agree.
-/
import WhatIsHappening.Exposition.Agreement

namespace WhatIsHappening

open Interleaving Prog

variable {D : Type}

/-! ## 1. The descriptor and the tuple -/

/-- The types of the columns. -/
inductive SqlType where
  | boolean | float8 | int4 | int8 | text
  deriving DecidableEq, Repr

/-- A column: its name and its type. -/
abbrev Column := String × SqlType

/-- `TupleDescInitEntryMetric`. -/
def tupleDescInitEntryMetric (type : MetricType) (oid : SqlType) : Column :=
  (metricSuffix type, oid)

/-- `pwh_create_v1_status_tupdesc`. -/
def pwhCreateV1StatusTupdesc : List Column :=
  [("backend_pid", .int4),
    ("query_id", .int8),
    ("query_text", .text),
    ("node_id", .int4),
    ("parent_node_id", .int4),
    ("node_tag", .text),
    tupleDescInitEntryMetric .startupTimeUs .float8,
    tupleDescInitEntryMetric .totalTimeUs .float8,
    tupleDescInitEntryMetric .loopsExecuted .float8,
    tupleDescInitEntryMetric .tuplesReturned .float8,
    tupleDescInitEntryMetric .timeSeconds .float8,
    tupleDescInitEntryMetric .timePercent .float8,
    tupleDescInitEntryMetric .cacheHits .int8,
    tupleDescInitEntryMetric .cacheMisses .int8,
    tupleDescInitEntryMetric .localCacheHits .int8,
    tupleDescInitEntryMetric .localCacheMisses .int8,
    tupleDescInitEntryMetric .spillFileReads .int8,
    tupleDescInitEntryMetric .spillFileWrites .int8,
    tupleDescInitEntryMetric .rowsFilteredByJoins .float8,
    tupleDescInitEntryMetric .rowsFilteredByExpressions .float8]

/-- A value of one of these types. -/
inductive Datum (D : Type) where
  | float8 (x : D)
  | int4 (z : Int)
  | int8 (z : Int)
  | text (s : List UInt8)

/-- Its type. -/
def Datum.type : Datum D → SqlType
  | .float8 _ => .float8
  | .int4 _ => .int4
  | .int8 _ => .int8
  | .text _ => .text

/-- `values` after `pwh_fill_v1_status_tuple`: what it reads, in the places where it puts it. -/
def StatusRow.values (ver : PgVersion) (row : StatusRow D) : List (Datum D) :=
  [.int4 row.backendPid.val,
    .int8 (int8 row.queryId),
    .text row.queryText,
    .int4 (int4 row.nodeId),
    .int4 (int4 row.parentNodeId),
    .text (str (pwhNodeTagToString ver row.nodeTag)),
    .float8 row.startupTimeUs,
    .float8 row.totalTimeUs,
    .float8 row.loopsExecuted,
    .float8 row.tuplesReturned,
    .float8 row.timeSeconds,
    .float8 row.timePercent,
    .int8 (int8 row.cacheHits),
    .int8 (int8 row.cacheMisses),
    .int8 (int8 row.localCacheHits),
    .int8 (int8 row.localCacheMisses),
    .int8 (int8 row.spillFileReads),
    .int8 (int8 row.spillFileWrites),
    .float8 row.rowsFilteredByJoins,
    .float8 row.rowsFilteredByExpressions]

/-! ## 2. The scripts -/

/-- The statements of the scripts that a column depends on.  The view is
`SELECT * FROM what_is_happening.v1_status_f()` in all of them. -/
inductive Statement where
  | createSchema
  | dropViewIfExists
  | dropFunctionIfExists
  | createFunction (columns : List Column)
  | createView

/-- `pg_what_is_happening--1.0.sql`. -/
def script1_0 : List Statement :=
  [.createSchema,
    .createFunction
      [("backend_pid", .int4), ("query_id", .int8), ("query_text", .text),
        ("is_query_active", .boolean), ("node_id", .int4), ("parent_node_id", .int4),
        ("tag", .text), ("tuples_returned", .float8), ("startup_time_us", .float8),
        ("total_time_us", .float8), ("loops_executed", .float8), ("cache_hits", .int8),
        ("cache_misses", .int8), ("local_cache_hits", .int8), ("local_cache_misses", .int8),
        ("spill_file_reads", .int8), ("spill_file_writes", .int8)],
    .createView]

/-- `pg_what_is_happening--1.1.sql`. -/
def script1_1 : List Statement :=
  [.createSchema,
    .createFunction
      [("backend_pid", .int4), ("query_id", .int8), ("query_text", .text), ("node_id", .int4),
        ("parent_node_id", .int4), ("node_tag", .text), ("startup_time_us", .float8),
        ("total_time_us", .float8), ("loops_executed", .float8), ("tuples_returned", .float8),
        ("time_seconds", .float8), ("time_percent", .float8), ("cache_hits", .int8),
        ("cache_misses", .int8), ("local_cache_hits", .int8), ("local_cache_misses", .int8),
        ("spill_file_reads", .int8), ("spill_file_writes", .int8),
        ("rows_filtered_by_joins", .float8), ("rows_filtered_by_expressions", .float8)],
    .createView]

/-- `pg_what_is_happening--1.0--1.1.sql`. -/
def script1_0to1_1 : List Statement :=
  [.dropViewIfExists,
    .dropFunctionIfExists,
    .createFunction
      [("backend_pid", .int4), ("query_id", .int8), ("query_text", .text), ("node_id", .int4),
        ("parent_node_id", .int4), ("node_tag", .text), ("tuples_returned", .float8),
        ("startup_time_us", .float8), ("total_time_us", .float8), ("loops_executed", .float8),
        ("rows", .float8), ("time_seconds", .float8), ("time_percent", .float8),
        ("cache_hits", .int8), ("cache_misses", .int8), ("local_cache_hits", .int8),
        ("local_cache_misses", .int8), ("spill_file_reads", .int8), ("spill_file_writes", .int8)],
    .createView]

/-- What of the extension is in the catalog: the columns its function declares, and those of its
view. -/
structure Catalog where
  hasSchema : Bool := false
  function : Option (List Column) := none
  view : Option (List Column) := none
  deriving DecidableEq

/-- One statement; `none` is an error. -/
def Catalog.execute (c : Catalog) : Statement → Option Catalog
  | .createSchema => if c.hasSchema then none else some { c with hasSchema := true }
  | .dropViewIfExists => some { c with view := none }
  -- the view depends on the function
  | .dropFunctionIfExists => if c.view.isSome then none else some { c with function := none }
  | .createFunction columns =>
    if c.hasSchema ∧ c.function = none then some { c with function := some columns } else none
  -- the star is expanded when the view is created
  | .createView => if c.view = none then
      c.function.map fun columns => { c with view := some columns }
    else none

/-- A script. -/
def Catalog.run (c : Catalog) (script : List Statement) : Option Catalog :=
  script.foldlM Catalog.execute c

/-- How the extension got to version 1.1: by CREATE EXTENSION, or by ALTER EXTENSION UPDATE of a
1.0 installation. -/
inductive Installation where
  | created
  | updated
  deriving DecidableEq, Repr

/-- What the scripts of an installation leave in the catalog. -/
def Installation.catalog : Installation → Option Catalog
  | .created => Catalog.run {} script1_1
  | .updated => (Catalog.run {} script1_0).bind fun c => c.run script1_0to1_1

/-! ## 3. Reading a row -/

/-- A row of the function is read by the name of a column of the view: the value in the place in
which that column is declared.  `rowMatches` is the executor's comparison of the types a row has
with those that are declared, which it may make before. -/
def readColumn (rowMatches : List SqlType → List SqlType → Bool) (declared : List Column)
    (values : List (Datum D)) (name : String) : Option (Datum D) :=
  if rowMatches (declared.map Prod.snd) (pwhCreateV1StatusTupdesc.map Prod.snd) then
    ((declared.map Prod.fst).zip values).lookup name
  else none

section Fields

variable [CDouble D]

/-- The field of a slot and one of its records that a column is named after. -/
def statusField (srv : Server D) (be : PwhSharedMemoryBackendEntry D) (j : Nat)
    (totalQueryTime : D) : String → Option (Datum D)
  | "backend_pid" => some (.int4 be.backendPid.val)
  | "query_id" => some (.int8 (int8 be.queryId))
  | "query_text" => some (.text (be.text srv.gucs.maxQueryTextLen))
  | "node_id" => some (.int4 (int4 (be.metrics j).nodeId))
  | "parent_node_id" => some (.int4 (int4 (be.metrics j).parentNodeId))
  | "node_tag" => some (.text (str (pwhNodeTagToString srv.version (be.metrics j).tag)))
  | "startup_time_us" => some (.float8 (be.metrics j).execution.startupTimeUs)
  | "total_time_us" => some (.float8 (be.metrics j).execution.totalTimeUs)
  | "loops_executed" => some (.float8 (be.metrics j).execution.loopsExecuted)
  | "tuples_returned" => some (.float8 (be.metrics j).execution.tuplesReturned)
  | "time_seconds" =>
    some (.float8 (CDouble.div (be.metrics j).execution.totalTimeUs (CDouble.ofNat 1000000)))
  | "time_percent" =>
    some (.float8 (if CDouble.gt totalQueryTime (CDouble.ofNat 0) then
      CDouble.mul (CDouble.div (be.metrics j).execution.totalTimeUs totalQueryTime)
        (CDouble.ofNat 100)
    else CDouble.ofNat 0))
  | "cache_hits" => some (.int8 (int8 (be.metrics j).bufferUsage.cacheHits))
  | "cache_misses" => some (.int8 (int8 (be.metrics j).bufferUsage.cacheMisses))
  | "local_cache_hits" => some (.int8 (int8 (be.metrics j).bufferUsage.localCacheHits))
  | "local_cache_misses" => some (.int8 (int8 (be.metrics j).bufferUsage.localCacheMisses))
  | "spill_file_reads" => some (.int8 (int8 (be.metrics j).bufferUsage.spillFileReads))
  | "spill_file_writes" => some (.int8 (int8 (be.metrics j).bufferUsage.spillFileWrites))
  | "rows_filtered_by_joins" => some (.float8 (be.metrics j).execution.rowsFilteredByJoins)
  | "rows_filtered_by_expressions" =>
    some (.float8 (be.metrics j).execution.rowsFilteredByExpressions)
  | _ => none

/-- The values of the tuple that is filled for record `j` of slot `be`, on a table that nothing
changes meanwhile. -/
def tupleValues (srv : Server D) (p : Pid) (entries : Nat → PwhSharedMemoryBackendEntry D)
    (be j : Nat) (totalQueryTime : D) : Option (List (Datum D)) :=
  ((pwhFillV1StatusTuple be j totalQueryTime).solo (alone srv p)
    { (State.init : State D) with entries := entries }).map fun r => r.1.values srv.version

/-- The columns mean what they say for one record: the function and the view are declared as the
descriptor has it, the tuple has values of its types, and each column shows the field it is named
after. -/
structure ColumnsMeanNames (rowMatches : List SqlType → List SqlType → Bool) (srv : Server D)
    (columns : List Column) (values : List (Datum D)) (be : PwhSharedMemoryBackendEntry D) (j : Nat)
    (totalQueryTime : D) : Prop where
  declared : columns = pwhCreateV1StatusTupdesc
  filled : values.map Datum.type = pwhCreateV1StatusTupdesc.map Prod.snd
  reads : ∀ c ∈ columns,
    readColumn rowMatches columns values c.1 = statusField srv be j totalQueryTime c.1

/-- ...for record `j` of slot `be` of a table, after the scripts of an installation. -/
def ViewMeansNames (rowMatches : List SqlType → List SqlType → Bool) (i : Installation)
    (srv : Server D) (p : Pid) (entries : Nat → PwhSharedMemoryBackendEntry D) (be j : Nat)
    (totalQueryTime : D) : Prop :=
  ∃ columns values,
    i.catalog = some { hasSchema := true, function := some columns, view := some columns } ∧
      tupleValues srv p entries be j totalQueryTime = some values ∧
      ColumnsMeanNames rowMatches srv columns values (entries be) j totalQueryTime

/-! ## 4. After which scripts they agree -/

theorem created_catalog : Installation.created.catalog = some
    { hasSchema := true
      function := some pwhCreateV1StatusTupdesc
      view := some pwhCreateV1StatusTupdesc } := by decide

/-- The update script declares nineteen columns. -/
theorem updated_catalog {c : Catalog} (h : Installation.updated.catalog = some c)
    {columns : List Column} (hview : c.view = some columns) : columns.length = 19 := by
  cases h
  cases hview
  rfl

variable {srv : Server D} {p : Pid} {entries : Nat → PwhSharedMemoryBackendEntry D}

theorem tupleValues_eq (be j : Nat) (totalQueryTime : D) :
    tupleValues srv p entries be j totalQueryTime =
      some (((entries be).filledRow srv j totalQueryTime).values srv.version) := by
  have hfills : Yields (alone srv p) (Holding entries) (pwhFillV1StatusTuple be j totalQueryTime)
      ((entries be).filledRow srv j totalQueryTime) :=
    pwhFillV1StatusTuple_fills be j totalQueryTime
  obtain ⟨t, ht, -⟩ := hfills { (State.init : State D) with entries := entries } ⟨rfl, rfl⟩
  rw [tupleValues, ht]
  rfl

/-- The descriptor's names, in the places of the tuple, are those of its fields. -/
theorem readColumn_filledRow {rowMatches : List SqlType → List SqlType → Bool}
    (hsame : ∀ types, rowMatches types types = true) (be : PwhSharedMemoryBackendEntry D) (j : Nat)
    (totalQueryTime : D) : ∀ c ∈ pwhCreateV1StatusTupdesc,
      readColumn rowMatches pwhCreateV1StatusTupdesc
        ((be.filledRow srv j totalQueryTime).values srv.version) c.1 =
        statusField srv be j totalQueryTime c.1 := by
  simp only [readColumn, hsame, if_true, pwhCreateV1StatusTupdesc, List.forall_mem_cons]
  refine ⟨?_, ?_, ?_, ?_, ?_, ?_, ?_, ?_, ?_, ?_, ?_, ?_, ?_, ?_, ?_, ?_, ?_, ?_, ?_, ?_, nofun⟩
  all_goals rfl

/-- **The columns of the view mean what they say** exactly where the extension was created at 1.1;
after an update from 1.0 the view has other columns than the rows. -/
theorem columns_mean_names_iff {rowMatches : List SqlType → List SqlType → Bool}
    (hsame : ∀ types, rowMatches types types = true) (i : Installation) (be j : Nat)
    (totalQueryTime : D) :
    ViewMeansNames rowMatches i srv p entries be j totalQueryTime ↔ i = .created := by
  constructor
  · rintro ⟨columns, values, hcatalog, -, hmean⟩
    cases i with
    | created => rfl
    | updated =>
      have hlength := updated_catalog hcatalog rfl
      rw [hmean.declared] at hlength
      cases hlength
  · rintro rfl
    exact ⟨_, _, created_catalog, tupleValues_eq be j totalQueryTime, rfl, rfl,
      readColumn_filledRow hsame (entries be) j totalQueryTime⟩

end Fields

/-- A node that took 7 microseconds, 5 of them before its first row. -/
def slowStart : PwhSharedMemoryBackendEntry ℚ :=
  { (PwhSharedMemoryBackendEntry.zero : PwhSharedMemoryBackendEntry ℚ) with
    countOfMetrics := 1
    metrics := fun _ =>
      { (PwhNodeMetrics.zero : PwhNodeMetrics ℚ) with
        execution :=
          { tuplesReturned := 3, loopsExecuted := 1, startupTimeUs := 5, totalTimeUs := 7,
            rowsFilteredByJoins := 0, rowsFilteredByExpressions := 0 } } }

/-- Where the extension was created its columns mean what they say. -/
theorem created_view_means_names :
    ViewMeansNames (fun a b => decide (a = b)) .created smallServer 1 (fun _ => slowStart) 0 0
      7 := by
  have hsame : ∀ types : List SqlType, decide (types = types) = true :=
    fun types => decide_eq_true rfl
  exact (columns_mean_names_iff hsame .created 0 0 7).mpr rfl

/-- After an update `startup_time_us` is no startup time, whether or not the executor compares the
types of the columns. -/
theorem updated_startup_time_differs :
    ∃ columns values,
      Installation.updated.catalog =
        some { hasSchema := true, function := some columns, view := some columns } ∧
      tupleValues smallServer 1 (fun _ => slowStart) 0 0 7 = some values ∧
      ∀ rowMatches, readColumn rowMatches columns values "startup_time_us" ≠
        statusField smallServer slowStart 0 7 "startup_time_us" := by
  refine ⟨_, _, rfl, tupleValues_eq 0 0 7, fun rowMatches h => ?_⟩
  unfold readColumn at h
  split at h
  · have hshown : some (Datum.float8 (7 : ℚ)) = some (Datum.float8 5) := h
    simp at hshown
  · cases h

end WhatIsHappening
