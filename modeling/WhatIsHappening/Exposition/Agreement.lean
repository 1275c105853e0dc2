/-
# The view and the endpoint tell the same story

A row of `v1_status` and a group of samples of `/metrics` are about one plan node.  The two readers
convert the fields of its record by different types: the view has signed columns, the endpoint
prints the query id and the node id as they are.  `same_story_iff` says for which tables nobody can
see the difference.
-/
import WhatIsHappening.Exposition.Scan

namespace WhatIsHappening

open Interleaving Prog

variable {D : Type} [CDouble D]

/-! ## 1. Groups of samples -/

section Groups

variable {α β : Type} {n : Nat}

theorem groupsOf_append {a l : List α} (hn : 0 < n) (ha : a.length = n) :
    groupsOf n (a ++ l) = a :: groupsOf n l := by
  have hcount : ((a ++ l).length + n - 1) / n = (l.length + n - 1) / n + 1 := by
    rw [List.length_append, ha, ← Nat.add_div_right _ hn]
    congr 1
    omega
  have hdrop : ∀ k, (a ++ l).drop ((k + 1) * n) = l.drop (k * n) := by
    intro k
    rw [Nat.succ_mul, Nat.add_comm, ← List.drop_drop, ← ha, List.drop_left]
  rw [groupsOf, hcount, List.range_succ_eq_map, List.map_cons, List.map_map, Nat.zero_mul,
    List.drop_zero, ← ha, List.take_left, ha]
  refine congrArg (a :: ·) (List.map_congr_left fun k _ => ?_)
  exact congrArg (List.take n) (hdrop k)

/-- Lists of one length are the groups of their concatenation. -/
theorem groupsOf_flatMap {f : β → List α} (hn : 0 < n) (hf : ∀ x, (f x).length = n)
    (xs : List β) : groupsOf n (xs.flatMap f) = xs.map f := by
  induction xs with
  | nil =>
    have hzero : (0 + n - 1) / n = 0 := Nat.div_eq_of_lt (by omega)
    rw [List.flatMap_nil, groupsOf, List.length_nil, hzero]
    rfl
  | cons x xs ih => rw [List.flatMap_cons, groupsOf_append hn (hf x), ih, List.map_cons]

end Groups

/-- The groups of samples `pwh_format_openmetrics` prints of a table that nothing changes
meanwhile. -/
def expositionGroups (srv : Server D) (p : Pid) (palloced : Nat → UInt8)
    (entries : Nat → PwhSharedMemoryBackendEntry D) : List (List (NodeSample D)) :=
  ((pwhFormatOpenmetrics srv palloced).performed (alone srv p)
    { (State.init : State D) with entries := entries }).flatMap fun x => sampleGroups x.1

/-- **The groups of a table** are those of the counted nodes of the active slots. -/
theorem expositionGroups_eq (srv : Server D) (p : Pid) (palloced : Nat → UInt8)
    {entries : Nat → PwhSharedMemoryBackendEntry D}
    (hvalid : ∀ i ∈ activeSlots srv entries, CountedNodesValid (entries i)) :
    expositionGroups srv p palloced entries =
      (positions srv entries).map fun x => metricTypes.map ((entries x.1).sample x.2) := by
  obtain ⟨buf, hrun, -⟩ := formatEntries_shows (p := p) srv.gucs.maxTrackedQueries 0
    (Nat.zero_add _) (formatHeader_holds palloced)
  have hprog : Shows (alone srv p) sampleGroups (Holding entries)
      (pwhFormatOpenmetrics srv palloced) buf.cString
      ((activeSlots srv entries).flatMap (fun i =>
        groupsOf metricTypes.length (entries i).printedSamples) ++ []) :=
    hrun.bind ((yields_ret buf.cString).shows trivial)
  obtain ⟨t, -, -, hout⟩ := hprog { (State.init : State D) with entries := entries } ⟨rfl, rfl⟩
  have hgroups : ∀ i ∈ activeSlots srv entries,
      groupsOf metricTypes.length (entries i).printedSamples =
        (List.range (entries i).countOfMetrics.toNat).map fun j =>
          metricTypes.map ((entries i).sample j) := by
    intro i hi
    rw [(hvalid i hi).printedSamples]
    exact groupsOf_flatMap (by decide) (fun j => List.length_map _) _
  rw [List.append_nil] at hout
  refine hout.trans ?_
  rw [positions, List.map_flatMap, List.flatMap_congr hgroups]
  simp only [List.map_map]
  rfl

/-! ## 2. What is shown -/

/-- A value as it is shown, before a `double` is rounded to the printed digits. -/
inductive ShownValue (D : Type) where
  | double (x : D)
  | integer (z : Int)

/-- One metric of one node, as it is shown. -/
structure ShownSample (D : Type) where
  type : MetricType
  queryId : List UInt8
  nodeId : Int
  parentNodeId : Int
  nodeTag : String
  value : ShownValue D

/-- The number in a column of type `int4`: what `Int32GetDatum` makes of a `u32`. -/
def int4 (n : UInt32) : Int := n.toInt32.toInt

/-- The number in a column of type `int8`: what `Int64GetDatum` makes of a `u64`. -/
def int8 (n : UInt64) : Int := n.toInt64.toInt

/-- The column of a metric. -/
def StatusRow.column (r : StatusRow D) : MetricType → ShownValue D
  | .startupTimeUs => .double r.startupTimeUs
  | .totalTimeUs => .double r.totalTimeUs
  | .loopsExecuted => .double r.loopsExecuted
  | .tuplesReturned => .double r.tuplesReturned
  | .timeSeconds => .double r.timeSeconds
  | .timePercent => .double r.timePercent
  | .cacheHits => .integer (int8 r.cacheHits)
  | .cacheMisses => .integer (int8 r.cacheMisses)
  | .localCacheHits => .integer (int8 r.localCacheHits)
  | .localCacheMisses => .integer (int8 r.localCacheMisses)
  | .spillFileReads => .integer (int8 r.spillFileReads)
  | .spillFileWrites => .integer (int8 r.spillFileWrites)
  | .rowsFilteredByJoins => .double r.rowsFilteredByJoins
  | .rowsFilteredByExpressions => .double r.rowsFilteredByExpressions

/-- A metric of a row of the view. -/
def StatusRow.shown (ver : PgVersion) (r : StatusRow D) (type : MetricType) : ShownSample D where
  type := type
  queryId := decimalInt (int8 r.queryId)
  nodeId := int4 r.nodeId
  parentNodeId := int4 r.parentNodeId
  nodeTag := pwhNodeTagToString ver r.nodeTag
  value := r.column type

/-- A sample of the endpoint: the conversions are `%lu`, `%lu`, `%d` and, for a counter, `%ld`. -/
def NodeSample.shown (ver : PgVersion) (x : NodeSample D) : ShownSample D where
  type := x.type
  queryId := decimal x.queryId.toNat
  nodeId := x.nodeId.toNat
  parentNodeId := x.parentNodeId.toInt32.toInt
  nodeTag := pwhNodeTagToString ver x.tag
  value :=
    match x.value with
    | .double d => .double d
    | .counter n => .integer n.toInt64.toInt

/-- The rows of a full scan by process `p` and the groups of samples printed by process `p'` are
the same nodes with the same values, up to their order. -/
def TellSameStory (srv : Server D) (p p' : Pid) (palloced : Nat → UInt8)
    (entries : Nat → PwhSharedMemoryBackendEntry D) : Prop :=
  ∃ rows, statusRows srv p entries = some rows ∧
    (rows.map fun r => metricTypes.map (r.shown srv.version)).Perm
      ((expositionGroups srv p' palloced entries).map (·.map (NodeSample.shown srv.version)))

/-- A record that the topology walk may have left at index `j`. -/
structure CountedNode (n : PwhNodeMetrics D) (j : Nat) : Prop where
  magic : n.magic = PWH_NODE_MAGIC
  nodeId : n.nodeId.toNat = j
  parentNodeId : n.parentNodeId = -1 ∨ n.parentNodeId.toNat < j

/-- The counted nodes of the active slots are such records. -/
def CountedNodes (srv : Server D) (entries : Nat → PwhSharedMemoryBackendEntry D) : Prop :=
  ∀ x ∈ positions srv entries, CountedNode ((entries x.1).metrics x.2) x.2

/-! ## 3. When they agree -/

/-- A node both readers show alike: its query id and its id are not negative as signed numbers. -/
def ShownAlike (be : PwhSharedMemoryBackendEntry D) (j : Nat) : Prop :=
  be.queryId.toNat < 2 ^ 63 ∧ j < 2 ^ 31

theorem int8_eq (n : UInt64) :
    int8 n = if n.toNat < 2 ^ 63 then (n.toNat : Int) else n.toNat - 2 ^ 64 := by
  have hcond : int8 n =
      if 2 * n.toNat < 2 ^ 64 then (n.toNat : Int) else n.toNat - (2 ^ 64 : Nat) :=
    BitVec.toInt_eq_toNat_cond n.toBitVec
  rw [hcond]
  split <;> split <;> omega

theorem int4_eq (n : UInt32) :
    int4 n = if n.toNat < 2 ^ 31 then (n.toNat : Int) else n.toNat - 2 ^ 32 := toInt_toInt32 n

/-- The `int8` column shows the digits the endpoint prints, or a minus sign first. -/
theorem decimalInt_int8 (n : UInt64) (m : Nat) :
    decimalInt (int8 n) = decimal m → n.toNat < 2 ^ 63 := by
  intro h
  by_contra hlarge
  have hneg : int8 n < 0 := by
    have := n.toNat_lt
    rw [int8_eq, if_neg hlarge]
    omega
  rw [decimalInt, if_pos hneg] at h
  exact decimal_noMinus m (h ▸ List.mem_cons_self)

section

variable {srv : Server D}

/-- A node whose numbers are small is shown alike, metric by metric. -/
theorem shown_eq {be : PwhSharedMemoryBackendEntry D} {j : Nat}
    (hnode : (be.metrics j).nodeId.toNat = j) (h : ShownAlike be j) (type : MetricType) :
    (be.statusRow srv j).shown srv.version type = (be.sample j type).shown srv.version := by
  have hqueryId : decimalInt (int8 be.queryId) = decimal be.queryId.toNat := by
    rw [int8_eq, if_pos h.1, decimalInt, if_neg (by omega), Int.natAbs_natCast]
  have hnodeId : int4 (be.metrics j).nodeId = (be.metrics j).nodeId.toNat := by
    rw [int4_eq, if_pos (by rw [hnode]; exact h.2)]
  have hvalue : (be.statusRow srv j).column type =
      ((be.sample j type).shown srv.version).value := by
    cases type <;> rfl
  simp only [StatusRow.shown, hvalue]
  simp only [PwhSharedMemoryBackendEntry.statusRow, hqueryId, hnodeId]
  rfl

variable (srv) in
/-- ...and only such a node has a group of samples that shows its row. -/
theorem shownAlike_of_mem {be : PwhSharedMemoryBackendEntry D} {j : Nat}
    (hnode : (be.metrics j).nodeId.toNat = j) {group : List (NodeSample D)}
    (h : metricTypes.map ((be.statusRow srv j).shown srv.version) =
      group.map (NodeSample.shown srv.version)) : ShownAlike be j := by
  obtain ⟨x, hx⟩ : ∃ x : NodeSample D, (be.statusRow srv j).shown srv.version .tuplesReturned =
      x.shown srv.version := by
    cases group with
    | nil => cases h
    | cons x group => exact ⟨x, (List.cons.inj h).1⟩
  constructor
  · exact decimalInt_int8 _ _ (congrArg ShownSample.queryId hx)
  · have hnodeId : int4 (be.metrics j).nodeId = (x.nodeId.toNat : Int) :=
      congrArg ShownSample.nodeId hx
    by_contra hlarge
    have hlt := (be.metrics j).nodeId.toNat_lt
    rw [int4_eq, if_neg (by rw [hnode]; exact hlarge)] at hnodeId
    omega

omit [CDouble D] in
theorem mem_positions {entries : Nat → PwhSharedMemoryBackendEntry D} {x : Nat × Nat} :
    x ∈ positions srv entries ↔
      x.1 ∈ activeSlots srv entries ∧ x.2 < (entries x.1).countOfMetrics.toNat := by
  simp only [positions, List.mem_flatMap, List.mem_map, List.mem_range]
  constructor
  · rintro ⟨i, hi, j, hj, rfl⟩
    exact ⟨hi, hj⟩
  · rintro ⟨hi, hj⟩
    exact ⟨x.1, hi, x.2, hj, rfl⟩

/-- What both readers show of a table, node by node. -/
theorem tellSameStory_iff_perm (p p' : Pid) (palloced : Nat → UInt8)
    {entries : Nat → PwhSharedMemoryBackendEntry D} (hnodes : CountedNodes srv entries) :
    TellSameStory srv p p' palloced entries ↔
      ((positions srv entries).map fun x =>
        metricTypes.map (((entries x.1).statusRow srv x.2).shown srv.version)).Perm
      ((positions srv entries).map fun x =>
        (metricTypes.map ((entries x.1).sample x.2)).map (NodeSample.shown srv.version)) := by
  have hvalid : ∀ i ∈ activeSlots srv entries, CountedNodesValid (entries i) :=
    fun i hi j hj => (hnodes (i, j) (mem_positions.mpr ⟨hi, hj⟩)).magic
  rw [TellSameStory, statusRows_eq, expositionGroups_eq srv p' palloced hvalid, List.map_map]
  constructor
  · rintro ⟨_, ⟨⟩, hperm⟩
    rw [List.map_map] at hperm
    exact hperm
  · intro hperm
    refine ⟨_, rfl, ?_⟩
    rw [List.map_map]
    exact hperm

/-- What is told alike is shown alike, node by node. -/
theorem shownAlike_of_sameStory {p p' : Pid} {palloced : Nat → UInt8}
    {entries : Nat → PwhSharedMemoryBackendEntry D} (hnodes : CountedNodes srv entries)
    (h : TellSameStory srv p p' palloced entries) :
    ∀ x ∈ positions srv entries, ShownAlike (entries x.1) x.2 := by
  intro x hx
  have hperm := (tellSameStory_iff_perm p p' palloced hnodes).mp h
  obtain ⟨y, -, hy⟩ := List.mem_map.mp (hperm.mem_iff.mp (List.mem_map.mpr ⟨x, hx, rfl⟩))
  exact shownAlike_of_mem srv (hnodes x hx).nodeId hy.symm

/-- **The view and the endpoint tell the same story** exactly where no counted node has a query id
or an id that is negative as a signed number. -/
theorem same_story_iff (srv : Server D) (p p' : Pid) (palloced : Nat → UInt8)
    {entries : Nat → PwhSharedMemoryBackendEntry D} (hnodes : CountedNodes srv entries) :
    TellSameStory srv p p' palloced entries ↔
      ∀ x ∈ positions srv entries, ShownAlike (entries x.1) x.2 := by
  refine ⟨shownAlike_of_sameStory hnodes, fun halike => ?_⟩
  rw [tellSameStory_iff_perm p p' palloced hnodes]
  refine List.Perm.of_eq (List.map_congr_left fun x hx => ?_)
  rw [List.map_map]
  exact List.map_congr_left fun type _ => shown_eq (hnodes x hx).nodeId (halike x hx) type

end

/-! ## 4. Two queries -/

/-- What was measured of node `j`, with numbers that are its own. -/
def measuredNode (tag : NodeTag) (j : Nat) (parentNodeId : UInt32) : PwhNodeMetrics ℚ where
  tag := tag
  nodeId := UInt32.ofNat j
  parentNodeId := parentNodeId
  execution :=
    { tuplesReturned := 100 + j, loopsExecuted := 1 + j, startupTimeUs := 3 / 2 + j
      totalTimeUs := 5000 / (1 + j), rowsFilteredByJoins := 20 + j
      rowsFilteredByExpressions := 30 + j }
  bufferUsage :=
    { cacheHits := 40 + UInt64.ofNat j, cacheMisses := 50, localCacheHits := 60
      localCacheMisses := 70, spillFileReads := 80, spillFileWrites := 90 + UInt64.ofNat j }
  magic := PWH_NODE_MAGIC

/-- Process 7 runs a nested loop over two scans with query id 10, and process 9 a sort of a scan
with query id `queryId`. -/
def twoQueriesTable (queryId : UInt64) : Nat → PwhSharedMemoryBackendEntry ℚ
  | 0 =>
    { (.zero : PwhSharedMemoryBackendEntry ℚ) with
      backendPid := 7
      queryId := 10
      queryText := fun k => (str "SELECT * FROM a, b").getD k 0
      countOfMetrics := 3
      metrics := fun j => measuredNode ([NodeTag.nestLoop, .seqScan, .indexScan].getD j .result) j
        (if j = 0 then -1 else 0) }
  | 1 =>
    { (.zero : PwhSharedMemoryBackendEntry ℚ) with
      backendPid := 9
      queryId := queryId
      queryText := fun k => (str "SELECT * FROM c ORDER BY d").getD k 0
      countOfMetrics := 2
      metrics := fun j => measuredNode ([NodeTag.sort, .bitmapHeapScan].getD j .result) j
        (if j = 0 then -1 else 0) }
  | _ => .zero

theorem twoQueriesTable_positions (queryId : UInt64) :
    positions smallServer (twoQueriesTable queryId) =
      [(0, 0), (0, 1), (0, 2), (1, 0), (1, 1)] := rfl

theorem twoQueriesTable_countedNodes (queryId : UInt64) :
    CountedNodes smallServer (twoQueriesTable queryId) := by
  intro x hx
  simp only [twoQueriesTable_positions, List.mem_cons, List.not_mem_nil, or_false] at hx
  rcases hx with rfl | rfl | rfl | rfl | rfl
  · exact ⟨rfl, rfl, .inl rfl⟩
  · exact ⟨rfl, rfl, .inr (Nat.succ_pos _)⟩
  · exact ⟨rfl, rfl, .inr (Nat.succ_pos _)⟩
  · exact ⟨rfl, rfl, .inl rfl⟩
  · exact ⟨rfl, rfl, .inr (Nat.succ_pos _)⟩

/-- Small query ids. -/
theorem twoQueriesTable_same_story : CountedNodes smallServer (twoQueriesTable 20) ∧
    TellSameStory smallServer 1 2 (fun _ => 0) (twoQueriesTable 20) := by
  refine ⟨twoQueriesTable_countedNodes 20, ?_⟩
  refine (same_story_iff smallServer 1 2 (fun _ => 0) (twoQueriesTable_countedNodes 20)).mpr ?_
  intro x hx
  simp only [twoQueriesTable_positions, List.mem_cons, List.not_mem_nil, or_false] at hx
  rcases hx with rfl | rfl | rfl | rfl | rfl <;> exact ⟨by decide, by decide⟩

/-- The query id 2^63: the view shows a negative number. -/
theorem largeQueryId_stories_differ : ¬ ∀ entries : Nat → PwhSharedMemoryBackendEntry ℚ,
    CountedNodes smallServer entries → TellSameStory smallServer 1 2 (fun _ => 0) entries := by
  intro h
  have hnodes := twoQueriesTable_countedNodes 9223372036854775808
  have halike := shownAlike_of_sameStory hnodes (h _ hnodes) (1, 0)
    (by rw [twoQueriesTable_positions]; decide)
  exact absurd halike.1 (by decide)

end WhatIsHappening
