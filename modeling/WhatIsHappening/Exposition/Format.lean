/-
# What `pwh_format_openmetrics` prints of a table

The formatter is run alone on a table of slots.  `expositionLines` says which lines the table has;
`exposition_eq` is that the formatter prints these lines and nothing else.

Every function gets one lemma: what it returns from every state that holds the table and an
`entry_search_lock` nobody holds exclusively.  The lemmas of the functions that print also say
what the returned buffer holds.
-/
import WhatIsHappening.Exposition.Buffer
import WhatIsHappening.Frame.Readers
import Mathlib.Data.List.TakeWhile

namespace WhatIsHappening

open Interleaving Prog FormatterBuffer

variable {D : Type} [CDouble D]

/-! ## 1. The lines of a table -/

section Lines

variable (be : PwhSharedMemoryBackendEntry D)

/-- `total_query_time` of a slot. -/
def PwhSharedMemoryBackendEntry.totalQueryTime : D :=
  (List.range be.countOfMetrics.toNat).foldl
    (fun total j => CDouble.add total (be.metrics j).execution.totalTimeUs) (CDouble.ofNat 0)

/-- `node_time_seconds` and `node_percent` of a node. -/
def PwhSharedMemoryBackendEntry.timeShares (j : Nat) : D × D :=
  let time := (be.metrics j).execution.totalTimeUs
  (CDouble.div time (CDouble.ofNat 1000000),
    if CDouble.gt be.totalQueryTime (CDouble.ofNat 0) then
      CDouble.mul (CDouble.div time be.totalQueryTime) (CDouble.ofNat 100)
    else CDouble.ofNat 0)

/-- The value of one metric of a node. -/
def PwhSharedMemoryBackendEntry.metricValue (j : Nat) : MetricType → MetricValue D
  | .timeSeconds => .double (be.timeShares j).1
  | .timePercent => .double (be.timeShares j).2
  | .tuplesReturned => .double (be.metrics j).execution.tuplesReturned
  | .startupTimeUs => .double (be.metrics j).execution.startupTimeUs
  | .totalTimeUs => .double (be.metrics j).execution.totalTimeUs
  | .loopsExecuted => .double (be.metrics j).execution.loopsExecuted
  | .cacheHits => .counter (be.metrics j).bufferUsage.cacheHits
  | .cacheMisses => .counter (be.metrics j).bufferUsage.cacheMisses
  | .localCacheHits => .counter (be.metrics j).bufferUsage.localCacheHits
  | .localCacheMisses => .counter (be.metrics j).bufferUsage.localCacheMisses
  | .spillFileReads => .counter (be.metrics j).bufferUsage.spillFileReads
  | .spillFileWrites => .counter (be.metrics j).bufferUsage.spillFileWrites
  | .rowsFilteredByJoins => .double (be.metrics j).execution.rowsFilteredByJoins
  | .rowsFilteredByExpressions => .double (be.metrics j).execution.rowsFilteredByExpressions

/-- One sample of a node. -/
def PwhSharedMemoryBackendEntry.sample (j : Nat) (type : MetricType) : NodeSample D where
  type := type
  queryId := be.queryId
  nodeId := (be.metrics j).nodeId
  parentNodeId := (be.metrics j).parentNodeId
  tag := (be.metrics j).tag
  value := be.metricValue j type

/-- The sample lines of a node, one for each metric. -/
def nodeLines (ver : PgVersion) (j : Nat) : List (List UInt8) :=
  metricTypes.map fun type => (metricLine ver (be.sample j type)).render layout

/-- The sample lines of a slot, node by node. -/
def sampleLines (ver : PgVersion) : List (List UInt8) :=
  (List.range be.countOfMetrics.toNat).flatMap (nodeLines be ver)

/-- The query_info line of a slot. -/
def infoLine (srv : Server D) : List UInt8 :=
  (queryInfoLine be.queryId be.backendPid (be.text srv.gucs.maxQueryTextLen)).render layout

/-- The lines of an active slot. -/
def entryLines (srv : Server D) : List (List UInt8) :=
  infoLine be srv :: sampleLines be srv.version

/-- The active slots among `k` slots from `i` on, in index order. -/
def activeFrom (entries : Nat → PwhSharedMemoryBackendEntry D) (k i : Nat) : List Nat :=
  (List.range' i k).filter fun i => (entries i).isActive

/-- The active slots of a table, in index order. -/
def activeSlots (srv : Server D) (entries : Nat → PwhSharedMemoryBackendEntry D) : List Nat :=
  activeFrom entries srv.gucs.maxTrackedQueries 0

/-- All lines: the header, then the lines of each active slot. -/
def expositionLines (srv : Server D) (entries : Nat → PwhSharedMemoryBackendEntry D) :
    List (List UInt8) :=
  headerLines ++ (activeSlots srv entries).flatMap fun i => entryLines (entries i) srv

end Lines

/-- The counted nodes of a slot have a valid magic. -/
def CountedNodesValid (be : PwhSharedMemoryBackendEntry D) : Prop :=
  ∀ j < be.countOfMetrics.toNat, (be.metrics j).magic = PWH_NODE_MAGIC

/-- The counted nodes of a slot that are printed, those with a valid magic. -/
def PwhSharedMemoryBackendEntry.printedNodes (be : PwhSharedMemoryBackendEntry D) : List Nat :=
  (List.range be.countOfMetrics.toNat).filter fun j => (be.metrics j).magic = PWH_NODE_MAGIC

/-- What is printed of an active slot. -/
def printedLines (be : PwhSharedMemoryBackendEntry D) (srv : Server D) : List (List UInt8) :=
  infoLine be srv :: be.printedNodes.flatMap (nodeLines be srv.version)

/-- All that is printed of a table. -/
def printedPage (srv : Server D) (entries : Nat → PwhSharedMemoryBackendEntry D) :
    List (List UInt8) :=
  headerLines ++ (activeSlots srv entries).flatMap fun i => printedLines (entries i) srv

/-- What `pwh_format_openmetrics` returns on a table that nothing changes meanwhile. -/
def exposition (srv : Server D) (p : Pid) (palloced : Nat → UInt8)
    (entries : Nat → PwhSharedMemoryBackendEntry D) : Option (List UInt8) :=
  ((pwhFormatOpenmetrics srv palloced).solo (alone srv p)
    { (State.init : State D) with entries := entries }).map Prod.fst

/-! ## 2. Operations -/

section Run

variable {srv : Server D} {p : Pid} {entries : Nat → PwhSharedMemoryBackendEntry D} {α : Type}

/-- The table is as given, and nobody holds the lock exclusively. -/
def Holding (entries : Nat → PwhSharedMemoryBackendEntry D) (s : State D) : Prop :=
  s.entries = entries ∧ s.entrySearchLock.exclusive = none

section

omit [CDouble D]

/-- A read. -/
theorem yields_read {o : Op D} {r : Res o} {k : Res o → PgProg D α} {a : α}
    (ho : ∀ s, s.entries = entries → alone srv p o s = some (r, s))
    (hk : Yields (alone srv p) (Holding entries) (k r) a) :
    Yields (alone srv p) (Holding entries) (.op o k) a :=
  yields_op (fun s hs => ⟨s, ho s hs.1, hs⟩) hk

theorem yields_readNode {be j : Nat} {f : NodeField} {k : f.ty D → PgProg D α} {a : α}
    (hk : Yields (alone srv p) (Holding entries) (k (((entries be).metrics j).get f)) a) :
    Yields (alone srv p) (Holding entries) (.op (.readNode be j f) k) a :=
  yields_read (fun s hs => by rw [← hs]; rfl) hk

theorem yields_readCountOfMetrics {be : Nat} {k : UInt32 → PgProg D α} {a : α}
    (hk : Yields (alone srv p) (Holding entries) (k (entries be).countOfMetrics) a) :
    Yields (alone srv p) (Holding entries) (.op (.readCountOfMetrics be) k) a :=
  yields_read (fun s hs => by rw [← hs]; rfl) hk

theorem yields_readQueryId {be : Nat} {k : UInt64 → PgProg D α} {a : α}
    (hk : Yields (alone srv p) (Holding entries) (k (entries be).queryId) a) :
    Yields (alone srv p) (Holding entries) (.op (.readQueryId be) k) a :=
  yields_read (fun s hs => by rw [← hs]; rfl) hk

theorem yields_readBackendPid {be : Nat} {k : Pid → PgProg D α} {a : α}
    (hk : Yields (alone srv p) (Holding entries) (k (entries be).backendPid) a) :
    Yields (alone srv p) (Holding entries) (.op (.readBackendPid be) k) a :=
  yields_read (fun s hs => by rw [← hs]; rfl) hk

theorem yields_readQueryText {be : Nat} {k : List UInt8 → PgProg D α} {a : α}
    (hk : Yields (alone srv p) (Holding entries)
      (k ((entries be).text srv.gucs.maxQueryTextLen)) a) :
    Yields (alone srv p) (Holding entries) (.op (.readQueryText be) k) a :=
  yields_read (fun s hs => by rw [← hs]; rfl) hk

/-- A mark does not touch the table. -/
theorem yields_mark {m : Mark} {k : Unit → PgProg D α} {a : α}
    (hk : Yields (alone srv p) (Holding entries) (k ()) a) :
    Yields (alone srv p) (Holding entries) (.op (.mark m) k) a := by
  refine yields_op (fun s hs => ⟨s.record p m, rfl, ?_⟩) hk
  cases m <;> exact hs

theorem yields_emit {x : Emission D} {k : Unit → PgProg D α} {a : α}
    (hk : Yields (alone srv p) (Holding entries) (k ()) a) :
    Yields (alone srv p) (Holding entries) (.op (.emit x) k) a :=
  yields_op (fun _ hs => ⟨_, rfl, hs⟩) hk

/-- `pwh_get_backend_entry` of a slot of the table. -/
theorem pwhGetBackendEntry_yields {i : Nat} (hi : i < srv.gucs.maxTrackedQueries) :
    Yields (alone srv p) (Holding entries) (pwhGetBackendEntry srv i) (some i) := by
  rw [pwhGetBackendEntry, if_neg (Nat.not_le.mpr hi), pwhLwlockAcquire_bind,
    pwhLwlockRelease_bind]
  intro s hs
  obtain ⟨shared, hlock⟩ : ∃ shared, s.entrySearchLock = ⟨none, shared⟩ :=
    ⟨s.entrySearchLock.shared, by rw [← hs.2]⟩
  have hacquire : s.entrySearchLock.acquire .LW_SHARED p = some ⟨none, p :: shared⟩ := by
    rw [hlock]
    rfl
  have hrelease : LWLock.release ⟨none, p :: shared⟩ p = some ⟨none, shared⟩ := by
    simp [LWLock.release]
  show ∃ t, solo (alone srv p) (.op (.lwLockAcquire .LW_SHARED) fun _ =>
    .op .lwLockRelease fun held => if held then .ret (some i) else .raise) s =
      some (some i, t) ∧ Holding entries t
  simp only [solo, alone, exec, hacquire, Option.map_some, Option.bind_some,
    State.modifyBackend, hrelease, if_true]
  exact ⟨_, rfl, hs.1, rfl⟩

theorem pwhIsBackendEntryActive_yields (be : Nat) :
    Yields (alone srv p) (Holding entries) (pwhIsBackendEntryActive be) (entries be).isActive := by
  have hactive : (entries be).isActive = decide ((entries be).backendPid ≠ 0) := by
    simp [PwhSharedMemoryBackendEntry.isActive, bne, BEq.beq]
  rw [hactive]
  exact yields_readBackendPid (yields_ret _)

end

/-! ## 3. The numbers of a slot -/

omit [CDouble D] in
variable (srv p) in
/-- **The loop over the counted nodes**, whose body takes `A j` to `A (j + 1)`. -/
theorem forNodes_yields {β : Type} (be : Nat) (body : Nat → β → PgProg D β) (A : Nat → β → Prop)
    (h : ∀ j acc, j < (entries be).countOfMetrics.toNat → A j acc →
      ∃ acc', Yields (alone srv p) (Holding entries) (body j acc) acc' ∧ A (j + 1) acc') :
    ∀ fuel j acc, (entries be).countOfMetrics.toNat < j + fuel →
      j ≤ (entries be).countOfMetrics.toNat → A j acc →
      ∃ acc', Yields (alone srv p) (Holding entries) (forNodes be body fuel j acc) acc' ∧
        A (entries be).countOfMetrics.toNat acc' := by
  intro fuel
  induction fuel with
  | zero =>
    intro j acc hlt hle
    omega
  | succ fuel ih =>
    intro j acc hlt hle hA
    rw [forNodes, act_bind]
    rcases Nat.lt_or_ge j (entries be).countOfMetrics.toNat with hj | hj
    · obtain ⟨acc₁, hbody, hA₁⟩ := h j acc hj hA
      obtain ⟨acc₂, hrest, hA₂⟩ := ih (j + 1) acc₁ (by omega) hj hA₁
      refine ⟨acc₂, yields_readCountOfMetrics ?_, hA₂⟩
      rw [if_pos hj]
      exact hbody.bind hrest
    · refine ⟨acc, yields_readCountOfMetrics ?_, Nat.le_antisymm hle hj ▸ hA⟩
      rw [if_neg (Nat.not_lt.mpr hj)]
      exact yields_ret acc

omit [CDouble D] in
/-- A `u32` counter does not run out. -/
theorem count_lt_range (be : PwhSharedMemoryBackendEntry D) :
    be.countOfMetrics.toNat < 0 + U32_RANGE := by
  have := be.countOfMetrics.toNat_lt
  unfold U32_RANGE
  omega

theorem sumTotalQueryTime_yields (be : Nat) :
    Yields (alone srv p) (Holding entries) (sumTotalQueryTime be)
      (entries be).totalQueryTime := by
  obtain ⟨total, hrun, rfl⟩ := forNodes_yields srv p be
    (fun j total => do
      let time ← act (.readNode be j .totalTimeUs)
      return CDouble.add total time)
    (fun j total => total = (List.range j).foldl
      (fun total j => CDouble.add total ((entries be).metrics j).execution.totalTimeUs)
      (CDouble.ofNat 0))
    (fun j total _ h => ⟨_, yields_readNode (yields_ret _), by
      rw [List.range_succ, List.foldl_append, ← h]
      rfl⟩)
    U32_RANGE 0 (CDouble.ofNat 0) (count_lt_range _) (Nat.zero_le _) rfl
  exact hrun

theorem nodeTimeShares_yields (be j : Nat) :
    Yields (alone srv p) (Holding entries) (nodeTimeShares be j (entries be).totalQueryTime)
      ((entries be).timeShares j) := by
  unfold nodeTimeShares PwhSharedMemoryBackendEntry.timeShares
  apply yields_readNode
  dsimp only
  split
  · exact yields_readNode (yields_ret _)
  · exact yields_ret _

theorem readMetricValue_yields (be j : Nat) (type : MetricType) :
    Yields (alone srv p) (Holding entries) (readMetricValue be j ((entries be).timeShares j) type)
      ((entries be).metricValue j type) := by
  cases type
  case timeSeconds => exact yields_ret _
  case timePercent => exact yields_ret _
  all_goals exact yields_readNode (yields_ret _)

/-! ## 4. The lines of a slot -/

variable {buf : FormatterBuffer} {text : List UInt8}

/-- `formatter_append_metric` appends one line. -/
theorem formatterAppendMetric_yields (be j : Nat) (type : MetricType)
    (samples : List (NodeSample D)) :
    Yields (alone srv p) (Holding entries)
      (formatterAppendMetric srv.version be j (entries be).queryId ((entries be).timeShares j)
        type (buf, samples))
      (buf.append (sampleLine srv.version ((entries be).sample j type)),
        samples ++ [(entries be).sample j type]) := by
  refine (readMetricValue_yields be j type).bind ?_
  exact yields_readNode (yields_readNode (yields_readNode (yields_ret _)))

/-- The metrics of a node, appended line by line. -/
theorem formatterAppendMetrics_yields (be j : Nat) (types : List MetricType) :
    ∀ {buf : FormatterBuffer} {text : List UInt8} (samples : List (NodeSample D)),
      buf.HoldsString text → ∃ buf',
        Yields (alone srv p) (Holding entries)
          (formatterAppendMetrics srv.version be j (entries be).queryId
            ((entries be).timeShares j) types (buf, samples))
          (buf', samples ++ types.map ((entries be).sample j)) ∧
        buf'.HoldsString (text ++ linesText (types.map fun type =>
          (metricLine srv.version ((entries be).sample j type)).render layout)) := by
  induction types with
  | nil =>
    intro buf text samples h
    refine ⟨buf, ?_, ?_⟩
    · rw [List.map_nil, List.append_nil]
      exact yields_ret _
    · rw [List.map_nil, linesText_nil, List.append_nil]
      exact h
  | cons type types ih =>
    intro buf text samples h
    have hline := h.toHolds.append
      ((length_sampleLine srv.version ((entries be).sample j type)).trans (by decide))
    obtain ⟨buf', hrun, hbuf⟩ := ih _ hline
    refine ⟨buf', ?_, ?_⟩
    · rw [List.map_cons, List.append_cons]
      exact (formatterAppendMetric_yields be j type samples).bind hrun
    · rw [List.map_cons, linesText_cons, ← sampleLine_eq, ← List.append_assoc]
      exact hbuf

variable (srv p) in
/-- One iteration of the loop that prints the nodes. -/
theorem formatterAppendAllNodeMetrics_yields (be j : Nat) (samples : List (NodeSample D))
    (h : buf.HoldsString text) :
    ∃ buf',
      Yields (alone srv p) (Holding entries)
        (formatterAppendAllNodeMetrics srv.version be j (entries be).queryId
          (entries be).totalQueryTime (buf, samples))
        (buf', samples ++ metricTypes.map ((entries be).sample j)) ∧
      buf'.HoldsString (text ++ linesText (nodeLines (entries be) srv.version j)) := by
  obtain ⟨buf', hrun, hbuf⟩ := formatterAppendMetrics_yields be j metricTypes samples h
  exact ⟨buf', (nodeTimeShares_yields be j).bind hrun, hbuf⟩

omit [CDouble D] in
/-- The text that is read ends at the first NUL. -/
theorem text_nul (n : Nat) (be : PwhSharedMemoryBackendEntry D) : 0 ∉ be.text n := by
  intro h
  simpa using List.mem_takeWhile_imp h

omit [CDouble D] in
variable (srv p) in
/-- `formatter_append_query_info` appends the query_info line. -/
theorem formatterAppendQueryInfo_yields (be : Nat) (h : buf.Holds text) :
    ∃ buf' reading,
      Yields (alone srv p) (Holding entries) (formatterAppendQueryInfo be buf) (buf', reading) ∧
      buf'.HoldsString (text ++ linesText [infoLine (entries be) srv]) := by
  have hprefix := h.append (length_queryInfoPrefix (entries be).queryId (entries be).backendPid)
  have htext := hprefix.toHolds.appendEscaped ((entries be).text srv.gucs.maxQueryTextLen)
  have hsuffix := htext.append (s := queryInfoSuffix) (by decide)
  refine ⟨_, _, yields_readQueryId (yields_readBackendPid (yields_readQueryText
    (yields_ret _))), ?_⟩
  rw [linesText_cons, linesText_nil, List.append_nil, infoLine, ← queryInfo_eq,
    ← List.append_assoc, ← List.append_assoc]
  exact hsuffix

/-- The samples of a slot, node by node. -/
def PwhSharedMemoryBackendEntry.samples (be : PwhSharedMemoryBackendEntry D) :
    List (NodeSample D) :=
  (List.range be.countOfMetrics.toNat).flatMap fun j => metricTypes.map (be.sample j)

/-- The samples of the nodes of a slot that are printed. -/
def PwhSharedMemoryBackendEntry.printedSamples (be : PwhSharedMemoryBackendEntry D) :
    List (NodeSample D) :=
  be.printedNodes.flatMap fun j => metricTypes.map (be.sample j)

/-- The body of the loop over the nodes. -/
def formatNode (ver : PgVersion) (be : Nat) (queryId : UInt64) (totalQueryTime : D) (j : Nat)
    (acc : FormatterBuffer × List (NodeSample D)) :
    PgProg D (FormatterBuffer × List (NodeSample D)) := do
  if ← pwhValidateNodeMagic be j then
    formatterAppendAllNodeMetrics ver be j queryId totalQueryTime acc
  else return acc

/-- The nodes below `j` that are printed. -/
def PwhSharedMemoryBackendEntry.printedBelow (be : PwhSharedMemoryBackendEntry D) (j : Nat) :
    List Nat :=
  (List.range j).filter fun j => (be.metrics j).magic = PWH_NODE_MAGIC

omit [CDouble D] in
theorem printedBelow_succ (be : PwhSharedMemoryBackendEntry D) (j : Nat) :
    be.printedBelow (j + 1) = be.printedBelow j ++
      if (be.metrics j).magic = PWH_NODE_MAGIC then [j] else [] := by
  simp [PwhSharedMemoryBackendEntry.printedBelow, List.range_succ, List.filter_singleton]

variable (srv p) in
/-- One iteration appends the lines of its node, if it is printed. -/
theorem formatNode_yields (be j : Nat) (samples : List (NodeSample D)) (h : buf.HoldsString text) :
    ∃ buf', Yields (alone srv p) (Holding entries)
        (formatNode srv.version be (entries be).queryId (entries be).totalQueryTime j
          (buf, samples))
        (buf', samples ++
          (if ((entries be).metrics j).magic = PWH_NODE_MAGIC then [j] else []).flatMap
            fun j => metricTypes.map ((entries be).sample j)) ∧
      buf'.HoldsString (text ++ linesText
        ((if ((entries be).metrics j).magic = PWH_NODE_MAGIC then [j] else []).flatMap
          (nodeLines (entries be) srv.version))) := by
  by_cases hvalid : ((entries be).metrics j).magic = PWH_NODE_MAGIC
  · obtain ⟨buf', hrun, hbuf'⟩ := formatterAppendAllNodeMetrics_yields srv p be j samples h
    simp only [if_pos hvalid, List.flatMap_singleton]
    refine ⟨buf', ?_, hbuf'⟩
    rw [formatNode, pwhValidateNodeMagic_bind, act_bind]
    apply yields_readNode
    rw [show ((entries be).metrics j).get .magic = PWH_NODE_MAGIC from hvalid]
    exact hrun
  · simp only [if_neg hvalid, List.flatMap_nil, linesText_nil, List.append_nil]
    refine ⟨buf, ?_, h⟩
    rw [formatNode, pwhValidateNodeMagic_bind, act_bind]
    apply yields_readNode
    rw [decide_eq_false (show ¬ ((entries be).metrics j).get .magic = PWH_NODE_MAGIC from hvalid)]
    exact yields_ret _

variable (srv p) in
/-- The loop over the nodes appends the lines of those that are printed. -/
theorem formatNodes_yields (be : Nat) (h : buf.HoldsString text) :
    ∃ buf', Yields (alone srv p) (Holding entries)
        (forNodes be (formatNode srv.version be (entries be).queryId (entries be).totalQueryTime)
          U32_RANGE 0 (buf, [])) (buf', (entries be).printedSamples) ∧
      buf'.HoldsString (text ++
        linesText ((entries be).printedNodes.flatMap (nodeLines (entries be) srv.version))) := by
  let A : Nat → FormatterBuffer × List (NodeSample D) → Prop := fun j acc =>
    acc.1.HoldsString (text ++ linesText
        (((entries be).printedBelow j).flatMap (nodeLines (entries be) srv.version))) ∧
      acc.2 = ((entries be).printedBelow j).flatMap fun j => metricTypes.map ((entries be).sample j)
  obtain ⟨⟨buf', _⟩, hloop, hbuf', rfl⟩ := forNodes_yields srv p be
    (formatNode srv.version be (entries be).queryId (entries be).totalQueryTime) A
    (fun j acc _ hA => by
      obtain ⟨buf', hrun, hbuf'⟩ := formatNode_yields srv p be j acc.2 hA.1
      refine ⟨_, hrun, ?_, ?_⟩
      · rw [printedBelow_succ, List.flatMap_append, linesText_append, ← List.append_assoc]
        exact hbuf'
      · rw [printedBelow_succ, List.flatMap_append, ← hA.2])
    U32_RANGE 0 (buf, []) (count_lt_range _) (Nat.zero_le _)
    ⟨by simpa [PwhSharedMemoryBackendEntry.printedBelow] using h, rfl⟩
  exact ⟨buf', hloop, hbuf'⟩

/-- The lists of `n` elements, one after the other, that make up a list. -/
def groupsOf {α : Type} (n : Nat) (l : List α) : List (List α) :=
  (List.range ((l.length + n - 1) / n)).map fun k => (l.drop (k * n)).take n

/-- The groups of samples an operation shows, one group for each node. -/
def sampleGroups : Op D → List (List (NodeSample D))
  | .emit (.entry reading) => groupsOf metricTypes.length reading.samples
  | _ => []

theorem sumTotalQueryTime_quiet (be : Nat) :
    (sumTotalQueryTime be : PgProg D D).All fun o => sampleGroups o = [] := by
  refine forNodes_all (by rfl) (fun j total => ?_) _ _ _
  exact act_all rfl fun _ => trivial

theorem formatNode_quiet (ver : PgVersion) (be : Nat) (queryId : UInt64) (total : D) (j : Nat)
    (acc : FormatterBuffer × List (NodeSample D)) :
    (formatNode ver be queryId total j acc).All fun o => sampleGroups o = [] := by
  rw [formatNode, pwhValidateNodeMagic_bind]
  refine act_all rfl fun magic => ?_
  split
  · exact formatterAppendAllNodeMetrics_all (fun _ => rfl) _ _ _ _
  · trivial

variable (srv p) in
/-- The body of the loop over the slots appends the lines of an active slot, and shows the samples
of its nodes. -/
theorem formatEntry_shows (be : Nat) (h : buf.Holds text) :
    ∃ buf', Shows (alone srv p) sampleGroups (Holding entries) (formatEntry srv.version be buf) buf'
        (groupsOf metricTypes.length (entries be).printedSamples) ∧
      buf'.HoldsString (text ++ linesText (printedLines (entries be) srv)) := by
  obtain ⟨buf₁, reading, hinfo, hbuf₁⟩ :=
    formatterAppendQueryInfo_yields srv p be h
  obtain ⟨buf₂, hloop, hbuf₂⟩ := formatNodes_yields srv p be hbuf₁
  refine ⟨buf₂, ?_, ?_⟩
  · have hinfo : Shows (alone srv p) sampleGroups (Holding entries)
        (formatterAppendQueryInfo be buf) (buf₁, reading) [] :=
      hinfo.shows (act_all rfl fun _ => act_all rfl fun _ => act_all rfl fun _ => trivial)
    have hqueryId : Shows (alone srv p) sampleGroups (Holding entries) (act (.readQueryId be))
        (entries be).queryId [] := (yields_readQueryId (yields_ret _)).shows ⟨rfl, fun _ => trivial⟩
    have hsum : Shows (alone srv p) sampleGroups (Holding entries) (sumTotalQueryTime be)
        (entries be).totalQueryTime [] :=
      (sumTotalQueryTime_yields be).shows (sumTotalQueryTime_quiet be)
    have hloop : Shows (alone srv p) sampleGroups (Holding entries)
        (forNodes be (formatNode srv.version be (entries be).queryId (entries be).totalQueryTime)
          U32_RANGE 0 (buf₁, [])) (buf₂, (entries be).printedSamples) [] :=
      hloop.shows (forNodes_all (by rfl) (fun j acc => formatNode_quiet _ _ _ _ j acc) _ _ _)
    have hemit : Shows (alone srv p) sampleGroups (Holding entries)
        (act (.emit (.entry { reading with samples := (entries be).printedSamples })) >>=
          fun _ => .ret buf₂)
        buf₂ (groupsOf metricTypes.length (entries be).printedSamples ++ []) :=
      shows_op (fun _ hs => ⟨_, rfl, hs⟩) ((yields_ret buf₂).shows trivial)
    rw [← List.append_nil (groupsOf _ _)]
    refine hinfo.bind ?_
    exact hqueryId.bind (hsum.bind (hloop.bind hemit))
  · have hlines : printedLines (entries be) srv = [infoLine (entries be) srv] ++
        (entries be).printedNodes.flatMap (nodeLines (entries be) srv.version) := rfl
    rw [hlines, linesText_append, ← List.append_assoc]
    exact hbuf₂

/-! ## 5. The whole output -/

omit [CDouble D] in
theorem activeFrom_succ (k i : Nat) :
    activeFrom entries (k + 1) i =
      (if (entries i).isActive then [i] else []) ++ activeFrom entries k (i + 1) := by
  rw [activeFrom, List.range'_succ, List.filter_cons]
  split <;> rfl

/-- The loop over the slots appends the lines of the active ones, and shows their samples. -/
theorem formatEntries_shows :
    ∀ k i {buf : FormatterBuffer} {text : List UInt8}, i + k = srv.gucs.maxTrackedQueries →
      buf.HoldsString text →
      ∃ buf', Shows (alone srv p) sampleGroups (Holding entries) (formatEntries srv k i buf) buf'
          ((activeFrom entries k i).flatMap fun i =>
            groupsOf metricTypes.length (entries i).printedSamples) ∧
        buf'.HoldsString (text ++ linesText
          ((activeFrom entries k i).flatMap fun i => printedLines (entries i) srv)) := by
  intro k
  induction k with
  | zero =>
    intro i buf text _ h
    refine ⟨buf, (yields_ret _).shows trivial, ?_⟩
    simpa [activeFrom] using h
  | succ k ih =>
    intro i buf text hi h
    have hlt : i < srv.gucs.maxTrackedQueries := by omega
    have hnext : i + 1 + k = srv.gucs.maxTrackedQueries := by omega
    have hget : Shows (alone srv p) sampleGroups (Holding entries) (pwhGetBackendEntry srv i)
        (some i) [] := by
      refine (pwhGetBackendEntry_yields hlt).shows ?_
      rw [pwhGetBackendEntry, if_neg (Nat.not_le.mpr hlt)]
      exact act_all rfl fun _ => (pwhLwlockRelease_all (by rfl)).bind fun _ => trivial
    have hvisit : Shows (alone srv p) sampleGroups (Holding entries) (act (.mark (.visitEntry i)))
        () [] := (yields_mark (yields_ret ())).shows ⟨rfl, fun _ => trivial⟩
    have hactivity : Shows (alone srv p) sampleGroups (Holding entries) (pwhIsBackendEntryActive i)
        (entries i).isActive [] :=
      (pwhIsBackendEntryActive_yields i).shows ⟨rfl, fun _ => trivial⟩
    rw [activeFrom_succ, List.flatMap_append, List.flatMap_append, linesText_append,
      ← List.append_assoc text]
    by_cases hactive : (entries i).isActive = true
    · obtain ⟨buf₁, hrun₁, hbuf₁⟩ := formatEntry_shows srv p i h.toHolds
      obtain ⟨buf₂, hrun₂, hbuf₂⟩ := ih (i + 1) hnext hbuf₁
      refine ⟨buf₂, ?_, ?_⟩
      · rw [if_pos hactive, List.flatMap_singleton]
        refine hget.bind (hvisit.bind (hactivity.bind ?_))
        rw [hactive]
        exact hrun₁.bind hrun₂
      · rw [if_pos hactive, List.flatMap_singleton]
        exact hbuf₂
    · obtain ⟨buf₂, hrun₂, hbuf₂⟩ := ih (i + 1) hnext h
      have hleave : Shows (alone srv p) sampleGroups (Holding entries) (act (.mark .leaveEntry))
          () [] := (yields_mark (yields_ret ())).shows ⟨rfl, fun _ => trivial⟩
      refine ⟨buf₂, ?_, ?_⟩
      · rw [if_neg hactive, List.flatMap_nil, List.nil_append]
        refine hget.bind (hvisit.bind (hactivity.bind ?_))
        rw [if_neg hactive]
        exact hleave.bind hrun₂
      · rw [if_neg hactive, List.flatMap_nil, linesText_nil, List.append_nil]
        exact hbuf₂

end Run

/-- The header lines are printed first. -/
theorem formatHeader_holds (palloced : Nat → UInt8) :
    (formatHeader (init palloced)).HoldsString (linesText headerLines) := by
  have hmetrics : ∀ (types : List MetricType) {buf : FormatterBuffer} {text : List UInt8},
      buf.HoldsString text →
      (types.foldl (fun buf type => buf.append (metricHeader type)) buf).HoldsString
        (text ++ types.flatMap metricHeader) := by
    intro types
    induction types with
    | nil =>
      intro buf text h
      simpa using h
    | cons type types ih =>
      intro buf text h
      rw [List.foldl_cons, List.flatMap_cons, ← List.append_assoc]
      exact ih (h.toHolds.append (length_metricHeader type))
  rw [headerText_eq]
  exact hmetrics metricTypes ((holds_init palloced).append length_queryInfoHeader)

theorem printedPage_isLine (srv : Server D) (entries : Nat → PwhSharedMemoryBackendEntry D) :
    ∀ l ∈ printedPage srv entries, IsLine l := by
  intro l hl
  rcases List.mem_append.mp hl with hl | hl
  · exact headerLines_isLine l hl
  obtain ⟨i, -, hl⟩ := List.mem_flatMap.mp hl
  rcases List.mem_cons.mp hl with rfl | hl
  · exact queryInfoLine_isLine _ _ (text_nul _ _)
  obtain ⟨j, -, hl⟩ := List.mem_flatMap.mp hl
  obtain ⟨type, -, rfl⟩ := List.mem_map.mp hl
  exact metricLine_isLine _ _

/-- Lines make a text without NULs. -/
theorem linesText_nul {lines : List (List UInt8)} (h : ∀ l ∈ lines, IsLine l) :
    0 ∉ linesText lines := by
  intro h0
  obtain ⟨l, hl, h0⟩ := List.mem_flatMap.mp h0
  rcases List.mem_append.mp h0 with h0 | h0
  · exact (h l hl).2 h0
  · exact absurd h0 (by decide)

/-- What the formatter prints, whatever the magics are. -/
theorem exposition_prints (srv : Server D) (p : Pid) (palloced : Nat → UInt8)
    (entries : Nat → PwhSharedMemoryBackendEntry D) :
    exposition srv p palloced entries = some (linesText (printedPage srv entries)) := by
  obtain ⟨buf, hrun, hbuf⟩ := formatEntries_shows (p := p) srv.gucs.maxTrackedQueries 0
    (Nat.zero_add _) (formatHeader_holds palloced)
  have hout : buf.cString = linesText (printedPage srv entries) := by
    rw [printedPage, linesText_append]
    apply hbuf.cString
    have := linesText_nul (printedPage_isLine srv entries)
    rwa [printedPage, linesText_append] at this
  have hprog := hrun.yields.bind (f := fun buf => (.ret buf.cString : PgProg D (List UInt8)))
    (yields_ret _)
  obtain ⟨t, ht, -⟩ := hprog { (State.init : State D) with entries := entries } ⟨rfl, rfl⟩
  have hsolo : (pwhFormatOpenmetrics srv palloced).solo (alone srv p)
      { (State.init : State D) with entries := entries } = some (buf.cString, t) := ht
  rw [exposition, hsolo, Option.map_some, hout]

/-! ## 6. Tables whose counted nodes are valid -/

omit [CDouble D] in
theorem CountedNodesValid.printedNodes {be : PwhSharedMemoryBackendEntry D}
    (h : CountedNodesValid be) : be.printedNodes = List.range be.countOfMetrics.toNat :=
  List.filter_eq_self.mpr fun j hj => decide_eq_true (h j (List.mem_range.mp hj))

theorem CountedNodesValid.printedSamples {be : PwhSharedMemoryBackendEntry D}
    (h : CountedNodesValid be) : be.printedSamples = be.samples := by
  rw [PwhSharedMemoryBackendEntry.printedSamples, h.printedNodes,
    PwhSharedMemoryBackendEntry.samples]

theorem printedPage_eq {srv : Server D} {entries : Nat → PwhSharedMemoryBackendEntry D}
    (hvalid : ∀ i ∈ activeSlots srv entries, CountedNodesValid (entries i)) :
    printedPage srv entries = expositionLines srv entries := by
  rw [printedPage, expositionLines, List.flatMap_congr]
  intro i hi
  rw [printedLines, (hvalid i hi).printedNodes]
  rfl

/-- **The formatter prints the lines of the table and nothing else.** -/
theorem exposition_eq (srv : Server D) (p : Pid) (palloced : Nat → UInt8)
    {entries : Nat → PwhSharedMemoryBackendEntry D}
    (hvalid : ∀ i ∈ activeSlots srv entries, CountedNodesValid (entries i)) :
    exposition srv p palloced entries = some (linesText (expositionLines srv entries)) := by
  rw [exposition_prints, printedPage_eq hvalid]

/-- Split at newlines, the output is its lines and an empty rest. -/
theorem splitOn_printed (srv : Server D) (entries : Nat → PwhSharedMemoryBackendEntry D) :
    (linesText (printedPage srv entries)).splitOn 10 = printedPage srv entries ++ [[]] :=
  LabelledText.splitOn_lines _ fun l hl => (printedPage_isLine srv entries l hl).1

theorem splitOn_exposition {srv : Server D} {entries : Nat → PwhSharedMemoryBackendEntry D}
    (hvalid : ∀ i ∈ activeSlots srv entries, CountedNodesValid (entries i)) :
    (linesText (expositionLines srv entries)).splitOn 10 = expositionLines srv entries ++ [[]] := by
  rw [← printedPage_eq hvalid]
  exact splitOn_printed srv entries

end WhatIsHappening
