/-
# What is shown of one query

`OfOneQuery` says of a row of the view, or of the lines of one slot in the exposition, that all of
it belongs to one query of one process.  A reader that is always answered with what a slot shows of
one query (`SlotAnswers`) puts together nothing else.
-/
import Mathlib.Data.List.Forall2
import WhatIsHappening.Backend.Values

namespace WhatIsHappening

open Interleaving Prog

variable {D : Type} [CDouble D]

/-! ## 1. What belongs to a query -/

/-- Values read of the instrumentation of plan nodes. -/
abbrev Measured (D : Type) := List (PlanStatePtr × Instrumentation D)

/-- The sum of one value for each node. -/
def TotalOf (measured : Measured D) (acc : Visited) (total : D) : Prop :=
  ∃ times, List.Forall₂ (fun x time => MeasuredOf measured x.1 .totalTimeUs time) acc times ∧
    total = times.foldl CDouble.add (CDouble.ofNat 0)

/-- A metric of the node `x` of a query with the nodes `acc`. -/
def MetricOf (measured : Measured D) (acc : Visited) (x : PlanStatePtr × Int) :
    MetricType → MetricValue D → Prop
  | .timeSeconds, .double v => ∃ time, MeasuredOf measured x.1 .totalTimeUs time ∧
      v = CDouble.div time (CDouble.ofNat 1000000)
  | .timePercent, .double v => v = CDouble.ofNat 0 ∨ ∃ time total,
      MeasuredOf measured x.1 .totalTimeUs time ∧ TotalOf measured acc total ∧
        v = CDouble.mul (CDouble.div time total) (CDouble.ofNat 100)
  | .tuplesReturned, .double v => MeasuredOf measured x.1 .tuplesReturned v
  | .startupTimeUs, .double v => MeasuredOf measured x.1 .startupTimeUs v
  | .totalTimeUs, .double v => MeasuredOf measured x.1 .totalTimeUs v
  | .loopsExecuted, .double v => MeasuredOf measured x.1 .loopsExecuted v
  | .rowsFilteredByJoins, .double v => MeasuredOf measured x.1 .rowsFilteredByJoins v
  | .rowsFilteredByExpressions, .double v => MeasuredOf measured x.1 .rowsFilteredByExpressions v
  | .cacheHits, .counter n => MeasuredOf measured x.1 .cacheHits n
  | .cacheMisses, .counter n => MeasuredOf measured x.1 .cacheMisses n
  | .localCacheHits, .counter n => MeasuredOf measured x.1 .localCacheHits n
  | .localCacheMisses, .counter n => MeasuredOf measured x.1 .localCacheMisses n
  | .spillFileReads, .counter n => MeasuredOf measured x.1 .spillFileReads n
  | .spillFileWrites, .counter n => MeasuredOf measured x.1 .spillFileWrites n
  | _, _ => False

/-- A metric of a row. -/
def StatusRow.metric (r : StatusRow D) : MetricType → MetricValue D
  | .tuplesReturned => .double r.tuplesReturned
  | .startupTimeUs => .double r.startupTimeUs
  | .totalTimeUs => .double r.totalTimeUs
  | .loopsExecuted => .double r.loopsExecuted
  | .timeSeconds => .double r.timeSeconds
  | .timePercent => .double r.timePercent
  | .cacheHits => .counter r.cacheHits
  | .cacheMisses => .counter r.cacheMisses
  | .localCacheHits => .counter r.localCacheHits
  | .localCacheMisses => .counter r.localCacheMisses
  | .spillFileReads => .counter r.spillFileReads
  | .spillFileWrites => .counter r.spillFileWrites
  | .rowsFilteredByJoins => .double r.rowsFilteredByJoins
  | .rowsFilteredByExpressions => .double r.rowsFilteredByExpressions

/-- A node of the query: its place in the list is its id. -/
def IsNode (srv : Server D) (acc : Visited) (x : PlanStatePtr × Int) (tag : NodeTag)
    (nodeId parentNodeId : UInt32) : Prop :=
  ∃ j, acc[j]? = some x ∧ tag = planTag srv x.1 ∧ nodeId = UInt32.ofNat j ∧
    parentNodeId = (Int32.ofInt x.2).toUInt32

/-- A sample of one of the nodes. -/
def SampleOf (srv : Server D) (measured : Measured D) (acc : Visited) (queryId : UInt64)
    (y : NodeSample D) : Prop :=
  y.queryId = queryId ∧ ∃ x, IsNode srv acc x y.tag y.nodeId y.parentNodeId ∧
    MetricOf measured acc x y.type y.value

/-- The query `q`, which process `p` recorded, with its id, its text and its nodes. -/
structure IsQuery (srv : Server D) (s : State D) (p : Pid) (q : QueryDescPtr) (queryId : UInt64)
    (queryText : List UInt8) (acc : Visited) : Prop where
  pid_ne_zero : p ≠ 0
  recorded : (s.backends p).lastRecorded = some q
  queryId : ∃ now, queryId = queryIdAt p (srv.queryDesc q) now
  queryText : queryText = shownText srv.gucs.maxQueryTextLen (srv.queryDesc q).sourceText
  nodes : ListsNodes srv q acc

/-- All of it belongs to one query of the process whose pid it carries. -/
def OfOneQuery (srv : Server D) (s : State D) : Emission D → Prop
  | .row r => ∃ q acc x, IsQuery srv s r.backendPid q r.queryId r.queryText acc ∧
      IsNode srv acc x r.nodeTag r.nodeId r.parentNodeId ∧
      ∀ type, MetricOf s.measured acc x type (r.metric type)
  | .entry r => ∃ q acc, IsQuery srv s r.backendPid q r.queryId r.queryText acc ∧
      ∀ y ∈ r.samples, SampleOf srv s.measured acc r.queryId y

/-! ## 2. What a slot answers -/

/-- A field of the record of node `x`, which is number `j`. -/
def FieldOf (srv : Server D) (measured : Measured D) (j : Nat) (x : PlanStatePtr × Int) :
    (f : NodeField) → f.ty D → Prop
  | .tag, v => v = planTag srv x.1
  | .nodeId, v => v = UInt32.ofNat j
  | .parentNodeId, v => v = (Int32.ofInt x.2).toUInt32
  | .magic, v => v = PWH_NODE_MAGIC
  | f, v => MeasuredOf measured x.1 f v

/-- The answers of a slot that shows the nodes `acc` of a query of process `p` under the header
`hd`. -/
def SlotAnswers (srv : Server D) (be : Nat) (p : Pid) (hd : Header) (acc : Visited)
    (measured : Measured D) : (o : Op D) → Res o → Prop
  | .readBackendPid i, r => i = be → r = p
  | .readCountOfMetrics i, r => i = be → r = hd.countOfMetrics
  | .readQueryId i, r => i = be → r = hd.queryId
  | .readQueryText i, r => i = be →
      r = ((List.range srv.gucs.maxQueryTextLen).map hd.queryText).takeWhile (· ≠ 0)
  | .readNode i j f, r => i = be → ∀ x, acc[j]? = some x → FieldOf srv measured j x f r
  | _, _ => True

theorem FieldOf.mono {srv : Server D} {measured measured' : Measured D} {j : Nat}
    {x : PlanStatePtr × Int} {f : NodeField} {v : f.ty D} (h : FieldOf srv measured j x f v)
    (hsub : ∀ y ∈ measured, y ∈ measured') : FieldOf srv measured' j x f v := by
  cases f <;> first | exact h | exact MeasuredOf.mono h hsub

/-- Answers that are right stay right. -/
theorem SlotAnswers.mono {srv : Server D} {be : Nat} {p : Pid} {hd : Header} {acc : Visited}
    {measured measured' : Measured D} (hsub : ∀ y ∈ measured, y ∈ measured') (o : Op D)
    (r : Res o) (h : SlotAnswers srv be p hd acc measured o r) :
    SlotAnswers srv be p hd acc measured' o r := by
  cases o <;> first | exact h | exact fun hi x hx => (h hi x hx).mono hsub

/-! ## 3. What is put together -/

section Reading

variable {srv : Server D} {be : Nat} {p : Pid} {hd : Header} {acc : Visited}
  {measured : Measured D}

/-- A loop over the nodes makes as many turns as nodes are counted. -/
theorem forNodes_returns {α : Type} {I : Nat → α → Prop} {body : Nat → α → PgProg D α}
    (hbody : ∀ j a b, j < hd.countOfMetrics.toNat → I j a →
      (body j a).ReturnsBy (SlotAnswers srv be p hd acc measured) b → I (j + 1) b) :
    ∀ fuel j a b, j ≤ hd.countOfMetrics.toNat → hd.countOfMetrics.toNat < j + fuel → I j a →
      (forNodes be body fuel j a).ReturnsBy (SlotAnswers srv be p hd acc measured) b →
      I hd.countOfMetrics.toNat b := by
  intro fuel j a b hle hlt ha h
  have hcount : ∀ n : UInt32, SlotAnswers srv be p hd acc measured (.readCountOfMetrics be) n →
      n = hd.countOfMetrics := fun n hn => hn rfl
  obtain ⟨n, hn, hI, hend⟩ := forNodes_turns (fun n hn => (congrArg UInt32.toNat (hcount n hn)).le)
    hbody fuel j a b hle ha h
  have hmeets : n = hd.countOfMetrics.toNat := by
    rcases hend with hfuel | ⟨count, hans, hcn⟩
    · omega
    · rw [hcount count hans] at hcn
      exact Nat.le_antisymm hn hcn
  exact hmeets ▸ hI

theorem sumTotalQueryTime_returns {total : D} (hlen : hd.countOfMetrics.toNat = acc.length)
    (h : (sumTotalQueryTime be).ReturnsBy (SlotAnswers srv be p hd acc measured) total) :
    TotalOf measured acc total := by
  have := forNodes_returns (I := fun j total => TotalOf measured (acc.take j) total)
    (fun j a b hj ha hb => ?_) U32_RANGE 0 _ total (Nat.zero_le _) ?_ ⟨[], .nil, rfl⟩ h
  · rwa [hlen, List.take_length] at this
  · obtain ⟨times, htimes, rfl⟩ := ha
    obtain ⟨time, htime, rfl⟩ := hb
    obtain ⟨x, hx⟩ : ∃ x, acc[j]? = some x := ⟨_, List.getElem?_eq_getElem (hlen ▸ hj)⟩
    refine ⟨times ++ [time], ?_, by simp⟩
    rw [List.take_add_one, hx]
    exact List.rel_append htimes (.cons (htime rfl _ hx) .nil)
  · have := hd.countOfMetrics.toNat_lt
    simpa [U32_RANGE] using this

/-- The shares of a node in the time of its query. -/
theorem nodeTimeShares_returns {j : Nat} {x : PlanStatePtr × Int} {total : D} {shares : D × D}
    (hx : acc[j]? = some x) (htotal : TotalOf measured acc total)
    (h : (nodeTimeShares be j total).ReturnsBy (SlotAnswers srv be p hd acc measured) shares) :
    MetricOf measured acc x .timeSeconds (.double shares.1) ∧
      MetricOf measured acc x .timePercent (.double shares.2) := by
  unfold nodeTimeShares at h
  obtain ⟨time, htime, h⟩ := h
  have htime : MeasuredOf measured x.1 .totalTimeUs time := htime rfl x hx
  by_cases hgt : CDouble.gt total (CDouble.ofNat 0) = true
  · simp only [perform_bind, act, hgt, if_true] at h
    obtain ⟨time', htime', rfl⟩ := h
    exact ⟨⟨time, htime, rfl⟩, .inr ⟨time', total, htime' rfl x hx, htotal, rfl⟩⟩
  · simp only [perform_bind, act, hgt] at h
    cases h
    exact ⟨⟨time, htime, rfl⟩, .inl rfl⟩

theorem readMetricValue_returns {j : Nat} {x : PlanStatePtr × Int} {shares : D × D}
    {type : MetricType} {value : MetricValue D} (hx : acc[j]? = some x)
    (hshares : MetricOf measured acc x .timeSeconds (.double shares.1) ∧
      MetricOf measured acc x .timePercent (.double shares.2))
    (h : (readMetricValue be j shares type).ReturnsBy (SlotAnswers srv be p hd acc measured)
      value) : MetricOf measured acc x type value := by
  cases type
  case timeSeconds => cases h; exact hshares.1
  case timePercent => cases h; exact hshares.2
  all_goals
    obtain ⟨v, hv, rfl⟩ := h
    exact hv rfl x hx

theorem formatterAppendMetrics_returns {ver : PgVersion} {j : Nat} {x : PlanStatePtr × Int}
    {queryId : UInt64} {shares : D × D} (hx : acc[j]? = some x)
    (hshares : MetricOf measured acc x .timeSeconds (.double shares.1) ∧
      MetricOf measured acc x .timePercent (.double shares.2)) :
    ∀ (types : List MetricType) (a b : FormatterBuffer × List (NodeSample D)),
      (formatterAppendMetrics ver be j queryId shares types a).ReturnsBy
        (SlotAnswers srv be p hd acc measured) b →
      (∀ y ∈ a.2, SampleOf srv measured acc queryId y) →
      ∀ y ∈ b.2, SampleOf srv measured acc queryId y
  | [], a, b, h, ha => by
    obtain rfl : a = b := h
    exact ha
  | type :: types, a, b, h, ha => by
    obtain ⟨a', h, hrest⟩ := returnsBy_bind.mp h
    obtain ⟨value, hvalue, tag, htag, nodeId, hnodeId, parent, hparent, rfl⟩ :=
      returnsBy_bind.mp h
    refine formatterAppendMetrics_returns hx hshares types _ b hrest fun y hy => ?_
    rcases List.mem_append.mp hy with hy | hy
    · exact ha y hy
    · obtain rfl := List.mem_singleton.mp hy
      exact ⟨rfl, x, ⟨j, hx, htag rfl x hx, hnodeId rfl x hx, hparent rfl x hx⟩,
        readMetricValue_returns hx hshares hvalue⟩

/-- The lines of one slot. -/
theorem readEntry_returns {ver : PgVersion} {buf : FormatterBuffer}
    {b : FormatterBuffer × EntryReading D} (hlen : hd.countOfMetrics.toNat = acc.length)
    (h : (readEntry ver be buf).ReturnsBy (SlotAnswers srv be p hd acc measured) b) :
    b.2.backendPid = p ∧ b.2.queryId = hd.queryId ∧
      b.2.queryText =
        ((List.range srv.gucs.maxQueryTextLen).map hd.queryText).takeWhile (· ≠ 0) ∧
      ∀ y ∈ b.2.samples, SampleOf srv measured acc hd.queryId y := by
  unfold readEntry at h
  obtain ⟨info, hinfo, h⟩ := returnsBy_bind.mp h
  obtain ⟨queryId₁, hqueryId₁, pid, hpid, queryText, hqueryText, rfl⟩ := hinfo
  obtain ⟨queryId, ⟨_, hqueryId, rfl⟩, h⟩ := returnsBy_bind.mp h
  obtain ⟨total, htotal, h⟩ := returnsBy_bind.mp h
  obtain ⟨samples, hsamples, rfl⟩ := returnsBy_bind.mp h
  obtain rfl := hqueryId rfl
  refine ⟨hpid rfl, hqueryId₁ rfl, hqueryText rfl, ?_⟩
  have htotal := sumTotalQueryTime_returns hlen htotal
  refine forNodes_returns (I := fun _ a => ∀ y ∈ a.2, SampleOf srv measured acc hd.queryId y)
    (fun j a b hj ha hb => ?_) U32_RANGE 0 _ samples (Nat.zero_le _) ?_
    (fun _ hy => absurd hy List.not_mem_nil) hsamples
  · rw [pwhValidateNodeMagic_bind, act_bind] at hb
    obtain ⟨magic, -, hb⟩ := hb
    obtain ⟨x, hx⟩ : ∃ x, acc[j]? = some x := ⟨_, List.getElem?_eq_getElem (hlen ▸ hj)⟩
    by_cases hm : magic = PWH_NODE_MAGIC
    · simp only [hm, decide_true, if_true] at hb
      obtain ⟨shares, hshares, hb⟩ := returnsBy_bind.mp hb
      exact formatterAppendMetrics_returns hx (nodeTimeShares_returns hx htotal hshares) _ a b hb ha
    · simp only [hm, decide_false] at hb
      obtain rfl : a = b := hb
      exact ha
  · have := hd.countOfMetrics.toNat_lt
    simpa [U32_RANGE] using this

/-- The row of one node. -/
theorem pwhFillV1StatusTuple_returns {j : Nat} {x : PlanStatePtr × Int} {total : D}
    {row : StatusRow D} (hx : acc[j]? = some x) (htotal : TotalOf measured acc total)
    (h : (pwhFillV1StatusTuple be j total).ReturnsBy (SlotAnswers srv be p hd acc measured) row) :
    row.backendPid = p ∧ row.queryId = hd.queryId ∧
      row.queryText =
        ((List.range srv.gucs.maxQueryTextLen).map hd.queryText).takeWhile (· ≠ 0) ∧
      IsNode srv acc x row.nodeTag row.nodeId row.parentNodeId ∧
      ∀ type, MetricOf measured acc x type (row.metric type) := by
  unfold pwhFillV1StatusTuple at h
  obtain ⟨shares, hshares, h⟩ := returnsBy_bind.mp h
  have hshares := nodeTimeShares_returns hx htotal hshares
  obtain ⟨pid, hpid, queryId, hqueryId, queryText, hqueryText, nodeId, hnodeId, parent, hparent,
    tag, htag, startup, hstartup, time, htime, loops, hloops, tuples, htuples, hits, hhits, misses,
    hmisses, lhits, hlhits, lmisses, hlmisses, reads, hreads, writes, hwrites, joins, hjoins, exprs,
    hexprs, rfl⟩ := h
  refine ⟨hpid rfl, hqueryId rfl, hqueryText rfl,
    ⟨j, hx, htag rfl x hx, hnodeId rfl x hx, hparent rfl x hx⟩, fun type => ?_⟩
  cases type
  case timeSeconds => exact hshares.1
  case timePercent => exact hshares.2
  case tuplesReturned => exact htuples rfl x hx
  case startupTimeUs => exact hstartup rfl x hx
  case totalTimeUs => exact htime rfl x hx
  case loopsExecuted => exact hloops rfl x hx
  case cacheHits => exact hhits rfl x hx
  case cacheMisses => exact hmisses rfl x hx
  case localCacheHits => exact hlhits rfl x hx
  case localCacheMisses => exact hlmisses rfl x hx
  case spillFileReads => exact hreads rfl x hx
  case spillFileWrites => exact hwrites rfl x hx
  case rowsFilteredByJoins => exact hjoins rfl x hx
  case rowsFilteredByExpressions => exact hexprs rfl x hx

end Reading

end WhatIsHappening
