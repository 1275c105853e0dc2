/-
# The output buffer is large enough

`buffer_append` asks for 1024 bytes, doubles the buffer once at most, and trusts that what it
formats fits.  A use of the buffer is a `BufferCall`.  `Holding text` says what the buffer holds
between two calls and that its size is a power of two; as long as the text stays short of `2 ^ 29`
bytes by the 1024 that are asked for, no call takes the size beyond.

The formatter is split into what it reads (`readSlots`) and the calls it makes with that
(`pageCalls`); `pwhFormatOpenmetrics_eq` is that the two together are `pwh_format_openmetrics`.
What it can read from a table within the settings bounds the text.
-/
import WhatIsHappening.Exposition.Agreement
import WhatIsHappening.Exposition.Decoding

namespace WhatIsHappening

open Interleaving Prog FormatterBuffer LabelledText

/-! ## 1. Uses of the buffer -/

/-- A `buffer_append` of a formatted text, or a byte that `buffer_append_escaped` stores. -/
inductive BufferCall where
  | append (s : List UInt8)
  | store (b : UInt8)
  deriving DecidableEq

namespace BufferCall

/-- Its effect. -/
def run (buf : FormatterBuffer) : BufferCall → FormatterBuffer
  | .append s => buf.append s
  | .store b => buf.store b

/-- What it appends. -/
def piece : BufferCall → List UInt8
  | .append s => s
  | .store b => [b]

/-- The capacity it asks for. -/
def needed : BufferCall → Nat
  | .append _ => 1024
  | .store _ => 1

/-- The buffer it writes to. -/
def prepared (buf : FormatterBuffer) (call : BufferCall) : FormatterBuffer :=
  buf.ensureCapacity call.needed

end BufferCall

/-- Calls, one after the other. -/
def runCalls (calls : List BufferCall) (buf : FormatterBuffer) : FormatterBuffer :=
  calls.foldl BufferCall.run buf

/-- All that they append. -/
def pieces (calls : List BufferCall) : List UInt8 := calls.flatMap BufferCall.piece

@[simp] theorem runCalls_nil (buf : FormatterBuffer) : runCalls [] buf = buf := rfl

@[simp] theorem runCalls_append (calls calls' : List BufferCall) (buf : FormatterBuffer) :
    runCalls (calls ++ calls') buf = runCalls calls' (runCalls calls buf) := List.foldl_append

@[simp] theorem pieces_append (calls calls' : List BufferCall) :
    pieces (calls ++ calls') = pieces calls ++ pieces calls' := List.flatMap_append

@[simp] theorem pieces_nil : pieces [] = [] := rfl

@[simp] theorem pieces_cons (call : BufferCall) (calls : List BufferCall) :
    pieces (call :: calls) = call.piece ++ pieces calls := rfl

/-- `2 ^ 29`: half of what `repalloc` grants. -/
def BUFFER_LIMIT : Nat := 536870912

namespace FormatterBuffer

/-- The buffer holds the text, in memory that was doubled some times and is within the limit. -/
structure Holding (buf : FormatterBuffer) (text : List UInt8) : Prop extends buf.Holds text where
  doubled : ∃ k ≤ 13, buf.size = METRIC_BUFFER_SIZE * 2 ^ k

variable {buf : FormatterBuffer} {text : List UInt8} {call : BufferCall}

theorem holding_init (palloced : Nat → UInt8) : (init palloced).Holding [] where
  toHolds := holds_init palloced
  doubled := ⟨0, by decide, rfl⟩

theorem Holding.size_le (h : buf.Holding text) : buf.size ≤ BUFFER_LIMIT := by
  obtain ⟨k, hk, hsize⟩ := h.doubled
  rw [hsize]
  calc METRIC_BUFFER_SIZE * 2 ^ k ≤ METRIC_BUFFER_SIZE * 2 ^ 13 :=
        Nat.mul_le_mul_left _ (Nat.pow_le_pow_right (by decide) hk)
    _ = BUFFER_LIMIT := by decide

/-- One doubling is enough, and stays within the limit. -/
theorem Holding.ensureCapacity (h : buf.Holding text) {needed : Nat} (hn : needed ≤ 1024)
    (htext : text.length + 1024 < BUFFER_LIMIT) :
    (buf.ensureCapacity needed).Holding text ∧
      (buf.ensureCapacity needed).offset + needed < (buf.ensureCapacity needed).size := by
  obtain ⟨hcap, hroom⟩ := h.toHolds.ensureCapacity hn
  refine ⟨⟨hcap, ?_⟩, hroom⟩
  obtain ⟨k, hk, hsize⟩ := h.doubled
  unfold FormatterBuffer.ensureCapacity
  split
  · rename_i hfull
    have hoff : buf.offset = text.length := h.offset
    have hlt : METRIC_BUFFER_SIZE * 2 ^ k < METRIC_BUFFER_SIZE * 2 ^ 13 := by
      have hlimit : METRIC_BUFFER_SIZE * 2 ^ 13 = BUFFER_LIMIT := by decide
      omega
    have hk' : k < 13 := (Nat.pow_lt_pow_iff_right (by decide)).mp (Nat.lt_of_mul_lt_mul_left hlt)
    refine ⟨k + 1, hk', ?_⟩
    show buf.size * 2 = METRIC_BUFFER_SIZE * 2 ^ (k + 1)
    rw [hsize, Nat.pow_succ, Nat.mul_assoc]
  · exact ⟨k, hk, hsize⟩

end FormatterBuffer

/-- A call appends no more than it asks for. -/
def BufferCall.Short (call : BufferCall) : Prop := call.piece.length ≤ call.needed

instance (call : BufferCall) : Decidable call.Short := inferInstanceAs (Decidable (_ ≤ _))

/-- What a call does where the buffer holds `text`: what it stores fits into the space behind the
offset of the buffer it prepared, its NUL included, and the offset goes behind it. -/
structure BufferCall.Fits (call : BufferCall) (buf : FormatterBuffer) : Prop where
  inside : buf.offset < buf.size
  room : call.piece.length < (call.prepared buf).size - (call.prepared buf).offset
  advances : (call.run buf).offset = buf.offset + call.piece.length
  size_le : (call.prepared buf).size ≤ BUFFER_LIMIT

section Calls

variable {buf : FormatterBuffer} {text : List UInt8} {call : BufferCall}

theorem BufferCall.needed_le (call : BufferCall) : call.needed ≤ 1024 := by
  cases call
  · exact le_rfl
  · exact (by decide : 1 ≤ 1024)

theorem BufferCall.run_size (call : BufferCall) (buf : FormatterBuffer) :
    (call.run buf).size = (call.prepared buf).size := by
  cases call <;> rfl

/-- One call. -/
theorem run_holding (h : buf.Holding text) (hshort : call.Short)
    (htext : text.length + 1024 < BUFFER_LIMIT) :
    (call.run buf).Holding (text ++ call.piece) ∧ call.Fits buf := by
  obtain ⟨hcap, hroom⟩ := h.ensureCapacity call.needed_le htext
  have hholds : (call.run buf).Holds (text ++ call.piece) := by
    cases call with
    | append s => exact (h.toHolds.append hshort).toHolds
    | store b => exact h.toHolds.store b
  have hlen : call.piece.length ≤ call.needed := hshort
  constructor
  · refine ⟨hholds, ?_⟩
    rw [call.run_size]
    exact hcap.doubled
  · constructor
    · exact h.room
    · change _ < (buf.ensureCapacity call.needed).size - (buf.ensureCapacity call.needed).offset
      omega
    · rw [hholds.offset, h.offset, List.length_append]
    · exact hcap.size_le

/-- ...and so for all of them, if they append little enough. -/
theorem runCalls_holding (calls : List BufferCall) (h : buf.Holding text)
    (hshort : ∀ call ∈ calls, call.Short)
    (htext : text.length + (pieces calls).length + 1024 < BUFFER_LIMIT) :
    (runCalls calls buf).Holding (text ++ pieces calls) := by
  induction calls generalizing buf text with
  | nil => simpa using h
  | cons call calls ih =>
    rw [pieces_cons, List.length_append] at htext
    have hone := (run_holding h (hshort call List.mem_cons_self) (by omega)).1
    have hrest := ih hone (fun c hc => hshort c (List.mem_cons_of_mem _ hc))
      (by rw [List.length_append]; omega)
    rw [List.append_assoc] at hrest
    exact hrest

end Calls

variable {D : Type} [CDouble D]

/-! ## 2. The calls of a page -/

/-- What `buffer_append_escaped` does for one byte. -/
def escapedCall (b : UInt8) : BufferCall :=
  if b = 34 then .append (str "\\\"")
  else if b = 92 then .append (str "\\\\")
  else if b = 10 then .append (str "\\n")
  else .store b

/-- What `formatter_append_metric` appends. -/
def sampleCall (ver : PgVersion) (x : NodeSample D) : BufferCall := .append (sampleLine ver x)

/-- The calls for one entry. -/
def entryCalls (ver : PgVersion) (r : EntryReading D) : List BufferCall :=
  .append (queryInfoPrefix r.queryId r.backendPid) :: r.queryText.map escapedCall ++
    .append queryInfoSuffix :: r.samples.map (sampleCall ver)

/-- The calls for the header lines. -/
def headerCalls : List BufferCall :=
  .append queryInfoHeader :: metricTypes.map fun type => .append (metricHeader type)

/-- The calls for a page. -/
def pageCalls (ver : PgVersion) (rs : List (EntryReading D)) : List BufferCall :=
  headerCalls ++ rs.flatMap (entryCalls ver)

omit [CDouble D] in
theorem escapedCall_run (buf : FormatterBuffer) (b : UInt8) :
    (escapedCall b).run buf = buf.appendEscapedByte b := by
  unfold escapedCall FormatterBuffer.appendEscapedByte
  split_ifs <;> rfl

omit [CDouble D] in
theorem appendEscaped_eq (buf : FormatterBuffer) (text : List UInt8) :
    buf.appendEscaped text = runCalls (text.map escapedCall) buf := by
  rw [appendEscaped, runCalls, List.foldl_map]
  exact congrArg (fun f => text.foldl f buf) (funext fun buf => funext fun b =>
    (escapedCall_run buf b).symm)

omit [CDouble D] in
theorem formatHeader_eq (buf : FormatterBuffer) : formatHeader buf = runCalls headerCalls buf := by
  rw [formatHeader, runCalls, headerCalls, List.foldl_cons, List.foldl_map]
  rfl

/-! ## 3. What is read -/

/-- `formatter_append_metric` without the buffer. -/
def readSample (be j : Nat) (queryId : UInt64) (shares : D × D) (type : MetricType) :
    PgProg D (NodeSample D) := do
  let value ← readMetricValue be j shares type
  let tag ← act (.readNode be j .tag)
  let nodeId ← act (.readNode be j .nodeId)
  let parentNodeId ← act (.readNode be j .parentNodeId)
  return ⟨type, queryId, nodeId, parentNodeId, tag, value⟩

/-- ...for each of a list of metrics, behind the samples that were read before. -/
def readSamples (be j : Nat) (queryId : UInt64) (shares : D × D) :
    List MetricType → List (NodeSample D) → PgProg D (List (NodeSample D))
  | [], samples => return samples
  | type :: types, samples => do
    let sample ← readSample be j queryId shares type
    readSamples be j queryId shares types (samples ++ [sample])

/-- One iteration of the loop over the nodes without the buffer. -/
def readNodeSamples (be : Nat) (queryId : UInt64) (totalQueryTime : D) (j : Nat)
    (samples : List (NodeSample D)) : PgProg D (List (NodeSample D)) := do
  if ← pwhValidateNodeMagic be j then
    let shares ← nodeTimeShares be j totalQueryTime
    readSamples be j queryId shares metricTypes samples
  else return samples

/-- `formatEntry` without the buffer. -/
def readSlot (be : Nat) : PgProg D (EntryReading D) := do
  let infoId ← act (.readQueryId be)
  let pid ← act (.readBackendPid be)
  let queryText ← act (.readQueryText be)
  let queryId ← act (.readQueryId be)
  let totalQueryTime ← sumTotalQueryTime be
  let samples ← forNodes be (readNodeSamples be queryId totalQueryTime) U32_RANGE 0 []
  act (.emit (.entry ⟨infoId, pid, queryText, samples⟩))
  return ⟨infoId, pid, queryText, samples⟩

/-- `formatEntries` without the buffer. -/
def readSlots (srv : Server D) :
    (k i : Nat) → List (EntryReading D) → PgProg D (List (EntryReading D))
  | 0, _, rs => return rs
  | k + 1, i, rs => do
    let _ ← pwhGetBackendEntry srv i
    act (.mark (.visitEntry i))
    if ← pwhIsBackendEntryActive i then
      let r ← readSlot i
      readSlots srv k (i + 1) (rs ++ [r])
    else
      act (.mark .leaveEntry)
      readSlots srv k (i + 1) rs

/-- The calls that `pwh_format_openmetrics` makes. -/
def formatterCalls (srv : Server D) : PgProg D (List BufferCall) := do
  let rs ← readSlots srv srv.gucs.maxTrackedQueries 0 []
  return pageCalls srv.version rs

section Split

variable {ver : PgVersion} {srv : Server D} {be j : Nat} {queryId : UInt64} {shares : D × D}

/-- The accumulator of the formatter when it has printed these samples. -/
def printed (ver : PgVersion) (buf : FormatterBuffer) (samples : List (NodeSample D)) :
    FormatterBuffer × List (NodeSample D) := (runCalls (samples.map (sampleCall ver)) buf, samples)

theorem printed_append (buf : FormatterBuffer) (samples : List (NodeSample D)) (x : NodeSample D) :
    printed ver buf (samples ++ [x]) =
      ((printed ver buf samples).1.append (sampleLine ver x), samples ++ [x]) := by
  rw [printed, List.map_append, runCalls_append]
  rfl

theorem formatterAppendMetrics_eq (buf : FormatterBuffer) :
    ∀ types samples,
      formatterAppendMetrics ver be j queryId shares types (printed ver buf samples) =
      readSamples be j queryId shares types samples >>= fun xs => .ret (printed ver buf xs)
  | [], _ => rfl
  | type :: types, samples => by
    have hrest := fun x => formatterAppendMetrics_eq buf types (samples ++ [x])
    simp only [formatterAppendMetrics, formatterAppendMetric, readSamples, readSample,
      Prog.bind_assoc, pure_eq, ret_bind, ← hrest, printed_append]
    rfl

omit [CDouble D] in
variable (be) in
/-- A loop whose body keeps the form of its accumulator. -/
theorem forNodes_map {α β : Type} {g : α → β} {body : Nat → β → PgProg D β}
    {body' : Nat → α → PgProg D α}
    (h : ∀ j a, body j (g a) = body' j a >>= fun b => .ret (g b)) :
    ∀ fuel j a, forNodes be body fuel j (g a) =
      forNodes be body' fuel j a >>= fun b => .ret (g b)
  | 0, _, _ => rfl
  | fuel + 1, j, a => by
    rw [forNodes, forNodes, act_bind, act_bind, op_bind]
    refine congrArg (Prog.op _) (funext fun count => ?_)
    split
    · rw [h, Prog.bind_assoc, Prog.bind_assoc]
      exact congrArg (body' j a >>= ·) (funext fun b => forNodes_map h fuel (j + 1) b)
    · rfl

variable (ver be queryId) in
theorem formatNode_eq (total : D) (buf : FormatterBuffer) (j : Nat)
    (samples : List (NodeSample D)) :
    formatNode ver be queryId total j (printed ver buf samples) =
      readNodeSamples be queryId total j samples >>= fun xs => .ret (printed ver buf xs) := by
  rw [formatNode, readNodeSamples, pwhValidateNodeMagic_bind, pwhValidateNodeMagic_bind, act_bind,
    act_bind, op_bind]
  refine congrArg (Prog.op _) (funext fun magic => ?_)
  split
  · rw [formatterAppendAllNodeMetrics, Prog.bind_assoc]
    exact congrArg (nodeTimeShares be j total >>= ·)
      (funext fun shares => formatterAppendMetrics_eq buf metricTypes samples)
  · rfl

/-- The buffer after an entry. -/
theorem runCalls_entryCalls (buf : FormatterBuffer) (r : EntryReading D) :
    runCalls (entryCalls ver r) buf = (printed ver (((buf.append
      (queryInfoPrefix r.queryId r.backendPid)).appendEscaped r.queryText).append
        queryInfoSuffix) r.samples).1 := by
  rw [entryCalls, runCalls_append, appendEscaped_eq]
  rfl

/-- One entry. -/
theorem formatEntry_calls (buf : FormatterBuffer) : formatEntry ver be buf =
    (readSlot be : PgProg D _) >>= fun r => .ret (runCalls (entryCalls ver r) buf) := by
  unfold formatEntry formatterAppendQueryInfo readSlot
  simp only [Prog.bind_assoc, pure_eq, ret_bind, runCalls_entryCalls]
  refine congrArg (Prog.op _) (funext fun infoId => congrArg (Prog.op _) (funext fun pid =>
    congrArg (Prog.op _) (funext fun queryText => congrArg (Prog.op _) (funext fun queryId => ?_))))
  refine congrArg (sumTotalQueryTime be >>= ·) (funext fun total => ?_)
  generalize ((buf.append (queryInfoPrefix infoId pid)).appendEscaped queryText).append
    queryInfoSuffix = before
  have hloop := forNodes_map be (formatNode_eq ver be queryId total before) U32_RANGE 0 []
  change forNodes be (formatNode ver be queryId total) U32_RANGE 0 (printed ver before []) >>= _ = _
  rw [hloop, Prog.bind_assoc]
  rfl

variable (srv) in
/-- The loop over the slots. -/
theorem formatEntries_calls (buf : FormatterBuffer) : ∀ k i rs,
    formatEntries srv k i (runCalls (rs.flatMap (entryCalls srv.version)) buf) =
      readSlots srv k i rs >>= fun rs => .ret (runCalls (rs.flatMap (entryCalls srv.version)) buf)
  | 0, _, _ => rfl
  | k + 1, i, rs => by
    rw [formatEntries, readSlots, Prog.bind_assoc]
    refine congrArg (pwhGetBackendEntry srv i >>= ·) (funext fun _ => ?_)
    simp only [pwhIsBackendEntryActive_bind]
    refine congrArg (Prog.op _) (funext fun _ => congrArg (Prog.op _) (funext fun pid => ?_))
    show (if decide (pid ≠ 0) = true then _ else _) =
      (if decide (pid ≠ 0) = true then _ else _) >>= _
    split
    · have hrest := fun r => formatEntries_calls buf k (i + 1) (rs ++ [r])
      simp only [List.flatMap_append, List.flatMap_singleton, runCalls_append] at hrest
      simp only [formatEntry_calls, Prog.bind_assoc, ret_bind, hrest]
    · exact congrArg (Prog.op _) (funext fun _ => formatEntries_calls buf k (i + 1) rs)

/-- **`pwh_format_openmetrics` is its calls.** -/
theorem pwhFormatOpenmetrics_eq (palloced : Nat → UInt8) : pwhFormatOpenmetrics srv palloced =
    formatterCalls srv >>= fun calls => .ret (runCalls calls (init palloced)).cString := by
  have hloop := formatEntries_calls srv (formatHeader (init palloced))
    srv.gucs.maxTrackedQueries 0 []
  rw [List.flatMap_nil, runCalls_nil] at hloop
  rw [pwhFormatOpenmetrics, formatterCalls, hloop, Prog.bind_assoc, Prog.bind_assoc]
  simp only [ret_bind, pure_eq, pageCalls, runCalls_append, formatHeader_eq]

end Split

/-! ## 4. What a table answers -/

/-- What was read of an entry keeps to the settings. -/
structure EntryReading.Within (g : Gucs) (r : EntryReading D) : Prop where
  text : r.queryText.length ≤ g.maxQueryTextLen
  nul_free : 0 ∉ r.queryText
  samples : r.samples.length ≤ g.maxNodesPerQuery * metricTypes.length

section Answers

variable {srv : Server D} {be : Nat}

omit [CDouble D]

/-- The counts of the table keep to the setting. -/
def CountsWithin (srv : Server D) (s : State D) : Prop :=
  ∀ i, (s.entries i).countOfMetrics.toNat ≤ srv.gucs.maxNodesPerQuery

/-- An answer that some table within the settings gives.  While the page is formatted the table may
change, so every operation may find another one. -/
def TableAnswers (srv : Server D) (o : Op D) (r : Res o) : Prop :=
  ∃ p e s t, CountsWithin srv s ∧ exec srv p o e s = some (r, t)

theorem TableAnswers.count {n : UInt32} (h : TableAnswers srv (.readCountOfMetrics be) n) :
    n.toNat ≤ srv.gucs.maxNodesPerQuery := by
  obtain ⟨p, e, s, t, hs, hexec⟩ := h
  cases hexec
  exact hs be

theorem TableAnswers.text {text : List UInt8} (h : TableAnswers srv (.readQueryText be) text) :
    text.length ≤ srv.gucs.maxQueryTextLen ∧ 0 ∉ text := by
  obtain ⟨p, e, s, t, -, hexec⟩ := h
  cases hexec
  refine ⟨?_, text_nul _ _⟩
  have hlen := (List.takeWhile_sublist (· ≠ 0)
    (l := (List.range srv.gucs.maxQueryTextLen).map (s.entries be).queryText)).length_le
  rwa [List.length_map, List.length_range] at hlen

end Answers

section Readings

variable {srv : Server D} {be j : Nat} {queryId : UInt64} {shares : D × D} {total : D}
  {ans : (o : Op D) → Res o → Prop} {samples xs : List (NodeSample D)}

omit [CDouble D] in
theorem readSamples_length (types : List MetricType)
    (h : (readSamples be j queryId shares types samples).ReturnsBy ans xs) :
    xs.length = samples.length + types.length := by
  induction types generalizing samples with
  | nil =>
    obtain rfl : samples = xs := h
    rfl
  | cons type types ih =>
    obtain ⟨x, -, h⟩ := returnsBy_bind.mp h
    rw [ih h, List.length_append, List.length_singleton, List.length_cons]
    omega

theorem readNodeSamples_length
    (h : (readNodeSamples be queryId total j samples).ReturnsBy ans xs) :
    xs.length ≤ samples.length + metricTypes.length := by
  rw [readNodeSamples, pwhValidateNodeMagic_bind, act_bind] at h
  obtain ⟨magic, -, h⟩ := h
  dsimp only at h
  split at h
  · obtain ⟨shares, -, h⟩ := returnsBy_bind.mp h
    exact (readSamples_length metricTypes h).le
  · obtain rfl : samples = xs := h
    exact Nat.le_add_right _ _

theorem readSlot_within {r : EntryReading D} (h : (readSlot be).ReturnsBy (TableAnswers srv) r) :
    r.Within srv.gucs := by
  obtain ⟨infoId, -, pid, -, queryText, htext, queryId, -, h⟩ := h
  change ReturnsBy _ (sumTotalQueryTime be >>= _) _ at h
  obtain ⟨total, -, h⟩ := returnsBy_bind.mp h
  obtain ⟨samples, hsamples, h⟩ := returnsBy_bind.mp h
  obtain ⟨_, -, h⟩ := h
  obtain rfl : (⟨infoId, pid, queryText, samples⟩ : EntryReading D) = r := h
  -- the loop makes at most as many turns as the setting allows
  obtain ⟨n, hn, hlen, -⟩ := forNodes_turns (N := srv.gucs.maxNodesPerQuery)
    (I := fun n (xs : List (NodeSample D)) => xs.length ≤ n * metricTypes.length)
    (fun _ => TableAnswers.count)
    (fun j xs ys _ hxs hys => by
      have := readNodeSamples_length hys
      rw [Nat.succ_mul]
      omega) U32_RANGE 0 [] samples (Nat.zero_le _) (Nat.zero_le _) hsamples
  exact ⟨htext.text.1, htext.text.2, hlen.trans (Nat.mul_le_mul_right _ hn)⟩

theorem readSlots_within : ∀ k i (rs rs' : List (EntryReading D)),
    (readSlots srv k i rs).ReturnsBy (TableAnswers srv) rs' → (∀ r ∈ rs, r.Within srv.gucs) →
    (∀ r ∈ rs', r.Within srv.gucs) ∧ rs'.length ≤ rs.length + k
  | 0, _, rs, rs', h, hrs => by
    obtain rfl : rs = rs' := h
    exact ⟨hrs, le_rfl⟩
  | k + 1, i, rs, rs', h, hrs => by
    rw [readSlots] at h
    obtain ⟨_, -, h⟩ := returnsBy_bind.mp h
    rw [pwhIsBackendEntryActive_bind] at h
    obtain ⟨_, -, pid, -, h⟩ := h
    change ReturnsBy _ (if decide (pid ≠ 0) = true then _ else _) _ at h
    by_cases hpid : pid = 0
    · simp only [hpid, ne_eq, not_true_eq_false, decide_false, Bool.false_eq_true, if_false] at h
      obtain ⟨_, -, h⟩ := h
      obtain ⟨hall, hlen⟩ := readSlots_within k (i + 1) rs rs' h hrs
      exact ⟨hall, by omega⟩
    · simp only [hpid, ne_eq, not_false_eq_true, decide_true, if_true] at h
      obtain ⟨r, hr, h⟩ := returnsBy_bind.mp h
      obtain ⟨hall, hlen⟩ := readSlots_within k (i + 1) (rs ++ [r]) rs' h fun x hx => by
        rcases List.mem_append.mp hx with hx | hx
        · exact hrs x hx
        · rw [List.mem_singleton.mp hx]
          exact readSlot_within hr
      rw [List.length_append, List.length_singleton] at hlen
      exact ⟨hall, by omega⟩

end Readings

/-! ## 5. The page -/

/-- The bytes that an entry takes at most. -/
def ENTRY_LIMIT : Nat := 1852421

section Page

variable {ver : PgVersion} {g : Gucs} {r : EntryReading D} {rs : List (EntryReading D)}

omit [CDouble D] in
/-- A byte becomes two at most. -/
theorem escapedCall_cases (b : UInt8) :
    (escapedCall b).Short ∧ (escapedCall b).piece.length ≤ 2 := by
  unfold escapedCall
  split_ifs
  · decide
  · decide
  · decide
  · exact ⟨le_rfl, (by decide : 1 ≤ 2)⟩

theorem sampleCall_short (x : NodeSample D) : (sampleCall ver x).Short :=
  (length_sampleLine ver x).trans (by decide : 512 ≤ 1024)

omit [CDouble D] in
theorem headerCalls_short : ∀ call ∈ headerCalls, call.Short := by
  intro call hcall
  rcases List.mem_cons.mp hcall with rfl | hcall
  · exact length_queryInfoHeader
  · obtain ⟨type, -, rfl⟩ := List.mem_map.mp hcall
    exact length_metricHeader type

theorem entryCalls_short : ∀ call ∈ entryCalls ver r, call.Short := by
  intro call hcall
  rw [entryCalls, List.mem_append, List.mem_cons, List.mem_cons] at hcall
  rcases hcall with (rfl | hcall) | rfl | hcall
  · exact length_queryInfoPrefix _ _
  · obtain ⟨b, -, rfl⟩ := List.mem_map.mp hcall
    exact (escapedCall_cases b).1
  · exact (by decide : queryInfoSuffix.length ≤ 1024)
  · obtain ⟨x, -, rfl⟩ := List.mem_map.mp hcall
    exact sampleCall_short x

/-- Every call of a page is short. -/
theorem pageCalls_short : ∀ call ∈ pageCalls ver rs, call.Short := by
  intro call hcall
  rcases List.mem_append.mp hcall with hcall | hcall
  · exact headerCalls_short call hcall
  · obtain ⟨r, -, hcall⟩ := List.mem_flatMap.mp hcall
    exact entryCalls_short call hcall

omit [CDouble D] in
/-- Calls that append at most `n` bytes each. -/
theorem length_pieces_le (n : Nat) (calls : List BufferCall)
    (h : ∀ call ∈ calls, call.piece.length ≤ n) : (pieces calls).length ≤ calls.length * n := by
  induction calls with
  | nil => exact Nat.zero_le _
  | cons call calls ih =>
    have hone := h call List.mem_cons_self
    have hrest := ih fun c hc => h c (List.mem_cons_of_mem _ hc)
    rw [pieces_cons, List.length_append, List.length_cons, Nat.succ_mul]
    omega

omit [CDouble D] in
theorem length_headerPieces : (pieces headerCalls).length ≤ 15 * 1024 := by
  have hlen : headerCalls.length = 15 := rfl
  rw [← hlen]
  exact length_pieces_le _ _ fun call hcall =>
    (headerCalls_short call hcall).trans call.needed_le

/-- **What an entry appends is bounded by the settings.** -/
theorem length_entryPieces (ver : PgVersion) (h : r.Within g) :
    (pieces (entryCalls ver r)).length ≤ ENTRY_LIMIT := by
  have hprefix := length_queryInfoPrefix r.queryId r.backendPid
  have htext : (pieces (r.queryText.map escapedCall)).length ≤ r.queryText.length * 2 := by
    have hone := length_pieces_le 2 (r.queryText.map escapedCall) fun call hcall => by
      obtain ⟨b, -, rfl⟩ := List.mem_map.mp hcall
      exact (escapedCall_cases b).2
    rwa [List.length_map] at hone
  have hsamples : (pieces (r.samples.map (sampleCall ver))).length ≤ r.samples.length * 512 := by
    have hone := length_pieces_le 512 (r.samples.map (sampleCall ver)) fun call hcall => by
      obtain ⟨x, -, rfl⟩ := List.mem_map.mp hcall
      exact length_sampleLine ver x
    rwa [List.length_map] at hone
  have hlen : (pieces (entryCalls ver r)).length = (queryInfoPrefix r.queryId r.backendPid).length +
      (pieces (r.queryText.map escapedCall)).length + (queryInfoSuffix.length +
        (pieces (r.samples.map (sampleCall ver))).length) := by
    simp only [entryCalls, pieces_append, pieces_cons, List.length_append]
    rfl
  have hsuffix : queryInfoSuffix.length = 5 := by decide
  have htextMax := h.text.trans g.maxQueryTextLen_range.2
  have hsamplesMax : r.samples.length ≤ 256 * 14 :=
    h.samples.trans (Nat.mul_le_mul g.maxNodesPerQuery_le (by decide))
  rw [hlen, ENTRY_LIMIT]
  omega

/-- **A page leaves the 1024 bytes that a call asks for.** -/
theorem length_page (h : ∀ r ∈ rs, r.Within g) (hrs : rs.length ≤ g.maxTrackedQueries) :
    (pieces (pageCalls ver rs)).length + 1024 < BUFFER_LIMIT := by
  have hentries : (pieces (rs.flatMap (entryCalls ver))).length ≤ rs.length * ENTRY_LIMIT := by
    clear hrs
    induction rs with
    | nil => exact Nat.zero_le _
    | cons r rs ih =>
      have hone := length_entryPieces ver (h r List.mem_cons_self)
      have hrest := ih fun x hx => h x (List.mem_cons_of_mem _ hx)
      rw [List.flatMap_cons, pieces_append, List.length_append, List.length_cons, Nat.succ_mul]
      omega
  have hmax : rs.length * ENTRY_LIMIT ≤ 256 * ENTRY_LIMIT :=
    Nat.mul_le_mul_right _ (hrs.trans g.maxTrackedQueries_le)
  have hheader := length_headerPieces
  have hlimit : 15 * 1024 + 256 * ENTRY_LIMIT + 1024 < BUFFER_LIMIT := by decide
  rw [pageCalls, pieces_append, List.length_append]
  omega

omit [CDouble D] in
theorem escapedCall_piece (b : UInt8) : (escapedCall b).piece = layout.escapeOne b := by
  unfold escapedCall
  split_ifs with hq he hn
  · subst hq
    decide
  · subst he
    decide
  · subst hn
    decide
  · have hcode : layout.code b = none := by
      show (if b = 34 then some 34 else if b = 92 then some 92 else if b = 10 then some 110
        else none) = none
      rw [if_neg hq, if_neg he, if_neg hn]
    rw [Quoting.escapeOne_of_none hcode]
    rfl

omit [CDouble D] in
theorem pieces_escaped (text : List UInt8) :
    pieces (text.map escapedCall) = layout.escapeText text := by
  induction text with
  | nil => rfl
  | cons b text ih =>
    rw [List.map_cons, pieces_cons, ih, escapedCall_piece, Quoting.escapeText_cons]

/-- The lines of what was read. -/
def readingLines (ver : PgVersion) (r : EntryReading D) : List (List UInt8) :=
  (queryInfoLine r.queryId r.backendPid r.queryText).render layout ::
    r.samples.map fun x => (metricLine ver x).render layout

/-- A page is its lines. -/
theorem pieces_pageCalls : pieces (pageCalls ver rs) =
    linesText (headerLines ++ rs.flatMap (readingLines ver)) := by
  have hheader : pieces headerCalls = linesText headerLines := by
    rw [headerText_eq, headerCalls, pieces_cons, pieces, List.flatMap_map]
    rfl
  have hsamples : ∀ samples : List (NodeSample D), pieces (samples.map (sampleCall ver)) =
      linesText (samples.map fun x => (metricLine ver x).render layout) := by
    intro samples
    induction samples with
    | nil => rfl
    | cons x samples ih =>
      rw [List.map_cons, List.map_cons, pieces_cons, linesText_cons, ih, ← sampleLine_eq]
      rfl
  have hentry : ∀ r : EntryReading D,
      pieces (entryCalls ver r) = linesText (readingLines ver r) := by
    intro r
    rw [readingLines, linesText_cons, ← queryInfo_eq, entryCalls, pieces_append, pieces_cons,
      pieces_cons, hsamples, pieces_escaped]
    simp only [BufferCall.piece, List.append_assoc]
  rw [pageCalls, pieces_append, linesText_append, hheader, linesText_flatMap, pieces,
    List.flatMap_assoc]
  exact congrArg (linesText headerLines ++ ·) (List.flatMap_congr fun r _ => hentry r)

/-- The text of a page has no NUL. -/
theorem page_nul (h : ∀ r ∈ rs, r.Within g) : 0 ∉ pieces (pageCalls ver rs) := by
  rw [pieces_pageCalls]
  refine linesText_nul fun l hl => ?_
  rcases List.mem_append.mp hl with hl | hl
  · exact headerLines_isLine l hl
  · obtain ⟨r, hr, hl⟩ := List.mem_flatMap.mp hl
    rcases List.mem_cons.mp hl with rfl | hl
    · exact queryInfoLine_isLine _ _ (h r hr).nul_free
    · obtain ⟨x, -, rfl⟩ := List.mem_map.mp hl
      exact metricLine_isLine ver x

omit [CDouble D] in
/-- Where some calls of `buffer_append` come last. -/
theorem last_append (calls : List BufferCall) {calls' : List BufferCall} (hne : calls' ≠ [])
    (h : ∀ call ∈ calls', ∃ s, call = .append s) :
    ∃ before s, calls ++ calls' = before ++ [.append s] := by
  obtain ⟨s, hs⟩ := h _ (List.getLast_mem hne)
  refine ⟨calls ++ calls'.dropLast, s, ?_⟩
  rw [List.append_assoc, ← hs, List.dropLast_append_getLast hne]

/-- The last call of a page is a `buffer_append`. -/
theorem pageCalls_last (ver : PgVersion) (rs : List (EntryReading D)) :
    ∃ before s, pageCalls ver rs = before ++ [.append s] := by
  rcases List.eq_nil_or_concat rs with rfl | ⟨rs, r, rfl⟩
  · have happends : ∀ call ∈ headerCalls, ∃ s, call = .append s := by
      intro call hcall
      rcases List.mem_cons.mp hcall with rfl | hcall
      · exact ⟨_, rfl⟩
      · obtain ⟨type, -, rfl⟩ := List.mem_map.mp hcall
        exact ⟨_, rfl⟩
    exact last_append [] (List.cons_ne_nil _ _) happends
  · have happends : ∀ call ∈ .append queryInfoSuffix :: r.samples.map (sampleCall ver),
        ∃ s, call = .append s := by
      intro call hcall
      rcases List.mem_cons.mp hcall with rfl | hcall
      · exact ⟨_, rfl⟩
      · obtain ⟨x, -, rfl⟩ := List.mem_map.mp hcall
        exact ⟨_, rfl⟩
    obtain ⟨before, s, hlast⟩ := last_append (headerCalls ++ rs.flatMap (entryCalls ver) ++
      (.append (queryInfoPrefix r.queryId r.backendPid) :: r.queryText.map escapedCall))
      (List.cons_ne_nil _ _) happends
    refine ⟨before, s, ?_⟩
    rw [← hlast, List.concat_eq_append, pageCalls, List.flatMap_append, List.flatMap_singleton,
      entryCalls, List.append_assoc, List.append_assoc]

end Page

/-! ## 6. The result -/

/-- No call truncates what it formats, writes past the buffer or takes it over the limit, and the
memory that is returned is a string: all that was appended. -/
structure WithinBuffer (palloced : Nat → UInt8) (calls : List BufferCall) : Prop where
  fits : ∀ before call after, calls = before ++ call :: after →
    call.Fits (runCalls before (init palloced))
  inside : (runCalls calls (init palloced)).offset < (runCalls calls (init palloced)).size
  size_le : (runCalls calls (init palloced)).size ≤ BUFFER_LIMIT
  offset : (runCalls calls (init palloced)).offset = (pieces calls).length
  data : ∀ k < (pieces calls).length,
    (runCalls calls (init palloced)).data k = (pieces calls).getD k 0
  terminated : (runCalls calls (init palloced)).data (runCalls calls (init palloced)).offset = 0
  returned : (runCalls calls (init palloced)).cString = pieces calls

omit [CDouble D] in
theorem withinBuffer_of_short {palloced : Nat → UInt8} {calls before : List BufferCall}
    {s : List UInt8} (hlast : calls = before ++ [.append s]) (hshort : ∀ call ∈ calls, call.Short)
    (hlen : (pieces calls).length + 1024 < BUFFER_LIMIT) (hnul : 0 ∉ pieces calls) :
    WithinBuffer palloced calls := by
  have hbefore : ∀ before after, calls = before ++ after →
      (runCalls before (init palloced)).Holding (pieces before) ∧
        (pieces before).length + 1024 < BUFFER_LIMIT := by
    intro before after hsplit
    have hle : (pieces before).length + 1024 < BUFFER_LIMIT := by
      rw [hsplit, pieces_append, List.length_append] at hlen
      omega
    have hrun := runCalls_holding before (holding_init palloced)
      (fun call hcall => hshort call (hsplit ▸ List.mem_append_left _ hcall)) (by simpa using hle)
    exact ⟨by simpa using hrun, hle⟩
  have hall := (hbefore calls [] (List.append_nil _).symm).1
  -- the last call terminates the string
  have hstring : (runCalls calls (init palloced)).HoldsString (pieces calls) := by
    obtain ⟨hholds, -⟩ := hbefore before [.append s] hlast
    have hs : s.length ≤ 1024 := hshort (.append s) (by simp [hlast])
    rw [hlast, runCalls_append, pieces_append, pieces_cons, pieces_nil, List.append_nil]
    exact hholds.toHolds.append hs
  constructor
  case fits =>
    intro before call after hsplit
    obtain ⟨hholds, hle⟩ := hbefore before (call :: after) hsplit
    exact (run_holding hholds (hshort call (by simp [hsplit])) hle).2
  case inside => exact hall.room
  case size_le => exact hall.size_le
  case offset => exact hall.offset
  case data => exact hall.data
  case terminated => exact hstring.terminated
  case returned => exact hstring.cString hnul

/-- **The page fits into the buffer**, whatever the slots hold and however they change meanwhile:
`pwh_format_openmetrics` returns the text of the calls it makes, and these stay within the buffer
when every count that is read keeps to the setting. -/
theorem page_fits_buffer (srv : Server D) (palloced : Nat → UInt8) {calls : List BufferCall}
    (h : (formatterCalls srv).ReturnsBy (TableAnswers srv) calls) :
    pwhFormatOpenmetrics srv palloced =
        formatterCalls srv >>= (fun calls => .ret (runCalls calls (init palloced)).cString) ∧
      WithinBuffer palloced calls := by
  refine ⟨pwhFormatOpenmetrics_eq palloced, ?_⟩
  obtain ⟨rs, hrs, h⟩ := returnsBy_bind.mp h
  obtain rfl : pageCalls srv.version rs = calls := h
  obtain ⟨hwithin, hlen⟩ := readSlots_within _ _ _ _ hrs nofun
  rw [List.length_nil, Nat.zero_add] at hlen
  obtain ⟨before, s, hlast⟩ := pageCalls_last srv.version rs
  exact withinBuffer_of_short hlast pageCalls_short (length_page hwithin hlen) (page_nul hwithin)

/-! ## 7. A page that makes the buffer grow -/

/-- Five slots, each with a text of 8192 bytes and 24 nodes. -/
def fullServer : Server ℚ where
  version := .v14_
  gucs := { maxTrackedQueries := 5, maxNodesPerQuery := 24, maxQueryTextLen := 8192 }
  planState _ := { plan := some .seqScan }
  queryDesc q :=
    { planstate := some q, queryId := UInt64.ofNat q, totalCost := q, sourceText := none }

/-- All of them are used, and every byte of the texts has to be escaped. -/
def fullTable : Nat → PwhSharedMemoryBackendEntry ℚ := fun i =>
  { (.zero : PwhSharedMemoryBackendEntry ℚ) with
    backendPid := Fin.ofNat _ (i + 1)
    queryId := UInt64.ofNat (100 + i)
    countOfMetrics := 24
    queryText := fun k => if k < 8191 then 34 else 0
    metrics := fun j => measuredNode .seqScan j (if j = 0 then -1 else UInt32.ofNat (j - 1)) }

/-- A text that fills its region but for the NUL. -/
theorem text_replicate {be : PwhSharedMemoryBackendEntry ℚ} {n : Nat} {b : UInt8} (hb : b ≠ 0)
    (h : ∀ k, be.queryText k = if k < n then b else 0) : be.text (n + 1) = List.replicate n b := by
  have hfirst : (List.range n).map be.queryText = List.replicate n b := by
    refine List.eq_replicate_iff.mpr ⟨by simp, fun c hc => ?_⟩
    obtain ⟨k, hk, rfl⟩ := List.mem_map.mp hc
    rw [h, if_pos (List.mem_range.mp hk)]
  have hlast : be.queryText n = 0 := by rw [h, if_neg (Nat.lt_irrefl n)]
  rw [PwhSharedMemoryBackendEntry.text, List.range_succ, List.map_append, hfirst,
    List.takeWhile_append_of_pos (by simpa using fun _ => hb)]
  simp [hlast]

theorem length_escaped_quotes (n : Nat) :
    (layout.escapeText (List.replicate n 34)).length = 2 * n := by
  induction n with
  | zero => rfl
  | succ n ih =>
    have hone : (layout.escapeOne 34).length = 2 := rfl
    rw [List.replicate_succ, Quoting.escapeText_cons, List.length_append, hone, ih]
    omega

/-- Each of the slots takes a quarter of the first buffer. -/
theorem fullTable_entry (i : Nat) :
    16382 ≤ (linesText (entryLines (fullTable i) fullServer)).length := by
  have htext : (fullTable i).text 8192 = List.replicate 8191 34 :=
    text_replicate (by decide) fun _ => rfl
  have hescaped := length_escaped_quotes 8191
  have hlen : fullServer.gucs.maxQueryTextLen = 8192 := rfl
  rw [entryLines, linesText_cons, infoLine_eq, hlen, htext]
  simp only [List.length_append, hescaped]
  omega

theorem fullTable_valid (i : Nat) : CountedNodesValid (fullTable i) := fun _ _ => rfl

/-- Reading a table leaves its counts. -/
theorem counts_of_reader {srv : Server ℚ} {p : Pid} {o : Op ℚ} {s t : State ℚ} {r : Res o}
    (ho : o.OfReader) (hs : CountsWithin srv s) (h : alone srv p o s = some (r, t)) :
    TableAnswers srv o r ∧ CountsWithin srv t := by
  refine ⟨⟨p, {}, s, t, hs, h⟩, fun i => ?_⟩
  have hfills : o.fills ≠ some i := by cases o <;> first | exact ho.elim | exact nofun
  rw [exec_entry h hfills]
  exact hs i

/-- The calls for that table: the text is longer than the first buffer. -/
theorem fullTable_calls : ∃ calls : List BufferCall,
    (formatterCalls fullServer).ReturnsBy (TableAnswers fullServer) calls ∧
      (runCalls calls (init fun _ => 0)).cString =
        linesText (expositionLines fullServer fullTable) := by
  have hvalid : ∀ i ∈ activeSlots fullServer fullTable, CountedNodesValid (fullTable i) :=
    fun i _ => fullTable_valid i
  have hpage := exposition_eq fullServer 9 (fun _ => 0) hvalid
  obtain ⟨⟨out, t⟩, hsolo, hout⟩ := Option.map_eq_some_iff.mp hpage
  rw [pwhFormatOpenmetrics_eq, solo_bind] at hsolo
  obtain ⟨⟨calls, u⟩, hcalls, hret⟩ := Option.bind_eq_some_iff.mp hsolo
  cases hret
  have hans : ∀ (o : Op ℚ) (s : State ℚ) (r : Res o) (t : State ℚ), o.OfReader →
      CountsWithin fullServer s → alone fullServer 9 o s = some (r, t) →
        TableAnswers fullServer o r ∧ CountsWithin fullServer t :=
    fun _ _ _ _ => counts_of_reader
  refine ⟨calls, returnsBy_of_solo hans ?_ ?_ hcalls, hout⟩
  · have hall : (pwhFormatOpenmetrics fullServer (D := ℚ) fun _ => 0).All Op.OfReader :=
      (formatEntries_all _ _ _).bind fun _ => trivial
    rw [pwhFormatOpenmetrics_eq] at hall
    exact hall.of_bind
  · exact fun i => Nat.le_refl 24

/-- Five slots with texts of 8191 quotes: the page fits, into a buffer that has grown. -/
theorem fullTable_fits : ∃ calls : List BufferCall,
    (formatterCalls fullServer).ReturnsBy (TableAnswers fullServer) calls ∧
      WithinBuffer (fun _ => 0) calls ∧
        METRIC_BUFFER_SIZE < (runCalls calls (init fun _ => 0)).size := by
  obtain ⟨calls, hcalls, htext⟩ := fullTable_calls
  obtain ⟨-, hwithin⟩ := page_fits_buffer fullServer (fun _ => 0) hcalls
  refine ⟨calls, hcalls, hwithin, ?_⟩
  have hactive : activeSlots fullServer fullTable = [0, 1, 2, 3, 4] := by decide +kernel
  have hlong : METRIC_BUFFER_SIZE < (linesText (expositionLines fullServer fullTable)).length := by
    have hentry := fullTable_entry
    have hsum : 16382 * 5 ≤ ((activeSlots fullServer fullTable).flatMap fun i =>
        linesText (entryLines (fullTable i) fullServer)).length := by
      have h₀ := hentry 0
      have h₁ := hentry 1
      have h₂ := hentry 2
      have h₃ := hentry 3
      have h₄ := hentry 4
      simp only [hactive, List.flatMap_cons, List.flatMap_nil, List.length_append]
      omega
    rw [expositionLines, linesText_append, linesText_flatMap, List.length_append,
      METRIC_BUFFER_SIZE]
    omega
  rw [← htext, hwithin.returned, ← hwithin.offset] at hlong
  exact hlong.trans hwithin.inside

end WhatIsHappening
