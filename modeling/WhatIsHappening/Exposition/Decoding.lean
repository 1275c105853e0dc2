/-
# The exposition decodes to the table

The lines of the exposition are read back: a query_info line gives the text stored in its slot
byte for byte, whatever the text is, a sample line gives the sample, and nothing in a query text
reaches another line.
-/
import WhatIsHappening.Exposition.Format

namespace WhatIsHappening

open LabelledText

variable {D : Type} [CDouble D]

/-! ## 1. The parts of a line -/

/-- The first bytes of a query_info line. -/
def IsInfoLine (l : List UInt8) : Prop := str "pg_what_is_happening_query_info\x7b" <+: l

omit [CDouble D] in
theorem infoLine_eq (be : PwhSharedMemoryBackendEntry D) (srv : Server D) :
    infoLine be srv = queryInfoPrefix be.queryId be.backendPid ++
      (layout.escapeText (be.text srv.gucs.maxQueryTextLen) ++ str "\"\x7d 1") := by
  have hid := (plain_queryId be.queryId).escapeText
  have hpid := (plain_pid be.backendPid).escapeText
  simp only [infoLine, Line.render, Line.renderLabels, Line.renderLabel, queryInfoLine, hid, hpid]
  simp [queryInfoPrefix, str, layout]

omit [CDouble D] in
theorem infoLine_isInfoLine (be : PwhSharedMemoryBackendEntry D) (srv : Server D) :
    IsInfoLine (infoLine be srv) := by
  have hprefix : str "pg_what_is_happening_query_info\x7bquery_id=\"" =
      str "pg_what_is_happening_query_info\x7b" ++ str "query_id=\"" := by decide
  rw [IsInfoLine, infoLine_eq, queryInfoPrefix, hprefix]
  simp only [List.append_assoc]
  exact List.prefix_append _ _

theorem metricLine_not_isInfoLine (ver : PgVersion) (x : NodeSample D) :
    ¬ IsInfoLine ((metricLine ver x).render layout) := by
  rintro ⟨rest, h⟩
  -- the names differ in the byte behind `pg_what_is_happening_`
  have hinfo : (str "pg_what_is_happening_query_info\x7b" ++ rest)[21]? = some 113 := by
    rw [List.getElem?_append_left (by decide)]
    decide
  have hmetric : ((metricLine ver x).render layout)[21]? = some 97 := by
    rw [Line.render, metricLine, List.append_assoc, List.getElem?_append_left (by decide)]
    decide
  rw [h, hmetric] at hinfo
  exact absurd hinfo (by decide)

theorem header_not_isInfoLine : ∀ l ∈ headerLines, ¬ IsInfoLine l := by
  have hhash : ∀ l : List UInt8, l.head? = some 35 → ¬ IsInfoLine l := by
    rintro _ hl ⟨rest, rfl⟩
    have hp : (str "pg_what_is_happening_query_info\x7b" ++ rest).head? = some 112 := rfl
    rw [hp] at hl
    exact absurd hl (by decide)
  intro l hl
  rcases List.mem_cons.mp hl with rfl | hl
  · exact hhash _ (by decide)
  rcases List.mem_cons.mp hl with rfl | hl
  · exact hhash _ (by decide)
  obtain ⟨type, -, hl⟩ := List.mem_flatMap.mp hl
  simp only [List.mem_cons, List.not_mem_nil, or_false] at hl
  rcases hl with rfl | rfl
  · exact hhash _ rfl
  · exact hhash _ rfl

/-- The query_info lines of the exposition are those of the active slots. -/
theorem isInfoLine_iff {srv : Server D} {entries : Nat → PwhSharedMemoryBackendEntry D}
    {l : List UInt8} (hl : l ∈ expositionLines srv entries ++ [[]]) :
    IsInfoLine l ↔ ∃ i ∈ activeSlots srv entries, l = infoLine (entries i) srv := by
  constructor
  · intro h
    rcases List.mem_append.mp hl with hl | hl
    · rcases List.mem_append.mp hl with hl | hl
      · exact absurd h (header_not_isInfoLine l hl)
      obtain ⟨i, hi, hl⟩ := List.mem_flatMap.mp hl
      rcases List.mem_cons.mp hl with rfl | hl
      · exact ⟨i, hi, rfl⟩
      obtain ⟨j, -, hl⟩ := List.mem_flatMap.mp hl
      obtain ⟨type, -, rfl⟩ := List.mem_map.mp hl
      exact absurd h (metricLine_not_isInfoLine _ _)
    · rw [List.mem_singleton.mp hl] at h
      exact absurd h (by unfold IsInfoLine; decide)
  · rintro ⟨i, -, rfl⟩
    exact infoLine_isInfoLine _ srv

/-- The quoted query text ends at the first quote that is not escaped, and its escapes undo to
the stored text. -/
theorem split_queryText (text : List UInt8) :
    layout.split (layout.escapeText text ++ str "\"\x7d 1") =
      some (layout.escapeText text, str "\x7d 1") :=
  Quoting.split_escape layout.escape_ne_quote text (str "\x7d 1")

theorem queryInfoLine_wellFormed (queryId : UInt64) (pid : Pid) (text : List UInt8) :
    (queryInfoLine queryId pid text).WellFormed layout where
  name := (by decide : (123 : UInt8) ∉ str "pg_what_is_happening_query_info")
  keys := by
    simp only [queryInfoLine, List.forall_mem_cons]
    exact ⟨by decide, by decide, by decide, by simp⟩
  labels := List.cons_ne_nil _ _

theorem metricLine_wellFormed (ver : PgVersion) (x : NodeSample D) :
    (metricLine ver x).WellFormed layout where
  name := by
    show (123 : UInt8) ∉ str "pg_what_is_happening_active_query_node_" ++ str (metricSuffix x.type)
    cases x.type <;> decide
  keys := by
    simp only [metricLine, List.forall_mem_cons]
    exact ⟨by decide, by decide, by decide, by decide, by simp⟩
  labels := List.cons_ne_nil _ _

omit [CDouble D] in
/-- A query_info line is read back. -/
theorem parse_infoLine (be : PwhSharedMemoryBackendEntry D) (srv : Server D) :
    Line.parse layout (infoLine be srv) =
      some (queryInfoLine be.queryId be.backendPid (be.text srv.gucs.maxQueryTextLen)) :=
  Line.parse_render (queryInfoLine_wellFormed _ _ _)

/-- A sample line is read back. -/
theorem parse_metricLine (ver : PgVersion) (x : NodeSample D) :
    Line.parse layout ((metricLine ver x).render layout) = some (metricLine ver x) :=
  Line.parse_render (metricLine_wellFormed ver x)

/-! ## 2. Tables that differ in query texts only -/

/-- Two slots with the same fields, except for the query text. -/
def SameButText (be be' : PwhSharedMemoryBackendEntry D) : Prop :=
  be' = { be with queryText := be'.queryText }

section SameButText

variable {be be' : PwhSharedMemoryBackendEntry D}

omit [CDouble D] in
theorem SameButText.isActive (h : SameButText be be') : be'.isActive = be.isActive := by
  rw [h]
  rfl

omit [CDouble D] in
theorem SameButText.countedNodesValid (h : SameButText be be') (hv : CountedNodesValid be) :
    CountedNodesValid be' := by
  rw [h]
  exact hv

theorem SameButText.sampleLines (h : SameButText be be') (ver : PgVersion) :
    sampleLines be' ver = sampleLines be ver := by
  rw [h]
  rfl

end SameButText

/-- The same line, or a query_info line for a query_info line. -/
def SameOrInfo (l l' : List UInt8) : Prop := l = l' ∨ (IsInfoLine l ∧ IsInfoLine l')

theorem sameOrInfo_refl (ls : List (List UInt8)) : List.Forall₂ SameOrInfo ls ls :=
  List.forall₂_same.mpr fun _ _ => .inl rfl

/-- **A query text changes its own query_info line only.** -/
theorem expositionLines_sameButText {srv : Server D}
    {entries entries' : Nat → PwhSharedMemoryBackendEntry D}
    (h : ∀ i, SameButText (entries i) (entries' i)) :
    List.Forall₂ SameOrInfo (expositionLines srv entries) (expositionLines srv entries') := by
  have hactive : activeSlots srv entries' = activeSlots srv entries :=
    List.filter_congr fun i _ => (h i).isActive
  rw [expositionLines, expositionLines, hactive]
  apply List.rel_append (sameOrInfo_refl headerLines)
  induction activeSlots srv entries with
  | nil => exact .nil
  | cons i is ih =>
    rw [List.flatMap_cons, List.flatMap_cons]
    apply List.rel_append _ ih
    rw [entryLines, entryLines, (h i).sampleLines]
    exact .cons (.inr ⟨infoLine_isInfoLine _ srv, infoLine_isInfoLine _ srv⟩) (sameOrInfo_refl _)

/-! ## 3. Decoding -/

omit [CDouble D] in
theorem activeSlots_valid_of_sameButText {srv : Server D}
    {entries entries' : Nat → PwhSharedMemoryBackendEntry D}
    (h : ∀ i, SameButText (entries i) (entries' i))
    (hvalid : ∀ i ∈ activeSlots srv entries, CountedNodesValid (entries i)) :
    ∀ i ∈ activeSlots srv entries', CountedNodesValid (entries' i) := by
  intro i hi
  obtain ⟨hmem, hactive⟩ := List.mem_filter.mp hi
  rw [(h i).isActive] at hactive
  exact (h i).countedNodesValid (hvalid i (List.mem_filter.mpr ⟨hmem, hactive⟩))

/-- **The exposition decodes to the table.**  For every table whose active slots count only nodes
with a valid magic:

- split at newlines the output is the header lines, then for each active slot in index order its
  query_info line and the lines of its counted nodes in order, one for each metric;
- the query_info lines are those of the active slots; behind `query_text="` such a line has a
  text whose first unescaped quote ends the label, and undoing the escapes in front of it gives
  the stored text;
- the line of a sample is read back as that sample;
- a table that differs in query texts only has the same other lines. -/
theorem exposition_decodes (srv : Server D) (p : Pid) (palloced : Nat → UInt8)
    (entries : Nat → PwhSharedMemoryBackendEntry D)
    (hvalid : ∀ i ∈ activeSlots srv entries, CountedNodesValid (entries i)) :
    ∃ out, exposition srv p palloced entries = some out ∧
      out.splitOn 10 =
        headerLines ++
          ((activeSlots srv entries).flatMap fun i =>
            infoLine (entries i) srv ::
              (List.range (entries i).countOfMetrics.toNat).flatMap fun j =>
                metricTypes.map fun type =>
                  (metricLine srv.version ((entries i).sample j type)).render layout) ++
          [[]] ∧
      headerLines.length = 2 + 2 * metricTypes.length ∧
      (∀ l ∈ out.splitOn 10,
        (IsInfoLine l ↔ ∃ i ∈ activeSlots srv entries, l = infoLine (entries i) srv)) ∧
      (∀ i ∈ activeSlots srv entries, ∃ rest quoted,
        infoLine (entries i) srv =
          queryInfoPrefix (entries i).queryId (entries i).backendPid ++ rest ∧
        layout.split rest = some (quoted, str "\x7d 1") ∧
        layout.unescape quoted = some ((entries i).text srv.gucs.maxQueryTextLen)) ∧
      (∀ i ∈ activeSlots srv entries, ∀ j type,
        Line.parse layout
            ((metricLine srv.version ((entries i).sample j type)).render layout) =
          some (metricLine srv.version ((entries i).sample j type))) ∧
      ∀ entries', (∀ i, SameButText (entries i) (entries' i)) →
        ∃ out', exposition srv p palloced entries' = some out' ∧
          List.Forall₂ SameOrInfo (out.splitOn 10) (out'.splitOn 10) := by
  refine ⟨_, exposition_eq srv p palloced hvalid, splitOn_exposition hvalid, by decide,
    ?_, ?_, ?_, ?_⟩
  · intro l hl
    rw [splitOn_exposition hvalid] at hl
    exact isInfoLine_iff hl
  · intro i _
    exact ⟨_, _, infoLine_eq (entries i) srv, split_queryText _, Quoting.unescape_escape _⟩
  · intro i _ j type
    exact parse_metricLine srv.version _
  · intro entries' h
    have hvalid' := activeSlots_valid_of_sameButText h hvalid
    refine ⟨_, exposition_eq srv p palloced hvalid', ?_⟩
    rw [splitOn_exposition hvalid, splitOn_exposition hvalid']
    exact List.rel_append (expositionLines_sameButText h) (sameOrInfo_refl [[]])

/-- A table whose only active slot holds a query text made of what has to be escaped. -/
def quotingTable : Nat → PwhSharedMemoryBackendEntry ℚ := fun i =>
  if i = 0 then
    { (.zero : PwhSharedMemoryBackendEntry ℚ) with
      backendPid := 7
      queryId := 10
      countOfMetrics := 1
      queryText := fun k => (str "\\\"\n\"\x7d 1\n").getD k 0
      metrics := fun _ => { (.zero : PwhNodeMetrics ℚ) with magic := PWH_NODE_MAGIC } }
  else .zero

/-- The text reads back, although it imitates the end of its line. -/
theorem quotingTable_decodes :
    ∃ out, exposition smallServer 2 (fun _ => 1) quotingTable = some out ∧
      ∃ line ∈ out.splitOn 10, ∃ rest quoted, line = queryInfoPrefix 10 7 ++ rest ∧
        layout.split rest = some (quoted, str "\x7d 1") ∧
        layout.unescape quoted = some (str "\\\"\n\"\x7d 1\n") := by
  have hactive : activeSlots smallServer quotingTable = [0] := by decide
  have hvalid : ∀ i ∈ activeSlots smallServer quotingTable,
      CountedNodesValid (quotingTable i) := by
    rw [hactive]
    intro i hi j _
    rw [List.mem_singleton.mp hi]
    rfl
  have htext : (quotingTable 0).text 64 = str "\\\"\n\"\x7d 1\n" := by decide
  have hmem : 0 ∈ activeSlots smallServer quotingTable := by
    rw [hactive]
    exact List.mem_singleton_self 0
  obtain ⟨out, hout, hlines, -, -, hread, -, -⟩ :=
    exposition_decodes smallServer 2 (fun _ => 1) quotingTable hvalid
  obtain ⟨rest, quoted, hline, hsplit, hunescape⟩ := hread 0 hmem
  refine ⟨out, hout, infoLine (quotingTable 0) smallServer, ?_, rest, quoted, hline, hsplit, ?_⟩
  · rw [hlines]
    apply List.mem_append_left
    apply List.mem_append_right
    exact List.mem_flatMap.mpr ⟨0, hmem, List.mem_cons_self⟩
  · rw [hunescape]
    exact congrArg some htext

end WhatIsHappening
