/-
# Metric families

The lines of one metric name, its HELP line, its TYPE line and its samples, are a family, and the
text formats want them in one block.  The formatter prints the headers of all families first and
then the samples slot by slot: `families_in_blocks_iff` says that this is so only as long as there
is nothing to show.
-/
import WhatIsHappening.Exposition.Decoding

namespace WhatIsHappening

open Interleaving LabelledText

/-! ## 1. Blocks -/

section Blocks

variable {α β γ : Type} {key : α → β} {b : β} {l l' : List α}

/-- The elements with the key `b` stand next to each other. -/
def InBlock (key : α → β) (l : List α) (b : β) : Prop :=
  ∃ before block after, l = before ++ block ++ after ∧ (∀ x ∈ block, key x = b) ∧
    ∀ x ∈ before ++ after, key x ≠ b

theorem inBlock_of_all (h : ∀ x ∈ l, key x = b) : InBlock key l b :=
  ⟨[], l, [], by simp, h, by simp⟩

theorem inBlock_of_none (h : ∀ x ∈ l, key x ≠ b) : InBlock key l b :=
  ⟨l, [], [], by simp, by simp, by simpa using h⟩

theorem InBlock.append_left (h : InBlock key l b) (h' : ∀ x ∈ l', key x ≠ b) :
    InBlock key (l' ++ l) b := by
  obtain ⟨before, block, after, rfl, hblock, hothers⟩ := h
  refine ⟨l' ++ before, block, after, by simp, hblock, ?_⟩
  intro x hx
  rw [List.append_assoc] at hx
  rcases List.mem_append.mp hx with hx | hx
  · exact h' x hx
  · exact hothers x hx

theorem InBlock.append_right (h : InBlock key l b) (h' : ∀ x ∈ l', key x ≠ b) :
    InBlock key (l ++ l') b := by
  obtain ⟨before, block, after, rfl, hblock, hothers⟩ := h
  refine ⟨before, block, after ++ l', by simp, hblock, ?_⟩
  intro x hx
  rw [← List.append_assoc] at hx
  rcases List.mem_append.mp hx with hx | hx
  · exact hothers x hx
  · exact h' x hx

/-- Parts with one key each, no two of them the same, are blocks. -/
theorem inBlock_flatMap {f : γ → List α} {g : γ → β} (hkey : ∀ c, ∀ x ∈ f c, key x = g c) :
    ∀ {cs : List γ}, (cs.map g).Nodup → InBlock key (cs.flatMap f) b
  | [], _ => inBlock_of_none nofun
  | c :: cs, hnodup => by
    rw [List.map_cons, List.nodup_cons] at hnodup
    rw [List.flatMap_cons]
    by_cases hc : g c = b
    · refine (inBlock_of_all fun x hx => (hkey c x hx).trans hc).append_right fun x hx heq => ?_
      obtain ⟨c', hc', hx⟩ := List.mem_flatMap.mp hx
      refine hnodup.1 (List.mem_map.mpr ⟨c', hc', ?_⟩)
      rw [← hkey c' x hx, heq, hc]
    · refine (inBlock_flatMap hkey hnodup.2).append_left fun x hx heq => hc ?_
      rw [← hkey c x hx, heq]

/-- Nothing with another key stands between two elements of a block. -/
theorem InBlock.between (h : InBlock key l b) {x y z : α} (hsub : [x, y, z].Sublist l)
    (hx : key x = b) (hz : key z = b) : key y = b := by
  obtain ⟨before, block, after, rfl, hblock, hothers⟩ := h
  have hbefore : x ∉ before := fun hmem => hothers x (List.mem_append_left _ hmem) hx
  have hafter : z ∉ after := fun hmem => hothers z (List.mem_append_right _ hmem) hz
  -- `z` is not behind the block, so all three are in it or in front of it
  obtain ⟨u, v, huv, hu, hv⟩ := List.sublist_append_iff.mp hsub
  have hv : v = [] := by
    rcases List.eq_nil_or_concat v with rfl | ⟨v', w, rfl⟩
    · rfl
    · have hlast := congrArg List.getLast? huv
      simp at hlast
      exact absurd (hv.subset (by simp [hlast])) hafter
  rw [hv, List.append_nil] at huv
  rw [← huv] at hu
  obtain ⟨u', v', huv', hu', hv'⟩ := List.sublist_append_iff.mp hu
  have hu' : u' = [] := by
    cases u' with
    | nil => rfl
    | cons w u' =>
      rw [List.cons_append, List.cons.injEq] at huv'
      exact absurd (hu'.subset (by simp [huv'.1])) hbefore
  rw [hu', List.nil_append] at huv'
  rw [← huv'] at hv'
  exact hblock y (hv'.subset (by simp))

end Blocks

/-! ## 2. The family of a line -/

/-- The metric name of a line: the word behind `# HELP` or `# TYPE`, or that in front of the labels
or the value. -/
def familyName (l : List UInt8) : List UInt8 :=
  if str "# HELP " <+: l ∨ str "# TYPE " <+: l then (l.drop 7).takeWhile (· ≠ 32)
  else l.takeWhile fun b => b ≠ 123 ∧ b ≠ 32

/-- The lines of every metric name form one block. -/
def FamiliesInBlocks (lines : List (List UInt8)) : Prop := ∀ name, InBlock familyName lines name

/-- The name of a metric of the nodes. -/
def metricName (type : MetricType) : List UInt8 :=
  str "pg_what_is_happening_active_query_node_" ++ str (metricSuffix type)

theorem metricName_injective : Function.Injective metricName :=
  fun _ _ h => metricSuffix_injective (List.append_cancel_left h)

theorem metricName_noBlank (type : MetricType) : 32 ∉ metricName type := by
  rw [metricName, List.mem_append, not_or]
  refine ⟨by decide, ?_⟩
  cases type <;> decide

/-- The family of a line of the header. -/
theorem familyName_comment {kind name : List UInt8} (rest : List UInt8)
    (hkind : kind = str "# HELP " ∨ kind = str "# TYPE ") (hname : 32 ∉ name) :
    familyName (kind ++ (name ++ 32 :: rest)) = name := by
  have hprefix : str "# HELP " <+: kind ++ (name ++ 32 :: rest) ∨
      str "# TYPE " <+: kind ++ (name ++ 32 :: rest) := by
    rcases hkind with rfl | rfl
    · exact .inl (List.prefix_append _ _)
    · exact .inr (List.prefix_append _ _)
  have hlength : kind.length = 7 := by
    rcases hkind with rfl | rfl <;> rfl
  have hword : ∀ b ∈ name, decide (b ≠ 32) = true := by
    intro b hb
    rw [decide_eq_true_iff]
    rintro rfl
    exact hname hb
  rw [familyName, if_pos hprefix, ← hlength, List.drop_left, List.takeWhile_append_of_pos hword]
  simp

theorem familyName_header (type : MetricType) :
    ∀ l ∈ [str "# HELP pg_what_is_happening_active_query_node_" ++ str (metricSuffix type) ++
          str " " ++ str (metricHelp type),
        str "# TYPE pg_what_is_happening_active_query_node_" ++ str (metricSuffix type) ++
          str " gauge"], familyName l = metricName type := by
  have hhelp : str "# HELP pg_what_is_happening_active_query_node_" ++ str (metricSuffix type) ++
      str " " ++ str (metricHelp type) =
        str "# HELP " ++ (metricName type ++ 32 :: str (metricHelp type)) := by
    simp [metricName, str]
  have htype : str "# TYPE pg_what_is_happening_active_query_node_" ++ str (metricSuffix type) ++
      str " gauge" = str "# TYPE " ++ (metricName type ++ 32 :: str "gauge") := by
    simp [metricName, str]
  simp only [List.forall_mem_cons]
  refine ⟨?_, ?_, by simp⟩
  · rw [hhelp]
    exact familyName_comment _ (.inl rfl) (metricName_noBlank type)
  · rw [htype]
    exact familyName_comment _ (.inr rfl) (metricName_noBlank type)

/-- The header of `query_info`. -/
theorem familyName_infoHeader : ∀ l ∈ headerLines.take 2,
    familyName l = str "pg_what_is_happening_query_info" := by
  have hhelp : str "# HELP pg_what_is_happening_query_info Query metadata for active queries" =
      str "# HELP " ++ (str "pg_what_is_happening_query_info" ++
        32 :: str "Query metadata for active queries") := by decide
  have htype : str "# TYPE pg_what_is_happening_query_info gauge" =
      str "# TYPE " ++ (str "pg_what_is_happening_query_info" ++ 32 :: str "gauge") := by decide
  intro l hl
  rcases List.mem_cons.mp hl with rfl | hl
  · rw [hhelp]
    exact familyName_comment _ (.inl rfl) (by decide)
  · rw [List.mem_singleton.mp hl, htype]
    exact familyName_comment _ (.inr rfl) (by decide)

theorem familyName_metricHeaders : ∀ l ∈ headerLines.drop 2, ∃ type,
    familyName l = metricName type := by
  intro l hl
  obtain ⟨type, -, hl⟩ := List.mem_flatMap.mp hl
  exact ⟨type, familyName_header type l hl⟩

theorem metricName_ne_info (type : MetricType) :
    metricName type ≠ str "pg_what_is_happening_query_info" := by
  cases type <;> decide

theorem familyName_ne_nil : ∀ l ∈ headerLines, familyName l ≠ [] := by
  intro l hl
  rw [← List.take_append_drop 2 headerLines] at hl
  rcases List.mem_append.mp hl with hl | hl
  · rw [familyName_infoHeader l hl]
    decide
  · obtain ⟨type, htype⟩ := familyName_metricHeaders l hl
    rw [htype]
    exact fun h => List.cons_ne_nil _ _ h

/-- The header has the families one after the other. -/
theorem headerLines_inBlock (name : List UInt8) : InBlock familyName headerLines name := by
  rw [← List.take_append_drop 2 headerLines]
  by_cases hname : name = str "pg_what_is_happening_query_info"
  · refine (inBlock_of_all fun l hl => ?_).append_right fun l hl => ?_
    · rw [familyName_infoHeader l hl, hname]
    · obtain ⟨type, htype⟩ := familyName_metricHeaders l hl
      rw [htype, hname]
      exact metricName_ne_info type
  · have hmetrics : InBlock familyName (headerLines.drop 2) name :=
      inBlock_flatMap familyName_header (List.Nodup.map metricName_injective (by decide))
    refine hmetrics.append_left fun l hl => ?_
    rw [familyName_infoHeader l hl]
    exact Ne.symm hname

/-! ## 3. Tables -/

variable {D : Type} [CDouble D]

omit [CDouble D] in
theorem familyName_infoLine (be : PwhSharedMemoryBackendEntry D) (srv : Server D) :
    familyName (infoLine be srv) = str "pg_what_is_happening_query_info" := by
  obtain ⟨rest, hrest⟩ := infoLine_isInfoLine be srv
  have hhead : (infoLine be srv).head? = some 112 := by
    rw [← hrest]
    rfl
  have hkind : ¬ (str "# HELP " <+: infoLine be srv ∨ str "# TYPE " <+: infoLine be srv) := by
    rintro (⟨tail, htail⟩ | ⟨tail, htail⟩)
    all_goals
      rw [← htail] at hhead
      exact absurd (Option.some.inj hhead) (by decide)
  have hopen : str "pg_what_is_happening_query_info\x7b" =
      str "pg_what_is_happening_query_info" ++ [123] := by decide +kernel
  rw [familyName, if_neg hkind, ← hrest, hopen, List.append_assoc,
    List.takeWhile_append_of_pos (by decide +kernel)]
  exact List.append_nil _

/-- **The families are in blocks** on the page of a table in which no slot is active, and on no
other. -/
theorem page_inBlocks_iff (srv : Server D) (entries : Nat → PwhSharedMemoryBackendEntry D) :
    FamiliesInBlocks (printedPage srv entries ++ [[]]) ↔ activeSlots srv entries = [] := by
  constructor
  · intro h
    rcases hactive : activeSlots srv entries with _ | ⟨i, is⟩
    · rfl
    -- a metric's header stands between the header of `query_info` and its first sample
    obtain ⟨help, type, metric, rest, hheader, hhelp, hmetric⟩ : ∃ help type metric rest,
        headerLines = help :: type :: metric :: rest ∧
          familyName help = str "pg_what_is_happening_query_info" ∧
          familyName metric ≠ str "pg_what_is_happening_query_info" := by
      refine ⟨_, _, _, _, rfl, familyName_infoHeader _ List.mem_cons_self, ?_⟩
      rw [familyName_header .tuplesReturned _ List.mem_cons_self]
      exact metricName_ne_info .tuplesReturned
    have hsub : [help, metric, infoLine (entries i) srv].Sublist
        (printedPage srv entries ++ [[]]) := by
      rw [printedPage, hactive, hheader, List.append_assoc]
      refine .cons_cons _ (.cons _ (.cons_cons _ ?_))
      refine List.singleton_sublist.mpr (List.mem_append_right _ (List.mem_append_left _ ?_))
      exact List.mem_flatMap.mpr ⟨i, List.mem_cons_self, List.mem_cons_self⟩
    exact absurd ((h _).between hsub hhelp (familyName_infoLine _ srv)) hmetric
  · intro hactive name
    rw [printedPage, hactive, List.flatMap_nil, List.append_nil]
    by_cases hname : name = []
    · refine (inBlock_of_all fun l hl => ?_).append_left fun l hl => ?_
      · rw [List.mem_singleton.mp hl, hname]
        rfl
      · rw [hname]
        exact familyName_ne_nil l hl
    · refine (headerLines_inBlock name).append_right fun l hl => ?_
      rw [List.mem_singleton.mp hl]
      exact Ne.symm hname

/-- **No family is interleaved with another** exactly where no slot is active. -/
theorem families_in_blocks_iff (srv : Server D) (p : Pid) (palloced : Nat → UInt8)
    (entries : Nat → PwhSharedMemoryBackendEntry D) :
    (∃ out, exposition srv p palloced entries = some out ∧ FamiliesInBlocks (out.splitOn 10)) ↔
      activeSlots srv entries = [] := by
  rw [exposition_prints, ← page_inBlocks_iff, ← splitOn_printed]
  constructor
  · rintro ⟨_, ⟨⟩, h⟩
    exact h
  · exact fun h => ⟨_, rfl, h⟩

/-- With one query, the header of `query_info` and its sample are apart. -/
theorem quotingTable_not_inBlocks :
    ¬ ∀ entries : Nat → PwhSharedMemoryBackendEntry ℚ, ∃ out,
      exposition smallServer 1 (fun _ => 0) entries = some out ∧
        FamiliesInBlocks (out.splitOn 10) := by
  intro h
  obtain ⟨out, hout, hblocks⟩ := h quotingTable
  rw [exposition_prints, Option.some.injEq] at hout
  rw [← hout, splitOn_printed, page_inBlocks_iff] at hblocks
  exact absurd hblocks (by decide)

end WhatIsHappening
