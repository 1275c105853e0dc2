/-
# Duplicate series

A series is a metric name with a set of labels.  The labels of a sample are the query id, the node
and its tag, and a query_info line is joined to the samples by its query id alone; neither names
the process.  So the exposition of a reachable table has duplicates exactly when two of its active
slots carry the same query id, and nothing keeps them apart: `get_query_id` takes the planner's id
where there is one, and a claimed slot shows the id of its last query until it is overwritten.
-/
import WhatIsHappening.Exposition.Decoding
import WhatIsHappening.Slots.Representation

namespace WhatIsHappening

open Interleaving LabelledText

variable {D : Type} [CDouble D]

/-! ## 1. Series -/

/-- Two lines of one series: the same metric name and the same set of labels. -/
def SameSeries (x x' : Line UInt8) : Prop :=
  x.name = x'.name ∧ ∀ label, label ∈ x.labels ↔ label ∈ x'.labels

/-- Two query_info lines with the same `query_id` label. -/
def SameQueryInfo (x x' : Line UInt8) : Prop :=
  x.name = str "pg_what_is_happening_query_info" ∧
    x'.name = str "pg_what_is_happening_query_info" ∧
    ∃ id, (str "query_id", id) ∈ x.labels ∧ (str "query_id", id) ∈ x'.labels

/-- The two lines, as far as they are read as labelled lines, may stand in one exposition. -/
def Apart (l l' : List UInt8) : Prop :=
  ∀ x ∈ Line.parse layout l, ∀ x' ∈ Line.parse layout l', ¬ SameSeries x x' ∧ ¬ SameQueryInfo x x'

/-- No two lines are of one series, or query_info lines with one `query_id`. -/
def NoDuplicateSeries (lines : List (List UInt8)) : Prop := lines.Pairwise Apart

/-- The query ids of the active slots are pairwise different. -/
def QueryIdsDiffer (srv : Server D) (entries : Nat → PwhSharedMemoryBackendEntry D) : Prop :=
  ∀ i ∈ activeSlots srv entries, ∀ i' ∈ activeSlots srv entries, i ≠ i' →
    (entries i).queryId ≠ (entries i').queryId

/-! ## 2. The labels of a line

Every line of a slot carries the query id of the slot; the process stands in the query_info line
only. -/

/-- A header line has no labels to read. -/
theorem parse_header : ∀ l ∈ headerLines, Line.parse layout l = none := by
  have hsuffix : ∀ type, (123 : UInt8) ∉ str (metricSuffix type) := by
    intro type
    cases type <;> decide +kernel
  have hhelp : ∀ type, (123 : UInt8) ∉ str (metricHelp type) := by
    intro type
    cases type <;> decide +kernel
  have hopen : ∀ l ∈ headerLines, (123 : UInt8) ∉ l := by
    intro l hl
    rcases List.mem_cons.mp hl with rfl | hl
    · decide
    rcases List.mem_cons.mp hl with rfl | hl
    · decide
    obtain ⟨type, -, hl⟩ := List.mem_flatMap.mp hl
    simp only [List.mem_cons, List.not_mem_nil, or_false] at hl
    rcases hl with rfl | rfl
    · simp only [List.mem_append, not_or]
      exact ⟨⟨⟨by decide, hsuffix type⟩, by decide⟩, hhelp type⟩
    · simp only [List.mem_append, not_or]
      exact ⟨⟨by decide, hsuffix type⟩, by decide⟩
  exact fun l hl => Line.parse_of_not_mem (hopen l hl)

omit [CDouble D] in
theorem queryId_label_info (queryId : UInt64) (pid : Pid) (text id : List UInt8) :
    (str "query_id", id) ∈ (queryInfoLine queryId pid text).labels ↔
      id = decimal queryId.toNat := by
  have hpid : str "query_id" ≠ str "pid" := by decide
  have htext : str "query_id" ≠ str "query_text" := by decide
  simp [queryInfoLine, hpid, htext]

theorem queryId_label_metric (ver : PgVersion) (x : NodeSample D) (id : List UInt8) :
    (str "query_id", id) ∈ (metricLine ver x).labels ↔ id = decimal x.queryId.toNat := by
  have hnode : str "query_id" ≠ str "node_id" := by decide
  have hparent : str "query_id" ≠ str "parent_node_id" := by decide
  have htag : str "query_id" ≠ str "node_tag" := by decide
  simp [metricLine, hnode, hparent, htag]

theorem nodeId_label_metric (ver : PgVersion) (x : NodeSample D) (id : List UInt8) :
    (str "node_id", id) ∈ (metricLine ver x).labels ↔ id = decimal x.nodeId.toNat := by
  have hquery : str "node_id" ≠ str "query_id" := by decide
  have hparent : str "node_id" ≠ str "parent_node_id" := by decide
  have htag : str "node_id" ≠ str "node_tag" := by decide
  simp [metricLine, hquery, hparent, htag]

/-- Every line of a slot carries the query id of the slot, and no other. -/
theorem parse_entryLine {be : PwhSharedMemoryBackendEntry D} {srv : Server D} {l : List UInt8}
    (hl : l ∈ entryLines be srv) {x : Line UInt8} (hx : x ∈ Line.parse layout l)
    (id : List UInt8) : (str "query_id", id) ∈ x.labels ↔ id = decimal be.queryId.toNat := by
  rcases List.mem_cons.mp hl with rfl | hl
  · rw [parse_infoLine] at hx
    cases hx
    exact queryId_label_info _ _ _ _
  · obtain ⟨j, -, hl⟩ := List.mem_flatMap.mp hl
    obtain ⟨type, -, rfl⟩ := List.mem_map.mp hl
    rw [parse_metricLine] at hx
    cases hx
    exact queryId_label_metric _ _ _

/-- No family of samples has the name of the query_info lines. -/
theorem metricLine_name_ne (ver : PgVersion) (x : NodeSample D) :
    (metricLine ver x).name ≠ str "pg_what_is_happening_query_info" := by
  intro h
  have hlen := congrArg List.length h
  have hnode : (str "pg_what_is_happening_active_query_node_").length = 39 := by decide
  have hinfo : (str "pg_what_is_happening_query_info").length = 31 := by decide
  rw [metricLine, List.length_append, hnode, hinfo] at hlen
  omega

/-! ## 3. Pairs of lines

Two lines are apart by their names, by the query ids of their slots, or by their nodes. -/

theorem Apart.of_name {x x' : Line UInt8} (hw : x.WellFormed layout) (hw' : x'.WellFormed layout)
    (h : x.name ≠ x'.name) : Apart (x.render layout) (x'.render layout) := by
  rw [Apart, Line.parse_render hw, Line.parse_render hw']
  rintro _ ⟨⟩ _ ⟨⟩
  exact ⟨fun hs => h hs.1, fun hs => h (hs.1.trans hs.2.1.symm)⟩

/-- Lines of slots with different query ids. -/
theorem apart_of_queryId {be be' : PwhSharedMemoryBackendEntry D} {srv : Server D}
    (h : be.queryId ≠ be'.queryId) {l l' : List UInt8} (hl : l ∈ entryLines be srv)
    (hl' : l' ∈ entryLines be' srv) : Apart l l' := by
  have hid : decimal be.queryId.toNat ≠ decimal be'.queryId.toNat :=
    fun heq => h (UInt64.toNat_inj.mp (decimal_injective heq))
  intro x hx x' hx'
  constructor
  · intro hs
    have hlabel := (parse_entryLine hl hx _).mpr rfl
    exact hid ((parse_entryLine hl' hx' _).mp ((hs.2 _).mp hlabel))
  · rintro ⟨-, -, id, hid₁, hid₂⟩
    rw [parse_entryLine hl hx] at hid₁
    rw [parse_entryLine hl' hx'] at hid₂
    exact hid (hid₁.symm.trans hid₂)

/-- Lines of different nodes. -/
theorem apart_of_nodeId (ver : PgVersion) {x x' : NodeSample D} (h : x.nodeId ≠ x'.nodeId) :
    Apart ((metricLine ver x).render layout) ((metricLine ver x').render layout) := by
  rw [Apart, parse_metricLine, parse_metricLine]
  rintro _ ⟨⟩ _ ⟨⟩
  constructor
  · intro hs
    have hlabel := (nodeId_label_metric ver x _).mpr rfl
    have hid := (nodeId_label_metric ver x' _).mp ((hs.2 _).mp hlabel)
    exact h (UInt32.toNat_inj.mp (decimal_injective hid))
  · intro hs
    exact metricLine_name_ne ver x hs.1

/-- The lines of one slot. -/
theorem apart_entryLines {be : PwhSharedMemoryBackendEntry D} (srv : Server D)
    (h : ∀ j < be.countOfMetrics.toNat, (be.metrics j).nodeId.toNat = j) :
    (entryLines be srv).Pairwise Apart := by
  apply List.pairwise_cons.mpr
  constructor
  · intro l hl
    obtain ⟨j, -, hl⟩ := List.mem_flatMap.mp hl
    obtain ⟨type, -, rfl⟩ := List.mem_map.mp hl
    exact Apart.of_name (queryInfoLine_wellFormed _ _ _) (metricLine_wellFormed _ _)
      (metricLine_name_ne _ _).symm
  · apply List.pairwise_flatMap.mpr
    constructor
    · intro j _
      apply List.pairwise_map.mpr
      have hnodup : metricTypes.Nodup := by decide
      refine hnodup.imp fun {type type'} hne => ?_
      apply Apart.of_name (metricLine_wellFormed _ _) (metricLine_wellFormed _ _)
      intro hname
      exact hne (metricSuffix_injective (List.append_cancel_left hname))
    · refine List.pairwise_lt_range.imp_of_mem fun {j j'} hj hj' hlt => ?_
      intro l hl l' hl'
      obtain ⟨type, -, rfl⟩ := List.mem_map.mp hl
      obtain ⟨type', -, rfl⟩ := List.mem_map.mp hl'
      apply apart_of_nodeId
      intro heq
      have hnode := h j (List.mem_range.mp hj)
      have hnode' := h j' (List.mem_range.mp hj')
      have : (be.metrics j).nodeId = (be.metrics j').nodeId := heq
      rw [← this, hnode] at hnode'
      omega

omit [CDouble D] in
/-- Two slots with one query id have query_info lines with one `query_id`. -/
theorem not_apart_infoLine {be be' : PwhSharedMemoryBackendEntry D} {srv : Server D}
    (h : be.queryId = be'.queryId) : ¬ Apart (infoLine be srv) (infoLine be' srv) := by
  intro ha
  rw [Apart, parse_infoLine, parse_infoLine] at ha
  apply (ha _ rfl _ rfl).2
  refine ⟨rfl, rfl, decimal be.queryId.toNat, ?_, ?_⟩
  · exact (queryId_label_info _ _ _ _).mpr rfl
  · rw [queryId_label_info, h]

/-! ## 4. A table -/

section Slots

variable {srv : Server D} {entries : Nat → PwhSharedMemoryBackendEntry D}

omit [CDouble D]

theorem mem_activeSlots {i : Nat} :
    i ∈ activeSlots srv entries ↔
      i < srv.gucs.maxTrackedQueries ∧ (entries i).backendPid ≠ 0 := by
  simp [activeSlots, activeFrom, PwhSharedMemoryBackendEntry.isActive, List.mem_range'_1]

theorem activeSlots_nodup : (activeSlots srv entries).Nodup :=
  List.Nodup.filter _ List.nodup_range'

end Slots

/-- **A table has duplicates exactly when two active slots carry the same query id.** -/
theorem noDuplicateSeries_iff {srv : Server D} {entries : Nat → PwhSharedMemoryBackendEntry D}
    (hok : ∀ i, EntryOk srv (entries i)) :
    NoDuplicateSeries (expositionLines srv entries ++ [[]]) ↔ QueryIdsDiffer srv entries := by
  have hempty : Line.parse layout [] = none := by decide
  constructor
  · intro h
    have hslots := (List.pairwise_append.mp (List.pairwise_append.mp h).1).2.1
    have hids : (activeSlots srv entries).Pairwise
        fun i i' => (entries i).queryId ≠ (entries i').queryId := by
      refine (List.pairwise_flatMap.mp hslots).2.imp fun {i i'} hlines heq => ?_
      exact not_apart_infoLine heq (hlines _ List.mem_cons_self _ List.mem_cons_self)
    have hsymm : Std.Symm fun i i' => (entries i).queryId ≠ (entries i').queryId :=
      ⟨fun _ _ h => h.symm⟩
    intro i hi i' hi' hne
    exact hids.forall hi hi' hne
  · intro h
    apply List.pairwise_append.mpr
    refine ⟨List.pairwise_append.mpr ⟨?_, ?_, ?_⟩, List.pairwise_singleton _ _, ?_⟩
    · apply List.pairwise_of_forall_mem_list
      intro l hl l' _ x hx
      rw [parse_header l hl] at hx
      cases hx
    · apply List.pairwise_flatMap.mpr
      constructor
      · intro i _
        exact apart_entryLines srv fun j hj => (hok i).nodes j hj .nodeId
      · refine activeSlots_nodup.imp_of_mem fun {i i'} hi hi' hne l hl l' hl' => ?_
        exact apart_of_queryId (h i hi i' hi' hne) hl hl'
    · intro l hl l' _ x hx
      rw [parse_header l hl] at hx
      cases hx
    · intro l _ l' hl' x _ x' hx'
      rw [List.mem_singleton.mp hl', hempty] at hx'
      cases hx'

/-- What `pwh_format_openmetrics` prints of a table whose slots are well formed. -/
theorem noDuplicate_exposition_iff {srv : Server D} (p : Pid) (palloced : Nat → UInt8)
    {entries : Nat → PwhSharedMemoryBackendEntry D} (hok : ∀ i, EntryOk srv (entries i)) :
    (∃ out, exposition srv p palloced entries = some out ∧ NoDuplicateSeries (out.splitOn 10)) ↔
      QueryIdsDiffer srv entries := by
  have hvalid : ∀ i ∈ activeSlots srv entries, CountedNodesValid (entries i) :=
    fun i _ j hj => (hok i).nodes j hj .magic
  rw [exposition_eq srv p palloced hvalid, ← noDuplicateSeries_iff hok, ← splitOn_exposition hvalid]
  constructor
  · rintro ⟨_, ⟨⟩, h⟩
    exact h
  · exact fun h => ⟨_, rfl, h⟩

/-! ## 5. Runs

The ids of the active slots can only come to agree where a slot is claimed or a query id written,
and there the state before the step tells whether they do (`keepsQueryIdsApart`). -/

section Step

variable {srv : Server D} {p : Pid} {s t : State D}

omit [CDouble D]

theorem mem_activeSlots_entries {i : Nat} :
    i ∈ activeSlots srv s.entries ↔ i < srv.gucs.maxTrackedQueries ∧ s.pid i ≠ 0 :=
  mem_activeSlots

/-- Only a write of a query id changes one. -/
theorem exec_queryId {o : Op D} {e : Env D} {r : Res o} (h : exec srv p o e s = some (r, t))
    (i : Nat) : (t.entries i).queryId = (s.entries i).queryId ∨
      ∃ id, o = .writeQueryId i id ∧ (t.entries i).queryId = id := by
  have hmod : ∀ j (f : PwhSharedMemoryBackendEntry D → PwhSharedMemoryBackendEntry D),
      (∀ be, (f be).queryId = be.queryId) →
      ((s.modifyEntry j f).entries i).queryId = (s.entries i).queryId := by
    intro j f hf
    by_cases hij : i = j
    · subst hij
      rw [State.entries_modifyEntry_self, hf]
    · rw [State.entries_modifyEntry_of_ne s f hij]
  cases o
  case writeQueryId j id =>
    cases h
    by_cases hij : i = j
    · subst hij
      exact .inr ⟨id, rfl, by simp⟩
    · exact .inl (by rw [State.entries_modifyEntry_of_ne s _ hij])
  all_goals
    first
    | exact .inl (by rw [exec_entry h nofun])
    | (cases h; exact .inl (hmod _ _ fun _ => rfl))

/-- No other active slot shows the query id. -/
def mayShow (srv : Server D) (s : State D) (i : Nat) (id : UInt64) : Bool :=
  (List.range srv.gucs.maxTrackedQueries).all fun i' =>
    i' == i || s.pid i' == 0 || (s.entries i').queryId != id

theorem mayShow_iff {i : Nat} {id : UInt64} : mayShow srv s i id = true ↔
    ∀ i' < srv.gucs.maxTrackedQueries, i' ≠ i → s.pid i' ≠ 0 → (s.entries i').queryId ≠ id := by
  simp only [mayShow, List.all_eq_true, List.mem_range, Bool.or_eq_true, beq_iff_eq,
    bne_iff_ne, ne_eq]
  constructor
  · intro h i' hi' hne hpid
    rcases h i' hi' with (h | h) | h
    · exact absurd h hne
    · exact absurd h hpid
    · exact h
  · intro h i' hi'
    by_cases hne : i' = i
    · exact .inl (.inl hne)
    by_cases hpid : s.pid i' = 0
    · exact .inl (.inr hpid)
    · exact .inr (h i' hi' hne hpid)

/-- The operation makes no slot active, and writes no query id into an active slot, while another
active slot shows the same query id.  A slot that is claimed still has the id of its last query. -/
def Op.keepsQueryIdsApart (srv : Server D) (s : State D) : Op D → Bool
  | .writeBackendPid i v => decide (srv.gucs.maxTrackedQueries ≤ i) || v == 0 ||
      mayShow srv s i (s.entries i).queryId
  | .writeQueryId i id => decide (srv.gucs.maxTrackedQueries ≤ i) || s.pid i == 0 ||
      mayShow srv s i id
  | _ => true

/-- A step that changes pid and query id of slot `i` only. -/
theorem queryIdsDiffer_of_slot {i : Nat} (hd : QueryIdsDiffer srv s.entries)
    (hpid : ∀ i' ≠ i, t.pid i' = s.pid i')
    (hid : ∀ i' ≠ i, (t.entries i').queryId = (s.entries i').queryId) :
    QueryIdsDiffer srv t.entries ↔
      (srv.gucs.maxTrackedQueries ≤ i ∨ t.pid i = 0) ∨
        mayShow srv s i (t.entries i).queryId = true := by
  rw [mayShow_iff]
  constructor
  · intro h
    by_cases hi : srv.gucs.maxTrackedQueries ≤ i
    · exact .inl (.inl hi)
    by_cases hzero : t.pid i = 0
    · exact .inl (.inr hzero)
    refine .inr fun i' hi' hne hpid' => ?_
    rw [← hid i' hne]
    refine h i' (mem_activeSlots_entries.mpr ⟨hi', ?_⟩) i
      (mem_activeSlots_entries.mpr ⟨Nat.lt_of_not_le hi, hzero⟩) hne
    rw [hpid i' hne]
    exact hpid'
  · intro h i₁ h₁ i₂ h₂ hne
    obtain ⟨hlt₁, hact₁⟩ := mem_activeSlots_entries.mp h₁
    obtain ⟨hlt₂, hact₂⟩ := mem_activeSlots_entries.mp h₂
    have hshown : ∀ j, j ≠ i → j < srv.gucs.maxTrackedQueries → t.pid j ≠ 0 → t.pid i ≠ 0 →
        i < srv.gucs.maxTrackedQueries → (s.entries j).queryId ≠ (t.entries i).queryId := by
      intro j hj hlt hact hacti hlti
      rcases h with (h | h) | h
      · exact absurd hlti (Nat.not_lt.mpr h)
      · exact absurd h hacti
      · exact h j hlt hj (by rw [← hpid j hj]; exact hact)
    by_cases hi₁ : i₁ = i
    · subst hi₁
      rw [hid i₂ hne.symm]
      exact (hshown i₂ hne.symm hlt₂ hact₂ hact₁ hlt₁).symm
    by_cases hi₂ : i₂ = i
    · subst hi₂
      rw [hid i₁ hi₁]
      exact hshown i₁ hi₁ hlt₁ hact₁ hact₂ hlt₂
    rw [hid i₁ hi₁, hid i₂ hi₂]
    rw [hpid i₁ hi₁] at hact₁
    rw [hpid i₂ hi₂] at hact₂
    exact hd i₁ (mem_activeSlots_entries.mpr ⟨hlt₁, hact₁⟩) i₂
      (mem_activeSlots_entries.mpr ⟨hlt₂, hact₂⟩) hne

/-- **The query ids stay apart in a step exactly when its operation keeps them so.** -/
theorem queryIdsDiffer_exec {o : Op D} {e : Env D} {r : Res o}
    (h : exec srv p o e s = some (r, t)) (hd : QueryIdsDiffer srv s.entries) :
    QueryIdsDiffer srv t.entries ↔ o.keepsQueryIdsApart srv s = true := by
  by_cases hpid : ∃ i v, o = .writeBackendPid i v
  · obtain ⟨i, v, rfl⟩ := hpid
    have hid : ∀ i', (t.entries i').queryId = (s.entries i').queryId := by
      intro i'
      rcases exec_queryId h i' with hid | ⟨_, hid, -⟩
      · exact hid
      · cases hid
    have hothers : ∀ i' ≠ i, t.pid i' = s.pid i' := by
      intro i' hne
      rcases exec_pid h i' with hpid | ⟨_, hpid, -⟩
      · exact hpid
      · cases hpid
        exact absurd rfl hne
    have hown : t.pid i = v := by
      cases h
      simp [State.pid]
    rw [queryIdsDiffer_of_slot hd hothers fun i' _ => hid i', hid i, hown]
    simp [Op.keepsQueryIdsApart]
  by_cases hid : ∃ i id, o = .writeQueryId i id
  · obtain ⟨i, id, rfl⟩ := hid
    have hpid : ∀ i', t.pid i' = s.pid i' := by
      intro i'
      rcases exec_pid h i' with hpid | ⟨_, hpid, -⟩
      · exact hpid
      · cases hpid
    have hothers : ∀ i' ≠ i, (t.entries i').queryId = (s.entries i').queryId := by
      intro i' hne
      rcases exec_queryId h i' with hid | ⟨_, hid, -⟩
      · exact hid
      · cases hid
        exact absurd rfl hne
    have hown : (t.entries i).queryId = id := by
      cases h
      simp
    rw [queryIdsDiffer_of_slot hd (fun i' _ => hpid i') hothers, hpid i, hown]
    simp [Op.keepsQueryIdsApart]
  · have hsame : ∀ i, t.pid i = s.pid i ∧ (t.entries i).queryId = (s.entries i).queryId := by
      intro i
      constructor
      · refine (exec_pid h i).resolve_right ?_
        rintro ⟨v, ho, -⟩
        exact hpid ⟨i, v, ho⟩
      · refine (exec_queryId h i).resolve_right ?_
        rintro ⟨id, ho, -⟩
        exact hid ⟨i, id, ho⟩
    have hkeeps : o.keepsQueryIdsApart srv s = true := by
      cases o
      case writeBackendPid i v => exact absurd ⟨i, v, rfl⟩ hpid
      case writeQueryId i id => exact absurd ⟨i, id, rfl⟩ hid
      all_goals rfl
    have ht : QueryIdsDiffer srv t.entries := by
      intro i hi i' hi' hne
      obtain ⟨hlt, hact⟩ := mem_activeSlots_entries.mp hi
      obtain ⟨hlt', hact'⟩ := mem_activeSlots_entries.mp hi'
      rw [(hsame i).1] at hact
      rw [(hsame i').1] at hact'
      rw [(hsame i).2, (hsame i').2]
      exact hd i (mem_activeSlots_entries.mpr ⟨hlt, hact⟩) i'
        (mem_activeSlots_entries.mpr ⟨hlt', hact'⟩) hne
    exact iff_of_true ht hkeeps

end Step

/-- The next event keeps the query ids of the active slots apart. -/
def keepsQueryIdsApart {ι Ext : Type} (srv : Server D) (c : Config ι (State D) (Res (D := D))) :
    Event ι (Call D) Ext (Env D) → Bool
  | .run p _ =>
    match c.thread p with
    | .op o _ => o.keepsQueryIdsApart srv c.shared
    | _ => true
  | _ => true

/-- One event of a run. -/
theorem queryIdsDiffer_step {srv : Server D} {c c' : Config Pid (State D) (Res (D := D))}
    {e : Event Pid (Call D) Empty (Env D)} (hs : (clusterSystem srv).step c e = some c')
    (hd : QueryIdsDiffer srv c.shared.entries) :
    QueryIdsDiffer srv c'.shared.entries ↔ keepsQueryIdsApart srv c e = true := by
  cases e with
  | run p env =>
    simp only [System.step] at hs
    split at hs
    · rename_i o k hp
      obtain ⟨⟨r, t⟩, hx, rfl⟩ := Option.map_eq_some_iff.mp hs
      simp only [keepsQueryIdsApart, hp]
      exact queryIdsDiffer_exec hx hd
    · cases hs
  | call p cl =>
    simp only [System.step] at hs
    split at hs
    · cases hs
    · obtain ⟨prog, -, rfl⟩ := Option.map_eq_some_iff.mp hs
      exact iff_of_true hd rfl
  | interrupt p =>
    obtain ⟨prog, -, rfl⟩ := Option.map_eq_some_iff.mp hs
    exact iff_of_true hd rfl
  | external x => cases x

/-- A table that nobody has used has no active slot. -/
theorem queryIdsDiffer_init (srv : Server D) :
    QueryIdsDiffer srv (State.init : State D).entries := by
  intro i hi
  exact absurd rfl (mem_activeSlots.mp hi).2

/-- In a run that keeps the ids apart they are apart in every state. -/
theorem queryIdsDiffer_reach {srv : Server D} {c : Config Pid (State D) (Res (D := D))}
    (h : (clusterSystem srv).Reach (fun c e => keepsQueryIdsApart srv c e) clusterInit c) :
    QueryIdsDiffer srv c.shared.entries := by
  induction h with
  | start => exact queryIdsDiffer_init srv
  | step _ hok hs ih => exact (queryIdsDiffer_step hs ih).mpr hok

/-- **No duplicate series** in every run that keeps the query ids of the active slots apart, and
the first step that does not leaves a duplicate. -/
theorem series_are_distinct (srv : Server D) (reader : Pid) (palloced : Nat → UInt8)
    {c : Config Pid (State D) (Res (D := D))}
    (h : (clusterSystem srv).Reach (fun c e => keepsQueryIdsApart srv c e) clusterInit c) :
    (∃ out, exposition srv reader palloced c.shared.entries = some out ∧
      NoDuplicateSeries (out.splitOn 10)) ∧
    ∀ e c', (clusterSystem srv).step c e = some c' →
      ((∃ out, exposition srv reader palloced c'.shared.entries = some out ∧
        NoDuplicateSeries (out.splitOn 10)) ↔ keepsQueryIdsApart srv c e = true) := by
  have hany : (clusterSystem srv).Reach anyRun clusterInit c := h.mono fun _ _ _ => trivial
  have hd := queryIdsDiffer_reach h
  constructor
  · exact (noDuplicate_exposition_iff reader palloced (representation_holds hany).1).mpr hd
  · intro e c' hs
    have hok := (representation_holds (hany.step trivial hs)).1
    rw [noDuplicate_exposition_iff reader palloced hok]
    exact queryIdsDiffer_step hs hd

/-- Two processes run statements with query ids of their own. -/
def twoStatements : List (Event Pid (Call ℚ) Empty (Env ℚ)) :=
  startQuery 1 10 ++ startQuery 2 20

set_option maxRecDepth 10000 in
/-- Both are shown, the ids stay apart all the time, and no two samples name one series. -/
theorem twoStatements_series_distinct : ∃ c : Config Pid (State ℚ) (Res (D := ℚ)),
    (clusterSystem smallServer).Reach (fun c e => keepsQueryIdsApart smallServer c e)
      clusterInit c ∧
    (c.shared.pid 0 = 1 ∧ c.shared.pid 1 = 2 ∧
      (c.shared.entries 0).queryId = 10 ∧ (c.shared.entries 1).queryId = 20) ∧
    ∃ out, exposition smallServer 3 (fun _ => 0) c.shared.entries = some out ∧
      NoDuplicateSeries (out.splitOn 10) := by
  obtain ⟨c, hc, hshown⟩ := System.exists_reach (clusterSystem smallServer)
    (keepsQueryIdsApart smallServer) (fun _ _ h => h) clusterInit twoStatements
    (fun c => c.shared.pid 0 = 1 ∧ c.shared.pid 1 = 2 ∧
      (c.shared.entries 0).queryId = 10 ∧ (c.shared.entries 1).queryId = 20) (by decide +kernel)
  exact ⟨c, hc, of_decide_eq_true hshown,
    (series_are_distinct smallServer 3 (fun _ => 0) hc).1⟩

/-- Two processes run a statement that has one query id. -/
def sameStatementTwice : List (Event Pid (Call ℚ) Empty (Env ℚ)) :=
  startQuery 1 10 ++ startQuery 2 10

set_option maxRecDepth 10000 in
/-- Both slots show query id 10, and the exposition has duplicates. -/
theorem sameStatementTwice_duplicates :
    ¬ ∀ c : Config Pid (State ℚ) (Res (D := ℚ)),
      (clusterSystem smallServer).Reach anyRun clusterInit c →
        ∃ out, exposition smallServer 3 (fun _ => 0) c.shared.entries = some out ∧
          NoDuplicateSeries (out.splitOn 10) := by
  intro h
  obtain ⟨c, hc, hf⟩ := System.exists_reach (clusterSystem smallServer) (fun _ _ => true)
    (fun _ _ _ => trivial) clusterInit sameStatementTwice
    (fun c => c.shared.pid 0 = 1 ∧ c.shared.pid 1 = 2 ∧
      (c.shared.entries 0).queryId = (c.shared.entries 1).queryId) (by decide +kernel)
  obtain ⟨hpid₀, hpid₁, hid⟩ := of_decide_eq_true hf
  have hd := (noDuplicate_exposition_iff 3 _ (representation_holds hc).1).mp (h c hc)
  have h₀ : 0 ∈ activeSlots smallServer c.shared.entries :=
    mem_activeSlots_entries.mpr ⟨by decide, by rw [hpid₀]; decide⟩
  have h₁ : 1 ∈ activeSlots smallServer c.shared.entries :=
    mem_activeSlots_entries.mpr ⟨by decide, by rw [hpid₁]; decide⟩
  exact hd 0 h₀ 1 h₁ (by decide) hid

end WhatIsHappening
