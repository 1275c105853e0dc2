/-
# The lines of the exposition

The texts of `metrics.c` as labelled lines: what `formatter_append_metric` and
`formatter_append_query_info` print is the rendering of a `Line`, and `buffer_append_escaped` is
the escaping of its quoting.
-/
import WhatIsHappening.Metrics
import WhatIsHappening.Lib.Labels
import Mathlib.Data.Nat.Digits.Lemmas

namespace WhatIsHappening

open LabelledText

/-! ## 1. The layout -/

/-- `name{key="value",...} value` with the escapes of `buffer_append_escaped`. -/
def layout : Layout UInt8 where
  quote := 34
  escape := 92
  code b :=
    if b = 34 then some 34 else if b = 92 then some 92 else if b = 10 then some 110 else none
  decode b :=
    if b = 34 then some 34 else if b = 92 then some 92 else if b = 110 then some 10 else none
  decode_code := by
    intro a b h
    split_ifs at h with h1 h2 h3
    · rw [h1, ← Option.some.inj h]
      decide
    · rw [h2, ← Option.some.inj h]
      decide
    · rw [h3, ← Option.some.inj h]
      decide
  quote_coded := by decide
  escape_coded := by decide
  opening := 123
  closing := 125
  equals := 61
  comma := 44
  space := 32
  escape_ne_quote := by decide
  closing_ne_comma := by decide

/-- The line of `formatter_append_query_info`. -/
def queryInfoLine (queryId : UInt64) (pid : Pid) (queryText : List UInt8) : Line UInt8 where
  name := str "pg_what_is_happening_query_info"
  labels := [(str "query_id", decimal queryId.toNat), (str "pid", decimal pid.val),
    (str "query_text", queryText)]
  value := str "1"

section

variable {D : Type} [CDouble D]

/-- The line of `formatter_append_metric`. -/
def metricLine (ver : PgVersion) (x : NodeSample D) : Line UInt8 where
  name := str "pg_what_is_happening_active_query_node_" ++ str (metricSuffix x.type)
  labels := [(str "query_id", decimal x.queryId.toNat), (str "node_id", decimal x.nodeId.toNat),
    (str "parent_node_id", decimalInt x.parentNodeId.toInt32.toInt),
    (str "node_tag", str (pwhNodeTagToString ver x.tag))]
  value := valueBuf x.type x.value

end

/-! ## 2. Plain text

Names, numbers and values are printed without escaping.  They need none: they have no quote, no
backslash and no newline (`PlainWithin`), which for the fixed texts is checked one by one. -/

/-- At most `n` bytes, none of which is escaped or ends a C string. -/
def PlainWithin (n : Nat) (s : List UInt8) : Prop :=
  s.length ≤ n ∧ ∀ b ∈ s, layout.code b = none ∧ b ≠ 0

instance (n : Nat) (s : List UInt8) : Decidable (PlainWithin n s) :=
  inferInstanceAs (Decidable (_ ∧ _))

namespace PlainWithin

variable {n : Nat} {s : List UInt8}

/-- Plain text is escaped as itself. -/
theorem escapeText (h : PlainWithin n s) : layout.escapeText s = s :=
  Quoting.escapeText_plain fun b hb => (h.2 b hb).1

/-- It ends no C string, -/
theorem nul (h : PlainWithin n s) : 0 ∉ s := fun h0 => (h.2 0 h0).2 rfl

/-- ...and no newline. -/
theorem newline (h : PlainWithin n s) : 10 ∉ s := by
  intro hb
  have := (h.2 10 hb).1
  revert this
  decide

end PlainWithin

/-- The characters of a number. -/
theorem plain_of_number {n : Nat} {s : List UInt8} (hlen : s.length ≤ n)
    (h : ∀ b ∈ s, b ∈ numberBytes) : PlainWithin n s := by
  have hall : ∀ b ∈ numberBytes, layout.code b = none ∧ b ≠ 0 := by decide +kernel
  exact ⟨hlen, fun b hb => hall b (h b hb)⟩

/-- A number has no sign in front. -/
theorem decimal_noMinus (n : Nat) : (45 : UInt8) ∉ decimal n := by
  have hdigit : ∀ d : Fin 10, digitByte d ≠ 45 := by decide
  intro h
  rw [decimal] at h
  split at h
  · exact absurd h (by decide)
  · obtain ⟨d, hd, heq⟩ := List.mem_map.mp h
    exact hdigit ⟨d, Nat.digits_lt_base (by decide) (List.mem_reverse.mp hd)⟩ heq

/-- A `u32` that is read as an `i32`. -/
theorem toInt_toInt32 (n : UInt32) :
    n.toInt32.toInt = if n.toNat < 2 ^ 31 then (n.toNat : Int) else n.toNat - 2 ^ 32 := by
  have hcond : n.toInt32.toInt =
      if 2 * n.toNat < 2 ^ 32 then (n.toNat : Int) else n.toNat - (2 ^ 32 : Nat) :=
    BitVec.toInt_eq_toNat_cond n.toBitVec
  rw [hcond]
  split <;> split <;> omega

/-- `%d` of a `u32` shows its digits, or a minus sign first. -/
theorem decimalInt_toInt32_iff (n : UInt32) :
    decimalInt n.toInt32.toInt = decimal n.toNat ↔ n.toNat < 2 ^ 31 := by
  rw [toInt_toInt32]
  split
  · rename_i h
    exact iff_of_true (if_neg (Int.not_lt.mpr (Int.natCast_nonneg _))) h
  · rename_i h
    refine iff_of_false (fun heq => ?_) h
    have hneg : (n.toNat : Int) - 2 ^ 32 < 0 := by
      have := n.toNat_lt
      omega
    rw [decimalInt, if_pos hneg] at heq
    exact decimal_noMinus n.toNat (heq ▸ List.mem_cons_self)

theorem digitByte_toNat {d : Nat} (h : d < 10) : (digitByte d).toNat - 48 = d := by
  have hall : ∀ d : Fin 10, (digitByte d).toNat - 48 = d := by decide
  exact hall ⟨d, h⟩

/-- Reading a printed number. -/
theorem ofDigits_decimal (n : Nat) :
    Nat.ofDigits 10 ((decimal n).reverse.map fun b => b.toNat - 48) = n := by
  unfold decimal
  split
  · rename_i h
    rw [h]
    decide
  · have hdigits : ((Nat.digits 10 n).reverse.map digitByte).reverse.map
        (fun b => b.toNat - 48) = Nat.digits 10 n := by
      rw [← List.map_reverse, List.reverse_reverse, List.map_map]
      nth_rewrite 2 [← List.map_id (Nat.digits 10 n)]
      apply List.map_congr_left
      intro d hd
      exact digitByte_toNat (Nat.digits_lt_base (by decide) hd)
    rw [hdigits, Nat.ofDigits_digits]

/-- Numbers that are printed alike are equal. -/
theorem decimal_injective : Function.Injective decimal := by
  intro n m h
  rw [← ofDigits_decimal n, h, ofDigits_decimal m]

/-- How many digits a number has. -/
theorem length_decimal_le_iff {n k : Nat} (hk : 0 < k) : (decimal n).length ≤ k ↔ n < 10 ^ k := by
  unfold decimal
  split
  · rename_i h
    exact iff_of_true hk (h ▸ Nat.pow_pos (by decide))
  · rw [List.length_map, List.length_reverse]
    exact Nat.digits_length_le_iff (by decide) n

theorem length_decimal {n k : Nat} (hk : 0 < k) (h : n < 10 ^ k) : (decimal n).length ≤ k :=
  (length_decimal_le_iff hk).mpr h

/-- A number is plain, and so are all numbers below. -/
theorem plain_decimal {n k : Nat} (hk : 0 < k) (h : n < 10 ^ k) : PlainWithin k (decimal n) :=
  plain_of_number (length_decimal hk h) (decimal_mem n)

theorem plain_decimalInt {z : Int} {k : Nat} (hk : 0 < k) (h : z.natAbs < 10 ^ k) :
    PlainWithin (k + 1) (decimalInt z) := by
  have hlen := length_decimal hk h
  unfold decimalInt
  split
  · apply plain_of_number
    · exact Nat.succ_le_succ hlen
    · intro b hb
      rcases List.mem_cons.mp hb with rfl | hb
      · decide
      · exact decimal_mem _ b hb
  · exact plain_of_number (Nat.le_succ_of_le hlen) (decimal_mem _)

theorem plain_queryId (id : UInt64) : PlainWithin 20 (decimal id.toNat) :=
  plain_decimal (by decide) (Nat.lt_of_lt_of_le id.toNat_lt (by decide))

theorem plain_pid (pid : Pid) : PlainWithin 10 (decimal pid.val) :=
  plain_decimal (by decide) (Nat.lt_of_lt_of_le pid.isLt (by decide))

theorem plain_nodeId (id : UInt32) : PlainWithin 10 (decimal id.toNat) :=
  plain_decimal (by decide) (Nat.lt_of_lt_of_le id.toNat_lt (by decide))

theorem plain_parentNodeId (id : UInt32) : PlainWithin 11 (decimalInt id.toInt32.toInt) := by
  apply plain_decimalInt (by decide)
  have hlt := Int32.toInt_lt id.toInt32
  have hge := Int32.le_toInt id.toInt32
  omega

theorem plain_metricSuffix (type : MetricType) : PlainWithin 32 (str (metricSuffix type)) := by
  cases type <;> decide +kernel

/-- No two metrics have the same name. -/
theorem metricSuffix_injective {type type' : MetricType}
    (h : str (metricSuffix type) = str (metricSuffix type')) : type = type' := by
  have hmem : ∀ type, type ∈ metricTypes := by
    intro type
    cases type <;> decide +kernel
  have hall : ∀ type ∈ metricTypes, ∀ type' ∈ metricTypes,
      str (metricSuffix type) = str (metricSuffix type') → type = type' := by decide +kernel
  exact hall type (hmem type) type' (hmem type') h

theorem plain_metricHelp (type : MetricType) : PlainWithin 64 (str (metricHelp type)) := by
  cases type <;> decide +kernel

theorem plain_nodeTag (ver : PgVersion) (tag : NodeTag) :
    PlainWithin 32 (str (pwhNodeTagToString ver tag)) := by
  have hname : ∀ name ∈ nodeToName tag, PlainWithin 32 (str name) := by
    unfold nodeToName
    split <;> decide +kernel
  have hinline : ∀ name ∈ pwhNodeTagToStringInline ver tag, PlainWithin 32 (str name) := by
    unfold pwhNodeTagToStringInline
    split <;> decide +kernel
  unfold pwhNodeTagToString
  split
  · rename_i name h
    exact hname name h
  · cases h : pwhNodeTagToStringInline ver tag with
    | none => decide +kernel
    | some name => exact hinline name h

section

variable {D : Type} [CDouble D]

theorem plain_valueBuf (type : MetricType) (v : MetricValue D) :
    PlainWithin 255 (valueBuf type v) := by
  cases v with
  | double x =>
    apply plain_of_number (List.length_take_le _ _)
    intro b hb
    exact CDouble.fixed_mem _ _ b (List.mem_of_mem_take hb)
  | counter n =>
    apply plain_of_number (List.length_take_le _ _)
    intro b hb
    have hb := List.mem_of_mem_take hb
    unfold decimalInt at hb
    split at hb
    · rcases List.mem_cons.mp hb with rfl | hb
      · decide
      · exact decimal_mem _ b hb
    · exact decimal_mem _ b hb

/-! ## 3. What is printed is a line

The `snprintf` formats of `metrics.c`, put together from their literals and arguments, are the
renderings of labelled lines. -/

/-- `formatter_append_metric` prints a line. -/
theorem sampleLine_eq (ver : PgVersion) (x : NodeSample D) :
    sampleLine ver x = (metricLine ver x).render layout ++ [10] := by
  simp only [Line.render, Line.renderLabels, Line.renderLabel, metricLine,
    (plain_queryId x.queryId).escapeText, (plain_nodeId x.nodeId).escapeText,
    (plain_parentNodeId x.parentNodeId).escapeText, (plain_nodeTag ver x.tag).escapeText]
  simp [sampleLine, str, layout]

end

/-- `formatter_append_query_info` prints a line. -/
theorem queryInfo_eq (queryId : UInt64) (pid : Pid) (text : List UInt8) :
    queryInfoPrefix queryId pid ++ layout.escapeText text ++ queryInfoSuffix =
      (queryInfoLine queryId pid text).render layout ++ [10] := by
  simp only [Line.render, Line.renderLabels, Line.renderLabel, queryInfoLine,
    (plain_queryId queryId).escapeText, (plain_pid pid).escapeText]
  simp [queryInfoPrefix, queryInfoSuffix, str, layout]

/-- The HELP and TYPE lines of `pwh_format_openmetrics`. -/
def headerLines : List (List UInt8) :=
  str "# HELP pg_what_is_happening_query_info Query metadata for active queries" ::
    str "# TYPE pg_what_is_happening_query_info gauge" ::
    metricTypes.flatMap fun type =>
      [str "# HELP pg_what_is_happening_active_query_node_" ++ str (metricSuffix type) ++
          str " " ++ str (metricHelp type),
        str "# TYPE pg_what_is_happening_active_query_node_" ++ str (metricSuffix type) ++
          str " gauge"]

/-- Lines as the text they make. -/
def linesText (lines : List (List UInt8)) : List UInt8 := lines.flatMap (· ++ [10])

@[simp] theorem linesText_append (ls ls' : List (List UInt8)) :
    linesText (ls ++ ls') = linesText ls ++ linesText ls' := List.flatMap_append

@[simp] theorem linesText_nil : linesText [] = [] := rfl

@[simp] theorem linesText_cons (l : List UInt8) (ls : List (List UInt8)) :
    linesText (l :: ls) = l ++ [10] ++ linesText ls := rfl

theorem linesText_flatMap {α : Type} (xs : List α) (f : α → List (List UInt8)) :
    linesText (xs.flatMap f) = xs.flatMap fun x => linesText (f x) := List.flatMap_assoc

/-- `pwh_format_openmetrics` begins with the header lines. -/
theorem headerText_eq :
    linesText headerLines = queryInfoHeader ++ metricTypes.flatMap metricHeader := by
  have hinfo : queryInfoHeader =
      str "# HELP pg_what_is_happening_query_info Query metadata for active queries" ++ [10] ++
        (str "# TYPE pg_what_is_happening_query_info gauge" ++ [10]) := by
    simp [queryInfoHeader, str]
  have hmetric : ∀ type, metricHeader type =
      linesText [str "# HELP pg_what_is_happening_active_query_node_" ++
          str (metricSuffix type) ++ str " " ++ str (metricHelp type),
        str "# TYPE pg_what_is_happening_active_query_node_" ++ str (metricSuffix type) ++
          str " gauge"] := by
    intro type
    simp [metricHeader, str]
  rw [headerLines, linesText_cons, linesText_cons, linesText_flatMap, hinfo,
    funext hmetric]
  simp only [List.append_assoc]

/-! ## 4. No line is broken, or ends the string

A newline in a text would end a line too early, and a NUL the page; escaping takes care of the one,
and the texts are C strings. -/

/-- A line of text: neither a newline nor a NUL. -/
def IsLine (l : List UInt8) : Prop := 10 ∉ l ∧ 0 ∉ l

instance (l : List UInt8) : Decidable (IsLine l) := inferInstanceAs (Decidable (_ ∧ _))

theorem PlainWithin.isLine {n : Nat} {s : List UInt8} (h : PlainWithin n s) : IsLine s :=
  ⟨h.newline, h.nul⟩

theorem IsLine.append {s t : List UInt8} (hs : IsLine s) (ht : IsLine t) : IsLine (s ++ t) := by
  constructor
  · exact fun h => (List.mem_append.mp h).elim hs.1 ht.1
  · exact fun h => (List.mem_append.mp h).elim hs.2 ht.2

/-- Escaping writes neither a newline nor a NUL. -/
theorem code_ne {c : UInt8} (h : c = 10 ∨ c = 0) (b : UInt8) : layout.code b ≠ some c := by
  show (if b = 34 then some 34 else if b = 92 then some 92 else if b = 10 then some 110
    else none) ≠ some c
  rcases h with rfl | rfl <;> split_ifs <;> decide

/-- An escaped text is a line of text, whatever newlines it stands for. -/
theorem isLine_escapeText {text : List UInt8} (h : 0 ∉ text) :
    IsLine (layout.escapeText text) := by
  constructor
  · exact Quoting.not_mem_escapeText (by decide) (by decide) (code_ne (.inl rfl)) text
  · intro hb
    rcases Quoting.mem_escapeText hb with hb | ⟨b, hb⟩ | ⟨hb, -⟩
    · exact absurd hb (by decide)
    · exact code_ne (.inr rfl) b hb
    · exact h hb

/-- A line is a line of text when its parts are; its label values need only be free of NULs. -/
theorem isLine_render {l : Line UInt8} (hname : IsLine l.name)
    (hlabels : ∀ x ∈ l.labels, IsLine x.1 ∧ 0 ∉ x.2) (hvalue : IsLine l.value) :
    IsLine (l.render layout) := by
  constructor
  · apply Line.not_mem_render hname.1 _ hvalue.1
    · decide
    · decide
    · decide
    · intro x hx
      exact ⟨(hlabels x hx).1.1, (isLine_escapeText (hlabels x hx).2).1⟩
  · apply Line.not_mem_render hname.2 _ hvalue.2
    · decide
    · decide
    · decide
    · intro x hx
      exact ⟨(hlabels x hx).1.2, (isLine_escapeText (hlabels x hx).2).2⟩

/-- The line of a query, whatever its text is. -/
theorem queryInfoLine_isLine (queryId : UInt64) (pid : Pid) {text : List UInt8} (h : 0 ∉ text) :
    IsLine ((queryInfoLine queryId pid text).render layout) := by
  apply isLine_render
  · exact (by decide : IsLine (str "pg_what_is_happening_query_info"))
  · simp only [queryInfoLine, List.forall_mem_cons]
    exact ⟨⟨by decide, (plain_queryId queryId).nul⟩, ⟨by decide, (plain_pid pid).nul⟩,
      ⟨by decide, h⟩, nofun⟩
  · exact (by decide : IsLine (str "1"))

/-- The header lines. -/
theorem headerLines_isLine : ∀ l ∈ headerLines, IsLine l := by
  have hmetric : ∀ type, ∀ l ∈ [str "# HELP pg_what_is_happening_active_query_node_" ++
      str (metricSuffix type) ++ str " " ++ str (metricHelp type),
      str "# TYPE pg_what_is_happening_active_query_node_" ++ str (metricSuffix type) ++
        str " gauge"], IsLine l := by
    intro type
    have hsuffix := (plain_metricSuffix type).isLine
    have hhelp := (plain_metricHelp type).isLine
    simp only [List.forall_mem_cons]
    refine ⟨?_, ?_, nofun⟩
    · exact (((by decide : IsLine _).append hsuffix).append (by decide)).append hhelp
    · exact ((by decide : IsLine _).append hsuffix).append (by decide)
  intro l hl
  rcases List.mem_cons.mp hl with rfl | hl
  · decide
  rcases List.mem_cons.mp hl with rfl | hl
  · decide
  obtain ⟨type, -, hl⟩ := List.mem_flatMap.mp hl
  exact hmetric type l hl

section

variable {D : Type} [CDouble D]

/-- The line of a node. -/
theorem metricLine_isLine (ver : PgVersion) (x : NodeSample D) :
    IsLine ((metricLine ver x).render layout) := by
  apply isLine_render
  · exact (by decide : IsLine (str "pg_what_is_happening_active_query_node_")).append
      (plain_metricSuffix x.type).isLine
  · simp only [metricLine, List.forall_mem_cons]
    exact ⟨⟨by decide, (plain_queryId x.queryId).nul⟩, ⟨by decide, (plain_nodeId x.nodeId).nul⟩,
      ⟨by decide, (plain_parentNodeId x.parentNodeId).nul⟩,
      ⟨by decide, (plain_nodeTag ver x.tag).nul⟩, nofun⟩
  · exact (plain_valueBuf x.type x.value).isLine

/-! ## 5. Every piece fits

`buffer_append` cuts off what is longer than the buffer it prints to; nothing is. -/

/-- A sample line. -/
theorem length_sampleLine (ver : PgVersion) (x : NodeSample D) :
    (sampleLine ver x).length ≤ 512 := by
  have hsuffix := (plain_metricSuffix x.type).1
  have hid := (plain_queryId x.queryId).1
  have hnode := (plain_nodeId x.nodeId).1
  have hparent := (plain_parentNodeId x.parentNodeId).1
  have htag := (plain_nodeTag ver x.tag).1
  have hvalue := (plain_valueBuf x.type x.value).1
  have hlit : (str "pg_what_is_happening_active_query_node_").length = 39 ∧
      (str "\x7b").length = 1 ∧ (str "query_id=\"").length = 10 ∧
      (str "\",node_id=\"").length = 11 ∧ (str "\",").length = 2 ∧
      (str "parent_node_id=\"").length = 16 ∧ (str "\",node_tag=\"").length = 12 ∧
      (str "\"\x7d ").length = 3 ∧ (str "\n").length = 1 := by decide
  simp only [sampleLine, List.length_append]
  omega

end

/-- The beginning of a query's line. -/
theorem length_queryInfoPrefix (queryId : UInt64) (pid : Pid) :
    (queryInfoPrefix queryId pid).length ≤ 1024 := by
  have hid := (plain_queryId queryId).1
  have hpid := (plain_pid pid).1
  have hlit : (str "pg_what_is_happening_query_info\x7bquery_id=\"").length = 42 ∧
      (str "\",").length = 2 ∧ (str "pid=\"").length = 5 ∧
      (str "\",query_text=\"").length = 14 := by decide
  simp only [queryInfoPrefix, List.length_append]
  omega

theorem length_queryInfoHeader : queryInfoHeader.length ≤ 1024 := by
  have hlit : (str "# HELP pg_what_is_happening_query_info ").length = 39 ∧
      (str "Query metadata for active queries\n").length = 34 ∧
      (str "# TYPE pg_what_is_happening_query_info gauge\n").length = 45 := by decide
  simp only [queryInfoHeader, List.length_append]
  omega

theorem length_metricHeader (type : MetricType) : (metricHeader type).length ≤ 1024 := by
  have hsuffix := (plain_metricSuffix type).1
  have hhelp := (plain_metricHelp type).1
  have hlit : (str "# HELP pg_what_is_happening_active_query_node_").length = 46 ∧
      (str " ").length = 1 ∧ (str "\n").length = 1 ∧
      (str "# TYPE pg_what_is_happening_active_query_node_").length = 46 ∧
      (str " gauge\n").length = 7 := by decide
  simp only [metricHeader, List.length_append]
  omega

end WhatIsHappening
