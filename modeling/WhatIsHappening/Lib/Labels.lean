/-
# Labelled lines

Text in lines, each with a name, quoted labels and a value:

    name{key="value",key="value"} rest

A value may contain anything, so it is written with escapes: an `escape` and a code letter stand
for each symbol that has one.  `Quoting` is the table of escapes; its fields are what a reader
needs to undo them.  The two results are `split_escape`, where a quoted value ends, and
`parse_render`, that a line is read back as it was written.

Nothing here is about bytes: the alphabet is any type with decidable equality.
-/
import Mathlib.Data.List.TakeWhile

namespace LabelledText

variable {α : Type}

/-! ## 1. Quoting -/

/-- A table of escapes: `code a` is the letter that stands for `a` after an `escape`. -/
structure Quoting (α : Type) where
  quote : α
  escape : α
  code : α → Option α
  decode : α → Option α
  decode_code : ∀ {a b}, code a = some b → decode b = some a
  quote_coded : code quote ≠ none
  escape_coded : code escape ≠ none

namespace Quoting

variable (q : Quoting α)

/-- One symbol of a quoted text. -/
def escapeOne (a : α) : List α :=
  match q.code a with
  | some b => [q.escape, b]
  | none => [a]

/-- A text with its escapes. -/
def escapeText (text : List α) : List α := text.flatMap q.escapeOne

variable {q}

@[simp] theorem escapeText_nil : q.escapeText [] = [] := rfl

@[simp] theorem escapeText_cons (a : α) (text : List α) :
    q.escapeText (a :: text) = q.escapeOne a ++ q.escapeText text := rfl

theorem escapeOne_of_none {a : α} (h : q.code a = none) : q.escapeOne a = [a] := by
  rw [escapeOne, h]

theorem escapeOne_of_some {a b : α} (h : q.code a = some b) :
    q.escapeOne a = [q.escape, b] := by
  rw [escapeOne, h]

theorem ne_quote_of_none {a : α} (h : q.code a = none) : a ≠ q.quote := by
  rintro rfl
  exact q.quote_coded h

theorem ne_escape_of_none {a : α} (h : q.code a = none) : a ≠ q.escape := by
  rintro rfl
  exact q.escape_coded h

/-- The only symbols of an escaped text are the escape, code letters and symbols without one. -/
theorem mem_escapeText {text : List α} {b : α} (h : b ∈ q.escapeText text) :
    b = q.escape ∨ (∃ a, q.code a = some b) ∨ (b ∈ text ∧ q.code b = none) := by
  obtain ⟨a, ha, hb⟩ := List.mem_flatMap.mp h
  cases hc : q.code a with
  | none =>
    rw [escapeOne_of_none hc, List.mem_singleton] at hb
    subst hb
    exact .inr (.inr ⟨ha, hc⟩)
  | some c =>
    rw [escapeOne_of_some hc] at hb
    simp only [List.mem_cons, List.not_mem_nil, or_false] at hb
    rcases hb with rfl | rfl
    · exact .inl rfl
    · exact .inr (.inl ⟨a, hc⟩)

/-- A symbol that has a code, and is not a code letter, does not stand in an escaped text. -/
theorem not_mem_escapeText {a : α} (h : q.code a ≠ none) (he : a ≠ q.escape)
    (hl : ∀ b, q.code b ≠ some a) (text : List α) : a ∉ q.escapeText text := by
  intro ha
  rcases mem_escapeText ha with rfl | ⟨b, hb⟩ | ⟨-, hc⟩
  · exact he rfl
  · exact hl b hb
  · exact h hc

/-- A text without symbols that have a code is written as it is. -/
theorem escapeText_plain {text : List α} (h : ∀ a ∈ text, q.code a = none) :
    q.escapeText text = text := by
  induction text with
  | nil => rfl
  | cons a text ih =>
    rw [escapeText_cons, escapeOne_of_none (h a List.mem_cons_self),
      ih fun b hb => h b (List.mem_cons_of_mem a hb)]
    rfl

/-! ### Reading -/

variable [DecidableEq α] (q)

/-- What stands before the first quote that no escape precedes, and what follows it. -/
def split : List α → Option (List α × List α)
  | [] => none
  | a :: rest =>
    if a = q.quote then some ([], rest)
    else if a = q.escape then
      match rest with
      | [] => none
      | b :: rest => (split rest).map fun r => (a :: b :: r.1, r.2)
    else (split rest).map fun r => (a :: r.1, r.2)

/-- A text without its escapes. -/
def unescape : List α → Option (List α)
  | [] => some []
  | a :: rest =>
    if a = q.escape then
      match rest with
      | [] => none
      | b :: rest => (q.decode b).bind fun c => (unescape rest).map (c :: ·)
    else (unescape rest).map (a :: ·)

/-- A quoted value, and what follows it. -/
def readQuoted (input : List α) : Option (List α × List α) :=
  (q.split input).bind fun r => (q.unescape r.1).map fun text => (text, r.2)

variable {q}

theorem split_quote (rest : List α) : q.split (q.quote :: rest) = some ([], rest) := by
  rw [split.eq_def]
  exact if_pos rfl

theorem split_plain {a : α} (hq : a ≠ q.quote) (he : a ≠ q.escape) (rest : List α) :
    q.split (a :: rest) = (q.split rest).map fun r => (a :: r.1, r.2) := by
  rw [split.eq_def]
  simp only [if_neg hq, if_neg he]

theorem split_escaped (h : q.escape ≠ q.quote) (b : α) (rest : List α) :
    q.split (q.escape :: b :: rest) =
      (q.split rest).map fun r => (q.escape :: b :: r.1, r.2) := by
  rw [split.eq_def]
  simp only [if_neg h, if_true]

theorem unescape_plain {a : α} (h : a ≠ q.escape) (rest : List α) :
    q.unescape (a :: rest) = (q.unescape rest).map (a :: ·) := by
  rw [unescape.eq_def]
  simp only [if_neg h]

theorem unescape_escaped (b : α) (rest : List α) :
    q.unescape (q.escape :: b :: rest) =
      (q.decode b).bind fun c => (q.unescape rest).map (c :: ·) := by
  rw [unescape.eq_def]
  simp only [if_true]

/-- **A quoted value ends where its text does.** -/
theorem split_escape (h : q.escape ≠ q.quote) (text rest : List α) :
    q.split (q.escapeText text ++ q.quote :: rest) = some (q.escapeText text, rest) := by
  induction text with
  | nil => exact split_quote rest
  | cons a text ih =>
    cases hc : q.code a with
    | none =>
      rw [escapeText_cons, escapeOne_of_none hc, List.singleton_append, List.cons_append,
        split_plain (ne_quote_of_none hc) (ne_escape_of_none hc), ih]
      rfl
    | some b =>
      rw [escapeText_cons, escapeOne_of_some hc, List.append_assoc, List.cons_append,
        List.singleton_append, split_escaped h, ih]
      rfl

/-- **Undoing the escapes gives the text back.** -/
theorem unescape_escape (text : List α) : q.unescape (q.escapeText text) = some text := by
  induction text with
  | nil => rfl
  | cons a text ih =>
    cases hc : q.code a with
    | none =>
      rw [escapeText_cons, escapeOne_of_none hc, List.singleton_append,
        unescape_plain (ne_escape_of_none hc), ih]
      rfl
    | some b =>
      rw [escapeText_cons, escapeOne_of_some hc, List.cons_append, List.singleton_append,
        unescape_escaped, q.decode_code hc, ih]
      rfl

theorem readQuoted_escape (h : q.escape ≠ q.quote) (text rest : List α) :
    q.readQuoted (q.escapeText text ++ q.quote :: rest) = some (text, rest) := by
  rw [readQuoted, split_escape h, Option.bind_some, unescape_escape, Option.map_some]

end Quoting

/-! ## 2. Lines -/

/-- The delimiters of a line, with its quoting. -/
structure Layout (α : Type) extends Quoting α where
  opening : α
  closing : α
  equals : α
  comma : α
  space : α
  escape_ne_quote : escape ≠ quote
  closing_ne_comma : closing ≠ comma

/-- A line: a metric with its labels, and its value. -/
@[ext] structure Line (α : Type) where
  name : List α
  labels : List (List α × List α)
  value : List α

namespace Line

variable (f : Layout α)

/-- `key="value"`. -/
def renderLabel (label : List α × List α) : List α :=
  label.1 ++ f.equals :: f.quote :: (f.escapeText label.2 ++ [f.quote])

/-- The labels and what closes them. -/
def renderLabels : List (List α × List α) → List α
  | [] => [f.closing]
  | [label] => renderLabel f label ++ [f.closing]
  | label :: labels => renderLabel f label ++ f.comma :: renderLabels labels

/-- The text of a line. -/
def render (l : Line α) : List α :=
  l.name ++ f.opening :: (renderLabels f l.labels ++ f.space :: l.value)

/-- A line whose parts are free of the delimiters that end them, and that has a label. -/
structure WellFormed (l : Line α) : Prop where
  name : f.opening ∉ l.name
  keys : ∀ x ∈ l.labels, f.equals ∉ x.1
  labels : l.labels ≠ []

variable {f}

theorem renderLabels_cons {label : List α × List α} {labels : List (List α × List α)}
    (h : labels ≠ []) :
    renderLabels f (label :: labels) = renderLabel f label ++ f.comma :: renderLabels f labels := by
  cases labels with
  | nil => exact absurd rfl h
  | cons l ls => rfl

/-- Each label takes some of the line. -/
theorem length_le_renderLabels (labels : List (List α × List α)) :
    labels.length ≤ (renderLabels f labels).length := by
  induction labels with
  | nil => exact Nat.zero_le _
  | cons label labels ih =>
    by_cases hl : labels = []
    · subst hl
      simp [renderLabels]
    · rw [renderLabels_cons hl]
      simp only [List.length_cons, List.length_append]
      omega

theorem not_mem_renderLabels {labels : List (List α × List α)} {a : α}
    (h : ∀ x ∈ labels, a ∉ x.1 ∧ a ∉ f.escapeText x.2)
    (hd : a ∉ [f.closing, f.equals, f.comma, f.quote]) : a ∉ renderLabels f labels := by
  simp only [List.mem_cons, List.not_mem_nil, or_false, not_or] at hd
  obtain ⟨hclosing, hequals, hcomma, hquote⟩ := hd
  induction labels with
  | nil => exact List.not_mem_cons_of_ne_of_not_mem hclosing List.not_mem_nil
  | cons label labels ih =>
    obtain ⟨hkey, hvalue⟩ := h label List.mem_cons_self
    have hlabel : a ∉ renderLabel f label := by
      simp [renderLabel, hkey, hvalue, hequals, hquote]
    by_cases hl : labels = []
    · subst hl
      simp [renderLabels, hlabel, hclosing]
    · rw [renderLabels_cons hl]
      simp [hlabel, hcomma, ih fun x hx => h x (List.mem_cons_of_mem _ hx)]

/-- A symbol is in a line only if it is in one of its parts, or a delimiter. -/
theorem not_mem_render {l : Line α} {a : α} (hname : a ∉ l.name)
    (hlabels : ∀ x ∈ l.labels, a ∉ x.1 ∧ a ∉ f.escapeText x.2) (hvalue : a ∉ l.value)
    (hd : a ∉ [f.closing, f.equals, f.comma, f.quote]) (ho : a ≠ f.opening) (hs : a ≠ f.space) :
    a ∉ l.render f := by
  have := not_mem_renderLabels hlabels hd
  simp [render, hname, hvalue, ho, hs, this]

/-! ### Reading lines -/

variable [DecidableEq α] (f)

/-- Read one label, and what follows its closing quote. -/
def parseLabel (input : List α) : Option ((List α × List α) × List α) :=
  match input.dropWhile (· ≠ f.equals) with
  | _ :: quote :: rest =>
    if quote = f.quote then
      (f.readQuoted rest).map fun r => ((input.takeWhile (· ≠ f.equals), r.1), r.2)
    else none
  | _ => none

/-- Read labels up to the one that closes the list; `fuel` bounds their number. -/
def parseLabels : (fuel : Nat) → List α → Option (List (List α × List α) × List α)
  | 0, _ => none
  | fuel + 1, input =>
    (parseLabel f input).bind fun r =>
      match r.2 with
      | [] => none
      | a :: rest =>
        if a = f.closing then some ([r.1], rest)
        else if a = f.comma then (parseLabels fuel rest).map fun s => (r.1 :: s.1, s.2)
        else none

/-- Read a line. -/
def parse (input : List α) : Option (Line α) :=
  (parseLabels f input.length (input.dropWhile (· ≠ f.opening)).tail).bind fun r =>
    match r.2 with
    | [] => none
    | a :: value =>
      if a = f.space then some ⟨input.takeWhile (· ≠ f.opening), r.1, value⟩ else none

variable {f}

/-- Symbols up to a delimiter they do not contain. -/
theorem takeWhile_delimited {a : α} {s rest : List α} (h : a ∉ s) :
    (s ++ a :: rest).takeWhile (· ≠ a) = s := by
  have hs : ∀ b ∈ s, decide (b ≠ a) = true := by
    intro b hb
    exact decide_eq_true (ne_of_mem_of_not_mem hb h)
  rw [List.takeWhile_append_of_pos hs, List.takeWhile_cons_of_neg (by simp), List.append_nil]

theorem dropWhile_delimited {a : α} {s rest : List α} (h : a ∉ s) :
    (s ++ a :: rest).dropWhile (· ≠ a) = a :: rest := by
  have hs : ∀ b ∈ s, decide (b ≠ a) = true := by
    intro b hb
    exact decide_eq_true (ne_of_mem_of_not_mem hb h)
  rw [List.dropWhile_append_of_pos hs, List.dropWhile_cons_of_neg (by simp)]

theorem parseLabel_render {label : List α × List α} (h : f.equals ∉ label.1) (rest : List α) :
    parseLabel f (renderLabel f label ++ rest) = some (label, rest) := by
  have hinput : renderLabel f label ++ rest =
      label.1 ++ f.equals :: (f.quote :: (f.escapeText label.2 ++ f.quote :: rest)) := by
    simp only [renderLabel, List.append_assoc, List.cons_append, List.nil_append]
  rw [hinput, parseLabel, dropWhile_delimited h, takeWhile_delimited h]
  simp only [if_true, Quoting.readQuoted_escape f.escape_ne_quote, Option.map_some]

theorem parseLabels_render {labels : List (List α × List α)}
    (h : ∀ x ∈ labels, f.equals ∉ x.1) (hne : labels ≠ []) (rest : List α) :
    ∀ fuel, labels.length ≤ fuel →
      parseLabels f fuel (renderLabels f labels ++ rest) = some (labels, rest) := by
  induction labels with
  | nil => exact absurd rfl hne
  | cons label labels ih =>
    intro fuel hfuel
    obtain ⟨fuel, rfl⟩ : ∃ n, fuel = n + 1 := Nat.exists_eq_add_of_le' (Nat.le_trans
      (Nat.succ_le_succ (Nat.zero_le _)) hfuel)
    have hlabel : f.equals ∉ label.1 := h label List.mem_cons_self
    by_cases hl : labels = []
    · subst hl
      rw [renderLabels, List.append_assoc, parseLabels, parseLabel_render hlabel]
      simp only [Option.bind_some, List.singleton_append, if_true]
    · have htail := ih (fun x hx => h x (List.mem_cons_of_mem _ hx)) hl fuel
        (Nat.le_of_succ_le_succ hfuel)
      rw [renderLabels_cons hl, List.append_assoc, parseLabels, parseLabel_render hlabel]
      simp only [Option.bind_some, List.cons_append, if_neg f.closing_ne_comma.symm, if_true,
        htail, Option.map_some]

/-- **A line is read back as it was written.** -/
theorem parse_render {l : Line α} (h : l.WellFormed f) : parse f (l.render f) = some l := by
  have hfuel : l.labels.length ≤ (l.render f).length := by
    have := length_le_renderLabels (f := f) l.labels
    simp only [render, List.length_append, List.length_cons]
    omega
  rw [parse, render, dropWhile_delimited h.name, takeWhile_delimited h.name, List.tail_cons,
    parseLabels_render h.keys h.labels _ _ (by rw [render] at hfuel; exact hfuel)]
  simp only [Option.bind_some, if_true]

/-- A line without labels is not read. -/
theorem parse_of_not_mem {input : List α} (h : f.opening ∉ input) : parse f input = none := by
  have hrest : input.dropWhile (· ≠ f.opening) = [] := by
    apply List.dropWhile_eq_nil_iff.mpr
    intro a ha
    exact decide_eq_true (ne_of_mem_of_not_mem ha h)
  rw [parse, hrest, List.tail_nil]
  cases input.length with
  | zero => rfl
  | succ n => rfl

end Line

/-! ## 3. Text in lines -/

/-- Lines, each with a terminator, split into themselves and what follows the last one. -/
theorem splitOn_lines [DecidableEq α] {a : α} (lines : List (List α)) (h : ∀ l ∈ lines, a ∉ l) :
    (lines.flatMap (· ++ [a])).splitOn a = lines ++ [[]] := by
  induction lines with
  | nil => exact List.splitOn_nil a
  | cons l lines ih =>
    have hl : a ∉ l := h l List.mem_cons_self
    rw [List.flatMap_cons, List.append_assoc, List.singleton_append,
      List.splitOn_append_cons_self_of_not_mem hl,
      ih fun x hx => h x (List.mem_cons_of_mem _ hx)]
    rfl

end LabelledText
