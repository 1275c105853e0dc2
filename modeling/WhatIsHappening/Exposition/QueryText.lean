/-
# Where a query text is cut

`query_start_hook` copies the text of a query with `snprintf`, which counts bytes.  On a UTF-8
server the text is UTF-8, and what is left of it is UTF-8 only when the cut falls between two
characters (`stored_text_valid_iff`).
-/
import WhatIsHappening.Backend.Fill
import WhatIsHappening.Exposition.Columns
import WhatIsHappening.Lib.Utf8

namespace WhatIsHappening

open Interleaving Prog LabelledText Utf8

variable {D : Type}

/-! ## 1. Escaping -/

theorem layout_code_of_ge {b : UInt8} (h : 128 ≤ b.toNat) : layout.code b = none := by
  have hne : ∀ c : UInt8, c.toNat < 128 → b ≠ c := by
    rintro c hc rfl
    omega
  show (if b = 34 then some 34 else if b = 92 then some 92 else if b = 10 then some 110
    else none) = none
  rw [if_neg (hne 34 (by decide)), if_neg (hne 92 (by decide)), if_neg (hne 10 (by decide))]

theorem layout_code_lt {a b : UInt8} (h : layout.code a = some b) : b.toNat < 128 := by
  change (if a = 34 then some 34 else if a = 92 then some 92 else if a = 10 then some 110
    else none) = some b at h
  split_ifs at h <;> cases h <;> decide

/-- An escaped character is a text. -/
theorem isText_escapeChar (ch : Char) :
    utf8.IsText ((String.utf8EncodeChar ch).flatMap layout.escapeOne) := by
  obtain ⟨a, l, hch, -, -, hone, hl⟩ := utf8EncodeChar_eq ch
  by_cases ha : a.toNat < 128
  · rw [hch, hone.mpr ha, List.flatMap_singleton]
    cases hcode : layout.code a with
    | none =>
      rw [Quoting.escapeOne_of_none hcode]
      exact isText_ascii ha
    | some b =>
      rw [Quoting.escapeOne_of_some hcode]
      exact (isText_ascii (b := layout.escape) (by decide)).append
        (isText_ascii (layout_code_lt hcode))
  · -- the bytes of a longer character are left alone
    have hplain : ∀ b ∈ String.utf8EncodeChar ch, layout.code b = none := by
      intro b hb
      rw [hch] at hb
      rcases List.mem_cons.mp hb with rfl | hb
      · exact layout_code_of_ge (by omega)
      · exact layout_code_of_ge (hl b hb).1
    have hescape := Quoting.escapeText_plain hplain
    rw [Quoting.escapeText] at hescape
    rw [hescape]
    exact MarkedCode.isText_encode (c := utf8) ch

/-- **Escaping keeps a text valid.** -/
theorem isText_escapeText {text : List UInt8} (h : utf8.IsText text) :
    utf8.IsText (layout.escapeText text) := h.flatMap isText_escapeChar

/-! ## 2. The stored text -/

section Stored

variable [CDouble D] {srv : Server D} {p : Pid}

omit [CDouble D] in
/-- Bytes written one after the other. -/
theorem writeQueryText_solo (be : Nat) : ∀ (ws : List (Nat × UInt8)) (s : State D),
    ∃ t, (writeQueryText be ws).solo (alone srv p) s = some ((), t) ∧
      (t.entries be).queryText = putBytes (s.entries be).queryText ws
  | [], s => ⟨s, rfl, rfl⟩
  | w :: ws, s => by
    obtain ⟨t, ht, htext⟩ := writeQueryText_solo be ws (s.modifyEntry be fun e =>
      { e with queryText := Function.update e.queryText w.1 w.2 })
    refine ⟨t, ht, ?_⟩
    rw [htext, State.entries_modifyEntry_self]
    rfl

omit [CDouble D] in
/-- What the copy of a text leaves, read as a C string. -/
theorem copyQueryText_stores {qd : QueryDesc D} {text : CString} (hq : qd.sourceText = some text)
    (be : Nat) (s : State D) :
    ∃ t, (copyQueryText srv be qd).solo (alone srv p) s = some ((), t) ∧
      (t.entries be).text srv.gucs.maxQueryTextLen =
        text.bytes.take (srv.gucs.maxQueryTextLen - 1) := by
  obtain ⟨t, ht, htext⟩ : ∃ t, (writeQueryText be
      (snprintfWrites srv.gucs.maxQueryTextLen text)).solo (alone srv p) s = some ((), t) ∧ _ :=
    writeQueryText_solo be _ s
  refine ⟨t, by rw [copyQueryText, hq]; exact ht, ?_⟩
  rw [PwhSharedMemoryBackendEntry.text, htext]
  exact text_snprintf srv.gucs.maxQueryTextLen_pos text _

/-- A slot whose text is valid: a beginning of the source that fits, valid as it is stored, in the
row of the view and, escaped, behind what the output buffer holds. -/
structure StoredTextValid (srv : Server D) (text : CString) (be : PwhSharedMemoryBackendEntry D) :
    Prop where
  beginning : be.text srv.gucs.maxQueryTextLen <+: text.bytes
  length : (be.text srv.gucs.maxQueryTextLen).length ≤ srv.gucs.maxQueryTextLen - 1
  valid : utf8.IsText (be.text srv.gucs.maxQueryTextLen)
  row : ∀ j total, utf8.IsText (be.filledRow srv j total).queryText
  label : ∀ (buf : FormatterBuffer) head, buf.Holds head → utf8.IsText head →
    ∃ out, (buf.appendEscaped (be.text srv.gucs.maxQueryTextLen)).Holds out ∧ utf8.IsText out

/-- **Truncation keeps a text valid** exactly where the byte behind the cut, if there is one,
begins a character. -/
theorem stored_text_valid_iff {qd : QueryDesc D} {text : CString} (hq : qd.sourceText = some text)
    (hvalid : utf8.IsText text.bytes) (be : Nat) (s : State D) :
    ∃ t, (copyQueryText srv be qd).solo (alone srv p) s = some ((), t) ∧
      (StoredTextValid srv text (t.entries be) ↔
        ∀ b, text.bytes[srv.gucs.maxQueryTextLen - 1]? = some b → beginsChar b = true) := by
  obtain ⟨t, ht, hstored⟩ :
      ∃ t, (copyQueryText srv be qd).solo (alone srv p) s = some ((), t) ∧ _ :=
    copyQueryText_stores hq be s
  refine ⟨t, ht, ?_⟩
  have hcut := MarkedCode.isText_take_iff hvalid (srv.gucs.maxQueryTextLen - 1)
  rw [← hstored] at hcut
  refine ⟨fun h => hcut.mp h.valid, fun h => ?_⟩
  have htext := hcut.mpr h
  refine ⟨?_, ?_, htext, fun _ _ => htext, fun buf head hbuf hhead =>
    ⟨_, hbuf.appendEscaped _, hhead.append (isText_escapeText htext)⟩⟩
  · rw [hstored]
    exact List.take_prefix _ _
  · rw [hstored, List.length_take]
    exact Nat.min_le_left _ _

end Stored

/-- Sixty-two letters and an é, whose second byte is the 64th. -/
def accentedText : CString where
  bytes := List.replicate 62 97 ++ [195, 169]

/-- Sixty-one letters and an é. -/
def fittingText : CString where
  bytes := List.replicate 61 97 ++ [195, 169]

/-- A query with a text. -/
def textQuery (text : CString) : QueryDesc ℚ where
  planstate := none
  queryId := 1
  totalCost := 0
  sourceText := some text

/-- Where 64 bytes are kept of a text, the é is cut in two. -/
theorem accentedText_cut :
    utf8.IsText accentedText.bytes ∧
      ∃ t, (copyQueryText smallServer 0 (textQuery accentedText)).solo (alone smallServer 1)
          State.init = some ((), t) ∧ ¬ StoredTextValid smallServer accentedText (t.entries 0) := by
  have hvalid : utf8.IsText accentedText.bytes :=
    ⟨List.replicate 62 'a' ++ ['é'], by decide +kernel⟩
  obtain ⟨t, ht, hstored⟩ : ∃ t, (copyQueryText smallServer 0 (textQuery accentedText)).solo
      (alone smallServer 1) State.init = some ((), t) ∧ _ := copyQueryText_stores rfl 0 State.init
  refine ⟨hvalid, t, ht, fun h => ?_⟩
  have htext := h.valid
  rw [hstored] at htext
  have hbegins := (MarkedCode.isText_take_iff hvalid 63).mp htext 169 (by decide)
  cases hbegins

/-- One byte earlier it is kept. -/
theorem fittingText_valid :
    ∃ t, (copyQueryText smallServer 0 (textQuery fittingText)).solo (alone smallServer 1)
        State.init = some ((), t) ∧ StoredTextValid smallServer fittingText (t.entries 0) := by
  have hvalid : utf8.IsText fittingText.bytes :=
    ⟨List.replicate 61 'a' ++ ['é'], by decide +kernel⟩
  obtain ⟨t, ht, hiff⟩ := @stored_text_valid_iff ℚ _ smallServer 1 (textQuery fittingText)
    fittingText rfl hvalid 0 State.init
  exact ⟨t, ht, hiff.mpr (by decide +kernel)⟩

end WhatIsHappening
