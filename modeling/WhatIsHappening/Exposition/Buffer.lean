/-
# The output buffer holds what was appended to it

`buffer_append` writes through `vsnprintf` with the room that is left, and adds the length of the
whole text to the offset whether or not it was stored; `buffer_ensure_capacity` doubles the size
at most once.  Both are right because no piece is longer than the 1024 bytes that
`buffer_append` asks for, and the size never falls below `METRIC_BUFFER_SIZE`.
-/
import WhatIsHappening.Exposition.Lines
import Mathlib.Data.List.GetD

namespace WhatIsHappening

open LabelledText

namespace FormatterBuffer

/-- The buffer holds the text, with room for at least a NUL behind it. -/
structure Holds (buf : FormatterBuffer) (text : List UInt8) : Prop where
  offset : buf.offset = text.length
  room : buf.offset < buf.size
  size : METRIC_BUFFER_SIZE ≤ buf.size
  data : ∀ k, k < text.length → buf.data k = text.getD k 0

/-- ...and a NUL is behind it. -/
structure HoldsString (buf : FormatterBuffer) (text : List UInt8) : Prop extends
    buf.Holds text where
  terminated : buf.data buf.offset = 0

variable {buf : FormatterBuffer} {text s : List UInt8}

theorem holds_init (palloced : Nat → UInt8) : (init palloced).Holds [] where
  offset := rfl
  room := (by decide : 0 < METRIC_BUFFER_SIZE)
  size := Nat.le_refl _
  data := nofun

/-- One doubling is enough. -/
theorem Holds.ensureCapacity (h : buf.Holds text) {needed : Nat} (hn : needed ≤ 1024) :
    (buf.ensureCapacity needed).Holds text ∧
      (buf.ensureCapacity needed).offset + needed < (buf.ensureCapacity needed).size := by
  have hsize : 65536 ≤ buf.size := h.size
  have hroom : buf.offset < buf.size := h.room
  unfold FormatterBuffer.ensureCapacity
  split
  · constructor
    · constructor
      · exact h.offset
      · show buf.offset < buf.size * 2
        omega
      · show 65536 ≤ buf.size * 2
        omega
      · exact h.data
    · show buf.offset + needed < buf.size * 2
      omega
  · rename_i hlt
    exact ⟨h, Nat.lt_of_not_le hlt⟩

/-- What `vsnprintf` leaves in front of the text, in the text and behind it. -/
theorem vsnprintf_lt {data : Nat → UInt8} {at_ n k : Nat} (h : k < at_) :
    vsnprintf data at_ n s k = data k := by
  unfold vsnprintf
  split
  · rfl
  · exact if_pos h

theorem vsnprintf_fits {data : Nat → UInt8} {at_ n k : Nat} (hn : s.length < n)
    (hk : k < s.length) : vsnprintf data at_ n s (at_ + k) = s.getD k 0 := by
  have htake : s.take (n - 1) = s := List.take_of_length_le (by omega)
  simp only [vsnprintf, if_neg (Nat.ne_of_gt (Nat.lt_of_le_of_lt (Nat.zero_le _) hn)), htake]
  rw [if_neg (by omega), if_pos (by omega), Nat.add_sub_cancel_left]

theorem vsnprintf_end {data : Nat → UInt8} {at_ n : Nat} (hn : s.length < n) :
    vsnprintf data at_ n s (at_ + s.length) = 0 := by
  have htake : s.take (n - 1) = s := List.take_of_length_le (by omega)
  simp only [vsnprintf, if_neg (Nat.ne_of_gt (Nat.lt_of_le_of_lt (Nat.zero_le _) hn)), htake]
  rw [if_neg (by omega), if_neg (by omega)]
  exact if_pos trivial

/-- **A piece of at most 1024 bytes is appended whole**, and leaves the text terminated. -/
theorem Holds.append (h : buf.Holds text) (hs : s.length ≤ 1024) :
    (buf.append s).HoldsString (text ++ s) := by
  obtain ⟨hcap, hroom⟩ := h.ensureCapacity (Nat.le_refl 1024)
  have hoff : (buf.append s).offset = (buf.ensureCapacity 1024).offset + s.length := by
    show (if 0 < s.length then (buf.ensureCapacity 1024).offset + s.length
      else (buf.ensureCapacity 1024).offset) = _
    split <;> omega
  have hfits : s.length < (buf.ensureCapacity 1024).size - (buf.ensureCapacity 1024).offset := by
    omega
  constructor
  · constructor
    · rw [hoff, hcap.offset, List.length_append]
    · rw [hoff]
      show _ < (buf.ensureCapacity 1024).size
      omega
    · exact hcap.size
    · intro k hk
      show vsnprintf (buf.ensureCapacity 1024).data (buf.ensureCapacity 1024).offset _ s k = _
      rw [List.length_append] at hk
      rcases Nat.lt_or_ge k text.length with hlt | hge
      · rw [vsnprintf_lt (by rw [hcap.offset]; exact hlt), hcap.data k hlt,
          List.getD_append _ _ _ _ hlt]
      · obtain ⟨d, rfl⟩ := Nat.exists_eq_add_of_le hge
        rw [← hcap.offset, vsnprintf_fits hfits (by omega), hcap.offset,
          List.getD_append_right _ _ _ _ (Nat.le_add_right _ _), Nat.add_sub_cancel_left]
  · show vsnprintf (buf.ensureCapacity 1024).data (buf.ensureCapacity 1024).offset _ s
      (buf.append s).offset = 0
    rw [hoff, vsnprintf_end hfits]

/-- The `default` branch of `buffer_append_escaped`. -/
def store (buf : FormatterBuffer) (b : UInt8) : FormatterBuffer :=
  { buf.ensureCapacity 1 with
    data := Function.update (buf.ensureCapacity 1).data (buf.ensureCapacity 1).offset b
    offset := (buf.ensureCapacity 1).offset + 1 }

/-- One byte is stored without `vsnprintf`; nothing terminates the text then. -/
theorem Holds.store (h : buf.Holds text) (b : UInt8) : (buf.store b).Holds (text ++ [b]) := by
  obtain ⟨hcap, hroom⟩ := h.ensureCapacity (show 1 ≤ 1024 by decide)
  constructor
  · show (buf.ensureCapacity 1).offset + 1 = (text ++ [b]).length
    rw [hcap.offset, List.length_append, List.length_singleton]
  · exact hroom
  · exact hcap.size
  · intro k hk
    show Function.update (buf.ensureCapacity 1).data (buf.ensureCapacity 1).offset b k = _
    rw [List.length_append, List.length_singleton] at hk
    rcases Nat.lt_or_ge k text.length with hlt | hge
    · rw [Function.update_of_ne (by rw [hcap.offset]; omega), hcap.data k hlt,
        List.getD_append _ _ _ _ hlt]
    · have hk : k = text.length := by omega
      rw [hk, hcap.offset, Function.update_self, List.getD_append_right _ _ _ _ (Nat.le_refl _),
        Nat.sub_self]
      rfl

theorem Holds.appendPlain (h : buf.Holds text) {b : UInt8} (hq : b ≠ 34) (he : b ≠ 92)
    (hn : b ≠ 10) : (buf.appendEscapedByte b).Holds (text ++ [b]) := by
  rw [appendEscapedByte, if_neg hq, if_neg he, if_neg hn]
  exact h.store b

/-- **`buffer_append_escaped` appends the escaped text.** -/
theorem Holds.appendEscaped (h : buf.Holds text) (s : List UInt8) :
    (buf.appendEscaped s).Holds (text ++ layout.escapeText s) := by
  induction s generalizing buf text with
  | nil => simpa [FormatterBuffer.appendEscaped] using h
  | cons b s ih =>
    have hone : (buf.appendEscapedByte b).Holds (text ++ layout.escapeOne b) := by
      by_cases hq : b = 34
      · subst hq
        exact (h.append (s := str "\\\"") (by decide)).toHolds
      by_cases he : b = 92
      · subst he
        exact (h.append (s := str "\\\\") (by decide)).toHolds
      by_cases hn : b = 10
      · subst hn
        exact (h.append (s := str "\\n") (by decide)).toHolds
      have hcode : layout.code b = none := by
        show (if b = 34 then some 34 else if b = 92 then some 92 else if b = 10 then some 110
          else none) = none
        rw [if_neg hq, if_neg he, if_neg hn]
      rw [Quoting.escapeOne_of_none hcode]
      exact h.appendPlain hq he hn
    rw [Quoting.escapeText_cons, ← List.append_assoc]
    exact ih hone

/-- The buffer read as a C string is the text it holds. -/
theorem HoldsString.cString (h : buf.HoldsString text) (hnul : 0 ∉ text) :
    buf.cString = text := by
  obtain ⟨n, hn⟩ : ∃ n, buf.size = text.length + (n + 1) :=
    ⟨buf.size - text.length - 1, by have := h.room; have := h.offset; omega⟩
  have htext : (List.range text.length).map buf.data = text := by
    apply List.ext_getElem
    · rw [List.length_map, List.length_range]
    · intro k _ hk
      rw [List.getElem_map, List.getElem_range, h.data k hk, List.getD_eq_getElem _ _ hk]
  have hall : ∀ b ∈ text, decide (b ≠ 0) = true := by
    intro b hb
    exact decide_eq_true (ne_of_mem_of_not_mem hb hnul)
  have hend : buf.data text.length = 0 := by rw [← h.offset]; exact h.terminated
  rw [FormatterBuffer.cString, hn, List.range_add, List.map_append, htext,
    List.takeWhile_append_of_pos hall, List.range_succ_eq_map]
  simp [hend]

end FormatterBuffer

end WhatIsHappening
