/-
# Texts of marked characters, and UTF-8

In UTF-8 a byte says whether it begins a character.  That alone tells where a text may be cut:
`isText_take_iff` is for any code whose words are marked so, and `utf8` is one of them.
-/
import Mathlib.Data.List.TakeWhile

namespace Utf8

variable {α β : Type}

/-! ## 1. Marked codes -/

/-- A code whose words show where they begin, and of which none is the beginning of a longer
one. -/
structure MarkedCode (β α : Type) where
  encode : β → List α
  begins : α → Bool
  marked : ∀ x, ∃ a l, encode x = a :: l ∧ begins a = true ∧ ∀ b ∈ l, begins b = false
  whole : ∀ {x y l}, encode y = encode x ++ l → l = []

namespace MarkedCode

variable (c : MarkedCode β α)

/-- A text: words one after the other. -/
def IsText (s : List α) : Prop := ∃ xs : List β, s = xs.flatMap c.encode

variable {c} {s t : List α}

theorem isText_nil : c.IsText [] := ⟨[], rfl⟩

theorem isText_encode (x : β) : c.IsText (c.encode x) := ⟨[x], by simp⟩

theorem IsText.append (hs : c.IsText s) (ht : c.IsText t) : c.IsText (s ++ t) := by
  obtain ⟨xs, rfl⟩ := hs
  obtain ⟨ys, rfl⟩ := ht
  exact ⟨xs ++ ys, List.flatMap_append.symm⟩

/-- What rewrites words to texts rewrites texts to texts. -/
theorem IsText.flatMap {f : α → List α} (hs : c.IsText s)
    (hf : ∀ x, c.IsText ((c.encode x).flatMap f)) : c.IsText (s.flatMap f) := by
  obtain ⟨xs, rfl⟩ := hs
  induction xs with
  | nil => exact isText_nil
  | cons x xs ih =>
    rw [List.flatMap_cons, List.flatMap_append]
    exact (hf x).append ih

/-- A part of a word that begins it is no text, unless it is the whole word. -/
theorem IsText.eq_encode {x : β} {l : List α} (h : c.IsText s) (hs : s ≠ [])
    (hx : c.encode x = s ++ l) : l = [] := by
  obtain ⟨_ | ⟨y, ys⟩, rfl⟩ := h
  · exact absurd rfl hs
  obtain ⟨a, m, ha, -, hm⟩ := c.marked x
  obtain ⟨b, k, hb, -, -⟩ := c.marked y
  rw [List.flatMap_cons, List.append_assoc] at hx
  cases ys with
  | nil => exact c.whole hx
  | cons z zs =>
    -- the second word would begin inside the word
    obtain ⟨d, n, hd, hbegins, -⟩ := c.marked z
    rw [ha, hb, List.flatMap_cons, hd] at hx
    have hmem : d ∈ m := by
      rw [List.cons_append, List.cons.injEq] at hx
      rw [hx.2]
      simp
    rw [hm d hmem] at hbegins
    cases hbegins

/-- The rest of a text behind a word. -/
theorem IsText.of_encode_append {x : β} (h : c.IsText (c.encode x ++ t)) : c.IsText t := by
  obtain ⟨_ | ⟨y, ys⟩, h⟩ := h
  · obtain ⟨a, l, hx, -⟩ := c.marked x
    rw [hx] at h
    cases h
  rw [List.flatMap_cons] at h
  rcases List.append_eq_append_iff.mp h with ⟨l, hy, ht⟩ | ⟨l, hx, ht⟩
  · obtain rfl := c.whole hy
    exact ⟨ys, ht⟩
  · obtain rfl := c.whole hx
    exact ⟨ys, ht.symm⟩

/-- **Where a text may be cut**: a beginning of it is a text exactly when a word begins behind
it. -/
theorem isText_take_iff (h : c.IsText s) (n : Nat) :
    c.IsText (s.take n) ↔ ∀ a, s[n]? = some a → c.begins a = true := by
  obtain ⟨xs, rfl⟩ := h
  induction xs generalizing n with
  | nil => exact ⟨fun _ => by simp, fun _ => by simpa using isText_nil⟩
  | cons x xs ih =>
    obtain ⟨a, l, hx, ha, hl⟩ := c.marked x
    rw [List.flatMap_cons]
    rcases Nat.lt_or_ge n (c.encode x).length with hlt | hge
    · rw [List.take_append_of_le_length (Nat.le_of_lt hlt), List.getElem?_append_left hlt]
      rcases Nat.eq_zero_or_pos n with rfl | hpos
      · refine ⟨fun _ b hb => ?_, fun _ => isText_nil⟩
        rw [hx] at hb
        cases hb
        exact ha
      · -- the cut is inside a word
        constructor
        · intro htext
          have hsplit := List.take_append_drop n (c.encode x)
          have hne : (c.encode x).take n ≠ [] := by
            rw [hx, ← Nat.succ_pred hpos.ne']
            exact List.cons_ne_nil _ _
          have hrest := htext.eq_encode hne hsplit.symm
          rw [List.drop_eq_nil_iff] at hrest
          omega
        · intro hbegins
          have hmem : (c.encode x)[n] ∈ l := by
            obtain ⟨k, rfl⟩ := Nat.exists_eq_add_of_lt hpos
            simp only [hx, Nat.zero_add, List.getElem_cons_succ]
            exact List.getElem_mem _
          have hnot := hbegins _ (List.getElem?_eq_getElem hlt)
          rw [hl _ hmem] at hnot
          cases hnot
    · obtain ⟨k, rfl⟩ := Nat.exists_eq_add_of_le hge
      rw [List.take_length_add_append, List.getElem?_append_right (Nat.le_add_right _ _),
        Nat.add_sub_cancel_left, ← ih k]
      exact ⟨IsText.of_encode_append, (isText_encode x).append⟩

end MarkedCode

/-! ## 2. UTF-8 -/

/-- How many bytes follow the first byte of a character. -/
def bytesAfter (b : UInt8) : Nat :=
  if b.toNat < 192 then 0 else if b.toNat < 224 then 1 else if b.toNat < 240 then 2 else 3

/-- A byte that does not go on with a character. -/
def beginsChar (b : UInt8) : Bool := b.toNat < 128 || 192 ≤ b.toNat

theorem toNat_ofNat {n : Nat} (h : n < 256) : (UInt8.ofNat n).toNat = n := by
  rw [UInt8.toNat_ofNat']
  exact Nat.mod_eq_of_lt h

theorem code_lt (ch : Char) : ch.val.toNat < 1114112 := by
  have h := ch.valid
  simp only [UInt32.isValidChar, Nat.isValidChar] at h
  omega

/-- The bytes of a character: the first says how many follow, and those cannot be taken for a
first. -/
def CharBytes (s : List UInt8) : Prop :=
  ∃ a l, s = a :: l ∧ beginsChar a = true ∧ l.length = bytesAfter a ∧ (l = [] ↔ a.toNat < 128) ∧
    ∀ b ∈ l, 128 ≤ b.toNat ∧ b.toNat < 192

theorem charBytes_one {n : Nat} (h : n < 128) : CharBytes [UInt8.ofNat n] := by
  have ha : (UInt8.ofNat n).toNat = n := toNat_ofNat (by omega)
  generalize UInt8.ofNat n = a at ha
  refine ⟨a, [], rfl, ?_, ?_, ⟨fun _ => by omega, fun _ => rfl⟩, nofun⟩
  · simp only [beginsChar, Bool.or_eq_true, decide_eq_true_eq]
    omega
  · rw [bytesAfter, if_pos (by omega)]
    rfl

theorem charBytes_many {n : Nat} {l : List UInt8} (hlow : 192 ≤ n) (hhigh : n < 256)
    (hlen : l.length = if n < 224 then 1 else if n < 240 then 2 else 3)
    (hl : ∀ b ∈ l, 128 ≤ b.toNat ∧ b.toNat < 192) : CharBytes (UInt8.ofNat n :: l) := by
  have ha : (UInt8.ofNat n).toNat = n := toNat_ofNat hhigh
  generalize UInt8.ofNat n = a at ha
  refine ⟨a, l, rfl, ?_, ?_, ⟨?_, fun _ => by omega⟩, hl⟩
  · simp only [beginsChar, Bool.or_eq_true, decide_eq_true_eq]
    omega
  · rw [bytesAfter, ha, if_neg (by omega), hlen]
  · rintro rfl
    rw [List.length_nil] at hlen
    split_ifs at hlen

theorem utf8EncodeChar_eq (ch : Char) : CharBytes (String.utf8EncodeChar ch) := by
  have hcode := code_lt ch
  unfold String.utf8EncodeChar
  generalize ch.val.toNat = v at hcode
  have htail : ∀ n, 128 ≤ (UInt8.ofNat (n % 64 + 128)).toNat ∧
      (UInt8.ofNat (n % 64 + 128)).toNat < 192 := by
    intro n
    rw [toNat_ofNat (by omega)]
    omega
  dsimp only
  split
  · exact charBytes_one (by omega)
  split
  · refine charBytes_many (by omega) (by omega) (by rw [if_pos (by omega)]; rfl) ?_
    simp only [List.mem_singleton, forall_eq]
    exact htail v
  split
  · refine charBytes_many (by omega) (by omega)
      (by rw [if_neg (by omega), if_pos (by omega)]; rfl) ?_
    simp only [List.mem_cons, List.not_mem_nil, or_false, forall_eq_or_imp, forall_eq]
    exact ⟨htail (v / 64), htail v⟩
  · refine charBytes_many (by omega) (by omega)
      (by rw [if_neg (by omega), if_neg (by omega)]; rfl) ?_
    simp only [List.mem_cons, List.not_mem_nil, or_false, forall_eq_or_imp, forall_eq]
    exact ⟨htail (v / 4096), htail (v / 64), htail v⟩

/-- UTF-8. -/
def utf8 : MarkedCode Char UInt8 where
  encode := String.utf8EncodeChar
  begins := beginsChar
  marked ch := by
    obtain ⟨a, l, hx, ha, -, -, hl⟩ := utf8EncodeChar_eq ch
    refine ⟨a, l, hx, ha, fun b hb => ?_⟩
    have := hl b hb
    simp [beginsChar]
    omega
  whole {x y l} h := by
    obtain ⟨a, m, hx, -, hm, -⟩ := utf8EncodeChar_eq x
    obtain ⟨b, k, hy, -, hk, -⟩ := utf8EncodeChar_eq y
    rw [hx, hy, List.cons_append, List.cons.injEq] at h
    obtain ⟨rfl, rfl⟩ := h
    rw [← hk] at hm
    simpa using hm

/-- A byte of ASCII is a text. -/
theorem isText_ascii {b : UInt8} (h : b.toNat < 128) : utf8.IsText [b] := by
  refine ⟨[Char.ofNat b.toNat], ?_⟩
  have hvalid : b.toNat.isValidChar := .inl (by omega)
  have hval : (Char.ofNat b.toNat).val.toNat = b.toNat := by
    rw [Char.ofNat, dif_pos hvalid]
    rfl
  show [b] = String.utf8EncodeChar (Char.ofNat b.toNat) ++ []
  rw [List.append_nil, String.utf8EncodeChar]
  simp only [hval]
  rw [if_pos (by omega), UInt8.ofNat_toNat]

end Utf8
