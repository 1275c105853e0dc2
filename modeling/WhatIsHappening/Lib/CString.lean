/-
# C strings

The functions of `<string.h>`, `<stdio.h>` and `<stdlib.h>` that programs take requests and
settings apart with, on the bytes of a string before its NUL.  Searching functions give the
position they find instead of a pointer.
-/
import Mathlib.Data.List.TakeWhile
import Mathlib.Data.Nat.Digits.Lemmas

namespace CLib

/-! ## 1. Searching -/

section Search

variable {α : Type} [DecidableEq α]

/-- `strchr(s, c)`. -/
def strchr (s : List α) (c : α) : Option Nat := s.idxOf? c

/-- `memchr(s, c, n)`. -/
def memchr (s : List α) (c : α) (n : Nat) : Option Nat := strchr (s.take n) c

/-- `strrchr(s, c)`. -/
def strrchr : List α → α → Option Nat
  | [], _ => none
  | a :: s, c =>
    match strrchr s c with
    | some i => some (i + 1)
    | none => if a = c then some 0 else none

/-- `strstr(s, sub)`. -/
def strstr : List α → List α → Option Nat
  | [], sub => if sub = [] then some 0 else none
  | a :: s, sub => if sub <+: a :: s then some 0 else (strstr s sub).map (· + 1)

variable {s a b : List α} {c : α} {i n : Nat}

theorem strchr_eq_none : strchr s c = none ↔ c ∉ s := List.idxOf?_eq_none_iff

/-- The first `c` stands behind a part without one. -/
theorem strchr_append (h : c ∉ a) : strchr (a ++ c :: b) c = some a.length := by
  induction a with
  | nil => simp [strchr, List.idxOf?_cons]
  | cons x a ih =>
    obtain ⟨hx, ha⟩ := not_or.mp (mt List.mem_cons.mpr h)
    rw [List.cons_append, strchr, List.idxOf?_cons, if_neg (by simpa using Ne.symm hx)]
    exact congrArg (Option.map (· + 1)) (ih ha)

theorem strchr_eq_some (h : strchr s c = some i) :
    c ∉ s.take i ∧ s = s.take i ++ c :: s.drop (i + 1) ∧ i < s.length := by
  induction s generalizing i with
  | nil => cases h
  | cons x s ih =>
    rw [strchr, List.idxOf?_cons] at h
    split at h
    · cases h
      simp_all
    · rename_i hx
      obtain ⟨j, hj, rfl⟩ := Option.map_eq_some_iff.mp h
      obtain ⟨hmem, hs, hlt⟩ := ih hj
      refine ⟨?_, ?_, Nat.succ_lt_succ hlt⟩
      · rw [List.take_succ_cons, List.mem_cons, not_or]
        exact ⟨fun hc => hx (by simp [hc]), hmem⟩
      · rw [List.take_succ_cons, List.drop_succ_cons, List.cons_append, ← hs]

theorem memchr_append (h : c ∉ a) (hn : a.length < n) :
    memchr (a ++ c :: b) c n = some a.length := by
  have htake : (a ++ c :: b).take n = a ++ c :: b.take (n - a.length - 1) := by
    obtain ⟨k, rfl⟩ : ∃ k, n = a.length + (k + 1) := ⟨n - a.length - 1, by omega⟩
    rw [List.take_length_add_append, List.take_succ_cons]
    congr 3
    omega
  rw [memchr, htake]
  exact strchr_append h

theorem strrchr_eq_none (h : c ∉ s) : strrchr s c = none := by
  induction s with
  | nil => rfl
  | cons x s ih =>
    obtain ⟨hx, hs⟩ := not_or.mp (mt List.mem_cons.mpr h)
    rw [strrchr, ih hs]
    exact if_neg (Ne.symm hx)

/-- The last `c` stands before a part without one. -/
theorem strrchr_append (h : c ∉ b) : strrchr (a ++ c :: b) c = some a.length := by
  induction a with
  | nil =>
    rw [List.nil_append, strrchr, strrchr_eq_none h]
    exact if_pos rfl
  | cons x a ih =>
    rw [List.cons_append, strrchr, ih]
    rfl

/-- A part without the first symbol of a text is passed over. -/
theorem strstr_skip {sub : List α} (h : c ∉ a) :
    strstr (a ++ b) (c :: sub) = (strstr b (c :: sub)).map (· + a.length) := by
  induction a with
  | nil => simp
  | cons x a ih =>
    obtain ⟨hx, ha⟩ := not_or.mp (mt List.mem_cons.mpr h)
    have hprefix : ¬ c :: sub <+: x :: (a ++ b) := fun hp => hx (List.cons_prefix_cons.mp hp).1
    rw [List.cons_append, strstr, if_neg hprefix, ih ha, Option.map_map]
    rfl

/-- A text is found behind a part without its first symbol. -/
theorem strstr_append {sub : List α} (h : c ∉ a) :
    strstr (a ++ (c :: sub ++ b)) (c :: sub) = some a.length := by
  have hhere : strstr (c :: sub ++ b) (c :: sub) = some 0 := if_pos (List.prefix_append _ _)
  rw [strstr_skip h, hhere, Option.map_some, Nat.zero_add]

/-- What is found is the first place where the text stands. -/
theorem strstr_eq_some_iff {sub : List α} : strstr s sub = some i ↔
    i ≤ s.length ∧ sub <+: s.drop i ∧ ∀ j < i, ¬ sub <+: s.drop j := by
  induction s generalizing i with
  | nil =>
    rw [strstr]
    split
    · rename_i hsub
      simp only [Option.some.injEq, List.length_nil, Nat.le_zero_eq, hsub, List.nil_prefix]
      constructor
      · rintro rfl
        exact ⟨rfl, trivial, nofun⟩
      · exact fun h => h.1.symm
    · rename_i hsub
      simp [hsub]
  | cons x s ih =>
    rw [strstr]
    split
    · rename_i hsub
      constructor
      · rintro ⟨⟩
        exact ⟨Nat.zero_le _, hsub, nofun⟩
      · rintro ⟨-, -, hfirst⟩
        cases i with
        | zero => rfl
        | succ i => exact absurd hsub (hfirst 0 (Nat.succ_pos i))
    · rename_i hsub
      cases i with
      | zero => simp [hsub]
      | succ i =>
        rw [Option.map_eq_some_iff]
        constructor
        · rintro ⟨_, hi, ⟨⟩⟩
          obtain ⟨hle, hhere, hfirst⟩ := ih.mp hi
          refine ⟨Nat.succ_le_succ hle, hhere, fun j hj => ?_⟩
          cases j with
          | zero => exact hsub
          | succ j => exact hfirst j (Nat.lt_of_succ_lt_succ hj)
        · rintro ⟨hle, hhere, hfirst⟩
          exact ⟨i, ih.mpr ⟨Nat.le_of_succ_le_succ hle, hhere,
            fun j hj => hfirst (j + 1) (Nat.succ_lt_succ hj)⟩, rfl⟩

end Search

/-! ## 2. Bounded copies -/

section Copy

variable {α : Type}

/-- What `snprintf(buf, n, ...)` leaves in a buffer of `n` bytes for the text `s`. -/
def snprintf (n : Nat) (s : List α) : List α := s.take (n - 1)

theorem snprintf_eq_self {n : Nat} {s : List α} (h : s.length < n) : snprintf n s = s :=
  List.take_of_length_le (by omega)

/-- Only a text that fits is kept. -/
theorem snprintf_eq_self_iff {n : Nat} {s : List α} (hn : 0 < n) :
    snprintf n s = s ↔ s.length < n := by
  constructor
  · intro h
    have hlength := congrArg List.length h
    rw [snprintf, List.length_take] at hlength
    omega
  · exact snprintf_eq_self

/-- A short text is seen through a truncation. -/
theorem snprintf_eq_iff {n : Nat} {s t : List α} (h : t.length + 1 < n) :
    snprintf n s = t ↔ s = t := by
  constructor
  · intro heq
    have hlength := congrArg List.length heq
    rw [snprintf, List.length_take] at hlength
    rw [← heq]
    exact (snprintf_eq_self (by omega)).symm
  · rintro rfl
    exact snprintf_eq_self (by omega)

end Copy

/-! ## 3. Numbers -/

/-- `isspace` in the C locale. -/
def isSpace (b : UInt8) : Bool := b = 32 || (9 ≤ b && b ≤ 13)

/-- `isdigit`. -/
def isDigit (b : UInt8) : Bool := 48 ≤ b && b ≤ 57

/-- The number some decimal digits stand for. -/
def digitsValue (ds : List UInt8) : Nat := ds.foldl (fun n b => n * 10 + (b.toNat - 48)) 0

/-- The sign a number begins with. -/
def signOf : List UInt8 → List UInt8
  | 43 :: _ => [43]
  | 45 :: _ => [45]
  | _ => []

/-- `LONG_MIN` and `LONG_MAX` bound what `strtol` returns. -/
def clampLong (z : Int) : Int := max (-9223372036854775808) (min 9223372036854775807 z)

/-- The parts of a string `strtol` goes over: blanks, a sign and digits. -/
def numberParts (s : List UInt8) : List UInt8 × List UInt8 × List UInt8 :=
  let rest := s.dropWhile isSpace
  (s.takeWhile isSpace, signOf rest, (rest.drop (signOf rest).length).takeWhile isDigit)

/-- `strtol(s, &endptr, 10)`: the value, and where `endptr` stands. -/
def strtol (s : List UInt8) : Int × Nat :=
  let (blanks, sign, digits) := numberParts s
  if digits = [] then (0, 0)
  else
    (clampLong (if sign = [45] then -digitsValue digits else digitsValue digits),
      (blanks ++ sign ++ digits).length)

/-- `atoi(s)`: the `int` of what `strtol` returns. -/
def atoi (s : List UInt8) : Int32 := Int32.ofInt (strtol s).1

/-- Digits are read from the least significant one on. -/
theorem digitsValue_eq (ds : List UInt8) :
    digitsValue ds = Nat.ofDigits 10 (ds.reverse.map fun b => b.toNat - 48) := by
  induction ds using List.reverseRecOn with
  | nil => rfl
  | append_singleton ds d ih =>
    rw [digitsValue, List.foldl_append, List.reverse_concat, List.map_cons, Nat.ofDigits_cons, ← ih]
    simp only [digitsValue, List.foldl_cons, List.foldl_nil]
    rw [Nat.add_comm, Nat.mul_comm]

theorem signOf_prefix (s : List UInt8) : signOf s <+: s := by
  unfold signOf
  split
  · exact ⟨_, rfl⟩
  · exact ⟨_, rfl⟩
  · exact List.nil_prefix

theorem numberParts_append (s : List UInt8) :
    (numberParts s).1 ++ (numberParts s).2.1 ++ (numberParts s).2.2 <+: s := by
  obtain ⟨tail, htail⟩ := signOf_prefix (s.dropWhile isSpace)
  have hdrop : (s.dropWhile isSpace).drop (signOf (s.dropWhile isSpace)).length = tail := by
    calc _ = (signOf (s.dropWhile isSpace) ++ tail).drop (signOf (s.dropWhile isSpace)).length := by
          rw [htail]
      _ = tail := List.drop_left
  obtain ⟨rest, hrest⟩ := List.takeWhile_prefix (p := isDigit) (l := tail)
  refine ⟨rest, ?_⟩
  calc _ = s.takeWhile isSpace ++
          (signOf (s.dropWhile isSpace) ++ (tail.takeWhile isDigit ++ rest)) :=
        by simp only [numberParts, hdrop, List.append_assoc]
    _ = s := by rw [hrest, htail, List.takeWhile_append_dropWhile]

/-- Blanks, a sign and digits. -/
theorem mem_numberParts {s : List UInt8} {b : UInt8}
    (h : b ∈ (numberParts s).1 ++ (numberParts s).2.1 ++ (numberParts s).2.2) :
    b ∈ s.takeWhile isSpace ∨ b = 43 ∨ b = 45 ∨ isDigit b = true := by
  rw [List.mem_append, List.mem_append] at h
  rcases h with (h | h) | h
  · exact .inl h
  · right
    simp only [numberParts] at h
    unfold signOf at h
    split at h
    · exact .inl (List.mem_singleton.mp h)
    · exact .inr (.inl (List.mem_singleton.mp h))
    · cases h
  · exact .inr (.inr (.inr (List.mem_takeWhile_imp h)))

/-- What `strtol` goes over is made of blanks, signs and digits. -/
theorem strtol_consumed {s : List UInt8} (h : (strtol s).2 = s.length) (hs : s ≠ []) :
    ∀ b ∈ s, isSpace b = true ∨ b = 43 ∨ b = 45 ∨ isDigit b = true := by
  have hparts : (numberParts s).1 ++ (numberParts s).2.1 ++ (numberParts s).2.2 = s := by
    refine (numberParts_append s).eq_of_length ?_
    rw [strtol] at h
    dsimp only at h
    split at h
    · exact absurd (List.length_eq_zero_iff.mp h.symm) hs
    · exact h
  intro b hb
  rw [← hparts] at hb
  exact (mem_numberParts hb).imp_left List.mem_takeWhile_imp

/-- A line feed behind a byte that is no blank ends a number. -/
theorem numberParts_lt {c : UInt8} {s : List UInt8} (hc : isSpace c = false) (h : 10 ∈ s) :
    ((numberParts (c :: s)).1 ++ (numberParts (c :: s)).2.1 ++
      (numberParts (c :: s)).2.2).length < (c :: s).length := by
  refine Nat.lt_of_le_of_ne (numberParts_append _).length_le fun hlen => ?_
  have hall := (numberParts_append (c :: s)).eq_of_length hlen
  have hfeed := mem_numberParts (hall ▸ List.mem_cons_of_mem c h)
  rw [List.takeWhile_cons, hc] at hfeed
  simp [isDigit] at hfeed

end CLib
