/-
# Memory as bytes

The layout that C gives to a structure, and memory as a function from addresses to bytes, with
stores of byte strings into it.
-/
import Mathlib.Algebra.Group.Nat.Defs
import Mathlib.Data.List.GetD
import Mathlib.Data.Nat.Find
import Mathlib.Data.Set.Lattice
import Mathlib.Order.CompletePartialOrder
import Mathlib.Order.Interval.Set.Basic

namespace CLib

/-! ## 1. Structures -/

/-- What a type takes in memory. -/
structure CType where
  size : Nat
  align : Nat
  deriving DecidableEq, Repr

/-- The first multiple of `align` from `n` on. -/
def alignUp (n align : Nat) : Nat := (n + (align - 1)) / align * align

/-- Where the members of a structure begin, each with its type, from the free byte `n` on: every
member stands at a multiple of its alignment. -/
def layoutFrom : (n : Nat) → List CType → List (Nat × CType)
  | _, [] => []
  | n, t :: ts => (alignUp n t.align, t) :: layoutFrom (alignUp n t.align + t.size) ts

/-- A member of a structure with these members. -/
def member (ts : List CType) (k : Nat) : Nat × CType := (layoutFrom 0 ts).getD k (0, ⟨0, 1⟩)

/-- A structure is aligned like its strictest member, and its size is a multiple of that. -/
def structType (ts : List CType) : CType :=
  let align := (ts.map (·.align)).foldr max 1
  let last := (layoutFrom 0 ts).getLastD (0, ⟨0, 1⟩)
  ⟨alignUp (last.1 + last.2.size) align, align⟩

/-! ## 2. Bytes -/

/-- The `size` bytes of a number, the least significant first. -/
def leBytes : (size n : Nat) → List UInt8
  | 0, _ => []
  | size + 1, n => UInt8.ofNat n :: leBytes size (n / 256)

/-- The number that some bytes are. -/
def leValue : List UInt8 → Nat
  | [] => 0
  | b :: bytes => b.toNat + 256 * leValue bytes

@[simp] theorem length_leBytes (size n : Nat) : (leBytes size n).length = size := by
  induction size generalizing n with
  | zero => rfl
  | succ size ih => simp [leBytes, ih]

/-- Only the last `size` bytes of the number are taken. -/
theorem leBytes_mod (size n : Nat) : leBytes size (n % 256 ^ size) = leBytes size n := by
  induction size generalizing n with
  | zero => rfl
  | succ size ih =>
    have hlow : n % 256 ^ (size + 1) % 256 = n % 256 :=
      Nat.mod_mod_of_dvd n ⟨256 ^ size, Nat.pow_succ'⟩
    have hrest : n % 256 ^ (size + 1) / 256 = n / 256 % 256 ^ size := by
      rw [Nat.pow_succ', Nat.mod_mul_right_div_self]
    rw [leBytes, leBytes, hrest, ih]
    refine congrArg (· :: _) (UInt8.toNat_inj.mp ?_)
    rw [UInt8.toNat_ofNat', UInt8.toNat_ofNat']
    exact hlow

theorem leValue_leBytes {size n : Nat} (h : n < 256 ^ size) : leValue (leBytes size n) = n := by
  induction size generalizing n with
  | zero =>
    rw [Nat.pow_zero, Nat.lt_one_iff] at h
    rw [h]
    rfl
  | succ size ih =>
    have hrest : n / 256 < 256 ^ size := by
      rw [Nat.div_lt_iff_lt_mul (by decide), ← Nat.pow_succ]
      exact h
    rw [leBytes, leValue, ih hrest, UInt8.toNat_ofNat']
    omega

/-! ## 3. Memory -/

/-- Memory, by address. -/
abbrev Memory := Nat → UInt8

namespace Memory

/-- The addresses of `size` bytes from `at_` on. -/
abbrev range (at_ size : Nat) : Set Nat := Set.Ico at_ (at_ + size)

theorem range_disjoint {a b n m : Nat} (h : a + n ≤ b ∨ b + m ≤ a) :
    Disjoint (range a n) (range b m) := by
  refine Set.disjoint_left.mpr fun x hx hx' => ?_
  rw [Set.mem_Ico] at hx hx'
  omega

theorem range_subset {a b n m : Nat} (h : b ≤ a) (h' : a + n ≤ b + m) : range a n ⊆ range b m :=
  Set.Ico_subset_Ico h h'

/-- Store bytes from `at_` on. -/
def store (m : Memory) (at_ : Nat) (bytes : List UInt8) : Memory := fun a =>
  if at_ ≤ a ∧ a < at_ + bytes.length then bytes.getD (a - at_) 0 else m a

/-- The `size` bytes from `at_` on. -/
def load (m : Memory) (at_ size : Nat) : List UInt8 := (List.range size).map fun k => m (at_ + k)

variable {m m' : Memory} {at_ size a : Nat} {bytes : List UInt8}

@[simp] theorem length_load : (m.load at_ size).length = size := by simp [load]

@[simp] theorem getElem_load {k : Nat} (h : k < (m.load at_ size).length) :
    (m.load at_ size)[k] = m (at_ + k) := by simp [load]

/-- Nothing else changes. -/
theorem store_of_notMem (h : a ∉ range at_ bytes.length) : m.store at_ bytes a = m a := if_neg h

theorem load_congr (h : ∀ a ∈ range at_ size, m a = m' a) : m.load at_ size = m'.load at_ size := by
  refine List.map_congr_left fun k hk => h _ ⟨Nat.le_add_right _ _, ?_⟩
  exact Nat.add_lt_add_left (List.mem_range.mp hk) _

/-- What was stored is loaded. -/
theorem load_store_self : (m.store at_ bytes).load at_ bytes.length = bytes := by
  refine List.ext_getElem length_load fun k _ hk => ?_
  rw [getElem_load, store, if_pos ⟨Nat.le_add_right _ _, by omega⟩, Nat.add_sub_cancel_left,
    List.getD_eq_getElem _ _ hk]

/-- What is elsewhere is loaded as before. -/
theorem load_store_of_disjoint (h : Disjoint (range at_ bytes.length) (range a size)) :
    (m.store at_ bytes).load a size = m.load a size :=
  load_congr fun _ ha => store_of_notMem (Set.disjoint_right.mp h ha)

theorem load_add (m : Memory) (at_ k n : Nat) :
    m.load at_ (k + n) = m.load at_ k ++ m.load (at_ + k) n := by
  simp only [load, List.range_add, List.map_append, List.map_map]
  exact congrArg _ (List.map_congr_left fun j _ => by simp [Nat.add_assoc])

theorem load_eq_zeros (h : ∀ a ∈ range at_ size, m a = 0) :
    m.load at_ size = List.replicate size 0 := by
  refine List.eq_replicate_iff.mpr ⟨length_load, fun b hb => ?_⟩
  obtain ⟨k, hk, rfl⟩ := List.mem_map.mp hb
  exact h _ ⟨Nat.le_add_right _ _, Nat.add_lt_add_left (List.mem_range.mp hk) _⟩

/-- Where zeros are stored. -/
theorem store_zeros {n : Nat} (h : a ∈ range at_ n) :
    m.store at_ (List.replicate n 0) a = 0 := by
  have hlen : at_ ≤ a ∧ a < at_ + (List.replicate n (0 : UInt8)).length := by simpa using h
  rw [store, if_pos hlen, List.getD_eq_getElem?_getD, List.getElem?_replicate]
  split <;> rfl

theorem store_zeros_of_notMem {n : Nat} (h : a ∉ range at_ n) :
    m.store at_ (List.replicate n 0) a = m a := by
  refine store_of_notMem ?_
  rwa [List.length_replicate]

/-- The C string `text` stands at `at_`. -/
def HasString (m : Memory) (at_ : Nat) (text : List UInt8) : Prop :=
  0 ∉ text ∧ m.load at_ (text.length + 1) = text ++ [0]

/-- Where one of `n` bytes is a NUL a string ends, and its bytes are those before the first. -/
theorem hasString_of_nul {n : Nat} (h : ∃ k < n, m (at_ + k) = 0) :
    ((m.load at_ n).takeWhile (· ≠ 0)).length < n ∧
      m.HasString at_ ((m.load at_ n).takeWhile (· ≠ 0)) := by
  obtain ⟨k, hk, hnul, hmin⟩ : ∃ k < n, m (at_ + k) = 0 ∧ ∀ j < k, m (at_ + j) ≠ 0 := by
    obtain ⟨hlt, hnul⟩ := Nat.find_spec h
    exact ⟨_, hlt, hnul, fun j hj hz => Nat.find_min h hj ⟨Nat.lt_trans hj hlt, hz⟩⟩
  have hbefore : ∀ b ∈ m.load at_ k, b ≠ 0 := by
    intro b hb
    obtain ⟨j, hj, rfl⟩ := List.mem_map.mp hb
    exact hmin j (List.mem_range.mp hj)
  obtain ⟨d, rfl⟩ : ∃ d, n = k + (1 + d) := ⟨n - k - 1, by omega⟩
  have htake : (m.load at_ (k + (1 + d))).takeWhile (· ≠ 0) = m.load at_ k := by
    rw [load_add, load_add, List.takeWhile_append_of_pos (by simpa using hbefore)]
    simp [load, hnul]
  rw [htake, length_load]
  refine ⟨hk, fun hmem => hbefore 0 hmem rfl, ?_⟩
  rw [length_load, load_add]
  simp [load, hnul]

end Memory

end CLib
