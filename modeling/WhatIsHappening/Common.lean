/-
# Bytes, C numbers and settings

What the C code takes from its language, its headers and its configuration: byte strings, the
part of `double` the metrics use, the hash of `common.h`, and the settings of `gucs.c` with the
ranges `pwh_define_gucs` gives them.
-/
import Mathlib.Algebra.Order.Ring.Rat
import Mathlib.Data.Nat.Digits.Defs

namespace WhatIsHappening

/-! ## 1. Byte strings -/

/-- The bytes of a string literal of the source (all of them are ASCII). -/
def str (s : String) : List UInt8 := s.toList.map fun c => UInt8.ofNat c.toNat

/-- What is asked of every byte of a text is decided for the bytes it has, not for all there are. -/
instance decidableForallByte (s : List UInt8) (p : UInt8 → Prop) [DecidablePred p] :
    Decidable (∀ b ∈ s, p b) :=
  List.decidableBAll p s

/-- The decimal digit `d < 10`. -/
def digitByte (d : Nat) : UInt8 := UInt8.ofNat (48 + d)

/-- `%lu`: an unsigned number in decimal. -/
def decimal (n : Nat) : List UInt8 :=
  if n = 0 then [digitByte 0] else (Nat.digits 10 n).reverse.map digitByte

/-- `%d` and `%ld`: a signed number in decimal. -/
def decimalInt (z : Int) : List UInt8 :=
  if z < 0 then 45 :: decimal z.natAbs else decimal z.natAbs

/-! ## 2. `double` -/

/-- The bytes of a printed number.  Beside digits, a sign and a point these are the letters of `inf`
and `nan`, and of `Infinity` and `NaN`, which the `snprintf` of PostgreSQL prints from version 12
on. -/
def numberBytes : List UInt8 := str "0123456789.+-infaNIty"

/-- The operations on C's `double` that the extension uses.  Their values and their rounding are
those of the machine, so everything below is generic in them; `fixed n` is the conversion
`%.nf`. -/
class CDouble (D : Type) where
  ofNat : Nat → D
  add : D → D → D
  mul : D → D → D
  div : D → D → D
  gt : D → D → Bool
  fixed : Nat → D → List UInt8
  fixed_mem : ∀ n x, ∀ b ∈ fixed n x, b ∈ numberBytes

theorem digitByte_mem {d : Nat} (h : d < 10) : digitByte d ∈ numberBytes := by
  have hall : ∀ d : Fin 10, digitByte d ∈ numberBytes := by decide
  exact hall ⟨d, h⟩

theorem decimal_mem (n : Nat) : ∀ b ∈ decimal n, b ∈ numberBytes := by
  intro b hb
  unfold decimal at hb
  split at hb
  · rw [List.mem_singleton.mp hb]
    exact digitByte_mem (by decide)
  · simp only [List.map_reverse, List.mem_reverse, List.mem_map] at hb
    obtain ⟨d, hd, rfl⟩ := hb
    exact digitByte_mem (Nat.digits_lt_base (by decide) hd)

/-- The last `n` decimal digits of a number. -/
def lastDigits (n m : Nat) : List UInt8 :=
  (List.range n).reverse.map fun k => digitByte (m / 10 ^ k % 10)

theorem lastDigits_mem (n m : Nat) : ∀ b ∈ lastDigits n m, b ∈ numberBytes := by
  intro b hb
  obtain ⟨k, -, rfl⟩ := List.mem_map.mp hb
  exact digitByte_mem (Nat.mod_lt _ (by decide))

/-- `%.nf` of an exact number, rounded half to even. -/
def fixedRat (n : Nat) (q : ℚ) : List UInt8 :=
  let num := q.num.natAbs * 10 ^ n
  let low := num / q.den
  let rest := 2 * (num % q.den)
  let m := if rest < q.den ∨ (rest = q.den ∧ low % 2 = 0) then low else low + 1
  (if q.num < 0 then str "-" else []) ++ decimal (m / 10 ^ n) ++
    (if n = 0 then [] else str "." ++ lastDigits n m)

theorem fixedRat_mem (n : Nat) (q : ℚ) : ∀ b ∈ fixedRat n q, b ∈ numberBytes := by
  intro b hb
  simp only [fixedRat, List.mem_append] at hb
  rcases hb with (hb | hb) | hb
  · split at hb
    · rw [show b = 45 by simpa [str] using hb]
      decide
    · cases hb
  · exact decimal_mem _ b hb
  · split at hb
    · cases hb
    · rcases List.mem_append.mp hb with hb | hb
      · rw [show b = 46 by simpa [str] using hb]
        decide
      · exact lastDigits_mem _ _ b hb

/-- Exact arithmetic. -/
instance : CDouble ℚ where
  ofNat n := n
  add := (· + ·)
  mul := (· * ·)
  div := (· / ·)
  gt x y := decide (x > y)
  fixed := fixedRat
  fixed_mem := fixedRat_mem

/-! ## 3. `pwh_hash_djb2` -/

/-- `pwh_hash_djb2` (`common.h`). -/
def pwhHashDjb2 (seed : UInt64) (data : List UInt8) : UInt64 :=
  data.foldl (fun hash b => hash * 33 + b.toUInt64) seed

/-! ## 4. Settings -/

/-- The settings that are fixed when the server starts (`PGC_POSTMASTER`), with the ranges of
`pwh_define_gucs`. -/
structure Gucs where
  maxTrackedQueries : Nat := 32
  maxNodesPerQuery : Nat := 128
  maxQueryTextLen : Nat := 1024
  maxTrackedQueries_range : 2 ≤ maxTrackedQueries ∧ maxTrackedQueries ≤ 256 := by decide
  maxNodesPerQuery_range : 16 ≤ maxNodesPerQuery ∧ maxNodesPerQuery ≤ 256 := by decide
  maxQueryTextLen_range : 64 ≤ maxQueryTextLen ∧ maxQueryTextLen ≤ 8192 := by decide

namespace Gucs

theorem maxTrackedQueries_le (g : Gucs) : g.maxTrackedQueries ≤ 256 := g.maxTrackedQueries_range.2

theorem maxNodesPerQuery_le (g : Gucs) : g.maxNodesPerQuery ≤ 256 := g.maxNodesPerQuery_range.2

theorem maxQueryTextLen_pos (g : Gucs) : 0 < g.maxQueryTextLen :=
  Nat.lt_of_lt_of_le (by decide) g.maxQueryTextLen_range.1

end Gucs

end WhatIsHappening
