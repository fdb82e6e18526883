import Mathlib.Algebra.GroupWithZero.Nat
import Mathlib.Data.Nat.Log

/-!
# Sizes

The macros and functions of `dfs_math.h` on values of type `size_t`, and the
arithmetic of that type.
-/

namespace NgxEpoll
namespace Core

def pageSize : Nat := 4096

/-- `dfs_math_dfslog2`; the loop counts the shifts until 1 is left. -/
def dfsMathDfslog2 (x : Nat) (up : Bool) : Nat :=
  (if up = true ∧ x &&& (x - 1) ≠ 0 then 1 else 0) + Nat.log2 x

def alignment (x : Nat) : Nat :=
  (if x % 8 = 0 then x else x + (8 - x % 8)) % 2 ^ 64

def roundUp (x : Nat) : Nat :=
  (x + (pageSize - 1)) % 2 ^ 64 / pageSize * pageSize

def isPrimeFrom (x : Nat) : Nat -> Nat -> Bool
  | 0, _ => true
  | turns + 1, i =>
      if i * i % 2 ^ 64 ≤ x then
        if x % i = 0 then false else isPrimeFrom x turns (i + 1)
      else true

def dfsMathIsPrime (x : Nat) : Bool :=
  if x ≤ 1 then false else isPrimeFrom x x 2

def dfsMathFindPrime : Nat -> Nat -> Option Nat
  | 0, _ => none
  | turns + 1, x =>
      if dfsMathIsPrime x then some x else dfsMathFindPrime turns ((x + 1) % 2 ^ 64)

def sizeAdd (x y : Nat) : Nat :=
  if x + y < 2 ^ 64 then x + y else x + y - 2 ^ 64

def sizeSub (x y : Nat) : Nat :=
  if y ≤ x then x - y else x + 2 ^ 64 - y

theorem sizeAdd_eq {x y : Nat} (h : x + y < 2 ^ 64) : sizeAdd x y = x + y :=
  if_pos h

theorem sizeSub_eq {x y : Nat} (hle : y ≤ x) : sizeSub x y = x - y :=
  if_pos hle

theorem le_dfsMathDfslog2_down {x : Nat} (hx : x ≠ 0) (i : Nat) :
    i ≤ dfsMathDfslog2 x false ↔ 2 ^ i ≤ x := by
  unfold dfsMathDfslog2
  rw [if_neg (by simp), Nat.zero_add]
  exact Nat.le_log2 hx

theorem dfsMathDfslog2_up_le {x : Nat} (hx : x ≠ 0) (i : Nat) :
    dfsMathDfslog2 x true ≤ i ↔ x ≤ 2 ^ i := by
  unfold dfsMathDfslog2
  by_cases hpower : x.isPowerOfTwo
  · have hand := (Nat.and_sub_one_eq_zero_iff_isPowerOfTwo hx).mpr hpower
    obtain ⟨k, rfl⟩ := hpower
    rw [if_neg (by simp [hand]), Nat.zero_add, Nat.log2_two_pow]
    exact (Nat.pow_le_pow_iff_right (by decide)).symm
  · have hand : x &&& (x - 1) ≠ 0 :=
      fun h => hpower ((Nat.and_sub_one_eq_zero_iff_isPowerOfTwo hx).mp h)
    rw [if_pos ⟨rfl, hand⟩]
    have hlog : Nat.log2 x < i ↔ x < 2 ^ i := Nat.log2_lt hx
    have hne : x ≠ 2 ^ i := fun h => hpower ⟨i, h⟩
    omega

theorem alignment_spec {x : Nat} (h : x + 8 ≤ 2 ^ 64) :
    x ≤ alignment x ∧ alignment x < x + 8 ∧ alignment x % 8 = 0 := by
  unfold alignment
  split
  · omega
  · omega

theorem one_lt_of_isPrime {x : Nat} (h : dfsMathIsPrime x = true) : 1 < x := by
  unfold dfsMathIsPrime at h
  split at h
  · cases h
  · omega

theorem one_lt_of_findPrime {turns x size : Nat}
    (h : dfsMathFindPrime turns x = some size) : 1 < size := by
  induction turns generalizing x with
  | zero => cases h
  | succ turns ih =>
      unfold dfsMathFindPrime at h
      split at h
      case isTrue hprime =>
        cases h
        exact one_lt_of_isPrime hprime
      case isFalse => exact ih h

end Core
end NgxEpoll
