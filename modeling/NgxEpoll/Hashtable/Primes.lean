import Mathlib.NumberTheory.Bertrand
import NgxEpoll.Hashtable.Functions

/-!
# The number of buckets

`dfs_math_find_prime` tries one candidate after the other, and `dfs_math_is_prime`
divides each by the numbers up to its root.  There is a prime before the candidate has
doubled, so neither a square nor a candidate wraps.

## Trial division
-/

namespace NgxEpoll
namespace Hashtable

open NgxEpoll.Core

/-- The values of `i` for which the loop of `dfs_math_is_prime` evaluates `i * i`. -/
inductive Tests (x : Nat) : Nat -> Prop where
  | first (candidate : 1 < x) : Tests x 2
  | next {i : Nat} (tested : Tests x i) (le : i * i % 2 ^ 64 ≤ x) (rest : x % i ≠ 0) :
      Tests x (i + 1)

variable {x y i turns : Nat}

theorem square_lt (hx : x ≤ 2 ^ 63) (hi : (i - 1) * (i - 1) ≤ x) : i * i < 2 ^ 64 := by
  have hle : i - 1 ≤ 2 ^ 32 - 2 := by
    by_contra hlarge
    have hsquare : (2 ^ 32 - 1) * (2 ^ 32 - 1) ≤ (i - 1) * (i - 1) :=
      Nat.mul_self_le_mul_self (by omega)
    omega
  have hsquare : i * i ≤ (2 ^ 32 - 1) * (2 ^ 32 - 1) := Nat.mul_self_le_mul_self (by omega)
  omega

theorem Tests.reached (h : Tests x i) (hx : x ≤ 2 ^ 63) :
    2 ≤ i ∧ (i - 1) * (i - 1) ≤ x := by
  induction h with
  | first candidate => exact ⟨Nat.le_refl 2, Nat.le_of_lt candidate⟩
  | next tested le rest ih =>
      rw [Nat.mod_eq_of_lt (square_lt hx ih.2)] at le
      exact ⟨Nat.le_succ_of_le ih.1, le⟩

/-- The loop from `i` on finds whether there is a divisor from `i` up to the root. -/
theorem isPrimeFrom_iff (hx : x ≤ 2 ^ 63) (hi : 2 ≤ i) (hreached : (i - 1) * (i - 1) ≤ x)
    (hturns : x < (i + turns) * (i + turns)) :
    isPrimeFrom x turns i = true ↔ forall j, i ≤ j -> j * j ≤ x -> ¬ j ∣ x := by
  induction turns generalizing i with
  | zero =>
      refine iff_of_true rfl fun j hij hj => ?_
      have hle : i * i ≤ j * j := Nat.mul_self_le_mul_self hij
      rw [Nat.add_zero] at hturns
      omega
  | succ turns ih =>
      unfold isPrimeFrom
      rw [Nat.mod_eq_of_lt (square_lt hx hreached)]
      by_cases hle : i * i ≤ x
      · rw [if_pos hle]
        by_cases hdvd : x % i = 0
        · rw [if_pos hdvd]
          refine iff_of_false nofun fun hall => ?_
          exact hall i (Nat.le_refl i) hle (Nat.dvd_of_mod_eq_zero hdvd)
        · rw [if_neg hdvd, ih (Nat.le_succ_of_le hi) hle (by rwa [Nat.succ_add_eq_add_succ])]
          constructor
          · intro hall j hij hj
            cases Nat.eq_or_lt_of_le hij with
            | inl heq =>
                rw [← heq]
                exact fun h => hdvd (Nat.mod_eq_zero_of_dvd h)
            | inr hlt => exact hall j hlt hj
          · exact fun hall j hij => hall j (Nat.le_of_succ_le hij)
      · rw [if_neg hle]
        refine iff_of_true rfl fun j hij hj => ?_
        have hsquare : i * i ≤ j * j := Nat.mul_self_le_mul_self hij
        omega

theorem dfsMathIsPrime_iff (hx : x ≤ 2 ^ 63) : dfsMathIsPrime x = true ↔ x.Prime := by
  unfold dfsMathIsPrime
  by_cases hone : x ≤ 1
  · rw [if_pos hone]
    exact iff_of_false nofun fun hprime => Nat.not_lt_of_le hone hprime.one_lt
  · have hturns : x < (2 + x) * (2 + x) := by
      have hle : (2 + x) * 1 ≤ (2 + x) * (2 + x) := Nat.mul_le_mul_left _ (by omega)
      omega
    rw [if_neg hone, isPrimeFrom_iff hx (Nat.le_refl 2) (by omega) hturns,
      Nat.prime_def_le_sqrt]
    constructor
    · exact fun hall => ⟨by omega, fun m hm hroot => hall m hm (Nat.le_sqrt.mp hroot)⟩
    · exact fun hprime m hm hroot => hprime.2 m hm (Nat.le_sqrt.mpr hroot)

/-!
## The search
-/

theorem exists_prime (hx : x ≤ 2 ^ 62) :
    exists p, IsLeast { q | q.Prime ∧ x ≤ q } p ∧ p ≤ 2 ^ 63 := by
  have hsome : exists q, q.Prime ∧ x ≤ q ∧ q ≤ 2 ^ 63 := by
    by_cases hzero : x = 0
    · exact ⟨2, Nat.prime_two, by omega, by norm_num⟩
    · obtain ⟨q, hq, hlt, hle⟩ := Nat.exists_prime_lt_and_le_two_mul x hzero
      exact ⟨q, hq, Nat.le_of_lt hlt, by omega⟩
  obtain ⟨q, hq, hxq, hle⟩ := hsome
  have hex : exists q, q.Prime ∧ x ≤ q := ⟨q, hq, hxq⟩
  refine ⟨Nat.find hex, ⟨Nat.find_spec hex, fun r hr => Nat.find_min' hex hr⟩, ?_⟩
  exact Nat.le_trans (Nat.find_min' hex ⟨hq, hxq⟩) hle

theorem dfsMathFindPrime_eq {p : Nat} (hp : IsLeast { q | q.Prime ∧ x ≤ q } p)
    (hle : p ≤ 2 ^ 63) (hturns : p < x + turns) : dfsMathFindPrime turns x = some p := by
  induction turns generalizing x with
  | zero => exact absurd hp.1.2 (Nat.not_le_of_lt hturns)
  | succ turns ih =>
      have hxp : x ≤ p := hp.1.2
      unfold dfsMathFindPrime
      by_cases hprime : x.Prime
      · have heq : p = x := Nat.le_antisymm (hp.2 ⟨hprime, Nat.le_refl x⟩) hxp
        rw [if_pos ((dfsMathIsPrime_iff (by omega)).mpr hprime), heq]
      · have hne : x ≠ p := by
          intro heq
          rw [heq] at hprime
          exact hprime hp.1.1
        rw [if_neg (mt (dfsMathIsPrime_iff (by omega)).mp hprime),
          Nat.mod_eq_of_lt (by omega)]
        refine ih ⟨⟨hp.1.1, by omega⟩, fun q hq => hp.2 ⟨hq.1, ?_⟩⟩ (by omega)
        exact Nat.le_of_succ_le hq.2

/-- From every `x` up to `2 ^ 62` the search returns the least prime that is not below,
and nothing wraps on its way; so the number of buckets is prime. -/
theorem buckets_prime (x : Nat) (hx : x ≤ 2 ^ 62) :
    (exists p, IsLeast { q | q.Prime ∧ x ≤ q } p ∧
        (forall turns, p < x + turns -> dfsMathFindPrime turns x = some p) ∧
        forall y, x ≤ y -> y ≤ p -> y + 1 < 2 ^ 64 ∧
          forall i, Tests y i -> i * i < 2 ^ 64 ∧ (i - 1) * (i - 1) ≤ y) ∧
      (forall hash, (init x hash true).isSome = true) ∧
      forall hash calloc table, init x hash calloc = some table -> table.size.Prime := by
  obtain ⟨p, hp, hle⟩ := exists_prime hx
  have hpos : 0 < p := hp.1.1.pos
  have hfound : dfsMathFindPrime (2 ^ 64) x = some p := dfsMathFindPrime_eq hp hle (by omega)
  refine ⟨⟨p, hp, fun turns hturns => dfsMathFindPrime_eq hp hle hturns, ?_⟩, ?_, ?_⟩
  · intro y hxy hyp
    refine ⟨by omega, fun i hi => ?_⟩
    have hreached := hi.reached (show y ≤ 2 ^ 63 by omega)
    exact ⟨square_lt (by omega) hreached.2, hreached.2⟩
  · intro hash
    unfold init
    rw [hfound]
    by_cases hzero : x = 0
    · rw [if_pos hzero]
      rfl
    · rw [if_neg hzero]
      rfl
  · intro hash calloc table htable
    have hdefault : defaultSize.Prime := by
      unfold defaultSize
      norm_num
    unfold init at htable
    rw [hfound] at htable
    cases calloc with
    | false =>
        by_cases hzero : x = 0
        · rw [if_pos hzero] at htable
          cases htable
        · rw [if_neg hzero] at htable
          cases htable
    | true =>
        by_cases hzero : x = 0
        · rw [if_pos hzero] at htable
          cases htable
          exact hdefault
        · rw [if_neg hzero] at htable
          cases htable
          exact hp.1.1

theorem buckets_prime_hundred :
    (init 100 HashFn.hash4 true).isSome = true ∧
      forall table, init 100 HashFn.hash4 true = some table -> table.size.Prime :=
  have h := buckets_prime 100 (by norm_num)
  ⟨h.2.1 HashFn.hash4, h.2.2 HashFn.hash4 true⟩

example : dfsMathFindPrime 3 100 = some 101 := by decide +kernel

end Hashtable
end NgxEpoll
