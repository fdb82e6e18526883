import NgxEpoll.Foundation.Memory
import Mathlib.Data.List.Basic

/-!
# Bytes in groups of six bits

Three bytes are four groups of six bits.  A string whose length is not a multiple of
three ends with a group that is filled up with zero bits.
-/

namespace NgxEpoll
namespace Foundation

def sextets : List Byte -> List Byte
  | a :: b :: c :: rest =>
      ((a >>> 2) &&& 0x3f) :: (((a &&& 3) <<< 4) ||| (b >>> 4)) ::
        (((b &&& 0x0f) <<< 2) ||| (c >>> 6)) :: (c &&& 0x3f) :: sextets rest
  | [a, b] =>
      [(a >>> 2) &&& 0x3f, ((a &&& 3) <<< 4) ||| (b >>> 4), (b &&& 0x0f) <<< 2]
  | [a] => [(a >>> 2) &&& 0x3f, (a &&& 3) <<< 4]
  | [] => []

/-- The bytes that groups of six bits make up.  Bits that do not fill a byte are
dropped. -/
def joinSextets : List Byte -> List Byte
  | x :: y :: z :: t :: rest =>
      ((x <<< 2) ||| (y >>> 4)) :: ((y <<< 4) ||| (z >>> 2)) :: ((z <<< 6) ||| t) ::
        joinSextets rest
  | [x, y, z] => [(x <<< 2) ||| (y >>> 4), (y <<< 4) ||| (z >>> 2)]
  | [x, y] => [(x <<< 2) ||| (y >>> 4)]
  | _ => []

/-!
## One byte
-/

theorem byte_ext {a b : Byte}
    (h : a[0] = b[0] ∧ a[1] = b[1] ∧ a[2] = b[2] ∧ a[3] = b[3] ∧ a[4] = b[4] ∧ a[5] = b[5] ∧
      a[6] = b[6] ∧ a[7] = b[7]) : a = b := by
  obtain ⟨h0, h1, h2, h3, h4, h5, h6, h7⟩ := h
  apply BitVec.eq_of_getElem_eq
  intro i hi
  match i, hi with
  | 0, _ => exact h0
  | 1, _ => exact h1
  | 2, _ => exact h2
  | 3, _ => exact h3
  | 4, _ => exact h4
  | 5, _ => exact h5
  | 6, _ => exact h6
  | 7, _ => exact h7

theorem join_first (a b : Byte) :
    (((a >>> 2) &&& 0x3f) <<< 2) ||| ((((a &&& 3) <<< 4) ||| (b >>> 4)) >>> 4) = a := by
  apply byte_ext
  simp

theorem join_second (a b c : Byte) :
    ((((a &&& 3) <<< 4) ||| (b >>> 4)) <<< 4) |||
      ((((b &&& 0x0f) <<< 2) ||| (c >>> 6)) >>> 2) = b := by
  apply byte_ext
  simp

theorem join_third (b c : Byte) :
    ((((b &&& 0x0f) <<< 2) ||| (c >>> 6)) <<< 6) ||| (c &&& 0x3f) = c := by
  apply byte_ext
  simp

theorem lt_of_bits {x : Byte} (h : x[6] = false ∧ x[7] = false) : x.toNat < 64 := by
  have hsmall : x = x &&& 0x3f := by
    apply byte_ext
    simp [h]
  rw [hsmall, BitVec.toNat_and]
  exact Nat.lt_of_le_of_lt Nat.and_le_right (by decide)

theorem sextet_first (a : Byte) : ((a >>> 2) &&& 0x3f).toNat < 64 :=
  lt_of_bits (by simp)

theorem sextet_second (a b : Byte) : (((a &&& 3) <<< 4) ||| (b >>> 4)).toNat < 64 :=
  lt_of_bits (by simp)

theorem sextet_third (b c : Byte) : (((b &&& 0x0f) <<< 2) ||| (c >>> 6)).toNat < 64 :=
  lt_of_bits (by simp)

theorem sextet_fourth (c : Byte) : (c &&& 0x3f).toNat < 64 :=
  lt_of_bits (by simp)

theorem second_zero (a : Byte) : (a &&& 3) <<< 4 = ((a &&& 3) <<< 4) ||| ((0 : Byte) >>> 4) := by
  simp

theorem third_zero (b : Byte) :
    (b &&& 0x0f) <<< 2 = ((b &&& 0x0f) <<< 2) ||| ((0 : Byte) >>> 6) := by
  simp

/-!
## Strings
-/

theorem sextets_lt (s : List Byte) : forall x, x ∈ sextets s -> x.toNat < 64 := by
  induction s using sextets.induct with
  | case1 a b c rest ih =>
      unfold sextets
      simp only [List.forall_mem_cons]
      exact ⟨sextet_first a, sextet_second a b, sextet_third b c, sextet_fourth c, ih⟩
  | case2 a b =>
      unfold sextets
      simp only [List.forall_mem_cons]
      refine ⟨sextet_first a, sextet_second a b, ?_, fun _ hx => absurd hx List.not_mem_nil⟩
      rw [third_zero]
      exact sextet_third b 0
  | case3 a =>
      unfold sextets
      simp only [List.forall_mem_cons]
      refine ⟨sextet_first a, ?_, fun _ hx => absurd hx List.not_mem_nil⟩
      rw [second_zero]
      exact sextet_second a 0
  | case4 => exact fun _ hx => absurd hx List.not_mem_nil

theorem sextets_length (s : List Byte) : (sextets s).length = (4 * s.length + 2) / 3 := by
  induction s using sextets.induct with
  | case1 a b c rest ih =>
      simp only [sextets, List.length_cons, ih]
      omega
  | case2 a b => simp [sextets]
  | case3 a => simp [sextets]
  | case4 => simp [sextets]

theorem joinSextets_sextets (s : List Byte) : joinSextets (sextets s) = s := by
  induction s using sextets.induct with
  | case1 a b c rest ih =>
      simp only [sextets, joinSextets, ih, join_first, join_second, join_third]
  | case2 a b =>
      have hsecond := join_second a b 0
      rw [← third_zero] at hsecond
      simp only [sextets, joinSextets, join_first, hsecond]
  | case3 a =>
      have hfirst := join_first a 0
      rw [← second_zero] at hfirst
      simp only [sextets, joinSextets, hfirst]
  | case4 => rfl

end Foundation
end NgxEpoll
