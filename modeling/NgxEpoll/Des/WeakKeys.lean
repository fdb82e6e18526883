import NgxEpoll.Des.Triple
import NgxEpoll.Foundation.Bisection
import NgxEpoll.Foundation.Numerals

/-!
# Weak keys

`gl_des_is_weak_key`, `gl_des_makekey` and `gl_3des_makekey` of `dfs_math.cpp`.  The lowest
bit of every byte of a key is its parity, which neither the search nor the subkeys use.

## The functions
-/

namespace NgxEpoll
namespace Des

open Foundation
open NgxEpoll.Core

def memcmp : List Byte -> List Byte -> Int
  | x :: xs, y :: ys => if x = y then memcmp xs ys else (x.toNat : Int) - y.toNat
  | _, _ => 0

def withoutParity (key : Block) : Block :=
  key.map (· &&& 0xfe)

def compareWeak (key : Block) (i : Int) : Int :=
  memcmp (withoutParity key).toList (weakKeys.getD i.toNat [])

def glDesIsWeakKey (key : Block) : Bool :=
  (bisect (compareWeak key) 0 63).isSome

def glDesMakekey (ctx : GlDesCtx) (key : Block) (keylen : Nat) : Bool × GlDesCtx :=
  if keylen ≠ 8 then (false, ctx) else (!glDesIsWeakKey key, glDesSetkey ctx key)

def gl3desMakekey (ctx : Gl3desCtx) (key1 key2 key3 : Block) (keylen : Nat) :
    Bool × Gl3desCtx :=
  if keylen ≠ 24 then (false, ctx)
  else
    (!(glDesIsWeakKey key1 || glDesIsWeakKey key2 || glDesIsWeakKey key3),
      gl3desSet3keys ctx key1 key2 key3)

/-!
## The order of the table
-/

def valueOf (xs : List Byte) : Nat :=
  numeral 256 BitVec.toNat xs

theorem valueOf_cons (x : Byte) (xs : List Byte) :
    valueOf (x :: xs) = x.toNat * 256 ^ xs.length + valueOf xs := by
  unfold valueOf numeral
  rw [List.reverse_cons, List.map_append, Nat.ofDigits_append, List.length_map,
    List.length_reverse]
  simp only [List.map_cons, List.map_nil, Nat.ofDigits_singleton]
  ring

theorem valueOf_lt (xs : List Byte) : valueOf xs < 256 ^ xs.length := by
  induction xs with
  | nil => exact Nat.one_pos
  | cons x xs ih =>
      rw [valueOf_cons, List.length_cons, Nat.pow_succ]
      have hx := x.isLt
      nlinarith

theorem memcmp_sign (xs : List Byte) : forall {ys : List Byte}, xs.length = ys.length ->
    (0 < memcmp xs ys ↔ valueOf ys < valueOf xs) ∧
      (memcmp xs ys < 0 ↔ valueOf xs < valueOf ys) ∧ (memcmp xs ys = 0 ↔ xs = ys) := by
  induction xs with
  | nil =>
      intro ys hlength
      cases ys with
      | nil => exact ⟨by decide, by decide, by decide⟩
      | cons y ys => cases hlength
  | cons x xs ih =>
      intro ys hlength
      cases ys with
      | nil => cases hlength
      | cons y ys =>
          have hlength' : xs.length = ys.length := Nat.succ.inj hlength
          unfold memcmp
          rw [valueOf_cons, valueOf_cons, ← hlength']
          by_cases hxy : x = y
          · subst hxy
            rw [if_pos rfl]
            obtain ⟨hpos, hneg, hzero⟩ := ih hlength'
            refine ⟨hpos.trans (by omega), hneg.trans (by omega), hzero.trans ?_⟩
            rw [List.cons.injEq]
            exact ⟨fun h => ⟨rfl, h⟩, fun h => h.2⟩
          · rw [if_neg hxy]
            have hne : x.toNat ≠ y.toNat := fun h => hxy (BitVec.eq_of_toNat_eq h)
            have hlx := valueOf_lt xs
            have hly := valueOf_lt ys
            rw [← hlength'] at hly
            generalize 256 ^ xs.length = p at hlx hly ⊢
            rcases Nat.lt_or_gt_of_ne hne with hlt | hgt
            · have hmul : x.toNat * p + p ≤ y.toNat * p := by nlinarith
              refine ⟨by omega, by omega, ?_⟩
              rw [List.cons.injEq]
              exact ⟨fun h => absurd h (by omega), fun h => absurd h.1 hxy⟩
            · have hmul : y.toNat * p + p ≤ x.toNat * p := by nlinarith
              refine ⟨by omega, by omega, ?_⟩
              rw [List.cons.injEq]
              exact ⟨fun h => absurd h (by omega), fun h => absurd h.1 hxy⟩

theorem weakKeys_length : weakKeys.length = 64 :=
  rfl

theorem weakKeys_block (i : Nat) (h : i < 64) : (weakKeys.getD i []).length = 8 := by
  revert i
  decide

theorem weakKeys_sorted (i : Nat) (h : i < 63) :
    valueOf (weakKeys.getD i []) < valueOf (weakKeys.getD (i + 1) []) := by
  revert i
  decide +kernel

theorem weakKeys_mono {i j : Nat} (hle : i ≤ j) (hj : j < 64) :
    valueOf (weakKeys.getD i []) ≤ valueOf (weakKeys.getD j []) := by
  induction j, hle using Nat.le_induction with
  | base => exact Nat.le_refl _
  | succ j _ ih =>
      exact (ih (by omega)).trans (Nat.le_of_lt (weakKeys_sorted j (by omega)))

theorem compareWeak_ordered (key : Block) : Ordered (compareWeak key) 0 63 := by
  have hsign : forall i : Int, 0 ≤ i -> i ≤ 63 -> _ := fun i hlo hhi =>
    @memcmp_sign (withoutParity key).toList (weakKeys.getD i.toNat []) (by
      rw [weakKeys_block _ (by omega), Vector.length_toList])
  constructor
  case below =>
    intro i m hlo hle hhi hpos
    have hm := (hsign m (by omega) hhi).1.mp hpos
    have hmono := weakKeys_mono (show i.toNat ≤ m.toNat by omega) (by omega)
    exact (hsign i hlo (by omega)).1.mpr (Nat.lt_of_le_of_lt hmono hm)
  case above =>
    intro i m hlo hle hhi hneg
    have hm := (hsign m hlo (by omega)).2.1.mp hneg
    have hmono := weakKeys_mono (show m.toNat ≤ i.toNat by omega) (by omega)
    exact (hsign i (by omega) hhi).2.1.mpr (Nat.lt_of_lt_of_le hm hmono)

theorem isWeakKey_iff (key : Block) :
    glDesIsWeakKey key = true ↔ (withoutParity key).toList ∈ weakKeys := by
  unfold glDesIsWeakKey
  rw [bisect_iff (Int.le_refl 0) (compareWeak_ordered key), List.mem_iff_getElem]
  have hzero : forall i : Int, 0 ≤ i -> i ≤ 63 ->
      (compareWeak key i = 0 ↔ (withoutParity key).toList = weakKeys.getD i.toNat []) :=
    fun i hlo hhi => (memcmp_sign (withoutParity key).toList (by
      rw [weakKeys_block _ (by omega), Vector.length_toList])).2.2
  constructor
  · rintro ⟨i, hlo, hhi, hcmp⟩
    refine ⟨i.toNat, by rw [weakKeys_length]; omega, ?_⟩
    rw [(hzero i hlo hhi).mp hcmp, List.getD_eq_getElem?_getD, List.getElem?_eq_getElem]
    rfl
  · rintro ⟨i, hi, heq⟩
    rw [weakKeys_length] at hi
    refine ⟨i, by omega, by omega, (hzero i (by omega) (by omega)).mpr ?_⟩
    rw [← heq, List.getD_eq_getElem?_getD, Int.toNat_natCast, List.getElem?_eq_getElem]
    rfl

/-!
## Parity
-/

def keyExchanges (p : Word × Word) : Word × Word :=
  (doPermutation (doPermutation p.2 p.1 4 0x0f0f0f0f).1
    (doPermutation p.2 p.1 4 0x0f0f0f0f).2 0 0x10101010).swap

def swapped (table : List Word) (w : Word) (high low : Nat) : Word :=
  let swap := fun (shift : Nat) => table.getD ((w >>> shift) &&& 0xf).toNat 0
  ((swap low <<< 3) ||| (swap (low + 8) <<< 2) ||| (swap (low + 16) <<< 1) |||
    swap (low + 24) ||| (swap high <<< 7) ||| (swap (high + 8) <<< 6) |||
    (swap (high + 16) <<< 5) ||| (swap (high + 24) <<< 4)) &&& 0x0fffffff

theorem keyHalves_eq (rawkey : Block) :
    keyHalves rawkey = (swapped leftkeySwap (keyExchanges (read64bitData rawkey)).1 5 0,
      swapped rightkeySwap (keyExchanges (read64bitData rawkey)).2 4 1) :=
  rfl

theorem keyExchanges_masked (l r : Word) :
    (keyExchanges (l &&& 0xfefefefe, r &&& 0xfefefefe)).1 &&& 0xefefefef =
        (keyExchanges (l, r)).1 &&& 0xefefefef ∧
      (keyExchanges (l &&& 0xfefefefe, r &&& 0xfefefefe)).2 &&& 0xfefefefe =
        (keyExchanges (l, r)).2 &&& 0xfefefefe := by
  constructor
  all_goals
    ext i hi
    unfold keyExchanges doPermutation
    interval_cases i <;> simp
  all_goals rw [Bool.xor_left_comm, Bool.xor_self, Bool.xor_false]

theorem nibble_congr {x y mask : Word} (h : x &&& mask = y &&& mask) (s : Nat)
    (hs : ((0xffffffff : Word) >>> s) &&& 0xf = (mask >>> s) &&& 0xf) :
    (x >>> s) &&& 0xf = (y >>> s) &&& 0xf := by
  have key : forall z : Word, (z >>> s) &&& 0xf = ((z &&& mask) >>> s) &&& 0xf := by
    intro z
    calc (z >>> s) &&& 0xf
      _ = ((z &&& 0xffffffff) >>> s) &&& 0xf := by
          rw [show z &&& (0xffffffff : Word) = z from BitVec.and_allOnes]
      _ = ((z &&& mask) >>> s) &&& 0xf := by
          rw [BitVec.ushiftRight_and_distrib, BitVec.ushiftRight_and_distrib, BitVec.and_assoc,
            BitVec.and_assoc, hs]
  rw [key x, key y, h]

theorem swapped_congr {x y mask : Word} (h : x &&& mask = y &&& mask) (table : List Word)
    {high low : Nat} (hs : forall k, k < 4 ->
      ((0xffffffff : Word) >>> (low + 8 * k)) &&& 0xf = (mask >>> (low + 8 * k)) &&& 0xf ∧
        ((0xffffffff : Word) >>> (high + 8 * k)) &&& 0xf = (mask >>> (high + 8 * k)) &&& 0xf) :
    swapped table x high low = swapped table y high low := by
  have hlow := fun k hk => nibble_congr h (low + 8 * k) (hs k hk).1
  have hhigh := fun k hk => nibble_congr h (high + 8 * k) (hs k hk).2
  have hlow0 := hlow 0 (by decide)
  have hhigh0 := hhigh 0 (by decide)
  rw [Nat.mul_zero, Nat.add_zero] at hlow0 hhigh0
  unfold swapped
  dsimp only
  rw [hlow0, hlow 1 (by decide), hlow 2 (by decide), hlow 3 (by decide), hhigh0,
    hhigh 1 (by decide), hhigh 2 (by decide), hhigh 3 (by decide)]

theorem byte_withoutParity (a : Byte) (s : Nat)
    (hs : ((0xff : Word) <<< s) &&& 0xfefefefe = (0xfe : Word) <<< s) :
    (a &&& 0xfe).setWidth 32 <<< s = (a.setWidth 32 <<< s) &&& 0xfefefefe := by
  have hbyte : a.setWidth 32 = a.setWidth 32 &&& 0xff := by
    calc a.setWidth 32
      _ = (a &&& 0xff).setWidth 32 := by
          rw [show a &&& (0xff : Byte) = a from BitVec.and_allOnes]
      _ = a.setWidth 32 &&& 0xff := by
          rw [BitVec.setWidth_and]
          rfl
  calc (a &&& 0xfe).setWidth 32 <<< s
    _ = (a.setWidth 32 <<< s) &&& (((0xff : Word) <<< s) &&& 0xfefefefe) := by
        rw [hs, BitVec.setWidth_and, BitVec.shiftLeft_and_distrib]
        rfl
    _ = ((a.setWidth 32 &&& 0xff) <<< s) &&& 0xfefefefe := by
        rw [BitVec.shiftLeft_and_distrib, BitVec.and_assoc]
    _ = (a.setWidth 32 <<< s) &&& 0xfefefefe := by
        rw [← hbyte]

theorem packed_withoutParity (a b c d : Byte) :
    packed (a &&& 0xfe) (b &&& 0xfe) (c &&& 0xfe) (d &&& 0xfe) =
      packed a b c d &&& 0xfefefefe := by
  have hlast := byte_withoutParity d 0 (by decide)
  rw [BitVec.shiftLeft_zero, BitVec.shiftLeft_zero] at hlast
  unfold packed
  rw [byte_withoutParity a 24 (by decide), byte_withoutParity b 16 (by decide),
    byte_withoutParity c 8 (by decide), hlast]
  simp only [BitVec.and_or_distrib_right]

theorem keyHalves_withoutParity (key : Block) :
    keyHalves (withoutParity key) = keyHalves key := by
  have hread : read64bitData (withoutParity key) =
      ((read64bitData key).1 &&& 0xfefefefe, (read64bitData key).2 &&& 0xfefefefe) := by
    have hget (i : Fin 8) : (withoutParity key).get i = key.get i &&& 0xfe := by
      exact Vector.getElem_map (· &&& 0xfe) i.isLt
    unfold read64bitData
    simp only [hget, packed_withoutParity]
  obtain ⟨hleft, hright⟩ := keyExchanges_masked (read64bitData key).1 (read64bitData key).2
  rw [keyHalves_eq, keyHalves_eq, hread]
  congr 1
  · exact swapped_congr hleft leftkeySwap (by decide)
  · exact swapped_congr hright rightkeySwap (by decide)

def subkeyPairs : List Word -> List (Word × Word)
  | even :: odd :: rest => (even, odd) :: subkeyPairs rest
  | _ => []

theorem weakKeys_few (w : List Byte) (hw : w ∈ weakKeys) (h : w.length = 8) :
    (subkeyPairs (desKeySchedule ⟨w.toArray, h⟩)).dedup.length ≤ 4 := by
  revert w
  decide +kernel

theorem desKeySchedule_withoutParity (key : Block) :
    desKeySchedule (withoutParity key) = desKeySchedule key := by
  unfold desKeySchedule
  rw [keyHalves_withoutParity]

theorem des_parity {key key' : Block} (h : withoutParity key' = withoutParity key)
    (mode : Bool) (block : Block) : des key' mode block = des key mode block := by
  have hschedule : desKeySchedule key' = desKeySchedule key := by
    rw [← desKeySchedule_withoutParity key', h, desKeySchedule_withoutParity]
  unfold des glDesSetkey
  rw [hschedule]

theorem isWeakKey_few (key : Block) (h : glDesIsWeakKey key = true) :
    (subkeyPairs (desKeySchedule key)).dedup.length ≤ 4 := by
  have hfew := weakKeys_few _ ((isWeakKey_iff key).mp h) Vector.length_toList
  rw [← desKeySchedule_withoutParity]
  exact hfew

/-- The search flags the keys of the table, whatever their parity bits, and for those the
sixteen rounds share at most four pairs of subkeys; keys apart in parity alone encrypt alike. -/
theorem weak_keys_known (key : Block) :
    (glDesIsWeakKey key = true ↔ (withoutParity key).toList ∈ weakKeys) ∧
      (glDesIsWeakKey key = true -> (subkeyPairs (desKeySchedule key)).dedup.length ≤ 4) ∧
      forall key', withoutParity key' = withoutParity key ->
        glDesIsWeakKey key' = glDesIsWeakKey key ∧
          forall mode block, des key' mode block = des key mode block := by
  refine ⟨isWeakKey_iff key, isWeakKey_few key, fun key' h => ⟨?_, des_parity h⟩⟩
  rw [Bool.eq_iff_iff, isWeakKey_iff, isWeakKey_iff, h]

theorem weak_keys_known_own :
    let odd : Block := Vector.replicate 8 0x01
    let even : Block := Vector.replicate 8 0
    glDesIsWeakKey odd = true ∧ (subkeyPairs (desKeySchedule odd)).dedup.length ≤ 4 ∧
      forall mode block, des even mode block = des odd mode block := by
  intro odd even
  have hknown := weak_keys_known odd
  have hweak : glDesIsWeakKey odd = true := by
    refine hknown.1.mpr ?_
    decide +kernel
  exact ⟨hweak, hknown.2.1 hweak, (hknown.2.2 even (by decide +kernel)).2⟩

/-- `gl_des_makekey` accepts the keys of eight bytes that are not in the table. -/
theorem makekey_true (ctx : GlDesCtx) (key : Block) (keylen : Nat) :
    (glDesMakekey ctx key keylen).1 = true ↔
      keylen = 8 ∧ (withoutParity key).toList ∉ weakKeys := by
  rw [← isWeakKey_iff, Bool.not_eq_true]
  unfold glDesMakekey
  split
  next hlength => exact ⟨fun hbad => absurd hbad Bool.false_ne_true, fun h => absurd h.1 hlength⟩
  next hlength =>
    rw [Decidable.not_not] at hlength
    rw [and_iff_right hlength, Bool.not_eq_true']

theorem makekey3_true (ctx : Gl3desCtx) (key1 key2 key3 : Block) (keylen : Nat) :
    (gl3desMakekey ctx key1 key2 key3 keylen).1 = true ↔
      keylen = 24 ∧ forall key, key ∈ [key1, key2, key3] ->
        (withoutParity key).toList ∉ weakKeys := by
  simp only [← isWeakKey_iff, Bool.not_eq_true]
  unfold gl3desMakekey
  split
  next hlength => exact ⟨fun hbad => absurd hbad Bool.false_ne_true, fun h => absurd h.1 hlength⟩
  next hlength =>
    rw [Decidable.not_not] at hlength
    rw [and_iff_right hlength]
    simp only [Bool.not_or, Bool.and_eq_true, Bool.not_eq_true', List.forall_mem_cons, and_assoc]
    simp only [List.not_mem_nil, false_imp_iff, implies_true, and_true]

end Des
end NgxEpoll
