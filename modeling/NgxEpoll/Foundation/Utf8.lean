import NgxEpoll.Foundation.Memory

/-!
# UTF-8

The encodings of characters in terms of the numbers of their bytes: which rows of two,
three and four bytes are encodings, and of what.

## Encodings
-/

namespace NgxEpoll
namespace Foundation

def utf8 (c : Char) : List Byte :=
  (String.utf8EncodeChar c).map UInt8.toBitVec

def utf8Bytes (v : Nat) : List Nat :=
  if v ≤ 0x7f then [v]
  else if v ≤ 0x7ff then [0xc0 + v / 64, 0x80 + v % 64]
  else if v ≤ 0xffff then [0xe0 + v / 4096, 0x80 + v / 64 % 64, 0x80 + v % 64]
  else [0xf0 + v / 262144, 0x80 + v / 4096 % 64, 0x80 + v / 64 % 64, 0x80 + v % 64]

/-- A number that is not a surrogate and not too large. -/
def Scalar (v : Nat) : Prop :=
  v < 0xd800 ∨ 0xdfff < v ∧ v < 0x110000

theorem scalar_toNat (c : Char) : Scalar c.toNat :=
  c.valid

theorem toNat_le (c : Char) : c.toNat ≤ 0x10ffff := by
  have h := scalar_toNat c
  unfold Scalar at h
  omega

theorem exists_char {v : Nat} (h : Scalar v) : exists c : Char, c.toNat = v :=
  ⟨Char.ofNatAux v h, rfl⟩

theorem utf8_toNat (c : Char) : (utf8 c).map BitVec.toNat = utf8Bytes c.toNat := by
  have hvalid : Scalar c.val.toNat := scalar_toNat c
  have hbyte (n : Nat) : (UInt8.ofNat n).toBitVec.toNat = n % 256 := rfl
  show (utf8 c).map BitVec.toNat = utf8Bytes c.val.toNat
  unfold utf8 String.utf8EncodeChar utf8Bytes
  dsimp only
  generalize c.val.toNat = v at hvalid
  unfold Scalar at hvalid
  split_ifs with h1 h2 h3
  · simp only [List.map_cons, List.map_nil, hbyte, List.cons.injEq, and_true]
    omega
  · simp only [List.map_cons, List.map_nil, hbyte, List.cons.injEq, and_true]
    omega
  · simp only [List.map_cons, List.map_nil, hbyte, List.cons.injEq, and_true]
    omega
  · simp only [List.map_cons, List.map_nil, hbyte, List.cons.injEq, and_true]
    omega

/-!
## Rows of bytes
-/

structure Rows where
  two : Nat -> Nat -> Prop
  three : Nat -> Nat -> Nat -> Prop
  four : Nat -> Nat -> Nat -> Nat -> Prop

/-- A row of `k` bytes begins a text, and the low bits of its bytes have the value `v`. -/
inductive Rows.At (r : Rows) : List Nat -> Nat -> Nat -> Prop where
  | two {a b : Nat} (t : List Nat) : r.two a b -> r.At (a :: b :: t) (a % 32 * 64 + b % 64) 2
  | three {a b c : Nat} (t : List Nat) : r.three a b c ->
      r.At (a :: b :: c :: t) ((a % 16 * 64 + b % 64) * 64 + c % 64) 3
  | four {a b c d : Nat} (t : List Nat) : r.four a b c d ->
      r.At (a :: b :: c :: d :: t) (((a % 8 * 64 + b % 64) * 64 + c % 64) * 64 + d % 64) 4

section Rows

variable {r r' : Rows} {a b c d v k : Nat} {t : List Nat}

theorem Rows.at_two_iff :
    r.At (a :: b :: t) v 2 ↔ r.two a b ∧ v = a % 32 * 64 + b % 64 := by
  constructor
  · intro h
    cases h with
    | two t h => exact ⟨h, rfl⟩
  · intro h
    rw [h.2]
    exact Rows.At.two t h.1

theorem Rows.at_three_iff :
    r.At (a :: b :: c :: t) v 3 ↔
      r.three a b c ∧ v = (a % 16 * 64 + b % 64) * 64 + c % 64 := by
  constructor
  · intro h
    cases h with
    | three t h => exact ⟨h, rfl⟩
  · intro h
    rw [h.2]
    exact Rows.At.three t h.1

theorem Rows.at_four_iff :
    r.At (a :: b :: c :: d :: t) v 4 ↔
      r.four a b c d ∧ v = ((a % 8 * 64 + b % 64) * 64 + c % 64) * 64 + d % 64 := by
  constructor
  · intro h
    cases h with
    | four t h => exact ⟨h, rfl⟩
  · intro h
    rw [h.2]
    exact Rows.At.four t h.1

theorem Rows.At.append (h : r.At t v k) (u : List Nat) : r.At (t ++ u) v k := by
  cases h with
  | two t hrow => exact Rows.At.two (t ++ u) hrow
  | three t hrow => exact Rows.At.three (t ++ u) hrow
  | four t hrow => exact Rows.At.four (t ++ u) hrow

theorem Rows.At.of_append {u : List Nat} (h : r.At (t ++ u) v k) (hk : k ≤ t.length) :
    r.At t v k := by
  generalize htext : t ++ u = text at h
  cases h with
  | two w hrow =>
      match t with
      | [] => exact absurd hk (by simp)
      | [x] => exact absurd hk (by simp)
      | x :: y :: t =>
          simp only [List.cons_append, List.cons.injEq] at htext
          rcases htext with ⟨rfl, rfl, -⟩
          exact Rows.At.two t hrow
  | three w hrow =>
      match t with
      | [] => exact absurd hk (by simp)
      | [x] => exact absurd hk (by simp)
      | [x, y] => exact absurd hk (by simp)
      | x :: y :: z :: t =>
          simp only [List.cons_append, List.cons.injEq] at htext
          rcases htext with ⟨rfl, rfl, rfl, -⟩
          exact Rows.At.three t hrow
  | four w hrow =>
      match t with
      | [] => exact absurd hk (by simp)
      | [x] => exact absurd hk (by simp)
      | [x, y] => exact absurd hk (by simp)
      | [x, y, z] => exact absurd hk (by simp)
      | x :: y :: z :: x' :: t =>
          simp only [List.cons_append, List.cons.injEq] at htext
          rcases htext with ⟨rfl, rfl, rfl, rfl, -⟩
          exact Rows.At.four t hrow

theorem Rows.At.two_le (h : r.At t v k) : 2 ≤ k ∧ k ≤ t.length := by
  cases h with
  | two t hrow => simp
  | three t hrow => simp
  | four t hrow => simp

/-- Two kinds of rows have the same row at the start of a text, or none. -/
structure Rows.Agree (r r' : Rows) (t : List Nat) : Prop where
  two : forall a b u, t = a :: b :: u -> (r.two a b ↔ r'.two a b)
  three : forall a b c u, t = a :: b :: c :: u -> (r.three a b c ↔ r'.three a b c)
  four : forall a b c d u, t = a :: b :: c :: d :: u -> (r.four a b c d ↔ r'.four a b c d)

theorem Rows.Agree.symm (h : r.Agree r' t) : r'.Agree r t :=
  ⟨fun a b u ht => (h.two a b u ht).symm, fun a b c u ht => (h.three a b c u ht).symm,
    fun a b c d u ht => (h.four a b c d u ht).symm⟩

theorem Rows.Agree.at_of_at (h : r.Agree r' t) (hat : r.At t v k) : r'.At t v k := by
  cases hat with
  | two t hrow => exact Rows.At.two t ((h.two _ _ t rfl).mp hrow)
  | three t hrow => exact Rows.At.three t ((h.three _ _ _ t rfl).mp hrow)
  | four t hrow => exact Rows.At.four t ((h.four _ _ _ _ t rfl).mp hrow)

theorem Rows.agree_iff : (forall v k, r.At t v k ↔ r'.At t v k) ↔ r.Agree r' t := by
  constructor
  · intro h
    constructor
    · intro a b u ht
      subst ht
      have hat := h (a % 32 * 64 + b % 64) 2
      rw [Rows.at_two_iff, Rows.at_two_iff] at hat
      exact ⟨fun hrow => (hat.mp ⟨hrow, rfl⟩).1, fun hrow => (hat.mpr ⟨hrow, rfl⟩).1⟩
    · intro a b c u ht
      subst ht
      have hat := h ((a % 16 * 64 + b % 64) * 64 + c % 64) 3
      rw [Rows.at_three_iff, Rows.at_three_iff] at hat
      exact ⟨fun hrow => (hat.mp ⟨hrow, rfl⟩).1, fun hrow => (hat.mpr ⟨hrow, rfl⟩).1⟩
    · intro a b c d u ht
      subst ht
      have hat := h (((a % 8 * 64 + b % 64) * 64 + c % 64) * 64 + d % 64) 4
      rw [Rows.at_four_iff, Rows.at_four_iff] at hat
      exact ⟨fun hrow => (hat.mp ⟨hrow, rfl⟩).1, fun hrow => (hat.mpr ⟨hrow, rfl⟩).1⟩
  · intro h v k
    exact ⟨h.at_of_at, h.symm.at_of_at⟩

theorem Rows.agree_iff_not_at {q : Rows} {P : Nat -> Prop} (ht : forall x, x ∈ t -> P x)
    (htwo : forall a b, P a -> P b -> ((r.two a b ↔ r'.two a b) ↔ ¬ q.two a b))
    (hthree : forall a b c, P a -> P b -> P c ->
      ((r.three a b c ↔ r'.three a b c) ↔ ¬ q.three a b c))
    (hfour : forall a b c d, P a -> P b -> P c -> P d ->
      ((r.four a b c d ↔ r'.four a b c d) ↔ ¬ q.four a b c d)) :
    r.Agree r' t ↔ ¬ exists v k, q.At t v k := by
  constructor
  · intro h hat
    rcases hat with ⟨v, k, hat⟩
    cases hat with
    | two u hrow =>
        exact (htwo _ _ (ht _ (by simp)) (ht _ (by simp))).mp (h.two _ _ u rfl) hrow
    | three u hrow =>
        exact (hthree _ _ _ (ht _ (by simp)) (ht _ (by simp)) (ht _ (by simp))).mp
          (h.three _ _ _ u rfl) hrow
    | four u hrow =>
        exact (hfour _ _ _ _ (ht _ (by simp)) (ht _ (by simp)) (ht _ (by simp))
          (ht _ (by simp))).mp (h.four _ _ _ _ u rfl) hrow
  · intro h
    constructor
    · intro a b u hu
      subst hu
      refine (htwo a b (ht a (by simp)) (ht b (by simp))).mpr ?_
      intro hrow
      exact h ⟨_, _, Rows.At.two u hrow⟩
    · intro a b c u hu
      subst hu
      refine (hthree a b c (ht a (by simp)) (ht b (by simp)) (ht c (by simp))).mpr ?_
      intro hrow
      exact h ⟨_, _, Rows.At.three u hrow⟩
    · intro a b c d u hu
      subst hu
      refine (hfour a b c d (ht a (by simp)) (ht b (by simp)) (ht c (by simp))
        (ht d (by simp))).mpr ?_
      intro hrow
      exact h ⟨_, _, Rows.At.four u hrow⟩

end Rows

def Tail (b : Nat) : Prop :=
  0x80 ≤ b ∧ b ≤ 0xbf

def encodings : Rows where
  two a b := 0xc2 ≤ a ∧ a ≤ 0xdf ∧ Tail b
  three a b c := 0xe0 ≤ a ∧ a ≤ 0xef ∧ Tail b ∧ Tail c ∧
    (a = 0xe0 -> 0xa0 ≤ b) ∧ (a = 0xed -> b ≤ 0x9f)
  four a b c d := 0xf0 ≤ a ∧ a ≤ 0xf4 ∧ Tail b ∧ Tail c ∧ Tail d ∧
    (a = 0xf0 -> 0x90 ≤ b) ∧ (a = 0xf4 -> b ≤ 0x8f)

theorem utf8Bytes_two {a b : Nat} (h : encodings.two a b) :
    Scalar (a % 32 * 64 + b % 64) ∧ 0x80 ≤ a % 32 * 64 + b % 64 ∧
      utf8Bytes (a % 32 * 64 + b % 64) = [a, b] := by
  simp only [encodings, Tail] at h
  refine ⟨Or.inl (by omega), by omega, ?_⟩
  unfold utf8Bytes
  rw [if_neg (by omega), if_pos (by omega)]
  simp only [List.cons.injEq, and_true]
  omega

theorem utf8Bytes_three {a b c : Nat} (h : encodings.three a b c) :
    Scalar ((a % 16 * 64 + b % 64) * 64 + c % 64) ∧
      0x80 ≤ (a % 16 * 64 + b % 64) * 64 + c % 64 ∧
      utf8Bytes ((a % 16 * 64 + b % 64) * 64 + c % 64) = [a, b, c] := by
  simp only [encodings, Tail] at h
  refine ⟨?_, by omega, ?_⟩
  · unfold Scalar
    omega
  · unfold utf8Bytes
    rw [if_neg (by omega), if_neg (by omega), if_pos (by omega)]
    simp only [List.cons.injEq, and_true]
    omega

theorem utf8Bytes_four {a b c d : Nat} (h : encodings.four a b c d) :
    Scalar (((a % 8 * 64 + b % 64) * 64 + c % 64) * 64 + d % 64) ∧
      0x80 ≤ ((a % 8 * 64 + b % 64) * 64 + c % 64) * 64 + d % 64 ∧
      utf8Bytes (((a % 8 * 64 + b % 64) * 64 + c % 64) * 64 + d % 64) = [a, b, c, d] := by
  simp only [encodings, Tail] at h
  refine ⟨?_, by omega, ?_⟩
  · unfold Scalar
    omega
  · unfold utf8Bytes
    rw [if_neg (by omega), if_neg (by omega), if_neg (by omega)]
    simp only [List.cons.injEq, and_true]
    omega

theorem encodings_at_utf8Bytes {v : Nat} (hscalar : Scalar v) (hge : 0x80 ≤ v)
    (t : List Nat) : encodings.At (utf8Bytes v ++ t) v (utf8Bytes v).length := by
  unfold Scalar at hscalar
  unfold utf8Bytes
  rw [if_neg (by omega)]
  split_ifs with h2 h3
  · have hrow : encodings.two (0xc0 + v / 64) (0x80 + v % 64) := by
      simp only [encodings, Tail]
      omega
    have hat := Rows.At.two t hrow
    rw [show (0xc0 + v / 64) % 32 * 64 + (0x80 + v % 64) % 64 = v by omega] at hat
    exact hat
  · have hrow : encodings.three (0xe0 + v / 4096) (0x80 + v / 64 % 64) (0x80 + v % 64) := by
      simp only [encodings, Tail]
      omega
    have hat := Rows.At.three t hrow
    rw [show ((0xe0 + v / 4096) % 16 * 64 + (0x80 + v / 64 % 64) % 64) * 64 +
      (0x80 + v % 64) % 64 = v by omega] at hat
    exact hat
  · have hrow : encodings.four (0xf0 + v / 262144) (0x80 + v / 4096 % 64)
        (0x80 + v / 64 % 64) (0x80 + v % 64) := by
      simp only [encodings, Tail]
      omega
    have hat := Rows.At.four t hrow
    rw [show (((0xf0 + v / 262144) % 8 * 64 + (0x80 + v / 4096 % 64) % 64) * 64 +
      (0x80 + v / 64 % 64) % 64) * 64 + (0x80 + v % 64) % 64 = v by omega] at hat
    exact hat

theorem encodings_at_iff (t : List Nat) (v k : Nat) :
    encodings.At t v k ↔
      Scalar v ∧ 0x80 ≤ v ∧ utf8Bytes v <+: t ∧ k = (utf8Bytes v).length := by
  constructor
  · intro h
    cases h with
    | two t h =>
        rcases utf8Bytes_two h with ⟨hscalar, hge, hv⟩
        rw [hv]
        exact ⟨hscalar, hge, ⟨t, rfl⟩, rfl⟩
    | three t h =>
        rcases utf8Bytes_three h with ⟨hscalar, hge, hv⟩
        rw [hv]
        exact ⟨hscalar, hge, ⟨t, rfl⟩, rfl⟩
    | four t h =>
        rcases utf8Bytes_four h with ⟨hscalar, hge, hv⟩
        rw [hv]
        exact ⟨hscalar, hge, ⟨t, rfl⟩, rfl⟩
  · intro h
    rcases h with ⟨hscalar, hge, ⟨t, rfl⟩, rfl⟩
    exact encodings_at_utf8Bytes hscalar hge t

theorem utf8_prefix_iff (c : Char) (s : List Byte) :
    utf8 c <+: s ↔ utf8Bytes c.toNat <+: s.map BitVec.toNat := by
  rw [← utf8_toNat]
  exact (List.prefix_map_iff_of_injective fun _ _ => BitVec.eq_of_toNat_eq).symm

theorem utf8_length (c : Char) : (utf8 c).length = (utf8Bytes c.toNat).length := by
  rw [← utf8_toNat, List.length_map]

/-- The encodings of more than one byte at the start of a text are those of characters. -/
theorem encodings_at_char (s : List Byte) (v k : Nat) :
    encodings.At (s.map BitVec.toNat) v k ↔
      exists c : Char, c.toNat = v ∧ 0x80 ≤ v ∧ utf8 c <+: s ∧ k = (utf8 c).length := by
  rw [encodings_at_iff]
  constructor
  · intro h
    rcases h with ⟨hscalar, hge, hprefix, hlength⟩
    rcases exists_char hscalar with ⟨c, rfl⟩
    exact ⟨c, rfl, hge, (utf8_prefix_iff c s).mpr hprefix, hlength.trans (utf8_length c).symm⟩
  · intro h
    rcases h with ⟨c, rfl, hge, hprefix, hlength⟩
    exact ⟨scalar_toNat c, hge, (utf8_prefix_iff c s).mp hprefix, hlength.trans (utf8_length c)⟩

end Foundation
end NgxEpoll
