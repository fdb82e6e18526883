import NgxEpoll.Core.Types
import NgxEpoll.Foundation.Utf8

/-!
# A character read from UTF-8

`string_utf8_decode` of `dfs_string.cpp`, with how far it reads.

## The function
-/

namespace NgxEpoll
namespace Strings

open Foundation
open NgxEpoll.Core

/-- What `string_utf8_decode` returns, where it leaves `*p`, and how many bytes it reads. -/
structure Decoded where
  u : Nat
  p : Nat
  read : Nat
deriving DecidableEq

def utf8Loop (m : Mem) : Nat -> Nat -> Nat -> Option Nat × Nat
  | 0, p, u => (some u, p)
  | len + 1, p, u =>
      let i := (m p).toNat
      if i < 0x80 then (none, p + 1)
      else utf8Loop m len (p + 1) (u <<< 6 ||| i &&& 0x3f)

def utf8Rest (m : Mem) (p n len u valid : Nat) : Decoded :=
  if predSize n < len then { u := 0xfffffffe, p := p, read := 1 }
  else
    match utf8Loop m len (p + 1) u with
    | (none, p') => { u := 0xffffffff, p := p', read := p' - p }
    | (some u, p') =>
        { u := if valid < u then u else 0xffffffff, p := p', read := p' - p }

def stringUtf8Decode (m : Mem) (p n : Nat) : Decoded :=
  let u := (m p).toNat
  if 0xf0 < u then utf8Rest m p n 3 (u &&& 0x07) 0xffff
  else if 0xe0 < u then utf8Rest m p n 2 (u &&& 0x0f) 0x7ff
  else if 0xc0 < u then utf8Rest m p n 1 (u &&& 0x1f) 0x7f
  else { u := 0xffffffff, p := p + 1, read := 1 }

/-!
## What is taken
-/

def taken : Rows where
  two a b := 0xc1 ≤ a ∧ a ≤ 0xe0 ∧ 0x80 ≤ b ∧ 0x7f < a % 32 * 64 + b % 64
  three a b c := 0xe1 ≤ a ∧ a ≤ 0xf0 ∧ 0x80 ≤ b ∧ 0x80 ≤ c ∧
    0x7ff < (a % 16 * 64 + b % 64) * 64 + c % 64
  four a b c d := 0xf1 ≤ a ∧ 0x80 ≤ b ∧ 0x80 ≤ c ∧ 0x80 ≤ d ∧
    0xffff < ((a % 8 * 64 + b % 64) * 64 + c % 64) * 64 + d % 64 ∧
    ((a % 8 * 64 + b % 64) * 64 + c % 64) * 64 + d % 64 ≤ 0x10ffff

variable {m : Mem} {p n : Nat}

theorem shift_or (u i : Nat) : u <<< 6 ||| i &&& 0x3f = u * 64 + i % 64 := by
  rw [show i &&& 0x3f = i % 64 from Nat.and_two_pow_sub_one_eq_mod i 6,
    ← Nat.shiftLeft_add_eq_or_of_lt (Nat.mod_lt i (by decide)), Nat.shiftLeft_eq]

theorem load_toNat_succ (m : Mem) (p n : Nat) :
    (load m p (n + 1)).map BitVec.toNat = (m p).toNat :: (load m (p + 1) n).map BitVec.toNat :=
  rfl

/-- The rows that are taken, as `string_utf8_decode` finds them. -/
structure Decodes (m : Mem) (p n : Nat) (d : Decoded) : Prop where
  found : forall v k, taken.At ((load m p n).map BitVec.toNat) v k ->
    d.u = v ∧ d.p = p + k ∧ d.read = k
  refused : (forall v k, ¬ taken.At ((load m p n).map BitVec.toNat) v k) -> 0x10ffff < d.u
  read_le : d.read ≤ n

def behind (u : Nat) (bs : List Nat) : Nat :=
  bs.foldl (fun u b => u * 64 + b % 64) u

def high (b : Byte) : Bool :=
  0x80 ≤ b.toNat

theorem high_iff {b : Byte} : high b = true ↔ 0x80 ≤ b.toNat :=
  decide_eq_true_iff

/-- `while (len)` ends behind `len` bytes from 0x80 on, or behind the first other one. -/
theorem utf8Loop_eq (len : Nat) : forall p u, utf8Loop m len p u =
    if forall b, b ∈ load m p len -> high b then
      (some (behind u ((load m p len).map BitVec.toNat)), p + len)
    else (none, p + ((load m p len).takeWhile high).length + 1) := by
  induction len with
  | zero =>
      intro p u
      rfl
  | succ len ih =>
      intro p u
      unfold utf8Loop
      dsimp only
      rw [load_succ]
      by_cases hb : (m p).toNat < 0x80
      · have hlow : ¬ high (m p) := fun h => absurd (high_iff.mp h) (Nat.not_le.mpr hb)
        have hnot : ¬ forall b, b ∈ m p :: load m (p + 1) len -> high b :=
          fun hall => hlow (hall (m p) List.mem_cons_self)
        rw [if_pos hb, if_neg hnot, List.takeWhile_cons_of_neg hlow]
        rfl
      · have hhigh : high (m p) := high_iff.mpr (Nat.not_lt.mp hb)
        have hiff : (forall b, b ∈ m p :: load m (p + 1) len -> high b) ↔
            forall b, b ∈ load m (p + 1) len -> high b := by
          rw [List.forall_mem_cons]
          exact and_iff_right hhigh
        rw [if_neg hb, ih, List.takeWhile_cons_of_pos hhigh, shift_or]
        simp only [hiff]
        split
        · rw [List.map_cons, Nat.add_assoc, Nat.add_comm 1]
          rfl
        · rw [List.length_cons, Nat.add_assoc p, Nat.add_comm 1]

/-- What `string_utf8_decode` makes of a first byte for which it wants `len` more. -/
structure Follows (m : Mem) (p n len u valid : Nat) (d : Decoded) : Prop where
  cut : n ≤ len -> d.u = 0xfffffffe ∧ d.read = 1
  bad : len < n -> (¬ forall b, b ∈ load m (p + 1) len -> high b) ->
    d.u = 0xffffffff ∧ d.read = ((load m (p + 1) len).takeWhile high).length + 2
  good : len < n -> (forall b, b ∈ load m (p + 1) len -> high b) ->
    d.read = len + 1 ∧ d.p = p + (len + 1) ∧
      d.u = if valid < behind u ((load m (p + 1) len).map BitVec.toNat) then
          behind u ((load m (p + 1) len).map BitVec.toNat)
        else 0xffffffff

theorem utf8Rest_follows (len u valid : Nat) (hn : n ≠ 0) :
    Follows m p n len u valid (utf8Rest m p n len u valid) := by
  have hpred : predSize n = n - 1 := if_neg hn
  unfold utf8Rest
  rw [hpred, utf8Loop_eq]
  constructor
  · intro hcut
    rw [if_pos (by omega)]
    exact ⟨rfl, rfl⟩
  · intro hlt hbad
    rw [if_neg (by omega), if_neg hbad]
    refine ⟨rfl, ?_⟩
    dsimp only
    omega
  · intro hlt hgood
    rw [if_neg (by omega), if_pos hgood]
    refine ⟨?_, ?_, rfl⟩
    · dsimp only
      omega
    · dsimp only
      omega

def wanted (a : Nat) : Nat :=
  if 0xf0 < a then 3 else if 0xe0 < a then 2 else if 0xc0 < a then 1 else 0

def firstBits (a : Nat) : Nat :=
  if 0xf0 < a then a % 8 else if 0xe0 < a then a % 16 else a % 32

def validOf (a : Nat) : Nat :=
  if 0xf0 < a then 0xffff else if 0xe0 < a then 0x7ff else 0x7f

theorem stringUtf8Decode_none (h : wanted (m p).toNat = 0) :
    stringUtf8Decode m p n = { u := 0xffffffff, p := p + 1, read := 1 } := by
  unfold wanted at h
  unfold stringUtf8Decode
  dsimp only
  split_ifs at h ⊢
  rfl

theorem stringUtf8Decode_follows (h : wanted (m p).toNat ≠ 0) (hn : n ≠ 0) :
    Follows m p n (wanted (m p).toNat) (firstBits (m p).toNat) (validOf (m p).toNat)
      (stringUtf8Decode m p n) := by
  have h3 : (m p).toNat &&& 0x07 = (m p).toNat % 8 := Nat.and_two_pow_sub_one_eq_mod _ 3
  have h4 : (m p).toNat &&& 0x0f = (m p).toNat % 16 := Nat.and_two_pow_sub_one_eq_mod _ 4
  have h5 : (m p).toNat &&& 0x1f = (m p).toNat % 32 := Nat.and_two_pow_sub_one_eq_mod _ 5
  unfold wanted firstBits validOf at *
  unfold stringUtf8Decode
  dsimp only
  rw [h3, h4, h5]
  split_ifs at h ⊢
  · exact utf8Rest_follows 3 _ _ hn
  · exact utf8Rest_follows 2 _ _ hn
  · exact utf8Rest_follows 1 _ _ hn
  · exact absurd rfl h

theorem wanted_cases (a : Nat) :
    (a ≤ 0xc0 ∧ wanted a = 0) ∨
      (0xc1 ≤ a ∧ a ≤ 0xe0 ∧ wanted a = 1 ∧ firstBits a = a % 32 ∧ validOf a = 0x7f) ∨
      (0xe1 ≤ a ∧ a ≤ 0xf0 ∧ wanted a = 2 ∧ firstBits a = a % 16 ∧ validOf a = 0x7ff) ∨
      (0xf1 ≤ a ∧ wanted a = 3 ∧ firstBits a = a % 8 ∧ validOf a = 0xffff) := by
  unfold wanted firstBits validOf
  split_ifs <;> omega

/-- What makes the start of a text a row that is taken, in terms of the first byte. -/
def TakenAt (a : Nat) (t : List Nat) (v k : Nat) : Prop :=
  wanted a ≠ 0 ∧ wanted a ≤ t.length ∧ (forall b, b ∈ t.take (wanted a) -> 0x80 ≤ b) ∧
    k = wanted a + 1 ∧ v = behind (firstBits a) (t.take (wanted a)) ∧
    validOf a < v ∧ v ≤ 0x10ffff

theorem not_taken_at {a : Nat} (ha : a ≤ 0xc0) (t : List Nat) (v k : Nat) :
    ¬ taken.At (a :: t) v k := by
  intro h
  cases h with
  | two t h =>
      simp only [taken] at h
      omega
  | three t h =>
      simp only [taken] at h
      omega
  | four t h =>
      simp only [taken] at h
      omega

theorem taken_at_two {a : Nat} (hlo : 0xc1 ≤ a) (hhi : a ≤ 0xe0) (t : List Nat) (v k : Nat) :
    taken.At (a :: t) v k ↔ 1 ≤ t.length ∧ (forall b, b ∈ t.take 1 -> 0x80 ≤ b) ∧ k = 1 + 1 ∧
      v = behind (a % 32) (t.take 1) ∧ 0x7f < v ∧ v ≤ 0x10ffff := by
  constructor
  · intro h
    cases h with
    | two t h =>
        simp only [taken] at h
        simp [behind]
        omega
    | three t h =>
        simp only [taken] at h
        omega
    | four t h =>
        simp only [taken] at h
        omega
  · intro h
    cases t with
    | nil => exact absurd h.1 (by simp)
    | cons b t =>
        simp [behind] at h
        rcases h with ⟨hb, rfl, rfl, hlt, hle⟩
        refine Rows.At.two t ?_
        simp only [taken]
        omega

theorem taken_at_three {a : Nat} (hlo : 0xe1 ≤ a) (hhi : a ≤ 0xf0) (t : List Nat)
    (v k : Nat) :
    taken.At (a :: t) v k ↔ 2 ≤ t.length ∧ (forall b, b ∈ t.take 2 -> 0x80 ≤ b) ∧ k = 2 + 1 ∧
      v = behind (a % 16) (t.take 2) ∧ 0x7ff < v ∧ v ≤ 0x10ffff := by
  constructor
  · intro h
    cases h with
    | two t h =>
        simp only [taken] at h
        omega
    | three t h =>
        simp only [taken] at h
        simp [behind]
        omega
    | four t h =>
        simp only [taken] at h
        omega
  · intro h
    match t with
    | [] => exact absurd h.1 (by simp)
    | [b] => exact absurd h.1 (by simp)
    | b :: c :: t =>
        simp [behind] at h
        rcases h with ⟨⟨hb, hc⟩, rfl, rfl, hlt, hle⟩
        refine Rows.At.three t ?_
        simp only [taken]
        omega

theorem taken_at_four {a : Nat} (hlo : 0xf1 ≤ a) (t : List Nat) (v k : Nat) :
    taken.At (a :: t) v k ↔ 3 ≤ t.length ∧ (forall b, b ∈ t.take 3 -> 0x80 ≤ b) ∧ k = 3 + 1 ∧
      v = behind (a % 8) (t.take 3) ∧ 0xffff < v ∧ v ≤ 0x10ffff := by
  constructor
  · intro h
    cases h with
    | two t h =>
        simp only [taken] at h
        omega
    | three t h =>
        simp only [taken] at h
        omega
    | four t h =>
        simp only [taken] at h
        simp [behind]
        omega
  · intro h
    match t with
    | [] => exact absurd h.1 (by simp)
    | [b] => exact absurd h.1 (by simp)
    | [b, c] => exact absurd h.1 (by simp)
    | b :: c :: d :: t =>
        simp [behind] at h
        rcases h with ⟨⟨hb, hc, hd⟩, rfl, rfl, hlt, hle⟩
        refine Rows.At.four t ?_
        simp only [taken]
        omega

theorem taken_at_iff (a : Nat) (t : List Nat) (v k : Nat) :
    taken.At (a :: t) v k ↔ TakenAt a t v k := by
  unfold TakenAt
  rcases wanted_cases a with ⟨ha, hwanted⟩ | ⟨hlo, hhi, hwanted, hfirst, hvalid⟩ |
    ⟨hlo, hhi, hwanted, hfirst, hvalid⟩ | ⟨hlo, hwanted, hfirst, hvalid⟩
  · rw [hwanted]
    exact iff_of_false (not_taken_at ha t v k) fun h => h.1 rfl
  · rw [hwanted, hfirst, hvalid, taken_at_two hlo hhi]
    exact (and_iff_right Nat.one_ne_zero).symm
  · rw [hwanted, hfirst, hvalid, taken_at_three hlo hhi]
    exact (and_iff_right (Nat.succ_ne_zero 1)).symm
  · rw [hwanted, hfirst, hvalid, taken_at_four hlo]
    exact (and_iff_right (Nat.succ_ne_zero 2)).symm

theorem take_load_toNat {len k : Nat} (h : len ≤ k) :
    ((load m p k).map BitVec.toNat).take len = (load m p len).map BitVec.toNat := by
  rw [← List.map_take, load_take m p k len h]

theorem forall_high_iff (s : List Byte) :
    (forall b, b ∈ s.map BitVec.toNat -> 0x80 ≤ b) ↔ forall b, b ∈ s -> high b := by
  rw [List.forall_mem_map]
  exact forall_congr' fun b => imp_congr_right fun _ => high_iff.symm

theorem le_takeWhile_high_iff (s : List Byte) {i : Nat} (hi : i ≤ s.length) :
    i ≤ (s.takeWhile high).length ↔ forall b, b ∈ s.take i -> high b := by
  induction s generalizing i with
  | nil =>
      rw [Nat.le_zero.mp hi]
      exact iff_of_true (Nat.zero_le _) (fun b hb => absurd hb List.not_mem_nil)
  | cons c s ih =>
      cases i with
      | zero => exact iff_of_true (Nat.zero_le _) (fun b hb => absurd hb List.not_mem_nil)
      | succ i =>
          rw [List.take_succ_cons, List.forall_mem_cons]
          by_cases hc : high c
          · rw [List.takeWhile_cons_of_pos hc, List.length_cons, Nat.succ_le_succ_iff,
              ih (Nat.le_of_succ_le_succ hi)]
            exact (and_iff_right hc).symm
          · rw [List.takeWhile_cons_of_neg hc]
            exact iff_of_false (Nat.not_succ_le_zero i) (fun h => hc h.1)

theorem takeWhile_high_lt {s : List Byte} (h : ¬ forall b, b ∈ s -> high b) :
    (s.takeWhile high).length < s.length := by
  refine Nat.lt_of_not_le (mt (le_takeWhile_high_iff s (Nat.le_refl _)).mp ?_)
  rw [List.take_length]
  exact h

theorem Decodes.of_refused {d : Decoded}
    (hnot : forall v j, ¬ taken.At ((load m p n).map BitVec.toNat) v j)
    (hu : 0x10ffff < d.u) (hread : d.read ≤ n) : Decodes m p n d :=
  ⟨fun v j hat => absurd hat (hnot v j), fun _ => hu, hread⟩

theorem Follows.decodes {k : Nat} {d : Decoded} (hwanted : wanted (m p).toNat ≠ 0)
    (hroom : wanted (m p).toNat ≤ k)
    (hall : forall b, b ∈ load m (p + 1) (wanted (m p).toNat) -> high b)
    (h : Follows m p (k + 1) (wanted (m p).toNat) (firstBits (m p).toNat)
      (validOf (m p).toNat) d) : Decodes m p (k + 1) d := by
  have hlt : wanted (m p).toNat < k + 1 := Nat.lt_succ_of_le hroom
  rcases h.good hlt hall with ⟨hread, hp, hu⟩
  constructor
  · intro v j hat
    rw [load_toNat_succ, taken_at_iff] at hat
    rcases hat with ⟨-, -, -, hj, hv, hvalid, hmax⟩
    rw [take_load_toNat hroom] at hv
    rw [← hv, if_pos hvalid] at hu
    rw [hj]
    exact ⟨hu, hp, hread⟩
  · intro hnone
    rw [hu]
    split
    · next hvalid =>
      by_contra hle
      rw [load_toNat_succ] at hnone
      refine hnone _ _ ((taken_at_iff _ _ _ _).mpr ⟨hwanted, ?_, ?_, rfl, ?_, hvalid,
        Nat.not_lt.mp hle⟩)
      · rw [List.length_map, load_length]
        exact hroom
      · rw [take_load_toNat hroom, forall_high_iff]
        exact hall
      · rw [take_load_toNat hroom]
    · decide
  · rw [hread]
    exact hlt

theorem stringUtf8Decode_decodes (hn : n ≠ 0) : Decodes m p n (stringUtf8Decode m p n) := by
  rcases Nat.exists_eq_succ_of_ne_zero hn with ⟨k, rfl⟩
  have hnot (h : ¬ (wanted (m p).toNat ≠ 0 ∧ wanted (m p).toNat ≤ k ∧
      forall b, b ∈ load m (p + 1) (wanted (m p).toNat) -> high b)) (v j : Nat) :
      ¬ taken.At ((load m p (k + 1)).map BitVec.toNat) v j := by
    rw [load_toNat_succ, taken_at_iff]
    intro hat
    have hle := hat.2.1
    rw [List.length_map, load_length] at hle
    have hhigh := hat.2.2.1
    rw [take_load_toNat hle, forall_high_iff] at hhigh
    exact h ⟨hat.1, hle, hhigh⟩
  by_cases hwanted : wanted (m p).toNat = 0
  · rw [stringUtf8Decode_none hwanted]
    apply Decodes.of_refused (hnot fun h => h.1 hwanted)
    · show 0x10ffff < 0xffffffff
      decide
    · exact Nat.succ_le_succ (Nat.zero_le k)
  · have hfollows := @stringUtf8Decode_follows m p (k + 1) hwanted hn
    generalize stringUtf8Decode m p (k + 1) = d at hfollows
    rcases Nat.lt_or_ge k (wanted (m p).toNat) with hcut | hroom
    · rcases hfollows.cut hcut with ⟨hu, hread⟩
      apply Decodes.of_refused (hnot fun h => absurd hcut (Nat.not_lt.mpr h.2.1))
      · rw [hu]
        decide
      · rw [hread]
        exact Nat.succ_le_succ (Nat.zero_le k)
    · by_cases hall : forall b, b ∈ load m (p + 1) (wanted (m p).toNat) -> high b
      · exact hfollows.decodes hwanted hroom hall
      · rcases hfollows.bad (Nat.lt_succ_of_le hroom) hall with ⟨hu, hread⟩
        apply Decodes.of_refused (hnot fun h => hall h.2.2)
        · rw [hu]
          decide
        · have hless := takeWhile_high_lt hall
          rw [load_length] at hless
          rw [hread]
          omega

/-- `string_utf8_decode` reads beyond `r` bytes if and only if it wants so many behind the
first of them, not more than `n`, and they are all from 0x80 on. -/
theorem read_gt_iff (hn : n ≠ 0) (r : Nat) :
    r + 1 < (stringUtf8Decode m p n).read ↔
      r < wanted (m p).toNat ∧ wanted (m p).toNat < n ∧
        forall b, b ∈ load m (p + 1) r -> high b := by
  by_cases hwanted : wanted (m p).toNat = 0
  · rw [stringUtf8Decode_none hwanted, hwanted]
    exact iff_of_false (Nat.not_lt.mpr (Nat.le_add_left 1 r)) (fun h => absurd h.1 (Nat.not_lt_zero r))
  · have hfollows := @stringUtf8Decode_follows m p n hwanted hn
    generalize stringUtf8Decode m p n = d at hfollows
    rcases Nat.lt_or_ge (wanted (m p).toNat) n with hlt | hcut
    · have htake (hle : r ≤ wanted (m p).toNat) :
          (load m (p + 1) (wanted (m p).toNat)).take r = load m (p + 1) r :=
        load_take m (p + 1) _ r hle
      by_cases hall : forall b, b ∈ load m (p + 1) (wanted (m p).toNat) -> high b
      · rw [(hfollows.good hlt hall).1]
        constructor
        · intro hr
          have hless : r < wanted (m p).toNat := Nat.lt_of_succ_lt_succ hr
          refine ⟨hless, hlt, ?_⟩
          intro b hb
          rw [← htake (Nat.le_of_lt hless)] at hb
          exact hall b (List.mem_of_mem_take hb)
        · intro h
          exact Nat.succ_lt_succ h.1
      · rw [(hfollows.bad hlt hall).2]
        have hless := takeWhile_high_lt hall
        rw [load_length] at hless
        have hiff (hle : r ≤ wanted (m p).toNat) :
            r ≤ ((load m (p + 1) (wanted (m p).toNat)).takeWhile high).length ↔
              forall b, b ∈ load m (p + 1) r -> high b := by
          rw [← htake hle]
          exact le_takeWhile_high_iff _ (by rw [load_length]; exact hle)
        constructor
        · intro hr
          have hle : r < wanted (m p).toNat := by omega
          exact ⟨hle, hlt, (hiff (Nat.le_of_lt hle)).mp (by omega)⟩
        · intro h
          have hle := (hiff (Nat.le_of_lt h.1)).mpr h.2.2
          omega
    · rw [(hfollows.cut hcut).2]
      exact iff_of_false (Nat.not_lt.mpr (Nat.le_add_left 1 r))
        (fun h => absurd h.2.1 (Nat.not_lt.mpr hcut))

/-!
## Characters
-/

/-- `string_utf8_decode` returns the character whose encoding begins the `n` bytes and
leaves `*p` behind it, and returns more than 0x10ffff where there is none. -/
def DecodesRight (m : Mem) (p n : Nat) : Prop :=
  (stringUtf8Decode m p n).read ≤ n ∧
    (forall c : Char, utf8 c <+: load m p n ↔
      0x80 ≤ c.toNat ∧ (stringUtf8Decode m p n).u = c.toNat ∧
        (stringUtf8Decode m p n).p = p + (utf8 c).length) ∧
    ((forall c : Char, ¬ utf8 c <+: load m p n) -> 0x10ffff < (stringUtf8Decode m p n).u)

/-- The rows that `string_utf8_decode` gets wrong, by their first byte: with 0xe0 all
encodings; with 0xc2 to 0xdf and with 0xe1 to 0xef those with a byte from 0xc0 on or of a
surrogate; with 0xf0 all encodings and all that are long enough for three bytes; with 0xf1
to 0xf4 those with a byte from 0xc0 on, and with 0xf8 to 0xfc all, unless they stand for a
number that is too small or too large. -/
def misread : Rows where
  two a b := 0xc2 ≤ a ∧ a ≤ 0xdf ∧ 0xc0 ≤ b
  three a b c :=
    (a = 0xe0 ∧ 0xa0 ≤ b ∧ b ≤ 0xbf ∧ Tail c) ∨
      (0xe1 ≤ a ∧ a ≤ 0xef ∧ 0x80 ≤ b ∧ 0x80 ≤ c ∧
        (0xc0 ≤ b ∨ 0xc0 ≤ c ∨ a = 0xed ∧ 0xa0 ≤ b)) ∨
      (a = 0xf0 ∧ 0x80 ≤ b ∧ 0x80 ≤ c ∧ 32 ≤ b % 64)
  four a b c d :=
    (a = 0xf0 ∧ 0x90 ≤ b ∧ b ≤ 0xbf ∧ Tail c ∧ Tail d) ∨
      (0xf1 ≤ a ∧ a ≤ 0xf4 ∧ 0x80 ≤ b ∧ 0x80 ≤ c ∧ 0x80 ≤ d ∧
        (a = 0xf4 -> b % 64 < 16) ∧ (0xc0 ≤ b ∨ 0xc0 ≤ c ∨ 0xc0 ≤ d)) ∨
      (0xf8 ≤ a ∧ a ≤ 0xfc ∧ 0x80 ≤ b ∧ 0x80 ≤ c ∧ 0x80 ≤ d ∧
        (a = 0xf8 -> 16 ≤ b % 64) ∧ (a = 0xfc -> b % 64 < 16))

theorem agree_iff_not_misread {t : List Nat} (ht : forall x, x ∈ t -> x < 256) :
    encodings.Agree taken t ↔ ¬ exists v k, misread.At t v k := by
  refine Rows.agree_iff_not_at ht ?_ ?_ ?_
  · intro a b ha hb
    simp only [encodings, taken, misread, Tail]
    omega
  · intro a b c ha hb hc
    simp only [encodings, taken, misread, Tail]
    omega
  · intro a b c d ha hb hc hd
    simp only [encodings, taken, misread, Tail]
    omega

theorem Decodes.exists_taken {d : Decoded} (h : Decodes m p n d) (hu : d.u ≤ 0x10ffff) :
    exists k, taken.At ((load m p n).map BitVec.toNat) d.u k ∧ d.p = p + k := by
  by_contra hnone
  refine Nat.not_lt.mpr hu (h.refused ?_)
  intro v k hat
  rcases h.found v k hat with ⟨hv, hp, -⟩
  exact hnone ⟨k, hv ▸ hat, hp⟩

theorem taken_at_le {t : List Nat} {v k : Nat} (h : taken.At t v k) : v ≤ 0x10ffff := by
  cases t with
  | nil => cases h
  | cons a t => exact ((taken_at_iff a t v k).mp h).2.2.2.2.2.2

theorem le_toNat_of_prefix {c : Char} {b : Byte} {s : List Byte} (h : utf8 c <+: b :: s)
    (hb : 0x80 ≤ b.toNat) : 0x80 ≤ c.toNat := by
  by_contra hlt
  rw [utf8_prefix_iff] at h
  unfold utf8Bytes at h
  rw [if_pos (by omega), List.map_cons, List.cons_prefix_cons] at h
  omega

/-- `string_utf8_decode` is right if and only if no row that it misreads begins the bytes. -/
theorem decodesRight_iff (hn : n ≠ 0) (hp : 0x80 ≤ (m p).toNat) :
    DecodesRight m p n ↔ ¬ exists v k, misread.At ((load m p n).map BitVec.toNat) v k := by
  have hdecodes := @stringUtf8Decode_decodes m p n hn
  have hbytes : forall x, x ∈ (load m p n).map BitVec.toNat -> x < 256 := by
    intro x hx
    rcases List.mem_map.mp hx with ⟨b, -, rfl⟩
    exact b.isLt
  rw [← agree_iff_not_misread hbytes, ← Rows.agree_iff]
  unfold DecodesRight
  generalize stringUtf8Decode m p n = d at hdecodes
  constructor
  · intro h v k
    rcases h with ⟨-, hchar, hnone⟩
    constructor
    · intro hat
      rcases (encodings_at_char _ v k).mp hat with ⟨c, rfl, hge, hprefix, rfl⟩
      rcases (hchar c).mp hprefix with ⟨-, hu, hp'⟩
      rcases hdecodes.exists_taken (hu ▸ toNat_le c) with ⟨k, htaken, hk⟩
      rw [hu] at htaken
      have heq : k = (utf8 c).length := by omega
      exact heq ▸ htaken
    · intro hat
      rcases hdecodes.found v k hat with ⟨hu, hp', -⟩
      have hle := taken_at_le hat
      have hexists : exists c : Char, utf8 c <+: load m p n := by
        by_contra hnot
        have hlt := hnone fun c hc => hnot ⟨c, hc⟩
        omega
      rcases hexists with ⟨c, hprefix⟩
      rcases (hchar c).mp hprefix with ⟨hge, hc, hpc⟩
      refine (encodings_at_char _ v k).mpr ⟨c, hc.symm.trans hu, ?_, hprefix, ?_⟩
      · omega
      · omega
  · intro h
    refine ⟨hdecodes.read_le, ?_, ?_⟩
    · intro c
      constructor
      · intro hprefix
        have hge : 0x80 ≤ c.toNat := by
          rcases Nat.exists_eq_succ_of_ne_zero hn with ⟨j, rfl⟩
          exact le_toNat_of_prefix hprefix hp
        have hat := (encodings_at_char _ c.toNat _).mpr ⟨c, rfl, hge, hprefix, rfl⟩
        rcases hdecodes.found _ _ ((h _ _).mp hat) with ⟨hu, hp', -⟩
        exact ⟨hge, hu, hp'⟩
      · intro hright
        rcases hright with ⟨-, hu, -⟩
        rcases hdecodes.exists_taken (hu ▸ toNat_le c) with ⟨k, htaken, -⟩
        rcases (encodings_at_char _ _ _).mp ((h _ _).mpr htaken) with ⟨c', hc', -, hprefix, -⟩
        have heq : c' = c := Char.toNat_inj.mp (hc'.trans hu)
        exact heq ▸ hprefix
    · intro hnone
      refine hdecodes.refused ?_
      intro v k hat
      rcases (encodings_at_char _ v k).mp ((h v k).mpr hat) with ⟨c, -, -, hprefix, -⟩
      exact hnone c hprefix

end Strings
end NgxEpoll
