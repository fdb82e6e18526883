import Mathlib.Data.List.Basic

/-!
# Flat byte memory

An address space of bytes with block reads and block writes.  The C code under
study works on raw pointers, so a memory here is total: reading past the end of
an object reads whatever byte lies there.
-/

namespace NgxEpoll
namespace Foundation

abbrev Byte := BitVec 8

abbrev Mem := Nat -> Byte

def load (m : Mem) : Nat -> Nat -> List Byte
  | _, 0 => []
  | a, n + 1 => m a :: load m (a + 1) n

def store (m : Mem) (a : Nat) (bs : List Byte) : Mem :=
  fun i => if a ≤ i then (bs[i - a]?).getD (m i) else m i

def memmove (m : Mem) (dst src n : Nat) : Mem :=
  store m dst (load m src n)

/-- Two memories hold the same `n` bytes from address `a` on. -/
def AgreeOn (m m' : Mem) (a n : Nat) : Prop :=
  forall i, a ≤ i -> i < a + n -> m i = m' i

/-- The `n` bytes at `a` and the `k` bytes at `b` share no
address. -/
def Apart (a n b k : Nat) : Prop :=
  n = 0 ∨ k = 0 ∨ a + n ≤ b ∨ b + k ≤ a

instance (a n b k : Nat) : Decidable (Apart a n b k) :=
  inferInstanceAs (Decidable (_ ∨ _ ∨ _ ∨ _))

theorem Apart.mono {a n b k b' k' : Nat} (h : Apart a n b k) (hlo : b ≤ b')
    (hhi : b' + k' ≤ b + k) : Apart a n b' k' := by
  unfold Apart at *
  omega

/-!
## Reading
-/

@[simp] theorem load_zero (m : Mem) (a : Nat) : load m a 0 = [] := rfl

theorem load_succ (m : Mem) (a n : Nat) :
    load m a (n + 1) = m a :: load m (a + 1) n := rfl

@[simp] theorem load_length (m : Mem) (a n : Nat) :
    (load m a n).length = n := by
  induction n generalizing a with
  | zero => rfl
  | succ n ih => simp [load_succ, ih]

theorem load_add (m : Mem) (a n k : Nat) :
    load m a (n + k) = load m a n ++ load m (a + n) k := by
  induction n generalizing a with
  | zero => simp
  | succ n ih =>
      rw [show n + 1 + k = (n + k) + 1 by omega, load_succ, load_succ, ih,
        show a + 1 + n = a + (n + 1) by omega]
      rfl

theorem load_take (m : Mem) (a n k : Nat) (h : k ≤ n) :
    (load m a n).take k = load m a k := by
  rw [show n = k + (n - k) by omega, load_add, List.take_append_of_le_length]
  · exact List.take_of_length_le (by simp)
  · simp

theorem load_drop (m : Mem) (a n k : Nat) (h : k ≤ n) :
    (load m a n).drop k = load m (a + k) (n - k) := by
  rw [show n = k + (n - k) by omega, load_add, List.drop_append_of_le_length]
  · rw [List.drop_of_length_le (by simp), List.nil_append,
      show k + (n - k) - k = n - k by omega]
  · simp

theorem load_getElem? (m : Mem) (a n i : Nat) :
    (load m a n)[i]? = if i < n then some (m (a + i)) else none := by
  induction n generalizing a i with
  | zero => simp
  | succ n ih =>
      cases i with
      | zero => simp [load_succ]
      | succ i =>
          rw [load_succ, List.getElem?_cons_succ, ih]
          simp only [Nat.add_lt_add_iff_right]
          rw [show a + 1 + i = a + (i + 1) by omega]

theorem load_eq_iff_agreeOn (m m' : Mem) (a n : Nat) :
    load m a n = load m' a n ↔ AgreeOn m m' a n := by
  constructor
  · intro h i hlo hhi
    have hget := congrArg (fun bs => bs[i - a]?) h
    simp only [load_getElem?] at hget
    rw [if_pos (by omega), if_pos (by omega),
      show a + (i - a) = i by omega] at hget
    exact Option.some.inj hget
  · intro h
    apply List.ext_getElem?
    intro i
    rw [load_getElem?, load_getElem?]
    by_cases hi : i < n
    · rw [if_pos hi, if_pos hi, h (a + i) (by omega) (by omega)]
    · rw [if_neg hi, if_neg hi]

theorem load_part {m m' : Mem} {a b n k w : Nat}
    (h : load m a n = load m' b n) (hkw : k + w ≤ n) :
    load m (a + k) w = load m' (b + k) w := by
  have hpart : forall (m : Mem) (a : Nat),
      load m (a + k) w = ((load m a n).drop k).take w := by
    intro m a
    rw [load_drop m a n k (by omega), load_take m (a + k) (n - k) w (by omega)]
  rw [hpart m a, hpart m' b, h]

theorem load_initial {m m' : Mem} {a b n w : Nat}
    (h : load m a n = load m' b n) (hw : w ≤ n) : load m a w = load m' b w := by
  rw [← load_take m a n w hw, ← load_take m' b n w hw, h]

theorem AgreeOn.trans {m m' m'' : Mem} {a n : Nat} (h : AgreeOn m m' a n)
    (h' : AgreeOn m' m'' a n) : AgreeOn m m'' a n :=
  fun i hlo hhi => (h i hlo hhi).trans (h' i hlo hhi)

theorem AgreeOn.mono {m m' : Mem} {a n b k : Nat} (h : AgreeOn m m' a n)
    (hlo : a ≤ b) (hhi : b + k ≤ a + n) : AgreeOn m m' b k := by
  intro i hbi hik
  exact h i (by omega) (by omega)

theorem load_eq_append_iff {m : Mem} {a n : Nat} {xs ys : List Byte}
    (hlen : n = xs.length + ys.length) :
    load m a n = xs ++ ys ↔
      load m a xs.length = xs ∧ load m (a + xs.length) ys.length = ys := by
  subst hlen
  rw [load_add]
  constructor
  · intro h
    exact List.append_inj h (by simp)
  · rintro ⟨hx, hy⟩
    rw [hx, hy]

def asMem (bs : List Byte) : Mem :=
  fun i => bs.getD i 0

theorem load_asMem (bs : List Byte) : load (asMem bs) 0 bs.length = bs := by
  apply List.ext_getElem?
  intro i
  rw [load_getElem?]
  by_cases hi : i < bs.length
  · simp [hi, asMem]
  · rw [if_neg hi, List.getElem?_eq_none (by omega)]

/-!
## Writing
-/

@[simp] theorem store_nil (m : Mem) (a : Nat) : store m a [] = m := by
  funext i
  simp [store]

theorem store_apply_inside (m : Mem) (a : Nat) (bs : List Byte) (i : Nat)
    (h : i < bs.length) : store m a bs (a + i) = bs[i] := by
  have hsub : a + i - a = i := by omega
  simp [store, hsub, h]

theorem store_apply_outside (m : Mem) (a : Nat) (bs : List Byte) (i : Nat)
    (h : i < a ∨ a + bs.length ≤ i) : store m a bs i = m i := by
  unfold store
  by_cases hle : a ≤ i
  · rw [if_pos hle, List.getElem?_eq_none (by omega)]
    rfl
  · rw [if_neg hle]

theorem load_store_self (m : Mem) (a : Nat) (bs : List Byte) :
    load (store m a bs) a bs.length = bs := by
  apply List.ext_getElem?
  intro i
  rw [load_getElem?]
  by_cases hi : i < bs.length
  · rw [if_pos hi, store_apply_inside m a bs i hi, List.getElem?_eq_getElem hi]
  · rw [if_neg hi, List.getElem?_eq_none (by omega)]

theorem agreeOn_store_of_apart (m : Mem) (a : Nat) (bs : List Byte)
    (b n : Nat) (h : Apart b n a bs.length) :
    AgreeOn (store m a bs) m b n := by
  intro i hlo hhi
  rcases h with h | h | h | h
  · omega
  · have hnil : bs = [] := List.length_eq_zero_iff.mp h
    rw [hnil, store_nil]
  · exact store_apply_outside m a bs i (Or.inl (by omega))
  · exact store_apply_outside m a bs i (Or.inr (by omega))

theorem load_store_of_apart (m : Mem) (a : Nat) (bs : List Byte) (b n : Nat)
    (h : Apart b n a bs.length) :
    load (store m a bs) b n = load m b n :=
  (load_eq_iff_agreeOn _ _ b n).mpr (agreeOn_store_of_apart m a bs b n h)

theorem store_append (m : Mem) (a : Nat) (xs ys : List Byte) :
    store (store m a xs) (a + xs.length) ys = store m a (xs ++ ys) := by
  funext i
  unfold store
  by_cases hx : a + xs.length ≤ i
  · have hsub : i - a - xs.length = i - (a + xs.length) := by omega
    rw [if_pos hx, if_pos (by omega), if_pos (by omega),
      List.getElem?_append_right (by omega), hsub,
      List.getElem?_eq_none (show xs.length ≤ i - a by omega)]
    rfl
  · rw [if_neg hx]
    by_cases ha : a ≤ i
    · rw [if_pos ha, if_pos ha, List.getElem?_append_left (by omega)]
    · rw [if_neg ha, if_neg ha]

/-!
## Changes in one place
-/

/-- Outside the `n` bytes at `a` the memories are the same. -/
def DiffersIn (m m' : Mem) (a n : Nat) : Prop :=
  forall i, i < a ∨ a + n ≤ i -> m' i = m i

theorem DiffersIn.refl (m : Mem) (a n : Nat) : DiffersIn m m a n :=
  fun _ _ => rfl

theorem DiffersIn.trans {m m' m'' : Mem} {a n : Nat} (h : DiffersIn m m' a n)
    (h' : DiffersIn m' m'' a n) : DiffersIn m m'' a n :=
  fun i hi => (h' i hi).trans (h i hi)

theorem DiffersIn.mono {m m' : Mem} {a n b k : Nat} (h : DiffersIn m m' a n)
    (hlo : b ≤ a) (hhi : a + n ≤ b + k) : DiffersIn m m' b k :=
  fun i hi => h i (by omega)

theorem differsIn_store (m : Mem) {a n b : Nat} {bs : List Byte} (hlo : a ≤ b)
    (hhi : b + bs.length ≤ a + n) : DiffersIn m (store m b bs) a n :=
  fun i hi => store_apply_outside m b bs i (by omega)

theorem DiffersIn.load_eq {m m' : Mem} {a n b k : Nat} (h : DiffersIn m m' a n)
    (hapart : Apart b k a n) : load m' b k = load m b k := by
  refine (load_eq_iff_agreeOn _ _ _ _).mpr fun i hlo hhi => ?_
  by_cases hn : n = 0
  · exact h i (by omega)
  · unfold Apart at hapart
    exact h i (by omega)

end Foundation
end NgxEpoll
