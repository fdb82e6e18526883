import NgxEpoll.Foundation.Memory
import Mathlib.Algebra.Group.Nat.Defs

/-!
# Little-endian words

The byte image of a fixed-width machine word, least significant byte first,
and the word read back from such an image.
-/

namespace NgxEpoll
namespace Foundation

def leBytes : Nat -> Nat -> List Byte
  | 0, _ => []
  | w + 1, v => BitVec.ofNat 8 v :: leBytes w (v / 256)

def leNat : List Byte -> Nat
  | [] => 0
  | b :: bs => b.toNat + 256 * leNat bs

def loadWord (m : Mem) (a w : Nat) : BitVec (8 * w) :=
  BitVec.ofNat (8 * w) (leNat (load m a w))

@[simp] theorem leBytes_length (w v : Nat) : (leBytes w v).length = w := by
  induction w generalizing v with
  | zero => rfl
  | succ w ih => simp [leBytes, ih]

theorem leNat_leBytes (w v : Nat) : leNat (leBytes w v) = v % 256 ^ w := by
  induction w generalizing v with
  | zero => simp [leBytes, leNat, Nat.mod_one]
  | succ w ih =>
      have hpow : 256 ^ (w + 1) = 256 * 256 ^ w := by
        rw [Nat.pow_succ, Nat.mul_comm]
      simp only [leBytes, leNat, ih, BitVec.toNat_ofNat]
      rw [hpow, Nat.mod_mul]

theorem loadWord_of_load {m : Mem} {a w : Nat} {x : BitVec (8 * w)}
    (h : load m a w = leBytes w x.toNat) : loadWord m a w = x := by
  apply BitVec.eq_of_toNat_eq
  have hlt : x.toNat < 256 ^ w := by
    have := x.isLt
    rwa [Nat.pow_mul] at this
  rw [loadWord, h, leNat_leBytes, Nat.mod_eq_of_lt hlt, BitVec.toNat_ofNat,
    Nat.mod_eq_of_lt x.isLt]

theorem loadWord_congr {m m' : Mem} {a b w : Nat}
    (h : load m a w = load m' b w) : loadWord m a w = loadWord m' b w := by
  rw [loadWord, loadWord, h]

def loadNat (m : Mem) (a w : Nat) : Nat :=
  leNat (load m a w)

def storeNat (m : Mem) (a w v : Nat) : Mem :=
  store m a (leBytes w v)

theorem loadNat_add (m : Mem) (a n k : Nat) :
    loadNat m a (n + k) = loadNat m a n + 256 ^ n * loadNat m (a + n) k := by
  unfold loadNat
  induction n generalizing a with
  | zero => simp [leNat]
  | succ n ih =>
      rw [Nat.succ_add, load_succ, load_succ, leNat, leNat, ih,
        show a + 1 + n = a + (n + 1) by omega, Nat.pow_succ', Nat.mul_add, Nat.mul_assoc,
        Nat.add_assoc]

theorem leNat_replicate_zero (n : Nat) : leNat (List.replicate n 0) = 0 := by
  induction n with
  | zero => rfl
  | succ n ih =>
      rw [List.replicate_succ, leNat, ih]
      rfl

theorem loadNat_storeNat_self (m : Mem) (a w v : Nat) :
    loadNat (storeNat m a w v) a w = v % 256 ^ w := by
  have hload := load_store_self m a (leBytes w v)
  rw [leBytes_length] at hload
  rw [loadNat, storeNat, hload, leNat_leBytes]

theorem loadNat_storeNat (m : Mem) (a : Nat) {w v : Nat} (hv : v < 256 ^ w) :
    loadNat (storeNat m a w v) a w = v := by
  rw [loadNat_storeNat_self, Nat.mod_eq_of_lt hv]

theorem differsIn_storeNat (m : Mem) {a n b w : Nat} (v : Nat) (hlo : a ≤ b)
    (hhi : b + w ≤ a + n) : DiffersIn m (storeNat m b w v) a n :=
  differsIn_store m hlo (by rwa [leBytes_length])

theorem DiffersIn.loadNat_eq {m m' : Mem} {a n b w : Nat} (h : DiffersIn m m' a n)
    (hapart : Apart b w a n) : loadNat m' b w = loadNat m b w := by
  rw [loadNat, loadNat, h.load_eq hapart]

theorem loadNat_storeNat_of_apart (m : Mem) {a w b k : Nat} (v : Nat)
    (h : Apart b k a w) : loadNat (storeNat m a w v) b k = loadNat m b k :=
  (differsIn_storeNat m v (Nat.le_refl _) (Nat.le_refl _)).loadNat_eq h

theorem loadNat_lt (m : Mem) (a w : Nat) : loadNat m a w < 256 ^ w := by
  unfold loadNat
  induction w generalizing a with
  | zero => simp [leNat]
  | succ w ih =>
      have hrest := ih (a + 1)
      have hbyte := (m a).isLt
      rw [load_succ, leNat, Nat.pow_succ]
      omega

end Foundation
end NgxEpoll
