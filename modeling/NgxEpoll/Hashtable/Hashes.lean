import NgxEpoll.Core.Strings
import NgxEpoll.Foundation.LittleEndian

/-!
# The hash functions of the hash table

`dfs_hashtable_hash_hash4`, `dfs_hashtable_hash_key8` and `dfs_hashtable_hash_low` on
a flat memory, with sums and products of a `size_t`.

## The functions
-/

namespace NgxEpoll
namespace Hashtable

open Foundation NgxEpoll.Core

def dfsHash4 (x : BitVec 64) (c : Byte) : BitVec 64 :=
  (x <<< 5) + x + c.signExtend 64

def hash4Bytes (m : Mem) : Nat -> Nat -> BitVec 64 -> BitVec 64
  | 0, _, ret => ret
  | k + 1, key, ret => hash4Bytes m k (key + 1) (dfsHash4 ret (m key))

def hash4Loop (m : Mem) : Nat -> Nat -> BitVec 64 -> BitVec 64
  | 0, _, ret => ret
  | loop + 1, key, ret => hash4Loop m loop (key + 8) (hash4Bytes m 8 key ret)

def hashHash4 (m : Mem) (data dataSize hashtableSize : Nat) : Nat :=
  let first := if dataSize % 8 = 0 then 0 else 1
  let ret := hash4Bytes m first data 0#64
  (hash4Loop m (dataSize / 8) (data + first) ret).toNat % hashtableSize

def key8Loop (m : Mem) (bnum : Nat) : Nat -> Nat -> BitVec 64 -> BitVec 64
  | 0, _, n => n
  | turns + 1, s, n =>
      let one : BitVec 64 := loadWord m s 8
      let one := if bnum ≠ 0 ∧ turns = 0 then one >>> (bnum * 8) else one
      key8Loop m bnum turns (s + 8) (n ^^^ 271#64 * one)

def hashKey8 (m : Mem) (data dataSize hashtableSize : Nat) : Nat :=
  let bnum := dataSize % 8
  let loop := dataSize / 8 + if bnum = 0 then 0 else 1
  (key8Loop m bnum loop data 0#64 ^^^ BitVec.ofNat 64 (loop * 271)).toNat % hashtableSize

/-- The loop of `dfs_hashtable_hash_low`, with the bytes that are left; behind them the
byte that is looked at makes no difference. -/
def lowLoop (m : Mem) : Nat -> Nat -> BitVec 64 -> BitVec 64
  | 0, _, n => n
  | left + 1, s, n =>
      if m s = 0 then n
      else lowLoop m left (s + 1) (n * 31#64 + (stringXxctolower (m s)).setWidth 64)

def hashLow (m : Mem) (data dataSize hashtableSize : Nat) : Nat :=
  (lowLoop m dataSize data 0#64).toNat % hashtableSize

inductive HashFn where
  | hash4
  | key8
  | low
deriving DecidableEq

def HashFn.hash : HashFn -> Mem -> Nat -> Nat -> Nat -> Nat
  | hash4 => hashHash4
  | key8 => hashKey8
  | low => hashLow

/-!
## Bytes of the key
-/

variable {m m' : Mem} {a a' : Nat}

theorem load_cons_eq {n : Nat} (h : load m a (n + 1) = load m' a' (n + 1)) :
    m a = m' a' ∧ load m (a + 1) n = load m' (a' + 1) n := by
  rw [load_succ, load_succ] at h
  exact List.cons.inj h

theorem hash4Bytes_eq (k key : Nat) (ret : BitVec 64) :
    hash4Bytes m k key ret = (load m key k).foldl dfsHash4 ret := by
  induction k generalizing key ret with
  | zero => rfl
  | succ k ih =>
      unfold hash4Bytes
      rw [ih, load_succ]
      rfl

theorem hash4Loop_eq (loop key : Nat) (ret : BitVec 64) :
    hash4Loop m loop key ret = (load m key (8 * loop)).foldl dfsHash4 ret := by
  induction loop generalizing key ret with
  | zero => rfl
  | succ loop ih =>
      unfold hash4Loop
      rw [ih, hash4Bytes_eq, ← List.foldl_append, ← load_add]
      congr 2
      omega

theorem hashHash4_eq (data dataSize hashtableSize : Nat) :
    hashHash4 m data dataSize hashtableSize =
      ((load m data ((if dataSize % 8 = 0 then 0 else 1) + 8 * (dataSize / 8))).foldl
        dfsHash4 0#64).toNat % hashtableSize := by
  unfold hashHash4
  dsimp only
  rw [hash4Loop_eq, hash4Bytes_eq, ← List.foldl_append, ← load_add]

theorem hashHash4_local {n size : Nat} (h : load m a n = load m' a' n) :
    hashHash4 m a n size = hashHash4 m' a' n size := by
  rw [hashHash4_eq, hashHash4_eq, load_initial h]
  split
  · omega
  · omega

theorem lowLoop_local {n : Nat} (h : load m a n = load m' a' n) (x : BitVec 64) :
    lowLoop m n a x = lowLoop m' n a' x := by
  induction n generalizing a a' x with
  | zero => rfl
  | succ n ih =>
      obtain ⟨hbyte, hrest⟩ := load_cons_eq h
      unfold lowLoop
      rw [hbyte, ih hrest]

/-!
## Words
-/

theorem key8Loop_local (turns : Nat) (h : load m a (8 * turns) = load m' a' (8 * turns))
    (n : BitVec 64) : key8Loop m 0 turns a n = key8Loop m' 0 turns a' n := by
  induction turns generalizing a a' n with
  | zero => rfl
  | succ turns ih =>
      have hword : loadWord m a 8 = loadWord m' a' 8 :=
        loadWord_congr (load_initial h (by omega))
      have hrest : load m (a + 8) (8 * turns) = load m' (a' + 8) (8 * turns) :=
        load_part h (by omega)
      unfold key8Loop
      rw [hword, ih hrest]

theorem hashKey8_local {n size : Nat} (hn : n % 8 = 0) (h : load m a n = load m' a' n) :
    hashKey8 m a n size = hashKey8 m' a' n size := by
  have hlen : 8 * (n / 8) = n := by omega
  unfold hashKey8
  dsimp only
  rw [if_pos hn, hn, Nat.add_zero, key8Loop_local (n / 8) (hlen.symm ▸ h)]

/-- The last word, when it is not whole: the bytes of the key are shifted out, and those
behind it are left. -/
theorem last_word (s : Nat) {bnum : Nat} (hb : bnum ≤ 8) :
    (loadWord m s 8 : BitVec 64) >>> (bnum * 8) =
      BitVec.ofNat 64 (loadNat m (s + bnum) (8 - bnum)) := by
  have hsplit := loadNat_add m s bnum (8 - bnum)
  rw [show bnum + (8 - bnum) = 8 by omega] at hsplit
  have hlow := loadNat_lt m s bnum
  have hword : loadNat m s 8 < 2 ^ 64 := loadNat_lt m s 8
  have hhigh : loadNat m (s + bnum) (8 - bnum) < 2 ^ 64 :=
    Nat.lt_of_lt_of_le (loadNat_lt m _ _)
      (show 256 ^ (8 - bnum) ≤ 256 ^ 8 from Nat.pow_le_pow_right (by decide) (by omega))
  have hpow : 2 ^ (bnum * 8) = 256 ^ bnum := by
    rw [Nat.mul_comm, Nat.pow_mul]
  apply BitVec.eq_of_toNat_eq
  rw [BitVec.toNat_ushiftRight, Nat.shiftRight_eq_div_pow, hpow, loadWord]
  change BitVec.toNat (BitVec.ofNat 64 (loadNat m s 8)) / 256 ^ bnum =
    BitVec.toNat (BitVec.ofNat 64 (loadNat m (s + bnum) (8 - bnum)))
  rw [BitVec.toNat_ofNat, BitVec.toNat_ofNat, Nat.mod_eq_of_lt hword,
    Nat.mod_eq_of_lt hhigh, hsplit, Nat.add_mul_div_left _ _ (Nat.pow_pos (by decide)),
    Nat.div_eq_of_lt hlow, Nat.zero_add]

theorem key8Loop_last (turns : Nat) {bnum : Nat} (hb : bnum ≠ 0) (hlt : bnum < 8) (s : Nat)
    (n : BitVec 64) :
    key8Loop m bnum (turns + 1) s n = key8Loop m 0 turns s n ^^^
      271#64 * BitVec.ofNat 64 (loadNat m (s + 8 * turns + bnum) (8 - bnum)) := by
  induction turns generalizing s n with
  | zero =>
      unfold key8Loop
      dsimp only
      rw [if_pos ⟨hb, rfl⟩, last_word s (Nat.le_of_lt hlt)]
      rfl
  | succ turns ih =>
      have hwhole : key8Loop m bnum (turns + 2) s n =
          key8Loop m bnum (turns + 1) (s + 8) (n ^^^ 271#64 * loadWord m s 8) := by
        rw [key8Loop, if_neg (by omega)]
      have hnone : key8Loop m 0 (turns + 1) s n =
          key8Loop m 0 turns (s + 8) (n ^^^ 271#64 * loadWord m s 8) := by
        rw [key8Loop, if_neg (by omega)]
      rw [hwhole, ih, hnone, show s + 8 + 8 * turns = s + 8 * (turns + 1) by omega]

theorem hashKey8_last {n : Nat} (hn : n % 8 ≠ 0) (size : Nat) :
    hashKey8 m a n size =
      (key8Loop m 0 (n / 8) a 0#64 ^^^
        271#64 * BitVec.ofNat 64 (loadNat m (a + n) (8 - n % 8)) ^^^
        BitVec.ofNat 64 ((n / 8 + 1) * 271)).toNat % size := by
  unfold hashKey8
  dsimp only
  rw [if_neg hn, key8Loop_last _ hn (Nat.mod_lt _ (by decide)),
    show a + 8 * (n / 8) + n % 8 = a + n by omega]

/-!
## Bytes behind the key
-/

theorem key8Loop_zeros (turns : Nat) (h : load m a (8 * turns) = List.replicate (8 * turns) 0)
    (n : BitVec 64) : key8Loop m 0 turns a n = n := by
  induction turns generalizing a n with
  | zero => rfl
  | succ turns ih =>
      rw [show 8 * (turns + 1) = 8 + 8 * turns by omega, List.replicate_add,
        load_eq_append_iff (by simp)] at h
      rw [List.length_replicate, List.length_replicate] at h
      have hword : loadWord m a 8 = BitVec.ofNat 64 0 := by
        rw [loadWord, h.1, leNat_replicate_zero]
      rw [key8Loop, if_neg (by omega), hword, ih h.2]
      simp

def wordKey (n : Nat) (word : BitVec 64) : List Byte :=
  if n < 8 then List.replicate n 0
  else leBytes 8 word.toNat ++ List.replicate (n - 8) 0

def leaky (n : Nat) (word : BitVec 64) (x : Byte) : Mem :=
  asMem (wordKey n word ++ x :: List.replicate 7 0)

theorem wordKey_length (n : Nat) (word : BitVec 64) : (wordKey n word).length = n := by
  unfold wordKey
  split
  · rw [List.length_replicate]
  · rw [List.length_append, leBytes_length, List.length_replicate]
    omega

theorem leaky_load (n : Nat) (word : BitVec 64) (x : Byte) :
    load (leaky n word x) 0 n = wordKey n word ∧
      load (leaky n word x) n 8 = x :: List.replicate 7 0 := by
  have hload := load_asMem (wordKey n word ++ x :: List.replicate 7 0)
  have hparts := (load_eq_append_iff List.length_append).mp hload
  rw [wordKey_length, Nat.zero_add] at hparts
  exact hparts

theorem leaky_behind (n : Nat) (word : BitVec 64) (x : Byte) {k : Nat} (hk : 0 < k)
    (hle : k ≤ 8) : loadNat (leaky n word x) n k = x.toNat := by
  obtain ⟨k, rfl⟩ := Nat.exists_eq_succ_of_ne_zero (Nat.ne_of_gt hk)
  unfold loadNat
  rw [← load_take _ n 8 _ hle, (leaky_load n word x).2, List.take_succ_cons,
    List.take_replicate, leNat, leNat_replicate_zero, Nat.mul_zero, Nat.add_zero]

theorem leaky_words (n : Nat) (word : BitVec 64) (x : Byte) :
    key8Loop (leaky n word x) 0 (n / 8) 0 0#64 = if n < 8 then 0#64 else 271#64 * word := by
  have hkey := (leaky_load n word x).1
  unfold wordKey at hkey
  split
  · rename_i hless
    rw [Nat.div_eq_of_lt hless]
    rfl
  · rename_i hless
    rw [if_neg hless] at hkey
    have hparts := (load_eq_append_iff (by
      rw [leBytes_length, List.length_replicate]
      omega)).mp hkey
    rw [leBytes_length, List.length_replicate, Nat.zero_add] at hparts
    obtain ⟨k, hk⟩ := Nat.exists_eq_succ_of_ne_zero (show n / 8 ≠ 0 by omega)
    have hzeros : load (leaky n word x) 8 (8 * k) = List.replicate (8 * k) 0 := by
      rw [← load_take _ 8 (n - 8) _ (by omega), hparts.2, List.take_replicate,
        Nat.min_eq_left (by omega)]
    have hword : (loadWord (leaky n word x) 0 8 : BitVec 64) = word :=
      loadWord_of_load hparts.1
    rw [hk, Nat.succ_eq_add_one, key8Loop, if_neg (by omega), hword,
      key8Loop_zeros k hzeros, BitVec.zero_xor]

def inv271 : BitVec 64 := 15383631589145234927#64

/-- A first word for which the hash of the key does not depend on its length. -/
def levelWord (n : Nat) : BitVec 64 :=
  inv271 * (271#64 ^^^ BitVec.ofNat 64 ((n / 8 + 1) * 271))

theorem leaky_hash {n : Nat} (hn : n % 8 ≠ 0) (x : Byte) (size : Nat) :
    hashKey8 (leaky n (levelWord n) x) 0 n size =
      (271#64 * BitVec.ofNat 64 x.toNat ^^^ 271#64).toNat % size := by
  rw [hashKey8_last hn, leaky_words, Nat.zero_add,
    leaky_behind n _ x (by omega) (Nat.sub_le ..)]
  congr 2
  generalize 271#64 * BitVec.ofNat 64 x.toNat = last
  split
  · rename_i hless
    rw [Nat.div_eq_of_lt hless, BitVec.zero_xor]
  · have hword : 271#64 * levelWord n =
        271#64 ^^^ BitVec.ofNat 64 ((n / 8 + 1) * 271) := by
      unfold levelWord
      rw [← BitVec.mul_assoc, show 271#64 * inv271 = 1#64 by decide, BitVec.one_mul]
    rw [hword]
    generalize BitVec.ofNat 64 ((n / 8 + 1) * 271) = c
    rw [BitVec.xor_assoc, BitVec.xor_comm last c, ← BitVec.xor_assoc, BitVec.xor_assoc _ c c,
      BitVec.xor_self, BitVec.xor_zero, BitVec.xor_comm]

/-!
## The law
-/

/-- The hash of a key of `n` bytes is below the table size and the same wherever its
bytes are. -/
def Local (f : HashFn) (n size : Nat) : Prop :=
  forall m m' a a', load m a n = load m' a' n ->
    f.hash m a n size < size ∧ f.hash m a n size = f.hash m' a' n size

theorem HashFn.hash_lt (f : HashFn) (m : Mem) (a n : Nat) {size : Nat} (hsize : 0 < size) :
    f.hash m a n size < size := by
  cases f with
  | hash4 => exact Nat.mod_lt _ hsize
  | key8 => exact Nat.mod_lt _ hsize
  | low => exact Nat.mod_lt _ hsize

theorem local_of_whole {f : HashFn} {n size : Nat} (hsize : 0 < size)
    (hwhole : f = HashFn.key8 -> n % 8 = 0) : Local f n size := by
  intro m m' a a' h
  refine ⟨f.hash_lt m a n hsize, ?_⟩
  cases f with
  | hash4 => exact hashHash4_local h
  | key8 => exact hashKey8_local (hwhole rfl) h
  | low => exact congrArg (fun x => x.toNat % size) (lowLoop_local h 0#64)

theorem size_one_of_local {n size : Nat} (hn : n % 8 ≠ 0)
    (h : Local HashFn.key8 n size) : size = 1 := by
  have hsame : forall x, hashKey8 (leaky n (levelWord n) x) 0 n size =
      hashKey8 (leaky n (levelWord n) 1) 0 n size := by
    intro x
    refine (h _ _ 0 0 ?_).2
    rw [(leaky_load n _ x).1, (leaky_load n _ 1).1]
  have hzero := hsame 0
  have htwo := hsame 2
  rw [leaky_hash hn, leaky_hash hn] at hzero htwo
  have hone : (271#64 * BitVec.ofNat 64 (1 : Byte).toNat ^^^ 271#64).toNat = 0 := by decide
  have h271 : (271#64 * BitVec.ofNat 64 (0 : Byte).toNat ^^^ 271#64).toNat = 271 := by decide
  have h785 : (271#64 * BitVec.ofNat 64 (2 : Byte).toNat ^^^ 271#64).toNat = 785 := by decide
  rw [hone, Nat.zero_mod] at hzero htwo
  rw [h271] at hzero
  rw [h785] at htwo
  exact Nat.dvd_one.mp (Nat.dvd_gcd (Nat.dvd_of_mod_eq_zero hzero)
    (Nat.dvd_of_mod_eq_zero htwo))

/-- The law of the hash functions holds, but for `dfs_hashtable_hash_key8` with a last
word that is not whole and more than one bucket. -/
theorem hash_local_iff (f : HashFn) (dataSize size : UInt64) (hsize : 0 < size.toNat) :
    Local f dataSize.toNat size.toNat ↔
      (f = HashFn.key8 -> dataSize.toNat % 8 = 0 ∨ size = 1) := by
  constructor
  · intro h hf
    subst hf
    by_cases hn : dataSize.toNat % 8 = 0
    · exact Or.inl hn
    · exact Or.inr (UInt64.toNat_inj.mp (size_one_of_local hn h))
  · intro h
    by_cases hn : f = HashFn.key8 -> dataSize.toNat % 8 = 0
    · exact local_of_whole hsize hn
    · obtain ⟨hf, hn⟩ := Classical.not_imp.mp hn
      have hone := (h hf).resolve_left hn
      subst hone
      intro m m' a a' _
      have hlt := f.hash_lt m a dataSize.toNat hsize
      have hlt' := f.hash_lt m' a' dataSize.toNat hsize
      rw [show (1 : UInt64).toNat = 1 from rfl] at *
      omega

theorem hash_local_iff_whole : 0 < (7951 : UInt64).toNat ∧
    Local HashFn.key8 (16 : UInt64).toNat (7951 : UInt64).toNat :=
  ⟨by decide, (hash_local_iff HashFn.key8 16 7951 (by decide)).mpr
    fun _ => Or.inl (by decide)⟩

theorem hash_local_behind :
    load (asMem [7, 0]) 0 1 = load (asMem [7, 1]) 0 1 ∧
      HashFn.key8.hash (asMem [7, 0]) 0 1 7951 ≠ HashFn.key8.hash (asMem [7, 1]) 0 1 7951 := by
  decide

end Hashtable
end NgxEpoll
