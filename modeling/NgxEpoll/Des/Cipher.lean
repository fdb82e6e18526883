import NgxEpoll.Des.Tables
import NgxEpoll.Foundation.Feistel
import Mathlib.Logic.Function.Basic
import Mathlib.Tactic.IntervalCases

/-!
# DES

`gl_des_setkey` and `gl_des_ecb_crypt` of `dfs_math.cpp`.  A block is eight bytes, and an
array of subkeys is a function of the index.

## Words and bytes
-/

namespace NgxEpoll
namespace Des

open Foundation
open NgxEpoll.Core

abbrev Block := Vector Byte 8

/-- A word of four bytes, the highest first. -/
def packed (a b c d : Byte) : Word :=
  (a.setWidth 32 <<< 24) ||| (b.setWidth 32 <<< 16) ||| (c.setWidth 32 <<< 8) |||
    d.setWidth 32

def byteAt (w : Word) (shift : Nat) : Byte :=
  ((w >>> shift) &&& 0xff).setWidth 8

def read64bitData (data : Block) : Word × Word :=
  (packed (data.get 0) (data.get 1) (data.get 2) (data.get 3),
    packed (data.get 4) (data.get 5) (data.get 6) (data.get 7))

def write64bitData (left right : Word) : Block :=
  #v[byteAt left 24, byteAt left 16, byteAt left 8, byteAt left 0,
     byteAt right 24, byteAt right 16, byteAt right 8, byteAt right 0]

/-!
## Permutations
-/

def doPermutation (a b : Word) (offset : Nat) (mask : Word) : Word × Word :=
  let temp := ((a >>> offset) ^^^ b) &&& mask
  (a ^^^ (temp <<< offset), b ^^^ temp)

def rotateLeft (x : Word) : Word :=
  (x <<< 1) ||| (x >>> 31)

def rotateRight (x : Word) : Word :=
  (x <<< 31) ||| (x >>> 1)

def initialPermutation (p : Word × Word) : Word × Word :=
  let (left, right) := p
  let (left, right) := doPermutation left right 4 0x0f0f0f0f
  let (left, right) := doPermutation left right 16 0x0000ffff
  let (right, left) := doPermutation right left 2 0x33333333
  let (right, left) := doPermutation right left 8 0x00ff00ff
  let right := rotateLeft right
  let temp := (left ^^^ right) &&& 0xaaaaaaaa
  let right := right ^^^ temp
  let left := left ^^^ temp
  (rotateLeft left, right)

def finalPermutation (p : Word × Word) : Word × Word :=
  let (left, right) := p
  let left := rotateRight left
  let temp := (left ^^^ right) &&& 0xaaaaaaaa
  let left := left ^^^ temp
  let right := right ^^^ temp
  let right := rotateRight right
  let (right, left) := doPermutation right left 8 0x00ff00ff
  let (right, left) := doPermutation right left 2 0x33333333
  let (left, right) := doPermutation left right 16 0x0000ffff
  doPermutation left right 4 0x0f0f0f0f

/-!
## Subkeys
-/

/-- The part of `des_key_schedule` before its loop. -/
def keyHalves (rawkey : Block) : Word × Word :=
  let (left, right) := read64bitData rawkey
  let (right, left) := doPermutation right left 4 0x0f0f0f0f
  let (right, left) := doPermutation right left 0 0x10101010
  let swapL := fun (shift : Nat) => leftkeySwap.getD ((left >>> shift) &&& 0xf).toNat 0
  let left :=
    (swapL 0 <<< 3) ||| (swapL 8 <<< 2) ||| (swapL 16 <<< 1) ||| swapL 24 |||
      (swapL 5 <<< 7) ||| (swapL 13 <<< 6) ||| (swapL 21 <<< 5) ||| (swapL 29 <<< 4)
  let left := left &&& 0x0fffffff
  let swapR := fun (shift : Nat) => rightkeySwap.getD ((right >>> shift) &&& 0xf).toNat 0
  let right :=
    (swapR 1 <<< 3) ||| (swapR 9 <<< 2) ||| (swapR 17 <<< 1) ||| swapR 25 |||
      (swapR 4 <<< 7) ||| (swapR 12 <<< 6) ||| (swapR 20 <<< 5) ||| (swapR 28 <<< 4)
  (left, right &&& 0x0fffffff)

def evenSubkey (left right : Word) : Word :=
  ((left <<< 4) &&& 0x24000000) ||| ((left <<< 28) &&& 0x10000000) |||
  ((left <<< 14) &&& 0x08000000) ||| ((left <<< 18) &&& 0x02080000) |||
  ((left <<< 6) &&& 0x01000000) ||| ((left <<< 9) &&& 0x00200000) |||
  ((left >>> 1) &&& 0x00100000) ||| ((left <<< 10) &&& 0x00040000) |||
  ((left <<< 2) &&& 0x00020000) ||| ((left >>> 10) &&& 0x00010000) |||
  ((right >>> 13) &&& 0x00002000) ||| ((right >>> 4) &&& 0x00001000) |||
  ((right <<< 6) &&& 0x00000800) ||| ((right >>> 1) &&& 0x00000400) |||
  ((right >>> 14) &&& 0x00000200) ||| (right &&& 0x00000100) |||
  ((right >>> 5) &&& 0x00000020) ||| ((right >>> 10) &&& 0x00000010) |||
  ((right >>> 3) &&& 0x00000008) ||| ((right >>> 18) &&& 0x00000004) |||
  ((right >>> 26) &&& 0x00000002) ||| ((right >>> 24) &&& 0x00000001)

def oddSubkey (left right : Word) : Word :=
  ((left <<< 15) &&& 0x20000000) ||| ((left <<< 17) &&& 0x10000000) |||
  ((left <<< 10) &&& 0x08000000) ||| ((left <<< 22) &&& 0x04000000) |||
  ((left >>> 2) &&& 0x02000000) ||| ((left <<< 1) &&& 0x01000000) |||
  ((left <<< 16) &&& 0x00200000) ||| ((left <<< 11) &&& 0x00100000) |||
  ((left <<< 3) &&& 0x00080000) ||| ((left >>> 6) &&& 0x00040000) |||
  ((left <<< 15) &&& 0x00020000) ||| ((left >>> 4) &&& 0x00010000) |||
  ((right >>> 2) &&& 0x00002000) ||| ((right <<< 8) &&& 0x00001000) |||
  ((right >>> 14) &&& 0x00000808) ||| ((right >>> 9) &&& 0x00000400) |||
  (right &&& 0x00000200) ||| ((right <<< 7) &&& 0x00000100) |||
  ((right >>> 7) &&& 0x00000020) ||| ((right >>> 3) &&& 0x00000011) |||
  ((right <<< 2) &&& 0x00000004) ||| ((right >>> 21) &&& 0x00000002)

def rotateHalf (half : Word) (n : Nat) : Word :=
  ((half <<< n) ||| (half >>> (28 - n))) &&& 0x0fffffff

def scheduleLoop : List Nat -> Word -> Word -> List Word
  | [], _, _ => []
  | n :: rounds, left, right =>
      let left := rotateHalf left n
      let right := rotateHalf right n
      evenSubkey left right :: oddSubkey left right :: scheduleLoop rounds left right

def desKeySchedule (rawkey : Block) : List Word :=
  scheduleLoop encryptRotateTab (keyHalves rawkey).1 (keyHalves rawkey).2

def storeWords (a : Nat -> Word) (base : Nat) (ws : List Word) : Nat -> Word :=
  fun j => if base ≤ j ∧ j < base + ws.length then ws.getD (j - base) 0 else a j

structure GlDesCtx where
  encryptSubkeys : Nat -> Word
  decryptSubkeys : Nat -> Word

def evenLoop {ctx : Type} (turn : ctx -> Nat -> ctx) (c : ctx) : ctx :=
  (List.range 16).foldl (fun c n => turn c (2 * n)) c

def setkeyTurn (ctx : GlDesCtx) (i : Nat) : GlDesCtx :=
  let d := Function.update ctx.decryptSubkeys i (ctx.encryptSubkeys (30 - i))
  { ctx with decryptSubkeys := Function.update d (i + 1) (ctx.encryptSubkeys (31 - i)) }

def glDesSetkey (ctx : GlDesCtx) (key : Block) : GlDesCtx :=
  evenLoop setkeyTurn
    { ctx with encryptSubkeys := storeWords ctx.encryptSubkeys 0 (desKeySchedule key) }

/-!
## Rounds
-/

def lookup (sbox : List Word) (work : Word) (shift : Nat) : Word :=
  sbox.getD ((work >>> shift) &&& 0x3f).toNat 0

def desRound (keys : Nat -> Word) (k : Nat) (src dst : Word) : Word :=
  let work := src ^^^ keys (2 * k)
  let dst := dst ^^^ lookup sbox8 work 0
  let dst := dst ^^^ lookup sbox6 work 8
  let dst := dst ^^^ lookup sbox4 work 16
  let dst := dst ^^^ lookup sbox2 work 24
  let work := ((src <<< 28) ||| (src >>> 4)) ^^^ keys (2 * k + 1)
  let dst := dst ^^^ lookup sbox7 work 0
  let dst := dst ^^^ lookup sbox5 work 8
  let dst := dst ^^^ lookup sbox3 work 16
  dst ^^^ lookup sbox1 work 24

/-- `n` lines with `DES_ROUND (right, left, ..) DES_ROUND (left, right, ..)`, from round `k`
on. -/
def desRounds (keys : Nat -> Word) (k : Nat) : Nat -> Word × Word -> Word × Word
  | 0, p => p
  | n + 1, p =>
      let left := desRound keys k p.2 p.1
      let right := desRound keys (k + 1) left p.2
      desRounds keys (k + 2) n (left, right)

def crypt (rounds : Word × Word -> Word × Word) (block : Block) : Block :=
  let p := rounds (initialPermutation (read64bitData block))
  let q := finalPermutation p.swap
  write64bitData q.1 q.2

def desRounds16 (keys : Nat -> Word) : Word × Word -> Word × Word :=
  desRounds keys 0 8

def glDesEcbCrypt (ctx : GlDesCtx) (block : Block) (mode : Bool) : Block × Nat :=
  let keys := if mode then ctx.decryptSubkeys else ctx.encryptSubkeys
  let dst := crypt (desRounds16 keys) block
  (dst, if dst.get 7 = 0 then dst.toList.idxOf 0 else 8)

example : (glDesEcbCrypt (glDesSetkey ⟨fun _ => 0, fun _ => 0⟩
    #v[0x13, 0x34, 0x57, 0x79, 0x9b, 0xbc, 0xdf, 0xf1])
    #v[0x01, 0x23, 0x45, 0x67, 0x89, 0xab, 0xcd, 0xef] false).1 =
    #v[0x85, 0xe8, 0x13, 0x54, 0x0f, 0x0a, 0xb4, 0x05] := by
  decide +kernel

/-!
## Permutations that are undone
-/

theorem shift_back {mask : Word} {offset : Nat} (h : (mask <<< offset) >>> offset = mask)
    (t : Word) : ((t &&& mask) <<< offset) >>> offset = t &&& mask := by
  apply BitVec.eq_of_getLsbD_eq
  intro i hi
  have hbit := congrArg (fun m => BitVec.getLsbD m i) h
  have hindex : offset + i - offset = i := Nat.add_sub_cancel_left offset i
  simp only [BitVec.getLsbD_ushiftRight, BitVec.getLsbD_shiftLeft, hindex] at hbit
  simp only [BitVec.getLsbD_ushiftRight, BitVec.getLsbD_shiftLeft, BitVec.getLsbD_and, hindex]
  rw [← hbit]
  cases decide (offset + i < 32) <;> cases decide (offset + i < offset) <;> simp

theorem xor_twice (a b : Word) : a ^^^ b ^^^ b = a := by
  rw [BitVec.xor_assoc, BitVec.xor_self, BitVec.xor_zero]

theorem doPermutation_twice {mask : Word} {offset : Nat}
    (h : (mask <<< offset) >>> offset = mask) (a b : Word) :
    doPermutation (doPermutation a b offset mask).1 (doPermutation a b offset mask).2 offset
      mask = (a, b) := by
  unfold doPermutation
  dsimp only
  have hback := shift_back h ((a >>> offset) ^^^ b)
  generalize ht : ((a >>> offset) ^^^ b) &&& mask = t at hback ⊢
  have hsame : ((a ^^^ t <<< offset) >>> offset ^^^ (b ^^^ t)) &&& mask = t := by
    rw [BitVec.ushiftRight_xor_distrib, hback, ← ht]
    apply BitVec.eq_of_getLsbD_eq
    intro i hi
    simp only [BitVec.getLsbD_and, BitVec.getLsbD_xor]
    cases (a >>> offset).getLsbD i <;> cases b.getLsbD i <;> cases mask.getLsbD i <;> rfl
  rw [hsame, xor_twice, xor_twice]

theorem rotateLeft_bit (x : Word) {i : Nat} (hi : i < 32) :
    (rotateLeft x).getLsbD i = x.getLsbD (if i = 0 then 31 else i - 1) := by
  unfold rotateLeft
  simp only [BitVec.getLsbD_or, BitVec.getLsbD_ushiftRight, BitVec.getLsbD_shiftLeft]
  split
  next h =>
    subst h
    rfl
  next h =>
    rw [BitVec.getLsbD_of_ge x (31 + i) (by omega), Bool.or_false, decide_eq_true hi,
      decide_eq_false (by omega)]
    rfl

theorem rotateRight_bit (x : Word) {i : Nat} (hi : i < 32) :
    (rotateRight x).getLsbD i = x.getLsbD (if i = 31 then 0 else i + 1) := by
  unfold rotateRight
  simp only [BitVec.getLsbD_or, BitVec.getLsbD_ushiftRight, BitVec.getLsbD_shiftLeft]
  split
  next h =>
    subst h
    rw [BitVec.getLsbD_of_ge x (1 + 31) (by omega), Bool.or_false]
    rfl
  next h =>
    rw [decide_eq_true (show i < 31 by omega), Nat.add_comm 1 i]
    simp

theorem rotateLeft_rotateRight (x : Word) : rotateLeft (rotateRight x) = x := by
  apply BitVec.eq_of_getLsbD_eq
  intro i hi
  rw [rotateLeft_bit _ hi]
  split
  next h =>
    subst h
    exact rotateRight_bit x (show 31 < 32 by decide)
  next h =>
    rw [rotateRight_bit x (show i - 1 < 32 by omega), if_neg (by omega),
      Nat.sub_add_cancel (by omega)]

theorem rotateRight_rotateLeft (x : Word) : rotateRight (rotateLeft x) = x := by
  apply BitVec.eq_of_getLsbD_eq
  intro i hi
  rw [rotateRight_bit _ hi]
  split
  next h =>
    subst h
    exact rotateLeft_bit x (show 0 < 32 by decide)
  next h =>
    rw [rotateLeft_bit x (show i + 1 < 32 by omega), if_neg (by omega), Nat.add_sub_cancel]

def exchangeOdd (p : Word × Word) : Word × Word :=
  let temp := (p.1 ^^^ p.2) &&& 0xaaaaaaaa
  (p.1 ^^^ temp, p.2 ^^^ temp)

theorem exchangeOdd_twice (p : Word × Word) : exchangeOdd (exchangeOdd p) = p := by
  have hsame : forall t : Word, (p.1 ^^^ t) ^^^ (p.2 ^^^ t) = p.1 ^^^ p.2 := by
    intro t
    rw [BitVec.xor_comm p.2 t, ← BitVec.xor_assoc, xor_twice]
  unfold exchangeOdd
  dsimp only
  rw [hsame, xor_twice, xor_twice]

def exchanges (p : Word × Word) : Word × Word :=
  let p := doPermutation p.1 p.2 4 0x0f0f0f0f
  let p := doPermutation p.1 p.2 16 0x0000ffff
  let q := doPermutation p.2 p.1 2 0x33333333
  let q := doPermutation q.1 q.2 8 0x00ff00ff
  q.swap

def exchangesBack (p : Word × Word) : Word × Word :=
  let q := doPermutation p.2 p.1 8 0x00ff00ff
  let q := doPermutation q.1 q.2 2 0x33333333
  let p := doPermutation q.2 q.1 16 0x0000ffff
  doPermutation p.1 p.2 4 0x0f0f0f0f

theorem exchangesBack_exchanges (p : Word × Word) : exchangesBack (exchanges p) = p := by
  unfold exchanges exchangesBack
  dsimp only [Prod.swap]
  rw [doPermutation_twice (by decide), doPermutation_twice (by decide)]
  dsimp only
  rw [doPermutation_twice (by decide), doPermutation_twice (by decide)]

theorem exchanges_exchangesBack (p : Word × Word) : exchanges (exchangesBack p) = p := by
  unfold exchanges exchangesBack
  dsimp only [Prod.swap]
  rw [doPermutation_twice (by decide), doPermutation_twice (by decide)]
  dsimp only
  rw [doPermutation_twice (by decide), doPermutation_twice (by decide)]

theorem initialPermutation_eq (p : Word × Word) :
    initialPermutation p =
      let q := exchanges p
      let q := exchangeOdd (q.1, rotateLeft q.2)
      (rotateLeft q.1, q.2) :=
  rfl

theorem finalPermutation_eq (p : Word × Word) :
    finalPermutation p =
      let q := exchangeOdd (rotateRight p.1, p.2)
      exchangesBack (q.1, rotateRight q.2) :=
  rfl

theorem finalPermutation_initialPermutation (p : Word × Word) :
    finalPermutation (initialPermutation p) = p := by
  rw [initialPermutation_eq, finalPermutation_eq]
  dsimp only
  rw [rotateRight_rotateLeft, exchangeOdd_twice]
  dsimp only
  rw [rotateRight_rotateLeft]
  exact exchangesBack_exchanges p

theorem initialPermutation_finalPermutation (p : Word × Word) :
    initialPermutation (finalPermutation p) = p := by
  rw [finalPermutation_eq, initialPermutation_eq]
  dsimp only
  rw [exchanges_exchangesBack]
  dsimp only
  rw [rotateLeft_rotateRight, exchangeOdd_twice]
  dsimp only
  rw [rotateLeft_rotateRight]

/-!
## Words and bytes again
-/

theorem byteAt_bit (w : Word) (shift : Nat) {i : Nat} (hi : i < 8) :
    (byteAt w shift).getLsbD i = w.getLsbD (shift + i) := by
  have hmask : (0xff : Word).getLsbD i = true := by
    revert i
    decide
  unfold byteAt
  rw [BitVec.getLsbD_setWidth, BitVec.getLsbD_and, BitVec.getLsbD_ushiftRight,
    decide_eq_true hi, Bool.true_and, hmask, Bool.and_true]

theorem packed_bit (a b c d : Byte) {i : Nat} (hi : i < 32) :
    (packed a b c d).getLsbD i = ([d, c, b, a].getD (i / 8) 0).getLsbD (i % 8) := by
  unfold packed
  simp only [BitVec.getLsbD_or, BitVec.getLsbD_shiftLeft, BitVec.getLsbD_setWidth]
  interval_cases i <;> simp

theorem byteAt_packed (a b c d : Byte) (k : Nat) (hk : k < 4) :
    byteAt (packed a b c d) (8 * k) = [d, c, b, a].getD k 0 := by
  apply BitVec.eq_of_getLsbD_eq
  intro i hi
  rw [byteAt_bit _ _ hi, packed_bit a b c d (by omega), show (8 * k + i) / 8 = k by omega,
    show (8 * k + i) % 8 = i by omega]

theorem packed_byteAt (w : Word) :
    packed (byteAt w 24) (byteAt w 16) (byteAt w 8) (byteAt w 0) = w := by
  apply BitVec.eq_of_getLsbD_eq
  intro i hi
  have hbyte : forall k, k < 4 ->
      [byteAt w 0, byteAt w 8, byteAt w 16, byteAt w 24].getD k 0 = byteAt w (8 * k) := by
    intro k hk
    interval_cases k <;> rfl
  rw [packed_bit _ _ _ _ hi, hbyte _ (by omega), byteAt_bit w _ (Nat.mod_lt _ (by decide)),
    Nat.div_add_mod]

theorem read64bitData_write64bitData (p : Word × Word) :
    read64bitData (write64bitData p.1 p.2) = p := by
  show (packed (byteAt p.1 24) (byteAt p.1 16) (byteAt p.1 8) (byteAt p.1 0),
    packed (byteAt p.2 24) (byteAt p.2 16) (byteAt p.2 8) (byteAt p.2 0)) = p
  rw [packed_byteAt, packed_byteAt]

theorem write64bitData_packed (a b c d e f g h : Byte) :
    write64bitData (packed a b c d) (packed e f g h) = #v[a, b, c, d, e, f, g, h] := by
  have h0 : byteAt (packed a b c d) 24 = a := byteAt_packed a b c d 3 (by decide)
  have h1 : byteAt (packed a b c d) 16 = b := byteAt_packed a b c d 2 (by decide)
  have h2 : byteAt (packed a b c d) 8 = c := byteAt_packed a b c d 1 (by decide)
  have h3 : byteAt (packed a b c d) 0 = d := byteAt_packed a b c d 0 (by decide)
  have h4 : byteAt (packed e f g h) 24 = e := byteAt_packed e f g h 3 (by decide)
  have h5 : byteAt (packed e f g h) 16 = f := byteAt_packed e f g h 2 (by decide)
  have h6 : byteAt (packed e f g h) 8 = g := byteAt_packed e f g h 1 (by decide)
  have h7 : byteAt (packed e f g h) 0 = h := byteAt_packed e f g h 0 (by decide)
  unfold write64bitData
  simp only [h0, h1, h2, h3, h4, h5, h6, h7]

theorem block_eta (block : Block) :
    #v[block.get 0, block.get 1, block.get 2, block.get 3, block.get 4, block.get 5,
       block.get 6, block.get 7] = block := by
  apply Vector.ext
  intro i hi
  interval_cases i <;> rfl

theorem write64bitData_read64bitData (block : Block) :
    write64bitData (read64bitData block).1 (read64bitData block).2 = block :=
  (write64bitData_packed _ _ _ _ _ _ _ _).trans (block_eta block)

theorem crypt_crypt (rounds rounds' : Word × Word -> Word × Word) (block : Block) :
    crypt rounds' (crypt rounds block) = crypt (fun p => rounds' (rounds p).swap) block := by
  unfold crypt
  dsimp only
  rw [read64bitData_write64bitData, initialPermutation_finalPermutation]

theorem crypt_swap (block : Block) : crypt Prod.swap block = block := by
  unfold crypt
  dsimp only
  rw [Prod.swap_swap, finalPermutation_initialPermutation, write64bitData_read64bitData]

end Des
end NgxEpoll
