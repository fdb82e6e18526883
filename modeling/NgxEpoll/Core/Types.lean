import NgxEpoll.Foundation.LittleEndian
import Mathlib.Algebra.Ring.Int.Defs

/-!
# Return codes and C integers

The `NGX_` codes of `dfs_types.h`, and the conversion to a 32-bit `int` that C
performs when a wider value is passed where an `int` is expected.
-/

namespace NgxEpoll
namespace Core

open Foundation

def ngxOk : Int := 0

def ngxError : Int := -1

def ngxAgain : Int := -2

def ngxBusy : Int := -3

def ngxBufferFull : Int := -9

def ngxConnClosed : Int := -10

def ngxInvalidFile : Int := -1

def cInt (n : Int) : Int :=
  n.bmod (2 ^ 32)

def cSize (n : Int) : Nat :=
  (n % 2 ^ 64).toNat

def predSize (n : Nat) : Nat :=
  if n = 0 then 2 ^ 64 - 1 else n - 1

def loadInt (m : Mem) (a : Nat) : Int :=
  (show BitVec 32 from loadWord m a 4).toInt

theorem ngxAgain_ne_ngxOk : ngxAgain ≠ ngxOk := by
  decide

/-!
## The range of `int`
-/

theorem cInt_eq (n : Int) :
    cInt n =
      if n % 4294967296 < 2147483648 then n % 4294967296
      else n % 4294967296 - 4294967296 := rfl

theorem cInt_lt (n : Int) : cInt n < 2 ^ 31 := by
  rw [cInt_eq]
  split <;> omega

theorem cInt_eq_self {n : Int} (hlo : -2 ^ 31 ≤ n) (hhi : n < 2 ^ 31) :
    cInt n = n := by
  rw [cInt_eq]
  split <;> omega

theorem cInt_sub {a b : Int} (hlo : -2 ^ 31 ≤ cInt a - b)
    (hhi : cInt a - b < 2 ^ 31) : cInt (a - b) = cInt a - b := by
  rw [cInt_eq a] at hlo hhi ⊢
  rw [cInt_eq (a - b)]
  split at hlo <;> split <;> simp_all <;> omega

theorem cInt_le_self {n : Int} (h : 0 ≤ n) : cInt n ≤ n := by
  rw [cInt_eq]
  split <;> omega

theorem cSize_le {n : Int} (h : 0 ≤ n) : (cSize n : Int) ≤ n := by
  unfold cSize
  omega

theorem loadInt_congr {m m' : Mem} {a b : Nat} (h : load m a 4 = load m' b 4) :
    loadInt m a = loadInt m' b := by
  unfold loadInt
  rw [loadWord_congr h]

theorem loadInt_of_load {m : Mem} {a : Nat} {x : BitVec 32}
    (h : load m a 4 = leBytes 4 x.toNat) : loadInt m a = x.toInt := by
  unfold loadInt
  rw [show loadWord m a 4 = x from loadWord_of_load h]

theorem toInt_ofInt_eq_cInt (n : Int) : (BitVec.ofInt 32 n).toInt = cInt n := by
  rw [BitVec.toInt_ofInt]
  rfl

end Core
end NgxEpoll
