import NgxEpoll.Core.Types

/-!
# Byte strings

Functions of `dfs_string.cpp` and of the C library.  A byte string is followed by a
zero byte, which is not part of the list.
-/

namespace NgxEpoll
namespace Core

open Foundation

def ascii (s : String) : List Byte :=
  s.toList.map fun c => BitVec.ofNat 8 c.toNat

def cString (s : List Byte) : List Byte :=
  s.takeWhile fun c => c ≠ 0

def isDigit (c : Byte) : Bool :=
  48 ≤ c.toNat && c.toNat ≤ 57

def isUpper (c : Byte) : Bool :=
  65 ≤ c.toNat && c.toNat ≤ 90

def isLower (c : Byte) : Bool :=
  97 ≤ c.toNat && c.toNat ≤ 122

def isHexLetter (ch : Byte) : Bool :=
  97 ≤ (ch ||| 0x20).toNat && (ch ||| 0x20).toNat ≤ 102

def isalnum (c : Byte) : Bool :=
  isDigit c || isUpper c || isLower c

def toupper (c : Byte) : Byte :=
  if isLower c then BitVec.ofNat 8 (c.toNat - 32) else c

def stringXxctolower (c : Byte) : Byte :=
  if isUpper c then c ||| 0x20 else c

def stringXxstrncasecmp : List Byte -> List Byte -> Nat -> Int
  | _, _, 0 => 0
  | s1, s2, n + 1 =>
      let c1 := stringXxctolower (s1.headD 0)
      let c2 := stringXxctolower (s2.headD 0)
      if c1 = c2 then
        if c1 ≠ 0 then stringXxstrncasecmp s1.tail s2.tail n else 0
      else (c1.toNat : Int) - c2.toNat

def strchr (s : List Byte) (c : Byte) : Option Nat :=
  (cString s).findIdx? fun x => x = c

def strstr (s t : List Byte) : Prop :=
  t <:+: cString s

instance (s t : List Byte) : Decidable (strstr s t) :=
  inferInstanceAs (Decidable (_ <:+: _))

def digitOf (c : Byte) : Nat :=
  c.toNat - 48

def strtouiLoop : BitVec 32 -> List Byte -> BitVec 32
  | value, [] => value
  | value, c :: line =>
      if isDigit c then strtouiLoop (value * 10 + BitVec.ofNat 32 (digitOf c)) line
      else BitVec.ofInt 32 ngxError

def stringXxstrtoui (line : List Byte) : BitVec 32 :=
  if line = [] then BitVec.ofInt 32 ngxError else strtouiLoop 0 line

/-- The loop of `string_xxstrtotime`.  An overflow wraps. -/
def strtotimeLoop : BitVec 64 -> List Byte -> BitVec 64
  | value, [] => value
  | value, c :: line =>
      if isDigit c then strtotimeLoop (value * 10 + BitVec.ofNat 64 (digitOf c)) line
      else BitVec.ofInt 64 ngxError

def stringXxstrtotime (line : List Byte) : BitVec 64 :=
  if line = [] then BitVec.ofInt 64 ngxError else strtotimeLoop 0 line

/-- The loop of `string_xxstrtoi`.  An overflow wraps. -/
def strtoiLoop : Int -> List Byte -> Int
  | value, [] => value
  | value, c :: line =>
      if isDigit c then strtoiLoop (cInt (value * 10 + digitOf c)) line else value

def stringXxstrtoi : List Byte -> Int
  | [] => 0
  | c :: line => if c = 0x2d then cInt (-strtoiLoop 0 line) else strtoiLoop 0 (c :: line)

example : stringXxstrncasecmp (ascii "Server") (ascii "sERVER") 6 = 0 := by decide
example : stringXxstrtoui (ascii "4294967300") = 4 := by decide

end Core
end NgxEpoll
