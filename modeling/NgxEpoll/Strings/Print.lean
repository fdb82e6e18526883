import NgxEpoll.Core.Strings
import NgxEpoll.Foundation.Loop

/-!
# Formatted output

`string_xxvsnprintf` of `dfs_string.cpp`.  The format is what lies in memory from `fmt` on:
its text, a zero byte, and the bytes behind it.  Each argument is a word of 64 bits.

## The function
-/

namespace NgxEpoll
namespace Strings

open Foundation
open NgxEpoll.Core

def byte (c : Char) : Byte :=
  BitVec.ofNat 8 c.toNat

def ngxInt64Len : Nat :=
  (ascii "-9223372036854775808").length + 1 - 1

def dfsIntTLen : Nat :=
  ngxInt64Len

def ngxPtrSize : Nat := 4

structure Directive where
  zero : Byte
  width : Nat
  sign : Bool
  hexadecimal : Nat
  maxWidth : Bool
  slen : Nat

def widthLoop (d : Directive) : List Byte -> Option (Directive × List Byte)
  | [] => none
  | c :: fmt =>
      if isDigit c then
        widthLoop { d with width := (d.width * 10 + digitOf c) % 2 ^ 32 } fmt
      else some (d, c :: fmt)

def flagsLoop (d : Directive) (args : List (BitVec 64)) :
    List Byte -> Option (Directive × List (BitVec 64) × List Byte)
  | [] => none
  | c :: fmt =>
      if c = byte 'u' then flagsLoop { d with sign := false } args fmt
      else if c = byte 'm' then flagsLoop { d with maxWidth := true } args fmt
      else if c = byte 'X' then flagsLoop { d with hexadecimal := 2, sign := false } args fmt
      else if c = byte 'x' then flagsLoop { d with hexadecimal := 1, sign := false } args fmt
      else if c = byte '*' then
        match args with
        | [] => none
        | a :: args => flagsLoop { d with slen := a.toNat } args fmt
      else some (d, args, c :: fmt)

structure Number where
  d : Directive
  i64 : Int
  ui64 : Nat

def intArg (a : BitVec 64) : Int :=
  (a.setWidth 32).toInt

def uintArg (a : BitVec 64) : Nat :=
  (a.setWidth 32).toNat

def Directive.fetch (d : Directive) (i64 : Int) (ui64 : Nat) : Number :=
  if d.sign then { d := d, i64 := i64, ui64 := 0 } else { d := d, i64 := 0, ui64 := ui64 }

def fetchNumber (d : Directive) (a : BitVec 64) (c : Byte) : Option Number :=
  if c = byte 'O' ∨ c = byte 'T' ∨ c = byte 'r' then
    some { d := { d with sign := true }, i64 := a.toInt, ui64 := 0 }
  else if c = byte 'P' then
    some { d := { d with sign := true }, i64 := intArg a, ui64 := 0 }
  else if c = byte 'M' then
    if a.toInt = -1 then some { d := { d with sign := true }, i64 := -1, ui64 := 0 }
    else some { d := { d with sign := false }, i64 := 0, ui64 := a.toNat }
  else if c = byte 'z' ∨ c = byte 'l' ∨ c = byte 'L' then some (d.fetch a.toInt a.toNat)
  else if c = byte 'd' ∨ c = byte 'D' then some (d.fetch (intArg a) (uintArg a))
  else if c = byte 'i' then
    let d := if d.maxWidth then { d with width := dfsIntTLen } else d
    some (d.fetch (intArg a) (uintArg a))
  else if c = byte 'A' then
    let d := if d.maxWidth then { d with width := ngxInt64Len } else d
    some (d.fetch (intArg a) (uintArg a))
  else if c = byte 'p' then
    some { d := { d with hexadecimal := 2, sign := false, zero := byte '0',
                         width := ngxPtrSize * 2 }
           i64 := 0
           ui64 := a.toNat }
  else none

def putDigits (base : Nat) (digit : Nat -> Byte) : Nat -> Nat -> List Byte -> List Byte
  | 0, _, p => p
  | fuel + 1, n, p =>
      let p := digit (n % base) :: p
      if n / base = 0 then p else putDigits base digit fuel (n / base) p

def hexDigit (table : List Byte) (n : Nat) : Byte :=
  table.getD n 0

def decDigit (n : Nat) : Byte :=
  BitVec.ofNat 8 (n + 0x30)

def digits (hexadecimal ui64 : Nat) : List Byte :=
  if hexadecimal = 1 then
    putDigits 16 (hexDigit (ascii "0123456789abcdef")) (ui64 + 1) ui64 []
  else if hexadecimal = 2 then
    putDigits 16 (hexDigit (ascii "0123456789ABCDEF")) (ui64 + 1) ui64 []
  else if ui64 ≤ 0xffffffff then
    let ui32 := ui64 % 2 ^ 32
    putDigits 10 decDigit (ui32 + 1) ui32 []
  else putDigits 10 decDigit (ui64 + 1) ui64 []

def Number.abs (n : Number) : Nat :=
  if n.d.sign then
    if n.i64 < 0 then (-n.i64 % 2 ^ 64).toNat else n.i64.toNat
  else n.ui64

def Number.put (n : Number) (max : Nat) (out : List Byte) : List Byte :=
  let out := if n.d.sign ∧ n.i64 < 0 then out ++ [byte '-'] else out
  let p := digits n.d.hexadecimal n.abs
  let out := out ++ List.replicate (min (n.d.width - p.length) (max - out.length)) n.d.zero
  out ++ p.take (max - out.length)

def copyString (m : Mem) : Nat -> Nat -> List Byte
  | _, 0 => []
  | p, room + 1 => if m p = 0 then [] else m p :: copyString m (p + 1) room

structure Print where
  fmt : List Byte
  args : List (BitVec 64)
  out : List Byte
deriving DecidableEq

def isNumber (c : Byte) : Bool :=
  (ascii "OTrPMzlLdDiAp").contains c

def convert (m : Mem) (max : Nat) (d : Directive) (args : List (BitVec 64)) (out : List Byte) :
    List Byte -> Option Print
  | [] => none
  | c :: fmt =>
      let room := max - out.length
      -- bytes that lie in memory do not wrap `buf + len`
      if c = byte 'V' then
        match args with
        | [] => none
        | v :: args =>
            let len := loadNat m v.toNat 8
            let data := loadNat m (v.toNat + 8) 8
            some { fmt := fmt, args := args, out := out ++ load m data (min len room) }
      else if c = byte 's' then
        match args with
        | [] => none
        | p :: args =>
            if d.slen = 2 ^ 64 - 1 then
              some { fmt := fmt, args := args, out := out ++ copyString m p.toNat room }
            else
              some { fmt := fmt, args := args, out := out ++ load m p.toNat (min d.slen room) }
      else if c = byte 'c' then
        match args with
        | [] => none
        | a :: args => some { fmt := fmt, args := args, out := out ++ [a.setWidth 8] }
      else if c = byte 'Z' then some { fmt := fmt, args := args, out := out ++ [0] }
      else if c = byte 'N' then some { fmt := fmt, args := args, out := out ++ [10] }
      else if c = byte '%' then some { fmt := fmt, args := args, out := out ++ [byte '%'] }
      else if isNumber c then
        match args with
        | [] => none
        | a :: args =>
            (fetchNumber d a c).map fun n =>
              { fmt := fmt, args := args, out := n.put max out }
      else some { fmt := fmt, args := args, out := out ++ [c] }

def startDirective (c : Byte) : Directive :=
  { zero := if c = byte '0' then byte '0' else byte ' '
    width := 0
    sign := true
    hexadecimal := 0
    maxWidth := false
    slen := 2 ^ 64 - 1 }

def directive (m : Mem) (max : Nat) (args : List (BitVec 64)) (out fmt : List Byte) :
    Option Print :=
  match fmt with
  | [] => none
  | c :: _ =>
      (widthLoop (startDirective c) fmt).bind fun width =>
        (flagsLoop width.1 args width.2).bind fun flags =>
          convert m max flags.1 flags.2.1 out flags.2.2

/-- A turn of `while (*fmt && buf < pend)`.  There is no result where the format or the
arguments are read beyond their end. -/
def printBody (m : Mem) (max : Nat) (s : Print) : Turn Print (Option Print) :=
  match s.fmt with
  | [] => Turn.done none
  | c :: fmt =>
      if c ≠ 0 ∧ s.out.length < max then
        if c = byte '%' then
          match directive m max s.args s.out fmt with
          | none => Turn.done none
          | some s' => Turn.next s'
        else Turn.next { s with fmt := fmt, out := s.out ++ [c] }
      else Turn.done (some s)

def printLoop (m : Mem) (max : Nat) (s : Print) : Option Print :=
  loop (fun s => s.fmt.length) (printBody m max) (fun _ => none) s

/-- `string_xxvsnprintf`, for a `buf` and a `fmt` that are not null.  The result is what is
written from `buf` on, and what is left of the format and of the arguments. -/
def stringXxvsnprintf (m : Mem) (max : Nat) (fmt : List Byte) (args : List (BitVec 64)) :
    Option Print :=
  if max = 0 then some { fmt := fmt, args := args, out := [] }
  else printLoop m max { fmt := fmt, args := args, out := [] }

example : (stringXxvsnprintf (asMem []) 16 (ascii "%ud+%03d\x00") [2, 7]).map Print.out =
    some (ascii "2+007") := by
  decide +kernel

/-!
## Room
-/

variable {m : Mem} {max : Nat} {out : List Byte}

/-- What a turn adds to the output, which has room left. -/
def Adds (max : Nat) (out out' : List Byte) : Prop :=
  exists w, out' = out ++ w ∧ out.length + w.length ≤ max

theorem Adds.length_le {out' : List Byte} (h : Adds max out out') : out'.length ≤ max := by
  rcases h with ⟨w, rfl, hle⟩
  rw [List.length_append]
  exact hle

theorem adds_append {w : List Byte} (h : w.length ≤ max - out.length)
    (hroom : out.length ≤ max) : Adds max out (out ++ w) :=
  ⟨w, rfl, by omega⟩

theorem Adds.trans {out' out'' : List Byte} (h : Adds max out out') (h' : Adds max out' out'') :
    Adds max out out'' := by
  rcases h with ⟨w, rfl, hle⟩
  rcases h' with ⟨w', rfl, hle'⟩
  refine ⟨w ++ w', (List.append_assoc _ _ _).symm ▸ rfl, ?_⟩
  rw [List.length_append] at hle' ⊢
  omega

theorem adds_refl (h : out.length ≤ max) : Adds max out out :=
  ⟨[], (List.append_nil out).symm, h⟩

theorem copyString_length (m : Mem) (p room : Nat) : (copyString m p room).length ≤ room := by
  induction room generalizing p with
  | zero => exact Nat.le_refl 0
  | succ room ih =>
      unfold copyString
      split
      · exact Nat.zero_le _
      · exact Nat.succ_le_succ (ih (p + 1))

theorem Number.put_adds (n : Number) (hroom : out.length < max) :
    Adds max out (n.put max out) := by
  unfold Number.put
  dsimp only
  have hsign : Adds max out (if n.d.sign ∧ n.i64 < 0 then out ++ [byte '-'] else out) := by
    split
    · exact adds_append (Nat.sub_pos_of_lt hroom) (Nat.le_of_lt hroom)
    · exact adds_refl (Nat.le_of_lt hroom)
  generalize (if n.d.sign = true ∧ n.i64 < 0 then out ++ [byte '-'] else out) = o at hsign ⊢
  generalize digits n.d.hexadecimal n.abs = p
  have hpad : Adds max o (o ++
      List.replicate (min (n.d.width - p.length) (max - o.length)) n.d.zero) := by
    apply adds_append _ hsign.length_le
    rw [List.length_replicate]
    exact Nat.min_le_right _ _
  generalize o ++ List.replicate (min (n.d.width - p.length) (max - o.length)) n.d.zero = o'
    at hpad ⊢
  have hdigits : Adds max o' (o' ++ p.take (max - o'.length)) :=
    adds_append (List.length_take_le _ _) hpad.length_le
  exact (hsign.trans hpad).trans hdigits

/-- What a directive makes of the output.  It stays in the room, and what it adds is bounded
where the memory holds no string. -/
structure Writes (m : Mem) (w : Nat -> List Byte -> List Byte) : Prop where
  adds : forall max out, out.length < max -> Adds max out (w max out)
  bounded : (forall p, m p = 0) -> exists B, forall max out, (w max out).length ≤ out.length + B

theorem writes_append (m : Mem) {w : Nat -> List Byte}
    (hroom : forall room, 0 < room -> (w room).length ≤ room)
    (hbounded : (forall p, m p = 0) -> exists B, forall room, (w room).length ≤ B) :
    Writes m fun max out => out ++ w (max - out.length) := by
  constructor
  · intro max out hout
    exact adds_append (hroom _ (Nat.sub_pos_of_lt hout)) (Nat.le_of_lt hout)
  · intro hm
    rcases hbounded hm with ⟨B, hB⟩
    exists B
    intro max out
    rw [List.length_append]
    exact Nat.add_le_add_left (hB _) _

theorem writes_byte (m : Mem) (c : Byte) : Writes m fun _ out => out ++ [c] :=
  writes_append m (w := fun _ => [c]) (fun _ h => h) fun _ => ⟨1, fun _ => Nat.le_refl 1⟩

theorem writes_load (m : Mem) (p len : Nat) :
    Writes m fun max out => out ++ load m p (min len (max - out.length)) := by
  apply writes_append m (w := fun room => load m p (min len room))
  · intro room _
    rw [load_length]
    exact Nat.min_le_right len room
  · intro _
    exists len
    intro room
    rw [load_length]
    exact Nat.min_le_left len room

theorem writes_copyString (m : Mem) (p : Nat) :
    Writes m fun max out => out ++ copyString m p (max - out.length) := by
  apply writes_append m (w := copyString m p)
  · intro room _
    exact copyString_length m p room
  · intro hm
    exists 0
    intro room
    cases room with
    | zero => exact Nat.le_refl 0
    | succ room =>
        unfold copyString
        rw [if_pos (hm p)]
        exact Nat.le_refl 0

theorem Number.put_length_le (n : Number) (max : Nat) (out : List Byte) :
    (n.put max out).length ≤
      out.length + (1 + n.d.width + (digits n.d.hexadecimal n.abs).length) := by
  unfold Number.put
  dsimp only
  have hsign : (if n.d.sign ∧ n.i64 < 0 then out ++ [byte '-'] else out).length ≤
      out.length + 1 := by
    split
    · rw [List.length_append]
      exact Nat.le_refl _
    · exact Nat.le_succ _
  generalize (if n.d.sign = true ∧ n.i64 < 0 then out ++ [byte '-'] else out) = o at hsign ⊢
  generalize digits n.d.hexadecimal n.abs = p
  simp only [List.length_append, List.length_replicate, List.length_take]
  omega

theorem Number.writes (m : Mem) (n : Number) : Writes m n.put := by
  constructor
  · intro max out hout
    exact n.put_adds hout
  · intro _
    exact ⟨_, n.put_length_le⟩

/-!
## Numbers
-/

structure Number.Fits (n : Number) : Prop where
  lo : -2 ^ 63 ≤ n.i64
  hi : n.i64 < 2 ^ 63
  ui64_lt : n.ui64 < 2 ^ 64

theorem fits_signed (d : Directive) {i64 : Int} (hlo : -2 ^ 63 ≤ i64) (hhi : i64 < 2 ^ 63) :
    Number.Fits { d := d, i64 := i64, ui64 := 0 } :=
  ⟨hlo, hhi, Nat.two_pow_pos 64⟩

theorem fits_unsigned (d : Directive) {ui64 : Nat} (h : ui64 < 2 ^ 64) :
    Number.Fits { d := d, i64 := 0, ui64 := ui64 } := by
  constructor
  · show -2 ^ 63 ≤ (0 : Int)
    decide
  · show (0 : Int) < 2 ^ 63
    decide
  · exact h

theorem Directive.fetch_fits (d : Directive) {i64 : Int} {ui64 : Nat} (hlo : -2 ^ 63 ≤ i64)
    (hhi : i64 < 2 ^ 63) (hu : ui64 < 2 ^ 64) : (d.fetch i64 ui64).Fits := by
  unfold Directive.fetch
  split
  · exact fits_signed d hlo hhi
  · exact fits_unsigned d hu

theorem toInt_bounds (a : BitVec 64) : -2 ^ 63 ≤ a.toInt ∧ a.toInt < 2 ^ 63 :=
  ⟨BitVec.le_toInt a, BitVec.toInt_lt⟩

theorem intArg_bounds (a : BitVec 64) : -2 ^ 63 ≤ intArg a ∧ intArg a < 2 ^ 63 := by
  have hlo := BitVec.le_toInt (a.setWidth 32)
  have hhi := @BitVec.toInt_lt 32 (a.setWidth 32)
  unfold intArg
  omega

theorem uintArg_lt (a : BitVec 64) : uintArg a < 2 ^ 64 := by
  have hlt := (a.setWidth 32).isLt
  unfold uintArg
  omega

theorem isNumber_iff {c : Byte} :
    isNumber c ↔ c ∈ [byte 'O', byte 'T', byte 'r', byte 'P', byte 'M', byte 'z', byte 'l',
      byte 'L', byte 'd', byte 'D', byte 'i', byte 'A', byte 'p'] :=
  List.contains_iff_mem

theorem fetchNumber_fits (d : Directive) (a : BitVec 64) {c : Byte}
    (h : isNumber c) : exists n, fetchNumber d a c = some n ∧ n.Fits := by
  rcases toInt_bounds a with ⟨hlo, hhi⟩
  rcases intArg_bounds a with ⟨hintlo, hinthi⟩
  have huint := uintArg_lt a
  unfold fetchNumber
  by_cases hO : c = byte 'O' ∨ c = byte 'T' ∨ c = byte 'r'
  · rw [if_pos hO]
    exact ⟨_, rfl, fits_signed _ hlo hhi⟩
  rw [if_neg hO]
  by_cases hP : c = byte 'P'
  · rw [if_pos hP]
    exact ⟨_, rfl, fits_signed _ hintlo hinthi⟩
  rw [if_neg hP]
  by_cases hM : c = byte 'M'
  · rw [if_pos hM]
    split
    · exact ⟨_, rfl, fits_signed _ (by decide) (by decide)⟩
    · exact ⟨_, rfl, fits_unsigned _ a.isLt⟩
  rw [if_neg hM]
  by_cases hL : c = byte 'z' ∨ c = byte 'l' ∨ c = byte 'L'
  · rw [if_pos hL]
    exact ⟨_, rfl, d.fetch_fits hlo hhi a.isLt⟩
  rw [if_neg hL]
  by_cases hd : c = byte 'd' ∨ c = byte 'D'
  · rw [if_pos hd]
    exact ⟨_, rfl, d.fetch_fits hintlo hinthi huint⟩
  rw [if_neg hd]
  by_cases hi : c = byte 'i'
  · rw [if_pos hi]
    exact ⟨_, rfl, Directive.fetch_fits _ hintlo hinthi huint⟩
  rw [if_neg hi]
  by_cases hA : c = byte 'A'
  · rw [if_pos hA]
    exact ⟨_, rfl, Directive.fetch_fits _ hintlo hinthi huint⟩
  rw [if_neg hA]
  by_cases hp : c = byte 'p'
  · rw [if_pos hp]
    exact ⟨_, rfl, fits_unsigned _ a.isLt⟩
  rw [isNumber_iff] at h
  simp only [List.mem_cons, List.not_mem_nil, or_false] at h
  tauto

theorem fetchNumber_none (d : Directive) (a : BitVec 64) {c : Byte}
    (h : ¬ isNumber c) : fetchNumber d a c = none := by
  rw [isNumber_iff] at h
  simp only [List.mem_cons, List.not_mem_nil, or_false, not_or] at h
  unfold fetchNumber
  simp only [h, or_self, if_false]

theorem fetchNumber_some_fits {d : Directive} {a : BitVec 64} {c : Byte} {n : Number}
    (h : fetchNumber d a c = some n) : n.Fits := by
  by_cases hc : isNumber c
  · rcases fetchNumber_fits d a hc with ⟨n', hn', hfits⟩
    rw [hn'] at h
    cases h
    exact hfits
  · rw [fetchNumber_none d a hc] at h
    cases h

theorem Number.Fits.abs_lt {n : Number} (h : n.Fits) : n.abs < 2 ^ 64 := by
  have hlo := h.lo
  have hhi := h.hi
  have hu := h.ui64_lt
  unfold Number.abs
  split_ifs <;> omega

/-!
## Turns
-/

def fetches (c : Byte) : Nat :=
  if c = byte 'V' ∨ c = byte 's' ∨ c = byte 'c' ∨ isNumber c then 1 else 0

/-- What a byte that ends a directive does, whatever lies behind it: it fetches an argument
or none, and writes. -/
def Closes (m : Mem) (d : Directive) (args : List (BitVec 64)) (c : Byte) : Prop :=
  (args.length < fetches c ∧ forall max out fmt, convert m max d args out (c :: fmt) = none) ∨
    exists w, Writes m w ∧ forall max out fmt, convert m max d args out (c :: fmt) =
      some { fmt := fmt, args := args.drop (fetches c), out := w max out }

section

variable {d : Directive} {args : List (BitVec 64)} {c : Byte}

theorem closes_of_fetch (hfetches : fetches c = 1)
    (hnone : forall max out fmt, convert m max d [] out (c :: fmt) = none)
    (hsome : forall a args, exists w, Writes m w ∧ forall max out fmt,
      convert m max d (a :: args) out (c :: fmt) =
        some { fmt := fmt, args := args, out := w max out }) :
    Closes m d args c := by
  unfold Closes
  rw [hfetches]
  cases args with
  | nil => exact Or.inl ⟨Nat.one_pos, hnone⟩
  | cons a args => exact Or.inr (hsome a args)

theorem closes_of_byte {b : Byte} (hfetches : fetches c = 0)
    (h : forall max out fmt, convert m max d args out (c :: fmt) =
      some { fmt := fmt, args := args, out := out ++ [b] }) :
    Closes m d args c := by
  unfold Closes
  rw [hfetches]
  exact Or.inr ⟨_, writes_byte m b, h⟩

theorem closes_V : Closes m d args (byte 'V') := by
  apply closes_of_fetch rfl
  · intro max out fmt
    rfl
  · intro v args
    exact ⟨_, writes_load m _ _, fun max out fmt => rfl⟩

theorem closes_s : Closes m d args (byte 's') := by
  apply closes_of_fetch rfl
  · intro max out fmt
    rfl
  · intro p args
    have hs (max : Nat) (out fmt : List Byte) : convert m max d (p :: args) out (byte 's' :: fmt) =
        if d.slen = 2 ^ 64 - 1 then
          some { fmt := fmt, args := args
                 out := out ++ copyString m p.toNat (max - out.length) }
        else
          some { fmt := fmt, args := args
                 out := out ++ load m p.toNat (min d.slen (max - out.length)) } :=
      rfl
    by_cases hslen : d.slen = 2 ^ 64 - 1
    · exists _, writes_copyString m p.toNat
      intro max out fmt
      rw [hs, if_pos hslen]
    · exists _, writes_load m p.toNat d.slen
      intro max out fmt
      rw [hs, if_neg hslen]

theorem closes_c : Closes m d args (byte 'c') := by
  apply closes_of_fetch rfl
  · intro max out fmt
    rfl
  · intro a args
    exact ⟨_, writes_byte m _, fun max out fmt => rfl⟩

/-- The bytes that are no string and no character: numbers, and what is copied. -/
theorem closes_other (hV : c ≠ byte 'V') (hs : c ≠ byte 's') (hc : c ≠ byte 'c')
    (hZ : c ≠ byte 'Z') (hN : c ≠ byte 'N') (hpercent : c ≠ byte '%') : Closes m d args c := by
  have hfetches : fetches c = if isNumber c then 1 else 0 := by
    unfold fetches
    simp only [hV, hs, hc, false_or]
  have hconvert (args : List (BitVec 64)) (max : Nat) (out fmt : List Byte) :
      convert m max d args out (c :: fmt) =
        if isNumber c then
          match args with
          | [] => none
          | a :: args =>
              (fetchNumber d a c).map fun n =>
                { fmt := fmt, args := args, out := n.put max out }
        else some { fmt := fmt, args := args, out := out ++ [c] } := by
    conv_lhs => unfold convert
    dsimp only
    rw [if_neg hV, if_neg hs, if_neg hc, if_neg hZ, if_neg hN, if_neg hpercent]
  by_cases hnumber : isNumber c
  · apply closes_of_fetch (by rw [hfetches, if_pos hnumber])
    · intro max out fmt
      rw [hconvert, if_pos hnumber]
    · intro a args
      rcases fetchNumber_fits d a hnumber with ⟨n, hn, -⟩
      exists n.put, n.writes m
      intro max out fmt
      rw [hconvert, if_pos hnumber]
      dsimp only
      rw [hn]
      rfl
  · apply closes_of_byte (by rw [hfetches, if_neg hnumber])
    intro max out fmt
    rw [hconvert, if_neg hnumber]

end

theorem convert_cases (m : Mem) (c : Byte) (d : Directive) (args : List (BitVec 64)) :
    Closes m d args c := by
  by_cases hV : c = byte 'V'
  · exact hV ▸ closes_V
  by_cases hs : c = byte 's'
  · exact hs ▸ closes_s
  by_cases hc : c = byte 'c'
  · exact hc ▸ closes_c
  by_cases hZ : c = byte 'Z'
  · subst hZ
    exact closes_of_byte rfl fun max out fmt => rfl
  by_cases hN : c = byte 'N'
  · subst hN
    exact closes_of_byte rfl fun max out fmt => rfl
  by_cases hpercent : c = byte '%'
  · subst hpercent
    exact closes_of_byte rfl fun max out fmt => rfl
  exact closes_other hV hs hc hZ hN hpercent

theorem widthLoop_suffix {fmt : List Byte} : forall {d d' : Directive} {u : List Byte},
    widthLoop d fmt = some (d', u) -> u <:+ fmt := by
  induction fmt with
  | nil =>
      intro d d' u h
      cases h
  | cons c fmt ih =>
      intro d d' u h
      unfold widthLoop at h
      split at h
      · exact (ih h).trans (List.suffix_cons c fmt)
      · cases h
        exact List.suffix_refl _

theorem flagsLoop_suffix {fmt : List Byte} : forall {d d' : Directive}
    {args args' : List (BitVec 64)} {u : List Byte},
    flagsLoop d args fmt = some (d', args', u) -> u <:+ fmt := by
  induction fmt with
  | nil =>
      intro d d' args args' u h
      cases h
  | cons c fmt ih =>
      intro d d' args args' u h
      have hcons := List.suffix_cons c fmt
      unfold flagsLoop at h
      split_ifs at h
      · exact (ih h).trans hcons
      · exact (ih h).trans hcons
      · exact (ih h).trans hcons
      · exact (ih h).trans hcons
      · cases args with
        | nil => cases h
        | cons a args => exact (ih h).trans hcons
      · cases h
        exact List.suffix_refl _

theorem directive_turns {args : List (BitVec 64)} {fmt : List Byte} {s : Print}
    (h : directive m max args out fmt = some s) (hroom : out.length < max) :
    s.fmt.length < fmt.length ∧ Adds max out s.out := by
  unfold directive at h
  cases fmt with
  | nil => cases h
  | cons c fmt =>
      dsimp only at h
      rcases Option.bind_eq_some_iff.mp h with ⟨⟨d, t⟩, hwidth, h⟩
      rcases Option.bind_eq_some_iff.mp h with ⟨⟨d', args', u⟩, hflags, h⟩
      have hle := ((flagsLoop_suffix hflags).trans (widthLoop_suffix hwidth)).length_le
      cases u with
      | nil => cases h
      | cons c' u =>
          rcases convert_cases m c' d' args' with hnone | ⟨w, hw, hsome⟩
          · rw [hnone.2] at h
            cases h
          · rw [hsome] at h
            cases h
            exact ⟨hle, hw.adds max out hroom⟩

theorem printBody_turns {s s' : Print} (h : printBody m max s = Turn.next s') :
    s'.fmt.length < s.fmt.length ∧ s'.out.length ≤ max := by
  rcases s with ⟨fmt, args, out⟩
  cases fmt with
  | nil => cases h
  | cons c fmt =>
      unfold printBody at h
      dsimp only at h
      split at h
      next hgo =>
        split at h
        · cases hs : directive m max args out fmt with
          | none =>
              rw [hs] at h
              cases h
          | some t =>
              rw [hs] at h
              cases h
              rcases directive_turns hs hgo.2 with ⟨hlt, hadds⟩
              exact ⟨Nat.lt_succ_of_lt hlt, hadds.length_le⟩
        · cases h
          constructor
          · exact Nat.lt_succ_self _
          · exact (adds_append (Nat.sub_pos_of_lt hgo.2) (Nat.le_of_lt hgo.2)).length_le
      next => cases h

theorem printBody_lowers (m : Mem) (max : Nat) :
    Lowers (fun _ => True) (fun s : Print => s.fmt.length) (printBody m max) :=
  fun _ _ _ h => ⟨trivial, (printBody_turns h).1⟩

theorem printLoop_next {s s' : Print} (h : printBody m max s = Turn.next s') :
    printLoop m max s = printLoop m max s' :=
  loop_next (printBody_lowers m max) _ trivial h

theorem printLoop_done {s : Print} {r : Option Print} (h : printBody m max s = Turn.done r) :
    printLoop m max s = r :=
  loop_done _ h

theorem printLoop_full {args : List (BitVec 64)} {c : Byte} {fmt : List Byte}
    (h : max ≤ out.length) : printLoop m max { fmt := c :: fmt, args := args, out := out } =
      some { fmt := c :: fmt, args := args, out := out } := by
  apply printLoop_done
  unfold printBody
  dsimp only
  rw [if_neg (fun hgo => Nat.not_lt.mpr h hgo.2)]

theorem printLoop_zero (m : Mem) (max : Nat) (args : List (BitVec 64)) (out fmt : List Byte) :
    printLoop m max { fmt := 0 :: fmt, args := args, out := out } =
      some { fmt := 0 :: fmt, args := args, out := out } :=
  printLoop_done rfl

theorem printLoop_plain {args : List (BitVec 64)} {c : Byte} {fmt : List Byte} (hzero : c ≠ 0)
    (hpercent : c ≠ byte '%') (hroom : out.length < max) :
    printLoop m max { fmt := c :: fmt, args := args, out := out } =
      printLoop m max { fmt := fmt, args := args, out := out ++ [c] } := by
  apply printLoop_next
  unfold printBody
  dsimp only
  rw [if_pos ⟨hzero, hroom⟩, if_neg hpercent]

theorem printLoop_directive {args : List (BitVec 64)} {fmt : List Byte}
    (hroom : out.length < max) :
    printLoop m max { fmt := byte '%' :: fmt, args := args, out := out } =
      (directive m max args out fmt).bind (printLoop m max) := by
  have hbody : printBody m max { fmt := byte '%' :: fmt, args := args, out := out } =
      match directive m max args out fmt with
      | none => Turn.done none
      | some s => Turn.next s := by
    unfold printBody
    dsimp only
    rw [if_pos ⟨by decide, hroom⟩, if_pos rfl]
  cases hdirective : directive m max args out fmt with
  | none =>
      rw [hdirective] at hbody
      exact printLoop_done hbody
  | some s =>
      rw [hdirective] at hbody
      exact printLoop_next hbody

end Strings
end NgxEpoll
