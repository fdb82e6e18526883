import NgxEpoll.Core.Strings
import NgxEpoll.Foundation.Loop

/-!
# Escapes in URIs and HTML

`string_escape_uri` and `string_escape_html` of `dfs_string.cpp`.  A first pass, with
`dst` null, finds how many bytes the second one writes in addition.

## The functions
-/

namespace NgxEpoll
namespace Strings

open Foundation
open NgxEpoll.Core

/-- The state of a loop over `size` bytes, of which `i` counts the turns. -/
structure Pass (α : Type) where
  i : Nat
  src : Nat
  acc : α

/-- A turn of `for (i = 0; i < size; i++)`, with a `uint32_t i`, that takes in the byte at
`src`. -/
def passBody {α : Type} (m : Mem) (size : Nat) (take : α -> Byte -> α) (s : Pass α) :
    Turn (Pass α) (Option α) :=
  if s.i < size then
    Turn.next { i := (s.i + 1) % 2 ^ 32, src := s.src + 1, acc := take s.acc (m s.src) }
  else Turn.done (some s.acc)

def pass {α : Type} (m : Mem) (src size : Nat) (take : α -> Byte -> α) (a : α) (fuel : Nat) :
    Option α :=
  iterate (passBody m size take) (fun _ => none) fuel { i := 0, src := src, acc := a }

def uri : List (BitVec 32) :=
  [0xffffffff, 0x80000029, 0x00000000, 0x80000000,
    0xffffffff, 0xffffffff, 0xffffffff, 0xffffffff]

def args : List (BitVec 32) :=
  [0xffffffff, 0x80000829, 0x00000000, 0x80000000,
    0xffffffff, 0xffffffff, 0xffffffff, 0xffffffff]

def html : List (BitVec 32) :=
  [0xffffffff, 0x000000ad, 0x00000000, 0x80000000,
    0xffffffff, 0xffffffff, 0xffffffff, 0xffffffff]

def refresh : List (BitVec 32) :=
  [0xffffffff, 0x00000085, 0x00000000, 0x80000000,
    0xffffffff, 0xffffffff, 0xffffffff, 0xffffffff]

def memcached : List (BitVec 32) :=
  [0xffffffff, 0x00000021, 0x00000000, 0x00000000,
    0x00000000, 0x00000000, 0x00000000, 0x00000000]

def map : Fin 6 -> List (BitVec 32)
  | 0 => uri
  | 1 => args
  | 2 => html
  | 3 => refresh
  | 4 => memcached
  | 5 => memcached

def escapes (type : Fin 6) (c : Byte) : Bool :=
  (map type).getD (c >>> 5).toNat 0 &&& 1 <<< (c &&& 0x1f).toNat ≠ 0

def hex : List Byte :=
  ascii "0123456789abcdef"

def escapeByte (type : Fin 6) (c : Byte) : List Byte :=
  if escapes type c then
    [0x25, hex.getD (c >>> 4).toNat 0, hex.getD (c &&& 0xf).toNat 0]
  else [c]

/-- The first pass counts the bytes that it finds in the table. -/
def escapeCount (type : Fin 6) (n : Nat) (c : Byte) : Nat :=
  if escapes type c then (n + 1) % 2 ^ 32 else n

/-- `string_escape_uri` where `dst` is null. -/
def stringEscapeUriCount (m : Mem) (src size : Nat) (type : Fin 6) (fuel : Nat) :
    Option Nat :=
  pass m src size (escapeCount type) 0 fuel

def stringEscapeUri (m : Mem) (src size : Nat) (type : Fin 6) (fuel : Nat) :
    Option (List Byte) :=
  pass m src size (fun dst c => dst ++ escapeByte type c) [] fuel

def escapeHtmlByte (c : Byte) : List Byte :=
  if c = 0x3c then ascii "&lt;"
  else if c = 0x3e then ascii "&gt;"
  else if c = 0x26 then ascii "&amp;"
  else [c]

def escapeHtmlLen (c : Byte) : Nat :=
  if c = 0x3c then (ascii "&lt;").length + 1 - 2
  else if c = 0x3e then (ascii "&gt;").length + 1 - 2
  else if c = 0x26 then (ascii "&amp;").length + 1 - 2
  else 0

/-- `string_escape_html` where `dst` is null. -/
def stringEscapeHtmlLen (m : Mem) (src size fuel : Nat) : Option Nat :=
  pass m src size (fun len c => (len + escapeHtmlLen c) % 2 ^ 32) 0 fuel

def stringEscapeHtml (m : Mem) (src size fuel : Nat) : Option (List Byte) :=
  pass m src size (fun dst c => dst ++ escapeHtmlByte c) [] fuel

/-!
## Passes
-/

variable {α : Type} {m : Mem} {src size : Nat}

/-- With `i` in its 32 bits, the turns that are left go over the bytes that are left. -/
theorem iterate_passBody (take : α -> Byte -> α) (hsize : size < 2 ^ 32) {i left : Nat}
    (hleft : i + left = size) (a : α) {fuel : Nat} (hfuel : left < fuel) :
    iterate (passBody m size take) (fun _ => none) fuel { i := i, src := src, acc := a } =
      some ((load m src left).foldl take a) := by
  induction left generalizing i src a fuel with
  | zero =>
      cases fuel with
      | zero => exact absurd hfuel (Nat.lt_irrefl 0)
      | succ fuel =>
          refine iterate_done ?_
          unfold passBody
          dsimp only
          rw [if_neg (by omega)]
          rfl
  | succ left ih =>
      cases fuel with
      | zero => exact absurd hfuel (Nat.not_lt_zero _)
      | succ fuel =>
          have hlt : i < size := by omega
          have hbody : passBody m size take { i := i, src := src, acc := a } =
              Turn.next { i := i + 1, src := src + 1, acc := take a (m src) } := by
            unfold passBody
            dsimp only
            rw [if_pos hlt, Nat.mod_eq_of_lt (by omega)]
          rw [iterate_next hbody, load_succ, List.foldl_cons]
          exact ih (by omega) (take a (m src)) (by omega)

theorem pass_returns (take : α -> Byte -> α) (hsize : size < 2 ^ 32) (a : α) :
    Returns (pass m src size take a) ((load m src size).foldl take a) :=
  ⟨size + 1, fun _ hfuel => iterate_passBody take hsize (Nat.zero_add size) a hfuel⟩

theorem pass_endless (take : α -> Byte -> α) (hsize : 2 ^ 32 ≤ size) (a : α) (fuel : Nat) :
    pass m src size take a fuel = none := by
  have hall : forall fuel (s : Pass α), s.i < 2 ^ 32 ->
      iterate (passBody m size take) (fun _ => none) fuel s = none := by
    intro fuel
    induction fuel with
    | zero =>
        intro s hs
        rfl
    | succ fuel ih =>
        intro s hs
        have hbody : passBody m size take s =
            Turn.next { i := (s.i + 1) % 2 ^ 32, src := s.src + 1,
                        acc := take s.acc (m s.src) } := by
          unfold passBody
          rw [if_pos (Nat.lt_of_lt_of_le hs hsize)]
        rw [iterate_next hbody]
        exact ih _ (Nat.mod_lt _ (by decide))
  exact hall fuel _ (Nat.two_pow_pos 32)

theorem foldl_append_flatMap (f : Byte -> List Byte) (s dst : List Byte) :
    s.foldl (fun dst c => dst ++ f c) dst = dst ++ s.flatMap f := by
  induction s generalizing dst with
  | nil => rw [List.foldl_nil, List.flatMap_nil, List.append_nil]
  | cons c s ih => rw [List.foldl_cons, ih, List.flatMap_cons, List.append_assoc]

theorem stringEscapeUri_returns (type : Fin 6) (hsize : size < 2 ^ 32) :
    Returns (stringEscapeUri m src size type)
      ((load m src size).flatMap (escapeByte type)) := by
  have h := @pass_returns _ m src size (fun dst c => dst ++ escapeByte type c) hsize []
  rw [foldl_append_flatMap, List.nil_append] at h
  exact h

theorem stringEscapeHtml_returns (hsize : size < 2 ^ 32) :
    Returns (stringEscapeHtml m src size) ((load m src size).flatMap escapeHtmlByte) := by
  have h := @pass_returns _ m src size (fun dst c => dst ++ escapeHtmlByte c) hsize []
  rw [foldl_append_flatMap, List.nil_append] at h
  exact h

/-!
## The two passes agree
-/

/-- A counter that adds `g` as long as it fits in 32 bits, against what is written. -/
theorem flatMap_length_foldl (f : Byte -> List Byte) (g : Byte -> Nat) (scale bound : Nat)
    {take : Nat -> Byte -> Nat} (htake : forall n c, n + g c < 2 ^ 32 -> take n c = n + g c)
    (hf : forall c, (f c).length = 1 + scale * g c) (hg : forall c, g c ≤ bound)
    (s : List Byte) (n : Nat) (hs : n + bound * s.length < 2 ^ 32) :
    scale * s.foldl take n + s.length = scale * n + (s.flatMap f).length := by
  induction s generalizing n with
  | nil => rfl
  | cons c s ih =>
      have hc := hg c
      rw [List.length_cons, Nat.mul_succ] at hs
      rw [List.foldl_cons, htake n c (by omega), List.length_cons, ← Nat.add_assoc,
        ih (n + g c) (by omega), List.flatMap_cons, List.length_append, hf, Nat.mul_add]
      omega

theorem escapeCount_eq (type : Fin 6) (n : Nat) (c : Byte)
    (h : n + (if escapes type c then 1 else 0) < 2 ^ 32) :
    escapeCount type n c = n + if escapes type c then 1 else 0 := by
  unfold escapeCount
  split
  · next hc =>
    rw [if_pos hc] at h
    exact Nat.mod_eq_of_lt h
  · rfl

theorem escapeByte_length (type : Fin 6) (c : Byte) :
    (escapeByte type c).length = 1 + 2 * if escapes type c then 1 else 0 := by
  unfold escapeByte
  split
  · rfl
  · rfl

theorem escapeHtmlByte_length (c : Byte) :
    (escapeHtmlByte c).length = 1 + 1 * escapeHtmlLen c := by
  unfold escapeHtmlByte escapeHtmlLen
  split_ifs <;> rfl

theorem escapeHtmlLen_le (c : Byte) : escapeHtmlLen c ≤ 4 := by
  unfold escapeHtmlLen
  split_ifs <;> decide

/-- For fewer than `2 ^ 30` bytes the first passes of `string_escape_uri` and of
`string_escape_html` tell how much longer than the text the output of the second ones is. -/
theorem escape_sizes (m : Mem) (src : Nat) {size : Nat} (type : Fin 6)
    (hsize : size < 2 ^ 30) :
    (exists n dst, Returns (stringEscapeUriCount m src size type) n ∧
        Returns (stringEscapeUri m src size type) dst ∧ dst.length = size + 2 * n) ∧
      exists len dst, Returns (stringEscapeHtmlLen m src size) len ∧
        Returns (stringEscapeHtml m src size) dst ∧ dst.length = size + len := by
  have hlt : size < 2 ^ 32 := by omega
  have hload := @load_length m src size
  constructor
  · refine ⟨_, _, pass_returns _ hlt 0, stringEscapeUri_returns type hlt, ?_⟩
    have hbound (c : Byte) : (if escapes type c then 1 else 0) ≤ 1 := by
      split
      · exact Nat.le_refl 1
      · exact Nat.zero_le 1
    have hsum := flatMap_length_foldl (escapeByte type)
      (fun c => if escapes type c then 1 else 0) 2 1 (escapeCount_eq type)
      (escapeByte_length type) hbound (load m src size) 0 (by omega)
    omega
  · refine ⟨_, _, pass_returns _ hlt 0, stringEscapeHtml_returns hlt, ?_⟩
    have hsum := flatMap_length_foldl escapeHtmlByte escapeHtmlLen 1 4
      (fun _ _ => Nat.mod_eq_of_lt) escapeHtmlByte_length escapeHtmlLen_le (load m src size) 0
      (by omega)
    omega

/-- `a b<c&` has one escape in a URI, and 3 and 4 bytes are added in HTML. -/
theorem escape_sizes_text :
    6 < 2 ^ 30 ∧
      stringEscapeUriCount (asMem (ascii "a b<c&")) 0 6 0 7 = some 1 ∧
      stringEscapeHtmlLen (asMem (ascii "a b<c&")) 0 6 7 = some 7 ∧
      (exists n dst, Returns (stringEscapeUriCount (asMem (ascii "a b<c&")) 0 6 0) n ∧
        Returns (stringEscapeUri (asMem (ascii "a b<c&")) 0 6 0) dst ∧
        dst.length = 6 + 2 * n) ∧
      exists len dst, Returns (stringEscapeHtmlLen (asMem (ascii "a b<c&")) 0 6) len ∧
        Returns (stringEscapeHtml (asMem (ascii "a b<c&")) 0 6) dst ∧ dst.length = 6 + len :=
  ⟨by decide, by decide, by decide, escape_sizes _ 0 0 (by decide)⟩

end Strings
end NgxEpoll
