import NgxEpoll.Core.Strings
import NgxEpoll.Foundation.Sextets

/-!
# Base64

`string_base64_encode` and `string_base64_decode` of `dfs_string.cpp`.  What a function
writes to `dst->data` is the list of its bytes, and its length is `dst->len`.

## The functions
-/

namespace NgxEpoll
namespace Core

open Foundation

def basis64Encode : List Byte :=
  ascii "ABCDEFGHIJKLMNOPQRSTUVWXYZabcdefghijklmnopqrstuvwxyz0123456789+/"

def basis64Decode : List Byte :=
  [ 77, 77, 77, 77, 77, 77, 77, 77, 77, 77, 77, 77, 77, 77, 77, 77,
    77, 77, 77, 77, 77, 77, 77, 77, 77, 77, 77, 77, 77, 77, 77, 77,
    77, 77, 77, 77, 77, 77, 77, 77, 77, 77, 77, 62, 77, 77, 77, 63,
    52, 53, 54, 55, 56, 57, 58, 59, 60, 61, 77, 77, 77, 77, 77, 77,
    77,  0,  1,  2,  3,  4,  5,  6,  7,  8,  9, 10, 11, 12, 13, 14,
    15, 16, 17, 18, 19, 20, 21, 22, 23, 24, 25, 77, 77, 77, 77, 77,
    77, 26, 27, 28, 29, 30, 31, 32, 33, 34, 35, 36, 37, 38, 39, 40,
    41, 42, 43, 44, 45, 46, 47, 48, 49, 50, 51, 77, 77, 77, 77, 77 ] ++
  List.replicate 128 77

def encodeChar (i : Byte) : Byte :=
  basis64Encode.getD i.toNat 0

def decodeChar (c : Byte) : Byte :=
  basis64Decode.getD c.toNat 0

def chPad : Byte := 0x3d

def stringBase64Encode : List Byte -> List Byte
  | s0 :: s1 :: s2 :: rest =>
      encodeChar ((s0 >>> 2) &&& 0x3f) ::
        encodeChar (((s0 &&& 3) <<< 4) ||| (s1 >>> 4)) ::
        encodeChar (((s1 &&& 0x0f) <<< 2) ||| (s2 >>> 6)) ::
        encodeChar (s2 &&& 0x3f) :: stringBase64Encode rest
  | [s0, s1] =>
      [encodeChar ((s0 >>> 2) &&& 0x3f), encodeChar (((s0 &&& 3) <<< 4) ||| (s1 >>> 4)),
        encodeChar ((s1 &&& 0x0f) <<< 2), chPad]
  | [s0] =>
      [encodeChar ((s0 >>> 2) &&& 0x3f), encodeChar ((s0 &&& 3) <<< 4), chPad, chPad]
  | [] => []

/-- The first loop of `string_base64_decode`: the characters before a `'='`, if all
of them have a value. -/
def decodable : List Byte -> Option (List Byte)
  | [] => some []
  | c :: rest =>
      if c = chPad then some []
      else if decodeChar c = 77 then none
      else (decodable rest).map fun data => c :: data

def decodeGroups : List Byte -> List Byte
  | s0 :: s1 :: s2 :: s3 :: rest =>
      ((decodeChar s0 <<< 2) ||| (decodeChar s1 >>> 4)) ::
        ((decodeChar s1 <<< 4) ||| (decodeChar s2 >>> 2)) ::
        ((decodeChar s2 <<< 6) ||| decodeChar s3) :: decodeGroups rest
  | [s0, s1, s2] =>
      [(decodeChar s0 <<< 2) ||| (decodeChar s1 >>> 4),
        (decodeChar s1 <<< 4) ||| (decodeChar s2 >>> 2)]
  | [s0, s1] => [(decodeChar s0 <<< 2) ||| (decodeChar s1 >>> 4)]
  | _ => []

/-- `string_base64_decode`, or nothing where it returns `NGX_ERROR`. -/
def stringBase64Decode (src : List Byte) : Option (List Byte) :=
  match decodable src with
  | none => none
  | some data => if data.length % 4 = 1 then none else some (decodeGroups data)

/-!
## Groups of six bits
-/

def padding (n : Nat) : List Byte :=
  List.replicate ((3 - n % 3) % 3) chPad

theorem stringBase64Encode_eq (s : List Byte) :
    stringBase64Encode s = (sextets s).map encodeChar ++ padding s.length := by
  induction s using stringBase64Encode.induct with
  | case1 s0 s1 s2 rest ih =>
      have hpad : padding (s0 :: s1 :: s2 :: rest).length = padding rest.length := by
        change List.replicate ((3 - (rest.length + 3) % 3) % 3) chPad = _
        rw [Nat.add_mod_right]
        rfl
      rw [hpad]
      simp only [stringBase64Encode, sextets, List.map_cons, List.cons_append, ih]
  | case2 s0 s1 => rfl
  | case3 s0 => rfl
  | case4 => rfl

theorem decodeGroups_eq (data : List Byte) :
    decodeGroups data = joinSextets (data.map decodeChar) := by
  induction data using decodeGroups.induct with
  | case1 s0 s1 s2 s3 rest ih =>
      simp only [decodeGroups, List.map_cons, joinSextets, ih]
  | case2 s0 s1 s2 => rfl
  | case3 s0 s1 => rfl
  | case4 data hfour hthree htwo =>
      cases data with
      | nil => rfl
      | cons s0 data =>
          cases data with
          | nil => rfl
          | cons s1 data =>
              cases data with
              | nil => exact absurd rfl (htwo s0 s1)
              | cons s2 data =>
                  cases data with
                  | nil => exact absurd rfl (hthree s0 s1 s2)
                  | cons s3 rest => exact absurd rfl (hfour s0 s1 s2 s3 rest)

theorem encodeChar_table : forall i : Fin 64,
    decodeChar (encodeChar (BitVec.ofNat 8 i)) = BitVec.ofNat 8 i ∧
      encodeChar (BitVec.ofNat 8 i) ≠ chPad := by
  decide +kernel

theorem decodeChar_encodeChar {x : Byte} (h : x.toNat < 64) :
    decodeChar (encodeChar x) = x ∧ encodeChar x ≠ chPad := by
  have htable := encodeChar_table ⟨x.toNat, h⟩
  rw [BitVec.ofNat_toNat, BitVec.setWidth_eq] at htable
  exact htable

theorem map_decodeChar {xs : List Byte} (h : forall x, x ∈ xs -> x.toNat < 64) :
    (xs.map encodeChar).map decodeChar = xs := by
  rw [List.map_map]
  refine (List.map_congr_left fun x hx => ?_).trans (List.map_id xs)
  exact (decodeChar_encodeChar (h x hx)).1

theorem decodable_map {xs : List Byte} (h : forall x, x ∈ xs -> x.toNat < 64) (n : Nat) :
    decodable (xs.map encodeChar ++ List.replicate n chPad) = some (xs.map encodeChar) := by
  induction xs with
  | nil =>
      cases n with
      | zero => rfl
      | succ n => rfl
  | cons x xs ih =>
      have hx := decodeChar_encodeChar (h x List.mem_cons_self)
      have hvalue : decodeChar (encodeChar x) ≠ 77 := by
        rw [hx.1]
        rintro rfl
        exact absurd (h 77 List.mem_cons_self) (by decide)
      rw [List.map_cons, List.cons_append]
      unfold decodable
      rw [if_neg hx.2, if_neg hvalue, ih fun y hy => h y (List.mem_cons_of_mem _ hy)]
      rfl

/-!
## The round trip
-/

theorem stringBase64Encode_length (s : List Byte) :
    (stringBase64Encode s).length = 4 * ((s.length + 2) / 3) := by
  rw [stringBase64Encode_eq, List.length_append, List.length_map, sextets_length, padding,
    List.length_replicate]
  omega

/-- `string_base64_decode` reads back what `string_base64_encode` writes. -/
theorem base64_round_trip (s : List Byte) :
    (stringBase64Encode s).length = 4 * ((s.length + 2) / 3) ∧
      stringBase64Decode (stringBase64Encode s) = some s := by
  constructor
  · exact stringBase64Encode_length s
  · have hlt := sextets_lt s
    have hlen : ((sextets s).map encodeChar).length % 4 ≠ 1 := by
      rw [List.length_map, sextets_length]
      omega
    unfold stringBase64Decode
    rw [stringBase64Encode_eq, padding, decodable_map hlt]
    dsimp only
    rw [if_neg hlen, decodeGroups_eq, map_decodeChar hlt, joinSextets_sextets]

example : stringBase64Encode (ascii "Server") = ascii "U2VydmVy" := by decide +kernel

end Core
end NgxEpoll
