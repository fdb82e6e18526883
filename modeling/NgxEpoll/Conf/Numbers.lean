import NgxEpoll.Conf.Options
import NgxEpoll.Core.Numerals
import NgxEpoll.Core.Texts
import Mathlib.Algebra.Ring.Int.Defs

/-!
# Numbers in options

When `conf_parse_int`, `conf_parse_time_t` and `conf_parse_bytes_size` take a text for
the number that it stands for.
-/

namespace NgxEpoll
namespace Conf

open Foundation NgxEpoll.Core

/-!
## Signed fields
-/

/-- The text is a numeral, and a signed field of `w` bits holds its value. -/
def Representable (w : Nat) (arg : List Byte) : Prop :=
  Decimal arg ∧ decimalValue arg < 2 ^ (w - 1)

instance (w : Nat) (arg : List Byte) : Decidable (Representable w arg) :=
  inferInstanceAs (Decidable (_ ∧ _))

/-- A handler takes the representable numerals and no other text, stores the value, and
leaves the field of a text that it refuses. -/
def StoresNumber {w : Nat} (field : ConfServer -> BitVec w) (conf : ConfServer)
    (arg : List Byte) : Handled -> Prop
  | Handled.ok conf' => Representable w arg ∧ (field conf').toInt = decimalValue arg
  | Handled.error conf' => ¬ Representable w arg ∧ field conf' = field conf
  | Handled.fault => False

/-- A long text is refused, a short one is stored before it is tested.  The field of a
short text stays only if it held the error code and the text stands for it too. -/
def StoringSound {w : Nat} (limit : Nat) (old : BitVec w) (arg : List Byte) : Prop :=
  if limit < arg.length then ¬ Representable w arg
  else
    Representable w arg ∨
      (old = BitVec.ofInt w ngxError ∧
        (Decimal arg -> decimalValue arg % 2 ^ w = 2 ^ w - 1))

instance {w : Nat} (limit : Nat) (old : BitVec w) (arg : List Byte) :
    Decidable (StoringSound limit old arg) :=
  inferInstanceAs (Decidable (if limit < arg.length then ¬ _ else _ ∨ (_ ∧ (_ -> _))))

section

variable {w : Nat} (hw : 0 < w)
include hw

omit hw in
theorem error_eq_allOnes : BitVec.ofInt w ngxError = BitVec.allOnes w := by
  rw [← BitVec.neg_one_eq_allOnes]
  exact BitVec.ofInt_neg

omit hw in
theorem ofNat_eq_error (v : Nat) :
    BitVec.ofNat w v = BitVec.ofInt w ngxError ↔ v % 2 ^ w = 2 ^ w - 1 := by
  rw [error_eq_allOnes, ← BitVec.toNat_inj, BitVec.toNat_ofNat, BitVec.toNat_allOnes]

theorem toInt_eq_error (x : BitVec w) :
    x.toInt = ngxError ↔ x = BitVec.ofInt w ngxError := by
  have hones : (BitVec.ofInt w ngxError).toInt = ngxError := by
    rw [error_eq_allOnes, BitVec.toInt_allOnes, if_pos hw]
    rfl
  rw [← BitVec.toInt_inj, hones]

/-- The parser returns the error code for what is no numeral, and for numerals whose
residue is that of the code. -/
theorem refusingValue_eq_error (arg : List Byte) :
    (refusingValue w arg).toInt = ngxError ↔
      (Decimal arg -> decimalValue arg % 2 ^ w = 2 ^ w - 1) := by
  rw [toInt_eq_error hw]
  unfold refusingValue
  by_cases hdec : Decimal arg
  · rw [if_pos hdec, ofNat_eq_error]
    exact ⟨fun h _ => h, fun h => h hdec⟩
  · rw [if_neg hdec]
    exact ⟨fun _ h => absurd h hdec, fun _ => rfl⟩

theorem two_pow_split : 2 ^ w = 2 * 2 ^ (w - 1) := by
  rw [← Nat.pow_succ', Nat.succ_eq_add_one, Nat.sub_add_cancel hw]

theorem Representable.toInt {arg : List Byte} (h : Representable w arg) :
    (refusingValue w arg).toInt = decimalValue arg := by
  have hpow := two_pow_split hw
  have hlt := h.2
  rw [refusingValue, if_pos h.1, BitVec.toInt_eq_toNat_of_lt, BitVec.toNat_ofNat,
    Nat.mod_eq_of_lt (by omega)]
  rw [BitVec.toNat_ofNat, Nat.mod_eq_of_lt (by omega)]
  omega

theorem storesNumber_iff {field : ConfServer -> BitVec w} {conf : ConfServer}
    {store : BitVec w -> ConfServer} (hstore : forall v, field (store v) = v)
    (limit : Nat) (arg : List Byte) :
    StoresNumber field conf arg
        (if limit < arg.length then Handled.error conf
        else if (refusingValue w arg).toInt = ngxError then
          Handled.error (store (refusingValue w arg))
        else Handled.ok (store (refusingValue w arg))) ↔
      StoringSound limit (field conf) arg := by
  unfold StoringSound
  by_cases hlen : limit < arg.length
  · rw [if_pos hlen, if_pos hlen]
    exact and_iff_left rfl
  rw [if_neg hlen, if_neg hlen]
  by_cases herr : (refusingValue w arg).toInt = ngxError
  · -- the error code has been stored
    have hnot : ¬ Representable w arg := by
      intro hrep
      rw [hrep.toInt hw] at herr
      exact absurd herr (by unfold ngxError; omega)
    rw [if_pos herr]
    have hvalue := (refusingValue_eq_error hw arg).mp herr
    dsimp only [StoresNumber]
    rw [hstore, (toInt_eq_error hw _).mp herr]
    constructor
    · rintro ⟨-, hold⟩
      exact Or.inr ⟨hold.symm, hvalue⟩
    · rintro (hrep | ⟨hold, -⟩)
      · exact absurd hrep hnot
      · exact ⟨hnot, hold.symm⟩
  · rw [if_neg herr]
    dsimp only [StoresNumber]
    rw [hstore]
    constructor
    · rintro ⟨hrep, -⟩
      exact Or.inl hrep
    · rintro (hrep | ⟨-, hvalue⟩)
      · exact ⟨hrep, hrep.toInt hw⟩
      · exact absurd ((refusingValue_eq_error hw arg).mpr hvalue) herr

end

def intField (offset : Nat) (conf : ConfServer) : BitVec 32 :=
  conf.words offset

def timeField (offset : Nat) (conf : ConfServer) : BitVec 64 :=
  BitVec.ofNat 64 (conf.words.size offset)

theorem setSize_low (m : Words) (a v : Nat) : m.setSize a v a = lowWord v := by
  rw [setSize_apply, sizeWord, if_neg (by omega), if_pos rfl]
  rfl

theorem setSize_high (m : Words) (a v : Nat) : m.setSize a v (a + 4) = highWord v := by
  rw [setSize_apply, sizeWord, if_pos rfl]
  rfl

theorem size_setSize (m : Words) (a : Nat) {v : Nat} (h : v < 2 ^ 64) :
    (m.setSize a v).size a = v := by
  unfold Words.size
  rw [setSize_low, setSize_high, lowWord, highWord, BitVec.toNat_ofNat, BitVec.toNat_ofNat,
    Nat.mod_eq_of_lt (a := v / 2 ^ 32) (by omega)]
  omega

section

variable (conf : ConfServer) (offset : Nat) (x y arg : List Byte)

theorem confParseInt_iff :
    StoresNumber (intField offset) conf arg
        (confParseInt conf offset Ope.equal [x, y, arg]) ↔
      StoringSound confMaxLenInt (intField offset conf) arg := by
  dsimp only [confParseInt, takeThree]
  rw [stringXxstrtoui_eq]
  exact storesNumber_iff (by decide) (fun v => Function.update_self ..) confMaxLenInt arg

theorem confParseTimeT_iff :
    StoresNumber (timeField offset) conf arg
        (confParseTimeT conf offset Ope.equal [x, y, arg]) ↔
      StoringSound confMaxLenTimeT (timeField offset conf) arg := by
  have hstore (v : BitVec 64) : timeField offset (conf.setSize offset v.toNat) = v := by
    dsimp only [timeField, ConfServer.setSize]
    rw [size_setSize _ _ v.isLt, BitVec.ofNat_toNat, BitVec.setWidth_eq]
  dsimp only [confParseTimeT, takeThree]
  rw [stringXxstrtotime_eq]
  exact storesNumber_iff (by decide) hstore confMaxLenTimeT arg

/-- The handlers take exactly the numerals that their fields hold, when the text is long
and stands for no such numeral, and when it is short and stands for one, or for the error
code that the field holds. -/
theorem numbers_stored_iff :
    (StoresNumber (intField offset) conf arg
        (confParseInt conf offset Ope.equal [x, y, arg]) ↔
      StoringSound confMaxLenInt (intField offset conf) arg) ∧
      (StoresNumber (timeField offset) conf arg
          (confParseTimeT conf offset Ope.equal [x, y, arg]) ↔
        StoringSound confMaxLenTimeT (timeField offset conf) arg) :=
  ⟨confParseInt_iff conf offset x y arg, confParseTimeT_iff conf offset x y arg⟩

end

/-- A word leaves the error code in the field, a big numeral is taken for a negative
number, and a numeral with many zeros is refused. -/
theorem numbers_not_stored :
    ¬ StoresNumber (intField 4) confServerInit (ascii "abc")
        (confParseInt confServerInit 4 Ope.equal [ascii "workers", ascii "=", ascii "abc"]) ∧
      ¬ StoresNumber (intField 4) confServerInit (ascii "4294967290")
        (confParseInt confServerInit 4 Ope.equal
          [ascii "workers", ascii "=", ascii "4294967290"]) ∧
      ¬ StoresNumber (intField 4) confServerInit (ascii "00000000001")
        (confParseInt confServerInit 4 Ope.equal
          [ascii "workers", ascii "=", ascii "00000000001"]) := by
  simp only [confParseInt_iff]
  decide

/-!
## Numbers of bytes
-/

/-- The text stands for a number of bytes: a numeral, and then exactly one unit. -/
def SizeText (arg : List Byte) (b : Nat) : Prop :=
  exists digits unit u, arg = digits ++ unit ∧ Decimal digits ∧ u ∈ bytesUnits ∧
    unit.map toupper = u.1 ∧ b = decimalValue digits * 2 ^ u.2

def unitText (arg : List Byte) : List Byte :=
  (arg.dropWhile isDigit).map toupper

theorem bytesUnits_upper :
    forall u, u ∈ bytesUnits -> forall d, d ∈ u.1 -> isUpper d = true ∧ isDigit d = false := by
  decide

theorem unit_no_digits {unit : List Byte} {u : List Byte × Nat} (hu : u ∈ bytesUnits)
    (hunit : unit.map toupper = u.1) : forall c, c ∈ unit -> isDigit c = false := by
  intro c hc
  rw [← toupper_digit]
  exact (bytesUnits_upper u hu _ (hunit ▸ List.mem_map_of_mem hc)).2

theorem sizeText_iff (arg : List Byte) (b : Nat) :
    SizeText arg b ↔
      Decimal (arg.takeWhile isDigit) ∧ exists u, u ∈ bytesUnits ∧ unitText arg = u.1 ∧
        b = decimalValue (arg.takeWhile isDigit) * 2 ^ u.2 := by
  constructor
  · rintro ⟨digits, unit, u, rfl, hdigits, hu, hunit, rfl⟩
    have hnone := unit_no_digits hu hunit
    have htake : (digits ++ unit).takeWhile isDigit = digits := by
      rw [List.takeWhile_append_of_pos hdigits.2]
      cases unit with
      | nil => exact List.append_nil _
      | cons c unit =>
          rw [List.takeWhile_cons_of_neg (by simp [hnone c]), List.append_nil]
    have hdrop : (digits ++ unit).dropWhile isDigit = unit := by
      rw [List.dropWhile_append_of_pos hdigits.2]
      cases unit with
      | nil => rfl
      | cons c unit => exact List.dropWhile_cons_of_neg (by simp [hnone c])
    rw [htake, unitText, hdrop]
    exact ⟨hdigits, u, hu, hunit, rfl⟩
  · rintro ⟨hdigits, u, hu, hunit, hb⟩
    exact ⟨_, _, u, List.takeWhile_append_dropWhile.symm, hdigits, hu, hunit, hb⟩

instance (arg : List Byte) (b : Nat) : Decidable (SizeText arg b) :=
  decidable_of_iff _ (sizeText_iff arg b).symm

theorem leadingNumber_modEq (arg : List Byte) :
    leadingNumber arg ≡ decimalValue (arg.takeWhile isDigit) [MOD 2 ^ 64] := by
  unfold leadingNumber decimalValue
  rw [← numeralFrom_zero, ← Int.natCast_modEq_iff]
  apply foldl_modEq Nat.cast
  · intro b c
    push_cast
    exact Int.mod_modEq _ _
  · rfl

theorem unit_begins {arg : List Byte} {u : List Byte × Nat} (hu : u ∈ bytesUnits) :
    stringXxstrncasecmp (unitText arg) u.1 u.1.length = 0 ↔ u.1 <+: unitText arg := by
  apply stringXxstrncasecmp_eq_zero
  · intro d hd
    exact (bytesUnits_upper u hu d hd).1
  · intro c hc
    obtain ⟨c', -, rfl⟩ := List.mem_map.mp hc
    exact toupper_not_lower c'

theorem bytesSize_eq_none (arg : List Byte) :
    bytesSize arg = none ↔ forall u, u ∈ bytesUnits -> ¬ u.1 <+: unitText arg := by
  unfold bytesSize
  rw [Option.map_eq_none_iff, List.find?_eq_none]
  refine forall_congr' fun u => forall_congr' fun hu => ?_
  rw [decide_eq_true_iff, ← unit_begins hu]
  rfl

theorem bytesUnits_find :
    forall u, u ∈ bytesUnits ->
      (bytesUnits.find? fun v => stringXxstrncasecmp u.1 v.1 v.1.length = 0) = some u := by
  decide

theorem SizeText.bytesSize {arg : List Byte} {b : Nat} (h : SizeText arg b) :
    bytesSize arg = some (b % 2 ^ 64) := by
  obtain ⟨-, u, hu, hunit, hb⟩ := (sizeText_iff arg b).mp h
  unfold Conf.bytesSize
  dsimp only
  rw [show (arg.dropWhile isDigit).map toupper = u.1 from hunit, bytesUnits_find u hu,
    Option.map_some, hb]
  exact congrArg some ((leadingNumber_modEq arg).mul_right _)

/-- The handler takes the texts that stand for fewer than `2 ^ 64` bytes and no other
ones.  The field then has the number of bytes, and a refused text changes nothing. -/
def StoresBytes (conf : ConfServer) (offset : Nat) (arg : List Byte) : Handled -> Prop
  | Handled.ok conf' =>
      exists b, SizeText arg b ∧ b < 2 ^ 64 ∧ (conf'.words offset).toNat = b
  | Handled.error conf' =>
      (forall b, SizeText arg b -> 2 ^ 64 ≤ b) ∧ conf' = conf
  | Handled.fault => False

/-- The unit fits into its buffer, and it begins like none of the units or the text stands
for a number of bytes that the field holds. -/
def BytesSound (arg : List Byte) : Prop :=
  (unitText arg).length < unitSize ∧
    ((forall u, u ∈ bytesUnits -> ¬ u.1 <+: unitText arg) ∨
      exists b, SizeText arg b ∧ b < 2 ^ 32)

theorem exists_sizeText_iff (arg : List Byte) (n : Nat) :
    (exists b, SizeText arg b ∧ b < n) ↔
      Decimal (arg.takeWhile isDigit) ∧ exists u, u ∈ bytesUnits ∧ unitText arg = u.1 ∧
        decimalValue (arg.takeWhile isDigit) * 2 ^ u.2 < n := by
  constructor
  · rintro ⟨b, hsize, hb⟩
    obtain ⟨hdec, u, hu, hunit, rfl⟩ := (sizeText_iff arg b).mp hsize
    exact ⟨hdec, u, hu, hunit, hb⟩
  · rintro ⟨hdec, u, hu, hunit, hb⟩
    exact ⟨_, (sizeText_iff arg _).mpr ⟨hdec, u, hu, hunit, rfl⟩, hb⟩

instance (arg : List Byte) : Decidable (BytesSound arg) :=
  decidable_of_iff
    ((unitText arg).length < unitSize ∧
      ((forall u, u ∈ bytesUnits -> ¬ u.1 <+: unitText arg) ∨
        (Decimal (arg.takeWhile isDigit) ∧ exists u, u ∈ bytesUnits ∧ unitText arg = u.1 ∧
          decimalValue (arg.takeWhile isDigit) * 2 ^ u.2 < 2 ^ 32)))
    (and_congr_right' (or_congr_right (exists_sizeText_iff arg (2 ^ 32)).symm))

theorem SizeText.begins {arg : List Byte} {b : Nat} (h : SizeText arg b) :
    exists u, u ∈ bytesUnits ∧ u.1 <+: unitText arg := by
  obtain ⟨-, u, hu, hunit, -⟩ := (sizeText_iff arg b).mp h
  exact ⟨u, hu, hunit ▸ List.prefix_rfl⟩

section

variable (conf : ConfServer) (offset : Nat) (x y arg : List Byte)

theorem unitText_length : (arg.dropWhile isDigit).length = (unitText arg).length :=
  (List.length_map _).symm

theorem StoresBytes.sound
    (h : StoresBytes conf offset arg (confParseBytesSize conf offset Ope.equal [x, y, arg])) :
    BytesSound arg := by
  dsimp only [confParseBytesSize, takeThree] at h
  rw [unitText_length] at h
  by_cases hunit : unitSize ≤ (unitText arg).length
  · -- the end of the unit is written behind the buffer
    rw [if_pos hunit] at h
    exact h.elim
  rw [if_neg hunit] at h
  constructor
  · exact Nat.lt_of_not_le hunit
  · cases hsize : bytesSize arg with
    | none => exact Or.inl ((bytesSize_eq_none arg).mp hsize)
    | some v =>
        rw [hsize] at h
        obtain ⟨b, hb, -, hread⟩ := h
        exact Or.inr ⟨b, hb, hread ▸ BitVec.isLt _⟩

theorem BytesSound.stores (h : BytesSound arg) :
    StoresBytes conf offset arg (confParseBytesSize conf offset Ope.equal [x, y, arg]) := by
  dsimp only [confParseBytesSize, takeThree]
  rw [unitText_length, if_neg (Nat.not_le_of_lt h.1)]
  rcases h.2 with hnone | ⟨b, hb, hlt⟩
  · rw [(bytesSize_eq_none arg).mpr hnone]
    refine ⟨fun b hb => ?_, rfl⟩
    obtain ⟨u, hu, hbegins⟩ := hb.begins
    exact absurd hbegins (hnone u hu)
  · have hpow : (2 : Nat) ^ 32 < 2 ^ 64 := by decide
    have hfits : b < 2 ^ 64 := Nat.lt_trans hlt hpow
    rw [hb.bytesSize, Nat.mod_eq_of_lt hfits]
    refine ⟨b, hb, hfits, ?_⟩
    dsimp only [ConfServer.setSize]
    rw [setSize_low, lowWord, BitVec.toNat_ofNat, Nat.mod_eq_of_lt hlt]

/-- The handler stores what the text stands for exactly when the unit fits into its buffer,
and it begins like none of the units or the text stands for a number of bytes that the
field holds. -/
theorem bytes_stored_iff :
    StoresBytes conf offset arg (confParseBytesSize conf offset Ope.equal [x, y, arg]) ↔
      BytesSound arg :=
  ⟨StoresBytes.sound conf offset x y arg, BytesSound.stores conf offset x y arg⟩

end

open ConfServer in
/-- No digits, a tail behind the unit, a number of bytes that the field does not hold, and
a unit that overruns the buffer. -/
theorem bytes_not_stored :
    ¬ StoresBytes confServerInit recvBuffLen (ascii "KB")
        (confParseBytesSize confServerInit recvBuffLen Ope.equal
          [ascii "recv_buff_len", ascii "=", ascii "KB"]) ∧
      ¬ StoresBytes confServerInit recvBuffLen (ascii "64KBx")
        (confParseBytesSize confServerInit recvBuffLen Ope.equal
          [ascii "recv_buff_len", ascii "=", ascii "64KBx"]) ∧
      ¬ StoresBytes confServerInit recvBuffLen (ascii "4GB")
        (confParseBytesSize confServerInit recvBuffLen Ope.equal
          [ascii "recv_buff_len", ascii "=", ascii "4GB"]) ∧
      ¬ StoresBytes confServerInit recvBuffLen (ascii "1KBxxxxxxxxxxxxxxxxxx")
        (confParseBytesSize confServerInit recvBuffLen Ope.equal
          [ascii "recv_buff_len", ascii "=", ascii "1KBxxxxxxxxxxxxxxxxxx"]) := by
  have hunsound : forall arg,
      arg ∈ [ascii "KB", ascii "64KBx", ascii "4GB", ascii "1KBxxxxxxxxxxxxxxxxxx"] ->
        ¬ BytesSound arg := by
    decide +kernel
  simp only [List.forall_mem_cons] at hunsound
  obtain ⟨hdigits, htail, hbig, hlong, -⟩ := hunsound
  exact ⟨fun h => hdigits h.sound, fun h => htail h.sound, fun h => hbig h.sound,
    fun h => hlong h.sound⟩

end Conf
end NgxEpoll
