import NgxEpoll.Conf.Options
import NgxEpoll.Core.Numerals
import NgxEpoll.Core.Texts

/-!
# Addresses to bind

What `conf_parse_bind` makes of the address and the port of an argument, and which of the
addresses that it has accepted stand in the way of a new one.

## Arguments that the validator lets through
-/

namespace NgxEpoll
namespace Conf

open Foundation NgxEpoll.Core

/-- The argument is an address, an address with a port, or a port. -/
def Valid (arg : List Byte) : Prop :=
  confParseValidBindIpv4 arg ≠ BindType.error

instance (arg : List Byte) : Decidable (Valid arg) :=
  inferInstanceAs (Decidable (_ ≠ _))

theorem Valid.bytes {arg : List Byte} (h : Valid arg) {c : Byte} (hc : c ∈ arg) :
    c = chDot ∨ c = chColon ∨ isalnum c = true := by
  unfold Valid confParseValidBindIpv4 at h
  split at h
  · exact absurd rfl h
  split at h
  · exact absurd rfl h
  split at h
  · exact absurd rfl h
  next hall =>
    rw [Bool.not_eq_false, List.all_eq_true] at hall
    simpa only [Bool.or_eq_true, decide_eq_true_eq, or_assoc] using hall c hc

theorem Valid.no_zero {arg : List Byte} (h : Valid arg) : 0 ∉ arg := by
  intro hc
  have hbytes := h.bytes hc
  revert hbytes
  decide

theorem Valid.no_minus {arg : List Byte} (h : Valid arg) : 0x2d ∉ arg := by
  intro hc
  have hbytes := h.bytes hc
  revert hbytes
  decide

theorem Valid.port_iff {arg : List Byte} (h : Valid arg) :
    confParseValidBindIpv4 arg = BindType.port ↔ chDot ∉ arg := by
  have hdot := strchr_eq_none h.no_zero chDot
  unfold Valid at h
  unfold confParseValidBindIpv4 at h ⊢
  split at h
  · exact absurd rfl h
  split at h
  · exact absurd rfl h
  split at h
  · exact absurd rfl h
  next hlen hends hall =>
    rw [if_neg hlen, if_neg hends, if_neg hall, ← hdot]
    cases strchr arg chDot with
    | none => exact iff_of_true rfl rfl
    | some i =>
        cases strchr arg chColon with
        | none => exact iff_of_false nofun nofun
        | some j => exact iff_of_false nofun nofun

/-!
## The address and the port of an argument
-/

def portText (s : List Byte) : Option (List Byte) :=
  if chColon ∈ s then some (afterSep chColon s) else none

def writtenPort (arg : List Byte) : Option (List Byte) :=
  if chDot ∈ arg then portText arg else some arg

def writtenAddr (arg : List Byte) : List Byte :=
  if chDot ∈ arg then beforeSep chColon arg else confServerDefIp

def leadingPort : Option (List Byte) -> Nat
  | none => confServerDefPort
  | some text => decimalValue (text.takeWhile isDigit)

section

variable {s : List Byte} (hzero : 0 ∉ s) (hminus : 0x2d ∉ s)
include hzero hminus

theorem strchr_port {k : Nat} (hlo : 7 ≤ k) (hhi : k ≤ 32) :
    (match strchr s chColon with
      | some sp => (stringXxstrtoi (s.drop (sp + 1)) % 2 ^ k).toNat
      | none => confServerDefPort) = leadingPort (portText s) % 2 ^ k := by
  unfold portText
  by_cases hcolon : chColon ∈ s
  · rw [strchr_eq_some hzero hcolon, if_pos hcolon]
    dsimp only [leadingPort]
    rw [drop_beforeSep hcolon, stringXxstrtoi_unsigned (fun h => hminus (mem_of_mem_afterSep h)) hhi]
  · rw [(strchr_eq_none hzero chColon).mpr hcolon, if_neg hcolon]
    have hpow : 2 ^ 7 ≤ 2 ^ k := Nat.pow_le_pow_right (by decide) hlo
    have hdef : confServerDefPort < 2 ^ k :=
      Nat.lt_of_lt_of_le (by decide : confServerDefPort < 2 ^ 7) hpow
    exact (Nat.mod_eq_of_lt hdef).symm

theorem splitBind_eq :
    splitBind s = ⟨beforeSep chColon s, leadingPort (portText s) % 2 ^ 32⟩ := by
  have hport := strchr_port hzero hminus (by decide : 7 ≤ 32) (Nat.le_refl 32)
  unfold splitBind
  by_cases hcolon : chColon ∈ s
  · rw [strchr_eq_some hzero hcolon] at hport ⊢
    dsimp only at hport ⊢
    rw [hport, take_beforeSep hcolon]
  · rw [(strchr_eq_none hzero chColon).mpr hcolon] at hport ⊢
    dsimp only at hport ⊢
    rw [hport, beforeSep_eq_self hcolon]

end

section

variable {arg : List Byte} (hvalid : Valid arg)
include hvalid

theorem completeBind_eq :
    completeBind arg = if chDot ∈ arg then arg else confServerDefIp ++ chColon :: arg := by
  have hport := hvalid.port_iff
  unfold completeBind
  by_cases hdot : chDot ∈ arg
  · rw [if_pos hdot]
    split
    next htype => exact absurd hdot (hport.mp htype)
    next => rfl
  · rw [hport.mpr hdot, if_neg hdot]

theorem completeBind_no_zero : 0 ∉ completeBind arg := by
  rw [completeBind_eq hvalid]
  split
  · exact hvalid.no_zero
  · intro hmem
    rcases List.mem_append.mp hmem with hip | hrest
    · exact absurd hip (by decide)
    · rcases List.mem_cons.mp hrest with hcolon | harg
      · exact absurd hcolon (by decide)
      · exact hvalid.no_zero harg

theorem completeBind_no_minus : 0x2d ∉ completeBind arg := by
  rw [completeBind_eq hvalid]
  split
  · exact hvalid.no_minus
  · intro hmem
    rcases List.mem_append.mp hmem with hip | hrest
    · exact absurd hip (by decide)
    · rcases List.mem_cons.mp hrest with hcolon | harg
      · exact absurd hcolon (by decide)
      · exact hvalid.no_minus harg

theorem portText_completeBind : portText (completeBind arg) = writtenPort arg := by
  rw [completeBind_eq hvalid]
  unfold writtenPort
  by_cases hdot : chDot ∈ arg
  · rw [if_pos hdot, if_pos hdot]
  · rw [if_neg hdot, if_neg hdot, portText, if_pos List.mem_append_cons_self,
      afterSep_append (by decide)]

theorem beforeSep_completeBind : beforeSep chColon (completeBind arg) = writtenAddr arg := by
  rw [completeBind_eq hvalid]
  unfold writtenAddr
  by_cases hdot : chDot ∈ arg
  · rw [if_pos hdot, if_pos hdot]
  · rw [if_neg hdot, if_neg hdot, beforeSep_append (by decide)]

theorem splitBind_completeBind :
    splitBind (completeBind arg) =
      ⟨writtenAddr arg, leadingPort (writtenPort arg) % 2 ^ 32⟩ := by
  rw [splitBind_eq (completeBind_no_zero hvalid) (completeBind_no_minus hvalid),
    beforeSep_completeBind hvalid, portText_completeBind hvalid]

end

/-- The composed address of a bare port and its end stay in the bytes that are allocated
for them. -/
def Roomy (arg : List Byte) : Prop :=
  chDot ∉ arg -> (completeBind arg).length < maxBindSize

instance (arg : List Byte) : Decidable (Roomy arg) :=
  inferInstanceAs (Decidable (_ -> _))

/-- The handler reaches `pushBind` for every argument that is let through and has the
room. -/
theorem confParseBind_eq {arg : List Byte} (hvalid : Valid arg) (conf : ConfServer)
    (offset : Nat) (x y : List Byte) :
    confParseBind conf offset Ope.equal [x, y, arg] =
      if Roomy arg then pushBind conf offset (completeBind arg) else Handled.fault := by
  have hcomplete := completeBind_eq hvalid
  dsimp only [confParseBind, takeThree]
  by_cases hdot : chDot ∈ arg
  · rw [if_pos hdot] at hcomplete
    have hroom : Roomy arg := fun h => absurd hdot h
    rw [hcomplete, if_pos hroom]
    split
    next htype => exact absurd htype hvalid
    next htype => exact absurd hdot (hvalid.port_iff.mp htype)
    next => rfl
  · rw [if_neg hdot] at hcomplete
    have hroomy : Roomy arg ↔ (confServerDefIp ++ chColon :: arg).length < maxBindSize := by
      unfold Roomy
      rw [hcomplete, forall_prop_of_true hdot]
    rw [hvalid.port_iff.mpr hdot, hcomplete]
    dsimp only
    by_cases hroom : maxBindSize ≤ (confServerDefIp ++ chColon :: arg).length
    · rw [if_pos hroom, if_neg fun h => Nat.not_lt_of_le hroom (hroomy.mp h)]
    · rw [if_neg hroom, if_pos (hroomy.mpr (Nat.lt_of_not_le hroom))]

/-- An accepted address stands in the way of the argument. -/
def Occupied (conf : ConfServer) (offset : Nat) (arg : List Byte) : Prop :=
  exists c1, c1 ∈ conf.binds offset ∧ BindIpv4StrCmp c1 (completeBind arg)

instance (conf : ConfServer) (offset : Nat) (arg : List Byte) :
    Decidable (Occupied conf offset arg) :=
  inferInstanceAs (Decidable (exists c1, c1 ∈ conf.binds offset ∧ BindIpv4StrCmp c1 _))

def PortRange (port : Nat) : Prop :=
  1 ≤ port ∧ port ≤ 65535

instance (port : Nat) : Decidable (PortRange port) :=
  inferInstanceAs (Decidable (_ ∧ _))

def pushedPort (arg : List Byte) : Nat :=
  leadingPort (writtenPort arg) % 2 ^ 32

/-- An argument is refused for an accepted address or for its port. -/
def Refused (conf : ConfServer) (offset : Nat) (arg : List Byte) : Prop :=
  Occupied conf offset arg ∨ ¬ PortRange (pushedPort arg)

instance (conf : ConfServer) (offset : Nat) (arg : List Byte) :
    Decidable (Refused conf offset arg) :=
  inferInstanceAs (Decidable (_ ∨ _))

section

variable {arg : List Byte} (hvalid : Valid arg) (conf : ConfServer) (offset : Nat)
include hvalid

theorem pushBind_completeBind :
    pushBind conf offset (completeBind arg) =
      if Refused conf offset arg then Handled.error conf
      else
        Handled.ok { conf with
          binds := Function.update conf.binds offset (conf.binds offset ++
            [⟨writtenAddr arg, pushedPort arg⟩]) } := by
  have hany : ((conf.binds offset).any fun c1 => BindIpv4StrCmp c1 (completeBind arg)) = true ↔
      Occupied conf offset arg := by
    rw [List.any_eq_true]
    simp only [decide_eq_true_eq]
    rfl
  unfold pushBind
  rw [splitBind_completeBind hvalid]
  dsimp only
  by_cases hocc : Occupied conf offset arg
  · have href : Refused conf offset arg := Or.inl hocc
    rw [if_pos (hany.mpr hocc), if_pos href]
  rw [if_neg fun h => hocc (hany.mp h)]
  by_cases hrange : PortRange (pushedPort arg)
  · have href : ¬ Refused conf offset arg := not_or.mpr ⟨hocc, not_not.mpr hrange⟩
    rw [if_neg href, if_neg (by unfold PortRange pushedPort at hrange; omega)]
    rfl
  · have href : Refused conf offset arg := Or.inr hrange
    rw [if_pos href, if_pos (by unfold PortRange pushedPort at hrange; omega)]

end

/-!
## The stored port
-/

/-- The text is a numeral of a port and nothing else. -/
def PortNumeral (text : List Byte) : Prop :=
  Decimal text ∧ PortRange (decimalValue text)

instance (text : List Byte) : Decidable (PortNumeral text) :=
  inferInstanceAs (Decidable (_ ∧ _))

/-- The number is the one that the text of a port is a numeral of, or the default one. -/
def PortIs : Option (List Byte) -> Nat -> Prop
  | some text, port => PortNumeral text ∧ port = decimalValue text
  | none, port => port = confServerDefPort

/-- An argument that is taken has the numeral of a port or no port.  The handler pushes an
address with that port, or with the default one, and stays within its buffers. -/
def StoresPort (conf : ConfServer) (offset : Nat) (arg : List Byte) : Handled -> Prop
  | Handled.ok conf' =>
      exists bind, conf'.binds offset = conf.binds offset ++ [bind] ∧
        PortIs (writtenPort arg) bind.port
  | Handled.error _ => True
  | Handled.fault => False

/-- A port is a numeral, or the digits that it begins with wrap to no port. -/
def Legible : Option (List Byte) -> Prop
  | some text => PortNumeral text ∨ ¬ PortRange (leadingPort (some text) % 2 ^ 32)
  | none => True

instance : forall port, Decidable (Legible port)
  | some text =>
      inferInstanceAs (Decidable (PortNumeral text ∨ ¬ PortRange _))
  | none => instDecidableTrue

/-- The argument is not let through, or there is room for it, and it is refused for an
accepted address or has a port that is a numeral or wraps to none. -/
def PortSound (conf : ConfServer) (offset : Nat) (arg : List Byte) : Prop :=
  Valid arg -> Roomy arg ∧ (Occupied conf offset arg ∨ Legible (writtenPort arg))

instance (conf : ConfServer) (offset : Nat) (arg : List Byte) :
    Decidable (PortSound conf offset arg) :=
  inferInstanceAs (Decidable (Valid arg -> Roomy arg ∧ (_ ∨ _)))

theorem PortNumeral.leading {text : List Byte} (h : PortNumeral text) :
    leadingPort (some text) = decimalValue text := by
  have hall : text.takeWhile isDigit = text := List.takeWhile_eq_self_iff.mpr h.1.2
  rw [leadingPort, hall]

section

variable (conf : ConfServer) (offset : Nat) (x y : List Byte) {arg : List Byte}

theorem confParseBind_invalid (h : ¬ Valid arg) :
    confParseBind conf offset Ope.equal [x, y, arg] = Handled.error conf := by
  dsimp only [confParseBind, takeThree]
  rw [not_not.mp h]

theorem portIs_pushed {port : Option (List Byte)}
    (hrange : PortRange (leadingPort port % 2 ^ 32)) :
    PortIs port (leadingPort port % 2 ^ 32) ↔ Legible port := by
  cases port with
  | none => exact iff_of_true rfl trivial
  | some text =>
      dsimp only [PortIs, Legible]
      rw [or_iff_left (not_not.mpr hrange)]
      refine and_iff_left_of_imp fun h => ?_
      have hlt : decimalValue text < 2 ^ 32 := Nat.lt_of_le_of_lt h.2.2 (by decide)
      rw [h.leading, Nat.mod_eq_of_lt hlt]

theorem Legible.of_wrapped {port : Option (List Byte)}
    (h : ¬ PortRange (leadingPort port % 2 ^ 32)) : Legible port := by
  cases port with
  | none => trivial
  | some text => exact Or.inr h

theorem storesPort_pushBind (hvalid : Valid arg) :
    StoresPort conf offset arg (pushBind conf offset (completeBind arg)) ↔
      Occupied conf offset arg ∨ Legible (writtenPort arg) := by
  rw [pushBind_completeBind hvalid]
  by_cases hrefused : Refused conf offset arg
  · rw [if_pos hrefused]
    exact iff_of_true trivial (hrefused.imp_right Legible.of_wrapped)
  · rw [if_neg hrefused]
    obtain ⟨hocc, hrange⟩ := not_or.mp hrefused
    rw [or_iff_right hocc, ← portIs_pushed (not_not.mp hrange)]
    dsimp only [StoresPort]
    rw [Function.update_self]
    constructor
    · rintro ⟨bind, hbind, hport⟩
      rw [List.append_cancel_left_eq, List.cons.injEq] at hbind
      rw [← hbind.1] at hport
      exact hport
    · intro hport
      exact ⟨_, rfl, hport⟩

/-- The handler stores the written port and stays in its buffers exactly when the argument
is not let through, or there is room for it, and an accepted address stands in its way or
its port is a numeral or wraps to none. -/
theorem port_stored_iff (arg : List Byte) :
    StoresPort conf offset arg (confParseBind conf offset Ope.equal [x, y, arg]) ↔
      PortSound conf offset arg := by
  by_cases hvalid : Valid arg
  · rw [PortSound, forall_prop_of_true hvalid, confParseBind_eq hvalid]
    by_cases hroom : Roomy arg
    · rw [if_pos hroom, and_iff_right hroom]
      exact storesPort_pushBind conf offset hvalid
    · rw [if_neg hroom]
      exact iff_of_false id fun h => hroom h.1
  · rw [confParseBind_invalid conf offset x y hvalid]
    exact iff_of_true trivial fun h => absurd h hvalid

end

open ConfServer in
/-- A tail behind the port, a port that wraps, and a bare port that leaves no room. -/
theorem port_not_stored :
    ¬ StoresPort confServerInit bindForCli (ascii "1.2.3.4:80abc")
        (confParseBind confServerInit bindForCli Ope.equal
          [ascii "bind_for_cli", ascii "=", ascii "1.2.3.4:80abc"]) ∧
      ¬ StoresPort confServerInit bindForCli (ascii "1.2.3.4:4294967376")
        (confParseBind confServerInit bindForCli Ope.equal
          [ascii "bind_for_cli", ascii "=", ascii "1.2.3.4:4294967376"]) ∧
      ¬ StoresPort confServerInit bindForCli (ascii "00000000000080")
        (confParseBind confServerInit bindForCli Ope.equal
          [ascii "bind_for_cli", ascii "=", ascii "00000000000080"]) := by
  refine ⟨?_, ?_, ?_⟩
  · rw [confParseBind_eq (by decide), if_pos (by decide), storesPort_pushBind _ _ (by decide)]
    decide
  · rw [confParseBind_eq (by decide), if_pos (by decide), storesPort_pushBind _ _ (by decide)]
    decide
  · rw [confParseBind_eq (by decide), if_neg (by decide)]
    exact id

/-!
## Accepted addresses
-/

/-- The addresses that the handler has accepted one by one. -/
inductive Accepted : List ServerBind -> Prop where
  | nil : Accepted []
  | step {conf conf' : ConfServer} {offset : Nat} {type : Ope} {args : List (List Byte)} :
      Accepted (conf.binds offset) ->
        confParseBind conf offset type args = Handled.ok conf' ->
          Accepted (conf'.binds offset)

theorem confParseBind_adds {conf conf' : ConfServer} {offset : Nat} {type : Ope}
    {args : List (List Byte)} (h : confParseBind conf offset type args = Handled.ok conf') :
    exists arg, Valid arg ∧
      conf'.binds offset = conf.binds offset ++ [⟨writtenAddr arg, pushedPort arg⟩] := by
  obtain ⟨rfl, x, y, arg, rfl, -⟩ := takeThree_eq_ok.mp h
  by_cases hvalid : Valid arg
  · rw [confParseBind_eq hvalid] at h
    by_cases hroom : Roomy arg
    · rw [if_pos hroom, pushBind_completeBind hvalid] at h
      by_cases hrefused : Refused conf offset arg
      · rw [if_pos hrefused] at h
        cases h
      · rw [if_neg hrefused, Handled.ok.injEq] at h
        refine ⟨arg, hvalid, ?_⟩
        rw [← h]
        exact Function.update_self ..
    · rw [if_neg hroom] at h
      cases h
  · rw [confParseBind_invalid _ _ _ _ hvalid] at h
    cases h

theorem writtenAddr_no_colon (arg : List Byte) : chColon ∉ writtenAddr arg := by
  unfold writtenAddr
  split
  · exact notMem_beforeSep chColon arg
  · decide

theorem writtenAddr_no_zero {arg : List Byte} (h : Valid arg) : 0 ∉ writtenAddr arg := by
  unfold writtenAddr
  split
  · exact fun hmem => h.no_zero (mem_of_mem_beforeSep hmem)
  · decide

theorem Accepted.plain {l : List ServerBind} (h : Accepted l) :
    forall c1, c1 ∈ l -> chColon ∉ c1.addr ∧ 0 ∉ c1.addr := by
  induction h with
  | nil => exact nofun
  | step _ hrun ih =>
      obtain ⟨arg, hvalid, hadds⟩ := confParseBind_adds hrun
      rw [hadds]
      intro c1 hc1
      rcases List.mem_append.mp hc1 with hold | hnew
      · exact ih c1 hold
      · rw [List.mem_singleton.mp hnew]
        exact ⟨writtenAddr_no_colon arg, writtenAddr_no_zero hvalid⟩

/-!
## Duplicates
-/

/-- An address of the same port that is equal, or where one of the two is the wildcard. -/
def Duplicates (addr : List Byte) (port : Nat) (c1 : ServerBind) : Prop :=
  c1.port = port ∧
    (c1.addr = addr ∨ c1.addr = confServerDefIp ∨ addr = confServerDefIp)

/-- An address of the same port that begins the other one, or where one of the two is the
wildcard or contains its text. -/
def Resembles (addr : List Byte) (port : Nat) (c1 : ServerBind) : Prop :=
  c1.port = port ∧
    (c1.addr <+: addr ∨ c1.addr = confServerDefIp ∨ confServerDefIp <:+: addr)

instance (addr : List Byte) (port : Nat) : DecidablePred (Duplicates addr port) :=
  fun _ => inferInstanceAs (Decidable (_ ∧ (_ ∨ _ ∨ _)))

instance (addr : List Byte) (port : Nat) : DecidablePred (Resembles addr port) :=
  fun _ => inferInstanceAs (Decidable (_ ∧ (_ ∨ _ ∨ _)))

theorem Duplicates.resembles {addr : List Byte} {port : Nat} {c1 : ServerBind}
    (h : Duplicates addr port c1) : Resembles addr port c1 := by
  obtain ⟨hport, haddr⟩ := h
  refine ⟨hport, ?_⟩
  rcases haddr with heq | hwild | hself
  · exact Or.inl (heq ▸ List.prefix_rfl)
  · exact Or.inr (Or.inl hwild)
  · exact Or.inr (Or.inr (hself ▸ List.infix_rfl))

theorem PortIs.leading {port : Option (List Byte)} {p : Nat} (h : PortIs port p) :
    leadingPort port = p := by
  cases port with
  | none => exact h.symm
  | some text => rw [h.1.leading, h.2]

theorem PortIs.range {port : Option (List Byte)} {p : Nat} (h : PortIs port p) :
    PortRange p := by
  cases port with
  | none =>
      rw [show p = confServerDefPort from h]
      decide
  | some text =>
      rw [h.2]
      exact h.1.2

theorem PortNumeral.no_dot {text : List Byte} (h : PortNumeral text) : chDot ∉ text := by
  intro hmem
  exact absurd (h.1.2 chDot hmem) (by decide)

section

variable {arg : List Byte} (hvalid : Valid arg) {p : Nat} (hport : PortIs (writtenPort arg) p)
include hvalid hport

theorem infix_completeBind :
    confServerDefIp <:+: completeBind arg ↔ confServerDefIp <:+: writtenAddr arg := by
  rw [← beforeSep_completeBind hvalid]
  apply infix_iff_beforeSep (by decide)
  intro hcolon hinner
  have htext : writtenPort arg = some (afterSep chColon (completeBind arg)) := by
    rw [← portText_completeBind hvalid, portText, if_pos hcolon]
  rw [htext] at hport
  exact hport.1.no_dot (hinner.subset (by decide))

theorem bindIpv4StrCmp_iff {c1 : ServerBind} (hcolon : chColon ∉ c1.addr)
    (hzero : 0 ∉ c1.addr) :
    BindIpv4StrCmp c1 (completeBind arg) ↔ Resembles (writtenAddr arg) p c1 := by
  have hplain := completeBind_no_zero hvalid
  have hwidth : p < 2 ^ 16 := Nat.lt_of_le_of_lt hport.range.2 (by decide)
  have hprefix : c1.addr <+: completeBind arg ↔ c1.addr <+: writtenAddr arg := by
    rw [← beforeSep_completeBind hvalid]
    exact prefix_iff_beforeSep hcolon
  have hcode : (match strchr (completeBind arg) chColon with
      | some sp => (stringXxstrtoi ((completeBind arg).drop (sp + 1)) % 2 ^ 16).toNat
      | none => confServerDefPort) = p := by
    rw [strchr_port hplain (completeBind_no_minus hvalid) (by decide) (by decide),
      portText_completeBind hvalid, hport.leading, Nat.mod_eq_of_lt hwidth]
  have hcmp : BindIpv4StrCmp c1 (completeBind arg) ↔
      ((cString c1.addr = confServerDefIp ∨ strstr (completeBind arg) confServerDefIp) ∧
          p = c1.port) ∨
        (p = c1.port ∧ c1.addr <+: cString (completeBind arg)) := by
    rw [← hcode]
    exact Iff.rfl
  rw [hcmp, cString_eq hzero, cString_eq hplain, strstr_iff hplain,
    infix_completeBind hvalid hport, hprefix]
  unfold Resembles
  constructor
  · rintro (⟨haddr, heq⟩ | ⟨heq, hbegins⟩)
    · exact ⟨heq.symm, Or.inr haddr⟩
    · exact ⟨heq.symm, Or.inl hbegins⟩
  · rintro ⟨heq, hbegins | haddr⟩
    · exact Or.inr ⟨heq.symm, hbegins⟩
    · exact Or.inl ⟨haddr, heq.symm⟩

end

/-- An argument with a port is refused exactly when it duplicates an accepted address. -/
def RejectsDuplicates (l : List ServerBind) (addr : List Byte) (port : Nat) :
    Handled -> Prop
  | Handled.ok _ => ¬ exists c1, c1 ∈ l ∧ Duplicates addr port c1
  | Handled.error _ => exists c1, c1 ∈ l ∧ Duplicates addr port c1
  | Handled.fault => False

/-- An address that resembles an accepted one duplicates one of them. -/
def Distinct (l : List ServerBind) (addr : List Byte) (port : Nat) : Prop :=
  (exists c1, c1 ∈ l ∧ Resembles addr port c1) -> exists c1, c1 ∈ l ∧ Duplicates addr port c1

instance (l : List ServerBind) (addr : List Byte) (port : Nat) :
    Decidable (Distinct l addr port) :=
  inferInstanceAs (Decidable ((exists c1, c1 ∈ l ∧ Resembles addr port c1) ->
    exists c1, c1 ∈ l ∧ Duplicates addr port c1))

/-- For accepted addresses and an argument with a port, the handler refuses the duplicates
exactly when there is room for the argument, and it resembles no accepted address or
duplicates one. -/
theorem duplicates_rejected_iff {conf : ConfServer} {offset : Nat} {arg : List Byte} {p : Nat}
    (haccepted : Accepted (conf.binds offset)) (hvalid : Valid arg)
    (hport : PortIs (writtenPort arg) p) (x y : List Byte) :
    RejectsDuplicates (conf.binds offset) (writtenAddr arg) p
        (confParseBind conf offset Ope.equal [x, y, arg]) ↔
      Roomy arg ∧ Distinct (conf.binds offset) (writtenAddr arg) p := by
  have hocc : Occupied conf offset arg ↔
      exists c1, c1 ∈ conf.binds offset ∧ Resembles (writtenAddr arg) p c1 := by
    refine exists_congr fun c1 => and_congr_right fun hc1 => ?_
    have hplain := haccepted.plain c1 hc1
    exact bindIpv4StrCmp_iff hvalid hport hplain.1 hplain.2
  have hrefused : Refused conf offset arg ↔
      exists c1, c1 ∈ conf.binds offset ∧ Resembles (writtenAddr arg) p c1 := by
    have hrange : PortRange (pushedPort arg) := by
      have hwidth : p < 2 ^ 32 := Nat.lt_of_le_of_lt hport.range.2 (by decide)
      rw [pushedPort, hport.leading, Nat.mod_eq_of_lt hwidth]
      exact hport.range
    rw [← hocc]
    exact or_iff_left (not_not.mpr hrange)
  rw [confParseBind_eq hvalid]
  by_cases hroom : Roomy arg
  · rw [if_pos hroom, and_iff_right hroom, pushBind_completeBind hvalid]
    by_cases hres : exists c1, c1 ∈ conf.binds offset ∧ Resembles (writtenAddr arg) p c1
    · rw [if_pos (hrefused.mpr hres), Distinct, forall_prop_of_true hres]
      exact Iff.rfl
    · rw [if_neg fun h => hres (hrefused.mp h)]
      refine iff_of_true ?_ fun h => absurd h hres
      rintro ⟨c1, hc1, hdup⟩
      exact hres ⟨c1, hc1, hdup.resembles⟩
  · rw [if_neg hroom]
    exact iff_of_false id fun h => hroom h.1

def withBinds (l : List ServerBind) : ConfServer :=
  { confServerInit with binds := fun _ => l }

theorem Accepted.push {l : List ServerBind} (h : Accepted l) (arg : List Byte)
    (hvalid : Valid arg) (hroom : Roomy arg) (hrefused : ¬ Refused (withBinds l) 0 arg) :
    Accepted (l ++ [⟨writtenAddr arg, pushedPort arg⟩]) := by
  have hrun : confParseBind (withBinds l) 0 Ope.equal [[], [], arg] = Handled.ok
      { withBinds l with
        binds := Function.update (withBinds l).binds 0
          (l ++ [⟨writtenAddr arg, pushedPort arg⟩]) } := by
    rw [confParseBind_eq hvalid, if_pos hroom, pushBind_completeBind hvalid, if_neg hrefused]
    rfl
  have hstep : Accepted ((withBinds l).binds 0) := h
  have hpushed := hstep.step hrun
  dsimp only at hpushed
  rwa [Function.update_self] at hpushed

theorem accepted_one : Accepted [⟨ascii "10.0.0.1", 80⟩] :=
  Accepted.nil.push (ascii "10.0.0.1:80") (by decide) (by decide) (by decide)

theorem duplicates_rejected_iff_other :
    RejectsDuplicates [⟨ascii "10.0.0.1", 80⟩] (writtenAddr (ascii "10.0.0.2:80")) 80
        (confParseBind (withBinds [⟨ascii "10.0.0.1", 80⟩]) 0 Ope.equal
          [ascii "bind_for_cli", ascii "=", ascii "10.0.0.2:80"]) ↔
      Roomy (ascii "10.0.0.2:80") ∧
        Distinct [⟨ascii "10.0.0.1", 80⟩] (writtenAddr (ascii "10.0.0.2:80")) 80 :=
  @duplicates_rejected_iff (withBinds [⟨ascii "10.0.0.1", 80⟩]) 0 (ascii "10.0.0.2:80") 80
    accepted_one (by decide) ⟨by decide, by decide⟩ _ _

/-- An address that an accepted one begins, and one that contains the text of the
wildcard, are refused. -/
theorem duplicates_not_rejected :
    Accepted [⟨ascii "10.0.0.1", 80⟩] ∧
      ¬ RejectsDuplicates [⟨ascii "10.0.0.1", 80⟩] (ascii "10.0.0.10") 80
        (confParseBind (withBinds [⟨ascii "10.0.0.1", 80⟩]) 0 Ope.equal
          [ascii "bind_for_cli", ascii "=", ascii "10.0.0.10:80"]) ∧
      ¬ RejectsDuplicates [⟨ascii "10.0.0.1", 80⟩] (ascii "20.0.0.0") 80
        (confParseBind (withBinds [⟨ascii "10.0.0.1", 80⟩]) 0 Ope.equal
          [ascii "bind_for_cli", ascii "=", ascii "20.0.0.0:80"]) := by
  have hrefused (addr : List Byte) (hvalid : Valid addr) (hport : PortIs (writtenPort addr) 80)
      (hres : Resembles (writtenAddr addr) 80 ⟨ascii "10.0.0.1", 80⟩) :
      Refused (withBinds [⟨ascii "10.0.0.1", 80⟩]) 0 addr := by
    refine Or.inl ⟨⟨ascii "10.0.0.1", 80⟩, List.mem_singleton_self _, ?_⟩
    exact (bindIpv4StrCmp_iff hvalid hport (by decide) (by decide)).mpr hres
  have hlonger := hrefused (ascii "10.0.0.10:80") (by decide) ⟨by decide, by decide⟩ (by decide)
  have hinner := hrefused (ascii "20.0.0.0:80") (by decide) ⟨by decide, by decide⟩ (by decide)
  refine ⟨accepted_one, ?_, ?_⟩
  · rw [confParseBind_eq (by decide), if_pos (by decide), pushBind_completeBind (by decide),
      if_pos hlonger]
    dsimp only [RejectsDuplicates]
    decide
  · rw [confParseBind_eq (by decide), if_pos (by decide), pushBind_completeBind (by decide),
      if_pos hinner]
    dsimp only [RejectsDuplicates]
    decide

end Conf
end NgxEpoll
