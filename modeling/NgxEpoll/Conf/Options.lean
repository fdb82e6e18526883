import NgxEpoll.Conf.Objects
import NgxEpoll.Foundation.Parts

/-!
# What the handlers write

For every option: when its handler accepts an argument, and what it leaves of the
`conf_server_t`.

## Words
-/

namespace NgxEpoll
namespace Conf

open Foundation NgxEpoll.Core

def sizeWord (a v w : Nat) : Option (BitVec 32) :=
  if w = a + 4 then some (highWord v)
  else if w = a then some (lowWord v)
  else none

theorem setSize_apply (m : Words) (a v w : Nat) :
    m.setSize a v w = (sizeWord a v w).getD (m w) := by
  unfold Words.setSize sizeWord
  by_cases hhigh : w = a + 4
  · subst hhigh
    rw [Function.update_self, if_pos rfl]
    rfl
  · rw [Function.update_of_ne hhigh, if_neg hhigh]
    by_cases hlow : w = a
    · subst hlow
      rw [Function.update_self, if_pos rfl]
      rfl
    · rw [Function.update_of_ne hlow, if_neg hlow]
      rfl

def oneWord (a : Nat) (v : BitVec 32) (w : Nat) : Option (BitVec 32) :=
  if w = a then some v else none

theorem update_apply_getD (m : Words) (a : Nat) (v : BitVec 32) (w : Nat) :
    Function.update m a v w = (oneWord a v w).getD (m w) := by
  unfold oneWord
  by_cases hw : w = a
  · subst hw
    rw [Function.update_self, if_pos rfl]
    rfl
  · rw [Function.update_of_ne hw, if_neg hw]
    rfl

/-!
## Options
-/

def macroValue (arg : List Byte) : Option (BitVec 32) :=
  (confMacro.find? fun m => SameName arg m.1).map Prod.snd

def completeBind (arg : List Byte) : List Byte :=
  match confParseValidBindIpv4 arg with
  | BindType.port => confServerDefIp ++ chColon :: arg
  | _ => arg

namespace ConfOption

variable (o : ConfOption)

def words : List Nat :=
  match o.handler with
  | Handler.nnMacro => [o.offset]
  | Handler.int => [o.offset]
  | Handler.bind => []
  | Handler.string => [o.offset, o.offset + 4]
  | Handler.bytesSize => [o.offset, o.offset + 4]

def written (arg : List Byte) (w : Nat) : Option (BitVec 32) :=
  match o.handler with
  | Handler.nnMacro => (macroValue arg).bind fun v => oneWord o.offset v w
  | Handler.int => oneWord o.offset (stringXxstrtoui arg) w
  | Handler.bind => none
  | Handler.string => sizeWord o.offset arg.length w
  | Handler.bytesSize => (bytesSize arg).bind fun b => sizeWord o.offset b w

def stored (arg : List Byte) (a : Nat) : Option (List Byte) :=
  if o.handler = Handler.string ∧ a = o.offset then some arg else none

def bound (arg : List Byte) (a : Nat) : List ServerBind :=
  if o.handler = Handler.bind ∧ a = o.offset then [splitBind (completeBind arg)] else []

def Accepts (conf : ConfServer) (arg : List Byte) : Prop :=
  match o.handler with
  | Handler.nnMacro =>
      arg ≠ [] ∧ strchr arg chBar = none ∧ macroValue arg ≠ none
  | Handler.int =>
      arg.length ≤ confMaxLenInt ∧ (stringXxstrtoui arg).toInt ≠ ngxError
  | Handler.bind =>
      confParseValidBindIpv4 arg ≠ BindType.error ∧
        (confParseValidBindIpv4 arg = BindType.port ->
          (completeBind arg).length < maxBindSize) ∧
        (forall c1, c1 ∈ conf.binds o.offset -> ¬ BindIpv4StrCmp c1 (completeBind arg)) ∧
        (splitBind (completeBind arg)).port ≠ 0 ∧
        (splitBind (completeBind arg)).port ≤ 65535
  | Handler.string => conf.words.size o.offset = 0
  | Handler.bytesSize =>
      (arg.dropWhile isDigit).length < unitSize ∧ bytesSize arg ≠ none

def apply (conf : ConfServer) (arg : List Byte) : ConfServer where
  words := fun w => (o.written arg w).getD (conf.words w)
  data := fun a => (o.stored arg a).getD (conf.data a)
  binds := fun a => conf.binds a ++ o.bound arg a

theorem written_eq_none {arg : List Byte} {w : Nat} (h : w ∉ o.words) :
    o.written arg w = none := by
  unfold words at h
  unfold written
  cases hhandler : o.handler with
  | nnMacro =>
      simp only [hhandler, List.mem_singleton] at h
      simp only [oneWord, if_neg h, Option.bind_fun_none]
  | int =>
      simp only [hhandler, List.mem_singleton] at h
      exact if_neg h
  | bind => rfl
  | string =>
      simp only [hhandler, List.mem_cons, List.not_mem_nil, or_false, not_or] at h
      simp only [sizeWord, if_neg h.1, if_neg h.2]
  | bytesSize =>
      simp only [hhandler, List.mem_cons, List.not_mem_nil, or_false, not_or] at h
      simp only [sizeWord, if_neg h.1, if_neg h.2, Option.bind_fun_none]

end ConfOption

/-!
## Handlers
-/

variable {conf conf' : ConfServer} {type : Ope} {args : List (List Byte)}

theorem confServer_ext {c d : ConfServer} (hwords : forall w, c.words w = d.words w)
    (hdata : forall a, c.data a = d.data a) (hbinds : forall a, c.binds a = d.binds a) :
    c = d := by
  cases c
  cases d
  congr
  · exact funext hwords
  · exact funext hdata
  · exact funext hbinds

theorem takeThree_eq_ok {body : List Byte -> Handled} :
    takeThree conf type args body = Handled.ok conf' ↔
      type = Ope.equal ∧ exists x y arg, args = [x, y, arg] ∧ body arg = Handled.ok conf' := by
  constructor
  · intro h
    unfold takeThree at h
    split at h
    · exact ⟨rfl, _, _, _, rfl, h⟩
    · cases h
  · rintro ⟨rfl, x, y, arg, rfl, h⟩
    exact h

/-- The handler takes a directive, and it leaves what is said. -/
def ConfOption.Takes (o : ConfOption) (conf : ConfServer) (arg : List Byte)
    (conf' : ConfServer) : Prop :=
  o.Accepts conf arg ∧ conf' = o.apply conf arg

theorem taken {c : ConfServer} {accepts : Prop} (h : accepts) :
    Handled.ok c = Handled.ok conf' ↔ accepts ∧ conf' = c := by
  rw [Handled.ok.injEq]
  constructor
  · intro heq
    exact ⟨h, heq.symm⟩
  · intro htakes
    exact htakes.2.symm

theorem refused {r : Handled} {c : ConfServer} {accepts : Prop}
    (hr : r ≠ Handled.ok conf') (h : ¬ accepts) :
    r = Handled.ok conf' ↔ accepts ∧ conf' = c :=
  iff_of_false hr fun htakes => h htakes.1

section Bodies

variable {o : ConfOption} {arg : List Byte}

theorem apply_setWord {v : BitVec 32}
    (hwritten : forall w, o.written arg w = oneWord o.offset v w)
    (hstored : o.handler ≠ Handler.string) (hbound : o.handler ≠ Handler.bind) :
    o.apply conf arg = conf.setWord o.offset v := by
  apply confServer_ext
  · intro w
    dsimp only [ConfOption.apply, ConfServer.setWord]
    rw [hwritten, update_apply_getD]
  · intro a
    dsimp only [ConfOption.apply, ConfServer.setWord, ConfOption.stored]
    rw [if_neg fun h => hstored h.1]
    rfl
  · intro a
    dsimp only [ConfOption.apply, ConfServer.setWord, ConfOption.bound]
    rw [if_neg fun h => hbound h.1, List.append_nil]

theorem int_takes (h : o.handler = Handler.int) (x y : List Byte) :
    confParseInt conf o.offset Ope.equal [x, y, arg] = Handled.ok conf' ↔
      o.Takes conf arg conf' := by
  have happly : o.apply conf arg = conf.setWord o.offset (stringXxstrtoui arg) := by
    refine apply_setWord (fun w => ?_) ?_ ?_
    · simp only [ConfOption.written, h]
    · rw [h]
      decide
    · rw [h]
      decide
  unfold ConfOption.Takes ConfOption.Accepts confParseInt takeThree
  rw [happly]
  simp only [h]
  by_cases hlen : confMaxLenInt < arg.length
  · rw [if_pos hlen]
    exact refused nofun fun haccepts => absurd haccepts.1 (Nat.not_le_of_lt hlen)
  · rw [if_neg hlen]
    by_cases hvalue : (stringXxstrtoui arg).toInt = ngxError
    · rw [if_pos hvalue]
      exact refused nofun fun haccepts => absurd hvalue haccepts.2
    · rw [if_neg hvalue]
      exact taken ⟨Nat.le_of_not_lt hlen, hvalue⟩

theorem nnMacro_takes (h : o.handler = Handler.nnMacro) (x y : List Byte) :
    confParseNnMacro conf o.offset Ope.equal [x, y, arg] = Handled.ok conf' ↔
      o.Takes conf arg conf' := by
  unfold ConfOption.Takes ConfOption.Accepts confParseNnMacro takeThree
  simp only [h]
  by_cases hnil : arg = []
  · rw [if_pos hnil]
    exact refused nofun fun haccepts => absurd hnil haccepts.1
  rw [if_neg hnil]
  by_cases hbar : strchr arg chBar = none
  · rw [if_pos hbar]
    cases hfind : confMacro.find? fun m => SameName arg m.1 with
    | none =>
        exact refused nofun fun haccepts => absurd (by rw [macroValue, hfind]; rfl) haccepts.2.2
    | some m =>
        have hvalue : macroValue arg = some m.2 := by
          rw [macroValue, hfind]
          rfl
        have happly : o.apply conf arg = conf.setWord o.offset m.2 := by
          refine apply_setWord (fun w => ?_) ?_ ?_
          · simp only [ConfOption.written, h, hvalue, Option.bind_some]
          · rw [h]
            decide
          · rw [h]
            decide
        rw [happly, hvalue]
        exact taken ⟨hnil, hbar, Option.some_ne_none _⟩
  · rw [if_neg hbar]
    exact refused nofun fun haccepts => absurd haccepts.2.1 hbar

theorem bytesSize_takes (h : o.handler = Handler.bytesSize) (x y : List Byte) :
    confParseBytesSize conf o.offset Ope.equal [x, y, arg] = Handled.ok conf' ↔
      o.Takes conf arg conf' := by
  unfold ConfOption.Takes ConfOption.Accepts confParseBytesSize takeThree
  simp only [h]
  by_cases hunit : unitSize ≤ (arg.dropWhile isDigit).length
  · rw [if_pos hunit]
    exact refused nofun fun haccepts => absurd hunit (Nat.not_le_of_lt haccepts.1)
  · rw [if_neg hunit]
    cases hsize : bytesSize arg with
    | none =>
        exact refused nofun fun haccepts => absurd rfl haccepts.2
    | some b =>
        have happly : o.apply conf arg = conf.setSize o.offset b := by
          apply confServer_ext
          · intro w
            simp only [ConfOption.apply, ConfServer.setSize, ConfOption.written, h, hsize,
              Option.bind_some, setSize_apply]
          · intro a
            simp [ConfOption.apply, ConfServer.setSize, ConfOption.stored, h]
          · intro a
            simp [ConfOption.apply, ConfServer.setSize, ConfOption.bound, h]
        rw [happly]
        exact taken ⟨Nat.lt_of_not_le hunit, Option.some_ne_none _⟩

theorem string_takes (h : o.handler = Handler.string) (x y : List Byte) :
    confParseString conf o.offset Ope.equal [x, y, arg] = Handled.ok conf' ↔
      o.Takes conf arg conf' := by
  have happly : o.apply conf arg =
      { conf.setSize o.offset arg.length with
        data := Function.update conf.data o.offset arg } := by
    apply confServer_ext
    · intro w
      simp only [ConfOption.apply, ConfServer.setSize, ConfOption.written, h, setSize_apply]
    · intro a
      dsimp only [ConfOption.apply, ConfOption.stored]
      by_cases ha : a = o.offset
      · subst ha
        rw [if_pos ⟨h, rfl⟩, Function.update_self]
        rfl
      · rw [if_neg fun hc => ha hc.2, Function.update_of_ne ha]
        rfl
    · intro a
      simp [ConfOption.apply, ConfServer.setSize, ConfOption.bound, h]
  unfold ConfOption.Takes ConfOption.Accepts confParseString takeThree
  rw [happly]
  simp only [h]
  by_cases hlen : 0 < conf.words.size o.offset
  · rw [if_pos hlen]
    exact refused nofun fun haccepts => absurd haccepts (Nat.ne_of_gt hlen)
  · rw [if_neg hlen]
    exact taken (Nat.eq_zero_of_not_pos hlen)

theorem pushBind_takes {bind : List Byte} :
    pushBind conf o.offset bind = Handled.ok conf' ↔
      ((forall c1, c1 ∈ conf.binds o.offset -> ¬ BindIpv4StrCmp c1 bind) ∧
        (splitBind bind).port ≠ 0 ∧ (splitBind bind).port ≤ 65535) ∧
      conf' = { conf with
        binds := Function.update conf.binds o.offset
          (conf.binds o.offset ++ [splitBind bind]) } := by
  unfold pushBind
  by_cases hany : ((conf.binds o.offset).any fun c1 => BindIpv4StrCmp c1 bind) = true
  · rw [if_pos hany]
    obtain ⟨c1, hc1, hcmp⟩ := List.any_eq_true.mp hany
    exact refused nofun fun haccepts =>
      haccepts.1 c1 hc1 (of_decide_eq_true hcmp)
  · rw [if_neg hany]
    dsimp only
    have hnone : forall c1, c1 ∈ conf.binds o.offset -> ¬ BindIpv4StrCmp c1 bind :=
      fun c1 hc1 hcmp => hany (List.any_eq_true.mpr ⟨c1, hc1, decide_eq_true hcmp⟩)
    by_cases hport : (splitBind bind).port = 0 ∨ 65535 < (splitBind bind).port
    · rw [if_pos hport]
      refine refused nofun fun haccepts => ?_
      cases hport with
      | inl hzero => exact haccepts.2.1 hzero
      | inr hbig => exact Nat.not_le_of_lt hbig haccepts.2.2
    · rw [if_neg hport]
      rw [not_or] at hport
      exact taken ⟨hnone, hport.1, Nat.le_of_not_lt hport.2⟩

theorem bind_takes (h : o.handler = Handler.bind) (x y : List Byte) :
    confParseBind conf o.offset Ope.equal [x, y, arg] = Handled.ok conf' ↔
      o.Takes conf arg conf' := by
  have happly : o.apply conf arg = { conf with
      binds := Function.update conf.binds o.offset
        (conf.binds o.offset ++ [splitBind (completeBind arg)]) } := by
    apply confServer_ext
    · intro w
      simp [ConfOption.apply, ConfOption.written, h]
    · intro a
      simp [ConfOption.apply, ConfOption.stored, h]
    · intro a
      dsimp only [ConfOption.apply, ConfOption.bound]
      by_cases ha : a = o.offset
      · subst ha
        rw [if_pos ⟨h, rfl⟩, Function.update_self]
      · rw [if_neg fun hc => ha hc.2, Function.update_of_ne ha, List.append_nil]
  unfold ConfOption.Takes ConfOption.Accepts confParseBind takeThree
  rw [happly]
  simp only [h]
  cases htype : confParseValidBindIpv4 arg with
  | error => exact refused nofun fun haccepts => haccepts.1 rfl
  | port =>
      have hcomplete : completeBind arg = confServerDefIp ++ chColon :: arg := by
        rw [completeBind, htype]
      rw [hcomplete]
      dsimp only
      by_cases hfits : maxBindSize ≤ (confServerDefIp ++ chColon :: arg).length
      · rw [if_pos hfits]
        exact refused nofun fun haccepts =>
          Nat.not_le_of_lt (haccepts.2.1 rfl) hfits
      · rw [if_neg hfits, pushBind_takes]
        refine and_congr_left fun _ => ?_
        constructor
        · intro hpush
          exact ⟨nofun, fun _ => Nat.lt_of_not_le hfits, hpush⟩
        · intro haccepts
          exact haccepts.2.2
  | ip | addr =>
      rw [show completeBind arg = arg by rw [completeBind, htype], pushBind_takes]
      refine and_congr_left fun _ => ?_
      constructor
      · intro hpush
        exact ⟨nofun, nofun, hpush⟩
      · intro haccepts
        exact haccepts.2.2

theorem run_takes (x y : List Byte) :
    o.handler.run conf o.offset Ope.equal [x, y, arg] = Handled.ok conf' ↔
      o.Takes conf arg conf' := by
  cases h : o.handler with
  | nnMacro => exact nnMacro_takes h x y
  | int => exact int_takes h x y
  | bind => exact bind_takes h x y
  | string => exact string_takes h x y
  | bytesSize => exact bytesSize_takes h x y

end Bodies

theorem run_eq_ok {o : ConfOption}
    (h : o.handler.run conf o.offset type args = Handled.ok conf') :
    type = Ope.equal ∧ exists x y arg, args = [x, y, arg] := by
  have htake : forall {body : List Byte -> Handled},
      takeThree conf type args body = Handled.ok conf' ->
        type = Ope.equal ∧ exists x y arg, args = [x, y, arg] := by
    intro body hbody
    obtain ⟨htype, x, y, arg, hargs, -⟩ := takeThree_eq_ok.mp hbody
    exact ⟨htype, x, y, arg, hargs⟩
  cases hhandler : o.handler with
  | nnMacro =>
      rw [hhandler] at h
      exact htake h
  | int =>
      rw [hhandler] at h
      exact htake h
  | bind =>
      rw [hhandler] at h
      exact htake h
  | string =>
      rw [hhandler] at h
      exact htake h
  | bytesSize =>
      rw [hhandler] at h
      exact htake h

/-!
## What a handler leaves alone
-/

/-- Nothing but the words, the string and the addresses of the option differ. -/
structure ConfOption.Keeps (o : ConfOption) (conf conf' : ConfServer) : Prop where
  words : forall w, w ∉ o.words -> conf'.words w = conf.words w
  data : forall a, ¬ (o.handler = Handler.string ∧ a = o.offset) -> conf'.data a = conf.data a
  binds : forall a, ¬ (o.handler = Handler.bind ∧ a = o.offset) -> conf'.binds a = conf.binds a

def Handled.Leaves (P : ConfServer -> Prop) : Handled -> Prop
  | Handled.ok conf => P conf
  | Handled.error conf => P conf
  | Handled.fault => True

section Frame

variable {o : ConfOption}

theorem ConfOption.Keeps.refl (o : ConfOption) (conf : ConfServer) : o.Keeps conf conf :=
  ⟨fun _ _ => rfl, fun _ _ => rfl, fun _ _ => rfl⟩

theorem keeps_setWord (h : o.offset ∈ o.words) (v : BitVec 32) :
    o.Keeps conf (conf.setWord o.offset v) := by
  refine ⟨fun w hw => ?_, fun _ _ => rfl, fun _ _ => rfl⟩
  have hne : w ≠ o.offset := fun heq => hw (heq ▸ h)
  exact Function.update_of_ne hne _ _

theorem keeps_setSize (h : o.words = [o.offset, o.offset + 4]) (v : Nat) :
    o.Keeps conf (conf.setSize o.offset v) := by
  refine ⟨fun w hw => ?_, fun _ _ => rfl, fun _ _ => rfl⟩
  rw [h, List.mem_cons, List.mem_singleton, not_or] at hw
  dsimp only [ConfServer.setSize]
  rw [setSize_apply, sizeWord, if_neg hw.2, if_neg hw.1]
  rfl

theorem takeThree_leaves {P : ConfServer -> Prop} {body : List Byte -> Handled} (hconf : P conf)
    (hbody : forall arg, (body arg).Leaves P) : (takeThree conf type args body).Leaves P := by
  unfold takeThree
  split
  · exact hbody _
  · exact hconf

theorem pushBind_leaves (h : o.handler = Handler.bind) (bind : List Byte) :
    (pushBind conf o.offset bind).Leaves (o.Keeps conf) := by
  unfold pushBind
  split
  · exact ConfOption.Keeps.refl o conf
  · dsimp only
    split
    · exact ConfOption.Keeps.refl o conf
    · refine ⟨fun _ _ => rfl, fun _ _ => rfl, fun a ha => ?_⟩
      exact Function.update_of_ne (fun heq => ha ⟨h, heq⟩) _ _

theorem run_frame (o : ConfOption) (conf : ConfServer) (type : Ope) (args : List (List Byte)) :
    (o.handler.run conf o.offset type args).Leaves (o.Keeps conf) := by
  have hrefl := ConfOption.Keeps.refl o conf
  cases h : o.handler with
  | nnMacro =>
      have hword : o.offset ∈ o.words := by simp [ConfOption.words, h]
      refine takeThree_leaves hrefl fun arg => ?_
      split
      · exact hrefl
      split
      · split
        · exact keeps_setWord hword _
        · exact hrefl
      · exact hrefl
  | int =>
      have hword : o.offset ∈ o.words := by simp [ConfOption.words, h]
      refine takeThree_leaves hrefl fun arg => ?_
      dsimp only
      split
      · exact hrefl
      split
      · exact keeps_setWord hword _
      · exact keeps_setWord hword _
  | bind =>
      refine takeThree_leaves hrefl fun arg => ?_
      split
      · exact hrefl
      · dsimp only
        split
        · trivial
        · exact pushBind_leaves h _
      · exact pushBind_leaves h _
  | string =>
      have hwords : o.words = [o.offset, o.offset + 4] := by simp [ConfOption.words, h]
      refine takeThree_leaves hrefl fun arg => ?_
      split
      · exact hrefl
      · have hkeeps : o.Keeps conf (conf.setSize o.offset arg.length) :=
          keeps_setSize hwords arg.length
        refine ⟨hkeeps.words, fun a ha => ?_, hkeeps.binds⟩
        exact Function.update_of_ne (fun heq => ha ⟨h, heq⟩) _ _
  | bytesSize =>
      have hwords : o.words = [o.offset, o.offset + 4] := by simp [ConfOption.words, h]
      refine takeThree_leaves hrefl fun arg => ?_
      split
      · trivial
      split
      · exact keeps_setSize hwords _
      · exact hrefl

end Frame

end Conf
end NgxEpoll
