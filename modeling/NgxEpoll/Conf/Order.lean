import NgxEpoll.Conf.Directives

/-!
# The order of directives

Directives for different options may change places.  Every option has words, a
string or a list of its own, apart from two words that the store of eight bytes of
the option before reaches as well.

## Options of their own
-/

namespace NgxEpoll
namespace Conf

open Foundation NgxEpoll.Core

def Private (o : ConfOption) (w : Nat) : Prop :=
  forall o', o' ∈ confServerOption -> w ∈ o'.words -> o' = o

instance (o : ConfOption) (w : Nat) : Decidable (Private o w) :=
  inferInstanceAs (Decidable (forall o', o' ∈ confServerOption -> _))

theorem offset_inj {o o' : ConfOption} (ho : o ∈ confServerOption)
    (ho' : o' ∈ confServerOption) (h : o.offset = o'.offset) : o = o' := by
  have hall : forall o, o ∈ confServerOption -> forall o', o' ∈ confServerOption ->
      o.offset = o'.offset -> o = o' := by
    decide +kernel
  exact hall o ho o' ho' h

theorem string_private {o : ConfOption} (ho : o ∈ confServerOption)
    (hstring : o.handler = Handler.string) {w : Nat} (hw : w ∈ o.words) : Private o w := by
  have hall : forall o, o ∈ confServerOption -> o.handler = Handler.string ->
      forall w, w ∈ o.words -> Private o w := by
    decide +kernel
  exact hall o ho hstring w hw

/-- The words of `send_buff_len` and of `max_tqueue_len` are the only ones that two
options write. -/
theorem private_of_ne {o : ConfOption} (ho : o ∈ confServerOption) {w : Nat}
    (hw : w ∈ o.words) (hsend : w ≠ ConfServer.sendBuffLen)
    (htqueue : w ≠ ConfServer.maxTqueueLen) : Private o w := by
  have hall : forall o, o ∈ confServerOption -> forall w, w ∈ o.words ->
      w = ConfServer.sendBuffLen ∨ w = ConfServer.maxTqueueLen ∨ Private o w := by
    decide +kernel
  cases hall o ho w hw with
  | inl h => exact absurd h hsend
  | inr h =>
      cases h with
      | inl h => exact absurd h htqueue
      | inr h => exact h

structure SamePart (o : ConfOption) (c d : ConfServer) : Prop where
  words : forall w, w ∈ o.words -> Private o w -> c.words w = d.words w
  data : c.data o.offset = d.data o.offset
  binds : c.binds o.offset = d.binds o.offset

variable {o o' : ConfOption} {c d : ConfServer} {arg : List Byte}

theorem SamePart.refl (o : ConfOption) (c : ConfServer) : SamePart o c c :=
  ⟨fun _ _ _ => rfl, rfl, rfl⟩

theorem SamePart.symm (h : SamePart o c d) : SamePart o d c :=
  ⟨fun w hw hp => (h.words w hw hp).symm, h.data.symm, h.binds.symm⟩

theorem SamePart.trans {e : ConfServer} (h : SamePart o c d) (h' : SamePart o d e) :
    SamePart o c e :=
  ⟨fun w hw hp => (h.words w hw hp).trans (h'.words w hw hp), h.data.trans h'.data,
    h.binds.trans h'.binds⟩

theorem stored_other {a : Nat} (ha : a ≠ o.offset) : o.stored arg a = none :=
  if_neg fun h => ha h.2

theorem bound_other {a : Nat} (ha : a ≠ o.offset) : o.bound arg a = [] :=
  if_neg fun h => ha h.2

theorem samePart_apply (ho : o ∈ confServerOption) (ho' : o' ∈ confServerOption)
    (hne : o' ≠ o) : SamePart o c (o'.apply c arg) := by
  have hoffset : o.offset ≠ o'.offset := fun h => hne (offset_inj ho ho' h).symm
  constructor
  · intro w hw hp
    dsimp only [ConfOption.apply]
    rw [o'.written_eq_none fun hw' => hne (hp o' ho' hw')]
    rfl
  · dsimp only [ConfOption.apply]
    rw [stored_other hoffset]
    rfl
  · dsimp only [ConfOption.apply]
    rw [bound_other hoffset, List.append_nil]

theorem SamePart.apply (h : SamePart o c d) :
    SamePart o (o.apply c arg) (o.apply d arg) := by
  constructor
  · intro w hw hp
    dsimp only [ConfOption.apply]
    rw [h.words w hw hp]
  · dsimp only [ConfOption.apply]
    rw [h.data]
  · dsimp only [ConfOption.apply]
    rw [h.binds]

theorem SamePart.accepts (ho : o ∈ confServerOption) (h : SamePart o c d)
    (haccepts : o.Accepts c arg) : o.Accepts d arg := by
  unfold ConfOption.Accepts at *
  cases hhandler : o.handler with
  | nnMacro =>
      rw [hhandler] at haccepts
      exact haccepts
  | int =>
      rw [hhandler] at haccepts
      exact haccepts
  | bind =>
      rw [hhandler] at haccepts
      dsimp only at haccepts ⊢
      rw [← h.binds]
      exact haccepts
  | string =>
      rw [hhandler] at haccepts
      have hword : forall w, w ∈ o.words -> c.words w = d.words w :=
        fun w hw => h.words w hw (string_private ho hhandler hw)
      have hwords : o.words = [o.offset, o.offset + 4] := by
        rw [ConfOption.words, hhandler]
      rw [hwords] at hword
      dsimp only at haccepts ⊢
      unfold Words.size at *
      rw [← hword o.offset (by simp), ← hword (o.offset + 4) (by simp)]
      exact haccepts
  | bytesSize =>
      rw [hhandler] at haccepts
      exact haccepts

/-!
## Parts of the objects
-/

/-- The part of an option of an object is the same. -/
def sameTarget (key : Option (Nat × ConfOption)) (vars vars' : List ConfVariable) : Prop :=
  forall k o, key = some (k, o) -> o ∈ confServerOption ->
    SamePart o (confOf vars k) (confOf vars' k)

theorem attribute_parts (names : List (List Byte)) :
    Parts (Declared names) confParseAttribute (target names) sameTarget where
  refl := fun _ vars k o _ _ => SamePart.refl o (confOf vars k)
  symm := fun h k o hkey ho => (h k o hkey ho).symm
  trans := fun h h' k o hkey ho => (h k o hkey ho).trans (h' k o hkey ho)
  keeps := fun hd h => declared_keeps _ _ _ hd h
  frame := by
    intro vars vars' args key hd h hne k o hkey ho
    obtain ⟨j, o', arg, hperforms⟩ := confParseAttribute_performs hd h
    rw [hperforms.target, hkey] at hne
    rw [hperforms.conf k]
    by_cases hk : k = j
    · subst hk
      rw [if_pos rfl]
      refine samePart_apply ho hperforms.option fun ho' => hne ?_
      rw [ho']
    · rw [if_neg hk]
      exact SamePart.refl o _
  inside := by
    intro vars vars' vars1 args hd hd1 hsame h
    obtain ⟨k, o, arg, hperforms⟩ := confParseAttribute_performs hd h
    obtain ⟨x, rfl⟩ := hperforms.args
    have hpart := hsame k o hperforms.target hperforms.option
    obtain ⟨vars1', h1⟩ := confParseAttribute_accepted hd1 hperforms.target
      (hpart.accepts hperforms.option hperforms.accepts)
    obtain ⟨k1, o1, arg1, hperforms1⟩ := confParseAttribute_performs hd1 h1
    obtain ⟨x1, hargs⟩ := hperforms1.args
    cases hargs
    refine ⟨vars1', h1, fun k' o' hkey _ => ?_⟩
    have hfirst := hperforms.target.symm.trans hkey
    have hsecond := hperforms1.target.symm.trans hkey
    cases hfirst
    cases hsecond
    rw [hperforms.conf k, hperforms1.conf k, if_pos rfl, if_pos rfl]
    exact hpart.apply

/-!
## What no option reaches
-/

section Runs

variable {names : List (List Byte)} {vars0 vars vars' : List ConfVariable}
variable {opts opts' : List (List (List Byte))}

theorem lastWrite_none {w : Nat} (hw : forall o, o ∈ confServerOption -> w ∉ o.words)
    (k : Nat) : lastWrite names opts k w = none := by
  unfold lastWrite
  rw [List.getLast?_eq_none_iff, List.filterMap_eq_nil_iff]
  intro args _
  unfold writtenBy
  split
  · rename_i j o htarget
    obtain ⟨dot, -, -, ho⟩ := target_eq_some htarget
    rw [o.written_eq_none (hw o (List.mem_of_find?_eq_some ho)), ite_self]
  · rfl

theorem foldlM_untouched (hd : Declared names vars)
    (h : opts.foldlM confParseAttribute vars = some vars') {a : Nat}
    (ha : forall o, o ∈ confServerOption -> a ≠ o.offset) (k : Nat) :
    (confOf vars' k).data a = (confOf vars k).data a ∧
      (confOf vars' k).binds a = (confOf vars k).binds a := by
  have hkeeps := @foldlM_keeps _ _ confParseAttribute vars vars' opts
    (fun vars1 => Declared names vars1 ∧
      (confOf vars1 k).data a = (confOf vars k).data a ∧
      (confOf vars1 k).binds a = (confOf vars k).binds a) ?_ ⟨hd, rfl, rfl⟩ h
  · exact hkeeps.2
  rintro vars1 vars2 args ⟨hd1, hdata, hbinds⟩ hstep
  obtain ⟨j, o, arg, hperforms⟩ := confParseAttribute_performs hd1 hstep
  refine ⟨hperforms.declared, ?_⟩
  rw [hperforms.conf k]
  by_cases hk : k = j
  · subst hk
    have hoffset := ha o hperforms.option
    rw [if_pos rfl]
    dsimp only [ConfOption.apply]
    rw [stored_other hoffset, bound_other hoffset, List.append_nil]
    exact ⟨hdata, hbinds⟩
  · rw [if_neg hk]
    exact ⟨hdata, hbinds⟩

/-!
## Reordered directives
-/

/-- Objects with the same parts differ at most in the two words that are shared. -/
theorem conf_eq_of_parts (hd0 : Declared names vars0)
    (hruns : opts.foldlM confParseAttribute vars0 = some vars)
    (hruns' : opts'.foldlM confParseAttribute vars0 = some vars')
    (hparts : forall key, sameTarget key vars vars')
    (hwords : forall k w, w ∈ [ConfServer.sendBuffLen, ConfServer.maxTqueueLen] ->
      (confOf vars k).words w = (confOf vars' k).words w) (k : Nat) :
    confOf vars k = confOf vars' k := by
  have hpart : forall o, o ∈ confServerOption ->
      SamePart o (confOf vars k) (confOf vars' k) :=
    fun o ho => hparts (some (k, o)) k o rfl ho
  have hoffset : forall a, (confOf vars k).data a = (confOf vars' k).data a ∧
      (confOf vars k).binds a = (confOf vars' k).binds a := by
    intro a
    by_cases howned : exists o, o ∈ confServerOption ∧ a = o.offset
    · obtain ⟨o, ho, rfl⟩ := howned
      exact ⟨(hpart o ho).data, (hpart o ho).binds⟩
    · have hnone : forall o, o ∈ confServerOption -> a ≠ o.offset :=
        fun o ho ha => howned ⟨o, ho, ha⟩
      obtain ⟨hdata, hbinds⟩ := foldlM_untouched hd0 hruns hnone k
      obtain ⟨hdata', hbinds'⟩ := foldlM_untouched hd0 hruns' hnone k
      rw [hdata, hbinds, hdata', hbinds']
      exact ⟨rfl, rfl⟩
  apply confServer_ext
  · intro w
    by_cases hshared : w ∈ [ConfServer.sendBuffLen, ConfServer.maxTqueueLen]
    · exact hwords k w hshared
    · simp only [List.mem_cons, List.not_mem_nil, or_false, not_or] at hshared
      by_cases howned : exists o, o ∈ confServerOption ∧ w ∈ o.words
      · obtain ⟨o, ho, hw⟩ := howned
        exact (hpart o ho).words w hw (private_of_ne ho hw hshared.1 hshared.2)
      · have hnone : forall o, o ∈ confServerOption -> w ∉ o.words :=
          fun o ho hw => howned ⟨o, ho, hw⟩
        rw [foldlM_words hd0 hruns, foldlM_words hd0 hruns', lastWrite_none hnone,
          lastWrite_none hnone]
  · exact fun a => (hoffset a).1
  · exact fun a => (hoffset a).2

theorem lastWrite_getD (h : Reordered (target names) opts opts') (k w : Nat)
    (x : BitVec 32) :
    (lastWrite names opts k w).getD x = (lastWrite names opts' k w).getD x ↔
      lastWrite names opts k w = lastWrite names opts' k w := by
  constructor
  · intro hget
    have hnone : lastWrite names opts k w = none ↔ lastWrite names opts' k w = none :=
      h.lastWrite_none
    cases hw : lastWrite names opts k w with
    | none => exact (hnone.mp hw).symm
    | some v =>
        cases hw' : lastWrite names opts' k w with
        | none =>
            rw [hnone.mpr hw'] at hw
            cases hw
        | some v' =>
            rw [hw, hw'] at hget
            exact congrArg some hget
  · intro hsame
    rw [hsame]

theorem foldlM_reordered (hd0 : Declared names vars0)
    (hreordered : Reordered (target names) opts opts')
    (hruns : opts.foldlM confParseAttribute vars0 = some vars) :
    opts'.foldlM confParseAttribute vars0 = some vars ↔
      forall k w, w ∈ [ConfServer.sendBuffLen, ConfServer.maxTqueueLen] ->
        lastWrite names opts k w = lastWrite names opts' k w := by
  obtain ⟨vars', hruns', hparts⟩ := (attribute_parts names).reorder hd0 hreordered hruns
  have hwords : forall k w, (confOf vars k).words w = (confOf vars' k).words w ↔
      lastWrite names opts k w = lastWrite names opts' k w := by
    intro k w
    rw [foldlM_words hd0 hruns, foldlM_words hd0 hruns']
    exact lastWrite_getD hreordered k w _
  constructor
  · intro hsame k w _
    rw [hruns'] at hsame
    cases hsame
    exact (hwords k w).mp rfl
  · intro hlast
    have hd : Declared names vars := foldlM_keeps declared_keeps hd0 hruns
    have hd' : Declared names vars' := foldlM_keeps declared_keeps hd0 hruns'
    have hconf : forall k, confOf vars k = confOf vars' k :=
      conf_eq_of_parts hd0 hruns hruns' hparts fun k w hw =>
        (hwords k w).mpr (hlast k w hw)
    rw [hruns', hd.ext hd' hconf]

end Runs

/-!
## Texts
-/

/-- Two texts declare the same objects, and their option directives are the same but
for the order of directives for different options. -/
structure SameDirectives (s s' : Scan) : Prop where
  quotes : s.inQuotes = s'.inQuotes
  type : argsOf s.arrType = argsOf s'.arrType
  opts : Reordered (target (scannedNames s)) (argsOf s.arrOpts) (argsOf s'.arrOpts)

/-- When the order of the directives makes no difference to the objects. -/
theorem confParseBuf_reordered {option buf option' buf' : Mem} {size size' : Nat}
    {s s' : Scan} {vars : List ConfVariable}
    (haccepted : confParseBuf option buf size = some vars)
    (hscan : scanBuf option buf size = Scanned.complete s)
    (hsize : 0 < size') (hscan' : scanBuf option' buf' size' = Scanned.complete s')
    (hsame : SameDirectives s s') :
    confParseBuf option' buf' size' = some vars ↔
      forall k w, w ∈ [ConfServer.sendBuffLen, ConfServer.maxTqueueLen] ->
        lastWrite (scannedNames s) (argsOf s.arrOpts) k w =
          lastWrite (scannedNames s) (argsOf s'.arrOpts) k w := by
  rw [confParseBuf_eq (confParseBuf_size haccepted) hscan] at haccepted
  obtain ⟨hquotes, vars0, htypes, hd0, -, hruns⟩ :=
    parseScanned_eq_some (scanBuf_bounded hscan) haccepted
  have hparse : confParseBuf option' buf' size' =
      (argsOf s'.arrOpts).foldlM confParseAttribute vars0 := by
    rw [confParseBuf_eq hsize hscan', parseScanned, ← hsame.quotes, hquotes,
      if_neg Bool.false_ne_true, ← hsame.type, htypes]
    exact foldlM_confParseOption hd0 (scanBuf_bounded hscan').opts_length
  rw [hparse]
  exact foldlM_reordered hd0 hsame.opts hruns

def sendFirst : List Byte :=
  ascii "Server s;\ns.send_buff_len = 64KB;\ns.max_tqueue_len = 500;\n"

def tqueueFirst : List Byte :=
  ascii "Server s;\ns.max_tqueue_len = 500;\ns.send_buff_len = 64KB;\n"

theorem sameDirectives_tqueue : SameDirectives (scanOf sendFirst) (scanOf tqueueFirst) where
  quotes := by decide +kernel
  type := by decide +kernel
  opts := by
    have hsend : argsOf (scanOf sendFirst).arrOpts =
        [[ascii "s.send_buff_len", ascii "=", ascii "64KB"],
          [ascii "s.max_tqueue_len", ascii "=", ascii "500"]] := by
      decide +kernel
    have htqueue : argsOf (scanOf tqueueFirst).arrOpts =
        [[ascii "s.max_tqueue_len", ascii "=", ascii "500"],
          [ascii "s.send_buff_len", ascii "=", ascii "64KB"]] := by
      decide +kernel
    rw [hsend, htqueue]
    exact reordered_swap [] [] [] (by decide +kernel) fun _ hc => absurd hc List.not_mem_nil

def tqueueLens (text : List Byte) : Option (List (BitVec 32)) :=
  (parseText text).map fun vars => vars.map fun v => v.conf.words ConfServer.maxTqueueLen

theorem tqueue_cleared :
    SameDirectives (scanOf sendFirst) (scanOf tqueueFirst) ∧
      tqueueLens sendFirst = some [500] ∧ tqueueLens tqueueFirst = some [0] :=
  ⟨sameDirectives_tqueue, by decide +kernel, by decide +kernel⟩

theorem confParseBuf_reordered_tqueue :
    exists vars, parseText sendFirst = some vars ∧ parseText tqueueFirst ≠ some vars := by
  cases hvars : parseText sendFirst with
  | none =>
      have haccepted : parseText sendFirst ≠ none := by
        rw [← Option.isSome_iff_ne_none]
        decide +kernel
      exact absurd hvars haccepted
  | some vars =>
      refine ⟨vars, rfl, fun hsame => ?_⟩
      have hlast := (confParseBuf_reordered hvars (scanBuf_text (by decide +kernel))
        (by decide +kernel) (scanBuf_text (by decide +kernel)) sameDirectives_tqueue).mp
        hsame 0 ConfServer.maxTqueueLen (by decide)
      revert hlast
      decide +kernel

end Conf
end NgxEpoll
