import NgxEpoll.Conf.Directives

/-!
# The default pass

After the directives `conf_make_objects_default` calls `make_default` for every object,
with the address of its `conf_variable_t`.  The callback takes the address for one of
a `conf_server_t`.

## Memory
-/

namespace NgxEpoll
namespace Conf

open Foundation NgxEpoll.Core

inductive Block where
  | objects
  | conf (k : Nat)
deriving DecidableEq, Repr

abbrev Blocks := Block -> Words

def confVariableSize : Nat := 56

structure Pointers where
  nameData : Nat
  objNameData : Nat
  conf : Nat
  option : Nat
  makeDefault : Nat
  notNull : 0 < makeDefault
  inside : makeDefault < 2 ^ 64

def ConfVariable.fields (v : ConfVariable) (ptrs : Pointers) : List Nat :=
  [v.name.length, ptrs.nameData, v.objName.length, ptrs.objNameData, ptrs.conf,
    ptrs.option, ptrs.makeDefault]

def ConfVariable.word (v : ConfVariable) (ptrs : Pointers) (a : Nat) : BitVec 32 :=
  let field := (v.fields ptrs).getD (a / 8) 0
  if a % 8 < 4 then lowWord field else highWord field

def objectWords (vars : List ConfVariable) (ptrs : Nat -> Pointers) (spare : Words) :
    Words :=
  fun a =>
    match vars[a / confVariableSize]? with
    | some v => v.word (ptrs (a / confVariableSize)) (a % confVariableSize)
    | none => spare a

def blocksOf (vars : List ConfVariable) (ptrs : Nat -> Pointers) (spare : Words) : Blocks
  | Block.objects => objectWords vars ptrs spare
  | Block.conf k => (confOf vars k).words

/-!
## The pass
-/

def setDefInt (m : Blocks) (b : Block) (a : Nat) (value : BitVec 32) : Blocks :=
  if m b a = 0 then Function.update m b (Function.update (m b) a value) else m

def defRbuffLen : BitVec 32 := 65536
def defSbuffLen : BitVec 32 := 65536
def defMmaxTqueueLen : BitVec 32 := 1000

def knownDefaults : List (Nat × BitVec 32) :=
  [ (ConfServer.recvBuffLen, defRbuffLen),
    (ConfServer.sendBuffLen, defSbuffLen),
    (ConfServer.maxTqueueLen, defMmaxTqueueLen) ]

def confServerMakeDefault (m : Blocks) (b : Block) (sconf : Nat) : Blocks :=
  knownDefaults.foldl (fun m d => setDefInt m b (sconf + d.1) d.2) m

def makeDefaultOf (m : Blocks) (i : Nat) : Blocks :=
  let v := confVariableSize * i
  if m Block.objects (v + 48) = 0 ∧ m Block.objects (v + 52) = 0 then m
  else confServerMakeDefault m Block.objects v

def confMakeObjectsDefault (n : Nat) (m : Blocks) : Blocks :=
  (List.range n).foldl makeDefaultOf m

/-- What `conf_context_parse` leaves: the objects with the values that the directives
gave, and the memory after the pass. -/
structure Context where
  vars : List ConfVariable
  blocks : Blocks

def confContextParse (option buf : Mem) (size : Nat) (ptrs : Nat -> Pointers)
    (spare : Words) : Option Context :=
  (confParseBuf option buf size).map fun vars =>
    ⟨vars, confMakeObjectsDefault vars.length (blocksOf vars ptrs spare)⟩

/-!
## What the pass changes
-/

variable {m : Blocks} {b b' : Block} {a a' : Nat} {value : BitVec 32}

theorem setDefInt_other (h : b' = b -> a' ≠ a) : setDefInt m b a value b' a' = m b' a' := by
  unfold setDefInt
  split
  · by_cases hb : b' = b
    · subst hb
      rw [Function.update_self, Function.update_of_ne (h rfl)]
    · rw [Function.update_of_ne hb]
  · rfl

theorem setDefInt_kept (h : m b' a' ≠ 0) : setDefInt m b a value b' a' = m b' a' := by
  by_cases hsame : b' = b ∧ a' = a
  · obtain ⟨rfl, rfl⟩ := hsame
    unfold setDefInt
    rw [if_neg h]
  · exact setDefInt_other fun hb ha => hsame ⟨hb, ha⟩

theorem setDefInt_zero (h : m b a = 0) : setDefInt m b a value b a = value := by
  unfold setDefInt
  rw [if_pos h, Function.update_self, Function.update_self]

theorem makeDefault_other {sconf : Nat}
    (h : b' = b -> forall d, d ∈ knownDefaults -> a' ≠ sconf + d.1) :
    confServerMakeDefault m b sconf b' a' = m b' a' := by
  unfold confServerMakeDefault
  refine List.foldlRecOn knownDefaults _ (motive := fun m' : Blocks => m' b' a' = m b' a') rfl ?_
  intro m' hm' d hd
  rw [setDefInt_other fun hb => h hb d hd, hm']

theorem makeDefault_kept {sconf : Nat} (h : m b' a' ≠ 0) :
    confServerMakeDefault m b sconf b' a' = m b' a' := by
  unfold confServerMakeDefault
  refine List.foldlRecOn knownDefaults _ (motive := fun m' : Blocks => m' b' a' = m b' a') rfl ?_
  intro m' hm' d _
  rw [setDefInt_kept (by rw [hm']; exact h), hm']

theorem makeDefault_first {sconf : Nat}
    (h : m b (sconf + ConfServer.recvBuffLen) = 0) :
    confServerMakeDefault m b sconf b (sconf + ConfServer.recvBuffLen) = defRbuffLen := by
  have hsend : sconf + ConfServer.recvBuffLen ≠ sconf + ConfServer.sendBuffLen := by
    rw [ne_eq, Nat.add_left_cancel_iff]
    decide
  have htqueue : sconf + ConfServer.recvBuffLen ≠ sconf + ConfServer.maxTqueueLen := by
    rw [ne_eq, Nat.add_left_cancel_iff]
    decide
  simp only [confServerMakeDefault, knownDefaults, List.foldl_cons, List.foldl_nil]
  rw [setDefInt_other fun _ => htqueue, setDefInt_other fun _ => hsend, setDefInt_zero h]

theorem makeDefaultOf_other {i : Nat}
    (h : b' = Block.objects -> a' < confVariableSize * i + ConfServer.recvBuffLen) :
    makeDefaultOf m i b' a' = m b' a' := by
  unfold makeDefaultOf
  split
  · rfl
  · refine makeDefault_other fun hb d hd ha => ?_
    have hle : forall d, d ∈ knownDefaults -> ConfServer.recvBuffLen ≤ d.1 := by decide
    have hlt := h hb
    have hd1 := hle d hd
    omega

theorem makeDefaultOf_kept {i : Nat} (h : m b' a' ≠ 0) :
    makeDefaultOf m i b' a' = m b' a' := by
  unfold makeDefaultOf
  split
  · rfl
  · exact makeDefault_kept h

theorem confMakeObjectsDefault_other (n : Nat)
    (h : b' = Block.objects -> a' < ConfServer.recvBuffLen) :
    confMakeObjectsDefault n m b' a' = m b' a' := by
  unfold confMakeObjectsDefault
  refine List.foldlRecOn (List.range n) _ (motive := fun m' : Blocks => m' b' a' = m b' a') rfl ?_
  intro m' hm' i _
  rw [makeDefaultOf_other fun hb => Nat.lt_of_lt_of_le (h hb) (Nat.le_add_left _ _), hm']

theorem confMakeObjectsDefault_kept (l : List Nat) (h : m b' a' ≠ 0) :
    l.foldl makeDefaultOf m b' a' = m b' a' := by
  refine List.foldlRecOn l _ (motive := fun m' : Blocks => m' b' a' = m b' a') rfl ?_
  intro m' hm' i _
  rw [makeDefaultOf_kept (by rw [hm']; exact h), hm']

/-!
## The elements
-/

section Elements

variable {vars : List ConfVariable} {ptrs : Nat -> Pointers} {spare : Words}
variable {k : Nat} {v : ConfVariable}

theorem objectWords_get (hv : vars[k]? = some v) {x : Nat} (hx : x < confVariableSize) :
    objectWords vars ptrs spare (confVariableSize * k + x) = v.word (ptrs k) x := by
  have hdiv : (confVariableSize * k + x) / confVariableSize = k := by
    unfold confVariableSize at *
    omega
  have hmod : (confVariableSize * k + x) % confVariableSize = x := by
    unfold confVariableSize at *
    omega
  unfold objectWords
  rw [hdiv, hmod, hv]

theorem highWord_of_lt {n : Nat} (h : n < 2 ^ 32) : highWord n = 0 := by
  unfold highWord
  rw [Nat.div_eq_of_lt h]
  rfl

theorem pointer_words {n : Nat} (hpos : 0 < n) (hlt : n < 2 ^ 64) :
    ¬ (lowWord n = 0 ∧ highWord n = 0) := by
  rintro ⟨hlow, hhigh⟩
  have hl : n % 2 ^ 32 = 0 := congrArg BitVec.toNat hlow
  have hh : n / 2 ^ 32 % 2 ^ 32 = 0 := congrArg BitVec.toNat hhigh
  omega

theorem makeDefaultOf_first {v0 v3 : ConfVariable} (hv0 : vars[0]? = some v0)
    (hv3 : vars[3]? = some v3) (hname : v3.name.length < 2 ^ 32) (l : List Nat) :
    (0 :: l).foldl makeDefaultOf (blocksOf vars ptrs spare) Block.objects
        ConfServer.recvBuffLen ≠
      blocksOf vars ptrs spare Block.objects ConfServer.recvBuffLen := by
  have hzero : blocksOf vars ptrs spare Block.objects ConfServer.recvBuffLen = 0 := by
    refine (objectWords_get (x := 4) hv3 (by decide)).trans ?_
    exact highWord_of_lt hname
  have hlow : blocksOf vars ptrs spare Block.objects 48 = lowWord (ptrs 0).makeDefault :=
    objectWords_get (x := 48) hv0 (by decide)
  have hhigh : blocksOf vars ptrs spare Block.objects 52 = highWord (ptrs 0).makeDefault :=
    objectWords_get (x := 52) hv0 (by decide)
  have hfirst : makeDefaultOf (blocksOf vars ptrs spare) 0 Block.objects
      ConfServer.recvBuffLen = defRbuffLen := by
    unfold makeDefaultOf
    rw [Nat.mul_zero, Nat.zero_add, Nat.zero_add, hlow, hhigh,
      if_neg (pointer_words (ptrs 0).notNull (ptrs 0).inside)]
    have hrecv : blocksOf vars ptrs spare Block.objects (0 + ConfServer.recvBuffLen) = 0 := by
      rw [Nat.zero_add]
      exact hzero
    have hstore := makeDefault_first hrecv
    rwa [Nat.zero_add] at hstore
  rw [List.foldl_cons, confMakeObjectsDefault_kept l (by rw [hfirst]; decide), hfirst, hzero]
  decide

theorem few_objects (hnames : forall v, v ∈ vars -> v.name.length < 2 ^ 32)
    (hkept : forall a, a < confVariableSize * vars.length ->
      confMakeObjectsDefault vars.length (blocksOf vars ptrs spare) Block.objects a =
        blocksOf vars ptrs spare Block.objects a) : vars.length ≤ 3 := by
  by_contra hmany
  have hget : forall i, i < 4 -> exists v, vars[i]? = some v := by
    intro i hi
    have hlt : i < vars.length := by omega
    exact ⟨vars[i], List.getElem?_eq_getElem hlt⟩
  obtain ⟨v0, hv0⟩ := hget 0 (by decide)
  obtain ⟨v3, hv3⟩ := hget 3 (by decide)
  obtain ⟨n, hn⟩ : exists n, vars.length = n + 1 := ⟨vars.length - 1, by omega⟩
  have hrecv := hkept ConfServer.recvBuffLen (by
    unfold confVariableSize ConfServer.recvBuffLen
    omega)
  rw [hn, confMakeObjectsDefault, List.range_succ_eq_map] at hrecv
  exact makeDefaultOf_first hv0 hv3 (hnames v3 (List.mem_of_getElem? hv3)) _ hrecv

end Elements

/-!
## Known defaults
-/

def ownWrite (names : List (List Byte)) (k w : Nat) (args : List (List Byte)) :
    Option (BitVec 32) :=
  match target names args with
  | some (j, o) =>
      if j = k ∧ o.offset = w then o.written (args.getD 2 []) w else none
  | none => none

def configured (names : List (List Byte)) (opts : List (List (List Byte))) (k w : Nat) :
    Option (BitVec 32) :=
  (opts.filterMap (ownWrite names k w)).getLast?

/-- The pass gives a default to the fields without a directive, and changes nothing
else. -/
structure Defaulted (names : List (List Byte)) (opts : List (List (List Byte))) (n : Nat)
    (before after : Blocks) : Prop where
  known : forall k, k < n -> forall d, d ∈ knownDefaults ->
    after (Block.conf k) d.1 = (configured names opts k d.1).getD d.2
  other : forall k, k < n -> forall w, (forall d, d ∈ knownDefaults -> w ≠ d.1) ->
    after (Block.conf k) w = before (Block.conf k) w
  objects : forall a, a < confVariableSize * n ->
    after Block.objects a = before Block.objects a

section Runs

variable {names : List (List Byte)} {opts : List (List (List Byte))}

theorem configured_none {k w : Nat} (h : lastWrite names opts k w = none) :
    configured names opts k w = none := by
  unfold lastWrite at h
  unfold configured
  rw [List.getLast?_eq_none_iff, List.filterMap_eq_nil_iff] at h ⊢
  intro args hargs
  have hnone := h args hargs
  unfold writtenBy at hnone
  unfold ownWrite
  split
  · rename_i j o htarget
    rw [htarget] at hnone
    dsimp only at hnone
    by_cases hown : j = k ∧ o.offset = w
    · rw [if_pos hown.1] at hnone
      rw [if_pos hown]
      exact hnone
    · rw [if_neg hown]
  · rfl

theorem lastWrite_getD_zero {k w : Nat} {d : BitVec 32} (hd : d ≠ 0) :
    (lastWrite names opts k w).getD 0 = (configured names opts k w).getD d ↔
      lastWrite names opts k w = some ((configured names opts k w).getD d) := by
  cases hlast : lastWrite names opts k w with
  | none =>
      rw [configured_none hlast]
      exact iff_of_false (fun h => hd h.symm) nofun
  | some v =>
      rw [Option.some.injEq]
      exact Iff.rfl

end Runs

theorem scannedNames_length {s : Scan} (hs : Bounded s) {name : List Byte}
    (h : name ∈ scannedNames s) : name.length < 2 ^ 32 := by
  obtain ⟨args, hargs, rfl⟩ := List.mem_map.mp h
  obtain ⟨conf, hconf, rfl⟩ := List.mem_map.mp hargs
  have hshort := (hs.type conf hconf).2
  rw [List.getD_eq_getElem?_getD]
  cases hget : conf.arr[1]? with
  | none => exact Nat.two_pow_pos 32
  | some w =>
      have hlen := hshort w (List.mem_of_getElem? hget)
      exact Nat.lt_of_le_of_lt hlen (by decide)

/-- When the pass does what it is for: there are at most three objects, and the last
directive that reaches a field with a default puts the configured value or the default
there. -/
theorem confContextParse_defaulted {option buf : Mem} {size : Nat} {ptrs : Nat -> Pointers}
    {spare : Words} {ctx : Context} {s : Scan}
    (haccepted : confContextParse option buf size ptrs spare = some ctx)
    (hscan : scanBuf option buf size = Scanned.complete s) :
    Defaulted (scannedNames s) (argsOf s.arrOpts) ctx.vars.length
        (blocksOf ctx.vars ptrs spare) ctx.blocks ↔
      (scannedNames s).length ≤ 3 ∧
        forall k, k < (scannedNames s).length -> forall d, d ∈ knownDefaults ->
          lastWrite (scannedNames s) (argsOf s.arrOpts) k d.1 =
            some ((configured (scannedNames s) (argsOf s.arrOpts) k d.1).getD d.2) := by
  obtain ⟨vars, hvars, rfl⟩ := Option.map_eq_some_iff.mp haccepted
  have hbounded := scanBuf_bounded hscan
  rw [confParseBuf_eq (confParseBuf_size hvars) hscan] at hvars
  obtain ⟨-, vars0, -, hd0, hinit, hruns⟩ := parseScanned_eq_some hbounded hvars
  have hd : Declared (scannedNames s) vars := foldlM_keeps declared_keeps hd0 hruns
  have hlen : vars.length = (scannedNames s).length := by
    rw [← hd.map_name, List.length_map]
  have hword : forall k w, (confOf vars k).words w =
      (lastWrite (scannedNames s) (argsOf s.arrOpts) k w).getD 0 := by
    intro k w
    rw [foldlM_words hd0 hruns, hinit]
    rfl
  have hconf : forall k w, confMakeObjectsDefault vars.length (blocksOf vars ptrs spare)
      (Block.conf k) w = (confOf vars k).words w :=
    fun k w => confMakeObjectsDefault_other _ nofun
  have hdefault : forall d, d ∈ knownDefaults -> d.2 ≠ 0 := by decide
  dsimp only
  constructor
  · intro h
    constructor
    · rw [← hlen]
      refine few_objects (fun v hv => scannedNames_length hbounded ?_) h.objects
      rw [← hd.map_name]
      exact List.mem_map_of_mem hv
    · intro k hk d hd'
      have hknown := h.known k (by omega) d hd'
      rw [hconf, hword] at hknown
      exact (lastWrite_getD_zero (hdefault d hd')).mp hknown
  · rintro ⟨hfew, hlast⟩
    constructor
    · intro k hk d hd'
      rw [hconf, hword]
      exact (lastWrite_getD_zero (hdefault d hd')).mpr (hlast k (by omega) d hd')
    · intro k _ w _
      exact hconf k w
    · intro a ha
      refine confMakeObjectsDefault_other _ fun _ => ?_
      unfold confVariableSize at ha
      unfold ConfServer.recvBuffLen
      omega

/-!
## Two texts
-/

def samePointers : Pointers :=
  ⟨4096, 4096, 4096, 4096, 4096, by decide, by decide⟩

def contextText (text : List Byte) : Option Context :=
  confContextParse scratch (asMem text) text.length (fun _ => samePointers) fun _ => 0

def unset : List Byte :=
  ascii "Server s;\n"

theorem not_defaulted_unset :
    exists ctx, contextText unset = some ctx ∧
      ctx.blocks (Block.conf 0) ConfServer.recvBuffLen = 0 ∧
      ¬ Defaulted (scannedNames (scanOf unset)) (argsOf (scanOf unset).arrOpts)
        ctx.vars.length (blocksOf ctx.vars (fun _ => samePointers) fun _ => 0)
        ctx.blocks := by
  have hread : (contextText unset).map (fun ctx =>
      (ctx.blocks (Block.conf 0) ConfServer.recvBuffLen, ctx.vars.length)) =
        some (0, 1) := by
    decide +kernel
  obtain ⟨ctx, hctx, hpair⟩ := Option.map_eq_some_iff.mp hread
  obtain ⟨hword, hlen⟩ := Prod.mk.inj hpair
  refine ⟨ctx, hctx, hword, fun h => ?_⟩
  have hnone : configured (scannedNames (scanOf unset)) (argsOf (scanOf unset).arrOpts) 0
      ConfServer.recvBuffLen = none := by
    decide +kernel
  have hknown := h.known 0 (by rw [hlen]; decide) (ConfServer.recvBuffLen, defRbuffLen)
    (by decide)
  rw [hword, hnone] at hknown
  exact absurd hknown (by decide)

/-- All three fields are set, each after the field before it. -/
def allSet : List Byte :=
  ascii "Server s;\ns.recv_buff_len = 64KB;\ns.send_buff_len = 32KB;\ns.max_tqueue_len = 7;\n"

theorem confContextParse_defaulted_allSet :
    exists ctx, contextText allSet = some ctx ∧
      Defaulted (scannedNames (scanOf allSet)) (argsOf (scanOf allSet).arrOpts)
        ctx.vars.length (blocksOf ctx.vars (fun _ => samePointers) fun _ => 0)
        ctx.blocks := by
  cases hctx : contextText allSet with
  | none =>
      have haccepted : contextText allSet ≠ none := by
        rw [← Option.isSome_iff_ne_none]
        decide +kernel
      exact absurd hctx haccepted
  | some ctx =>
      refine ⟨ctx, rfl, ?_⟩
      exact (confContextParse_defaulted hctx (scanBuf_text (by decide +kernel))).mpr
        ⟨by decide +kernel, by decide +kernel⟩

end Conf
end NgxEpoll
