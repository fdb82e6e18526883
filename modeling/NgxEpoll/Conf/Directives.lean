import NgxEpoll.Conf.Options

/-!
# What the directives of a text do

Every directive names an object and an option.  The words of an object hold what the
last directive put there that reaches them.

## The directives of an object
-/

namespace NgxEpoll
namespace Conf

open Foundation NgxEpoll.Core

def target (names : List (List Byte)) (args : List (List Byte)) :
    Option (Nat × ConfOption) :=
  let word0 := args.headD []
  match strchr word0 chDot with
  | none => none
  | some dot =>
      match confGetVobject names (word0.take dot) with
      | none => none
      | some k =>
          (confServerOption.find? fun o => SameName (word0.drop (dot + 1)) o.option).map
            fun o => (k, o)

def ConfVariable.header (v : ConfVariable) : List Byte × List Byte × List ConfOption :=
  (v.name, v.objName, v.option)

/-- The objects are the server objects of these names. -/
def Declared (names : List (List Byte)) (vars : List ConfVariable) : Prop :=
  vars.map ConfVariable.header = names.map fun n => (n, ascii "Server", confServerOption)

def confOf (vars : List ConfVariable) (k : Nat) : ConfServer :=
  ((vars[k]?).map ConfVariable.conf).getD confServerInit

variable {names : List (List Byte)} {vars vars' : List ConfVariable}
variable {args : List (List Byte)} {k : Nat} {v : ConfVariable}

theorem Declared.map_name (h : Declared names vars) : vars.map ConfVariable.name = names := by
  have hmap := congrArg (List.map Prod.fst) h
  simp only [List.map_map] at hmap
  exact hmap.trans (List.map_id _)

theorem Declared.get (h : Declared names vars) (hv : vars[k]? = some v) :
    v.objName = ascii "Server" ∧ v.option = confServerOption := by
  have hget := congrArg (fun l => l[k]?) h
  simp only [List.getElem?_map, hv, Option.map_some] at hget
  cases hn : names[k]? with
  | none =>
      rw [hn] at hget
      cases hget
  | some n =>
      rw [hn] at hget
      have hheader := Option.some.inj hget
      exact ⟨congrArg (fun x => x.2.1) hheader, congrArg (fun x => x.2.2) hheader⟩

theorem confOf_get (hv : vars[k]? = some v) : confOf vars k = v.conf := by
  unfold confOf
  rw [hv]
  rfl

theorem Declared.set (h : Declared names vars) (hv : vars[k]? = some v) (conf : ConfServer) :
    Declared names (vars.set k { v with conf := conf }) := by
  unfold Declared at *
  rw [List.map_set, ← h]
  apply List.ext_getElem?
  intro j
  rw [List.getElem?_set, List.getElem?_map]
  split
  · rename_i hj
    subst hj
    rw [hv, if_pos (by rw [List.length_map]; exact (List.getElem?_eq_some_iff.mp hv).1)]
    rfl
  · rfl

theorem confOf_set (hv : vars[k]? = some v) (conf : ConfServer) (j : Nat) :
    confOf (vars.set k { v with conf := conf }) j =
      if j = k then conf else confOf vars j := by
  unfold confOf
  rw [List.getElem?_set]
  by_cases hj : j = k
  · subst hj
    rw [if_pos rfl, if_pos rfl, if_pos (List.getElem?_eq_some_iff.mp hv).1]
    rfl
  · rw [if_neg (Ne.symm hj), if_neg hj]

theorem Declared.ext (h : Declared names vars) (h' : Declared names vars')
    (hconf : forall k, confOf vars k = confOf vars' k) : vars = vars' := by
  apply List.ext_getElem?
  intro k
  have hheader : (vars[k]?).map ConfVariable.header = (vars'[k]?).map ConfVariable.header := by
    rw [← List.getElem?_map, ← List.getElem?_map, h, h']
  cases hv : vars[k]? with
  | none =>
      rw [hv, Option.map_none] at hheader
      exact (Option.map_eq_none_iff.mp hheader.symm).symm
  | some v =>
      cases hv' : vars'[k]? with
      | none =>
          rw [hv, hv'] at hheader
          cases hheader
      | some v' =>
          rw [hv, hv'] at hheader
          have hsame := Option.some.inj hheader
          have hk := hconf k
          rw [confOf_get hv, confOf_get hv'] at hk
          cases v
          cases v'
          simp only [ConfVariable.header, Prod.mk.injEq] at hsame
          obtain ⟨rfl, rfl, rfl⟩ := hsame
          cases hk
          rfl

/-!
## One directive
-/

theorem type_equal {o : ConfOption} (ho : o ∈ confServerOption) : o.type = Ope.equal := by
  have hall : forall o, o ∈ confServerOption -> o.type = Ope.equal := by
    decide +kernel
  exact hall o ho

theorem operType_eq_some {o : ConfOption} (ho : o ∈ confServerOption) {oper : List Byte}
    {type : Ope} : operType o oper = some type ↔ type = Ope.equal ∧ oper = ascii "=" := by
  have htype := type_equal ho
  unfold operType
  rw [htype]
  by_cases hoper : oper = ascii "="
  · subst hoper
    rw [if_neg (by decide), if_pos ⟨rfl, rfl⟩, Option.some.injEq]
    exact ⟨fun h => ⟨h.symm, rfl⟩, fun h => h.1.symm⟩
  · refine iff_of_false ?_ fun h => hoper h.2
    simp [hoper]

structure Performs (names : List (List Byte)) (vars : List ConfVariable)
    (args : List (List Byte)) (vars' : List ConfVariable) (k : Nat) (o : ConfOption)
    (arg : List Byte) : Prop where
  target : target names args = some (k, o)
  option : o ∈ confServerOption
  args : exists x, args = [x, ascii "=", arg]
  accepts : o.Accepts (confOf vars k) arg
  declared : Declared names vars'
  conf : forall j, confOf vars' j =
    if j = k then o.apply (confOf vars k) arg else confOf vars j

theorem target_eq_some {o : ConfOption} (h : target names args = some (k, o)) :
    exists dot, strchr (args.headD []) chDot = some dot ∧
      confGetVobject names ((args.headD []).take dot) = some k ∧
      confServerOption.find? (fun o => SameName ((args.headD []).drop (dot + 1)) o.option) =
        some o := by
  unfold target at h
  dsimp only at h
  split at h
  · cases h
  · rename_i dot hdot
    split at h
    · cases h
    · rename_i k' hk
      obtain ⟨o', ho', heq⟩ := Option.map_eq_some_iff.mp h
      cases heq
      exact ⟨dot, hdot, hk, ho'⟩

theorem confGetVobject_lt {name : List Byte} (h : confGetVobject names name = some k) :
    k < names.length := by
  obtain ⟨hlt, -⟩ := List.findIdx?_eq_some_iff_getElem.mp h
  exact hlt

theorem confParseAttribute_accepted (hd : Declared names vars) {o : ConfOption}
    {x arg : List Byte} (htarget : target names [x, ascii "=", arg] = some (k, o))
    (haccepts : o.Accepts (confOf vars k) arg) :
    exists vars', confParseAttribute vars [x, ascii "=", arg] = some vars' := by
  obtain ⟨dot, hdot, hk, ho⟩ := target_eq_some htarget
  have hlt : k < vars.length := by
    rw [← List.length_map ConfVariable.name, hd.map_name]
    exact confGetVobject_lt hk
  have hv := List.getElem?_eq_getElem hlt
  generalize vars[k] = v at hv
  rw [confOf_get hv] at haccepts
  have hrun : o.handler.run v.conf o.offset Ope.equal [x, ascii "=", arg] =
      Handled.ok (o.apply v.conf arg) := (run_takes x (ascii "=")).mpr ⟨haccepts, rfl⟩
  have hoper : operType o (ascii "=") = some Ope.equal :=
    (operType_eq_some (List.mem_of_find?_eq_some ho)).mpr ⟨rfl, rfl⟩
  refine ⟨vars.set k { v with conf := o.apply v.conf arg }, ?_⟩
  unfold confParseAttribute confParseObjectAtt
  dsimp only
  rw [hdot, hd.map_name]
  dsimp only
  rw [hk]
  dsimp only
  rw [hv]
  dsimp only
  rw [(hd.get hv).2, ho]
  simp only [List.getD_cons_succ, List.getD_cons_zero, hoper, hrun, Option.map_some]

theorem confParseAttribute_performs (hd : Declared names vars)
    (h : confParseAttribute vars args = some vars') :
    exists k o arg, Performs names vars args vars' k o arg := by
  unfold confParseAttribute at h
  dsimp only at h
  split at h
  · cases h
  rename_i dot hdot
  split at h
  · cases h
  rename_i k hk
  split at h
  · cases h
  rename_i v hv
  obtain ⟨conf, hconf, rfl⟩ := Option.map_eq_some_iff.mp h
  unfold confParseObjectAtt at hconf
  rw [(hd.get hv).2] at hconf
  split at hconf
  · cases hconf
  rename_i o ho
  split at hconf
  · cases hconf
  rename_i type htype
  split at hconf
  · rename_i conf' hrun
    cases hconf
    have hmem := List.mem_of_find?_eq_some ho
    obtain ⟨htype, hoper⟩ := (operType_eq_some hmem).mp htype
    subst htype
    obtain ⟨-, x, y, arg, rfl⟩ := run_eq_ok hrun
    obtain ⟨haccepts, rfl⟩ := (run_takes x y).mp hrun
    rw [← confOf_get hv] at haccepts
    refine ⟨k, o, arg, ?_, hmem, ⟨x, ?_⟩, haccepts, hd.set hv _, fun j => ?_⟩
    · rw [hd.map_name] at hk
      unfold target
      dsimp only
      rw [hdot]
      dsimp only
      rw [hk]
      dsimp only
      rw [ho]
      rfl
    · rw [← hoper]
      rfl
    · rw [confOf_set hv, confOf_get hv]
  · cases hconf

/-!
## Runs
-/

def declaredNames (types : List (List (List Byte))) : List (List Byte) :=
  types.map fun args => args.getD 1 []

theorem confParseType_spec (hd : Declared names vars)
    (hinit : forall k, confOf vars k = confServerInit)
    (h : confParseType vars args = some vars') :
    Declared (names ++ [args.getD 1 []]) vars' ∧
      forall k, confOf vars' k = confServerInit := by
  unfold confParseType at h
  split at h
  · rename_i word0 word1 rest
    obtain ⟨obj, hobj, rfl⟩ := Option.map_eq_some_iff.mp h
    have hmem := List.mem_of_find?_eq_some hobj
    unfold dnConfObjects at hmem
    rw [List.mem_singleton] at hmem
    subst hmem
    constructor
    · unfold Declared at *
      unfold confParseObject
      rw [List.map_append, List.map_append, hd]
      rfl
    · intro k
      have hk := hinit k
      unfold confOf confParseObject at *
      rw [List.getElem?_append]
      split
      · exact hk
      · cases hsub : k - vars.length with
        | zero => rfl
        | succ n => rfl
  · cases h

theorem foldlM_confParseType {types : List (List (List Byte))} (hd : Declared names vars)
    (hinit : forall k, confOf vars k = confServerInit)
    (h : types.foldlM confParseType vars = some vars') :
    Declared (names ++ declaredNames types) vars' ∧
      forall k, confOf vars' k = confServerInit := by
  induction types generalizing names vars with
  | nil =>
      cases h
      rw [declaredNames, List.map_nil, List.append_nil]
      exact ⟨hd, hinit⟩
  | cons args types ih =>
      obtain ⟨vars1, hfirst, hrest⟩ := foldlM_cons_eq_some h
      obtain ⟨hd1, hinit1⟩ := confParseType_spec hd hinit hfirst
      have h1 := ih hd1 hinit1 hrest
      rw [List.append_assoc] at h1
      exact h1

theorem confParseOption_eq (hd : Declared names vars) (hlen : 3 ≤ args.length) :
    confParseOption vars args = confParseAttribute vars args := by
  unfold confParseOption confTake12 confTake2
  by_cases hlong : 12 < args.length
  · rw [if_pos (Or.inl hlong)]
    cases h : confParseAttribute vars args with
    | none => rfl
    | some vars' =>
        obtain ⟨k, o, arg, hperforms⟩ := confParseAttribute_performs hd h
        obtain ⟨x, hargs⟩ := hperforms.args
        rw [hargs] at hlong
        exact absurd hlong (Nat.not_lt_of_le (by simp))
  · rw [if_neg (by omega), if_neg (by omega)]

theorem foldlM_confParseOption {opts : List (List (List Byte))} (hd : Declared names vars)
    (hlen : forall args, args ∈ opts -> 3 ≤ args.length) :
    opts.foldlM confParseOption vars = opts.foldlM confParseAttribute vars := by
  induction opts generalizing vars with
  | nil => rfl
  | cons args opts ih =>
      have hfirst := confParseOption_eq hd (hlen args List.mem_cons_self)
      rw [List.foldlM_cons, List.foldlM_cons, hfirst]
      cases h : confParseAttribute vars args with
      | none => rfl
      | some vars1 =>
          obtain ⟨k, o, arg, hperforms⟩ := confParseAttribute_performs hd h
          exact ih hperforms.declared fun args' h' => hlen args' (List.mem_cons_of_mem _ h')

def scannedNames (s : Scan) : List (List Byte) :=
  declaredNames (argsOf s.arrType)

theorem Bounded.opts_length {s : Scan} (hs : Bounded s) (args : List (List Byte))
    (hargs : args ∈ argsOf s.arrOpts) : 3 ≤ args.length := by
  obtain ⟨conf, hconf, rfl⟩ := List.mem_map.mp hargs
  exact (hs.opts conf hconf).1

/-- The reading of an accepted text: objects with no values, then their options. -/
theorem parseScanned_eq_some {s : Scan} (hs : Bounded s) (h : parseScanned s = some vars) :
    s.inQuotes = false ∧ exists vars0,
      (argsOf s.arrType).foldlM confParseType [] = some vars0 ∧
      Declared (scannedNames s) vars0 ∧ (forall k, confOf vars0 k = confServerInit) ∧
      (argsOf s.arrOpts).foldlM confParseAttribute vars0 = some vars := by
  unfold parseScanned at h
  cases hquotes : s.inQuotes with
  | true =>
      rw [hquotes] at h
      cases h
  | false =>
      rw [hquotes, if_neg Bool.false_ne_true] at h
      obtain ⟨vars0, htypes, hopts⟩ := Option.bind_eq_some_iff.mp h
      have hnil : Declared [] [] := rfl
      obtain ⟨hd, hinit⟩ := foldlM_confParseType hnil (fun _ => rfl) htypes
      rw [foldlM_confParseOption hd hs.opts_length] at hopts
      exact ⟨rfl, vars0, htypes, hd, hinit, hopts⟩

theorem confParseBuf_eq {option buf : Mem} {size : Nat} {s : Scan} (hsize : 0 < size)
    (hscan : scanBuf option buf size = Scanned.complete s) :
    confParseBuf option buf size = parseScanned s := by
  unfold confParseBuf
  rw [if_neg (Nat.ne_of_gt hsize), hscan]

theorem confParseBuf_size {option buf : Mem} {size : Nat}
    (h : confParseBuf option buf size = some vars) : 0 < size := by
  unfold confParseBuf at h
  split at h
  · cases h
  · rename_i hsize
    exact Nat.pos_of_ne_zero hsize

theorem declared_keeps (vars vars' : List ConfVariable) (args : List (List Byte))
    (hd : Declared names vars) (h : confParseAttribute vars args = some vars') :
    Declared names vars' := by
  obtain ⟨k, o, arg, hperforms⟩ := confParseAttribute_performs hd h
  exact hperforms.declared

/-!
## Last writes
-/

def writtenBy (names : List (List Byte)) (k w : Nat) (args : List (List Byte)) :
    Option (BitVec 32) :=
  match target names args with
  | some (j, o) => if j = k then o.written (args.getD 2 []) w else none
  | none => none

def lastWrite (names : List (List Byte)) (opts : List (List (List Byte))) (k w : Nat) :
    Option (BitVec 32) :=
  (opts.filterMap (writtenBy names k w)).getLast?

theorem words_written (w : Nat) (vars vars' : List ConfVariable) (args : List (List Byte))
    (hd : Declared names vars) (h : confParseAttribute vars args = some vars') :
    (confOf vars' k).words w =
      (writtenBy names k w args).getD ((confOf vars k).words w) := by
  obtain ⟨j, o, arg, hperforms⟩ := confParseAttribute_performs hd h
  obtain ⟨x, rfl⟩ := hperforms.args
  unfold writtenBy
  rw [hperforms.conf k, hperforms.target]
  dsimp only
  by_cases hj : j = k
  · subst hj
    rw [if_pos rfl, if_pos rfl]
    rfl
  · rw [if_neg (Ne.symm hj), if_neg hj]
    rfl

theorem foldlM_words {opts : List (List (List Byte))} (hd : Declared names vars)
    (h : opts.foldlM confParseAttribute vars = some vars') (k w : Nat) :
    (confOf vars' k).words w =
      (lastWrite names opts k w).getD ((confOf vars k).words w) :=
  foldlM_lastWrite declared_keeps (words_written w) hd h

end Conf
end NgxEpoll
