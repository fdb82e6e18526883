import NgxEpoll.Conf.Lexemes

/-!
# What becomes of the content of a text

The bytes of an accepted text that are no separators, quotes, escapes or comments, and
the directives that are parsed.
-/

namespace NgxEpoll
namespace Conf

open Foundation NgxEpoll.Core

/-!
## Content
-/

def Lexeme.content : Lexeme -> List Byte
  | Lexeme.word bytes => bytes
  | Lexeme.lost c => [c]
  | _ => []

def content (ls : List Lexeme) : List Byte :=
  ls.flatMap Lexeme.content

def behindLast : List Lexeme -> List Lexeme
  | [] => []
  | l :: ls =>
      if Lexeme.semicolon ∈ ls then behindLast ls
      else if l = Lexeme.semicolon then ls
      else l :: ls

/-- There is no content behind the last semicolon and no carriage return in quotes. -/
def Ended (ls : List Lexeme) : Prop :=
  content (behindLast ls) = [] ∧ forall c, Lexeme.lost c ∉ ls

/-- The bytes are those of directives, in their order, and these are the declarations and
the options. -/
def Processes (types opts : List (List (List Byte))) (bytes : List Byte) : Prop :=
  exists ds, (forall args, args ∈ ds -> 2 ≤ args.length) ∧ typesOf ds = types ∧
    optsOf ds = opts ∧ ds.flatten.flatten = bytes

/-!
## Bytes that are stored
-/

def Lexeme.stored : Lexeme -> List Byte
  | Lexeme.word bytes => bytes
  | _ => []

def stored (ls : List Lexeme) : List Byte :=
  ls.flatMap Lexeme.stored

variable {buf : Mem} {size : Nat} {s t : Scan} {l : Lexeme} {ls : List Lexeme}

theorem stored_cons (l : Lexeme) (ls : List Lexeme) :
    stored (l :: ls) = l.stored ++ stored ls :=
  List.flatMap_cons

theorem content_cons (l : Lexeme) (ls : List Lexeme) :
    content (l :: ls) = l.content ++ content ls :=
  List.flatMap_cons

theorem stored_length_le (ls : List Lexeme) : (stored ls).length ≤ (content ls).length := by
  induction ls with
  | nil => exact Nat.le_refl _
  | cons l ls ih =>
      rw [stored_cons, content_cons, List.length_append, List.length_append]
      refine Nat.add_le_add ?_ ih
      cases l <;> simp [Lexeme.stored, Lexeme.content]

theorem stored_eq_content (h : forall c, Lexeme.lost c ∉ ls) : stored ls = content ls := by
  induction ls with
  | nil => rfl
  | cons l ls ih =>
      rw [stored_cons, content_cons, ih fun c hc => h c (List.mem_cons_of_mem l hc)]
      cases l with
      | lost c => exact absurd List.mem_cons_self (h c)
      | _ => rfl

theorem no_lost_of_length (h : (content ls).length ≤ (stored ls).length) (c : Byte) :
    Lexeme.lost c ∉ ls := by
  induction ls with
  | nil => exact List.not_mem_nil
  | cons l ls ih =>
      have hle := stored_length_le ls
      rw [stored_cons, content_cons, List.length_append, List.length_append] at h
      intro hmem
      rcases List.mem_cons.mp hmem with heq | htail
      · rw [← heq] at h
        simp only [Lexeme.content, Lexeme.stored, List.length_singleton, List.length_nil] at h
        omega
      · have hhead : l.stored.length ≤ l.content.length := by
          cases l <;> simp [Lexeme.stored, Lexeme.content]
        exact ih (by omega) htail

/-!
## From a state to the end of the loop
-/

def pending (s : Scan) : List Byte :=
  s.args.flatten ++ s.word

/-- From `s` to `t` the loop has stored the bytes of the lexemes in directives, but for
those behind the last semicolon. -/
structure Collects (s t : Scan) (ls : List Lexeme) (ds : List (List (List Byte))) : Prop where
  two : forall args, args ∈ ds -> 2 ≤ args.length
  types : argsOf t.arrType = argsOf s.arrType ++ typesOf ds
  opts : argsOf t.arrOpts = argsOf s.arrOpts ++ optsOf ds
  bytes : pending s ++ stored ls = ds.flatten.flatten ++ pending t
  rest : pending t =
    if Lexeme.semicolon ∈ ls then stored (behindLast ls) else pending s ++ stored ls

theorem Holds.pending {word : List Byte} {args : List (List Byte)}
    {types opts : List (List (List Byte))} (h : Holds s word args types opts) :
    pending s = args.flatten ++ word := by
  unfold Conf.pending
  rw [h.args, h.word]

theorem behindLast_cons (hl : l ≠ Lexeme.semicolon) :
    behindLast (l :: ls) = if Lexeme.semicolon ∈ ls then behindLast ls else l :: ls := by
  rw [behindLast, if_neg hl]

theorem Collects.cons {s' : Scan} {ds : List (List (List Byte))} (hl : l ≠ Lexeme.semicolon)
    (htypes : argsOf s'.arrType = argsOf s.arrType)
    (hopts : argsOf s'.arrOpts = argsOf s.arrOpts)
    (hpending : pending s' = pending s ++ l.stored) (h : Collects s' t ls ds) :
    Collects s t (l :: ls) ds where
  two := h.two
  types := by rw [h.types, htypes]
  opts := by rw [h.opts, hopts]
  bytes := by rw [stored_cons, ← List.append_assoc, ← hpending, h.bytes]
  rest := by
    have hmem : Lexeme.semicolon ∈ l :: ls ↔ Lexeme.semicolon ∈ ls := by
      rw [List.mem_cons, or_iff_right fun heq => hl heq.symm]
    rw [h.rest, stored_cons, ← List.append_assoc, ← hpending, behindLast_cons hl]
    by_cases hmore : Lexeme.semicolon ∈ ls
    · rw [if_pos hmore, if_pos (hmem.mpr hmore), if_pos hmore]
    · rw [if_neg hmore, if_neg fun h => hmore (hmem.mp h)]

theorem Collects.semicolon {s' : Scan} {ds : List (List (List Byte))} (hargs : s.args ≠ [])
    (htypes : argsOf s'.arrType = argsOf s.arrType ++ typesOf [s.args ++ [s.word]])
    (hopts : argsOf s'.arrOpts = argsOf s.arrOpts ++ optsOf [s.args ++ [s.word]])
    (hpending : pending s' = []) (h : Collects s' t ls ds) :
    Collects s t (Lexeme.semicolon :: ls) ((s.args ++ [s.word]) :: ds) where
  two := by
    rw [List.forall_mem_cons]
    refine ⟨?_, h.two⟩
    have hpos := List.length_pos_iff.mpr hargs
    rw [List.length_append, List.length_singleton]
    omega
  types := by
    rw [h.types, htypes, List.append_assoc]
    exact congrArg _ (List.filter_append _ _).symm
  opts := by
    rw [h.opts, hopts, List.append_assoc]
    exact congrArg _ (List.filter_append _ _).symm
  bytes := by
    have hbytes := h.bytes
    rw [hpending, List.nil_append] at hbytes
    rw [stored_cons, hbytes, List.flatten_cons, List.flatten_append, List.flatten_append,
      List.append_assoc]
    simp [pending, Lexeme.stored]
  rest := by
    rw [h.rest, hpending, List.nil_append, if_pos List.mem_cons_self, behindLast]
    by_cases hmore : Lexeme.semicolon ∈ ls
    · rw [if_pos hmore, if_pos hmore]
    · rw [if_neg hmore, if_neg hmore, if_pos rfl]

theorem Steps.goes {s' : Scan} (h : Steps buf size s (l :: ls) (Turn.next s')) :
    At buf size s' ls := by
  cases h
  all_goals assumption

theorem Steps.not_complete {r : Scanned} (h : Steps buf size s (l :: ls) (Turn.done r)) :
    r ≠ Scanned.complete t := by
  cases h
  all_goals exact nofun

theorem Steps.collects {s' : Scan} {ds : List (List (List Byte))}
    (h : Steps buf size s (l :: ls) (Turn.next s')) (hds : Collects s' t ls ds) :
    exists ds, Collects s t (l :: ls) ds := by
  cases h with
  | word hroom hholds =>
      refine ⟨ds, hds.cons nofun hholds.types hholds.opts ?_⟩
      rw [hholds.pending, ← List.append_assoc]
      rfl
  | lost hholds =>
      refine ⟨ds, hds.cons nofun hholds.types hholds.opts ?_⟩
      exact hholds.pending.trans (List.append_nil _).symm
  | blank hholds =>
      refine ⟨ds, hds.cons nofun hholds.types hholds.opts ?_⟩
      exact hholds.pending.trans (List.append_nil _).symm
  | space hholds =>
      refine ⟨ds, hds.cons nofun hholds.types hholds.opts ?_⟩
      rw [hholds.pending, List.append_nil]
      by_cases hword : s.word = []
      · rw [if_neg (not_not.mpr hword), pending, hword]
        simp [Lexeme.stored]
      · rw [if_pos hword, pending, List.flatten_append]
        simp [Lexeme.stored]
  | hash hword hholds =>
      refine ⟨ds, hds.cons nofun hholds.types hholds.opts ?_⟩
      exact hholds.pending.trans (List.append_nil _).symm
  | semicolon hargs hholds =>
      exact ⟨_, hds.semicolon hargs hholds.types hholds.opts hholds.pending⟩

theorem scanFrom_collects (hat : At buf size s ls)
    (h : scanFrom buf size s = Scanned.complete t) : exists ds, Collects s t ls ds := by
  induction ls generalizing s with
  | nil =>
      rw [scanFrom_done hat.ends, Scanned.complete.injEq] at h
      subst h
      exact ⟨[], nofun, (List.append_nil _).symm, (List.append_nil _).symm, List.append_nil _,
        (List.append_nil _).symm⟩
  | cons l ls ih =>
      have hsteps := hat.steps
      cases hturn : scanByte buf size s with
      | next s' =>
          rw [hturn] at hsteps
          rw [scanFrom_next hturn] at h
          obtain ⟨ds, hds⟩ := ih hsteps.goes h
          exact hsteps.collects hds
      | done r =>
          rw [hturn] at hsteps
          rw [scanFrom_done hturn] at h
          exact absurd h hsteps.not_complete

/-!
## Texts that are scanned to their end
-/

theorem typesOf_optsOf_length {ds : List (List (List Byte))}
    (htwo : forall args, args ∈ ds -> 2 ≤ args.length) :
    ds.flatten.flatten.length =
      (typesOf ds).flatten.flatten.length + (optsOf ds).flatten.flatten.length := by
  induction ds with
  | nil => rfl
  | cons args ds ih =>
      rw [List.forall_mem_cons] at htwo
      have htail := ih htwo.2
      unfold typesOf optsOf at htail ⊢
      by_cases hlength : args.length = 2
      · rw [List.filter_cons_of_pos (by simpa using hlength),
          List.filter_cons_of_neg (by simp [hlength])]
        simp only [List.flatten_cons, List.flatten_append, List.length_append, htail]
        exact (Nat.add_assoc _ _ _).symm
      · have hthree : 3 ≤ args.length := by omega
        rw [List.filter_cons_of_neg (by simpa using hlength),
          List.filter_cons_of_pos (by simpa using hthree)]
        simp only [List.flatten_cons, List.flatten_append, List.length_append, htail]
        exact Nat.add_left_comm _ _ _

theorem behindLast_of_none (h : Lexeme.semicolon ∉ ls) : behindLast ls = ls := by
  cases ls with
  | nil => rfl
  | cons l ls =>
      rw [List.mem_cons, not_or] at h
      rw [behindLast_cons fun heq => h.1 heq.symm, if_neg h.2]

theorem behindLast_suffix (ls : List Lexeme) : behindLast ls <:+ ls := by
  induction ls with
  | nil => exact List.suffix_rfl
  | cons l ls ih =>
      rw [behindLast]
      split
      · exact ih.trans (List.suffix_cons l ls)
      split
      · exact List.suffix_cons l ls
      · exact List.suffix_rfl

theorem tokens_collects {option : Mem} {types opts : List (List (List Byte))}
    (h : tokens option buf size = some (types, opts)) :
    exists ds rest, (forall args, args ∈ ds -> 2 ≤ args.length) ∧ typesOf ds = types ∧
      optsOf ds = opts ∧ rest = stored (behindLast (textLexemes (load buf 0 size))) ∧
      stored (textLexemes (load buf 0 size)) = ds.flatten.flatten ++ rest := by
  unfold tokens at h
  split at h
  · cases h
  cases hscan : scanBuf option buf size with
  | complete t =>
      rw [hscan, Option.some.injEq, Prod.mk.injEq] at h
      obtain ⟨ds, hds⟩ := scanFrom_collects (start_at option buf size) hscan
      have hbytes := hds.bytes
      have hrest := hds.rest
      have hstart : pending (scanStart option) = [] := word_of_empty rfl
      rw [hstart, List.nil_append] at hbytes hrest
      refine ⟨ds, pending t, hds.two, hds.types.symm.trans h.1, hds.opts.symm.trans h.2, ?_,
        hbytes⟩
      rw [hrest]
      split
      next => rfl
      next hnone => rw [behindLast_of_none hnone]
  | failed line =>
      rw [hscan] at h
      cases h
  | fault =>
      rw [hscan] at h
      cases h

theorem processes_iff {option : Mem} {types opts : List (List (List Byte))}
    (h : tokens option buf size = some (types, opts)) :
    Processes types opts (content (textLexemes (load buf 0 size))) ↔
      Ended (textLexemes (load buf 0 size)) := by
  obtain ⟨ds, rest, htwo, htypes, hopts, hrest, hbytes⟩ := tokens_collects h
  generalize textLexemes (load buf 0 size) = ls at hrest hbytes
  have hsuffix : (forall c, Lexeme.lost c ∉ ls) ->
      stored (behindLast ls) = content (behindLast ls) := fun hlost =>
    stored_eq_content fun c hc => hlost c ((behindLast_suffix ls).subset hc)
  constructor
  · rintro ⟨ds', htwo', htypes', hopts', hcontent⟩
    have hle := stored_length_le ls
    have hsame : ds'.flatten.flatten.length = ds.flatten.flatten.length := by
      rw [typesOf_optsOf_length htwo', typesOf_optsOf_length htwo, htypes, htypes', hopts, hopts']
    have hlength : (stored ls).length = ds.flatten.flatten.length + rest.length := by
      rw [hbytes, List.length_append]
    rw [hcontent] at hsame
    have hlost : forall c, Lexeme.lost c ∉ ls := no_lost_of_length (by omega)
    refine ⟨?_, hlost⟩
    rw [← hsuffix hlost, ← hrest, ← List.length_eq_zero_iff]
    omega
  · rintro ⟨hended, hlost⟩
    refine ⟨ds, htwo, htypes, hopts, ?_⟩
    rw [← hsuffix hlost, ← hrest] at hended
    rw [← stored_eq_content hlost, hbytes, hended, List.append_nil]

/-- The content of a text is in the directives that are parsed. -/
def AllProcessed (option buf : Mem) (size : Nat) : Prop :=
  exists types opts, tokens option buf size = some (types, opts) ∧
    Processes types opts (content (textLexemes (load buf 0 size)))

theorem allProcessed_ended {option : Mem} (h : AllProcessed option buf size) :
    Ended (textLexemes (load buf 0 size)) := by
  obtain ⟨types, opts, htokens, hprocesses⟩ := h
  exact (processes_iff htokens).mp hprocesses

/-- The whole content of an accepted text is in the directives that are parsed, exactly when
there is no content behind the last semicolon and no carriage return in quotes. -/
theorem content_processed_iff {option : Mem} {vars : List ConfVariable}
    (h : confParseBuf option buf size = some vars) :
    AllProcessed option buf size ↔ Ended (textLexemes (load buf 0 size)) := by
  refine ⟨allProcessed_ended, fun hended => ?_⟩
  have hscan : exists types opts, tokens option buf size = some (types, opts) := by
    unfold confParseBuf at h
    unfold tokens
    split at h
    · cases h
    next hsize =>
      rw [if_neg hsize]
      cases hscan : scanBuf option buf size with
      | complete t => exact ⟨_, _, rfl⟩
      | failed line =>
          rw [hscan] at h
          cases h
      | fault =>
          rw [hscan] at h
          cases h
  obtain ⟨types, opts, htokens⟩ := hscan
  exact ⟨types, opts, htokens, (processes_iff htokens).mpr hended⟩

def declaration : List Byte :=
  ascii "Server s;\n"

theorem content_processed_iff_declaration :
    exists vars, parseText declaration = some vars ∧
      (AllProcessed scratch (asMem declaration) declaration.length ↔
        Ended (textLexemes (load (asMem declaration) 0 declaration.length))) := by
  have haccepted : (parseText declaration).isSome = true := by
    decide +kernel
  obtain ⟨vars, hvars⟩ := Option.isSome_iff_exists.mp haccepted
  exact ⟨vars, hvars, content_processed_iff hvars⟩

def unfinished : List Byte :=
  ascii "Server s;\nfoo"

theorem content_not_processed :
    (parseText unfinished).isSome = true ∧
      ¬ AllProcessed scratch (asMem unfinished) unfinished.length := by
  refine ⟨by decide +kernel, fun h => ?_⟩
  have hended := allProcessed_ended h
  rw [load_asMem] at hended
  exact absurd hended.1 (by decide +kernel)

end Conf
end NgxEpoll
