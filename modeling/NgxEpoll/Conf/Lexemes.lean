import NgxEpoll.Conf.Blanks
import NgxEpoll.Conf.RoundTrip

/-!
# What the bytes of a text are for

A text is taken apart by quotes, comments and escapes alone, without words and
directives.  The scanning loop takes one of the parts in every turn.

## Lexemes
-/

namespace NgxEpoll
namespace Conf

open Foundation NgxEpoll.Core

inductive Mode where
  | plain
  | quoted
  | comment
deriving DecidableEq, Repr

/-- A part of a text.  A `word` has the bytes that it stands for, and a carriage return
in quotes stands for none.  At a `stop` the text is wrong whatever its words are, and at
`beyond` the byte that decides is not in the text. -/
inductive Lexeme where
  | word (bytes : List Byte)
  | lost (c : Byte)
  | blank
  | space
  | hash
  | semicolon
  | stop
  | beyond
deriving DecidableEq, Repr

def escaped (c : Byte) : Lexeme :=
  if c = chNewline then Lexeme.blank
  else if c = chQuote ∨ c = chApostrophe then Lexeme.word [c]
  else Lexeme.word [chBackslash, c]

/-- A newline behind `prev`, as the last byte of a text outside of quotes. -/
def lastNewline (prev : Option Byte) : Lexeme :=
  match prev with
  | none => Lexeme.beyond
  | some c => if c = chSemicolon then Lexeme.blank else Lexeme.stop

/-- The parts of a text behind `prev`.  The text stops at a newline in quotes and at a
closing quote with another byte behind it than a semicolon or a space. -/
def lexemes : Mode -> Option Byte -> List Byte -> List Lexeme
  | _, _, [] => []
  | Mode.comment, _, c :: rest =>
      Lexeme.blank ::
        lexemes (if c = chNewline then Mode.plain else Mode.comment) (some c) rest
  | Mode.quoted, _, c :: rest =>
      if c = chReturn then Lexeme.lost c :: lexemes Mode.quoted (some c) rest
      else if c = chBackslash then
        match rest with
        | [] => [Lexeme.beyond]
        | d :: rest => escaped d :: lexemes Mode.quoted (some d) rest
      else if c = chQuote then
        if rest.head? = some chSemicolon ∨ rest.head? = some chSpace then
          Lexeme.blank :: lexemes Mode.plain (some c) rest
        else [Lexeme.stop]
      else if c = chNewline then [Lexeme.stop]
      else Lexeme.word [c] :: lexemes Mode.quoted (some c) rest
  | Mode.plain, prev, c :: rest =>
      if c = chReturn then Lexeme.blank :: lexemes Mode.plain (some c) rest
      else if c = chSpace then Lexeme.space :: lexemes Mode.plain (some c) rest
      else if c = chBackslash then
        match rest with
        | [] => [Lexeme.beyond]
        | d :: rest => escaped d :: lexemes Mode.plain (some d) rest
      else if c = chQuote then Lexeme.blank :: lexemes Mode.quoted (some c) rest
      else if c = chHash then Lexeme.hash :: lexemes Mode.comment (some c) rest
      else if c = chNewline then
        if rest = [] then [lastNewline prev]
        else Lexeme.blank :: lexemes Mode.plain (some c) rest
      else if c = chSemicolon then Lexeme.semicolon :: lexemes Mode.plain (some c) rest
      else Lexeme.word [c] :: lexemes Mode.plain (some c) rest

def textLexemes (text : List Byte) : List Lexeme :=
  lexemes Mode.plain none text

/-!
## What a turn does with a lexeme
-/

def modeOf (s : Scan) : Mode :=
  if s.comment then Mode.comment else if s.inQuotes then Mode.quoted else Mode.plain

def prevOf (buf : Mem) (s : Scan) : Option Byte :=
  if s.p = 0 then none else some (buf (s.p - 1))

/-- The loop is in front of a text.  Behind a closing quote there is a semicolon or a
space. -/
structure Reads (buf : Mem) (size : Nat) (s : Scan) (text : List Byte) : Prop where
  ahead : Ahead buf size s text
  filled : s.optionLen = s.q
  comment : s.comment = true -> s.firstQuote = false ∧ 0 < s.p
  closed : s.lastQuote = true ->
    s.firstQuote = true ∧ (text.head? = some chSemicolon ∨ text.head? = some chSpace)

def At (buf : Mem) (size : Nat) (s : Scan) (ls : List Lexeme) : Prop :=
  exists text, Reads buf size s text ∧ lexemes (modeOf s) (prevOf buf s) text = ls

/-- The words and the directives that the loop has. -/
structure Holds (s : Scan) (word : List Byte) (args : List (List Byte))
    (types opts : List (List (List Byte))) : Prop where
  word : s.word = word
  args : s.args = args
  types : argsOf s.arrType = types
  opts : argsOf s.arrOpts = opts

theorem Holds.advance {s : Scan} {word : List Byte} {args : List (List Byte)}
    {types opts : List (List (List Byte))} (h : Holds s word args types opts) (n : Nat) :
    Holds (s.advance n) word args types opts :=
  ⟨h.word, h.args, h.types, h.opts⟩

def Kept (s t : Scan) : Prop :=
  Holds t s.word s.args (argsOf s.arrType) (argsOf s.arrOpts)

inductive Steps (buf : Mem) (size : Nat) (s : Scan) :
    List Lexeme -> Turn Scan Scanned -> Prop where
  | word {bytes : List Byte} {ls : List Lexeme} {t : Scan}
      (hroom : s.word.length + bytes.length ≤ confMaxOptionS + 1)
      (h : Holds t (s.word ++ bytes) s.args (argsOf s.arrType) (argsOf s.arrOpts))
      (hat : At buf size t ls) : Steps buf size s (Lexeme.word bytes :: ls) (Turn.next t)
  | overrun {bytes : List Byte} {ls : List Lexeme}
      (hlong : confMaxOptionS + 1 < s.word.length + bytes.length) :
      Steps buf size s (Lexeme.word bytes :: ls) (Turn.done Scanned.fault)
  | lost {c : Byte} {ls : List Lexeme} {t : Scan} (h : Kept s t) (hat : At buf size t ls) :
      Steps buf size s (Lexeme.lost c :: ls) (Turn.next t)
  | blank {ls : List Lexeme} {t : Scan} (h : Kept s t) (hat : At buf size t ls) :
      Steps buf size s (Lexeme.blank :: ls) (Turn.next t)
  | space {ls : List Lexeme} {t : Scan}
      (h : Holds t [] (if s.word ≠ [] then s.args ++ [s.word] else s.args)
        (argsOf s.arrType) (argsOf s.arrOpts))
      (hat : At buf size t ls) : Steps buf size s (Lexeme.space :: ls) (Turn.next t)
  | hash {ls : List Lexeme} {t : Scan} (hword : s.word = []) (h : Kept s t)
      (hat : At buf size t ls) : Steps buf size s (Lexeme.hash :: ls) (Turn.next t)
  | hashInWord {ls : List Lexeme} {line : Int} (hword : s.word ≠ []) :
      Steps buf size s (Lexeme.hash :: ls) (Turn.done (Scanned.failed line))
  | semicolon {ls : List Lexeme} {t : Scan} (hargs : s.args ≠ [])
      (h : Holds t [] [] (argsOf s.arrType ++ typesOf [s.args ++ [s.word]])
        (argsOf s.arrOpts ++ optsOf [s.args ++ [s.word]]))
      (hat : At buf size t ls) : Steps buf size s (Lexeme.semicolon :: ls) (Turn.next t)
  | fewWords {ls : List Lexeme} {line : Int} (hargs : s.args = []) :
      Steps buf size s (Lexeme.semicolon :: ls) (Turn.done (Scanned.failed line))
  | stop {ls : List Lexeme} {line : Int} :
      Steps buf size s (Lexeme.stop :: ls) (Turn.done (Scanned.failed line))
  | beyond {ls : List Lexeme} : Steps buf size s (Lexeme.beyond :: ls) (Turn.done Scanned.fault)

variable {buf : Mem} {size : Nat} {s t : Scan} {c d : Byte} {rest : List Byte}
variable {ls : List Lexeme} {m : Mode}

theorem word_length (s : Scan) : s.word.length = s.optionLen :=
  load_length _ _ _

theorem word_eq_nil (s : Scan) : s.word = [] ↔ s.optionLen = 0 := by
  rw [← List.length_eq_zero_iff, word_length]

theorem modeOf_congr (hcomment : t.comment = s.comment) (hfirst : t.firstQuote = s.firstQuote)
    (hlast : t.lastQuote = s.lastQuote) : modeOf t = modeOf s := by
  unfold modeOf Scan.inQuotes
  rw [hcomment, hfirst, hlast]

/-!
## Behind a byte
-/

theorem Reads.next (h : Reads buf size s (c :: rest)) (hp : t.p = s.p + 1)
    (hfilled : t.optionLen = t.q) (hcomment : t.comment = true -> t.firstQuote = false)
    (hclosed : t.lastQuote = true ->
      t.firstQuote = true ∧ (rest.head? = some chSemicolon ∨ rest.head? = some chSpace))
    (hmode : modeOf t = m) : At buf size t (lexemes m (some c) rest) := by
  have hahead : Ahead buf size t rest := h.ahead.tail.congr hp
  have hprev : prevOf buf t = some c := by
    unfold prevOf
    rw [hp, if_neg (Nat.succ_ne_zero _), Nat.add_sub_cancel, h.ahead.head]
  refine ⟨rest, ⟨hahead, hfilled, fun hc => ⟨hcomment hc, ?_⟩, hclosed⟩, ?_⟩
  · rw [hp]
    exact Nat.succ_pos _
  · rw [hmode, hprev]

theorem Reads.nextTwo (h : Reads buf size s (c :: d :: rest)) (hp : t.p = s.p + 2)
    (hfilled : t.optionLen = t.q) (hcomment : t.comment = false) (hclosed : t.lastQuote = false)
    (hmode : modeOf t = m) : At buf size t (lexemes m (some d) rest) := by
  have hahead : Ahead buf size t rest := h.ahead.tail.tail.congr hp
  have hhead : buf (s.p + 1) = d := h.ahead.tail.head
  have hprev : prevOf buf t = some d := by
    unfold prevOf
    rw [hp, if_neg (Nat.succ_ne_zero _), Nat.add_sub_cancel (m := 1), hhead]
  refine ⟨rest, ⟨hahead, hfilled, fun hc => ?_, fun hl => ?_⟩, ?_⟩
  · rw [hcomment] at hc
    cases hc
  · rw [hclosed] at hl
    cases hl
  · rw [hmode, hprev]

/-!
## Bytes of a word
-/

/-- Bytes are put to the word, and nothing else changes. -/
structure Puts (s t : Scan) (bytes : List Byte) : Prop where
  p : t.p = s.p
  comment : t.comment = s.comment
  firstQuote : t.firstQuote = s.firstQuote
  lastQuote : t.lastQuote = s.lastQuote
  filled : t.optionLen = t.q
  holds : Holds t (s.word ++ bytes) s.args (argsOf s.arrType) (argsOf s.arrOpts)

theorem put_puts (hfilled : s.optionLen = s.q) (h : s.put c = some t) : Puts s t [c] := by
  have hword := put_word hfilled h
  have ht := (put_eq_some h).2
  subst ht
  exact ⟨rfl, rfl, rfl, rfl, congrArg (· + 1) hfilled, ⟨hword, rfl, rfl, rfl⟩⟩

theorem Puts.trans {u : Scan} {xs ys : List Byte} (h : Puts s t xs) (h' : Puts t u ys) :
    Puts s u (xs ++ ys) where
  p := h'.p.trans h.p
  comment := h'.comment.trans h.comment
  firstQuote := h'.firstQuote.trans h.firstQuote
  lastQuote := h'.lastQuote.trans h.lastQuote
  filled := h'.filled
  holds :=
    { word := by rw [h'.holds.word, h.holds.word, List.append_assoc]
      args := h'.holds.args.trans h.holds.args
      types := h'.holds.types.trans h.holds.types
      opts := h'.holds.opts.trans h.holds.opts }

theorem Puts.modeOf {xs : List Byte} (h : Puts s t xs) (n : Nat) :
    modeOf (t.advance n) = modeOf s :=
  modeOf_congr (t := t.advance n) h.comment h.firstQuote h.lastQuote

theorem put_room (hfilled : s.optionLen = s.q) (c : Byte) :
    (exists t, s.put c = some t) ↔ s.word.length + 1 ≤ confMaxOptionS + 1 := by
  rw [word_length, hfilled, Nat.succ_le_iff]
  unfold Scan.put
  by_cases hroom : s.q < confMaxOptionS + 1
  · rw [if_pos hroom]
    exact iff_of_true ⟨_, rfl⟩ hroom
  · rw [if_neg hroom]
    exact iff_of_false nofun hroom

theorem steps_put {n : Nat} (hfilled : s.optionLen = s.q)
    (hat : forall t, Puts s t [d] -> At buf size (t.advance n) ls) :
    Steps buf size s (Lexeme.word [d] :: ls) (afterPut (s.put d) n) := by
  have hroom := put_room hfilled d
  cases hput : s.put d with
  | none =>
      rw [hput] at hroom
      exact Steps.overrun (Nat.lt_of_not_le fun hle => nomatch hroom.mpr hle)
  | some t =>
      have hputs := put_puts hfilled hput
      exact Steps.word (hroom.mp ⟨t, hput⟩) (hputs.holds.advance n) (hat t hputs)

theorem steps_putTwo {n : Nat} (hfilled : s.optionLen = s.q)
    (hat : forall t, Puts s t [c, d] -> At buf size (t.advance n) ls) :
    Steps buf size s (Lexeme.word [c, d] :: ls)
      (afterPut ((s.put c).bind fun s => s.put d) n) := by
  have hroom := put_room hfilled c
  cases hput : s.put c with
  | none =>
      rw [hput] at hroom
      refine Steps.overrun (Nat.lt_of_not_le fun hle => nomatch hroom.mpr ?_)
      exact Nat.le_trans (Nat.add_le_add_left (Nat.le_succ 1) _) hle
  | some t =>
      have hputs := put_puts hfilled hput
      have hroom' := put_room hputs.filled d
      have hlength : t.word.length + 1 = s.word.length + [c, d].length := by
        rw [hputs.holds.word, List.length_append]
        rfl
      rw [hlength] at hroom'
      rw [Option.bind_some]
      cases hput' : t.put d with
      | none =>
          rw [hput'] at hroom'
          exact Steps.overrun (Nat.lt_of_not_le fun hle => nomatch hroom'.mpr hle)
      | some u =>
          have hputs' := hputs.trans (put_puts hputs.filled hput')
          exact Steps.word (hroom'.mp ⟨u, hput'⟩) (hputs'.holds.advance n) (hat u hputs')

/-!
## The three modes
-/

theorem modeOf_eq_comment : modeOf s = Mode.comment ↔ s.comment = true := by
  unfold modeOf
  split
  next h => exact iff_of_true rfl h
  next h =>
    split
    · exact iff_of_false nofun h
    · exact iff_of_false nofun h

theorem modeOf_eq_quoted :
    modeOf s = Mode.quoted ↔ s.comment = false ∧ s.firstQuote = true ∧ s.lastQuote = false := by
  unfold modeOf Scan.inQuotes
  cases s.comment <;> cases s.firstQuote <;> cases s.lastQuote <;> decide

theorem modeOf_eq_plain :
    modeOf s = Mode.plain ↔ s.comment = false ∧ s.inQuotes = false := by
  unfold modeOf
  cases s.comment <;> cases s.inQuotes <;> decide

theorem Reads.kept (h : Reads buf size s (c :: rest)) (hlast : s.lastQuote = false)
    (hmode : modeOf s = m) : At buf size (s.advance 1) (lexemes m (some c) rest) := by
  refine h.next rfl h.filled (fun hc => (h.comment hc).1) (fun hl => ?_) hmode
  rw [show (s.advance 1).lastQuote = false from hlast] at hl
  cases hl

theorem kept_advance (s : Scan) (n : Nat) : Kept s (s.advance n) :=
  ⟨rfl, rfl, rfl, rfl⟩

theorem Reads.steps_put (h : Reads buf size s (c :: rest)) (hlast : s.lastQuote = false)
    (hmode : modeOf s = m) :
    Steps buf size s (Lexeme.word [c] :: lexemes m (some c) rest) (normalChar buf s) := by
  unfold normalChar
  rw [h.ahead.head]
  refine Conf.steps_put h.filled fun t ht => ?_
  refine h.next (congrArg (· + 1) ht.p) ht.filled (fun hc => ?_) (fun hl => ?_)
    ((ht.modeOf 1).trans hmode)
  · exact ht.firstQuote.trans (h.comment (ht.comment.symm.trans hc)).1
  · rw [show (t.advance 1).lastQuote = false from ht.lastQuote.trans hlast] at hl
    cases hl

theorem Reads.steps_escape : forall {rest : List Byte}, Reads buf size s (c :: rest) ->
    s.comment = false -> s.lastQuote = false -> modeOf s = m ->
      Steps buf size s
        (match rest with
          | [] => [Lexeme.beyond]
          | d :: rest => escaped d :: lexemes m (some d) rest)
        (scanEscape buf size s) := by
  intro rest h hcomment hlast hmode
  unfold scanEscape
  cases rest with
  | nil =>
      have hend : s.p + 1 = size := h.ahead.inside
      rw [if_neg (by omega)]
      exact Steps.beyond
  | cons d rest =>
      have hnext := h.ahead.tail
      have hhead : buf (s.p + 1) = d := hnext.head
      have hputs {t : Scan} {bytes : List Byte} (ht : Puts s t bytes) :
          At buf size (t.advance 2) (lexemes m (some d) rest) :=
        h.nextTwo (congrArg (· + 2) ht.p) ht.filled (ht.comment.trans hcomment)
          (ht.lastQuote.trans hlast) ((ht.modeOf 2).trans hmode)
      rw [if_pos (show s.p + 1 < size from hnext.lt)]
      dsimp only
      rw [hhead]
      unfold escaped
      split
      · exact Steps.blank (kept_advance s 2) (h.nextTwo rfl h.filled hcomment hlast hmode)
      split
      · exact Conf.steps_put h.filled fun t ht => hputs ht
      · exact steps_putTwo h.filled fun t ht => hputs ht

theorem Ahead.rest_nil (h : Ahead buf size s (c :: rest)) : s.p + 1 = size ↔ rest = [] := by
  have hinside := h.inside
  rw [List.length_cons] at hinside
  rw [← List.length_eq_zero_iff]
  omega

theorem Reads.turn (h : Reads buf size s (c :: rest)) (hcomment : s.comment = false)
    (hc : c ≠ chReturn) :
    scanByte buf size s =
      if c = chSpace then
        if s.inQuotes then normalChar buf s else Turn.next (s.endOption.advance 1)
      else if c = chBackslash then scanEscape buf size s
      else if c = chQuote then scanQuote buf size s
      else if c = chHash then
        if s.inQuotes then normalChar buf s else scanHash s
      else if c = chNewline then
        if s.inQuotes then Turn.done (Scanned.failed s.line)
        else scanNewline buf size s
      else if c = chSemicolon then
        if s.inQuotes then normalChar buf s else scanSemicolon s
      else normalChar buf s :=
  scanByte_plain h.ahead.lt (fun hopen => Bool.false_ne_true (hcomment.symm.trans hopen.1))
    h.ahead.head hc

theorem Reads.turn_return (h : Reads buf size s (chReturn :: rest))
    (hcomment : s.comment = false) : scanByte buf size s = Turn.next (s.advance 1) := by
  unfold scanByte
  rw [if_neg (Nat.not_le_of_lt h.ahead.lt)]
  dsimp only
  rw [h.ahead.head, hcomment, if_neg (by decide), if_pos rfl]

theorem Reads.steps_close (h : Reads buf size s (chQuote :: rest))
    (hmode : modeOf s = Mode.quoted) :
    Steps buf size s
      (if rest.head? = some chSemicolon ∨ rest.head? = some chSpace then
        Lexeme.blank :: lexemes Mode.plain (some chQuote) rest
      else [Lexeme.stop])
      (scanQuote buf size s) := by
  obtain ⟨hcomment, hfirst, -⟩ := modeOf_eq_quoted.mp hmode
  unfold scanQuote
  rw [if_pos hfirst]
  have hwrong : (s.p + 1 = size ∨ (buf (s.p + 1) ≠ chSemicolon ∧ buf (s.p + 1) ≠ chSpace)) ↔
      ¬ (rest.head? = some chSemicolon ∨ rest.head? = some chSpace) := by
    rw [h.ahead.rest_nil]
    cases rest with
    | nil => exact iff_of_true (Or.inl rfl) (by simp)
    | cons d rest =>
        have hhead : buf (s.p + 1) = d := h.ahead.tail.head
        rw [hhead]
        simp
  by_cases hnext : rest.head? = some chSemicolon ∨ rest.head? = some chSpace
  · rw [if_pos hnext, if_neg fun hbad => hwrong.mp hbad hnext]
    refine Steps.blank ⟨rfl, rfl, rfl, rfl⟩ ?_
    refine h.next rfl h.filled (fun hc => ?_) (fun _ => ⟨hfirst, hnext⟩) ?_
    · rw [show _ = false from hcomment] at hc
      cases hc
    · refine modeOf_eq_plain.mpr ⟨hcomment, ?_⟩
      exact Bool.and_false s.firstQuote
  · rw [if_neg hnext, if_pos (hwrong.mpr hnext)]
    exact Steps.stop

theorem Reads.steps_quoted (h : Reads buf size s (c :: rest)) (prev : Option Byte)
    (hmode : modeOf s = Mode.quoted) :
    Steps buf size s (lexemes Mode.quoted prev (c :: rest)) (scanByte buf size s) := by
  obtain ⟨hcomment, hfirst, hlast⟩ := modeOf_eq_quoted.mp hmode
  have hopen : s.inQuotes = true := by
    unfold Scan.inQuotes
    rw [hfirst, hlast]
    rfl
  rw [lexemes.eq_def]
  dsimp only
  by_cases hreturn : c = chReturn
  · subst hreturn
    rw [if_pos rfl, h.turn_return hcomment]
    exact Steps.lost (kept_advance s 1) (h.kept hlast hmode)
  rw [if_neg hreturn, h.turn hcomment hreturn]
  simp only [hopen, if_true]
  by_cases hbackslash : c = chBackslash
  · have hspace : c ≠ chSpace := by rw [hbackslash]; decide
    rw [if_pos hbackslash, if_neg hspace, if_pos hbackslash]
    exact h.steps_escape hcomment hlast hmode
  rw [if_neg hbackslash, if_neg hbackslash]
  by_cases hquote : c = chQuote
  · have hspace : c ≠ chSpace := by rw [hquote]; decide
    rw [if_pos hquote, if_neg hspace, if_pos hquote]
    subst hquote
    exact h.steps_close hmode
  rw [if_neg hquote, if_neg hquote]
  by_cases hnewline : c = chNewline
  · have hspace : c ≠ chSpace := by rw [hnewline]; decide
    have hhash : c ≠ chHash := by rw [hnewline]; decide
    rw [if_pos hnewline, if_neg hspace, if_neg hhash, if_pos hnewline]
    exact Steps.stop
  · rw [if_neg hnewline, if_neg hnewline]
    simp only [ite_self]
    exact h.steps_put hlast hmode

theorem Reads.steps_comment (h : Reads buf size s (c :: rest)) (prev : Option Byte)
    (hmode : modeOf s = Mode.comment) :
    Steps buf size s (lexemes Mode.comment prev (c :: rest)) (scanByte buf size s) := by
  have hcomment := modeOf_eq_comment.mp hmode
  obtain ⟨hfirst, hpos⟩ := h.comment hcomment
  have hlast : s.lastQuote = false := by
    cases hl : s.lastQuote with
    | false => rfl
    | true =>
        rw [(h.closed hl).1] at hfirst
        cases hfirst
  rw [lexemes.eq_def]
  dsimp only
  by_cases hnewline : c = chNewline
  · have hclosed : s.inQuotes = false := by
      unfold Scan.inQuotes
      rw [hfirst]
      rfl
    have hturn : scanByte buf size s = scanNewline buf size s := by
      rw [scanByte_plain h.ahead.lt (fun hopen => hopen.2 hnewline) h.ahead.head
        (by rw [hnewline]; decide), hclosed, hnewline]
      rfl
    rw [if_pos hnewline, hturn]
    unfold scanNewline
    dsimp only
    rw [if_neg fun hzero => Nat.ne_of_gt hpos hzero.2,
      if_neg fun hopen => Bool.false_ne_true (hopen.2.2.symm.trans hcomment)]
    refine Steps.blank ⟨rfl, rfl, rfl, rfl⟩ ?_
    exact h.next rfl h.filled (fun hc => nomatch hc) (fun hl => nomatch hl) rfl
  · have hturn : scanByte buf size s = Turn.next (s.advance 1) := by
      unfold scanByte
      rw [if_neg (Nat.not_le_of_lt h.ahead.lt)]
      dsimp only
      rw [h.ahead.head, if_pos ⟨hcomment, hnewline⟩]
    rw [if_neg hnewline, hturn]
    exact Steps.blank (kept_advance s 1) (h.kept hlast hmode)

theorem Reads.steps_hash (h : Reads buf size s (c :: rest)) (hfirst : s.firstQuote = false)
    (hlast : s.lastQuote = false) :
    Steps buf size s (Lexeme.hash :: lexemes Mode.comment (some c) rest) (scanHash s) := by
  unfold scanHash
  by_cases hlen : s.optionLen = 0
  · rw [if_neg (not_not.mpr hlen)]
    refine Steps.hash ((word_eq_nil s).mpr hlen) ⟨rfl, rfl, rfl, rfl⟩ ?_
    refine h.next rfl h.filled (fun _ => hfirst) (fun hl => ?_) rfl
    rw [show _ = false from hlast] at hl
    cases hl
  · rw [if_pos hlen]
    exact Steps.hashInWord fun hword => hlen ((word_eq_nil s).mp hword)

section Plain

variable (h : Reads buf size s (c :: rest)) (hmode : modeOf s = Mode.plain)
include h hmode

theorem Reads.plain_open (hspace : c ≠ chSpace) (hsemicolon : c ≠ chSemicolon) :
    s.firstQuote = false ∧ s.lastQuote = false := by
  have hclosed := (modeOf_eq_plain.mp hmode).2
  have hlast : s.lastQuote = false := by
    cases hl : s.lastQuote with
    | false => rfl
    | true =>
        rcases (h.closed hl).2 with hhead | hhead
        · exact absurd (Option.some.inj hhead) hsemicolon
        · exact absurd (Option.some.inj hhead) hspace
  refine ⟨?_, hlast⟩
  unfold Scan.inQuotes at hclosed
  rw [hlast] at hclosed
  simpa using hclosed

theorem Reads.steps_space :
    Steps buf size s (Lexeme.space :: lexemes Mode.plain (some c) rest)
      (Turn.next (s.endOption.advance 1)) := by
  have hcomment := (modeOf_eq_plain.mp hmode).1
  obtain ⟨hp, hcomment', hfirst, hlast, hlen, hq, hargs, htype, hopts⟩ := endOption_fields s
  have hword : (s.optionLen ≠ 0) = (s.word ≠ []) := propext (not_congr (word_eq_nil s).symm)
  refine Steps.space ⟨word_of_empty hlen, ?_, congrArg argsOf htype, congrArg argsOf hopts⟩ ?_
  · simp only [← hword]
    exact hargs
  · refine h.next (congrArg (· + 1) hp) (hlen.trans hq.symm) (fun _ => hfirst) (fun hl => ?_) ?_
    · rw [show (s.endOption.advance 1).lastQuote = false from hlast] at hl
      cases hl
    · refine modeOf_eq_plain.mpr ⟨hcomment'.trans hcomment, ?_⟩
      unfold Scan.inQuotes
      rw [show (s.endOption.advance 1).firstQuote = false from hfirst]
      rfl

theorem Reads.steps_open (hfirst : s.firstQuote = false) (hlast : s.lastQuote = false) :
    Steps buf size s (Lexeme.blank :: lexemes Mode.quoted (some c) rest)
      (scanQuote buf size s) := by
  have hcomment := (modeOf_eq_plain.mp hmode).1
  unfold scanQuote
  rw [hfirst, if_neg Bool.false_ne_true]
  refine Steps.blank ⟨rfl, rfl, rfl, rfl⟩ ?_
  refine h.next rfl h.filled (fun hc => ?_) (fun hl => ?_) ?_
  · rw [show _ = false from hcomment] at hc
    cases hc
  · rw [show _ = false from hlast] at hl
    cases hl
  · exact modeOf_eq_quoted.mpr ⟨hcomment, rfl, hlast⟩

theorem Reads.steps_newline :
    Steps buf size s
      (if rest = [] then [lastNewline (prevOf buf s)]
      else Lexeme.blank :: lexemes Mode.plain (some c) rest)
      (scanNewline buf size s) := by
  have hcomment := (modeOf_eq_plain.mp hmode).1
  have hend := h.ahead.rest_nil
  have hgoes : Steps buf size s (Lexeme.blank :: lexemes Mode.plain (some c) rest)
      (Turn.next ({ s with
        line := cInt (s.line + 1)
        firstQuote := false
        lastQuote := false
        comment := false }.advance 1)) := by
    refine Steps.blank ⟨rfl, rfl, rfl, rfl⟩ ?_
    exact h.next rfl h.filled (fun hc => nomatch hc) (fun hl => nomatch hl) rfl
  unfold scanNewline
  dsimp only
  by_cases hrest : rest = []
  · have hp : s.p + 1 = size := hend.mpr hrest
    rw [if_pos hrest]
    unfold prevOf
    by_cases hzero : s.p = 0
    · rw [if_pos hzero, if_pos ⟨hp, hzero⟩]
      exact Steps.beyond
    · rw [if_neg hzero, if_neg fun hlone => hzero hlone.2]
      dsimp only [lastNewline]
      by_cases hsemicolon : buf (s.p - 1) = chSemicolon
      · rw [if_pos hsemicolon, if_neg fun hopen => hopen.2.1 hsemicolon]
        rw [hrest, lexemes.eq_def] at hgoes
        exact hgoes
      · rw [if_neg hsemicolon, if_pos ⟨hp, hsemicolon, hcomment⟩]
        exact Steps.stop
  · rw [if_neg hrest, if_neg fun hlone => hrest (hend.mp hlone.1),
      if_neg fun hopen => hrest (hend.mp hopen.1)]
    exact hgoes

theorem Reads.steps_semicolon :
    Steps buf size s (Lexeme.semicolon :: lexemes Mode.plain (some c) rest)
      (scanSemicolon s) := by
  have hcomment := (modeOf_eq_plain.mp hmode).1
  have hargs : s.lastOption.args = s.args ++ [s.word] := by
    unfold Scan.lastOption
    dsimp only [Scan.zeroOption]
    by_cases hlen : s.optionLen = 0
    · rw [if_neg (not_not.mpr hlen), (word_eq_nil s).mpr hlen]
    · rw [if_pos hlen]
  have hlength : (s.args ++ [s.word]).length = s.args.length + 1 := List.length_append
  have hmode' {t : Scan} (hc : t.comment = s.comment) (hfirst : t.firstQuote = false) :
      modeOf t = Mode.plain := by
    refine modeOf_eq_plain.mpr ⟨hc.trans hcomment, ?_⟩
    unfold Scan.inQuotes
    rw [hfirst]
    rfl
  unfold scanSemicolon
  dsimp only
  rw [hargs]
  by_cases hnone : s.args = []
  · rw [hnone, if_neg (by simp), if_neg (by simp)]
    exact Steps.fewWords hnone
  have hpos := List.length_pos_iff.mpr hnone
  by_cases hthree : 3 ≤ (s.args ++ [s.word]).length
  · rw [if_pos hthree]
    refine Steps.semicolon hnone ⟨word_of_empty rfl, rfl, ?_, ?_⟩ ?_
    · rw [typesOf_singleton, if_neg (by omega), List.append_nil]
      rfl
    · rw [optsOf_singleton, if_pos hthree, ← hargs]
      exact List.map_append
    · exact h.next rfl rfl (fun _ => rfl) (fun hl => nomatch hl) (hmode' rfl rfl)
  · have htwo : (s.args ++ [s.word]).length = 2 := by omega
    rw [if_neg hthree, if_pos htwo]
    refine Steps.semicolon hnone ⟨word_of_empty rfl, rfl, ?_, ?_⟩ ?_
    · rw [typesOf_singleton, if_pos htwo, ← hargs]
      exact List.map_append
    · rw [optsOf_singleton, if_neg hthree, List.append_nil]
      rfl
    · exact h.next rfl rfl (fun _ => rfl) (fun hl => nomatch hl) (hmode' rfl rfl)

theorem Reads.steps_plain :
    Steps buf size s (lexemes Mode.plain (prevOf buf s) (c :: rest)) (scanByte buf size s) := by
  obtain ⟨hcomment, hclosed⟩ := modeOf_eq_plain.mp hmode
  rw [lexemes.eq_def]
  dsimp only
  by_cases hreturn : c = chReturn
  · have hopen := h.plain_open hmode (by rw [hreturn]; decide) (by rw [hreturn]; decide)
    rw [if_pos hreturn]
    subst hreturn
    rw [h.turn_return hcomment]
    exact Steps.blank (kept_advance s 1) (h.kept hopen.2 hmode)
  rw [if_neg hreturn, h.turn hcomment hreturn]
  simp only [hclosed, Bool.false_eq_true, if_false]
  by_cases hspace : c = chSpace
  · rw [if_pos hspace, if_pos hspace]
    exact h.steps_space hmode
  rw [if_neg hspace, if_neg hspace]
  by_cases hsemicolon : c = chSemicolon
  · subst hsemicolon
    exact h.steps_semicolon hmode
  obtain ⟨hfirst, hlast⟩ := h.plain_open hmode hspace hsemicolon
  by_cases hbackslash : c = chBackslash
  · rw [if_pos hbackslash, if_pos hbackslash]
    exact h.steps_escape hcomment hlast hmode
  rw [if_neg hbackslash, if_neg hbackslash]
  by_cases hquote : c = chQuote
  · rw [if_pos hquote, if_pos hquote]
    exact h.steps_open hmode hfirst hlast
  rw [if_neg hquote, if_neg hquote]
  by_cases hhash : c = chHash
  · rw [if_pos hhash, if_pos hhash]
    exact h.steps_hash hfirst hlast
  rw [if_neg hhash, if_neg hhash]
  by_cases hnewline : c = chNewline
  · rw [if_pos hnewline, if_pos hnewline]
    exact h.steps_newline hmode
  · rw [if_neg hnewline, if_neg hnewline, if_neg hsemicolon, if_neg hsemicolon]
    exact h.steps_put hlast hmode

end Plain

theorem Reads.steps (h : Reads buf size s (c :: rest)) :
    Steps buf size s (lexemes (modeOf s) (prevOf buf s) (c :: rest)) (scanByte buf size s) := by
  cases hmode : modeOf s with
  | comment => exact h.steps_comment _ hmode
  | quoted => exact h.steps_quoted _ hmode
  | plain => exact h.steps_plain hmode

theorem At.steps {l : Lexeme} (h : At buf size s (l :: ls)) :
    Steps buf size s (l :: ls) (scanByte buf size s) := by
  obtain ⟨text, hreads, hlexemes⟩ := h
  cases text with
  | nil =>
      rw [lexemes.eq_def] at hlexemes
      cases hlexemes
  | cons c rest =>
      rw [← hlexemes]
      exact hreads.steps

theorem At.ends (h : At buf size s []) :
    scanByte buf size s = Turn.done (Scanned.complete s) := by
  obtain ⟨text, hreads, hlexemes⟩ := h
  cases text with
  | nil => exact scanByte_end (Nat.le_of_eq hreads.ahead.inside.symm)
  | cons c rest =>
      have hsteps := hreads.steps
      rw [hlexemes] at hsteps
      cases hsteps

theorem start_at (option buf : Mem) (size : Nat) :
    At buf size (scanStart option) (textLexemes (load buf 0 size)) := by
  refine ⟨load buf 0 size, ⟨⟨?_, ?_⟩, rfl, (fun hc => nomatch hc), fun hl => nomatch hl⟩, rfl⟩
  · rw [load_length]
    exact Nat.zero_add size
  · rw [load_length]
    rfl

/-!
## The whole loop
-/

def scanFrom (buf : Mem) (size : Nat) (s : Scan) : Scanned :=
  loop (fun s => size - s.p) (scanByte buf size) Scanned.complete s

theorem scanFrom_next (h : scanByte buf size s = Turn.next t) :
    scanFrom buf size s = scanFrom buf size t :=
  loop_next (scanByte_lowers buf size) _ trivial h

theorem scanFrom_done {r : Scanned} (h : scanByte buf size s = Turn.done r) :
    scanFrom buf size s = r :=
  loop_done _ h

end Conf
end NgxEpoll
