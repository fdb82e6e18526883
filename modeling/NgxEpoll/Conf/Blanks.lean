import NgxEpoll.Conf.Objects

/-!
# Blanks between directives

A text is a sequence of directives with spaces, blank lines and comment lines in front
of, between and behind them.

## Texts
-/

namespace NgxEpoll
namespace Conf

open Foundation NgxEpoll.Core

def scanToLast (text : List Byte) : Option Scan :=
  loop (fun s => text.length - s.p)
    (fun s =>
      if text.length ≤ s.p + 1 then Turn.done (some s)
      else
        match scanByte (asMem text) text.length s with
        | Turn.next s' => Turn.next s'
        | Turn.done _ => Turn.done none)
    (fun _ => none) (scanStart scratch)

/-- The last byte is a semicolon that ends a directive, and no directive is before. -/
def Ends (text : List Byte) (s : Scan) : Prop :=
  text[s.p]? = some chSemicolon ∧ s.comment = false ∧ s.inQuotes = false ∧
    s.arrType = [] ∧ s.arrOpts = []

instance (text : List Byte) (s : Scan) : Decidable (Ends text s) :=
  inferInstanceAs (Decidable (_ ∧ _))

structure Complete where
  text : List Byte
  ends : ((scanToLast text).any fun s => Ends text s) = true

def Complete.words (d : Complete) : List (List Byte) :=
  (scanToLast d.text).elim [] fun s => s.lastOption.args

inductive Blank where
  | space
  | newline
  | comment (body : List Byte) (plain : chNewline ∉ body)

def Blank.text : Blank -> List Byte
  | space => [chSpace]
  | newline => [chNewline]
  | comment body _ => chHash :: (body ++ [chNewline])

def blankText (gap : List Blank) : List Byte :=
  gap.flatMap Blank.text

structure Text where
  lead : List Blank
  parts : List (Complete × List Blank)

namespace Text

def directives (t : Text) : List Complete :=
  t.parts.map Prod.fst

def bytes (t : Text) : List Byte :=
  blankText t.lead ++ t.parts.flatMap fun part => part.1.text ++ blankText part.2

def words (t : Text) : List (List (List Byte)) :=
  t.directives.map Complete.words

def last (t : Text) : List Blank :=
  (t.parts.getLast?.map Prod.snd).getD t.lead

/-- At the end of the text no line is blank: a newline there follows a comment or is
the one behind the last directive. -/
def EndsWell (t : Text) : Prop :=
  t.last.getLast? = some Blank.newline -> t.parts ≠ [] ∧ t.last = [Blank.newline]

/-- The text is not empty, and no line is blank at the end. -/
def Readable (t : Text) : Prop :=
  t.bytes ≠ [] ∧ t.EndsWell

def Kept (t : Text) : Prop :=
  forall args, args ∈ t.words -> 2 ≤ args.length

end Text

def typesOf (words : List (List (List Byte))) : List (List (List Byte)) :=
  words.filter fun args => args.length = 2

def optsOf (words : List (List (List Byte))) : List (List (List Byte)) :=
  words.filter fun args => 3 ≤ args.length

theorem typesOf_singleton (args : List (List Byte)) :
    typesOf [args] = if args.length = 2 then [args] else [] := by
  simp [typesOf, List.filter_cons]

theorem optsOf_singleton (args : List (List Byte)) :
    optsOf [args] = if 3 ≤ args.length then [args] else [] := by
  simp [optsOf, List.filter_cons]

/-- The words of the directives that the loop of `conf_parse_buf` leaves, if it does not
end with an error. -/
def tokens (option buf : Mem) (size : Nat) :
    Option (List (List (List Byte)) × List (List (List Byte))) :=
  if size = 0 then none
  else
    match scanBuf option buf size with
    | Scanned.complete s => some (argsOf s.arrType, argsOf s.arrOpts)
    | _ => none

/-!
## Scans that are alike

A directive is scanned inside of a text as it is by itself.
-/

/-- A scan of a directive by itself, and one inside of a text from `off` on, with the
directives before. -/
structure Alike (off : Nat) (types opts : List (List (List Byte))) (s t : Scan) :
    Prop where
  p : t.p = off + s.p
  comment : t.comment = s.comment
  firstQuote : t.firstQuote = s.firstQuote
  lastQuote : t.lastQuote = s.lastQuote
  filled : s.optionLen = s.q
  optionLen : t.optionLen = s.optionLen
  q : t.q = s.q
  word : t.word = s.word
  args : t.args = s.args
  arrType : argsOf t.arrType = types ++ argsOf s.arrType
  arrOpts : argsOf t.arrOpts = opts ++ argsOf s.arrOpts

/-- Where the one turn goes on, the other does so too. -/
def Follows (off : Nat) (types opts : List (List (List Byte)))
    (r r' : Turn Scan Scanned) : Prop :=
  forall s', r = Turn.next s' ->
    exists t', r' = Turn.next t' ∧ Alike off types opts s' t'

variable {off size : Nat} {types opts : List (List (List Byte))} {s t : Scan} {buf : Mem}
variable {text : List Byte} {c : Byte}

theorem Alike.inQuotes (h : Alike off types opts s t) : t.inQuotes = s.inQuotes := by
  unfold Scan.inQuotes
  rw [h.firstQuote, h.lastQuote]

theorem follows_next {s' t' : Scan} (h : Alike off types opts s' t') :
    Follows off types opts (Turn.next s') (Turn.next t') := by
  intro s'' heq
  cases heq
  exact ⟨t', rfl, h⟩

theorem follows_done (r : Scanned) (r' : Turn Scan Scanned) :
    Follows off types opts (Turn.done r) r' := by
  intro s' heq
  cases heq

theorem follows_ite {p : Prop} [Decidable p] {r r' u u' : Turn Scan Scanned}
    (hpos : Follows off types opts r r') (hneg : Follows off types opts u u') :
    Follows off types opts (if p then r else u) (if p then r' else u') := by
  by_cases hp : p
  · rw [if_pos hp, if_pos hp]
    exact hpos
  · rw [if_neg hp, if_neg hp]
    exact hneg

theorem Alike.advance (h : Alike off types opts s t) (n : Nat) :
    Alike off types opts (s.advance n) (t.advance n) :=
  { h with
    p := by
      rw [advance_p, advance_p, h.p]
      omega }

theorem Alike.put (h : Alike off types opts s t) {s' : Scan} (hput : s.put c = some s') :
    exists t', t.put c = some t' ∧ Alike off types opts s' t' := by
  have hword := put_word h.filled hput
  obtain ⟨hroom, rfl⟩ := put_eq_some hput
  have hroom' : t.q < confMaxOptionS + 1 := by
    rw [h.q]
    exact hroom
  have hput' : t.put c = some _ := if_pos hroom'
  refine ⟨_, hput', ?_⟩
  have hfilled' : t.optionLen = t.q := by
    rw [h.optionLen, h.q]
    exact h.filled
  constructor
  case word => rw [put_word hfilled' hput', hword, h.word]
  case p => exact h.p
  case comment => exact h.comment
  case firstQuote => exact h.firstQuote
  case lastQuote => exact h.lastQuote
  case filled => exact congrArg (· + 1) h.filled
  case optionLen => exact congrArg (· + 1) h.optionLen
  case q => exact congrArg (· + 1) h.q
  case args => exact h.args
  case arrType => exact h.arrType
  case arrOpts => exact h.arrOpts

theorem Alike.afterPut (h : Alike off types opts s t) (c : Byte) (n : Nat) :
    Follows off types opts (afterPut (s.put c) n) (afterPut (t.put c) n) := by
  cases hput : s.put c with
  | none => exact follows_done _ _
  | some s' =>
      obtain ⟨t', hput', h'⟩ := h.put hput
      rw [hput']
      exact follows_next (h'.advance n)

theorem Alike.afterPutTwo (h : Alike off types opts s t) (c d : Byte) (n : Nat) :
    Follows off types opts (Conf.afterPut ((s.put c).bind fun s => s.put d) n)
      (Conf.afterPut ((t.put c).bind fun t => t.put d) n) := by
  cases hput : s.put c with
  | none => exact follows_done _ _
  | some s' =>
      obtain ⟨t', hput', h'⟩ := h.put hput
      rw [hput', Option.bind_some, Option.bind_some]
      exact h'.afterPut d n

theorem Alike.endOption (h : Alike off types opts s t) :
    Alike off types opts s.endOption t.endOption := by
  obtain ⟨hp, hcomment, hfirst, hlast, hlen, hq, hargs, htype, hopts⟩ := endOption_fields s
  obtain ⟨hp', hcomment', hfirst', hlast', hlen', hq', hargs', htype', hopts'⟩ :=
    endOption_fields t
  constructor
  · rw [hp, hp', h.p]
  · rw [hcomment, hcomment', h.comment]
  · rw [hfirst, hfirst']
  · rw [hlast, hlast']
  · rw [hlen, hq]
  · rw [hlen, hlen']
  · rw [hq, hq']
  · rw [word_of_empty hlen, word_of_empty hlen']
  · rw [hargs, hargs', h.optionLen, h.args, h.word]
  · rw [htype, htype', h.arrType]
  · rw [hopts, hopts', h.arrOpts]

theorem Alike.lastOption (h : Alike off types opts s t) :
    Alike off types opts s.lastOption t.lastOption where
  p := h.p
  comment := h.comment
  firstQuote := h.firstQuote
  lastQuote := h.lastQuote
  filled := rfl
  optionLen := rfl
  q := rfl
  word := rfl
  args := by
    dsimp only [Scan.lastOption, Scan.zeroOption]
    rw [h.optionLen, h.word, h.args]
  arrType := h.arrType
  arrOpts := h.arrOpts

structure Within (buf : Mem) (size off : Nat) (text : List Byte) : Prop where
  inside : off + text.length ≤ size
  load : load buf off text.length = text

theorem Within.byte (h : Within buf size off text) {i : Nat} (hi : i < text.length) :
    buf (off + i) = asMem text i := by
  have hget := load_getElem? buf off text.length i
  rw [h.load, if_pos hi] at hget
  unfold asMem
  rw [List.getD_eq_getElem?_getD, hget]
  rfl

theorem Alike.scanEscape (h : Alike off types opts s t) (hin : Within buf size off text)
    (hs : s.p + 1 < text.length) :
    Follows off types opts (scanEscape (asMem text) text.length s)
      (scanEscape buf size t) := by
  have hroom := hin.inside
  have hbyte : buf (t.p + 1) = asMem text (s.p + 1) := by
    rw [h.p]
    exact hin.byte hs
  have hlt : t.p + 1 < size := by
    rw [h.p]
    omega
  unfold Conf.scanEscape
  rw [if_pos hs, if_pos hlt]
  dsimp only
  rw [hbyte]
  refine follows_ite (follows_next (h.advance 2)) ?_
  exact follows_ite (h.afterPut _ 2) (h.afterPutTwo _ _ 2)

theorem Alike.scanQuote (h : Alike off types opts s t) (hin : Within buf size off text)
    (hs : s.p + 1 < text.length) :
    Follows off types opts (scanQuote (asMem text) text.length s) (scanQuote buf size t) := by
  have hroom := hin.inside
  have hbyte : buf (t.p + 1) = asMem text (s.p + 1) := by
    rw [h.p]
    exact hin.byte hs
  have hend : t.p + 1 ≠ size := by
    rw [h.p]
    omega
  unfold Conf.scanQuote
  rw [h.firstQuote, hbyte]
  simp only [hend, Nat.ne_of_lt hs, false_or]
  split
  · split
    · exact follows_done _ _
    · refine follows_next (Alike.advance ?_ 1)
      exact { h with firstQuote := rfl, lastQuote := rfl }
  · refine follows_next (Alike.advance ?_ 1)
    exact { h with firstQuote := rfl }

theorem Alike.scanHash (h : Alike off types opts s t) :
    Follows off types opts (scanHash s) (scanHash t) := by
  unfold Conf.scanHash
  by_cases hlen : s.optionLen ≠ 0
  · rw [if_pos hlen]
    exact follows_done _ _
  · have hlen' : ¬ t.optionLen ≠ 0 := by
      rw [h.optionLen]
      exact hlen
    rw [if_neg hlen, if_neg hlen']
    refine follows_next (Alike.advance ?_ 1)
    exact { h with comment := rfl }

theorem Alike.scanNewline (h : Alike off types opts s t) (hin : Within buf size off text)
    (hs : s.p + 1 < text.length) :
    Follows off types opts (scanNewline (asMem text) text.length s)
      (scanNewline buf size t) := by
  have hroom := hin.inside
  have hend : t.p + 1 ≠ size := by
    rw [h.p]
    omega
  unfold Conf.scanNewline
  simp only [hend, Nat.ne_of_lt hs, false_and, if_false]
  refine follows_next (Alike.advance ?_ 1)
  exact { h with comment := rfl, firstQuote := rfl, lastQuote := rfl }

theorem argsOf_append (confs : List ConfArgs) (conf : ConfArgs) :
    argsOf (confs ++ [conf]) = argsOf confs ++ [conf.arr] := by
  unfold argsOf
  rw [List.map_append]
  rfl

theorem Alike.scanSemicolon (h : Alike off types opts s t) :
    Follows off types opts (scanSemicolon s) (scanSemicolon t) := by
  have hlast := h.lastOption
  unfold Conf.scanSemicolon
  dsimp only
  rw [hlast.args]
  split
  · refine follows_next (Alike.advance ?_ 1)
    refine { hlast with firstQuote := rfl, lastQuote := rfl, args := rfl, arrOpts := ?_ }
    dsimp only [Scan.pushOpts, Scan.nextDirective]
    rw [argsOf_append, argsOf_append, hlast.arrOpts, hlast.args, List.append_assoc]
  split
  · refine follows_next (Alike.advance ?_ 1)
    refine { hlast with firstQuote := rfl, lastQuote := rfl, args := rfl, arrType := ?_ }
    dsimp only [Scan.pushType, Scan.nextDirective]
    rw [argsOf_append, argsOf_append, hlast.arrType, hlast.args, List.append_assoc]
  · exact follows_done _ _

theorem Alike.scanByte (h : Alike off types opts s t) (hin : Within buf size off text)
    (hs : s.p + 1 < text.length) :
    Follows off types opts (scanByte (asMem text) text.length s) (scanByte buf size t) := by
  have hroom := hin.inside
  have hbyte : buf t.p = asMem text s.p := by
    rw [h.p]
    exact hin.byte (Nat.lt_of_succ_lt hs)
  have hchar : Follows off types opts (normalChar (asMem text) s) (normalChar buf t) := by
    unfold normalChar
    rw [hbyte]
    exact h.afterPut _ 1
  have hbefore : ¬ text.length ≤ s.p := by omega
  have hbefore' : ¬ size ≤ t.p := by
    rw [h.p]
    omega
  unfold Conf.scanByte
  rw [if_neg hbefore, if_neg hbefore']
  dsimp only
  rw [hbyte, h.comment, h.inQuotes]
  refine follows_ite (follows_next (h.advance 1)) ?_
  refine follows_ite (follows_next (h.advance 1)) ?_
  refine follows_ite (follows_ite hchar (follows_next (h.endOption.advance 1))) ?_
  refine follows_ite (h.scanEscape hin hs) ?_
  refine follows_ite (h.scanQuote hin hs) ?_
  refine follows_ite (follows_ite hchar h.scanHash) ?_
  refine follows_ite (follows_ite (follows_done _ _) (h.scanNewline hin hs)) ?_
  exact follows_ite (follows_ite hchar h.scanSemicolon) hchar

/-!
## One directive
-/

/-- Between two directives, with the directives so far. -/
structure Between (off : Nat) (types opts : List (List (List Byte))) (t : Scan) : Prop where
  p : t.p = off
  comment : t.comment = false
  firstQuote : t.firstQuote = false
  lastQuote : t.lastQuote = false
  optionLen : t.optionLen = 0
  q : t.q = 0
  args : t.args = []
  arrType : argsOf t.arrType = types
  arrOpts : argsOf t.arrOpts = opts

theorem Between.alike (h : Between off types opts t) :
    Alike off types opts (scanStart scratch) t where
  p := h.p
  comment := h.comment
  firstQuote := h.firstQuote
  lastQuote := h.lastQuote
  filled := rfl
  optionLen := h.optionLen
  q := h.q
  word := word_of_empty h.optionLen
  args := h.args
  arrType := h.arrType.trans (List.append_nil _).symm
  arrOpts := h.arrOpts.trans (List.append_nil _).symm

theorem Alike.scanToLast (h : Alike off types opts (scanStart scratch) t)
    (hin : Within buf size off text) {last : Scan} (hscan : scanToLast text = some last) :
    text.length ≤ last.p + 1 ∧ exists t', Turns (Conf.scanByte buf size) t t' ∧
      Alike off types opts last t' := by
  unfold Conf.scanToLast at hscan
  revert hscan
  refine loop_keeps _ (fun s => exists t', Turns (Conf.scanByte buf size) t t' ∧
      Alike off types opts s t')
    (fun r => r = some last -> text.length ≤ last.p + 1 ∧ exists t',
      Turns (Conf.scanByte buf size) t t' ∧ Alike off types opts last t')
    ?_ ?_ ?_ ⟨t, Turns.refl t, h⟩
  · rintro s s' ⟨t', hturns, halike⟩ hturn
    split at hturn
    · cases hturn
    rename_i hs
    split at hturn
    · rename_i next hnext
      cases hturn
      obtain ⟨t'', hturn', halike'⟩ := halike.scanByte hin (Nat.lt_of_not_le hs) _ hnext
      exact ⟨t'', hturns.trans (Turns.one hturn'), halike'⟩
    · cases hturn
  · rintro s r ⟨t', hturns, halike⟩ hdone rfl
    split at hdone
    · rename_i hs
      cases hdone
      exact ⟨hs, t', hturns, halike⟩
    · split at hdone
      · cases hdone
      · cases hdone
  · intro s _ hstuck
    cases hstuck

theorem Complete.ends_some (d : Complete) :
    exists last, scanToLast d.text = some last ∧ Ends d.text last ∧
      last.lastOption.args = d.words := by
  have hends := d.ends
  unfold Complete.words
  cases hscan : scanToLast d.text with
  | none =>
      rw [hscan] at hends
      cases hends
  | some last =>
      rw [hscan] at hends
      exact ⟨last, rfl, of_decide_eq_true hends, rfl⟩

theorem scanByte_outside (hlt : t.p < size) (hcomment : t.comment = false)
    (hquotes : t.inQuotes = false) (hbyte : buf t.p = c) (hc : c ≠ chReturn) :
    Conf.scanByte buf size t =
      if c = chSpace then Turn.next (t.endOption.advance 1)
      else if c = chBackslash then scanEscape buf size t
      else if c = chQuote then scanQuote buf size t
      else if c = chHash then scanHash t
      else if c = chNewline then scanNewline buf size t
      else if c = chSemicolon then scanSemicolon t
      else normalChar buf t := by
  rw [scanByte_plain hlt (fun h => Bool.false_ne_true (hcomment.symm.trans h.1)) hbyte hc,
    hquotes]
  simp only [Bool.false_eq_true, if_false]

theorem Complete.turns (d : Complete) (h : Between off types opts t)
    (hin : Within buf size off d.text) :
    exists t', Turns (scanByte buf size) t t' ∧ scanByte buf size t' = scanSemicolon t' ∧
      t'.p + 1 = off + d.text.length ∧ buf t'.p = chSemicolon ∧ t'.comment = false ∧
      t'.lastOption.args = d.words ∧ argsOf t'.arrType = types ∧
      argsOf t'.arrOpts = opts := by
  obtain ⟨last, hscan, ⟨hbyte, hcomment, hquotes, htype, hopts⟩, hwords⟩ := d.ends_some
  obtain ⟨hend, t', hturns, halike⟩ := h.alike.scanToLast hin hscan
  have hlt : last.p < d.text.length := (List.getElem?_eq_some_iff.mp hbyte).1
  have hroom := hin.inside
  have hp := halike.p
  have hsemicolon : buf t'.p = chSemicolon := by
    rw [hp, hin.byte hlt]
    unfold asMem
    rw [List.getD_eq_getElem?_getD, hbyte]
    rfl
  have hcomment' : t'.comment = false := halike.comment.trans hcomment
  refine ⟨t', hturns, ?_, by omega, hsemicolon, hcomment', ?_, ?_, ?_⟩
  · rw [scanByte_outside (by omega) hcomment' (halike.inQuotes.trans hquotes) hsemicolon
      (by decide), if_neg (by decide), if_neg (by decide), if_neg (by decide),
      if_neg (by decide), if_neg (by decide), if_pos rfl]
  · rw [halike.lastOption.args, hwords]
  · rw [halike.arrType, htype]
    exact List.append_nil _
  · rw [halike.arrOpts, hopts]
    exact List.append_nil _

theorem Complete.text_pos (d : Complete) : 0 < d.text.length := by
  obtain ⟨last, -, hends, -⟩ := d.ends_some
  exact Nat.zero_lt_of_lt (List.getElem?_eq_some_iff.mp hends.1).1

theorem Complete.kept (d : Complete) (h : Between off types opts t)
    (hin : Within buf size off d.text) (htwo : 2 ≤ d.words.length) :
    buf (off + d.text.length - 1) = chSemicolon ∧
      exists t', Turns (scanByte buf size) t t' ∧
        Between (off + d.text.length) (types ++ typesOf [d.words])
          (opts ++ optsOf [d.words]) t' := by
  obtain ⟨t', hturns, hbyte, hp, hsemicolon, hcomment, hargs, htype, hopts⟩ := d.turns h hin
  have hlast : off + d.text.length - 1 = t'.p := by omega
  refine ⟨hlast ▸ hsemicolon, ?_⟩
  unfold scanSemicolon at hbyte
  dsimp only at hbyte
  rw [hargs] at hbyte
  rw [typesOf_singleton, optsOf_singleton]
  by_cases hthree : 3 ≤ d.words.length
  · rw [if_pos hthree] at hbyte
    rw [if_neg (by omega), if_pos hthree, List.append_nil]
    refine ⟨_, hturns.trans (Turns.one hbyte), hp, hcomment, rfl, rfl, rfl, rfl, rfl, htype,
      ?_⟩
    refine (argsOf_append _ _).trans ?_
    dsimp only
    rw [hargs]
    exact congrArg (· ++ [d.words]) hopts
  · have heq : d.words.length = 2 := by omega
    rw [if_neg hthree, if_pos heq] at hbyte
    rw [if_pos heq, if_neg hthree, List.append_nil]
    refine ⟨_, hturns.trans (Turns.one hbyte), hp, hcomment, rfl, rfl, rfl, rfl, rfl, ?_,
      hopts⟩
    refine (argsOf_append _ _).trans ?_
    dsimp only
    rw [hargs]
    exact congrArg (· ++ [d.words]) htype

/-- From this state on the loop ends without a result. -/
def Stops (buf : Mem) (size : Nat) (t : Scan) : Prop :=
  exists t' r, Turns (scanByte buf size) t t' ∧ scanByte buf size t' = Turn.done r ∧
    forall s, r ≠ Scanned.complete s

theorem Stops.after {t' : Scan} (hturns : Turns (scanByte buf size) t t')
    (h : Stops buf size t') : Stops buf size t := by
  obtain ⟨t'', r, hturns', hdone⟩ := h
  exact ⟨t'', r, hturns.trans hturns', hdone⟩

theorem Complete.refused (d : Complete) (h : Between off types opts t)
    (hin : Within buf size off d.text) (hwords : d.words.length < 2) :
    Stops buf size t := by
  obtain ⟨t', hturns, hbyte, -, -, -, hargs, -⟩ := d.turns h hin
  unfold scanSemicolon at hbyte
  dsimp only at hbyte
  rw [hargs, if_neg (by omega), if_neg (by omega)] at hbyte
  exact ⟨t', _, hturns, hbyte, fun s => nofun⟩

/-!
## Blanks
-/

theorem Within.append {xs ys : List Byte} (h : Within buf size off (xs ++ ys)) :
    Within buf size off xs ∧ Within buf size (off + xs.length) ys := by
  have hinside := h.inside
  rw [List.length_append] at hinside
  obtain ⟨hxs, hys⟩ := (load_eq_append_iff List.length_append).mp h.load
  exact ⟨⟨by omega, hxs⟩, ⟨by omega, hys⟩⟩

theorem Within.head {rest : List Byte} (h : Within buf size off (c :: rest)) :
    off < size ∧ buf off = c := by
  have hinside := h.inside
  have hload := h.load
  rw [List.length_cons] at hinside
  rw [List.length_cons, load_succ] at hload
  exact ⟨by omega, (List.cons.inj hload).1⟩

theorem Within.tail {rest : List Byte} (h : Within buf size off (c :: rest)) :
    Within buf size (off + 1) rest := by
  have hsplit : Within buf size off ([c] ++ rest) := h
  exact hsplit.append.2

theorem Between.inQuotes (h : Between off types opts t) : t.inQuotes = false := by
  unfold Scan.inQuotes
  rw [h.firstQuote]
  rfl

theorem Between.space (h : Between off types opts t)
    (hin : Within buf size off [chSpace]) :
    exists t', Turns (scanByte buf size) t t' ∧ Between (off + 1) types opts t' := by
  obtain ⟨hlt, hbyte⟩ := hin.head
  obtain ⟨hp, hcomment, hfirst, hlast, hlen, hq, hargs, htype, hopts⟩ := endOption_fields t
  rw [← h.p] at hlt hbyte
  refine ⟨t.endOption.advance 1, Turns.one ?_, ?_⟩
  · rw [scanByte_outside hlt h.comment h.inQuotes hbyte (by decide), if_pos rfl]
  constructor
  · exact congrArg (· + 1) (hp.trans h.p)
  · exact hcomment.trans h.comment
  · exact hfirst
  · exact hlast
  · exact hlen
  · exact hq
  · refine hargs.trans ?_
    rw [if_neg (not_not.mpr h.optionLen), h.args]
  · exact (congrArg argsOf htype).trans h.arrType
  · exact (congrArg argsOf hopts).trans h.arrOpts

theorem scanByte_newline (hlt : t.p < size) (hquotes : t.inQuotes = false)
    (hbyte : buf t.p = chNewline) : scanByte buf size t = scanNewline buf size t := by
  rw [scanByte_plain hlt (fun h => h.2 rfl) hbyte (by decide), hquotes, if_neg (by decide),
    if_neg (by decide), if_neg (by decide), if_neg (by decide), if_pos rfl,
    if_neg Bool.false_ne_true]

theorem Between.turn_newline (h : Between off types opts t)
    (hin : Within buf size off [chNewline]) :
    scanByte buf size t = scanNewline buf size t := by
  obtain ⟨hlt, hbyte⟩ := hin.head
  rw [← h.p] at hlt hbyte
  exact scanByte_newline hlt h.inQuotes hbyte

theorem Between.newline (h : Between off types opts t)
    (hin : Within buf size off [chNewline])
    (hmore : off + 1 = size -> 0 < off ∧ buf (off - 1) = chSemicolon) :
    exists t', Turns (scanByte buf size) t t' ∧ Between (off + 1) types opts t' := by
  have hbyte := h.turn_newline hin
  unfold scanNewline at hbyte
  dsimp only at hbyte
  have hzero : ¬ (t.p + 1 = size ∧ t.p = 0) := by
    rw [h.p]
    exact fun hend => Nat.ne_of_gt (hmore hend.1).1 hend.2
  have hblank : ¬ (t.p + 1 = size ∧ buf (t.p - 1) ≠ chSemicolon ∧ t.comment = false) := by
    rw [h.p]
    exact fun hend => hend.2.1 (hmore hend.1).2
  rw [if_neg hzero, if_neg hblank] at hbyte
  exact ⟨_, Turns.one hbyte, congrArg (· + 1) h.p, rfl, rfl, rfl, h.optionLen, h.q, h.args,
    h.arrType, h.arrOpts⟩

theorem Between.newline_stops (h : Between off types opts t)
    (hin : Within buf size off [chNewline]) (hend : off + 1 = size)
    (hbefore : 0 < off -> buf (off - 1) ≠ chSemicolon) : Stops buf size t := by
  have hbyte := h.turn_newline hin
  unfold scanNewline at hbyte
  dsimp only at hbyte
  rw [h.p] at hbyte
  by_cases hzero : off = 0
  · rw [if_pos ⟨hend, hzero⟩] at hbyte
    exact ⟨t, _, Turns.refl t, hbyte, fun s => nofun⟩
  · rw [if_neg fun h => hzero h.2,
      if_pos ⟨hend, hbefore (Nat.pos_of_ne_zero hzero), h.comment⟩] at hbyte
    exact ⟨t, _, Turns.refl t, hbyte, fun s => nofun⟩

theorem comment_turns {body : List Byte} (hcomment : t.comment = true)
    (hplain : chNewline ∉ body) (hin : Within buf size t.p body) :
    Turns (scanByte buf size) t (t.advance body.length) := by
  induction body generalizing t with
  | nil => exact Turns.refl t
  | cons c body ih =>
      obtain ⟨hlt, hbyte⟩ := hin.head
      rw [List.mem_cons, not_or] at hplain
      have hturn : scanByte buf size t = Turn.next (t.advance 1) := by
        unfold Conf.scanByte
        rw [if_neg (Nat.not_le_of_lt hlt)]
        dsimp only
        rw [hbyte]
        exact if_pos ⟨hcomment, Ne.symm hplain.1⟩
      have hrest := ih (t := t.advance 1) hcomment hplain.2 hin.tail
      have heq : (t.advance 1).advance body.length = t.advance (c :: body).length := by
        unfold Scan.advance
        dsimp only
        rw [List.length_cons, Nat.add_assoc, Nat.add_comm 1]
      rw [← heq]
      exact (Turns.one hturn).trans hrest

theorem Between.commentLine {body : List Byte} (h : Between off types opts t)
    (hplain : chNewline ∉ body)
    (hin : Within buf size off (chHash :: (body ++ [chNewline]))) :
    exists t', Turns (scanByte buf size) t t' ∧
      Between (off + (chHash :: (body ++ [chNewline])).length) types opts t' := by
  obtain ⟨hlt, hbyte⟩ := hin.head
  obtain ⟨hbody, hnewline⟩ := hin.tail.append
  obtain ⟨hlt', hbyte'⟩ := hnewline.head
  rw [← h.p] at hlt hbyte hbody hlt' hbyte'
  have hopen : scanByte buf size t = Turn.next ({ t with comment := true }.advance 1) := by
    rw [scanByte_outside hlt h.comment h.inQuotes hbyte (by decide), if_neg (by decide),
      if_neg (by decide), if_neg (by decide), if_pos rfl]
    unfold scanHash
    exact if_neg (not_not.mpr h.optionLen)
  have hskip := comment_turns (t := { t with comment := true }.advance 1) rfl hplain hbody
  generalize hu : ({ t with comment := true }.advance 1).advance body.length = u at hskip
  have hp : u.p = t.p + 1 + body.length := by rw [← hu]; rfl
  have hcomment : u.comment = true := by rw [← hu]; rfl
  have hquotes : u.inQuotes = false := by rw [← hu]; exact h.inQuotes
  have hclose := scanByte_newline (hp ▸ hlt') hquotes (hp ▸ hbyte')
  unfold scanNewline at hclose
  dsimp only at hclose
  have hline : ¬ (u.p + 1 = size ∧ buf (u.p - 1) ≠ chSemicolon ∧ u.comment = false) := by
    rw [hcomment]
    exact fun hend => Bool.noConfusion hend.2.2
  rw [if_neg (by omega), if_neg hline] at hclose
  refine ⟨_, (Turns.one hopen).trans (hskip.trans (Turns.one hclose)), ?_⟩
  subst hu
  refine ⟨?_, rfl, rfl, rfl, h.optionLen, h.q, h.args, h.arrType, h.arrOpts⟩
  rw [List.length_cons, List.length_append, List.length_singleton]
  change t.p + 1 + body.length + 1 = _
  rw [h.p]
  omega

theorem Blank.turns (g : Blank) (h : Between off types opts t)
    (hin : Within buf size off g.text)
    (hmore : g = Blank.newline -> off + 1 = size -> 0 < off ∧ buf (off - 1) = chSemicolon) :
    exists t', Turns (scanByte buf size) t t' ∧
      Between (off + g.text.length) types opts t' := by
  cases g with
  | space => exact h.space hin
  | newline => exact h.newline hin (hmore rfl)
  | comment body plain => exact h.commentLine plain hin

theorem Blank.text_pos (g : Blank) : 0 < g.text.length := by
  cases g with
  | space => exact Nat.one_pos
  | newline => exact Nat.one_pos
  | comment body plain => exact Nat.succ_pos _

theorem gap_turns {gap : List Blank} (h : Between off types opts t)
    (hin : Within buf size off (blankText gap))
    (hmore : off + (blankText gap).length = size -> gap.getLast? ≠ some Blank.newline) :
    exists t', Turns (scanByte buf size) t t' ∧
      Between (off + (blankText gap).length) types opts t' := by
  induction gap generalizing off t with
  | nil => exact ⟨t, Turns.refl t, h⟩
  | cons g gap ih =>
      have htext : blankText (g :: gap) = g.text ++ blankText gap := List.flatMap_cons
      rw [htext, List.length_append, ← Nat.add_assoc] at hmore ⊢
      rw [htext] at hin
      obtain ⟨hfirst, hrest⟩ := hin.append
      have hone : g = Blank.newline -> off + 1 = size ->
          0 < off ∧ buf (off - 1) = chSemicolon := by
        rintro rfl hend
        have hroom := hrest.inside
        change off + 1 + _ ≤ size at hroom
        cases gap with
        | nil => exact absurd rfl (hmore hend)
        | cons g' gap =>
            have hpos := g'.text_pos
            rw [blankText, List.flatMap_cons, List.length_append] at hroom
            omega
      obtain ⟨u, hturns, hu⟩ := g.turns h hfirst hone
      obtain ⟨u', hturns', hu'⟩ := ih hu hrest fun hend hlast => hmore hend (by
        rw [List.getLast?_cons, hlast]
        rfl)
      exact ⟨u', hturns.trans hturns', hu'⟩

theorem gap_complete {gap : List Blank} (h : Between off types opts t)
    (hin : Within buf size off (blankText gap)) (hbefore : 0 < off -> buf (off - 1) = chSemicolon)
    (hgood : gap.getLast? = some Blank.newline -> 0 < off ∧ gap = [Blank.newline]) :
    exists t', Turns (scanByte buf size) t t' ∧
      Between (off + (blankText gap).length) types opts t' := by
  by_cases hlast : gap.getLast? = some Blank.newline
  · obtain ⟨hpos, rfl⟩ := hgood hlast
    exact h.newline hin fun _ => ⟨hpos, hbefore hpos⟩
  · exact gap_turns h hin fun _ => hlast

theorem Blank.text_last (g : Blank) (hg : g.text = text ++ [c]) : c ≠ chSemicolon := by
  have hlast : g.text.getLast? = some c := by rw [hg, List.getLast?_concat]
  cases g with
  | space =>
      cases hlast
      decide
  | newline =>
      cases hlast
      decide
  | comment body plain =>
      rw [Blank.text, ← List.cons_append, List.getLast?_concat] at hlast
      cases hlast
      decide

theorem Within.before_blank {g : Blank} (h : Within buf size off g.text) :
    buf (off + g.text.length - 1) ≠ chSemicolon := by
  obtain ⟨xs, c, hg⟩ := List.eq_nil_or_concat' g.text |>.resolve_left
    (List.ne_nil_of_length_pos g.text_pos)
  rw [hg] at h
  have hbyte := h.append.2.head.2
  rw [hg, List.length_append, List.length_singleton, ← Nat.add_assoc, Nat.add_sub_cancel, hbyte]
  exact g.text_last hg

theorem gap_stops {gap : List Blank} (h : Between off types opts t)
    (hin : Within buf size off (blankText gap)) (hend : off + (blankText gap).length = size)
    (hlast : gap.getLast? = some Blank.newline)
    (hbad : ¬ (0 < off ∧ gap = [Blank.newline])) : Stops buf size t := by
  obtain ⟨init, rfl⟩ := List.getLast?_eq_some_iff.mp hlast
  have htext : blankText (init ++ [Blank.newline]) = blankText init ++ [chNewline] := by
    rw [blankText, List.flatMap_append]
    rfl
  rw [htext] at hin hend
  rw [List.length_append, List.length_singleton] at hend
  obtain ⟨hfirst, hnewline⟩ := hin.append
  obtain ⟨u, hturns, hu⟩ := gap_turns h hfirst fun hsize => by omega
  refine Stops.after hturns (hu.newline_stops hnewline (by omega) fun hpos => ?_)
  rcases init.eq_nil_or_concat' with rfl | ⟨front, g, rfl⟩
  · exact absurd ⟨hpos, rfl⟩ hbad
  · have hsplit : blankText (front ++ [g]) = blankText front ++ g.text := by
      rw [blankText, List.flatMap_append, List.flatMap_singleton]
      rfl
    rw [hsplit] at hfirst ⊢
    rw [List.length_append, ← Nat.add_assoc]
    exact hfirst.append.2.before_blank

/-!
## A text
-/

namespace Text

variable {gap gap' : List Blank} {d : Complete} {parts : List (Complete × List Blank)}

theorem bytes_nil : bytes ⟨gap, []⟩ = blankText gap :=
  List.append_nil _

theorem bytes_cons :
    bytes ⟨gap, (d, gap') :: parts⟩ = blankText gap ++ (d.text ++ bytes ⟨gap', parts⟩) := by
  simp only [bytes, List.flatMap_cons, List.append_assoc]

theorem words_cons : words ⟨gap, (d, gap') :: parts⟩ = d.words :: words ⟨gap', parts⟩ :=
  rfl

theorem kept_cons :
    Kept ⟨gap, (d, gap') :: parts⟩ ↔ 2 ≤ d.words.length ∧ Kept ⟨gap', parts⟩ :=
  List.forall_mem_cons

theorem last_cons : last ⟨gap, (d, gap') :: parts⟩ = last ⟨gap', parts⟩ := by
  unfold last
  dsimp only
  rw [List.getLast?_cons]
  cases parts.getLast? with
  | none => rfl
  | some part => rfl

end Text

theorem typesOf_cons (args : List (List Byte)) (words : List (List (List Byte))) :
    typesOf (args :: words) = typesOf [args] ++ typesOf words :=
  List.filter_append [args] words

theorem optsOf_cons (args : List (List Byte)) (words : List (List (List Byte))) :
    optsOf (args :: words) = optsOf [args] ++ optsOf words :=
  List.filter_append [args] words

variable {gap : List Blank} {parts : List (Complete × List Blank)}

theorem rest_complete (h : Between off types opts t)
    (hin : Within buf size off (Text.bytes ⟨gap, parts⟩))
    (hbefore : 0 < off -> buf (off - 1) = chSemicolon)
    (hwords : Text.Kept ⟨gap, parts⟩)
    (hgood : (Text.last ⟨gap, parts⟩).getLast? = some Blank.newline ->
      (0 < off ∨ parts ≠ []) ∧ Text.last ⟨gap, parts⟩ = [Blank.newline]) :
    exists t', Turns (scanByte buf size) t t' ∧
      Between (off + (Text.bytes ⟨gap, parts⟩).length)
        (types ++ typesOf (Text.words ⟨gap, parts⟩))
        (opts ++ optsOf (Text.words ⟨gap, parts⟩)) t' := by
  induction parts generalizing gap off types opts t with
  | nil =>
      rw [Text.bytes_nil] at hin ⊢
      obtain ⟨t', hturns, ht'⟩ := gap_complete h hin hbefore fun hlast =>
        (hgood hlast).imp_left fun hor => hor.resolve_right fun hne => hne rfl
      refine ⟨t', hturns, ?_⟩
      rw [show typesOf (Text.words ⟨gap, []⟩) = [] from rfl,
        show optsOf (Text.words ⟨gap, []⟩) = [] from rfl, List.append_nil, List.append_nil]
      exact ht'
  | cons part parts ih =>
      obtain ⟨d, gap'⟩ := part
      rw [Text.bytes_cons] at hin ⊢
      rw [Text.words_cons]
      rw [Text.kept_cons] at hwords
      rw [Text.last_cons] at hgood
      obtain ⟨hgap, hrest⟩ := hin.append
      obtain ⟨hd, hrest⟩ := hrest.append
      have hpos := d.text_pos
      have hroom := hd.inside
      obtain ⟨t1, hturns1, h1⟩ := gap_turns h hgap fun hend => by omega
      obtain ⟨hsemicolon, t2, hturns2, h2⟩ := d.kept h1 hd hwords.1
      obtain ⟨t3, hturns3, h3⟩ := ih h2 hrest (fun _ => hsemicolon) hwords.2
        (fun hlast => ⟨Or.inl (by omega), (hgood hlast).2⟩)
      refine ⟨t3, hturns1.trans (hturns2.trans hturns3), ?_⟩
      rw [typesOf_cons, optsOf_cons, List.length_append, List.length_append,
        ← List.append_assoc, ← List.append_assoc, ← Nat.add_assoc, ← Nat.add_assoc]
      exact h3

theorem rest_stops (h : Between off types opts t)
    (hin : Within buf size off (Text.bytes ⟨gap, parts⟩))
    (hend : off + (Text.bytes ⟨gap, parts⟩).length = size)
    (hbefore : 0 < off -> buf (off - 1) = chSemicolon)
    (hbad : ¬ (Text.Kept ⟨gap, parts⟩ ∧
      ((Text.last ⟨gap, parts⟩).getLast? = some Blank.newline ->
        (0 < off ∨ parts ≠ []) ∧ Text.last ⟨gap, parts⟩ = [Blank.newline]))) :
    Stops buf size t := by
  induction parts generalizing gap off types opts t with
  | nil =>
      rw [Text.bytes_nil] at hin hend
      by_cases hlast : gap.getLast? = some Blank.newline
      · refine gap_stops h hin hend hlast fun hgood => hbad ⟨nofun, fun _ => ?_⟩
        exact hgood.imp_left Or.inl
      · exact absurd ⟨nofun, fun h => absurd h hlast⟩ hbad
  | cons part parts ih =>
      obtain ⟨d, gap'⟩ := part
      rw [Text.bytes_cons] at hin hend
      rw [Text.kept_cons, Text.last_cons] at hbad
      rw [List.length_append, List.length_append, ← Nat.add_assoc, ← Nat.add_assoc] at hend
      obtain ⟨hgap, hrest⟩ := hin.append
      obtain ⟨hd, hrest⟩ := hrest.append
      have hpos := d.text_pos
      have hroom := hd.inside
      obtain ⟨t1, hturns1, h1⟩ := gap_turns h hgap fun hend => by omega
      refine Stops.after hturns1 ?_
      by_cases htwo : 2 ≤ d.words.length
      · obtain ⟨hsemicolon, t2, hturns2, h2⟩ := d.kept h1 hd htwo
        refine Stops.after hturns2 (ih h2 hrest hend (fun _ => hsemicolon) fun hgood => ?_)
        refine hbad ⟨⟨htwo, hgood.1⟩, fun hlast => ?_⟩
        exact ⟨Or.inr nofun, (hgood.2 hlast).2⟩
      · exact d.refused h1 hd (Nat.lt_of_not_le htwo)

theorem scanStart_between (option : Mem) : Between 0 [] [] (scanStart option) :=
  ⟨rfl, rfl, rfl, rfl, rfl, rfl, rfl, rfl, rfl⟩

theorem Between.complete {option : Mem} (hturns : Turns (scanByte buf size) (scanStart option) t)
    (h : Between size types opts t) : scanBuf option buf size = Scanned.complete t := by
  unfold scanBuf
  rw [loop_turns (scanByte_lowers _ _) _ hturns trivial]
  exact loop_done _ (scanByte_end (Nat.le_of_eq h.p.symm))

theorem Stops.not_complete {option : Mem} (h : Stops buf size (scanStart option)) (s : Scan) :
    scanBuf option buf size ≠ Scanned.complete s := by
  obtain ⟨t', r, hturns, hdone, hr⟩ := h
  unfold scanBuf
  rw [loop_turns (scanByte_lowers _ _) _ hturns trivial, loop_done _ hdone]
  exact hr s

def parseWords (words : List (List (List Byte))) : Option (List ConfVariable) :=
  ((typesOf words).foldlM confParseType []).bind fun vars =>
    (optsOf words).foldlM confParseOption vars

section Texts

variable {txt : Text} {option : Mem}

theorem readable_scanned (hbuf : load buf 0 txt.bytes.length = txt.bytes)
    (h : txt.Readable) (hkept : txt.Kept) :
    exists t, scanBuf option buf txt.bytes.length = Scanned.complete t ∧
      t.inQuotes = false ∧ argsOf t.arrType = typesOf txt.words ∧
      argsOf t.arrOpts = optsOf txt.words := by
  have hin : Within buf txt.bytes.length 0 txt.bytes := ⟨Nat.le_of_eq (Nat.zero_add _), hbuf⟩
  obtain ⟨t, hturns, ht⟩ := rest_complete (scanStart_between option) hin
    (fun hpos => absurd hpos (Nat.lt_irrefl 0)) hkept
    (fun hlast => (h.2 hlast).imp_left Or.inr)
  rw [Nat.zero_add, List.nil_append, List.nil_append] at ht
  exact ⟨t, ht.complete hturns, ht.inQuotes, ht.arrType, ht.arrOpts⟩

theorem refused_scanned (hbuf : load buf 0 txt.bytes.length = txt.bytes)
    (h : ¬ (txt.EndsWell ∧ txt.Kept)) (s : Scan) :
    scanBuf option buf txt.bytes.length ≠ Scanned.complete s := by
  have hin : Within buf txt.bytes.length 0 txt.bytes := ⟨Nat.le_of_eq (Nat.zero_add _), hbuf⟩
  refine (rest_stops (scanStart_between option) hin (Nat.zero_add _)
    (fun hpos => absurd hpos (Nat.lt_irrefl 0)) fun hgood => ?_).not_complete s
  refine h ⟨fun hlast => ?_, hgood.1⟩
  exact (hgood.2 hlast).imp_left fun hor => hor.resolve_left (Nat.lt_irrefl 0)

theorem readable_read (hbuf : load buf 0 txt.bytes.length = txt.bytes) (h : txt.Readable)
    (hkept : txt.Kept) :
    tokens option buf txt.bytes.length = some (typesOf txt.words, optsOf txt.words) ∧
      confParseBuf option buf txt.bytes.length = parseWords txt.words := by
  obtain ⟨t, hscan, hquotes, htype, hopts⟩ := @readable_scanned _ _ option hbuf h hkept
  have hsize : txt.bytes.length ≠ 0 := fun hzero => h.1 (List.length_eq_zero_iff.mp hzero)
  constructor
  · unfold tokens
    rw [if_neg hsize, hscan, ← htype, ← hopts]
  · unfold confParseBuf parseScanned parseWords
    rw [if_neg hsize, hscan]
    dsimp only
    rw [hquotes, htype, hopts]
    exact if_neg Bool.false_ne_true

theorem refused_read (hbuf : load buf 0 txt.bytes.length = txt.bytes)
    (h : ¬ (txt.Readable ∧ txt.Kept)) :
    tokens option buf txt.bytes.length = none ∧
      confParseBuf option buf txt.bytes.length = none := by
  unfold tokens confParseBuf
  by_cases hsize : txt.bytes.length = 0
  · rw [if_pos hsize, if_pos hsize]
    exact ⟨rfl, rfl⟩
  · have hne : txt.bytes ≠ [] := fun hnil => hsize (List.length_eq_zero_iff.mpr hnil)
    have hscan := @refused_scanned _ _ option hbuf fun hgood => h ⟨⟨hne, hgood.1⟩, hgood.2⟩
    rw [if_neg hsize, if_neg hsize]
    cases hresult : scanBuf option buf txt.bytes.length with
    | complete s => exact absurd hresult (hscan s)
    | failed line => exact ⟨rfl, rfl⟩
    | fault => exact ⟨rfl, rfl⟩

end Texts

/-- Two texts with the same directives are read alike exactly when both are readable or
neither is, or a directive of theirs is refused. -/
theorem blanks_read_iff {txt txt' : Text} (hsame : txt.directives = txt'.directives)
    {option option' buf buf' : Mem} (hbuf : load buf 0 txt.bytes.length = txt.bytes)
    (hbuf' : load buf' 0 txt'.bytes.length = txt'.bytes) :
    ((confParseBuf option buf txt.bytes.length).isSome =
        (confParseBuf option' buf' txt'.bytes.length).isSome ∧
      tokens option buf txt.bytes.length = tokens option' buf' txt'.bytes.length) ↔
      ((txt.Readable ↔ txt'.Readable) ∨ ¬ txt.Kept) := by
  have hwords : txt.words = txt'.words := congrArg (List.map Complete.words) hsame
  by_cases hkept : txt.Kept
  case neg =>
    have hkept' : ¬ txt'.Kept := fun h => hkept fun args hargs => h args (hwords ▸ hargs)
    obtain ⟨htokens, hparse⟩ := @refused_read _ _ option hbuf fun h => hkept h.2
    obtain ⟨htokens', hparse'⟩ := @refused_read _ _ option' hbuf' fun h => hkept' h.2
    rw [htokens, hparse, htokens', hparse']
    exact iff_of_true ⟨rfl, rfl⟩ (Or.inr hkept)
  have hkept' : txt'.Kept := fun args hargs => hkept args (hwords ▸ hargs)
  rw [or_iff_left (not_not.mpr hkept)]
  by_cases h : txt.Readable
  · obtain ⟨htokens, hparse⟩ := @readable_read _ _ option hbuf h hkept
    by_cases h' : txt'.Readable
    · obtain ⟨htokens', hparse'⟩ := @readable_read _ _ option' hbuf' h' hkept'
      rw [htokens, hparse, htokens', hparse', hwords]
      exact iff_of_true ⟨rfl, rfl⟩ (iff_of_true h h')
    · obtain ⟨htokens', -⟩ := @refused_read _ _ option' hbuf' fun hgood => h' hgood.1
      rw [htokens, htokens']
      exact iff_of_false nofun fun hiff => h' (hiff.mp h)
  · obtain ⟨htokens, hparse⟩ := @refused_read _ _ option hbuf fun hgood => h hgood.1
    by_cases h' : txt'.Readable
    · obtain ⟨htokens', -⟩ := @readable_read _ _ option' hbuf' h' hkept'
      rw [htokens, htokens']
      exact iff_of_false nofun fun hiff => h (hiff.mpr h')
    · obtain ⟨htokens', hparse'⟩ := @refused_read _ _ option' hbuf' fun hgood => h' hgood.1
      rw [htokens, hparse, htokens', hparse']
      exact iff_of_true ⟨rfl, rfl⟩ (iff_of_false h h')

/-!
## One directive and blanks
-/

def serverDirective : Complete :=
  ⟨ascii "Server s;", by decide +kernel⟩

def oneLine : Text :=
  ⟨[], [(serverDirective, [Blank.newline])]⟩

def commented : Text :=
  ⟨[Blank.newline, Blank.comment (ascii " objects") (by decide), Blank.space],
    [(serverDirective, [Blank.newline, Blank.space, Blank.comment [] (by decide)])]⟩

def blankAtEnd : Text :=
  ⟨[], [(serverDirective, [Blank.newline, Blank.newline])]⟩

theorem blanks_read_iff_commented :
    (confParseBuf scratch (asMem oneLine.bytes) oneLine.bytes.length).isSome =
        (confParseBuf scratch (asMem commented.bytes) commented.bytes.length).isSome ∧
      tokens scratch (asMem oneLine.bytes) oneLine.bytes.length =
        tokens scratch (asMem commented.bytes) commented.bytes.length :=
  (blanks_read_iff (show oneLine.directives = commented.directives from rfl)
    (load_asMem oneLine.bytes) (load_asMem commented.bytes)).mpr
    (Or.inl (iff_of_true ⟨by decide, fun _ => ⟨nofun, rfl⟩⟩ ⟨by decide, nofun⟩))

theorem blanks_read_at_end :
    oneLine.directives = blankAtEnd.directives ∧ oneLine.bytes = ascii "Server s;\n" ∧
      blankAtEnd.bytes = ascii "Server s;\n\n" ∧
      (parseText oneLine.bytes).isSome = true ∧
      (parseText blankAtEnd.bytes).isSome = false :=
  ⟨rfl, by decide, by decide, by decide +kernel, by decide +kernel⟩

end Conf
end NgxEpoll
