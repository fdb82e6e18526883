import NgxEpoll.Conf.Scanner

/-!
# Scanning what was rendered

Directives are rendered with every token in double quotes.  The loop reads the
directives back, in order and with their lines.

## What the loop knows

A view is the state of the loop without its position and with the bytes of the
current word in place of the scratch buffer.
-/

namespace NgxEpoll
namespace Conf

open Foundation NgxEpoll.Core

structure View where
  line : Int
  firstQuote : Bool
  lastQuote : Bool
  word : List Byte
  args : List (List Byte)
  arrOpts : List ConfArgs
  arrType : List ConfArgs

/-- The loop is outside of comments, and the view is what it knows. -/
structure Shows (s : Scan) (v : View) : Prop where
  comment : s.comment = false
  line : s.line = v.line
  firstQuote : s.firstQuote = v.firstQuote
  lastQuote : s.lastQuote = v.lastQuote
  optionLen : s.optionLen = v.word.length
  q : s.q = v.word.length
  word : load s.option 0 v.word.length = v.word
  args : s.args = v.args
  arrOpts : s.arrOpts = v.arrOpts
  arrType : s.arrType = v.arrType

structure Ahead (buf : Mem) (size : Nat) (s : Scan) (text : List Byte) : Prop where
  inside : s.p + text.length = size
  text : load buf s.p text.length = text

/-- From one view and text the loop gets to another. -/
def Leads (buf : Mem) (size : Nat) (v : View) (text : List Byte) (v' : View)
    (text' : List Byte) : Prop :=
  forall s, Shows s v -> Ahead buf size s text ->
    exists s', Turns (scanByte buf size) s s' ∧ Shows s' v' ∧ Ahead buf size s' text'

variable {buf : Mem} {size : Nat} {v v' v'' : View}
variable {text text' text'' rest : List Byte} {s : Scan} {c : Byte}

theorem Leads.refl : Leads buf size v text v text :=
  fun s hs ha => ⟨s, Turns.refl s, hs, ha⟩

theorem Leads.trans (h : Leads buf size v text v' text')
    (h' : Leads buf size v' text' v'' text'') : Leads buf size v text v'' text'' := by
  intro s hs ha
  obtain ⟨s', hturns, hs', ha'⟩ := h s hs ha
  obtain ⟨s'', hturns', hs'', ha''⟩ := h' s' hs' ha'
  exact ⟨s'', hturns.trans hturns', hs'', ha''⟩

theorem Ahead.lt (h : Ahead buf size s (c :: rest)) : s.p < size := by
  have hinside := h.inside
  rw [List.length_cons] at hinside
  omega

theorem Ahead.head (h : Ahead buf size s (c :: rest)) : buf s.p = c := by
  have htext := h.text
  rw [List.length_cons, load_succ] at htext
  exact (List.cons.inj htext).1

theorem Ahead.tail (h : Ahead buf size s (c :: rest)) :
    Ahead buf size (s.advance 1) rest := by
  have hinside := h.inside
  have htext := h.text
  rw [List.length_cons] at hinside
  rw [List.length_cons, load_succ] at htext
  constructor
  · rw [advance_p]
    omega
  · exact (List.cons.inj htext).2

theorem Ahead.congr {s' : Scan} (h : Ahead buf size s text) (hp : s'.p = s.p) :
    Ahead buf size s' text := by
  constructor
  · rw [hp]
    exact h.inside
  · rw [hp]
    exact h.text

theorem Shows.scanWord (hs : Shows s v) : s.word = v.word := by
  unfold Scan.word
  rw [hs.optionLen]
  exact hs.word

/-!
## Writing to the scratch buffer
-/

def View.put (v : View) (c : Byte) : View :=
  { v with word := v.word ++ [c] }

theorem put_shows (hs : Shows s v) (hshort : v.word.length ≤ confMaxOptionS) (c : Byte) :
    exists t, s.put c = some t ∧ t.p = s.p ∧ Shows t (v.put c) := by
  have hroom : s.q < confMaxOptionS + 1 := by
    rw [hs.q]
    omega
  have hput : s.put c = some _ := if_pos hroom
  refine ⟨_, hput, rfl, ?_⟩
  have hlen : (v.word ++ [c]).length = v.word.length + 1 := by
    rw [List.length_append]
    rfl
  have hword := put_word (hs.optionLen.trans hs.q.symm) hput
  constructor
  case word =>
    rw [hs.scanWord] at hword
    simp only [View.put, hlen, ← hs.optionLen]
    exact hword
  case optionLen =>
    simp only [View.put, hlen]
    rw [hs.optionLen]
  case q =>
    simp only [View.put, hlen]
    rw [hs.q]
  case comment => exact hs.comment
  case line => exact hs.line
  case firstQuote => exact hs.firstQuote
  case lastQuote => exact hs.lastQuote
  case args => exact hs.args
  case arrOpts => exact hs.arrOpts
  case arrType => exact hs.arrType

theorem Shows.advance (hs : Shows s v) (n : Nat) : Shows (s.advance n) v :=
  ⟨hs.comment, hs.line, hs.firstQuote, hs.lastQuote, hs.optionLen, hs.q, hs.word, hs.args,
    hs.arrOpts, hs.arrType⟩

/-!
## One byte
-/

/-- The bytes that are taken literally between quotes. -/
def Literal (c : Byte) : Prop :=
  c ≠ chReturn ∧ c ≠ chBackslash ∧ c ≠ chQuote ∧ c ≠ chNewline

def View.Quoted (v : View) : Prop :=
  v.firstQuote = true ∧ v.lastQuote = false

theorem Shows.inQuotes (hs : Shows s v) (hv : v.Quoted) : s.inQuotes = true := by
  unfold Scan.inQuotes
  rw [hs.firstQuote, hs.lastQuote, hv.1, hv.2]
  rfl

theorem Shows.outside (hs : Shows s v) (hv : ¬ v.Quoted) : s.inQuotes = false := by
  unfold Scan.inQuotes
  rw [hs.firstQuote, hs.lastQuote]
  cases hf : v.firstQuote with
  | false => rfl
  | true =>
      cases hl : v.lastQuote with
      | false => exact absurd ⟨hf, hl⟩ hv
      | true => rfl

theorem scanByte_eq (hs : Shows s v) (ha : Ahead buf size s (c :: rest))
    (hc : c ≠ chReturn) :
    scanByte buf size s =
      if c = chSpace then
        if s.inQuotes then normalChar buf s else Turn.next (s.endOption.advance 1)
      else if c = chBackslash then scanEscape buf size s
      else if c = chQuote then scanQuote buf size s
      else if c = chHash then
        if s.inQuotes then normalChar buf s else scanHash s
      else if c = chNewline then
        if s.inQuotes then Turn.done (Scanned.failed s.line)
        else scanNewline buf size s
      else if c = chSemicolon then
        if s.inQuotes then normalChar buf s else scanSemicolon s
      else normalChar buf s := by
  exact scanByte_plain ha.lt (fun h => Bool.false_ne_true (hs.comment.symm.trans h.1))
    ha.head hc

theorem scanByte_literal (hs : Shows s v) (hv : v.Quoted)
    (ha : Ahead buf size s (c :: rest)) (hc : Literal c) :
    scanByte buf size s = normalChar buf s := by
  obtain ⟨hreturn, hbackslash, hquote, hnewline⟩ := hc
  rw [scanByte_eq hs ha hreturn, hs.inQuotes hv, if_neg hbackslash, if_neg hquote,
    if_neg hnewline]
  simp only [if_true, ite_self]

theorem leads_literal (hv : v.Quoted) (hshort : v.word.length ≤ confMaxOptionS)
    (hc : Literal c) : Leads buf size v (c :: rest) (v.put c) rest := by
  intro s hs ha
  obtain ⟨t, hput, hp, ht⟩ := put_shows hs hshort c
  refine ⟨t.advance 1, Turns.one ?_, ht.advance 1, (ha.congr hp).tail⟩
  rw [scanByte_literal hs hv ha hc]
  unfold normalChar
  rw [ha.head, hput]
  rfl

theorem leads_escaped (hshort : v.word.length ≤ confMaxOptionS) :
    Leads buf size v (chBackslash :: chQuote :: rest) (v.put chQuote) rest := by
  intro s hs ha
  obtain ⟨t, hput, hp, ht⟩ := put_shows hs hshort chQuote
  refine ⟨t.advance 2, Turns.one ?_, ht.advance 2, ((ha.congr hp).tail.tail).congr rfl⟩
  have hnext := ha.tail
  rw [scanByte_eq hs ha (by decide), if_neg (by decide), if_pos rfl]
  unfold scanEscape
  rw [if_pos (show s.p + 1 < size from hnext.lt)]
  dsimp only
  rw [show buf (s.p + 1) = chQuote from hnext.head, if_neg (by decide),
    if_pos (Or.inl rfl), hput]
  rfl

theorem leads_open (hv : v.firstQuote = false) :
    Leads buf size v (chQuote :: rest) { v with firstQuote := true } rest := by
  intro s hs ha
  refine ⟨{ s with firstQuote := true }.advance 1, Turns.one ?_, ?_, ha.tail.congr rfl⟩
  · rw [scanByte_eq hs ha (by decide), if_neg (by decide), if_neg (by decide), if_pos rfl]
    unfold scanQuote
    rw [hs.firstQuote, hv]
    rfl
  · exact ⟨hs.comment, hs.line, rfl, hs.lastQuote, hs.optionLen, hs.q, hs.word, hs.args,
      hs.arrOpts, hs.arrType⟩

theorem leads_close (hv : v.firstQuote = true) (hc : c = chSemicolon ∨ c = chSpace) :
    Leads buf size v (chQuote :: c :: rest) { v with lastQuote := true }
      (c :: rest) := by
  intro s hs ha
  refine ⟨{ s with lastQuote := true }.advance 1, Turns.one ?_, ?_, ha.tail.congr rfl⟩
  · have hnext := ha.tail
    have hlt : s.p + 1 < size := hnext.lt
    have hhead : buf (s.p + 1) = c := hnext.head
    rw [scanByte_eq hs ha (by decide), if_neg (by decide), if_neg (by decide), if_pos rfl]
    unfold scanQuote
    rw [hs.firstQuote, hv, if_pos rfl, if_neg ?_]
    rw [hhead]
    rintro (hend | ⟨hsemicolon, hspace⟩)
    · omega
    · exact hc.elim hsemicolon hspace
  · exact ⟨hs.comment, hs.line, hs.firstQuote, rfl, hs.optionLen, hs.q, hs.word, hs.args,
      hs.arrOpts, hs.arrType⟩

theorem Shows.optionLen_ne_zero (hs : Shows s v) (hword : v.word ≠ []) :
    s.optionLen ≠ 0 := by
  rw [hs.optionLen]
  exact fun h => hword (List.length_eq_zero_iff.mp h)

def View.endOption (v : View) : View :=
  { v with
    args := v.args ++ [v.word]
    word := []
    firstQuote := false
    lastQuote := false }

theorem leads_space (hv : ¬ v.Quoted) (hword : v.word ≠ []) :
    Leads buf size v (chSpace :: rest) v.endOption rest := by
  intro s hs ha
  have hlen := hs.optionLen_ne_zero hword
  refine ⟨s.endOption.advance 1, Turns.one ?_, ?_, ?_⟩
  · rw [scanByte_eq hs ha (by decide), if_pos rfl, hs.outside hv]
    rfl
  · refine Shows.advance ?_ 1
    unfold Scan.endOption
    dsimp only
    rw [if_pos hlen]
    split
    all_goals
      exact ⟨hs.comment, hs.line, rfl, rfl, rfl, rfl, rfl,
        by dsimp only [Scan.zeroOption, View.endOption]; rw [hs.args, hs.scanWord],
        hs.arrOpts, hs.arrType⟩
  · exact (ha.congr (endOption_p s)).tail

/-!
## The end of a directive
-/

def View.store (v : View) (conf : ConfArgs) : View :=
  { line := cInt (v.line + 1)
    firstQuote := false
    lastQuote := false
    word := []
    args := []
    arrOpts := v.arrOpts ++ if 3 ≤ conf.arr.length then [conf] else []
    arrType := v.arrType ++ if conf.arr.length = 2 then [conf] else [] }

theorem scanSemicolon_shows (hs : Shows s v) (hword : v.word ≠ [])
    (hargs : v.args ≠ []) :
    exists t, scanSemicolon s = Turn.next (t.advance 1) ∧ t.p = s.p ∧
      Shows t { v.store ⟨v.args ++ [v.word], v.line⟩ with line := v.line } := by
  have hlen := hs.optionLen_ne_zero hword
  have hlast : s.lastOption.args = v.args ++ [v.word] := by
    unfold Scan.lastOption
    dsimp only [Scan.zeroOption]
    rw [if_pos hlen, hs.args, hs.scanWord]
  have hline : s.lastOption.line = v.line := hs.line
  have hcount : 2 ≤ (v.args ++ [v.word]).length := by
    have hpos := List.length_pos_iff.mpr hargs
    rw [List.length_append, List.length_singleton]
    omega
  have hconf : ConfArgs.mk s.lastOption.args s.lastOption.line =
      ⟨v.args ++ [v.word], v.line⟩ := by
    rw [hlast, hline]
  unfold scanSemicolon
  dsimp only
  rw [hlast]
  by_cases hthree : 3 ≤ (v.args ++ [v.word]).length
  · rw [if_pos hthree]
    refine ⟨s.lastOption.pushOpts.nextDirective, rfl, rfl,
      ⟨hs.comment, hline, rfl, rfl, rfl, rfl, rfl, rfl, ?_, ?_⟩⟩
    · dsimp only [Scan.nextDirective, Scan.pushOpts, View.store]
      rw [if_pos hthree, hconf]
      exact congrArg (· ++ _) hs.arrOpts
    · dsimp only [Scan.nextDirective, Scan.pushOpts, View.store]
      rw [if_neg (by omega), List.append_nil]
      exact hs.arrType
  · have htwo : (v.args ++ [v.word]).length = 2 := by omega
    rw [if_neg hthree, if_pos htwo]
    refine ⟨s.lastOption.pushType.nextDirective, rfl, rfl,
      ⟨hs.comment, hline, rfl, rfl, rfl, rfl, rfl, rfl, ?_, ?_⟩⟩
    · dsimp only [Scan.nextDirective, Scan.pushType, View.store]
      rw [if_neg hthree, List.append_nil]
      exact hs.arrOpts
    · dsimp only [Scan.nextDirective, Scan.pushType, View.store]
      rw [if_pos htwo, hconf]
      exact congrArg (· ++ _) hs.arrType

theorem leads_semicolon (hv : ¬ v.Quoted) (hword : v.word ≠ []) (hargs : v.args ≠ []) :
    Leads buf size v (chSemicolon :: chNewline :: rest)
      (v.store ⟨v.args ++ [v.word], v.line⟩) rest := by
  intro s hs ha
  obtain ⟨t, hsemicolon, hp, ht⟩ := scanSemicolon_shows hs hword hargs
  have hturn : scanByte buf size s = Turn.next (t.advance 1) := by
    rw [scanByte_eq hs ha (by decide), if_neg (by decide), if_neg (by decide),
      if_neg (by decide), if_neg (by decide), if_neg (by decide), if_pos rfl,
      hs.outside hv]
    exact hsemicolon
  have hnext := (ha.congr hp).tail
  have hbefore : buf ((t.advance 1).p - 1) = chSemicolon := by
    rw [advance_p, hp]
    exact ha.head
  have ht' := ht.advance 1
  refine ⟨{ t.advance 1 with
      line := cInt ((t.advance 1).line + 1)
      firstQuote := false
      lastQuote := false
      comment := false }.advance 1,
    (Turns.one hturn).trans (Turns.one ?_), ?_, hnext.tail.congr rfl⟩
  · rw [scanByte_eq ht' hnext (by decide), if_neg (by decide), if_neg (by decide),
      if_neg (by decide), if_neg (by decide), if_pos rfl,
      ht'.outside (fun h => Bool.false_ne_true h.1), if_neg Bool.false_ne_true]
    unfold scanNewline
    dsimp only
    rw [if_neg (fun h => Nat.succ_ne_zero _ h.2), if_neg (fun h => h.2.1 hbefore)]
  · exact ⟨rfl, congrArg (fun l => cInt (l + 1)) ht.line, rfl, rfl, ht.optionLen, ht.q,
      ht.word, ht.args, ht.arrOpts, ht.arrType⟩

/-!
## Rendered directives
-/

structure Token where
  bytes : List Byte
  nonempty : bytes ≠ []
  short : bytes.length ≤ confMaxOptionS
  plain : forall c, c ∈ bytes -> c ≠ chBackslash ∧ c ≠ chReturn ∧ c ≠ chNewline

structure Directive where
  tokens : List Token
  two : 2 ≤ tokens.length

def escape (c : Byte) : List Byte :=
  if c = chQuote then [chBackslash, chQuote] else [c]

def Token.render (t : Token) : List Byte :=
  chQuote :: (t.bytes.flatMap escape ++ [chQuote])

def renderTokens : List Token -> List Byte
  | [] => []
  | [t] => t.render
  | t :: ts => t.render ++ chSpace :: renderTokens ts

def Directive.render (d : Directive) : List Byte :=
  renderTokens d.tokens ++ [chSemicolon, chNewline]

def render (ds : List Directive) : List Byte :=
  ds.flatMap Directive.render

def Directive.conf (d : Directive) (line : Nat) : ConfArgs :=
  ⟨d.tokens.map Token.bytes, cInt line⟩

def numbered : Nat -> List Directive -> List ConfArgs
  | _, [] => []
  | line, d :: ds => d.conf line :: numbered (line + 1) ds

theorem leads_bytes {bs : List Byte} (hv : v.Quoted)
    (hshort : v.word.length + bs.length ≤ confMaxOptionS)
    (hplain : forall c, c ∈ bs -> c ≠ chBackslash ∧ c ≠ chReturn ∧ c ≠ chNewline) :
    Leads buf size v (bs.flatMap escape ++ rest) { v with word := v.word ++ bs } rest := by
  induction bs generalizing v with
  | nil =>
      rw [List.append_nil]
      exact Leads.refl
  | cons c bs ih =>
      rw [List.length_cons] at hshort
      have hrest : Leads buf size (v.put c) (bs.flatMap escape ++ rest)
          { v with word := v.word ++ c :: bs } rest := by
        rw [List.append_cons]
        refine ih (show (v.put c).Quoted from hv) ?_ fun c' hc' =>
          hplain c' (List.mem_cons_of_mem c hc')
        simp only [View.put, List.length_append, List.length_singleton]
        omega
      have hfirst : Leads buf size v (escape c ++ (bs.flatMap escape ++ rest)) (v.put c)
          (bs.flatMap escape ++ rest) := by
        unfold escape
        split
        · rename_i hquote
          rw [hquote]
          exact leads_escaped (by omega)
        · rename_i hquote
          obtain ⟨hbackslash, hreturn, hnewline⟩ := hplain c List.mem_cons_self
          exact leads_literal hv (by omega) ⟨hreturn, hbackslash, hquote, hnewline⟩
      rw [List.flatMap_cons, List.append_assoc]
      exact hfirst.trans hrest

def View.Fresh (v : View) : Prop :=
  v.firstQuote = false ∧ v.lastQuote = false ∧ v.word = []

def View.token (v : View) (t : Token) : View :=
  { v with firstQuote := true, lastQuote := true, word := t.bytes }

theorem leads_token (hv : v.Fresh) (t : Token) (hc : c = chSemicolon ∨ c = chSpace) :
    Leads buf size v (t.render ++ c :: rest) (v.token t) (c :: rest) := by
  obtain ⟨hfirst, hlast, hword⟩ := hv
  have hopen : Leads buf size v (t.render ++ c :: rest) { v with firstQuote := true }
      (t.bytes.flatMap escape ++ chQuote :: c :: rest) := by
    rw [Token.render, List.cons_append, List.append_assoc]
    exact leads_open hfirst
  have hbytes : Leads buf size { v with firstQuote := true }
      (t.bytes.flatMap escape ++ chQuote :: c :: rest)
      { v with firstQuote := true, word := t.bytes } (chQuote :: c :: rest) := by
    have hlen : v.word.length + t.bytes.length ≤ confMaxOptionS := by
      rw [hword, List.length_nil, Nat.zero_add]
      exact t.short
    have hquoted : View.Quoted { v with firstQuote := true } := ⟨rfl, hlast⟩
    have hsame : v.word ++ t.bytes = t.bytes := by
      rw [hword, List.nil_append]
    have h := @leads_bytes buf size _ (chQuote :: c :: rest) t.bytes hquoted hlen t.plain
    dsimp only at h
    rwa [hsame] at h
  exact (hopen.trans hbytes).trans (leads_close rfl hc)

theorem leads_tokens (hv : v.Fresh) (ts : List Token) (t : Token) :
    Leads buf size v (renderTokens (ts ++ [t]) ++ chSemicolon :: rest)
      ({ v with args := v.args ++ ts.map Token.bytes }.token t) (chSemicolon :: rest) := by
  induction ts generalizing v with
  | nil =>
      rw [List.nil_append, List.map_nil, List.append_nil]
      exact leads_token hv t (Or.inl rfl)
  | cons t' ts ih =>
      have hrender : renderTokens (t' :: ts ++ [t]) =
          t'.render ++ chSpace :: renderTokens (ts ++ [t]) := by
        cases ts with
        | nil => rfl
        | cons t'' ts => rfl
      rw [hrender, List.append_assoc, List.cons_append]
      refine (leads_token hv t' (Or.inr rfl)).trans ?_
      refine (leads_space ?_ t'.nonempty).trans ?_
      · exact fun h => Bool.noConfusion h.2
      · have h : View.Fresh (v.token t').endOption := ⟨rfl, rfl, rfl⟩
        have h := @ih _ h
        simp only [View.endOption, View.token, List.append_assoc, List.singleton_append]
          at h ⊢
        rw [List.map_cons]
        exact h

def View.Start (v : View) : Prop :=
  v.Fresh ∧ v.args = []

theorem leads_directive (hv : v.Start) (d : Directive) :
    Leads buf size v (d.render ++ rest) (v.store ⟨d.tokens.map Token.bytes, v.line⟩)
      rest := by
  obtain ⟨hfresh, hargs⟩ := hv
  have htwo := d.two
  have hne : d.tokens ≠ [] := by
    intro h
    rw [h, List.length_nil] at htwo
    omega
  generalize hts : d.tokens.dropLast = ts
  generalize ht : d.tokens.getLast hne = t
  have htokens : d.tokens = ts ++ [t] := by
    rw [← hts, ← ht, List.dropLast_append_getLast hne]
  have hpos : ts ≠ [] := by
    intro h
    rw [htokens, h, List.length_append] at htwo
    exact Nat.not_succ_le_self 1 htwo
  have hmap : d.tokens.map Token.bytes = ts.map Token.bytes ++ [t.bytes] := by
    rw [htokens, List.map_append]
    rfl
  have hlast : Leads buf size v (renderTokens (ts ++ [t]) ++ chSemicolon :: chNewline :: rest)
      ({ v with args := v.args ++ ts.map Token.bytes }.token t)
      (chSemicolon :: chNewline :: rest) := leads_tokens hfresh ts t
  rw [hargs, List.nil_append] at hlast
  have hstore : Leads buf size ({ v with args := ts.map Token.bytes }.token t)
      (chSemicolon :: chNewline :: rest)
      (v.store ⟨ts.map Token.bytes ++ [t.bytes], v.line⟩) rest := by
    refine leads_semicolon ?_ t.nonempty ?_
    · exact fun h => Bool.noConfusion h.2
    · exact fun h => hpos (List.map_eq_nil_iff.mp h)
  rw [Directive.render, hmap, htokens, List.append_assoc]
  exact hlast.trans hstore

/-!
## The whole text
-/

theorem cInt_succ (n : Nat) : cInt (cInt n + 1) = cInt (n + 1 : Nat) := by
  unfold cInt
  rw [Int.bmod_add_bmod]
  rfl

def View.storeAll (v : View) (confs : List ConfArgs) : View :=
  confs.foldl View.store v

theorem View.storeAll_arrOpts (v : View) (confs : List ConfArgs) :
    (v.storeAll confs).arrOpts =
      v.arrOpts ++ confs.filter fun conf => 3 ≤ conf.arr.length := by
  induction confs generalizing v with
  | nil => exact (List.append_nil _).symm
  | cons conf confs ih =>
      rw [View.storeAll, List.foldl_cons, ← View.storeAll, ih, View.store,
        List.append_assoc, List.filter_cons]
      split <;> simp_all

theorem View.storeAll_arrType (v : View) (confs : List ConfArgs) :
    (v.storeAll confs).arrType =
      v.arrType ++ confs.filter fun conf => conf.arr.length = 2 := by
  induction confs generalizing v with
  | nil => exact (List.append_nil _).symm
  | cons conf confs ih =>
      rw [View.storeAll, List.foldl_cons, ← View.storeAll, ih, View.store,
        List.append_assoc, List.filter_cons]
      split <;> simp_all

theorem View.storeAll_start (hv : v.Start) (confs : List ConfArgs) :
    (v.storeAll confs).Start := by
  induction confs generalizing v with
  | nil => exact hv
  | cons conf confs ih => exact ih ⟨⟨rfl, rfl, rfl⟩, rfl⟩

theorem leads_render (hv : v.Start) {n : Nat} (hline : v.line = cInt n)
    (ds : List Directive) :
    Leads buf size v (render ds) (v.storeAll (numbered n ds)) [] := by
  induction ds generalizing v n with
  | nil => exact Leads.refl
  | cons d ds ih =>
      have hfirst : Leads buf size v (d.render ++ render ds) (v.store (d.conf n))
          (render ds) := by
        rw [Directive.conf, ← hline]
        exact leads_directive hv d
      have hnext : (v.store (d.conf n)).line = cInt (n + 1 : Nat) := by
        rw [← cInt_succ, ← hline]
        rfl
      exact hfirst.trans (ih ⟨⟨rfl, rfl, rfl⟩, rfl⟩ hnext)

/-- The loop reads back the directives of a rendered text: the arrays hold them in
order, with the bytes of their tokens and with their lines, and nothing is left over. -/
theorem scanBuf_render (ds : List Directive) (option buf : Mem)
    (hbuf : load buf 0 (render ds).length = render ds) :
    exists s, scanBuf option buf (render ds).length = Scanned.complete s ∧
      s.arrType = (numbered 1 ds).filter (fun conf => conf.arr.length = 2) ∧
      s.arrOpts = (numbered 1 ds).filter (fun conf => 3 ≤ conf.arr.length) ∧
      s.args = [] ∧ s.optionLen = 0 ∧ s.inQuotes = false := by
  have hstart : View.Start ⟨1, false, false, [], [], [], []⟩ := ⟨⟨rfl, rfl, rfl⟩, rfl⟩
  have hshows : Shows (scanStart option) ⟨1, false, false, [], [], [], []⟩ :=
    ⟨rfl, rfl, rfl, rfl, rfl, rfl, rfl, rfl, rfl, rfl⟩
  have hahead : Ahead buf (render ds).length (scanStart option) (render ds) :=
    ⟨Nat.zero_add _, hbuf⟩
  obtain ⟨s, hturns, hs, hend⟩ := leads_render hstart (n := 1) rfl ds _ hshows hahead
  obtain ⟨⟨hfirst, -, hword⟩, hargs⟩ := View.storeAll_start hstart (numbered 1 ds)
  refine ⟨s, ?_, ?_, ?_, ?_, ?_, ?_⟩
  · unfold scanBuf
    rw [loop_turns (scanByte_lowers _ _) _ hturns trivial]
    refine loop_done _ ?_
    unfold scanByte
    exact if_pos (Nat.le_of_eq hend.inside.symm)
  · rw [hs.arrType, View.storeAll_arrType, List.nil_append]
  · rw [hs.arrOpts, View.storeAll_arrOpts, List.nil_append]
  · rw [hs.args, hargs]
  · rw [hs.optionLen, hword]
    rfl
  · exact hs.outside fun h => Bool.noConfusion (hfirst.symm.trans h.1)

def twoDirectives : List Directive :=
  [ ⟨[⟨[0x53], by decide, by decide, by decide⟩, ⟨[0x61], by decide, by decide, by decide⟩],
      by decide⟩,
    ⟨[⟨[0x61, 0x2e, 0x62], by decide, by decide, by decide⟩,
      ⟨[0x3d], by decide, by decide, by decide⟩,
      ⟨[chQuote, chHash, chSpace, chSemicolon], by decide, by decide, by decide⟩],
      by decide⟩ ]

theorem scanBuf_render_two :
    exists s, scanBuf (fun _ => 0xff) (asMem (render twoDirectives))
        (render twoDirectives).length = Scanned.complete s ∧
      s.arrType = [⟨[[0x53], [0x61]], 1⟩] ∧
      s.arrOpts = [⟨[[0x61, 0x2e, 0x62], [0x3d],
        [chQuote, chHash, chSpace, chSemicolon]], 2⟩] := by
  obtain ⟨s, hscan, htype, hopts, -⟩ := scanBuf_render twoDirectives (fun _ => 0xff)
    (asMem (render twoDirectives)) (load_asMem _)
  exact ⟨s, hscan, htype.trans (by decide), hopts.trans (by decide)⟩

end Conf
end NgxEpoll
