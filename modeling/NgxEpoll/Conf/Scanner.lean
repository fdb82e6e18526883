import NgxEpoll.Foundation.Loop
import NgxEpoll.Core.Types

/-!
# The scanning loop of the configuration parser

`conf_parse_buf` cuts the text of a file into directives.  Its loop goes over the
bytes with flags for comments and quotes and collects a token in a scratch buffer.
Here an array is the list of its elements, and a word is the bytes it points at.
The allocations succeed.
-/

namespace NgxEpoll
namespace Conf

open Foundation NgxEpoll.Core

def confMaxOptionS : Nat := 1024

def chSpace : Byte := 0x20
def chBackslash : Byte := 0x5c
def chQuote : Byte := 0x22
def chApostrophe : Byte := 0x27
def chHash : Byte := 0x23
def chNewline : Byte := 0x0a
def chReturn : Byte := 0x0d
def chSemicolon : Byte := 0x3b

structure ConfArgs where
  arr : List (List Byte)
  line : Int
deriving DecidableEq, Repr

/-- The variables of the loop.  `p` and `q` are offsets into the text and into the
scratch buffer `option`. -/
structure Scan where
  p : Nat
  comment : Bool
  line : Int
  firstQuote : Bool
  lastQuote : Bool
  optionLen : Nat
  q : Nat
  option : Mem
  args : List (List Byte)
  arrOpts : List ConfArgs
  arrType : List ConfArgs

/-- How the loop ends.  A `fault` is a read outside of the text or a write outside of
the scratch buffer. -/
inductive Scanned where
  | complete (s : Scan)
  | failed (line : Int)
  | fault

namespace Scan

def inQuotes (s : Scan) : Bool :=
  s.firstQuote && !s.lastQuote

def advance (s : Scan) (n : Nat) : Scan :=
  { s with p := s.p + n }

def put (s : Scan) (c : Byte) : Option Scan :=
  if s.q < confMaxOptionS + 1 then
    some { s with
      option := Function.update s.option s.q c
      q := s.q + 1
      optionLen := s.optionLen + 1 }
  else none

def word (s : Scan) : List Byte :=
  load s.option 0 s.optionLen

def zeroOption (s : Scan) : Scan :=
  { s with option := store s.option 0 (List.replicate (confMaxOptionS + 1) 0) }

/-- A space outside of quotes ends the word, if there is one. -/
def endOption (s : Scan) : Scan :=
  let s := if s.optionLen ≠ 0 then { s with args := s.args ++ [s.word] } else s
  let s := if s.option 0 ≠ 0 then s.zeroOption else s
  { s with q := 0, optionLen := 0, lastQuote := false, firstQuote := false }

def lastOption (s : Scan) : Scan :=
  let s := { s with args := s.args ++ [if s.optionLen ≠ 0 then s.word else []] }
  { s.zeroOption with q := 0, optionLen := 0 }

def pushOpts (s : Scan) : Scan :=
  { s with arrOpts := s.arrOpts ++ [ConfArgs.mk s.args s.line] }

def pushType (s : Scan) : Scan :=
  { s with arrType := s.arrType ++ [ConfArgs.mk s.args s.line] }

def nextDirective (s : Scan) : Scan :=
  { s with args := [], firstQuote := false, lastQuote := false }

end Scan

/-!
## The turns of the loop
-/

def afterPut (s : Option Scan) (n : Nat) : Turn Scan Scanned :=
  match s with
  | some s => Turn.next (s.advance n)
  | none => Turn.done Scanned.fault

def normalChar (buf : Mem) (s : Scan) : Turn Scan Scanned :=
  afterPut (s.put (buf s.p)) 1

def scanEscape (buf : Mem) (size : Nat) (s : Scan) : Turn Scan Scanned :=
  if s.p + 1 < size then
    let ch := buf (s.p + 1)
    if ch = chNewline then Turn.next (s.advance 2)
    else if ch = chQuote ∨ ch = chApostrophe then afterPut (s.put ch) 2
    else afterPut ((s.put chBackslash).bind fun s => s.put ch) 2
  else Turn.done Scanned.fault

def scanQuote (buf : Mem) (size : Nat) (s : Scan) : Turn Scan Scanned :=
  if s.firstQuote then
    if s.p + 1 = size ∨
        (buf (s.p + 1) ≠ chSemicolon ∧ buf (s.p + 1) ≠ chSpace) then
      Turn.done (Scanned.failed s.line)
    else Turn.next ({ s with lastQuote := true }.advance 1)
  else Turn.next ({ s with firstQuote := true }.advance 1)

def scanHash (s : Scan) : Turn Scan Scanned :=
  if s.optionLen ≠ 0 then Turn.done (Scanned.failed s.line)
  else Turn.next ({ s with comment := true }.advance 1)

/-- `case '\n'` outside of quotes.  At the end of the text the byte before it is
read. -/
def scanNewline (buf : Mem) (size : Nat) (s : Scan) : Turn Scan Scanned :=
  let s := { s with
    line := cInt (s.line + 1)
    firstQuote := false
    lastQuote := false }
  if s.p + 1 = size ∧ s.p = 0 then Turn.done Scanned.fault
  else if s.p + 1 = size ∧ buf (s.p - 1) ≠ chSemicolon ∧ s.comment = false then
    Turn.done (Scanned.failed s.line)
  else Turn.next ({ s with comment := false }.advance 1)

def scanSemicolon (s : Scan) : Turn Scan Scanned :=
  let s := s.lastOption
  if 3 ≤ s.args.length then Turn.next (s.pushOpts.nextDirective.advance 1)
  else if s.args.length = 2 then Turn.next (s.pushType.nextDirective.advance 1)
  else Turn.done (Scanned.failed s.line)

def scanByte (buf : Mem) (size : Nat) (s : Scan) : Turn Scan Scanned :=
  if size ≤ s.p then Turn.done (Scanned.complete s)
  else
    let ch := buf s.p
    if s.comment = true ∧ ch ≠ chNewline then Turn.next (s.advance 1)
    else if ch = chReturn then Turn.next (s.advance 1)
    else if ch = chSpace then
      if s.inQuotes then normalChar buf s else Turn.next (s.endOption.advance 1)
    else if ch = chBackslash then scanEscape buf size s
    else if ch = chQuote then scanQuote buf size s
    else if ch = chHash then
      if s.inQuotes then normalChar buf s else scanHash s
    else if ch = chNewline then
      if s.inQuotes then Turn.done (Scanned.failed s.line) else scanNewline buf size s
    else if ch = chSemicolon then
      if s.inQuotes then normalChar buf s else scanSemicolon s
    else normalChar buf s

/-- The state before the loop.  The scratch buffer is not cleared. -/
def scanStart (option : Mem) : Scan :=
  ⟨0, false, 1, false, false, 0, 0, option, [], [], []⟩

def scanBuf (option buf : Mem) (size : Nat) : Scanned :=
  loop (fun s => size - s.p) (scanByte buf size) Scanned.complete (scanStart option)

/-!
## What a turn can do
-/

/-- The changes of one turn, whatever the byte. -/
inductive Moves (s : Scan) : Scan -> Prop where
  | skip (n : Nat) (hn : 0 < n) : Moves s (s.advance n)
  | put {t : Scan} {c : Byte} (n : Nat) (hn : 0 < n) (h : s.put c = some t) :
      Moves s (t.advance n)
  | putTwo {t u : Scan} {c d : Byte} (h : s.put c = some t) (h' : t.put d = some u) :
      Moves s (u.advance 2)
  | space : Moves s (s.endOption.advance 1)
  | flags (comment firstQuote lastQuote : Bool) (line : Int) :
      Moves s ({ s with
        comment := comment
        firstQuote := firstQuote
        lastQuote := lastQuote
        line := line }.advance 1)
  | opts (h : 3 ≤ s.lastOption.args.length) :
      Moves s (s.lastOption.pushOpts.nextDirective.advance 1)
  | type (h : s.lastOption.args.length = 2) :
      Moves s (s.lastOption.pushType.nextDirective.advance 1)

/-- A turn inside of the text moves on or ends the loop without a result. -/
inductive Inside (s : Scan) : Turn Scan Scanned -> Prop where
  | moves {s' : Scan} (h : Moves s s') : Inside s (Turn.next s')
  | failed (line : Int) : Inside s (Turn.done (Scanned.failed line))
  | fault : Inside s (Turn.done Scanned.fault)

theorem normalChar_inside (buf : Mem) (s : Scan) : Inside s (normalChar buf s) := by
  unfold normalChar
  cases hput : s.put (buf s.p) with
  | none => exact Inside.fault
  | some t => exact Inside.moves (Moves.put 1 Nat.one_pos hput)

theorem scanEscape_inside (buf : Mem) (size : Nat) (s : Scan) :
    Inside s (scanEscape buf size s) := by
  unfold scanEscape
  split
  · dsimp only
    split
    · exact Inside.moves (Moves.skip 2 (by decide))
    split
    · cases hput : s.put (buf (s.p + 1)) with
      | none => exact Inside.fault
      | some t => exact Inside.moves (Moves.put 2 (by decide) hput)
    · cases hput : s.put chBackslash with
      | none => exact Inside.fault
      | some t =>
          rw [Option.bind_some]
          cases hput' : t.put (buf (s.p + 1)) with
          | none => exact Inside.fault
          | some u => exact Inside.moves (Moves.putTwo hput hput')
  · exact Inside.fault

theorem scanQuote_inside (buf : Mem) (size : Nat) (s : Scan) :
    Inside s (scanQuote buf size s) := by
  unfold scanQuote
  split
  · split
    · exact Inside.failed s.line
    · exact Inside.moves (Moves.flags s.comment s.firstQuote true s.line)
  · exact Inside.moves (Moves.flags s.comment true s.lastQuote s.line)

theorem scanHash_inside (s : Scan) : Inside s (scanHash s) := by
  unfold scanHash
  split
  · exact Inside.failed s.line
  · exact Inside.moves (Moves.flags true s.firstQuote s.lastQuote s.line)

theorem scanNewline_inside (buf : Mem) (size : Nat) (s : Scan) :
    Inside s (scanNewline buf size s) := by
  unfold scanNewline
  dsimp only
  split
  · exact Inside.fault
  split
  · exact Inside.failed _
  · exact Inside.moves (Moves.flags false false false (cInt (s.line + 1)))

theorem scanSemicolon_inside (s : Scan) : Inside s (scanSemicolon s) := by
  unfold scanSemicolon
  dsimp only
  by_cases hthree : 3 ≤ s.lastOption.args.length
  · rw [if_pos hthree]
    exact Inside.moves (Moves.opts hthree)
  · rw [if_neg hthree]
    by_cases htwo : s.lastOption.args.length = 2
    · rw [if_pos htwo]
      exact Inside.moves (Moves.type htwo)
    · rw [if_neg htwo]
      exact Inside.failed _

theorem scanByte_inside (buf : Mem) {size : Nat} {s : Scan} (hin : s.p < size) :
    Inside s (scanByte buf size s) := by
  have hchar := normalChar_inside buf s
  unfold scanByte
  rw [if_neg (Nat.not_le_of_lt hin)]
  dsimp only
  split
  · exact Inside.moves (Moves.skip 1 Nat.one_pos)
  split
  · exact Inside.moves (Moves.skip 1 Nat.one_pos)
  split
  · split
    · exact hchar
    · exact Inside.moves Moves.space
  split
  · exact scanEscape_inside buf size s
  split
  · exact scanQuote_inside buf size s
  split
  · split
    · exact hchar
    · exact scanHash_inside s
  split
  · split
    · exact Inside.failed s.line
    · exact scanNewline_inside buf size s
  split
  · split
    · exact hchar
    · exact scanSemicolon_inside s
  · exact hchar

theorem scanByte_end {buf : Mem} {size : Nat} {s : Scan} (hend : size ≤ s.p) :
    scanByte buf size s = Turn.done (Scanned.complete s) := by
  unfold scanByte
  rw [if_pos hend]

theorem scanByte_plain {buf : Mem} {size : Nat} {s : Scan} {c : Byte} (hin : s.p < size)
    (hcomment : ¬ (s.comment = true ∧ c ≠ chNewline)) (hbyte : buf s.p = c)
    (hc : c ≠ chReturn) :
    scanByte buf size s =
      if c = chSpace then
        if s.inQuotes then normalChar buf s else Turn.next (s.endOption.advance 1)
      else if c = chBackslash then scanEscape buf size s
      else if c = chQuote then scanQuote buf size s
      else if c = chHash then
        if s.inQuotes then normalChar buf s else scanHash s
      else if c = chNewline then
        if s.inQuotes then Turn.done (Scanned.failed s.line)
        else scanNewline buf size s
      else if c = chSemicolon then
        if s.inQuotes then normalChar buf s else scanSemicolon s
      else normalChar buf s := by
  unfold scanByte
  rw [if_neg (Nat.not_le_of_lt hin)]
  dsimp only
  rw [hbyte, if_neg hcomment, if_neg hc]

theorem scanByte_moves {buf : Mem} {size : Nat} {s s' : Scan}
    (h : scanByte buf size s = Turn.next s') : s.p < size ∧ Moves s s' := by
  by_cases hin : s.p < size
  · have hinside := scanByte_inside buf hin
    rw [h] at hinside
    cases hinside with
    | moves hmoves => exact ⟨hin, hmoves⟩
  · rw [scanByte_end (Nat.le_of_not_lt hin)] at h
    cases h

theorem scanByte_complete {buf : Mem} {size : Nat} {s s' : Scan}
    (h : scanByte buf size s = Turn.done (Scanned.complete s')) : s' = s := by
  by_cases hin : s.p < size
  · have hinside := scanByte_inside buf hin
    rw [h] at hinside
    cases hinside
  · rw [scanByte_end (Nat.le_of_not_lt hin)] at h
    cases h
    rfl

/-!
## Every turn goes forward
-/

@[simp] theorem advance_p (s : Scan) (n : Nat) : (s.advance n).p = s.p + n := rfl

theorem put_eq_some {s t : Scan} {c : Byte} (h : s.put c = some t) :
    s.q < confMaxOptionS + 1 ∧
      t = { s with
        option := Function.update s.option s.q c
        q := s.q + 1
        optionLen := s.optionLen + 1 } := by
  unfold Scan.put at h
  split at h
  · rename_i hroom
    exact ⟨hroom, (Option.some.inj h).symm⟩
  · cases h

theorem put_p {s t : Scan} {c : Byte} (h : s.put c = some t) : t.p = s.p := by
  rw [(put_eq_some h).2]

theorem endOption_fields (s : Scan) :
    s.endOption.p = s.p ∧ s.endOption.comment = s.comment ∧
      s.endOption.firstQuote = false ∧ s.endOption.lastQuote = false ∧
      s.endOption.optionLen = 0 ∧ s.endOption.q = 0 ∧
      s.endOption.args = (if s.optionLen ≠ 0 then s.args ++ [s.word] else s.args) ∧
      s.endOption.arrType = s.arrType ∧ s.endOption.arrOpts = s.arrOpts := by
  unfold Scan.endOption
  dsimp only
  split
  · split
    · exact ⟨rfl, rfl, rfl, rfl, rfl, rfl, rfl, rfl, rfl⟩
    · exact ⟨rfl, rfl, rfl, rfl, rfl, rfl, rfl, rfl, rfl⟩
  · split
    · exact ⟨rfl, rfl, rfl, rfl, rfl, rfl, rfl, rfl, rfl⟩
    · exact ⟨rfl, rfl, rfl, rfl, rfl, rfl, rfl, rfl, rfl⟩

theorem endOption_p (s : Scan) : s.endOption.p = s.p :=
  (endOption_fields s).1

theorem Moves.forward {s s' : Scan} (h : Moves s s') : s.p < s'.p := by
  cases h with
  | skip n hn => exact Nat.lt_add_of_pos_right hn
  | put n hn hput =>
      rw [advance_p, put_p hput]
      exact Nat.lt_add_of_pos_right hn
  | putTwo hput hput' =>
      rw [advance_p, put_p hput', put_p hput]
      exact Nat.lt_add_of_pos_right (by decide)
  | space =>
      rw [advance_p, endOption_p]
      exact Nat.lt_succ_self _
  | flags => exact Nat.lt_succ_self _
  | opts => exact Nat.lt_succ_self _
  | type => exact Nat.lt_succ_self _

theorem scanByte_lowers (buf : Mem) (size : Nat) :
    Lowers (fun _ => True) (fun s : Scan => size - s.p) (scanByte buf size) := by
  intro s s' _ h
  obtain ⟨hin, hmoves⟩ := scanByte_moves h
  exact ⟨trivial, Nat.sub_lt_sub_left hin hmoves.forward⟩

/-!
## The word in the scratch buffer
-/

theorem word_of_empty {s : Scan} (h : s.optionLen = 0) : s.word = [] := by
  unfold Scan.word
  rw [h, load_zero]

theorem put_word {s s' : Scan} {c : Byte} (hfilled : s.optionLen = s.q) (h : s.put c = some s') :
    s'.word = s.word ++ [c] := by
  obtain ⟨-, rfl⟩ := put_eq_some h
  unfold Scan.word
  dsimp only
  rw [hfilled, load_add]
  have hfirst : load (Function.update s.option s.q c) 0 s.q = load s.option 0 s.q := by
    refine (load_eq_iff_agreeOn _ _ _ _).mpr fun i _ hi => ?_
    exact Function.update_of_ne (by omega) _ _
  have hlast : load (Function.update s.option s.q c) (0 + s.q) 1 = [c] := by
    rw [Nat.zero_add, load_succ, Function.update_self, load_zero]
  rw [hfirst, hlast]

def Short (words : List (List Byte)) : Prop :=
  forall w, w ∈ words -> w.length ≤ confMaxOptionS + 1

structure Bounded (s : Scan) : Prop where
  q : s.optionLen = s.q
  room : s.q ≤ confMaxOptionS + 1
  args : Short s.args
  opts : forall conf, conf ∈ s.arrOpts -> 3 ≤ conf.arr.length ∧ Short conf.arr
  type : forall conf, conf ∈ s.arrType -> conf.arr.length = 2 ∧ Short conf.arr

theorem short_append {words : List (List Byte)} {w : List Byte} (h : Short words)
    (hw : w.length ≤ confMaxOptionS + 1) : Short (words ++ [w]) := by
  intro x hx
  cases List.mem_append.mp hx with
  | inl hold => exact h x hold
  | inr hnew => rwa [List.mem_singleton.mp hnew]

theorem Bounded.put {s t : Scan} {c : Byte} (hs : Bounded s) (h : s.put c = some t) :
    Bounded t := by
  obtain ⟨hroom, rfl⟩ := put_eq_some h
  exact ⟨congrArg (· + 1) hs.q, hroom, hs.args, hs.opts, hs.type⟩

theorem Bounded.word {s : Scan} (hs : Bounded s) : s.word.length ≤ confMaxOptionS + 1 := by
  unfold Scan.word
  rw [load_length, hs.q]
  exact hs.room

theorem Bounded.endOption {s : Scan} (hs : Bounded s) : Bounded s.endOption := by
  obtain ⟨-, -, -, -, hlen, hq, hargs, htype, hopts⟩ := endOption_fields s
  constructor
  · rw [hlen, hq]
  · rw [hq]
    exact Nat.zero_le _
  · rw [hargs]
    split
    · exact short_append hs.args hs.word
    · exact hs.args
  · rw [hopts]
    exact hs.opts
  · rw [htype]
    exact hs.type

theorem Bounded.lastOption {s : Scan} (hs : Bounded s) : Bounded s.lastOption := by
  refine ⟨rfl, Nat.zero_le _, short_append hs.args ?_, hs.opts, hs.type⟩
  split
  · exact hs.word
  · exact Nat.zero_le _

theorem Moves.bounded {s s' : Scan} (h : Moves s s') (hs : Bounded s) : Bounded s' := by
  cases h with
  | skip => exact ⟨hs.q, hs.room, hs.args, hs.opts, hs.type⟩
  | put n hn hput =>
      have ht := hs.put hput
      exact ⟨ht.q, ht.room, ht.args, ht.opts, ht.type⟩
  | putTwo hput hput' =>
      have ht := (hs.put hput).put hput'
      exact ⟨ht.q, ht.room, ht.args, ht.opts, ht.type⟩
  | space =>
      have ht := hs.endOption
      exact ⟨ht.q, ht.room, ht.args, ht.opts, ht.type⟩
  | flags => exact ⟨hs.q, hs.room, hs.args, hs.opts, hs.type⟩
  | opts hthree =>
      have ht := hs.lastOption
      refine ⟨ht.q, ht.room, fun _ hw => absurd hw List.not_mem_nil, fun conf hconf => ?_,
        ht.type⟩
      cases List.mem_append.mp hconf with
      | inl hold => exact ht.opts conf hold
      | inr hnew =>
          rw [List.mem_singleton.mp hnew]
          exact ⟨hthree, ht.args⟩
  | type htwo =>
      have ht := hs.lastOption
      refine ⟨ht.q, ht.room, fun _ hw => absurd hw List.not_mem_nil, ht.opts,
        fun conf hconf => ?_⟩
      cases List.mem_append.mp hconf with
      | inl hold => exact ht.type conf hold
      | inr hnew =>
          rw [List.mem_singleton.mp hnew]
          exact ⟨htwo, ht.args⟩

/-- The arrays at the end of the loop hold directives of the lengths that are looked
for, with words that fit into the scratch buffer. -/
theorem scanBuf_bounded {option buf : Mem} {size : Nat} {s : Scan}
    (h : scanBuf option buf size = Scanned.complete s) : Bounded s := by
  have hstart : Bounded (scanStart option) :=
    ⟨rfl, Nat.zero_le _, fun _ hw => absurd hw List.not_mem_nil,
      fun _ hconf => absurd hconf List.not_mem_nil,
      fun _ hconf => absurd hconf List.not_mem_nil⟩
  have hbounded : forall t, scanBuf option buf size = Scanned.complete t -> Bounded t := by
    refine loop_keeps _ Bounded (fun r => forall t, r = Scanned.complete t -> Bounded t)
      (fun s s' hs hturn => (scanByte_moves hturn).2.bounded hs) ?_ ?_ hstart
    · rintro s _ hs hturn t rfl
      rw [scanByte_complete hturn]
      exact hs
    · rintro s hs t ht
      cases ht
      exact hs
  exact hbounded s h

end Conf
end NgxEpoll
