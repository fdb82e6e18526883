import NgxEpoll.Strings.Pieces

/-!
# Lines of the error log

`error_log_core`, `error_log_debug_core` and `error_log_strerror` of `dfs_error_log.cpp`.
A line is put together in `errstr`, an array of fixed size.

## The buffer
-/

namespace NgxEpoll
namespace Log

open Foundation
open NgxEpoll.Core
open Strings

def dfsMaxErrorStr : Nat := 2048

def lf : Byte := 10

def ngxLinefeedSize : Nat := 1

structure ErrStr where
  bytes : List Byte
  p : Nat

def ErrStr.put (b : ErrStr) (text : List Byte) : ErrStr where
  bytes := b.bytes.take b.p ++ (text ++ b.bytes.drop (b.p + text.length))
  p := b.p + text.length

def ErrStr.room (b : ErrStr) : Nat :=
  dfsMaxErrorStr - b.p

def ErrStr.print (m : Mem) (b : ErrStr) (fmt : List Byte) (args : List (BitVec 64)) :
    Option ErrStr :=
  (stringXxvsnprintf m b.room fmt args).map fun s => b.put s.out

/-!
## The functions
-/

/-- What `strerror_r` has for a number: a text of its own, or one that it writes to the buffer
that it is given. -/
structure StrError where
  text : List Byte
  static : Bool
  filled : 0 ∉ text

def StrError.written (e : StrError) (size : Nat) : List Byte :=
  if e.static then e.text.take size ++ List.replicate (size - e.text.length) 0
  else e.text.take (size - 1) ++ [0]

/-- `error_log_strerror`, where it does not return null.  The flag says whether its loop reads
the byte behind the buffer. -/
def errorLogStrerror (b : ErrStr) (e : StrError) : Option (ErrStr × Bool) :=
  if b.room = 0 then none
  else
    -- the zero byte that is stored first is always overwritten
    let bytes := (b.put (e.written b.room)).bytes
    let text := ((bytes.drop b.p).take b.room).takeWhile (· ≠ 0)
    some ({ bytes := bytes, p := b.p + text.length }, text.length = b.room)

def errorLogErr (m : Mem) (b : ErrStr) (err : Int) (e : StrError) : Option (ErrStr × Bool) :=
  if err = 0 then some (b, false)
  else
    let b :=
      if dfsMaxErrorStr - 50 < b.p then { b with p := dfsMaxErrorStr - 50 }.put (ascii "...")
      else b
    (b.print m (ascii " (%d: \x00") [BitVec.ofInt 64 err]).bind fun b =>
      (errorLogStrerror b e).map fun r =>
        (if r.1.p < dfsMaxErrorStr then r.1.put (ascii ")") else r.1, r.2)

def errorLogEnd (b : ErrStr) : ErrStr :=
  let b :=
    if dfsMaxErrorStr - ngxLinefeedSize < b.p then
      { b with p := dfsMaxErrorStr - ngxLinefeedSize }
    else b
  b.put [lf]

structure LogCall where
  time : List Byte
  levelName : BitVec 64
  pid : Nat
  tid : BitVec 64
  file : BitVec 64
  line : Nat
  fmt : List Byte
  args : List (BitVec 64)
  err : Int
  strerror : StrError

/-- The line that `error_log_core` and `error_log_debug_core` put together; `init` is what
`errstr` holds before, and `dfslog` says whether the type of the log is `LOG_DFSLOG`. -/
def errorLogLine (m : Mem) (init : List Byte) (dfslog : Bool) (c : LogCall) :
    Option (ErrStr × Bool) :=
  let b : ErrStr := { bytes := init, p := 0 }
  let b := if dfslog then b.put (ascii "L") else b
  let b := b.put c.time
  (b.print m (ascii " [%s] \x00") [c.levelName]).bind fun b =>
    (b.print m (ascii "%P#%ud: \x00") [BitVec.ofNat 64 c.pid, c.tid]).bind fun b =>
      (b.print m (ascii "[%s:%d] \x00") [c.file, BitVec.ofNat 64 c.line]).bind fun b =>
        (b.print m c.fmt c.args).bind fun b =>
          (errorLogErr m b c.err c.strerror).map fun r => (errorLogEnd r.1, r.2)

def zeroErrStr : List Byte :=
  List.replicate dfsMaxErrorStr 0

structure LogT where
  dfslog : Bool
  logLevel : Nat
  fd : Int

/-- What a call does: `printed` has the bytes that `printf` is given, `wrote` those that
`dfs_write_fd` is given, and what it returns. -/
inductive LogEvent where
  | printed (bytes : List Byte)
  | wrote (fd : Int) (line : List Byte) (n : Int)
  | closed (fd : Int)

def LogEvent.taken : LogEvent -> List Byte
  | LogEvent.wrote _ line n => line.take n.toNat
  | _ => []

variable {m : Mem} {init : List Byte} {b : ErrStr} {w text : List Byte}

/-- The buffer holds the beginning of a text, and behind it what it held before. -/
structure Held (init : List Byte) (b : ErrStr) (w : List Byte) : Prop where
  size : init.length = dfsMaxErrorStr
  p : b.p = min w.length dfsMaxErrorStr
  bytes : b.bytes = w.take dfsMaxErrorStr ++ init.drop w.length

theorem Held.length (h : Held init b w) : b.bytes.length = dfsMaxErrorStr := by
  rw [h.bytes, List.length_append, List.length_take, List.length_drop, h.size]
  omega

theorem Held.put (h : Held init b w) (text : List Byte) :
    Held init (b.put (text.take b.room)) (w ++ text) := by
  have hp := h.p
  rcases Nat.lt_or_ge w.length dfsMaxErrorStr with hlt | hge
  case inl =>
    have hpw : b.p = w.length := hp.trans (Nat.min_eq_left (Nat.le_of_lt hlt))
    have hbytes : b.bytes = w ++ init.drop w.length := by
      rw [h.bytes, List.take_of_length_le (Nat.le_of_lt hlt)]
    unfold ErrStr.put ErrStr.room
    rw [hpw]
    constructor
    · exact h.size
    · show w.length + (text.take _).length = _
      rw [List.length_take, List.length_append]
      omega
    · show b.bytes.take w.length ++ (_ ++ b.bytes.drop _) = _
      have hdrop : init.drop (w.length + (text.take (dfsMaxErrorStr - w.length)).length) =
          init.drop (w ++ text).length := by
        rw [List.length_take, List.length_append]
        rcases Nat.le_total text.length (dfsMaxErrorStr - w.length) with hfits | hfull
        · rw [Nat.min_eq_right hfits]
        · rw [List.drop_eq_nil_of_le (by rw [h.size]; omega),
            List.drop_eq_nil_of_le (by rw [h.size]; omega)]
      rw [hbytes, List.take_left, List.drop_append, List.drop_eq_nil_of_le (Nat.le_add_right _ _),
        List.nil_append, Nat.add_sub_cancel_left, List.drop_drop, hdrop,
        take_append_take _ (Nat.le_of_lt hlt), List.append_assoc]
  case inr =>
    have hpw : b.p = dfsMaxErrorStr := hp.trans (Nat.min_eq_right hge)
    have hnone : b.put (text.take b.room) = b := by
      unfold ErrStr.put ErrStr.room
      rw [hpw, Nat.sub_self, List.take_zero, List.nil_append, List.length_nil, Nat.add_zero,
        List.take_append_drop, ← hpw]
    rw [hnone]
    constructor
    · exact h.size
    · rw [hpw, List.length_append]
      omega
    · rw [h.bytes, List.take_append_of_le_length hge, List.drop_eq_nil_of_le (by
        rw [h.size]; exact hge), List.drop_eq_nil_of_le (by
        rw [h.size, List.length_append]; omega)]

theorem Held.put_all (h : Held init b w) {text : List Byte} (hroom : text.length ≤ b.room) :
    Held init (b.put text) (w ++ text) := by
  have hput := h.put text
  rw [List.take_of_length_le hroom] at hput
  exact hput

theorem Held.back (h : Held init b w) {k : Nat} (hk : k < b.p) :
    Held b.bytes { b with p := k } (w.take k) := by
  have hp := h.p
  have hlength : (w.take k).length = k := by
    rw [List.length_take]
    omega
  have htake : b.bytes.take k = w.take k := by
    rw [h.bytes, List.take_append_of_le_length (by rw [List.length_take]; omega), List.take_take]
    congr 1
    omega
  constructor
  · exact h.length
  · show k = min (w.take k).length dfsMaxErrorStr
    omega
  · show b.bytes = _
    rw [hlength, List.take_of_length_le (by omega), ← htake, List.take_append_drop]

theorem Held.room (h : Held init b w) : b.room = dfsMaxErrorStr - w.length := by
  have hp := h.p
  unfold ErrStr.room
  omega

theorem Held.take (h : Held init b w) : b.bytes.take b.p = w.take dfsMaxErrorStr := by
  rw [h.bytes, h.p, List.take_append_of_le_length (by rw [List.length_take]; omega),
    List.take_of_length_le (by rw [List.length_take]; omega)]

/-- A format of pieces is printed to the buffer, as much of it as there is room. -/
theorem Held.print (h : Held init b w) {fmt : List Byte} {args : List (BitVec 64)}
    (hprints : Prints m fmt args text) :
    exists b', b.print m (fmt ++ [0]) args = some b' ∧ Held init b' (w ++ text) := by
  rcases @Prints.cut m fmt text [] args hprints b.room with ⟨s, hs, hout⟩
  refine ⟨b.put s.out, ?_, ?_⟩
  · unfold ErrStr.print
    rw [hs]
    rfl
  · rw [hout]
    exact h.put text

theorem Held.print_message (h : Held init b w) {fmt : List Byte} {args : List (BitVec 64)}
    {s : Print} (hs : stringXxvsnprintf m dfsMaxErrorStr fmt args = some s) :
    exists b', b.print m fmt args = some b' ∧ Held init b' (w ++ s.out) := by
  have hle : b.room ≤ dfsMaxErrorStr := Nat.sub_le _ _
  rcases xxvsnprintf_cuts m fmt args hle hs with ⟨t, ht, hout⟩
  refine ⟨b.put t.out, ?_, ?_⟩
  · unfold ErrStr.print
    rw [ht]
    rfl
  · rw [hout]
    exact h.put s.out

/-!
## The pieces of a line
-/

def intText (n : Int) : List Byte :=
  (if n < 0 then [byte '-'] else []) ++ ascii (Nat.repr n.natAbs)

def lineHead (c : LogCall) (dfslog : Bool) (name path : List Byte) : List Byte :=
  (if dfslog then ascii "L" else []) ++ c.time ++ (ascii " [" ++ (name ++ ascii "] ")) ++
    (ascii (Nat.repr c.pid) ++ (ascii "#" ++ (ascii (Nat.repr (uintArg c.tid)) ++ ascii ": "))) ++
    (ascii "[" ++ (path ++ (ascii ":" ++ (ascii (Nat.repr c.line) ++ ascii "] "))))

theorem prints_text (text : List Byte) (h : forall c, c ∈ text -> c ≠ 0 ∧ c ≠ byte '%') :
    Prints m text [] text :=
  prints_plain h

theorem padded_zero (c : Byte) (text : List Byte) : padded 0 c text = text := by
  unfold padded
  rw [Nat.zero_sub]
  rfl

theorem text_signed {d : Directive} (hsign : d.sign = true) (hwidth : d.width = 0) {n : Int}
    (hlo : -2 ^ 63 ≤ n) (hhi : n < 2 ^ 63) :
    (Number.mk d n 0).text = intText n := by
  have habs : (Number.mk d n 0).abs = n.natAbs := by
    unfold Number.abs
    dsimp only
    rw [if_pos hsign]
    split <;> omega
  unfold Number.text intText
  rw [habs]
  dsimp only
  rw [hwidth, padded_zero, hsign]
  simp only [true_and]

theorem prints_signed {c : Byte} (hc : c = byte 'd' ∨ c = byte 'P') (a : BitVec 64) :
    Prints m [byte '%', c] [a] (intText (intArg a)) := by
  have hbounds := intArg_bounds a
  have hdirective : (numberDirective [] true).width = 0 := rfl
  rw [← text_signed (d := numberDirective [] true) rfl hdirective hbounds.1 hbounds.2]
  rcases hc with hc | hc
  · subst hc
    exact @prints_number m [] (by decide) true (byte 'd') (by decide) (by decide) (by decide)
      (by decide) a _ rfl rfl
  · subst hc
    exact @prints_number m [] (by decide) true (byte 'P') (by decide) (by decide) (by decide)
      (by decide) a _ rfl rfl

theorem prints_unsigned (a : BitVec 64) :
    Prints m (ascii "%ud") [a] (ascii (Nat.repr (uintArg a))) := by
  have hprints := @prints_number m [] (by decide) false (byte 'd') (by decide) (by decide)
    (by decide) (by decide) a _ rfl rfl
  have htext : ((numberDirective [] false).fetch (intArg a) (uintArg a)).text =
      ascii (Nat.repr (uintArg a)) :=
    padded_zero _ _
  rw [htext] at hprints
  exact hprints

theorem intArg_ofInt {n : Int} (hlo : -2 ^ 31 ≤ n) (hhi : n < 2 ^ 31) :
    intArg (BitVec.ofInt 64 n) = n := by
  unfold intArg
  rw [BitVec.toInt_setWidth, BitVec.toNat_ofInt]
  unfold Int.bmod
  dsimp only
  split <;> omega

theorem intText_natCast (n : Nat) : intText n = ascii (Nat.repr n) := by
  unfold intText
  rw [if_neg (by omega)]
  rfl

theorem prints_nat {c : Byte} (hc : c = byte 'd' ∨ c = byte 'P') {n : Nat} (hn : n < 2 ^ 31) :
    Prints m [byte '%', c] [BitVec.ofNat 64 n] (ascii (Nat.repr n)) := by
  have hprints := @prints_signed m c hc (BitVec.ofNat 64 n)
  rw [← BitVec.ofInt_natCast, intArg_ofInt (by omega) (by omega), intText_natCast] at hprints
  exact hprints

theorem prints_level {p : BitVec 64} {name : List Byte} (h : Lies m p.toNat name) :
    Prints m (ascii " [%s] ") [p] (ascii " [" ++ (name ++ ascii "] ")) :=
  (prints_text (ascii " [") (by decide)).append
    ((prints_string h).append (prints_text (ascii "] ") (by decide)))

theorem prints_place {p : BitVec 64} {path : List Byte} (h : Lies m p.toNat path) {line : Nat}
    (hline : line < 2 ^ 31) :
    Prints m (ascii "[%s:%d] ") [p, BitVec.ofNat 64 line]
      (ascii "[" ++ (path ++ (ascii ":" ++ (ascii (Nat.repr line) ++ ascii "] ")))) := by
  have hend := (prints_nat (m := m) (Or.inl rfl) hline).append
    (prints_text (ascii "] ") (by decide))
  exact (prints_text (ascii "[") (by decide)).append ((prints_string h).append
    ((prints_text (ascii ":") (by decide)).append hend))

theorem prints_ids {pid : Nat} (hpid : pid < 2 ^ 31) (tid : BitVec 64) :
    Prints m (ascii "%P#%ud: ") [BitVec.ofNat 64 pid, tid]
      (ascii (Nat.repr pid) ++ (ascii "#" ++ (ascii (Nat.repr (uintArg tid)) ++ ascii ": "))) := by
  have hend := (prints_unsigned (m := m) tid).append (prints_text (ascii ": ") (by decide))
  exact (prints_nat (Or.inr rfl) hpid).append
    ((prints_text (ascii "#") (by decide)).append hend)

theorem prints_err {err : Int} (hlo : -2 ^ 31 ≤ err) (hhi : err < 2 ^ 31) :
    Prints m (ascii " (%d: ") [BitVec.ofInt 64 err]
      (ascii " (" ++ (intText err ++ ascii ": ")) := by
  have hint := @prints_signed m (byte 'd') (Or.inl rfl) (BitVec.ofInt 64 err)
  rw [intArg_ofInt hlo hhi] at hint
  exact (prints_text (ascii " (") (by decide)).append
    (hint.append (prints_text (ascii ": ") (by decide)))

theorem length_err {err : Int} (hlo : -2 ^ 31 ≤ err) (hhi : err < 2 ^ 31) :
    (ascii " (" ++ (intText err ++ ascii ": ")).length ≤ 15 := by
  have hdigits : (ascii (Nat.repr err.natAbs)).length ≤ 10 := by
    unfold ascii
    rw [List.length_map, Nat.toList_repr]
    exact (Nat.length_toDigits_le_iff (by decide) (by decide)).mpr (by omega)
  have hsign : (if err < 0 then [byte '-'] else []).length ≤ 1 := by
    split <;> decide
  unfold intText
  rw [List.length_append, List.length_append, List.length_append]
  show 2 + (_ + _ + 2) ≤ 15
  omega

/-!
## Errors
-/

theorem takeWhile_filled {xs ys : List Byte} (hfilled : 0 ∉ xs)
    (hys : ys = [] ∨ ys.head? = some 0) : (xs ++ ys).takeWhile (· ≠ 0) = xs := by
  have hall : forall x, x ∈ xs -> decide (x ≠ 0) = true :=
    fun x hx => decide_eq_true fun heq => hfilled (heq ▸ hx)
  rw [List.takeWhile_append_of_pos hall]
  have hnone : ys.takeWhile (· ≠ 0) = [] := by
    cases ys with
    | nil => rfl
    | cons y ys =>
        rcases hys with hnil | hhead
        · cases hnil
        · cases hhead
          rfl
  rw [hnone, List.append_nil]

def StrError.kept (e : StrError) (size : Nat) : List Byte :=
  e.text.take (if e.static then size else size - 1)

theorem StrError.written_eq (e : StrError) {size : Nat} (hsize : 0 < size) :
    exists zeros, e.written size = e.kept size ++ List.replicate zeros 0 ∧
      (e.kept size).length + zeros ≤ size ∧ ((e.kept size).length < size -> 0 < zeros) ∧
      ((e.kept size).length = size ↔ e.static = true ∧ size ≤ e.text.length) ∧
      (e.static = true -> (e.kept size).length + zeros = size) ∧
      (e.static = false -> zeros = 1) := by
  unfold StrError.written StrError.kept
  cases e.static with
  | true =>
      refine ⟨size - e.text.length, rfl, ?_⟩
      rw [if_pos rfl, List.length_take]
      refine ⟨by omega, by omega, ?_, fun _ => by omega, fun h => absurd h.symm Bool.false_ne_true⟩
      constructor
      · exact fun h => ⟨rfl, by omega⟩
      · exact fun h => by omega
  | false =>
      refine ⟨1, rfl, ?_⟩
      rw [if_neg Bool.false_ne_true, List.length_take]
      refine ⟨by omega, fun _ => Nat.one_pos, ?_, fun h => absurd h Bool.false_ne_true,
        fun _ => rfl⟩
      constructor
      · exact fun h => by omega
      · exact fun h => by cases h.1

/-- The buffer with the text of an error in it. -/
theorem put_written (h : Held init b w) (hroom : w.length < dfsMaxErrorStr) {e : StrError}
    {zeros : Nat}
    (hwritten : e.written b.room = e.kept b.room ++ List.replicate zeros 0)
    (hlength : (e.kept b.room).length + zeros ≤ b.room) :
    (b.put (e.written b.room)).bytes =
      w ++ (e.kept b.room ++ (List.replicate zeros 0 ++
        init.drop (w.length + ((e.kept b.room).length + zeros)))) := by
  have hsize := h.room
  have hput := @Held.put_all init b w h (e.written b.room) (by
    rw [hwritten, List.length_append, List.length_replicate]
    exact hlength)
  rw [hput.bytes, hwritten, List.take_of_length_le (by
    simp only [List.length_append, List.length_replicate]
    omega)]
  simp only [List.length_append, List.length_replicate, List.append_assoc]

/-- The text of an error is kept as far as there is room.  The loop reads behind the buffer
where a text of its own fills it. -/
theorem strerror_eq (h : Held init b w) (hroom : w.length < dfsMaxErrorStr) (e : StrError) :
    errorLogStrerror b e = some
      ({ bytes := (b.put (e.written b.room)).bytes, p := b.p + (e.kept b.room).length },
        decide (e.static = true ∧ b.room ≤ e.text.length)) := by
  have hsize := h.room
  have hpos : 0 < b.room := by omega
  have hp : b.p = w.length := by
    have hp := h.p
    omega
  rcases e.written_eq hpos with ⟨zeros, hwritten, hlength, hzeros, hfull, -, -⟩
  have htext : (((b.put (e.written b.room)).bytes.drop b.p).take b.room).takeWhile (· ≠ 0) =
      e.kept b.room := by
    rw [put_written h hroom hwritten hlength, hp, List.drop_left, take_append_take _ (by omega)]
    refine takeWhile_filled (fun hmem => e.filled (List.mem_of_mem_take hmem)) ?_
    rcases Nat.lt_or_ge (e.kept b.room).length b.room with hlt | hge
    · refine Or.inr ?_
      obtain ⟨k, hk⟩ := Nat.exists_eq_add_of_lt (hzeros hlt)
      obtain ⟨n, hn⟩ := Nat.exists_eq_add_of_lt hlt
      rw [show zeros = k + 1 by omega,
        show b.room - (e.kept b.room).length = n + 1 by omega, List.replicate_succ,
        List.cons_append, List.take_succ_cons, List.head?_cons]
    · exact Or.inl (by rw [Nat.sub_eq_zero_of_le hge, List.take_zero])
  unfold errorLogStrerror
  rw [if_neg (Nat.ne_of_gt hpos)]
  dsimp only
  rw [htext, decide_eq_decide.mpr hfull]

theorem strerror_held (h : Held init b w) (hroom : w.length < dfsMaxErrorStr) (e : StrError) :
    exists b' init', errorLogStrerror b e =
        some (b', decide (e.static = true ∧ b.room ≤ e.text.length)) ∧
      Held init' b' (w ++ e.kept b.room) ∧ (e.static = true -> init' = zeroErrStr) ∧
      (e.static = false -> forall k, w.length + e.text.length < k ->
        init'.drop k = init.drop k) := by
  have hsize := h.room
  have hpos : 0 < b.room := by omega
  have hp : b.p = w.length := by
    have hp := h.p
    omega
  have hmain := strerror_eq h hroom e
  rcases e.written_eq hpos with ⟨zeros, hwritten, hlength, hzeros, hfull, hstatic, hone⟩
  cases hcase : e.static with
  | true =>
      have hall := hstatic hcase
      refine ⟨_, zeroErrStr, by rw [hmain, hcase], ?_, fun _ => rfl,
        fun hbad => absurd hbad.symm Bool.false_ne_true⟩
      constructor
      · exact List.length_replicate
      · show b.p + _ = _
        rw [List.length_append]
        omega
      · show (b.put (e.written b.room)).bytes = _
        unfold zeroErrStr
        rw [put_written h hroom hwritten hlength, List.drop_eq_nil_of_le (by rw [h.size]; omega),
          List.append_nil, List.take_of_length_le (by rw [List.length_append]; omega),
          List.drop_replicate, List.length_append, List.append_assoc]
        congr 3
        omega
  | false =>
      have hshort : (e.kept b.room).length < b.room := by
        refine Nat.lt_of_le_of_ne (by omega) fun heq => ?_
        have hbad := (hfull.mp heq).1
        rw [hcase] at hbad
        cases hbad
      have hput := @Held.put_all init b w h (e.written b.room) (by
        rw [hwritten, List.length_append, List.length_replicate]
        exact hlength)
      have hback := hput.back (k := b.p + (e.kept b.room).length) (by
        show _ < b.p + (e.written b.room).length
        rw [hwritten, List.length_append, List.length_replicate]
        exact Nat.add_lt_add_left (Nat.lt_add_of_pos_right (hzeros hshort)) b.p)
      have htake : (w ++ e.written b.room).take (b.p + (e.kept b.room).length) =
          w ++ e.kept b.room := by
        rw [hwritten, hp, take_append_take _ (Nat.le_add_right _ _), Nat.add_sub_cancel_left,
          List.take_left]
      rw [htake] at hback
      refine ⟨_, _, by rw [hmain, hcase], hback, fun hbad => absurd hbad Bool.false_ne_true,
        fun _ k hk => ?_⟩
      -- only the zero byte was written behind the text
      have hlast : w.length + (e.written b.room).length ≤ k := by
        have hkept : (e.kept b.room).length ≤ e.text.length :=
          (List.take_prefix _ _).length_le
        rw [hwritten, List.length_append, List.length_replicate, hone hcase]
        omega
      have hfits : w.length + (e.written b.room).length ≤ dfsMaxErrorStr := by
        rw [hwritten, List.length_append, List.length_replicate]
        omega
      rw [hput.bytes, List.take_of_length_le (by rw [List.length_append]; exact hfits),
        List.drop_append, List.drop_eq_nil_of_le (by rw [List.length_append]; exact hlast),
        List.nil_append, List.drop_drop, List.length_append, Nat.add_sub_cancel' hlast]

/-- What the code makes of a text for a line, before it is cut: a long one gives way to the
error. -/
def withErr (w : List Byte) (err : Int) : List Byte :=
  (if dfsMaxErrorStr - 50 < w.length then w.take (dfsMaxErrorStr - 50) ++ ascii "..." else w) ++
    (ascii " (" ++ (intText err ++ ascii ": "))

def wholeLine (w : List Byte) (err : Int) (e : StrError) : List Byte :=
  if err = 0 then w else withErr w err ++ (e.text ++ ascii ")")

theorem length_withErr (w : List Byte) {err : Int} (hlo : -2 ^ 31 ≤ err) (hhi : err < 2 ^ 31) :
    (withErr w err).length ≤ dfsMaxErrorStr - 32 := by
  have herr := length_err hlo hhi
  have hhead : (if dfsMaxErrorStr - 50 < w.length then
      w.take (dfsMaxErrorStr - 50) ++ ascii "..." else w).length ≤ dfsMaxErrorStr - 47 := by
    split
    next hlong =>
      rw [List.length_append, List.length_take]
      show min (2048 - 50) _ + 3 ≤ 2048 - 47
      omega
    next hshort =>
      unfold dfsMaxErrorStr at hshort ⊢
      omega
  unfold withErr
  rw [List.length_append]
  unfold dfsMaxErrorStr at hhead ⊢
  omega

theorem err_held (h : Held init b w) {err : Int} (hlo : -2 ^ 31 ≤ err) (hhi : err < 2 ^ 31) :
    exists b' init',
      (if dfsMaxErrorStr - 50 < b.p then { b with p := dfsMaxErrorStr - 50 }.put (ascii "...")
        else b).print m (ascii " (%d: \x00") [BitVec.ofInt 64 err] = some b' ∧
      Held init' b' (withErr w err) ∧
      forall k, (withErr w err).length ≤ k -> init'.drop k = b.bytes.drop k := by
  have hp := h.p
  have hmax : dfsMaxErrorStr = 2048 := rfl
  have hprints := @prints_err m err hlo hhi
  unfold withErr
  by_cases hlong : dfsMaxErrorStr - 50 < w.length
  · have hlong' : dfsMaxErrorStr - 50 < b.p := by omega
    rw [if_pos hlong, if_pos hlong']
    have hback := h.back hlong'
    have hdots := @Held.put_all _ _ _ hback (ascii "...") (by
      show 3 ≤ dfsMaxErrorStr - (dfsMaxErrorStr - 50)
      decide)
    rcases hdots.print hprints with ⟨b', hb', hheld⟩
    exact ⟨b', _, hb', hheld, fun _ _ => rfl⟩
  · have hshort : ¬ dfsMaxErrorStr - 50 < b.p := by omega
    rw [if_neg hlong, if_neg hshort]
    rcases h.print hprints with ⟨b', hb', hheld⟩
    refine ⟨b', _, hb', hheld, fun k hk => ?_⟩
    have hle : w.length ≤ k := by
      rw [List.length_append] at hk
      exact Nat.le_trans (Nat.le_add_right _ _) hk
    rw [h.bytes, List.take_of_length_le (by omega), List.drop_append,
      List.drop_eq_nil_of_le hle, List.nil_append, List.drop_drop, Nat.add_sub_cancel' hle]

def lineRoom : Nat :=
  dfsMaxErrorStr - ngxLinefeedSize

theorem errorLogErr_held (h : Held init b w) {err : Int} (hlo : -2 ^ 31 ≤ err)
    (hhi : err < 2 ^ 31) (e : StrError) :
    exists b' init' w', errorLogErr m b err e = some (b', decide (err ≠ 0 ∧ e.static = true ∧
        dfsMaxErrorStr ≤ (withErr w err).length + e.text.length)) ∧
      Held init' b' w' ∧ w'.take lineRoom = (wholeLine w err e).take lineRoom ∧
      (init = zeroErrStr -> err = 0 ∨ e.static = true -> init' = zeroErrStr) ∧
      (err ≠ 0 -> e.static = false -> forall k, (wholeLine w err e).length ≤ k ->
        init'.drop k = b.bytes.drop k) := by
  have hmax : dfsMaxErrorStr = 2048 := rfl
  have hline : lineRoom = 2047 := rfl
  unfold errorLogErr wholeLine
  by_cases hzero : err = 0
  · rw [if_pos hzero, if_pos hzero]
    refine ⟨b, init, w, ?_, h, rfl, fun hinit _ => hinit, fun hbad => absurd hzero hbad⟩
    rw [decide_eq_false (fun hbad => hbad.1 hzero)]
  · rw [if_neg hzero, if_neg hzero]
    rcases err_held (m := m) h hlo hhi with ⟨b₁, init₁, hprint, hheld, hbehind⟩
    have hlength := length_withErr w hlo hhi
    have hroom := hheld.room
    rcases strerror_held hheld (by omega) e with
      ⟨b₂, init₂, hstrerror, hheld₂, hstatic, hstale⟩
    dsimp only
    rw [hprint, Option.bind_some, hstrerror, Option.map_some]
    have hflag : decide (e.static = true ∧ b₁.room ≤ e.text.length) = decide (err ≠ 0 ∧
        e.static = true ∧ dfsMaxErrorStr ≤ (withErr w err).length + e.text.length) := by
      rw [decide_eq_decide]
      constructor
      · exact fun hover => ⟨hzero, hover.1, by omega⟩
      · exact fun hover => ⟨hover.2.1, by omega⟩
    have hkept : (withErr w err ++ e.kept b₁.room).take lineRoom =
        (withErr w err ++ e.text).take lineRoom := by
      unfold StrError.kept
      rw [take_append_take _ (by omega), take_append_take _ (by omega), List.take_take]
      congr 2
      split <;> omega
    have hlong : lineRoom ≤ (withErr w err ++ e.text).length ->
        (withErr w err ++ (e.text ++ ascii ")")).take lineRoom =
          (withErr w err ++ e.kept b₁.room).take lineRoom := by
      intro hle
      rw [hkept, ← List.append_assoc, List.take_append_of_le_length hle]
    have hshort : (e.kept b₁.room).length ≤ e.text.length :=
      (List.take_prefix _ _).length_le
    have hkeeps : e.static = false -> forall k,
        (withErr w err ++ (e.text ++ ascii ")")).length ≤ k -> init₂.drop k = b.bytes.drop k := by
      intro hcase k hk
      have hone : (ascii ")").length = 1 := rfl
      rw [List.length_append, List.length_append] at hk
      rw [hstale hcase k (by omega), hbehind k (by omega)]
    have hp := hheld₂.p
    rw [List.length_append] at hp hlong
    by_cases hfits : b₂.p < dfsMaxErrorStr
    · have hput := @Held.put_all _ _ _ hheld₂ (ascii ")") (by
        show 1 ≤ dfsMaxErrorStr - b₂.p
        omega)
      refine ⟨_, init₂, _, by rw [← hflag, if_pos hfits], hput, ?_, fun _ hor => ?_,
        fun _ => hkeeps⟩
      · rcases Nat.lt_or_ge (e.kept b₁.room).length e.text.length with hcut | hall
        · -- the text was cut to leave one byte
          have hone : (e.kept b₁.room).length = b₁.room - 1 := by
            have htake : (e.kept b₁.room).length =
                min (if e.static then b₁.room else b₁.room - 1) e.text.length :=
              List.length_take
            split at htake <;> omega
          rw [hlong (by omega), List.take_append_of_le_length (by
            rw [List.length_append]; omega)]
        · have hsame : e.kept b₁.room = e.text :=
            (List.take_prefix _ _).eq_of_length (Nat.le_antisymm hshort hall)
          rw [hsame, List.append_assoc]
      · exact hstatic (hor.resolve_left hzero)
    · refine ⟨_, init₂, _, by rw [← hflag, if_neg hfits], hheld₂, ?_, fun _ hor => ?_,
        fun _ => hkeeps⟩
      · exact (hlong (by omega)).symm
      · exact hstatic (hor.resolve_left hzero)

theorem errorLogEnd_held (h : Held init b w) :
    exists init', Held init' (errorLogEnd b) (w.take lineRoom ++ [lf]) ∧
      (w.length < lineRoom -> init' = init) := by
  have hp := h.p
  have hmax : dfsMaxErrorStr = 2048 := rfl
  have hline : lineRoom = 2047 := rfl
  unfold errorLogEnd
  by_cases hfull : dfsMaxErrorStr - ngxLinefeedSize < b.p
  · have hback := h.back hfull
    have hput := @Held.put_all _ _ _ hback [lf] (by
      show 1 ≤ dfsMaxErrorStr - (dfsMaxErrorStr - ngxLinefeedSize)
      decide)
    refine ⟨_, by rw [if_pos hfull]; exact hput, fun hlt => ?_⟩
    have hfull' : 2047 < b.p := hfull
    omega
  · have hle : b.p ≤ 2047 := Nat.not_lt.mp hfull
    have hput := @Held.put_all _ _ _ h [lf] (by
      show 1 ≤ dfsMaxErrorStr - b.p
      omega)
    rw [if_neg hfull, List.take_of_length_le (by omega)]
    exact ⟨init, hput, fun _ => rfl⟩

/-!
## Lines
-/

structure LogCall.Valid (m : Mem) (c : LogCall) (name path : List Byte) (message : Print) :
    Prop where
  time : c.time.length + 1 ≤ dfsMaxErrorStr
  level : Lies m c.levelName.toNat name
  file : Lies m c.file.toNat path
  pid : c.pid < 2 ^ 31
  line : c.line < 2 ^ 31
  err : -2 ^ 31 ≤ c.err ∧ c.err < 2 ^ 31
  message : stringXxvsnprintf m dfsMaxErrorStr c.fmt c.args = some message

theorem held_start (hsize : init.length = dfsMaxErrorStr) (dfslog : Bool) {time : List Byte}
    (htime : time.length + 1 ≤ dfsMaxErrorStr) :
    Held init ((if dfslog then ({ bytes := init, p := 0 } : ErrStr).put (ascii "L")
      else { bytes := init, p := 0 }).put time)
      ((if dfslog then ascii "L" else []) ++ time) := by
  have hmax : dfsMaxErrorStr = 2048 := rfl
  have hnone : Held init { bytes := init, p := 0 } [] := ⟨hsize, rfl, rfl⟩
  cases dfslog with
  | true =>
      have hone := @Held.put_all _ _ _ hnone (ascii "L") (by
        show 1 ≤ dfsMaxErrorStr - 0
        decide)
      exact hone.put_all (by
        show time.length ≤ dfsMaxErrorStr - 1
        omega)
  | false =>
      exact hnone.put_all (by
        show time.length ≤ dfsMaxErrorStr - 0
        omega)

theorem line_held (hsize : init.length = dfsMaxErrorStr) (dfslog : Bool) {c : LogCall}
    {name path : List Byte} {message : Print} (h : c.Valid m name path message) :
    let head := lineHead c dfslog name path ++ message.out
    exists (b : ErrStr) (init' w : List Byte), errorLogLine m init dfslog c =
        some (b, decide (c.err ≠ 0 ∧ c.strerror.static = true ∧
          dfsMaxErrorStr ≤ (withErr head c.err).length + c.strerror.text.length)) ∧
      Held init' b (w.take lineRoom ++ [lf]) ∧
      w.take lineRoom = (wholeLine head c.err c.strerror).take lineRoom ∧
      (w.length < lineRoom -> init = zeroErrStr -> c.err = 0 ∨ c.strerror.static = true ->
        init' = zeroErrStr) ∧
      (w.length < lineRoom -> c.err ≠ 0 -> c.strerror.static = false ->
        forall k, (wholeLine head c.err c.strerror).length ≤ k ->
          init'.drop k = (head.take dfsMaxErrorStr ++ init.drop head.length).drop k) := by
  intro head
  have hstart := held_start hsize dfslog h.time
  rcases hstart.print (prints_level h.level) with ⟨b₁, hb₁, hheld₁⟩
  rcases hheld₁.print (prints_ids h.pid c.tid) with ⟨b₂, hb₂, hheld₂⟩
  rcases hheld₂.print (prints_place h.file h.line) with ⟨b₃, hb₃, hheld₃⟩
  rcases hheld₃.print_message h.message with ⟨b₄, hb₄, hheld₄⟩
  rcases errorLogErr_held (m := m) hheld₄ h.err.1 h.err.2 c.strerror with
    ⟨b₅, init₅, w, hb₅, hheld₅, hwhole, hzero, hstale⟩
  rcases errorLogEnd_held hheld₅ with ⟨init₆, hheld₆, hkept⟩
  refine ⟨errorLogEnd b₅, init₆, w, ?_, hheld₆, hwhole, ?_, ?_⟩
  · unfold errorLogLine
    dsimp only
    rw [show ascii " [%s] \x00" = ascii " [%s] " ++ [0] from rfl, hb₁, Option.bind_some,
      show ascii "%P#%ud: \x00" = ascii "%P#%ud: " ++ [0] from rfl, hb₂, Option.bind_some,
      show ascii "[%s:%d] \x00" = ascii "[%s:%d] " ++ [0] from rfl, hb₃, Option.bind_some, hb₄,
      Option.bind_some, hb₅, Option.map_some]
    rfl
  · intro hlt hinit hor
    rw [hkept hlt, hzero hinit hor]
  · intro hlt herr hcase k hk
    have hbytes : b₄.bytes = head.take dfsMaxErrorStr ++ init.drop head.length := hheld₄.bytes
    rw [hkept hlt, ← hbytes]
    exact hstale herr hcase k hk

theorem length_line (w : List Byte) : (w.take lineRoom ++ [lf]).length ≤ dfsMaxErrorStr := by
  rw [List.length_append, List.length_take]
  exact Nat.succ_le_of_lt (Nat.lt_succ_of_le (Nat.min_le_left lineRoom w.length))

theorem zero_mem_drop {n k : Nat} (head : List Byte) (hn : 0 < n) (hk : k < head.length + n) :
    0 ∈ (head ++ List.replicate n (0 : Byte)).drop k := by
  rw [List.drop_append, List.drop_replicate]
  refine List.mem_append_right _ (List.mem_replicate.mpr ⟨?_, rfl⟩)
  omega

/-- Behind a line that does not fill the buffer, the byte that `printf` stops at is missing
exactly where a message filled the buffer before, and `strerror_r` wrote over no more than
its text. -/
theorem zero_behind {head rest : List Byte} {c : LogCall} {k : Nat}
    (hk : k < dfsMaxErrorStr)
    (hzero : c.err = 0 ∨ c.strerror.static = true -> rest = zeroErrStr.drop k)
    (hstale : c.err ≠ 0 -> c.strerror.static = false ->
      rest = (head.take dfsMaxErrorStr ++ zeroErrStr.drop head.length).drop k) :
    0 ∉ rest ↔ c.err ≠ 0 ∧ c.strerror.static = false ∧ dfsMaxErrorStr ≤ head.length ∧
      0 ∉ (head.take dfsMaxErrorStr).drop k := by
  by_cases hor : c.err = 0 ∨ c.strerror.static = true
  · have hmem : 0 ∈ rest := by
      rw [hzero hor]
      exact zero_mem_drop (n := dfsMaxErrorStr) [] (by decide) (by
      rw [List.length_nil, Nat.zero_add]
      exact hk)
    refine ⟨fun hnone => absurd hmem hnone, fun hall => ?_⟩
    rcases hor with herr | hcase
    · exact absurd herr hall.1
    · rw [hall.2.1] at hcase
      cases hcase
  · rw [not_or, Bool.not_eq_true] at hor
    rw [hstale hor.1 hor.2]
    rcases Nat.lt_or_ge head.length dfsMaxErrorStr with hlt | hge
    · have hmem : 0 ∈ (head.take dfsMaxErrorStr ++ zeroErrStr.drop head.length).drop k := by
        unfold zeroErrStr
        rw [List.take_of_length_le (Nat.le_of_lt hlt), List.drop_replicate]
        exact zero_mem_drop head (by omega) (by omega)
      exact ⟨fun hnone => absurd hmem hnone,
        fun hall => absurd hall.2.2.1 (Nat.not_le.mpr hlt)⟩
    · have hnone : zeroErrStr.drop head.length = [] := by
        unfold zeroErrStr
        rw [List.drop_replicate, Nat.sub_eq_zero_of_le hge]
        rfl
      rw [hnone, List.append_nil]
      exact ⟨fun hnone => ⟨hor.1, hor.2, hge, hnone⟩, fun hall => hall.2.2.2⟩

/-- The line that is put together is the whole line, cut to the size of the buffer with its
line feed; nothing is written behind the buffer.  The loop of `error_log_strerror` reads behind
it exactly where a text of `strerror_r` fills it.  `printf` does, in `error_log_core`, where
there is no zero byte: none in the line, and none behind it, where the line fills the buffer
or the end of a message that did is left. -/
theorem error_line_cut (hsize : init.length = dfsMaxErrorStr) (dfslog : Bool) {c : LogCall}
    {name path : List Byte} {message : Print} (h : c.Valid m name path message) :
    let head := lineHead c dfslog name path ++ message.out
    let whole := wholeLine head c.err c.strerror
    exists b past, errorLogLine m init dfslog c = some (b, past) ∧
      b.bytes.length = dfsMaxErrorStr ∧ b.p ≤ dfsMaxErrorStr ∧
      b.bytes.take b.p = whole.take lineRoom ++ [lf] ∧
      (past = true ↔ c.err ≠ 0 ∧ c.strerror.static = true ∧
        dfsMaxErrorStr ≤ (withErr head c.err).length + c.strerror.text.length) ∧
      (init = zeroErrStr ->
        (0 ∉ b.bytes ↔ 0 ∉ whole.take lineRoom ∧
          (lineRoom ≤ whole.length ∨ c.err ≠ 0 ∧ c.strerror.static = false ∧
            dfsMaxErrorStr ≤ head.length ∧
            0 ∉ (head.take dfsMaxErrorStr).drop (whole.length + 1)))) := by
  intro head whole
  rcases line_held hsize dfslog h with
    ⟨b, init', w, hline, hheld, hwhole, hzero, hstale⟩
  have hwhole : w.take lineRoom = whole.take lineRoom := hwhole
  have hstale : w.length < lineRoom -> c.err ≠ 0 -> c.strerror.static = false -> forall k,
      whole.length ≤ k ->
        init'.drop k = (head.take dfsMaxErrorStr ++ init.drop head.length).drop k := hstale
  have hlengths := congrArg List.length hwhole
  rw [List.length_take, List.length_take] at hlengths
  refine ⟨b, _, hline, hheld.length, ?_, ?_, decide_eq_true_iff, ?_⟩
  · rw [hheld.p]
    exact Nat.min_le_right _ _
  · rw [hheld.take, List.take_of_length_le (length_line w), hwhole]
  · intro hinit
    have hlf : 0 ∉ [lf] := by decide
    rw [hheld.bytes, List.take_of_length_le (length_line w), List.mem_append, List.mem_append,
      hwhole, not_or, not_or, and_iff_left hlf]
    refine and_congr_right fun _ => ?_
    rcases Nat.lt_or_ge w.length lineRoom with hlt | hge
    · have hsame : w.length = whole.length := by omega
      have hnot : ¬ lineRoom ≤ whole.length := by omega
      have hlength : (whole.take lineRoom ++ [lf]).length = whole.length + 1 := by
        rw [List.length_append, List.length_take, Nat.min_eq_right (by omega)]
        rfl
      have hroom : lineRoom = dfsMaxErrorStr - 1 := rfl
      rw [or_iff_right hnot, hlength]
      refine zero_behind (by omega) (fun hor => ?_) (fun herr hcase => ?_)
      · rw [hzero hlt hinit hor]
      · rw [hstale hlt herr hcase _ (Nat.le_succ _), hinit]
    · have hfull : init'.drop (whole.take lineRoom ++ [lf]).length = [] := by
        refine List.drop_eq_nil_of_le ?_
        rw [hheld.size, List.length_append, List.length_take, Nat.min_eq_left (by omega)]
        exact Nat.le_refl dfsMaxErrorStr
      rw [hfull]
      exact ⟨fun _ => Or.inl (by omega), fun _ => List.not_mem_nil⟩

def someNames : Mem :=
  asMem (ascii "\x00error\x00a.cpp\x00")

def someCall : LogCall where
  time := ascii "1970/09/28 12:00:00.0000"
  levelName := 1
  pid := 7
  tid := 9
  file := 7
  line := 12
  fmt := ascii "open %d\x00"
  args := [3]
  err := 2
  strerror := { text := ascii "No such file or directory", static := true, filled := by decide }

theorem someCall_valid :
    someCall.Valid someNames (ascii "error") (ascii "a.cpp")
      { fmt := [0], args := [], out := ascii "open 3" } where
  time := by decide
  level := ⟨by decide, by decide, by decide⟩
  file := ⟨by decide, by decide, by decide⟩
  pid := by decide
  line := by decide
  err := by decide
  message := by decide +kernel

theorem error_line_cut_short :
    exists b past, errorLogLine someNames zeroErrStr false someCall = some (b, past) ∧
      b.bytes.take b.p = ascii "1970/09/28 12:00:00.0000 [error] 7#9: [a.cpp:12] open 3" ++
        ascii " (2: No such file or directory)\n" := by
  rcases error_line_cut List.length_replicate false someCall_valid with
    ⟨b, past, hline, -, -, hbytes, -⟩
  refine ⟨b, past, hline, hbytes.trans ?_⟩
  decide +kernel

/-!
## Files
-/

/-- A line with its line feed, which the buffer has room for. -/
def IsLine (line : List Byte) : Prop :=
  line.length ≤ dfsMaxErrorStr ∧ line.getLast? = some lf

inductive LogEvent.Plain (fd : Int) : LogEvent -> Prop where
  | printed {bytes : List Byte} : bytes.length = dfsMaxErrorStr ->
      Plain fd (LogEvent.printed bytes)
  | wrote {line : List Byte} {n : Int} : IsLine line -> 0 ≤ n ->
      Plain fd (LogEvent.wrote fd line n)

inductive LastEvents (fd : Int) : List LogEvent -> Prop where
  | failed {bytes line : List Byte} {n : Int} : bytes.length = dfsMaxErrorStr -> IsLine line ->
      n < 0 -> LastEvents fd
        [LogEvent.printed bytes, LogEvent.wrote fd line n, LogEvent.closed fd]

/-- What a log has done so far, and whether it is open still. -/
structure Logged (log log' : LogT) (events : List LogEvent) : Prop where
  level : log'.logLevel = log.logLevel
  dfslog : log'.dfslog = log.dfslog
  events : (log'.fd = log.fd ∧ forall e, e ∈ events -> LogEvent.Plain log.fd e) ∨
    (log'.fd = -1 ∧ 0 < log.fd ∧ exists plain last,
      events = plain ++ last ∧ LastEvents log.fd last ∧
        forall e, e ∈ plain -> LogEvent.Plain log.fd e)

theorem Logged.trans {log log' log'' : LogT} {events events' : List LogEvent}
    (h : Logged log log' events) (h' : Logged log' log'' events')
    (hclosed : log'.fd = -1 -> events' = []) : Logged log log'' (events ++ events') := by
  refine ⟨h'.level.trans h.level, h'.dfslog.trans h.dfslog, ?_⟩
  rcases h.events with ⟨hfd, hplain⟩ | ⟨hfd, hpos, plain, last, hevents, hlast, hplain⟩
  case inl =>
    rcases h'.events with ⟨hfd', hplain'⟩ | ⟨hfd', hpos', plain', last', hevents', hlast', hplain'⟩
    case inl =>
      refine Or.inl ⟨hfd'.trans hfd, fun e he => ?_⟩
      rcases List.mem_append.mp he with he | he
      · exact hplain e he
      · exact hfd ▸ hplain' e he
    case inr =>
      rw [hfd] at hpos' hlast' hplain'
      refine Or.inr ⟨hfd', hpos', events ++ plain', last', ?_, hlast', fun e he => ?_⟩
      · rw [hevents', List.append_assoc]
      · rcases List.mem_append.mp he with he | he
        · exact hplain e he
        · exact hplain' e he
  case inr =>
    have hnone := hclosed hfd
    rw [hnone, List.append_nil]
    have hfd' : log''.fd = -1 := by
      rcases h'.events with ⟨hsame, -⟩ | ⟨hdone, -⟩
      · exact hsame.trans hfd
      · exact hdone
    exact Or.inr ⟨hfd', hpos, plain, last, hevents, hlast, hplain⟩

/-- The write took the line, or nothing of it. -/
def LogEvent.Whole : LogEvent -> Prop
  | LogEvent.wrote _ line n => n < 0 ∨ line.length ≤ n.toNat
  | _ => True

end Log
end NgxEpoll
