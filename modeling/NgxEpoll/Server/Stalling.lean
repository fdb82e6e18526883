import NgxEpoll.Server.ReadHandler
import NgxEpoll.Server.Lives

/-!
# Room for the rest of a frame

When `nn_conn_decode` returns `NGX_AGAIN` the rest of the frame has still to be
received, so the receive buffer must have room.  It has none left exactly when
the buffer was full and its first word made `task_decode` wait: a length beyond
the capacity, or the value of `NGX_AGAIN` itself.
-/

namespace NgxEpoll
namespace Server

open Foundation
open NgxEpoll.Core
open Common
open Request
open Relation

/-- The receive buffer has room whenever `nn_conn_decode` asks for more. -/
def Progresses (w : World) : Prop :=
  (nnConnDecode w).1 = ngxAgain ->
    0 < bufferFreeSize (nnConnDecode w).2.mc.inBuf

/-- The receive buffer is full of the bytes of one frame. -/
def Full (b : Buffer) : Prop :=
  b.pos = b.start ∧ b.last = b.endPtr

/-- The length word of the first frame makes `task_decode` ask for more. -/
def AsksForMore (w : World) : Prop :=
  cInt (bufferSize w.mc.inBuf) < loadInt w.mem w.mc.inBuf.pos ∨
    loadInt w.mem w.mc.inBuf.pos = ngxAgain

/-- The receive buffer is full, its first frame asks for more, and there is a
node to decode it into. -/
def Stalls (w : World) : Prop :=
  Full w.mc.inBuf ∧ AsksForMore w ∧ w.mc.count < w.mc.maxTask ∧
    w.mc.freeTask ≠ []

/-!
## The receive buffer
-/

/-- What holds of the receive buffer, whatever its size. -/
structure InFits (b : Buffer) : Prop where
  memory : b.memory = true
  room : b.start < b.endPtr
  start_le_pos : b.start ≤ b.pos
  last_le_end : b.last ≤ b.endPtr
  pos_le_last : b.pos = b.start ∨ b.pos ≤ b.last

theorem InFits.size_eq {b : Buffer} (h : InFits b) :
    bufferSize b = (b.last : Int) - b.pos := by
  rw [bufferSize, bufferInMemory, if_pos h.memory]

theorem inFits_bufferShrink {b : Buffer} (h : InFits b) (m : Mem) :
    InFits (bufferShrink m b).2 ∧
      (b.start ≠ b.pos ->
        (bufferShrink m b).2.last < (bufferShrink m b).2.endPtr) := by
  have hroom := h.room
  unfold bufferShrink
  split
  · next hstart => exact ⟨h, fun hne => absurd hstart hne⟩
  · next hstart =>
    have hle := h.start_le_pos
    have hend := h.last_le_end
    have hlast := h.pos_le_last.resolve_left (fun heq => hstart heq.symm)
    have hint : cInt (bufferSize b) ≤ (b.last : Int) - b.pos := by
      rw [h.size_eq]
      exact cInt_le_self (by omega)
    simp only
    split
    · refine ⟨⟨h.memory, hroom, Nat.le_refl _, ?_, Or.inl rfl⟩, fun _ => ?_⟩
      · exact Nat.le_of_lt hroom
      · exact hroom
    · refine ⟨⟨h.memory, hroom, Nat.le_refl _, ?_, Or.inl rfl⟩, fun _ => ?_⟩
      · simp only
        omega
      · simp only
        omega

theorem inFits_appendIn {w : World} (h : InFits w.mc.inBuf) {bs : List Byte}
    (hlen : bs.length ≤ cSize (bufferFreeSize w.mc.inBuf)) :
    InFits (appendIn w bs).mc.inBuf := by
  have hend := h.last_le_end
  have hfree : (cSize (bufferFreeSize w.mc.inBuf) : Int) ≤
      w.mc.inBuf.endPtr - w.mc.inBuf.last :=
    cSize_le (by unfold bufferFreeSize; omega)
  refine ⟨h.memory, h.room, h.start_le_pos, ?_, ?_⟩
  · simp only [appendIn]
    omega
  · refine h.pos_le_last.imp_right (fun hle => ?_)
    simp only [appendIn]
    omega

theorem inFits_recvTurn {w : World} (h : InFits w.mc.inBuf) :
    InFits (afterTurn (nnConnRecvTurn w)).mc.inBuf := by
  have hcases := nnConnRecvTurn_cases w
  rw [← useMc_mc w] at h
  generalize w.useMc = u at h hcases
  have hshrink : InFits (shrinkIn u).mc.inBuf := (inFits_bufferShrink h u.mem).1
  rcases hcases with heq | ⟨_, heq⟩ | ⟨hpos, heq⟩
  · rw [heq]
    exact hshrink
  · rw [heq]
    exact hshrink
  · rw [heq]
    rcases sysioUnixRecv_cases (shrinkIn u).env
        (cSize (bufferFreeSize (shrinkIn u).mc.inBuf)) with
      ⟨_, _, hlen, _⟩ | ⟨hnil, _⟩
    · exact inFits_appendIn (w := { shrinkIn u with env := _ }) hshrink hlen
    · rw [hnil]
      exact inFits_appendIn (w := { shrinkIn u with env := _ }) hshrink
        (Nat.zero_le _)

/-!
## Decoding
-/

/-- What `task_decode` does to the buffer: it moves behind the frame, or leaves
the buffer alone. -/
theorem attempt_inBuf_cases {w : World} (h : InFits w.mc.inBuf) (n : Nat)
    (rest : List Nat) :
    ((attempt w n rest).mc.inBuf = w.mc.inBuf ∨
        (exists k, 0 < k ∧ w.mc.inBuf.pos + k ≤ w.mc.inBuf.last ∧
          (attempt w n rest).mc.inBuf =
            { w.mc.inBuf with pos := w.mc.inBuf.pos + k })) ∧
      (attemptCode w n = ngxAgain -> (attempt w n rest).mc.inBuf = w.mc.inBuf ∧
        (bufferSize w.mc.inBuf ≤ 0 ∨ AsksForMore w)) ∧
      (0 < bufferSize w.mc.inBuf -> AsksForMore w ->
        attemptCode w n = ngxAgain) := by
  have hbuf : (attempt w n rest).mc.inBuf =
      (taskDecode w.mem w.mc.inBuf (w.mc.nodes n)).2.1 := rfl
  have hcode : attemptCode w n =
      (taskDecode w.mem w.mc.inBuf (w.mc.nodes n)).1 := rfl
  rw [hbuf, hcode]
  by_cases hsize : 0 < bufferSize w.mc.inBuf
  · rw [taskDecode_eq hsize]
    have hnonneg := cInt_le_self (Int.le_of_lt hsize)
    have hlast := h.size_eq
    unfold AsksForMore
    split
    · next hlt =>
      exact ⟨Or.inl rfl, fun _ => ⟨rfl, Or.inr (Or.inl hlt)⟩, fun _ _ => rfl⟩
    · next hlt =>
      split
      · refine ⟨Or.inl rfl, fun heq => ⟨rfl, Or.inr (Or.inr heq)⟩, fun _ hor => ?_⟩
        exact hor.resolve_left hlt
      · next hword =>
        refine ⟨Or.inr ⟨_, ?_, ?_, rfl⟩, fun heq => ?_, fun _ hor => ?_⟩
        · omega
        · omega
        · exact absurd heq (by simp only; decide)
        · rcases hor with hlt' | heq
          · exact absurd hlt' hlt
          · rw [heq] at hword
            exact absurd (by decide) hword
  · have hle := Int.not_lt.mp hsize
    rw [taskDecode_empty hle]
    exact ⟨Or.inl rfl, fun _ => ⟨rfl, Or.inl hle⟩, fun hpos => absurd hpos hsize⟩

theorem inFits_advance {b : Buffer} (h : InFits b) {k : Nat}
    (hle : b.pos + k ≤ b.last) : InFits { b with pos := b.pos + k } := by
  have hstart := h.start_le_pos
  exact ⟨h.memory, h.room, by simp only; omega, h.last_le_end, Or.inr hle⟩

theorem inFits_attempt {w : World} (h : InFits w.mc.inBuf) (n : Nat)
    (rest : List Nat) : InFits (attempt w n rest).mc.inBuf := by
  rcases (attempt_inBuf_cases h n rest).1 with heq | ⟨k, _, hle, heq⟩
  · rw [heq]
    exact h
  · rw [heq]
    exact inFits_advance h hle

theorem unread_inBuf (w : World) (n : Nat) (rest : List Nat) :
    (nnConnFreeTask (attempt w n rest) n).useMc.mc.inBuf =
      (attempt w n rest).mc.inBuf := by
  rw [useMc_mc]
  exact congrArg Bytes.inBuf (bytes_nnConnFreeTask _ n)

theorem inFits_decodeStep {u : World} {turn : Turn World (Int × World)}
    (h : InFits u.mc.inBuf) (hstep : DecodeStep u turn) :
    InFits (afterTurn turn).mc.inBuf := by
  cases hstep with
  | busy _ => exact h
  | underflow _ _ => exact h
  | ok n rest _ _ _ => exact inFits_attempt h n rest
  | error n rest _ _ _ =>
      have hroom := (inFits_attempt h n rest).room
      rw [← unread_inBuf] at hroom
      have hmemory := (inFits_attempt h n rest).memory
      rw [← unread_inBuf] at hmemory
      exact ⟨hmemory, hroom, Nat.le_refl _, Nat.le_of_lt hroom, Or.inl rfl⟩
  | again n rest _ _ _ =>
      refine (inFits_bufferShrink ?_ _).1
      rw [unread_inBuf]
      exact inFits_attempt h n rest
  | lost n rest _ _ _ _ _ => exact inFits_attempt h n rest

/-- What the loop of `nn_conn_decode` keeps: once something has been decoded the
buffer is not full any more. -/
def HasRoom (w : World) : Prop :=
  InFits w.mc.inBuf ∧ ¬ (Full w.mc.inBuf ∧ AsksForMore w)

theorem hasRoom_attempt {w : World} (h : HasRoom w) (n : Nat) (rest : List Nat) :
    HasRoom (attempt w n rest) := by
  refine ⟨inFits_attempt h.1 n rest, fun hfull => ?_⟩
  rcases (attempt_inBuf_cases h.1 n rest).1 with heq | ⟨k, hk, _, heq⟩
  · unfold AsksForMore at hfull
    rw [heq] at hfull
    exact h.2 hfull
  · have hstart := h.1.start_le_pos
    have hpos := hfull.1.1
    rw [heq] at hpos
    simp only at hpos
    omega

theorem again_inBuf {w : World} (h : InFits w.mc.inBuf) {n : Nat}
    (rest : List Nat) (hagain : attemptCode w n = ngxAgain) :
    exists m, (shrinkIn (nnConnFreeTask (attempt w n rest) n).useMc).mc.inBuf =
      (bufferShrink m w.mc.inBuf).2 := by
  obtain ⟨hsame, _⟩ := (attempt_inBuf_cases h n rest).2.1 hagain
  refine ⟨(nnConnFreeTask (attempt w n rest) n).useMc.mem, ?_⟩
  rw [← hsame, ← unread_inBuf]
  rfl

theorem room_of_again {w : World} (h : HasRoom w) {n : Nat} {rest : List Nat}
    (hagain : attemptCode w n = ngxAgain) :
    0 < bufferFreeSize
      (shrinkIn (nnConnFreeTask (attempt w n rest) n).useMc).mc.inBuf := by
  obtain ⟨m, heq⟩ := again_inBuf h.1 rest hagain
  obtain ⟨_, hasks⟩ := (attempt_inBuf_cases h.1 n rest).2.1 hagain
  have hshrink := (inFits_bufferShrink h.1 m).2
  rw [heq, bufferFreeSize]
  by_cases hstart : w.mc.inBuf.start = w.mc.inBuf.pos
  · have hend := h.1.last_le_end
    have hroom := h.1.room
    rw [bufferShrink_of_start hstart]
    rcases hasks with hempty | hmore
    · rw [h.1.size_eq] at hempty
      simp only
      omega
    · have hne : w.mc.inBuf.last ≠ w.mc.inBuf.endPtr :=
        fun hlast => h.2 ⟨⟨hstart.symm, hlast⟩, hmore⟩
      simp only
      omega
  · have hlt := hshrink hstart
    omega

theorem hasRoom_useMc {w : World} (h : HasRoom w) : HasRoom w.useMc := by
  unfold HasRoom AsksForMore
  rw [useMc_mc, useMc_mem]
  exact h

theorem progresses_of_hasRoom {w : World} (h : HasRoom w) : Progresses w := by
  refine loop_keeps _ HasRoom (fun r : Int × World => r.1 = ngxAgain ->
    0 < bufferFreeSize r.2.mc.inBuf) ?_ ?_ ?_ h
  · intro v v' hv hturn
    have hstep := nnConnDecodeTurn_step v
    have hu := hasRoom_useMc hv
    generalize v.useMc = u at hstep hu
    rw [hturn] at hstep
    cases hstep with
    | ok n rest _ _ _ => exact hasRoom_attempt hu n rest
    | lost n rest _ _ _ _ _ => exact hasRoom_attempt hu n rest
  · intro v r hv hturn hcode
    have hstep := nnConnDecodeTurn_step v
    have hu := hasRoom_useMc hv
    generalize v.useMc = u at hstep hu
    rw [hturn] at hstep
    cases hstep with
    | busy _ => exact absurd hcode (show ngxBusy ≠ ngxAgain by decide)
    | underflow _ _ => exact absurd hcode (show ngxBusy ≠ ngxAgain by decide)
    | error n rest _ _ _ =>
        exact absurd hcode (show ngxError ≠ ngxAgain by decide)
    | again n rest _ _ hagain => exact room_of_again hu hagain
  · intro v _ hcode
    exact absurd hcode (show ngxOk ≠ ngxAgain by decide)

theorem not_progresses_of_stalls {w : World} (h : InFits w.mc.inBuf)
    (hstalls : Stalls w) : ¬ Progresses w := by
  obtain ⟨⟨hpos, hlast⟩, hmore, hcount, hfree⟩ := hstalls
  intro hprogress
  have hstep := nnConnDecodeTurn_step w
  have hmc := useMc_mc w
  have hmem := useMc_mem w
  generalize w.useMc = u at hstep hmc hmem
  have hsize : 0 < bufferSize u.mc.inBuf := by
    have hroom := h.room
    rw [hmc, h.size_eq]
    omega
  have hmore' : AsksForMore u := by
    unfold AsksForMore
    rw [hmc, hmem]
    exact hmore
  have hfits : InFits u.mc.inBuf := by
    rw [hmc]
    exact h
  have hagain : forall n, attemptCode u n = ngxAgain := fun n =>
    (attempt_inBuf_cases hfits n []).2.2 hsize hmore'
  generalize hturn : nnConnDecodeTurn w = turn at hstep
  cases hstep with
  | busy hfull =>
      rw [hmc] at hfull
      omega
  | underflow _ hnil =>
      rw [hmc] at hnil
      exact hfree hnil
  | ok n rest _ _ hcode =>
      rw [hagain n] at hcode
      exact absurd hcode ngxAgain_ne_ngxOk
  | error n rest _ _ hcode =>
      rw [hagain n] at hcode
      exact absurd hcode (by decide)
  | lost n rest _ _ _ _ hcode => exact hcode (hagain n)
  | again n rest _ _ hcode =>
      have hdone : nnConnDecode w = _ := loop_done _ hturn
      obtain ⟨m, heq⟩ := again_inBuf hfits rest hcode
      unfold Progresses at hprogress
      rw [hdone] at hprogress
      have hroom := hprogress rfl
      simp only at hroom
      rw [heq, hmc, bufferShrink_of_start hpos.symm, bufferFreeSize, hlast]
        at hroom
      exact absurd hroom (by simp)

theorem progresses_of_noNode {w : World}
    (h : w.mc.maxTask ≤ w.mc.count ∨ w.mc.freeTask = []) : Progresses w := by
  have hstep := nnConnDecodeTurn_step w
  have hmc := useMc_mc w
  generalize w.useMc = u at hstep hmc
  rw [← hmc] at h
  have hnone : forall n rest, u.mc.count < u.mc.maxTask ->
      u.mc.freeTask = n :: rest -> False := by
    intro n rest hlt hfree
    rcases h with hle | hnil
    · omega
    · rw [hnil] at hfree
      cases hfree
  have hcode : (nnConnDecode w).1 = ngxBusy := by
    generalize hturn : nnConnDecodeTurn w = turn at hstep
    cases hstep with
    | busy _ => exact congrArg Prod.fst (loop_done _ hturn)
    | underflow _ _ => exact congrArg Prod.fst (loop_done _ hturn)
    | ok n rest hlt hfree _ => exact (hnone n rest hlt hfree).elim
    | error n rest hlt hfree _ => exact (hnone n rest hlt hfree).elim
    | again n rest hlt hfree _ => exact (hnone n rest hlt hfree).elim
    | lost n rest hlt hfree _ _ _ => exact (hnone n rest hlt hfree).elim
  intro hagain
  rw [hcode] at hagain
  exact absurd hagain (by decide)

/-!
## The server
-/

theorem inBuf_of_moves {w v : World} (h : Moves w v) :
    v.mc.inBuf = w.mc.inBuf := by
  induction h with
  | refl => rfl
  | tail _ hlast ih =>
      refine Eq.trans ?_ ih
      cases hlast with
      | use => exact congrArg Bytes.inBuf (bytes_useMc _)
      | event c env timer handler => rfl
      | shrink => rfl
      | encode n rest _ _ => exact congrArg Bytes.inBuf (bytes_nnConnFreeTask _ n)
      | full n rest _ _ => rfl
      | hang n rest _ _ _ _ => rfl
      | send k _ => rfl
      | reset _ => rfl
      | finalize => exact congrArg Bytes.inBuf (bytes_nnConnFinalize _)

theorem inBuf_nnConnOuttask (w : World) (n : Nat) :
    (nnConnOuttask w n).2.mc.inBuf = w.mc.inBuf := by
  rw [← useMc_mc w]
  simp only [nnConnOuttask]
  generalize w.useMc = u
  split
  · exact congrArg Bytes.inBuf (bytes_nnConnFreeTask u n)
  · exact (inBuf_of_moves (nnConnOutput_moves (pushOut u n))).trans rfl

theorem inFits_of_stepped {s s' : State} {a : Label}
    (h : InFits s.w.mc.inBuf) (hstep : Stepped s a s') :
    InFits s'.w.mc.inBuf := by
  have hsame : forall {w : World}, w.mc.inBuf = s.w.mc.inBuf ->
      InFits w.mc.inBuf := by
    intro w heq
    rw [heq]
    exact h
  cases hstep with
  | kernel env => exact h
  | poll rd wr _ => exact h
  | readEvent _ _ =>
      obtain ⟨w, pc, heq, _, hmoves⟩ := startRead_moves s
      rw [heq]
      exact hsame (inBuf_of_moves hmoves)
  | recvIter hpc =>
      obtain ⟨w, pc, heq, _, hmoves⟩ := recvIter_moves hpc
      rw [heq]
      change InFits w.mc.inBuf
      rw [inBuf_of_moves hmoves]
      exact inFits_recvTurn h
  | decodeIter hpc =>
      obtain ⟨w, pc, heq, _, hmoves⟩ := decodeIter_moves hpc
      rw [heq]
      change InFits w.mc.inBuf
      rw [inBuf_of_moves hmoves]
      refine inFits_decodeStep ?_ (nnConnDecodeTurn_step s.w)
      rw [useMc_mc]
      exact h
  | writeEvent _ _ => exact hsame (inBuf_of_moves (processWrite_moves s.w))
  | slowTimer hfree _ =>
      obtain ⟨w, pc, heq, _, hmoves⟩ := slowTimer_moves hfree.held
      rw [heq]
      exact hsame (inBuf_of_moves hmoves)
  | writeTimeout _ _ =>
      exact hsame (inBuf_of_moves (ReflTransGen.trans (expireWrite_moves s.w)
        (processWrite_moves _)))
  | popBack i _ => exact h
  | outDone _ => exact h
  | outIter n q _ _ => exact hsame (inBuf_nnConnOuttask s.w n)
  | popAll k _ _ _ => exact h
  | handle k block result n rest _ _ =>
      cases result with
      | none => exact hsame (congrArg NnConn.inBuf (useMc_mc s.w))
      | some t =>
          refine hsame ?_
          change s.w.useMc.mc.inBuf = s.w.mc.inBuf
          rw [useMc_mc]
  | wake k _ => exact hsame (congrArg NnConn.inBuf (useMc_mc s.w))

theorem Started.inFits {s : State} (h : Started s) : InFits s.w.mc.inBuf := by
  cases h with
  | up conf allocs mem fd env taskNum threadId w _ _ hinit =>
      obtain ⟨inBuf, out, buff, ev, env', hin, _, _, rfl⟩ := nnConnInit_up hinit
      have hsize : 0 < inSize conf := by
        refine Nat.pos_of_ne_zero fun hzero => ?_
        rw [bufferAt, if_pos hzero] at hin
        cases hin
      obtain ⟨a, _, rfl⟩ := bufferAt_eq_some hin
      exact ⟨rfl, Nat.lt_add_of_pos_right hsize, Nat.le_refl _,
        Nat.le_add_right _ _, Or.inl rfl⟩

theorem nnConnDecode_progresses_iff (s s' : State) (hstart : Started s)
    (hrun : Reaches step Always s s') :
    Progresses s'.w ↔ ¬ Stalls s'.w := by
  have hfits : InFits s'.w.mc.inBuf := Reaches.invariant
    (fun t => InFits t.w.mc.inBuf)
    (fun t a u ht _ hstep => inFits_of_stepped ht (stepped_of_step hstep))
    hrun hstart.inFits
  refine ⟨fun hprogress hstalls =>
    not_progresses_of_stalls hfits hstalls hprogress, fun hnot => ?_⟩
  by_cases hfull : Full s'.w.mc.inBuf ∧ AsksForMore s'.w
  · apply progresses_of_noNode
    by_contra hnode
    simp only [not_or, Int.not_le] at hnode
    exact hnot ⟨hfull.1, hfull.2, hnode.1, hnode.2⟩
  · exact progresses_of_hasRoom ⟨hfits, hfull⟩

def partialServer : State :=
  after step smallStart (receive ((taskFrame testTask []).take 100))

theorem nnConnDecode_progresses_partialServer :
    (nnConnDecode partialServer.w).1 = ngxAgain ∧ Progresses partialServer.w := by
  have hrun : Reaches step Always smallStart partialServer := by
    apply (Reaches.refl smallStart).labels
    · exact fun _ _ _ => trivial
    · decide +kernel
  refine ⟨by decide +kernel, (nnConnDecode_progresses_iff smallStart
    partialServer smallStart_started hrun).mpr fun hstalls => ?_⟩
  exact absurd hstalls.1.2 (by decide +kernel)

/-- The peer has announced a frame of two thousand bytes and filled the buffer
of one thousand and twenty-four. -/
def stalledServer : State :=
  after step smallStart (receive (leBytes 4 2000 ++ List.replicate 1020 0))

theorem nnConnDecode_stalledServer_fails :
    Started smallStart ∧ Reaches step Always smallStart stalledServer ∧
      (nnConnDecode stalledServer.w).1 = ngxAgain ∧
      ¬ Progresses stalledServer.w := by
  refine ⟨smallStart_started, ?_, by decide +kernel, fun hprogress => ?_⟩
  · apply (Reaches.refl smallStart).labels
    · exact fun _ _ _ => trivial
    · decide +kernel
  · exact absurd (hprogress (by decide +kernel)) (by decide +kernel)

end Server
end NgxEpoll
