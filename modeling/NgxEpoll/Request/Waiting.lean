import NgxEpoll.Request.Draining

/-!
# What a connection waits for

A connection that has unfinished work waits for its read event, its write event
or one of its timers.  This module follows the flags of these events through
`nn_conn_output` and the handlers, for responses of any size.
-/

namespace NgxEpoll
namespace Request

open Foundation
open NgxEpoll.Core
open Common
open Relation

structure Waits where
  c : ConnT
  writeEventHandler : Bool
  evTimer : Event
  state : ConnState
  out : Buffer
  hung : Bool
  ctls : List Bool

def World.waits (w : World) : Waits where
  c := w.c
  writeEventHandler := w.mc.writeEventHandler
  evTimer := w.mc.evTimer
  state := w.mc.state
  out := w.mc.out
  hung := w.hung
  ctls := w.env.ctls

def Waits.withWrite (x : Waits) (ev : Event) : Waits :=
  { x with c := { x.c with write := ev } }

def CtlsSucceed (env : Env) : Prop :=
  forall ok, ok ∈ env.ctls -> ok = true

@[simp] theorem waits_useMc (w : World) : w.useMc.waits = w.waits := by
  unfold World.useMc
  split <;> rfl

@[simp] theorem useMc_c (w : World) : w.useMc.c = w.c :=
  congrArg Waits.c (waits_useMc w)

@[simp] theorem useMc_hung (w : World) : w.useMc.hung = w.hung :=
  congrArg Waits.hung (waits_useMc w)

theorem waits_releaseData (w : World) (q : Nat) :
    (releaseData w q).waits = w.waits := by
  unfold releaseData
  simp only
  split <;> rfl

@[simp] theorem waits_nnConnFinalizeTail (w : World) :
    (nnConnFinalizeTail w).waits = w.waits := by
  unfold nnConnFinalizeTail
  simp only
  split
  · exact waits_useMc w
  · exact waits_useMc w

/-- Giving a node back wakes nobody. -/
@[simp] theorem waits_nnConnFreeTask (w : World) (q : Nat) :
    (nnConnFreeTask w q).waits = w.waits := by
  rw [← waits_useMc w]
  unfold nnConnFreeTask
  simp only
  generalize w.useMc = u
  have hrelease := waits_releaseData
    { u with mc := { u.mc with count := u.mc.count - 1 } } q
  split
  · rw [waits_nnConnFinalizeTail]
    exact hrelease
  · exact hrelease

/-- A connection that is up has been up. -/
theorem connected_of_moves {w v : World} (h : Moves w v)
    (hconn : v.mc.state = ConnState.connected) :
    w.mc.state = ConnState.connected := by
  induction h with
  | refl => exact hconn
  | tail _ hlast ih =>
      apply ih
      cases hlast with
      | use =>
          rwa [useMc_mc] at hconn
      | event c env timer handler => exact hconn
      | shrink => exact hconn
      | encode n rest _ _ =>
          rwa [(mc_nnConnFreeTask _ n).2.1] at hconn
      | full n rest _ _ => exact hconn
      | hang n rest _ _ _ _ => exact hconn
      | send k _ => exact hconn
      | reset _ => exact hconn
      | finalize =>
          rw [(mc_nnConnFinalize _).1] at hconn
          cases hconn

/-!
## Receiving and decoding
-/

theorem recvAnswer_ctls (env : Env) (size : Nat) (rs : List RecvResult) :
    (recvAnswer env size rs).2.2.ctls = env.ctls := by
  induction rs with
  | nil => rfl
  | cons a rest ih =>
      cases a with
      | intr => exact ih
      | again => rfl
      | closed => rfl
      | error => rfl
      | data n =>
          simp only [recvAnswer]
          split <;> rfl

theorem waits_recvTurn (w : World) :
    (afterTurn (nnConnRecvTurn w)).waits = w.waits := by
  have hcases := nnConnRecvTurn_cases w
  rw [← waits_useMc w]
  generalize w.useMc = u at hcases ⊢
  have hctls := recvAnswer_ctls (shrinkIn u).env
    (cSize (bufferFreeSize (shrinkIn u).mc.inBuf)) (shrinkIn u).env.recvs
  have hrecv : forall bs, (appendIn { shrinkIn u with
      env := (sysioUnixRecv (shrinkIn u).env
        (cSize (bufferFreeSize (shrinkIn u).mc.inBuf))).2.2 } bs).waits =
        u.waits := by
    intro bs
    have hsame : forall env : Env, env.ctls = u.env.ctls ->
        (appendIn { shrinkIn u with env := env } bs).waits = u.waits := by
      intro env henv
      rw [show (appendIn { shrinkIn u with env := env } bs).waits =
        { u.waits with ctls := env.ctls } from rfl, henv]
      rfl
    exact hsame _ hctls
  rcases hcases with heq | ⟨_, heq⟩ | ⟨_, heq⟩
  · rw [heq]
    rfl
  · rw [heq]
    exact hrecv []
  · rw [heq]
    exact hrecv _

theorem waits_giveBack (u : World) (n : Nat) (rest : List Nat) :
    (nnConnFreeTask (attempt u n rest) n).useMc.waits = u.waits := by
  rw [waits_useMc, waits_nnConnFreeTask]
  rfl

/-- An iteration of `nn_conn_decode` finds no free node, or it leaves the flags
alone. -/
theorem waits_decodeStep {u : World} {turn : Turn World (Int × World)}
    (h : DecodeStep u turn) :
    (afterTurn turn).waits = u.waits ∨
      exists v, v.waits = u.waits ∧ turn = Turn.done (ngxBusy, nnConnBusy v) := by
  cases h with
  | busy _ => exact Or.inr ⟨u, rfl, rfl⟩
  | underflow _ _ =>
      exact Or.inr
        ⟨{ u with trace := { u.trace with emptyPop := true } }, rfl, rfl⟩
  | ok n rest _ _ _ => exact Or.inl rfl
  | error n rest _ _ _ =>
      left
      rw [← waits_giveBack u n rest]
      rfl
  | again n rest _ _ _ =>
      left
      rw [← waits_giveBack u n rest]
      rfl
  | lost n rest _ _ _ _ _ => exact Or.inl rfl

theorem nnConnBusy_ready (w : World) :
    (nnConnBusy w).c.read.ready = false := by
  simp only [nnConnBusy, eventDelRead, epollDelEvent]
  split <;> rfl

/-!
## Registering an event
-/

theorem epollCtl_succeeds {env : Env} (h : CtlsSucceed env) :
    (epollCtl env).1 = true ∧ CtlsSucceed (epollCtl env).2 := by
  unfold epollCtl
  cases hctls : env.ctls with
  | nil => exact ⟨rfl, h⟩
  | cons ok rest =>
      refine ⟨h ok (by rw [hctls]; exact List.mem_cons_self), ?_⟩
      intro b hb
      exact h b (by rw [hctls]; exact List.mem_cons_of_mem ok hb)

theorem ctlsSucceed_eventHandle {env : Env} (ev : Event)
    (h : CtlsSucceed env) : CtlsSucceed (eventHandle env ev).2.2 := by
  have hrest := (epollCtl_succeeds h).2
  unfold eventHandle epollAddEvent
  simp only
  split
  · split <;> exact hrest
  · exact h

theorem ctlsSucceed_nnConnBusy {w : World} (h : CtlsSucceed w.env) :
    CtlsSucceed (nnConnBusy w).env := by
  have hrest := (epollCtl_succeeds h).2
  simp only [nnConnBusy, eventDelRead, epollDelEvent]
  split <;> exact hrest

theorem eventHandle_succeeds {env : Env} {ev : Event} (h : CtlsSucceed env)
    (hready : ev.ready = false) :
    (eventHandle env ev).1 = ngxOk ∧
      (eventHandle env ev).2.1 = { ev with active := true } ∧
      CtlsSucceed (eventHandle env ev).2.2 := by
  obtain ⟨hctl, hrest⟩ := epollCtl_succeeds h
  unfold eventHandle
  cases hactive : ev.active with
  | true =>
      rw [if_neg (by simp)]
      refine ⟨rfl, ?_, h⟩
      rw [← hactive]
  | false =>
      rw [if_pos (by simp [hready]), epollAddEvent, if_pos hctl]
      exact ⟨rfl, rfl, hrest⟩

/-!
## Packing and sending
-/

/-- What packing and sending keep: of the events only the write event may become
unready. -/
structure Packs (w v : World) : Prop where
  c : v.c = { w.c with write := { w.c.write with ready := v.c.write.ready } }
  ready : v.c.write.ready = true -> w.c.write.ready = true
  handler : v.mc.writeEventHandler = w.mc.writeEventHandler
  evTimer : v.mc.evTimer = w.mc.evTimer
  state : v.mc.state = w.mc.state
  block : v.mc.out.block = w.mc.out.block
  ctls : v.env.ctls = w.env.ctls

theorem Packs.memory {w v : World} (h : Packs w v) :
    v.mc.out.memory = w.mc.out.memory :=
  congrArg (fun b => b.2.2) h.block

theorem packs_of_waits {w v : World} (out : Buffer) (hung : Bool)
    (h : v.waits = { w.waits with out := out, hung := hung })
    (hblock : out.block = w.mc.out.block) : Packs w v := by
  have hc : v.c = w.c := congrArg Waits.c h
  refine ⟨?_, fun hon => ?_, congrArg Waits.writeEventHandler h,
    congrArg Waits.evTimer h, congrArg Waits.state h, ?_, congrArg Waits.ctls h⟩
  · rw [hc]
  · rwa [hc] at hon
  · rw [show v.mc.out = out from congrArg Waits.out h]
    exact hblock

theorem Packs.refl (w : World) : Packs w w :=
  packs_of_waits w.mc.out w.hung rfl rfl

theorem Packs.trans {w v u : World} (h : Packs w v) (h' : Packs v u) :
    Packs w u where
  c := by rw [h'.c, h.c]
  ready := fun hon => h.ready (h'.ready hon)
  handler := h'.handler.trans h.handler
  evTimer := h'.evTimer.trans h.evTimer
  state := h'.state.trans h.state
  block := h'.block.trans h.block
  ctls := h'.ctls.trans h.ctls

theorem encodeNode_out (w : World) (n : Nat) :
    exists last, w.mc.out.last ≤ last ∧
      (encodeNode w n).mc.out = { w.mc.out with last := last } ∧
      (encodeCode w n ≠ ngxOk -> last = w.mc.out.last) := by
  simp only [encodeNode, encodeCode, taskEncode]
  split
  · exact ⟨w.mc.out.last, Nat.le_refl _, rfl, fun _ => rfl⟩
  · split
    · exact ⟨w.mc.out.last, Nat.le_refl _, rfl, fun _ => rfl⟩
    · exact ⟨_, Nat.le_add_right _ _, rfl, fun hne => absurd rfl hne⟩

theorem nnConnPack_waits (w : World) :
    exists last hung, w.mc.out.last ≤ last ∧
      (nnConnPack w).waits =
        { w.waits with out := { w.mc.out with last := last }, hung := hung } := by
  let Inv : World -> Prop := fun v => exists last hung, w.mc.out.last ≤ last ∧
    v.waits = { w.waits with
      out := { w.mc.out with last := last }, hung := hung }
  have hencode : forall {v n} (hung : Bool), Inv v ->
      Inv { encodeNode v n with hung := hung } := by
    rintro v n hung ⟨last, old, hle, hv⟩
    obtain ⟨last', hle', hout, _⟩ := encodeNode_out v n
    have hvout : v.mc.out = { w.mc.out with last := last } :=
      congrArg Waits.out hv
    rw [hvout] at hle' hout
    refine ⟨last', hung, Nat.le_trans hle hle', ?_⟩
    have hsame : ({ encodeNode v n with hung := hung } : World).waits =
        { v.waits with out := (encodeNode v n).mc.out, hung := hung } := rfl
    rw [hsame, hout, hv]
  have huse : forall {v : World}, Inv v -> Inv v.useMc := by
    rintro v ⟨last, hung, hle, hv⟩
    exact ⟨last, hung, hle, (waits_useMc v).trans hv⟩
  have hfree : forall {v n} (rest : List Nat), Inv v ->
      Inv (nnConnFreeTask (popOut (encodeNode v n) rest) n) := by
    intro v n rest hv
    obtain ⟨last, hung, hle, heq⟩ := hencode (n := n) v.hung hv
    exact ⟨last, hung, hle, (waits_nnConnFreeTask _ n).trans heq⟩
  refine loop_keeps _ Inv Inv ?_ ?_ (fun _ hv => hv)
    ⟨w.mc.out.last, w.hung, Nat.le_refl _, rfl⟩
  · intro v v' hv hturn
    simp only [nnConnPackTurn] at hturn
    have hu := huse hv
    generalize v.useMc = u at hu hturn
    split at hturn
    · cases hturn
    · split at hturn
      · cases hturn
        exact hfree _ hu
      · split at hturn
        · cases hturn
        · split at hturn
          · cases hturn
            exact hfree _ hu
          · cases hturn
  · intro v r hv hturn
    simp only [nnConnPackTurn] at hturn
    have hu := huse hv
    generalize v.useMc = u at hu hturn
    split at hturn
    · cases hturn
      exact hu
    · split at hturn
      · cases hturn
      · split at hturn
        · cases hturn
          exact hencode _ hu
        · split at hturn
          · cases hturn
          · cases hturn
            exact hencode true hu

theorem block_bufferShrink (m : Mem) (b : Buffer) :
    (bufferShrink m b).2.block = b.block := by
  simp only [bufferShrink]
  split
  · rfl
  · split <;> rfl

theorem repack_packs (w : World) :
    Packs w (nnConnPack (shrinkOut w.useMc)) := by
  have hshrink : Packs w (shrinkOut w.useMc) := by
    refine packs_of_waits (shrinkOut w.useMc).mc.out w.hung ?_ ?_
    · rw [← waits_useMc w]
      have hhung := useMc_hung w
      generalize w.useMc = u at hhung ⊢
      rw [← hhung]
      rfl
    · change (bufferShrink w.useMc.mem w.useMc.mc.out).2.block = _
      rw [block_bufferShrink, useMc_mc]
  obtain ⟨last, hung, _, hpack⟩ := nnConnPack_waits (shrinkOut w.useMc)
  exact hshrink.trans (packs_of_waits _ _ hpack rfl)

/-- What `nn_conn_out_buffer` answers: the buffer is empty, or `send` has
failed, or the event is not ready. -/
def Sends (w : World) (r : Int × World) : Prop :=
  Packs w r.2 ∧
    ((r.1 = ngxOk ∧ (w.mc.out.memory = true -> bufferSize r.2.mc.out = 0)) ∨
      r.1 = ngxError ∨ (r.1 = ngxAgain ∧ r.2.c.write.ready = false))

theorem bufferSize_bufferReset {b : Buffer} (h : b.memory = true) :
    bufferSize (bufferReset b) = 0 := by
  simp only [bufferSize, bufferInMemory, bufferReset, h, if_true, Int.sub_self]

theorem packs_outBufferTurn (w : World) :
    Lowers (fun s : World × Nat => Packs w s.1)
      (fun s => s.1.env.sends.length) nnConnOutBufferTurn := by
  intro s s' hkept hturn
  simp only [nnConnOutBufferTurn] at hturn
  split at hturn
  · cases hturn
  · split at hturn
    · cases hturn
    · next hsent =>
      rw [sysioUnixSend_code] at hsent
      have hlt := (sendAnswer_spec s.2 s.1.env.sends).1 (Int.not_lt.mp hsent)
      cases hturn
      refine ⟨hkept.trans ⟨rfl, ?_, rfl, rfl, rfl, rfl, rfl⟩, hlt⟩
      exact fun hon => (Bool.and_eq_true_iff.mp hon).1

theorem sends_outBufferTurn {w : World} {s : World × Nat} {r : Int × World}
    (hkept : Packs w s.1) (hturn : nnConnOutBufferTurn s = Turn.done r) :
    Sends w r := by
  simp only [nnConnOutBufferTurn] at hturn
  split at hturn
  · cases hturn
    refine ⟨hkept.trans ⟨rfl, id, rfl, rfl, rfl, rfl, rfl⟩, Or.inl ⟨rfl, ?_⟩⟩
    intro hmemory
    exact bufferSize_bufferReset (hkept.memory.trans hmemory)
  · split at hturn
    · next hfailed =>
      cases hturn
      refine ⟨hkept.trans ⟨rfl, ?_, rfl, rfl, rfl, rfl, rfl⟩, Or.inr ?_⟩
      · exact fun hon => (Bool.and_eq_true_iff.mp hon).1
      · rw [sysioUnixSend_code] at hfailed ⊢
        rcases sendAnswer_cases s.2 s.1.env.sends with
          ⟨k, _, hk⟩ | hagain | herr
        · omega
        · refine Or.inr ⟨hagain, ?_⟩
          simp only [sysioUnixSend,
            (sendAnswer_spec s.2 s.1.env.sends).2 hagain, Bool.and_false]
        · exact Or.inl herr
    · cases hturn

theorem nnConnOutBuffer_sends (w : World) : Sends w (nnConnOutBuffer w) := by
  unfold nnConnOutBuffer
  split
  · next hready =>
    exact ⟨Packs.refl w, Or.inr (Or.inr ⟨rfl, by simpa using hready⟩)⟩
  · exact loop_rule (packs_outBufferTurn w) _ (Sends w)
      (fun s r hs hturn => sends_outBufferTurn hs hturn) (Packs.refl w)

/-!
## `nn_conn_output`
-/

/-- The end of `nn_conn_output` when the write event is not ready. -/
def awaitWrite (w : World) : World :=
  let e := eventHandleWrite w
  if e.1 = ngxError then e.2
  else { e.2 with c := { e.2.c with write := eventTimerAdd e.2.c.write } }

/-- How `nn_conn_output` ends, unless it returns at once: with an empty buffer,
or waiting for the write event. -/
def Outputs (w v : World) : Prop :=
  v.mc.state = ConnState.disconnected ∨ v.hung = true ∨
    (Packs w v ∧ bufferSize v.mc.out = 0) ∨
    exists u, Packs w u ∧ u.c.write.ready = false ∧ v = awaitWrite u

theorem nnConnOutputTurn_outputs {w : World} (hmemory : w.mc.out.memory = true) :
    (nnConnOutputTurn w).Meets (fun v => Packs w v ∧ bufferSize v.mc.out = 0)
      (fun r => Outputs w r.2) := by
  have hpack := repack_packs w
  simp only [nnConnOutputTurn]
  generalize nnConnPack (shrinkOut w.useMc) = p at hpack ⊢
  have hused : Packs w p.useMc := hpack.trans
    (packs_of_waits p.mc.out p.hung (waits_useMc p) rfl)
  obtain ⟨hsent, hcode⟩ := nnConnOutBuffer_sends p.useMc
  have hsent := hused.trans hsent
  generalize nnConnOutBuffer p.useMc = r at hsent hcode ⊢
  by_cases hhung : p.hung = true
  · rw [if_pos hhung]
    exact Or.inr (Or.inl hhung)
  · rw [if_neg hhung]
    by_cases hzero : bufferSize p.useMc.mc.out = 0
    · rw [if_pos hzero]
      exact Or.inr (Or.inr (Or.inl ⟨hused, hzero⟩))
    · rw [if_neg hzero]
      rcases hcode with ⟨hok, hempty⟩ | herr | ⟨hagain, hoff⟩
      · rw [if_neg (by rw [hok]; decide), if_neg (by rw [hok]; decide)]
        exact ⟨hsent, hempty (hused.memory.trans hmemory)⟩
      · rw [if_pos herr]
        exact Or.inl (mc_nnConnFinalize _).1
      · rw [if_neg (by rw [hagain]; decide), if_pos hagain]
        have hawait : Outputs w (awaitWrite r.2) :=
          Or.inr (Or.inr (Or.inr ⟨r.2, hsent, hoff, rfl⟩))
        unfold awaitWrite at hawait
        split
        · next hfail =>
          simp only [if_pos hfail] at hawait
          exact hawait
        · next hfail =>
          simp only [if_neg hfail] at hawait
          exact hawait

def setHandler (w : World) : World :=
  { w with mc := { w.mc with writeEventHandler := true } }

theorem nnConnOutput_outputs {w : World} (hmemory : w.mc.out.memory = true) :
    (w.c.write.ready = false ∧ 0 < bufferSize w.mc.out ∧
        (nnConnOutput w).2.waits = w.waits) ∨
      Outputs (setHandler w) (nnConnOutput w).2 := by
  simp only [nnConnOutput]
  split
  · next hguard =>
    simp only [useMc_c, useMc_mc, Bool.and_eq_true, Bool.not_eq_true',
      decide_eq_true_eq] at hguard
    exact Or.inl ⟨hguard.1, hguard.2, waits_useMc w⟩
  · right
    have hstart : Packs (setHandler w) (setHandler w.useMc) := by
      refine packs_of_waits w.mc.out w.hung ?_ rfl
      change _ = { w.waits with writeEventHandler := true }
      rw [← waits_useMc w]
      rfl
    have hinner : forall {v}, Packs (setHandler w) v ->
        v.mc.out.memory = true := by
      intro v hv
      exact hv.memory.trans hmemory
    refine loop_keeps_turned _ (Packs (setHandler w))
      (fun v : World => bufferSize v.mc.out = 0)
      (fun r : Int × World => Outputs (setHandler w) r.2) ?_ ?_ ?_ hstart
    · intro v v' hv hturn
      obtain ⟨hkept, hempty⟩ := (nnConnOutputTurn_outputs (hinner hv)).of_next hturn
      exact ⟨hv.trans hkept, hempty⟩
    · intro v r hv hturn
      rcases (nnConnOutputTurn_outputs (hinner hv)).of_done hturn with
        hgone | hhung | ⟨hkept, hempty⟩ | ⟨u, hkept, hoff, heq⟩
      · exact Or.inl hgone
      · exact Or.inr (Or.inl hhung)
      · exact Or.inr (Or.inr (Or.inl ⟨hv.trans hkept, hempty⟩))
      · exact Or.inr (Or.inr (Or.inr ⟨u, hv.trans hkept, hoff, heq⟩))
    · intro v hv hempty
      exact Or.inr (Or.inr (Or.inl ⟨hv, hempty⟩))

theorem awaitWrite_kept (w : World) :
    (awaitWrite w).c.read = w.c.read ∧ (awaitWrite w).mc = w.mc ∧
      (awaitWrite w).hung = w.hung := by
  unfold awaitWrite
  simp only
  split <;> exact ⟨rfl, rfl, rfl⟩

/-- When `epoll_ctl` succeeds, the connection waits for its write event, with a
timer. -/
theorem awaitWrite_succeeds {w : World} (h : CtlsSucceed w.env)
    (hoff : w.c.write.ready = false) :
    (awaitWrite w).c.write =
        { w.c.write with active := true, timerSet := true } ∧
      CtlsSucceed (awaitWrite w).env := by
  obtain ⟨hok, hev, hrest⟩ := eventHandle_succeeds h hoff
  have hcode : (eventHandleWrite w).1 ≠ ngxError := by
    change (eventHandle w.env w.c.write).1 ≠ ngxError
    rw [hok]
    decide
  rw [awaitWrite, if_neg hcode]
  refine ⟨?_, hrest⟩
  simp only [eventHandleWrite, hev, eventTimerAdd]

/-!
## The handlers
-/

/-- `nn_conn_write_handler` on a connection that has not timed out deletes the
timer of the write event and calls `nn_conn_output`. -/
theorem nnConnWriteHandler_outputs (w : World) :
    (nnConnWriteHandler w).mc.state = ConnState.disconnected ∨
      (w.mc.state = ConnState.connected ∧ w.c.write.timedout = false ∧
        exists u : World, u.waits = w.waits.withWrite (eventTimerDel w.c.write) ∧
          nnConnWriteHandler w = (nnConnOutput u).2) := by
  have hused := waits_useMc w
  rw [← useMc_mc w, ← useMc_c w]
  simp only [nnConnWriteHandler]
  generalize w.useMc = u at hused ⊢
  rw [← hused]
  split
  · next hstate => exact Or.inl hstate
  · next hstate =>
    have hconn : u.mc.state = ConnState.connected := by
      cases hs : u.mc.state with
      | connected => rfl
      | disconnected => exact absurd hs hstate
    split
    · exact Or.inl (mc_nnConnFinalize u).1
    · next htimed =>
      refine Or.inr ⟨hconn, by simpa using htimed, _, ?_, rfl⟩
      split
      · rfl
      · next hset =>
        have hsame : eventTimerDel u.c.write = u.c.write := by
          have hoff : u.c.write.timerSet = false := by simpa using hset
          unfold eventTimerDel
          rw [← hoff]
        rw [hsame]
        rfl

end Request
end NgxEpoll
