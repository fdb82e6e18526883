import NgxEpoll.Server.Lives
import NgxEpoll.Request.Waiting

/-!
# What a connection of the server waits for

In every run, in whatever order the events, the timers and the completions come,
a connection that is up waits for its read event or for the timer of a slow
connection.
-/

namespace NgxEpoll
namespace Server

open Foundation
open NgxEpoll.Core
open Common
open Request
open Relation

/-- What a step does to the part of a connection that decides what it waits
for. -/
inductive Waited (w : World) : Label -> World -> Prop where
  | same {a : Label} {v : World} : v.waits = w.waits -> Waited w a v
  | closed {a : Label} {v : World} : v.mc.state = ConnState.disconnected ->
      Waited w a v
  | kernel (env : Env) : Waited w (Label.kernel env) { w with env := env }
  | poll (rd wr : Bool) : Waited w (Label.poll rd wr) (pollReady w rd wr)
  | busy {u v : World} : u.waits = w.waits -> v = nnConnBusy u ->
      Waited w Label.decodeIter v
  | write {u : World} : w.hung = false -> u.waits = w.waits ->
      Waited w Label.writeEvent (nnConnWriteHandler u)
  | slow {v : World} : w.hung = false ->
      v.waits = (nnConnTimerHandlerFront (expireSlow w)).2.waits ->
      Waited w Label.slowTimer v
  | timeout : w.hung = false -> w.c.write.timerSet = true ->
      Waited w Label.writeTimeout (processWrite (expireWrite w))
  | outtask {u : World} : w.hung = false -> u.waits = w.waits ->
      u.mc.state = ConnState.connected ->
      Waited w Label.outIter (nnConnOutput u).2

def CtlsHold (_ : State) : Label -> Prop
  | Label.kernel env => CtlsSucceed env
  | _ => True

theorem waited_recvIter (s : State) :
    Waited s.w Label.recvIter (recvIter s).w := by
  have hturn := waits_recvTurn s.w
  simp only [recvIter]
  cases hbody : nnConnRecvTurn s.w with
  | next w =>
      rw [hbody] at hturn
      exact Waited.same hturn
  | done r =>
      rw [hbody] at hturn
      simp only
      split
      · exact Waited.same ((waits_useMc r.2).trans hturn)
      · exact Waited.closed (mc_nnConnFinalize _).1

theorem waited_decodeIter (s : State) :
    Waited s.w Label.decodeIter (decodeIter s).w := by
  have hstep := waits_decodeStep (nnConnDecodeTurn_step s.w)
  rw [waits_useMc] at hstep
  simp only [decodeIter]
  rcases hstep with hsame | ⟨v, hv, hbody⟩
  · cases hbody : nnConnDecodeTurn s.w with
    | next w =>
        rw [hbody] at hsame
        exact Waited.same hsame
    | done r =>
        rw [hbody] at hsame
        simp only
        split
        · exact Waited.closed (mc_nnConnFinalize _).1
        · exact Waited.same hsame
  · rw [hbody]
    exact Waited.busy hv rfl

theorem waits_startRead (s : State) : (startRead s).w.waits = s.w.waits := by
  simp only [startRead]
  split
  · exact waits_useMc s.w
  · exact waits_useMc s.w

theorem waited_outtask {w : World} (n : Nat) (hhung : w.hung = false) :
    Waited w Label.outIter (nnConnOuttask w n).2 := by
  have hused := waits_useMc w
  simp only [nnConnOuttask]
  generalize w.useMc = u at hused ⊢
  split
  · exact Waited.same ((waits_nnConnFreeTask u n).trans hused)
  · next hstate =>
    refine Waited.outtask hhung (u := pushOut u n) hused ?_
    exact Classical.not_not.mp hstate

theorem waited_of_stepped {s s' : State} {a : Label} (h : Stepped s a s') :
    Waited s.w a s'.w := by
  cases h with
  | kernel env => exact Waited.kernel env
  | poll rd wr _ => exact Waited.poll rd wr
  | readEvent _ _ => exact Waited.same (waits_startRead s)
  | recvIter _ => exact waited_recvIter s
  | decodeIter _ => exact waited_decodeIter s
  | writeEvent hfree _ =>
      simp only [processWrite]
      split
      · exact Waited.write hfree.1 (waits_useMc s.w)
      · exact Waited.same (waits_useMc s.w)
  | slowTimer hfree _ =>
      refine Waited.slow hfree.1 ?_
      simp only [slowTimer]
      split
      · exact waits_startRead _
      · rfl
  | writeTimeout hfree hset => exact Waited.timeout hfree.1 hset
  | popBack i _ => exact Waited.same rfl
  | outDone _ => exact Waited.same rfl
  | outIter n q _ hhung => exact waited_outtask n hhung
  | popAll k _ _ _ => exact Waited.same rfl
  | handle k block result n rest _ _ =>
      cases result with
      | none => exact Waited.same (waits_useMc s.w)
      | some t => exact Waited.same (waits_useMc s.w)
  | wake k _ => exact Waited.same (waits_useMc s.w)

/-!
## Waiting for the peer
-/

/-- A connection that is up waits for its read event or for the timer of a slow
connection. -/
def Heard (w : World) : Prop :=
  w.mc.state = ConnState.connected ->
    w.c.read.active = true ∨ w.mc.evTimer.timerSet = true

/-- What every step keeps of the read event: it is ready only if it is
registered. -/
structure Hearing (x : Waits) : Prop where
  memory : x.out.memory = true
  ready : x.c.read.ready = true -> x.c.read.active = true
  heard : x.c.read.active = true ∨ x.evTimer.timerSet = true

/-- The invariant of a connection that is up, as long as its thread is not
lost in a loop. -/
def Hears (x : Waits) : Prop :=
  x.state = ConnState.connected -> x.hung = false -> Hearing x

theorem Hearing.of_same {x y : Waits} (h : Hearing x)
    (hread : y.c.read = x.c.read) (htimer : y.evTimer = x.evTimer)
    (hmemory : y.out.memory = x.out.memory) : Hearing y where
  memory := hmemory.trans h.memory
  ready := by
    rw [hread]
    exact h.ready
  heard := by
    rw [hread, htimer]
    exact h.heard

theorem Hearing.packs {w v : World} (h : Hearing w.waits) (hkept : Packs w v) :
    Hearing v.waits := by
  have hread : v.c.read = w.c.read := by rw [hkept.c]
  exact h.of_same hread hkept.evTimer hkept.memory

theorem Hearing.outputs {w v : World} (h : Hearing w.waits)
    (hout : Outputs w v) : Hears v.waits := by
  intro hconn hhung
  rcases hout with hgone | hlost | ⟨hkept, _⟩ | ⟨u, hkept, _, rfl⟩
  · rw [show v.mc.state = ConnState.connected from hconn] at hgone
    cases hgone
  · rw [show v.hung = false from hhung] at hlost
    cases hlost
  · exact h.packs hkept
  · obtain ⟨hread, hmc, _⟩ := awaitWrite_kept u
    exact (h.packs hkept).of_same hread (congrArg NnConn.evTimer hmc)
      (congrArg (fun mc => mc.out.memory) hmc)

theorem Hearing.nnConnOutput {w : World} (h : Hearing w.waits) :
    Hears (nnConnOutput w).2.waits := by
  rcases nnConnOutput_outputs h.memory with ⟨_, _, hsame⟩ | hout
  · rw [hsame]
    exact fun _ _ => h
  · exact Hearing.outputs (w := setHandler w) (h.of_same rfl rfl rfl) hout

theorem Hears.nnConnWriteHandler {w : World} {ev : Event} (h : Hears w.waits)
    (hhung : w.hung = false) {u : World}
    (hu : u.waits = w.waits.withWrite ev) :
    Hears (nnConnWriteHandler u).waits := by
  rcases nnConnWriteHandler_outputs u with hgone | ⟨hconn, _, v, hv, heq⟩
  · intro hconn _
    rw [show (Request.nnConnWriteHandler u).mc.state = _ from hconn] at hgone
    cases hgone
  · have hw := h ((congrArg Waits.state hu).symm.trans hconn) hhung
    rw [heq]
    apply Hearing.nnConnOutput
    rw [hv, hu]
    exact hw.of_same rfl rfl rfl

theorem eventHandleRead_active {w : World}
    (hready : w.c.read.ready = true -> w.c.read.active = true)
    (hok : (eventHandleRead w).1 = ngxOk) :
    (eventHandleRead w).2.c.read = { w.c.read with active := true } := by
  change (eventHandle w.env w.c.read).1 = ngxOk at hok
  change (eventHandle w.env w.c.read).2.1 = _
  unfold eventHandle at hok ⊢
  split
  · next hoff =>
    rw [if_pos hoff] at hok
    simp only [epollAddEvent] at hok ⊢
    split
    · rfl
    · next hfail =>
      rw [if_neg hfail] at hok
      cases hok
  · next hon =>
    have hactive : w.c.read.active = true := by
      cases ha : w.c.read.active with
      | true => rfl
      | false =>
          cases hr : w.c.read.ready with
          | true => rw [← ha]; exact hready hr
          | false => exact absurd (by simp [ha, hr]) hon
    rw [← hactive]

theorem eventHandleRead_code {w : World}
    (h : ¬ (eventHandleRead w).1 = ngxError) : (eventHandleRead w).1 = ngxOk := by
  change ¬ (eventHandle w.env w.c.read).1 = ngxError at h
  change (eventHandle w.env w.c.read).1 = ngxOk
  simp only [eventHandle, epollAddEvent] at h ⊢
  split
  · next hoff =>
    rw [if_pos hoff] at h
    split
    · rfl
    · next hfail =>
      rw [if_neg hfail] at h
      exact absurd rfl h
  · rfl

theorem Hearing.slow {w : World} (h : Hearing w.waits)
    (hhung : w.hung = false) :
    Hears (nnConnTimerHandlerFront (expireSlow w)).2.waits := by
  have hused := waits_useMc (expireSlow w)
  simp only [nnConnTimerHandlerFront]
  generalize (expireSlow w).useMc = u at hused ⊢
  have hc : u.c = w.c := congrArg Waits.c hused
  have hout : u.mc.out = w.mc.out := congrArg Waits.out hused
  have hhung : u.hung = false := (congrArg Waits.hung hused).trans hhung
  let v : World :=
    { u with mc := { u.mc with evTimer := eventTimerDel u.mc.evTimer } }
  change Hears (if (eventHandleRead v).1 ≠ ngxOk then _ else _ : Bool × World).2.waits
  split
  · intro hconn _
    have hgone := (mc_nnConnFinalize (eventHandleRead v).2).1
    rw [show (nnConnFinalize (eventHandleRead v).2).mc.state = _ from hconn]
      at hgone
    cases hgone
  · next hok =>
    have hready : v.c.read.ready = true -> v.c.read.active = true := by
      change u.c.read.ready = true -> u.c.read.active = true
      rw [hc]
      exact h.ready
    have hread := eventHandleRead_active hready (Classical.not_not.mp hok)
    refine Hears.nnConnWriteHandler (w := (eventHandleRead v).2) ?_ hhung rfl
    refine fun _ _ => ⟨?_, fun _ => ?_, Or.inl ?_⟩
    · change u.mc.out.memory = true
      rw [hout]
      exact h.memory
    · change (eventHandleRead v).2.c.read.active = true
      rw [hread]
    · change (eventHandleRead v).2.c.read.active = true
      rw [hread]

theorem hears_of_waited {w v : World} {a : Label} (h : Hears w.waits)
    (hstep : Waited w a v) : Hears v.waits := by
  cases hstep with
  | same heq =>
      rw [heq]
      exact h
  | closed hgone =>
      intro hconn _
      rw [show v.mc.state = _ from hconn] at hgone
      cases hgone
  | kernel env =>
      intro hconn hhung
      have hw := h hconn hhung
      exact ⟨hw.memory, hw.ready, hw.heard⟩
  | poll rd wr =>
      intro hconn hhung
      have hw := h hconn hhung
      refine ⟨hw.memory, fun hon => ?_, hw.heard⟩
      simp only [World.waits, pollReady, Bool.or_eq_true, Bool.and_eq_true]
        at hon
      rcases hon with hon | ⟨_, hon⟩
      · exact hw.ready hon
      · exact hon
  | busy hu heq =>
      rw [heq]
      intro hconn hhung
      have hw := h ((congrArg Waits.state hu).symm.trans hconn)
        ((congrArg Waits.hung hu).symm.trans hhung)
      rw [← hu] at hw
      refine ⟨hw.memory, fun hon => ?_, Or.inr rfl⟩
      exact absurd ((nnConnBusy_ready _).symm.trans hon) (by simp)
  | write hhung hu => exact h.nnConnWriteHandler hhung hu
  | slow hhung heq =>
      rw [heq]
      intro hconn
      have hold : w.mc.state = ConnState.connected := connected_of_moves
        (ReflTransGen.trans (expireSlow_moves w)
          (nnConnTimerHandlerFront_moves _)) hconn
      exact (h hold hhung).slow hhung hconn
  | timeout hhung hset =>
      simp only [processWrite]
      split
      · exact h.nnConnWriteHandler hhung (waits_useMc _)
      · intro hconn _
        rw [waits_useMc] at hconn ⊢
        have hw := h hconn hhung
        exact ⟨hw.memory, hw.ready, hw.heard⟩
  | outtask hhung hu hconn =>
      have hw := h ((congrArg Waits.state hu).symm.trans hconn) hhung
      rw [← hu] at hw
      exact hw.nnConnOutput

theorem Started.output {s : State} (h : Started s) :
    s.w.c.write = eventNew ∧
      exists a size, 0 < size ∧ s.w.mc.out = bufferCreate a size := by
  cases h with
  | up conf allocs mem fd env taskNum threadId w _ _ hinit =>
      obtain ⟨inBuf, out, buff, ev, env', _, hout, _, rfl⟩ := nnConnInit_up hinit
      refine ⟨rfl, ?_⟩
      obtain ⟨a, _, rfl⟩ := bufferAt_eq_some hout
      refine ⟨a, outSize conf, Nat.pos_of_ne_zero fun hzero => ?_, rfl⟩
      rw [bufferAt, if_pos hzero] at hout
      cases hout

theorem Started.hears {s : State} (h : Started s) : Hears s.w.waits := by
  cases h with
  | up conf allocs mem fd env taskNum threadId w _ _ hinit =>
      intro _ _
      unfold nnConnInit at hinit
      split at hinit
      · cases hinit
      · split at hinit
        · next inBuf out hin hout =>
          split at hinit
          · simp only at hinit
            split at hinit
            · cases hinit
            · next hcode =>
              cases hinit
              obtain ⟨a, _, rfl⟩ := bufferAt_eq_some hout
              have hread := eventHandleRead_active
                (fun hon => (by cases hon)) (eventHandleRead_code hcode)
              refine ⟨rfl, fun hon => ?_, Or.inl ?_⟩
              · exact congrArg Event.active hread
              · exact congrArg Event.active hread
          · cases hinit
        · cases hinit

theorem heard_of_run (s s' : State) (hstart : Started s)
    (hrun : Reaches step Always s s') (hfree : s'.Free) : Heard s'.w := by
  intro hconn
  have hinv : Hears s'.w.waits := Reaches.invariant (fun t => Hears t.w.waits)
    (fun t a u ht _ hstep => hears_of_waited ht
      (waited_of_stepped (stepped_of_step hstep))) hrun hstart.hears
  exact (hinv hconn hfree.1).heard

def busyServer : State :=
  after step smallStart
    (receive (taskFrame testTask [] ++ taskFrame testTask []) ++
      [Label.decodeIter, Label.decodeIter, Label.decodeIter])

theorem heard_busyServer :
    busyServer.w.mc.state = ConnState.connected ∧
      busyServer.w.c.read.active = false ∧ Heard busyServer.w := by
  have hrun : Reaches step Always smallStart busyServer := by
    apply (Reaches.refl smallStart).labels
    · exact fun _ _ _ => trivial
    · decide +kernel
  exact ⟨by decide +kernel, by decide +kernel,
    heard_of_run smallStart busyServer smallStart_started hrun
      ⟨by decide +kernel, by decide +kernel⟩⟩

end Server
end NgxEpoll
