import NgxEpoll.Server.Waiting

/-!
# The timer of the write event

A connection with unsent bytes whose write event is not ready should have a
timer, so that a peer that stops reading is timed out.  `nn_conn_output` sets
it; `nn_conn_write_handler` deletes it and relies on `nn_conn_output` to set it
again, which returns at once when the write event is not ready.
-/

namespace NgxEpoll
namespace Server

open Foundation
open NgxEpoll.Core
open Common
open Request
open Relation

/-- The timer of the write event is set while unsent bytes wait for an event
that is not ready. -/
def Armed (w : World) : Prop :=
  w.mc.state = ConnState.connected -> w.c.write.ready = false ->
    0 < bufferSize w.mc.out -> w.c.write.timerSet = true

/-- The write event is ready, or there is nothing to send. -/
def WriteReady (w : World) : Prop :=
  w.c.write.ready = true ∨ bufferSize w.mc.out ≤ 0

/-- `epoll_ctl` succeeds, and `nn_conn_write_handler` is called only when the
write event is ready or there is nothing to send. -/
def HandlesReady (s : State) : Label -> Prop
  | Label.kernel env => CtlsSucceed env
  | Label.writeEvent => WriteReady s.w
  | Label.slowTimer => WriteReady s.w
  | _ => True

structure Arming (x : Waits) : Prop where
  memory : x.out.memory = true
  ctls : forall ok, ok ∈ x.ctls -> ok = true
  handler : x.c.write.timerSet = true -> x.writeEventHandler = true
  armed : x.c.write.ready = false -> 0 < bufferSize x.out ->
    x.c.write.timerSet = true

def Arms (x : Waits) : Prop :=
  x.state = ConnState.connected -> x.hung = false -> Arming x

theorem arms_of_gone {x : Waits} (h : x.state = ConnState.disconnected) :
    Arms x := by
  intro hconn
  rw [h] at hconn
  cases hconn

theorem arms_outputs {w v : World} (hmemory : w.mc.out.memory = true)
    (hctls : CtlsSucceed w.env) (hhandler : w.mc.writeEventHandler = true)
    (hout : Outputs w v) : Arms v.waits := by
  rcases hout with hgone | hlost | ⟨hkept, hempty⟩ | ⟨u, hkept, hoff, rfl⟩
  · exact arms_of_gone hgone
  · intro _ hhung
    rw [show v.hung = false from hhung] at hlost
    cases hlost
  · intro _ _
    refine ⟨hkept.memory.trans hmemory, ?_, fun _ => ?_, fun _ hsize => ?_⟩
    · change forall ok, ok ∈ v.env.ctls -> ok = true
      rw [hkept.ctls]
      exact hctls
    · exact hkept.handler.trans hhandler
    · rw [show bufferSize v.waits.out = 0 from hempty] at hsize
      exact absurd hsize (Int.lt_irrefl 0)
  · intro _ _
    have hu : CtlsSucceed u.env := by
      unfold CtlsSucceed
      rw [hkept.ctls]
      exact hctls
    obtain ⟨hwrite, hrest⟩ := awaitWrite_succeeds hu hoff
    obtain ⟨_, hmc, _⟩ := awaitWrite_kept u
    refine ⟨?_, hrest, fun _ => ?_, fun _ _ => ?_⟩
    · exact (congrArg (fun mc => mc.out.memory) hmc).trans
        (hkept.memory.trans hmemory)
    · exact (congrArg NnConn.writeEventHandler hmc).trans
        (hkept.handler.trans hhandler)
    · exact congrArg Event.timerSet hwrite

theorem Arming.nnConnOutput {w : World} (h : Arming w.waits) :
    Arms (nnConnOutput w).2.waits := by
  rcases nnConnOutput_outputs h.memory with ⟨_, _, hsame⟩ | hout
  · rw [hsame]
    exact fun _ _ => h
  · exact arms_outputs (w := setHandler w) h.memory h.ctls rfl hout

/-- The write handler deletes the timer, which is set again unless the event is
not ready and there are bytes to send. -/
theorem arms_nnConnWriteHandler {w : World}
    (h : w.mc.state = ConnState.connected ->
      w.mc.out.memory = true ∧ CtlsSucceed w.env) (hready : WriteReady w) :
    Arms (nnConnWriteHandler w).waits := by
  rcases nnConnWriteHandler_outputs w with hgone | ⟨hconn, _, u, hu, heq⟩
  · exact arms_of_gone hgone
  · obtain ⟨hmemory, hctls⟩ := h hconn
    rw [heq]
    apply Arming.nnConnOutput
    rw [hu]
    refine ⟨hmemory, hctls, fun hset => (by cases hset), fun hoff hsize => ?_⟩
    rcases hready with hon | hempty
    · exact absurd (hon.symm.trans hoff) (by simp)
    · exact absurd hsize (Int.not_lt.mpr hempty)

theorem arms_slow {w : World} (h : Arms w.waits) (hhung : w.hung = false)
    (hready : WriteReady w) :
    Arms (nnConnTimerHandlerFront (expireSlow w)).2.waits := by
  have hused := waits_useMc (expireSlow w)
  simp only [nnConnTimerHandlerFront]
  generalize (expireSlow w).useMc = u at hused ⊢
  have hc : u.c = w.c := congrArg Waits.c hused
  have hout : u.mc.out = w.mc.out := congrArg Waits.out hused
  split
  · exact arms_of_gone (mc_nnConnFinalize _).1
  · refine arms_nnConnWriteHandler (fun hconn => ?_) ?_
    · have hw := h ((congrArg Waits.state hused).symm.trans hconn) hhung
      refine ⟨?_, ctlsSucceed_eventHandle _ ?_⟩
      · exact (congrArg Buffer.memory hout).trans hw.memory
      · unfold CtlsSucceed
        rw [show u.env.ctls = w.env.ctls from congrArg Waits.ctls hused]
        exact hw.ctls
    · unfold WriteReady
      change u.c.write.ready = true ∨ bufferSize u.mc.out ≤ 0
      rw [hc, hout]
      exact hready

theorem arms_of_waited {s : State} {v : World} {a : Label}
    (h : Arms s.w.waits) (hok : HandlesReady s a) (hstep : Waited s.w a v) :
    Arms v.waits := by
  cases hstep with
  | same heq =>
      rw [heq]
      exact h
  | closed hgone => exact arms_of_gone hgone
  | kernel env =>
      intro hconn hhung
      have hw := h hconn hhung
      exact ⟨hw.memory, hok, hw.handler, hw.armed⟩
  | poll rd wr =>
      intro hconn hhung
      have hw := h hconn hhung
      refine ⟨hw.memory, hw.ctls, hw.handler, fun hoff => hw.armed ?_⟩
      simp only [World.waits, pollReady, Bool.or_eq_false_iff] at hoff
      exact hoff.1
  | busy hu heq =>
      rw [heq]
      intro hconn hhung
      have hw := h ((congrArg Waits.state hu).symm.trans hconn)
        ((congrArg Waits.hung hu).symm.trans hhung)
      rw [← hu] at hw
      exact ⟨hw.memory, ctlsSucceed_nnConnBusy hw.ctls, hw.handler, hw.armed⟩
  | write hhung hu =>
      rename_i u
      refine arms_nnConnWriteHandler (fun hconn => ?_) ?_
      · have hw := h ((congrArg Waits.state hu).symm.trans hconn) hhung
        rw [← hu] at hw
        exact ⟨hw.memory, hw.ctls⟩
      · have hc : u.c = s.w.c := congrArg Waits.c hu
        have hout : u.mc.out = s.w.mc.out := congrArg Waits.out hu
        unfold WriteReady
        rw [hc, hout]
        exact hok
  | slow hhung heq =>
      rw [heq]
      exact arms_slow h hhung hok
  | timeout hhung hset =>
      simp only [processWrite]
      split
      · rcases nnConnWriteHandler_outputs (expireWrite s.w).useMc with
          hgone | ⟨_, htimed, _⟩
        · exact arms_of_gone hgone
        · rw [useMc_c] at htimed
          cases htimed
      · next hhandler =>
        -- A timer is set only together with the handler.
        rw [useMc_mc] at hhandler
        intro hconn _
        rw [waits_useMc] at hconn
        exact absurd ((h hconn hhung).handler hset) hhandler
  | outtask hhung hu hconn =>
      have hw := h ((congrArg Waits.state hu).symm.trans hconn) hhung
      rw [← hu] at hw
      exact hw.nnConnOutput

theorem Started.arms {s : State} (h : Started s)
    (hctls : CtlsSucceed s.w.env) : Arms s.w.waits := by
  obtain ⟨hwrite, a, size, _, hout⟩ := h.output
  refine fun _ _ => ⟨congrArg Buffer.memory hout, hctls, fun hset => ?_,
    fun _ hsize => ?_⟩
  · rw [show s.w.waits.c.write = eventNew from hwrite] at hset
    cases hset
  · rw [show s.w.waits.out = bufferCreate a size from hout] at hsize
    exact absurd hsize (Int.not_lt.mpr (Int.le_of_eq (Int.sub_self (a : Int))))

theorem armed_of_run (s s' : State) (hstart : Started s)
    (hctls : CtlsSucceed s.w.env) (hrun : Reaches step HandlesReady s s')
    (hfree : s'.Free) : Armed s'.w := by
  have hinv : Arms s'.w.waits := Reaches.invariant (fun t => Arms t.w.waits)
    (fun t a u ht hok hstep => arms_of_waited ht hok
      (waited_of_stepped (stepped_of_step hstep))) hrun (hstart.arms hctls)
  exact fun hconn => (hinv hconn hfree.1).armed

/-!
## A peer that stops reading
-/

/-- One of two requests has been answered, and the peer does not read. -/
def unsentServer : State :=
  let taken := after step busyServer [Label.popAll 0]
  after step taken
    [Label.handle 0 none (some (taskTest (taken.w.mc.nodes 0))),
      Label.popBack 0, Label.outIter, Label.outIter]

theorem unsentServer_reached :
    Reaches step HandlesReady smallStart unsentServer := by
  have hbusy : Reaches step HandlesReady smallStart busyServer := by
    apply (Reaches.refl smallStart).labels
    · intro a ha r
      simp only [receive, List.cons_append, List.nil_append, List.mem_cons,
        List.not_mem_nil, or_false] at ha
      rcases ha with rfl | rfl | rfl | rfl | rfl | rfl | rfl
      · intro ok hok
        cases hok
      all_goals trivial
    · decide +kernel
  have htaken : Reaches step HandlesReady smallStart
      (after step busyServer [Label.popAll 0]) :=
    hbusy.oneLabel trivial (by decide +kernel)
  apply htaken.labels
  · intro a ha r
    simp only [List.mem_cons, List.not_mem_nil, or_false] at ha
    rcases ha with rfl | rfl | rfl | rfl <;> trivial
  · decide +kernel

theorem unsentServer_waits :
    (unsentServer.w.mc.state = ConnState.connected ∧
      unsentServer.w.c.write.ready = false ∧
      0 < bufferSize unsentServer.w.mc.out) ∧
    unsentServer.w.hung = false ∧ unsentServer.pc = Pc.idle := by
  decide +kernel

theorem armed_unsentServer :
    unsentServer.w.mc.state = ConnState.connected ∧
      unsentServer.w.c.write.ready = false ∧
      0 < bufferSize unsentServer.w.mc.out ∧ Armed unsentServer.w := by
  obtain ⟨⟨hstate, hready, hsize⟩, hfree⟩ := unsentServer_waits
  exact ⟨hstate, hready, hsize, armed_of_run smallStart unsentServer
    smallStart_started (fun _ hok => (by cases hok)) unsentServer_reached hfree⟩

/-- The timer of the slow connection has gone off, and its handlers have
returned. -/
def lapsedServer : State :=
  after step unsentServer
    [Label.slowTimer, Label.recvIter, Label.decodeIter]

theorem lapsedServer_waits :
    ((lapsedServer.w.mc.state = ConnState.connected ∧
      lapsedServer.w.c.write.ready = false ∧
      0 < bufferSize lapsedServer.w.mc.out) ∧
    lapsedServer.w.hung = false ∧ lapsedServer.pc = Pc.idle) ∧
    ¬ lapsedServer.w.c.write.timerSet = true := by
  decide +kernel

theorem armed_lapsedServer_fails :
    Started smallStart ∧ CtlsSucceed smallStart.w.env ∧
      Reaches step CtlsHold smallStart lapsedServer ∧ lapsedServer.Free ∧
      ¬ Armed lapsedServer.w := by
  have hunsent : Reaches step CtlsHold smallStart unsentServer := by
    apply unsentServer_reached.mono
    intro s a hok
    cases a with
    | kernel env => exact hok
    | _ => trivial
  obtain ⟨⟨⟨hstate, hready, hsize⟩, hfree⟩, hunset⟩ := lapsedServer_waits
  refine ⟨smallStart_started, fun _ hok => (by cases hok), ?_, hfree,
    fun harmed => hunset (harmed hstate hready hsize)⟩
  apply hunsent.labels
  · intro a ha r
    simp only [List.mem_cons, List.not_mem_nil, or_false] at ha
    rcases ha with rfl | rfl | rfl <;> trivial
  · decide +kernel

end Server
end NgxEpoll
