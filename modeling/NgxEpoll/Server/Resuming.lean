import NgxEpoll.Server.Waiting

/-!
# Resuming the output

`nn_conn_output` returns with nothing left to send or leaves the write event
registered, so that the rest is sent when the peer reads.  A response that does
not fit into the empty output buffer is left in `out_task` with neither, unless
the write event was registered before.
-/

namespace NgxEpoll
namespace Server

open Foundation
open NgxEpoll.Core
open Common
open Request
open Relation

/-- When `nn_conn_output` returns on a connection that is still up, nothing is
left to send or the write event is registered. -/
def Resumes (w : World) : Prop :=
  let v := (nnConnOutput w).2
  v.hung = false -> v.mc.state = ConnState.connected ->
    (v.mc.outTask = [] ∧ bufferSize v.mc.out = 0) ∨ v.c.write.active = true

/-- The frame of the task is larger than the whole buffer, in the `int`
arithmetic of `task_encode2str`. -/
def TooLarge (b : Buffer) (t : TaskT) : Prop :=
  cInt (b.endPtr - b.start) < cInt t.frameSize

/-- A connection with other responses queued and other answers of `send` to
come. -/
def withQueue (w : World) (queue : List Nat) (nodes : Nat -> TaskT)
    (sends : List SendResult) : World :=
  { w with
    mc := { w.mc with outTask := queue, nodes := nodes }
    env := { w.env with sends := sends } }

/-!
## The write event is registered before anything is left to send
-/

/-- Until the write event is registered it is not ready and the output buffer is
empty. -/
structure Resuming (x : Waits) : Prop where
  memory : x.out.memory = true
  room : x.out.start < x.out.endPtr
  ctls : forall ok, ok ∈ x.ctls -> ok = true
  waiting : x.c.write.active = true ∨
    x.c.write.ready = false ∧ bufferSize x.out = 0

def Resumable (x : Waits) : Prop :=
  x.state = ConnState.connected -> x.hung = false -> Resuming x

theorem resumable_of_gone {x : Waits} (h : x.state = ConnState.disconnected) :
    Resumable x := by
  intro hconn
  rw [h] at hconn
  cases hconn

theorem Resuming.of_same {x y : Waits} (h : Resuming x) (hout : y.out = x.out)
    (hctls : forall ok, ok ∈ y.ctls -> ok = true)
    (hactive : y.c.write.active = x.c.write.active)
    (hready : y.c.write.ready = x.c.write.ready) : Resuming y where
  memory := by rw [hout]; exact h.memory
  room := by rw [hout]; exact h.room
  ctls := hctls
  waiting := by rw [hout, hactive, hready]; exact h.waiting

theorem Resuming.packs {w v : World} (h : Resuming w.waits) (hkept : Packs w v)
    (hempty : bufferSize v.mc.out = 0) : Resuming v.waits := by
  have hblock : v.mc.out.start < v.mc.out.endPtr := by
    have hstart : v.mc.out.start = w.mc.out.start := congrArg Prod.fst hkept.block
    have hend : v.mc.out.endPtr = w.mc.out.endPtr :=
      congrArg (fun b => b.2.1) hkept.block
    rw [hstart, hend]
    exact h.room
  refine ⟨hkept.memory.trans h.memory, hblock, ?_, ?_⟩
  · rw [show v.waits.ctls = w.waits.ctls from hkept.ctls]
    exact h.ctls
  · rcases h.waiting with hactive | ⟨hoff, _⟩
    · left
      change v.c.write.active = true
      rw [hkept.c]
      exact hactive
    · refine Or.inr ⟨?_, hempty⟩
      cases hr : v.c.write.ready with
      | true => exact absurd ((hkept.ready hr).symm.trans hoff) (by simp)
      | false => exact hr

theorem Resuming.outputs {w v : World} (h : Resuming w.waits)
    (hout : Outputs w v) : Resumable v.waits := by
  rcases hout with hgone | hlost | ⟨hkept, hempty⟩ | ⟨u, hkept, hoff, rfl⟩
  · exact resumable_of_gone hgone
  · intro _ hhung
    rw [show v.hung = false from hhung] at hlost
    cases hlost
  · exact fun _ _ => h.packs hkept hempty
  · intro _ _
    have hctls : CtlsSucceed u.env := by
      unfold CtlsSucceed
      rw [hkept.ctls]
      exact h.ctls
    obtain ⟨hwrite, hrest⟩ := awaitWrite_succeeds hctls hoff
    obtain ⟨_, hmc, _⟩ := awaitWrite_kept u
    have hblock : (awaitWrite u).mc.out.block = w.mc.out.block :=
      (congrArg (fun mc => mc.out.block) hmc).trans hkept.block
    refine ⟨?_, ?_, hrest, Or.inl (congrArg Event.active hwrite)⟩
    · exact (congrArg (fun b => b.2.2) hblock).trans h.memory
    · have hroom := h.room
      rw [show w.waits.out.start = (awaitWrite u).mc.out.start from
        (congrArg Prod.fst hblock).symm,
        show w.waits.out.endPtr = (awaitWrite u).mc.out.endPtr from
        (congrArg (fun b => b.2.1) hblock).symm] at hroom
      exact hroom

theorem Resuming.nnConnOutput {w : World} (h : Resuming w.waits) :
    Resumable (nnConnOutput w).2.waits := by
  rcases nnConnOutput_outputs h.memory with ⟨_, _, hsame⟩ | hout
  · rw [hsame]
    exact fun _ _ => h
  · exact Resuming.outputs (w := setHandler w)
      (h.of_same rfl h.ctls rfl rfl) hout

theorem Resumable.nnConnWriteHandler {w : World} (h : Resumable w.waits)
    (hhung : w.hung = false) : Resumable (nnConnWriteHandler w).waits := by
  rcases nnConnWriteHandler_outputs w with hgone | ⟨hconn, _, v, hv, heq⟩
  · exact resumable_of_gone hgone
  · have hw := h hconn hhung
    rw [heq]
    apply Resuming.nnConnOutput
    rw [hv]
    exact hw.of_same rfl hw.ctls rfl rfl

theorem Resumable.slow {w : World} (h : Resumable w.waits)
    (hhung : w.hung = false) :
    Resumable (nnConnTimerHandlerFront (expireSlow w)).2.waits := by
  have hused := waits_useMc (expireSlow w)
  simp only [nnConnTimerHandlerFront]
  generalize (expireSlow w).useMc = u at hused ⊢
  have hhung' : u.hung = false := (congrArg Waits.hung hused).trans hhung
  split
  · exact resumable_of_gone (mc_nnConnFinalize _).1
  · refine Resumable.nnConnWriteHandler (fun hconn _ => ?_) hhung'
    have hw := h ((congrArg Waits.state hused).symm.trans hconn) hhung
    have hc : u.c = w.c := congrArg Waits.c hused
    have hout : u.mc.out = w.mc.out := congrArg Waits.out hused
    refine hw.of_same hout ?_ ?_ ?_
    · apply ctlsSucceed_eventHandle
      unfold CtlsSucceed
      rw [show u.env.ctls = w.env.ctls from congrArg Waits.ctls hused]
      exact hw.ctls
    · exact congrArg (fun c => c.write.active) hc
    · exact congrArg (fun c => c.write.ready) hc

theorem resumable_of_waited {s : State} {v : World} {a : Label}
    (h : Resumable s.w.waits) (hok : CtlsHold s a) (hstep : Waited s.w a v) :
    Resumable v.waits := by
  cases hstep with
  | same heq =>
      rw [heq]
      exact h
  | closed hgone => exact resumable_of_gone hgone
  | kernel env =>
      intro hconn hhung
      exact (h hconn hhung).of_same rfl hok rfl rfl
  | poll rd wr =>
      intro hconn hhung
      have hw := h hconn hhung
      refine ⟨hw.memory, hw.room, hw.ctls, ?_⟩
      rcases hw.waiting with hactive | ⟨hoff, hempty⟩
      · exact Or.inl hactive
      · cases hactive : s.w.c.write.active with
        | true => exact Or.inl hactive
        | false =>
            have hoff : s.w.c.write.ready = false := hoff
            refine Or.inr ⟨?_, hempty⟩
            simp [World.waits, pollReady, hactive, hoff]
  | busy hu heq =>
      rw [heq]
      intro hconn hhung
      have hw := h ((congrArg Waits.state hu).symm.trans hconn)
        ((congrArg Waits.hung hu).symm.trans hhung)
      rw [← hu] at hw
      exact hw.of_same rfl (ctlsSucceed_nnConnBusy hw.ctls) rfl rfl
  | write hhung hu =>
      rw [← hu] at h
      exact h.nnConnWriteHandler ((congrArg Waits.hung hu).trans hhung)
  | slow hhung heq =>
      rw [heq]
      exact h.slow hhung
  | timeout hhung hset =>
      have hexpired : Resumable (expireWrite s.w).useMc.waits := by
        rw [waits_useMc]
        intro hconn _
        have hw := h hconn hhung
        exact hw.of_same rfl hw.ctls rfl rfl
      simp only [processWrite]
      split
      · exact hexpired.nnConnWriteHandler ((useMc_hung _).trans hhung)
      · exact hexpired
  | outtask hhung hu hconn =>
      have hw := h ((congrArg Waits.state hu).symm.trans hconn) hhung
      rw [← hu] at hw
      exact hw.nnConnOutput

theorem Started.resumable {s : State} (h : Started s)
    (hctls : CtlsSucceed s.w.env) : Resumable s.w.waits := by
  obtain ⟨hwrite, a, size, hsize, hout⟩ := h.output
  have hbuf : s.w.waits.out = bufferCreate a size := hout
  refine fun _ _ => ⟨?_, ?_, hctls, Or.inr ⟨congrArg Event.ready hwrite, ?_⟩⟩
  · rw [hbuf]
    rfl
  · rw [hbuf]
    exact Nat.lt_add_of_pos_right hsize
  · rw [hbuf]
    exact Int.sub_self (a : Int)

/-!
## The first response
-/

theorem needSize_eq_cInt (t : TaskT) :
    cInt (intSize + taskSize + intSize + t.dataLen.toInt) = cInt t.frameSize := by
  unfold TaskT.frameSize headerSize
  push_cast
  rfl

/-- A frame size that does not overflow is positive, and one that overflows is
none of the codes. -/
theorem needSize_cases {t : TaskT} (hlen : 0 ≤ t.dataLen.toInt) :
    0 < cInt t.frameSize ∨ cInt t.frameSize < ngxAgain := by
  have hlt := t.dataLen.toInt_lt
  have hframe : t.frameSize = 344 + t.dataLen.toInt := rfl
  rw [cInt_eq, hframe]
  unfold ngxAgain
  split
  · omega
  · omega

theorem taskEncode2str_code (m : Mem) (t : TaskT) (buff : Nat) (len : Int) :
    (taskEncode2str m t buff len).1 =
      if len < cInt t.frameSize then ngxAgain else cInt t.frameSize := by
  simp only [taskEncode2str, needSize_eq_cInt]
  split <;> rfl

theorem encode_empty {w : World} {n : Nat}
    (hlast : w.mc.out.last = w.mc.out.start)
    (hroom : w.mc.out.start < w.mc.out.endPtr)
    (hlen : 0 ≤ (w.mc.nodes n).dataLen.toInt) :
    (TooLarge w.mc.out (w.mc.nodes n) ∧ encodeCode w n = ngxAgain) ∨
      (¬ TooLarge w.mc.out (w.mc.nodes n) ∧
        (encodeCode w n = ngxOk ∧
            w.mc.out.last < (encodeNode w n).mc.out.last ∨
          encodeCode w n < ngxAgain)) := by
  have hfree : bufferFreeSize w.mc.out = w.mc.out.endPtr - w.mc.out.start := by
    rw [bufferFreeSize, hlast]
  have hpos : ¬ bufferFreeSize w.mc.out ≤ 0 := by
    rw [hfree]
    omega
  have hcode := taskEncode2str_code w.mem (w.mc.nodes n) w.mc.out.last
    (cInt (bufferFreeSize w.mc.out))
  simp only [encodeCode, encodeNode, taskEncode, if_neg hpos, TooLarge]
  rw [← hfree]
  by_cases hlarge : cInt (bufferFreeSize w.mc.out) <
      cInt (w.mc.nodes n).frameSize
  · rw [if_pos hlarge] at hcode
    refine Or.inl ⟨hlarge, ?_⟩
    rw [if_pos (by rw [hcode]; decide)]
    exact hcode
  · rw [if_neg hlarge] at hcode
    refine Or.inr ⟨hlarge, ?_⟩
    rcases needSize_cases hlen with hneed | hneed
    · left
      rw [if_neg (by rw [hcode]; omega)]
      refine ⟨rfl, ?_⟩
      change w.mc.out.last < w.mc.out.last + _
      omega
    · right
      rw [if_pos (by rw [hcode]; unfold ngxAgain at hneed; omega), hcode]
      exact hneed

theorem nnConnPackTurn_lowers :
    Lowers (fun _ => True) (fun w : World => w.mc.outTask.length)
      nnConnPackTurn := by
  intro w v _ hturn
  refine ⟨trivial, ?_⟩
  change v.mc.outTask.length < w.mc.outTask.length
  rw [← useMc_mc w]
  simp only [nnConnPackTurn] at hturn
  generalize w.useMc = u at hturn ⊢
  split at hturn
  · cases hturn
  · next qe rest hout =>
    rw [hout]
    split at hturn
    · cases hturn
      rw [(mc_nnConnFreeTask _ qe).1]
      exact Nat.lt_succ_self _
    · split at hturn
      · cases hturn
      · split at hturn
        · cases hturn
          rw [(mc_nnConnFreeTask _ qe).1]
          exact Nat.lt_succ_self _
        · cases hturn

theorem nnConnPack_empty {w : World}
    (hlast : w.mc.out.last = w.mc.out.start)
    (hroom : w.mc.out.start < w.mc.out.endPtr)
    (hlen : forall n, n ∈ w.mc.outTask -> 0 ≤ (w.mc.nodes n).dataLen.toInt) :
    (w.mc.outTask = [] ∧ (nnConnPack w).mc.outTask = [] ∧
        (nnConnPack w).waits = w.waits) ∨
      exists n rest, w.mc.outTask = n :: rest ∧
        ((TooLarge w.mc.out (w.mc.nodes n) ∧
            (nnConnPack w).mc.outTask = n :: rest ∧
            (nnConnPack w).waits = w.waits) ∨
          (¬ TooLarge w.mc.out (w.mc.nodes n) ∧
            ((nnConnPack w).hung = true ∨
              w.mc.out.start < (nnConnPack w).mc.out.last))) := by
  rw [← useMc_mc w] at hlast hroom hlen
  have hused := waits_useMc w
  cases hout : w.mc.outTask with
  | nil =>
      have hdone : nnConnPack w = w.useMc := by
        apply loop_done
        simp only [nnConnPackTurn, useMc_mc, hout]
      rw [hdone]
      exact Or.inl ⟨rfl, by rw [useMc_mc]; exact hout, hused⟩
  | cons n rest =>
      refine Or.inr ⟨n, rest, rfl, ?_⟩
      have hhead := hlen n (by rw [useMc_mc, hout]; exact List.mem_cons_self)
      have hcases := encode_empty hlast hroom hhead
      have hturn : nnConnPackTurn w =
          if encodeCode w.useMc n = ngxOk then Turn.next
            (nnConnFreeTask (popOut (encodeNode w.useMc n) rest) n)
          else if encodeCode w.useMc n = ngxAgain then
            Turn.done (encodeNode w.useMc n)
          else if encodeCode w.useMc n = ngxError then Turn.next
            (nnConnFreeTask (popOut (encodeNode w.useMc n) rest) n)
          else Turn.done { encodeNode w.useMc n with hung := true } := by
        have hhead : w.useMc.mc.outTask = n :: rest := by rw [useMc_mc, hout]
        simp only [nnConnPackTurn, hhead]
      rw [useMc_mc] at hcases hlast
      rcases hcases with ⟨hlarge, hagain⟩ | ⟨hfits, hok | hhang⟩
      · rw [hagain, if_neg (by decide), if_pos rfl] at hturn
        have hdone : nnConnPack w = encodeNode w.useMc n := loop_done _ hturn
        obtain ⟨last, _, hbuf, hsame⟩ := encodeNode_out w.useMc n
        rw [hsame (by rw [hagain]; decide)] at hbuf
        refine Or.inl ⟨hlarge, ?_, ?_⟩
        · rw [hdone]
          exact (congrArg NnConn.outTask (useMc_mc w)).trans hout
        · rw [hdone, ← hused, show (encodeNode w.useMc n).waits =
            { w.useMc.waits with out := (encodeNode w.useMc n).mc.out } from rfl,
            hbuf]
          rfl
      · rw [if_pos hok.1] at hturn
        refine Or.inr ⟨hfits, Or.inr ?_⟩
        have hnext : nnConnPack w = nnConnPack
            (nnConnFreeTask (popOut (encodeNode w.useMc n) rest) n) :=
          loop_next nnConnPackTurn_lowers id trivial hturn
        obtain ⟨last, hung, hle, hpack⟩ := nnConnPack_waits
          (nnConnFreeTask (popOut (encodeNode w.useMc n) rest) n)
        have hmoved : (nnConnPack w).mc.out.last = last := by
          rw [hnext]
          exact congrArg (fun x => x.out.last) hpack
        have hkept : (nnConnFreeTask (popOut (encodeNode w.useMc n) rest)
            n).mc.out = (encodeNode w.useMc n).mc.out :=
          congrArg Waits.out (waits_nnConnFreeTask _ n)
        rw [hkept] at hle
        rw [hmoved, ← hlast]
        exact Nat.lt_of_lt_of_le hok.2 hle
      · have hne : encodeCode w.useMc n ≠ ngxOk ∧
            encodeCode w.useMc n ≠ ngxAgain ∧
            encodeCode w.useMc n ≠ ngxError := by
          unfold ngxAgain ngxOk ngxError at *
          omega
        rw [if_neg hne.1, if_neg hne.2.1, if_neg hne.2.2] at hturn
        have hdone : nnConnPack w = { encodeNode w.useMc n with hung := true } :=
          loop_done _ hturn
        refine Or.inr ⟨hfits, Or.inl ?_⟩
        rw [hdone]

theorem active_nnConnOutput {w : World} (h : Resuming w.waits)
    (hactive : w.c.write.active = true) : Resumes w := by
  intro hhung hconn
  right
  rcases nnConnOutput_outputs h.memory with
    ⟨_, _, hsame⟩ | hgone | hlost | ⟨hkept, _⟩ | ⟨u, hkept, hoff, heq⟩
  · exact (congrArg (fun x => x.c.write.active) hsame).trans hactive
  · rw [hconn] at hgone
    cases hgone
  · rw [hhung] at hlost
    cases hlost
  · rw [hkept.c]
    exact hactive
  · have hctls : CtlsSucceed u.env := by
      unfold CtlsSucceed
      rw [hkept.ctls]
      exact h.ctls
    rw [heq]
    exact congrArg Event.active (awaitWrite_succeeds hctls hoff).1

theorem shrinkOut_empty {w : World} (hmemory : w.mc.out.memory = true)
    (hempty : bufferSize w.mc.out = 0) :
    (shrinkOut w).mc.out.pos = w.mc.out.start ∧
      (shrinkOut w).mc.out.last = w.mc.out.start := by
  have hlast : (w.mc.out.last : Int) - w.mc.out.pos = 0 := by
    rw [bufferSize, bufferInMemory, hmemory, if_pos rfl] at hempty
    exact hempty
  simp only [shrinkOut, bufferShrink, hempty]
  split
  · next hstart =>
    exact ⟨hstart.symm, by simp only; omega⟩
  · exact ⟨rfl, rfl⟩

theorem nnConnOutput_once {w : World} (hempty : bufferSize w.mc.out = 0)
    {r : Int × World}
    (hturn : nnConnOutputTurn (setHandler w.useMc) = Turn.done r) :
    nnConnOutput w = r := by
  have hguard : ¬ (!w.useMc.c.write.ready &&
      decide (0 < bufferSize w.useMc.mc.out)) = true := by
    rw [useMc_mc, hempty]
    simp
  rw [nnConnOutput, if_neg hguard]
  exact loop_done _ hturn

inductive Round (w v : World) : Prop where
  | idle : w.mc.outTask = [] -> v.mc.outTask = [] -> bufferSize v.mc.out = 0 ->
      Round w v
  | stuck (n : Nat) (rest : List Nat) : w.mc.outTask = n :: rest ->
      TooLarge w.mc.out (w.mc.nodes n) -> v.mc.outTask = n :: rest ->
      v.waits.hung = w.hung -> v.waits.state = w.mc.state -> v.c = w.c ->
      Round w v
  | moved (n : Nat) (rest : List Nat) : w.mc.outTask = n :: rest ->
      ¬ TooLarge w.mc.out (w.mc.nodes n) ->
      v.hung = true ∨ v.c.write.active = true -> Round w v

theorem round_nnConnOutputTurn {w : World} (h : Resuming w.waits)
    (hoff : w.c.write.ready = false) (hempty : bufferSize w.mc.out = 0)
    (hhung : w.hung = false)
    (hlen : forall n, n ∈ w.mc.outTask -> 0 ≤ (w.mc.nodes n).dataLen.toInt) :
    exists r, nnConnOutputTurn w = Turn.done r ∧ Round w r.2 := by
  have hused := waits_useMc w
  have hmc := useMc_mc w
  rw [← hmc] at hempty hlen
  have hkept := repack_packs w
  simp only [nnConnOutputTurn]
  generalize w.useMc = u at hused hmc hempty hlen hkept ⊢
  have hu : Resuming u.waits := by
    rw [hused]
    exact h
  obtain ⟨hpos, hlast⟩ := shrinkOut_empty hu.memory hempty
  have hblock : (shrinkOut u).mc.out.block = u.mc.out.block :=
    block_bufferShrink u.mem u.mc.out
  have hstart : (shrinkOut u).mc.out.start = u.mc.out.start :=
    congrArg Prod.fst hblock
  have hend : (shrinkOut u).mc.out.endPtr = u.mc.out.endPtr :=
    congrArg (fun b => b.2.1) hblock
  have hroom : (shrinkOut u).mc.out.start < (shrinkOut u).mc.out.endPtr := by
    rw [hstart, hend]
    exact hu.room
  have hlarge : forall n, TooLarge (shrinkOut u).mc.out (u.mc.nodes n) ↔
      TooLarge w.mc.out (w.mc.nodes n) := by
    intro n
    unfold TooLarge
    rw [hstart, hend, hmc]
  have hpack := nnConnPack_empty (hlast.trans hstart.symm) hroom hlen
  obtain ⟨last, hung, _, hwaits⟩ := nnConnPack_waits (shrinkOut u)
  generalize nnConnPack (shrinkOut u) = p at hkept hpack hwaits ⊢
  have hc : p.c = w.c :=
    (congrArg Waits.c hwaits).trans (congrArg Waits.c hused)
  have hbuf : p.mc.out = { (shrinkOut u).mc.out with last := last } :=
    congrArg Waits.out hwaits
  have hmemory : (shrinkOut u).mc.out.memory = true :=
    (congrArg (fun b => b.2.2) hblock).trans hu.memory
  have hsize : bufferSize p.mc.out = last - u.mc.out.start := by
    rw [hbuf, bufferSize, bufferInMemory, if_pos hmemory, ← hpos]
  -- With nothing packed, the function returns in front of `send`.
  have hnothing : p.waits = (shrinkOut u).waits ->
      p.hung = false ∧ bufferSize p.useMc.mc.out = 0 := by
    intro hsame
    have hout : p.mc.out = (shrinkOut u).mc.out := congrArg Waits.out hsame
    refine ⟨(congrArg Waits.hung hsame).trans
      ((congrArg Waits.hung hused).trans hhung), ?_⟩
    have heq : p.mc.out.last = u.mc.out.start :=
      (congrArg Buffer.last hout).trans hlast
    rw [hbuf] at heq
    rw [useMc_mc, hsize, ← heq]
    exact Int.sub_self _
  rcases hpack with ⟨hqueue, hleft, hsame⟩ | ⟨n, rest, hqueue, hlead⟩
  · obtain ⟨hfree, hzero⟩ := hnothing hsame
    rw [if_neg (by rw [hfree]; simp), if_pos hzero]
    refine ⟨_, rfl, Round.idle ?_ ?_ hzero⟩
    · exact (congrArg NnConn.outTask hmc).symm.trans hqueue
    · exact (congrArg NnConn.outTask (useMc_mc p)).trans hleft
  · have hqueue' : w.mc.outTask = n :: rest :=
      (congrArg NnConn.outTask hmc).symm.trans hqueue
    rcases hlead with ⟨hbig, hleft, hsame⟩ | ⟨hfits, hmoved⟩
    · obtain ⟨hfree, hzero⟩ := hnothing hsame
      rw [if_neg (by rw [hfree]; simp), if_pos hzero]
      refine ⟨_, rfl, Round.stuck n rest hqueue' ((hlarge n).mp hbig) ?_ ?_ ?_ ?_⟩
      · exact (congrArg NnConn.outTask (useMc_mc p)).trans hleft
      · exact ((useMc_hung p).trans hfree).trans hhung.symm
      · exact (congrArg NnConn.state (useMc_mc p)).trans hkept.state
      · exact (useMc_c p).trans hc
    · have hfits' := fun hbig => hfits ((hlarge n).mpr hbig)
      by_cases hlost : p.hung = true
      · rw [if_pos hlost]
        exact ⟨_, rfl, Round.moved n rest hqueue' hfits' (Or.inl hlost)⟩
      · have hmore := hmoved.resolve_left hlost
        have hnonzero : ¬ bufferSize p.useMc.mc.out = 0 := by
          rw [useMc_mc, hsize]
          rw [hbuf, hstart] at hmore
          change u.mc.out.start < last at hmore
          omega
        have hoff' : p.useMc.c.write.ready = false := by
          rw [useMc_c, hc]
          exact hoff
        have hwait : nnConnOutBuffer p.useMc = (ngxAgain, p.useMc) := by
          rw [nnConnOutBuffer, hoff']
          rfl
        have hctls : CtlsSucceed p.useMc.env := by
          unfold CtlsSucceed
          rw [useMc_env, hkept.ctls]
          exact h.ctls
        have hactive : (awaitWrite p.useMc).c.write.active = true :=
          congrArg Event.active (awaitWrite_succeeds hctls hoff').1
        rw [if_neg hlost, if_neg hnonzero, hwait]
        simp only
        rw [if_neg (by decide), if_pos trivial]
        unfold awaitWrite at hactive
        split
        · next hfail =>
          rw [if_pos hfail] at hactive
          exact ⟨_, rfl, Round.moved n rest hqueue' hfits' (Or.inr hactive)⟩
        · next hfail =>
          rw [if_neg hfail] at hactive
          exact ⟨_, rfl, Round.moved n rest hqueue' hfits' (Or.inr hactive)⟩

theorem resumes_iff {w : World} (h : Resuming w.waits)
    (hconn : w.mc.state = ConnState.connected) (hhung : w.hung = false)
    (hlen : forall n, n ∈ w.mc.outTask -> 0 ≤ (w.mc.nodes n).dataLen.toInt) :
    Resumes w ↔ w.c.write.active = true ∨
      forall n rest, w.mc.outTask = n :: rest ->
        ¬ TooLarge w.mc.out (w.mc.nodes n) := by
  cases hactive : w.c.write.active with
  | true => exact ⟨fun _ => Or.inl rfl, fun _ => active_nnConnOutput h hactive⟩
  | false =>
      obtain ⟨hoff, hempty⟩ : w.c.write.ready = false ∧
          bufferSize w.mc.out = 0 :=
        h.waiting.resolve_left (fun hon => by
          rw [show w.waits.c.write.active = false from hactive] at hon
          cases hon)
      have hused := waits_useMc w
      have hmc := useMc_mc w
      obtain ⟨r, hturn, hround⟩ := round_nnConnOutputTurn
        (w := setHandler w.useMc) (by
          have hu : Resuming w.useMc.waits := by
            rw [hused]
            exact h
          exact hu.of_same rfl hu.ctls rfl rfl)
        ((congrArg (fun c => c.write.ready) (useMc_c w)).trans hoff)
        ((congrArg (fun mc => bufferSize mc.out) hmc).trans hempty)
        ((useMc_hung w).trans hhung) (by
          change forall n, n ∈ w.useMc.mc.outTask ->
            0 ≤ (w.useMc.mc.nodes n).dataLen.toInt
          rw [hmc]
          exact hlen)
      have hqueue : (setHandler w.useMc).mc.outTask = w.mc.outTask := by
        change w.useMc.mc.outTask = w.mc.outTask
        rw [hmc]
      have hout : (setHandler w.useMc).mc.out = w.mc.out := by
        change w.useMc.mc.out = w.mc.out
        rw [hmc]
      have hnodes : (setHandler w.useMc).mc.nodes = w.mc.nodes := by
        change w.useMc.mc.nodes = w.mc.nodes
        rw [hmc]
      unfold Resumes
      rw [nnConnOutput_once hempty hturn]
      simp only [Bool.false_eq_true, false_or]
      cases hround with
      | idle hnil hleft hzero =>
          rw [hqueue] at hnil
          refine ⟨fun _ n rest hcons => ?_, fun _ _ _ => Or.inl ⟨hleft, hzero⟩⟩
          rw [hnil] at hcons
          cases hcons
      | stuck n rest hcons hbig hleft hfree hstate hc =>
          rw [hqueue] at hcons
          rw [hout, hnodes] at hbig
          refine ⟨fun hresumes => ?_, fun hfits => absurd hbig (hfits n rest hcons)⟩
          rcases hresumes (hfree.trans ((useMc_hung w).trans hhung))
              (hstate.trans ((congrArg NnConn.state hmc).trans hconn)) with
            ⟨hnil, _⟩ | hon
          · rw [hleft] at hnil
            cases hnil
          · rw [hc, show (setHandler w.useMc).c = w.c from useMc_c w, hactive]
              at hon
            cases hon
      | moved n rest hcons hfits hend =>
          rw [hqueue] at hcons
          rw [hout, hnodes] at hfits
          refine ⟨fun _ m rest' hcons' => ?_, fun _ hfree _ => ?_⟩
          · rw [hcons] at hcons'
            cases hcons'
            exact hfits
          · refine Or.inr (hend.resolve_left (fun hlost => ?_))
            rw [hfree] at hlost
            cases hlost

/-- In every run, for every queue of responses and every pattern of `send`
results. -/
theorem nnConnOutput_resumes_iff (s s' : State) (hstart : Started s)
    (hctls : CtlsSucceed s.w.env) (hrun : Reaches step CtlsHold s s')
    (hhung : s'.w.hung = false)
    (hconn : s'.w.mc.state = ConnState.connected) (queue : List Nat)
    (nodes : Nat -> TaskT) (sends : List SendResult)
    (hlen : forall n, n ∈ queue -> 0 ≤ (nodes n).dataLen.toInt) :
    Resumes (withQueue s'.w queue nodes sends) ↔
      s'.w.c.write.active = true ∨
        forall n rest, queue = n :: rest ->
          ¬ TooLarge s'.w.mc.out (nodes n) := by
  have hinv : Resumable s'.w.waits := Reaches.invariant
    (fun t => Resumable t.w.waits)
    (fun t a u ht hok hstep => resumable_of_waited ht hok
      (waited_of_stepped (stepped_of_step hstep))) hrun (hstart.resumable hctls)
  exact resumes_iff (w := withQueue s'.w queue nodes sends)
    (hinv hconn hhung) hconn hhung hlen

theorem nnConnOutput_resumes_testTask :
    ¬ TooLarge smallStart.w.mc.out testTask ∧
      Resumes (withQueue smallStart.w [0, 1] (fun _ => testTask)
        [SendResult.again]) := by
  have hfits : ¬ TooLarge smallStart.w.mc.out testTask := by
    unfold TooLarge
    decide +kernel
  refine ⟨hfits, (nnConnOutput_resumes_iff smallStart smallStart
    smallStart_started (fun _ hok => (by cases hok)) (Reaches.refl smallStart)
    (by decide +kernel) (by decide +kernel) [0, 1] (fun _ => testTask)
    [SendResult.again] (fun _ _ => (by decide +kernel))).mpr (Or.inr ?_)⟩
  intro n rest _
  exact hfits

def largeTask : TaskT :=
  { testTask with data := 262144, dataLen := 1000 }

theorem nnConnOutput_largeTask_fails :
    Started smallStart ∧ CtlsSucceed smallStart.w.env ∧
      smallStart.w.mc.state = ConnState.connected ∧
      0 ≤ largeTask.dataLen.toInt ∧
      ¬ Resumes (withQueue smallStart.w [0] (fun _ => largeTask) []) := by
  refine ⟨smallStart_started, fun _ hok => (by cases hok), by decide +kernel,
    by decide +kernel, fun hresumes => ?_⟩
  exact absurd (hresumes (by decide +kernel) (by decide +kernel))
    (by decide +kernel)

end Server
end NgxEpoll
