import NgxEpoll.Request.Intake
import NgxEpoll.Request.Init
import NgxEpoll.Foundation.Runs

/-!
# Delivery of a stream of tasks

A peer sends the encodings of a list of tasks.  `nn_conn_recv` and
`nn_conn_decode` are called in turn, and `recv` cuts the stream anywhere.  The
tasks are dispatched in order as long as no length word is read from fewer than
four bytes in a way that makes it acceptable.
-/

namespace NgxEpoll
namespace Request

open Foundation
open NgxEpoll.Core
open Common

def encodings (m : Mem) (ts : List TaskT) : List Byte :=
  ts.flatMap (taskEncoding m)

inductive Phase where
  | recv
  | decode
deriving DecidableEq

structure Inbox where
  w : World
  phase : Phase

/-- A call of `nn_conn_recv` with the results of its `recv` calls, or one of
`nn_conn_decode`. -/
inductive InLabel where
  | recv (rs : List RecvResult)
  | decode

def scriptRecvs (w : World) (rs : List RecvResult) : World :=
  { w with env := { w.env with recvs := rs } }

def inStep (s : Inbox) : InLabel -> Option Inbox
  | InLabel.recv rs =>
      if s.phase = Phase.recv then
        some { w := (nnConnRecv (scriptRecvs s.w rs)).2, phase := Phase.decode }
      else none
  | InLabel.decode =>
      if s.phase = Phase.decode then
        some { w := (nnConnDecode s.w).2, phase := Phase.recv }
      else none

/-- A connection that has received nothing yet and has more free nodes than
there are tasks.  What lies in its receive buffer is arbitrary. -/
structure Awaiting (m : Mem) (ts : List TaskT) (s : Inbox) : Prop where
  phase : s.phase = Phase.recv
  wf : s.w.mc.inBuf.Wf
  unread : s.w.unread = []
  wire : s.w.env.wire = encodings m ts
  received : s.w.trace.received = []
  dispatched : s.w.trace.dispatched = []
  nodes : ts.length < s.w.mc.freeTask.length
  count : s.w.mc.count + s.w.mc.freeTask.length ≤ s.w.mc.maxTask

/-- The encoding of every task fits the receive buffer. -/
def FitsIn (m : Mem) (b : Buffer) (ts : List TaskT) : Prop :=
  forall t, t ∈ ts -> (taskEncoding m t).length ≤ b.endPtr - b.start

/-- There are fewer than `2 ^ 31` unread bytes, and if one to three of them are
left behind whole frames, the `int` that is read there is greater than their
number. -/
structure LengthsKnown (w : World) : Prop where
  size : bufferSize w.mc.inBuf < 2 ^ 31
  tails : forall fs rest, Cut IsFrame fs rest w.unread ->
    0 < rest.length -> rest.length < 4 ->
    (rest.length : Int) < loadInt w.mem (w.mc.inBuf.last - rest.length)

/-- The condition on the calls of `nn_conn_decode`. -/
def DecodesKnown (s : Inbox) : InLabel -> Prop
  | InLabel.recv _ => True
  | InLabel.decode => LengthsKnown s.w

/-- The dispatched task is the one the peer encoded, up to the receiver's own
`opq` and the address of the payload. -/
def DispatchOf (m : Mem) (d : Dispatch) (t : TaskT) : Prop :=
  { d.task with opq := t.opq, data := t.data } = t ∧ d.payload = t.payload m

/-- The first `k` tasks have been dispatched, in order and each once, the bytes
behind them are in the receive buffer or on the wire, and those in the buffer
are not yet a whole encoding. -/
structure DeliveredUpTo (m : Mem) (ts : List TaskT) (w : World) (k : Nat) :
    Prop where
  le : k ≤ ts.length
  dispatched : List.Forall₂ (DispatchOf m) w.trace.dispatched (ts.take k)
  stream : w.unread ++ w.env.wire = encodings m (ts.drop k)
  incomplete : forall t, ts[k]? = some t ->
    w.unread.length < (taskEncoding m t).length
  room : w.env.wire ≠ [] ->
    w.unread.length < w.mc.inBuf.endPtr - w.mc.inBuf.start
  complete : w.env.wire = [] -> k = ts.length ∧ w.unread = []

/-!
## Encodings as frames
-/

section Encodings

variable {m : Mem} {ts : List TaskT} {t : TaskT} {k : Nat}

theorem take_succ_of_getElem? (h : ts[k]? = some t) :
    ts.take (k + 1) = ts.take k ++ [t] := by
  rw [List.take_add_one, h]
  rfl

theorem drop_of_getElem? (h : ts[k]? = some t) :
    ts.drop k = t :: ts.drop (k + 1) := by
  obtain ⟨hk, rfl⟩ := List.getElem?_eq_some_iff.mp h
  exact List.drop_eq_getElem_cons hk

theorem payload_length_int (ht : t.Sendable) (m : Mem) :
    ((t.payload m).length : Int) = t.dataLen.toInt := by
  have := ht.dataLen_nonneg
  rw [TaskT.payload_length]
  omega

theorem isFrame_taskEncoding (ht : t.Sendable) (m : Mem) :
    IsFrame (taskEncoding m t) := by
  rw [taskEncoding_eq ht]
  have hbegins : BeginsWithFrame (taskFrame t (t.payload m) ++ []) :=
    beginsWithFrame_taskFrame ht (payload_length_int ht m)
  have hword : lengthWord (taskFrame t (t.payload m) ++ []) = t.frameSize :=
    lengthWord_taskFrame ht
  rw [List.append_nil] at hbegins hword
  exact ⟨hbegins, hword.trans (ht.frame_length m).symm⟩

theorem dispatchOf_of_carries {d : Dispatch} (ht : t.Sendable)
    (h : Carries d (taskEncoding m t)) : DispatchOf m d t := by
  rw [taskEncoding_eq ht] at h
  have hstruct : structOf (taskFrame t (t.payload m) ++ []) = t :=
    structOf_taskFrame
  rw [List.append_nil] at hstruct
  obtain ⟨htask, hpayload⟩ := h
  rw [hstruct] at htask
  refine ⟨htask, hpayload.trans ?_⟩
  rw [taskFrame, ← List.append_assoc, ← List.append_assoc]
  apply List.drop_left'
  simp [headerSize, intSize, Nat.add_assoc]

end Encodings

/-!
## The invariant
-/

/-- The first `k` tasks have been dispatched and the rest is in the receive
buffer or on the wire. -/
structure Feed (m : Mem) (ts : List TaskT) (k : Nat) (w : World) : Prop where
  le : k ≤ ts.length
  wf : w.mc.inBuf.Wf
  fits : FitsIn m w.mc.inBuf ts
  stream : w.unread ++ w.env.wire = encodings m (ts.drop k)
  dispatched : List.Forall₂ (DispatchOf m) w.trace.dispatched (ts.take k)
  nodes : ts.length < k + w.mc.freeTask.length
  count : w.mc.count + w.mc.freeTask.length ≤ w.mc.maxTask

section Feeding

variable {m : Mem} {ts : List TaskT} {k : Nat} {w w' : World}

theorem LengthsKnown.wordKnown (h : LengthsKnown w) (hwf : w.mc.inBuf.Wf) :
    WordKnown w := by
  intro hlt hpos
  have hlen : w.unread.length = w.mc.inBuf.last - w.mc.inBuf.pos :=
    Buffer.content_length _ _
  have hle := hwf.pos_le_last
  have hword := h.tails [] w.unread (Cut.nil _) hpos hlt
  rwa [show w.mc.inBuf.last - w.unread.length = w.mc.inBuf.pos by omega]
    at hword

theorem Feed.fetched {bs : List Byte} (h : Feed m ts k w)
    (hf : Fetched w w' bs) : Feed m ts k w' where
  le := h.le
  wf := hf.wf
  fits := by
    unfold FitsIn
    rw [hf.start, hf.endPtr]
    exact h.fits
  stream := by
    rw [hf.unread, List.append_assoc, ← hf.wire]
    exact h.stream
  dispatched := by
    rw [hf.dispatched]
    exact h.dispatched
  nodes := by
    rw [hf.freeTask]
    exact h.nodes
  count := by
    rw [hf.count, hf.freeTask, hf.maxTask]
    exact h.count

theorem Feed.useMc (h : Feed m ts k w) : Feed m ts k w.useMc where
  le := h.le
  wf := by rw [useMc_mc]; exact h.wf
  fits := by rw [useMc_mc]; exact h.fits
  stream := by rw [unread_useMc, useMc_env]; exact h.stream
  dispatched := by
    rw [show w.useMc.trace.dispatched = w.trace.dispatched from
      congrArg Bytes.dispatched (bytes_useMc w)]
    exact h.dispatched
  nodes := by rw [useMc_mc]; exact h.nodes
  count := by rw [useMc_mc]; exact h.count

theorem Feed.has_node (h : Feed m ts k w) :
    w.mc.count < w.mc.maxTask ∧ w.mc.freeTask ≠ [] := by
  have hle := h.le
  have hnodes := h.nodes
  have hcount := h.count
  refine ⟨by omega, ?_⟩
  intro hnil
  rw [hnil] at hnodes
  simp only [List.length_nil] at hnodes
  omega

theorem Feed.not_dead (h : Feed m ts k w)
    (hsend : forall t, t ∈ ts -> t.Sendable) (hpos : 0 < w.unread.length) :
    ¬ Dead w.unread := by
  intro hdead
  cases hk : ts[k]? with
  | none =>
      have hstream := h.stream
      rw [List.drop_eq_nil_of_le (List.getElem?_eq_none_iff.mp hk)] at hstream
      have hnil := (List.append_eq_nil_iff.mp hstream).1
      rw [hnil] at hpos
      exact absurd hpos (by decide)
  | some t =>
      have ht := hsend t (List.mem_of_getElem? hk)
      apply hdead w.env.wire
      rw [h.stream, drop_of_getElem? hk]
      exact (isFrame_taskEncoding ht m).1.append _

theorem Feed.next_of_frame (h : Feed m ts k w)
    (hsend : forall t, t ∈ ts -> t.Sendable)
    (hframe : BeginsWithFrame w.unread) :
    exists t, ts[k]? = some t ∧
      w.unread.take (lengthWord w.unread).toNat = taskEncoding m t := by
  obtain ⟨hisFrame, hlen⟩ := hframe.isFrame_take
  have hstream := h.stream
  cases hk : ts[k]? with
  | none =>
      rw [List.drop_eq_nil_of_le (List.getElem?_eq_none_iff.mp hk)] at hstream
      have hnil := (List.append_eq_nil_iff.mp hstream).1
      have hheader := hframe.headerSize_le
      rw [hnil] at hheader
      exact absurd hheader (by decide)
  | some t =>
      refine ⟨t, rfl, ?_⟩
      have ht := isFrame_taskEncoding (hsend t (List.mem_of_getElem? hk)) m
      rw [drop_of_getElem? hk] at hstream
      have hfront : w.unread.take (lengthWord w.unread).toNat <+:
          w.unread ++ w.env.wire :=
        (List.take_prefix _ _).trans (List.prefix_append _ _)
      have hfront' : taskEncoding m t <+: w.unread ++ w.env.wire := by
        rw [hstream]
        exact List.prefix_append _ _
      rcases List.prefix_or_prefix_of_prefix hfront hfront' with hpre | hpre
      · exact isFrame_prefixFree _ _ hisFrame ht hpre
      · exact (isFrame_prefixFree _ _ ht hisFrame hpre).symm

/-!
## The calls
-/

theorem Feed.dispatch (h : Feed m ts k w)
    (hsend : forall t, t ∈ ts -> t.Sendable) {n : Nat} {rest : List Nat}
    (hfree : w.mc.freeTask = n :: rest) (hframe : BeginsWithFrame w.unread)
    (hint : lengthWord w.unread ≤ cInt (bufferSize w.mc.inBuf)) :
    Feed m ts (k + 1) (dispatchTask (attempt w n rest) n) := by
  obtain ⟨t, hk, henc⟩ := h.next_of_frame hsend hframe
  have ht := hsend t (List.mem_of_getElem? hk)
  obtain ⟨_, hin, _, _⟩ := attempt_frame h.wf n rest hframe hint
  have hunread := unread_attempt h.wf n rest hframe hint
  have hcarries := carries_attempt h.wf n rest hframe hint
  have hfit := hframe.2.2.1
  have hlen : w.unread.length = w.mc.inBuf.last - w.mc.inBuf.pos :=
    Buffer.content_length _ _
  have hnodes := h.nodes
  have hcount := h.count
  rw [hfree] at hnodes hcount
  constructor
  · exact (List.getElem?_eq_some_iff.mp hk).1
  · change (attempt w n rest).mc.inBuf.Wf
    rw [hin]
    exact wf_advance h.wf (by omega)
  · change FitsIn m (attempt w n rest).mc.inBuf ts
    rw [hin]
    exact h.fits
  · have hstream := h.stream
    change (attempt w n rest).unread ++ w.env.wire = _
    rw [drop_of_getElem? hk,
      ← List.take_append_drop (lengthWord w.unread).toNat w.unread, henc,
      List.append_assoc] at hstream
    rw [hunread]
    exact List.append_cancel_left hstream
  · rw [take_succ_of_getElem? hk]
    rw [henc] at hcarries
    exact List.rel_append h.dispatched
      (List.Forall₂.cons (dispatchOf_of_carries ht hcarries) List.Forall₂.nil)
  · change ts.length < k + 1 + rest.length
    simp only [List.length_cons] at hnodes
    omega
  · change w.mc.count + 1 + rest.length ≤ w.mc.maxTask
    simp only [List.length_cons] at hcount
    push_cast at hcount
    omega

theorem LengthsKnown.dispatch (h : LengthsKnown w) (hwf : w.mc.inBuf.Wf)
    {n : Nat} {rest : List Nat} (hframe : BeginsWithFrame w.unread)
    (hint : lengthWord w.unread ≤ cInt (bufferSize w.mc.inBuf)) :
    LengthsKnown (dispatchTask (attempt w n rest) n) := by
  obtain ⟨_, hin, _, _⟩ := attempt_frame hwf n rest hframe hint
  have hunread := unread_attempt hwf n rest hframe hint
  have hfit := hframe.2.2.1
  have hlen : w.unread.length = w.mc.inBuf.last - w.mc.inBuf.pos :=
    Buffer.content_length _ _
  have hsize := h.size
  constructor
  · change bufferSize (attempt w n rest).mc.inBuf < 2 ^ 31
    rw [hin, (wf_advance hwf (by omega)).size_eq]
    rw [hwf.size_eq] at hsize
    simp only
    omega
  · intro fs tail hcut hpos hlt
    change Cut IsFrame fs tail (attempt w n rest).unread at hcut
    change (tail.length : Int) <
      loadInt w.mem ((attempt w n rest).mc.inBuf.last - tail.length)
    rw [hunread] at hcut
    rw [hin]
    refine h.tails (w.unread.take (lengthWord w.unread).toNat :: fs) tail
      ⟨fun f hf => ?_, ?_⟩ hpos hlt
    · rcases List.mem_cons.mp hf with rfl | hf
      · exact hframe.isFrame_take.1
      · exact hcut.frames f hf
    · rw [List.flatten_cons, List.append_assoc, ← hcut.stream,
        List.take_append_drop]

theorem Feed.giveBack (h : Feed m ts k w)
    (hsize : bufferSize w.mc.inBuf < 2 ^ 31) {n : Nat} {rest : List Nat}
    (hfree : w.mc.freeTask = n :: rest)
    (hunread : taskDecode w.mem w.mc.inBuf (w.mc.nodes n) =
      (ngxAgain, w.mc.inBuf, w.mc.nodes n)) :
    Feed m ts k (shrinkIn (nnConnFreeTask (attempt w n rest) n).useMc) ∧
      Shrinks (shrinkIn (nnConnFreeTask (attempt w n rest) n).useMc) ∧
      (shrinkIn (nnConnFreeTask (attempt w n rest) n).useMc).unread =
        w.unread := by
  have hbytes := bytes_nnConnFreeTask (attempt w n rest) n
  obtain ⟨hqueue, hcount, hmax⟩ := free_nnConnFreeTask (attempt w n rest) n
  have hin : (attempt w n rest).mc.inBuf = w.mc.inBuf :=
    congrArg (fun r => r.2.1) hunread
  have hin' : (nnConnFreeTask (attempt w n rest) n).mc.inBuf = w.mc.inBuf :=
    (congrArg Bytes.inBuf hbytes).trans hin
  have hmem : (nnConnFreeTask (attempt w n rest) n).mem = w.mem :=
    congrArg Bytes.mem hbytes
  have hcontent : (nnConnFreeTask (attempt w n rest) n).unread = w.unread := by
    unfold World.unread
    rw [hin', hmem]
  have hfeed : Feed m ts k (nnConnFreeTask (attempt w n rest) n) := by
    have hnodes := h.nodes
    have htotal := h.count
    rw [hfree] at hnodes htotal
    simp only [List.length_cons] at hnodes htotal
    constructor
    · exact h.le
    · rw [hin']
      exact h.wf
    · rw [hin']
      exact h.fits
    · rw [hcontent, show (nnConnFreeTask (attempt w n rest) n).env = w.env from
        congrArg Bytes.env hbytes]
      exact h.stream
    · rw [show (nnConnFreeTask (attempt w n rest) n).trace.dispatched =
        w.trace.dispatched from congrArg Bytes.dispatched hbytes]
      exact h.dispatched
    · rw [hqueue, List.length_append]
      change ts.length < k + (rest.length + 1)
      omega
    · rw [hqueue, hcount, hmax, List.length_append]
      change w.mc.count + 1 - 1 + ((rest.length + 1 : Nat) : Int) ≤ w.mc.maxTask
      push_cast at htotal ⊢
      omega
  have hshrinks : Shrinks (nnConnFreeTask (attempt w n rest) n).useMc := by
    refine Or.inr ?_
    rw [useMc_mc, hin']
    exact hsize
  have hfetched := fetched_shrinkIn hfeed.useMc.wf hshrinks
  refine ⟨hfeed.useMc.fetched hfetched, Or.inl hfetched.shrunk, ?_⟩
  rw [hfetched.unread, List.append_nil, unread_useMc, hcontent]

/-- An iteration of `nn_conn_decode` dispatches the next task, or finds no
whole encoding and leaves the loop. -/
theorem Feed.decodeStep {turn : Turn World (Int × World)}
    (hstep : DecodeStep w turn) (h : Feed m ts k w)
    (hsend : forall t, t ∈ ts -> t.Sendable) (hknown : LengthsKnown w) :
    (exists w', turn = Turn.next w' ∧ Feed m ts (k + 1) w' ∧ LengthsKnown w' ∧
        w'.mc.freeTask.length < w.mc.freeTask.length) ∨
      (exists w', turn = Turn.done (ngxAgain, w') ∧
        Feed m ts k w' ∧ Shrinks w' ∧ ¬ BeginsWithFrame w'.unread) := by
  obtain ⟨hroom, hhas⟩ := h.has_node
  -- the attempt on the head of `free_task` decides the iteration
  have houtcome : forall n,
      (BeginsWithFrame w.unread ∧
          lengthWord w.unread ≤ cInt (bufferSize w.mc.inBuf) ∧
          attemptCode w n = ngxOk) ∨
        (¬ BeginsWithFrame w.unread ∧ attemptCode w n = ngxAgain ∧
          taskDecode w.mem w.mc.inBuf (w.mc.nodes n) =
            (ngxAgain, w.mc.inBuf, w.mc.nodes n)) := by
    intro n
    rcases attempt_outcome h.wf hknown.size (hknown.wordKnown h.wf) n with
      ⟨hframe, hint⟩ | ⟨hfour, hdead⟩ | ⟨hnot, hunread⟩
    · exact Or.inl ⟨hframe, hint, (attempt_frame h.wf n [] hframe hint).1⟩
    · exact absurd hdead (h.not_dead hsend (by omega))
    · exact Or.inr ⟨hnot, congrArg Prod.fst hunread, hunread⟩
  cases hstep with
  | busy hfull => omega
  | underflow _ hnil => exact absurd hnil hhas
  | ok n rest _ hfree hok =>
      rcases houtcome n with ⟨hframe, hint, _⟩ | ⟨_, hcode, _⟩
      · refine Or.inl ⟨_, rfl, h.dispatch hsend hfree hframe hint,
          hknown.dispatch h.wf hframe hint, ?_⟩
        change rest.length < w.mc.freeTask.length
        rw [hfree]
        exact Nat.lt_succ_self _
      · exact absurd (hcode.symm.trans hok) (by decide)
  | error n rest _ _ herror =>
      rcases houtcome n with ⟨_, _, hcode⟩ | ⟨_, hcode, _⟩ <;>
        exact absurd (hcode.symm.trans herror) (by decide)
  | again n rest _ hfree hagain =>
      rcases houtcome n with ⟨_, _, hcode⟩ | ⟨hnot, _, hunread⟩
      · exact absurd (hcode.symm.trans hagain) (by decide)
      · obtain ⟨hfeed, hshrinks, hsame⟩ := h.giveBack hknown.size hfree hunread
        exact Or.inr ⟨_, rfl, hfeed, hshrinks, by rwa [hsame]⟩
  | lost n rest _ _ hok _ hagain =>
      rcases houtcome n with ⟨_, _, hcode⟩ | ⟨_, hcode, _⟩
      · exact absurd hcode hok
      · exact absurd hcode hagain

theorem Feed.decode (h : Feed m ts k w)
    (hsend : forall t, t ∈ ts -> t.Sendable) (hknown : LengthsKnown w) :
    exists k', Feed m ts k' (nnConnDecode w).2 ∧
      Shrinks (nnConnDecode w).2 ∧
      ¬ BeginsWithFrame (nnConnDecode w).2.unread := by
  have hturn : forall v, (exists j, Feed m ts j v ∧ LengthsKnown v) ->
      exists j,
        (exists w', nnConnDecodeTurn v = Turn.next w' ∧
          Feed m ts (j + 1) w' ∧ LengthsKnown w' ∧
          w'.mc.freeTask.length < v.mc.freeTask.length) ∨
        (exists w', nnConnDecodeTurn v = Turn.done (ngxAgain, w') ∧
          Feed m ts j w' ∧ Shrinks w' ∧ ¬ BeginsWithFrame w'.unread) := by
    rintro v ⟨j, hv, hk⟩
    have hk' : LengthsKnown v.useMc := by
      obtain ⟨hsize, htails⟩ := hk
      constructor
      · rwa [useMc_mc]
      · rwa [unread_useMc, useMc_mc, useMc_mem]
    have hstep := Feed.decodeStep (nnConnDecodeTurn_step v) hv.useMc hsend hk'
    rw [useMc_mc] at hstep
    exact ⟨j, hstep⟩
  have hlow : Lowers (fun v => exists j, Feed m ts j v ∧ LengthsKnown v)
      (fun v => v.mc.freeTask.length) nnConnDecodeTurn := by
    intro v v' hv hbody
    obtain ⟨j, ⟨w', heq, hfeed, hk, hlt⟩ | ⟨w', heq, _⟩⟩ := hturn v hv
    · rw [hbody] at heq
      cases heq
      exact ⟨⟨j + 1, hfeed, hk⟩, hlt⟩
    · rw [hbody] at heq
      cases heq
  refine loop_rule hlow _
    (fun r : Int × World => exists k', Feed m ts k' r.2 ∧ Shrinks r.2 ∧
      ¬ BeginsWithFrame r.2.unread) ?_ ⟨k, h, hknown⟩
  intro v r hv hbody
  obtain ⟨j, ⟨w', heq, _⟩ | ⟨w', heq, hfeed, hshrinks, hnot⟩⟩ := hturn v hv
  · rw [hbody] at heq
    cases heq
  · rw [hbody] at heq
    cases heq
    exact ⟨j, hfeed, hshrinks, hnot⟩

/-- A state in which `nn_conn_recv` is called next, or `nn_conn_decode`. -/
structure InInv (m : Mem) (ts : List TaskT) (s : Inbox) : Prop where
  feed : exists k, Feed m ts k s.w
  shrinks : s.phase = Phase.recv -> Shrinks s.w
  drained : s.phase = Phase.recv -> ¬ BeginsWithFrame s.w.unread

theorem inInv_of_step {s s' : Inbox} {a : InLabel}
    (hsend : forall t, t ∈ ts -> t.Sendable) (h : InInv m ts s)
    (hknown : DecodesKnown s a) (hstep : inStep s a = some s') :
    InInv m ts s' := by
  obtain ⟨k, hfeed⟩ := h.feed
  cases a with
  | recv rs =>
      simp only [inStep, Option.ite_none_right_eq_some, Option.some.injEq]
        at hstep
      obtain ⟨hphase, rfl⟩ := hstep
      obtain ⟨bs, hfetched⟩ := fetched_nnConnRecv
        (w := scriptRecvs s.w rs) hfeed.wf (h.shrinks hphase)
      have hscript : Feed m ts k (scriptRecvs s.w rs) :=
        ⟨hfeed.le, hfeed.wf, hfeed.fits, hfeed.stream, hfeed.dispatched,
          hfeed.nodes, hfeed.count⟩
      exact ⟨⟨k, hscript.fetched hfetched⟩, fun hrecv => absurd hrecv (by simp),
        fun hrecv => absurd hrecv (by simp)⟩
  | decode =>
      simp only [inStep, Option.ite_none_right_eq_some, Option.some.injEq]
        at hstep
      obtain ⟨_, rfl⟩ := hstep
      obtain ⟨k', hfeed', hshrinks, hnot⟩ := hfeed.decode hsend hknown
      exact ⟨⟨k', hfeed'⟩, fun _ => hshrinks, fun _ => hnot⟩

theorem inInv_of_awaiting {s : Inbox} (h : Awaiting m ts s)
    (hfits : FitsIn m s.w.mc.inBuf ts) : InInv m ts s := by
  refine ⟨⟨0, Nat.zero_le _, h.wf, hfits, ?_, ?_, ?_, h.count⟩, ?_, ?_⟩
  · rw [h.unread, h.wire]
    rfl
  · rw [h.dispatched]
    exact List.Forall₂.nil
  · have := h.nodes
    omega
  · intro _
    refine Or.inr ?_
    rw [← h.wf.content_length_int s.w.mem]
    change (s.w.unread.length : Int) < 2 ^ 31
    rw [h.unread]
    decide
  · intro _ hbegins
    have hheader := hbegins.headerSize_le
    rw [h.unread] at hheader
    exact absurd hheader (by decide)

theorem Feed.delivered (h : Feed m ts k w)
    (hsend : forall t, t ∈ ts -> t.Sendable)
    (hnot : ¬ BeginsWithFrame w.unread) : DeliveredUpTo m ts w k := by
  have hincomplete : forall t, ts[k]? = some t ->
      w.unread.length < (taskEncoding m t).length := by
    intro t hk
    by_contra hlt
    have ht := hsend t (List.mem_of_getElem? hk)
    have hfront : taskEncoding m t <+: w.unread ++ w.env.wire := by
      rw [h.stream, drop_of_getElem? hk]
      exact List.prefix_append _ _
    obtain ⟨ext, hext⟩ := List.prefix_of_prefix_length_le hfront
      (List.prefix_append w.unread w.env.wire) (by omega)
    apply hnot
    rw [← hext]
    exact (isFrame_taskEncoding ht m).1.append ext
  refine ⟨h.le, h.dispatched, h.stream, hincomplete, ?_, ?_⟩
  · intro hwire
    cases hk : ts[k]? with
    | none =>
        have hstream := h.stream
        rw [List.drop_eq_nil_of_le (List.getElem?_eq_none_iff.mp hk)] at hstream
        exact absurd (List.append_eq_nil_iff.mp hstream).2 hwire
    | some t =>
        have hlt := hincomplete t hk
        have hle := h.fits t (List.mem_of_getElem? hk)
        omega
  · intro hwire
    have hstream := h.stream
    rw [hwire, List.append_nil] at hstream
    cases hk : ts[k]? with
    | none =>
        have hle := List.getElem?_eq_none_iff.mp hk
        rw [List.drop_eq_nil_of_le hle] at hstream
        have hge := h.le
        exact ⟨by omega, hstream⟩
    | some t =>
        have hlt := hincomplete t hk
        rw [hstream, drop_of_getElem? hk] at hlt
        simp only [encodings, List.flatMap_cons, List.length_append] at hlt
        omega

end Feeding

/-- However the stream is cut, the tasks are dispatched in order and each once,
if every length word is known when it is read. -/
theorem delivered_of_run (m : Mem) (ts : List TaskT) (s s' : Inbox)
    (hsend : forall t, t ∈ ts -> t.Sendable) (hstart : Awaiting m ts s)
    (hfits : FitsIn m s.w.mc.inBuf ts) (hrun : Reaches inStep DecodesKnown s s')
    (hphase : s'.phase = Phase.recv) : exists k, DeliveredUpTo m ts s'.w k := by
  have hinv : InInv m ts s' := by
    apply hrun.invariant (InInv m ts) _ (inInv_of_awaiting hstart hfits)
    intro t a u ht hknown hstep
    exact inInv_of_step hsend ht hknown hstep
  obtain ⟨k, hfeed⟩ := hinv.feed
  exact ⟨k, hfeed.delivered hsend (hinv.drained hphase)⟩

/-- A part of the first header, or the whole of it and nothing more, leaves no
length word in doubt. -/
theorem lengthsKnown_of_length {w : World} (hwf : w.mc.inBuf.Wf)
    (hfour : 4 ≤ w.unread.length) (hle : w.unread.length ≤ headerSize) :
    LengthsKnown w := by
  have hlen : (w.unread.length : Int) = bufferSize w.mc.inBuf :=
    hwf.content_length_int w.mem
  simp only [headerSize, intSize, taskSize] at hle
  refine ⟨by omega, ?_⟩
  intro fs rest hcut hpos hlt
  have hstream := congrArg List.length hcut.stream
  cases fs with
  | nil =>
      simp only [List.flatten_nil, List.nil_append] at hstream
      omega
  | cons f fs =>
      have hheader := (hcut.frames f (by simp)).1.headerSize_le
      simp only [List.flatten_cons, List.length_append] at hstream
      simp only [headerSize, intSize, taskSize] at hheader
      omega

def smallInbox (m : Mem) (ts : List TaskT) : Inbox where
  w := (nnConnInit smallConf smallAllocs (worldNew (fun _ => 0) 5 [[]]
    { silentEnv with wire := encodings m ts })).2
  phase := Phase.recv

theorem smallInbox_awaiting (m : Mem) (t : TaskT) :
    Awaiting m [t] (smallInbox m [t]) where
  phase := rfl
  wf := bufferCreate_wf (by decide)
  unread := by
    change (bufferCreate 65536 1024).content _ = []
    simp [Buffer.content, bufferCreate]
  wire := rfl
  received := rfl
  dispatched := rfl
  nodes := by
    change 1 < ([1, 0] : List Nat).length
    decide
  count := by
    change (0 : Int) + ([1, 0] : List Nat).length ≤ 2
    decide

def sevens : Mem :=
  fun _ => 7

def headerTask : TaskT :=
  { taskNew with cmd := 16 }

def hundredArrived : Inbox :=
  after inStep (smallInbox sevens [headerTask])
    [InLabel.recv [RecvResult.data 99]]

def restArrived : Inbox :=
  after inStep (after inStep hundredArrived [InLabel.decode])
    [InLabel.recv [RecvResult.intr, RecvResult.data 511]]

theorem delivered_headerTask :
    (after inStep restArrived [InLabel.decode]).w.env.wire = [] ∧
      exists k, DeliveredUpTo sevens [headerTask]
        (after inStep restArrived [InLabel.decode]).w k := by
  have hwf : hundredArrived.w.mc.inBuf.Wf ∧ restArrived.w.mc.inBuf.Wf :=
    ⟨⟨by decide +kernel, by decide +kernel, by decide +kernel,
        by decide +kernel, by decide +kernel⟩,
      ⟨by decide +kernel, by decide +kernel, by decide +kernel,
        by decide +kernel, by decide +kernel⟩⟩
  have hfirst : Reaches inStep DecodesKnown (smallInbox sevens [headerTask])
      hundredArrived :=
    (Reaches.refl _).oneLabel trivial (by decide +kernel)
  have hagain := hfirst.oneLabel (a := InLabel.decode)
    (lengthsKnown_of_length hwf.1 (by decide +kernel) (by decide +kernel))
    (by decide +kernel)
  have hrest : Reaches inStep DecodesKnown (smallInbox sevens [headerTask])
      restArrived :=
    hagain.oneLabel trivial (by decide +kernel)
  have hlast := hrest.oneLabel (a := InLabel.decode)
    (lengthsKnown_of_length hwf.2 (by decide +kernel) (by decide +kernel))
    (by decide +kernel)
  refine ⟨by decide +kernel, delivered_of_run sevens [headerTask]
    (smallInbox sevens [headerTask]) _ ?_ (smallInbox_awaiting _ _) ?_ hlast
    (by decide +kernel)⟩
  · intro t ht
    rw [List.mem_singleton.mp ht]
    exact ⟨by decide, by decide⟩
  · intro t ht
    rw [List.mem_singleton.mp ht]
    decide +kernel

/-- A task whose encoding has 512 bytes, so that the first byte of its length
word is zero. -/
def roundTask : TaskT :=
  { taskNew with cmd := 16, dataLen := 168 }

def byteArrived : Inbox :=
  after inStep (smallInbox sevens [roundTask])
    [InLabel.recv [RecvResult.data 0], InLabel.decode]

theorem delivered_roundTask_fails :
    roundTask.Sendable ∧
      Awaiting sevens [roundTask] (smallInbox sevens [roundTask]) ∧
      (taskEncoding sevens roundTask).length ≤
        (smallInbox sevens [roundTask]).w.mc.inBuf.endPtr -
          (smallInbox sevens [roundTask]).w.mc.inBuf.start ∧
      Reaches inStep Always (smallInbox sevens [roundTask]) byteArrived ∧
      byteArrived.phase = Phase.recv ∧
      ¬ exists k, DeliveredUpTo sevens [roundTask] byteArrived.w k := by
  refine ⟨⟨by decide, by decide⟩, smallInbox_awaiting _ _, by decide +kernel,
    ?_, by decide +kernel, ?_⟩
  · exact (Reaches.refl _).labels (fun _ _ _ => trivial) (by decide +kernel)
  · rintro ⟨k, hdelivered⟩
    have hlen := hdelivered.dispatched.length_eq
    have htwo : byteArrived.w.trace.dispatched.length = 2 := by decide +kernel
    have hone : ([roundTask].take k).length ≤ 1 := by
      rw [List.length_take]
      exact Nat.min_le_right _ _
    omega

end Request
end NgxEpoll
