import NgxEpoll.Request.Conn
import NgxEpoll.Common.Frame

/-!
# Receiving and decoding

`nn_conn_recv`, `nn_conn_decode` and `nn_conn_read_handler` of
`nn_request.cpp`.  Each loop of the source is given by its body; the turn
functions are what one iteration does.
-/

namespace NgxEpoll
namespace Request

open Foundation
open NgxEpoll.Core
open Common

/-- The most bytes one system call transfers on Linux, so that its result is
an `int` again. -/
def maxRwCount : Nat := 0x7ffff000

def recvAnswer (env : Env) (size : Nat) :
    List RecvResult -> Int × List Byte × Env
  | [] => (ngxAgain, [], { env with recvs := [] })
  | RecvResult.intr :: rest => recvAnswer env size rest
  | RecvResult.again :: rest => (ngxAgain, [], { env with recvs := rest })
  | RecvResult.closed :: rest => (0, [], { env with recvs := rest })
  | RecvResult.error :: rest => (ngxError, [], { env with recvs := rest })
  | RecvResult.data n :: rest =>
      let bs := env.wire.take (min (n + 1) (min size maxRwCount))
      if bs = [] then (ngxAgain, [], { env with recvs := rest })
      else
        (bs.length, bs,
          { env with recvs := rest, wire := env.wire.drop bs.length })

def sysioUnixRecv (env : Env) (size : Nat) : Int × List Byte × Env :=
  recvAnswer env size env.recvs

def shrinkIn (w : World) : World :=
  let s := bufferShrink w.mem w.mc.inBuf
  { w with mem := s.1, mc := { w.mc with inBuf := s.2 } }

def resetIn (w : World) : World :=
  { w with mc := { w.mc with inBuf := bufferReset w.mc.inBuf } }

def appendIn (w : World) (bs : List Byte) : World :=
  { w with
    mem := store w.mem w.mc.inBuf.last bs
    mc := { w.mc with
      inBuf := { w.mc.inBuf with last := w.mc.inBuf.last + bs.length } }
    trace := { w.trace with received := w.trace.received ++ bs } }

def nnConnRecvTurn (w : World) : Turn World (Int × World) :=
  let w := shrinkIn w.useMc
  let blen := bufferFreeSize w.mc.inBuf
  if blen = 0 then Turn.done (ngxBufferFull, w)
  else
    let r := sysioUnixRecv w.env (cSize blen)
    let w := { w with env := r.2.2 }
    if 0 < r.1 then Turn.next (appendIn w r.2.1)
    else if r.1 = 0 then Turn.done (ngxConnClosed, w)
    else if r.1 = ngxError then Turn.done (ngxError, w)
    else if r.1 = ngxAgain then Turn.done (ngxAgain, w)
    else Turn.next w

def afterTurn : Turn World (Int × World) -> World
  | Turn.next w => w
  | Turn.done r => r.2

/-- What `recv` returns: bytes of the wire, at most as many as asked for, or a
code. -/
theorem recvAnswer_cases (env : Env) (size : Nat) (rs : List RecvResult) :
    let r := recvAnswer env size rs
    (0 < r.1 ∧ r.1 = r.2.1.length ∧ r.2.1.length ≤ size ∧
        env.wire = r.2.1 ++ r.2.2.wire) ∨
      (r.2.1 = [] ∧ r.2.2.wire = env.wire ∧
        (r.1 = ngxAgain ∨ r.1 = 0 ∨ r.1 = ngxError)) := by
  induction rs with
  | nil => exact Or.inr ⟨rfl, rfl, Or.inl rfl⟩
  | cons a rest ih =>
      cases a with
      | intr => exact ih
      | again => exact Or.inr ⟨rfl, rfl, Or.inl rfl⟩
      | closed => exact Or.inr ⟨rfl, rfl, Or.inr (Or.inl rfl)⟩
      | error => exact Or.inr ⟨rfl, rfl, Or.inr (Or.inr rfl)⟩
      | data n =>
          simp only [recvAnswer]
          generalize hbs : env.wire.take (min (n + 1) (min size maxRwCount)) = bs
          have hle : bs.length ≤ size := by
            rw [← hbs, List.length_take]
            omega
          have hsplit : env.wire = bs ++ env.wire.drop bs.length := by
            have hfront : bs <+: env.wire := by
              rw [← hbs]
              exact List.take_prefix _ _
            exact (List.prefix_iff_eq_append.mp hfront).symm
          by_cases hnil : bs = []
          · rw [if_pos hnil]
            exact Or.inr ⟨rfl, rfl, Or.inl rfl⟩
          · rw [if_neg hnil]
            have hpos := List.length_pos_iff.mpr hnil
            exact Or.inl ⟨by simp only; omega, rfl, hle, hsplit⟩

theorem sysioUnixRecv_cases (env : Env) (size : Nat) :
    let r := sysioUnixRecv env size
    (0 < r.1 ∧ r.1 = r.2.1.length ∧ r.2.1.length ≤ size ∧
        env.wire = r.2.1 ++ r.2.2.wire) ∨
      (r.2.1 = [] ∧ r.2.2.wire = env.wire ∧
        (r.1 = ngxAgain ∨ r.1 = 0 ∨ r.1 = ngxError)) :=
  recvAnswer_cases env size env.recvs

theorem nnConnRecvTurn_cases (w : World) :
    let v := shrinkIn w.useMc
    let r := sysioUnixRecv v.env (cSize (bufferFreeSize v.mc.inBuf))
    afterTurn (nnConnRecvTurn w) = v ∨
      (r.1 ≤ 0 ∧ afterTurn (nnConnRecvTurn w) = { v with env := r.2.2 }) ∨
      (0 < r.1 ∧
        afterTurn (nnConnRecvTurn w) = appendIn { v with env := r.2.2 } r.2.1) := by
  simp only [nnConnRecvTurn]
  generalize shrinkIn w.useMc = v
  split
  · exact Or.inl rfl
  · right
    split
    · next hpos => exact Or.inr ⟨hpos, rfl⟩
    · next hpos =>
      refine Or.inl ⟨by omega, ?_⟩
      split
      · rfl
      · split
        · rfl
        · split <;> rfl

def nnConnRecv (w : World) : Int × World :=
  loop (fun w => w.env.recvs.length) nnConnRecvTurn
    (fun w => (ngxOk, w)) w

/-- The index of `dispatch_task`: `hash_task_key` is the first character of the
key, which goes through `int` and `uint32_t`. -/
def dispatchIndex (t : TaskT) (taskNum : Nat) : Nat :=
  (BitVec.signExtend 32 t.keyHead).toNat % taskNum

/-- `dispatch_task`: `push_task` puts the node at the head of a task thread's
queue. -/
def dispatchTask (w : World) (n : Nat) : World :=
  let t := w.mc.nodes n
  { w with
    tq := w.tq.modify (dispatchIndex t w.tq.length) (n :: ·)
    trace := { w.trace with
      dispatched := w.trace.dispatched ++
        [{ node := n, task := t, payload := t.payload w.mem }] } }

def nnConnBusy (w : World) : World :=
  let w := { w with mc := { w.mc with slow := 1 } }
  let w := (eventDelRead w).2
  { w with mc := { w.mc with evTimer := eventTimerAdd w.mc.evTimer } }

/-- The payload of the frame at the front of the receive buffer, as its
trailing word gives its length. -/
def carriedPayload (w : World) : List Byte :=
  load w.mem (w.mc.inBuf.pos + headerSize)
    (loadInt w.mem (w.mc.inBuf.pos + intSize + taskSize)).toNat

def decodeInto (w : World) (n : Nat) : Int × World :=
  let r := taskDecode w.mem w.mc.inBuf (w.mc.nodes n)
  (r.1,
    { w with
      mc := { w.mc with
        inBuf := r.2.1
        nodes := Function.update w.mc.nodes n r.2.2 }
      trace := { w.trace with
        carried := Function.update w.trace.carried n (carriedPayload w) } })

def loseNode (w : World) (n : Nat) : World :=
  { w with trace := { w.trace with lost := n :: w.trace.lost } }

/-- One iteration of `nn_conn_decode`.  A code that is none of `NGX_OK`,
`NGX_ERROR` and `NGX_AGAIN` starts the next iteration and forgets the node. -/
def nnConnDecodeTurn (w : World) : Turn World (Int × World) :=
  match nnConnGetTask w with
  | (none, w) => Turn.done (ngxBusy, nnConnBusy w)
  | (some n, w) =>
      let r := decodeInto w n
      let w := r.2
      if r.1 = ngxOk then Turn.next (dispatchTask w n)
      else if r.1 = ngxError then
        Turn.done (ngxError, resetIn (nnConnFreeTask w n).useMc)
      else if r.1 = ngxAgain then
        Turn.done (ngxAgain, shrinkIn (nnConnFreeTask w n).useMc)
      else Turn.next (loseNode w n)

def attempt (w : World) (n : Nat) (rest : List Nat) : World :=
  (decodeInto (takeFree w rest) n).2

def attemptCode (w : World) (n : Nat) : Int :=
  (taskDecode w.mem w.mc.inBuf (w.mc.nodes n)).1

inductive DecodeStep (u : World) : Turn World (Int × World) -> Prop where
  | busy : u.mc.maxTask ≤ u.mc.count ->
      DecodeStep u (Turn.done (ngxBusy, nnConnBusy u))
  | underflow : u.mc.count < u.mc.maxTask -> u.mc.freeTask = [] ->
      DecodeStep u (Turn.done (ngxBusy,
        nnConnBusy { u with trace := { u.trace with emptyPop := true } }))
  | ok (n : Nat) (rest : List Nat) :
      u.mc.count < u.mc.maxTask -> u.mc.freeTask = n :: rest ->
      attemptCode u n = ngxOk ->
      DecodeStep u (Turn.next (dispatchTask (attempt u n rest) n))
  | error (n : Nat) (rest : List Nat) :
      u.mc.count < u.mc.maxTask -> u.mc.freeTask = n :: rest ->
      attemptCode u n = ngxError ->
      DecodeStep u (Turn.done
        (ngxError, resetIn (nnConnFreeTask (attempt u n rest) n).useMc))
  | again (n : Nat) (rest : List Nat) :
      u.mc.count < u.mc.maxTask -> u.mc.freeTask = n :: rest ->
      attemptCode u n = ngxAgain ->
      DecodeStep u (Turn.done
        (ngxAgain, shrinkIn (nnConnFreeTask (attempt u n rest) n).useMc))
  | lost (n : Nat) (rest : List Nat) :
      u.mc.count < u.mc.maxTask -> u.mc.freeTask = n :: rest ->
      attemptCode u n ≠ ngxOk -> attemptCode u n ≠ ngxError ->
      attemptCode u n ≠ ngxAgain ->
      DecodeStep u (Turn.next (loseNode (attempt u n rest) n))

theorem nnConnDecodeTurn_step (w : World) :
    DecodeStep w.useMc (nnConnDecodeTurn w) := by
  unfold nnConnDecodeTurn
  rcases nnConnGetTask_cases w rfl with
    ⟨hfull, hget⟩ | ⟨hlt, hfree, hget⟩ | ⟨n, rest, hlt, hfree, hget⟩
  · rw [hget]
    exact DecodeStep.busy hfull
  · rw [hget]
    exact DecodeStep.underflow hlt hfree
  · rw [hget]
    simp only
    change DecodeStep w.useMc (if attemptCode w.useMc n = ngxOk then _ else _)
    by_cases hok : attemptCode w.useMc n = ngxOk
    · rw [if_pos hok]
      exact DecodeStep.ok n rest hlt hfree hok
    · rw [if_neg hok]
      change DecodeStep _ (if attemptCode w.useMc n = ngxError then _ else _)
      by_cases herr : attemptCode w.useMc n = ngxError
      · rw [if_pos herr]
        exact DecodeStep.error n rest hlt hfree herr
      · rw [if_neg herr]
        change DecodeStep _ (if attemptCode w.useMc n = ngxAgain then _ else _)
        by_cases hagain : attemptCode w.useMc n = ngxAgain
        · rw [if_pos hagain]
          exact DecodeStep.again n rest hlt hfree hagain
        · rw [if_neg hagain]
          exact DecodeStep.lost n rest hlt hfree hok herr hagain

def nnConnDecode (w : World) : Int × World :=
  loop (fun w => w.mc.freeTask.length) nnConnDecodeTurn
    (fun w => (ngxOk, w)) w

/-- What `nn_conn_read_handler` does with the code of `nn_conn_recv`: `true`
when it goes on to decode. -/
def readGoesOn (rc : Int) : Bool :=
  rc = ngxAgain || rc = ngxBufferFull

def nnConnReadHandler (w : World) : World :=
  let w := w.useMc
  if w.mc.state = ConnState.disconnected then w
  else
    let r := nnConnRecv w
    let w := r.2.useMc
    if readGoesOn r.1 then
      let r := nnConnDecode w
      if r.1 = ngxError then nnConnFinalize r.2 else r.2
    else nnConnFinalize w

end Request
end NgxEpoll
