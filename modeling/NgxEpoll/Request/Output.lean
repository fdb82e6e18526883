import NgxEpoll.Request.Receive

/-!
# Sending responses

`nn_conn_out_buffer`, `nn_conn_output`, `nn_conn_outtask`,
`nn_conn_write_handler` and `nn_conn_timer_handler` of `nn_request.cpp`, with
`sysio_unix_send` below them.
-/

namespace NgxEpoll
namespace Request

open Foundation
open NgxEpoll.Core
open Common

/-- The answer of `send` for `size` bytes.  `EINTR` is retried; the flag tells
whether the write event stays ready. -/
def sendAnswer (size : Nat) : List SendResult -> Int × Bool × List SendResult
  | [] => (ngxAgain, false, [])
  | SendResult.intr :: rest => sendAnswer size rest
  | SendResult.again :: rest => (ngxAgain, false, rest)
  | SendResult.error :: rest => (ngxError, true, rest)
  | SendResult.sent n :: rest =>
      let k := min n (min size maxRwCount)
      (k, decide (0 < k ∧ size ≤ k), rest)

def sysioUnixSend (w : World) (buf size : Nat) : Int × World :=
  let r := sendAnswer size w.env.sends
  (r.1,
    { w with
      c := { w.c with
        write := { w.c.write with ready := w.c.write.ready && r.2.1 } }
      env := { w.env with sends := r.2.2 }
      trace := { w.trace with sent := w.trace.sent ++ load w.mem buf r.1.toNat } })

def nnConnOutBufferTurn (s : World × Nat) : Turn (World × Nat) (Int × World) :=
  if s.2 = 0 then
    Turn.done
      (ngxOk, { s.1 with mc := { s.1.mc with out := bufferReset s.1.mc.out } })
  else
    let r := sysioUnixSend s.1 s.1.mc.out.pos s.2
    let w := r.2
    if r.1 < 0 then Turn.done (r.1, w)
    else
      Turn.next
        ({ w with mc := { w.mc with
            out := { w.mc.out with pos := w.mc.out.pos + r.1.toNat } } },
          s.2 - r.1.toNat)

def nnConnOutBuffer (w : World) : Int × World :=
  if !w.c.write.ready then (ngxAgain, w)
  else
    loop (fun s => s.1.env.sends.length) nnConnOutBufferTurn
      (fun s => (ngxOk, s.1)) (w, cSize (bufferSize w.mc.out))

def shrinkOut (w : World) : World :=
  let s := bufferShrink w.mem w.mc.out
  { w with mem := s.1, mc := { w.mc with out := s.2 } }

def encodeCode (w : World) (n : Nat) : Int :=
  (taskEncode w.mem (w.mc.nodes n) w.mc.out).1

def encodeNode (w : World) (n : Nat) : World :=
  let r := taskEncode w.mem (w.mc.nodes n) w.mc.out
  { w with mem := r.2.1, mc := { w.mc with out := r.2.2 } }

/-- One iteration of the packing loop of `nn_conn_output`.  A code that is none
of `NGX_OK`, `NGX_AGAIN` and `NGX_ERROR` leaves everything as it was, so the
loop never ends. -/
def nnConnPackTurn (w : World) : Turn World World :=
  let w := w.useMc
  match w.mc.outTask with
  | [] => Turn.done w
  | qe :: rest =>
      let rc := encodeCode w qe
      let w := encodeNode w qe
      if rc = ngxOk then Turn.next (nnConnFreeTask (popOut w rest) qe)
      else if rc = ngxAgain then Turn.done w
      else if rc = ngxError then Turn.next (nnConnFreeTask (popOut w rest) qe)
      else Turn.done { w with hung := true }

def nnConnPack (w : World) : World :=
  loop (fun w => w.mc.outTask.length) nnConnPackTurn id w

def nnConnOutputTurn (w : World) : Turn World (Int × World) :=
  let w := nnConnPack (shrinkOut w.useMc)
  if w.hung then Turn.done (ngxError, w)
  else
    let w := w.useMc
    if bufferSize w.mc.out = 0 then Turn.done (ngxOk, w)
    else
      let r := nnConnOutBuffer w
      let w := r.2
      if r.1 = ngxError then Turn.done (ngxError, nnConnFinalize w)
      else if r.1 = ngxAgain then
        let e := eventHandleWrite w
        if e.1 = ngxError then Turn.done (ngxError, e.2)
        else
          Turn.done
            (ngxAgain,
              { e.2 with c := { e.2.c with write := eventTimerAdd e.2.c.write } })
      else Turn.next w

def nnConnOutput (w : World) : Int × World :=
  let w := w.useMc
  if !w.c.write.ready && decide (0 < bufferSize w.mc.out) then (ngxAgain, w)
  else
    loop (fun w => w.env.sends.length) nnConnOutputTurn (fun w => (ngxOk, w))
      { w with mc := { w.mc with writeEventHandler := true } }

def pushOut (w : World) (n : Nat) : World :=
  { w with mc := { w.mc with outTask := w.mc.outTask ++ [n] } }

def nnConnOuttask (w : World) (n : Nat) : Int × World :=
  let w := w.useMc
  if w.mc.state ≠ ConnState.connected then (ngxOk, nnConnFreeTask w n)
  else nnConnOutput (pushOut w n)

def nnConnWriteHandler (w : World) : World :=
  let w := w.useMc
  if w.mc.state = ConnState.disconnected then w
  else if w.c.write.timedout then nnConnFinalize w
  else
    let w :=
      if w.c.write.timerSet then
        { w with c := { w.c with write := eventTimerDel w.c.write } }
      else w
    (nnConnOutput w).2

/-- `nn_conn_timer_handler` up to its call of `nn_conn_read_handler`: `true`
when that call is reached. -/
def nnConnTimerHandlerFront (w : World) : Bool × World :=
  let w := w.useMc
  let r := eventHandleRead
    { w with mc := { w.mc with evTimer := eventTimerDel w.mc.evTimer } }
  if r.1 ≠ ngxOk then (false, nnConnFinalize r.2)
  else
    let w := nnConnWriteHandler r.2
    (!w.hung, w)

def nnConnTimerHandler (w : World) : World :=
  let r := nnConnTimerHandlerFront w
  if r.1 then nnConnReadHandler r.2 else r.2

end Request
end NgxEpoll
