import NgxEpoll.Foundation.Loop
import NgxEpoll.Foundation.Memory
import NgxEpoll.Core.Buffer

/-!
# Sending a chain of buffers

`chain_output` and `chain_write_update` of `dfs_chain.cpp` with
`sysio_writev_chain` and `sysio_sendfile_chain` of `dfs_sysio.cpp`.  A chain is the
list of its buffers, and the kernel answers from a script.
-/

namespace NgxEpoll
namespace Output

open Foundation
open NgxEpoll.Core

/-- What `writev` and `sendfile` answer: they take `n` bytes or what they were
given, if that is less. -/
inductive SysResult where
  | sent (n : Nat)
  | again
  | intr
  | error
deriving DecidableEq

/-- The context of `chain_output` and its connection: the memory, the file behind
`ctx->fd`, `ctx->out`, the flag `ready` of the write event, `c->sent`, the answers
to come, and the bytes that the kernel has taken. -/
structure World where
  mem : Mem
  file : Mem
  out : List Buffer
  ready : Bool
  cSent : Nat
  results : List SysResult
  taken : List Byte

def dfsMaxLimit : Nat := 2147479552

def dfsIovsMax : Nat := 32

def chainEmpty (cl : List Buffer) : Bool :=
  cl.all (fun b => decide (bufferSize b ≤ 0))

def chainWriteUpdate : List Buffer -> Nat -> List Buffer
  | [], _ => []
  | b :: rest, size =>
      if size = 0 then b :: rest
      else
        let bsize := cSize (bufferSize b)
        if size < bsize then
          if b.memory then { b with pos := b.pos + size } :: rest
          else { b with filePos := b.filePos + size } :: rest
        else chainWriteUpdate rest (size - bsize)

def growLast (iovs : List (Nat × Nat)) (bsize : Nat) : List (Nat × Nat) :=
  match iovs.getLast? with
  | none => iovs
  | some (base, len) => iovs.dropLast ++ [(base, len + bsize)]

/-- The loop of `sysio_pack_chain_to_iovs`, with the pairs so far, `*last_size` and
`last_pos`. -/
def packFrom (limit : Nat) : List Buffer -> List (Nat × Nat) -> Nat -> Nat ->
    List (Nat × Nat) × Nat
  | [], iovs, lastSize, _ => (iovs, lastSize)
  | b :: rest, iovs, lastSize, lastPos =>
      if iovs.length < dfsIovsMax ∧ lastSize < limit then
        if b.memory = false then (iovs, lastSize)
        else if bufferSize b ≤ 0 then packFrom limit rest iovs lastSize lastPos
        else
          let bsize :=
            if limit < lastSize + (bufferSize b).toNat then limit - lastSize
            else (bufferSize b).toNat
          let iovs :=
            if lastPos ≠ b.pos then iovs ++ [(b.pos, bsize)] else growLast iovs bsize
          packFrom limit rest iovs (lastSize + bsize) (b.pos + bsize)
      else (iovs, lastSize)

def sysioPackChainToIovs (cl : List Buffer) (lastSize limit : Nat) :
    List (Nat × Nat) × Nat :=
  packFrom limit cl [] lastSize 0

def iovBytes (m : Mem) (iovs : List (Nat × Nat)) : List Byte :=
  iovs.flatMap (fun v => load m v.1 v.2)

def writevAnswer (size : Nat) : List SysResult -> Int × List SysResult
  | [] => (ngxAgain, [])
  | SysResult.intr :: rest => writevAnswer size rest
  | SysResult.again :: rest => (ngxAgain, rest)
  | SysResult.error :: rest => (ngxError, rest)
  | SysResult.sent n :: rest =>
      let rc := min n size
      if rc = 0 then (ngxError, rest) else (rc, rest)

def sysioWritevIovs (w : World) (iovs : List (Nat × Nat)) : Int × World :=
  let bytes := iovBytes w.mem iovs
  let r := writevAnswer bytes.length w.results
  (r.1, { w with results := r.2, taken := w.taken ++ bytes.take r.1.toNat })

/-- One iteration of `sysio_writev_chain`: the state carries `in` and
`packall_size`.  The result is `DFS_CHAIN_ERROR` or a chain. -/
def writevTurn (limit : Nat) (s : World × List Buffer × Nat) :
    Turn (World × List Buffer × Nat) (World × Option (List Buffer)) :=
  match s.2.1 with
  | [] => Turn.done (s.1, some [])
  | b :: rest =>
      if s.2.2 < limit ∧ b.memory = true then
        let p := sysioPackChainToIovs (b :: rest) s.2.2 limit
        if p.1.length = 0 then Turn.done (s.1, some [])
        else
          let r := sysioWritevIovs s.1 p.1
          if 0 < r.1 then
            let w := { r.2 with cSent := r.2.cSent + r.1.toNat }
            let cl := chainWriteUpdate (b :: rest) r.1.toNat
            if limit ≤ p.2 then Turn.done (w, some cl) else Turn.next (w, cl, p.2)
          else if r.1 = ngxAgain then
            Turn.done ({ r.2 with ready := false }, some (b :: rest))
          else if r.1 = ngxError then Turn.done (r.2, none)
          else Turn.next (r.2, b :: rest, p.2)
      else Turn.done (s.1, some (b :: rest))

/-- The limit that a call uses: 0 stands for the greatest one. -/
def effectiveLimit (limit : Nat) : Nat :=
  if limit = 0 ∨ dfsMaxLimit < limit then dfsMaxLimit else limit

def sysioWritevChain (w : World) (cl : List Buffer) (limit : Nat) :
    World × Option (List Buffer) :=
  if cl.isEmpty then (w, some [])
  else if !w.ready then (w, some cl)
  else
    loop (fun s => s.1.results.length) (writevTurn (effectiveLimit limit))
      (fun s => (s.1, some s.2.1)) (w, cl, 0)

/-- One iteration of `sysio_sendfile_chain`: the state carries `in` and `sent`. -/
def sendfileTurn (limit : Nat) (s : World × List Buffer × Nat) :
    Turn (World × List Buffer × Nat) (World × Option (List Buffer)) :=
  match s.2.1 with
  | [] => Turn.done (s.1, some [])
  | b :: rest =>
      if s.2.2 < limit ∧ b.memory = false then
        let size := cSize (bufferSize b)
        if size = 0 then Turn.next (s.1, rest, s.2.2)
        else
          let packSize := if limit < s.2.2 + size then limit - s.2.2 else size
          match s.1.results with
          | [] => Turn.done ({ s.1 with ready := false }, some (b :: rest))
          | SysResult.again :: rs =>
              Turn.done ({ s.1 with results := rs, ready := false }, some (b :: rest))
          | SysResult.intr :: rs => Turn.next ({ s.1 with results := rs }, b :: rest, s.2.2)
          | SysResult.error :: rs => Turn.done ({ s.1 with results := rs }, none)
          | SysResult.sent n :: rs =>
              let rc := min n packSize
              let w := { s.1 with results := rs }
              if rc = 0 then Turn.done (w, none)
              else
                let b' := { b with filePos := b.filePos + rc }
                let w := { w with
                  cSent := w.cSent + rc
                  taken := w.taken ++ load w.file b.filePos.toNat rc }
                if bufferSize b' = 0 then Turn.next (w, rest, s.2.2 + rc)
                else Turn.next (w, b' :: rest, s.2.2 + rc)
      else Turn.done (s.1, some (b :: rest))

def sysioSendfileChain (w : World) (cl : List Buffer) (limit : Nat) :
    World × Option (List Buffer) :=
  if cl.isEmpty then (w, some [])
  else if !w.ready then (w, some cl)
  else
    loop (fun s => s.1.results.length + s.2.1.length)
      (sendfileTurn (effectiveLimit limit)) (fun s => (s.1, some s.2.1)) (w, cl, 0)

def sendChain (w : World) (limit : Nat) : World × Option (List Buffer) :=
  match w.out with
  | [] => (w, some [])
  | b :: rest =>
      if b.memory then sysioWritevChain w (b :: rest) limit
      else sysioSendfileChain w (b :: rest) limit

/-- One iteration of `chain_output`.  After an error `ctx->out` is of no use; here it
stays as it was. -/
def chainOutputTurn (limit : Nat) (w : World) : Turn World (Int × World) :=
  if w.ready = true ∧ w.out ≠ [] then
    let r := sendChain w limit
    match r.2 with
    | none => Turn.done (ngxError, r.1)
    | some cl => Turn.next { r.1 with out := cl }
  else Turn.done (if w.out = [] then ngxOk else ngxAgain, w)

def chainOutput (w : World) (given : List Buffer) (limit : Nat) : Int × World :=
  let w := { w with out := w.out ++ given }
  if chainEmpty w.out then (ngxOk, w)
  else
    loop
      (fun w => w.results.length + w.out.length + (if w.ready then 1 else 0))
      (chainOutputTurn limit) (fun w => (ngxAgain, w)) w

/-- One iteration of `chain_output_with_limit`: the state carries `sent` and the
`int64_t` `cur_limit`. -/
def withLimitTurn (limit : Nat) (s : World × Nat × Int) :
    Turn (World × Nat × Int) (Int × World) :=
  if s.1.ready = true ∧ s.1.out ≠ [] then
    let r := sendChain s.1 (cSize s.2.2)
    match r.2 with
    | none => Turn.done (ngxError, r.1)
    | some cl =>
        let w := { r.1 with out := cl }
        let code := if w.out = [] then ngxOk else ngxAgain
        if w.ready = false then Turn.done (code, w)
        else if limit ≠ 0 then
          let curLimit := (s.2.2 - ((w.cSent : Int) - s.2.1)).bmod (2 ^ 64)
          if curLimit ≤ 0 then Turn.done (code, w) else Turn.next (w, w.cSent, curLimit)
        else Turn.next (w, s.2.1, s.2.2)
  else Turn.done (if s.1.out = [] then ngxOk else ngxAgain, s.1)

/-- `chain_output_with_limit`, which does not use its argument `in`. -/
def chainOutputWithLimit (w : World) (limit : Nat) : Int × World :=
  loop
    (fun s => s.1.results.length + s.1.out.length + (if s.1.ready then 1 else 0))
    (withLimitTurn limit) (fun s => (ngxAgain, s.1))
    (w, w.cSent, (limit : Int).bmod (2 ^ 64))

end Output
end NgxEpoll
