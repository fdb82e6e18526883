import NgxEpoll.Request.Life

/-!
# Starting a connection

`nn_conn_init` of `nn_request.cpp`, called for an accepted socket.  The
allocator is outside the model: what it returns is a parameter.
-/

namespace NgxEpoll
namespace Request

open Foundation
open NgxEpoll.Core
open Common

structure ConfServer where
  recvBuffLen : BitVec 32
  sendBuffLen : BitVec 32
  maxTqueueLen : BitVec 32

/-- What the allocations of `nn_conn_init` return.  `mempool` and `mc` tell
whether the pool and the `nn_conn_t` were obtained; `buff` is what the node
array holds before it is initialised, and `wbt i` the address of the `wbt`
field of node `i`. -/
structure Allocs where
  mempool : Bool
  mc : Bool
  inStart : Option Nat
  outStart : Option Nat
  buff : Option (Nat -> TaskT)
  wbt : Nat -> BitVec 64

def inSize (conf : ConfServer) : Nat :=
  (conf.recvBuffLen * 2).toNat

def outSize (conf : ConfServer) : Nat :=
  (conf.sendBuffLen * 2).toNat

def bufferAt (start : Option Nat) (size : Nat) : Option Buffer :=
  if size = 0 then none else start.map (bufferCreate · size)

/-- `pool_alloc` of the node array: no block has size zero, and a negative
`max_task` asks for more than the address space. -/
def nodeArray (conf : ConfServer) (allocs : Allocs) : Option (Nat -> TaskT) :=
  if conf.maxTqueueLen.toInt ≤ 0 then none else allocs.buff

def eventNew : Event where
  active := false
  ready := false
  timedout := false
  timerSet := false

def connNew (fd : Int) : ConnT where
  fd := fd
  read := eventNew
  write := eventNew

def nnConnNew : NnConn where
  connection := false
  inBuf := bufferCreate 0 0
  out := bufferCreate 0 0
  outTask := []
  writeEventHandler := false
  count := 0
  slow := 0
  freeTask := []
  evTimer := eventNew
  maxTask := 0
  state := ConnState.connected
  nodes := fun _ => taskNew

def traceNew : Trace where
  received := []
  dispatched := []
  carried := fun _ => []
  sent := []
  freed := []
  lost := []
  destroyed := []
  usedAfterDestroy := false
  emptyPop := false

/-- A world in which nothing is known of the connection yet. -/
def worldNew (mem : Mem) (fd : Int) (tq : List (List Nat)) (env : Env) :
    World where
  mem := mem
  c := connNew fd
  mc := nnConnNew
  tq := tq
  env := env
  trace := traceNew
  hung := false

def nnConnStarted (conf : ConfServer) (allocs : Allocs)
    (inBuf out : Buffer) (buff : Nat -> TaskT) : NnConn :=
  { nnConnNew with
    connection := true
    inBuf := inBuf
    out := out
    maxTask := conf.maxTqueueLen.toInt
    freeTask := (List.range conf.maxTqueueLen.toInt.toNat).reverse
    nodes := fun i => { buff i with opq := allocs.wbt i, data := 0 } }

def nnConnInitError (w : World) : Bool × World :=
  let w := poolDestroy w
  (false, { w with c := connClose w.c })

def nnConnInit (conf : ConfServer) (allocs : Allocs) (w : World) :
    Bool × World :=
  if !allocs.mempool || !allocs.mc then (false, { w with c := connClose w.c })
  else
    match bufferAt allocs.inStart (inSize conf),
        bufferAt allocs.outStart (outSize conf) with
    | some inBuf, some out =>
        match nodeArray conf allocs with
        | some buff =>
            let r := eventHandleRead
              { w with mc := nnConnStarted conf allocs inBuf out buff }
            if r.1 = ngxError then nnConnInitError r.2 else (true, r.2)
        | none => nnConnInitError w
    | _, _ => nnConnInitError w

/-- What a successful `nn_conn_init` has done: the buffers and nodes exist and
only the read event and the kernel have moved on. -/
theorem nnConnInit_up {conf : ConfServer} {allocs : Allocs} {w v : World}
    (h : nnConnInit conf allocs w = (true, v)) :
    exists inBuf out buff ev env,
      bufferAt allocs.inStart (inSize conf) = some inBuf ∧
      bufferAt allocs.outStart (outSize conf) = some out ∧
      0 < conf.maxTqueueLen.toInt ∧
      v = { w with
        mc := nnConnStarted conf allocs inBuf out buff
        c := { w.c with read := ev }
        env := env } := by
  unfold nnConnInit at h
  split at h
  · cases h
  · split at h
    · next inBuf out hin hout =>
      split at h
      · next buff hbuff =>
        simp only at h
        split at h
        · cases h
        · have hpos : 0 < conf.maxTqueueLen.toInt := by
            unfold nodeArray at hbuff
            split at hbuff
            · cases hbuff
            · omega
          cases h
          exact ⟨inBuf, out, buff, _, _, hin, hout, hpos, rfl⟩
      · cases h
    · cases h

theorem nnConnInit_balanced {conf : ConfServer} {allocs : Allocs} {v : World}
    {mem : Mem} {fd : Int} {tq : List (List Nat)} {env : Env}
    {m : List (BitVec 64)}
    (h : nnConnInit conf allocs (worldNew mem fd tq env) = (true, v))
    (htq : bagOf tq = 0) : (v.life 0 0 m).places.Balanced := by
  obtain ⟨inBuf, out, buff, ev, env', _, _, hpos, rfl⟩ := nnConnInit_up h
  constructor
  · simp only [World.life, worldNew, nnConnStarted, nnConnNew, traceNew, htq]
    simp only [Multiset.coe_reverse, Multiset.coe_nil, Multiset.add_zero]
    rfl
  · simp only [World.life, worldNew, nnConnStarted, nnConnNew,
      Multiset.coe_card, List.length_reverse, List.length_range]
    omega
  · rfl
  · exact Int.le_of_lt hpos

/-- The blocks that the allocator returned lie in the address space and share no
address. -/
structure Allocs.Valid (conf : ConfServer) (allocs : Allocs) : Prop where
  inEnd : forall a, allocs.inStart = some a -> a + inSize conf < 2 ^ 64
  outEnd : forall a, allocs.outStart = some a -> a + outSize conf < 2 ^ 64
  apart : forall a b, allocs.inStart = some a -> allocs.outStart = some b ->
    Apart a (inSize conf) b (outSize conf)

theorem bufferAt_eq_some {start : Option Nat} {size : Nat} {b : Buffer}
    (h : bufferAt start size = some b) :
    exists a, start = some a ∧ b = bufferCreate a size := by
  unfold bufferAt at h
  split at h
  · cases h
  · cases start with
    | none => cases h
    | some a =>
        cases h
        exact ⟨a, rfl, rfl⟩

/-!
## A small configuration
-/

def smallConf : ConfServer where
  recvBuffLen := 512
  sendBuffLen := 512
  maxTqueueLen := 2

def smallAllocs : Allocs where
  mempool := true
  mc := true
  inStart := some 65536
  outStart := some 131072
  buff := some fun _ => taskNew
  wbt := fun i => BitVec.ofNat 64 (196608 + i)

def silentEnv : Env where
  wire := []
  recvs := []
  sends := []
  ctls := []

theorem smallAllocs_valid : smallAllocs.Valid smallConf := by
  refine ⟨?_, ?_, ?_⟩
  · intro a ha
    cases ha
    decide
  · intro a ha
    cases ha
    decide
  · intro a b ha hb
    cases ha
    cases hb
    decide

end Request
end NgxEpoll
