import NgxEpoll.Core.Types
import NgxEpoll.Foundation.Chains

/-!
# Connection slots

The part of `conn_t` and `event_t` that the connection pools and the event loop
use.  The slots live in the arrays that `conn_pool_init` allocates; a slot is
named by its pool and its index there.

## The memory of slots
-/

namespace NgxEpoll
namespace ConnPool

open Foundation
open NgxEpoll.Core

abbrev Conn := Nat × Nat

instance : LawfulBEq Conn := inferInstance

/-- `event_t`; `inst` and `lastInst` are `instance` and `last_instance`, and
`handler` tells whether the pointer is set. -/
structure Event where
  write : Bool
  accepted : Bool
  inst : Bool
  lastInst : Bool
  active : Bool
  ready : Bool
  timerSet : Bool
  handler : Bool
deriving DecidableEq

structure ConnT where
  fd : Int
  next : Option Conn
  read : Event
  write : Event
  evBase : Bool
  evTimer : Bool
deriving DecidableEq

abbrev Slots := Conn -> ConnT

def zeroEvent : Event where
  write := false
  accepted := false
  inst := false
  lastInst := false
  active := false
  ready := false
  timerSet := false
  handler := false

def nextOf (m : Slots) : Conn -> Option Conn :=
  fun c => (m c).next

def setNext (m : Slots) (c : Conn) (v : Option Conn) : Slots :=
  Function.update m c { m c with next := v }

theorem nextOf_setNext (m : Slots) (c : Conn) (v : Option Conn) :
    nextOf (setNext m c v) = Function.update (nextOf m) c v := by
  funext d
  by_cases hd : d = c
  · rw [hd]
    simp [nextOf, setNext]
  · simp [nextOf, setNext, hd]

theorem setNext_of_ne (m : Slots) {c d : Conn} (v : Option Conn) (h : d ≠ c) :
    setNext m c v d = m d :=
  Function.update_of_ne h _ _

theorem chain_update {m : Slots} {head : Option Conn} {xs : List Conn}
    {c : Conn} {v : ConnT} (hc : c ∉ xs) (h : Chain (nextOf m) head xs) :
    Chain (nextOf (Function.update m c v)) head xs := by
  refine h.congr fun x hx => ?_
  unfold nextOf
  rw [Function.update_of_ne (ne_of_mem_of_not_mem hx hc)]

theorem nextOf_update {m : Slots} {c : Conn} {v : ConnT}
    (h : v.next = (m c).next) : nextOf (Function.update m c v) = nextOf m := by
  funext d
  by_cases hd : d = c
  · rw [hd]
    simp [nextOf, h]
  · simp [nextOf, hd]

/-!
## Setting up and closing a connection
-/

def connSetDefault (m : Slots) (c : Conn) (s : Int) : Slots :=
  Function.update m c
    { m c with
      fd := s
      next := none
      read := { zeroEvent with
        inst := !(m c).read.inst
        lastInst := (m c).read.lastInst }
      write := { zeroEvent with
        inst := !(m c).read.inst
        write := true } }

/-- What `conn_close` does to an event: `event_timer_del` and `event_del_conn`
with `EVENT_CLOSE_EVENT`. -/
def closeEvent (cn : ConnT) (ev : Event) : Event :=
  { ev with
    timerSet := ev.timerSet && !cn.evTimer
    active := ev.active && !cn.evBase }

/-- `conn_close`, except for the `close` call itself. -/
def connClose (m : Slots) (c : Conn) : Slots :=
  if 0 < (m c).fd then
    Function.update m c
      { m c with
        fd := ngxInvalidFile
        read := closeEvent (m c) (m c).read
        write := closeEvent (m c) (m c).write }
  else m

theorem nextOf_connClose (m : Slots) (c : Conn) :
    nextOf (connClose m c) = nextOf m := by
  unfold connClose
  split
  · exact nextOf_update rfl
  · rfl

theorem connClose_of_ne (m : Slots) {c d : Conn} (h : d ≠ c) :
    connClose m c d = m d := by
  unfold connClose
  split
  · exact Function.update_of_ne h _ _
  · rfl

end ConnPool
end NgxEpoll
