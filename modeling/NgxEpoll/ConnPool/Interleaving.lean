import NgxEpoll.ConnPool.Sharing
import NgxEpoll.Locks.Atomic

/-!
# The common pool under its lock

`put_comm_conn` and `get_comm_conn`, one statement a turn, between `dfs_atomic_lock_on`
and `dfs_atomic_lock_off` of `comm_conn_lock`.  Threads are interleaved between any two
statements.

## The statements
-/

namespace NgxEpoll
namespace ConnPool

open Foundation
open NgxEpoll.Core
open Locks

abbrev Comm := Slots × ConnPoolT

inductive CommOp where
  | put (c : Conn)
  | get (n : Nat)

inductive CommVar where
  | putCount (c : Conn)
  | putNext (c : Conn)
  | putFront (c : Conn)
  | getTest (n : Nat)
  | getCompare (n : Nat)
  | allFront
  | allCount (c : Option Conn)
  | allClear (c : Option Conn) (num : Int)
  | allZero (c : Option Conn) (num : Int)
  | walkStart (n : Nat)
  | walking (n i : Nat) (plast p : Option Conn)
  | someFront (n : Nat) (plast p : Option Conn)
  | someTake (n : Nat) (plast p c : Option Conn)
  | someCount (n : Nat) (plast c : Option Conn)
  | someCut (n : Nat) (plast c : Option Conn)

/-- What a call returns: nothing, or the connections and `*num`. -/
abbrev CommResult := Option Conn × Int

def commBody : CommVar × Comm -> Turn (CommVar × Comm) (Comm × CommResult)
  | (CommVar.putCount c, (m, comm)) =>
      Turn.next (CommVar.putNext c,
        (m, { comm with freeConnectionN := comm.freeConnectionN + 1 }))
  | (CommVar.putNext c, (m, comm)) =>
      Turn.next (CommVar.putFront c, (setNext m c comm.freeConnections, comm))
  | (CommVar.putFront c, (m, comm)) =>
      Turn.done ((m, { comm with freeConnections := some c }), (none, 0))
  | (CommVar.getTest n, (m, comm)) =>
      if comm.freeConnectionN = 0 then Turn.done ((m, comm), (none, 0))
      else Turn.next (CommVar.getCompare n, (m, comm))
  | (CommVar.getCompare n, (m, comm)) =>
      if comm.freeConnectionN ≤ n then Turn.next (CommVar.allFront, (m, comm))
      else Turn.next (CommVar.walkStart n, (m, comm))
  | (CommVar.allFront, (m, comm)) =>
      Turn.next (CommVar.allCount comm.freeConnections, (m, comm))
  | (CommVar.allCount c, (m, comm)) =>
      Turn.next (CommVar.allClear c comm.freeConnectionN, (m, comm))
  | (CommVar.allClear c num, (m, comm)) =>
      Turn.next (CommVar.allZero c num, (m, { comm with freeConnections := none }))
  | (CommVar.allZero c num, (m, comm)) =>
      Turn.done ((m, { comm with freeConnectionN := 0 }), (c, num))
  | (CommVar.walkStart n, (m, comm)) =>
      Turn.next (CommVar.walking n n comm.freeConnections comm.freeConnections, (m, comm))
  | (CommVar.walking n (i + 1) _ (some p), (m, comm)) =>
      Turn.next (CommVar.walking n i (some p) (nextOf m p), (m, comm))
  | (CommVar.walking n _ plast p, (m, comm)) =>
      Turn.next (CommVar.someFront n plast p, (m, comm))
  | (CommVar.someFront n plast p, (m, comm)) =>
      Turn.next (CommVar.someTake n plast p comm.freeConnections, (m, comm))
  | (CommVar.someTake n plast p c, (m, comm)) =>
      Turn.next (CommVar.someCount n plast c, (m, { comm with freeConnections := p }))
  | (CommVar.someCount n plast c, (m, comm)) =>
      Turn.next (CommVar.someCut n plast c,
        (m, { comm with freeConnectionN := comm.freeConnectionN - n }))
  | (CommVar.someCut n plast c, (m, comm)) =>
      match plast with
      | none => Turn.done ((m, comm), (c, n))
      | some plast => Turn.done ((setNext m plast none, comm), (c, n))

def commCode : Code Comm CommOp CommVar CommResult where
  start
    | CommOp.put c => CommVar.putCount c
    | CommOp.get n => CommVar.getTest n
  body := commBody

def commCall (s : Comm) : CommOp -> Comm × CommResult
  | CommOp.put c => (putCommConn s.1 s.2 c, (none, 0))
  | CommOp.get n =>
      let r := getCommConn s.1 s.2 n
      (r.2.2, (r.1, r.2.1))

/-!
## A call without other threads
-/

def commMeasure : CommVar × Comm -> Nat
  | (CommVar.putCount _, _) => 2
  | (CommVar.putNext _, _) => 1
  | (CommVar.putFront _, _) => 0
  | (CommVar.getTest n, _) => n + 10
  | (CommVar.getCompare n, _) => n + 9
  | (CommVar.allFront, _) => 3
  | (CommVar.allCount _, _) => 2
  | (CommVar.allClear _ _, _) => 1
  | (CommVar.allZero _ _, _) => 0
  | (CommVar.walkStart n, _) => n + 8
  | (CommVar.walking _ i _ _, _) => i + 7
  | (CommVar.someFront _ _ _, _) => 6
  | (CommVar.someTake _ _ _ _, _) => 5
  | (CommVar.someCount _ _ _, _) => 4
  | (CommVar.someCut _ _ _, _) => 3

theorem commBody_lowers : Lowers (fun _ => True) commMeasure commBody := by
  intro s s' _ hbody
  refine ⟨trivial, ?_⟩
  obtain ⟨v, m, comm⟩ := s
  cases v with
  | walking n i plast p =>
      cases i with
      | zero =>
          cases hbody
          simp only [commMeasure]
          omega
      | succ i =>
          cases p with
          | none =>
              cases hbody
              simp only [commMeasure]
              omega
          | some p =>
              cases hbody
              simp only [commMeasure]
              omega
  | getTest n =>
      simp only [commBody] at hbody
      split at hbody
      · cases hbody
      · cases hbody
        simp only [commMeasure]
        omega
  | getCompare n =>
      simp only [commBody] at hbody
      split at hbody
      · cases hbody
        simp only [commMeasure]
        omega
      · cases hbody
        simp only [commMeasure]
        omega
  | someCut n plast c =>
      cases plast with
      | none => cases hbody
      | some plast => cases hbody
  | putFront c => cases hbody
  | allZero c num => cases hbody
  | walkStart n =>
      cases hbody
      simp only [commMeasure]
      omega
  | _ =>
      cases hbody
      simp only [commMeasure]
      omega

def commLoop (s : CommVar × Comm) : Comm × CommResult :=
  loop commMeasure commBody (fun s => (s.2, (none, 0))) s

theorem commLoop_next {s s' : CommVar × Comm} (h : commBody s = Turn.next s') :
    commLoop s = commLoop s' :=
  loop_next commBody_lowers _ trivial h

theorem commLoop_done {s : CommVar × Comm} {r : Comm × CommResult}
    (h : commBody s = Turn.done r) : commLoop s = r :=
  loop_done _ h

theorem commLoop_walking (n : Nat) (m : Slots) (comm : ConnPoolT) (i : Nat)
    (plast p : Option Conn) :
    commLoop (CommVar.walking n i plast p, (m, comm)) =
      commLoop (CommVar.someFront n (walk (nextOf m) i plast p).1
        (walk (nextOf m) i plast p).2, (m, comm)) := by
  induction i generalizing plast p with
  | zero => exact commLoop_next rfl
  | succ i ih =>
      cases p with
      | none => exact commLoop_next rfl
      | some p =>
          rw [commLoop_next rfl]
          exact ih (some p) (nextOf m p)

theorem commLoop_put (m : Slots) (comm : ConnPoolT) (c : Conn) :
    commLoop (CommVar.putCount c, (m, comm)) = commCall (m, comm) (CommOp.put c) := by
  rw [commLoop_next rfl, commLoop_next rfl, commLoop_done rfl]
  rfl

theorem commLoop_get (m : Slots) (comm : ConnPoolT) (n : Nat) :
    commLoop (CommVar.getTest n, (m, comm)) = commCall (m, comm) (CommOp.get n) := by
  unfold commCall getCommConn
  dsimp only
  by_cases hzero : comm.freeConnectionN = 0
  · have htest : commBody (CommVar.getTest n, (m, comm)) =
        Turn.done ((m, comm), (none, 0)) := if_pos hzero
    rw [commLoop_done htest, if_pos hzero]
  · have htest : commBody (CommVar.getTest n, (m, comm)) =
        Turn.next (CommVar.getCompare n, (m, comm)) := if_neg hzero
    rw [commLoop_next htest, if_neg hzero]
    by_cases hall : comm.freeConnectionN ≤ n
    · have hcompare : commBody (CommVar.getCompare n, (m, comm)) =
          Turn.next (CommVar.allFront, (m, comm)) := if_pos hall
      rw [commLoop_next hcompare, if_pos hall]
      rw [commLoop_next rfl, commLoop_next rfl, commLoop_next rfl, commLoop_done rfl]
    · have hcompare : commBody (CommVar.getCompare n, (m, comm)) =
          Turn.next (CommVar.walkStart n, (m, comm)) := if_neg hall
      rw [commLoop_next hcompare, if_neg hall, commLoop_next rfl, commLoop_walking]
      generalize walk (nextOf m) n comm.freeConnections comm.freeConnections = w
      obtain ⟨plast, p⟩ := w
      rw [commLoop_next rfl, commLoop_next rfl, commLoop_next rfl]
      cases plast with
      | none => exact commLoop_done rfl
      | some plast => exact commLoop_done rfl

theorem executes_commCall {o : CommOp} {s s' : Comm} {r : CommResult}
    (h : commCode.Executes o s s' r) : commCall s o = (s', r) := by
  have hloop : commLoop (commCode.start o, s) = (s', r) :=
    h.loop_eq commBody_lowers (fun s => (s.2, (none, 0))) trivial
  rw [← hloop]
  cases o with
  | put c => exact (commLoop_put s.1 s.2 c).symm
  | get n => exact (commLoop_get s.1 s.2 n).symm

/-!
## Every interleaving
-/

def replay {thread : Type} (s : Comm) : List (thread × CommOp × CommResult) -> Option Comm
  | [] => some s
  | (_, o, r) :: log => if (commCall s o).2 = r then replay (commCall s o).1 log else none

theorem replay_append {thread : Type} (s : Comm) (log log' : List (thread × CommOp × CommResult)) :
    replay s (log ++ log') = (replay s log).bind fun t => replay t log' := by
  induction log generalizing s with
  | nil => rfl
  | cons e log ih =>
      obtain ⟨i, o, r⟩ := e
      simp only [List.cons_append, replay]
      split
      · exact ih _
      · rfl

theorem replay_serial {thread : Type} {s t : Comm} {log : List (thread × CommOp × CommResult)}
    (h : Serial commCode s log t) : replay s log = some t := by
  induction h with
  | nil => rfl
  | snoc _ hexecutes ih =>
      have hcall := executes_commCall hexecutes
      rw [replay_append, ih, Option.bind_some, replay, hcall, if_pos rfl]
      rfl

/-- In every interleaving of calls on the common pool, at most one thread has the lock and
freeing it never waits.  The calls that ended returned what whole calls in their order
return, and while no thread is in its section the pool is what these leave. -/
theorem comm_calls_serial {thread : Type} [DecidableEq thread] {init : Comm}
    {s : Locked thread Comm CommOp CommVar CommResult}
    (hrun : Reaches (lockStep commCode) Always (lockInit thread init) s) :
    (forall i j, (s.pcs i).Holds -> (s.pcs j).Holds -> i = j) ∧ s.waits = 0 ∧
      exists t, replay init s.log = some t ∧
        ((forall i, (s.pcs i).section = none) -> s.shared = t) := by
  obtain ⟨hexclusive, m, hview, t, hserial, hshared⟩ := lock_run hrun
  refine ⟨hexclusive.one, hexclusive.waits, t, ?_, ?_⟩
  · rw [← hview.log]
    exact replay_serial hserial
  · intro hnone
    have hinside : m.inside = none := by
      cases hinside : m.inside with
      | none => rfl
      | some x =>
          obtain ⟨i, o, v⟩ := x
          have hbad := (hview.inside i o v).mp hinside
          rw [hnone i] at hbad
          cases hbad
    rw [hinside] at hshared
    rw [← hview.shared]
    exact hshared

/-- Two threads put a connection each, the second one while the first one has the lock. -/
theorem comm_calls_serial_two :
    let zero : Slots := fun _ => initialSlot 0 1 0
    let s := after (lockStep commCode) (lockInit Bool (zero, zeroPool))
      [(true, Move.on (CommOp.put (0, 0))), (false, Move.on (CommOp.put (0, 1))),
        (true, Move.go), (false, Move.go), (true, Move.go), (false, Move.go),
        (true, Move.go), (true, Move.go), (true, Move.go), (true, Move.go),
        (false, Move.go), (false, Move.go), (false, Move.go), (false, Move.go)]
    s.shared.2.freeConnectionN = 2 ∧ s.log.map Prod.fst = [true, false] ∧ s.waits = 0 := by
  intro zero s
  have hrun : Reaches (lockStep commCode) Always (lockInit Bool (zero, zeroPool)) s :=
    (Reaches.refl _).labels (fun _ _ _ => trivial) (by decide +kernel)
  exact ⟨by decide +kernel, by decide +kernel, (comm_calls_serial hrun).2.1⟩

end ConnPool
end NgxEpoll
