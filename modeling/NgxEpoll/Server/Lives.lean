import NgxEpoll.Server.Step

/-!
# Server runs are runs of the node machine

Every step of the server is a run of the machine of `NgxEpoll.Request.Life`,
under the policy that its side conditions grant.
-/

namespace NgxEpoll
namespace Server

open Foundation
open NgxEpoll.Core
open Common
open Request
open Relation

def Pc.held : Pc -> List Nat
  | Pc.writing q => q
  | _ => []

def State.life (s : State) : Life :=
  s.w.life (bagOf s.batch) (bagOf s.bque + (s.pc.held : Multiset Nat)) s.malloced

structure Shape (s : State) : Prop where
  tq : 0 < s.w.tq.length
  batch : s.batch.length = s.w.tq.length
  bque : 0 < s.bque.length

def Meets (p : Policy) (s : State) : Label -> Prop
  | Label.decodeIter => AttemptMeets p s.w
  | Label.handle k block (some t) => forall n rest,
      s.batch.getD k [] = n :: rest -> p.returns (block.toList ++ s.malloced) t
  | Label.handle k _ none => forall n rest,
      s.batch.getD k [] = n :: rest -> p.loses
  | _ => True

/-!
## The queues keep their number
-/

theorem tq_nnConnFreeTask (w : World) (n : Nat) :
    (nnConnFreeTask w n).tq = w.tq :=
  congrArg Bytes.tq (bytes_nnConnFreeTask w n)

theorem tq_nnConnFinalize (w : World) : (nnConnFinalize w).tq = w.tq :=
  congrArg Bytes.tq (bytes_nnConnFinalize w)

theorem tq_of_move {w w' : World} (h : Move w w') : w'.tq = w.tq := by
  cases h with
  | use => exact useMc_tq w
  | event c env timer handler => rfl
  | shrink => rfl
  | encode n rest _ _ => exact tq_nnConnFreeTask _ _
  | full n rest _ _ => rfl
  | hang n rest _ _ _ _ => rfl
  | send k _ => rfl
  | reset _ => rfl
  | finalize => exact tq_nnConnFinalize w

theorem tq_of_moves {w w' : World} (h : Moves w w') : w'.tq = w.tq :=
  Moves.invariant (fun v => v.tq = w.tq)
    (fun _ _ hv hmove => (tq_of_move hmove).trans hv) h rfl

theorem tq_length_decodeStep {u : World} {turn : Turn World (Int × World)}
    (h : DecodeStep u turn) : (afterTurn turn).tq.length = u.tq.length := by
  cases h with
  | busy _ => rfl
  | underflow _ _ => rfl
  | ok n rest _ _ _ => simp [afterTurn, dispatchTask, attempt, decodeInto, takeFree]
  | error n rest _ _ _ =>
      simp only [afterTurn, resetIn, useMc_tq, tq_nnConnFreeTask]
      rfl
  | again n rest _ _ _ =>
      simp only [afterTurn, shrinkIn, useMc_tq, tq_nnConnFreeTask]
      rfl
  | lost n rest _ _ _ _ _ => rfl

theorem tq_nnConnRecvTurn (w : World) :
    (afterTurn (nnConnRecvTurn w)).tq = w.tq := by
  rw [← useMc_tq w]
  rcases nnConnRecvTurn_cases w with h | ⟨_, h⟩ | ⟨_, h⟩ <;> rw [h] <;> rfl

/-!
## The handlers
-/

section Handlers

variable {p : Policy} {busy finished : Multiset Nat}
  {malloced : List (BitVec 64)}

theorem processWrite_moves (w : World) : Moves w (processWrite w) := by
  have huse : Moves w w.useMc := Moves.single (Move.use w)
  simp only [processWrite]
  generalize w.useMc = u at huse ⊢
  split
  · exact ReflTransGen.trans huse (nnConnWriteHandler_moves u)
  · exact huse

theorem life_nnConnOuttask (w : World) (n : Nat) :
    Life.Runs p (w.life busy (n ::ₘ finished) malloced)
      ((nnConnOuttask w n).2.life busy finished malloced) := by
  rw [← life_useMc w]
  simp only [nnConnOuttask]
  generalize w.useMc = u
  let l := u.life busy (n ::ₘ finished) malloced
  split
  · have hheld : u.life busy finished malloced =
        { l with places := { l.places with finished := finished } } := rfl
    rw [life_nnConnFreeTask, hheld, Life.give_of_places]
    exact ReflTransGen.single (Life.Step.discard l n finished rfl)
  · have hqueue : (pushOut u n).life busy finished malloced =
        { l with places := { l.places with
          finished := finished, out := n ::ₘ l.places.out } } := by
      simp only [World.life, pushOut, l, coe_concat]
    refine ReflTransGen.trans (ReflTransGen.single ?_)
      (life_of_moves (nnConnOutput_moves (pushOut u n)))
    rw [hqueue]
    exact Life.Step.enqueue l n finished rfl

theorem tq_nnConnOuttask (w : World) (n : Nat) :
    (nnConnOuttask w n).2.tq = w.tq := by
  rw [← useMc_tq w]
  simp only [nnConnOuttask]
  generalize w.useMc = u
  split
  · exact tq_nnConnFreeTask u n
  · exact (tq_of_moves (nnConnOutput_moves (pushOut u n))).trans rfl

end Handlers

/-!
## The steps
-/

section Steps

variable {p : Policy} {s s' : State}

/-- Outside of `write_back_pack_queue` the I/O thread holds no node, and a
handler that only moves is a run. -/
theorem life_of_handler {w : World} {pc : Pc} (hpc : s.pc.held = [])
    (hpc' : pc.held = [])
    (h : Life.Runs p (s.w.life (bagOf s.batch) (bagOf s.bque) s.malloced)
      (w.life (bagOf s.batch) (bagOf s.bque) s.malloced)) :
    Life.Runs p s.life { s with w := w, pc := pc }.life := by
  simp only [State.life, hpc, hpc', Multiset.coe_nil, Multiset.add_zero]
  exact h

theorem startRead_moves (s : State) :
    exists w pc, startRead s = { s with w := w, pc := pc } ∧ pc.held = [] ∧
      Moves s.w w := by
  have huse : Moves s.w s.w.useMc := Moves.single (Move.use s.w)
  simp only [startRead]
  split
  · exact ⟨_, Pc.idle, rfl, rfl, huse⟩
  · exact ⟨_, Pc.recving, rfl, rfl, huse⟩

theorem recvIter_moves (hpc : s.pc = Pc.recving) :
    exists w pc, recvIter s = { s with w := w, pc := pc } ∧ pc.held = [] ∧
      Moves (afterTurn (nnConnRecvTurn s.w)) w := by
  simp only [recvIter]
  cases nnConnRecvTurn s.w with
  | next w => exact ⟨w, s.pc, rfl, by rw [hpc]; rfl, ReflTransGen.refl⟩
  | done r =>
      have huse : Moves r.2 r.2.useMc := Moves.single (Move.use r.2)
      simp only
      split
      · exact ⟨_, Pc.decoding, rfl, rfl, huse⟩
      · exact ⟨_, Pc.idle, rfl, rfl, ReflTransGen.tail huse (Move.finalize _)⟩

theorem decodeIter_moves (hpc : s.pc = Pc.decoding) :
    exists w pc, decodeIter s = { s with w := w, pc := pc } ∧ pc.held = [] ∧
      Moves (afterTurn (nnConnDecodeTurn s.w)) w := by
  simp only [decodeIter]
  cases nnConnDecodeTurn s.w with
  | next w => exact ⟨w, s.pc, rfl, by rw [hpc]; rfl, ReflTransGen.refl⟩
  | done r =>
      simp only
      split
      · exact ⟨_, Pc.idle, rfl, rfl, Moves.single (Move.finalize r.2)⟩
      · exact ⟨_, Pc.idle, rfl, rfl, ReflTransGen.refl⟩

theorem expireSlow_moves (w : World) : Moves w (expireSlow w) :=
  Moves.single (Move.event w _ _ _ _)

theorem expireWrite_moves (w : World) : Moves w (expireWrite w) :=
  Moves.single (Move.event w _ _ _ _)

theorem slowTimer_moves (hpc : s.pc.held = []) :
    exists w pc, slowTimer s = { s with w := w, pc := pc } ∧ pc.held = [] ∧
      Moves s.w w := by
  have hfront : Moves s.w (nnConnTimerHandlerFront (expireSlow s.w)).2 :=
    ReflTransGen.trans (expireSlow_moves s.w) (nnConnTimerHandlerFront_moves _)
  simp only [slowTimer]
  split
  · obtain ⟨w, pc, heq, hheld, hmoves⟩ := startRead_moves
      { s with w := (nnConnTimerHandlerFront (expireSlow s.w)).2 }
    exact ⟨w, pc, heq, hheld, ReflTransGen.trans hfront hmoves⟩
  · exact ⟨_, s.pc, rfl, hpc, hfront⟩

theorem State.Free.held {s : State} (h : s.Free) : s.pc.held = [] := by
  rw [h.2]
  rfl

/-- The task thread's step: blocks are obtained, and the node is finished or
lost. -/
theorem handle_life (hshape : Shape s) {k n : Nat} {rest : List Nat}
    (hbatch : s.batch.getD k [] = n :: rest)
    (block : Option (BitVec 64)) (result : Option TaskT)
    (hmeets : Meets p s (Label.handle k block result)) :
    Life.Runs p s.life
      (finishTask
        { s with
          w := s.w.useMc
          batch := s.batch.set k rest
          malloced := block.toList ++ s.malloced } k n result).life := by
  let l : Life := { s.life with malloced := block.toList ++ s.malloced }
  have hmalloc : Life.Runs p s.life l := by
    cases block with
    | none => exact ReflTransGen.refl
    | some b => exact ReflTransGen.single (Life.Step.malloc s.life b)
  have hbusy : l.places.busy =
      n ::ₘ (bagOf (s.batch.set k rest) + bagOf s.w.tq) := by
    rw [← Multiset.cons_add, ← bagOf_pop hbatch]
    rfl
  refine ReflTransGen.tail hmalloc ?_
  cases result with
  | none =>
      have hlose := Life.Step.lose l n _ hbusy (hmeets n rest hbatch)
      convert hlose using 1
      simp only [finishTask, State.life, World.life, loseNode, l,
        useMc_mc, useMc_tq, ← Multiset.cons_coe, useMc_lost, useMc_emptyPop,
        useMc_freed]
  | some t =>
      have hpush := bagOf_push s.bque (s.threadId k % s.bque.length) n
        (Nat.mod_lt _ hshape.bque)
      have hfinish := Life.Step.finish l n _ t hbusy (hmeets n rest hbatch)
      convert hfinish using 1
      simp only [finishTask, State.life, World.life, l, useMc_mc, useMc_tq,
        hpush, Multiset.cons_add, useMc_lost, useMc_emptyPop, useMc_freed]

theorem life_of_stepped {a : Label} (hshape : Shape s) (hmeets : Meets p s a)
    (h : Stepped s a s') : Life.Runs p s.life s'.life := by
  cases h with
  | kernel env => exact ReflTransGen.refl
  | poll rd wr _ => exact ReflTransGen.refl
  | readEvent hfree _ =>
      obtain ⟨w, pc, heq, hheld, hmoves⟩ := startRead_moves s
      rw [heq]
      exact life_of_handler hfree.held hheld (life_of_moves hmoves)
  | recvIter hpc =>
      obtain ⟨w, pc, heq, hheld, hmoves⟩ := recvIter_moves hpc
      rw [heq]
      refine life_of_handler (by rw [hpc]; rfl) hheld ?_
      rw [← life_nnConnRecvTurn s.w]
      exact life_of_moves hmoves
  | decodeIter hpc =>
      obtain ⟨w, pc, heq, hheld, hmoves⟩ := decodeIter_moves hpc
      rw [heq]
      exact life_of_handler (by rw [hpc]; rfl) hheld
        (ReflTransGen.trans (life_nnConnDecodeTurn hshape.tq hmeets)
          (life_of_moves hmoves))
  | writeEvent hfree _ =>
      exact life_of_handler hfree.held hfree.held
        (life_of_moves (processWrite_moves s.w))
  | slowTimer hfree _ =>
      obtain ⟨w, pc, heq, hheld, hmoves⟩ := slowTimer_moves hfree.held
      rw [heq]
      exact life_of_handler hfree.held hheld (life_of_moves hmoves)
  | writeTimeout hfree _ =>
      exact life_of_handler hfree.held hfree.held
        (life_of_moves (ReflTransGen.trans (expireWrite_moves s.w)
          (processWrite_moves _)))
  | popBack i hfree =>
      have hsame : (popBack s i).life = s.life := by
        simp only [State.life, popBack, hfree.2, Pc.held, Multiset.coe_nil,
          Multiset.add_zero, bagOf_drain]
      rw [hsame]
  | outDone hpc =>
      have hsame : { s with pc := Pc.idle }.life = s.life := by
        simp only [State.life, hpc, Pc.held]
      rw [hsame]
  | outIter n q hpc _ =>
      simp only [State.life, hpc, Pc.held, ← Multiset.cons_coe,
        Multiset.add_cons]
      exact life_nnConnOuttask s.w n
  | popAll k hempty _ hk =>
      have hsame : (popAll s k).life = s.life := by
        have hset := bagOf_set s.batch k (s.w.tq.getD k []) hk
        rw [hempty, Multiset.coe_nil, Multiset.add_zero] at hset
        simp only [State.life, popAll, World.life, hset, Multiset.add_assoc]
        rw [Multiset.add_comm (_ : Multiset Nat) (bagOf (s.w.tq.set k [])),
          bagOf_drain]
      rw [hsame]
  | handle k block result n rest hbatch _ =>
      exact handle_life hshape hbatch block result hmeets
  | wake k _ =>
      have hsame : (wakeUp s k).life = s.life := by
        simp only [State.life, wakeUp, life_useMc]
      rw [hsame]

theorem shape_of_stepped {a : Label} (hshape : Shape s) (h : Stepped s a s') :
    Shape s' := by
  have hworld : forall (w : World) (pc : Pc), w.tq.length = s.w.tq.length ->
      Shape { s with w := w, pc := pc } := by
    intro w pc hw
    exact ⟨by rw [hw]; exact hshape.tq, by rw [hw]; exact hshape.batch,
      hshape.bque⟩
  cases h with
  | kernel env => exact hworld _ s.pc rfl
  | poll rd wr _ => exact hworld _ s.pc rfl
  | readEvent _ _ =>
      obtain ⟨w, pc, heq, _, hmoves⟩ := startRead_moves s
      rw [heq]
      exact hworld w pc (by rw [tq_of_moves hmoves])
  | recvIter hpc =>
      obtain ⟨w, pc, heq, _, hmoves⟩ := recvIter_moves hpc
      rw [heq]
      exact hworld w pc (by rw [tq_of_moves hmoves, tq_nnConnRecvTurn])
  | decodeIter hpc =>
      obtain ⟨w, pc, heq, _, hmoves⟩ := decodeIter_moves hpc
      rw [heq]
      refine hworld w pc ?_
      rw [tq_of_moves hmoves, tq_length_decodeStep (nnConnDecodeTurn_step s.w),
        useMc_tq]
  | writeEvent _ _ =>
      exact hworld _ s.pc (by rw [tq_of_moves (processWrite_moves s.w)])
  | slowTimer hfree _ =>
      obtain ⟨w, pc, heq, _, hmoves⟩ := slowTimer_moves hfree.held
      rw [heq]
      exact hworld w pc (by rw [tq_of_moves hmoves])
  | writeTimeout _ _ =>
      exact hworld _ s.pc (by
        rw [tq_of_moves (ReflTransGen.trans (expireWrite_moves s.w)
          (processWrite_moves _))])
  | popBack i _ =>
      exact ⟨hshape.tq, hshape.batch, by simpa [popBack] using hshape.bque⟩
  | outDone _ => exact hworld s.w _ rfl
  | outIter n q _ _ => exact hworld _ _ (by rw [tq_nnConnOuttask])
  | popAll k _ _ _ =>
      exact ⟨by simpa [popAll] using hshape.tq,
        by simpa [popAll] using hshape.batch, hshape.bque⟩
  | handle k block result n rest _ _ =>
      cases result with
      | none =>
          exact ⟨by simpa [finishTask, loseNode] using hshape.tq,
            by simpa [finishTask, loseNode] using hshape.batch, hshape.bque⟩
      | some t =>
          exact ⟨by simpa [finishTask] using hshape.tq,
            by simpa [finishTask] using hshape.batch,
            by simpa [finishTask] using hshape.bque⟩
  | wake k _ =>
      exact ⟨by simpa [wakeUp] using hshape.tq,
        by simpa [wakeUp] using hshape.batch, hshape.bque⟩

theorem life_of_run {ok : State -> Label -> Prop}
    (hok : forall t a, ok t a -> Meets p t a) (hshape : Shape s)
    (hrun : Reaches step ok s s') :
    Shape s' ∧ Life.Runs p s.life s'.life := by
  apply hrun.invariant (fun t => Shape t ∧ Life.Runs p s.life t.life)
  · rintro t a u ⟨ht, hlife⟩ hokt hstep
    have hstepped := stepped_of_step hstep
    exact ⟨shape_of_stepped ht hstepped,
      ReflTransGen.trans hlife (life_of_stepped ht (hok t a hokt) hstepped)⟩
  · exact ⟨hshape, ReflTransGen.refl⟩

end Steps

/-!
## The first state
-/

theorem bagOf_replicate (n : Nat) :
    bagOf (List.replicate n ([] : List Nat)) = 0 := by
  simp [bagOf]

theorem Started.shape {s : State} (h : Started s) : Shape s := by
  cases h with
  | up conf allocs mem fd env taskNum threadId w hnum hvalid hinit =>
      obtain ⟨inBuf, out, buff, ev, env', _, _, _, rfl⟩ := nnConnInit_up hinit
      exact ⟨by simpa [start, worldNew] using hnum,
        by simp [start, worldNew], by simpa [start] using hnum⟩

theorem Started.balanced {s : State} (h : Started s) :
    s.life.places.Balanced := by
  cases h with
  | up conf allocs mem fd env taskNum threadId w hnum hvalid hinit =>
      have hbal := nnConnInit_balanced (m := []) hinit (bagOf_replicate taskNum)
      simpa [State.life, start, Pc.held, bagOf_replicate] using hbal

end Server
end NgxEpoll
