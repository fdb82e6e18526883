import NgxEpoll.Request.Moves
import NgxEpoll.Foundation.Queues

/-!
# The life of a task node

An abstract machine for the nodes of one connection.  A node is free, busy
(being decoded, queued for a task thread or being handled), finished (handled
and on its way back), waiting for output, or lost.  The handlers of
`nn_request.cpp` are runs of this machine; what holds of its runs holds of the
program.
-/

namespace NgxEpoll
namespace Request

open Foundation
open NgxEpoll.Core
open Common
open Relation

structure Places where
  free : Multiset Nat
  busy : Multiset Nat
  finished : Multiset Nat
  out : Multiset Nat
  lost : Multiset Nat
  count : Int
  maxTask : Int
  emptyPop : Bool

/-- Where the nodes are, what their tasks are, which blocks handlers have
obtained from `malloc` and which pointers have been freed. -/
structure Life where
  places : Places
  task : Nat -> TaskT
  malloced : List (BitVec 64)
  freed : List (BitVec 64)

/-- What a run may do: lose nodes, give back a node whose task was overwritten
by a rejected frame, and finish a node with a task, given the blocks that
handlers have obtained from `malloc`. -/
structure Policy where
  loses : Prop
  rejects : TaskT -> Prop
  returns : List (BitVec 64) -> TaskT -> Prop

def Life.release (l : Life) (n : Nat) : Life :=
  if FreesData (l.task n) then
    { l with
      task := Function.update l.task n { l.task n with data := 0 }
      freed := l.freed ++ [(l.task n).data] }
  else l

def Places.give (q : Places) (n : Nat) : Places :=
  { q with free := n ::ₘ q.free, count := q.count - 1 }

def Life.give (l : Life) (q : Places) (n : Nat) : Life :=
  { l.release n with places := q.give n }

inductive Life.Step (p : Policy) : Life -> Life -> Prop where
  | take (l : Life) (n : Nat) (rest : Multiset Nat) :
      l.places.count < l.places.maxTask -> l.places.free = n ::ₘ rest ->
      Step p l { l with places := { l.places with
        free := rest, busy := n ::ₘ l.places.busy
        count := l.places.count + 1 } }
  | underflow (l : Life) :
      l.places.count < l.places.maxTask -> l.places.free = 0 ->
      Step p l { l with places := { l.places with emptyPop := true } }
  | unread (l : Life) (n : Nat) : n ∈ l.places.free -> Step p l (l.release n)
  | decode (l : Life) (n : Nat) (t : TaskT) :
      n ∈ l.places.busy ->
      Step p l { l with task := Function.update l.task n t }
  | reject (l : Life) (n : Nat) (rest : Multiset Nat) :
      l.places.busy = n ::ₘ rest -> p.rejects (l.task n) ->
      Step p l (l.give { l.places with busy := rest } n)
  | lose (l : Life) (n : Nat) (rest : Multiset Nat) :
      l.places.busy = n ::ₘ rest -> p.loses ->
      Step p l { l with places := { l.places with
        busy := rest, lost := n ::ₘ l.places.lost } }
  | malloc (l : Life) (block : BitVec 64) :
      Step p l { l with malloced := block :: l.malloced }
  | finish (l : Life) (n : Nat) (rest : Multiset Nat) (t : TaskT) :
      l.places.busy = n ::ₘ rest -> p.returns l.malloced t ->
      Step p l { l with
        task := Function.update l.task n t
        places := { l.places with
          busy := rest, finished := n ::ₘ l.places.finished } }
  | enqueue (l : Life) (n : Nat) (rest : Multiset Nat) :
      l.places.finished = n ::ₘ rest ->
      Step p l { l with places := { l.places with
        finished := rest, out := n ::ₘ l.places.out } }
  | discard (l : Life) (n : Nat) (rest : Multiset Nat) :
      l.places.finished = n ::ₘ rest ->
      Step p l (l.give { l.places with finished := rest } n)
  | retire (l : Life) (n : Nat) (rest : Multiset Nat) :
      l.places.out = n ::ₘ rest ->
      Step p l (l.give { l.places with out := rest } n)

abbrev Life.Runs (p : Policy) : Life -> Life -> Prop :=
  ReflTransGen (Life.Step p)

theorem Life.Runs.invariant {p : Policy} (Inv : Life -> Prop)
    (hstep : forall l l', Inv l -> Life.Step p l l' -> Inv l') {l l' : Life}
    (h : Life.Runs p l l') (hinit : Inv l) : Inv l' := by
  induction h with
  | refl => exact hinit
  | tail _ hlast ih => exact hstep _ _ ih hlast

/-!
## Every node is in one place
-/

/-- The books balance: each node is in exactly one place, `count` is the number
of nodes that are not free, and no pop met an empty ring. -/
structure Places.Balanced (q : Places) : Prop where
  places : q.free + q.busy + q.finished + q.out + q.lost =
    Multiset.range q.maxTask.toNat
  count_eq : q.count + Multiset.card q.free = q.maxTask
  no_emptyPop : q.emptyPop = false
  maxTask_nonneg : 0 ≤ q.maxTask

@[simp] theorem Life.release_places (l : Life) (n : Nat) :
    (l.release n).places = l.places := by
  unfold Life.release
  split <;> rfl

theorem Life.release_of_places (l : Life) (q : Places) (n : Nat) :
    Life.release { l with places := q } n = { l.release n with places := q } := by
  unfold Life.release
  simp only
  split <;> rfl

theorem Life.give_of_places (l : Life) (q q' : Places) (n : Nat) :
    Life.give { l with places := q' } q n = l.give q n := by
  unfold Life.give
  rw [Life.release_of_places]

theorem Places.give_balanced {q : Places} {n : Nat}
    (hplaces : n ::ₘ (q.free + q.busy + q.finished + q.out + q.lost) =
      Multiset.range q.maxTask.toNat)
    (hcount : q.count + Multiset.card q.free = q.maxTask)
    (hpop : q.emptyPop = false) (hmax : 0 ≤ q.maxTask) :
    (q.give n).Balanced := by
  refine ⟨?_, ?_, hpop, hmax⟩
  · simp only [Places.give]
    rw [← hplaces]
    simp only [Multiset.cons_add]
  · simp only [Places.give, Multiset.card_cons]
    push_cast
    omega

theorem Life.step_balanced {p : Policy} {l l' : Life}
    (hl : l.places.Balanced) (h : Life.Step p l l') : l'.places.Balanced := by
  obtain ⟨hplaces, hcount, hpop, hmax⟩ := hl
  cases h with
  | take n rest hlt hfree =>
      rw [hfree] at hplaces hcount
      refine ⟨?_, ?_, hpop, hmax⟩
      · simp only
        rw [← hplaces]
        simp only [Multiset.cons_add, Multiset.add_cons]
      · rw [Multiset.card_cons] at hcount
        push_cast at hcount
        simp only
        omega
  | underflow hlt hfree =>
      rw [hfree, Multiset.card_zero] at hcount
      simp at hcount
      omega
  | unread n _ =>
      rw [Life.release_places]
      exact ⟨hplaces, hcount, hpop, hmax⟩
  | decode n t _ => exact ⟨hplaces, hcount, hpop, hmax⟩
  | reject n rest hbusy _ =>
      refine Places.give_balanced ?_ hcount hpop hmax
      simp only
      rw [← hplaces, hbusy]
      simp only [Multiset.cons_add, Multiset.add_cons]
  | lose n rest hbusy _ =>
      refine ⟨?_, hcount, hpop, hmax⟩
      simp only
      rw [← hplaces, hbusy]
      simp only [Multiset.cons_add, Multiset.add_cons]
  | malloc block => exact ⟨hplaces, hcount, hpop, hmax⟩
  | finish n rest t hbusy _ =>
      refine ⟨?_, hcount, hpop, hmax⟩
      simp only
      rw [← hplaces, hbusy]
      simp only [Multiset.cons_add, Multiset.add_cons]
  | enqueue n rest hfin =>
      refine ⟨?_, hcount, hpop, hmax⟩
      simp only
      rw [← hplaces, hfin]
      simp only [Multiset.cons_add, Multiset.add_cons]
  | discard n rest hfin =>
      refine Places.give_balanced ?_ hcount hpop hmax
      simp only
      rw [← hplaces, hfin]
      simp only [Multiset.cons_add, Multiset.add_cons]
  | retire n rest hout =>
      refine Places.give_balanced ?_ hcount hpop hmax
      simp only
      rw [← hplaces, hout]
      simp only [Multiset.cons_add, Multiset.add_cons]

theorem Places.Balanced.nodup {q : Places} (h : q.Balanced) :
    (q.free + q.busy + q.finished + q.out + q.lost).Nodup := by
  rw [h.places]
  exact Multiset.nodup_range _

theorem Places.Balanced.count_le {q : Places} (h : q.Balanced) (n : Nat) :
    q.free.count n + q.busy.count n + q.finished.count n + q.out.count n +
      q.lost.count n ≤ 1 := by
  have hle := Multiset.nodup_iff_count_le_one.mp h.nodup n
  simpa only [Multiset.count_add] using hle

theorem Places.Balanced.busy_apart {q : Places} (h : q.Balanced) {n : Nat}
    (hn : n ∈ q.busy) : n ∉ q.free ∧ n ∉ q.finished ∧ n ∉ q.out := by
  have hle := h.count_le n
  have hbusy := Multiset.one_le_count_iff_mem.mpr hn
  refine ⟨fun hm => ?_, fun hm => ?_, fun hm => ?_⟩ <;>
    have hother := Multiset.one_le_count_iff_mem.mpr hm <;> omega

theorem Places.Balanced.count_pos {q : Places} (h : q.Balanced) {n : Nat}
    (hn : n ∈ q.busy ∨ n ∈ q.finished) : 0 < q.count := by
  have hcard := congrArg Multiset.card h.places
  simp only [Multiset.card_add, Multiset.card_range] at hcard
  have hsome : 0 < Multiset.card q.busy ∨ 0 < Multiset.card q.finished :=
    hn.imp (fun hb => Multiset.card_pos_iff_exists_mem.mpr ⟨n, hb⟩)
      (fun hf => Multiset.card_pos_iff_exists_mem.mpr ⟨n, hf⟩)
  have hcount := h.count_eq
  have hmax := h.maxTask_nonneg
  omega

/-!
## The connection as a state of the machine
-/

/-- The nodes of a connection, where `busy` and `finished` are those held
outside of it. -/
def World.life (w : World) (busy finished : Multiset Nat)
    (malloced : List (BitVec 64)) : Life where
  places :=
    { free := w.mc.freeTask
      busy := busy + bagOf w.tq
      finished := finished
      out := w.mc.outTask
      lost := w.trace.lost
      count := w.mc.count
      maxTask := w.mc.maxTask
      emptyPop := w.trace.emptyPop }
  task := w.mc.nodes
  malloced := malloced
  freed := w.trace.freed

section Refinement

variable {busy finished : Multiset Nat} {malloced : List (BitVec 64)}

@[simp] theorem life_useMc (w : World) :
    w.useMc.life busy finished malloced = w.life busy finished malloced := by
  unfold World.useMc
  split <;> rfl

@[simp] theorem life_nnConnFinalizeTail (w : World) :
    (nnConnFinalizeTail w).life busy finished malloced =
      w.life busy finished malloced := by
  unfold nnConnFinalizeTail
  simp only
  split
  · exact life_useMc w
  · exact life_useMc w

@[simp] theorem life_nnConnClose (w : World) :
    (nnConnClose w).life busy finished malloced =
      w.life busy finished malloced := by
  unfold nnConnClose
  split <;> rfl

theorem life_releaseData (w : World) (n : Nat) :
    (releaseData w n).life busy finished malloced =
      (w.life busy finished malloced).release n := by
  simp only [releaseData, Life.release]
  change _ = if FreesData (w.mc.nodes n) then _ else _
  split <;> rfl

theorem life_nnConnFreeTask (w : World) (n : Nat) :
    (nnConnFreeTask w n).life busy finished malloced =
      (w.life busy finished malloced).give
        (w.life busy finished malloced).places n := by
  let l := w.life busy finished malloced
  let v : World := { w.useMc with
    mc := { w.useMc.mc with count := w.useMc.mc.count - 1 } }
  have hv : v.life busy finished malloced =
      { l with places := { l.places with count := l.places.count - 1 } } := by
    have huse : w.useMc.life busy finished malloced = l := life_useMc w
    rw [← huse]
    rfl
  let x := releaseData v n
  let u : World :=
    { x with mc := { x.mc with freeTask := x.mc.freeTask ++ [n] } }
  have hu : u.life busy finished malloced = l.give l.places n := by
    have hx : x.life busy finished malloced =
        { l.release n with
          places := { l.places with count := l.places.count - 1 } } := by
      rw [life_releaseData, hv, Life.release_of_places]
    have hfree : (x.life busy finished malloced).places.free = l.places.free := by
      rw [hx]
    have hmove : u.life busy finished malloced =
        { x.life busy finished malloced with
          places := { (x.life busy finished malloced).places with
            free := ((x.mc.freeTask ++ [n] : List Nat) : Multiset Nat) } } := rfl
    have hcoe : ((x.mc.freeTask ++ [n] : List Nat) : Multiset Nat) =
        n ::ₘ l.places.free := by
      rw [← hfree, coe_concat]
      rfl
    rw [hmove, hcoe, hx]
    rfl
  change (if _ then nnConnFinalizeTail u else u).life _ _ _ = _
  split
  · rw [life_nnConnFinalizeTail, hu]
  · exact hu

variable {p : Policy}

theorem life_retire {w : World} {n : Nat} {rest : List Nat}
    (hout : w.mc.outTask = n :: rest) :
    Life.Runs p (w.life busy finished malloced)
      ((nnConnFreeTask (popOut w rest) n).life busy finished malloced) := by
  have hpop : (popOut w rest).life busy finished malloced =
      { w.life busy finished malloced with
        places := { (w.life busy finished malloced).places with
          out := (rest : Multiset Nat) } } := rfl
  rw [life_nnConnFreeTask, hpop, Life.give_of_places]
  refine ReflTransGen.single (Life.Step.retire _ n (rest : Multiset Nat) ?_)
  rw [Multiset.cons_coe, ← hout]
  rfl

theorem life_nnConnFreeQueue (w : World) :
    Life.Runs p (w.life busy finished malloced)
      ((nnConnFreeQueue w).life busy finished malloced) := by
  let l := w.life busy finished malloced
  have hturn : forall v v', Life.Runs p l (v.life busy finished malloced) ->
      nnConnFreeQueueTurn v = Turn.next v' ->
        Life.Runs p l (v'.life busy finished malloced) := by
    intro v v' hv h
    simp only [nnConnFreeQueueTurn] at h
    rw [← life_useMc] at hv
    generalize v.useMc = u at hv h
    cases hout : u.mc.outTask with
    | nil =>
        rw [hout] at h
        cases h
    | cons n rest =>
        rw [hout] at h
        cases h
        exact ReflTransGen.trans hv (life_retire hout)
  have hdone : forall v r, Life.Runs p l (v.life busy finished malloced) ->
      nnConnFreeQueueTurn v = Turn.done r ->
        Life.Runs p l (r.life busy finished malloced) := by
    intro v r hv h
    simp only [nnConnFreeQueueTurn] at h
    split at h
    · cases h
      rw [life_useMc]
      exact hv
    · cases h
  exact loop_keeps _
    (fun v : World => Life.Runs p l (v.life busy finished malloced))
    (fun v : World => Life.Runs p l (v.life busy finished malloced))
    hturn hdone (fun _ hv => hv) ReflTransGen.refl

theorem life_nnConnFinalize (w : World) :
    Life.Runs p (w.life busy finished malloced)
      ((nnConnFinalize w).life busy finished malloced) := by
  rw [← life_useMc]
  simp only [nnConnFinalize]
  generalize w.useMc = u
  split
  · rw [life_nnConnFinalizeTail]
    change Life.Runs p _ ((nnConnFreeQueue (nnConnClose _)).life _ _ _)
    refine ReflTransGen.trans ?_ (life_nnConnFreeQueue _)
    rw [life_nnConnClose]
    split
    · exact ReflTransGen.refl
    · exact ReflTransGen.refl
  · rw [life_nnConnFinalizeTail]

theorem life_of_move {w w' : World} (h : Move w w') :
    Life.Runs p (w.life busy finished malloced)
      (w'.life busy finished malloced) := by
  cases h with
  | use => rw [life_useMc]
  | event c env timer handler => exact ReflTransGen.refl
  | shrink => exact ReflTransGen.refl
  | encode n rest hout _ =>
      exact life_retire (w := encodeNode w n) hout
  | full n rest _ _ => exact ReflTransGen.refl
  | hang n rest _ _ _ _ => exact ReflTransGen.refl
  | send k _ => exact ReflTransGen.refl
  | reset _ => exact ReflTransGen.refl
  | finalize => exact life_nnConnFinalize w

theorem life_of_moves {w w' : World} (h : Moves w w') :
    Life.Runs p (w.life busy finished malloced)
      (w'.life busy finished malloced) := by
  induction h with
  | refl => exact ReflTransGen.refl
  | tail _ hlast ih => exact ReflTransGen.trans ih (life_of_move hlast)

/-!
## Decoding
-/

/-- The side condition of a decode attempt: a code of -1 or -2 that came off
the wire gives the node back with the decoded task, any other negative code
forgets it. -/
structure AttemptMeets (p : Policy) (w : World) : Prop where
  rejects : 0 < bufferSize w.mc.inBuf ->
    loadInt w.mem w.mc.inBuf.pos = ngxError ∨
      loadInt w.mem w.mc.inBuf.pos = ngxAgain ->
    loadInt w.mem w.mc.inBuf.pos ≤ cInt (bufferSize w.mc.inBuf) ->
    forall t, p.rejects (decodedTask w.mem w.mc.inBuf.pos t)
  loses : 0 < bufferSize w.mc.inBuf ->
    loadInt w.mem w.mc.inBuf.pos < ngxAgain ->
    loadInt w.mem w.mc.inBuf.pos ≤ cInt (bufferSize w.mc.inBuf) -> p.loses

theorem taskDecode_cases (m : Mem) (b : Buffer) (t : TaskT) :
    taskDecode m b t = (ngxAgain, b, t) ∨
      (0 < bufferSize b ∧ loadInt m b.pos ≤ cInt (bufferSize b) ∧
        (taskDecode m b t).2.2 = decodedTask m b.pos t ∧
        ((taskDecode m b t).1 = ngxOk ∨
          loadInt m b.pos < 0 ∧ (taskDecode m b t).1 = loadInt m b.pos ∧
            (taskDecode m b t).2.1 = b)) := by
  by_cases hsize : bufferSize b ≤ 0
  · exact Or.inl (taskDecode_empty hsize)
  · rw [taskDecode_eq (by omega)]
    by_cases hshort : cInt (bufferSize b) < loadInt m b.pos
    · exact Or.inl (if_pos hshort)
    · right
      rw [if_neg hshort]
      refine ⟨by omega, by omega, ?_⟩
      by_cases hpos : loadInt m b.pos ≤ 0
      · rw [if_pos hpos]
        refine ⟨rfl, ?_⟩
        by_cases hzero : loadInt m b.pos = 0
        · exact Or.inl hzero
        · exact Or.inr ⟨by omega, rfl, rfl⟩
      · rw [if_neg hpos]
        exact ⟨rfl, Or.inl rfl⟩

theorem life_dispatchTask {w : World} {n : Nat} (htq : 0 < w.tq.length) :
    (dispatchTask w n).life busy finished malloced =
      w.life (n ::ₘ busy) finished malloced := by
  have hpush := bagOf_push w.tq (dispatchIndex (w.mc.nodes n) w.tq.length) n
    (Nat.mod_lt _ htq)
  simp only [World.life, dispatchTask, hpush, Multiset.add_cons,
    Multiset.cons_add]

theorem life_attempt {w : World} {n : Nat} {rest : List Nat}
    (hlt : w.mc.count < w.mc.maxTask) (hfree : w.mc.freeTask = n :: rest) :
    Life.Runs p (w.life busy finished malloced)
      ((attempt w n rest).life (n ::ₘ busy) finished malloced) := by
  let l := w.life busy finished malloced
  have htake : Life.Step p l
      ((takeFree w rest).life (n ::ₘ busy) finished malloced) := by
    have hstep := Life.Step.take (p := p) l n (rest : Multiset Nat) hlt
      (by rw [Multiset.cons_coe, ← hfree]; rfl)
    have heq : (takeFree w rest).life (n ::ₘ busy) finished malloced =
        { l with places := { l.places with
          free := (rest : Multiset Nat)
          busy := n ::ₘ l.places.busy
          count := l.places.count + 1 } } := by
      simp only [World.life, takeFree, l, Multiset.cons_add]
    rw [heq]
    exact hstep
  exact ReflTransGen.tail (ReflTransGen.single htake)
    (Life.Step.decode _ n _ (by simp [World.life]))

/-- A node that was taken and left alone is given back: of that, only what
`nn_conn_free_task` does to its data is left. -/
theorem life_unread {w : World} {n : Nat} {rest : List Nat}
    (hfree : w.mc.freeTask = n :: rest) :
    Life.Runs p (w.life busy finished malloced)
      ((nnConnFreeTask (takeFree w rest) n).life busy finished malloced) := by
  let l := w.life busy finished malloced
  have hpop : (takeFree w rest).life busy finished malloced =
      { l with places := { l.places with
        free := (rest : Multiset Nat), count := l.places.count + 1 } } := rfl
  have hfree' : l.places.free = n ::ₘ (rest : Multiset Nat) := by
    rw [Multiset.cons_coe, ← hfree]
    rfl
  have hback : (nnConnFreeTask (takeFree w rest) n).life busy finished
      malloced = l.release n := by
    rw [life_nnConnFreeTask, hpop, Life.give_of_places]
    unfold Life.give Places.give
    simp only [Int.add_sub_cancel, ← hfree']
    rw [← Life.release_places l n]
  rw [hback]
  exact ReflTransGen.single (Life.Step.unread l n (by simp [hfree']))

theorem life_shrinkIn (w : World) :
    (shrinkIn w).life busy finished malloced =
      w.life busy finished malloced := rfl

theorem life_resetIn (w : World) :
    (resetIn w).life busy finished malloced =
      w.life busy finished malloced := rfl

theorem life_nnConnBusy (w : World) :
    (nnConnBusy w).life busy finished malloced =
      w.life busy finished malloced := rfl

/-- A rejected frame: the node is given back, as it was or with the task that
was decoded into it. -/
theorem life_rejected {u : World} {n : Nat} {rest : List Nat}
    (hmeets : AttemptMeets p u) (hlt : u.mc.count < u.mc.maxTask)
    (hfree : u.mc.freeTask = n :: rest)
    (hcode : attemptCode u n = ngxError ∨ attemptCode u n = ngxAgain) :
    Life.Runs p (u.life busy finished malloced)
      ((nnConnFreeTask (attempt u n rest) n).life busy finished malloced) := by
  rcases taskDecode_cases u.mem u.mc.inBuf (u.mc.nodes n) with
    hunread | ⟨hsize, hle, htask, hok | ⟨hneg, hword, _⟩⟩
  · have hsame : (attempt u n rest).life busy finished malloced =
        (takeFree u rest).life busy finished malloced := by
      simp only [attempt, decodeInto, takeFree, World.life, hunread,
        Function.update_eq_self]
    rw [life_nnConnFreeTask, hsame, ← life_nnConnFreeTask]
    exact life_unread hfree
  · rw [attemptCode, hok] at hcode
    exact absurd hcode (by decide)
  · rw [attemptCode, hword] at hcode
    have hnode : (attempt u n rest).mc.nodes n =
        decodedTask u.mem u.mc.inBuf.pos (u.mc.nodes n) := by
      simp [attempt, decodeInto, takeFree, htask]
    let l := (attempt u n rest).life (n ::ₘ busy) finished malloced
    have hheld : (attempt u n rest).life busy finished malloced =
        { l with places := { l.places with
          busy := busy + bagOf (attempt u n rest).tq } } := rfl
    rw [life_nnConnFreeTask, hheld, Life.give_of_places]
    refine ReflTransGen.tail (life_attempt hlt hfree) ?_
    refine Life.Step.reject l n (busy + bagOf (attempt u n rest).tq) ?_ ?_
    · simp [l, World.life]
    · change p.rejects ((attempt u n rest).mc.nodes n)
      rw [hnode]
      exact hmeets.rejects hsize hcode hle _

theorem life_decodeStep {u : World} {turn : Turn World (Int × World)}
    (h : DecodeStep u turn) (htq : 0 < u.tq.length)
    (hmeets : AttemptMeets p u) :
    Life.Runs p (u.life busy finished malloced)
      ((afterTurn turn).life busy finished malloced) := by
  cases h with
  | busy _ =>
      simp only [afterTurn]
      rw [life_nnConnBusy]
  | underflow hlt hfree =>
      simp only [afterTurn]
      rw [life_nnConnBusy]
      exact ReflTransGen.single (Life.Step.underflow _ hlt
        (by simp [World.life, hfree]))
  | ok n rest hlt hfree _ =>
      simp only [afterTurn]
      rw [life_dispatchTask (show 0 < (attempt u n rest).tq.length from htq)]
      exact life_attempt hlt hfree
  | error n rest hlt hfree hcode =>
      simp only [afterTurn]
      rw [life_resetIn, life_useMc]
      exact life_rejected hmeets hlt hfree (Or.inl hcode)
  | again n rest hlt hfree hcode =>
      simp only [afterTurn]
      rw [life_shrinkIn, life_useMc]
      exact life_rejected hmeets hlt hfree (Or.inr hcode)
  | lost n rest hlt hfree hok herr hagain =>
      have hloses : p.loses := by
        rcases taskDecode_cases u.mem u.mc.inBuf (u.mc.nodes n) with
          hunread | ⟨hsize, hle, _, hdone | ⟨hneg, hword, _⟩⟩
        · exact absurd (by rw [attemptCode, hunread]) hagain
        · exact absurd hdone hok
        · rw [attemptCode, hword] at herr hagain
          simp only [ngxError, ngxAgain] at herr hagain
          refine hmeets.loses hsize ?_ hle
          simp only [ngxAgain]
          omega
      let l := (attempt u n rest).life (n ::ₘ busy) finished malloced
      have hheld : (loseNode (attempt u n rest) n).life busy finished malloced =
          { l with places := { l.places with
            busy := busy + bagOf (attempt u n rest).tq
            lost := n ::ₘ l.places.lost } } := by
        simp only [World.life, loseNode, l, Multiset.cons_coe]
      simp only [afterTurn]
      rw [hheld]
      exact ReflTransGen.tail (life_attempt hlt hfree)
        (Life.Step.lose l n (busy + bagOf (attempt u n rest).tq)
          (by simp [l, World.life]) hloses)

theorem AttemptMeets.useMc {w : World} (h : AttemptMeets p w) :
    AttemptMeets p w.useMc := by
  obtain ⟨hrejects, hloses⟩ := h
  constructor
  · simpa using hrejects
  · simpa using hloses

theorem life_nnConnDecodeTurn {w : World} (htq : 0 < w.tq.length)
    (hmeets : AttemptMeets p w) :
    Life.Runs p (w.life busy finished malloced)
      ((afterTurn (nnConnDecodeTurn w)).life busy finished malloced) := by
  rw [← life_useMc w]
  exact life_decodeStep (nnConnDecodeTurn_step w) (by rwa [useMc_tq])
    hmeets.useMc

theorem life_nnConnRecvTurn (w : World) :
    (afterTurn (nnConnRecvTurn w)).life busy finished malloced =
      w.life busy finished malloced := by
  rw [← life_useMc w]
  rcases nnConnRecvTurn_cases w with h | ⟨_, h⟩ | ⟨_, h⟩ <;> rw [h] <;> rfl

end Refinement

end Request
end NgxEpoll
