import NgxEpoll.Tasks.Order
import NgxEpoll.Foundation.Rings

/-!
# Task queues as rings

`push_task`, `pop_task` and `pop_all` of `nn_task_queue.cpp` on the pointers of
the ring at `tq->qh`.  Each runs under the spin lock of the queue, so that the
threads interleave whole calls.
-/

namespace NgxEpoll
namespace Tasks
namespace RingQueue

open Foundation

variable {α : Type} [DecidableEq α]

/-- `pop_task`: the node at `queue_tail`, or null. -/
def popTask (L : Links α) (qh : α) : Option α × Links α :=
  if L.queueEmpty qh then (none, L)
  else
    match L.prev qh with
    | none => (none, L)
    | some q => (some q, L.queueRemove q)

def popAll (L : Links α) (tq queue : α) : Links α :=
  if L.queueEmpty tq then L
  else
    let L := L.setNext queue (L.next tq)
    let L := L.setPrev queue (L.prev tq)
    let L := L.setPrevAt (L.next queue) (some queue)
    let L := L.setNextAt (L.prev queue) (some queue)
    L.queueInit tq

def pushTask (L : Links α) (qh tnode : α) : Links α :=
  L.queueInsertHead qh tnode

/-!
## The calls on rings
-/

variable {L : Links α} {qh q x : α} {xs : List α}

theorem popTask_nil (hr : Ring L qh []) : popTask L qh = (none, L) := by
  unfold popTask
  rw [if_pos (hr.queueEmpty_iff.mpr rfl)]

theorem popTask_concat (hr : Ring L qh (xs ++ [x])) :
    popTask L qh = (some x, L.queueRemove x) ∧ Ring (L.queueRemove x) qh xs := by
  constructor
  · have hempty : ¬ L.queueEmpty qh = true := by
      rw [hr.queueEmpty_iff]
      simp
    unfold popTask
    rw [if_neg hempty, hr.prev_head]
  · have hremoved := hr.remove.1
    rw [List.append_nil] at hremoved
    exact hremoved

theorem popAll_nil (hr : Ring L qh []) (q : α) : popAll L qh q = L := by
  unfold popAll
  rw [if_pos (hr.queueEmpty_iff.mpr rfl)]

theorem popAll_pointers {a b : α} (hempty : ¬ L.queueEmpty qh = true)
    (hn : L.next qh = some a) (hp : L.prev qh = some b) (haq : a ≠ q) (z : α) :
    (popAll L qh q).next z =
        (if z = qh then some qh else if z = b then some q
          else if z = q then L.next qh else L.next z) ∧
      (popAll L qh q).prev z =
        (if z = qh then some qh else if z = a then some q
          else if z = q then L.prev qh else L.prev z) := by
  unfold popAll
  rw [if_neg hempty]
  simp only [Links.queueInit, Links.setNext, Links.setPrev, Links.setPrevAt,
    Links.setNextAt, Function.update_self, Function.update_apply, hn, hp,
    Ne.symm haq, if_false, true_and]

theorem popAll_cons (hr : Ring L qh xs) (hne : xs ≠ []) (hq : q ∉ qh :: xs) :
    Ring (popAll L qh q) qh [] ∧ Ring (popAll L qh q) q xs := by
  have hempty : ¬ L.queueEmpty qh = true := by
    rw [hr.queueEmpty_iff]
    exact hne
  obtain ⟨a, rest, rfl⟩ := List.exists_cons_of_ne_nil hne
  have hn : L.next qh = some a := hr.next_head
  have hp : L.prev qh = some ((a :: rest).getLastD qh) := hr.pointers_head.2
  have haq : a ≠ q := by
    rintro rfl
    exact hq (by simp)
  have hqqh : qh ≠ q := by
    rintro rfl
    exact hq (by simp)
  have hpointers := popAll_pointers hempty hn hp haq
  have hlastmem : (a :: rest).getLastD qh ∈ a :: rest := by
    rw [List.getLastD_cons, ← List.getLast_eq_getLastD]
    exact List.getLast_mem hne
  have hlastq : (a :: rest).getLastD qh ≠ q := by
    intro heq
    exact hq (List.mem_cons_of_mem _ (heq ▸ hlastmem))
  have hmemqh : forall z, z ∈ q :: a :: rest -> z ≠ qh := by
    rintro z hz rfl
    rcases List.mem_cons.mp hz with rfl | hz
    · exact hqqh rfl
    · exact (List.nodup_cons.mp hr.nodup).1 hz
  constructor
  · refine ⟨⟨?_, ?_, trivial⟩, List.nodup_singleton qh⟩
    · rw [(hpointers qh).1, if_pos rfl]
    · rw [(hpointers qh).2, if_pos rfl]
  · refine hr.rehead hne hq (fun z hz => ?_) (fun z hz => ?_)
    · rw [(hpointers z).1, if_neg (hmemqh z hz), hp]
      by_cases hzq : z = q
      · subst hzq
        rw [if_neg (Ne.symm hlastq), if_pos rfl, if_pos rfl]
      · rw [if_neg hzq, if_neg hzq]
        simp only [Option.some.injEq, eq_comm]
    · rw [(hpointers z).2, if_neg (hmemqh z hz), hn]
      by_cases hzq : z = q
      · subst hzq
        rw [if_neg (Ne.symm haq), if_pos rfl, if_pos rfl]
      · rw [if_neg hzq, if_neg hzq]
        simp only [Option.some.injEq, eq_comm]

theorem popAll_ring (hr : Ring L qh xs) (hq : q ∉ qh :: xs) (hfresh : Ring L q []) :
    Ring (popAll L qh q) qh [] ∧ Ring (popAll L qh q) q xs := by
  by_cases hne : xs = []
  · subst hne
    rw [popAll_nil hr]
    exact ⟨hr, hfresh⟩
  · exact popAll_cons hr hne hq

theorem rings_simulate_lists (hr : Ring L qh xs) :
    (x ∉ qh :: xs -> Ring (pushTask L qh x) qh (Tasks.pushTask xs x)) ∧
      (popTask L qh).1 = (Tasks.popTask xs).map Prod.fst ∧
      Ring (popTask L qh).2 qh ((Tasks.popTask xs).elim xs Prod.snd) ∧
      (q ∉ qh :: xs -> Ring L q [] ->
        Ring (popAll L qh q) q (Tasks.popAll xs).1 ∧
          Ring (popAll L qh q) qh (Tasks.popAll xs).2) := by
  refine ⟨fun hx => (hr.insertHead hx).1, ?_, ?_, fun hq hfresh => ?_⟩
  · induction xs using List.reverseRecOn with
    | nil => rw [popTask_nil hr]; rfl
    | append_singleton xs x _ =>
        rw [(popTask_concat hr).1, Tasks.popTask_concat]
        rfl
  · induction xs using List.reverseRecOn with
    | nil =>
        rw [popTask_nil hr]
        exact hr
    | append_singleton xs x _ =>
        obtain ⟨hpop, hring⟩ := popTask_concat hr
        rw [hpop, Tasks.popTask_concat]
        exact hring
  · exact (popAll_ring hr hq hfresh).symm

/-!
## Interleavings

The memory with its pointers and, in order, the nodes pushed and the nodes
handed out so far.
-/

structure TaskQueue (α : Type) where
  links : Links α
  pushed : List α
  delivered : List α

/-- A call on the queue, or whatever the threads do to other memory. -/
inductive Call (α : Type) where
  | push (tnode : α)
  | pop
  | popAll (queue : α)
  | other (links : Links α)

def taskQueueCreate (L : Links α) (qh : α) : TaskQueue α where
  links := L.queueInit qh
  pushed := []
  delivered := []

/-- One call.  What `pop_all` hands out is read from the new ring, oldest node
first. -/
def step (qh : α) (s : TaskQueue α) : Call α -> Option (TaskQueue α)
  | Call.push tnode =>
      some { s with links := pushTask s.links qh tnode, pushed := s.pushed ++ [tnode] }
  | Call.pop =>
      let r := popTask s.links qh
      some { s with links := r.2, delivered := s.delivered ++ r.1.toList }
  | Call.popAll queue =>
      let L := popAll s.links qh queue
      some { s with
        links := L
        delivered := s.delivered ++ (L.entries queue s.pushed.length).reverse }
  | Call.other L => some { s with links := L }

/-- Not every push of the node has been answered by a delivery. -/
def InQueue (s : TaskQueue α) (x : α) : Prop :=
  s.delivered.count x < s.pushed.count x

instance (s : TaskQueue α) (x : α) : Decidable (InQueue s x) :=
  inferInstanceAs (Decidable (_ < _))

/-- Pushed nodes are in no queue, `pop_all` gets a freshly initialised head, and
nobody else writes to the head or to a queued node. -/
def Permitted (qh : α) (s : TaskQueue α) : Call α -> Prop
  | Call.push tnode => tnode ≠ qh ∧ ¬ InQueue s tnode
  | Call.pop => True
  | Call.popAll queue =>
      queue ≠ qh ∧ ¬ InQueue s queue ∧
        s.links.next queue = some queue ∧ s.links.prev queue = some queue
  | Call.other L =>
      forall y, y = qh ∨ InQueue s y ->
        L.next y = s.links.next y ∧ L.prev y = s.links.prev y

/-- The ring holds `xs`, newest first, and these are the pushed nodes not yet
handed out. -/
structure Holds (qh : α) (s : TaskQueue α) (xs : List α) : Prop where
  ring : Ring s.links qh xs
  history : s.pushed = s.delivered ++ xs.reverse

variable {s s' : TaskQueue α}

theorem Holds.count (h : Holds qh s xs) (x : α) :
    s.pushed.count x = s.delivered.count x + if x ∈ xs then 1 else 0 := by
  have hnodup := (List.nodup_cons.mp h.ring.nodup).2
  rw [h.history, List.count_append, List.count_reverse, hnodup.count]

theorem Holds.inQueue_iff (h : Holds qh s xs) (x : α) : InQueue s x ↔ x ∈ xs := by
  unfold InQueue
  rw [h.count x]
  by_cases hx : x ∈ xs
  · simp [hx]
  · simp [hx]

theorem Holds.not_mem (h : Holds qh s xs) (hne : x ≠ qh) (hx : ¬ InQueue s x) :
    x ∉ qh :: xs := by
  rw [h.inQueue_iff] at hx
  simp [hne, hx]

omit [DecidableEq α] in
theorem Holds.length_le (h : Holds qh s xs) : xs.length ≤ s.pushed.length := by
  rw [h.history, List.length_append, List.length_reverse]
  exact Nat.le_add_left ..

theorem holds_create (L : Links α) (qh : α) : Holds qh (taskQueueCreate L qh) [] where
  ring := ring_queueInit L qh
  history := rfl

theorem Holds.step (h : Holds qh s xs) {a : Call α} (hok : Permitted qh s a)
    (hstep : RingQueue.step qh s a = some s') : exists xs', Holds qh s' xs' := by
  cases a with
  | push tnode =>
      cases hstep
      have hnot := h.not_mem hok.1 hok.2
      refine ⟨tnode :: xs, (h.ring.insertHead hnot).1, ?_⟩
      rw [List.reverse_cons, ← List.append_assoc, ← h.history]
  | pop =>
      cases hstep
      induction xs using List.reverseRecOn with
      | nil =>
          rw [popTask_nil h.ring]
          refine ⟨[], h.ring, ?_⟩
          simpa using h.history
      | append_singleton xs x _ =>
          obtain ⟨hpop, hring⟩ := popTask_concat h.ring
          rw [hpop]
          refine ⟨xs, hring, ?_⟩
          rw [h.history]
          simp
  | popAll queue =>
      cases hstep
      obtain ⟨hne, hin, hnext, hprev⟩ := hok
      have hnot := h.not_mem hne hin
      have hfresh : Ring s.links queue [] :=
        ⟨⟨hnext, hprev, trivial⟩, List.nodup_singleton queue⟩
      obtain ⟨hempty, hmoved⟩ := popAll_ring h.ring hnot hfresh
      refine ⟨[], hempty, ?_⟩
      simp only
      rw [hmoved.entries_eq h.length_le, ← h.history]
      simp
  | other L =>
      cases hstep
      refine ⟨xs, h.ring.congr (fun y hy => ?_) (fun y hy => ?_), h.history⟩
      · refine (hok y ?_).1
        rw [h.inQueue_iff]
        exact List.mem_cons.mp hy
      · refine (hok y ?_).2
        rw [h.inQueue_iff]
        exact List.mem_cons.mp hy

theorem holds_of_run {L : Links α}
    (hrun : Reaches (RingQueue.step qh) (Permitted qh) (taskQueueCreate L qh) s) :
    exists xs, Holds qh s xs := by
  refine hrun.invariant (fun s => exists xs, Holds qh s xs) ?_ ⟨[], holds_create L qh⟩
  rintro t a u ⟨xs, h⟩ hok hstep
  exact h.step hok hstep

/-- In every interleaving the ring is well formed, each push is answered by one
delivery or its node is still in the ring, and `pop_all` moves the whole ring. -/
theorem ring_delivers {L : Links α}
    (hrun : Reaches (RingQueue.step qh) (Permitted qh) (taskQueueCreate L qh) s) :
    exists xs, Ring s.links qh xs ∧
      s.pushed = s.delivered ++ xs.reverse ∧
      (forall x, s.pushed.count x = s.delivered.count x + if x ∈ xs then 1 else 0) ∧
      (popTask s.links qh).1 = xs.getLast? ∧
      forall queue, Permitted qh s (Call.popAll queue) ->
        Ring (popAll s.links qh queue) qh [] ∧
          Ring (popAll s.links qh queue) queue xs ∧
          RingQueue.step qh s (Call.popAll queue) = some
            { s with
              links := popAll s.links qh queue
              delivered := s.delivered ++ xs.reverse } := by
  obtain ⟨xs, h⟩ := holds_of_run hrun
  refine ⟨xs, h.ring, h.history, h.count, ?_, ?_⟩
  · induction xs using List.reverseRecOn with
    | nil => rw [popTask_nil h.ring, List.getLast?_nil]
    | append_singleton xs x _ =>
        rw [(popTask_concat h.ring).1, List.getLast?_concat]
  · rintro queue ⟨hne, hin, hnext, hprev⟩
    have hfresh : Ring s.links queue [] :=
      ⟨⟨hnext, hprev, trivial⟩, List.nodup_singleton queue⟩
    obtain ⟨hempty, hmoved⟩ := popAll_ring h.ring (h.not_mem hne hin) hfresh
    refine ⟨hempty, hmoved, ?_⟩
    simp only [RingQueue.step]
    rw [hmoved.entries_eq h.length_le]

def idleLinks : Links Nat where
  next := fun x => if x = 9 then some 9 else none
  prev := fun x => if x = 9 then some 9 else none

def twoPushed : TaskQueue Nat :=
  after (RingQueue.step 0) (taskQueueCreate idleLinks 0) [Call.push 1, Call.push 2]

theorem ring_delivers_twoPushed :
    exists xs, Ring twoPushed.links 0 xs ∧
      twoPushed.pushed = twoPushed.delivered ++ xs.reverse ∧
      (forall x, twoPushed.pushed.count x =
        twoPushed.delivered.count x + if x ∈ xs then 1 else 0) ∧
      (popTask twoPushed.links 0).1 = xs.getLast? ∧
      forall queue, Permitted 0 twoPushed (Call.popAll queue) ->
        Ring (popAll twoPushed.links 0 queue) 0 [] ∧
          Ring (popAll twoPushed.links 0 queue) queue xs ∧
          RingQueue.step 0 twoPushed (Call.popAll queue) = some
            { twoPushed with
              links := popAll twoPushed.links 0 queue
              delivered := twoPushed.delivered ++ xs.reverse } := by
  have hone : Reaches (RingQueue.step 0) (Permitted 0) (taskQueueCreate idleLinks 0)
      (after (RingQueue.step 0) (taskQueueCreate idleLinks 0) [Call.push 1]) :=
    (Reaches.refl _).oneLabel ⟨by decide, by decide⟩ rfl
  have htwo : Reaches (RingQueue.step 0) (Permitted 0) (taskQueueCreate idleLinks 0)
      twoPushed :=
    Reaches.tail hone (a := Call.push 2) ⟨by decide, by decide⟩ rfl
  exact ring_delivers htwo

end RingQueue
end Tasks
end NgxEpoll
