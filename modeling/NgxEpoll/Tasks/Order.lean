import NgxEpoll.Request.Receive
import NgxEpoll.Foundation.Runs
import Mathlib.Data.List.Induction
import Mathlib.Data.Fintype.Basic

/-!
# The order in which tasks are handled

`nn_task_queue.cpp` has a ring of nodes with two ways to empty it.  The list of
a queue is the ring from `qh.next` on, so that `queue_head` is its first element
and `queue_tail` its last.
-/

namespace NgxEpoll
namespace Tasks

open Foundation
open Common
open Request

section Queues

variable {α : Type}

def pushTask (queue : List α) (tnode : α) : List α :=
  tnode :: queue

def popTask (queue : List α) : Option (α × List α) :=
  match queue.getLast? with
  | none => none
  | some tnode => some (tnode, queue.dropLast)

def popAll (queue : List α) : List α × List α :=
  (queue, [])

/-!
## Two ways to empty a queue
-/

/-- The loop of `do_task_handler` and of `write_back_pack_queue`: remove the
node at `queue_head` and handle it. -/
def walkTurn (s : List α × List α) : Turn (List α × List α) (List α) :=
  match s.1 with
  | [] => Turn.done s.2
  | tnode :: rest => Turn.next (rest, s.2 ++ [tnode])

def walk (queue : List α) : List α :=
  loop (fun s => s.1.length) walkTurn Prod.snd (queue, [])

def popTaskTurn (s : List α × List α) : Turn (List α × List α) (List α) :=
  match popTask s.1 with
  | none => Turn.done s.2
  | some (tnode, rest) => Turn.next (rest, s.2 ++ [tnode])

def popTasks (queue : List α) : List α :=
  loop (fun s => s.1.length) popTaskTurn Prod.snd (queue, [])

@[simp] theorem popTask_nil : popTask ([] : List α) = none :=
  rfl

@[simp] theorem popTask_concat (queue : List α) (tnode : α) :
    popTask (queue ++ [tnode]) = some (tnode, queue) := by
  simp [popTask]

theorem walk_from (queue taken : List α) :
    loop (fun s => s.1.length) walkTurn Prod.snd (queue, taken) =
      taken ++ queue := by
  have hlow : Lowers (fun _ => True) (fun s : List α × List α => s.1.length)
      walkTurn := by
    rintro ⟨queue, taken⟩ s' - hturn
    cases queue with
    | nil => cases hturn
    | cons tnode rest =>
        cases hturn
        exact ⟨trivial, Nat.lt_succ_self _⟩
  induction queue generalizing taken with
  | nil =>
      rw [loop_done Prod.snd (show walkTurn ([], taken) = Turn.done taken from rfl),
        List.append_nil]
  | cons tnode rest ih =>
      rw [loop_next hlow Prod.snd trivial (show walkTurn (tnode :: rest, taken) =
        Turn.next (rest, taken ++ [tnode]) from rfl), ih]
      simp

theorem popTasks_from (queue taken : List α) :
    loop (fun s => s.1.length) popTaskTurn Prod.snd (queue, taken) =
      taken ++ queue.reverse := by
  have hlow : Lowers (fun _ => True) (fun s : List α × List α => s.1.length)
      popTaskTurn := by
    rintro ⟨queue, taken⟩ s' - hturn
    induction queue using List.reverseRecOn with
    | nil => cases hturn
    | append_singleton rest tnode _ =>
        simp only [popTaskTurn, popTask_concat, Turn.next.injEq] at hturn
        subst hturn
        exact ⟨trivial, by simp⟩
  induction queue using List.reverseRecOn generalizing taken with
  | nil =>
      rw [loop_done Prod.snd
        (show popTaskTurn ([], taken) = Turn.done taken from rfl)]
      simp
  | append_singleton rest tnode ih =>
      have hturn : popTaskTurn (rest ++ [tnode], taken) =
          Turn.next (rest, taken ++ [tnode]) := by
        simp only [popTaskTurn, popTask_concat]
      rw [loop_next hlow Prod.snd trivial hturn, ih]
      simp

theorem walk_eq (queue : List α) : walk queue = queue :=
  walk_from queue []

theorem popTasks_eq (queue : List α) : popTasks queue = queue.reverse :=
  popTasks_from queue []

/-- A list of different elements is its own reverse only when it has at most
one. -/
theorem reverse_eq_self_iff {xs : List α} (hnodup : xs.Nodup) :
    xs = xs.reverse ↔ xs.length ≤ 1 := by
  constructor
  · intro h
    cases xs with
    | nil => simp
    | cons x rest =>
        have hlast : (x :: rest).getLast? = some x := by
          rw [h, List.getLast?_reverse]
          rfl
        cases rest with
        | nil => simp
        | cons y rest =>
            rw [List.getLast?_cons_cons] at hlast
            have hmem := List.mem_of_getLast? hlast
            exact absurd hmem (List.nodup_cons.mp hnodup).1
  · intro h
    match xs with
    | [] => rfl
    | [x] => rfl

end Queues

/-!
## Task threads
-/

/-- A task thread with its queue.  `batch` holds what `do_task_handler` has
taken and not handled yet; `pushed` and `handled` are logs. -/
structure Thread (α : Type) where
  queue : List α
  batch : List α
  running : Bool
  pushed : List α
  handled : List α

inductive Act where
  | popTask
  | popAll
  | handle
  | stop

def Thread.new (α : Type) : Thread α where
  queue := []
  batch := []
  running := true
  pushed := []
  handled := []

def Thread.push {α : Type} (th : Thread α) (t : α) : Thread α :=
  { th with queue := pushTask th.queue t, pushed := th.pushed ++ [t] }

/-- What the thread does.  A stopped thread leaves the loop of
`do_task_handler`, whose ring is then forgotten. -/
def Thread.step {α : Type} (th : Thread α) : Act -> Option (Thread α)
  | Act.popTask =>
      match popTask th.queue with
      | none => none
      | some (t, rest) =>
          if th.batch.isEmpty then
            some { th with queue := rest, handled := th.handled ++ [t] }
          else none
  | Act.popAll =>
      if th.batch.isEmpty || !th.running then
        some { th with
          batch := (popAll th.queue).1
          queue := (popAll th.queue).2 }
      else none
  | Act.handle =>
      match th.batch with
      | [] => none
      | t :: rest =>
          if th.running then
            some { th with batch := rest, handled := th.handled ++ [t] }
          else none
  | Act.stop => some { th with running := false }

/-- The tasks were handled in the order in which they were pushed, and while
the thread runs none was passed over. -/
def InOrder {α : Type} (th : Thread α) : Prop :=
  th.handled.Sublist th.pushed ∧
    (th.running = true -> th.handled <+: th.pushed)

section Order

variable {α : Type}

def Thread.line (th : Thread α) : List α :=
  th.handled ++ (th.batch ++ th.queue.reverse)

/-- The line that the thread works off is the order of the pushes. -/
structure Lined (th : Thread α) : Prop where
  sublist : th.line.Sublist th.pushed
  running : th.running = true -> th.line = th.pushed

theorem Lined.inOrder {th : Thread α} (h : Lined th) : InOrder th := by
  constructor
  · exact (List.sublist_append_left _ _).trans h.sublist
  · intro hrunning
    rw [← h.running hrunning]
    exact List.prefix_append _ _

theorem lined_new : Lined (Thread.new α) :=
  ⟨List.Sublist.refl _, fun _ => rfl⟩

theorem Lined.push {th : Thread α} (h : Lined th) (t : α) :
    Lined (th.push t) := by
  have hline : (th.push t).line = th.line ++ [t] := by
    simp [Thread.line, Thread.push, pushTask]
  constructor
  · rw [hline]
    exact h.sublist.append (List.Sublist.refl _)
  · intro hrunning
    rw [hline, h.running hrunning]
    rfl

theorem reverse_of_length_le_one {xs : List α} (h : xs.length ≤ 1) :
    xs.reverse = xs := by
  match xs with
  | [] => rfl
  | [x] => rfl

theorem Lined.same {th th' : Thread α} (h : Lined th)
    (hline : th'.line = th.line) (hpushed : th'.pushed = th.pushed)
    (hrunning : th'.running = true -> th.running = true) : Lined th' := by
  constructor
  · rw [hline, hpushed]
    exact h.sublist
  · intro hrun
    rw [hline, hpushed]
    exact h.running (hrunning hrun)

theorem Thread.step_cases {th th' : Thread α} {a : Act}
    (h : th.step a = some th') :
    (exists t rest, a = Act.popTask ∧ th.queue = rest ++ [t] ∧ th.batch = [] ∧
      th' = { th with queue := rest, handled := th.handled ++ [t] }) ∨
    (a = Act.popAll ∧ (th.batch = [] ∨ th.running = false) ∧
      th' = { th with batch := th.queue, queue := [] }) ∨
    (exists t rest, a = Act.handle ∧ th.batch = t :: rest ∧ th.running = true ∧
      th' = { th with batch := rest, handled := th.handled ++ [t] }) ∨
    (a = Act.stop ∧ th' = { th with running := false }) := by
  cases a with
  | popTask =>
      simp only [Thread.step] at h
      split at h
      · cases h
      · next t rest hpop =>
        simp only [Option.ite_none_right_eq_some, List.isEmpty_iff,
          Option.some.injEq] at h
        obtain ⟨hempty, rfl⟩ := h
        refine Or.inl ⟨t, rest, rfl, ?_, hempty, rfl⟩
        rcases List.eq_nil_or_concat' th.queue with hnil | ⟨rest', t', hconcat⟩
        · rw [hnil] at hpop
          cases hpop
        · rw [hconcat, popTask_concat] at hpop
          cases hpop
          exact hconcat
  | popAll =>
      simp only [Thread.step, Option.ite_none_right_eq_some, Bool.or_eq_true,
        List.isEmpty_iff, Bool.not_eq_true', Option.some.injEq] at h
      obtain ⟨hfree, rfl⟩ := h
      exact Or.inr (Or.inl ⟨rfl, hfree, rfl⟩)
  | handle =>
      simp only [Thread.step] at h
      split at h
      · cases h
      · next t rest hbatch =>
        simp only [Option.ite_none_right_eq_some, Option.some.injEq] at h
        obtain ⟨hrunning, rfl⟩ := h
        exact Or.inr (Or.inr (Or.inl ⟨t, rest, rfl, hbatch, hrunning, rfl⟩))
  | stop =>
      cases h
      exact Or.inr (Or.inr (Or.inr ⟨rfl, rfl⟩))

theorem Lined.step {th th' : Thread α} {a : Act} (h : Lined th)
    (hone : a = Act.popAll -> th.queue.length ≤ 1)
    (hstep : th.step a = some th') : Lined th' := by
  rcases Thread.step_cases hstep with
    ⟨t, rest, rfl, hqueue, hbatch, rfl⟩ | ⟨rfl, hfree, rfl⟩ |
      ⟨t, rest, rfl, hbatch, _, rfl⟩ | ⟨rfl, rfl⟩
  · apply h.same
    · simp [Thread.line, hqueue, hbatch]
    · rfl
    · exact id
  · have hreverse := reverse_of_length_le_one (hone rfl)
    have hline : Thread.line { th with batch := th.queue, queue := [] } =
        th.handled ++ th.queue.reverse := by
      rw [hreverse]
      simp [Thread.line]
    constructor
    · rw [hline]
      refine List.Sublist.trans ?_ h.sublist
      exact (List.Sublist.refl _).append (List.sublist_append_right _ _)
    · intro hrunning
      have hempty : th.batch = [] := by
        rcases hfree with hempty | hstopped
        · exact hempty
        · rw [hstopped] at hrunning
          cases hrunning
      rw [hline, ← h.running hrunning, Thread.line, hempty]
      rfl
  · apply h.same
    · simp [Thread.line, hbatch]
    · rfl
    · exact id
  · apply h.same
    · rfl
    · rfl
    · intro hrunning
      cases hrunning

end Order

/-!
## Dispatching
-/

structure Threads where
  thread : Nat -> Thread Dispatch
  dispatched : List Dispatch

inductive Label where
  | dispatch (d : Dispatch)
  | act (k : Nat) (a : Act)

def Threads.new : Threads where
  thread := fun _ => Thread.new Dispatch
  dispatched := []

def threadOf (taskNum : Nat) (d : Dispatch) : Nat :=
  dispatchIndex d.task taskNum

def step (taskNum : Nat) (s : Threads) : Label -> Option Threads
  | Label.dispatch d =>
      let k := threadOf taskNum d
      some
        { thread := Function.update s.thread k ((s.thread k).push d)
          dispatched := s.dispatched ++ [d] }
  | Label.act k a =>
      match (s.thread k).step a with
      | none => none
      | some th => some { s with thread := Function.update s.thread k th }

/-- `pop_all` is called on a queue with at most one task. -/
def TakesOne (s : Threads) : Label -> Prop
  | Label.act k Act.popAll => (s.thread k).queue.length ≤ 1
  | _ => True

def withKey (key : Fin keyLen -> Byte) (ds : List Dispatch) : List Dispatch :=
  ds.filter (fun d => decide (d.task.key = key))

/-- Every queue is handled in order, and so are the tasks with a key, all of
which one thread handles. -/
structure Ordered (s : Threads) : Prop where
  queues : forall k, InOrder (s.thread k)
  keys : forall key, exists k,
    (forall i, i ≠ k -> withKey key (s.thread i).handled = []) ∧
      (withKey key (s.thread k).handled).Sublist (withKey key s.dispatched)

/-- The threads work off the tasks that were dispatched to them. -/
structure Dispatched (taskNum : Nat) (s : Threads) : Prop where
  lined : forall k, Lined (s.thread k)
  pushed : forall k, (s.thread k).pushed =
    s.dispatched.filter (fun d => decide (threadOf taskNum d = k))

theorem pushed_of_step {α : Type} {th th' : Thread α} {a : Act}
    (h : th.step a = some th') : th'.pushed = th.pushed := by
  rcases Thread.step_cases h with
    ⟨_, _, _, _, _, rfl⟩ | ⟨_, _, rfl⟩ | ⟨_, _, _, _, _, rfl⟩ | ⟨_, rfl⟩ <;> rfl

theorem dispatched_new (taskNum : Nat) : Dispatched taskNum Threads.new :=
  ⟨fun _ => lined_new, fun _ => rfl⟩

theorem dispatched_of_step {taskNum : Nat} {s s' : Threads} {a : Label}
    (h : Dispatched taskNum s) (hone : TakesOne s a)
    (hstep : step taskNum s a = some s') : Dispatched taskNum s' := by
  cases a with
  | dispatch d =>
      cases hstep
      constructor
      · intro k
        by_cases hk : k = threadOf taskNum d
        · subst hk
          simp only [Function.update_self]
          exact (h.lined _).push d
        · simp only [Function.update_of_ne hk]
          exact h.lined k
      · intro k
        simp only [List.filter_append]
        by_cases hk : k = threadOf taskNum d
        · subst hk
          simp [Thread.push, h.pushed]
        · have hne : threadOf taskNum d ≠ k := fun heq => hk heq.symm
          simp [Function.update_of_ne hk, h.pushed, hne]
  | act k a =>
      simp only [step] at hstep
      split at hstep
      · cases hstep
      · next th hth =>
        cases hstep
        have hlined : Lined th := by
          refine (h.lined k).step ?_ hth
          rintro rfl
          exact hone
        constructor
        · intro i
          by_cases hi : i = k
          · subst hi
            simpa using hlined
          · simp only [Function.update_of_ne hi]
            exact h.lined i
        · intro i
          by_cases hi : i = k
          · subst hi
            simpa [pushed_of_step hth] using h.pushed i
          · simp only [Function.update_of_ne hi]
            exact h.pushed i

theorem threadOf_of_key {taskNum : Nat} {d e : Dispatch}
    (h : d.task.key = e.task.key) : threadOf taskNum d = threadOf taskNum e := by
  simp only [threadOf, dispatchIndex, TaskT.keyHead, h]

theorem Dispatched.handled_thread {taskNum : Nat} {s : Threads}
    (h : Dispatched taskNum s) {k : Nat} {d : Dispatch}
    (hd : d ∈ (s.thread k).handled) : threadOf taskNum d = k := by
  have hmem := (h.lined k).inOrder.1.subset hd
  rw [h.pushed] at hmem
  simpa using (List.mem_filter.mp hmem).2

theorem Dispatched.ordered {taskNum : Nat} {s : Threads}
    (h : Dispatched taskNum s) : Ordered s := by
  constructor
  · exact fun k => (h.lined k).inOrder
  · intro key
    -- Some task with the key tells the thread, if there is one at all.
    by_cases hsome : exists i d, d ∈ (s.thread i).handled ∧ d.task.key = key
    · obtain ⟨k, d, hd, hkey⟩ := hsome
      refine ⟨k, ?_, ?_⟩
      · intro i hi
        rw [withKey, List.filter_eq_nil_iff]
        intro e he hekey
        have hekey : e.task.key = key := by simpa using hekey
        have hsame : threadOf taskNum e = threadOf taskNum d :=
          threadOf_of_key (hekey.trans hkey.symm)
        rw [h.handled_thread he, h.handled_thread hd] at hsame
        exact hi hsame
      · have hpushed := (h.lined k).inOrder.1
        rw [h.pushed] at hpushed
        exact (hpushed.trans List.filter_sublist).filter _
    · refine ⟨0, ?_, ?_⟩
      · intro i _
        rw [withKey, List.filter_eq_nil_iff]
        intro e he hekey
        exact hsome ⟨i, e, he, by simpa using hekey⟩
      · have hnil : withKey key (s.thread 0).handled = [] := by
          rw [withKey, List.filter_eq_nil_iff]
          intro e he hekey
          exact hsome ⟨0, e, he, by simpa using hekey⟩
        rw [hnil]
        exact List.nil_sublist _

/-- In a run in which `pop_all` takes at most one task at a time, tasks are
handled in the order of their dispatch; and this is when walking what `pop_all`
takes is the same as repeating `pop_task`. -/
theorem ordered_of_run (taskNum : Nat) {s : Threads}
    (hrun : Reaches (step taskNum) TakesOne Threads.new s) :
    Ordered s ∧ forall queue : List Dispatch, queue.Nodup ->
      (walk (popAll queue).1 = popTasks queue ↔ queue.length ≤ 1) := by
  have hdispatched : Dispatched taskNum s :=
    hrun.invariant (Dispatched taskNum)
      (fun _ _ _ => dispatched_of_step) (dispatched_new taskNum)
  refine ⟨hdispatched.ordered, ?_⟩
  intro queue hnodup
  rw [walk_eq, popTasks_eq]
  exact reverse_eq_self_iff hnodup

def request (seq : BitVec 32) : Dispatch where
  node := 0
  task := { taskNew with seq := seq }
  payload := []

def takenSingly : List Label :=
  [Label.dispatch (request 1), Label.act 0 Act.popAll, Label.dispatch (request 2),
    Label.act 0 Act.handle, Label.act 0 Act.popAll, Label.act 0 Act.handle]

theorem ordered_takenSingly :
    Reaches (step 1) TakesOne Threads.new
        (after (step 1) Threads.new takenSingly) ∧
      Ordered (after (step 1) Threads.new takenSingly) := by
  have hrun : Reaches (step 1) TakesOne Threads.new
      (after (step 1) Threads.new takenSingly) := by
    have hfirst : Reaches (step 1) TakesOne Threads.new
        (after (step 1) Threads.new [Label.dispatch (request 1)]) :=
      (Reaches.refl _).oneLabel trivial rfl
    have hpop := hfirst.oneLabel (a := Label.act 0 Act.popAll)
      (show _ ≤ 1 by decide) (by decide)
    have hsecond := hpop.oneLabel (a := Label.dispatch (request 2)) trivial rfl
    have hhandle := hsecond.oneLabel (a := Label.act 0 Act.handle) trivial
      (by decide)
    have hagain := hhandle.oneLabel (a := Label.act 0 Act.popAll)
      (show _ ≤ 1 by decide) (by decide)
    exact hagain.oneLabel (a := Label.act 0 Act.handle) trivial (by decide)
  exact ⟨hrun, (ordered_of_run 1 hrun).1⟩

def takenTogether : List Label :=
  [Label.dispatch (request 1), Label.dispatch (request 2),
    Label.act 0 Act.popAll, Label.act 0 Act.handle, Label.act 0 Act.handle]

theorem ordered_takenTogether_fails :
    Reaches (step 1) Always Threads.new
        (after (step 1) Threads.new takenTogether) ∧
      ¬ Ordered (after (step 1) Threads.new takenTogether) ∧
      walk (popAll [request 2, request 1]).1 ≠
        popTasks [request 2, request 1] := by
  refine ⟨?_, ?_, ?_⟩
  · apply (Reaches.refl _).labels
    · exact fun _ _ _ => trivial
    · decide
  · intro hordered
    have hseq := (hordered.queues 0).1.map (fun d => d.task.seq)
    revert hseq
    decide
  · intro heq
    rw [walk_eq, popTasks_eq] at heq
    have hseq := congrArg (List.map (fun d => d.task.seq)) heq
    revert hseq
    decide

end Tasks
end NgxEpoll
