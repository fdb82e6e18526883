import NgxEpoll.Server.Closing
import NgxEpoll.Tasks.Order

/-!
# The server dispatches to the task threads

A step of the server is a step of the task threads of `NgxEpoll.Tasks.Order` or
none, with the calls of `dispatch_task` in the order in which the connection's
frames were decoded.
-/

namespace NgxEpoll
namespace Server

open Foundation
open NgxEpoll.Core
open Common
open Request
open Relation

/-- The queues, the batches and the dispatched tasks of a server. -/
structure Mirrors (s : State) (ts : Tasks.Threads) : Prop where
  queue : forall k, (ts.thread k).queue.map Dispatch.node = s.w.tq.getD k []
  batch : forall k, (ts.thread k).batch.map Dispatch.node = s.batch.getD k []
  running : forall k, (ts.thread k).running = true
  dispatched : ts.dispatched = s.w.trace.dispatched

/-- What a step of the server does to the queues of the task threads. -/
inductive Queues (s : State) : Label -> State -> Prop where
  | same {a : Label} {s' : State} : s'.w.tq = s.w.tq -> s'.batch = s.batch ->
      s'.w.trace.dispatched = s.w.trace.dispatched -> Queues s a s'
  | dispatch {a : Label} {s' : State} (d : Dispatch) :
      s'.w.tq = s.w.tq.modify (dispatchIndex d.task s.w.tq.length) (d.node :: ·) ->
      s'.batch = s.batch ->
      s'.w.trace.dispatched = s.w.trace.dispatched ++ [d] -> Queues s a s'
  | popAll (k : Nat) : s.batch.getD k [] = [] -> k < s.batch.length ->
      Queues s (Label.popAll k) (popAll s k)
  | handle {a : Label} {s' : State} (k n : Nat) (rest : List Nat) :
      s.batch.getD k [] = n :: rest -> s'.w.tq = s.w.tq ->
      s'.batch = s.batch.set k rest ->
      s'.w.trace.dispatched = s.w.trace.dispatched -> Queues s a s'

/-- `pop_all` is called on queues with at most one task. -/
def TakesOne (s : State) : Label -> Prop
  | Label.popAll k => (s.w.tq.getD k []).length ≤ 1
  | _ => True

/-!
## The steps
-/

section Steps

variable {s s' : State}

theorem queues_of_moves {a : Label} {w : World} {pc : Pc} (h : Moves s.w w) :
    Queues s a { s with w := w, pc := pc } :=
  Queues.same (tq_of_moves h) rfl (seen_of_moves h).2

theorem dispatched_nnConnRecvTurn (w : World) :
    (afterTurn (nnConnRecvTurn w)).trace.dispatched = w.trace.dispatched := by
  rw [← show w.useMc.trace.dispatched = w.trace.dispatched from
    congrArg Bytes.dispatched (bytes_useMc w)]
  rcases nnConnRecvTurn_cases w with h | ⟨_, h⟩ | ⟨_, h⟩ <;> rw [h] <;> rfl

theorem dispatched_decodeStep {u : World} {turn : Turn World (Int × World)}
    (h : DecodeStep u turn) :
    ((afterTurn turn).tq = u.tq ∧
        (afterTurn turn).trace.dispatched = u.trace.dispatched) ∨
      exists d : Dispatch,
        (afterTurn turn).tq =
            u.tq.modify (dispatchIndex d.task u.tq.length) (d.node :: ·) ∧
          (afterTurn turn).trace.dispatched = u.trace.dispatched ++ [d] := by
  have hfreed : forall (n : Nat) (rest : List Nat),
      (nnConnFreeTask (attempt u n rest) n).useMc.bytes =
        (attempt u n rest).bytes := by
    intro n rest
    rw [bytes_useMc, bytes_nnConnFreeTask]
  cases h with
  | busy _ => exact Or.inl ⟨rfl, rfl⟩
  | underflow _ _ => exact Or.inl ⟨rfl, rfl⟩
  | ok n rest _ _ _ => exact Or.inr ⟨_, rfl, rfl⟩
  | error n rest _ _ _ =>
      exact Or.inl ⟨congrArg Bytes.tq (hfreed n rest),
        congrArg Bytes.dispatched (hfreed n rest)⟩
  | again n rest _ _ _ =>
      exact Or.inl ⟨congrArg Bytes.tq (hfreed n rest),
        congrArg Bytes.dispatched (hfreed n rest)⟩
  | lost n rest _ _ _ _ _ => exact Or.inl ⟨rfl, rfl⟩

theorem queues_decodeIter (hpc : s.pc = Pc.decoding) :
    Queues s Label.decodeIter (decodeIter s) := by
  obtain ⟨w, pc, heq, _, hmoves⟩ := decodeIter_moves hpc
  have hdispatched : s.w.useMc.trace.dispatched = s.w.trace.dispatched :=
    congrArg Bytes.dispatched (bytes_useMc s.w)
  rw [heq]
  rcases dispatched_decodeStep (nnConnDecodeTurn_step s.w) with
    ⟨htq, hsame⟩ | ⟨d, htq, hnew⟩
  · rw [useMc_tq] at htq
    rw [hdispatched] at hsame
    exact Queues.same ((tq_of_moves hmoves).trans htq) rfl
      ((seen_of_moves hmoves).2.trans hsame)
  · rw [useMc_tq] at htq
    rw [hdispatched] at hnew
    exact Queues.dispatch d ((tq_of_moves hmoves).trans htq) rfl
      ((seen_of_moves hmoves).2.trans hnew)

theorem queues_nnConnOuttask (w : World) (n : Nat) :
    (nnConnOuttask w n).2.trace.dispatched = w.trace.dispatched := by
  rw [← show w.useMc.trace.dispatched = w.trace.dispatched from
    congrArg Bytes.dispatched (bytes_useMc w)]
  simp only [nnConnOuttask]
  generalize w.useMc = u
  split
  · exact congrArg Bytes.dispatched (bytes_nnConnFreeTask u n)
  · exact (seen_of_moves (nnConnOutput_moves (pushOut u n))).2

theorem queues_of_stepped {a : Label} (h : Stepped s a s') : Queues s a s' := by
  cases h with
  | kernel env => exact Queues.same rfl rfl rfl
  | poll rd wr _ => exact Queues.same rfl rfl rfl
  | readEvent _ _ =>
      obtain ⟨w, pc, heq, _, hmoves⟩ := startRead_moves s
      rw [heq]
      exact queues_of_moves hmoves
  | recvIter hpc =>
      obtain ⟨w, pc, heq, _, hmoves⟩ := recvIter_moves hpc
      rw [heq]
      exact Queues.same ((tq_of_moves hmoves).trans (tq_nnConnRecvTurn s.w)) rfl
        ((seen_of_moves hmoves).2.trans (dispatched_nnConnRecvTurn s.w))
  | decodeIter hpc => exact queues_decodeIter hpc
  | writeEvent _ _ => exact queues_of_moves (processWrite_moves s.w)
  | slowTimer hfree _ =>
      obtain ⟨w, pc, heq, _, hmoves⟩ := slowTimer_moves hfree.held
      rw [heq]
      exact queues_of_moves hmoves
  | writeTimeout _ _ =>
      exact queues_of_moves (ReflTransGen.trans (expireWrite_moves s.w)
        (processWrite_moves _))
  | popBack i _ => exact Queues.same rfl rfl rfl
  | outDone _ => exact Queues.same rfl rfl rfl
  | outIter n q _ _ =>
      exact Queues.same (tq_nnConnOuttask s.w n) rfl (queues_nnConnOuttask s.w n)
  | popAll k hempty _ hk => exact Queues.popAll k hempty hk
  | handle k block result n rest hbatch _ =>
      have hdispatched : s.w.useMc.trace.dispatched = s.w.trace.dispatched :=
        congrArg Bytes.dispatched (bytes_useMc s.w)
      cases result with
      | none => exact Queues.handle k n rest hbatch (useMc_tq s.w) rfl hdispatched
      | some t => exact Queues.handle k n rest hbatch (useMc_tq s.w) rfl hdispatched
  | wake k _ =>
      exact Queues.same (useMc_tq s.w) rfl
        (congrArg Bytes.dispatched (bytes_useMc s.w))

end Steps

/-!
## The task threads follow
-/

section Follow

variable {s s' : State} {ts : Tasks.Threads}

theorem getD_modify {queues : List (List Nat)} {k : Nat} (hk : k < queues.length)
    (f : List Nat -> List Nat) (i : Nat) :
    (queues.modify k f).getD i [] =
      if i = k then f (queues.getD k []) else queues.getD i [] := by
  by_cases hi : i = k
  · subst hi
    simp [List.getD_eq_getElem?_getD, hk]
  · have hne : k ≠ i := fun heq => hi heq.symm
    simp [List.getD_eq_getElem?_getD, hi, hne]

theorem getD_set {queues : List (List Nat)} {k : Nat} (hk : k < queues.length)
    (q : List Nat) (i : Nat) :
    (queues.set k q).getD i [] = if i = k then q else queues.getD i [] := by
  by_cases hi : i = k
  · subst hi
    simp [List.getD_eq_getElem?_getD, hk]
  · have hne : k ≠ i := fun heq => hi heq.symm
    simp [List.getD_eq_getElem?_getD, hi, hne]

theorem mirrors_dispatch (h : Mirrors s ts) (hshape : Shape s) (d : Dispatch)
    (htq : s'.w.tq =
      s.w.tq.modify (dispatchIndex d.task s.w.tq.length) (d.node :: ·))
    (hbatch : s'.batch = s.batch)
    (hdispatched : s'.w.trace.dispatched = s.w.trace.dispatched ++ [d]) :
    exists ts', Tasks.step s.w.tq.length ts (Tasks.Label.dispatch d) = some ts' ∧
      Mirrors s' ts' := by
  have hk : dispatchIndex d.task s.w.tq.length < s.w.tq.length :=
    Nat.mod_lt _ hshape.tq
  refine ⟨_, rfl, ?_, ?_, ?_, ?_⟩
  · intro i
    rw [htq, getD_modify hk]
    by_cases hi : i = dispatchIndex d.task s.w.tq.length
    · simp [hi, Tasks.threadOf, Tasks.Thread.push, Tasks.pushTask, h.queue]
    · simp [hi, Tasks.threadOf, h.queue]
  · intro i
    rw [hbatch, ← h.batch i]
    by_cases hi : i = dispatchIndex d.task s.w.tq.length
    · simp [hi, Tasks.threadOf, Tasks.Thread.push]
    · simp [hi, Tasks.threadOf]
  · intro i
    by_cases hi : i = dispatchIndex d.task s.w.tq.length
    · simp [hi, Tasks.threadOf, Tasks.Thread.push, h.running]
    · simp [hi, Tasks.threadOf, h.running]
  · rw [hdispatched, ← h.dispatched]

theorem mirrors_act (h : Mirrors s ts) {k : Nat} (hk : k < s.batch.length)
    (hshape : Shape s) {a : Tasks.Act} {th : Tasks.Thread Dispatch}
    (hstep : (ts.thread k).step a = some th) (hrunning : th.running = true)
    (htq : s'.w.tq = s.w.tq.set k (th.queue.map Dispatch.node))
    (hbatch : s'.batch = s.batch.set k (th.batch.map Dispatch.node))
    (hdispatched : s'.w.trace.dispatched = s.w.trace.dispatched) :
    exists ts', Tasks.step s.w.tq.length ts (Tasks.Label.act k a) = some ts' ∧
      Mirrors s' ts' := by
  have hk' : k < s.w.tq.length := by
    rw [← hshape.batch]
    exact hk
  refine ⟨{ ts with thread := Function.update ts.thread k th }, ?_, ?_, ?_, ?_, ?_⟩
  · simp only [Tasks.step, hstep]
  · intro i
    rw [htq, getD_set hk']
    by_cases hi : i = k
    · simp [hi]
    · simp [hi, h.queue]
  · intro i
    rw [hbatch, getD_set hk]
    by_cases hi : i = k
    · simp [hi]
    · simp [hi, h.batch]
  · intro i
    by_cases hi : i = k
    · simp [hi, hrunning]
    · simp [hi, h.running]
  · rw [hdispatched, ← h.dispatched]

theorem mirrors_popAll (h : Mirrors s ts) (hshape : Shape s) {k : Nat}
    (hempty : s.batch.getD k [] = []) (hk : k < s.batch.length) :
    exists ts', Tasks.step s.w.tq.length ts
        (Tasks.Label.act k Tasks.Act.popAll) = some ts' ∧
      Mirrors (popAll s k) ts' := by
  have hfree : (ts.thread k).batch = [] := by
    rw [← List.map_eq_nil_iff, h.batch, hempty]
  refine mirrors_act h hk hshape
    (show (ts.thread k).step Tasks.Act.popAll = some
      { ts.thread k with batch := (ts.thread k).queue, queue := [] } by
        simp [Tasks.Thread.step, Tasks.popAll, hfree])
    (h.running k) rfl ?_ rfl
  simp only [popAll, h.queue]

theorem mirrors_handle (h : Mirrors s ts) (hshape : Shape s) {k n : Nat}
    {rest : List Nat} (hhead : s.batch.getD k [] = n :: rest)
    (htq : s'.w.tq = s.w.tq) (hbatch : s'.batch = s.batch.set k rest)
    (hdispatched : s'.w.trace.dispatched = s.w.trace.dispatched) :
    exists ts', Tasks.step s.w.tq.length ts
        (Tasks.Label.act k Tasks.Act.handle) = some ts' ∧ Mirrors s' ts' := by
  have hk : k < s.batch.length := length_of_getD_cons hhead
  obtain ⟨d, ds, hds, hn, hrest⟩ : exists d ds, (ts.thread k).batch = d :: ds ∧
      d.node = n ∧ ds.map Dispatch.node = rest := by
    have hmap := (h.batch k).trans hhead
    rcases List.map_eq_cons_iff.mp hmap with ⟨d, ds, hds, hn, hrest⟩
    exact ⟨d, ds, hds, hn, hrest⟩
  refine mirrors_act h hk hshape
    (show (ts.thread k).step Tasks.Act.handle = some { ts.thread k with
        batch := ds, handled := (ts.thread k).handled ++ [d] } by
      simp [Tasks.Thread.step, hds, h.running k])
    (h.running k) ?_ ?_ hdispatched
  · rw [htq, h.queue, List.getD_eq_getElem?_getD]
    have hk' : k < s.w.tq.length := by
      rw [← hshape.batch]
      exact hk
    simp [hk']
  · rw [hbatch, hrest]

theorem mirrors_of_queues {a : Label} (h : Mirrors s ts) (hshape : Shape s)
    (hone : TakesOne s a) (hqueues : Queues s a s') :
    exists ts', Reaches (Tasks.step s.w.tq.length) Tasks.TakesOne ts ts' ∧
      Mirrors s' ts' := by
  cases hqueues with
  | same htq hbatch hdispatched =>
      refine ⟨ts, Reaches.refl ts, ?_, ?_, h.running, ?_⟩
      · rw [htq]
        exact h.queue
      · rw [hbatch]
        exact h.batch
      · rw [hdispatched]
        exact h.dispatched
  | dispatch d htq hbatch hdispatched =>
      obtain ⟨ts', hstep, hmirrors⟩ :=
        mirrors_dispatch h hshape d htq hbatch hdispatched
      exact ⟨ts', Reaches.single (a := Tasks.Label.dispatch d) trivial hstep,
        hmirrors⟩
  | popAll k hempty hk =>
      obtain ⟨ts', hstep, hmirrors⟩ := mirrors_popAll h hshape hempty hk
      refine ⟨ts', Reaches.single ?_ hstep, hmirrors⟩
      have hlength := congrArg List.length (h.queue k)
      rw [List.length_map] at hlength
      exact hlength.trans_le hone
  | handle k n rest hhead htq hbatch hdispatched =>
      obtain ⟨ts', hstep, hmirrors⟩ :=
        mirrors_handle h hshape hhead htq hbatch hdispatched
      exact ⟨ts', Reaches.single (a := Tasks.Label.act k Tasks.Act.handle)
        trivial hstep, hmirrors⟩

theorem tq_length_of_queues {a : Label} (h : Queues s a s') :
    s'.w.tq.length = s.w.tq.length := by
  cases h with
  | same htq _ _ => rw [htq]
  | dispatch d htq _ _ => rw [htq, List.length_modify]
  | popAll k _ _ => simp [popAll]
  | handle k n rest _ htq _ _ => rw [htq]

theorem Started.mirrors (h : Started s) : Mirrors s Tasks.Threads.new := by
  cases h with
  | up conf allocs mem fd env taskNum threadId w hnum hvalid hinit =>
      obtain ⟨inBuf, out, buff, ev, env', _, _, _, rfl⟩ := nnConnInit_up hinit
      have hnil : forall k, (List.replicate taskNum ([] : List Nat)).getD k [] =
          [] := by
        intro k
        rw [List.getD_eq_getElem?_getD, List.getElem?_replicate]
        split <;> rfl
      exact ⟨fun k => (hnil k).symm, fun k => (hnil k).symm, fun _ => rfl, rfl⟩

/-- Where `pop_all` takes one task at a time, the server handles the tasks of a
connection in the order in which it decoded them. -/
theorem mirrored_of_run (h : Started s) (hrun : Reaches step TakesOne s s') :
    exists ts, Mirrors s' ts ∧ Tasks.Ordered ts := by
  have hfollowed : Shape s' ∧ s'.w.tq.length = s.w.tq.length ∧ exists ts,
      Reaches (Tasks.step s.w.tq.length) Tasks.TakesOne Tasks.Threads.new ts ∧
        Mirrors s' ts := by
    refine hrun.invariant (fun t => Shape t ∧ t.w.tq.length = s.w.tq.length ∧
      exists ts, Reaches (Tasks.step s.w.tq.length) Tasks.TakesOne
        Tasks.Threads.new ts ∧ Mirrors t ts) ?_ ?_
    · rintro t a u ⟨hshape, hlength, ts, hreach, hmirrors⟩ hone hstep
      have hstepped := stepped_of_step hstep
      have hqueues := queues_of_stepped hstepped
      obtain ⟨ts', hreach', hmirrors'⟩ :=
        mirrors_of_queues hmirrors hshape hone hqueues
      rw [hlength] at hreach'
      exact ⟨shape_of_stepped hshape hstepped,
        (tq_length_of_queues hqueues).trans hlength, ts',
        hreach.trans hreach', hmirrors'⟩
    · exact ⟨h.shape, rfl, Tasks.Threads.new, Reaches.refl _, h.mirrors⟩
  obtain ⟨_, _, ts, hreach, hmirrors⟩ := hfollowed
  have hdispatched : Tasks.Dispatched s.w.tq.length ts :=
    hreach.invariant _ (fun _ _ _ => Tasks.dispatched_of_step)
      (Tasks.dispatched_new _)
  exact ⟨ts, hmirrors, hdispatched.ordered⟩

end Follow

end Server
end NgxEpoll
