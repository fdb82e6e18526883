import NgxEpoll.Tasks.Order

/-!
# Waking a task thread

`dispatch_task` pushes a task and writes a byte to the pipe of the thread's
`tq_notice`.  The thread reads the pipe until it is empty and then takes the
whole queue.  Producers and the thread are interleaved between any two of their
calls.
-/

namespace NgxEpoll
namespace Tasks

open Foundation

/-- Where `thread_task_cycle` is.  `opened` is inside `notice_init`, after
`pipe_open`; `reading` is the start of `noice_read_event_handler`, `draining`
its loop after a read that returned bytes, and `drained` the way from there to
`pop_all`. -/
inductive Pc where
  | starting
  | registered
  | opened
  | polling
  | reading
  | draining
  | drained
  | handling
  | exited
deriving DecidableEq

/-- A task thread with its notice.  `channel` is the number of unread bytes in
the pipe, or `none` while `n->channel` designates no pipe, and `between` the
number of producers between `push_task` and `notice_wake_up`. -/
structure Notice (α : Type) where
  th : Thread α
  pc : Pc
  channel : Option Nat
  between : Nat

inductive ReadResult where
  | data (k : Nat)
  | again
  | intr
  | error

inductive NoticeLabel (α : Type) where
  | push (t : α)
  | wakeUp
  | register
  | pipeOpen (ok : Bool)
  | addEvent (ok : Bool)
  | event
  | read (r : ReadResult)
  | popAll
  | handle
  | leave
  | stop
  | exit

variable {α : Type}

/-- The thread before its first instruction: `create_task_thread` has zeroed it
and initialised its queue. -/
def Notice.new (α : Type) : Notice α where
  th := Thread.new α
  pc := Pc.starting
  channel := none
  between := 0

def noticeBuffSize : Nat := 1024

/-- `write` of one byte to a pipe that holds at most `size` bytes; a full pipe
answers `EAGAIN`.  Without a pipe the byte goes elsewhere. -/
def writeFd (size : Nat) : Option Nat -> Option Nat
  | none => none
  | some bytes => if bytes < size then some (bytes + 1) else some bytes

def readTurn (s : Notice α) (bytes : Nat) : ReadResult -> Option (Notice α)
  | ReadResult.data k =>
      if 0 < k ∧ k ≤ bytes ∧ k ≤ noticeBuffSize then
        some { s with channel := some (bytes - k), pc := Pc.draining }
      else none
  | ReadResult.again =>
      if bytes = 0 then some { s with pc := Pc.drained } else none
  | ReadResult.intr => some s
  | ReadResult.error => some { s with pc := Pc.drained }

def noticeStep (size : Nat) (s : Notice α) : NoticeLabel α -> Option (Notice α)
  | NoticeLabel.push t => some { s with th := s.th.push t, between := s.between + 1 }
  | NoticeLabel.wakeUp =>
      if 0 < s.between then
        some { s with channel := writeFd size s.channel, between := s.between - 1 }
      else none
  | NoticeLabel.register =>
      if s.pc = Pc.starting then some { s with pc := Pc.registered } else none
  | NoticeLabel.pipeOpen ok =>
      if s.pc = Pc.registered then
        if ok then some { s with pc := Pc.opened, channel := some 0 }
        else some { s with pc := Pc.polling }
      else none
  | NoticeLabel.addEvent ok =>
      if s.pc = Pc.opened then
        if ok then some { s with pc := Pc.polling }
        else some { s with pc := Pc.polling, channel := none }
      else none
  | NoticeLabel.event =>
      match s.channel with
      | some (_ + 1) =>
          if s.pc = Pc.polling then some { s with pc := Pc.reading } else none
      | _ => none
  | NoticeLabel.read r =>
      match s.channel with
      | some bytes =>
          if s.pc = Pc.reading ∨ s.pc = Pc.draining then readTurn s bytes r
          else none
      | none => none
  | NoticeLabel.popAll =>
      if s.pc = Pc.drained then
        match s.th.step Act.popAll with
        | some th => some { s with th := th, pc := Pc.handling }
        | none => none
      else none
  | NoticeLabel.handle =>
      if s.pc = Pc.handling then
        match s.th.step Act.handle with
        | some th => some { s with th := th }
        | none => none
      else none
  | NoticeLabel.leave =>
      if s.pc = Pc.handling ∧ (s.th.batch.isEmpty || !s.th.running) then
        some { s with pc := Pc.polling }
      else none
  | NoticeLabel.stop => some { s with th := { s.th with running := false } }
  | NoticeLabel.exit =>
      if s.pc = Pc.polling ∧ s.th.running = false then
        some { s with pc := Pc.exited }
      else none

/-- No wake-up is lost: once the thread has registered, a queued task whose
producer is done has a byte in the pipe, unless the thread is on its way from
draining the pipe to `pop_all`. -/
def Woken (s : Notice α) : Prop :=
  s.pc ≠ Pc.starting -> s.th.queue ≠ [] -> s.between = 0 ->
    s.pc ≠ Pc.draining -> s.pc ≠ Pc.drained ->
    exists bytes, s.channel = some bytes ∧ 0 < bytes

/-- `notice_wake_up` finds the pipe of the thread open, and `notice_init` does
not close a pipe into which a byte was written. -/
def PipeOpen (s : Notice α) : NoticeLabel α -> Prop
  | NoticeLabel.wakeUp => s.channel.isSome = true
  | NoticeLabel.addEvent false => s.channel = some 0
  | _ => True

/-- A queued task is announced, or will be, or is about to be taken. -/
def Announced (s : Notice α) : Prop :=
  s.th.queue = [] ∨ 0 < s.between ∨ (exists bytes, s.channel = some (bytes + 1)) ∨
    s.pc = Pc.draining ∨ s.pc = Pc.drained

/-!
## Every step keeps a queued task announced
-/

theorem Announced.woken {s : Notice α} (h : Announced s) : Woken s := by
  intro _ hqueue hbetween hdraining hdrained
  rcases h with hempty | hpending | ⟨bytes, hbytes⟩ | hpc | hpc
  · exact absurd hempty hqueue
  · omega
  · exact ⟨bytes + 1, hbytes, Nat.succ_pos bytes⟩
  · exact absurd hpc hdraining
  · exact absurd hpc hdrained

theorem writeFd_pos {size bytes : Nat} (hsize : 0 < size) :
    exists bytes', writeFd size (some bytes) = some (bytes' + 1) := by
  unfold writeFd
  by_cases hroom : bytes < size
  · exact ⟨bytes, if_pos hroom⟩
  · obtain ⟨bytes', rfl⟩ : exists bytes', bytes = bytes' + 1 :=
      ⟨bytes - 1, by omega⟩
    exact ⟨bytes', if_neg hroom⟩

theorem readTurn_cases {s s' : Notice α} {bytes : Nat} {r : ReadResult}
    (hread : readTurn s bytes r = some s') :
    s' = s ∨ s'.pc = Pc.draining ∨ s'.pc = Pc.drained := by
  cases r with
  | data k =>
      simp only [readTurn, Option.ite_none_right_eq_some, Option.some.injEq] at hread
      obtain ⟨_, rfl⟩ := hread
      exact Or.inr (Or.inl rfl)
  | again =>
      simp only [readTurn, Option.ite_none_right_eq_some, Option.some.injEq] at hread
      obtain ⟨_, rfl⟩ := hread
      exact Or.inr (Or.inr rfl)
  | intr =>
      cases hread
      exact Or.inl rfl
  | error =>
      cases hread
      exact Or.inr (Or.inr rfl)

theorem Announced.goes {s : Notice α} (h : Announced s)
    (hdraining : s.pc ≠ Pc.draining) (hdrained : s.pc ≠ Pc.drained) (pc : Pc) :
    Announced { s with pc := pc } := by
  rcases h with hempty | hpending | hbytes | hpc | hpc
  · exact Or.inl hempty
  · exact Or.inr (Or.inl hpending)
  · exact Or.inr (Or.inr (Or.inl hbytes))
  · exact absurd hpc hdraining
  · exact absurd hpc hdrained

theorem Announced.silent {s : Notice α} (h : Announced s)
    (hsilent : s.channel = none ∨ s.channel = some 0) (channel : Option Nat) :
    Announced { s with channel := channel } := by
  rcases h with hempty | hpending | ⟨bytes, hbytes⟩ | hpc | hpc
  · exact Or.inl hempty
  · exact Or.inr (Or.inl hpending)
  · rcases hsilent with hnone | hzero
    · rw [hnone] at hbytes
      cases hbytes
    · rw [hzero] at hbytes
      cases hbytes
  · exact Or.inr (Or.inr (Or.inr (Or.inl hpc)))
  · exact Or.inr (Or.inr (Or.inr (Or.inr hpc)))

structure Waking (s : Notice α) : Prop where
  announced : Announced s
  unopened : s.pc = Pc.starting ∨ s.pc = Pc.registered -> s.channel = none

theorem waking_of_step {size : Nat} (hsize : 0 < size) {s s' : Notice α}
    {a : NoticeLabel α} (h : Waking s) (hopen : PipeOpen s a)
    (hstep : noticeStep size s a = some s') : Waking s' := by
  cases a with
  | push t =>
      cases hstep
      exact ⟨Or.inr (Or.inl (Nat.succ_pos _)), h.unopened⟩
  | wakeUp =>
      simp only [noticeStep, Option.ite_none_right_eq_some,
        Option.some.injEq] at hstep
      obtain ⟨_, rfl⟩ := hstep
      obtain ⟨bytes, hbytes⟩ := Option.isSome_iff_exists.mp hopen
      constructor
      · rw [hbytes]
        exact Or.inr (Or.inr (Or.inl (writeFd_pos hsize)))
      · intro hpc
        rw [h.unopened hpc]
        rfl
  | register =>
      simp only [noticeStep, Option.ite_none_right_eq_some,
        Option.some.injEq] at hstep
      obtain ⟨hpc, rfl⟩ := hstep
      exact ⟨h.announced.goes (by simp [hpc]) (by simp [hpc]) _,
        fun _ => h.unopened (Or.inl hpc)⟩
  | pipeOpen ok =>
      simp only [noticeStep, Option.ite_none_right_eq_some] at hstep
      obtain ⟨hpc, hstep⟩ := hstep
      have hgoes := h.announced.goes (by simp [hpc]) (by simp [hpc])
      have hnone := h.unopened (Or.inr hpc)
      cases ok with
      | true =>
          cases hstep
          exact ⟨(hgoes Pc.opened).silent (Or.inl hnone) _, by simp⟩
      | false =>
          cases hstep
          exact ⟨hgoes Pc.polling, by simp⟩
  | addEvent ok =>
      simp only [noticeStep, Option.ite_none_right_eq_some] at hstep
      obtain ⟨hpc, hstep⟩ := hstep
      have hgoes := h.announced.goes (by simp [hpc]) (by simp [hpc])
      cases ok with
      | true =>
          cases hstep
          exact ⟨hgoes Pc.polling, by simp⟩
      | false =>
          cases hstep
          exact ⟨(hgoes Pc.polling).silent (Or.inr hopen) _, by simp⟩
  | event =>
      simp only [noticeStep] at hstep
      split at hstep
      · simp only [Option.ite_none_right_eq_some, Option.some.injEq] at hstep
        obtain ⟨hpc, rfl⟩ := hstep
        exact ⟨h.announced.goes (by simp [hpc]) (by simp [hpc]) _, by simp⟩
      · cases hstep
  | read r =>
      simp only [noticeStep] at hstep
      split at hstep
      · next bytes hbytes =>
        simp only [Option.ite_none_right_eq_some] at hstep
        obtain ⟨_, hread⟩ := hstep
        rcases readTurn_cases hread with rfl | hpc | hpc
        · exact h
        · exact ⟨Or.inr (Or.inr (Or.inr (Or.inl hpc))), by simp [hpc]⟩
        · exact ⟨Or.inr (Or.inr (Or.inr (Or.inr hpc))), by simp [hpc]⟩
      · cases hstep
  | popAll =>
      simp only [noticeStep, Option.ite_none_right_eq_some] at hstep
      obtain ⟨_, hstep⟩ := hstep
      split at hstep
      · next th hth =>
        cases hstep
        have hempty : th.queue = [] := by
          rcases Thread.step_cases hth with
            ⟨_, _, ha, _⟩ | ⟨_, _, rfl⟩ | ⟨_, _, ha, _⟩ | ⟨ha, _⟩
          · cases ha
          · rfl
          · cases ha
          · cases ha
        exact ⟨Or.inl hempty, by simp⟩
      · cases hstep
  | handle =>
      simp only [noticeStep, Option.ite_none_right_eq_some] at hstep
      obtain ⟨hpc, hstep⟩ := hstep
      split at hstep
      · next th hth =>
        cases hstep
        have hqueue : th.queue = s.th.queue := by
          rcases Thread.step_cases hth with
            ⟨_, _, ha, _⟩ | ⟨ha, _⟩ | ⟨_, _, _, _, _, rfl⟩ | ⟨ha, _⟩
          · cases ha
          · cases ha
          · rfl
          · cases ha
        have hannounced := h.announced
        rw [Announced, ← hqueue] at hannounced
        exact ⟨hannounced, h.unopened⟩
      · cases hstep
  | leave =>
      simp only [noticeStep, Option.ite_none_right_eq_some,
        Option.some.injEq] at hstep
      obtain ⟨⟨hpc, _⟩, rfl⟩ := hstep
      exact ⟨h.announced.goes (by simp [hpc]) (by simp [hpc]) _, by simp⟩
  | stop =>
      cases hstep
      exact ⟨h.announced, h.unopened⟩
  | exit =>
      simp only [noticeStep, Option.ite_none_right_eq_some,
        Option.some.injEq] at hstep
      obtain ⟨⟨hpc, _⟩, rfl⟩ := hstep
      exact ⟨h.announced.goes (by simp [hpc]) (by simp [hpc]) _, by simp⟩

/-- In a run in which every wake-up finds the pipe open, none is lost, whether
or not the pipe is full. -/
theorem woken_of_run {size : Nat} (hsize : 0 < size) {s : Notice α}
    (hrun : Reaches (noticeStep size) PipeOpen (Notice.new α) s) : Woken s := by
  have hwaking : Waking s :=
    hrun.invariant Waking (fun _ _ _ => waking_of_step hsize)
      ⟨Or.inl rfl, fun _ => rfl⟩
  exact hwaking.announced.woken

def announcedLate : List (NoticeLabel Nat) :=
  [NoticeLabel.register, NoticeLabel.pipeOpen true, NoticeLabel.addEvent true,
    NoticeLabel.push 1]

theorem woken_announcedLate :
    0 < 65536 ∧
      Reaches (noticeStep 65536) PipeOpen (Notice.new Nat)
        (after (noticeStep 65536) (Notice.new Nat)
          (announcedLate ++ [NoticeLabel.wakeUp])) ∧
      Woken (after (noticeStep 65536) (Notice.new Nat)
        (announcedLate ++ [NoticeLabel.wakeUp])) := by
  have hpushed : Reaches (noticeStep 65536) PipeOpen (Notice.new Nat)
      (after (noticeStep 65536) (Notice.new Nat) announcedLate) := by
    apply (Reaches.refl _).labels
    · intro a ha r
      simp only [announcedLate, List.mem_cons, List.not_mem_nil, or_false] at ha
      rcases ha with rfl | rfl | rfl | rfl <;> trivial
    · decide
  have hrun : Reaches (noticeStep 65536) PipeOpen (Notice.new Nat)
      (after (noticeStep 65536) (Notice.new Nat)
        (announcedLate ++ [NoticeLabel.wakeUp])) :=
    hpushed.oneLabel (a := NoticeLabel.wakeUp) rfl (by decide)
  exact ⟨by decide, hrun, woken_of_run (by decide) hrun⟩

/-- A task is dispatched and announced when the thread has registered and not
opened its pipe yet. -/
def announcedEarly : List (NoticeLabel Nat) :=
  [NoticeLabel.register, NoticeLabel.push 1, NoticeLabel.wakeUp,
    NoticeLabel.pipeOpen true, NoticeLabel.addEvent true]

theorem woken_announcedEarly_fails :
    Reaches (noticeStep 65536) Always (Notice.new Nat)
        (after (noticeStep 65536) (Notice.new Nat) announcedEarly) ∧
      (after (noticeStep 65536) (Notice.new Nat) announcedEarly).pc =
        Pc.polling ∧
      ¬ Woken (after (noticeStep 65536) (Notice.new Nat) announcedEarly) := by
  refine ⟨?_, rfl, ?_⟩
  · apply (Reaches.refl _).labels
    · exact fun _ _ _ => trivial
    · decide
  · intro hwoken
    obtain ⟨bytes, hbytes, hpos⟩ := hwoken (by decide) (by decide) (by decide)
      (by decide) (by decide)
    have hzero : (after (noticeStep 65536) (Notice.new Nat)
        announcedEarly).channel = some 0 := rfl
    rw [hzero] at hbytes
    cases hbytes
    exact absurd hpos (Nat.lt_irrefl 0)

end Tasks
end NgxEpoll
