import NgxEpoll.Request.OutStream

/-!
# Handing responses to a connection

Sequences of `nn_conn_outtask` and write handler calls.  Between the calls the
kernel may change the state of the write event and the results of `send`, and
other threads prepare the next response in memory.
-/

namespace NgxEpoll
namespace Request

open Foundation
open NgxEpoll.Core
open Common
open Relation

structure Outbox where
  w : World
  handed : List Byte

inductive OutLabel where
  | hand (n : Nat) (t : TaskT) (mem : Mem)
  | write
  | kernel (env : Env) (ev : Event)

def prepare (w : World) (n : Nat) (t : TaskT) (mem : Mem) : World :=
  { w with
    mem := mem
    mc := { w.mc with nodes := Function.update w.mc.nodes n t } }

def outStep (s : Outbox) : OutLabel -> Option Outbox
  | OutLabel.hand n t mem =>
      if s.w.hung = false ∧ s.w.mc.state = ConnState.connected ∧
          n ∉ s.w.mc.outTask then
        some
          { w := (nnConnOuttask (prepare s.w n t mem) n).2
            handed := s.handed ++ taskEncoding mem t }
      else none
  | OutLabel.write =>
      if s.w.hung = false then some { s with w := nnConnWriteHandler s.w }
      else none
  | OutLabel.kernel env ev =>
      some { s with w := { s.w with env := env, c := { s.w.c with write := ev } } }

inductive Opened : Outbox -> Prop where
  | up (conf : ConfServer) (allocs : Allocs) (mem : Mem) (fd : Int)
      (tq : List (List Nat)) (env : Env) (w : World) :
      allocs.Valid conf ->
      nnConnInit conf allocs (worldNew mem fd tq env) = (true, w) ->
      Opened { w := w, handed := [] }

/-- A response has a `data_len` that is not negative and a payload outside the
output buffer, and preparing it left that buffer and the queued payloads
alone. -/
def Prepared (s : Outbox) : OutLabel -> Prop
  | OutLabel.hand _ t mem =>
      0 ≤ t.dataLen.toInt ∧ PayloadApart s.w.mc.out t ∧
        AgreeOn mem s.w.mem s.w.mc.out.start
          (s.w.mc.out.endPtr - s.w.mc.out.start) ∧
        forall m, m ∈ s.w.mc.outTask ->
          AgreeOn mem s.w.mem (s.w.mc.nodes m).data.toNat
            (s.w.mc.nodes m).dataLen.toInt.toNat
  | _ => True

/-- The sum of the sizes that `task_encode2str` computes does not overflow. -/
def SizeInRange (_ : Outbox) : OutLabel -> Prop
  | OutLabel.hand _ t _ => t.dataLen.toInt ≤ 2147483303
  | _ => True

/-- The calls return, and while the connection is up, the bytes sent, the bytes
pending and the encodings of the queued tasks are what was handed over. -/
def Whole (s : Outbox) : Prop :=
  s.w.hung = false ∧
    (s.w.mc.state = ConnState.connected ->
      s.w.trace.sent ++ (s.w.mc.out.content s.w.mem ++
        s.w.mc.outTask.flatMap
          (fun n => taskEncoding s.w.mem (s.w.mc.nodes n))) = s.handed)

structure OutInv (s : Outbox) : Prop where
  hung : s.w.hung = false
  ready : OutReady s.w
  stream : s.w.mc.state = ConnState.connected -> streamOf s.w = s.handed

theorem OutInv.whole {s : Outbox} (h : OutInv s) : Whole s := by
  refine ⟨h.hung, fun hconn => ?_⟩
  rw [← h.stream hconn, streamOf, framesOf, List.flatMap_map]
  congr 2
  apply List.flatMap_congr
  intro n hn
  exact taskEncoding_eq (h.ready.sendable n hn)

theorem pushOut_ready {s : Outbox} {n : Nat} {t : TaskT} {mem : Mem}
    (h : OutInv s) (hfresh : n ∉ s.w.mc.outTask)
    (hprepared : Prepared s (OutLabel.hand n t mem)) (hsend : t.Sendable) :
    OutReady (pushOut (prepare s.w n t mem) n) ∧
      streamOf (pushOut (prepare s.w n t mem) n) =
        streamOf s.w ++ taskFrame t (t.payload mem) := by
  obtain ⟨_, hapart, hbuffer, hqueued⟩ := hprepared
  have hold : forall m, m ∈ s.w.mc.outTask ->
      (prepare s.w n t mem).mc.nodes m = s.w.mc.nodes m := by
    intro m hm
    have hne : m ≠ n := fun heq => hfresh (heq ▸ hm)
    exact Function.update_of_ne hne _ _
  have hnew : (prepare s.w n t mem).mc.nodes n = t :=
    Function.update_self _ _ _
  have hmem : forall {m}, m ∈ s.w.mc.outTask ++ [n] ->
      m ∈ s.w.mc.outTask ∨ m = n := by
    intro m hm
    simpa using hm
  obtain ⟨hwf, hsmall, hsendable, hclear, hnodup⟩ := h.ready
  refine ⟨⟨hwf, hsmall, ?_, ?_, ?_⟩, ?_⟩
  · intro m hm
    change ((prepare s.w n t mem).mc.nodes m).Sendable
    rcases hmem hm with hm | rfl
    · rw [hold m hm]
      exact hsendable m hm
    · rw [hnew]
      exact hsend
  · intro m hm
    change PayloadApart s.w.mc.out ((prepare s.w n t mem).mc.nodes m)
    rcases hmem hm with hm | rfl
    · rw [hold m hm]
      exact hclear m hm
    · rw [hnew]
      exact hapart
  · exact List.nodup_append.mpr ⟨hnodup, List.nodup_singleton n,
      fun a ha b hb heq =>
        hfresh (by rw [← List.mem_singleton.mp hb, ← heq]; exact ha)⟩
  · have hcontent : s.w.mc.out.content mem = s.w.mc.out.content s.w.mem := by
      refine (load_eq_iff_agreeOn _ _ _ _).mpr (hbuffer.mono ?_ ?_)
      · exact hwf.start_le_pos
      · have := hwf.start_le_pos
        have := hwf.pos_le_last
        have := hwf.last_le_end
        omega
    have hframes : framesOf mem (s.w.mc.outTask.map s.w.mc.nodes) =
        framesOf s.w.mem (s.w.mc.outTask.map s.w.mc.nodes) := by
      apply framesOf_congr
      intro t' ht'
      obtain ⟨m, hm, rfl⟩ := List.mem_map.mp ht'
      exact (load_eq_iff_agreeOn _ _ _ _).mpr (hqueued m hm)
    have hmap : (s.w.mc.outTask ++ [n]).map (prepare s.w n t mem).mc.nodes =
        s.w.mc.outTask.map s.w.mc.nodes ++ [t] := by
      rw [List.map_append, List.map_congr_left hold, List.map_singleton, hnew]
    change s.w.trace.sent ++ (s.w.mc.out.content mem ++ framesOf mem
      ((s.w.mc.outTask ++ [n]).map (prepare s.w n t mem).mc.nodes)) = _
    rw [hmap, hcontent, framesOf_append, hframes, streamOf]
    simp

theorem outInv_of_step {s s' : Outbox} {a : OutLabel} (h : OutInv s)
    (hprepared : Prepared s a) (hsize : SizeInRange s a)
    (hstep : outStep s a = some s') : OutInv s' := by
  cases a with
  | hand n t mem =>
      simp only [outStep, Option.ite_none_right_eq_some,
        Option.some.injEq] at hstep
      obtain ⟨⟨hhung, hconn, hfresh⟩, rfl⟩ := hstep
      have hsend : t.Sendable := by
        refine ⟨hprepared.1, ?_⟩
        change t.dataLen.toInt ≤ 2147483303 at hsize
        simp only [TaskT.frameSize, headerSize, intSize, taskSize]
        omega
      obtain ⟨hready, hstream⟩ := pushOut_ready h hfresh hprepared hsend
      have hkept := outKept_of_moves hready
        (nnConnOuttask_moves (w := prepare s.w n t mem) n hconn)
      refine ⟨hkept.hung.trans hhung, hkept.ready, fun hup => ?_⟩
      rw [(hkept.stream hup).2, hstream, h.stream hconn, taskEncoding_eq hsend]
  | write =>
      simp only [outStep, Option.ite_none_right_eq_some,
        Option.some.injEq] at hstep
      obtain ⟨hhung, rfl⟩ := hstep
      have hkept := outKept_of_moves h.ready (nnConnWriteHandler_moves s.w)
      refine ⟨hkept.hung.trans h.hung, hkept.ready, fun hconn => ?_⟩
      obtain ⟨hbefore, heq⟩ := hkept.stream hconn
      exact heq.trans (h.stream hbefore)
  | kernel env ev =>
      simp only [outStep, Option.some.injEq] at hstep
      subst hstep
      obtain ⟨hhung, ⟨hwf, hsmall, hsend, hapart, hnodup⟩, hstream⟩ := h
      exact ⟨hhung, ⟨hwf, hsmall, hsend, hapart, hnodup⟩, hstream⟩

theorem Opened.outInv {s : Outbox} (h : Opened s) : OutInv s := by
  cases h with
  | up conf allocs mem fd tq env w hvalid hinit =>
      obtain ⟨hready, hstream⟩ := nnConnInit_outReady hvalid hinit
      obtain ⟨inBuf, out, buff, ev, env', _, _, _, rfl⟩ := nnConnInit_up hinit
      exact ⟨rfl, hready, fun _ => hstream⟩

/-- In every run of calls with response sizes in range, every call returns and
no response byte is lost, duplicated or reordered. -/
theorem whole_of_run (s s' : Outbox) (hopen : Opened s)
    (hrun : Reaches outStep (fun t a => Prepared t a ∧ SizeInRange t a) s s') :
    Whole s' :=
  (hrun.invariant OutInv
    (fun _ _ _ hinv hok hstep => outInv_of_step hinv hok.1 hok.2 hstep)
    hopen.outInv).whole

def sevensOpened : Outbox where
  w := (nnConnInit smallConf smallAllocs
    (worldNew (fun _ => 7) 5 [[]] silentEnv)).2
  handed := []

theorem sevensOpened_opened : Opened sevensOpened :=
  Opened.up smallConf smallAllocs (fun _ => 7) 5 [[]] silentEnv _
    smallAllocs_valid (Prod.ext (by decide) rfl)

/-- The kernel takes a hundred bytes and then no more. -/
def hundredTaken : Outbox :=
  after outStep sevensOpened
    [OutLabel.kernel
      { silentEnv with sends := [SendResult.sent 100, SendResult.again] }
      { eventNew with ready := true }]

def threeHanded : Outbox :=
  after outStep hundredTaken
    [OutLabel.hand 0 threeByteTask (fun _ => 7)]

theorem whole_threeHanded :
    threeHanded.w.trace.sent.length = 100 ∧
      threeHanded.handed.length = 347 ∧ Whole threeHanded := by
  let ok : Outbox -> OutLabel -> Prop :=
    fun t a => Prepared t a ∧ SizeInRange t a
  have hkernel : Reaches outStep ok sevensOpened hundredTaken :=
    (Reaches.refl sevensOpened).oneLabel ⟨trivial, trivial⟩ (by decide +kernel)
  have hprepared : Prepared hundredTaken
      (OutLabel.hand 0 threeByteTask (fun _ => 7)) := by
    refine ⟨by decide, Or.inr (Or.inr (Or.inl (by decide +kernel))),
      fun _ _ _ => rfl, fun m hm => ?_⟩
    have hnone : hundredTaken.w.mc.outTask = [] := by decide +kernel
    rw [hnone] at hm
    cases hm
  have hsize : SizeInRange hundredTaken
      (OutLabel.hand 0 threeByteTask (fun _ => 7)) := by
    change threeByteTask.dataLen.toInt ≤ 2147483303
    decide
  have hrun : Reaches outStep ok sevensOpened threeHanded :=
    hkernel.oneLabel ⟨hprepared, hsize⟩ (by decide +kernel)
  exact ⟨by decide +kernel, by decide +kernel,
    whole_of_run sevensOpened threeHanded sevensOpened_opened hrun⟩

def hugeTask : TaskT :=
  { taskNew with data := 8589934592, dataLen := 2147483647 }

def hugeHanded : Outbox :=
  after outStep sevensOpened [OutLabel.hand 0 hugeTask (fun _ => 7)]

theorem whole_hugeTask_fails :
    Opened sevensOpened ∧ Reaches outStep Prepared sevensOpened hugeHanded ∧
      ¬ Whole hugeHanded := by
  refine ⟨sevensOpened_opened, ?_, ?_⟩
  · apply (Reaches.refl sevensOpened).oneLabel _ (by decide +kernel)
    refine ⟨by decide, Or.inr (Or.inr (Or.inr (by decide +kernel))),
      fun _ _ _ => rfl, fun m hm => ?_⟩
    have hnone : sevensOpened.w.mc.outTask = [] := by decide +kernel
    rw [hnone] at hm
    cases hm
  · rintro ⟨hhung, _⟩
    exact absurd hhung (by decide +kernel)

end Request
end NgxEpoll
