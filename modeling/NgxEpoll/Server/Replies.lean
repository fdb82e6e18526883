import NgxEpoll.Server.Accounting

/-!
# Replies carry no data

`task_test` writes every task back with `data_len` zero, so that the nodes on
their way out have frames of one size.
-/

namespace NgxEpoll
namespace Server

open Foundation
open NgxEpoll.Core
open Common
open Request
open Relation

def replyPolicy : Policy where
  loses := True
  rejects := fun _ => True
  returns := fun _ t => t.dataLen = 0

structure Replies (l : Life) : Prop where
  balanced : l.places.Balanced
  back : forall n, n ∈ l.places.finished ∨ n ∈ l.places.out ->
    (l.task n).dataLen = 0

theorem release_dataLen (l : Life) (n m : Nat) :
    ((l.release n).task m).dataLen = (l.task m).dataLen := by
  unfold Life.release
  split
  · by_cases hm : m = n
    · subst hm
      simp
    · simp [Function.update_of_ne hm]
  · rfl

theorem replies_of_step {l l' : Life} (h : Replies l)
    (hstep : Life.Step replyPolicy l l') : Replies l' := by
  have hbal := Life.step_balanced h.balanced hstep
  have hupdate : forall {n} (t : TaskT) {m}, n ∈ l.places.busy ->
      m ∈ l.places.finished ∨ m ∈ l.places.out ->
        (Function.update l.task n t m).dataLen = 0 := by
    intro n t m hn hm
    obtain ⟨_, hfin, hout⟩ := h.balanced.busy_apart hn
    have hne : m ≠ n := by
      rintro rfl
      exact hm.elim hfin hout
    rw [Function.update_of_ne hne]
    exact h.back m hm
  cases hstep with
  | take n rest _ _ => exact ⟨hbal, h.back⟩
  | underflow _ _ => exact ⟨hbal, h.back⟩
  | unread n _ =>
      refine ⟨hbal, fun m hm => ?_⟩
      rw [release_dataLen]
      rw [Life.release_places] at hm
      exact h.back m hm
  | decode n t hn => exact ⟨hbal, fun m hm => hupdate t hn hm⟩
  | reject n rest _ _ =>
      refine ⟨hbal, fun m hm => ?_⟩
      exact (release_dataLen l n m).trans (h.back m hm)
  | lose n rest _ _ => exact ⟨hbal, h.back⟩
  | malloc block => exact ⟨hbal, h.back⟩
  | finish n rest t hbusy hreturns =>
      refine ⟨hbal, fun m hm => ?_⟩
      have hn : n ∈ l.places.busy := by
        rw [hbusy]
        exact Multiset.mem_cons_self n rest
      by_cases heq : m = n
      · subst heq
        simp only [Function.update_self]
        exact hreturns
      · refine hupdate t hn ?_
        exact hm.imp_left (fun hm => (Multiset.mem_cons.mp hm).resolve_left heq)
  | enqueue n rest hfin =>
      refine ⟨hbal, fun m hm => h.back m ?_⟩
      rw [hfin]
      rcases hm with hm | hm
      · exact Or.inl (Multiset.mem_cons_of_mem hm)
      · rcases Multiset.mem_cons.mp hm with rfl | hm
        · exact Or.inl (Multiset.mem_cons_self _ rest)
        · exact Or.inr hm
  | discard n rest hfin =>
      refine ⟨hbal, fun m hm => ?_⟩
      refine (release_dataLen l n m).trans (h.back m ?_)
      rw [hfin]
      exact hm.imp_left Multiset.mem_cons_of_mem
  | retire n rest hout =>
      refine ⟨hbal, fun m hm => ?_⟩
      refine (release_dataLen l n m).trans (h.back m ?_)
      rw [hout]
      exact hm.imp_right Multiset.mem_cons_of_mem

theorem taskTest_dataLen (t : TaskT) : (taskTest t).dataLen = 0 := by
  unfold taskTest
  split <;> rfl

theorem meets_replyPolicy {s : State} {a : Label} (h : Serves s a) :
    Meets replyPolicy s a := by
  cases a with
  | decodeIter => exact ⟨fun _ _ _ _ => trivial, fun _ _ _ => trivial⟩
  | handle k block result =>
      cases result with
      | none => exact fun _ _ _ => trivial
      | some t =>
          intro n rest hbatch
          have hresult := h.2 n rest hbatch
          unfold nnRpcServiceRun at hresult
          split at hresult
          · cases hresult
            exact taskTest_dataLen _
          · cases hresult
  | _ => trivial

/-- The facts about the nodes that every state of a served run has. -/
structure Served (s : State) : Prop where
  shape : Shape s
  replies : Replies s.life

theorem served_of_stepped {s s' : State} {a : Label} (h : Served s)
    (hserves : Serves s a) (hstepped : Stepped s a s') : Served s' :=
  ⟨shape_of_stepped h.shape hstepped,
    (life_of_stepped h.shape (meets_replyPolicy hserves) hstepped).invariant
      Replies (fun _ _ hl hstep => replies_of_step hl hstep) h.replies⟩

theorem Started.served {s : State} (h : Started s) : Served s := by
  refine ⟨h.shape, h.balanced, ?_⟩
  cases h with
  | up conf allocs mem fd env taskNum threadId w hnum hvalid hinit =>
      obtain ⟨inBuf, out, buff, ev, env', _, _, _, rfl⟩ := nnConnInit_up hinit
      intro n hn
      simp [State.life, World.life, start, Pc.held, bagOf_replicate,
        nnConnStarted, nnConnNew] at hn

theorem sendable_of_no_data {t : TaskT} (h : t.dataLen = 0) : t.Sendable := by
  refine ⟨by rw [h]; decide, ?_⟩
  rw [TaskT.frameSize, h]
  decide

theorem payloadApart_of_no_data {t : TaskT} (h : t.dataLen = 0) (b : Buffer) :
    PayloadApart b t := by
  refine Or.inl ?_
  rw [h]
  rfl

theorem outReady_of_replies {w : World} {busy finished : Multiset Nat}
    {malloced : List (BitVec 64)} (hwf : w.mc.out.Wf)
    (hsmall : w.mc.out.endPtr - w.mc.out.start < 2 ^ 31 ∨
      w.mc.out.pos = w.mc.out.start ∧ w.mc.out.last = w.mc.out.start ∧
        w.mc.out.endPtr - w.mc.out.start < 2 ^ 32)
    (hreplies : Replies (w.life busy finished malloced)) : OutReady w := by
  have hdata : forall n, n ∈ w.mc.outTask -> (w.mc.nodes n).dataLen = 0 :=
    fun n hn => hreplies.back n (Or.inr hn)
  refine ⟨hwf, hsmall, fun n hn => sendable_of_no_data (hdata n hn),
    fun n hn => payloadApart_of_no_data (hdata n hn) _, ?_⟩
  rw [← Multiset.coe_nodup, Multiset.nodup_iff_count_le_one]
  intro n
  have hle := hreplies.balanced.count_le n
  simp only [World.life] at hle
  omega

theorem replies_pushOut {w : World} {n : Nat} {busy finished : Multiset Nat}
    {malloced : List (BitVec 64)}
    (h : Replies (w.life busy (n ::ₘ finished) malloced)) :
    Replies ((pushOut w n).life busy finished malloced) := by
  have hstep := Life.Step.enqueue (p := replyPolicy)
    (w.life busy (n ::ₘ finished) malloced) n finished rfl
  convert replies_of_step h hstep using 1
  simp only [World.life, pushOut, coe_concat]

end Server
end NgxEpoll
