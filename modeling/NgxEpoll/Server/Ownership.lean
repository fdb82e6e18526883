import NgxEpoll.Server.Replies

/-!
# Who owns a task's data

`nn_conn_free_task` frees `task->data` whenever it is not null and `data_len`
is positive.  The pointers it frees come from `malloc` as long as no rejected
frame leaves such a pair of fields behind.
-/

namespace NgxEpoll
namespace Server

open Foundation
open NgxEpoll.Core
open Common
open Request
open Relation

/-- Rejected frames leave nothing to free, and handlers return null or a block
that came from `malloc`. -/
def ownPolicy : Policy where
  loses := True
  rejects := fun t => ¬ FreesData t
  returns := fun malloced t => t.data = 0 ∨ t.data ∈ malloced

/-- Free nodes have nothing to free, nodes on their way back own what they
have, and only blocks from `malloc` have been freed. -/
structure Owned (l : Life) : Prop where
  balanced : l.places.Balanced
  free : forall n, n ∈ l.places.free -> ¬ FreesData (l.task n)
  back : forall n, n ∈ l.places.finished ∨ n ∈ l.places.out ->
    FreesData (l.task n) -> (l.task n).data ∈ l.malloced
  freed : forall x, x ∈ l.freed -> x ∈ l.malloced

theorem release_of_not_freesData {l : Life} {n : Nat}
    (h : ¬ FreesData (l.task n)) : l.release n = l := by
  rw [Life.release, if_neg h]

theorem owned_update {l : Life} (h : Owned l) {n : Nat}
    (hn : n ∈ l.places.busy) (t : TaskT) :
    Owned { l with task := Function.update l.task n t } := by
  obtain ⟨hfree, hfin, hout⟩ := h.balanced.busy_apart hn
  refine ⟨h.balanced, ?_, ?_, h.freed⟩
  · intro m hm
    have hne : m ≠ n := fun heq => hfree (heq ▸ hm)
    simp only [Function.update_of_ne hne]
    exact h.free m hm
  · intro m hm
    have hne : m ≠ n := by
      rintro rfl
      exact hm.elim hfin hout
    simp only [Function.update_of_ne hne]
    exact h.back m hm

theorem owned_give {l : Life} {q : Places} {n : Nat}
    (hbal : (q.give n).Balanced)
    (hfree : forall m, m ∈ q.free -> ¬ FreesData (l.task m))
    (hback : forall m, m ∈ q.finished ∨ m ∈ q.out ->
      FreesData (l.task m) -> (l.task m).data ∈ l.malloced)
    (hfreed : forall x, x ∈ l.freed -> x ∈ l.malloced)
    (hown : FreesData (l.task n) -> (l.task n).data ∈ l.malloced) :
    Owned (l.give q n) := by
  have hapart : forall m, m ∈ q.finished ∨ m ∈ q.out -> m ≠ n := by
    rintro m hm rfl
    have hle := hbal.count_le m
    have hgiven : 1 ≤ (q.give m).free.count m :=
      Multiset.one_le_count_iff_mem.mpr (Multiset.mem_cons_self m q.free)
    rcases hm with hm | hm
    · have hin : 1 ≤ (q.give m).finished.count m :=
        Multiset.one_le_count_iff_mem.mpr hm
      omega
    · have hin : 1 ≤ (q.give m).out.count m :=
        Multiset.one_le_count_iff_mem.mpr hm
      omega
  by_cases hn : FreesData (l.task n)
  · have hrelease : l.release n =
        { l with
          task := Function.update l.task n { l.task n with data := 0 }
          freed := l.freed ++ [(l.task n).data] } := by
      rw [Life.release, if_pos hn]
    unfold Life.give
    rw [hrelease]
    refine ⟨hbal, ?_, ?_, ?_⟩
    · intro m hm
      rcases Multiset.mem_cons.mp hm with rfl | hm
      · simp [FreesData]
      · by_cases heq : m = n
        · subst heq
          simp [FreesData]
        · simp only [Function.update_of_ne heq]
          exact hfree m hm
    · intro m hm
      simp only [Function.update_of_ne (hapart m hm)]
      exact hback m hm
    · intro x hx
      rcases List.mem_append.mp hx with hx | hx
      · exact hfreed x hx
      · rw [List.mem_singleton.mp hx]
        exact hown hn
  · unfold Life.give
    rw [release_of_not_freesData hn]
    refine ⟨hbal, ?_, hback, hfreed⟩
    intro m hm
    rcases Multiset.mem_cons.mp hm with rfl | hm
    · exact hn
    · exact hfree m hm

theorem owned_of_step {l l' : Life} (h : Owned l)
    (hstep : Life.Step ownPolicy l l') : Owned l' := by
  have hbal := Life.step_balanced h.balanced hstep
  cases hstep with
  | take n rest _ hfree =>
      refine ⟨hbal, fun m hm => h.free m ?_, h.back, h.freed⟩
      rw [hfree]
      exact Multiset.mem_cons_of_mem hm
  | underflow _ _ => exact ⟨hbal, h.free, h.back, h.freed⟩
  | unread n hn =>
      rw [release_of_not_freesData (h.free n hn)]
      exact h
  | decode n t hn => exact owned_update h hn t
  | reject n rest hbusy hrejects =>
      exact owned_give hbal h.free h.back h.freed
        (fun hn => absurd hn hrejects)
  | lose n rest _ _ => exact ⟨hbal, h.free, h.back, h.freed⟩
  | malloc block =>
      exact ⟨hbal, h.free,
        fun m hm hdata => List.mem_cons_of_mem _ (h.back m hm hdata),
        fun x hx => List.mem_cons_of_mem _ (h.freed x hx)⟩
  | finish n rest t hbusy hreturns =>
      have hn : n ∈ l.places.busy := by
        rw [hbusy]
        exact Multiset.mem_cons_self n rest
      have hupdate := owned_update h hn t
      refine ⟨hbal, hupdate.free, ?_, h.freed⟩
      intro m hm hdata
      by_cases heq : m = n
      · subst heq
        simp only [Function.update_self] at hdata ⊢
        exact hreturns.resolve_left hdata.1
      · refine hupdate.back m ?_ hdata
        rcases hm with hm | hm
        · exact Or.inl ((Multiset.mem_cons.mp hm).resolve_left heq)
        · exact Or.inr hm
  | enqueue n rest hfin =>
      refine ⟨hbal, h.free, fun m hm => h.back m ?_, h.freed⟩
      rw [hfin]
      rcases hm with hm | hm
      · exact Or.inl (Multiset.mem_cons_of_mem hm)
      · rcases Multiset.mem_cons.mp hm with rfl | hm
        · exact Or.inl (Multiset.mem_cons_self _ rest)
        · exact Or.inr hm
  | discard n rest hfin =>
      refine owned_give hbal h.free (fun m hm => h.back m ?_) h.freed
        (h.back n (Or.inl ?_))
      · rw [hfin]
        exact hm.imp_left Multiset.mem_cons_of_mem
      · rw [hfin]
        exact Multiset.mem_cons_self n rest
  | retire n rest hout =>
      refine owned_give hbal h.free (fun m hm => h.back m ?_) h.freed
        (h.back n (Or.inr ?_))
      · rw [hout]
        exact hm.imp_right Multiset.mem_cons_of_mem
      · rw [hout]
        exact Multiset.mem_cons_self n rest

theorem Started.owned {s : State} (h : Started s) : Owned s.life := by
  have hbal := h.balanced
  cases h with
  | up conf allocs mem fd env taskNum threadId w hnum hvalid hinit =>
      obtain ⟨inBuf, out, buff, ev, env', _, _, _, rfl⟩ := nnConnInit_up hinit
      refine ⟨hbal, ?_, ?_, ?_⟩
      · intro n _ hdata
        exact hdata.1 rfl
      · intro n _ hdata
        exact absurd rfl hdata.1
      · intro x hx
        exact absurd hx List.not_mem_nil

/-- The handlers follow the convention of `task_test`: the `data` that they
write back is null or a block from `malloc`. -/
def KeepsConvention (s : State) : Label -> Prop
  | Label.handle _ block (some t) =>
      t.data = 0 ∨ t.data ∈ block.toList ++ s.malloced
  | _ => True

/-- No decode attempt that accepts a length word of -1 or -2 finds a struct
whose data would be freed. -/
def RejectsHarmless (s : State) : Label -> Prop
  | Label.decodeIter =>
      0 < bufferSize s.w.mc.inBuf ->
        loadInt s.w.mem s.w.mc.inBuf.pos ≤ cInt (bufferSize s.w.mc.inBuf) ->
        loadInt s.w.mem s.w.mc.inBuf.pos = -1 ∨
          loadInt s.w.mem s.w.mc.inBuf.pos = -2 ->
        forall t, ¬ FreesData (decodedTask s.w.mem s.w.mc.inBuf.pos t)
  | _ => True

theorem meets_ownPolicy {s : State} {a : Label} (hkeeps : KeepsConvention s a)
    (hharmless : RejectsHarmless s a) : Meets ownPolicy s a := by
  cases a with
  | decodeIter =>
      exact ⟨fun hsize hword hle => hharmless hsize hle hword,
        fun _ _ _ => trivial⟩
  | handle k block result =>
      cases result with
      | none => exact fun _ _ _ => trivial
      | some t => exact fun _ _ _ => hkeeps
  | _ => trivial

/-- In a run whose handlers keep the convention and whose rejected frames are
harmless, every pointer that was freed came from `malloc`. -/
theorem freed_malloced_of_run (s s' : State) (hstart : Started s)
    (hrun : Reaches step (fun t a => KeepsConvention t a ∧ RejectsHarmless t a)
      s s') :
    forall x, x ∈ s'.w.trace.freed -> x ∈ s'.malloced := by
  have hlife := (life_of_run (p := ownPolicy)
    (fun t a h => meets_ownPolicy h.1 h.2) hstart.shape hrun).2
  exact (hlife.invariant Owned (fun _ _ hl hstep => owned_of_step hl hstep)
    hstart.owned).freed

def blockResponse : TaskT :=
  { testTask with data := 20480, dataLen := 5 }

def blockFreed : State :=
  after step
    (after step testTaken [Label.handle 0 (some 20480) (some blockResponse)])
    [Label.popBack 0, Label.outIter]

theorem freed_malloced_blockFreed :
    blockFreed.w.trace.freed = [20480] ∧
      forall x, x ∈ blockFreed.w.trace.freed -> x ∈ blockFreed.malloced := by
  let ok : State -> Label -> Prop :=
    fun t a => KeepsConvention t a ∧ RejectsHarmless t a
  have hword : ¬ (loadInt testReceived.w.mem testReceived.w.mc.inBuf.pos = -1 ∨
      loadInt testReceived.w.mem testReceived.w.mc.inBuf.pos = -2) := by
    decide +kernel
  have hempty : ¬ 0 < bufferSize testDispatched.w.mc.inBuf := by decide +kernel
  have htaken : Reaches step ok smallStart testTaken :=
    testTaken_reached ⟨trivial, trivial⟩ ⟨trivial, trivial⟩
      ⟨trivial, trivial⟩ ⟨trivial, trivial⟩
      ⟨trivial, fun _ _ h => absurd h hword⟩
      ⟨trivial, fun hsize => absurd hsize hempty⟩
  have hok : ok testTaken
      (Label.handle 0 (some 20480) (some blockResponse)) :=
    ⟨Or.inr (List.mem_append_left _ (List.mem_singleton.mpr rfl)), trivial⟩
  have hfreed : Reaches step ok smallStart blockFreed := by
    apply (htaken.oneLabel hok (by decide +kernel)).labels
    · intro a ha r
      simp only [List.mem_cons, List.not_mem_nil, or_false] at ha
      rcases ha with rfl | rfl <;> exact ⟨trivial, trivial⟩
    · decide +kernel
  exact ⟨by decide +kernel,
    freed_malloced_of_run smallStart blockFreed smallStart_started hfreed⟩

/-- A length word of -1 and a struct with a pointer of the sender's choice. -/
def wildFrame : List Byte :=
  leBytes 4 4294967295 ++
    ({ taskNew with data := 1094795585, dataLen := 5 } : TaskT).image ++
    leBytes 4 0

def wildFreed : State :=
  after step smallStart (receive wildFrame ++ [Label.decodeIter])

theorem freed_malloced_wildFrame_fails :
    Started smallStart ∧
      Reaches step KeepsConvention smallStart wildFreed ∧
      1094795585 ∈ wildFreed.w.trace.freed ∧
      1094795585 ∉ wildFreed.malloced := by
  refine ⟨smallStart_started, ?_, by decide +kernel, by decide +kernel⟩
  apply (Reaches.refl smallStart).labels
  · intro a ha r
    simp only [receive, List.cons_append, List.nil_append, List.mem_cons,
      List.not_mem_nil, or_false] at ha
    rcases ha with rfl | rfl | rfl | rfl | rfl <;> trivial
  · decide +kernel

end Server
end NgxEpoll
