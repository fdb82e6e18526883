import NgxEpoll.Foundation.Runs
import NgxEpoll.Output.Handing

/-!
# Sending a chain over several calls

`chain_output` is called with a chain, and again whenever the write event is ready.
What the kernel got and what is left make up the chain, unless an empty memory
buffer stands before a file buffer: there `sysio_writev_chain` packs nothing and
drops the rest.
-/

namespace NgxEpoll
namespace Output

open Foundation
open NgxEpoll.Core

variable {w w' : World} {cl : List Buffer}

/-- What a call of `chain_output` has done with the chain `cl`. -/
inductive Answered (w : World) (cl : List Buffer) (r : Int × World) : Prop where
  | error (code : r.1 = ngxError) (scarce : ¬ Plenty w cl)
  | handed (handed : Handed w cl r.2 r.2.out)
      (code : r.1 = ngxOk ∧ content w.mem w.file r.2.out = [] ∨
        r.1 = ngxAgain ∧ r.2.ready = false)
  | dropped (rest : List Buffer) (code : r.1 = ngxOk) (out : r.2.out = [])
      (handed : Handed w cl r.2 rest) (lost : content w.mem w.file rest ≠ [])
      (clean : ¬ Clean rest)

def OutputInv (w : World) (cl : List Buffer) (v : World) : Prop :=
  Handed w cl v v.out ∨ v.out = [] ∧ exists rest, Handed w cl v rest ∧
    content w.mem w.file rest ≠ [] ∧ ¬ Clean rest

theorem Handed.setOut {cl' : List Buffer} (h : Handed w cl w' cl') (out : List Buffer) :
    Handed w cl { w' with out := out } cl' where
  mem := h.mem
  file := h.file
  wf := h.wf
  bytes := h.bytes
  clean := h.clean
  plenty := by
    intro hplenty
    have hold := h.plenty hplenty
    exact ⟨hold.ready, hold.allTake, hold.enough⟩
  results_le := h.results_le
  length_le := h.length_le

theorem sendChain_outcome (hwf : ChainWf w.out) (hready : w.ready = true)
    (hne : w.out ≠ []) (limit : Nat) : Outcome w w.out (sendChain w limit) := by
  unfold sendChain
  split
  · next hnil => exact absurd hnil hne
  · next b rest hout =>
    rw [hout] at hwf ⊢
    split
    · next hb => exact sysioWritevChain_outcome hwf hready ⟨b, rfl, hb⟩ limit
    · next hb =>
      exact sysioSendfileChain_outcome hwf hready ⟨b, rfl, Bool.eq_false_iff.mpr hb⟩ limit

theorem OutputInv.turn {v : World} {limit : Nat} (h : OutputInv w cl v) :
    (chainOutputTurn limit v).Meets
      (fun v' => OutputInv w cl v' ∧ chainMeasure v' v'.out < chainMeasure v v.out)
      (Answered w cl) := by
  unfold chainOutputTurn
  split
  · next hgo =>
    have hhanded : Handed w cl v v.out := by
      cases h with
      | inl hhanded => exact hhanded
      | inr hdropped => exact absurd hdropped.1 hgo.2
    have houtcome := sendChain_outcome hhanded.wf hgo.1 hgo.2 limit
    dsimp only
    cases houtcome with
    | error eq scarce =>
        rw [eq]
        exact Answered.error rfl (fun hplenty => scarce (hhanded.plenty hplenty))
    | handed cl' eq handed progress =>
        rw [eq]
        exact ⟨Or.inl ((hhanded.trans handed).setOut cl'), progress⟩
    | dropped rest eq handed lost clean progress =>
        rw [eq]
        rw [hhanded.mem, hhanded.file] at lost
        exact ⟨Or.inr ⟨rfl, rest, (hhanded.trans handed).setOut [], lost, clean⟩, progress⟩
  · next hstop =>
    cases h with
    | inl hhanded =>
        apply Answered.handed hhanded
        dsimp only
        split
        · next hnil =>
          left
          rw [hnil]
          exact ⟨rfl, rfl⟩
        · next hne =>
          right
          constructor
          · rfl
          · rw [Bool.eq_false_iff]
            exact fun hready => hstop ⟨hready, hne⟩
    | inr hdropped =>
        obtain ⟨hnil, rest, hhanded, hlost, hclean⟩ := hdropped
        refine Answered.dropped rest ?_ hnil hhanded hlost hclean
        exact if_pos hnil

theorem chainOutput_answered {given : List Buffer} (hwf : ChainWf (w.out ++ given))
    (limit : Nat) : Answered w (w.out ++ given) (chainOutput w given limit) := by
  have hstart : Handed w (w.out ++ given) { w with out := w.out ++ given }
      (w.out ++ given) := (Handed.refl hwf).setOut _
  unfold chainOutput
  dsimp only
  split
  · next hempty =>
    apply Answered.handed hstart
    left
    exact ⟨rfl, chainEmpty_iff.mp hempty⟩
  · exact loop_meets _ (Answered w (w.out ++ given)) (fun v hv => OutputInv.turn hv)
      (Or.inl hstart)

/-!
## Runs
-/

/-- The calls so far: the context and the connection, the chain that the next call
hands over, and the last result. -/
structure Calls where
  w : World
  given : List Buffer
  code : Int

/-- Between two calls the write event may become ready, and the kernel has new
answers. -/
structure Label where
  ready : Bool
  results : List SysResult

def Calls.prepared (c : Calls) (l : Label) : World :=
  { c.w with ready := l.ready, results := l.results }

def step (c : Calls) (l : Label) : Option Calls :=
  let r := chainOutput (c.prepared l) c.given 0
  if r.1 = ngxError then none else some { w := r.2, given := [], code := r.1 }

def begin (m file : Mem) (cl : List Buffer) : Calls where
  w :=
    { mem := m
      file := file
      out := []
      ready := false
      cSent := 0
      results := []
      taken := [] }
  given := cl
  code := ngxAgain

/-- What was sent and what is left are the content of the chain, and `NGX_OK` means
that all of it was sent. -/
structure Conserves (m file : Mem) (cl : List Buffer) (c : Calls) : Prop where
  bytes : c.w.taken ++ content m file (c.w.out ++ c.given) = content m file cl
  all : c.code = ngxOk -> c.w.taken = content m file cl

variable {m file : Mem} {c c' : Calls}

/-- What holds between the calls while nothing is dropped. -/
structure Sound (m file : Mem) (cl : List Buffer) (c : Calls) : Prop where
  sameMem : c.w.mem = m
  sameFile : c.w.file = file
  wf : ChainWf (c.w.out ++ c.given)
  clean : Clean (c.w.out ++ c.given)
  conserves : Conserves m file cl c

theorem Sound.step {l : Label} (h : Sound m file cl c) (hstep : step c l = some c') :
    Sound m file cl c' := by
  unfold Output.step at hstep
  have hanswered := chainOutput_answered (w := c.prepared l) h.wf 0
  generalize chainOutput (c.prepared l) c.given 0 = r at hstep hanswered
  dsimp only at hstep
  split at hstep
  · cases hstep
  · next hcode =>
    cases hstep
    have hbytes0 := h.conserves.bytes
    cases hanswered with
    | error code scarce => exact absurd code hcode
    | dropped rest code out handed lost clean => exact absurd (handed.clean.mpr h.clean) clean
    | handed handed code =>
        have hmem : r.2.mem = m := handed.mem.trans h.sameMem
        have hfile : r.2.file = file := handed.file.trans h.sameFile
        have hbytes := handed.bytes
        dsimp only [Calls.prepared] at hbytes code
        rw [h.sameMem, h.sameFile] at hbytes code
        constructor
        · exact hmem
        · exact hfile
        · rw [List.append_nil]
          exact handed.wf
        · rw [List.append_nil]
          exact handed.clean.mpr h.clean
        · constructor
          · rw [List.append_nil, hbytes]
            exact hbytes0
          · intro hok
            cases code with
            | inl hdone =>
                rw [hdone.2, List.append_nil] at hbytes
                rw [hbytes]
                exact hbytes0
            | inr hagain => exact absurd (hagain.1.symm.trans hok) (by decide)

def takes (n : Nat) : Label where
  ready := true
  results := List.replicate (n + 1) (SysResult.sent 1)

theorem plenty_takes (hw : w.ready = true)
    (hresults : w.results = (takes (content w.mem w.file cl).length).results) :
    Plenty w cl := by
  constructor
  · exact hw
  · rw [hresults]
    intro r hr
    exact ⟨1, List.eq_of_mem_replicate hr, Nat.one_pos⟩
  · rw [hresults]
    unfold takes
    rw [List.length_replicate]
    exact Nat.lt_succ_self _

theorem exists_loss (hwf : ChainWf cl) (hclean : ¬ Clean cl) :
    exists c, Reaches step Always (begin m file cl) c ∧ ¬ Conserves m file cl c := by
  have hnonempty : content m file cl ≠ [] := fun hempty => hclean (clean_of_empty hempty)
  have hplenty : Plenty ((begin m file cl).prepared (takes (content m file cl).length)) cl :=
    plenty_takes rfl rfl
  have hanswered : Answered ((begin m file cl).prepared (takes (content m file cl).length))
      cl (chainOutput ((begin m file cl).prepared (takes (content m file cl).length)) cl 0) :=
    chainOutput_answered
      (w := (begin m file cl).prepared (takes (content m file cl).length)) hwf 0
  have hstep : step (begin m file cl) (takes (content m file cl).length) =
      if (chainOutput ((begin m file cl).prepared (takes (content m file cl).length))
        cl 0).1 = ngxError then none
      else some
        { w := (chainOutput ((begin m file cl).prepared
            (takes (content m file cl).length)) cl 0).2
          given := []
          code := (chainOutput ((begin m file cl).prepared
            (takes (content m file cl).length)) cl 0).1 } :=
    rfl
  generalize chainOutput ((begin m file cl).prepared (takes (content m file cl).length))
    cl 0 = r at hanswered hstep
  cases hanswered with
  | error code scarce => exact absurd hplenty scarce
  | handed handed code =>
      cases code with
      | inl hdone =>
          exact absurd (handed.clean.mp (clean_of_empty hdone.2)) hclean
      | inr hagain =>
          have hready := (handed.plenty hplenty).ready
          rw [hagain.2] at hready
          cases hready
  | dropped rest code out handed lost clean =>
      have hok : r.1 ≠ ngxError := by
        rw [code]
        decide
      rw [if_neg hok] at hstep
      refine ⟨_, Reaches.single trivial hstep, ?_⟩
      intro hconserves
      have hall : r.2.taken = content m file cl := hconserves.all code
      have hbytes : r.2.taken ++ content m file rest = content m file cl := handed.bytes
      rw [hall] at hbytes
      have hlen := congrArg List.length hbytes
      rw [List.length_append] at hlen
      apply lost
      apply List.eq_nil_of_length_eq_zero
      change (content m file rest).length = 0
      omega

/-- Over any number of calls, and whatever the kernel answers, no content of a chain is
lost, just when no empty memory buffer stands before a file buffer with content from
there on. -/
theorem chainOutput_conserves_iff (m file : Mem) (cl : List Buffer) (hwf : ChainWf cl) :
    (forall c, Reaches step Always (begin m file cl) c -> Conserves m file cl c) ↔
      Clean cl := by
  constructor
  · intro hall
    by_contra hclean
    have hloss : exists c, Reaches step Always (begin m file cl) c ∧
        ¬ Conserves m file cl c := exists_loss hwf hclean
    apply hloss.elim
    intro c hc
    exact hc.2 (hall c hc.1)
  · intro hclean c hrun
    have hstart : Sound m file cl (begin m file cl) := by
      constructor
      · rfl
      · rfl
      · exact hwf
      · exact hclean
      · exact ⟨rfl, nofun⟩
    have hsound : Sound m file cl c :=
      hrun.invariant (Sound m file cl) (fun _ _ _ h _ hstep => h.step hstep) hstart
    exact hsound.conserves

def memoryBuffer (n : Nat) : Buffer where
  pos := 100
  last := 100 + n
  filePos := 0
  fileLast := 0
  start := 100
  endPtr := 200
  memory := true

def fileBuffer (n : Nat) : Buffer where
  pos := 0
  last := 0
  filePos := 0
  fileLast := n
  start := 0
  endPtr := 0
  memory := false

theorem memoryBuffer_wf {n : Nat} (hn : n < 1000) : BufferWf (memoryBuffer n) where
  mem_le := fun _ => Nat.le_add_right _ _
  mem_lt := by
    intro _
    change 100 + n < 2 ^ 63
    omega
  mem_pos := fun _ _ => Nat.succ_ne_zero 99
  file_nonneg := nofun
  file_le := nofun
  file_lt := nofun

theorem fileBuffer_wf {n : Nat} (hn : n < 1000) : BufferWf (fileBuffer n) where
  mem_le := nofun
  mem_lt := nofun
  mem_pos := nofun
  file_nonneg := fun _ => Int.le_refl 0
  file_le := fun _ => Int.natCast_nonneg n
  file_lt := by
    intro _
    change (n : Int) < 2 ^ 63
    omega

theorem chainOutput_conserves_iff_mixed :
    (forall c, Reaches step Always
        (begin (fun _ => 7) (fun _ => 9) [memoryBuffer 3, fileBuffer 4]) c ->
        Conserves (fun _ => 7) (fun _ => 9) [memoryBuffer 3, fileBuffer 4] c) ↔
      Clean [memoryBuffer 3, fileBuffer 4] :=
  chainOutput_conserves_iff _ _ _
    (ChainWf.cons (memoryBuffer_wf (by decide))
      (ChainWf.cons (fileBuffer_wf (by decide)) nofun))

/-- Behind an empty memory buffer the four bytes of the file are not sent, and the call
returns `NGX_OK`. -/
theorem not_conserves_emptyFirst :
    exists c, Reaches step Always
        (begin (fun _ => 7) (fun _ => 9) [memoryBuffer 0, fileBuffer 4]) c ∧
      c.code = ngxOk ∧ c.w.taken = [] ∧
      ¬ Conserves (fun _ => 7) (fun _ => 9) [memoryBuffer 0, fileBuffer 4] c := by
  refine ⟨after step (begin (fun _ => 7) (fun _ => 9) [memoryBuffer 0, fileBuffer 4])
    [takes 4], (Reaches.refl _).oneLabel trivial (by decide +kernel), by decide +kernel,
    by decide +kernel, ?_⟩
  intro hconserves
  exact absurd (hconserves.all (by decide +kernel)) (by decide +kernel)

end Output
end NgxEpoll
