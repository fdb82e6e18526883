import NgxEpoll.Output.Packing
import NgxEpoll.Output.Turns

/-!
# What the senders hand over

Each sender gives the kernel a first part of the content and returns the rest of the
chain, or fails, or drops a chain that it finds nothing to pack of.
-/

namespace NgxEpoll
namespace Output

open Foundation
open NgxEpoll.Core

def AllTake (results : List SysResult) : Prop :=
  forall r, r ∈ results -> exists n, r = SysResult.sent n ∧ 0 < n

/-- The write event is ready, and the kernel takes bytes until all are sent. -/
structure Plenty (w : World) (cl : List Buffer) : Prop where
  ready : w.ready = true
  allTake : AllTake w.results
  enough : (content w.mem w.file cl).length < w.results.length

/-- From the chain `cl` the kernel got what `cl'` lacks. -/
structure Handed (w : World) (cl : List Buffer) (w' : World) (cl' : List Buffer) :
    Prop where
  mem : w'.mem = w.mem
  file : w'.file = w.file
  wf : ChainWf cl'
  bytes : w'.taken ++ content w.mem w.file cl' = w.taken ++ content w.mem w.file cl
  clean : Clean cl' ↔ Clean cl
  plenty : Plenty w cl -> Plenty w' cl'
  results_le : w'.results.length ≤ w.results.length
  length_le : cl'.length ≤ cl.length

def chainMeasure (w : World) (cl : List Buffer) : Nat :=
  w.results.length + cl.length + (if w.ready then 1 else 0)

inductive Outcome (w : World) (cl : List Buffer) (r : World × Option (List Buffer)) :
    Prop where
  | error (eq : r.2 = none) (scarce : ¬ Plenty w cl)
  | handed (cl' : List Buffer) (eq : r.2 = some cl') (handed : Handed w cl r.1 cl')
      (progress : chainMeasure r.1 cl' < chainMeasure w cl)
  | dropped (rest : List Buffer) (eq : r.2 = some []) (handed : Handed w cl r.1 rest)
      (lost : content w.mem w.file rest ≠ []) (clean : ¬ Clean rest)
      (progress : chainMeasure r.1 [] < chainMeasure w cl)

variable {w w' w'' : World} {cl cl' cl'' : List Buffer}

theorem Handed.refl (hwf : ChainWf cl) : Handed w cl w cl where
  mem := rfl
  file := rfl
  wf := hwf
  bytes := rfl
  clean := Iff.rfl
  plenty := id
  results_le := Nat.le_refl _
  length_le := Nat.le_refl _

theorem Handed.trans (h : Handed w cl w' cl') (h' : Handed w' cl' w'' cl'') :
    Handed w cl w'' cl'' where
  mem := h'.mem.trans h.mem
  file := h'.file.trans h.file
  wf := h'.wf
  bytes := by
    have hbytes := h'.bytes
    rw [h.mem, h.file] at hbytes
    exact hbytes.trans h.bytes
  clean := h'.clean.trans h.clean
  plenty := fun hplenty => h'.plenty (h.plenty hplenty)
  results_le := Nat.le_trans h'.results_le h.results_le
  length_le := Nat.le_trans h'.length_le h.length_le

theorem Handed.nil (h : Handed w cl w' cl') (hempty : content w.mem w.file cl' = []) :
    Handed w cl w' [] where
  mem := h.mem
  file := h.file
  wf := nofun
  bytes := by
    rw [← h.bytes, hempty]
    rfl
  clean := ⟨fun _ => h.clean.mp (clean_of_empty hempty), fun _ => trivial⟩
  plenty := by
    intro hplenty
    have hold := h.plenty hplenty
    refine ⟨hold.ready, hold.allTake, ?_⟩
    exact Nat.lt_of_le_of_lt (Nat.zero_le _) hold.enough
  results_le := h.results_le
  length_le := Nat.zero_le _

/-!
## `writev`
-/

theorem writevAnswer_cases {size : Nat} (hsize : 0 < size) (results : List SysResult) :
    ((writevAnswer size results).1 = ngxAgain ∨
        (writevAnswer size results).1 = ngxError) ∧
        (writevAnswer size results).2.length ≤ results.length ∧
        ¬ (AllTake results ∧ results ≠ []) ∨
      exists k : Nat, (writevAnswer size results).1 = k ∧ 0 < k ∧ k ≤ size ∧
        (writevAnswer size results).2.length < results.length ∧
        (AllTake results -> AllTake (writevAnswer size results).2 ∧
          results.length = (writevAnswer size results).2.length + 1) := by
  induction results with
  | nil =>
      left
      exact ⟨Or.inl rfl, Nat.le_refl _, fun h => h.2 rfl⟩
  | cons r rest ih =>
      have hnone : r = SysResult.intr ∨ r = SysResult.again ∨ r = SysResult.error ->
          ¬ AllTake (r :: rest) := by
        intro hr htake
        obtain ⟨n, heq, _⟩ := htake r List.mem_cons_self
        rw [heq] at hr
        cases hr with
        | inl h => cases h
        | inr hr =>
            cases hr with
            | inl h => cases h
            | inr h => cases h
      cases r with
      | intr =>
          have hnot := hnone (Or.inl rfl)
          unfold writevAnswer
          cases ih with
          | inl hleft =>
              left
              exact ⟨hleft.1, Nat.le_succ_of_le hleft.2.1, fun h => hnot h.1⟩
          | inr hright =>
              right
              obtain ⟨k, hk, hpos, hle, hlen, _⟩ := hright
              exact ⟨k, hk, hpos, hle, Nat.lt_succ_of_lt hlen, fun h => absurd h hnot⟩
      | again =>
          left
          exact ⟨Or.inl rfl, Nat.le_succ _, fun h => hnone (Or.inr (Or.inl rfl)) h.1⟩
      | error =>
          left
          exact ⟨Or.inr rfl, Nat.le_succ _, fun h => hnone (Or.inr (Or.inr rfl)) h.1⟩
      | sent n =>
          unfold writevAnswer
          by_cases hzero : min n size = 0
          · left
            simp only [if_pos hzero]
            refine ⟨Or.inr trivial, Nat.le_succ _, ?_⟩
            intro htake
            obtain ⟨n', heq, hn'⟩ := htake.1 _ List.mem_cons_self
            cases heq
            omega
          · right
            simp only [if_neg hzero]
            refine ⟨min n size, rfl, by omega, Nat.min_le_right _ _, Nat.lt_succ_self _, ?_⟩
            intro htake
            exact ⟨fun r hr => htake r (List.mem_cons_of_mem _ hr), rfl⟩

theorem packed_bytes {limit lastSize : Nat} {p : List (Nat × Nat) × Nat}
    (h : Packed w.mem w.file limit cl [] lastSize p) :
    iovBytes w.mem p.1 = (content w.mem w.file cl).take (p.2 - lastSize) ∧
      (iovBytes w.mem p.1).length = p.2 - lastSize := by
  have hbytes : iovBytes w.mem p.1 = (content w.mem w.file cl).take (p.2 - lastSize) := by
    rw [h.bytes]
    rfl
  constructor
  · exact hbytes
  · have hle := h.memLen_le
    have hcontent : memLen cl ≤ (content w.mem w.file cl).length := memLen_le_content cl
    rw [hbytes, List.length_take]
    omega

theorem Packed.bytes_pos {limit lastSize : Nat} {p : List (Nat × Nat) × Nat}
    (h : Packed w.mem w.file limit cl [] lastSize p) (hne : p.1 ≠ []) :
    0 < (iovBytes w.mem p.1).length := by
  have hgrown := h.grown rfl hne
  have hbytes := packed_bytes h
  omega

theorem Plenty.answer (h : Plenty w cl) :
    exists n rs, w.results = SysResult.sent n :: rs ∧ 0 < n := by
  cases hresults : w.results with
  | nil =>
      have henough := h.enough
      rw [hresults] at henough
      exact absurd henough (Nat.not_lt_zero _)
  | cons r rs =>
      obtain ⟨n, heq, hn⟩ := h.allTake r (by rw [hresults]; exact List.mem_cons_self)
      exact ⟨n, rs, by rw [heq], hn⟩

section Answers

variable {iovs : List (Nat × Nat)} (hbytes : 0 < (iovBytes w.mem iovs).length)
include hbytes

theorem sysioWritevIovs_scarce
    (hcode : (sysioWritevIovs w iovs).1 = ngxAgain ∨ (sysioWritevIovs w iovs).1 = ngxError) :
    (sysioWritevIovs w iovs).2.results.length ≤ w.results.length ∧ ¬ Plenty w cl := by
  cases writevAnswer_cases hbytes w.results with
  | inl hnone =>
      refine ⟨hnone.2.1, ?_⟩
      intro hplenty
      obtain ⟨n, rs, hresults, _⟩ := hplenty.answer
      exact hnone.2.2 ⟨hplenty.allTake, by rw [hresults]; exact List.cons_ne_nil _ _⟩
  | inr htook =>
      obtain ⟨k, hk, _⟩ := htook
      have hk' : (sysioWritevIovs w iovs).1 = k := hk
      rw [hk'] at hcode
      unfold ngxAgain ngxError at hcode
      omega

theorem sysioWritevIovs_took {k : Nat} (hcode : (sysioWritevIovs w iovs).1 = k) :
    k ≤ (iovBytes w.mem iovs).length ∧
      (sysioWritevIovs w iovs).2.results.length < w.results.length ∧
      (AllTake w.results -> AllTake (sysioWritevIovs w iovs).2.results ∧
        w.results.length = (sysioWritevIovs w iovs).2.results.length + 1) := by
  cases writevAnswer_cases hbytes w.results with
  | inl hnone =>
      have hnone' : (sysioWritevIovs w iovs).1 = ngxAgain ∨
          (sysioWritevIovs w iovs).1 = ngxError := hnone.1
      rw [hcode] at hnone'
      unfold ngxAgain ngxError at hnone'
      omega
  | inr htook =>
      obtain ⟨k', hk, _, hle, hlen, htake⟩ := htook
      have hk' : (sysioWritevIovs w iovs).1 = k' := hk
      rw [hcode] at hk'
      rw [Int.ofNat_inj.mp hk']
      exact ⟨hle, hlen, htake⟩

end Answers

theorem sysioWritevIovs_again {iovs : List (Nat × Nat)}
    (hcode : (sysioWritevIovs w iovs).1 = ngxAgain) :
    (sysioWritevIovs w iovs).2 =
      { w with results := (sysioWritevIovs w iovs).2.results } := by
  have htaken : w.taken ++ (iovBytes w.mem iovs).take (sysioWritevIovs w iovs).1.toNat =
      w.taken := by
    rw [hcode]
    exact List.append_nil _
  exact congrArg
    (fun taken => { w with results := (sysioWritevIovs w iovs).2.results, taken := taken })
    htaken

theorem handed_writev {limit lastSize k : Nat} {p : List (Nat × Nat) × Nat} {cSent : Nat}
    (hwf : ChainWf cl) (h : Packed w.mem w.file limit cl [] lastSize p)
    (hsome : 0 < (iovBytes w.mem p.1).length) (hcode : (sysioWritevIovs w p.1).1 = k)
    (hpos : 0 < k) :
    Handed w cl { (sysioWritevIovs w p.1).2 with cSent := cSent }
      (chainWriteUpdate cl k) := by
  obtain ⟨hk, hlen, htake⟩ := sysioWritevIovs_took hsome hcode
  have hbytes := packed_bytes h
  have hmemLen := h.memLen_le
  have hle : k ≤ p.2 - lastSize := by omega
  constructor
  · rfl
  · rfl
  · exact chainWriteUpdate_wf hwf k
  · change w.taken ++ (iovBytes w.mem p.1).take (sysioWritevIovs w p.1).1.toNat ++
      content w.mem w.file (chainWriteUpdate cl k) = _
    rw [hcode, Int.toNat_natCast, chainWriteUpdate_content hwf, hbytes.1, List.take_take,
      Nat.min_eq_left hle, List.append_assoc, List.take_append_drop]
  · exact chainWriteUpdate_clean hwf (by omega)
  · intro hplenty
    have hrest := htake hplenty.allTake
    have henough := hplenty.enough
    refine ⟨hplenty.ready, hrest.1, ?_⟩
    change (content w.mem w.file (chainWriteUpdate cl k)).length <
      (sysioWritevIovs w p.1).2.results.length
    rw [chainWriteUpdate_content hwf, List.length_drop]
    have hcontent : memLen cl ≤ (content w.mem w.file cl).length := memLen_le_content cl
    omega
  · exact Nat.le_of_lt hlen
  · exact chainWriteUpdate_length cl k

theorem Handed.answer (h : Handed w cl w' cl') {results : List SysResult} {ready : Bool}
    (hlen : results.length ≤ w'.results.length) (hscarce : ¬ Plenty w' cl') :
    Handed w cl { w' with results := results, ready := ready } cl' where
  mem := h.mem
  file := h.file
  wf := h.wf
  bytes := h.bytes
  clean := h.clean
  plenty := fun hplenty => absurd (h.plenty hplenty) hscarce
  results_le := Nat.le_trans hlen h.results_le
  length_le := h.length_le

/-- The states of the loop of `sysio_writev_chain`: either the first one, or an answer
of the kernel has been used. -/
structure WritevInv (w : World) (cl : List Buffer) (s : World × List Buffer × Nat) :
    Prop where
  handed : Handed w cl s.1 s.2.1
  ready : w.ready = true ∧ s.1.ready = true
  moved : s.1.results.length < w.results.length ∨ s = (w, cl, 0)

/-- A sender that stops with a shorter chain or fewer answers has made progress. -/
theorem Outcome.of_handed (h : Handed w cl w' cl') (hready : w.ready = true)
    (hless : w'.results.length < w.results.length ∨ cl'.length < cl.length ∨
      w'.ready = false) : Outcome w cl (w', some cl') := by
  apply Outcome.handed cl' rfl h
  have hresults := h.results_le
  have hlength := h.length_le
  unfold chainMeasure
  rw [hready]
  cases hw' : w'.ready with
  | false => simp only [if_true, Bool.false_eq_true, if_false]; omega
  | true =>
      have hless' : w'.results.length < w.results.length ∨ cl'.length < cl.length := by
        cases hless with
        | inl hlt => exact Or.inl hlt
        | inr hrest =>
            cases hrest with
            | inl hlt => exact Or.inr hlt
            | inr hfalse => exact absurd (hw'.symm.trans hfalse) nofun
      simp only [if_true]
      omega

theorem Outcome.of_dropped {b : Buffer} {rest : List Buffer}
    (h : Handed w cl w' (b :: rest)) (hready : w.ready = true) (hb : b.memory = true)
    (hlen : memLen (b :: rest) = 0) : Outcome w cl (w', some []) := by
  have hlength := h.length_le
  have hshort : ([] : List Buffer).length < cl.length := by
    rw [List.length_cons] at hlength
    exact Nat.lt_of_lt_of_le (Nat.succ_pos _) hlength
  by_cases hcontent : content w.mem w.file (b :: rest) = []
  · exact Outcome.of_handed (h.nil hcontent) hready (Or.inr (Or.inl hshort))
  · apply Outcome.dropped (b :: rest) rfl h hcontent
    · exact not_clean_of_memLen hb hlen h.wf hcontent
    · have hresults := h.results_le
      unfold chainMeasure
      rw [hready]
      rw [List.length_nil] at hshort ⊢
      simp only [if_true]
      split
      · omega
      · omega

theorem WritevInv.stop {s : World × List Buffer × Nat} (h : WritevInv w cl s)
    (hmoved : s ≠ (w, cl, 0)) : Outcome w cl (s.1, some s.2.1) := by
  apply Outcome.of_handed h.handed h.ready.1
  cases h.moved with
  | inl hlt => exact Or.inl hlt
  | inr heq => exact absurd heq hmoved

theorem writevTurn_inv {limit : Nat} (hlimit : 0 < limit) {s : World × List Buffer × Nat}
    (hcl : exists b, cl.head? = some b ∧ b.memory = true) (h : WritevInv w cl s) :
    (writevTurn limit s).Meets
      (fun s' => WritevInv w cl s' ∧ s'.1.results.length < s.1.results.length)
      (Outcome w cl) := by
  obtain ⟨b0, hhead, hb0⟩ := hcl
  have hhanded := h.handed
  have hready := h.ready
  have hresults := hhanded.results_le
  have hmove := writevTurn_move limit s
  generalize writevTurn limit s = t at hmove ⊢
  cases hmove with
  | nothing chain =>
      have hstop := h.stop (fun heq => by
        rw [heq] at chain
        have hnil : cl = [] := chain
        rw [hnil] at hhead
        cases hhead)
      rw [chain] at hstop
      exact hstop
  | @stays b rest chain stop =>
      have hstop := h.stop (fun heq => by
        rw [heq] at chain stop
        have hcons : cl = b :: rest := chain
        rw [hcons] at hhead
        cases hhead
        exact stop ⟨hlimit, hb0⟩)
      rw [chain] at hstop
      exact hstop
  | drops chain go pack empty =>
      rw [chain] at hhanded
      have hpack := @sysioPackChainToIovs_packed s.1.mem s.1.file _ hhanded.wf s.2.2 limit
      rw [pack] at hpack
      apply Outcome.of_dropped hhanded hready.1 go.2
      by_contra hlen
      exact hpack.found (by decide) go.1 hlen empty
  | @waits b rest p chain pack packed code =>
      rw [chain] at hhanded
      have hpack := @sysioPackChainToIovs_packed s.1.mem s.1.file _ hhanded.wf s.2.2 limit
      rw [pack] at hpack
      have hscarce := @sysioWritevIovs_scarce s.1 (b :: rest) p.1 (hpack.bytes_pos packed)
        (Or.inl code)
      have hkeep := @Handed.answer _ _ _ _ hhanded _ false hscarce.1 hscarce.2
      rw [sysioWritevIovs_again code]
      exact Outcome.of_handed hkeep hready.1 (Or.inr (Or.inr rfl))
  | @fails b rest p chain pack packed code =>
      rw [chain] at hhanded
      have hpack := @sysioPackChainToIovs_packed s.1.mem s.1.file _ hhanded.wf s.2.2 limit
      rw [pack] at hpack
      have hscarce := @sysioWritevIovs_scarce s.1 (b :: rest) p.1 (hpack.bytes_pos packed)
        (Or.inr code)
      exact Outcome.error rfl (fun hplenty => hscarce.2 (hhanded.plenty hplenty))
  | @sends b rest p k chain pack packed code pos w1 world =>
      rw [chain] at hhanded
      have hpack := @sysioPackChainToIovs_packed s.1.mem s.1.file _ hhanded.wf s.2.2 limit
      rw [pack] at hpack
      have hsome := hpack.bytes_pos packed
      have htook := sysioWritevIovs_took hsome code
      have hstep : Handed w cl w1 (chainWriteUpdate (b :: rest) k) := by
        rw [world]
        exact hhanded.trans (handed_writev hhanded.wf hpack hsome code pos)
      have hless : w1.results.length < s.1.results.length := by
        rw [world]
        exact htook.2.1
      have hready1 : w1.ready = true := by
        rw [world]
        exact hready.2
      have hless0 := Nat.lt_of_lt_of_le hless hresults
      split
      · exact Outcome.of_handed hstep hready.1 (Or.inl hless0)
      · exact ⟨⟨hstep, ⟨hready.1, hready1⟩, Or.inl hless0⟩, hless⟩

theorem effectiveLimit_pos (limit : Nat) : 0 < effectiveLimit limit := by
  unfold effectiveLimit
  split
  · decide
  · omega

theorem sysioWritevChain_outcome (hwf : ChainWf cl) (hready : w.ready = true)
    (hcl : exists b, cl.head? = some b ∧ b.memory = true) (limit : Nat) :
    Outcome w cl (sysioWritevChain w cl limit) := by
  have hne : ¬ cl.isEmpty = true := by
    intro hempty
    rw [List.isEmpty_iff.mp hempty] at hcl
    obtain ⟨b, hb, _⟩ := hcl
    cases hb
  unfold sysioWritevChain
  rw [if_neg hne, hready]
  have hpos := effectiveLimit_pos limit
  have hinit : WritevInv w cl (w, cl, 0) :=
    ⟨Handed.refl hwf, ⟨hready, hready⟩, Or.inr rfl⟩
  exact loop_meets _ (Outcome w cl) (fun s hs => writevTurn_inv hpos hcl hs) hinit

/-!
## `sendfile`
-/

/-- The states of the loop of `sysio_sendfile_chain`. -/
structure SendfileInv (w : World) (cl : List Buffer) (s : World × List Buffer × Nat) :
    Prop where
  handed : Handed w cl s.1 s.2.1
  ready : w.ready = true ∧ s.1.ready = true
  moved : s.1.results.length < w.results.length ∨ s.2.1.length < cl.length ∨
    s = (w, cl, 0)

theorem handed_sendfile {b : Buffer} {rest : List Buffer} {k : Nat}
    {results : List SysResult} {cSent : Nat} (hwf : ChainWf (b :: rest))
    (hb : b.memory = false) (hpos : 0 < k) (hk : k ≤ (bufferSize b).toNat)
    (hresults : w.results.length = results.length + 1)
    (htake : AllTake w.results -> AllTake results) :
    Handed w (b :: rest)
      { w with
        results := results
        cSent := cSent
        taken := w.taken ++ load w.file b.filePos.toNat k } (advance b k :: rest) := by
  have hsize := hwf.head.size
  have hle : (k : Int) ≤ bufferSize b := by omega
  have hbytes := @advance_bytes w.mem w.file b k hwf.head hle
  have hload : load w.file b.filePos.toNat k = (bufferBytes w.mem w.file b).take k := by
    unfold bufferBytes
    rw [hb, if_neg nofun, load_take _ _ _ _ hk]
  constructor
  · rfl
  · rfl
  · exact ChainWf.cons (advance_wf hwf.head hle) hwf.tail
  · rw [content_cons, content_cons, hbytes, hload]
    simp only [List.append_assoc]
  · rw [clean_cons_of_file hb, clean_cons_of_file ((advance_memory b k).trans hb)]
  · intro hplenty
    refine ⟨hplenty.ready, htake hplenty.allTake, ?_⟩
    have henough := hplenty.enough
    have hlen := congrArg List.length hbytes
    rw [List.length_append, List.length_take, bufferBytes_length] at hlen
    rw [content_cons, List.length_append, bufferBytes_length] at henough
    change (content w.mem w.file (advance b k :: rest)).length < results.length
    rw [content_cons, List.length_append]
    omega
  · change results.length ≤ w.results.length
    omega
  · exact Nat.le_refl _

theorem handed_tail {b : Buffer} {rest : List Buffer} (hwf : ChainWf (b :: rest))
    (hb : b.memory = false) (hzero : bufferSize b = 0) : Handed w (b :: rest) w rest := by
  have hcontent : content w.mem w.file (b :: rest) = content w.mem w.file rest := by
    rw [content_cons, bufferBytes_nil (by omega), List.nil_append]
  constructor
  · rfl
  · rfl
  · exact hwf.tail
  · rw [hcontent]
  · exact (clean_cons_of_file hb).symm
  · intro hplenty
    have henough := hplenty.enough
    rw [hcontent] at henough
    exact ⟨hplenty.ready, hplenty.allTake, henough⟩
  · exact Nat.le_refl _
  · exact Nat.le_succ _

theorem SendfileInv.stop {s : World × List Buffer × Nat} (h : SendfileInv w cl s)
    (hmoved : s ≠ (w, cl, 0)) : Outcome w cl (s.1, some s.2.1) := by
  apply Outcome.of_handed h.handed h.ready.1
  cases h.moved with
  | inl hlt => exact Or.inl hlt
  | inr hor =>
      cases hor with
      | inl hlt => exact Or.inr (Or.inl hlt)
      | inr heq => exact absurd heq hmoved

theorem sendfileTurn_inv {limit : Nat} (hlimit : 0 < limit)
    {s : World × List Buffer × Nat}
    (hcl : exists b, cl.head? = some b ∧ b.memory = false) (h : SendfileInv w cl s) :
    (sendfileTurn limit s).Meets
      (fun s' => SendfileInv w cl s' ∧
        s'.1.results.length + s'.2.1.length < s.1.results.length + s.2.1.length)
      (Outcome w cl) := by
  obtain ⟨b0, hhead, hb0⟩ := hcl
  have hhanded := h.handed
  have hready := h.ready
  have hresults := hhanded.results_le
  have hlength := hhanded.length_le
  have hmove := sendfileTurn_move limit s
  generalize sendfileTurn limit s = t at hmove ⊢
  cases hmove with
  | nothing chain =>
      have hstop := h.stop (fun heq => by
        rw [heq] at chain
        have hnil : cl = [] := chain
        rw [hnil] at hhead
        cases hhead)
      rw [chain] at hstop
      exact hstop
  | @stays b rest chain stop =>
      have hstop := h.stop (fun heq => by
        rw [heq] at chain stop
        have hcons : cl = b :: rest := chain
        rw [hcons] at hhead
        cases hhead
        exact stop ⟨hlimit, hb0⟩)
      rw [chain] at hstop
      exact hstop
  | @passes b rest chain file empty =>
      rw [chain] at hhanded hlength
      have hwf := hhanded.wf
      have hsize := hwf.head.size
      rw [hwf.head.cSize] at empty
      have htail := hhanded.trans (handed_tail hwf file (by omega))
      rw [List.length_cons] at hlength
      refine ⟨⟨htail, hready, Or.inr (Or.inl hlength)⟩, ?_⟩
      rw [chain]
      exact Nat.lt_succ_self _
  | @waits b rest rs chain results =>
      rw [chain] at hhanded
      have hnone : ¬ Plenty s.1 (b :: rest) := by
        intro hplenty
        obtain ⟨n, rs', heq, _⟩ := hplenty.answer
        rw [heq] at results
        rcases results with ⟨hnil, _⟩ | hagain
        · cases hnil
        · cases hagain
      have hfewer : rs.length ≤ s.1.results.length := by
        rcases results with ⟨_, hnil⟩ | hagain
        · rw [hnil]
          exact Nat.zero_le _
        · rw [hagain]
          exact Nat.le_succ _
      have hkeep := @Handed.answer _ _ _ _ hhanded rs false hfewer hnone
      exact Outcome.of_handed hkeep hready.1 (Or.inr (Or.inr rfl))
  | @retries b rest rs chain results =>
      rw [chain] at hhanded
      have hnone : ¬ Plenty s.1 (b :: rest) := by
        intro hplenty
        obtain ⟨n, rs', heq, _⟩ := hplenty.answer
        rw [results] at heq
        cases heq
      have hfewer : rs.length < s.1.results.length := by
        rw [results]
        exact Nat.lt_succ_self _
      have hkeep := @Handed.answer _ _ _ _ hhanded rs s.1.ready (Nat.le_of_lt hfewer) hnone
      refine ⟨⟨hkeep, hready, Or.inl (Nat.lt_of_lt_of_le hfewer hresults)⟩, ?_⟩
      rw [chain]
      exact Nat.add_lt_add_right hfewer _
  | fails results answer =>
      apply Outcome.error rfl
      intro hplenty
      obtain ⟨n, rs', heq, hn⟩ := (hhanded.plenty hplenty).answer
      rw [results] at heq
      cases heq
      rcases answer with herror | hzero
      · cases herror
      · cases hzero
        exact absurd hn (Nat.lt_irrefl 0)
  | @sends b b' rest n k rs chain file results pos room within moved w1 world =>
      rw [chain] at hhanded
      have hwf := hhanded.wf
      rw [hwf.head.cSize] at within
      have hfewer : s.1.results.length = rs.length + 1 := by
        rw [results]
        rfl
      have htake : AllTake s.1.results -> AllTake rs := by
        intro hall r hr
        apply hall r
        rw [results]
        exact List.mem_cons_of_mem _ hr
      have hadvance : b' = advance b k := by
        rw [moved]
        unfold advance
        rw [file]
        rfl
      have hsent : Handed w cl w1 (b' :: rest) := by
        rw [world, hadvance]
        exact hhanded.trans (handed_sendfile hwf file pos within hfewer htake)
      have hw1 : w1.results = rs ∧ w1.ready = true := by
        rw [world]
        exact ⟨rfl, hready.2⟩
      have hless : w1.results.length < w.results.length := by
        rw [hw1.1]
        omega
      have hlen : s.2.1.length = rest.length + 1 := by
        rw [chain]
        rfl
      split
      · next hdone =>
        have hfile : b'.memory = false := by
          rw [hadvance, advance_memory]
          exact file
        have htail := hsent.trans (handed_tail hsent.wf hfile hdone)
        refine ⟨⟨htail, ⟨hready.1, hw1.2⟩, Or.inl hless⟩, ?_⟩
        dsimp only
        rw [hw1.1]
        omega
      · refine ⟨⟨hsent, ⟨hready.1, hw1.2⟩, Or.inl hless⟩, ?_⟩
        dsimp only
        rw [hw1.1, List.length_cons]
        omega

theorem sysioSendfileChain_outcome (hwf : ChainWf cl) (hready : w.ready = true)
    (hcl : exists b, cl.head? = some b ∧ b.memory = false) (limit : Nat) :
    Outcome w cl (sysioSendfileChain w cl limit) := by
  have hne : ¬ cl.isEmpty = true := by
    intro hempty
    rw [List.isEmpty_iff.mp hempty] at hcl
    obtain ⟨b, hb, _⟩ := hcl
    cases hb
  unfold sysioSendfileChain
  rw [if_neg hne, hready]
  have hpos := effectiveLimit_pos limit
  have hinit : SendfileInv w cl (w, cl, 0) :=
    ⟨Handed.refl hwf, ⟨hready, hready⟩, Or.inr (Or.inr rfl)⟩
  exact loop_meets _ (Outcome w cl) (fun s hs => sendfileTurn_inv hpos hcl hs) hinit

end Output
end NgxEpoll
