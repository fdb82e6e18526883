import NgxEpoll.Slabs.Owned

/-!
# What recovering gives back

Each turn of the loops of `dfs_slabs_recover` gives one chunk back, so that the loop of
`dfs_slabs_alloc` ends, and when there is no space the lists are empty.

## Chunks given back
-/

namespace NgxEpoll
namespace Slabs

open Foundation NgxEpoll.Core

variable {A : MemAllocator} {H : Honest A} {w w' w'' : World A}
variable {frees frees' frees'' : Nat -> List Nat} {out : List Nat}

structure Shrunk (H : Honest A) (out : List Nat) (w : World A) (frees : Nat -> List Nat)
    (w' : World A) (frees' : Nat -> List Nat) : Prop where
  owned : Owned H w' frees' out
  shape : shape w'.mgr = shape w.mgr
  suffix : forall i, frees' i <:+ frees i
  length : (listed w'.mgr.freeLen frees').length ≤ (listed w.mgr.freeLen frees).length

theorem Shrunk.refl (h : Owned H w frees out) : Shrunk H out w frees w frees :=
  ⟨h, rfl, fun i => List.suffix_refl (frees i), Nat.le_refl _⟩

theorem Shrunk.trans (h : Shrunk H out w frees w' frees')
    (h' : Shrunk H out w' frees' w'' frees'') : Shrunk H out w frees w'' frees'' := by
  constructor
  · exact h'.owned
  · exact h'.shape.trans h.shape
  · exact fun i => (h'.suffix i).trans (h.suffix i)
  · exact Nat.le_trans h'.length h.length

theorem Shrunk.nil (h : Shrunk H out w frees w' frees') {i : Nat} (hi : frees i = []) :
    frees' i = [] := by
  have hsuffix := h.suffix i
  rw [hi] at hsuffix
  exact List.suffix_nil.mp hsuffix

theorem Owned.dropChunk (h : Owned H w frees out) {i c : Nat} {rest : List Nat}
    (hi : i < w.mgr.freeLen) (hf : frees i = c :: rest) :
    exists w', dropChunk w i c = some w' ∧
      Shrunk H out w frees w' (Function.update frees i rest) ∧
      (listed w'.mgr.freeLen (Function.update frees i rest)).length <
        (listed w.mgr.freeLen frees).length := by
  have hlength := (listed_pop hi hf).length_eq
  rw [List.length_cons] at hlength
  cases hfree : A.free with
  | none =>
      rw [h.noFree hfree] at hlength
      cases hlength
  | some free =>
      have hc : c ∈ out ++ listed w.mgr.freeLen frees :=
        List.mem_append_right _ (mem_listed.mpr ⟨i, hi, by simp [hf]⟩)
      obtain ⟨hvalid, hblocks⟩ := H.free free hfree w.heap c _ h.valid (h.blocks c hc)
      have hcount := h.chunkCount
      have hcount' : (dropped free w i c).mgr.stat.chunkCount + 1 =
          w.mgr.stat.chunkCount := by
        change sizeSub w.mgr.stat.chunkCount 1 + 1 = _
        rw [sizeSub_eq (by omega), Nat.sub_add_cancel (by omega)]
      have hpop := h.pop (u := dropped free w i c) hi hf rfl rfl rfl hvalid hblocks hcount'
      refine ⟨dropped free w i c, by rw [Slabs.dropChunk, hfree]; rfl, ?_, ?_⟩
      · constructor
        · exact hpop.1
        · rfl
        · intro j
          by_cases hji : j = i
          · rw [hji, Function.update_self, hf]
            exact List.suffix_cons c rest
          · rw [Function.update_of_ne hji]
        · exact Nat.le_of_lt (Nat.lt_of_succ_le (Nat.le_of_eq hlength.symm))
      · exact Nat.lt_of_succ_le (Nat.le_of_eq hlength.symm)

/-!
## The loops of `dfs_slabs_recover`
-/

/-- The larger classes: either none of them has a chunk, or one is given back.  The index
does not go past the range of an `int`. -/
theorem Owned.recoverUp (h : Owned H w frees out) (n i : Nat)
    (hn : i + n = w.mgr.freeLen) :
    (recoverUp w n i = none ∧ 2 ^ 31 ≤ w.mgr.freeLen) ∨
      (recoverUp w n i = some none ∧
        forall j, i ≤ j -> j < w.mgr.freeLen -> frees j = []) ∨
      exists w' frees', recoverUp w n i = some (some w') ∧
        Shrunk H out w frees w' frees' ∧
        (listed w'.mgr.freeLen frees').length < (listed w.mgr.freeLen frees).length := by
  induction n generalizing i with
  | zero =>
      unfold Slabs.recoverUp
      by_cases hlarge : 2 ^ 31 ≤ i
      · rw [if_pos hlarge]
        exact Or.inl ⟨rfl, by omega⟩
      · rw [if_neg hlarge]
        exact Or.inr (Or.inl ⟨rfl, fun j hij hj => by omega⟩)
  | succ n ih =>
      have hi : i < w.mgr.freeLen := by omega
      unfold Slabs.recoverUp
      by_cases hlarge : 2 ^ 31 ≤ i
      · rw [if_pos hlarge]
        exact Or.inl ⟨rfl, by omega⟩
      rw [if_neg hlarge]
      cases hf : frees i with
      | nil =>
          rw [h.freeList_none hi hf]
          rcases ih (i + 1) (by omega) with hcrash | ⟨hnone, hall⟩ | hsome
          · exact Or.inl hcrash
          · refine Or.inr (Or.inl ⟨hnone, fun j hij hj => ?_⟩)
            cases Nat.eq_or_lt_of_le hij with
            | inl heq => rw [← heq, hf]
            | inr hlt => exact hall j hlt hj
          · exact Or.inr (Or.inr hsome)
      | cons c rest =>
          obtain ⟨w', hdrop, hshrunk, hless⟩ := h.dropChunk hi hf
          rw [h.freeList_some hi hf]
          refine Or.inr (Or.inr ⟨w', _, ?_, hshrunk, hless⟩)
          dsimp only
          rw [hdrop]
          rfl

theorem Owned.recoverClass (limit : Nat) {i : Nat} (fuel : Nat)
    (h : Owned H w frees out) (hi : i < w.mgr.freeLen)
    (hfuel : (frees i).length ≤ fuel) (size : Nat) :
    exists b size' w' frees', recoverClass limit i fuel w size = some (b, size', w') ∧
      Shrunk H out w frees w' frees' ∧
      (frees i ≠ [] -> (listed w'.mgr.freeLen frees').length <
        (listed w.mgr.freeLen frees).length) ∧
      (b = true -> frees i ≠ []) := by
  induction fuel generalizing w frees size with
  | zero =>
      have hnil : frees i = [] := List.eq_nil_of_length_eq_zero (Nat.le_zero.mp hfuel)
      refine ⟨false, size, w, frees, ?_, Shrunk.refl h, fun hne => absurd hnil hne,
        fun hb => Bool.noConfusion hb⟩
      unfold Slabs.recoverClass
      rw [h.freeList_none hi hnil]
  | succ fuel ih =>
      cases hf : frees i with
      | nil =>
          refine ⟨false, size, w, frees, ?_, Shrunk.refl h, fun hne => absurd rfl hne,
            fun hb => Bool.noConfusion hb⟩
          unfold Slabs.recoverClass
          rw [h.freeList_none hi hf]
      | cons c rest =>
          obtain ⟨w1, hdrop, hshrunk, hless⟩ := h.dropChunk hi hf
          have hne : c :: rest ≠ [] := List.cons_ne_nil c rest
          unfold Slabs.recoverClass
          rw [h.freeList_some hi hf]
          dsimp only
          rw [hdrop]
          dsimp only
          by_cases hlimit : limit ≤ sizeAdd size (w1.mgr.classSize i)
          · rw [if_pos hlimit]
            exact ⟨true, _, w1, _, rfl, hshrunk, fun _ => hless, fun _ => hne⟩
          · rw [if_neg hlimit]
            have hlen := (shape_eq hshrunk.shape).1
            have hshort : (Function.update frees i rest i).length ≤ fuel := by
              rw [hf, List.length_cons] at hfuel
              rw [Function.update_self]
              exact Nat.le_of_succ_le_succ hfuel
            obtain ⟨b, size', w', frees', hrec, hshrunk', -, -⟩ :=
              ih hshrunk.owned (by rw [hlen]; exact hi) hshort
                (sizeAdd size (w1.mgr.classSize i))
            exact ⟨b, size', w', frees', hrec, hshrunk.trans hshrunk',
              fun _ => Nat.lt_of_le_of_lt hshrunk'.length hless, fun _ => hne⟩

/-- The smaller classes: the flag tells whether one of them had a chunk, and then one is
given back. -/
theorem Owned.recoverDown (limit i : Nat) (h : Owned H w frees out)
    (hi : i ≤ w.mgr.freeLen) (size : Nat) (flag : Bool) :
    exists b flag' w' frees', recoverDown limit i w size flag = some (b, flag', w') ∧
      Shrunk H out w frees w' frees' ∧
      (b = true -> (listed w'.mgr.freeLen frees').length <
        (listed w.mgr.freeLen frees).length) ∧
      (flag' = true -> flag = true ∨ (listed w'.mgr.freeLen frees').length <
        (listed w.mgr.freeLen frees).length) ∧
      (flag' = false -> flag = false ∧ forall j, j < i -> frees' j = []) := by
  induction i generalizing w frees size flag with
  | zero =>
      exact ⟨false, flag, w, frees, rfl, Shrunk.refl h, fun hb => Bool.noConfusion hb,
        Or.inl, fun hf => ⟨hf, fun j hj => absurd hj (Nat.not_lt_zero j)⟩⟩
  | succ i ih =>
      have hlt : i < w.mgr.freeLen := hi
      have hshort : (frees i).length ≤ w.mgr.stat.chunkCount := by
        rw [h.chunkCount]
        exact Nat.le_trans (length_le_listed hlt) (Nat.le_add_left _ _)
      obtain ⟨b, size', w1, frees1, hclass, hshrunk, hany, hdone⟩ :=
        h.recoverClass limit w.mgr.stat.chunkCount hlt hshort size
      have hsome := h.freeList_isSome hlt
      unfold Slabs.recoverDown
      dsimp only
      rw [hclass]
      cases b with
      | true =>
          refine ⟨true, _, w1, frees1, rfl, hshrunk, fun _ => hany (hdone rfl),
            fun _ => Or.inr (hany (hdone rfl)), fun hflag => ?_⟩
          rw [Bool.or_eq_false_iff] at hflag
          exact absurd (hsome.mp hflag.2) (hdone rfl)
      | false =>
          have hlen := (shape_eq hshrunk.shape).1
          obtain ⟨b, flag', w', frees', hrec, hshrunk', htrue, hflag, hempty⟩ :=
            ih hshrunk.owned (by omega) size' (flag || (w.mgr.freeList i).isSome)
          refine ⟨b, flag', w', frees', hrec, hshrunk.trans hshrunk', ?_, ?_, ?_⟩
          · exact fun hb => Nat.lt_of_lt_of_le (htrue hb) hshrunk.length
          · intro hf
            cases hflag hf with
            | inl hor =>
                cases (Bool.or_eq_true _ _).mp hor with
                | inl hflag => exact Or.inl hflag
                | inr hfull =>
                    have hne : frees i ≠ [] := fun hnil =>
                      Bool.false_ne_true ((hsome.mpr hnil).symm.trans hfull)
                    exact Or.inr (Nat.lt_of_le_of_lt hshrunk'.length (hany hne))
            | inr hless => exact Or.inr (Nat.lt_of_lt_of_le hless hshrunk.length)
          · intro hf
            obtain ⟨hor, hrest⟩ := hempty hf
            rw [Bool.or_eq_false_iff] at hor
            refine ⟨hor.1, fun j hj => ?_⟩
            cases Nat.eq_or_lt_of_le (Nat.le_of_lt_succ hj) with
            | inl heq =>
                rw [heq]
                exact (hshrunk.trans hshrunk').nil (hsome.mp hor.2)
            | inr hlt => exact hrest j hlt

/-- `dfs_slabs_recover` gives a chunk back, or says that there is no space, and then the
lists of all the other classes are empty. -/
theorem Owned.recover (h : Owned H w frees out) (chunkSize : Nat) {id : Nat}
    (hid : id < w.mgr.freeLen) :
    (recover w chunkSize id = none ∧ 2 ^ 31 ≤ w.mgr.freeLen) ∨
    exists r w' frees', recover w chunkSize id = some (r, w') ∧
      Shrunk H out w frees w' frees' ∧
      (r ≠ Recovered.noSpace -> (listed w'.mgr.freeLen frees').length <
        (listed w.mgr.freeLen frees).length) ∧
      (r = Recovered.noSpace -> forall j, j < w.mgr.freeLen -> j ≠ id -> frees' j = []) := by
  dsimp only [Slabs.recover]
  generalize hw1 : ({ w with mgr := { w.mgr with
    stat := { w.mgr.stat with recover := w.mgr.stat.recover + 1 } } } : World A) = w1
  have h1 : Shrunk H out w frees w1 frees := by
    subst hw1
    exact ⟨h.congr rfl rfl rfl h.valid (fun _ hb => hb) rfl, rfl,
      fun _ => List.suffix_refl _, Nat.le_refl _⟩
  clear hw1
  have hlen1 := (shape_eq h1.shape).1
  rcases h1.owned.recoverUp (w.mgr.freeLen - (id + 1)) (id + 1) (by omega) with
    ⟨hcrash, hlarge⟩ | ⟨hup, habove⟩ | ⟨w2, frees2, hup, hshrunk, hless⟩
  · rw [hcrash]
    exact Or.inl ⟨rfl, by rw [← hlen1]; exact hlarge⟩
  · refine Or.inr ?_
    obtain ⟨b, flag, w2, frees2, hdown, hshrunk, htrue, hflag, hempty⟩ :=
      h1.owned.recoverDown (chunkSize * 2 % 2 ^ 64) id (by omega) 0 false
    have hall := h1.trans hshrunk
    rw [hup]
    dsimp only
    rw [hdown]
    cases b with
    | true =>
        exact ⟨Recovered.yes, w2, frees2, rfl, hall,
          fun _ => Nat.lt_of_lt_of_le (htrue rfl) h1.length,
          fun hr => Recovered.noConfusion hr⟩
    | false =>
        refine ⟨_, _, frees2, rfl, ⟨?_, hall.shape, hall.suffix, hall.length⟩, ?_, ?_⟩
        · exact hall.owned.congr rfl rfl rfl hall.owned.valid (fun _ hb => hb) rfl
        · intro hr
          cases flag with
          | true =>
              have hless := (hflag rfl).resolve_left (fun hf => Bool.noConfusion hf)
              exact Nat.lt_of_lt_of_le hless h1.length
          | false => exact absurd rfl hr
        · intro hr j hj hne
          cases flag with
          | true => cases hr
          | false =>
              cases Nat.lt_or_gt_of_ne hne with
              | inl hlt => exact (hempty rfl).2 j hlt
              | inr hgt => exact hshrunk.nil (habove j hgt (by omega))
  · rw [hup]
    exact Or.inr ⟨Recovered.yes, w2, frees2, rfl, h1.trans hshrunk,
      fun _ => Nat.lt_of_lt_of_le hless h1.length, fun hr => Recovered.noConfusion hr⟩

/-!
## The loop of `dfs_slabs_alloc`
-/

/-- A block of `n` bytes that the manager does not have yet. -/
def Given (H : Honest A) (w : World A) (out : List Nat) (c n : Nat) : Prop :=
  (exists frees, Owned H w frees out ∧ c ∉ out ++ listed w.mgr.freeLen frees) ∧
    (c, n) ∈ H.blocks w.heap

theorem Owned.given (h : Owned H w frees out) {n c : Nat} (hn : 0 < n) {heap : A.State}
    (hvalid : H.valid heap) (hmem : (c, n) ∈ H.blocks heap)
    (hblocks : forall b, b ∈ H.blocks w.heap -> b ∈ H.blocks heap ∧ RegionsApart (c, n) b) :
    Given H { w with heap := heap } out c n := by
  refine ⟨⟨frees, ?_, ?_⟩, hmem⟩
  · exact h.congr rfl rfl rfl hvalid (fun b hb => (hblocks b hb).1) rfl
  · intro hc
    have hapart := (hblocks _ (h.blocks c hc)).2
    refine not_apart_of_start hn ?_ hapart
    unfold chunkLinkSize
    exact Nat.succ_pos _

/-- The calls of `dfs_slabs_recover` and of the allocator after it, while neither ends
the loop. -/
inductive Rounds (chunkSize id : Nat) : Nat -> World A -> World A -> Prop where
  | refl (w : World A) : Rounds chunkSize id 0 w w
  | tail {n : Nat} {w w1 w2 : World A} {r : Recovered} {heap : A.State} :
      Rounds chunkSize id n w w1 -> recover w1 chunkSize id = some (r, w2) ->
      r ≠ Recovered.noSpace -> A.alloc w2.heap chunkSize = (none, heap) ->
      Rounds chunkSize id (n + 1) w { w2 with heap := heap }

theorem Owned.rounds (h : Owned H w frees out) {chunkSize id n : Nat}
    (hid : id < w.mgr.freeLen) (hrounds : Rounds chunkSize id n w w') :
    exists frees', Shrunk H out w frees w' frees' ∧
      (listed w'.mgr.freeLen frees').length + n ≤ (listed w.mgr.freeLen frees).length := by
  induction hrounds with
  | refl w => exact ⟨frees, Shrunk.refl h, Nat.le_refl _⟩
  | tail hprev hrecover hr halloc ih =>
      obtain ⟨frees1, hshrunk1, hle⟩ := ih h hid
      have hlen1 := (shape_eq hshrunk1.shape).1
      rcases hshrunk1.owned.recover chunkSize (by rw [hlen1]; exact hid) with
        ⟨hcrash, -⟩ | ⟨r', w2, frees2, heq, hshrunk2, hless, -⟩
      · rw [hrecover] at hcrash
        cases hcrash
      cases hrecover.symm.trans heq
      have hall := hshrunk1.trans hshrunk2
      obtain ⟨hvalid, hblocks⟩ := H.alloc_none _ _ _ hall.owned.valid halloc
      refine ⟨frees2, ⟨?_, hall.shape, hall.suffix, hall.length⟩, ?_⟩
      · exact hall.owned.congr rfl rfl rfl hvalid hblocks rfl
      · have hlt := hless hr
        dsimp only
        omega

/-- With one attempt more than there are chunks on the lists the loop ends, with a new
block or with all lists empty. -/
theorem Owned.allocLoop (fuel : Nat) (h : Owned H w frees out) {chunkSize id : Nat}
    (hsize : 0 < chunkSize) (hid : id < w.mgr.freeLen) (hnil : frees id = [])
    (hfuel : (listed w.mgr.freeLen frees).length < fuel) :
    (allocLoop chunkSize id fuel w = none ∧ 2 ^ 31 ≤ w.mgr.freeLen) ∨
    (exists w' frees', allocLoop chunkSize id fuel w = some (none, w') ∧
      Shrunk H out w frees w' frees' ∧ forall i, i < w.mgr.freeLen -> frees' i = []) ∨
    exists c w', allocLoop chunkSize id fuel w = some (some c, w') ∧
      shape w'.mgr = shape w.mgr ∧ Given H w' out c chunkSize := by
  induction fuel generalizing w frees with
  | zero => exact absurd hfuel (Nat.not_lt_zero _)
  | succ fuel ih =>
      unfold Slabs.allocLoop
      rcases h.recover chunkSize hid with
        ⟨hcrash, hlarge⟩ | ⟨r, w1, frees1, hrecover, hshrunk, hless, hempty⟩
      · rw [hcrash]
        exact Or.inl ⟨rfl, hlarge⟩
      have hlen1 := (shape_eq hshrunk.shape).1
      rw [hrecover]
      dsimp only
      by_cases hr : r = Recovered.noSpace
      · rw [if_pos hr]
        refine Or.inr (Or.inl ⟨w1, frees1, rfl, hshrunk, fun i hi => ?_⟩)
        by_cases hne : i = id
        · rw [hne]
          exact hshrunk.nil hnil
        · exact hempty hr i hi hne
      rw [if_neg hr]
      have hlt := hless hr
      cases halloc : A.alloc w1.heap chunkSize with
      | mk p heap =>
          cases p with
          | some c =>
              obtain ⟨hvalid, hmem, hblocks⟩ :=
                H.alloc_some _ _ _ _ hshrunk.owned.valid halloc
              exact Or.inr (Or.inr ⟨c, _, rfl, hshrunk.shape,
                hshrunk.owned.given hsize hvalid hmem hblocks⟩)
          | none =>
              obtain ⟨hvalid, hblocks⟩ := H.alloc_none _ _ _ hshrunk.owned.valid halloc
              have hnext : Shrunk H out w frees { w1 with heap := heap } frees1 :=
                ⟨hshrunk.owned.congr rfl rfl rfl hvalid hblocks rfl, hshrunk.shape,
                  hshrunk.suffix, hshrunk.length⟩
              dsimp only
              rcases ih hnext.owned (by rw [hlen1]; exact hid) (hnext.nil hnil)
                  (Nat.lt_of_lt_of_le hlt (Nat.le_of_lt_succ hfuel)) with
                ⟨hcrash, hlarge⟩ | ⟨w', frees', heq, hshrunk', hall⟩ |
                  ⟨c, w', heq, hshape, hgiven⟩
              · exact Or.inl ⟨hcrash, by rw [← hlen1]; exact hlarge⟩
              · refine Or.inr (Or.inl ⟨w', frees', heq, hnext.trans hshrunk', ?_⟩)
                exact fun i hi => hall i (by rw [hlen1]; exact hi)
              · exact Or.inr (Or.inr ⟨c, w', heq, hshape.trans hshrunk.shape, hgiven⟩)

end Slabs
end NgxEpoll
