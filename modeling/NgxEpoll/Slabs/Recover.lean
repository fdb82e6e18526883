import NgxEpoll.Slabs.Accounts

/-!
# Recovering chunks

`dfs_slabs_recover` gives free chunks back to the allocator, and the loop of
`dfs_slabs_alloc` calls it until the allocator has a chunk or none is left.

## One chunk
-/

namespace NgxEpoll
namespace Slabs

open Foundation NgxEpoll.Core

def shape (m : SlabManager) : Uptype × Nat × Nat × Nat × (Nat -> Nat) :=
  (m.uptype, m.freeLen, m.factor, m.minSize, m.classSize)

theorem shape_eq {m m' : SlabManager} (h : shape m' = shape m) :
    m'.freeLen = m.freeLen ∧ m'.classSize = m.classSize := by
  unfold shape at h
  simp only [Prod.mk.injEq] at h
  exact ⟨h.2.1, h.2.2.2.2⟩

variable {A : MemAllocator} {C : Contract A} {w : World A} {frees : Nat -> List Nat}
  {out : List Nat}

theorem Accounts.congr (h : Accounts C w frees out) {w' : World A}
    (hmem : w'.mem = w.mem) (hshape : shape w'.mgr = shape w.mgr)
    (hlists : w'.mgr.freeList = w.mgr.freeList) (hvalid : C.valid w'.heap)
    (hblocks : forall b, b ∈ C.blocks w.heap -> b ∈ C.blocks w'.heap)
    (hused : w'.mgr.stat.usedSize = w.mgr.stat.usedSize)
    (hreqs : w'.mgr.stat.reqsSize = w.mgr.stat.reqsSize)
    (hfree : w'.mgr.stat.freeSize = w.mgr.stat.freeSize)
    (hcount : w'.mgr.stat.chunkCount = w.mgr.stat.chunkCount) :
    Accounts C w' frees out := by
  obtain ⟨hlen, hclass⟩ := shape_eq hshape
  have hsum : forall field l, sumOf w' field l = sumOf w field l :=
    fun field l => sumOf_congr fun c _ => by rw [hmem]
  refine
    { valid := hvalid
      chains := by rw [hlen, hmem, hlists]; exact h.chains
      nodup := by rw [hlen]; exact h.nodup
      blocks := ?_
      sizes := by rw [hlen, hmem, hclass]; exact h.sizes
      held := by rw [hlen, hmem, hclass]; exact h.held
      usedSize := by rw [hused, hsum]; exact h.usedSize
      reqsSize := by rw [hreqs, hsum]; exact h.reqsSize
      freeSize := by rw [hfree, hsum, hlen]; exact h.freeSize
      chunkCount := by rw [hcount, hlen]; exact h.chunkCount }
  intro c hc
  rw [hlen] at hc
  have hb := hblocks _ (h.blocks c hc)
  unfold blockOf at hb ⊢
  rw [hmem]
  exact hb

theorem Accounts.first (h : Accounts C w frees out) {i c : Nat} {rest : List Nat}
    (hi : i < w.mgr.freeLen) (hf : frees i = c :: rest) :
    w.mgr.freeList i = some c ∧ Chain (fun c => (w.mem c).next) (w.mem c).next rest ∧
      (out ++ c :: listed w.mgr.freeLen (Function.update frees i rest)).Nodup ∧
      w.mgr.stat.freeSize = (w.mem c).size +
        sumOf w ChunkLink.size (listed w.mgr.freeLen (Function.update frees i rest)) ∧
      w.mgr.stat.chunkCount = out.length +
        ((listed w.mgr.freeLen (Function.update frees i rest)).length + 1) := by
  have hperm := listed_pop hi hf
  have hchain := h.chains i hi
  rw [hf] at hchain
  refine ⟨hchain.1, hchain.2, ?_, ?_, ?_⟩
  · exact ((List.perm_append_left_iff out).mpr hperm).nodup_iff.mp h.nodup
  · rw [h.freeSize, sumOf_perm hperm, sumOf_cons]
  · rw [h.chunkCount, hperm.length_eq, List.length_cons]

/-- The lists of the classes, as their links give them. -/
def FreeLists (w : World A) (frees : Nat -> List Nat) : Prop :=
  forall i, i < w.mgr.freeLen ->
    Chain (fun c => (w.mem c).next) (w.mgr.freeList i) (frees i)

theorem chains_pop (h : FreeLists w frees) {i c : Nat} {rest : List Nat}
    (hi : i < w.mgr.freeLen) (hf : frees i = c :: rest) (j : Nat)
    (hj : j < w.mgr.freeLen) :
    Chain (fun c => (w.mem c).next)
      (Function.update w.mgr.freeList i (w.mem c).next j)
      (Function.update frees i rest j) := by
  by_cases hji : j = i
  · subst hji
    have hchain := h j hj
    rw [hf] at hchain
    rw [Function.update_self, Function.update_self]
    exact hchain.2
  · rw [Function.update_of_ne hji, Function.update_of_ne hji]
    exact h j hj

theorem mem_pop {i c d : Nat} {rest : List Nat} (hf : frees i = c :: rest) {j : Nat}
    (hd : d ∈ Function.update frees i rest j) : d ∈ frees j := by
  by_cases hji : j = i
  · subst hji
    rw [Function.update_self] at hd
    rw [hf]
    exact List.mem_cons_of_mem _ hd
  · rwa [Function.update_of_ne hji] at hd

theorem Accounts.pop (h : Accounts C w frees out) {i c : Nat} {rest : List Nat}
    (hi : i < w.mgr.freeLen) (hf : frees i = c :: rest) {w' : World A}
    (hmem : w'.mem = w.mem) (hshape : shape w'.mgr = shape w.mgr)
    (hlists : w'.mgr.freeList = Function.update w.mgr.freeList i (w.mem c).next)
    (hvalid : C.valid w'.heap)
    (hblocks : forall b, b ∈ C.blocks w.heap -> b.1 ≠ c -> b ∈ C.blocks w'.heap)
    (hused : w'.mgr.stat.usedSize = w.mgr.stat.usedSize)
    (hreqs : w'.mgr.stat.reqsSize = w.mgr.stat.reqsSize)
    (hfree : w'.mgr.stat.freeSize + (w.mem c).size = w.mgr.stat.freeSize)
    (hcount : w'.mgr.stat.chunkCount + 1 = w.mgr.stat.chunkCount) :
    Accounts C w' (Function.update frees i rest) out ∧
      c ∉ out ++ listed w'.mgr.freeLen (Function.update frees i rest) := by
  obtain ⟨hlen, hclass⟩ := shape_eq hshape
  obtain ⟨-, -, hnodup, hfreeSize, hchunks⟩ := h.first hi hf
  have hsum : forall field l, sumOf w' field l = sumOf w field l :=
    fun field l => sumOf_congr fun d _ => by rw [hmem]
  have hperm : (out ++ c :: listed w.mgr.freeLen (Function.update frees i rest)).Perm
      (c :: (out ++ listed w.mgr.freeLen (Function.update frees i rest))) :=
    List.perm_middle
  obtain ⟨hcnot, hnodup'⟩ := List.nodup_cons.mp (hperm.nodup_iff.mp hnodup)
  rw [← hlen] at hcnot
  refine ⟨?_, hcnot⟩
  refine
    { valid := hvalid
      chains := by rw [hlen, hmem, hlists]; exact chains_pop h.chains hi hf
      nodup := by rw [hlen]; exact hnodup'
      blocks := ?_
      sizes := by
        rw [hlen, hmem, hclass]
        exact fun j hj d hd => h.sizes j hj d (mem_pop hf hd)
      held := by rw [hlen, hmem, hclass]; exact h.held
      usedSize := by rw [hused, hsum]; exact h.usedSize
      reqsSize := by rw [hreqs, hsum]; exact h.reqsSize
      freeSize := by rw [hsum, hlen]; omega
      chunkCount := by rw [hlen]; omega }
  intro d hd
  have hdc : d ≠ c := fun heq => hcnot (heq ▸ hd)
  have hold : d ∈ out ++ listed w.mgr.freeLen frees := by
    rcases List.mem_append.mp hd with hd | hd
    · exact List.mem_append_left _ hd
    · obtain ⟨j, hj, hd⟩ := mem_listed.mp hd
      rw [hlen] at hj
      exact List.mem_append_right _ (mem_listed.mpr ⟨j, hj, mem_pop hf hd⟩)
  have hb := hblocks _ (h.blocks d hold) hdc
  unfold blockOf at hb ⊢
  rw [hmem]
  exact hb

theorem dropChunk_spec (h : Accounts C w frees out) {i c : Nat} {rest : List Nat}
    (hi : i < w.mgr.freeLen) (hf : frees i = c :: rest) :
    exists w', dropChunk w i c = some w' ∧
      Accounts C w' (Function.update frees i rest) out ∧
      shape w'.mgr = shape w.mgr ∧
      w'.mgr.stat.chunkCount + 1 = w.mgr.stat.chunkCount := by
  obtain ⟨free, hfree, hspec⟩ := C.free
  obtain ⟨-, -, -, hfreeSize, hcount⟩ := h.first hi hf
  have hc : c ∈ frees i := by simp [hf]
  have hsize := h.sizes i hi c hc
  have hblock := h.blocks c (List.mem_append_right _ (mem_listed.mpr ⟨i, hi, hc⟩))
  obtain ⟨-, hvalid, hperm⟩ := hspec w.heap c _ h.valid hblock
  have hcount' : (dropped free w i c).mgr.stat.chunkCount + 1 =
      w.mgr.stat.chunkCount := by
    change sizeSub w.mgr.stat.chunkCount 1 + 1 = _
    rw [sizeSub_eq (by omega)]
    omega
  refine ⟨dropped free w i c, by rw [dropChunk, hfree]; rfl, ?_, rfl, hcount'⟩
  refine And.left (b := c ∉ out ++ listed w.mgr.freeLen _)
    (h.pop hi hf rfl rfl rfl hvalid ?_ rfl rfl ?_ hcount')
  · intro b hb hne
    refine hperm.mem_iff.mpr ((List.mem_erase_of_ne ?_).mpr hb)
    rintro rfl
    exact hne rfl
  · change sizeSub w.mgr.stat.freeSize
      (sizeSub (w.mgr.classSize i) chunkLinkSize) + _ = _
    rw [← hsize, sizeSub_eq (Nat.le_add_left _ _), Nat.add_sub_cancel,
      sizeSub_eq (by omega)]
    omega

/-!
## The loops
-/

structure Fewer (C : Contract A) (w w' : World A) (out : List Nat) : Prop where
  accounts : exists frees, Accounts C w' frees out
  shape : shape w'.mgr = shape w.mgr
  count : w'.mgr.stat.chunkCount ≤ w.mgr.stat.chunkCount

theorem Fewer.trans {w' w'' : World A} (h : Fewer C w w' out) (h' : Fewer C w' w'' out) :
    Fewer C w w'' out :=
  ⟨h'.accounts, h'.shape.trans h.shape, Nat.le_trans h'.count h.count⟩

theorem recoverUp_spec (h : Accounts C w frees out) (n i : Nat)
    (hn : i + n = w.mgr.freeLen) :
    (recoverUp w n i = none ∧ 2 ^ 31 ≤ w.mgr.freeLen) ∨ recoverUp w n i = some none ∨
      exists w', recoverUp w n i = some (some w') ∧ Fewer C w w' out ∧
        w'.mgr.stat.chunkCount < w.mgr.stat.chunkCount := by
  induction n generalizing i with
  | zero =>
      unfold recoverUp
      by_cases hi : 2 ^ 31 ≤ i
      · rw [if_pos hi]
        exact Or.inl ⟨rfl, by omega⟩
      · rw [if_neg hi]
        exact Or.inr (Or.inl rfl)
  | succ n ih =>
      unfold recoverUp
      by_cases hi : 2 ^ 31 ≤ i
      · rw [if_pos hi]
        exact Or.inl ⟨rfl, by omega⟩
      · rw [if_neg hi]
        have hlt : i < w.mgr.freeLen := by omega
        cases hlist : frees i with
        | nil =>
            have hchain := h.chains i hlt
            rw [hlist] at hchain
            have hnone : w.mgr.freeList i = none := hchain
            rw [hnone]
            exact ih (i + 1) (by omega)
        | cons c rest =>
            obtain ⟨w', hdrop, haccounts, hshape, hcount⟩ := dropChunk_spec h hlt hlist
            rw [(h.first hlt hlist).1]
            refine Or.inr (Or.inr ⟨w', ?_, ⟨⟨_, haccounts⟩, hshape, ?_⟩, ?_⟩)
            · dsimp only
              rw [hdrop]
              rfl
            · omega
            · omega

theorem recoverClass_spec (limit : Nat) {i : Nat} (fuel : Nat)
    (h : Accounts C w frees out) (hi : i < w.mgr.freeLen)
    (hfuel : (frees i).length ≤ fuel) (size : Nat) :
    exists b size' w', recoverClass limit i fuel w size = some (b, size', w') ∧
      Fewer C w w' out ∧
      (w.mgr.freeList i ≠ none ->
        w'.mgr.stat.chunkCount < w.mgr.stat.chunkCount) ∧
      (b = true -> w.mgr.freeList i ≠ none) := by
  induction fuel generalizing w frees size with
  | zero =>
      have hchain := h.chains i hi
      rw [List.eq_nil_of_length_eq_zero (Nat.le_zero.mp hfuel)] at hchain
      have hnone : w.mgr.freeList i = none := hchain
      unfold recoverClass
      rw [hnone]
      exact ⟨false, size, w, rfl, ⟨⟨frees, h⟩, rfl, Nat.le_refl _⟩, by simp, by simp⟩
  | succ fuel ih =>
      cases hlist : frees i with
      | nil =>
          have hchain := h.chains i hi
          rw [hlist] at hchain
          have hnone : w.mgr.freeList i = none := hchain
          unfold recoverClass
          rw [hnone]
          exact ⟨false, size, w, rfl, ⟨⟨frees, h⟩, rfl, Nat.le_refl _⟩, by simp, by simp⟩
      | cons c rest =>
          obtain ⟨w1, hdrop, haccounts, hshape, hcount⟩ := dropChunk_spec h hi hlist
          have hsome := (h.first hi hlist).1
          unfold recoverClass
          rw [hsome]
          dsimp only
          rw [hdrop]
          dsimp only
          by_cases hlimit : limit ≤ sizeAdd size (w1.mgr.classSize i)
          · rw [if_pos hlimit]
            refine ⟨true, _, w1, rfl, ⟨⟨_, haccounts⟩, hshape, ?_⟩, ?_, by simp⟩
            · omega
            · intro _
              omega
          · rw [if_neg hlimit]
            have hlen := (shape_eq hshape).1
            have hshort : (Function.update frees i rest i).length ≤ fuel := by
              rw [hlist, List.length_cons] at hfuel
              rw [Function.update_self]
              omega
            obtain ⟨b, size', w', hrec, hfewer, -, -⟩ :=
              ih haccounts (by rw [hlen]; exact hi) hshort
                (sizeAdd size (w1.mgr.classSize i))
            have hle := hfewer.count
            refine ⟨b, size', w', hrec, ⟨hfewer.accounts, hfewer.shape.trans hshape, ?_⟩,
              ?_, by simp⟩
            · omega
            · intro _
              omega

theorem Accounts.length_le (h : Accounts C w frees out) {i : Nat}
    (hi : i < w.mgr.freeLen) : (frees i).length ≤ w.mgr.stat.chunkCount := by
  rw [h.chunkCount]
  exact Nat.le_trans (length_le_listed hi) (Nat.le_add_left _ _)

theorem recoverDown_spec (limit i : Nat) (h : Accounts C w frees out)
    (hi : i ≤ w.mgr.freeLen) (size : Nat) (flag : Bool) :
    exists b flag' w', recoverDown limit i w size flag = some (b, flag', w') ∧
      Fewer C w w' out ∧
      (b = true -> w'.mgr.stat.chunkCount < w.mgr.stat.chunkCount) ∧
      (flag' = true -> flag = true ∨
        w'.mgr.stat.chunkCount < w.mgr.stat.chunkCount) := by
  induction i generalizing w frees size flag with
  | zero =>
      exact ⟨false, flag, w, rfl, ⟨⟨frees, h⟩, rfl, Nat.le_refl _⟩, by simp, Or.inl⟩
  | succ i ih =>
      obtain ⟨b, size', w1, hclass, hfewer, hany, hdone⟩ :=
        recoverClass_spec limit (i := i) w.mgr.stat.chunkCount h (by omega)
          (h.length_le (by omega)) size
      have hflag : (flag || (w.mgr.freeList i).isSome) = true -> flag = true ∨
          w1.mgr.stat.chunkCount < w.mgr.stat.chunkCount := by
        intro hor
        cases hlist : w.mgr.freeList i with
        | none =>
            rw [hlist] at hor
            exact Or.inl (by simpa using hor)
        | some c => exact Or.inr (hany (by simp [hlist]))
      unfold recoverDown
      dsimp only
      rw [hclass]
      cases b with
      | true =>
          exact ⟨true, _, w1, rfl, hfewer, fun _ => hany (hdone rfl), hflag⟩
      | false =>
          obtain ⟨frees1, haccounts⟩ := hfewer.accounts
          have hlen := (shape_eq hfewer.shape).1
          obtain ⟨b, flag', w', hrec, hfewer', htrue, hflag'⟩ :=
            ih haccounts (by omega) size' (flag || (w.mgr.freeList i).isSome)
          have hle := hfewer.count
          refine ⟨b, flag', w', hrec, hfewer.trans hfewer', ?_, ?_⟩
          · intro hb
            have := htrue hb
            omega
          · intro hf
            have hle' := hfewer'.count
            rcases hflag' hf with hor | hlt
            · rcases hflag hor with hor | hlt
              · exact Or.inl hor
              · exact Or.inr (by omega)
            · exact Or.inr (by omega)

/-- `dfs_slabs_recover` keeps the accounts, and has given a chunk back unless it
says that there is no space. -/
theorem recover_spec (h : Accounts C w frees out) (chunkSize : Nat) {id : Nat}
    (hid : id < w.mgr.freeLen) :
    (recover w chunkSize id = none ∧ 2 ^ 31 ≤ w.mgr.freeLen) ∨
      exists r w', recover w chunkSize id = some (r, w') ∧ Fewer C w w' out ∧
        (r ≠ Recovered.noSpace ->
          w'.mgr.stat.chunkCount < w.mgr.stat.chunkCount) := by
  dsimp only [recover]
  generalize hw1 : ({ w with mgr := { w.mgr with
    stat := { w.mgr.stat with recover := w.mgr.stat.recover + 1 } } } : World A) = w1
  have h1 : Accounts C w1 frees out := by
    subst hw1
    exact h.congr rfl rfl rfl h.valid (fun _ hb => hb) rfl rfl rfl rfl
  have hshape1 : shape w1.mgr = shape w.mgr := by
    subst hw1
    rfl
  have hlen1 := (shape_eq hshape1).1
  have hcount1 : w1.mgr.stat.chunkCount = w.mgr.stat.chunkCount := by
    subst hw1
    rfl
  clear hw1
  rw [← hlen1]
  rcases recoverUp_spec h1 (w1.mgr.freeLen - (id + 1)) (id + 1) (by omega) with
    ⟨hnone, hlarge⟩ | hnone | ⟨w', hsome, hfewer, hlt⟩
  · rw [hnone]
    exact Or.inl ⟨rfl, hlarge⟩
  · rw [hnone]
    obtain ⟨b, flag, w2, hdown, hfewer, htrue, hflag⟩ :=
      recoverDown_spec (chunkSize * 2 % 2 ^ 64) id h1 (by omega) 0 false
    dsimp only
    rw [hdown]
    obtain ⟨⟨frees2, haccounts2⟩, hshape2, hle2⟩ := hfewer
    cases b with
    | true =>
        refine Or.inr ⟨Recovered.yes, w2, rfl,
          ⟨⟨frees2, haccounts2⟩, hshape2.trans hshape1, by omega⟩, fun _ => ?_⟩
        have := htrue rfl
        omega
    | false =>
        refine Or.inr ⟨_, _, rfl, ⟨⟨frees2, ?_⟩, ?_, ?_⟩, ?_⟩
        · exact haccounts2.congr rfl rfl rfl haccounts2.valid (fun _ hb => hb) rfl rfl
            rfl rfl
        · exact hshape2.trans hshape1
        · change w2.mgr.stat.chunkCount ≤ _
          omega
        · intro hr
          change w2.mgr.stat.chunkCount < _
          cases flag with
          | false => exact absurd rfl hr
          | true =>
              have := (hflag rfl).resolve_left (by simp)
              omega
  · rw [hsome]
    refine Or.inr ⟨Recovered.yes, w', rfl,
      ⟨hfewer.accounts, hfewer.shape.trans hshape1, ?_⟩, fun _ => ?_⟩
    · have := hfewer.count
      omega
    · omega

/-- A chunk of `n` bytes that the manager does not have yet. -/
structure Fresh (C : Contract A) (w : World A) (out : List Nat) (c n : Nat) : Prop where
  accounts : exists frees, Accounts C w frees out ∧
    c ∉ out ++ listed w.mgr.freeLen frees
  block : (c, n) ∈ C.blocks w.heap

theorem fresh_alloc (h : Accounts C w frees out) {n c : Nat} (hn : 0 < n)
    {heap : A.State} (hvalid : C.valid heap)
    (hperm : (C.blocks heap).Perm ((c, n) :: C.blocks w.heap)) :
    Fresh C { w with heap := heap } out c n := by
  refine ⟨⟨frees, ?_, ?_⟩, hperm.mem_iff.mpr (by simp)⟩
  · exact h.congr rfl rfl rfl hvalid
      (fun b hb => hperm.mem_iff.mpr (List.mem_cons_of_mem _ hb)) rfl rfl rfl rfl
  · intro hc
    have hapart := (pairwise_apart_perm hperm).mp (C.apart heap hvalid)
    refine not_apart_of_start hn ?_
      ((List.pairwise_cons.mp hapart).1 _ (h.blocks c hc))
    unfold chunkLinkSize
    omega

theorem allocLoop_spec (fuel : Nat) (h : Accounts C w frees out) {chunkSize id : Nat}
    (hsize : 0 < chunkSize) (hid : id < w.mgr.freeLen)
    (hfuel : w.mgr.stat.chunkCount < fuel) :
    (allocLoop chunkSize id fuel w = none ∧ 2 ^ 31 ≤ w.mgr.freeLen) ∨
      (exists w', allocLoop chunkSize id fuel w = some (none, w') ∧ Fewer C w w' out) ∨
      exists c w', allocLoop chunkSize id fuel w = some (some c, w') ∧
        shape w'.mgr = shape w.mgr ∧ Fresh C w' out c chunkSize := by
  induction fuel generalizing w frees with
  | zero => omega
  | succ fuel ih =>
      unfold allocLoop
      rcases recover_spec h chunkSize hid with ⟨hnone, hlarge⟩ | ⟨r, w1, hsome, hfewer, hlt⟩
      · rw [hnone]
        exact Or.inl ⟨rfl, hlarge⟩
      · rw [hsome]
        obtain ⟨⟨frees1, haccounts1⟩, hshape1, hle1⟩ := hfewer
        have hlen1 := (shape_eq hshape1).1
        dsimp only
        by_cases hr : r = Recovered.noSpace
        · rw [if_pos hr]
          exact Or.inr (Or.inl ⟨w1, rfl, ⟨⟨frees1, haccounts1⟩, hshape1, hle1⟩⟩)
        · have hlt1 := hlt hr
          rw [if_neg hr]
          cases halloc : A.alloc w1.heap chunkSize with
          | mk p heap =>
              cases p with
              | some c =>
                  obtain ⟨hvalid, hperm⟩ :=
                    C.alloc_some _ _ _ _ haccounts1.valid halloc
                  exact Or.inr (Or.inr ⟨c, _, rfl, hshape1,
                    fresh_alloc haccounts1 hsize hvalid hperm⟩)
              | none =>
                  obtain ⟨hvalid, hperm⟩ := C.alloc_none _ _ _ haccounts1.valid halloc
                  have haccounts2 : Accounts C { w1 with heap := heap } frees1 out :=
                    haccounts1.congr rfl rfl rfl hvalid
                      (fun b hb => hperm.mem_iff.mpr hb) rfl rfl rfl rfl
                  rcases ih haccounts2 (by rw [hlen1]; exact hid)
                      (Nat.lt_of_lt_of_le hlt1 (Nat.lt_succ_iff.mp hfuel)) with
                    ⟨hn, hlarge⟩ | ⟨w', hw', hf⟩ | ⟨c, w', hw', hs, hfresh⟩
                  · exact Or.inl ⟨hn, by rw [← hlen1]; exact hlarge⟩
                  · exact Or.inr (Or.inl ⟨w', hw', hf.accounts,
                      hf.shape.trans hshape1, Nat.le_trans hf.count hle1⟩)
                  · exact Or.inr (Or.inr ⟨c, w', hw', hs.trans hshape1, hfresh⟩)

end Slabs
end NgxEpoll
