import NgxEpoll.Slabs.Functions

/-!
# The classes of the slab manager

`dfs_slabs_clsid` finds a class that the request fits into, if the request with its
header does not wrap.
-/

namespace NgxEpoll
namespace Slabs

open NgxEpoll.Core

/-- A request that leaves room for the header and its alignment. -/
def NoWrap (size : Nat) : Prop :=
  size + chunkLinkSize + 8 ≤ 2 ^ 64

instance (size : Nat) : Decidable (NoWrap size) :=
  inferInstanceAs (Decidable (_ ≤ _))

theorem chunkSizeOf_spec {size : Nat} (h : NoWrap size) :
    size + chunkLinkSize ≤ chunkSizeOf size ∧
      chunkSizeOf size < size + chunkLinkSize + 8 ∧ chunkSizeOf size % 8 = 0 := by
  unfold NoWrap at h
  unfold chunkSizeOf
  rw [sizeAdd_eq (by omega)]
  exact alignment_spec h

theorem chunkSizeOf_mono {x y : Nat} (hxy : x ≤ y) (hy : NoWrap y) :
    chunkSizeOf x ≤ chunkSizeOf y := by
  have hx : NoWrap x := by
    unfold NoWrap at *
    omega
  have hx' := chunkSizeOf_spec hx
  have hy' := chunkSizeOf_spec hy
  omega

/-- Every request that is given a class fits into its chunks. -/
def Fits (mgr : SlabManager) : Prop :=
  forall size id, NoWrap size -> clsid mgr size true = some id ->
    id < mgr.freeLen ∧ chunkSizeOf size ≤ mgr.classSize id

theorem search_spec {classSize : Nat -> Nat} {allSize : Nat} (fuel : Nat)
    {low high id : Nat} (hlow : 1 ≤ low)
    (h : search classSize allSize fuel low high = some id) :
    id ≤ high + 1 ∧ allSize ≤ classSize id := by
  induction fuel generalizing low high with
  | zero => cases h
  | succ fuel ih =>
      dsimp only [search] at h
      split at h
      · cases h
      rename_i hle
      split at h
      · rename_i hmid
        split at h
        · cases h
          exact ⟨by omega, hmid⟩
        split at h
        · rename_i heq
          cases h
          exact ⟨by omega, by omega⟩
        · have hrec := ih hlow h
          exact ⟨by omega, hrec.2⟩
      · split at h
        · rename_i hnext
          cases h
          exact ⟨by omega, hnext⟩
        · exact ih (by omega) h

theorem fits_power {mgr : SlabManager} (huptype : mgr.uptype = Uptype.power)
    (hlen : 2 ≤ mgr.freeLen) : Fits mgr := by
  intro size id _ h
  dsimp only [clsid] at h
  split at h
  · cases h
  split at h
  · cases h
  split at h
  · cases h
    exact ⟨by omega, by assumption⟩
  split at h
  · rename_i heq
    cases h
    exact ⟨by omega, Nat.le_of_eq heq⟩
  · rw [huptype] at h
    obtain ⟨hid, hsize⟩ := search_spec mgr.freeLen (Nat.le_refl 1) h
    exact ⟨by omega, hsize⟩

theorem itemSize_linear {m : Nat} (hm : m < 2 ^ 64) (i : Nat) :
    itemSize Uptype.linear 1024 m i = (m + 1024 * i) % 2 ^ 64 := by
  induction i with
  | zero =>
      rw [Nat.mul_zero, Nat.add_zero, Nat.mod_eq_of_lt hm]
      rfl
  | succ i ih =>
      change sizeAdd (itemSize Uptype.linear 1024 m i) 1024 = _
      rw [ih]
      unfold sizeAdd
      split
      · omega
      · omega

theorem chunkSizeOf_wrapped {size : Nat} (hlt : size < 2 ^ 64) (h : ¬ NoWrap size) :
    chunkSizeOf size ≤ chunkLinkSize := by
  unfold NoWrap chunkLinkSize at *
  unfold chunkSizeOf sizeAdd alignment chunkLinkSize
  split
  · split
    · omega
    · omega
  · split
    · omega
    · omega

/-- The class of a request, as `dfs_slabs_clsid` computes it for linear classes. -/
theorem clsid_linear {mgr : SlabManager} (huptype : mgr.uptype = Uptype.linear)
    {size id : Nat} (h : clsid mgr size true = some id) :
    chunkSizeOf size ≤ mgr.classSize (mgr.freeLen - 1) ∧ size ≠ 0 ∧
      ((id = 0 ∧ chunkSizeOf size ≤ mgr.classSize 0) ∨
        (id = mgr.freeLen - 1 ∧ chunkSizeOf size = mgr.classSize (mgr.freeLen - 1)) ∨
        (mgr.classSize 0 < chunkSizeOf size ∧
          chunkSizeOf size ≠ mgr.classSize (mgr.freeLen - 1) ∧
          id = sizeSub size mgr.minSize / mgr.factor +
            if sizeSub size mgr.minSize % mgr.factor = 0 then 0 else 1)) := by
  dsimp only [clsid] at h
  split at h
  · cases h
  rename_i hsize
  split at h
  · cases h
  rename_i hmax
  refine ⟨by omega, hsize, ?_⟩
  split at h
  · rename_i hfirst
    cases h
    exact Or.inl ⟨rfl, hfirst⟩
  rename_i hfirst
  split at h
  · rename_i hlast
    cases h
    exact Or.inr (Or.inl ⟨rfl, hlast⟩)
  rename_i hlast
  rw [huptype] at h
  refine Or.inr (Or.inr ⟨by omega, hlast, ?_⟩)
  simp only [Option.some.injEq] at h
  rw [← h]
  split
  · rename_i hrem
    rw [if_neg hrem.2]
  · rename_i hrem
    rw [if_pos (by simpa using hrem)]

theorem fits_linear {mgr : SlabManager} {itemSizeMax : Nat}
    (huptype : mgr.uptype = Uptype.linear) (hfactor : mgr.factor = 1024)
    (hclass : forall i, mgr.classSize i =
      chunkSizeOf (itemSize Uptype.linear 1024 mgr.minSize i))
    (hlen : mgr.freeLen = (itemSizeMax - mgr.minSize) / 1024 +
      (if (itemSizeMax - mgr.minSize) % 1024 = 0 then 0 else 1) + 1)
    (hmin : 1 ≤ mgr.minSize) (hmax : 2 * mgr.minSize ≤ itemSizeMax)
    (hlt : itemSizeMax < 2 ^ 64) : Fits mgr := by
  intro size id hwrap h
  obtain ⟨hle, hsize, hcases⟩ := clsid_linear huptype h
  have hitem : forall i, mgr.classSize i =
      chunkSizeOf ((mgr.minSize + 1024 * i) % 2 ^ 64) := by
    intro i
    rw [hclass, itemSize_linear (by omega)]
  have hclasses : 1 ≤ mgr.freeLen - 1 ∧ mgr.freeLen - 1 < mgr.freeLen ∧
      mgr.minSize + 1024 * (mgr.freeLen - 1) < itemSizeMax + 1024 := by
    rw [hlen]
    split
    · omega
    · omega
  have hspec := chunkSizeOf_spec hwrap
  rcases hcases with ⟨rfl, hfirst⟩ | ⟨rfl, hlast⟩ | ⟨hfirst, hlast, hid⟩
  · exact ⟨by omega, hfirst⟩
  · exact ⟨by omega, Nat.le_of_eq hlast⟩
  · have habove : mgr.minSize < size := by
      by_contra hnot
      have hmin' : NoWrap mgr.minSize := by
        unfold NoWrap chunkLinkSize
        omega
      have hmono := chunkSizeOf_mono (Nat.le_of_not_lt hnot) hmin'
      have hzero := hitem 0
      rw [Nat.mul_zero, Nat.add_zero, Nat.mod_eq_of_lt (by omega)] at hzero
      omega
    rw [hfactor, sizeSub_eq (by omega)] at hid
    have hid' : size ≤ mgr.minSize + 1024 * id ∧
        mgr.minSize + 1024 * id < size + 1024 := by
      rw [hid]
      split
      · omega
      · omega
    have hfits : id ≤ mgr.freeLen - 1 -> NoWrap (mgr.minSize + 1024 * id) ->
        id < mgr.freeLen ∧ chunkSizeOf size ≤ mgr.classSize id := by
      intro hle' hwrap'
      refine ⟨by omega, ?_⟩
      have hlt' : mgr.minSize + 1024 * id < 2 ^ 64 := by
        unfold NoWrap at hwrap'
        omega
      rw [hitem, Nat.mod_eq_of_lt hlt']
      exact chunkSizeOf_mono hid'.1 hwrap'
    have hlastSize := hitem (mgr.freeLen - 1)
    by_cases htop : NoWrap (mgr.minSize + 1024 * (mgr.freeLen - 1))
    · have hbelow : size < mgr.minSize + 1024 * (mgr.freeLen - 1) := by
        by_contra hnot
        have hmono := chunkSizeOf_mono (Nat.le_of_not_lt hnot) hwrap
        rw [Nat.mod_eq_of_lt (by unfold NoWrap at htop; omega)] at hlastSize
        omega
      have hle' : id ≤ mgr.freeLen - 1 := by omega
      refine hfits hle' ?_
      unfold NoWrap at htop ⊢
      omega
    · by_cases hover : mgr.minSize + 1024 * (mgr.freeLen - 1) < 2 ^ 64
      · rw [Nat.mod_eq_of_lt hover] at hlastSize
        have hsmall := chunkSizeOf_wrapped hover htop
        omega
      · -- the largest class has wrapped to less than one step
        have hrest : NoWrap ((mgr.minSize + 1024 * (mgr.freeLen - 1)) % 2 ^ 64) := by
          unfold NoWrap chunkLinkSize
          omega
        have hlast' := chunkSizeOf_spec hrest
        have hsize' : size ≤ 1024 := by
          unfold chunkLinkSize at *
          omega
        have hle' : id ≤ 1 := by omega
        refine hfits (by omega) ?_
        unfold NoWrap chunkLinkSize
        omega

end Slabs
end NgxEpoll
