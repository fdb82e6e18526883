import Mathlib.Data.List.Nodup

/-!
# Tilings of an interval

Pieces named by their first address, each with a width, laid end to end.
-/

namespace NgxEpoll
namespace Foundation

/-- The pieces cover the interval from `s` to `e` without gap or overlap. -/
def Tiles (width : Nat -> Nat) : Nat -> List Nat -> Nat -> Prop
  | s, [], e => s = e
  | s, a :: rest, e => a = s ∧ Tiles width (a + width a) rest e

variable {width width' : Nat -> Nat} {s e : Nat}

theorem tiles_append {l r : List Nat} :
    Tiles width s (l ++ r) e ↔ exists m, Tiles width s l m ∧ Tiles width m r e := by
  induction l generalizing s with
  | nil => simp [Tiles]
  | cons a l ih =>
      constructor
      · rintro ⟨ha, hrest⟩
        obtain ⟨m, hl, hr⟩ := ih.mp hrest
        exact ⟨m, ⟨ha, hl⟩, hr⟩
      · rintro ⟨m, ⟨ha, hl⟩, hr⟩
        exact ⟨ha, ih.mpr ⟨m, hl, hr⟩⟩

theorem Tiles.congr {l : List Nat} (h : forall a, a ∈ l -> width' a = width a)
    (ht : Tiles width s l e) : Tiles width' s l e := by
  induction l generalizing s with
  | nil => exact ht
  | cons a l ih =>
      obtain ⟨ha, hrest⟩ := ht
      refine ⟨ha, ?_⟩
      rw [h a (List.mem_cons_self ..)]
      exact ih (fun b hb => h b (List.mem_cons_of_mem _ hb)) hrest

theorem Tiles.le {l : List Nat} (ht : Tiles width s l e) : s ≤ e := by
  induction l generalizing s with
  | nil => exact Nat.le_of_eq ht
  | cons a l ih =>
      have hle := ih ht.2
      have ha := ht.1
      omega

theorem Tiles.inside {l : List Nat} (ht : Tiles width s l e) {a : Nat} (ha : a ∈ l) :
    s ≤ a ∧ a + width a ≤ e := by
  obtain ⟨pre, post, rfl⟩ := List.append_of_mem ha
  obtain ⟨m, hpre, heq, hpost⟩ := tiles_append.mp ht
  subst heq
  exact ⟨hpre.le, hpost.le⟩

theorem Tiles.apart {pre post : List Nat} {a : Nat}
    (ht : Tiles width s (pre ++ a :: post) e) :
    (forall b, b ∈ pre -> b + width b ≤ a) ∧
      forall b, b ∈ post -> a + width a ≤ b := by
  obtain ⟨m, hpre, heq, hpost⟩ := tiles_append.mp ht
  subst heq
  exact ⟨fun b hb => (hpre.inside hb).2, fun b hb => (hpost.inside hb).1⟩

theorem tiles_split {pre post : List Nat} {a b : Nat} (hb : b = a + width' a)
    (hw : width' a + width' b = width a)
    (hsame : forall x, x ∈ pre ++ post -> width' x = width x) :
    Tiles width' s (pre ++ a :: b :: post) e ↔ Tiles width s (pre ++ a :: post) e := by
  have hend : b + width' b = a + width a := by omega
  rw [tiles_append, tiles_append]
  constructor
  · rintro ⟨m, hpre, ha, -, hpost⟩
    rw [hend] at hpost
    refine ⟨m, hpre.congr ?_, ha, hpost.congr ?_⟩
    · exact fun x hx => (hsame x (List.mem_append_left _ hx)).symm
    · exact fun x hx => (hsame x (List.mem_append_right _ hx)).symm
  · rintro ⟨m, hpre, ha, hpost⟩
    rw [← hend] at hpost
    refine ⟨m, hpre.congr ?_, ha, hb, hpost.congr ?_⟩
    · exact fun x hx => hsame x (List.mem_append_left _ hx)
    · exact fun x hx => hsame x (List.mem_append_right _ hx)

theorem Tiles.nodup {l : List Nat} (ht : Tiles width s l e)
    (hpos : forall a, a ∈ l -> 0 < width a) : l.Nodup := by
  induction l generalizing s with
  | nil => exact List.nodup_nil
  | cons a l ih =>
      refine List.nodup_cons.mpr
        ⟨?_, ih ht.2 fun b hb => hpos b (List.mem_cons_of_mem _ hb)⟩
      intro hmem
      have hle := (ht.2.inside hmem).1
      have := hpos a (List.mem_cons_self ..)
      omega

end Foundation
end NgxEpoll
