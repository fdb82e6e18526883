import Mathlib.Data.List.Basic

/-!
# Accesses

What a piece of code does to a mapping besides computing: divisions, the mapping
of memory and its release, and writes at an offset from its start.  A sequence of
accesses is safe when no divisor is zero and every write is inside of what is
mapped at that moment.
-/

namespace NgxEpoll
namespace Foundation

inductive Access where
  | divide (d : Nat)
  | map (n : Nat)
  | write (a n : Nat)
  | unmap
deriving DecidableEq

def Access.mapping (m : Option Nat) : Access -> Option Nat
  | divide _ => m
  | map n => some n
  | write _ _ => m
  | unmap => none

/-- An access that is allowed when `m` bytes are mapped. -/
def Access.Allowed (m : Option Nat) : Access -> Prop
  | divide d => d ≠ 0
  | map _ => True
  | write a n =>
      match m with
      | some total => a + n ≤ total
      | none => False
  | unmap => True

instance (m : Option Nat) (x : Access) : Decidable (x.Allowed m) :=
  match x with
  | Access.divide d => inferInstanceAs (Decidable (d ≠ 0))
  | Access.map _ => inferInstanceAs (Decidable True)
  | Access.write a n =>
      match m with
      | some total => inferInstanceAs (Decidable (a + n ≤ total))
      | none => inferInstanceAs (Decidable False)
  | Access.unmap => inferInstanceAs (Decidable True)

def mapping (m : Option Nat) (l : List Access) : Option Nat :=
  l.foldl Access.mapping m

def Safe : Option Nat -> List Access -> Prop
  | _, [] => True
  | m, x :: l => x.Allowed m ∧ Safe (x.mapping m) l

instance Safe.decidable : (m : Option Nat) -> (l : List Access) -> Decidable (Safe m l)
  | _, [] => inferInstanceAs (Decidable True)
  | m, x :: l =>
      have := Safe.decidable (x.mapping m) l
      inferInstanceAs (Decidable (x.Allowed m ∧ Safe (x.mapping m) l))

variable {m : Option Nat} {l l' : List Access} {total : Nat}

@[simp] theorem mapping_cons (x : Access) :
    mapping m (x :: l) = mapping (x.mapping m) l := rfl

@[simp] theorem mapping_nil : mapping m [] = m := rfl

@[simp] theorem mapping_append : mapping m (l ++ l') = mapping (mapping m l) l' :=
  List.foldl_append

@[simp] theorem safe_nil : Safe m [] := trivial

@[simp] theorem safe_cons (x : Access) :
    Safe m (x :: l) ↔ x.Allowed m ∧ Safe (x.mapping m) l := Iff.rfl

/-- A sequence is safe when its parts are. -/
@[simp] theorem safe_append :
    Safe m (l ++ l') ↔ Safe m l ∧ Safe (mapping m l) l' := by
  induction l generalizing m with
  | nil => simp
  | cons x l ih => rw [List.cons_append, safe_cons, safe_cons, ih, and_assoc, mapping_cons]

/-- A safe sequence that leaves the `total` bytes mapped. -/
structure Keeps (total : Nat) (l : List Access) : Prop where
  safe : Safe (some total) l
  mapped : mapping (some total) l = some total

theorem Keeps.append (h : Keeps total l) (h' : Keeps total l') : Keeps total (l ++ l') := by
  constructor
  · rw [safe_append, h.mapped]
    exact ⟨h.safe, h'.safe⟩
  · rw [mapping_append, h.mapped]
    exact h'.mapped

theorem keeps_nil : Keeps total [] := ⟨trivial, rfl⟩

theorem Keeps.divide (h : Keeps total l) {d : Nat} (hd : d ≠ 0) :
    Keeps total (Access.divide d :: l) :=
  ⟨⟨hd, h.safe⟩, h.mapped⟩

theorem Keeps.write (h : Keeps total l) {a n : Nat} (ha : a + n ≤ total) :
    Keeps total (Access.write a n :: l) :=
  ⟨⟨ha, h.safe⟩, h.mapped⟩

theorem Keeps.unmap (h : Keeps total l) :
    Safe (some total) (l ++ [Access.unmap]) ∧
      mapping (some total) (l ++ [Access.unmap]) = none := by
  rw [safe_append, mapping_append, h.mapped]
  exact ⟨⟨h.safe, trivial, trivial⟩, rfl⟩

theorem safe_writes {ι : Type} (is : List ι) (f : ι -> Nat) (n : Nat) :
    Safe (some total) (is.map fun i => Access.write (f i) n) ↔
      forall i, i ∈ is -> f i + n ≤ total := by
  induction is with
  | nil => simp
  | cons i is ih =>
      rw [List.map_cons, safe_cons, List.forall_mem_cons]
      exact and_congr_right fun _ => ih

theorem keeps_writes {ι : Type} {is : List ι} {f : ι -> Nat} {n : Nat}
    (h : forall i, i ∈ is -> f i + n ≤ total) :
    Keeps total (is.map fun i => Access.write (f i) n) := by
  induction is with
  | nil => exact keeps_nil
  | cons i is ih =>
      exact (ih fun j hj => h j (List.mem_cons_of_mem _ hj)).write (h i (List.mem_cons_self ..))

end Foundation
end NgxEpoll
