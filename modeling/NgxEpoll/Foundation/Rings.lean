import Mathlib.Data.List.Induction
import Mathlib.Data.List.Nodup
import Mathlib.Logic.Function.Basic

/-!
# Doubly linked rings in memory

Intrusive queues: a head and entries, each with a pointer to the next and to the
previous one.  `Ring L h xs` says that the entries met from the head `h` on are
`xs`, and the same backwards.

## The queue operations
-/

namespace NgxEpoll
namespace Foundation

/-- The two pointers of every node; `none` is the null pointer. -/
structure Links (α : Type) where
  next : α -> Option α
  prev : α -> Option α

namespace Links

variable {α : Type} [DecidableEq α]

def setNext (L : Links α) (x : α) (v : Option α) : Links α :=
  { L with next := Function.update L.next x v }

def setPrev (L : Links α) (x : α) (v : Option α) : Links α :=
  { L with prev := Function.update L.prev x v }

def setNextAt (L : Links α) (p : Option α) (v : Option α) : Links α :=
  match p with
  | none => L
  | some x => L.setNext x v

def setPrevAt (L : Links α) (p : Option α) (v : Option α) : Links α :=
  match p with
  | none => L
  | some x => L.setPrev x v

def queueInit (L : Links α) (q : α) : Links α :=
  (L.setPrev q (some q)).setNext q (some q)

def queueEmpty (L : Links α) (h : α) : Bool :=
  L.prev h == some h

def queueInsertHead (L : Links α) (h x : α) : Links α :=
  let L := L.setNext x (L.next h)
  let L := L.setPrevAt (L.next x) (some x)
  let L := L.setPrev x (some h)
  L.setNext h (some x)

def queueInsertTail (L : Links α) (h x : α) : Links α :=
  let L := L.setPrev x (L.prev h)
  let L := L.setNextAt (L.prev x) (some x)
  let L := L.setNext x (some h)
  L.setPrev h (some x)

def queueInsertBefore (L : Links α) (listelm elm : α) : Links α :=
  let L := L.setPrev elm (L.prev listelm)
  let L := L.setNext elm (some listelm)
  let L := L.setNextAt (L.prev listelm) (some elm)
  L.setPrev listelm (some elm)

def queueInsertAfter (L : Links α) (listelm elm : α) : Links α :=
  let L := L.setNext elm (L.next listelm)
  let L := L.setPrev elm (some listelm)
  let L := L.setPrevAt (L.next listelm) (some elm)
  L.setNext listelm (some elm)

def queueRemove (L : Links α) (x : α) : Links α :=
  let L := L.setPrevAt (L.next x) (L.prev x)
  let L := L.setNextAt (L.prev x) (L.next x)
  let L := L.setNext x none
  L.setPrev x none

def splice (L : Links α) (a x b : α) : Links α where
  next := Function.update (Function.update L.next x (some b)) a (some x)
  prev := Function.update (Function.update L.prev x (some a)) b (some x)

omit [DecidableEq α] in
theorem ext_next_prev {L L' : Links α} (hn : forall y, L.next y = L'.next y)
    (hp : forall y, L.prev y = L'.prev y) : L = L' := by
  cases L
  cases L'
  simp only [Links.mk.injEq]
  exact ⟨funext hn, funext hp⟩

/-!
## Each insertion puts the entry between two neighbours
-/

theorem queueInsertHead_eq {L : Links α} {h x b : α} (hn : L.next h = some b)
    (hxb : x ≠ b) : L.queueInsertHead h x = L.splice h x b := by
  refine ext_next_prev (fun y => ?_) (fun y => ?_)
  · simp only [queueInsertHead, splice, setNext, setPrev, setPrevAt, hn,
      Function.update_self, Function.update_apply]
  · simp only [queueInsertHead, splice, setNext, setPrev, setPrevAt, hn,
      Function.update_self, Function.update_apply]
    by_cases hyb : y = b
    · simp [hyb, Ne.symm hxb]
    · simp [hyb]

theorem queueInsertTail_eq {L : Links α} {h x a : α} (hp : L.prev h = some a)
    (hxa : x ≠ a) : L.queueInsertTail h x = L.splice a x h := by
  refine ext_next_prev (fun y => ?_) (fun y => ?_)
  · simp only [queueInsertTail, splice, setNext, setPrev, setNextAt, hp,
      Function.update_self, Function.update_apply]
    by_cases hya : y = a
    · simp [hya, Ne.symm hxa]
    · simp [hya]
  · simp only [queueInsertTail, splice, setNext, setPrev, setNextAt, hp,
      Function.update_self, Function.update_apply]

theorem queueInsertBefore_eq {L : Links α} {b x a : α} (hp : L.prev b = some a)
    (hxb : x ≠ b) : L.queueInsertBefore b x = L.splice a x b := by
  have hread : Function.update L.prev x (some a) b = some a := by
    rw [Function.update_of_ne (Ne.symm hxb), hp]
  refine ext_next_prev (fun y => ?_) (fun y => ?_)
  · simp only [queueInsertBefore, splice, setNext, setPrev, setNextAt, hp, hread]
  · simp only [queueInsertBefore, splice, setNext, setPrev, setNextAt, hp, hread]

theorem queueInsertAfter_eq {L : Links α} {a x b : α} (hn : L.next a = some b)
    (hxa : x ≠ a) : L.queueInsertAfter a x = L.splice a x b := by
  have hread : Function.update L.next x (some b) a = some b := by
    rw [Function.update_of_ne (Ne.symm hxa), hn]
  refine ext_next_prev (fun y => ?_) (fun y => ?_)
  · simp only [queueInsertAfter, splice, setNext, setPrev, setPrevAt, hn, hread]
  · simp only [queueInsertAfter, splice, setNext, setPrev, setPrevAt, hn, hread]

def unlink (L : Links α) (a x b : α) : Links α where
  next := Function.update (Function.update L.next a (some b)) x none
  prev := Function.update (Function.update L.prev b (some a)) x none

theorem queueRemove_eq {L : Links α} {a x b : α} (hn : L.next x = some b)
    (hp : L.prev x = some a) (hxb : x ≠ b) : L.queueRemove x = L.unlink a x b := by
  have hread : Function.update L.prev b (some a) x = some a := by
    rw [Function.update_of_ne hxb, hp]
  refine ext_next_prev (fun y => ?_) (fun y => ?_)
  · simp only [queueRemove, unlink, setNext, setPrev, setPrevAt, setNextAt, hn, hp,
      hread]
  · simp only [queueRemove, unlink, setNext, setPrev, setPrevAt, setNextAt, hn, hp,
      hread]

end Links

/-!
## Rings
-/

variable {α : Type}

def Linked (L : Links α) : List α -> Prop
  | x :: y :: rest => L.next x = some y ∧ L.prev y = some x ∧ Linked L (y :: rest)
  | _ => True

theorem linked_append {L : Links α} {l : List α} {x : α} {r : List α} :
    Linked L (l ++ x :: r) ↔ Linked L (l ++ [x]) ∧ Linked L (x :: r) := by
  induction l with
  | nil => simp [Linked]
  | cons y l ih =>
      cases l with
      | nil =>
          constructor
          · rintro ⟨hn, hp, hr⟩
            exact ⟨⟨hn, hp, trivial⟩, hr⟩
          · rintro ⟨⟨hn, hp, -⟩, hr⟩
            exact ⟨hn, hp, hr⟩
      | cons z l =>
          constructor
          · rintro ⟨hn, hp, hr⟩
            obtain ⟨hl, hr⟩ := ih.mp hr
            exact ⟨⟨hn, hp, hl⟩, hr⟩
          · rintro ⟨⟨hn, hp, hl⟩, hr⟩
            exact ⟨hn, hp, ih.mpr ⟨hl, hr⟩⟩

/-- Only forward pointers of all but the last node and backward pointers of all
but the first matter. -/
theorem Linked.congr {L L' : Links α} {l : List α}
    (hn : forall x, x ∈ l.dropLast -> L'.next x = L.next x)
    (hp : forall x, x ∈ l.tail -> L'.prev x = L.prev x) (h : Linked L l) :
    Linked L' l := by
  induction l with
  | nil => trivial
  | cons x l ih =>
      cases l with
      | nil => trivial
      | cons y l =>
          obtain ⟨hnext, hprev, hrest⟩ := h
          refine ⟨?_, ?_, ih ?_ ?_ hrest⟩
          · rw [hn x (by simp)]
            exact hnext
          · rw [hp y (by simp)]
            exact hprev
          · intro z hz
            refine hn z ?_
            rw [List.dropLast_cons_of_ne_nil (by simp)]
            exact List.mem_cons_of_mem _ hz
          · exact fun z hz => hp z (by simpa using Or.inr hz)

/-- The entries of the ring with head `h` are `xs`. -/
structure Ring (L : Links α) (h : α) (xs : List α) : Prop where
  linked : Linked L (h :: xs ++ [h])
  nodup : (h :: xs).Nodup

theorem Ring.congr {L L' : Links α} {h : α} {xs : List α}
    (hn : forall x, x ∈ h :: xs -> L'.next x = L.next x)
    (hp : forall x, x ∈ h :: xs -> L'.prev x = L.prev x) (hr : Ring L h xs) :
    Ring L' h xs := by
  refine ⟨hr.linked.congr (fun x hx => hn x ?_) (fun x hx => hp x ?_), hr.nodup⟩
  · rw [List.dropLast_concat] at hx
    exact hx
  · rw [List.cons_append, List.tail_cons] at hx
    rcases List.mem_append.mp hx with hx | hx
    · exact List.mem_cons_of_mem _ hx
    · rw [List.mem_singleton.mp hx]
      exact List.mem_cons_self ..

theorem Ring.neighbours {L : Links α} {h : α} {pre post : List α}
    (hr : Ring L h (pre ++ post)) :
    exists l a b r, h :: pre = l ++ [a] ∧ post ++ [h] = b :: r ∧
      L.next a = some b ∧ L.prev b = some a := by
  obtain ⟨l, a, hla⟩ : exists l a, h :: pre = l ++ [a] :=
    ⟨_, _, (List.dropLast_append_getLast (List.cons_ne_nil h pre)).symm⟩
  obtain ⟨b, r, hbr⟩ : exists b r, post ++ [h] = b :: r := by
    cases post with
    | nil => exact ⟨h, [], rfl⟩
    | cons b post => exact ⟨b, post ++ [h], rfl⟩
  have hlinked := hr.linked
  rw [← List.cons_append, hla, List.append_assoc, List.append_assoc, hbr,
    List.singleton_append, linked_append] at hlinked
  exact ⟨l, a, b, r, hla, hbr, hlinked.2.1, hlinked.2.2.1⟩

theorem Ring.next_head {L : Links α} {h x : α} {xs : List α}
    (hr : Ring L h (x :: xs)) : L.next h = some x :=
  hr.linked.1

theorem Ring.next_nil {L : Links α} {h : α} (hr : Ring L h []) :
    L.next h = some h ∧ L.prev h = some h :=
  ⟨hr.linked.1, hr.linked.2.1⟩

section Changes

variable [DecidableEq α]

theorem Ring.splice {L : Links α} {h x a b : α} {pre post l r : List α}
    (hr : Ring L h (pre ++ post)) (hx : x ∉ h :: (pre ++ post))
    (hla : h :: pre = l ++ [a]) (hbr : post ++ [h] = b :: r) :
    Ring (L.splice a x b) h (pre ++ x :: post) := by
  have hcycle : h :: (pre ++ post) ++ [h] = l ++ a :: b :: r := by
    rw [← List.cons_append, hla, List.append_assoc, List.append_assoc, hbr,
      List.singleton_append]
  have hsources : (l ++ a :: (b :: r).dropLast).Nodup := by
    have hdrop := congrArg List.dropLast hcycle
    rw [List.dropLast_concat, List.dropLast_append_of_ne_nil (by simp),
      List.dropLast_cons_of_ne_nil (by simp)] at hdrop
    rw [← hdrop]
    exact hr.nodup
  have htargets : ((l ++ [a]).tail ++ b :: r).Nodup := by
    have htail : (l ++ [a]).tail ++ b :: r = (pre ++ post) ++ [h] := by
      rw [← hla, List.tail_cons, ← hbr, List.append_assoc]
    rw [htail]
    exact (List.perm_append_singleton h (pre ++ post)).nodup_iff.mpr hr.nodup
  have hmem : forall y, y ∈ l ++ a :: b :: r -> y ≠ x := by
    rintro y hy rfl
    rw [← hcycle] at hy
    rcases List.mem_append.mp hy with hy | hy
    · exact hx hy
    · exact hx (by rw [List.mem_singleton.mp hy]; exact List.mem_cons_self ..)
  obtain ⟨hl, hrest⟩ := linked_append.mp (hcycle ▸ hr.linked)
  obtain ⟨-, -, hbr'⟩ := hrest
  obtain ⟨-, hsrc, hdisjs⟩ := List.nodup_append.mp hsources
  obtain ⟨-, htgt, hdisjt⟩ := List.nodup_append.mp htargets
  refine ⟨?_, ?_⟩
  · have hnew : h :: (pre ++ x :: post) ++ [h] = l ++ a :: x :: b :: r := by
      rw [← List.cons_append, hla, List.append_assoc, List.append_assoc,
        List.singleton_append, List.cons_append, hbr]
    rw [hnew, linked_append]
    have hxa : x ≠ a := (hmem a (by simp)).symm
    have hxb : x ≠ b := (hmem b (by simp)).symm
    refine ⟨hl.congr ?_ ?_, ?_, ?_, ?_, ?_, hbr'.congr ?_ ?_⟩
    · intro y hy
      rw [List.dropLast_concat] at hy
      have hya : y ≠ a := hdisjs y hy a (List.mem_cons_self ..)
      have hyx : y ≠ x := hmem y (List.mem_append_left _ hy)
      simp [Links.splice, hya, hyx]
    · intro y hy
      have hyb : y ≠ b := hdisjt y hy b (List.mem_cons_self ..)
      have hyx : y ≠ x := by
        refine hmem y ?_
        have := List.mem_of_mem_tail hy
        simp only [List.mem_append, List.mem_cons, List.not_mem_nil, or_false] at this ⊢
        tauto
      simp [Links.splice, hyb, hyx]
    · simp [Links.splice]
    · simp [Links.splice, hxb]
    · simp [Links.splice, hxa]
    · simp [Links.splice]
    · intro y hy
      have hya : y ≠ a := by
        rintro rfl
        exact (List.nodup_cons.mp hsrc).1 hy
      have hyx : y ≠ x := hmem y (by
        have := List.dropLast_subset _ hy
        simp only [List.mem_append, List.mem_cons] at this ⊢
        tauto)
      simp [Links.splice, hya, hyx]
    · intro y hy
      have hyb : y ≠ b := by
        rintro rfl
        exact (List.nodup_cons.mp htgt).1 hy
      have hyx : y ≠ x := hmem y (by
        rw [List.tail_cons] at hy
        simp only [List.mem_append, List.mem_cons]
        tauto)
      simp [Links.splice, hyb, hyx]
  · have hperm : (h :: (pre ++ x :: post)).Perm (x :: h :: (pre ++ post)) :=
      (List.Perm.cons h List.perm_middle).trans (List.Perm.swap x h _)
    exact hperm.nodup_iff.mpr (List.nodup_cons.mpr ⟨hx, hr.nodup⟩)

theorem Ring.unlink {L : Links α} {h x a b : α} {pre post l r : List α}
    (hr : Ring L h (pre ++ x :: post)) (hla : h :: pre = l ++ [a])
    (hbr : post ++ [h] = b :: r) : Ring (L.unlink a x b) h (pre ++ post) := by
  have hcycle : h :: (pre ++ x :: post) ++ [h] = l ++ a :: x :: b :: r := by
    rw [← List.cons_append, hla, List.append_assoc, List.append_assoc,
      List.singleton_append, List.cons_append, hbr]
  have hsources : (l ++ a :: x :: (b :: r).dropLast).Nodup := by
    have hdrop := congrArg List.dropLast hcycle
    rw [List.dropLast_concat, List.dropLast_append_of_ne_nil (by simp),
      List.dropLast_cons_of_ne_nil (by simp),
      List.dropLast_cons_of_ne_nil (by simp)] at hdrop
    rw [← hdrop]
    exact hr.nodup
  have htargets : ((l ++ [a]).tail ++ x :: b :: r).Nodup := by
    have htail : (l ++ [a]).tail ++ x :: b :: r = (pre ++ x :: post) ++ [h] := by
      rw [← hla, List.tail_cons, ← hbr, List.append_assoc, List.cons_append]
    rw [htail]
    exact (List.perm_append_singleton h (pre ++ x :: post)).nodup_iff.mpr hr.nodup
  obtain ⟨hl, hrest⟩ := linked_append.mp (hcycle ▸ hr.linked)
  obtain ⟨-, -, -, -, hbr'⟩ := hrest
  obtain ⟨-, hsrc, hdisjs⟩ := List.nodup_append.mp hsources
  obtain ⟨-, htgt, hdisjt⟩ := List.nodup_append.mp htargets
  obtain ⟨hasrc, hsrc'⟩ := List.nodup_cons.mp hsrc
  obtain ⟨hxtgt, htgt'⟩ := List.nodup_cons.mp htgt
  refine ⟨?_, ?_⟩
  · have hnew : h :: (pre ++ post) ++ [h] = l ++ a :: b :: r := by
      rw [← List.cons_append, hla, List.append_assoc, List.append_assoc, hbr,
        List.singleton_append]
    have hax : a ≠ x := fun heq => hasrc (by simp [heq])
    have hbx : b ≠ x := fun heq => hxtgt (by simp [heq])
    rw [hnew, linked_append]
    refine ⟨hl.congr ?_ ?_, ?_, ?_, hbr'.congr ?_ ?_⟩
    · intro y hy
      rw [List.dropLast_concat] at hy
      have hya : y ≠ a := hdisjs y hy a (by simp)
      have hyx : y ≠ x := hdisjs y hy x (by simp)
      simp [Links.unlink, hya, hyx]
    · intro y hy
      have hyb : y ≠ b := hdisjt y hy b (by simp)
      have hyx : y ≠ x := hdisjt y hy x (by simp)
      simp [Links.unlink, hyb, hyx]
    · simp [Links.unlink, hax]
    · simp [Links.unlink, hbx]
    · intro y hy
      have hya : y ≠ a := fun heq => hasrc (by simp [← heq, hy])
      have hyx : y ≠ x := fun heq => (List.nodup_cons.mp hsrc').1 (by rw [← heq]; exact hy)
      simp [Links.unlink, hya, hyx]
    · intro y hy
      rw [List.tail_cons] at hy
      have hyb : y ≠ b := fun heq => (List.nodup_cons.mp htgt').1 (by rw [← heq]; exact hy)
      have hyx : y ≠ x := fun heq => hxtgt (by simp [← heq, hy])
      simp [Links.unlink, hyb, hyx]
  · have hperm : (h :: (pre ++ x :: post)).Perm (x :: h :: (pre ++ post)) :=
      (List.Perm.cons h List.perm_middle).trans (List.Perm.swap x h _)
    exact (List.nodup_cons.mp (hperm.nodup_iff.mp hr.nodup)).2

/-- Pointers outside of `nodes` are the same. -/
def Links.SameOutside (L L' : Links α) (nodes : List α) : Prop :=
  forall y, y ∉ nodes -> L'.next y = L.next y ∧ L'.prev y = L.prev y

omit [DecidableEq α] in
theorem Ring.frame {L L' : Links α} {h : α} {xs nodes : List α}
    (hr : Ring L h xs) (hsame : L.SameOutside L' nodes)
    (hapart : forall y, y ∈ h :: xs -> y ∉ nodes) : Ring L' h xs :=
  hr.congr (fun y hy => (hsame y (hapart y hy)).1)
    (fun y hy => (hsame y (hapart y hy)).2)

theorem sameOutside_splice (L : Links α) {a x b : α} {nodes : List α}
    (ha : a ∈ nodes) (hb : b ∈ nodes) :
    L.SameOutside (L.splice a x b) (x :: nodes) := by
  intro y hy
  have hyx : y ≠ x := fun heq => hy (by simp [heq])
  have hya : y ≠ a := fun heq => hy (by simp [heq, ha])
  have hyb : y ≠ b := fun heq => hy (by simp [heq, hb])
  simp [Links.splice, hyx, hya, hyb]

theorem sameOutside_unlink (L : Links α) {a x b : α} {nodes : List α}
    (ha : a ∈ nodes) (hx : x ∈ nodes) (hb : b ∈ nodes) :
    L.SameOutside (L.unlink a x b) nodes := by
  intro y hy
  have hyx : y ≠ x := ne_of_mem_of_not_mem hx hy |>.symm
  have hya : y ≠ a := ne_of_mem_of_not_mem ha hy |>.symm
  have hyb : y ≠ b := ne_of_mem_of_not_mem hb hy |>.symm
  simp [Links.unlink, hyx, hya, hyb]

theorem ring_queueInit (L : Links α) (h : α) : Ring (L.queueInit h) h [] := by
  refine ⟨⟨?_, ?_, trivial⟩, List.nodup_singleton h⟩
  · simp [Links.queueInit, Links.setNext]
  · simp [Links.queueInit, Links.setNext, Links.setPrev]

theorem Ring.queueEmpty_iff {L : Links α} {h : α} {xs : List α}
    (hr : Ring L h xs) : L.queueEmpty h = true ↔ xs = [] := by
  cases xs using List.reverseRecOn with
  | nil => simp [Links.queueEmpty, hr.next_nil.2]
  | append_singleton xs x =>
      have hlinked := hr.linked
      rw [List.cons_append, List.append_assoc, List.singleton_append,
        ← List.cons_append, linked_append] at hlinked
      have hne : x ≠ h := by
        rintro rfl
        exact (List.nodup_cons.mp hr.nodup).1 (by simp)
      simp [Links.queueEmpty, hlinked.2.2.1, hne]

section Entries

variable {L : Links α} {h x : α} {pre post xs : List α}

omit [DecidableEq α] in
theorem mem_of_lastNode {a : α} {l : List α} (hla : h :: pre = l ++ [a]) :
    a ∈ h :: pre := by
  rw [hla]
  simp

omit [DecidableEq α] in
theorem mem_of_firstNode {b : α} {r : List α} (hbr : post ++ [h] = b :: r) :
    b ∈ h :: post := by
  have hb : b ∈ post ++ [h] := by simp [hbr]
  simp only [List.mem_append, List.mem_cons] at hb ⊢
  tauto

omit [DecidableEq α] in
theorem mem_of_around {a b : α} {l r : List α} (hla : h :: pre = l ++ [a])
    (hbr : post ++ [h] = b :: r) :
    a ∈ h :: (pre ++ x :: post) ∧ b ∈ h :: (pre ++ x :: post) := by
  have ha := mem_of_lastNode hla
  have hb := mem_of_firstNode hbr
  simp only [List.mem_cons, List.mem_append] at ha hb ⊢
  tauto

omit [DecidableEq α] in
theorem Ring.not_mem_rest (hr : Ring L h (pre ++ x :: post)) : x ∉ h :: (pre ++ post) := by
  have hperm : (h :: (pre ++ x :: post)).Perm (x :: h :: (pre ++ post)) :=
    (List.Perm.cons h List.perm_middle).trans (List.Perm.swap x h _)
  exact (List.nodup_cons.mp (hperm.nodup_iff.mp hr.nodup)).1

omit [DecidableEq α] in
theorem Ring.around (hr : Ring L h (pre ++ x :: post)) :
    exists l a b r, h :: pre = l ++ [a] ∧ post ++ [h] = b :: r ∧
      L.next x = some b ∧ L.prev x = some a ∧ x ≠ b := by
  obtain ⟨l, a, b', r', hla, hbr', hnext, hprev⟩ := hr.neighbours
  have hb' : b' = x := by
    simp only [List.cons_append, List.cons.injEq] at hbr'
    exact hbr'.1.symm
  subst hb'
  have hr' : Ring L h ((pre ++ [b']) ++ post) := by
    rw [List.append_assoc]
    exact hr
  obtain ⟨l2, a2, b2, r2, hla2, hbr2, hnext2, -⟩ := hr'.neighbours
  have ha2 : a2 = b' := by
    rw [← List.cons_append] at hla2
    have := congrArg List.getLast? hla2
    simp only [List.getLast?_append, List.getLast?_singleton, Option.some_or,
      Option.some.injEq] at this
    exact this.symm
  subst ha2
  refine ⟨l, a, b2, r2, hla, hbr2, hnext2, hprev, ?_⟩
  rintro rfl
  have hmem := mem_of_firstNode hbr2
  have hnot := hr.not_mem_rest
  simp only [List.mem_cons, List.mem_append, not_or] at hnot hmem
  tauto

omit [DecidableEq α] in
theorem Ring.pointers (hr : Ring L h (pre ++ x :: post)) :
    L.next x = some (post.headD h) ∧ L.prev x = some (pre.getLastD h) := by
  obtain ⟨l, a, b, r, hla, hbr, hnext, hprev, -⟩ := hr.around
  constructor
  · rw [hnext]
    cases post with
    | nil =>
        simp only [List.nil_append, List.cons.injEq] at hbr
        simp [hbr.1]
    | cons y post =>
        simp only [List.cons_append, List.cons.injEq] at hbr
        simp [hbr.1]
  · rw [hprev]
    have hlast := congrArg (fun l => l.getLastD h) hla
    simp only [List.getLastD_cons, List.getLastD_concat] at hlast
    rw [hlast]

omit [DecidableEq α] in
theorem Ring.pointers_head (hr : Ring L h xs) :
    L.next h = some (xs.headD h) ∧ L.prev h = some (xs.getLastD h) := by
  constructor
  · cases xs with
    | nil => exact hr.next_nil.1
    | cons x xs => exact hr.next_head
  · have hr' : Ring L h (xs ++ []) := by
      rw [List.append_nil]
      exact hr
    obtain ⟨l, a, b, r, hla, hbr, -, hprev⟩ := hr'.neighbours
    simp only [List.nil_append, List.cons.injEq] at hbr
    have hlast := congrArg (fun l => l.getLastD h) hla
    simp only [List.getLastD_cons, List.getLastD_concat] at hlast
    rw [hlast, hbr.1]
    exact hprev

omit [DecidableEq α] in
theorem Ring.links_eq {L' : Links α} (hr : Ring L h xs) (hr' : Ring L' h xs)
    (hout : forall y, y ∉ h :: xs -> L.next y = L'.next y ∧ L.prev y = L'.prev y) : L = L' := by
  have hsame : forall y, L.next y = L'.next y ∧ L.prev y = L'.prev y := by
    intro y
    by_cases hy : y ∈ h :: xs
    · rcases List.mem_cons.mp hy with rfl | hmem
      · obtain ⟨hnext, hprev⟩ := hr.pointers_head
        obtain ⟨hnext', hprev'⟩ := hr'.pointers_head
        exact ⟨hnext.trans hnext'.symm, hprev.trans hprev'.symm⟩
      · obtain ⟨pre, post, rfl⟩ := List.append_of_mem hmem
        obtain ⟨hnext, hprev⟩ := hr.pointers
        obtain ⟨hnext', hprev'⟩ := hr'.pointers
        exact ⟨hnext.trans hnext'.symm, hprev.trans hprev'.symm⟩
    · exact hout y hy
  exact Links.ext_next_prev (fun y => (hsame y).1) (fun y => (hsame y).2)

theorem Ring.insertHead (hr : Ring L h xs) (hx : x ∉ h :: xs) :
    Ring (L.queueInsertHead h x) h (x :: xs) ∧
      L.SameOutside (L.queueInsertHead h x) (x :: h :: xs) := by
  obtain ⟨l, a, b, r, hla, hbr, hnext, -⟩ :=
    (show Ring L h ([] ++ xs) from hr).neighbours
  have ha : a = h := by
    have := congrArg List.getLast? hla
    simp only [List.getLast?_singleton, List.getLast?_append, Option.some_or,
      Option.some.injEq] at this
    exact this.symm
  subst ha
  have hb := mem_of_firstNode hbr
  have hxb : x ≠ b := fun heq => hx (heq ▸ hb)
  rw [Links.queueInsertHead_eq hnext hxb]
  exact ⟨(show Ring L a ([] ++ xs) from hr).splice hx hla hbr,
    sameOutside_splice L (List.mem_cons_self ..) hb⟩

theorem Ring.insertTail (hr : Ring L h xs) (hx : x ∉ h :: xs) :
    Ring (L.queueInsertTail h x) h (xs ++ [x]) ∧
      L.SameOutside (L.queueInsertTail h x) (x :: h :: xs) := by
  have hr' : Ring L h (xs ++ []) := by
    rw [List.append_nil]
    exact hr
  obtain ⟨l, a, b, r, hla, hbr, -, hprev⟩ := hr'.neighbours
  have hb : b = h := by
    simp only [List.nil_append, List.cons.injEq] at hbr
    exact hbr.1.symm
  subst hb
  have ha := mem_of_lastNode hla
  have hxa : x ≠ a := fun heq => hx (heq ▸ ha)
  rw [Links.queueInsertTail_eq hprev hxa]
  exact ⟨hr'.splice (by rw [List.append_nil]; exact hx) hla hbr,
    sameOutside_splice L ha (List.mem_cons_self ..)⟩

theorem Ring.insertBefore {b : α} (hr : Ring L h (pre ++ b :: post))
    (hx : x ∉ h :: (pre ++ b :: post)) :
    Ring (L.queueInsertBefore b x) h (pre ++ x :: b :: post) ∧
      L.SameOutside (L.queueInsertBefore b x) (x :: h :: (pre ++ b :: post)) := by
  obtain ⟨l, a, b', r, hla, hbr, -, hprev⟩ := hr.neighbours
  have hb : b' = b := by
    simp only [List.cons_append, List.cons.injEq] at hbr
    exact hbr.1.symm
  subst hb
  have ha : a ∈ h :: (pre ++ b' :: post) := by
    have := mem_of_lastNode hla
    simp only [List.mem_cons, List.mem_append] at this ⊢
    tauto
  have hb : b' ∈ h :: (pre ++ b' :: post) := by simp
  have hxb : x ≠ b' := (ne_of_mem_of_not_mem hb hx).symm
  rw [Links.queueInsertBefore_eq hprev hxb]
  exact ⟨hr.splice hx hla hbr, sameOutside_splice L ha hb⟩

theorem Ring.remove (hr : Ring L h (pre ++ x :: post)) :
    Ring (L.queueRemove x) h (pre ++ post) ∧
      L.SameOutside (L.queueRemove x) (h :: (pre ++ x :: post)) := by
  obtain ⟨l, a, b, r, hla, hbr, hnext, hprev, hxb⟩ := hr.around
  obtain ⟨ha, hb⟩ := mem_of_around (x := x) hla hbr
  rw [Links.queueRemove_eq hnext hprev hxb]
  exact ⟨hr.unlink hla hbr, sameOutside_unlink L ha (by simp) hb⟩

/-- An entry that is a copy of `x`, pointers included, put behind it by three
operations: `x` is inserted before the copy, the copy removed and inserted after
`x`. -/
theorem Ring.relink {y : α} (hr : Ring L h (pre ++ x :: post))
    (hy : y ∉ h :: (pre ++ x :: post)) :
    let L1 : Links α :=
      { next := Function.update L.next y (L.next x)
        prev := Function.update L.prev y (L.prev x) }
    Ring (((L1.queueInsertBefore y x).queueRemove y).queueInsertAfter x y) h
      (pre ++ x :: y :: post) := by
  obtain ⟨l, a, b, r, hla, hbr, hnext, hprev, hxb⟩ := hr.around
  obtain ⟨ha, hb⟩ := mem_of_around (x := x) hla hbr
  have hya : y ≠ a := fun heq => hy (heq ▸ ha)
  have hyb : y ≠ b := fun heq => hy (heq ▸ hb)
  have hyx : y ≠ x := fun heq => hy (by simp [heq])
  have hax : a ≠ x := by
    rintro rfl
    have hmem := mem_of_lastNode hla
    have hnot := hr.not_mem_rest
    simp only [List.mem_cons, List.mem_append, not_or] at hnot hmem
    tauto
  have hnexta : L.next a = some x := by
    obtain ⟨l', a', b', r', hla', hbr', hn', -⟩ := hr.neighbours
    have h1 : a' = a := by
      have := congrArg List.getLast? (hla.symm.trans hla')
      simp only [List.getLast?_append, List.getLast?_singleton, Option.some_or,
        Option.some.injEq] at this
      exact this.symm
    have h2 : b' = x := by
      simp only [List.cons_append, List.cons.injEq] at hbr'
      exact hbr'.1.symm
    rw [← h1, hn', h2]
  dsimp only
  generalize hL1 : ({ next := Function.update L.next y (L.next x)
                      prev := Function.update L.prev y (L.prev x) } : Links α) = L1
  have hn1 : forall z, z ≠ y -> L1.next z = L.next z := by
    intro z hz
    simp [← hL1, hz]
  have hp1 : forall z, z ≠ y -> L1.prev z = L.prev z := by
    intro z hz
    simp [← hL1, hz]
  have hy1 : L1.next y = some b ∧ L1.prev y = some a := by
    simp [← hL1, hnext, hprev]
  have hsecond : (L1.splice a x y).next y = some b ∧
      (L1.splice a x y).prev y = some x := by
    simp [Links.splice, hya, hyx, hy1.1]
  have hthird : ((L1.splice a x y).unlink x y b).next x = some b := by
    simp [Links.unlink, Ne.symm hyx]
  have hfinal : ((L1.splice a x y).unlink x y b).splice x y b = L.splice x y b := by
    refine Links.ext_next_prev (fun z => ?_) (fun z => ?_)
    · by_cases hzx : z = x
      · simp [Links.splice, hzx]
      · by_cases hzy : z = y
        · simp [Links.splice, hzy, hyx]
        · by_cases hza : z = a
          · simp [Links.splice, Links.unlink, hza, hax, Ne.symm hya, hnexta]
          · simp [Links.splice, Links.unlink, hzx, hzy, hza, hn1 z hzy]
    · by_cases hzb : z = b
      · simp [Links.splice, hzb]
      · by_cases hzy : z = y
        · simp [Links.splice, hzy, hyb]
        · by_cases hzx : z = x
          · simp [Links.splice, Links.unlink, hzx, hxb, Ne.symm hyx, hprev]
          · simp [Links.splice, Links.unlink, hzx, hzy, hzb, hp1 z hzy]
  rw [Links.queueInsertBefore_eq hy1.2 (Ne.symm hyx),
    Links.queueRemove_eq hsecond.1 hsecond.2 hyb,
    Links.queueInsertAfter_eq hthird hyx, hfinal]
  have hr' : Ring L h ((pre ++ [x]) ++ post) := by
    rw [List.append_assoc]
    exact hr
  have hspliced := hr'.splice (x := y) (by rw [List.append_assoc]; exact hy)
    (l := h :: pre) (a := x) (by simp) hbr
  rw [List.append_assoc] at hspliced
  exact hspliced

omit [DecidableEq α] in
theorem Ring.prev_head {y : α} (hr : Ring L h (xs ++ [y])) : L.prev h = some y := by
  rw [hr.pointers_head.2, List.getLastD_concat]

/-- A ring that is not empty is met from a new head after the pointers of the new
head and the two pointers to the old one have been set. -/
theorem Ring.rehead {L' : Links α} {q : α} (hr : Ring L h xs) (hne : xs ≠ [])
    (hq : q ∉ h :: xs)
    (hn : forall z, z ∈ q :: xs ->
      L'.next z = if z = q then L.next h
        else if L.prev h = some z then some q else L.next z)
    (hp : forall z, z ∈ q :: xs ->
      L'.prev z = if z = q then L.prev h
        else if L.next h = some z then some q else L.prev z) :
    Ring L' q xs := by
  have hqx : forall z, z ∈ xs -> z ≠ q := by
    rintro z hz rfl
    exact hq (List.mem_cons_of_mem _ hz)
  have hnodup := (List.nodup_cons.mp hr.nodup).2
  constructor
  · obtain ⟨x, rest, rfl⟩ := List.exists_cons_of_ne_nil hne
    obtain ⟨body, y, hbody⟩ : exists body y, x :: rest = body ++ [y] :=
      ⟨_, _, (List.dropLast_append_getLast hne).symm⟩
    have hfirst : L.next h = some x := hr.next_head
    have hlast : L.prev h = some y := (hbody ▸ hr).prev_head
    have hxmem : x ∈ x :: rest := by simp
    have hymem : y ∈ x :: rest := by simp [hbody]
    have hinner : Linked L (x :: rest) := by
      have hlinked := hr.linked.2.2
      change Linked L (x :: rest ++ [h]) at hlinked
      rw [hbody, List.append_assoc, List.singleton_append, linked_append] at hlinked
      rw [hbody]
      exact hlinked.1
    refine ⟨?_, ?_, ?_⟩
    · rw [hn q (by simp), if_pos rfl, hfirst]
    · rw [hp x (by simp), if_neg (hqx x hxmem), if_pos hfirst]
    · change Linked L' (x :: rest ++ [q])
      rw [hbody, List.append_assoc, List.singleton_append, linked_append]
      constructor
      · rw [← hbody]
        refine hinner.congr (fun z hz => ?_) (fun z hz => ?_)
        · have hzmem : z ∈ x :: rest := List.dropLast_subset _ hz
          have hzy : ¬ L.prev h = some z := by
            rw [hbody, List.dropLast_concat] at hz
            rw [hlast, Option.some.injEq]
            rintro rfl
            rw [hbody, List.nodup_append] at hnodup
            exact hnodup.2.2 y hz y (List.mem_cons_self ..) rfl
          rw [hn z (List.mem_cons_of_mem _ hzmem), if_neg (hqx z hzmem), if_neg hzy]
        · rw [List.tail_cons] at hz
          have hzx : ¬ L.next h = some z := by
            rw [hfirst, Option.some.injEq]
            rintro rfl
            exact (List.nodup_cons.mp hnodup).1 hz
          have hzmem : z ∈ x :: rest := List.mem_cons_of_mem _ hz
          rw [hp z (List.mem_cons_of_mem _ hzmem), if_neg (hqx z hzmem), if_neg hzx]
      · refine ⟨?_, ?_, trivial⟩
        · rw [hn y (List.mem_cons_of_mem _ hymem), if_neg (hqx y hymem), if_pos hlast]
        · rw [hp q (by simp), if_pos rfl, hlast]
  · exact List.nodup_cons.mpr ⟨fun hmem => hq (List.mem_cons_of_mem _ hmem), hnodup⟩

end Entries

end Changes

/-!
## The entries as they are met
-/

def Links.entriesFrom [DecidableEq α] (L : Links α) (h : α) : Nat -> Option α -> List α
  | 0, _ => []
  | _ + 1, none => []
  | fuel + 1, some x =>
      if x = h then [] else x :: L.entriesFrom h fuel (L.next x)

def Links.entries [DecidableEq α] (L : Links α) (h : α) (fuel : Nat) : List α :=
  L.entriesFrom h fuel (L.next h)

theorem entriesFrom_of_linked [DecidableEq α] {L : Links α} {h : α} {xs : List α}
    (hlinked : Linked L (xs ++ [h])) (hh : h ∉ xs) {fuel : Nat}
    (hfuel : xs.length ≤ fuel) :
    L.entriesFrom h fuel (some (xs.headD h)) = xs := by
  induction xs generalizing fuel with
  | nil =>
      cases fuel with
      | zero => rfl
      | succ fuel => simp [Links.entriesFrom]
  | cons x xs ih =>
      cases fuel with
      | zero => simp at hfuel
      | succ fuel =>
          have hxh : x ≠ h := by
            rintro rfl
            exact hh (List.mem_cons_self ..)
          have hnext : L.next x = some (xs.headD h) ∧ Linked L (xs ++ [h]) := by
            cases xs with
            | nil => exact ⟨hlinked.1, trivial⟩
            | cons y xs => exact ⟨hlinked.1, hlinked.2.2⟩
          have hrest := ih hnext.2 (fun hmem => hh (List.mem_cons_of_mem _ hmem))
            (Nat.le_of_succ_le_succ hfuel)
          change L.entriesFrom h (fuel + 1) (some x) = x :: xs
          rw [Links.entriesFrom, if_neg hxh, hnext.1, hrest]

theorem Ring.entries_eq [DecidableEq α] {L : Links α} {h : α} {xs : List α}
    (hr : Ring L h xs) {fuel : Nat} (hfuel : xs.length ≤ fuel) :
    L.entries h fuel = xs := by
  have hlinked : Linked L (xs ++ [h]) := by
    cases xs with
    | nil => trivial
    | cons x xs => exact hr.linked.2.2
  unfold Links.entries
  rw [hr.pointers_head.1]
  exact entriesFrom_of_linked hlinked (List.nodup_cons.mp hr.nodup).1 hfuel

end Foundation
end NgxEpoll
