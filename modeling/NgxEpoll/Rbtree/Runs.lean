import NgxEpoll.Rbtree.Paths
import NgxEpoll.Foundation.Runs

/-!
# Insertions and deletions

The runs of the users of a tree: they write to the nodes outside of it, insert
nodes that are not in it and delete nodes that are.  Each call comes with its
fuel, and with more fuel than there are nodes it returns.
-/

namespace NgxEpoll
namespace Rbtree

open Foundation

/-- A tree with the nodes that were inserted and not yet deleted. -/
structure Ledger where
  tree : RbtreeT
  nodes : List Nat

inductive Op where
  | write (a : Nat) (n : RbNode)
  | insert (fuel a : Nat)
  | delete (fuel a : Nat)

def Ledger.step (w : Ledger) : Op -> Option Ledger
  | Op.write a n => some { w with tree := w.tree.put a n }
  | Op.insert fuel a =>
      match rbtreeInsert fuel w.tree a with
      | none => none
      | some s => some ⟨s, a :: w.nodes⟩
  | Op.delete fuel a =>
      match rbtreeDelete fuel w.tree a with
      | none => none
      | some s => some ⟨s, w.nodes.erase a⟩

def Ledger.Admits (w : Ledger) : Op -> Prop
  | Op.write a _ => a ∉ w.nodes ∧ a ≠ w.tree.sentinel
  | Op.insert _ a => a ∉ w.nodes ∧ a ≠ w.tree.sentinel ∧ a ≠ nullptr
  | Op.delete _ a => a ∈ w.nodes

instance (w : Ledger) (op : Op) : Decidable (w.Admits op) :=
  match op with
  | Op.write _ _ => inferInstanceAs (Decidable (_ ∧ _))
  | Op.insert _ _ => inferInstanceAs (Decidable (_ ∧ _))
  | Op.delete _ _ => inferInstanceAs (Decidable (_ ∈ _))

/-- A tree after `rbtree_init`, in whatever memory. -/
def Ledger.start (mem : Nat -> RbNode) (sentinel : Nat) : Ledger :=
  ⟨rbtreeInit mem sentinel, []⟩

def Ledger.Holds (w : Ledger) : Prop :=
  exists t, Sound w.tree t ∧ (addrs t).Perm w.nodes

/-!
## One step
-/

section Steps

variable {s : RbtreeT} {t t' : RbTree Entry} {w w' : Ledger}

theorem sound_init (mem : Nat -> RbNode) {sentinel : Nat}
    (h : sentinel ≠ nullptr) : Sound (rbtreeInit mem sentinel) RbTree.leaf := by
  rw [rbtreeInit, rbtreeSentinelInit, if_pos h]
  refine ⟨⟨nullptr, trivial, trivial, rfl, List.nodup_nil, ?_, ?_⟩,
    ⟨0, Balanced.leaf⟩, List.Pairwise.nil⟩
  · intro a ha
    cases ha
  · exact congrArg RbNode.color (mem_put_self _ _ _)

theorem Sound.put {a : Nat} (h : Sound s t) (ha : a ∉ addrs t)
    (hsentinel : a ≠ s.sentinel) (n : RbNode) : Sound (s.put a n) t := by
  obtain ⟨⟨stale, hfocus⟩, hbalanced, hsorted⟩ := h
  refine ⟨⟨stale, hfocus.congr rfl rfl ?_ ?_⟩, hbalanced, hsorted⟩
  · intro b hb
    rw [ctxAddrs, List.append_nil] at hb
    exact mem_put_ne s (by rintro rfl; exact ha hb) n
  · rw [mem_put_ne s (Ne.symm hsentinel) n]
    exact hfocus.black

theorem addrs_insert {a : Nat} {key : Int}
    (h : t'.toList.Perm (⟨a, key⟩ :: t.toList)) :
    (addrs t').Perm (a :: addrs t) :=
  h.map Entry.addr

theorem addrs_drops {x : Entry} (h : Drops x t t') :
    (addrs t).Perm (x.addr :: addrs t') := by
  obtain ⟨es, fs, ht, ht'⟩ := h
  rw [addrs, ht, addrs, ht', List.map_append, List.map_append, List.map_cons]
  exact List.perm_middle

theorem length_addrs (t : RbTree Entry) : (addrs t).length = t.toList.length :=
  List.length_map _

theorem holds_start (mem : Nat -> RbNode) {sentinel : Nat}
    (h : sentinel ≠ nullptr) : (Ledger.start mem sentinel).Holds :=
  ⟨RbTree.leaf, sound_init mem h, List.Perm.refl _⟩

theorem Ledger.Holds.insert {fuel a : Nat} (h : w.Holds)
    (hok : w.Admits (Op.insert fuel a)) (hfuel : w.nodes.length < fuel) :
    exists w', w.step (Op.insert fuel a) = some w' ∧ w'.Holds := by
  obtain ⟨t, ht, hnodes⟩ := h
  obtain ⟨hnode, hsentinel, hnull⟩ := hok
  rw [← hnodes.length_eq, length_addrs] at hfuel
  obtain ⟨s', t', hrun, hsound, -, hperm⟩ := rbtreeInsert_sound ht
    (fun hin => hnode (hnodes.mem_iff.mp hin)) hsentinel hnull hfuel
  refine ⟨⟨s', a :: w.nodes⟩, ?_, t', hsound, ?_⟩
  · simp only [Ledger.step, hrun]
  · exact (addrs_insert hperm).trans (hnodes.cons a)

theorem Ledger.Holds.delete {fuel a : Nat} (h : w.Holds)
    (hok : w.Admits (Op.delete fuel a)) (hfuel : w.nodes.length < fuel) :
    exists w', w.step (Op.delete fuel a) = some w' ∧ w'.Holds := by
  obtain ⟨t, ht, hnodes⟩ := h
  rw [← hnodes.length_eq, length_addrs] at hfuel
  obtain ⟨x, hx, rfl⟩ := List.mem_map.mp (hnodes.mem_iff.mpr hok)
  obtain ⟨s', t', hrun, hsound, -, hdrops⟩ := rbtreeDelete_sound ht hx hfuel
  refine ⟨⟨s', w.nodes.erase x.addr⟩, ?_, t', hsound, ?_⟩
  · simp only [Ledger.step, hrun]
  · have herase := (hnodes.symm.trans (addrs_drops hdrops)).erase x.addr
    rw [List.erase_cons_head] at herase
    exact herase.symm

theorem step_insert_mono {fuel fuel' a : Nat} (hle : fuel ≤ fuel')
    (h : w.step (Op.insert fuel a) = some w') :
    w.step (Op.insert fuel' a) = some w' := by
  cases hrun : rbtreeInsert fuel w.tree a with
  | none =>
      simp only [Ledger.step, hrun] at h
      cases h
  | some s =>
      simp only [Ledger.step, hrun, rbtreeInsert_mono hrun hle] at h ⊢
      exact h

theorem step_delete_mono {fuel fuel' a : Nat} (hle : fuel ≤ fuel')
    (h : w.step (Op.delete fuel a) = some w') :
    w.step (Op.delete fuel' a) = some w' := by
  cases hrun : rbtreeDelete fuel w.tree a with
  | none =>
      simp only [Ledger.step, hrun] at h
      cases h
  | some s =>
      simp only [Ledger.step, hrun, rbtreeDelete_mono hrun hle] at h ⊢
      exact h

theorem Ledger.Holds.step {op : Op} (h : w.Holds) (hok : w.Admits op)
    (hstep : w.step op = some w') : w'.Holds := by
  cases op with
  | write a n =>
      cases hstep
      obtain ⟨t, ht, hnodes⟩ := h
      exact ⟨t, ht.put (fun hin => hok.1 (hnodes.mem_iff.mp hin)) hok.2 n, hnodes⟩
  | insert fuel a =>
      have hok' : w.Admits (Op.insert (fuel + w.nodes.length + 1) a) := hok
      obtain ⟨w1, hrun, hholds⟩ := h.insert hok' (by omega)
      have hmore := step_insert_mono
        (show fuel ≤ fuel + w.nodes.length + 1 by omega) hstep
      rw [hmore] at hrun
      cases hrun
      exact hholds
  | delete fuel a =>
      have hok' : w.Admits (Op.delete (fuel + w.nodes.length + 1) a) := hok
      obtain ⟨w1, hrun, hholds⟩ := h.delete hok' (by omega)
      have hmore := step_delete_mono
        (show fuel ≤ fuel + w.nodes.length + 1 by omega) hstep
      rw [hmore] at hrun
      cases hrun
      exact hholds

end Steps

/-!
## Runs
-/

/-- What holds of a tree whatever has been done to it. -/
structure Ledger.Good (w : Ledger) : Prop where
  redBlack : RedBlack w.tree w.nodes
  least : forall fuel, w.nodes ≠ [] -> w.nodes.length ≤ fuel ->
    exists a, rbtreeMin fuel w.tree w.tree.root = some a ∧ Least w.tree w.nodes a
  insert : forall fuel a, w.Admits (Op.insert fuel a) -> w.nodes.length < fuel ->
    exists w', w.step (Op.insert fuel a) = some w'
  delete : forall fuel a, w.Admits (Op.delete fuel a) -> w.nodes.length < fuel ->
    exists w', w.step (Op.delete fuel a) = some w'

theorem redBlack_of_run {mem : Nat -> RbNode} {sentinel : Nat} {w : Ledger}
    (hsentinel : sentinel ≠ nullptr)
    (hrun : Reaches Ledger.step Ledger.Admits (Ledger.start mem sentinel) w) :
    w.Good := by
  have hholds : w.Holds := hrun.invariant Ledger.Holds
    (fun _ _ _ h hok hstep => h.step hok hstep) (holds_start mem hsentinel)
  obtain ⟨t, ht, hnodes⟩ := hholds
  refine ⟨ht.redBlack hnodes, fun fuel => ht.least_mem hnodes, ?_, ?_⟩
  · intro fuel a hok hfuel
    obtain ⟨w', hstep, -⟩ := Ledger.Holds.insert ⟨t, ht, hnodes⟩ hok hfuel
    exact ⟨w', hstep⟩
  · intro fuel a hok hfuel
    obtain ⟨w', hstep, -⟩ := Ledger.Holds.delete ⟨t, ht, hnodes⟩ hok hfuel
    exact ⟨w', hstep⟩

def numbered (a : Nat) : RbNode :=
  ⟨a, nullptr, nullptr, nullptr, Color.red⟩

theorem redBlack_rootDeleted : exists w : Ledger, w.nodes = [8, 3] ∧ w.Good := by
  have h1 : Reaches Ledger.step Ledger.Admits (Ledger.start numbered 1) _ :=
    (Reaches.refl _).oneLabel (a := Op.insert 4 5) (by decide) (by decide)
  have h2 := h1.oneLabel (a := Op.insert 4 3) (by decide) (by decide)
  have h3 := h2.oneLabel (a := Op.insert 4 8) (by decide) (by decide)
  have h4 := h3.oneLabel (a := Op.delete 4 5) (by decide) (by decide)
  exact ⟨_, by decide, redBlack_of_run (by decide) h4⟩

end Rbtree
end NgxEpoll
