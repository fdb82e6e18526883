import NgxEpoll.Rbtree.Nodes
import Mathlib.Data.List.Nodup

/-!
# Trees in memory

`Focus s stale ctx t` says that the links in memory are those of the tree `t`
in the context `ctx`.  Only the parent of the root may be anything; it is
`stale`.  Every write of `dfs_rbtree.cpp` to a tree is described once, as a
change of the focus.
-/

namespace NgxEpoll
namespace Rbtree

open Foundation

structure Entry where
  addr : Nat
  key : Int

def ptr (sentinel : Nat) : RbTree Entry -> Nat
  | RbTree.leaf => sentinel
  | RbTree.node _ _ x _ => x.addr

def addrs (t : RbTree Entry) : List Nat :=
  t.toList.map Entry.addr

def ctxAddrs : List (Frame Entry) -> List Nat
  | [] => []
  | f :: ctx => f.elem.addr :: (addrs f.sibling ++ ctxAddrs ctx)

def up (stale : Nat) : List (Frame Entry) -> Nat
  | [] => stale
  | f :: _ => f.elem.addr

def rootPtr : List (Frame Entry) -> Nat -> Nat
  | [], p => p
  | f :: ctx, _ => rootPtr ctx f.elem.addr

def nodeOf (key : Int) (d : Dir) (near far parent : Nat) (c : Color) : RbNode :=
  match d with
  | Dir.left => ⟨key, near, far, parent, c⟩
  | Dir.right => ⟨key, far, near, parent, c⟩

def Linked (mem : Nat -> RbNode) (sentinel : Nat) : Nat -> RbTree Entry -> Prop
  | _, RbTree.leaf => True
  | parent, RbTree.node c l x r =>
      mem x.addr = ⟨x.key, ptr sentinel l, ptr sentinel r, parent, c⟩ ∧
        Linked mem sentinel x.addr l ∧ Linked mem sentinel x.addr r

def LinkedCtx (mem : Nat -> RbNode) (sentinel stale : Nat) :
    Nat -> List (Frame Entry) -> Prop
  | _, [] => True
  | p, f :: ctx =>
      mem f.elem.addr = nodeOf f.elem.key f.dir p (ptr sentinel f.sibling)
          (up stale ctx) f.color ∧
        Linked mem sentinel f.elem.addr f.sibling ∧
        LinkedCtx mem sentinel stale f.elem.addr ctx

structure Focus (s : RbtreeT) (stale : Nat) (ctx : List (Frame Entry))
    (t : RbTree Entry) : Prop where
  tree : Linked s.mem s.sentinel (up stale ctx) t
  context : LinkedCtx s.mem s.sentinel stale (ptr s.sentinel t) ctx
  root : s.root = rootPtr ctx (ptr s.sentinel t)
  nodup : (addrs t ++ ctxAddrs ctx).Nodup
  fresh : forall a, a ∈ addrs t ++ ctxAddrs ctx -> a ≠ s.sentinel ∧ a ≠ nullptr
  black : (s.mem s.sentinel).color = Color.black

/-!
## Fields
-/

section Fields

variable (key : Int) (d : Dir) (near far parent p : Nat) (c : Color)

@[simp] theorem nodeOf_child :
    (nodeOf key d near far parent c).child d = near := by
  cases d <;> rfl

@[simp] theorem nodeOf_child_other :
    (nodeOf key d near far parent c).child d.other = far := by
  cases d <;> rfl

@[simp] theorem nodeOf_parent : (nodeOf key d near far parent c).parent = parent := by
  cases d <;> rfl

@[simp] theorem nodeOf_color : (nodeOf key d near far parent c).color = c := by
  cases d <;> rfl

@[simp] theorem nodeOf_key : (nodeOf key d near far parent c).key = key := by
  cases d <;> rfl

@[simp] theorem nodeOf_setChild :
    (nodeOf key d near far parent c).setChild d p = nodeOf key d p far parent c := by
  cases d <;> rfl

@[simp] theorem nodeOf_setChild_other :
    (nodeOf key d near far parent c).setChild d.other p =
      nodeOf key d near p parent c := by
  cases d <;> rfl

theorem nodeOf_setParent :
    { nodeOf key d near far parent c with parent := p } =
      nodeOf key d near far p c := by
  cases d <;> rfl

theorem nodeOf_paint (c' : Color) :
    { nodeOf key d near far parent c with color := c' } =
      nodeOf key d near far parent c' := by
  cases d <;> rfl

theorem nodeOf_other :
    nodeOf key d.other near far parent c = nodeOf key d far near parent c := by
  cases d <;> rfl

end Fields

section Joins

variable (mem : Nat -> RbNode) (sentinel parent : Nat) (d : Dir) (c : Color)
  (near far : RbTree Entry) (x : Entry)

@[simp] theorem ptr_join : ptr sentinel (RbTree.join d c near x far) = x.addr := by
  cases d <;> rfl

theorem linked_join :
    Linked mem sentinel parent (RbTree.join d c near x far) ↔
      mem x.addr = nodeOf x.key d (ptr sentinel near) (ptr sentinel far) parent c ∧
        Linked mem sentinel x.addr near ∧ Linked mem sentinel x.addr far := by
  cases d with
  | left => exact Iff.rfl
  | right => exact and_congr_right' and_comm

theorem addrs_join :
    (addrs (RbTree.join d c near x far)).Perm
      (x.addr :: (addrs near ++ addrs far)) := by
  cases d with
  | left =>
      simp only [addrs, RbTree.join, RbTree.toList, List.map_append, List.map_cons]
      exact List.perm_middle
  | right =>
      simp only [addrs, RbTree.join, RbTree.toList, List.map_append, List.map_cons]
      exact List.perm_middle.trans (List.Perm.cons _ List.perm_append_comm)

end Joins

@[simp] theorem addrs_leaf : addrs RbTree.leaf = [] :=
  rfl

/-!
## Writes elsewhere
-/

theorem Linked.congr {mem mem' : Nat -> RbNode} {sentinel parent : Nat}
    {t : RbTree Entry} (h : Linked mem sentinel parent t)
    (hsame : forall a, a ∈ addrs t -> mem' a = mem a) :
    Linked mem' sentinel parent t := by
  induction t generalizing parent with
  | leaf => trivial
  | node c l x r ihl ihr =>
      obtain ⟨hx, hl, hr⟩ := h
      have hmem : forall a, a ∈ addrs l ∨ a = x.addr ∨ a ∈ addrs r ->
          mem' a = mem a := by
        intro a ha
        apply hsame
        simpa [addrs, RbTree.toList] using ha
      refine ⟨?_, ihl hl fun a ha => hmem a (Or.inl ha),
        ihr hr fun a ha => hmem a (Or.inr (Or.inr ha))⟩
      rw [hmem x.addr (Or.inr (Or.inl rfl)), hx]

theorem LinkedCtx.congr {mem mem' : Nat -> RbNode} {sentinel stale p : Nat}
    {ctx : List (Frame Entry)} (h : LinkedCtx mem sentinel stale p ctx)
    (hsame : forall a, a ∈ ctxAddrs ctx -> mem' a = mem a) :
    LinkedCtx mem' sentinel stale p ctx := by
  induction ctx generalizing p with
  | nil => trivial
  | cons f ctx ih =>
      obtain ⟨hf, hsibling, hctx⟩ := h
      refine ⟨?_, hsibling.congr ?_, ih hctx ?_⟩
      · rw [hsame _ (by simp [ctxAddrs]), hf]
      · exact fun a ha => hsame a (by simp [ctxAddrs, ha])
      · exact fun a ha => hsame a (by simp [ctxAddrs, ha])

/-!
## Moving the focus
-/

theorem perm_cons (f : Frame Entry) (ctx : List (Frame Entry)) (t : RbTree Entry) :
    (addrs t ++ ctxAddrs (f :: ctx)).Perm (addrs (f.plug t) ++ ctxAddrs ctx) := by
  have hjoin := (addrs_join f.dir f.color t f.sibling f.elem).append_right
    (ctxAddrs ctx)
  refine List.Perm.trans ?_ hjoin.symm
  simp only [ctxAddrs, List.cons_append, List.append_assoc]
  exact List.perm_middle

theorem addrs_plug (ctx : List (Frame Entry)) (t : RbTree Entry) :
    (addrs (plug ctx t)).Perm (addrs t ++ ctxAddrs ctx) := by
  induction ctx generalizing t with
  | nil => simp [plug, ctxAddrs]
  | cons f ctx ih => exact (ih (f.plug t)).trans (perm_cons f ctx t).symm

theorem focus_cons {s : RbtreeT} {stale : Nat} {f : Frame Entry}
    {ctx : List (Frame Entry)} {t : RbTree Entry} :
    Focus s stale (f :: ctx) t ↔ Focus s stale ctx (f.plug t) := by
  have hperm := perm_cons f ctx t
  have hptr : ptr s.sentinel (f.plug t) = f.elem.addr := ptr_join _ _ _ _ _ _
  constructor
  · intro h
    obtain ⟨hf, hsibling, hctx⟩ := h.context
    refine ⟨?_, ?_, ?_, ?_, ?_, h.black⟩
    · exact (linked_join _ _ _ _ _ _ _ _).mpr ⟨hf, h.tree, hsibling⟩
    · rw [hptr]
      exact hctx
    · rw [hptr]
      exact h.root
    · exact (hperm.nodup_iff).mp h.nodup
    · exact fun a ha => h.fresh a (hperm.mem_iff.mpr ha)
  · intro h
    obtain ⟨hf, htree, hsibling⟩ := (linked_join _ _ _ _ _ _ _ _).mp h.tree
    have hctx := h.context
    have hroot := h.root
    rw [hptr] at hctx hroot
    exact ⟨htree, ⟨hf, hsibling, hctx⟩, hroot, (hperm.nodup_iff).mpr h.nodup,
      fun a ha => h.fresh a (hperm.mem_iff.mp ha), h.black⟩

theorem focus_plug {s : RbtreeT} {stale : Nat} {ctx : List (Frame Entry)}
    {t : RbTree Entry} : Focus s stale ctx t ↔ Focus s stale [] (plug ctx t) := by
  induction ctx generalizing t with
  | nil => exact Iff.rfl
  | cons f ctx ih => exact focus_cons.trans ih

theorem focus_append {s : RbtreeT} {stale : Nat} {ctx ctx' : List (Frame Entry)}
    {t : RbTree Entry} :
    Focus s stale (ctx ++ ctx') t ↔ Focus s stale ctx' (plug ctx t) := by
  rw [focus_plug, plug_append, ← focus_plug]

theorem focus_join {s : RbtreeT} {stale : Nat} {d : Dir} {c : Color} {x : Entry}
    {ctx : List (Frame Entry)} {near far : RbTree Entry} :
    Focus s stale ctx (RbTree.join d c near x far) ↔
      Focus s stale (⟨d, c, x, far⟩ :: ctx) near :=
  (focus_cons (f := ⟨d, c, x, far⟩)).symm

theorem focus_swing {s : RbtreeT} {stale : Nat} {d : Dir} {c : Color} {x : Entry}
    {ctx : List (Frame Entry)} {near far : RbTree Entry} :
    Focus s stale (⟨d, c, x, far⟩ :: ctx) near ↔
      Focus s stale (⟨d.other, c, x, near⟩ :: ctx) far := by
  rw [← focus_join, ← focus_join, RbTree.join_other]

section Focusing

variable {s s' : RbtreeT} {stale : Nat} {ctx : List (Frame Entry)}
  {t t' near far : RbTree Entry} {d : Dir} {c : Color} {x : Entry}

theorem Focus.node (h : Focus s stale ctx (RbTree.join d c near x far)) :
    s.mem x.addr = nodeOf x.key d (ptr s.sentinel near) (ptr s.sentinel far)
      (up stale ctx) c :=
  ((linked_join _ _ _ _ _ _ _ _).mp h.tree).1

theorem Focus.above {f : Frame Entry} (h : Focus s stale (f :: ctx) t) :
    s.mem f.elem.addr = nodeOf f.elem.key f.dir (ptr s.sentinel t)
      (ptr s.sentinel f.sibling) (up stale ctx) f.color :=
  h.context.1

theorem Focus.parentAbove {f : Frame Entry} (h : Focus s stale (f :: ctx) t) :
    s.parent f.elem.addr = up stale ctx := by
  rw [RbtreeT.parent, h.above, nodeOf_parent]

theorem Focus.color (h : Focus s stale ctx t) :
    (s.mem (ptr s.sentinel t)).color = t.color := by
  cases t with
  | leaf => exact h.black
  | node c l x r => exact congrArg RbNode.color h.tree.1

theorem Focus.parent (h : Focus s stale ctx t) (ht : t ≠ RbTree.leaf) :
    s.parent (ptr s.sentinel t) = up stale ctx := by
  cases t with
  | leaf => exact absurd rfl ht
  | node c l x r => exact congrArg RbNode.parent h.tree.1

theorem Focus.addr (h : Focus s stale ctx (RbTree.join d c near x far)) :
    x.addr ≠ s.sentinel ∧ x.addr ≠ nullptr := by
  apply h.fresh
  have hmem := (addrs_join d c near far x).mem_iff (a := x.addr)
  exact List.mem_append_left _ (hmem.mpr (by simp))

/-- The parts of a focused tree have no node in common. -/
structure Split (a : Nat) (ns fs cs : List Nat) : Prop where
  near : a ∉ ns
  far : a ∉ fs
  ctx : a ∉ cs
  nodup : ns.Nodup
  nodupFar : fs.Nodup
  nodupCtx : cs.Nodup
  nearFar : forall b, b ∈ ns -> b ∉ fs
  nearCtx : forall b, b ∈ ns -> b ∉ cs
  farCtx : forall b, b ∈ fs -> b ∉ cs

theorem Focus.split (h : Focus s stale ctx (RbTree.join d c near x far)) :
    Split x.addr (addrs near) (addrs far) (ctxAddrs ctx) := by
  have hperm := (addrs_join d c near far x).append_right (ctxAddrs ctx)
  have hnodup := hperm.nodup_iff.mp h.nodup
  simp only [List.cons_append, List.append_assoc, List.nodup_cons,
    List.mem_append, not_or, List.nodup_append', List.disjoint_append_right] at hnodup
  obtain ⟨⟨hnear, hfar, hctx⟩, hn, ⟨hf, hc, hfc⟩, hnf, hnc⟩ := hnodup
  exact ⟨hnear, hfar, hctx, hn, hf, hc, fun _ ha hb => hnf ha hb,
    fun _ ha hb => hnc ha hb, fun _ ha hb => hfc ha hb⟩

theorem Focus.change (h : Focus s stale ctx t) (hsentinel : s'.sentinel = s.sentinel)
    (hroot : s'.root = rootPtr ctx (ptr s.sentinel t'))
    (htree : Linked s'.mem s.sentinel (up stale ctx) t')
    (hctx : LinkedCtx s'.mem s.sentinel stale (ptr s.sentinel t') ctx)
    (haddrs : (addrs t').Perm (addrs t))
    (hblack : s'.mem s.sentinel = s.mem s.sentinel) : Focus s' stale ctx t' := by
  have hperm := haddrs.append_right (ctxAddrs ctx)
  refine ⟨?_, ?_, ?_, ?_, ?_, ?_⟩
  · rw [hsentinel]
    exact htree
  · rw [hsentinel]
    exact hctx
  · rw [hsentinel]
    exact hroot
  · exact hperm.nodup_iff.mpr h.nodup
  · rw [hsentinel]
    exact fun a ha => h.fresh a (hperm.mem_iff.mp ha)
  · rw [hsentinel, hblack]
    exact h.black

theorem Focus.paint (h : Focus s stale ctx (RbTree.join d c near x far))
    (c' : Color) :
    Focus (s.paint x.addr c') stale ctx (RbTree.join d c' near x far) := by
  obtain ⟨hx, hnear, hfar⟩ := (linked_join _ _ _ _ _ _ _ _).mp h.tree
  have hap := h.split
  have hmem : forall a, a ≠ x.addr -> (s.paint x.addr c').mem a = s.mem a :=
    fun a ha => Function.update_of_ne ha _ _
  refine h.change rfl ?_ ?_ ?_ ?_ ?_
  · have hroot := h.root
    rw [ptr_join] at hroot ⊢
    exact hroot
  · rw [linked_join]
    refine ⟨?_, hnear.congr ?_, hfar.congr ?_⟩
    · rw [← nodeOf_paint, ← hx]
      exact Function.update_self _ _ _
    · exact fun a ha => hmem a (fun heq => hap.near (heq ▸ ha))
    · exact fun a ha => hmem a (fun heq => hap.far (heq ▸ ha))
  · have hctx := h.context
    rw [ptr_join] at hctx ⊢
    exact hctx.congr fun a ha => hmem a (fun heq => hap.ctx (heq ▸ ha))
  · exact (addrs_join _ _ _ _ _).trans (addrs_join _ _ _ _ _).symm
  · exact hmem _ (Ne.symm h.addr.1)

theorem Focus.paintSentinel (h : Focus s stale ctx t) :
    Focus (s.paint s.sentinel Color.black) stale ctx t := by
  have hmem : forall a, (s.paint s.sentinel Color.black).mem a = s.mem a := by
    intro a
    by_cases ha : a = s.sentinel
    · subst ha
      refine (Function.update_self _ _ _).trans ?_
      rw [← h.black]
    · exact Function.update_of_ne ha _ _
  exact h.change rfl h.root (h.tree.congr fun a _ => hmem a)
    (h.context.congr fun a _ => hmem a) (List.Perm.refl _) (hmem _)

theorem Focus.side {f : Frame Entry} (h : Focus s stale (f :: ctx) t)
    (hne : t ≠ RbTree.leaf ∨ f.sibling ≠ RbTree.leaf) (d : Dir) :
    ptr s.sentinel t = s.child f.elem.addr d ↔ f.dir = d := by
  have hptr : ptr s.sentinel t ≠ ptr s.sentinel f.sibling := by
    have hmem : forall {u : RbTree Entry}, u ≠ RbTree.leaf ->
        ptr s.sentinel u ∈ addrs u := by
      intro u hu
      cases u with
      | leaf => exact absurd rfl hu
      | node c l x r => simp [ptr, addrs, RbTree.toList]
    have hsplit := (focus_cons.mp h).split
    have hfresh := h.fresh
    simp only [ctxAddrs, List.mem_append, List.mem_cons] at hfresh
    intro heq
    rcases hne with ht | hs
    · have hin := hmem ht
      by_cases hs : f.sibling = RbTree.leaf
      · rw [hs] at heq
        exact (hfresh _ (Or.inl hin)).1 heq
      · exact hsplit.nearFar _ hin (heq ▸ hmem hs)
    · have hin := hmem hs
      by_cases ht : t = RbTree.leaf
      · rw [ht] at heq
        exact (hfresh _ (Or.inr (Or.inr (Or.inl hin)))).1 heq.symm
      · exact hsplit.nearFar _ (hmem ht) (heq ▸ hin)
  rw [RbtreeT.child, h.above]
  constructor
  · intro heq
    by_contra hd
    rw [Dir.eq_other_of_ne hd, nodeOf_other, nodeOf_child] at heq
    exact hptr heq
  · rintro rfl
    rw [nodeOf_child]

end Focusing

end Rbtree
end NgxEpoll
