import NgxEpoll.Rbtree.Insert

/-!
# Taking a node out

`rbtree_delete` before it rebalances: the node `subst` leaves its place to its
only child `temp`, and where `subst` is not the node to be deleted it takes the
place of that one.
-/

namespace NgxEpoll
namespace Rbtree

open Foundation

variable {s s' : RbtreeT} {stale : Nat} {ctx : List (Frame Entry)} {t : RbTree Entry}

/-!
## Least keys
-/

theorem rbtreeMin_leftmost {fuel : Nat} (ht : t ≠ RbTree.leaf)
    (h : Focus s stale ctx t) (hfuel : t.toList.length ≤ fuel) :
    exists down c x r, t = plug down (RbTree.node c RbTree.leaf x r) ∧
      leftOf down = [] ∧ rbtreeMin fuel s (ptr s.sentinel t) = some x.addr := by
  induction t generalizing ctx fuel with
  | leaf => exact absurd rfl ht
  | node c l x r ihl _ =>
      have hl : Focus s stale (⟨Dir.left, c, x, r⟩ :: ctx) l := focus_join.mp h
      have hchild : s.child x.addr Dir.left = ptr s.sentinel l := by
        rw [RbtreeT.child, h.tree.1]
        rfl
      simp only [RbTree.toList, List.length_append, List.length_cons] at hfuel
      obtain ⟨fuel, rfl⟩ : exists k, fuel = k + 1 := ⟨fuel - 1, by omega⟩
      by_cases hleaf : l = RbTree.leaf
      · subst hleaf
        refine ⟨[], c, x, r, rfl, rfl, ?_⟩
        have hturn : minTurn s x.addr = Turn.done (some x.addr) :=
          if_neg (fun hne => hne hchild)
        simp only [rbtreeMin, iterate, ptr, hturn]
      · obtain ⟨down, c', y, r', rfl, hleft, hmin⟩ :=
          ihl hleaf hl (show l.toList.length ≤ fuel by omega)
        refine ⟨down ++ [⟨Dir.left, c, x, r⟩], c', y, r', ?_, ?_, ?_⟩
        · rw [plug_append]
          rfl
        · rw [leftOf_append, hleft]
          rfl
        · have hnext : s.child x.addr Dir.left ≠ s.sentinel := by
            rw [hchild]
            exact fun heq => hleaf (hl.ptr_eq_sentinel.mp heq)
          have hturn : minTurn s x.addr = Turn.next _ := if_pos hnext
          rw [hchild] at hturn
          simp only [rbtreeMin, iterate, ptr, hturn]
          exact hmin

/-!
## Writes outside of the tree
-/

theorem Focus.congr (h : Focus s stale ctx t) (hroot : s'.root = s.root)
    (hsentinel : s'.sentinel = s.sentinel)
    (hmem : forall a, a ∈ addrs t ++ ctxAddrs ctx -> s'.mem a = s.mem a)
    (hblack : (s'.mem s.sentinel).color = Color.black) : Focus s' stale ctx t := by
  refine ⟨?_, ?_, ?_, h.nodup, ?_, ?_⟩
  · rw [hsentinel]
    exact h.tree.congr fun a ha => hmem a (List.mem_append_left _ ha)
  · rw [hsentinel]
    exact h.context.congr fun a ha => hmem a (List.mem_append_right _ ha)
  · rw [hroot, hsentinel]
    exact h.root
  · rw [hsentinel]
    exact h.fresh
  · rw [hsentinel]
    exact hblack

theorem mem_clear_ne {a node : Nat} (hne : a ≠ node) :
    (clear s node).mem a = s.mem a := by
  simp [clear, RbtreeT.setChild, RbtreeT.setParent, RbtreeT.put, hne]

theorem Focus.clear {node : Nat} (h : Focus s stale ctx t)
    (hnode : node ∉ addrs t ++ ctxAddrs ctx) (hsentinel : node ≠ s.sentinel) :
    Focus (clear s node) stale ctx t := by
  refine h.congr rfl rfl ?_ ?_
  · exact fun a ha => mem_clear_ne (fun heq => hnode (heq ▸ ha))
  · rw [mem_clear_ne (Ne.symm hsentinel)]
    exact h.black

theorem setParent_linked {parent : Nat} (h : Linked s.mem s.sentinel parent t)
    (hnodup : (addrs t).Nodup) (hsentinel : s.sentinel ∉ addrs t) (q : Nat) :
    Linked (s.setParent (ptr s.sentinel t) q).mem s.sentinel q t ∧
      forall a, a ∉ addrs t -> a ≠ s.sentinel ->
        (s.setParent (ptr s.sentinel t) q).mem a = s.mem a := by
  cases t with
  | leaf => exact ⟨trivial, fun a _ ha => mem_put_ne s ha _⟩
  | node c l x r =>
      have hne : x.addr ≠ s.sentinel := by
        intro heq
        apply hsentinel
        rw [← heq]
        simp [addrs, RbTree.toList]
      have heq : reparent s (ptr s.sentinel (RbTree.node c l x r)) q =
          s.setParent (ptr s.sentinel (RbTree.node c l x r)) q := if_pos hne
      obtain ⟨hlinked, _, _, hmem⟩ := reparent_linked h hnodup hsentinel q
      rw [heq] at hlinked hmem
      exact ⟨hlinked, fun a ha _ => hmem a ha⟩

theorem color_setParent (a p q : Nat) :
    ((s.setParent p q).mem a).color = (s.mem a).color := by
  by_cases ha : a = p
  · subst ha
    rw [RbtreeT.setParent, mem_put_self]
  · exact congrArg RbNode.color (mem_put_ne s ha _)

theorem parent_setParent (p q : Nat) : (s.setParent p q).parent p = q :=
  congrArg RbNode.parent (mem_put_self _ _ _)

/-!
## A node with one child
-/

section Unlink

variable {d : Dir} {c : Color} {x : Entry} {near far u : RbTree Entry}
  {f : Frame Entry}

theorem unlink_linked (h : Focus s stale (f :: ctx) (RbTree.join d c near x far))
    (q : Nat) :
    LinkedCtx (unlink s x.addr q).mem s.sentinel stale q (f :: ctx) ∧
      (unlink s x.addr q).root = rootPtr (f :: ctx) q ∧
      (unlink s x.addr q).sentinel = s.sentinel ∧
      forall a, a ∉ ctxAddrs (f :: ctx) -> (unlink s x.addr q).mem a = s.mem a := by
  have hne := h.ne_root
  have hctx := h.context
  have hroot := h.root
  rw [ptr_join] at hne hctx hroot
  have heq : unlink s x.addr q = relink Dir.left s x.addr q :=
    (if_neg hne).symm
  rw [heq]
  exact relink_linked hctx hroot (by rw [RbtreeT.parent, h.node, nodeOf_parent])
    h.split.ctx h.addr.1 h.split.nodupCtx Dir.left q

def unlinkTo (s : RbtreeT) (subst temp q : Nat) : RbtreeT :=
  (unlink s subst temp).setParent temp q

theorem unlinkTo_linked
    (h : Focus s stale (f :: ctx) (RbTree.join d c u x RbTree.leaf)) (q : Nat)
    (hs' : s' = unlinkTo s x.addr (ptr s.sentinel u) q) :
    Linked s'.mem s.sentinel q u ∧
      LinkedCtx s'.mem s.sentinel stale (ptr s.sentinel u) (f :: ctx) ∧
      s'.root = rootPtr (f :: ctx) (ptr s.sentinel u) ∧
      s'.sentinel = s.sentinel ∧
      (forall a, a ∉ addrs u -> a ∉ ctxAddrs (f :: ctx) -> a ≠ s.sentinel ->
        s'.mem a = s.mem a) ∧
      (s'.mem s.sentinel).color = Color.black := by
  obtain ⟨hctx, hroot, hsen, hmem⟩ := unlink_linked h (ptr s.sentinel u)
  obtain ⟨hx, hu, -⟩ := (linked_join _ _ _ _ _ _ _ _).mp h.tree
  have hsplit := h.split
  have hfresh := h.fresh
  have husen : s.sentinel ∉ addrs u := by
    intro hin
    have hin' := (addrs_join d c u RbTree.leaf x).mem_iff.mpr
      (List.mem_cons_of_mem _ (List.mem_append_left _ hin))
    exact (hfresh _ (List.mem_append_left _ hin')).1 rfl
  have hcsen : s.sentinel ∉ ctxAddrs (f :: ctx) :=
    fun hin => (hfresh _ (List.mem_append_right _ hin)).1 rfl
  rw [unlinkTo] at hs'
  generalize unlink s x.addr (ptr s.sentinel u) = s1 at hs' hctx hroot hsen hmem
  subst hs'
  have hu1 : Linked s1.mem s1.sentinel x.addr u := by
    rw [hsen]
    exact hu.congr fun a ha => hmem a (hsplit.nearCtx a ha)
  obtain ⟨hlinked, hother⟩ := setParent_linked hu1 hsplit.nodup (hsen ▸ husen) q
  rw [hsen] at hlinked hother
  refine ⟨hlinked, hctx.congr ?_, hroot, hsen, ?_, ?_⟩
  · intro a ha
    exact hother a (fun hin => hsplit.nearCtx a hin ha) (fun heq => hcsen (heq ▸ ha))
  · intro a hau hac has
    rw [hother a hau has, hmem a hac]
  · rw [color_setParent, hmem _ hcsen]
    exact h.black

theorem unlinkTo_focus
    (h : Focus s stale (f :: ctx) (RbTree.join d c u x RbTree.leaf))
    (hs' : s' = unlinkTo s x.addr (ptr s.sentinel u) f.elem.addr) :
    Focus s' stale (f :: ctx) u ∧ s'.sentinel = s.sentinel := by
  obtain ⟨hu, hctx, hroot, hsen, -, hblack⟩ := unlinkTo_linked h _ hs'
  have hsub : (addrs u ++ ctxAddrs (f :: ctx)).Sublist
      (x.addr :: (addrs u ++ addrs RbTree.leaf) ++ ctxAddrs (f :: ctx)) := by
    simp
  have hperm := (addrs_join d c u RbTree.leaf x).append_right (ctxAddrs (f :: ctx))
  refine ⟨⟨?_, ?_, ?_, ?_, ?_, ?_⟩, hsen⟩
  · rw [hsen]
    exact hu
  · rw [hsen]
    exact hctx
  · rw [hsen]
    exact hroot
  · exact (hperm.nodup_iff.mp h.nodup).sublist hsub
  · rw [hsen]
    exact fun a ha => h.fresh a (hperm.mem_iff.mpr (hsub.subset ha))
  · rw [hsen]
    exact hblack

theorem parent_unlink (h : Focus s stale (f :: ctx) (RbTree.join d c near x far))
    (q : Nat) : (unlink s x.addr q).parent x.addr = f.elem.addr := by
  rw [RbtreeT.parent, (unlink_linked h q).2.2.2 _ h.split.ctx, h.node,
    nodeOf_parent]
  rfl

theorem splice_self
    (h : Focus s stale (f :: ctx) (RbTree.join d c u x RbTree.leaf))
    (hs' : s' = splice s x.addr x.addr (ptr s.sentinel u)) :
    Focus s' stale (f :: ctx) u ∧ s'.sentinel = s.sentinel ∧
      s'.parent (ptr s.sentinel u) = f.elem.addr := by
  have heq : s' = unlinkTo s x.addr (ptr s.sentinel u) f.elem.addr := by
    rw [hs']
    simp only [splice, parent_unlink h]
    rfl
  obtain ⟨hfocus, hsen⟩ := unlinkTo_focus h heq
  refine ⟨hfocus, hsen, ?_⟩
  rw [heq]
  exact parent_setParent _ _

end Unlink

/-!
## A node with two children
-/

section Replace

variable {c : Color} {l r : RbTree Entry} {x y : Entry} {q : Nat}

theorem mem_copyLinks (hne : y.addr ≠ x.addr)
    (hx : s.mem x.addr = ⟨x.key, ptr s.sentinel l, ptr s.sentinel r, q, c⟩)
    (hkey : (s.mem y.addr).key = y.key) :
    (copyLinks s x.addr y.addr).mem y.addr =
        ⟨y.key, ptr s.sentinel l, ptr s.sentinel r, q, c⟩ ∧
      forall a, a ≠ y.addr -> (copyLinks s x.addr y.addr).mem a = s.mem a := by
  constructor
  · simp [copyLinks, RbtreeT.setChild, RbtreeT.setParent, RbtreeT.paint,
      RbtreeT.put, RbNode.setChild, RbtreeT.child, RbtreeT.parent, RbNode.child,
      hx, hkey, Ne.symm hne]
  · intro a ha
    simp [copyLinks, RbtreeT.setChild, RbtreeT.setParent, RbtreeT.paint,
      RbtreeT.put, ha]

def adopt (s : RbtreeT) (subst : Nat) : RbtreeT :=
  let s := reparent s (s.child subst Dir.left) subst
  reparent s (s.child subst Dir.right) subst

theorem adopt_linked {q' : Nat} {n : RbNode} (hy : s.mem y.addr = n)
    (hleft : n.left = ptr s.sentinel l) (hright : n.right = ptr s.sentinel r)
    (hl : Linked s.mem s.sentinel q l) (hr : Linked s.mem s.sentinel q' r)
    (hsplit : Split y.addr (addrs l) (addrs r) (ctxAddrs ctx))
    (hlsen : s.sentinel ∉ addrs l) (hrsen : s.sentinel ∉ addrs r)
    (hs' : s' = adopt s y.addr) :
    s'.root = s.root ∧ s'.sentinel = s.sentinel ∧
      Linked s'.mem s.sentinel y.addr l ∧ Linked s'.mem s.sentinel y.addr r ∧
      forall a, a ∉ addrs l -> a ∉ addrs r -> s'.mem a = s.mem a := by
  have hleft' : s.child y.addr Dir.left = ptr s.sentinel l := by
    rw [RbtreeT.child, hy]
    exact hleft
  simp only [adopt, hleft'] at hs'
  obtain ⟨hl3, hroot3, hsen3, h3⟩ := reparent_linked hl hsplit.nodup hlsen y.addr
  generalize reparent s (ptr s.sentinel l) y.addr = s3 at hs' hl3 hroot3 hsen3 h3
  have hright' : s3.child y.addr Dir.right = ptr s3.sentinel r := by
    rw [RbtreeT.child, h3 _ hsplit.near, hy, hsen3]
    exact hright
  rw [hright'] at hs'
  have hr3 : Linked s3.mem s3.sentinel q' r := by
    rw [hsen3]
    exact hr.congr fun a ha => h3 a (fun hal => hsplit.nearFar a hal ha)
  obtain ⟨hr4, hroot4, hsen4, h4⟩ := reparent_linked hr3 hsplit.nodupFar
    (hsen3.symm ▸ hrsen) y.addr
  rw [← hs', hsen3] at hr4
  rw [← hs'] at hroot4 hsen4 h4
  refine ⟨hroot4.trans hroot3, hsen4.trans hsen3, ?_, hr4, ?_⟩
  · exact hl3.congr fun a ha => h4 a (hsplit.nearFar a ha)
  · intro a hal har
    rw [h4 a har, h3 a hal]

theorem replace_focus
    (hx : s.mem x.addr = ⟨x.key, ptr s.sentinel l, ptr s.sentinel r,
      up stale ctx, c⟩)
    (hl : Linked s.mem s.sentinel x.addr l) (hr : Linked s.mem s.sentinel q r)
    (hctx : LinkedCtx s.mem s.sentinel stale x.addr ctx)
    (hroot : s.root = rootPtr ctx x.addr) (hkey : (s.mem y.addr).key = y.key)
    (hnodup : (y.addr :: x.addr :: (addrs l ++ (addrs r ++ ctxAddrs ctx))).Nodup)
    (hfresh : forall a, a ∈ y.addr :: x.addr ::
      (addrs l ++ (addrs r ++ ctxAddrs ctx)) -> a ≠ s.sentinel ∧ a ≠ nullptr)
    (hblack : (s.mem s.sentinel).color = Color.black) :
    Focus (replace s x.addr y.addr) stale ctx (RbTree.node c l y r) ∧
      (replace s x.addr y.addr).sentinel = s.sentinel ∧
      (replace s x.addr y.addr).mem s.sentinel = s.mem s.sentinel := by
  have hperm := (addrs_join Dir.left c l r y).append_right (ctxAddrs ctx)
  have hsub : (y.addr :: (addrs l ++ addrs r) ++ ctxAddrs ctx).Sublist
      (y.addr :: x.addr :: (addrs l ++ (addrs r ++ ctxAddrs ctx))) := by
    simp
  have happart := hnodup
  simp only [List.nodup_cons, List.mem_cons, List.mem_append, not_or,
    List.nodup_append', List.disjoint_append_right] at happart
  obtain ⟨⟨hyx, hyl, hyr, hyc⟩, ⟨-, -, hxc⟩, hls, ⟨hrs, hcs, hrc⟩, hlr, hlc⟩ :=
    happart
  have hsplit : Split y.addr (addrs l) (addrs r) (ctxAddrs ctx) :=
    ⟨hyl, hyr, hyc, hls, hrs, hcs, fun _ ha hb => hlr ha hb,
      fun _ ha hb => hlc ha hb, fun _ ha hb => hrc ha hb⟩
  have hsen : forall {as : List Nat}, (forall a, a ∈ as -> a ≠ s.sentinel) ->
      s.sentinel ∉ as := fun h hin => h _ hin rfl
  have hlsen : s.sentinel ∉ addrs l :=
    hsen fun a ha => (hfresh a (by simp [ha])).1
  have hrsen : s.sentinel ∉ addrs r :=
    hsen fun a ha => (hfresh a (by simp [ha])).1
  have hcsen : s.sentinel ∉ ctxAddrs ctx :=
    hsen fun a ha => (hfresh a (by simp [ha])).1
  have hys : y.addr ≠ s.sentinel := (hfresh _ (by simp)).1
  have hxs : x.addr ≠ s.sentinel := (hfresh _ (by simp)).1
  -- The fields of `node` are copied.
  obtain ⟨h1y, h1⟩ := mem_copyLinks hyx hx hkey
  have hroot1 : (copyLinks s x.addr y.addr).root = s.root := rfl
  have hsen1 : (copyLinks s x.addr y.addr).sentinel = s.sentinel := rfl
  have h1x := (h1 _ (Ne.symm hyx)).trans hx
  have hreplace : replace s x.addr y.addr =
      adopt (relink Dir.left (copyLinks s x.addr y.addr) x.addr y.addr) y.addr := rfl
  generalize copyLinks s x.addr y.addr = s1 at h1y h1 hroot1 hsen1 h1x hreplace
  -- `subst` is linked in the place of `node`.
  obtain ⟨hctx2, hroot2, hsen2, h2⟩ := relink_linked
    (show LinkedCtx s1.mem s1.sentinel stale x.addr ctx from
      hsen1.symm ▸ hctx.congr fun a ha => h1 a (fun heq => hyc (heq ▸ ha)))
    (hroot1.trans hroot) (show s1.parent x.addr = up stale ctx by
      rw [RbtreeT.parent, h1x])
    hxc (hsen1.symm ▸ hxs) hcs Dir.left y.addr
  generalize relink Dir.left s1 x.addr y.addr = s2 at hctx2 hroot2 hsen2 h2 hreplace
  rw [hsen1] at hctx2 hsen2
  have h2y := (h2 _ hyc).trans h1y
  have h2other : forall a, a ≠ y.addr -> a ∉ ctxAddrs ctx -> s2.mem a = s.mem a :=
    fun a hay hac => (h2 a hac).trans (h1 a hay)
  have hl2 : Linked s2.mem s2.sentinel x.addr l := by
    rw [hsen2]
    exact hl.congr fun a ha => h2other a (fun heq => hyl (heq ▸ ha)) (hlc ha)
  have hr2 : Linked s2.mem s2.sentinel q r := by
    rw [hsen2]
    exact hr.congr fun a ha => h2other a (fun heq => hyr (heq ▸ ha)) (hrc ha)
  -- Both children get `subst` as their parent.
  obtain ⟨hroot4, hsen4, hl4, hr4, h4⟩ := adopt_linked h2y
    (show ptr s.sentinel l = ptr s2.sentinel l by rw [hsen2])
    (show ptr s.sentinel r = ptr s2.sentinel r by rw [hsen2])
    hl2 hr2 hsplit (hsen2.symm ▸ hlsen) (hsen2.symm ▸ hrsen) hreplace
  rw [hsen2] at hsen4 hl4 hr4
  have hsame : (replace s x.addr y.addr).mem s.sentinel = s.mem s.sentinel := by
    rw [h4 _ hlsen hrsen, h2other _ (Ne.symm hys) hcsen]
  refine ⟨⟨⟨?_, ?_, ?_⟩, ?_, ?_, ?_, ?_, ?_⟩, hsen4, hsame⟩
  · rw [h4 _ hyl hyr, h2y, hsen4]
  · rw [hsen4]
    exact hl4
  · rw [hsen4]
    exact hr4
  · rw [hsen4]
    exact hctx2.congr fun a ha =>
      h4 a (fun hal => hlc hal ha) (fun har => hrc har ha)
  · rw [hroot4, hroot2]
    rfl
  · exact hperm.nodup_iff.mpr (hnodup.sublist hsub)
  · rw [hsen4]
    exact fun a ha => hfresh a (hsub.subset (hperm.mem_iff.mp ha))
  · rw [hsen4, hsame]
    exact hblack

theorem addrs_plug_join (down : List (Frame Entry)) (d : Dir) (c : Color)
    (u : RbTree Entry) (y : Entry) :
    (addrs (plug down (RbTree.join d c u y RbTree.leaf))).Perm
      (y.addr :: addrs (plug down u)) := by
  have hjoin := (addrs_join d c u RbTree.leaf y).append_right (ctxAddrs down)
  rw [addrs_leaf, List.append_nil] at hjoin
  exact ((addrs_plug down _).trans hjoin).trans
    (List.Perm.cons _ (addrs_plug down u).symm)

theorem addrs_subst (down : List (Frame Entry)) (d : Dir) (c' : Color)
    (u : RbTree Entry) :
    (addrs (RbTree.node c l x (plug down (RbTree.join d c' u y RbTree.leaf))) ++
        ctxAddrs ctx).Perm
      (y.addr :: x.addr ::
        (addrs l ++ (addrs (plug down u) ++ ctxAddrs ctx))) := by
  have hnode := addrs_join Dir.left c l
    (plug down (RbTree.join d c' u y RbTree.leaf)) x
  have hdown := (addrs_plug_join down d c' u y).append_left (addrs l)
  have hswap := (hdown.trans List.perm_middle).cons x.addr
  have hall := (hnode.trans (hswap.trans (List.Perm.swap _ _ _))).append_right
    (ctxAddrs ctx)
  simp only [List.cons_append, List.append_assoc] at hall
  exact hall

/-- `subst` has left its place, with `temp` below `q`, and takes that of
`node`. -/
theorem replace_subst {down : List (Frame Entry)} {c' : Color} {u : RbTree Entry}
    (h : Focus s stale ctx (RbTree.node c l x
      (plug down (RbTree.join Dir.right c' u y RbTree.leaf))))
    (hsen : s'.sentinel = s.sentinel) (hroot : s'.root = rootPtr ctx x.addr)
    (hctx : LinkedCtx s'.mem s.sentinel stale (ptr s.sentinel (plug down u))
      (⟨Dir.right, c, x, l⟩ :: ctx))
    (hu : Linked s'.mem s.sentinel q (plug down u))
    (hkey : (s'.mem y.addr).key = y.key)
    (hblack : (s'.mem s.sentinel).color = Color.black) :
    Focus (replace s' x.addr y.addr) stale ctx (RbTree.node c l y (plug down u)) ∧
      (replace s' x.addr y.addr).sentinel = s.sentinel ∧
      (replace s' x.addr y.addr).mem s.sentinel = s'.mem s.sentinel := by
  have hperm : (addrs (RbTree.node c l x (plug down (RbTree.join Dir.right c' u y
      RbTree.leaf))) ++ ctxAddrs ctx).Perm _ := addrs_subst down Dir.right c' u
  obtain ⟨hx, hl, hctx⟩ := hctx
  rw [← hsen] at hx hl hctx hu hblack ⊢
  exact replace_focus hx hl hu hctx hroot hkey (hperm.nodup_iff.mp h.nodup)
    (fun a ha => hsen.symm ▸ h.fresh a (hperm.mem_iff.mpr ha)) hblack

theorem mem_ctxAddrs {f : Frame Entry} (hf : f ∈ ctx) :
    f.elem.addr ∈ ctxAddrs ctx := by
  induction ctx with
  | nil => cases hf
  | cons g ctx ih =>
      rcases List.mem_cons.mp hf with rfl | hf
      · exact List.mem_cons_self
      · exact List.mem_cons_of_mem _ (List.mem_append_right _ (ih hf))

theorem parent_subst {down : List (Frame Entry)} {u : RbTree Entry}
    (h : Focus s' stale ctx (RbTree.node c l y (plug down u)))
    (hsen : s'.sentinel = s.sentinel)
    (hsame : s'.mem s.sentinel =
      (unlinkTo s y.addr (ptr s.sentinel u) q).mem s.sentinel)
    (hq : q = up stale (down ++ ⟨Dir.right, c, y, l⟩ :: ctx)) :
    s'.parent (ptr s.sentinel u) =
      up stale (down ++ ⟨Dir.right, c, y, l⟩ :: ctx) := by
  have hu : Focus s' stale (down ++ ⟨Dir.right, c, y, l⟩ :: ctx) u :=
    focus_append.mpr (focus_join.mp h)
  by_cases hleaf : u = RbTree.leaf
  · subst hleaf
    rw [RbtreeT.parent, ptr, hsame, ← hq]
    exact parent_setParent s.sentinel q
  · rw [← hu.parent hleaf, hsen]

theorem splice_subst {down : List (Frame Entry)} {c' : Color} {u : RbTree Entry}
    (h : Focus s stale ctx (RbTree.node c l x
      (plug down (RbTree.join Dir.right c' u y RbTree.leaf))))
    (hs' : s' = splice s x.addr y.addr (ptr s.sentinel u)) :
    Focus s' stale ctx (RbTree.node c l y (plug down u)) ∧
      s'.sentinel = s.sentinel ∧
      s'.parent (ptr s.sentinel u) =
        up stale (down ++ ⟨Dir.right, c, y, l⟩ :: ctx) := by
  have hbelow : Focus s stale (⟨Dir.right, c, x, l⟩ :: ctx)
      (plug down (RbTree.join Dir.right c' u y RbTree.leaf)) := focus_join.mp h
  have hperm : (addrs (RbTree.node c l x (plug down (RbTree.join Dir.right c' u y
      RbTree.leaf))) ++ ctxAddrs ctx).Perm _ := addrs_subst down Dir.right c' u
  have hnodup := hperm.nodup_iff.mp h.nodup
  have hne : y.addr ≠ x.addr := by
    intro heq
    rw [heq] at hnodup
    exact (List.nodup_cons.mp hnodup).1 List.mem_cons_self
  have hkeeps : forall {f : Frame Entry} {ctx' : List (Frame Entry)} {q : Nat},
      Focus s stale (f :: ctx') (RbTree.join Dir.right c' u y RbTree.leaf) ->
      ((unlinkTo s y.addr (ptr s.sentinel u) q).mem y.addr).key = y.key := by
    intro f ctx' q hf
    rw [(unlinkTo_linked hf q rfl).2.2.2.2.1 _ hf.split.near hf.split.ctx hf.addr.1,
      hf.node, nodeOf_key]
  cases down with
  | nil =>
      -- `subst` is the right child of `node`.
      have hparent : (unlink s y.addr (ptr s.sentinel u)).parent y.addr = x.addr :=
        parent_unlink hbelow _
      have heq : s' = replace (unlinkTo s y.addr (ptr s.sentinel u) y.addr)
          x.addr y.addr := by
        rw [hs']
        simp only [splice, if_neg hne, hparent]
        rfl
      obtain ⟨hu, hctx, hroot, hsen, -, hblack⟩ := unlinkTo_linked hbelow y.addr rfl
      obtain ⟨hfocus, hsen', hsame⟩ := replace_subst h hsen hroot hctx hu
        (hkeeps hbelow) hblack
      rw [← heq] at hfocus hsen' hsame
      exact ⟨hfocus, hsen', parent_subst hfocus hsen' hsame rfl⟩
  | cons g down =>
      have hhole : Focus s stale ((g :: down) ++ ⟨Dir.right, c, x, l⟩ :: ctx)
          (RbTree.join Dir.right c' u y RbTree.leaf) := focus_append.mpr hbelow
      rw [List.cons_append] at hhole
      have hparent : (unlink s y.addr (ptr s.sentinel u)).parent y.addr =
          g.elem.addr := parent_unlink hhole _
      have hgx : g.elem.addr ≠ x.addr := by
        have hgnodup := (List.nodup_append'.mp hhole.nodup).2.1
        rw [ctxAddrs, List.nodup_cons, List.mem_append, not_or] at hgnodup
        intro heq
        apply hgnodup.1.2
        rw [heq]
        exact mem_ctxAddrs (f := ⟨Dir.right, c, x, l⟩) (by simp)
      have heq : s' = replace (unlinkTo s y.addr (ptr s.sentinel u) g.elem.addr)
          x.addr y.addr := by
        rw [hs']
        simp only [splice, if_neg hne, hparent, if_neg hgx]
        rfl
      obtain ⟨-, -, -, -, -, hblack⟩ := unlinkTo_linked hhole g.elem.addr rfl
      obtain ⟨hfocus, hsen⟩ := unlinkTo_focus hhole rfl
      rw [← List.cons_append] at hfocus
      have hfocus' := focus_append.mp hfocus
      have hctx := hfocus'.context
      have hu := hfocus'.tree
      rw [hsen] at hctx hu
      obtain ⟨hfocus'', hsen', hsame⟩ := replace_subst h hsen hfocus'.root hctx hu
        (hkeeps hhole) hblack
      rw [← heq] at hfocus'' hsen' hsame
      exact ⟨hfocus'', hsen', parent_subst hfocus'' hsen' hsame rfl⟩

end Replace

end Rbtree
end NgxEpoll
