import NgxEpoll.Rbtree.Links

/-!
# Rotations

`rbtree_left_rotate` and `rbtree_right_rotate` change the focus as the rotations
of trees do.
-/

namespace NgxEpoll
namespace Rbtree

open Foundation

variable {s : RbtreeT} {stale : Nat} {ctx : List (Frame Entry)} {t : RbTree Entry}

theorem reparent_linked {parent : Nat} (h : Linked s.mem s.sentinel parent t)
    (hnodup : (addrs t).Nodup) (hsentinel : s.sentinel ∉ addrs t) (q : Nat) :
    Linked (reparent s (ptr s.sentinel t) q).mem s.sentinel q t ∧
      (reparent s (ptr s.sentinel t) q).root = s.root ∧
      (reparent s (ptr s.sentinel t) q).sentinel = s.sentinel ∧
      forall a, a ∉ addrs t ->
        (reparent s (ptr s.sentinel t) q).mem a = s.mem a := by
  cases t with
  | leaf =>
      have hsame : reparent s (ptr s.sentinel RbTree.leaf) q = s :=
        if_neg (fun hne => hne rfl)
      rw [hsame]
      exact ⟨trivial, rfl, rfl, fun _ _ => rfl⟩
  | node c l x r =>
      obtain ⟨hx, hl, hr⟩ := h
      have hne : x.addr ≠ s.sentinel := by
        intro heq
        apply hsentinel
        rw [← heq]
        simp [addrs, RbTree.toList]
      have hset : reparent s (ptr s.sentinel (RbTree.node c l x r)) q =
          s.setParent x.addr q := if_pos hne
      rw [hset]
      have hmem : forall a, a ≠ x.addr -> (s.setParent x.addr q).mem a = s.mem a :=
        fun a ha => Function.update_of_ne ha _ _
      simp only [addrs, RbTree.toList, List.map_append, List.map_cons] at hnodup
      rw [List.nodup_middle, List.nodup_cons, List.mem_append, not_or] at hnodup
      refine ⟨⟨?_, hl.congr ?_, hr.congr ?_⟩, rfl, rfl, ?_⟩
      · rw [show (s.setParent x.addr q).mem x.addr =
          { s.mem x.addr with parent := q } from Function.update_self _ _ _, hx]
      · exact fun a ha => hmem a (fun heq => hnodup.1.1 (heq ▸ ha))
      · exact fun a ha => hmem a (fun heq => hnodup.1.2 (heq ▸ ha))
      · intro a ha
        apply hmem
        rintro rfl
        exact ha (by simp [addrs, RbTree.toList])

theorem rootPtr_mem (f : Frame Entry) (ctx : List (Frame Entry)) (p : Nat) :
    rootPtr (f :: ctx) p ∈ ctxAddrs (f :: ctx) := by
  induction ctx generalizing f p with
  | nil => simp [rootPtr, ctxAddrs]
  | cons g ctx ih =>
      have hmem := ih g f.elem.addr
      rw [rootPtr, ctxAddrs]
      exact List.mem_cons_of_mem _ (List.mem_append_right _ hmem)

theorem Focus.ne_root {f : Frame Entry} (h : Focus s stale (f :: ctx) t) :
    ptr s.sentinel t ≠ s.root := by
  have hmem : s.root ∈ ctxAddrs (f :: ctx) := by
    rw [h.root]
    exact rootPtr_mem f ctx _
  intro heq
  cases t with
  | leaf => exact (h.fresh _ (List.mem_append_right _ hmem)).1 heq.symm
  | node c l x r =>
      have hin : s.root ∈ addrs (RbTree.node c l x r) := by
        rw [← heq]
        simp [addrs, RbTree.toList, ptr]
      exact (List.nodup_append'.mp h.nodup).2.2 hin hmem

theorem relink_linked {p : Nat} (h : LinkedCtx s.mem s.sentinel stale p ctx)
    (hroot : s.root = rootPtr ctx p) (hparent : s.parent p = up stale ctx)
    (hp : p ∉ ctxAddrs ctx) (hsentinel : p ≠ s.sentinel)
    (hnodup : (ctxAddrs ctx).Nodup) (d : Dir) (q : Nat) :
    LinkedCtx (relink d s p q).mem s.sentinel stale q ctx ∧
      (relink d s p q).root = rootPtr ctx q ∧
      (relink d s p q).sentinel = s.sentinel ∧
      forall a, a ∉ ctxAddrs ctx -> (relink d s p q).mem a = s.mem a := by
  cases ctx with
  | nil =>
      have hset : relink d s p q = { s with root := q } := if_pos hroot.symm
      rw [hset]
      exact ⟨trivial, rfl, rfl, fun _ _ => rfl⟩
  | cons f ctx =>
      obtain ⟨hf, hsibling, hctx⟩ := h
      have hne : p ≠ s.root := by
        rintro rfl
        exact hp (hroot ▸ rootPtr_mem f ctx _)
      have hup : s.parent p = f.elem.addr := hparent
      rw [ctxAddrs, List.mem_cons, List.mem_append, not_or, not_or] at hp
      -- The side of the focus is the one on which the parent has the node.
      have hset : relink d s p q = s.setChild f.elem.addr f.dir q := by
        rw [relink, if_neg hne, hup]
        by_cases hd : f.dir = d
        · subst hd
          have hchild : s.child f.elem.addr f.dir = p := by
            rw [RbtreeT.child, hf, nodeOf_child]
          rw [if_pos hchild.symm]
        · have hdir := Dir.eq_other_of_ne hd
          have hchild : s.child f.elem.addr d = ptr s.sentinel f.sibling := by
            rw [RbtreeT.child, hf, hdir, nodeOf_other, nodeOf_child]
          have hdiff : p ≠ ptr s.sentinel f.sibling := by
            intro heq
            cases hsib : f.sibling with
            | leaf =>
                rw [hsib] at heq
                exact hsentinel heq
            | node c l x r =>
                rw [hsib] at heq
                apply hp.2.1
                rw [heq, hsib]
                simp [addrs, RbTree.toList, ptr]
          rw [hchild, if_neg hdiff, hdir]
      rw [hset]
      have hmem : forall a, a ≠ f.elem.addr ->
          (s.setChild f.elem.addr f.dir q).mem a = s.mem a :=
        fun a ha => Function.update_of_ne ha _ _
      rw [ctxAddrs, List.nodup_cons, List.mem_append, not_or] at hnodup
      refine ⟨⟨?_, hsibling.congr ?_, hctx.congr ?_⟩, hroot, rfl, ?_⟩
      · rw [show (s.setChild f.elem.addr f.dir q).mem f.elem.addr =
          (s.mem f.elem.addr).setChild f.dir q from Function.update_self _ _ _,
          hf, nodeOf_setChild]
      · exact fun a ha => hmem a (fun heq => hnodup.1.1 (heq ▸ ha))
      · exact fun a ha => hmem a (fun heq => hnodup.1.2 (heq ▸ ha))
      · intro a ha
        apply hmem
        rintro rfl
        exact ha (by simp [ctxAddrs])

section Writes

variable (s : RbtreeT) (a b p : Nat) (d : Dir) (c : Color)

theorem mem_put_self (n : RbNode) : (s.put a n).mem a = n :=
  Function.update_self _ _ _

theorem mem_put_ne {a b : Nat} (hne : b ≠ a) (n : RbNode) :
    (s.put a n).mem b = s.mem b :=
  Function.update_of_ne hne _ _

end Writes

/-- The first three statements of a rotation: `temp` gives its near child to
`node` and gets the parent of `node`. -/
def lower (d : Dir) (s : RbtreeT) (node temp : Nat) : RbtreeT :=
  let s := s.setChild node d.other (s.child temp d)
  let s := reparent s (s.child temp d) node
  s.setParent temp (s.parent node)

def raise (d : Dir) (s : RbtreeT) (node temp : Nat) : RbtreeT :=
  let s := s.setChild temp d node
  s.setParent node temp

theorem rotate_eq (d : Dir) (s : RbtreeT) (node : Nat) :
    rotate d s node =
      raise d (relink d (lower d s node (s.child node d.other)) node
        (s.child node d.other)) node (s.child node d.other) :=
  rfl

section Rotation

variable {s' : RbtreeT} {d : Dir} {c c' : Color} {near mid far : RbTree Entry}
  {x y : Entry}

theorem Focus.lowers
    (h : Focus s stale ctx (RbTree.join d c near x (RbTree.join d c' mid y far))) :
    Focus s stale (⟨d.other, c, x, near⟩ :: ctx) (RbTree.join d c' mid y far) := by
  rw [focus_cons, Frame.plug, RbTree.join_other]
  exact h

theorem sentinel_notMem_mid
    (h : Focus s stale ctx (RbTree.join d c near x (RbTree.join d c' mid y far))) :
    s.sentinel ∉ addrs mid := by
  intro hmem
  have hmem' := (addrs_join d c' mid far y).mem_iff.mpr
    (List.mem_cons_of_mem _ (List.mem_append_left _ hmem))
  exact (h.lowers.fresh _ (List.mem_append_left _ hmem')).1 rfl

theorem lower_linked
    (h : Focus s stale ctx (RbTree.join d c near x (RbTree.join d c' mid y far)))
    (hs' : s' = lower d s x.addr y.addr) :
    s'.root = s.root ∧ s'.sentinel = s.sentinel ∧
      s'.mem x.addr = nodeOf x.key d (ptr s.sentinel near) (ptr s.sentinel mid)
        (up stale ctx) c ∧
      s'.mem y.addr = nodeOf y.key d (ptr s.sentinel mid) (ptr s.sentinel far)
        (up stale ctx) c' ∧
      Linked s'.mem s.sentinel x.addr mid ∧
      forall a, a ≠ x.addr -> a ≠ y.addr -> a ∉ addrs mid ->
        s'.mem a = s.mem a := by
  obtain ⟨hx, -, hrest⟩ := (linked_join _ _ _ _ _ _ _ _).mp h.tree
  obtain ⟨hy, hmid, -⟩ := (linked_join _ _ _ _ _ _ _ _).mp hrest
  obtain ⟨hymid, -, hyctx, hmids, -, -, -, hmidctx, -⟩ := h.lowers.split
  simp only [ctxAddrs, List.mem_cons, List.mem_append, not_or] at hyctx hmidctx
  rw [ptr_join] at hx
  -- `node->right = temp->left`
  have hchild : s.child y.addr d = ptr s.sentinel mid := by
    rw [RbtreeT.child, hy, nodeOf_child]
  let s1 := s.setChild x.addr d.other (ptr s.sentinel mid)
  have h1x : s1.mem x.addr = nodeOf x.key d (ptr s.sentinel near)
      (ptr s.sentinel mid) (up stale ctx) c := by
    rw [show s1.mem x.addr = _ from mem_put_self _ _ _, hx, nodeOf_setChild_other]
  have h1 : forall a, a ≠ x.addr -> s1.mem a = s.mem a :=
    fun a ha => mem_put_ne s ha _
  -- `temp->left->parent = node`
  have hmidsen : s.sentinel ∉ addrs mid := sentinel_notMem_mid h
  obtain ⟨hmid2, hroot2, hsen2, h2⟩ := reparent_linked (s := s1)
    (hmid.congr fun a ha => h1 a (hmidctx a ha).1) hmids hmidsen x.addr
  have hs2 : s' = (reparent s1 (ptr s1.sentinel mid) x.addr).setParent y.addr
      ((reparent s1 (ptr s1.sentinel mid) x.addr).parent x.addr) := by
    have hc1 : s1.child y.addr d = ptr s1.sentinel mid := by
      rw [RbtreeT.child, h1 _ hyctx.1]
      exact hchild
    rw [hs']
    simp only [lower, hchild]
    rw [show s.setChild x.addr d.other (ptr s.sentinel mid) = s1 from rfl, hc1]
  generalize reparent s1 (ptr s1.sentinel mid) x.addr = s2 at hs2 hmid2 hroot2 hsen2 h2
  have h2x : s2.mem x.addr = s1.mem x.addr :=
    h2 _ (fun hmem => (hmidctx _ hmem).1 rfl)
  -- `temp->parent = node->parent`
  have hp2 : s2.parent x.addr = up stale ctx := by
    rw [RbtreeT.parent, h2x, h1x, nodeOf_parent]
  rw [hp2] at hs2
  subst hs2
  have h3 : forall a, a ≠ y.addr ->
      (s2.setParent y.addr (up stale ctx)).mem a = s2.mem a :=
    fun a ha => mem_put_ne s2 ha _
  refine ⟨hroot2, hsen2, ?_, ?_, ?_, ?_⟩
  · rw [h3 _ (Ne.symm hyctx.1), h2x, h1x]
  · rw [show (s2.setParent y.addr (up stale ctx)).mem y.addr = _ from
      mem_put_self _ _ _, h2 _ hymid, h1 _ hyctx.1, hy, nodeOf_setParent]
  · rw [show s1.sentinel = s.sentinel from rfl] at hmid2
    exact hmid2.congr fun a ha => h3 a (fun heq => hymid (heq ▸ ha))
  · intro a hax hay hamid
    rw [h3 a hay, h2 a hamid, h1 a hax]

theorem mem_raise (hxy : y.addr ≠ x.addr) (hs' : s' = raise d s x.addr y.addr)
    (hx : s.mem x.addr = nodeOf x.key d (ptr s.sentinel near)
      (ptr s.sentinel mid) (up stale ctx) c)
    (hy : s.mem y.addr = nodeOf y.key d (ptr s.sentinel mid) (ptr s.sentinel far)
      (up stale ctx) c') :
    s'.mem x.addr = nodeOf x.key d (ptr s.sentinel near) (ptr s.sentinel mid)
        y.addr c ∧
      s'.mem y.addr = nodeOf y.key d x.addr (ptr s.sentinel far) (up stale ctx)
        c' ∧
      forall a, a ≠ x.addr -> a ≠ y.addr -> s'.mem a = s.mem a := by
  let s5 := s.setChild y.addr d x.addr
  have h5 : forall a, a ≠ y.addr -> s5.mem a = s.mem a :=
    fun a ha => mem_put_ne s ha _
  have h6 : forall a, a ≠ x.addr -> s'.mem a = s5.mem a := by
    rw [hs']
    exact fun a ha => mem_put_ne s5 ha _
  refine ⟨?_, ?_, ?_⟩
  · rw [hs', show (raise d s x.addr y.addr).mem x.addr = _ from mem_put_self _ _ _,
      show (s.setChild y.addr d x.addr).mem x.addr = _ from h5 _ (Ne.symm hxy), hx,
      nodeOf_setParent]
  · rw [h6 _ hxy, show s5.mem y.addr = _ from mem_put_self _ _ _, hy,
      nodeOf_setChild]
  · exact fun a hax hay => (h6 a hax).trans (h5 a hay)

theorem Focus.rotate
    (h : Focus s stale ctx (RbTree.join d c near x (RbTree.join d c' mid y far))) :
    Focus (rotate d s x.addr) stale ctx
        (RbTree.join d c' (RbTree.join d c near x mid) y far) ∧
      (Rbtree.rotate d s x.addr).sentinel = s.sentinel ∧
      (Rbtree.rotate d s x.addr).mem s.sentinel = s.mem s.sentinel := by
  obtain ⟨hx, hnear, hrest⟩ := (linked_join _ _ _ _ _ _ _ _).mp h.tree
  obtain ⟨-, -, hfar⟩ := (linked_join _ _ _ _ _ _ _ _).mp hrest
  have hctx := h.context
  have hroot := h.root
  rw [ptr_join] at hx hctx hroot
  -- The parts have no node in common, and the sentinel is in none of them.
  have hxs := h.addr.1
  have hys := h.lowers.addr.1
  obtain ⟨hxnear, -, hxctx, -, -, hcs, -, hnearctx, -⟩ := h.split
  obtain ⟨hymid, hyfar, hyctx, -, -, -, hmidfar, hmidctx, hfarctx⟩ :=
    h.lowers.split
  simp only [ctxAddrs, List.mem_cons, List.mem_append, not_or] at hyctx hmidctx hfarctx
  have hctxsen : s.sentinel ∉ ctxAddrs ctx :=
    fun hmem => (h.fresh _ (List.mem_append_right _ hmem)).1 rfl
  have htemp : s.child x.addr d.other = y.addr := by
    rw [RbtreeT.child, hx, nodeOf_child_other]
  have heq := rotate_eq d s x.addr
  rw [htemp] at heq
  obtain ⟨hroot3, hsen3, h3x, h3y, hmid3, h3⟩ := lower_linked h rfl
  generalize lower d s x.addr y.addr = s3 at heq hroot3 hsen3 h3x h3y hmid3 h3
  -- The parent or the root gets `temp`.
  have hctx3 : LinkedCtx s3.mem s3.sentinel stale x.addr ctx := by
    rw [hsen3]
    apply hctx.congr
    intro a ha
    exact h3 a (fun heq => hxctx (heq ▸ ha)) (fun heq => hyctx.2.2 (heq ▸ ha))
      (fun hmem => (hmidctx a hmem).2.2 ha)
  obtain ⟨hctx4, hroot4, hsen4, h4⟩ := relink_linked hctx3 (hroot3.trans hroot)
    (show s3.parent x.addr = up stale ctx by
      rw [RbtreeT.parent, h3x, nodeOf_parent])
    hxctx (hsen3.symm ▸ hxs) hcs d y.addr
  generalize relink d s3 x.addr y.addr = s4 at heq hctx4 hroot4 hsen4 h4
  rw [hsen3] at hctx4 hsen4
  -- `temp->left = node` and `node->parent = temp`
  rw [← h4 _ hxctx, ← hsen4] at h3x
  rw [← h4 _ hyctx.2.2, ← hsen4] at h3y
  obtain ⟨h6x, h6y, h6⟩ := mem_raise hyctx.1 rfl h3x h3y
  rw [hsen4] at h6x h6y
  have hsen : (raise d s4 x.addr y.addr).sentinel = s.sentinel := hsen4
  have hroot6 : (raise d s4 x.addr y.addr).root = rootPtr ctx y.addr := hroot4
  rw [heq]
  generalize raise d s4 x.addr y.addr = s6 at h6x h6y h6 hsen hroot6
  have hother : forall a, a ≠ x.addr -> a ≠ y.addr -> a ∉ addrs mid ->
      a ∉ ctxAddrs ctx -> s6.mem a = s.mem a := by
    intro a hax hay hamid hactx
    rw [h6 a hax hay, h4 a hactx, h3 a hax hay hamid]
  have hsame : s6.mem s.sentinel = s.mem s.sentinel :=
    hother _ (Ne.symm hxs) (Ne.symm hys) (sentinel_notMem_mid h) hctxsen
  refine ⟨h.change hsen ?_ ?_ ?_ ?_ hsame, hsen, hsame⟩
  · rw [ptr_join]
    exact hroot6
  · rw [linked_join, linked_join, ptr_join]
    refine ⟨h6y, ⟨h6x, hnear.congr ?_, hmid3.congr ?_⟩, hfar.congr ?_⟩
    · intro a ha
      refine hother a ?_ ?_ ?_ (hnearctx a ha)
      · exact fun heq => hxnear (heq ▸ ha)
      · exact fun heq => hyctx.2.1 (heq ▸ ha)
      · exact fun hmem => (hmidctx a hmem).2.1 ha
    · intro a ha
      rw [h6 a (hmidctx a ha).1 (fun heq => hymid (heq ▸ ha)),
        h4 a (hmidctx a ha).2.2]
    · intro a ha
      refine hother a (hfarctx a ha).1 ?_ ?_ (hfarctx a ha).2.2
      · exact fun heq => hyfar (heq ▸ ha)
      · exact fun hmem => hmidfar a hmem ha
  · rw [ptr_join]
    apply hctx4.congr
    intro a ha
    exact h6 a (fun heq => hxctx (heq ▸ ha)) (fun heq => hyctx.2.2 (heq ▸ ha))
  · rw [addrs, addrs, ← toList_rotate d c c']

end Rotation

end Rbtree
end NgxEpoll
