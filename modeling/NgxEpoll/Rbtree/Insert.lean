import NgxEpoll.Rbtree.Rotate

/-!
# Insertion

The search of `rbtree_insert_timer_value` finds the hole between the smaller or
equal keys and the greater ones.  The loop of `rbtree_insert` moves a red node
up whose parent may be red as well, until the tree is balanced.
-/

namespace NgxEpoll
namespace Rbtree

open Foundation

variable {s : RbtreeT} {stale : Nat} {ctx : List (Frame Entry)}

/-!
## Rebalancing
-/

section Cases

variable {d : Dir} {x y z : Entry} {t near far sibling uncle : RbTree Entry}
  {c : Color}

theorem insert_red {e : Dir}
    (h : Focus s stale (⟨e, Color.red, y, sibling⟩ ::
      ⟨d, Color.black, z, RbTree.join d Color.red near x far⟩ :: ctx) t)
    (ht : t ≠ RbTree.leaf) :
    exists s', insertCase d s (ptr s.sentinel t) = (s', z.addr) ∧
      s'.sentinel = s.sentinel ∧
      Focus s' stale ctx (RbTree.join d Color.red
        (RbTree.join e Color.black t y sibling) z
        (RbTree.join d Color.black near x far)) := by
  have hparent : s.parent (ptr s.sentinel t) = y.addr := h.parent ht
  have hgrand : s.parent y.addr = z.addr := h.parentAbove
  have hup := focus_join.mpr h
  have htemp : s.child z.addr d.other = x.addr := by
    rw [RbtreeT.child, hup.above, nodeOf_child_other, ptr_join]
  have hred : s.isRed x.addr := by
    have hcolor := (focus_swing.mp hup).color
    rw [ptr_join] at hcolor
    rw [RbtreeT.isRed, hcolor]
    cases d <;> rfl
  let s1 := s.paint y.addr Color.black
  have h1 : Focus s1 stale (⟨d, Color.black, z, RbTree.join d Color.red near x far⟩ ::
      ctx) (RbTree.join e Color.black t y sibling) := hup.paint Color.black
  let s2 := s1.paint x.addr Color.black
  have h2 : Focus s2 stale (⟨d, Color.black, z, RbTree.join d Color.black near x far⟩ ::
      ctx) (RbTree.join e Color.black t y sibling) :=
    focus_swing.mpr ((focus_swing.mp h1).paint Color.black)
  have hparent2 : s2.parent (ptr s.sentinel t) = y.addr :=
    (focus_join.mp h2).parent ht
  have hgrand2 : s2.parent y.addr = z.addr := (focus_join.mp h2).parentAbove
  let s3 := s2.paint z.addr Color.red
  have h3 : Focus s3 stale ctx (RbTree.join d Color.red
      (RbTree.join e Color.black t y sibling) z
      (RbTree.join d Color.black near x far)) :=
    (focus_join.mpr h2).paint Color.red
  have h3up := focus_join.mp h3
  have hparent3 : s3.parent (ptr s.sentinel t) = y.addr :=
    (focus_join.mp h3up).parent ht
  have hgrand3 : s3.parent y.addr = z.addr := (focus_join.mp h3up).parentAbove
  refine ⟨s3, ?_, rfl, h3⟩
  simp only [insertCase, hparent, hgrand, htemp, if_pos hred]
  rw [show s.paint y.addr Color.black = s1 from rfl,
    show s1.paint x.addr Color.black = s2 from rfl, hparent2, hgrand2,
    show s2.paint z.addr Color.red = s3 from rfl, hparent3, hgrand3]

theorem insertOuter_focus
    (h : Focus s stale (⟨d, Color.red, y, sibling⟩ ::
      ⟨d, Color.black, z, uncle⟩ :: ctx) t) (ht : t ≠ RbTree.leaf) :
    Focus (insertOuter d s (ptr s.sentinel t)) stale
        (⟨d, Color.black, y, RbTree.join d Color.red sibling z uncle⟩ :: ctx) t ∧
      (insertOuter d s (ptr s.sentinel t)).sentinel = s.sentinel := by
  have hparent : s.parent (ptr s.sentinel t) = y.addr := h.parent ht
  let s1 := s.paint y.addr Color.black
  have h1 : Focus s1 stale (⟨d, Color.black, z, uncle⟩ :: ctx)
      (RbTree.join d Color.black t y sibling) := (focus_join.mpr h).paint Color.black
  have hparent1 : s1.parent (ptr s.sentinel t) = y.addr :=
    (focus_join.mp h1).parent ht
  have hgrand1 : s1.parent y.addr = z.addr := (focus_join.mp h1).parentAbove
  let s2 := s1.paint z.addr Color.red
  have h2 : Focus s2 stale ctx (RbTree.join d Color.red
      (RbTree.join d Color.black t y sibling) z uncle) :=
    (focus_join.mpr h1).paint Color.red
  have h2up := focus_join.mp h2
  have hparent2 : s2.parent (ptr s.sentinel t) = y.addr :=
    (focus_join.mp h2up).parent ht
  have hgrand2 : s2.parent y.addr = z.addr := (focus_join.mp h2up).parentAbove
  have heq : insertOuter d s (ptr s.sentinel t) = rotate d.other s2 z.addr := by
    simp only [insertOuter, hparent]
    rw [show s.paint y.addr Color.black = s1 from rfl, hparent1, hgrand1,
      show s1.paint z.addr Color.red = s2 from rfl, hparent2, hgrand2]
  rw [← RbTree.join_other d Color.red, ← RbTree.join_other d Color.black] at h2
  obtain ⟨h3, hsentinel, _⟩ := h2.rotate
  rw [RbTree.join_other, RbTree.join_other] at h3
  rw [heq]
  exact ⟨focus_join.mp h3, hsentinel⟩

theorem exists_join_of_red {n : Nat} (ht : Balanced Color.red n t) (d : Dir) :
    exists near x far, t = RbTree.join d Color.red near x far ∧
      Balanced Color.black n near ∧ Balanced Color.black n far := by
  cases ht with
  | red hl hr =>
      cases d with
      | left => exact ⟨_, _, _, rfl, hl, hr⟩
      | right => exact ⟨_, _, _, rfl, hr, hl⟩

/-- The parent of the focus is red and the uncle black.  Afterwards the parent
is black, and nothing is left to be done. -/
theorem insert_black {e : Dir} {n : Nat}
    (h : Focus s stale (⟨e, Color.red, y, sibling⟩ ::
      ⟨d, Color.black, z, uncle⟩ :: ctx) t) (ht : Balanced Color.red n t)
    (hsibling : Balanced Color.black n sibling)
    (huncle : Balanced Color.black n uncle) :
    exists s' w t' u, insertCase d s (ptr s.sentinel t) =
        (s', ptr s.sentinel t') ∧
      s'.sentinel = s.sentinel ∧
      Focus s' stale (⟨d, Color.black, w, u⟩ :: ctx) t' ∧
      Balanced Color.red n t' ∧ Balanced Color.red n u ∧
      (RbTree.join d Color.black t' w u).toList =
        (RbTree.join d Color.black (RbTree.join e Color.red t y sibling) z
          uncle).toList := by
  have hleaf : t ≠ RbTree.leaf := by
    rintro rfl
    cases ht
  have hparent : s.parent (ptr s.sentinel t) = y.addr := h.parent hleaf
  have hgrand : s.parent y.addr = z.addr := h.parentAbove
  have hup := focus_join.mpr h
  have htemp : s.child z.addr d.other = ptr s.sentinel uncle := by
    rw [RbtreeT.child, hup.above, nodeOf_child_other]
  have hblack : ¬ s.isRed (ptr s.sentinel uncle) := by
    rw [RbtreeT.isRed, (focus_swing.mp hup).color, huncle.color_eq]
    simp
  have hside := h.side (Or.inl hleaf) d.other
  by_cases hd : e = d.other
  · -- The focus is between its parent and its grandparent.
    subst hd
    have hinner := hside.mpr rfl
    obtain ⟨near, x, far, rfl, hnear, hfar⟩ := exists_join_of_red ht d
    rw [ptr_join] at hparent hinner ⊢
    rw [RbTree.join_other] at hup
    obtain ⟨hrot, hsen, _⟩ := hup.rotate
    obtain ⟨hfocus, hsen'⟩ := insertOuter_focus (focus_join.mp hrot)
      (by cases d <;> simp [RbTree.join])
    rw [ptr_join] at hfocus hsen'
    refine ⟨_, x, RbTree.join d Color.red sibling y near,
      RbTree.join d Color.red far z uncle, ?_, hsen'.trans hsen, hfocus,
      balanced_join_red hsibling hnear, balanced_join_red hfar huncle, ?_⟩
    · simp only [insertCase, hparent, hgrand, htemp, if_neg hblack, if_pos hinner,
        ptr_join]
    · cases d <;> simp [RbTree.join, RbTree.toList, Dir.other]
  · have houter : ¬ ptr s.sentinel t = s.child y.addr d.other :=
      fun heq => hd (hside.mp heq)
    obtain rfl : e = d := by
      rw [Dir.eq_other_of_ne hd, Dir.other_other]
    obtain ⟨hfocus, hsen⟩ := insertOuter_focus h hleaf
    refine ⟨_, y, t, RbTree.join e Color.red sibling z uncle, ?_, hsen, hfocus, ht,
      balanced_join_red hsibling huncle, ?_⟩
    · simp only [insertCase, hparent, hgrand, htemp, if_neg hblack, if_neg houter]
    · cases e <;> simp [RbTree.join, RbTree.toList]

theorem insertTurn_next {e : Dir}
    (h : Focus s stale (⟨e, Color.red, y, sibling⟩ :: ⟨d, c, z, uncle⟩ :: ctx) t)
    (ht : t ≠ RbTree.leaf) :
    insertTurn (s, ptr s.sentinel t) =
      Turn.next (insertCase d s (ptr s.sentinel t)) := by
  have hparent : s.parent (ptr s.sentinel t) = y.addr := h.parent ht
  have hgrand : s.parent y.addr = z.addr := h.parentAbove
  have hup := focus_join.mpr h
  have hred : s.isRed y.addr := by
    rw [RbtreeT.isRed, h.above, nodeOf_color]
  have hside := hup.side (Or.inl (by cases e <;> simp [RbTree.join])) Dir.left
  rw [ptr_join] at hside
  simp only [insertTurn, hparent, hgrand]
  rw [if_pos ⟨h.ne_root, hred⟩]
  cases d with
  | left => rw [if_pos (hside.mpr rfl)]
  | right => rw [if_neg (fun heq => by cases hside.mp heq)]

theorem insertTurn_cases {n : Nat} {b : Bool} (h : Focus s stale ctx t)
    (ht : Balanced Color.red n t) (hctx : Fits b n ctx) :
    (insertTurn (s, ptr s.sentinel t) = Turn.done (some s) ∧
      (ctx = [] ∨ b = true)) ∨
    exists s' ctx' t' b' n', insertTurn (s, ptr s.sentinel t) =
        Turn.next (s', ptr s.sentinel t') ∧
      s'.sentinel = s.sentinel ∧ Focus s' stale ctx' t' ∧
      Balanced Color.red n' t' ∧ Fits b' n' ctx' ∧
      ctx'.length < ctx.length ∧
      (plug ctx' t').toList = (plug ctx t).toList := by
  have hleaf : t ≠ RbTree.leaf := by
    rintro rfl
    cases ht
  cases hctx with
  | top =>
      have hroot : ptr s.sentinel t = s.root := h.root.symm
      refine Or.inl ⟨?_, Or.inl rfl⟩
      simp only [insertTurn]
      rw [if_neg (fun hand => hand.1 hroot)]
  | black hsibling hrest =>
      have hblack : ¬ s.isRed (s.parent (ptr s.sentinel t)) := by
        rw [h.parent hleaf, up, RbtreeT.isRed, h.above, nodeOf_color]
        simp
      refine Or.inl ⟨?_, Or.inr rfl⟩
      simp only [insertTurn]
      rw [if_neg (fun hand => hblack hand.2)]
  | red hsibling hrest =>
      refine Or.inr ?_
      cases hrest with
      | @black _ c d z uncle b' rest huncle hrest =>
          rw [insertTurn_next h hleaf]
          cases c with
          | red =>
              obtain ⟨near, x, far, rfl, hnear, hfar⟩ := exists_join_of_red huncle d
              obtain ⟨s', heq, hsen, hfocus⟩ := insert_red h hleaf
              refine ⟨s', rest, _, b', _, ?_, hsen, hfocus,
                balanced_join_red (balanced_join_black ht hsibling)
                  (balanced_join_black hnear hfar), hrest, ?_, ?_⟩
              · rw [heq, ptr_join]
              · simp only [List.length_cons]
                omega
              · apply toList_plug_congr
                exact toList_join d (toList_join _ rfl rfl) (toList_join d rfl rfl)
          | black =>
              obtain ⟨s', w, t', u, heq, hsen, hfocus, ht', hu, hlist⟩ :=
                insert_black h ht hsibling huncle
              refine ⟨s', _, t', true, n, by rw [heq], hsen, hfocus, ht',
                Fits.black hu hrest, ?_, ?_⟩
              · simp only [List.length_cons]
                omega
              · exact toList_plug_congr rest hlist

end Cases

/-- The loop of `rbtree_insert` balances the tree, up to the colour of the
root. -/
theorem insertLoop {t : RbTree Entry} {n : Nat} {b : Bool} {fuel : Nat}
    (h : Focus s stale ctx t) (ht : Balanced Color.red n t) (hctx : Fits b n ctx)
    (hfuel : ctx.length < fuel) :
    exists s' t' c m,
      iterate insertTurn (fun _ => none) fuel (s, ptr s.sentinel t) = some s' ∧
        s'.sentinel = s.sentinel ∧ Focus s' stale [] t' ∧ Balanced c m t' ∧
        t'.toList = (plug ctx t).toList := by
  induction fuel generalizing s ctx t n b with
  | zero => omega
  | succ fuel ih =>
      rcases insertTurn_cases h ht hctx with
        ⟨hturn, hend⟩ | ⟨s1, ctx1, t1, b1, n1, hturn, hsen, h1, ht1, hctx1, hlen,
          hlist⟩
      · have hbalanced : exists c m, Balanced c m (plug ctx t) := by
          rcases hend with rfl | rfl
          · exact ⟨_, _, ht⟩
          · exact ⟨_, balanced_plug hctx ht fun _ => rfl⟩
        obtain ⟨c, m, hbalanced⟩ := hbalanced
        refine ⟨s, plug ctx t, c, m, ?_, rfl, focus_plug.mp h, hbalanced, rfl⟩
        simp only [iterate, hturn]
      · obtain ⟨s', t', c, m, hrun, hsen', h', hbalanced, hlist'⟩ :=
          ih h1 ht1 hctx1 (by omega)
        rw [hsen] at hrun
        refine ⟨s', t', c, m, ?_, hsen'.trans hsen, h', hbalanced,
          hlist'.trans hlist⟩
        simp only [iterate, hturn]
        exact hrun

/-!
## The place of a new key
-/

def Sorted (es : List Entry) : Prop :=
  es.Pairwise fun e f => e.key ≤ f.key

/-- The hole is between the keys up to `key` and the ones above. -/
structure Splits (key : Int) (ctx : List (Frame Entry)) : Prop where
  left : forall e, e ∈ leftOf ctx -> e.key ≤ key
  right : forall e, e ∈ rightOf ctx -> key < e.key

section Search

variable {key : Int} {c : Color} {x : Entry} {l r : RbTree Entry}

theorem splits_left (hsorted : Sorted (plug ctx (RbTree.node c l x r)).toList)
    (h : Splits key ctx) (hlt : key < x.key) :
    Splits key (⟨Dir.left, c, x, r⟩ :: ctx) := by
  refine ⟨h.left, ?_⟩
  rw [Sorted, toList_plug, List.pairwise_append, List.pairwise_append,
    RbTree.toList, List.pairwise_append, List.pairwise_cons] at hsorted
  obtain ⟨-, ⟨⟨-, ⟨hx, -⟩, -⟩, -, -⟩, -⟩ := hsorted
  intro e he
  simp only [rightOf, List.cons_append, List.mem_cons, List.mem_append] at he
  rcases he with rfl | he | he
  · exact hlt
  · exact Int.lt_of_lt_of_le hlt (hx e he)
  · exact h.right e he

theorem splits_right (hsorted : Sorted (plug ctx (RbTree.node c l x r)).toList)
    (h : Splits key ctx) (hle : ¬ key < x.key) :
    Splits key (⟨Dir.right, c, x, l⟩ :: ctx) := by
  refine ⟨?_, h.right⟩
  rw [Sorted, toList_plug, List.pairwise_append, List.pairwise_append,
    RbTree.toList, List.pairwise_append, List.pairwise_cons] at hsorted
  obtain ⟨-, ⟨⟨-, -, hx⟩, -, -⟩, -⟩ := hsorted
  intro e he
  simp only [leftOf, List.mem_append, List.mem_singleton] at he
  rcases he with he | he | rfl
  · exact h.left e he
  · exact Int.le_trans (hx e he x List.mem_cons_self) (Int.not_lt.mp hle)
  · exact Int.not_lt.mp hle

theorem searchTurn_eq (h : Focus s stale ctx (RbTree.node c l x r)) :
    searchTurn s key x.addr =
      if key < x.key then
        if ptr s.sentinel l = s.sentinel then Turn.done (some (x.addr, Dir.left))
        else Turn.next (ptr s.sentinel l)
      else
        if ptr s.sentinel r = s.sentinel then Turn.done (some (x.addr, Dir.right))
        else Turn.next (ptr s.sentinel r) := by
  have hx := h.tree.1
  simp only [searchTurn, RbtreeT.child, hx]
  split <;> rfl

theorem Focus.ptr_eq_sentinel {f : Frame Entry} {t : RbTree Entry}
    (h : Focus s stale (f :: ctx) t) :
    ptr s.sentinel t = s.sentinel ↔ t = RbTree.leaf := by
  cases t with
  | leaf => simp [ptr]
  | node c l x r =>
      have hne : x.addr ≠ s.sentinel :=
        (h.fresh _ (List.mem_append_left _ (by simp [addrs, RbTree.toList]))).1
      simp [ptr, hne]

/-- The hole that a search from `p` finds in the tree `t`. -/
def Finds (fuel : Nat) (s : RbtreeT) (key : Int) (p : Nat) (t : RbTree Entry) :
    Prop :=
  exists f ctx, search fuel s key p = some (f.elem.addr, f.dir) ∧
    plug (f :: ctx) RbTree.leaf = t ∧ Splits key (f :: ctx)

theorem finds_below {d : Dir} {t far : RbTree Entry} {fuel : Nat}
    (h : Focus s stale (⟨d, c, x, far⟩ :: ctx) t)
    (hsplits : Splits key (⟨d, c, x, far⟩ :: ctx))
    (hturn : searchTurn s key x.addr =
      if ptr s.sentinel t = s.sentinel then Turn.done (some (x.addr, d))
      else Turn.next (ptr s.sentinel t))
    (hbelow : t ≠ RbTree.leaf -> Finds fuel s key (ptr s.sentinel t)
      (plug (⟨d, c, x, far⟩ :: ctx) t)) :
    Finds (fuel + 1) s key x.addr (plug (⟨d, c, x, far⟩ :: ctx) t) := by
  by_cases hleaf : t = RbTree.leaf
  · rw [if_pos (h.ptr_eq_sentinel.mpr hleaf)] at hturn
    subst hleaf
    refine ⟨_, ctx, ?_, rfl, hsplits⟩
    simp only [search, iterate, hturn]
  · rw [if_neg (fun heq => hleaf (h.ptr_eq_sentinel.mp heq))] at hturn
    obtain ⟨f, ctx', hsearch, hplug, hsplits'⟩ := hbelow hleaf
    refine ⟨f, ctx', ?_, hplug, hsplits'⟩
    simp only [search, iterate, hturn]
    exact hsearch

theorem search_finds {t : RbTree Entry} {fuel : Nat} (ht : t ≠ RbTree.leaf)
    (h : Focus s stale ctx t) (hsorted : Sorted (plug ctx t).toList)
    (hsplits : Splits key ctx) (hfuel : t.toList.length ≤ fuel) :
    Finds fuel s key (ptr s.sentinel t) (plug ctx t) := by
  induction t generalizing ctx fuel with
  | leaf => exact absurd rfl ht
  | node c l x r ihl ihr =>
      have hturn : searchTurn s key x.addr = _ := searchTurn_eq h
      simp only [RbTree.toList, List.length_append, List.length_cons] at hfuel
      obtain ⟨fuel, rfl⟩ : exists k, fuel = k + 1 := ⟨fuel - 1, by omega⟩
      by_cases hlt : key < x.key
      · rw [if_pos hlt] at hturn
        have hl : Focus s stale (⟨Dir.left, c, x, r⟩ :: ctx) l := focus_join.mp h
        have hsplits' := splits_left hsorted hsplits hlt
        exact finds_below hl hsplits' hturn
          (fun hleaf => ihl hleaf hl hsorted hsplits' (by omega))
      · rw [if_neg hlt] at hturn
        have hr : Focus s stale (⟨Dir.right, c, x, l⟩ :: ctx) r := focus_join.mp h
        have hsplits' := splits_right hsorted hsplits hlt
        exact finds_below hr hsplits' hturn
          (fun hleaf => ihr hleaf hr hsorted hsplits' (by omega))

end Search

/-!
## The new node
-/

theorem attach_focus {f : Frame Entry} {node : Nat}
    (h : Focus s stale (f :: ctx) RbTree.leaf)
    (hnode : node ∉ ctxAddrs (f :: ctx)) (hsentinel : node ≠ s.sentinel)
    (hnull : node ≠ nullptr) :
    Focus (attach s f.elem.addr f.dir node) stale (f :: ctx)
      (RbTree.node Color.red RbTree.leaf ⟨node, (s.mem node).key⟩ RbTree.leaf) := by
  have hne : node ≠ f.elem.addr := by
    rintro rfl
    exact hnode (by simp [ctxAddrs])
  have hself : (attach s f.elem.addr f.dir node).mem node =
      ⟨(s.mem node).key, s.sentinel, s.sentinel, f.elem.addr, Color.red⟩ := by
    simp [attach, RbtreeT.setChild, RbtreeT.setParent, RbtreeT.paint, RbtreeT.put,
      RbNode.setChild, hne]
  have hother : forall a, a ≠ node ->
      (attach s f.elem.addr f.dir node).mem a =
        (s.setChild f.elem.addr f.dir node).mem a := by
    intro a ha
    simp [attach, RbtreeT.setChild, RbtreeT.setParent, RbtreeT.paint, RbtreeT.put,
      ha]
  have hsame : forall a, a ≠ node -> a ≠ f.elem.addr ->
      (attach s f.elem.addr f.dir node).mem a = s.mem a :=
    fun a ha haf => (hother a ha).trans (mem_put_ne s haf _)
  obtain ⟨hf, hsibling, hctx⟩ := h.context
  have hnodup := h.nodup
  simp only [addrs_leaf, List.nil_append, ctxAddrs, List.nodup_cons,
    List.mem_append, not_or] at hnodup
  simp only [ctxAddrs, List.mem_cons, List.mem_append, not_or] at hnode
  refine ⟨⟨hself, trivial, trivial⟩, ⟨?_, hsibling.congr ?_, hctx.congr ?_⟩,
    h.root, ?_, ?_, ?_⟩
  · rw [hother _ (Ne.symm hne), show (s.setChild f.elem.addr f.dir node).mem
      f.elem.addr = _ from mem_put_self _ _ _, hf, nodeOf_setChild]
    rfl
  · intro a ha
    exact hsame a (fun heq => hnode.2.1 (heq ▸ ha))
      (fun heq => hnodup.1.1 (heq ▸ ha))
  · intro a ha
    exact hsame a (fun heq => hnode.2.2 (heq ▸ ha))
      (fun heq => hnodup.1.2 (heq ▸ ha))
  · have hctxs : (ctxAddrs (f :: ctx)).Nodup := h.nodup
    rw [show addrs (RbTree.node Color.red RbTree.leaf ⟨node, (s.mem node).key⟩
      RbTree.leaf) = [node] from rfl, List.singleton_append, List.nodup_cons]
    refine ⟨?_, hctxs⟩
    simpa [ctxAddrs] using hnode
  · intro a ha
    rcases List.mem_append.mp ha with hin | hin
    · obtain rfl : a = node := by simpa [addrs, RbTree.toList] using hin
      exact ⟨hsentinel, hnull⟩
    · exact h.fresh a hin
  · have hfs := (h.fresh f.elem.addr (by simp [ctxAddrs])).1
    rw [show (attach s f.elem.addr f.dir node).sentinel = s.sentinel from rfl,
      hsame _ (Ne.symm hsentinel) (Ne.symm hfs)]
    exact h.black

/-- The memory holds the tree `t`, which is balanced and in order. -/
structure Sound (s : RbtreeT) (t : RbTree Entry) : Prop where
  focus : exists stale, Focus s stale [] t
  balanced : exists n, Balanced Color.black n t
  sorted : Sorted t.toList

theorem sorted_plug {t : RbTree Entry} {x : Entry}
    (hsorted : Sorted (plug ctx RbTree.leaf).toList) (hsplits : Splits x.key ctx)
    (ht : t.toList = [x]) : Sorted (plug ctx t).toList := by
  rw [Sorted, toList_plug, RbTree.toList, List.nil_append,
    List.pairwise_append] at hsorted
  rw [Sorted, toList_plug, ht, List.singleton_append, List.pairwise_append,
    List.pairwise_cons]
  refine ⟨hsorted.1, ⟨?_, hsorted.2.1⟩, ?_⟩
  · exact fun e he => Int.le_of_lt (hsplits.right e he)
  · intro e he f hf
    rcases List.mem_cons.mp hf with rfl | hf
    · exact hsplits.left e he
    · exact hsorted.2.2 e he f hf

theorem Focus.root_eq_sentinel {t : RbTree Entry} (h : Focus s stale [] t) :
    s.root = s.sentinel ↔ t = RbTree.leaf := by
  rw [h.root, rootPtr]
  cases t with
  | leaf => simp [ptr]
  | node c l x r =>
      have hne : x.addr ≠ s.sentinel :=
        (h.fresh _ (List.mem_append_left _ (by simp [addrs, RbTree.toList]))).1
      simp [ptr, hne]

theorem rbtreeInsert_empty {node fuel : Nat} (h : Focus s stale [] RbTree.leaf)
    (hsentinel : node ≠ s.sentinel) (hnull : node ≠ nullptr) :
    exists s', rbtreeInsert fuel s node = some s' ∧ s'.sentinel = s.sentinel ∧
      Focus s' nullptr []
        (RbTree.node Color.black RbTree.leaf ⟨node, (s.mem node).key⟩ RbTree.leaf) := by
  have hroot : s.root = s.sentinel := h.root
  refine ⟨_, if_pos hroot, rfl, ⟨?_, trivial, trivial⟩, trivial, rfl, ?_, ?_, ?_⟩
  · simp [RbtreeT.setChild, RbtreeT.setParent, RbtreeT.paint, RbtreeT.put,
      RbNode.setChild, ptr, up]
  · exact List.nodup_singleton node
  · intro a ha
    obtain rfl : a = node := by simpa [addrs, RbTree.toList, ctxAddrs] using ha
    exact ⟨hsentinel, hnull⟩
  · have hblack := h.black
    simpa [RbtreeT.setChild, RbtreeT.setParent, RbtreeT.paint, RbtreeT.put,
      RbNode.setChild, Ne.symm hsentinel] using hblack

theorem Focus.paintRoot {t : RbTree Entry} (h : Focus s stale [] t) :
    Focus (s.paint s.root Color.black) stale [] t.blacken := by
  rw [h.root, rootPtr]
  cases t with
  | leaf => exact h.paintSentinel
  | node c l x r =>
      exact (show Focus s stale [] (RbTree.join Dir.left c l x r) from h).paint
        Color.black

theorem rbtreeInsert_sound {t : RbTree Entry} {node fuel : Nat} (h : Sound s t)
    (hnode : node ∉ addrs t) (hsentinel : node ≠ s.sentinel)
    (hnull : node ≠ nullptr) (hfuel : t.toList.length < fuel) :
    exists s' t', rbtreeInsert fuel s node = some s' ∧ Sound s' t' ∧
      s'.sentinel = s.sentinel ∧
      t'.toList.Perm (⟨node, (s.mem node).key⟩ :: t.toList) := by
  obtain ⟨⟨stale, hfocus⟩, ⟨n, hbalanced⟩, hsorted⟩ := h
  by_cases hleaf : t = RbTree.leaf
  · subst hleaf
    obtain ⟨s', heq, hsen, hfocus'⟩ := rbtreeInsert_empty hfocus hsentinel hnull
    refine ⟨s', _, heq, ⟨⟨_, hfocus'⟩, ⟨1, Balanced.black Balanced.leaf
      Balanced.leaf⟩, List.pairwise_singleton _ _⟩, hsen, List.Perm.refl _⟩
  · have hroot : s.root ≠ s.sentinel := fun heq =>
      hleaf (hfocus.root_eq_sentinel.mp heq)
    have hnone : Splits (s.mem node).key [] :=
      ⟨by simp [leftOf], by simp [rightOf]⟩
    obtain ⟨f, ctx, hsearch, hplug, hsplits⟩ :=
      search_finds hleaf hfocus hsorted hnone (Nat.le_of_lt hfuel)
    rw [← show s.root = ptr s.sentinel t from hfocus.root] at hsearch
    obtain rfl : t = plug (f :: ctx) RbTree.leaf := hplug.symm
    have hhole := focus_plug.mpr hfocus
    have hmem := (addrs_plug (f :: ctx) RbTree.leaf).mem_iff (a := node)
    have hattach := attach_focus hhole (fun hin => hnode (hmem.mpr hin)) hsentinel
      hnull
    have hinsert : rbtreeInsertTimerValue fuel s s.root node =
        some (attach s f.elem.addr f.dir node) := by
      have hnil : ¬ (s.root = nullptr ∨ node = nullptr) := by
        rw [not_or, hhole.root]
        exact ⟨(hhole.fresh _ (rootPtr_mem f ctx _)).2, hnull⟩
      rw [rbtreeInsertTimerValue, if_neg hnil, hsearch]
    -- The new node is red and below the hole, which takes trees without a
    -- black node.
    obtain ⟨b, c, m, hfits, hhollow, _⟩ := fits_of_balanced hbalanced
    cases hhollow
    have hlen := length_le_toList_plug (f :: ctx) (RbTree.leaf : RbTree Entry)
    obtain ⟨s', t', c, m, hloop, hsen, hfocus', hbalanced', hlist⟩ :=
      insertLoop hattach (Balanced.red Balanced.leaf Balanced.leaf) hfits
        (Nat.lt_of_le_of_lt hlen hfuel)
    refine ⟨s'.paint s'.root Color.black, t'.blacken, ?_,
      ⟨⟨stale, hfocus'.paintRoot⟩, hbalanced'.blacken, ?_⟩, hsen, ?_⟩
    · have hptr : ptr (attach s f.elem.addr f.dir node).sentinel
          (RbTree.node Color.red RbTree.leaf ⟨node, (s.mem node).key⟩ RbTree.leaf) =
            node := rfl
      rw [hptr] at hloop
      simp only [rbtreeInsert, if_neg hroot, hinsert, hloop]
    · rw [RbTree.toList_blacken, hlist]
      exact sorted_plug hsorted hsplits rfl
    · rw [RbTree.toList_blacken, hlist, toList_plug, toList_plug]
      exact List.perm_middle

end Rbtree
end NgxEpoll
