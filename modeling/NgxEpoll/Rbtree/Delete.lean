import NgxEpoll.Rbtree.Splice

/-!
# Deletion

The loop of `rbtree_delete` moves the place up at which a black node is missing.
The place may be empty: then `temp` is the sentinel, whose parent field says
where it is.
-/

namespace NgxEpoll
namespace Rbtree

open Foundation

variable {s s' : RbtreeT} {stale : Nat} {ctx ctx' : List (Frame Entry)}
  {t : RbTree Entry}

/-- A focus whose parent can be read from memory even where it is empty. -/
structure Cursor (s : RbtreeT) (stale : Nat) (ctx : List (Frame Entry))
    (t : RbTree Entry) : Prop where
  focus : Focus s stale ctx t
  parent : s.parent (ptr s.sentinel t) = up stale ctx

structure SentinelKept (s s' : RbtreeT) : Prop where
  sentinel : s'.sentinel = s.sentinel
  parent : s'.parent s.sentinel = s.parent s.sentinel

theorem SentinelKept.trans {s s' s'' : RbtreeT} (h : SentinelKept s s')
    (h' : SentinelKept s' s'') : SentinelKept s s'' where
  sentinel := h'.sentinel.trans h.sentinel
  parent := by
    have hparent := h'.parent
    rw [h.sentinel] at hparent
    exact hparent.trans h.parent

theorem sentinelKept_paint (s : RbtreeT) (a : Nat) (c : Color) :
    SentinelKept s (s.paint a c) where
  sentinel := rfl
  parent := by
    by_cases ha : s.sentinel = a
    · subst ha
      rw [RbtreeT.parent, RbtreeT.paint, mem_put_self]
      rfl
    · exact congrArg RbNode.parent (mem_put_ne s ha _)

theorem Cursor.keep (h : Cursor s stale ctx t) (hkept : SentinelKept s s')
    (h' : Focus s' stale ctx' t) (hup : up stale ctx' = up stale ctx) :
    Cursor s' stale ctx' t := by
  refine ⟨h', ?_⟩
  by_cases hleaf : t = RbTree.leaf
  · subst hleaf
    rw [hup, ← h.parent, ptr, hkept.sentinel]
    exact hkept.parent
  · exact h'.parent hleaf

section Cases

variable {d : Dir} {c : Color} {x w v : Entry} {a e wn wf : RbTree Entry}

theorem deleteRed_cursor
    (h : Cursor s stale (⟨d, Color.black, x, RbTree.join d Color.red wn w wf⟩ :: ctx)
      t) (hs' : s' = deleteRed d s (ptr s.sentinel t) w.addr) :
    Cursor s' stale (⟨d, Color.red, x, wn⟩ :: ⟨d, Color.black, w, wf⟩ :: ctx) t ∧
      SentinelKept s s' := by
  let s1 := s.paint w.addr Color.black
  have h1 : Focus s1 stale (⟨d, Color.black, x, RbTree.join d Color.black wn w wf⟩ ::
      ctx) t := focus_swing.mpr ((focus_swing.mp h.focus).paint Color.black)
  have hkept1 : SentinelKept s s1 := sentinelKept_paint s _ _
  have hp1 : s1.parent (ptr s.sentinel t) = x.addr := (h.keep hkept1 h1 rfl).parent
  let s2 := s1.paint x.addr Color.red
  have h2 : Focus s2 stale ctx (RbTree.join d Color.red t x
      (RbTree.join d Color.black wn w wf)) := (focus_join.mpr h1).paint Color.red
  have hkept2 : SentinelKept s s2 := hkept1.trans (sentinelKept_paint s1 _ _)
  have hp2 : s2.parent (ptr s.sentinel t) = x.addr :=
    (h.keep hkept2 (focus_join.mp h2) rfl).parent
  obtain ⟨h3, hsen, hmem⟩ := h2.rotate
  have heq : s' = rotate d s2 x.addr := by
    rw [hs']
    simp only [deleteRed]
    rw [show s.paint w.addr Color.black = s1 from rfl, hp1,
      show s1.paint x.addr Color.red = s2 from rfl, hp2]
  rw [← heq] at h3 hsen hmem
  have hkept : SentinelKept s s' :=
    hkept2.trans ⟨hsen, congrArg RbNode.parent hmem⟩
  exact ⟨h.keep hkept (focus_join.mp (focus_join.mp h3)) rfl, hkept⟩

/-- The red child of the sibling is on the near side: afterwards one is on the
far side. -/
theorem deleteInner_focus
    (h : Focus s stale ctx
      (RbTree.join d Color.black (RbTree.join d Color.red a v e) w wf))
    (hs' : s' = deleteInner d s w.addr) :
    Focus s' stale ctx (RbTree.join d Color.black a v (RbTree.join d Color.red e w wf)) ∧
      SentinelKept s s' := by
  have hchild : s.child w.addr d = v.addr := by
    rw [RbtreeT.child, h.node, nodeOf_child, ptr_join]
  let s1 := s.paint v.addr Color.black
  have h1 : Focus s1 stale ctx
      (RbTree.join d Color.black (RbTree.join d Color.black a v e) w wf) :=
    focus_join.mpr ((focus_join.mp h).paint Color.black)
  let s2 := s1.paint w.addr Color.red
  have h2 : Focus s2 stale ctx
      (RbTree.join d Color.red (RbTree.join d Color.black a v e) w wf) :=
    h1.paint Color.red
  have hkept2 : SentinelKept s s2 :=
    (sentinelKept_paint s _ _).trans (sentinelKept_paint s1 _ _)
  rw [← RbTree.join_other d Color.red, ← RbTree.join_other d Color.black] at h2
  obtain ⟨h3, hsen, hmem⟩ := h2.rotate
  rw [RbTree.join_other, RbTree.join_other] at h3
  have heq : s' = rotate d.other s2 w.addr := by
    rw [hs']
    simp only [deleteInner, hchild]
    rfl
  rw [← heq] at h3 hsen hmem
  exact ⟨h3, hkept2.trans ⟨hsen, congrArg RbNode.parent hmem⟩⟩

/-- The sibling has a red child on the far side: the missing black node is
made up for. -/
theorem deleteOuter_focus
    (h : Cursor s stale (⟨d, c, x,
      RbTree.join d Color.black wn w (RbTree.join d Color.red a v e)⟩ :: ctx) t)
    (hs' : s' = deleteOuter d s (ptr s.sentinel t) w.addr) :
    Focus s' stale ctx (RbTree.join d c (RbTree.join d Color.black t x wn) w
        (RbTree.join d Color.black a v e)) ∧ s'.sentinel = s.sentinel := by
  have hp : s.parent (ptr s.sentinel t) = x.addr := h.parent
  have hcolor : (s.mem x.addr).color = c := by
    rw [h.focus.above, nodeOf_color]
  let s1 := s.paint w.addr c
  have h1 : Focus s1 stale (⟨d, c, x,
      RbTree.join d c wn w (RbTree.join d Color.red a v e)⟩ :: ctx) t :=
    focus_swing.mpr ((focus_swing.mp h.focus).paint c)
  have hkept1 : SentinelKept s s1 := sentinelKept_paint s _ _
  have hp1 : s1.parent (ptr s.sentinel t) = x.addr := (h.keep hkept1 h1 rfl).parent
  let s2 := s1.paint x.addr Color.black
  have h2 : Focus s2 stale (⟨d, Color.black, x,
      RbTree.join d c wn w (RbTree.join d Color.red a v e)⟩ :: ctx) t :=
    focus_join.mp ((focus_join.mpr h1).paint Color.black)
  have hkept2 : SentinelKept s s2 := hkept1.trans (sentinelKept_paint s1 _ _)
  have h2w := focus_swing.mp h2
  have hchild : s2.child w.addr d.other = v.addr := by
    rw [RbtreeT.child, h2w.node, nodeOf_child_other, ptr_join]
  let s3 := s2.paint v.addr Color.black
  have h3w : Focus s3 stale (⟨d.other, Color.black, x, t⟩ :: ctx)
      (RbTree.join d c wn w (RbTree.join d Color.black a v e)) := by
    rw [← RbTree.join_other] at h2w ⊢
    exact focus_join.mpr ((focus_join.mp h2w).paint Color.black)
  have h3 := focus_swing.mpr h3w
  have hkept3 : SentinelKept s s3 := hkept2.trans (sentinelKept_paint s2 _ _)
  have hp3 : s3.parent (ptr s.sentinel t) = x.addr := (h.keep hkept3 h3 rfl).parent
  obtain ⟨h4, hsen, -⟩ := (focus_join.mpr h3).rotate
  have heq : s' = rotate d s3 x.addr := by
    rw [hs']
    simp only [deleteOuter, hp, hcolor]
    rw [show s.paint w.addr c = s1 from rfl, hp1,
      show s1.paint x.addr Color.black = s2 from rfl, hchild,
      show s2.paint v.addr Color.black = s3 from rfl, hp3]
  rw [← heq] at h4 hsen
  exact ⟨h4, hsen⟩

theorem Focus.isBlack_child
    (h : Focus s stale ctx (RbTree.join d c wn w wf)) :
    (s.isBlack (s.child w.addr d) ↔ wn.color = Color.black) ∧
      (s.isBlack (s.child w.addr d.other) ↔ wf.color = Color.black) := by
  have hfar : Focus s stale (⟨d.other, c, w, wn⟩ :: ctx) wf := by
    rw [← focus_join, RbTree.join_other]
    exact h
  rw [RbtreeT.isBlack, RbtreeT.isBlack, RbtreeT.child, RbtreeT.child, h.node,
    nodeOf_child, nodeOf_child_other, (focus_join.mp h).color, hfar.color]
  exact ⟨Iff.rfl, Iff.rfl⟩

theorem and_dir (P : Dir -> Prop) (d : Dir) :
    P Dir.left ∧ P Dir.right ↔ P d ∧ P d.other := by
  cases d with
  | left => exact Iff.rfl
  | right => exact and_comm

theorem deleteBlack_up
    (h : Cursor s stale (⟨d, c, x, RbTree.join d Color.black wn w wf⟩ :: ctx) t)
    (hwn : wn.color = Color.black) (hwf : wf.color = Color.black) :
    exists s', deleteBlack d s (ptr s.sentinel t) w.addr = (s', x.addr) ∧
      s'.sentinel = s.sentinel ∧
      Focus s' stale ctx (RbTree.join d c t x (RbTree.join d Color.red wn w wf)) := by
  have hw := focus_swing.mp h.focus
  obtain ⟨hnear, hfar⟩ := hw.isBlack_child
  have hboth : s.isBlack (s.child w.addr Dir.left) ∧
      s.isBlack (s.child w.addr Dir.right) :=
    (and_dir (fun d => s.isBlack (s.child w.addr d)) d).mpr
      ⟨hnear.mpr hwn, hfar.mpr hwf⟩
  have h1 := focus_swing.mpr (hw.paint Color.red)
  refine ⟨s.paint w.addr Color.red, ?_, rfl, focus_join.mpr h1⟩
  have hp : (s.paint w.addr Color.red).parent (ptr s.sentinel t) = x.addr :=
    (h.keep (sentinelKept_paint s _ _) h1 rfl).parent
  simp only [deleteBlack]
  rw [if_pos hboth, hp]

theorem deleteBlack_done {n : Nat} {cn cf : Color}
    (h : Cursor s stale (⟨d, c, x, RbTree.join d Color.black wn w wf⟩ :: ctx) t)
    (hwn : Balanced cn n wn) (hwf : Balanced cf n wf)
    (hred : ¬ (cn = Color.black ∧ cf = Color.black)) :
    exists s' y u v cu, deleteBlack d s (ptr s.sentinel t) w.addr =
        (s', s'.root) ∧ s'.sentinel = s.sentinel ∧
      Focus s' stale ctx (RbTree.join d c (RbTree.join d Color.black t x u) y v) ∧
      Balanced cu n u ∧ Balanced Color.black (n + 1) v ∧
      (RbTree.join d c (RbTree.join d Color.black t x u) y v).toList =
        (RbTree.join d c t x (RbTree.join d Color.black wn w wf)).toList := by
  have hw := focus_swing.mp h.focus
  obtain ⟨hnear, hfar⟩ := hw.isBlack_child
  rw [hwn.color_eq] at hnear
  rw [hwf.color_eq] at hfar
  have hboth : ¬ (s.isBlack (s.child w.addr Dir.left) ∧
      s.isBlack (s.child w.addr Dir.right)) := by
    rw [and_dir (fun d => s.isBlack (s.child w.addr d)) d, hnear, hfar]
    exact hred
  cases cf with
  | red =>
      have houter : ¬ s.isBlack (s.child w.addr d.other) := by
        rw [hfar]
        simp
      obtain ⟨a, v, e, rfl, ha, he⟩ := exists_join_of_red hwf d
      obtain ⟨hfocus, hsen⟩ := deleteOuter_focus h rfl
      refine ⟨_, w, wn, RbTree.join d Color.black a v e, cn, ?_, hsen, hfocus, hwn,
        balanced_join_black ha he, ?_⟩
      · simp only [deleteBlack, if_neg hboth, if_neg houter]
      · rw [← toList_rotate d c Color.black]
        exact toList_join d rfl (toList_join d rfl (toList_join d rfl rfl))
  | black =>
      have hinner : s.isBlack (s.child w.addr d.other) := hfar.mpr rfl
      obtain rfl : cn = Color.red := by
        cases cn with
        | red => rfl
        | black => exact absurd ⟨rfl, rfl⟩ hred
      obtain ⟨a, v, e, rfl, ha, he⟩ := exists_join_of_red hwn d
      obtain ⟨h1, hkept⟩ := deleteInner_focus hw rfl
      have hcursor := h.keep hkept (focus_swing.mpr h1) rfl
      have hchild : (deleteInner d s w.addr).child
          ((deleteInner d s w.addr).parent (ptr s.sentinel t)) d.other =
            v.addr := by
        rw [← hkept.sentinel, hcursor.parent, up, RbtreeT.child,
          hcursor.focus.above, nodeOf_child_other, ptr_join]
      obtain ⟨hfocus, hsen⟩ := deleteOuter_focus hcursor rfl
      rw [hkept.sentinel] at hfocus hsen
      refine ⟨_, v, a, RbTree.join d Color.black e w wf, Color.black, ?_, hsen,
        hfocus, ha, balanced_join_black he hwf, ?_⟩
      · simp only [deleteBlack, if_neg hboth, if_pos hinner, hchild]
      · cases d <;> simp [RbTree.join, RbTree.toList]

theorem exists_join_of_black {n : Nat} (ht : Balanced Color.black (n + 1) t)
    (d : Dir) :
    exists near x far c c', t = RbTree.join d Color.black near x far ∧
      Balanced c n near ∧ Balanced c' n far := by
  cases ht with
  | black hl hr =>
      cases d with
      | left => exact ⟨_, _, _, _, _, rfl, hl, hr⟩
      | right => exact ⟨_, _, _, _, _, rfl, hr, hl⟩

/-- The steps that the loop has left: up the context, and one more while the
focus is black. -/
def weight (ctx : List (Frame Entry)) (t : RbTree Entry) : Nat :=
  ctx.length + if t.color = Color.red then 0 else 1

/-- Where a turn of the loop leads: to another place at which a black node is
missing, or to a tree that misses none. -/
inductive Mended (s : RbtreeT) (stale : Nat) (es : List Entry) (k : Nat) :
    RbtreeT × Nat -> Prop where
  | up {s' : RbtreeT} {ctx : List (Frame Entry)} {t : RbTree Entry} {b : Bool}
      {n : Nat} : s'.sentinel = s.sentinel -> Cursor s' stale ctx t ->
      Fits b (n + 1) ctx -> Deficient n t -> weight ctx t < k ->
      (plug ctx t).toList = es -> Mended s stale es k (s', ptr s.sentinel t)
  | done {s' : RbtreeT} {t : RbTree Entry} {m : Nat} : 0 < k ->
      s'.sentinel = s.sentinel -> Focus s' stale [] t ->
      Balanced Color.black m t -> t.toList = es ->
      Mended s stale es k (s', s'.root)

theorem deleteBlack_mended {n k : Nat} {b : Bool} {cn cf : Color}
    (h : Cursor s stale (⟨d, c, x, RbTree.join d Color.black wn w wf⟩ :: ctx) t)
    (hfits : Fits b (n + 1) (⟨d, c, x, RbTree.join d Color.black wn w wf⟩ :: ctx))
    (ht : Balanced Color.black n t) (hwn : Balanced cn n wn)
    (hwf : Balanced cf n wf)
    (hk : (ctx.length + if c = Color.red then 0 else 1) < k) :
    Mended s stale
      (plug (⟨d, c, x, RbTree.join d Color.black wn w wf⟩ :: ctx) t).toList k
      (deleteBlack d s (ptr s.sentinel t) w.addr) := by
  by_cases hblack : cn = Color.black ∧ cf = Color.black
  · obtain ⟨rfl, rfl⟩ := hblack
    obtain ⟨s', heq, hsen, hfocus⟩ := deleteBlack_up h hwn.color_eq hwf.color_eq
    rw [heq, ← ptr_join s.sentinel d c t (RbTree.join d Color.red wn w wf) x]
    have hcursor : Cursor s' stale ctx (RbTree.join d c t x
        (RbTree.join d Color.red wn w wf)) :=
      ⟨hfocus, hfocus.parent (by cases d <;> simp [RbTree.join])⟩
    have hcolor : (RbTree.join d c t x (RbTree.join d Color.red wn w wf)).color = c := by
      cases d <;> rfl
    have hweight : weight ctx (RbTree.join d c t x
        (RbTree.join d Color.red wn w wf)) < k := by
      rw [weight, hcolor]
      exact hk
    have hlist := toList_plug_congr ctx
      (show (RbTree.join d c t x (RbTree.join d Color.red wn w wf)).toList =
        (RbTree.join d c t x (RbTree.join d Color.black wn w wf)).toList from
          toList_join d rfl (toList_join d rfl rfl))
    have hsibling : Balanced Color.red n (RbTree.join d Color.red wn w wf) :=
      balanced_join_red hwn hwf
    cases hfits with
    | red _ hrest =>
        refine Mended.up hsen hcursor hrest (Or.inr ⟨hcolor, ?_⟩) hweight hlist
        cases d with
        | left => exact Balanced.black ht hsibling
        | right => exact Balanced.black hsibling ht
    | black _ hrest =>
        exact Mended.up hsen hcursor hrest
          (Or.inl (balanced_join_black ht hsibling)) hweight hlist
  · obtain ⟨s', y, u, v, cu, heq, hsen, hfocus, hu, hv, hlist⟩ :=
      deleteBlack_done h hwn hwf hblack
    have hnear : Balanced Color.black (n + 1) (RbTree.join d Color.black t x u) :=
      balanced_join_black ht hu
    have hbalanced : exists m, Balanced Color.black m
        (plug ctx (RbTree.join d c (RbTree.join d Color.black t x u) y v)) := by
      cases hfits with
      | red _ hrest =>
          exact balanced_plug hrest (balanced_join_red hnear hv) (fun _ => rfl)
      | black _ hrest =>
          exact balanced_plug hrest (balanced_join_black hnear hv)
            (fun h => (by cases h))
    obtain ⟨m, hbalanced⟩ := hbalanced
    rw [heq]
    exact Mended.done (Nat.zero_lt_of_lt hk) hsen (focus_plug.mp hfocus) hbalanced
      (toList_plug_congr ctx hlist)

theorem Mended.congr {s s' : RbtreeT} {es : List Entry} {k : Nat}
    {p : RbtreeT × Nat} (hsen : s'.sentinel = s.sentinel)
    (h : Mended s' stale es k p) : Mended s stale es k p := by
  cases h with
  | up hsen' hcursor hfits ht hk hlist =>
      rw [hsen]
      exact Mended.up (hsen'.trans hsen) hcursor hfits ht hk hlist
  | done hk hsen' hfocus hbalanced hlist =>
      exact Mended.done hk (hsen'.trans hsen) hfocus hbalanced hlist

theorem deleteCase_black {n k : Nat} {b : Bool} {sibling : RbTree Entry}
    (h : Cursor s stale (⟨d, c, x, sibling⟩ :: ctx) t)
    (hfits : Fits b (n + 1) (⟨d, c, x, sibling⟩ :: ctx))
    (ht : Balanced Color.black n t)
    (hsibling : Balanced Color.black (n + 1) sibling)
    (hk : (ctx.length + if c = Color.red then 0 else 1) < k) :
    Mended s stale (plug (⟨d, c, x, sibling⟩ :: ctx) t).toList k
      (deleteBlack d s (ptr s.sentinel t)
        (s.child (s.parent (ptr s.sentinel t)) d.other)) := by
  obtain ⟨wn, w, wf, cn, cf, rfl, hwn, hwf⟩ := exists_join_of_black hsibling d
  rw [h.parent, up, RbtreeT.child, h.focus.above, nodeOf_child_other, ptr_join]
  exact deleteBlack_mended h hfits ht hwn hwf hk

theorem deleteCase_mended {n : Nat} {b : Bool} {sibling : RbTree Entry}
    (h : Cursor s stale (⟨d, c, x, sibling⟩ :: ctx) t)
    (hfits : Fits b (n + 1) (⟨d, c, x, sibling⟩ :: ctx))
    (ht : Balanced Color.black n t) :
    Mended s stale (plug (⟨d, c, x, sibling⟩ :: ctx) t).toList (ctx.length + 2)
      (deleteCase d s (ptr s.sentinel t)) := by
  have hk : (ctx.length + if c = Color.red then 0 else 1) < ctx.length + 2 := by
    split <;> omega
  have hw : s.child (s.parent (ptr s.sentinel t)) d.other =
      ptr s.sentinel sibling := by
    rw [h.parent, up, RbtreeT.child, h.focus.above, nodeOf_child_other]
  have hcolor := (focus_swing.mp h.focus).color
  have hcase : sibling.color = Color.black -> deleteCase d s (ptr s.sentinel t) =
      deleteBlack d s (ptr s.sentinel t)
        (s.child (s.parent (ptr s.sentinel t)) d.other) := by
    intro hblack
    simp only [deleteCase]
    rw [if_neg]
    rw [hw, RbtreeT.isRed, hcolor, hblack]
    simp
  cases hfits with
  | red hsibling hrest =>
      rw [hcase hsibling.color_eq]
      exact deleteCase_black h (Fits.red hsibling hrest) ht hsibling hk
  | @black _ cs _ _ _ b' _ hsibling hrest =>
      cases cs with
      | black =>
          rw [hcase hsibling.color_eq]
          exact deleteCase_black h (Fits.black hsibling hrest) ht hsibling hk
      | red =>
          -- After a rotation the sibling is black and the parent red.
          obtain ⟨sn, w, sf, rfl, hsn, hsf⟩ := exists_join_of_red hsibling d
          have hred : s.isRed (s.child (s.parent (ptr s.sentinel t)) d.other) := by
            rw [hw, RbtreeT.isRed, hcolor, hsibling.color_eq]
          rw [ptr_join] at hw
          obtain ⟨hcursor, hkept⟩ := deleteRed_cursor h rfl
          have hfits' : Fits false (n + 1)
              (⟨d, Color.red, x, sn⟩ :: ⟨d, Color.black, w, sf⟩ :: ctx) :=
            Fits.red hsn (Fits.black hsf hrest)
          have hmended := deleteCase_black hcursor hfits' ht hsn
            (show (⟨d, Color.black, w, sf⟩ :: ctx).length + 0 < ctx.length + 2 by
              simp)
          have hlist : (plug (⟨d, Color.red, x, sn⟩ :: ⟨d, Color.black, w, sf⟩ ::
              ctx) t).toList = (plug (⟨d, Color.black, x,
                RbTree.join d Color.red sn w sf⟩ :: ctx) t).toList :=
            toList_plug_congr ctx (toList_rotate d _ _ _ _ t sn sf x w).symm
          rw [hkept.sentinel, hlist] at hmended
          have heq : deleteCase d s (ptr s.sentinel t) =
              deleteBlack d (deleteRed d s (ptr s.sentinel t) w.addr)
                (ptr s.sentinel t)
                ((deleteRed d s (ptr s.sentinel t) w.addr).child
                  ((deleteRed d s (ptr s.sentinel t) w.addr).parent
                    (ptr s.sentinel t)) d.other) := by
            rw [hw] at hred
            simp only [deleteCase, hw, if_pos hred]
          rw [heq]
          exact hmended.congr hkept.sentinel

theorem deleteTurn_cases {n : Nat} {b : Bool} (h : Cursor s stale ctx t)
    (hfits : Fits b (n + 1) ctx) (ht : Deficient n t) :
    (deleteTurn (s, ptr s.sentinel t) = Turn.done (some (s, ptr s.sentinel t)) ∧
      (ctx = [] ∨ t.color = Color.red)) ∨
    exists p, deleteTurn (s, ptr s.sentinel t) = Turn.next p ∧
      Mended s stale (plug ctx t).toList (weight ctx t) p := by
  have hcolor := h.focus.color
  cases ctx with
  | nil =>
      have hroot : ptr s.sentinel t = s.root := h.focus.root.symm
      refine Or.inl ⟨?_, Or.inl rfl⟩
      simp only [deleteTurn]
      rw [if_neg (fun hand => hand.1 hroot)]
  | cons f ctx =>
      by_cases hred : t.color = Color.red
      · refine Or.inl ⟨?_, Or.inr hred⟩
        simp only [deleteTurn]
        rw [if_neg]
        rintro ⟨_, hblack⟩
        rw [RbtreeT.isBlack, hcolor, hred] at hblack
        cases hblack
      · have hbalanced : Balanced Color.black n t := by
          rcases ht with ht | ht
          · exact ht
          · exact absurd ht.1 hred
        have hblack : s.isBlack (ptr s.sentinel t) := by
          rw [RbtreeT.isBlack, hcolor, hbalanced.color_eq]
        have hsibling : f.sibling ≠ RbTree.leaf := by
          cases hfits with
          | red hsib _ =>
              rintro rfl
              cases hsib
          | black hsib _ =>
              rintro rfl
              cases hsib
        have hside := h.focus.side (Or.inr hsibling) Dir.left
        refine Or.inr ⟨deleteCase f.dir s (ptr s.sentinel t), ?_, ?_⟩
        · simp only [deleteTurn]
          rw [if_pos ⟨h.focus.ne_root, hblack⟩, h.parent, up]
          cases hdir : f.dir with
          | left => rw [if_pos (hside.mpr hdir)]
          | right => rw [if_neg (fun heq => by cases hdir.symm.trans (hside.mp heq))]
        · have hweight : weight (f :: ctx) t = ctx.length + 2 := by
            rw [weight, if_neg hred]
            simp
          rw [hweight]
          exact deleteCase_mended h hfits hbalanced

end Cases

/-- The tree once the place that the loop ended at is black. -/
def Repaired (s : RbtreeT) (stale : Nat) (es : List Entry)
    (r : Option (RbtreeT × Nat)) : Prop :=
  exists s' temp t m, r = some (s', temp) ∧ s'.sentinel = s.sentinel ∧
    Focus (s'.paint temp Color.black) stale [] t ∧ Balanced Color.black m t ∧
    t.toList = es

theorem repaired_root {es : List Entry} {m : Nat} {c : Color}
    (h : Focus s' stale [] t) (hsen : s'.sentinel = s.sentinel)
    (hbalanced : Balanced c m t.blacken) (hlist : t.toList = es) :
    Repaired s stale es (some (s', s'.root)) := by
  have hcolor : c = Color.black := by
    rw [← hbalanced.color_eq]
    cases t <;> rfl
  subst hcolor
  exact ⟨s', s'.root, t.blacken, m, rfl, hsen, h.paintRoot, hbalanced,
    (RbTree.toList_blacken t).trans hlist⟩

theorem repaired_red {n : Nat} {b : Bool} (h : Focus s stale ctx t)
    (hfits : Fits b (n + 1) ctx) (ht : Deficient n t)
    (hred : t.color = Color.red) :
    Repaired s stale (plug ctx t).toList (some (s, ptr s.sentinel t)) := by
  cases t with
  | leaf => cases hred
  | node c l x r =>
      have hblackened : Balanced Color.black (n + 1)
          (RbTree.node Color.black l x r) := by
        rcases ht with ht | ht
        · rw [ht.color_eq] at hred
          cases hred
        · exact ht.2
      have hpaint : Focus (s.paint x.addr Color.black) stale ctx
          (RbTree.join Dir.left Color.black l x r) :=
        (show Focus s stale ctx (RbTree.join Dir.left c l x r) from h).paint
          Color.black
      obtain ⟨m, hbalanced⟩ := balanced_plug hfits hblackened (fun h => (by cases h))
      exact ⟨s, x.addr, _, m, rfl, rfl, focus_plug.mp hpaint, hbalanced,
        toList_plug_congr ctx rfl⟩

theorem deleteLoop {n fuel : Nat} {b : Bool} (h : Cursor s stale ctx t)
    (hfits : Fits b (n + 1) ctx) (ht : Deficient n t)
    (hfuel : weight ctx t < fuel) :
    Repaired s stale (plug ctx t).toList
      (iterate deleteTurn (fun _ => none) fuel (s, ptr s.sentinel t)) := by
  induction fuel generalizing s ctx t n b with
  | zero => omega
  | succ fuel ih =>
      rcases deleteTurn_cases h hfits ht with ⟨hturn, hend⟩ | ⟨p, hturn, hmended⟩
      · simp only [iterate, hturn]
        rcases hend with rfl | hred
        · rw [show ptr s.sentinel t = s.root from h.focus.root.symm]
          rcases ht with ht | ht
          · obtain ⟨m, hbalanced⟩ := ht.blacken
            exact repaired_root h.focus rfl hbalanced rfl
          · exact repaired_root h.focus rfl ht.2 rfl
        · exact repaired_red h.focus hfits ht hred
      · simp only [iterate, hturn]
        cases hmended with
        | up hsen hcursor hfits' ht' hk hlist =>
            obtain ⟨s', temp, t', m, hrun, hsen', hfocus, hbalanced, hlist'⟩ :=
              ih hcursor hfits' ht' (by omega)
            rw [hsen] at hrun
            exact ⟨s', temp, t', m, hrun, hsen'.trans hsen, hfocus, hbalanced,
              hlist'.trans hlist⟩
        | @done s' t' m hk hsen hfocus hbalanced hlist =>
            obtain ⟨fuel, rfl⟩ : exists j, fuel = j + 1 := ⟨fuel - 1, by omega⟩
            have hstop : deleteTurn (s', s'.root) =
                Turn.done (some (s', s'.root)) := by
              simp only [deleteTurn]
              rw [if_neg (fun hand => hand.1 rfl)]
            simp only [iterate, hstop]
            obtain ⟨m', hblack⟩ := hbalanced.blacken
            exact repaired_root hfocus hsen hblack hlist

/-!
## The deletion of a node
-/

section Deletion

variable {d : Dir} {c : Color} {l r u : RbTree Entry} {x y : Entry} {fuel : Nat}

theorem chooseSubst_cases (h : Focus s stale ctx (RbTree.node c l x r))
    (hfuel : (RbTree.node c l x r).toList.length ≤ fuel) :
    (exists d u, RbTree.node c l x r = RbTree.join d c u x RbTree.leaf ∧
      chooseSubst fuel s x.addr = some (x.addr, ptr s.sentinel u)) ∨
    exists down c' y u, r = plug down (RbTree.join Dir.right c' u y RbTree.leaf) ∧
      leftOf down = [] ∧
      chooseSubst fuel s x.addr = some (y.addr, ptr s.sentinel u) := by
  have hl : Focus s stale (⟨Dir.left, c, x, r⟩ :: ctx) l := focus_join.mp h
  have hr : Focus s stale (⟨Dir.right, c, x, l⟩ :: ctx) r := focus_join.mp h
  have hleft : s.child x.addr Dir.left = ptr s.sentinel l := by
    rw [RbtreeT.child, h.tree.1]
    rfl
  have hright : s.child x.addr Dir.right = ptr s.sentinel r := by
    rw [RbtreeT.child, h.tree.1]
    rfl
  by_cases hlleaf : l = RbTree.leaf
  · refine Or.inl ⟨Dir.right, r, ?_, ?_⟩
    · rw [hlleaf]
      rfl
    · rw [chooseSubst, hleft, if_pos (hl.ptr_eq_sentinel.mpr hlleaf), hright]
  · have hlne : ptr s.sentinel l ≠ s.sentinel :=
      fun heq => hlleaf (hl.ptr_eq_sentinel.mp heq)
    by_cases hrleaf : r = RbTree.leaf
    · refine Or.inl ⟨Dir.left, l, ?_, ?_⟩
      · rw [hrleaf]
        rfl
      · rw [chooseSubst, hleft, if_neg hlne, hright,
          if_pos (hr.ptr_eq_sentinel.mpr hrleaf)]
    · have hrne : ptr s.sentinel r ≠ s.sentinel :=
        fun heq => hrleaf (hr.ptr_eq_sentinel.mp heq)
      simp only [RbTree.toList, List.length_append, List.length_cons] at hfuel
      have hlen : r.toList.length ≤ fuel := by omega
      obtain ⟨down, c', y, u, rfl, hdown, hmin⟩ :=
        rbtreeMin_leftmost hrleaf hr hlen
      have hy : Focus s stale (down ++ ⟨Dir.right, c, x, l⟩ :: ctx)
          (RbTree.node c' RbTree.leaf y u) := focus_append.mpr hr
      refine Or.inr ⟨down, c', y, u, rfl, hdown, ?_⟩
      have hyleft : s.child y.addr Dir.left = s.sentinel := by
        rw [RbtreeT.child, hy.tree.1]
        rfl
      have hyright : s.child y.addr Dir.right = ptr s.sentinel u := by
        rw [RbtreeT.child, hy.tree.1]
        rfl
      simp only [chooseSubst, hleft, if_neg hlne, hright, if_neg hrne, hmin,
        hyleft, ne_eq, not_true_eq_false, if_false, hyright]

theorem deleteRoot_focus (h : Focus s stale [] (RbTree.join d c u x RbTree.leaf)) :
    Focus (clear (RbtreeT.paint { s with root := ptr s.sentinel u }
      (ptr s.sentinel u) Color.black) x.addr) x.addr [] u.blacken := by
  obtain ⟨-, hu, -⟩ := (linked_join _ _ _ _ _ _ _ _).mp h.tree
  have hsplit := h.split
  have hsub : forall a, a ∈ addrs u -> a ∈ addrs (RbTree.join d c u x RbTree.leaf) ++
      ctxAddrs [] := by
    intro a ha
    exact List.mem_append_left _ ((addrs_join d c u RbTree.leaf x).mem_iff.mpr
      (List.mem_cons_of_mem _ (List.mem_append_left _ ha)))
  have h1 : Focus { s with root := ptr s.sentinel u } x.addr [] u := by
    refine ⟨hu, trivial, rfl, ?_, ?_, h.black⟩
    · rw [ctxAddrs, List.append_nil]
      exact hsplit.nodup
    · intro a ha
      rw [ctxAddrs, List.append_nil] at ha
      exact h.fresh a (hsub a ha)
  refine h1.paintRoot.clear ?_ h.addr.1
  rw [ctxAddrs, List.append_nil, addrs, RbTree.toList_blacken]
  exact hsplit.near

theorem Cursor.clear {node : Nat} (h : Cursor s stale ctx t)
    (hnode : node ∉ addrs t ++ ctxAddrs ctx) (hsentinel : node ≠ s.sentinel) :
    Cursor (clear s node) stale ctx t := by
  refine ⟨h.focus.clear hnode hsentinel, ?_⟩
  have hne : ptr s.sentinel t ≠ node := by
    cases t with
    | leaf => exact Ne.symm hsentinel
    | node c l x r =>
        rintro rfl
        exact hnode (by simp [addrs, RbTree.toList, ptr])
  refine Eq.trans ?_ h.parent
  exact congrArg RbNode.parent (mem_clear_ne hne)

def rebalance (fuel : Nat) (s : RbtreeT) (c : Color) (temp : Nat) :
    Option RbtreeT :=
  if c = Color.red then some s
  else
    match iterate deleteTurn (fun _ => none) fuel (s, temp) with
    | none => none
    | some (s, temp) => some (s.paint temp Color.black)

theorem rebalance_balanced {n : Nat} {b : Bool} (h : Cursor s stale ctx u)
    (hfits : Fits b n ctx) (hsubst : Balanced c n (RbTree.join d c u y RbTree.leaf))
    (hfuel : ctx.length + 1 < fuel) :
    exists s' t' m, rebalance fuel s c (ptr s.sentinel u) = some s' ∧
      s'.sentinel = s.sentinel ∧ Focus s' stale [] t' ∧
      Balanced Color.black m t' ∧ t'.toList = (plug ctx u).toList := by
  cases c with
  | red =>
      have hu : Balanced Color.black n u := by
        cases d <;> cases hsubst <;> assumption
      obtain ⟨m, hbalanced⟩ := balanced_plug hfits hu (fun h => (by cases h))
      exact ⟨s, _, m, rfl, rfl, focus_plug.mp h.focus, hbalanced, rfl⟩
  | black =>
      obtain ⟨k, cu, rfl, hu⟩ : exists k cu, n = k + 1 ∧ Balanced cu k u := by
        cases d <;> cases hsubst <;> exact ⟨_, _, rfl, by assumption⟩
      have hweight : weight ctx u < fuel := by
        rw [weight]
        split <;> omega
      obtain ⟨s', temp, t', m, hrun, hsen, hfocus, hbalanced, hlist⟩ :=
        deleteLoop h hfits (deficient_of_balanced hu) hweight
      refine ⟨s'.paint temp Color.black, t', m, ?_, hsen, hfocus, hbalanced, hlist⟩
      rw [rebalance, if_neg (by simp), hrun]

theorem rbtreeDelete_rest {node subst temp : Nat}
    (hchoose : chooseSubst fuel s node = some (subst, temp))
    (hroot : subst ≠ s.root) (hcolor : (s.mem subst).color = c) :
    rbtreeDelete fuel s node =
      rebalance fuel (clear (splice s node subst temp) node) c temp := by
  have hred : s.isRed subst ↔ c = Color.red := by
    rw [RbtreeT.isRed, hcolor]
  by_cases hc : c = Color.red
  · simp only [rbtreeDelete, hchoose, if_neg hroot, if_pos (hred.mpr hc),
      rebalance, if_pos hc]
  · cases hloop : iterate deleteTurn (fun _ => none) fuel
        (clear (splice s node subst temp) node, temp) with
    | none =>
        simp only [rbtreeDelete, hchoose, if_neg hroot, if_neg (mt hred.mp hc),
          rebalance, if_neg hc, hloop]
    | some p =>
        simp only [rbtreeDelete, hchoose, if_neg hroot, if_neg (mt hred.mp hc),
          rebalance, if_neg hc, hloop]

theorem rbtreeDelete_self {n : Nat}
    (h : Focus s stale ctx (RbTree.join d c u x RbTree.leaf))
    (hbalanced : Balanced Color.black n
      (plug ctx (RbTree.join d c u x RbTree.leaf)))
    (hchoose : chooseSubst fuel s x.addr = some (x.addr, ptr s.sentinel u))
    (hfuel : ctx.length + 1 < fuel) :
    exists s' t' stale' m, rbtreeDelete fuel s x.addr = some s' ∧
      s'.sentinel = s.sentinel ∧ Focus s' stale' [] t' ∧
      Balanced Color.black m t' ∧ t'.toList = (plug ctx u).toList := by
  cases ctx with
  | nil =>
      have hroot : x.addr = s.root := by
        rw [h.root, rootPtr, ptr_join]
      obtain ⟨-, cu, k, -, hu, -⟩ := fits_of_balanced
        (show Balanced Color.black n (plug [⟨d, c, x, RbTree.leaf⟩] u) from hbalanced)
      obtain ⟨m, hblack⟩ := hu.blacken
      refine ⟨clear (RbtreeT.paint { s with root := ptr s.sentinel u }
        (ptr s.sentinel u) Color.black) x.addr, u.blacken, x.addr, m, ?_, rfl,
        deleteRoot_focus h, hblack, RbTree.toList_blacken u⟩
      simp only [rbtreeDelete, hchoose, if_pos hroot]
  | cons f ctx =>
      have hroot := h.ne_root
      have hcolor : (s.mem x.addr).color = c := by
        rw [h.node, nodeOf_color]
      rw [ptr_join] at hroot
      rw [rbtreeDelete_rest hchoose hroot hcolor]
      obtain ⟨h1, hsen1, hparent⟩ := splice_self h rfl
      have hcursor : Cursor (splice s x.addr x.addr (ptr s.sentinel u)) stale
          (f :: ctx) u := ⟨h1, by rw [hsen1]; exact hparent⟩
      have hsplit := h.split
      have hcleared := hcursor.clear
        (fun hin => (List.mem_append.mp hin).elim hsplit.near hsplit.ctx)
        (by rw [hsen1]; exact h.addr.1)
      obtain ⟨b, cu, m, hfits, hsubst, -⟩ := fits_of_balanced hbalanced
      obtain rfl : cu = c := by
        rw [← hsubst.color_eq]
        cases d <;> rfl
      obtain ⟨s', t', m', hrun, hsen', hfocus, hbalanced', hlist⟩ :=
        rebalance_balanced hcleared hfits hsubst hfuel
      have hsen2 : (clear (splice s x.addr x.addr (ptr s.sentinel u))
          x.addr).sentinel = s.sentinel := hsen1
      rw [hsen2] at hrun hsen'
      exact ⟨s', t', stale, m', hrun, hsen', hfocus, hbalanced', hlist⟩

theorem rbtreeDelete_subst {n : Nat} {down : List (Frame Entry)} {c' : Color}
    (h : Focus s stale ctx (RbTree.node c l x
      (plug down (RbTree.join Dir.right c' u y RbTree.leaf))))
    (hbalanced : Balanced Color.black n (plug ctx (RbTree.node c l x
      (plug down (RbTree.join Dir.right c' u y RbTree.leaf)))))
    (hchoose : chooseSubst fuel s x.addr = some (y.addr, ptr s.sentinel u))
    (hfuel : (down ++ ⟨Dir.right, c, y, l⟩ :: ctx).length + 1 < fuel) :
    exists s' t' m, rbtreeDelete fuel s x.addr = some s' ∧
      s'.sentinel = s.sentinel ∧ Focus s' stale [] t' ∧
      Balanced Color.black m t' ∧
      t'.toList = (plug ctx (RbTree.node c l y (plug down u))).toList := by
  have hbelow : Focus s stale (⟨Dir.right, c, x, l⟩ :: ctx)
      (plug down (RbTree.join Dir.right c' u y RbTree.leaf)) := focus_join.mp h
  have hy : Focus s stale (down ++ ⟨Dir.right, c, x, l⟩ :: ctx)
      (RbTree.join Dir.right c' u y RbTree.leaf) := focus_append.mpr hbelow
  have hcolor : (s.mem y.addr).color = c' := by
    rw [hy.node, nodeOf_color]
  have hroot : y.addr ≠ s.root := by
    rw [← ptr_join s.sentinel Dir.right c' u RbTree.leaf y]
    cases down with
    | nil => exact hy.ne_root
    | cons g down => exact hy.ne_root
  rw [rbtreeDelete_rest hchoose hroot hcolor]
  obtain ⟨h1, hsen1, hparent⟩ := splice_subst h rfl
  have hcursor : Cursor (splice s x.addr y.addr (ptr s.sentinel u)) stale
      (down ++ ⟨Dir.right, c, y, l⟩ :: ctx) u :=
    ⟨focus_append.mpr (focus_join.mp h1), by rw [hsen1]; exact hparent⟩
  have hgone : x.addr ∉ addrs u ++
      ctxAddrs (down ++ ⟨Dir.right, c, y, l⟩ :: ctx) := by
    intro hin
    have hplug := (addrs_plug _ u).mem_iff.mpr hin
    rw [plug_append] at hplug
    have hnode := (addrs_plug ctx (RbTree.join Dir.left c l y (plug down u))).mem_iff.mp
      hplug
    have hparts := ((addrs_join Dir.left c l (plug down u) y).append_right
      (ctxAddrs ctx)).mem_iff.mp hnode
    have hnodup := (addrs_subst down Dir.right c' u).nodup_iff.mp h.nodup
    simp only [List.nodup_cons, List.mem_cons, List.mem_append, not_or] at hnodup
    simp only [List.cons_append, List.mem_cons, List.mem_append] at hparts
    obtain ⟨⟨hyx, -⟩, ⟨hxl, hxr, hxc⟩, -⟩ := hnodup
    rcases hparts with hxy | (hin | hin) | hin
    · exact hyx hxy.symm
    · exact hxl hin
    · exact hxr hin
    · exact hxc hin
  have hcleared := hcursor.clear hgone (by
    rw [hsen1]
    exact (show Focus s stale ctx (RbTree.join Dir.left c l x _) from h).addr.1)
  obtain ⟨b, cu, m, hfits, hsubst, -⟩ := fits_of_balanced
    (show Balanced Color.black n (plug (down ++ ⟨Dir.right, c, x, l⟩ :: ctx)
      (RbTree.join Dir.right c' u y RbTree.leaf)) by
        rw [plug_append]
        exact hbalanced)
  obtain rfl : cu = c' := hsubst.color_eq.symm
  obtain ⟨s', t', m', hrun, hsen', hfocus, hbalanced', hlist⟩ :=
    rebalance_balanced hcleared (fits_elem hfits) hsubst hfuel
  have hsen2 : (clear (splice s x.addr y.addr (ptr s.sentinel u))
      x.addr).sentinel = s.sentinel := hsen1
  rw [hsen2] at hrun hsen'
  rw [plug_append] at hlist
  exact ⟨s', t', m', hrun, hsen', hfocus, hbalanced', hlist⟩

theorem Drops.sorted {t' : RbTree Entry} (h : Drops x t t')
    (hsorted : Sorted t.toList) : Sorted t'.toList := by
  obtain ⟨es, fs, ht, ht'⟩ := h
  rw [ht] at hsorted
  rw [ht']
  exact hsorted.sublist ((List.sublist_cons_self x fs).append_left es)

theorem rbtreeDelete_sound (h : Sound s t) (hx : x ∈ t.toList)
    (hfuel : t.toList.length < fuel) :
    exists s' t', rbtreeDelete fuel s x.addr = some s' ∧ Sound s' t' ∧
      s'.sentinel = s.sentinel ∧ Drops x t t' := by
  obtain ⟨⟨stale, hfocus⟩, ⟨n, hbalanced⟩, hsorted⟩ := h
  obtain ⟨ctx, c, l, r, rfl⟩ := exists_focus hx
  have hnode := focus_plug.mpr hfocus
  have hlen : (RbTree.node c l x r).toList.length ≤ fuel := by
    rw [toList_plug, List.length_append, List.length_append] at hfuel
    omega
  rcases chooseSubst_cases hnode hlen with
    ⟨d, u, heq, hchoose⟩ | ⟨down, c', y, u, rfl, hdown, hchoose⟩
  · rw [heq] at hnode hbalanced hfuel hsorted ⊢
    have hdrops := (drops_join d c u x).plug ctx
    have hctx := length_le_toList_plug ctx u
    have hless := hdrops.length
    obtain ⟨s', t', stale', m, hrun, hsen, hfocus', hbalanced', hlist⟩ :=
      rbtreeDelete_self hnode hbalanced hchoose (by omega)
    have hdrops' := hdrops.congr hlist
    exact ⟨s', t', hrun, ⟨⟨stale', hfocus'⟩, ⟨m, hbalanced'⟩,
      Drops.sorted hdrops' hsorted⟩, hsen, hdrops'⟩
  · have hdrops := (drops_subst hdown c c' l u x y).plug ctx
    have hctx := length_le_toList_plug (down ++ ⟨Dir.right, c, y, l⟩ :: ctx) u
    rw [plug_append, show plug (⟨Dir.right, c, y, l⟩ :: ctx) (plug down u) =
      plug ctx (RbTree.node c l y (plug down u)) from rfl] at hctx
    have hless := hdrops.length
    obtain ⟨s', t', m, hrun, hsen, hfocus', hbalanced', hlist⟩ :=
      rbtreeDelete_subst hnode hbalanced hchoose (by omega)
    have hdrops' := hdrops.congr hlist
    exact ⟨s', t', hrun, ⟨⟨stale, hfocus'⟩, ⟨m, hbalanced'⟩,
      Drops.sorted hdrops' hsorted⟩, hsen, hdrops'⟩

end Deletion

end Rbtree
end NgxEpoll
