import NgxEpoll.Rbtree.Delete

/-!
# Paths in memory

The red-black properties in terms of the links alone: from the root one goes
down to the sentinel, one child after the other.  A sound tree has them all.
-/

namespace NgxEpoll
namespace Rbtree

open Foundation

/-- The way from the pointer `a` down to the pointer `b`: the nodes that are
left, each with the side. -/
inductive Path (s : RbtreeT) : Nat -> List (Nat × Dir) -> Nat -> Prop where
  | here (a : Nat) : Path s a [] a
  | down {a b : Nat} {d : Dir} {as : List (Nat × Dir)} : a ≠ s.sentinel ->
      Path s (s.child a d) as b -> Path s a ((a, d) :: as) b

def blackNodes (s : RbtreeT) (as : List (Nat × Dir)) : Nat :=
  as.countP fun p => decide (s.isBlack p.1)

/-- The node `a` is in the subtree at the pointer `p`. -/
def Below (s : RbtreeT) (p a : Nat) : Prop :=
  a ≠ s.sentinel ∧ exists as, Path s p as a

structure RedBlack (s : RbtreeT) (nodes : List Nat) : Prop where
  left : forall a b, Below s s.root a -> Below s (s.child a Dir.left) b ->
    (s.mem b).key ≤ (s.mem a).key
  right : forall a b, Below s s.root a -> Below s (s.child a Dir.right) b ->
    (s.mem a).key ≤ (s.mem b).key
  root : s.isBlack s.root
  sentinel : s.isBlack s.sentinel
  red : forall a d, Below s s.root a -> s.isRed a -> s.isBlack (s.child a d)
  height : exists n, forall as, Path s s.root as s.sentinel ->
    blackNodes s as = n
  parent : forall a d, Below s s.root a -> s.child a d ≠ s.sentinel ->
    s.parent (s.child a d) = a
  nodes : forall a, Below s s.root a ↔ a ∈ nodes
  once : forall a as bs, a ≠ s.sentinel -> Path s s.root as a ->
    Path s s.root bs a -> as = bs

def Least (s : RbtreeT) (nodes : List Nat) (a : Nat) : Prop :=
  a ∈ nodes ∧ forall b, b ∈ nodes -> (s.mem a).key ≤ (s.mem b).key

variable {s : RbtreeT} {stale : Nat} {ctx : List (Frame Entry)} {t : RbTree Entry}
  {as bs : List (Nat × Dir)} {a b c : Nat}

theorem Path.trans (h : Path s a as b) (h' : Path s b bs c) :
    Path s a (as ++ bs) c := by
  induction h with
  | here => exact h'
  | down hne _ ih => exact Path.down hne (ih h')

/-!
## Paths of a tree
-/

section Trees

variable {x : Entry} {d : Dir} {color : Color} {near far : RbTree Entry}

theorem Focus.child_eq (h : Focus s stale ctx (RbTree.join d color near x far)) :
    s.child x.addr d = ptr s.sentinel near := by
  rw [RbtreeT.child, h.node, nodeOf_child]

theorem path_cases (h : Focus s stale ctx t)
    (hpath : Path s (ptr s.sentinel t) as b) :
    (as = [] ∧ b = ptr s.sentinel t) ∨
    exists d color near x far as', t = RbTree.join d color near x far ∧
      as = (x.addr, d) :: as' ∧ Path s (ptr s.sentinel near) as' b := by
  generalize ha : ptr s.sentinel t = a at hpath
  cases hpath with
  | here => exact Or.inl ⟨rfl, rfl⟩
  | @down _ _ d as' hne hrest =>
      cases t with
      | leaf => exact absurd ha.symm hne
      | node color l x r =>
          obtain ⟨near, far, heq⟩ := RbTree.exists_join d color l x r
          rw [heq] at h ha ⊢
          rw [ptr_join] at ha
          subst ha
          rw [h.child_eq] at hrest
          exact Or.inr ⟨d, color, near, x, far, as', rfl, rfl, hrest⟩

theorem exists_plug_of_path (h : Focus s stale ctx t)
    (hpath : Path s (ptr s.sentinel t) as b) :
    exists down u, t = plug down u ∧ b = ptr s.sentinel u := by
  induction as generalizing ctx t with
  | nil =>
      rcases path_cases h hpath with ⟨-, hb⟩ | ⟨_, _, _, _, _, _, -, has, -⟩
      · exact ⟨[], t, rfl, hb⟩
      · cases has
  | cons p as ih =>
      rcases path_cases h hpath with
        ⟨has, -⟩ | ⟨d, color, near, x, far, as', rfl, has, hrest⟩
      · cases has
      · cases has
        obtain ⟨down, u, rfl, hb⟩ := ih (focus_join.mp h) hrest
        refine ⟨down ++ [⟨d, color, x, far⟩], u, ?_, hb⟩
        rw [plug_append]
        rfl

theorem exists_path_of_plug {down : List (Frame Entry)}
    (h : Focus s stale ctx (plug down t)) :
    exists as, Path s (ptr s.sentinel (plug down t)) as (ptr s.sentinel t) := by
  induction down generalizing t with
  | nil => exact ⟨[], Path.here _⟩
  | cons f down ih =>
      obtain ⟨as, has⟩ := ih h
      have hjoin : Focus s stale (down ++ ctx)
          (RbTree.join f.dir f.color t f.elem f.sibling) := focus_append.mpr h
      have hstep : Path s f.elem.addr [(f.elem.addr, f.dir)] (ptr s.sentinel t) := by
        refine Path.down hjoin.addr.1 ?_
        rw [hjoin.child_eq]
        exact Path.here _
      rw [Frame.plug, ptr_join] at has
      exact ⟨_, has.trans hstep⟩

theorem mem_addrs_ptr {u : RbTree Entry} (hu : ptr s.sentinel u ≠ s.sentinel) :
    ptr s.sentinel u ∈ addrs u := by
  cases u with
  | leaf => exact absurd rfl hu
  | node color l x r => simp [ptr, addrs, RbTree.toList]

theorem below_iff (h : Focus s stale ctx t) :
    Below s (ptr s.sentinel t) a ↔ a ∈ addrs t := by
  constructor
  · rintro ⟨hne, as, hpath⟩
    obtain ⟨down, u, rfl, rfl⟩ := exists_plug_of_path h hpath
    exact (addrs_plug down u).mem_iff.mpr
      (List.mem_append_left _ (mem_addrs_ptr hne))
  · intro ha
    obtain ⟨x, hx, rfl⟩ := List.mem_map.mp ha
    obtain ⟨down, color, l, r, rfl⟩ := exists_focus hx
    exact ⟨(h.fresh _ (List.mem_append_left _ ha)).1, exists_path_of_plug h⟩

theorem exists_subtree (h : Focus s stale [] t) (ha : Below s s.root a) (d : Dir) :
    exists x ctx color near far, a = x.addr ∧
      t = plug ctx (RbTree.join d color near x far) ∧
      Focus s stale ctx (RbTree.join d color near x far) := by
  rw [show s.root = ptr s.sentinel t from h.root, below_iff h] at ha
  obtain ⟨x, hx, rfl⟩ := List.mem_map.mp ha
  obtain ⟨ctx, color, l, r, rfl⟩ := exists_focus hx
  obtain ⟨near, far, heq⟩ := RbTree.exists_join d color l x r
  rw [heq] at h ⊢
  exact ⟨x, ctx, color, near, far, rfl, rfl, focus_plug.mpr h⟩

theorem Focus.key_eq (h : Focus s stale ctx t) (hx : x ∈ t.toList) :
    (s.mem x.addr).key = x.key := by
  obtain ⟨down, color, l, r, rfl⟩ := exists_focus hx
  exact congrArg RbNode.key (focus_append.mpr h).tree.1

theorem Focus.ptr_eq_sentinel_iff (h : Focus s stale ctx t) :
    ptr s.sentinel t = s.sentinel ↔ t = RbTree.leaf := by
  cases ctx with
  | nil =>
      rw [← h.root_eq_sentinel, h.root]
      rfl
  | cons f ctx => exact h.ptr_eq_sentinel

theorem blackNodes_path {n : Nat} (h : Focus s stale ctx t)
    (hbalanced : Balanced color n t)
    (hpath : Path s (ptr s.sentinel t) as s.sentinel) : blackNodes s as = n := by
  induction as generalizing ctx t color n with
  | nil =>
      rcases path_cases h hpath with ⟨-, hb⟩ | ⟨_, _, _, _, _, _, -, has, -⟩
      · obtain rfl := h.ptr_eq_sentinel_iff.mp hb.symm
        cases hbalanced
        rfl
      · cases has
  | cons p as ih =>
      rcases path_cases h hpath with
        ⟨has, -⟩ | ⟨d, color', near, x, far, as', rfl, has, hrest⟩
      · cases has
      · cases has
        obtain rfl : color' = color := by
          rw [← hbalanced.color_eq]
          cases d <;> rfl
        obtain ⟨m, cn, hnear, -, rfl⟩ := balanced_near hbalanced
        have hcolor : s.isBlack x.addr ↔ color' = Color.black := by
          rw [RbtreeT.isBlack, h.node, nodeOf_color]
        have hrest' : blackNodes s as = m := ih (focus_join.mp h) hnear hrest
        rw [blackNodes] at hrest' ⊢
        rw [List.countP_cons, hrest']
        cases color' with
        | red => simp [hcolor]
        | black => simp [hcolor]

theorem path_unique (h : Focus s stale ctx t) (ha : a ≠ s.sentinel)
    (has : Path s (ptr s.sentinel t) as a) (hbs : Path s (ptr s.sentinel t) bs a) :
    as = bs := by
  induction as generalizing ctx t bs with
  | nil =>
      rcases path_cases h has with ⟨-, rfl⟩ | ⟨_, _, _, _, _, _, -, heq, -⟩
      · rcases path_cases h hbs with
          ⟨rfl, -⟩ | ⟨d, color, near, x, far, bs', rfl, -, hrest⟩
        · rfl
        · have hin := (below_iff (focus_join.mp h)).mp ⟨ha, bs', hrest⟩
          rw [ptr_join] at hin
          exact absurd hin h.split.near
      · cases heq
  | cons p as ih =>
      rcases path_cases h has with
        ⟨heq, -⟩ | ⟨d, color, near, x, far, as', rfl, heq, hrest⟩
      · cases heq
      · cases heq
        have hin := (below_iff (focus_join.mp h)).mp ⟨ha, as, hrest⟩
        rcases path_cases h hbs with
          ⟨rfl, rfl⟩ | ⟨d', color', near', y, far', bs', heq, rfl, hrest'⟩
        · rw [ptr_join] at hin
          exact absurd hin h.split.near
        · have hin' : a ∈ addrs near' := by
            rw [heq] at h
            exact (below_iff (focus_join.mp h)).mp ⟨ha, bs', hrest'⟩
          by_cases hd : d' = d
          · subst hd
            obtain ⟨rfl, rfl, rfl⟩ : near = near' ∧ x = y ∧ far = far' := by
              cases d' <;> cases heq <;> exact ⟨rfl, rfl, rfl⟩
            rw [ih (focus_join.mp h) hrest hrest']
          · obtain rfl := Dir.eq_other_of_ne hd
            obtain rfl : far = near' := by
              cases d <;> cases heq <;> rfl
            exact absurd hin' (h.split.nearFar a hin)

end Trees

/-!
## Sound trees
-/

section Soundness

variable {nodes : List Nat}

def OnSide (d : Dir) (key center : Int) : Prop :=
  match d with
  | Dir.left => key ≤ center
  | Dir.right => center ≤ key

theorem sorted_join {d : Dir} {color : Color} {near far : RbTree Entry} {x y : Entry}
    (h : Sorted (plug ctx (RbTree.join d color near x far)).toList)
    (hy : y ∈ near.toList) : OnSide d y.key x.key := by
  rw [Sorted, toList_plug, List.pairwise_append, List.pairwise_append] at h
  obtain ⟨-, ⟨hjoin, -⟩, -⟩ := h
  cases d with
  | left =>
      rw [RbTree.join, RbTree.toList, List.pairwise_append] at hjoin
      exact hjoin.2.2 y hy x List.mem_cons_self
  | right =>
      rw [RbTree.join, RbTree.toList, List.pairwise_append, List.pairwise_cons] at hjoin
      exact hjoin.2.1.1 y hy

theorem Sound.side (h : Sound s t) (d : Dir) (ha : Below s s.root a)
    (hb : Below s (s.child a d) b) : OnSide d (s.mem b).key (s.mem a).key := by
  obtain ⟨stale, hfocus⟩ := h.focus
  obtain ⟨x, ctx, color, near, far, rfl, rfl, hx⟩ := exists_subtree hfocus ha d
  have hnear := focus_join.mp hx
  rw [hx.child_eq, below_iff hnear] at hb
  obtain ⟨y, hy, rfl⟩ := List.mem_map.mp hb
  have hkeys := sorted_join h.sorted hy
  rw [hnear.key_eq hy, hx.node, nodeOf_key]
  exact hkeys

theorem Sound.redBlack (h : Sound s t) (hnodes : (addrs t).Perm nodes) :
    RedBlack s nodes := by
  obtain ⟨stale, hfocus⟩ := h.focus
  obtain ⟨n, hbalanced⟩ := h.balanced
  have hroot : s.root = ptr s.sentinel t := hfocus.root
  refine ⟨?_, ?_, ?_, hfocus.black, ?_, ⟨n, ?_⟩, ?_, ?_, ?_⟩
  · exact fun a b ha hb => h.side Dir.left ha hb
  · exact fun a b ha hb => h.side Dir.right ha hb
  · rw [RbtreeT.isBlack, hroot, hfocus.color, hbalanced.color_eq]
  · intro a d ha hred
    obtain ⟨x, ctx, color, near, far, rfl, rfl, hx⟩ := exists_subtree hfocus ha d
    rw [RbtreeT.isRed, hx.node, nodeOf_color] at hred
    obtain ⟨_, c, m, _, hjoin, _⟩ := fits_of_balanced hbalanced
    obtain rfl : c = color := by
      rw [← hjoin.color_eq]
      cases d <;> rfl
    obtain ⟨_, cn, hnear, hcn, _⟩ := balanced_near hjoin
    rw [RbtreeT.isBlack, hx.child_eq, (focus_join.mp hx).color, hnear.color_eq,
      hcn hred]
  · intro as hpath
    rw [hroot] at hpath
    exact blackNodes_path hfocus hbalanced hpath
  · intro a d ha hchild
    obtain ⟨x, ctx, color, near, far, rfl, rfl, hx⟩ := exists_subtree hfocus ha d
    have hnear := focus_join.mp hx
    rw [hx.child_eq] at hchild ⊢
    exact hnear.parent fun heq => hchild (hnear.ptr_eq_sentinel.mpr heq)
  · intro a
    rw [hroot, below_iff hfocus]
    exact hnodes.mem_iff
  · intro a as bs ha has hbs
    rw [hroot] at has hbs
    exact path_unique hfocus ha has hbs

theorem Sound.least {fuel : Nat} (h : Sound s t) (ht : t ≠ RbTree.leaf)
    (hfuel : t.toList.length ≤ fuel) :
    exists x, x ∈ t.toList ∧ rbtreeMin fuel s s.root = some x.addr ∧
      (s.mem x.addr).key = x.key ∧ forall y, y ∈ t.toList -> x.key ≤ y.key := by
  obtain ⟨stale, hfocus⟩ := h.focus
  obtain ⟨down, c, x, r, rfl, hdown, hmin⟩ := rbtreeMin_leftmost ht hfocus hfuel
  rw [← show s.root = ptr s.sentinel _ from hfocus.root] at hmin
  have hlist : (plug down (RbTree.node c RbTree.leaf x r)).toList =
      x :: (r.toList ++ rightOf down) := by
    rw [toList_plug, hdown]
    rfl
  have hx : x ∈ (plug down (RbTree.node c RbTree.leaf x r)).toList := by
    rw [hlist]
    exact List.mem_cons_self
  refine ⟨x, hx, hmin, hfocus.key_eq hx, ?_⟩
  intro y hy
  have hsorted := h.sorted
  rw [Sorted, hlist, List.pairwise_cons] at hsorted
  rw [hlist] at hy
  rcases List.mem_cons.mp hy with rfl | hy
  · exact Int.le_refl _
  · exact hsorted.1 y hy

theorem Sound.least_mem {fuel : Nat} (h : Sound s t)
    (hnodes : (addrs t).Perm nodes) (hne : nodes ≠ [])
    (hfuel : nodes.length ≤ fuel) :
    exists a, rbtreeMin fuel s s.root = some a ∧ Least s nodes a := by
  have hlen : t.toList.length = nodes.length := by
    rw [← hnodes.length_eq, addrs, List.length_map]
  have ht : t ≠ RbTree.leaf := by
    rintro rfl
    exact hne (List.Perm.nil_eq hnodes).symm
  obtain ⟨x, hx, hmin, hkey, hle⟩ := h.least ht (hlen ▸ hfuel)
  obtain ⟨stale, hfocus⟩ := h.focus
  refine ⟨x.addr, hmin, hnodes.mem_iff.mp (List.mem_map_of_mem hx), ?_⟩
  intro b hb
  obtain ⟨y, hy, rfl⟩ := List.mem_map.mp (hnodes.mem_iff.mpr hb)
  rw [hkey, hfocus.key_eq hy]
  exact hle y hy

end Soundness

end Rbtree
end NgxEpoll
