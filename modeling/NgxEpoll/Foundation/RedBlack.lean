import Mathlib.Data.List.Basic
import Mathlib.Data.List.Perm.Basic

/-!
# Red-black trees with a focus

Binary trees with a colour at each node, and contexts: the frames on the way
from a position up to the root.  Left and right are handled together, through a
direction.  `Balanced` and `Fits` are the two halves of the red-black
invariant, of a tree and of the context around it.
-/

namespace NgxEpoll
namespace Foundation

inductive Color where
  | red
  | black
deriving DecidableEq

inductive Dir where
  | left
  | right
deriving DecidableEq

def Dir.other : Dir -> Dir
  | Dir.left => Dir.right
  | Dir.right => Dir.left

@[simp] theorem Dir.other_other (d : Dir) : d.other.other = d := by
  cases d <;> rfl

theorem Dir.eq_other_of_ne {d e : Dir} (h : e ≠ d) : e = d.other := by
  cases d <;> cases e <;> simp_all [Dir.other]

inductive RbTree (α : Type) where
  | leaf
  | node (color : Color) (l : RbTree α) (x : α) (r : RbTree α)

variable {α : Type}

namespace RbTree

def join (d : Dir) (color : Color) (near : RbTree α) (x : α) (far : RbTree α) :
    RbTree α :=
  match d with
  | Dir.left => node color near x far
  | Dir.right => node color far x near

theorem join_other (d : Dir) (color : Color) (near : RbTree α) (x : α)
    (far : RbTree α) :
    join d.other color near x far = join d color far x near := by
  cases d <;> rfl

theorem exists_join (d : Dir) (color : Color) (l : RbTree α) (x : α) (r : RbTree α) :
    exists near far, node color l x r = join d color near x far := by
  cases d with
  | left => exact ⟨l, r, rfl⟩
  | right => exact ⟨r, l, rfl⟩

def toList : RbTree α -> List α
  | leaf => []
  | node _ l x r => l.toList ++ x :: r.toList

def color : RbTree α -> Color
  | leaf => Color.black
  | node c _ _ _ => c

def blacken : RbTree α -> RbTree α
  | leaf => leaf
  | node _ l x r => node Color.black l x r

@[simp] theorem toList_blacken (t : RbTree α) : t.blacken.toList = t.toList := by
  cases t <;> rfl

end RbTree

/-!
## Contexts
-/

structure Frame (α : Type) where
  dir : Dir
  color : Color
  elem : α
  sibling : RbTree α

def Frame.plug (f : Frame α) (t : RbTree α) : RbTree α :=
  RbTree.join f.dir f.color t f.elem f.sibling

def plug : List (Frame α) -> RbTree α -> RbTree α
  | [], t => t
  | f :: ctx, t => plug ctx (f.plug t)

def leftOf : List (Frame α) -> List α
  | [] => []
  | ⟨Dir.left, _, _, _⟩ :: ctx => leftOf ctx
  | ⟨Dir.right, _, x, sibling⟩ :: ctx => leftOf ctx ++ (sibling.toList ++ [x])

def rightOf : List (Frame α) -> List α
  | [] => []
  | ⟨Dir.left, _, x, sibling⟩ :: ctx => x :: sibling.toList ++ rightOf ctx
  | ⟨Dir.right, _, _, _⟩ :: ctx => rightOf ctx

theorem toList_plug (ctx : List (Frame α)) (t : RbTree α) :
    (plug ctx t).toList = leftOf ctx ++ (t.toList ++ rightOf ctx) := by
  induction ctx generalizing t with
  | nil => simp [plug, leftOf, rightOf]
  | cons f ctx ih =>
      obtain ⟨d, color, x, sibling⟩ := f
      rw [plug, ih]
      cases d with
      | left => simp [Frame.plug, RbTree.join, RbTree.toList, leftOf, rightOf]
      | right => simp [Frame.plug, RbTree.join, RbTree.toList, leftOf, rightOf]

theorem length_le_toList_plug (ctx : List (Frame α)) (t : RbTree α) :
    ctx.length ≤ (plug ctx t).toList.length := by
  have hframes : ctx.length ≤ (leftOf ctx).length + (rightOf ctx).length := by
    induction ctx with
    | nil => simp
    | cons f ctx ih =>
        obtain ⟨d, color, x, sibling⟩ := f
        cases d <;> simp only [leftOf, rightOf, List.length_cons,
          List.length_append] <;> omega
  rw [toList_plug, List.length_append, List.length_append]
  omega

theorem toList_plug_congr (ctx : List (Frame α)) {t u : RbTree α}
    (h : t.toList = u.toList) : (plug ctx t).toList = (plug ctx u).toList := by
  rw [toList_plug, toList_plug, h]

theorem plug_append (ctx ctx' : List (Frame α)) (t : RbTree α) :
    plug (ctx ++ ctx') t = plug ctx' (plug ctx t) := by
  induction ctx generalizing t with
  | nil => rfl
  | cons f ctx ih => exact ih (f.plug t)

theorem leftOf_append (ctx ctx' : List (Frame α)) :
    leftOf (ctx ++ ctx') = leftOf ctx' ++ leftOf ctx := by
  induction ctx with
  | nil => simp [leftOf]
  | cons f ctx ih =>
      obtain ⟨d, color, x, sibling⟩ := f
      cases d with
      | left => exact ih
      | right => simp [leftOf, ih]

theorem exists_focus {t : RbTree α} {x : α} (h : x ∈ t.toList) :
    exists ctx color l r, t = plug ctx (RbTree.node color l x r) := by
  induction t with
  | leaf => cases h
  | node color l y r ihl ihr =>
      rw [RbTree.toList, List.mem_append, List.mem_cons] at h
      rcases h with hl | rfl | hr
      · obtain ⟨ctx, color', l', r', rfl⟩ := ihl hl
        refine ⟨ctx ++ [⟨Dir.left, color, y, r⟩], color', l', r', ?_⟩
        rw [plug_append]
        rfl
      · exact ⟨[], color, l, r, rfl⟩
      · obtain ⟨ctx, color', l', r', rfl⟩ := ihr hr
        refine ⟨ctx ++ [⟨Dir.right, color, y, l⟩], color', l', r', ?_⟩
        rw [plug_append]
        rfl

theorem toList_rotate (d : Dir) (c c' e e' : Color) (near mid far : RbTree α)
    (x y : α) :
    (RbTree.join d c near x (RbTree.join d c' mid y far)).toList =
      (RbTree.join d e (RbTree.join d e' near x mid) y far).toList := by
  cases d with
  | left => simp [RbTree.join, RbTree.toList]
  | right => simp [RbTree.join, RbTree.toList]

theorem toList_join (d : Dir) {c c' : Color} {near near' far far' : RbTree α}
    {x : α} (hnear : near.toList = near'.toList)
    (hfar : far.toList = far'.toList) :
    (RbTree.join d c near x far).toList = (RbTree.join d c' near' x far').toList := by
  cases d with
  | left => simp [RbTree.join, RbTree.toList, hnear, hfar]
  | right => simp [RbTree.join, RbTree.toList, hnear, hfar]

/-!
## Balance
-/

/-- No red node has a red child, and every path from the root to a leaf has `n`
black nodes; the first argument is the colour of the root. -/
inductive Balanced : Color -> Nat -> RbTree α -> Prop where
  | leaf : Balanced Color.black 0 RbTree.leaf
  | red {n : Nat} {l r : RbTree α} {x : α} : Balanced Color.black n l ->
      Balanced Color.black n r -> Balanced Color.red n (RbTree.node Color.red l x r)
  | black {n : Nat} {c c' : Color} {l r : RbTree α} {x : α} : Balanced c n l ->
      Balanced c' n r ->
      Balanced Color.black (n + 1) (RbTree.node Color.black l x r)

/-- A context into which trees with `n` black nodes on every path fit, with a
red root only where the flag says so. -/
inductive Fits : Bool -> Nat -> List (Frame α) -> Prop where
  | top (n : Nat) : Fits false n []
  | red {n : Nat} {d : Dir} {x : α} {sibling : RbTree α} {ctx : List (Frame α)} :
      Balanced Color.black n sibling -> Fits true n ctx ->
      Fits false n (⟨d, Color.red, x, sibling⟩ :: ctx)
  | black {n : Nat} {c : Color} {d : Dir} {x : α} {sibling : RbTree α} {b : Bool}
      {ctx : List (Frame α)} : Balanced c n sibling -> Fits b (n + 1) ctx ->
      Fits true n (⟨d, Color.black, x, sibling⟩ :: ctx)

/-- One black node short of `n + 1`, or just that once the root is black. -/
def Deficient (n : Nat) (t : RbTree α) : Prop :=
  Balanced Color.black n t ∨
    t.color = Color.red ∧ Balanced Color.black (n + 1) t.blacken

section Balance

variable {n : Nat} {c c' : Color} {d : Dir} {near far t : RbTree α} {x : α}
  {b : Bool} {ctx : List (Frame α)}

theorem Balanced.color_eq (h : Balanced c n t) : t.color = c := by
  cases h <;> rfl

theorem balanced_join_red (hnear : Balanced Color.black n near)
    (hfar : Balanced Color.black n far) :
    Balanced Color.red n (RbTree.join d Color.red near x far) := by
  cases d with
  | left => exact Balanced.red hnear hfar
  | right => exact Balanced.red hfar hnear

theorem balanced_join_black (hnear : Balanced c n near) (hfar : Balanced c' n far) :
    Balanced Color.black (n + 1) (RbTree.join d Color.black near x far) := by
  cases d with
  | left => exact Balanced.black hnear hfar
  | right => exact Balanced.black hfar hnear

theorem balanced_near (h : Balanced c n (RbTree.join d c near x far)) :
    exists m cn, Balanced cn m near ∧ (c = Color.red -> cn = Color.black) ∧
      n = m + if c = Color.red then 0 else 1 := by
  cases c with
  | red => cases d <;> cases h <;> exact ⟨_, _, by assumption, fun _ => rfl, rfl⟩
  | black =>
      cases d <;> cases h <;>
        exact ⟨_, _, by assumption, fun h => (by cases h), rfl⟩

theorem Balanced.blacken (h : Balanced c n t) :
    exists m, Balanced Color.black m t.blacken := by
  cases h with
  | leaf => exact ⟨0, Balanced.leaf⟩
  | red hl hr => exact ⟨_, Balanced.black hl hr⟩
  | black hl hr => exact ⟨_, Balanced.black hl hr⟩

theorem balanced_plug (hctx : Fits b n ctx) (ht : Balanced c n t)
    (hred : c = Color.red -> b = true) :
    exists m, Balanced Color.black m (plug ctx t) := by
  induction hctx generalizing c t with
  | top n =>
      cases c with
      | red => exact absurd (hred rfl) (by simp)
      | black => exact ⟨n, ht⟩
  | red hsibling _ ih =>
      cases c with
      | red => exact absurd (hred rfl) (by simp)
      | black => exact ih (balanced_join_red ht hsibling) (fun _ => rfl)
  | black hsibling _ ih =>
      exact ih (balanced_join_black ht hsibling) (fun h => (by cases h))

theorem fits_of_balanced (h : Balanced Color.black n (plug ctx t)) :
    exists b c m, Fits b m ctx ∧ Balanced c m t ∧ (c = Color.red -> b = true) := by
  induction ctx generalizing t with
  | nil => exact ⟨false, Color.black, n, Fits.top n, h, fun h => (by cases h)⟩
  | cons f ctx ih =>
      obtain ⟨b, c, m, hctx, ht, hred⟩ := ih h
      obtain ⟨d, color, x, sibling⟩ := f
      cases d with
      | left =>
          cases ht with
          | red hl hr =>
              rw [hred rfl] at hctx
              exact ⟨false, _, m, Fits.red hr hctx, hl, fun h => (by cases h)⟩
          | black hl hr => exact ⟨true, _, _, Fits.black hr hctx, hl, fun _ => rfl⟩
      | right =>
          cases ht with
          | red hl hr =>
              rw [hred rfl] at hctx
              exact ⟨false, _, m, Fits.red hl hctx, hr, fun h => (by cases h)⟩
          | black hl hr => exact ⟨true, _, _, Fits.black hl hctx, hr, fun _ => rfl⟩

theorem deficient_of_balanced (h : Balanced c n t) : Deficient n t := by
  cases h with
  | leaf => exact Or.inl Balanced.leaf
  | red hl hr => exact Or.inr ⟨rfl, Balanced.black hl hr⟩
  | black hl hr => exact Or.inl (Balanced.black hl hr)

theorem fits_elem {down : List (Frame α)} {y : α}
    (h : Fits b n (down ++ ⟨d, c, x, t⟩ :: ctx)) :
    Fits b n (down ++ ⟨d, c, y, t⟩ :: ctx) := by
  induction down generalizing b n with
  | nil =>
      cases h with
      | red ht hctx => exact Fits.red ht hctx
      | black ht hctx => exact Fits.black ht hctx
  | cons f down ih =>
      cases h with
      | red hsibling hctx => exact Fits.red hsibling (ih hctx)
      | black hsibling hctx => exact Fits.black hsibling (ih hctx)

end Balance

/-!
## Taking an element out
-/

/-- The second tree has the elements of the first one but `x`. -/
def Drops (x : α) (t t' : RbTree α) : Prop :=
  exists es fs, t.toList = es ++ x :: fs ∧ t'.toList = es ++ fs

theorem Drops.length {x : α} {t t' : RbTree α} (h : Drops x t t') :
    t.toList.length = t'.toList.length + 1 := by
  obtain ⟨es, fs, ht, ht'⟩ := h
  rw [ht, ht', List.length_append, List.length_append, List.length_cons]
  omega

theorem Drops.congr {x : α} {t t' t'' : RbTree α} (h : Drops x t t')
    (hlist : t''.toList = t'.toList) : Drops x t t'' := by
  obtain ⟨es, fs, ht, ht'⟩ := h
  exact ⟨es, fs, ht, hlist.trans ht'⟩

theorem drops_join (d : Dir) (c : Color) (u : RbTree α) (x : α) :
    Drops x (RbTree.join d c u x RbTree.leaf) u := by
  cases d with
  | left => exact ⟨u.toList, [], rfl, (List.append_nil _).symm⟩
  | right => exact ⟨[], u.toList, rfl, rfl⟩

theorem drops_subst {down : List (Frame α)} (hdown : leftOf down = []) (c c' : Color)
    (l u : RbTree α) (x y : α) :
    Drops x (RbTree.node c l x (plug down (RbTree.join Dir.right c' u y RbTree.leaf)))
      (RbTree.node c l y (plug down u)) := by
  refine ⟨l.toList, y :: (u.toList ++ rightOf down), ?_, ?_⟩
  · rw [RbTree.toList, toList_plug, hdown]
    rfl
  · rw [RbTree.toList, toList_plug, hdown]
    rfl

theorem Drops.plug {x : α} {t t' : RbTree α} (h : Drops x t t')
    (ctx : List (Frame α)) : Drops x (plug ctx t) (plug ctx t') := by
  obtain ⟨es, fs, ht, ht'⟩ := h
  refine ⟨leftOf ctx ++ es, fs ++ rightOf ctx, ?_, ?_⟩
  · rw [toList_plug, ht]
    simp
  · rw [toList_plug, ht']
    simp

end Foundation
end NgxEpoll
