import NgxEpoll.Foundation.Loop
import NgxEpoll.Foundation.RedBlack
import Mathlib.Logic.Function.Basic

/-!
# The red-black tree of the timers

`dfs_rbtree.cpp` on nodes in memory.  The code for the left side and the code
for the right side are mirror images of each other, so that each is written
once, for a direction.  Loops run on fuel and answer `none` when it is used up.
-/

namespace NgxEpoll
namespace Rbtree

open Foundation

structure RbNode where
  key : Int
  left : Nat
  right : Nat
  parent : Nat
  color : Color

/-- `rbtree_t` with the memory that holds the nodes.  The pointer `0` is
`nullptr`. -/
structure RbtreeT where
  mem : Nat -> RbNode
  root : Nat
  sentinel : Nat

def nullptr : Nat := 0

def RbNode.child (n : RbNode) : Dir -> Nat
  | Dir.left => n.left
  | Dir.right => n.right

def RbNode.setChild (n : RbNode) (d : Dir) (p : Nat) : RbNode :=
  match d with
  | Dir.left => { n with left := p }
  | Dir.right => { n with right := p }

def RbtreeT.put (s : RbtreeT) (a : Nat) (n : RbNode) : RbtreeT :=
  { s with mem := Function.update s.mem a n }

def RbtreeT.child (s : RbtreeT) (a : Nat) (d : Dir) : Nat :=
  (s.mem a).child d

def RbtreeT.parent (s : RbtreeT) (a : Nat) : Nat :=
  (s.mem a).parent

def RbtreeT.setChild (s : RbtreeT) (a : Nat) (d : Dir) (p : Nat) : RbtreeT :=
  s.put a ((s.mem a).setChild d p)

def RbtreeT.setParent (s : RbtreeT) (a p : Nat) : RbtreeT :=
  s.put a { s.mem a with parent := p }

def RbtreeT.paint (s : RbtreeT) (a : Nat) (c : Color) : RbtreeT :=
  s.put a { s.mem a with color := c }

def RbtreeT.isRed (s : RbtreeT) (a : Nat) : Prop :=
  (s.mem a).color = Color.red

def RbtreeT.isBlack (s : RbtreeT) (a : Nat) : Prop :=
  (s.mem a).color = Color.black

instance (s : RbtreeT) (a : Nat) : Decidable (s.isRed a) :=
  inferInstanceAs (Decidable (_ = _))

instance (s : RbtreeT) (a : Nat) : Decidable (s.isBlack a) :=
  inferInstanceAs (Decidable (_ = _))

def rbtreeSentinelInit (s : RbtreeT) (a : Nat) : RbtreeT :=
  if a ≠ nullptr then s.paint a Color.black else s

def rbtreeInit (mem : Nat -> RbNode) (sentinel : Nat) : RbtreeT :=
  rbtreeSentinelInit { mem := mem, root := sentinel, sentinel := sentinel }
    sentinel

/-!
## Rotations
-/

/-- `p->parent = q` where `p` is not the sentinel. -/
def reparent (s : RbtreeT) (p q : Nat) : RbtreeT :=
  if p ≠ s.sentinel then s.setParent p q else s

/-- The parent of `node`, looked at on side `d` first, or the root gets `temp`
in the place of `node`. -/
def relink (d : Dir) (s : RbtreeT) (node temp : Nat) : RbtreeT :=
  if node = s.root then { s with root := temp }
  else if node = s.child (s.parent node) d then
    s.setChild (s.parent node) d temp
  else s.setChild (s.parent node) d.other temp

def rotate (d : Dir) (s : RbtreeT) (node : Nat) : RbtreeT :=
  let temp := s.child node d.other
  let s := s.setChild node d.other (s.child temp d)
  let s := reparent s (s.child temp d) node
  let s := s.setParent temp (s.parent node)
  let s := relink d s node temp
  let s := s.setChild temp d node
  s.setParent node temp

def rbtreeLeftRotate : RbtreeT -> Nat -> RbtreeT :=
  rotate Dir.left

def rbtreeRightRotate : RbtreeT -> Nat -> RbtreeT :=
  rotate Dir.right

/-!
## Insertion
-/

def searchTurn (s : RbtreeT) (key : Int) (last : Nat) :
    Turn Nat (Option (Nat × Dir)) :=
  let d := if key < (s.mem last).key then Dir.left else Dir.right
  if s.child last d = s.sentinel then Turn.done (some (last, d))
  else Turn.next (s.child last d)

def search (fuel : Nat) (s : RbtreeT) (key : Int) (root : Nat) :
    Option (Nat × Dir) :=
  iterate (searchTurn s key) (fun _ => none) fuel root

def attach (s : RbtreeT) (last : Nat) (d : Dir) (node : Nat) : RbtreeT :=
  let s := s.setChild last d node
  let s := s.setParent node last
  let s := s.setChild node Dir.left s.sentinel
  let s := s.setChild node Dir.right s.sentinel
  s.paint node Color.red

def rbtreeInsertTimerValue (fuel : Nat) (s : RbtreeT) (root node : Nat) :
    Option RbtreeT :=
  if root = nullptr ∨ node = nullptr then some s
  else
    match search fuel s (s.mem node).key root with
    | none => none
    | some (last, d) => some (attach s last d node)

def insertOuter (d : Dir) (s : RbtreeT) (node : Nat) : RbtreeT :=
  let s := s.paint (s.parent node) Color.black
  let s := s.paint (s.parent (s.parent node)) Color.red
  rotate d.other s (s.parent (s.parent node))

/-- The body of the loop of `rbtree_insert` when the parent of `node` is on side
`d` of its own parent. -/
def insertCase (d : Dir) (s : RbtreeT) (node : Nat) : RbtreeT × Nat :=
  let temp := s.child (s.parent (s.parent node)) d.other
  if s.isRed temp then
    let s := s.paint (s.parent node) Color.black
    let s := s.paint temp Color.black
    let s := s.paint (s.parent (s.parent node)) Color.red
    (s, s.parent (s.parent node))
  else
    let inner := node = s.child (s.parent node) d.other
    let node' := if inner then s.parent node else node
    let s := if inner then rotate d s node' else s
    (insertOuter d s node', node')

def insertTurn (p : RbtreeT × Nat) : Turn (RbtreeT × Nat) (Option RbtreeT) :=
  let s := p.1
  let node := p.2
  if node ≠ s.root ∧ s.isRed (s.parent node) then
    if s.parent node = s.child (s.parent (s.parent node)) Dir.left then
      Turn.next (insertCase Dir.left s node)
    else Turn.next (insertCase Dir.right s node)
  else Turn.done (some s)

def rbtreeInsert (fuel : Nat) (s : RbtreeT) (node : Nat) : Option RbtreeT :=
  if s.root = s.sentinel then
    let s := s.setParent node nullptr
    let s := s.setChild node Dir.left s.sentinel
    let s := s.setChild node Dir.right s.sentinel
    let s := s.paint node Color.black
    some { s with root := node }
  else
    match rbtreeInsertTimerValue fuel s s.root node with
    | none => none
    | some s =>
        match iterate insertTurn (fun _ => none) fuel (s, node) with
        | none => none
        | some s => some (s.paint s.root Color.black)

/-!
## Deletion
-/

def minTurn (s : RbtreeT) (node : Nat) : Turn Nat (Option Nat) :=
  if s.child node Dir.left ≠ s.sentinel then Turn.next (s.child node Dir.left)
  else Turn.done (some node)

def rbtreeMin (fuel : Nat) (s : RbtreeT) (node : Nat) : Option Nat :=
  iterate (minTurn s) (fun _ => none) fuel node

def chooseSubst (fuel : Nat) (s : RbtreeT) (node : Nat) : Option (Nat × Nat) :=
  if s.child node Dir.left = s.sentinel then some (node, s.child node Dir.right)
  else if s.child node Dir.right = s.sentinel then
    some (node, s.child node Dir.left)
  else
    match rbtreeMin fuel s (s.child node Dir.right) with
    | none => none
    | some subst =>
        if s.child subst Dir.left ≠ s.sentinel then
          some (subst, s.child subst Dir.left)
        else some (subst, s.child subst Dir.right)

def clear (s : RbtreeT) (node : Nat) : RbtreeT :=
  let s := s.setChild node Dir.left nullptr
  let s := s.setChild node Dir.right nullptr
  let s := s.setParent node nullptr
  s.put node { s.mem node with key := 0 }

def unlink (s : RbtreeT) (subst temp : Nat) : RbtreeT :=
  if subst = s.child (s.parent subst) Dir.left then
    s.setChild (s.parent subst) Dir.left temp
  else s.setChild (s.parent subst) Dir.right temp

def copyLinks (s : RbtreeT) (node subst : Nat) : RbtreeT :=
  let s := s.setChild subst Dir.left (s.child node Dir.left)
  let s := s.setChild subst Dir.right (s.child node Dir.right)
  let s := s.setParent subst (s.parent node)
  s.paint subst (s.mem node).color

def replace (s : RbtreeT) (node subst : Nat) : RbtreeT :=
  let s := copyLinks s node subst
  let s := relink Dir.left s node subst
  let s := reparent s (s.child subst Dir.left) subst
  reparent s (s.child subst Dir.right) subst

def splice (s : RbtreeT) (node subst temp : Nat) : RbtreeT :=
  let s := unlink s subst temp
  if subst = node then s.setParent temp (s.parent subst)
  else
    let s :=
      if s.parent subst = node then s.setParent temp subst
      else s.setParent temp (s.parent subst)
    replace s node subst

def deleteRed (d : Dir) (s : RbtreeT) (temp w : Nat) : RbtreeT :=
  let s := s.paint w Color.black
  let s := s.paint (s.parent temp) Color.red
  rotate d s (s.parent temp)

def deleteInner (d : Dir) (s : RbtreeT) (w : Nat) : RbtreeT :=
  let s := s.paint (s.child w d) Color.black
  let s := s.paint w Color.red
  rotate d.other s w

def deleteOuter (d : Dir) (s : RbtreeT) (temp w : Nat) : RbtreeT :=
  let s := s.paint w (s.mem (s.parent temp)).color
  let s := s.paint (s.parent temp) Color.black
  let s := s.paint (s.child w d.other) Color.black
  rotate d s (s.parent temp)

def deleteBlack (d : Dir) (s : RbtreeT) (temp w : Nat) : RbtreeT × Nat :=
  if s.isBlack (s.child w Dir.left) ∧ s.isBlack (s.child w Dir.right) then
    let s := s.paint w Color.red
    (s, s.parent temp)
  else
    let inner := s.isBlack (s.child w d.other)
    let s := if inner then deleteInner d s w else s
    let w := if inner then s.child (s.parent temp) d.other else w
    let s := deleteOuter d s temp w
    (s, s.root)

/-- The body of the loop of `rbtree_delete` when `temp` is on side `d` of its
parent. -/
def deleteCase (d : Dir) (s : RbtreeT) (temp : Nat) : RbtreeT × Nat :=
  let w := s.child (s.parent temp) d.other
  if s.isRed w then
    let s := deleteRed d s temp w
    deleteBlack d s temp (s.child (s.parent temp) d.other)
  else deleteBlack d s temp w

def deleteTurn (p : RbtreeT × Nat) :
    Turn (RbtreeT × Nat) (Option (RbtreeT × Nat)) :=
  let s := p.1
  let temp := p.2
  if temp ≠ s.root ∧ s.isBlack temp then
    if temp = s.child (s.parent temp) Dir.left then
      Turn.next (deleteCase Dir.left s temp)
    else Turn.next (deleteCase Dir.right s temp)
  else Turn.done (some (s, temp))

def rbtreeDelete (fuel : Nat) (s : RbtreeT) (node : Nat) : Option RbtreeT :=
  match chooseSubst fuel s node with
  | none => none
  | some (subst, temp) =>
      if subst = s.root then
        let s := { s with root := temp }
        let s := s.paint temp Color.black
        some (clear s node)
      else
        let red := s.isRed subst
        let s := clear (splice s node subst temp) node
        if red then some s
        else
          match iterate deleteTurn (fun _ => none) fuel (s, temp) with
          | none => none
          | some (s, temp) => some (s.paint temp Color.black)

/-!
## More fuel
-/

section Fuel

variable {fuel fuel' node : Nat} {s s' : RbtreeT}

theorem rbtreeMin_mono {a : Nat} (h : rbtreeMin fuel s node = some a)
    (hle : fuel ≤ fuel') : rbtreeMin fuel' s node = some a :=
  iterate_mono h hle

theorem rbtreeInsertTimerValue_mono {root : Nat}
    (h : rbtreeInsertTimerValue fuel s root node = some s') (hle : fuel ≤ fuel') :
    rbtreeInsertTimerValue fuel' s root node = some s' := by
  by_cases hnull : root = nullptr ∨ node = nullptr
  · rw [rbtreeInsertTimerValue, if_pos hnull] at h ⊢
    exact h
  · rw [rbtreeInsertTimerValue, if_neg hnull] at h ⊢
    cases hsearch : search fuel s (s.mem node).key root with
    | none =>
        rw [hsearch] at h
        cases h
    | some p =>
        have hmore : search fuel' s (s.mem node).key root = some p :=
          iterate_mono hsearch hle
        rw [hsearch] at h
        rw [hmore]
        exact h

theorem rbtreeInsert_mono (h : rbtreeInsert fuel s node = some s')
    (hle : fuel ≤ fuel') : rbtreeInsert fuel' s node = some s' := by
  by_cases hroot : s.root = s.sentinel
  · rw [rbtreeInsert, if_pos hroot] at h ⊢
    exact h
  · rw [rbtreeInsert, if_neg hroot] at h ⊢
    cases hvalue : rbtreeInsertTimerValue fuel s s.root node with
    | none =>
        rw [hvalue] at h
        cases h
    | some s1 =>
        rw [hvalue] at h
        rw [rbtreeInsertTimerValue_mono hvalue hle]
        cases hloop : iterate insertTurn (fun _ => none) fuel (s1, node) with
        | none =>
            simp only [hloop] at h
            cases h
        | some s2 =>
            simp only [hloop] at h
            simp only [iterate_mono hloop hle]
            exact h

theorem chooseSubst_mono {p : Nat × Nat} (h : chooseSubst fuel s node = some p)
    (hle : fuel ≤ fuel') : chooseSubst fuel' s node = some p := by
  by_cases hleft : s.child node Dir.left = s.sentinel
  · rw [chooseSubst, if_pos hleft] at h ⊢
    exact h
  by_cases hright : s.child node Dir.right = s.sentinel
  · rw [chooseSubst, if_neg hleft, if_pos hright] at h ⊢
    exact h
  rw [chooseSubst, if_neg hleft, if_neg hright] at h ⊢
  cases hmin : rbtreeMin fuel s (s.child node Dir.right) with
  | none =>
      rw [hmin] at h
      cases h
  | some a =>
      rw [hmin] at h
      rw [rbtreeMin_mono hmin hle]
      exact h

theorem rbtreeDelete_mono (h : rbtreeDelete fuel s node = some s')
    (hle : fuel ≤ fuel') : rbtreeDelete fuel' s node = some s' := by
  unfold rbtreeDelete at h ⊢
  cases hchoose : chooseSubst fuel s node with
  | none =>
      rw [hchoose] at h
      cases h
  | some p =>
      rw [hchoose] at h
      rw [chooseSubst_mono hchoose hle]
      obtain ⟨subst, temp⟩ := p
      simp only at h ⊢
      by_cases hroot : subst = s.root
      · rw [if_pos hroot] at h ⊢
        exact h
      rw [if_neg hroot] at h ⊢
      by_cases hred : s.isRed subst
      · rw [if_pos hred] at h ⊢
        exact h
      rw [if_neg hred] at h ⊢
      cases hloop : iterate deleteTurn (fun _ => none) fuel
          (clear (splice s node subst temp) node, temp) with
      | none =>
          rw [hloop] at h
          cases h
      | some q =>
          rw [hloop] at h
          rw [iterate_mono hloop hle]
          exact h

end Fuel

end Rbtree
end NgxEpoll
