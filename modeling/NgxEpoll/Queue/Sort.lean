import NgxEpoll.Foundation.Insertion
import NgxEpoll.Foundation.Loop
import NgxEpoll.Foundation.Rings

/-!
# Sorting a queue

`queue_sort` of `dfs_queue.cpp`, an insertion sort on the pointers of the queue.  A null
pointer that is followed leaves no result.

## The function
-/

namespace NgxEpoll
namespace Queue

open Foundation

variable {α : Type} [DecidableEq α]

def placeTurn (cmp : α -> α -> Int) (L : Links α) (queue q prev : α) :
    Turn α (Option α) :=
  if cmp prev q ≤ 0 then Turn.done (some prev)
  else
    match L.prev prev with
    | none => Turn.done none
    | some prev => if prev = queue then Turn.done (some prev) else Turn.next prev

def sortTurn (cmp : α -> α -> Int) (queue : α) (fuel : Nat) (s : Links α × α) :
    Turn (Links α × α) (Option (Links α)) :=
  let q := s.2
  if q = queue then Turn.done (some s.1)
  else
    match s.1.prev q, s.1.next q with
    | some prev, some next =>
        let L := s.1.queueRemove q
        match iterate (placeTurn cmp L queue q) (fun _ => none) fuel prev with
        | none => Turn.done none
        | some prev => Turn.next (L.queueInsertHead prev q, next)
    | _, _ => Turn.done none

def queueSort (cmp : α -> α -> Int) (L : Links α) (queue : α) (fuel : Nat) :
    Option (Links α) :=
  match L.next queue with
  | none => none
  | some q =>
      if L.prev queue = some q then some L
      else
        match L.next q with
        | none => none
        | some q => iterate (sortTurn cmp queue fuel) (fun _ => none) fuel (L, q)

/-!
## The place of an element
-/

def InOrder (cmp : α -> α -> Int) (a b : α) : Prop :=
  cmp a b ≤ 0

instance (cmp : α -> α -> Int) : DecidableRel (InOrder cmp) :=
  fun a b => inferInstanceAs (Decidable (cmp a b ≤ 0))

variable {cmp : α -> α -> Int} {L : Links α} {queue q : α} {ys rest : List α}

theorem place_found (cmp : α -> α -> Int) (q : α) {fuel : Nat}
    (hr : Ring L queue (ys ++ rest)) (hne : ys ≠ []) (hfuel : ys.length ≤ fuel) :
    iterate (placeTurn cmp L queue q) (fun _ => none) fuel (ys.getLastD queue) =
      some ((upTo (InOrder cmp) ys q).getLastD queue) := by
  induction ys using List.reverseRecOn generalizing rest fuel with
  | nil => exact absurd rfl hne
  | append_singleton ys y ih =>
      rw [List.append_assoc, List.singleton_append] at hr
      rw [List.length_append, List.length_singleton] at hfuel
      obtain ⟨fuel, rfl⟩ : exists k, fuel = k + 1 := ⟨fuel - 1, by omega⟩
      rw [List.getLastD_concat]
      unfold iterate placeTurn
      by_cases hle : cmp y q ≤ 0
      · rw [if_pos hle, upTo_concat_pos (show InOrder cmp y q from hle), List.getLastD_concat]
      · rw [if_neg hle, upTo_concat_neg (show ¬ InOrder cmp y q from hle), hr.pointers.2]
        dsimp only
        by_cases hnil : ys = []
        · subst hnil
          rw [List.getLastD_nil, if_pos rfl]
          rfl
        · have hlast : ys.getLastD queue ≠ queue := by
            obtain ⟨zs, z, rfl⟩ : exists zs z, ys = zs ++ [z] :=
              ⟨_, _, (List.dropLast_append_getLast hnil).symm⟩
            rw [List.getLastD_concat]
            rintro rfl
            exact (List.nodup_cons.mp hr.nodup).1 (by simp)
          rw [if_neg hlast]
          exact ih hr hnil (Nat.le_of_succ_le_succ hfuel)

/-!
## One turn
-/

theorem ring_insertBehind {x : α} (hr : Ring L queue (ys ++ rest))
    (hx : x ∉ queue :: (ys ++ rest)) :
    Ring (L.queueInsertHead (ys.getLastD queue) x) queue (ys ++ x :: rest) ∧
      L.SameOutside (L.queueInsertHead (ys.getLastD queue) x)
        (x :: queue :: (ys ++ rest)) := by
  obtain ⟨l, a, b, r, hla, hbr, hnext, -⟩ := hr.neighbours
  have ha : ys.getLastD queue = a := by
    have hlast := congrArg (fun l => l.getLastD queue) hla
    simp only [List.getLastD_cons, List.getLastD_concat] at hlast
    exact hlast
  have hamem : a ∈ queue :: (ys ++ rest) := by
    have hmem := mem_of_lastNode hla
    rw [← List.cons_append]
    exact List.mem_append_left _ hmem
  have hbmem : b ∈ queue :: (ys ++ rest) := by
    have hmem := mem_of_firstNode hbr
    rcases List.mem_cons.mp hmem with rfl | hrest
    · exact List.mem_cons_self
    · exact List.mem_cons_of_mem _ (List.mem_append_right _ hrest)
  have hxb : x ≠ b := (ne_of_mem_of_not_mem hbmem hx).symm
  rw [ha, Links.queueInsertHead_eq hnext hxb]
  exact ⟨hr.splice hx hla hbr, sameOutside_splice L hamem hbmem⟩

theorem sortTurn_settles (cmp : α -> α -> Int) {fuel : Nat}
    (hr : Ring L queue (ys ++ q :: rest)) (hne : ys ≠ []) (hfuel : ys.length ≤ fuel) :
    exists L', sortTurn cmp queue fuel (L, q) = Turn.next (L', rest.headD queue) ∧
      Ring L' queue (settle (InOrder cmp) ys q ++ rest) ∧
      L.SameOutside L' (queue :: (ys ++ q :: rest)) := by
  obtain ⟨hnext, hprev⟩ := hr.pointers
  have hq : q ∉ queue :: (ys ++ rest) := hr.not_mem_rest
  have hhead : q ≠ queue := fun heq => hq (by simp [heq])
  obtain ⟨hremoved, hsame⟩ := hr.remove
  have hplace := place_found cmp q hremoved hne hfuel
  have hsplit := upTo_append_behind (InOrder cmp) ys q
  rw [← hsplit, List.append_assoc] at hremoved hq
  obtain ⟨hring, hsame'⟩ := ring_insertBehind hremoved hq
  refine ⟨(L.queueRemove q).queueInsertHead ((upTo (InOrder cmp) ys q).getLastD queue) q,
    ?_, ?_, ?_⟩
  · unfold sortTurn
    dsimp only
    rw [if_neg hhead, hnext, hprev]
    dsimp only
    rw [hplace]
  · unfold settle
    rw [List.append_assoc]
    exact hring
  · intro y hy
    have hother : y ∉ q :: queue :: (upTo (InOrder cmp) ys q ++
        (behind (InOrder cmp) ys q ++ rest)) := by
      rw [← List.append_assoc, hsplit]
      simp only [List.mem_cons, List.mem_append, not_or] at hy ⊢
      exact ⟨hy.2.2.1, hy.1, hy.2.1, hy.2.2.2⟩
    obtain ⟨hnexty, hprevy⟩ := hsame y hy
    obtain ⟨hnexty', hprevy'⟩ := hsame' y hother
    exact ⟨hnexty'.trans hnexty, hprevy'.trans hprevy⟩

/-!
## The whole queue
-/

theorem iterate_sortTurn (cmp : α -> α -> Int) {fuel turns : Nat}
    (hr : Ring L queue (ys ++ rest)) (hne : ys ≠ [])
    (hfuel : ys.length + rest.length ≤ fuel) (hturns : rest.length < turns) :
    exists L', iterate (sortTurn cmp queue fuel) (fun _ => none) turns
        (L, rest.headD queue) = some L' ∧
      Ring L' queue (rest.foldl (settle (InOrder cmp)) ys) ∧
      L.SameOutside L' (queue :: (ys ++ rest)) := by
  induction rest generalizing L ys turns with
  | nil =>
      obtain ⟨turns, rfl⟩ : exists k, turns = k + 1 := ⟨turns - 1, by omega⟩
      refine ⟨L, ?_, ?_, fun _ _ => ⟨rfl, rfl⟩⟩
      · unfold iterate sortTurn
        simp only [List.headD_nil, if_true]
      · rw [List.append_nil] at hr
        exact hr
  | cons q rest ih =>
      obtain ⟨turns, rfl⟩ : exists k, turns = k + 1 := ⟨turns - 1, by omega⟩
      rw [List.length_cons] at hfuel hturns
      obtain ⟨L1, hturn, hring, hsame⟩ := sortTurn_settles cmp hr hne
        (Nat.le_trans (Nat.le_add_right _ _) hfuel)
      have hperm : (settle (InOrder cmp) ys q).Perm (q :: ys) := settle_perm ys q
      have hlen : (settle (InOrder cmp) ys q).length = ys.length + 1 := by
        rw [hperm.length_eq, List.length_cons]
      have hnonempty : settle (InOrder cmp) ys q ≠ [] :=
        List.ne_nil_of_length_eq_add_one hlen
      obtain ⟨L', hrun, hring', hsame'⟩ := ih hring hnonempty
        (show _ ≤ fuel by omega) (show rest.length < turns by omega)
      refine ⟨L', ?_, hring', ?_⟩
      · unfold iterate
        rw [List.headD_cons, hturn]
        exact hrun
      · intro y hy
        have hother : y ∉ queue :: (settle (InOrder cmp) ys q ++ rest) := by
          simp only [List.mem_cons, List.mem_append, hperm.mem_iff, not_or] at hy ⊢
          exact ⟨hy.1, ⟨hy.2.2.1, hy.2.1⟩, hy.2.2.2⟩
        obtain ⟨hn, hp⟩ := hsame y hy
        obtain ⟨hn', hp'⟩ := hsame' y hother
        exact ⟨hn'.trans hn, hp'.trans hp⟩

theorem queueSort_returns (cmp : α -> α -> Int) {xs : List α} (hr : Ring L queue xs) :
    exists L', Returns (queueSort cmp L queue) L' ∧
      Ring L' queue (xs.foldl (settle (InOrder cmp)) []) ∧
      L.SameOutside L' (queue :: xs) := by
  cases xs with
  | nil =>
      refine ⟨L, ⟨0, fun n _ => ?_⟩, hr, fun _ _ => ⟨rfl, rfl⟩⟩
      unfold queueSort
      rw [hr.next_nil.1, hr.next_nil.2]
      dsimp only
      rw [if_pos rfl]
  | cons x rest =>
      have hr' : Ring L queue ([x] ++ rest) := hr
      have hnext : L.next x = some (rest.headD queue) :=
        (show Ring L queue ([] ++ x :: rest) from hr).pointers.1
      obtain ⟨hfirst, hlast⟩ := hr.pointers_head
      rw [List.headD_cons] at hfirst
      rw [List.getLastD_cons] at hlast
      by_cases hone : rest.getLastD x = x
      · -- an element that is the first and the last one is the only one
        have hnil : rest = [] := by
          rcases List.eq_nil_or_concat' rest with hnil | ⟨zs, z, rfl⟩
          · exact hnil
          · rw [List.getLastD_concat] at hone
            have hnodup := (List.nodup_cons.mp hr.nodup).2
            exact absurd (by simp [hone]) (List.nodup_cons.mp hnodup).1
        subst hnil
        refine ⟨L, ⟨0, fun n _ => ?_⟩, hr, fun _ _ => ⟨rfl, rfl⟩⟩
        unfold queueSort
        rw [hfirst, hlast]
        exact if_pos rfl
      · have hrun : forall fuel, rest.length + 1 ≤ fuel ->
            exists L', queueSort cmp L queue fuel = some L' ∧
              Ring L' queue (rest.foldl (settle (InOrder cmp)) [x]) ∧
              L.SameOutside L' (queue :: x :: rest) := by
          intro fuel hfuel
          have hlen : [x].length + rest.length ≤ fuel := by
            rw [List.length_singleton, Nat.add_comm]
            exact hfuel
          obtain ⟨L', hiterate, hring, hsame⟩ := iterate_sortTurn cmp hr'
            (List.cons_ne_nil x []) hlen (show rest.length < fuel from hfuel)
          refine ⟨L', ?_, hring, hsame⟩
          unfold queueSort
          rw [hfirst, hlast]
          dsimp only
          rw [if_neg fun heq => hone (Option.some.inj heq), hnext]
          exact hiterate
        obtain ⟨L', hsome, hring, hsame⟩ := hrun _ (Nat.le_refl _)
        refine ⟨L', ⟨rest.length + 1, fun n hn => ?_⟩, hring, hsame⟩
        obtain ⟨L1, hsome', hring', hsame'⟩ := hrun n hn
        have hperm := foldl_settle_perm (InOrder cmp) [x] rest
        rw [hsome', hring'.links_eq hring fun y hy => ?_]
        have hout : y ∉ queue :: x :: rest := by
          simp only [List.mem_cons, hperm.mem_iff, List.singleton_append] at hy ⊢
          exact hy
        obtain ⟨hn', hp'⟩ := hsame' y hout
        obtain ⟨hn, hp⟩ := hsame y hout
        exact ⟨hn'.trans hn.symm, hp'.trans hp.symm⟩

/-- For a `cmp` that orders all elements, with ties, `queue_sort` returns, and the queue
holds the same elements in this order, those that are tied as they stood before. -/
theorem queueSort_sorts {cmp : α -> α -> Int} (hcmp : TotalPreorder (InOrder cmp))
    {xs : List α} (hr : Ring L queue xs) :
    exists L' ys, Returns (queueSort cmp L queue) L' ∧ Ring L' queue ys ∧ ys.Perm xs ∧
      ys.Pairwise (InOrder cmp) ∧
      (forall a, ys.filter (Tied (InOrder cmp) a) = xs.filter (Tied (InOrder cmp) a)) ∧
      L.SameOutside L' (queue :: xs) := by
  obtain ⟨L', hreturns, hring, hsame⟩ := queueSort_returns cmp hr
  refine ⟨L', xs.foldl (settle (InOrder cmp)) [], hreturns, hring, ?_, ?_, ?_, hsame⟩
  · exact foldl_settle_perm (InOrder cmp) [] xs
  · exact foldl_settle_pairwise hcmp xs List.Pairwise.nil
  · exact foldl_settle_filter hcmp [] xs

def numbered : Links Nat :=
  ((((Links.mk (fun _ => none) (fun _ => none)).queueInit 0).queueInsertTail 0 1).queueInsertTail
    0 2).queueInsertTail 0 3

theorem numbered_ring : Ring numbered 0 [1, 2, 3] := by
  have hempty := ring_queueInit (Links.mk (fun _ => none) (fun _ => none)) 0
  have hone := (hempty.insertTail (x := 1) (by decide)).1
  have htwo := (hone.insertTail (x := 2) (by decide)).1
  exact (htwo.insertTail (x := 3) (by decide)).1

def parity (a b : Nat) : Int :=
  (a % 2 : Nat) - (b % 2 : Nat)

theorem parity_preorder : TotalPreorder (InOrder parity) where
  trans := by
    intro a b c hab hbc
    unfold InOrder parity at *
    omega
  total := by
    intro a b
    unfold InOrder parity
    omega

theorem queueSort_sorts_parity :
    exists L' ys, Returns (queueSort parity numbered 0) L' ∧ Ring L' 0 ys ∧
      ys.Perm [1, 2, 3] ∧ ys.Pairwise (InOrder parity) ∧
      (forall a, ys.filter (Tied (InOrder parity) a) =
        [1, 2, 3].filter (Tied (InOrder parity) a)) ∧
      numbered.SameOutside L' [0, 1, 2, 3] :=
  queueSort_sorts parity_preorder numbered_ring

example : (queueSort parity numbered 0 4).map (fun L => L.entries 0 4) = some [2, 1, 3] := by
  decide +kernel

end Queue
end NgxEpoll
