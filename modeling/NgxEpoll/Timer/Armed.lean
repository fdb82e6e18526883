import NgxEpoll.Timer.EventTimer

/-!
# Armed timers

The tree and the flags stand for a partial map from events to deadlines.  Each
function of `dfs_event_timer.cpp` is described by what it does to that map.
-/

namespace NgxEpoll
namespace Timer

open Foundation
open Rbtree

def Armed (t : EventTimer) (ev : Nat) (key : Int) : Prop :=
  Below t.timerRbtree t.timerRbtree.root ev ∧ (t.timerRbtree.mem ev).key = key

structure Holds (sentinel : Nat) (t : EventTimer) (m : Nat -> Option Int) :
    Prop where
  sentinel : t.timerRbtree.sentinel = sentinel
  tree : exists u, Sound t.timerRbtree u ∧
    forall a k, Entry.mk a k ∈ u.toList ↔ m a = some k
  flag : forall a, t.timerSet a = (m a).isSome

def IsEvent (sentinel ev : Nat) : Prop :=
  ev ≠ sentinel ∧ ev ≠ nullptr

variable {sentinel : Nat} {t t' : EventTimer} {m m' : Nat -> Option Int} {ev : Nat}
  {key : Int}

theorem holds_init (mem : Nat -> RbNode) (h : sentinel ≠ nullptr) :
    Holds sentinel (eventTimerInit mem sentinel) fun _ => none := by
  refine ⟨?_, ⟨RbTree.leaf, sound_init mem h, by simp [RbTree.toList]⟩, fun _ => rfl⟩
  simp only [eventTimerInit, rbtreeInit, rbtreeSentinelInit, if_pos h]
  rfl

/-!
## What the map says
-/

theorem mem_addrs_iff {u : RbTree Entry}
    (hu : forall a k, Entry.mk a k ∈ u.toList ↔ m a = some k) :
    ev ∈ addrs u ↔ (m ev).isSome = true := by
  rw [Option.isSome_iff_exists]
  constructor
  · intro hin
    obtain ⟨x, hx, rfl⟩ := List.mem_map.mp hin
    exact ⟨x.key, (hu x.addr x.key).mp hx⟩
  · rintro ⟨k, hk⟩
    exact List.mem_map_of_mem ((hu ev k).mpr hk)

theorem Holds.armed_iff (h : Holds sentinel t m) :
    Armed t ev key ↔ m ev = some key := by
  obtain ⟨u, hsound, hu⟩ := h.tree
  obtain ⟨stale, hfocus⟩ := hsound.focus
  have hroot : t.timerRbtree.root = ptr t.timerRbtree.sentinel u := hfocus.root
  rw [Armed, hroot, below_iff hfocus, mem_addrs_iff hu, Option.isSome_iff_exists]
  constructor
  · rintro ⟨⟨k, hk⟩, hkey⟩
    rw [hfocus.key_eq ((hu ev k).mpr hk)] at hkey
    exact hk.trans (congrArg some hkey)
  · intro hk
    exact ⟨⟨key, hk⟩, hfocus.key_eq ((hu ev key).mpr hk)⟩

theorem Holds.once (h : Holds sentinel t m) {as bs : List (Nat × Dir)}
    (hev : ev ≠ t.timerRbtree.sentinel)
    (has : Path t.timerRbtree t.timerRbtree.root as ev)
    (hbs : Path t.timerRbtree t.timerRbtree.root bs ev) : as = bs := by
  obtain ⟨u, hsound, hu⟩ := h.tree
  exact (hsound.redBlack (List.Perm.refl _)).once ev as bs hev has hbs

theorem Holds.key_eq (h : Holds sentinel t m) (hev : m ev = some key) :
    (t.timerRbtree.mem ev).key = key :=
  (h.armed_iff.mpr hev).2

theorem Holds.set (h : Holds sentinel t m) (hev : m ev = some key) :
    t.timerSet ev = true := by
  rw [h.flag, hev]
  rfl

theorem Holds.unset (h : Holds sentinel t m) (hev : m ev = none) :
    t.timerSet ev = false := by
  rw [h.flag, hev]
  rfl

/-!
## Deletion and insertion
-/

theorem Holds.flag_update (h : Holds sentinel t m) (ev : Nat) (r : Option Int)
    (a : Nat) :
    Function.update t.timerSet ev r.isSome a =
      (Function.update m ev r a).isSome := by
  by_cases ha : a = ev
  · subst ha
    rw [Function.update_self, Function.update_self]
  · rw [Function.update_of_ne ha, Function.update_of_ne ha]
    exact h.flag a

theorem mem_drops {u u' : RbTree Entry} {x : Entry} (hnodup : (addrs u).Nodup)
    (hdrops : Drops x u u')
    (hu : forall a k, Entry.mk a k ∈ u.toList ↔ m a = some k) (a : Nat) (k : Int) :
    Entry.mk a k ∈ u'.toList ↔ Function.update m x.addr none a = some k := by
  obtain ⟨es, fs, heq, heq'⟩ := hdrops
  rw [addrs, heq, List.map_append, List.map_cons] at hnodup
  have hx : x.addr ∉ (es ++ fs).map Entry.addr := by
    have hperm := hnodup.perm List.perm_middle
    rw [← List.map_append] at hperm
    exact (List.nodup_cons.mp hperm).1
  by_cases ha : a = x.addr
  · subst ha
    rw [heq', Function.update_self]
    constructor
    · intro hin
      exact absurd (List.mem_map_of_mem (f := Entry.addr) hin) hx
    · intro h
      cases h
  · rw [Function.update_of_ne ha, ← hu, heq, heq']
    have hne : Entry.mk a k ≠ x := by
      rintro rfl
      exact ha rfl
    simp [hne]

theorem Holds.delete (h : Holds sentinel t m) (hev : m ev = some key) :
    exists s, Returns (fun fuel => rbtreeDelete fuel t.timerRbtree ev) s ∧
      forall t', t'.timerRbtree = s ->
        t'.timerSet = Function.update t.timerSet ev false ->
        Holds sentinel t' (Function.update m ev none) := by
  obtain ⟨u, hsound, hu⟩ := h.tree
  obtain ⟨stale, hfocus⟩ := hsound.focus
  have hnodup : (addrs u).Nodup := by
    have hnodup := hfocus.nodup
    rwa [ctxAddrs, List.append_nil] at hnodup
  obtain ⟨s, u', hrun, hsound', hsen, hdrops⟩ :=
    rbtreeDelete_sound hsound ((hu ev key).mpr hev)
      (Nat.lt_succ_self u.toList.length)
  refine ⟨s, (steady_rbtreeDelete ev _).returns hrun, ?_⟩
  intro t' hs hset
  subst hs
  refine ⟨hsen.trans h.sentinel, ⟨u', hsound', mem_drops hnodup hdrops hu⟩, ?_⟩
  rw [hset]
  exact h.flag_update ev none

theorem Holds.insert (h : Holds sentinel t m) (hev : m ev = none)
    (hvalid : IsEvent sentinel ev) (key : Int) :
    exists t', Returns (fun fuel => insertTimer fuel t ev key) t' ∧
      Holds sentinel t' (Function.update m ev (some key)) := by
  obtain ⟨u, hsound, hu⟩ := h.tree
  have hnot : ev ∉ addrs u := by
    rw [mem_addrs_iff hu, hev]
    simp
  have hsen : ev ≠ t.timerRbtree.sentinel := by
    rw [h.sentinel]
    exact hvalid.1
  have hput := hsound.put hnot hsen { t.timerRbtree.mem ev with key := key }
  obtain ⟨s, u', hrun, hsound', hsen', hperm⟩ :=
    rbtreeInsert_sound hput hnot hsen hvalid.2 (Nat.lt_succ_self u.toList.length)
  rw [mem_put_self] at hperm
  refine ⟨_, (((steady_rbtreeInsert ev _).returns hrun).map _), ?_⟩
  refine ⟨hsen'.trans h.sentinel, ⟨u', hsound', ?_⟩, h.flag_update ev (some key)⟩
  intro a k
  rw [hperm.mem_iff, List.mem_cons, hu]
  by_cases ha : a = ev
  · subst ha
    rw [Function.update_self, hev]
    simp [eq_comm]
  · rw [Function.update_of_ne ha]
    simp [ha]

/-!
## Calls
-/

theorem Holds.del (h : Holds sentinel t m) (ev : Nat) :
    exists t', Returns (fun fuel => eventTimerDel fuel t ev) t' ∧
      Holds sentinel t' (Function.update m ev none) := by
  cases hev : m ev with
  | none =>
      have hset := h.unset hev
      refine ⟨t, ?_, ?_⟩
      · simp only [eventTimerDel, if_pos hset]
        exact returns_const t
      · rw [← hev, Function.update_eq_self]
        exact h
  | some key =>
      have hset : ¬ t.timerSet ev = false := by simp [h.set hev]
      obtain ⟨s, hrun, hholds⟩ := h.delete hev
      refine ⟨⟨s, Function.update t.timerSet ev false, t.timedout⟩, ?_,
        hholds _ rfl rfl⟩
      simp only [eventTimerDel, if_neg hset]
      exact hrun.map _

def addTo (m : Nat -> Option Int) (ev : Nat) (key : Int) : Nat -> Option Int :=
  match m ev with
  | none => Function.update m ev (some key)
  | some key' => if IsNear key key' then m else Function.update m ev (some key)

theorem Holds.add (h : Holds sentinel t m) (hvalid : IsEvent sentinel ev)
    (now timer : Int) :
    exists t', Returns (fun fuel => eventTimerAdd fuel now t ev timer) t' ∧
      Holds sentinel t' (addTo m ev (now + timer)) := by
  cases hev : m ev with
  | none =>
      have hset : ¬ t.timerSet ev = true := by simp [h.unset hev]
      obtain ⟨t', hrun, hholds⟩ := h.insert hev hvalid (now + timer)
      refine ⟨t', ?_, ?_⟩
      · simp only [eventTimerAdd, if_neg hset]
        exact hrun
      · simp only [addTo, hev]
        exact hholds
  | some key =>
      have hset := h.set hev
      have hkey := h.key_eq hev
      by_cases hnear : IsNear (now + timer) key
      · refine ⟨t, ?_, ?_⟩
        · simp only [eventTimerAdd, if_pos hset, hkey, if_pos hnear]
          exact returns_const t
        · simp only [addTo, hev, if_pos hnear]
          exact h
      · obtain ⟨t1, hdel, h1⟩ := h.del ev
        obtain ⟨t', hrun, hholds⟩ := h1.insert (Function.update_self ev none m) hvalid
          (now + timer)
        rw [Function.update_idem] at hholds
        refine ⟨t', ?_, ?_⟩
        · simp only [eventTimerAdd, if_pos hset, hkey, if_neg hnear]
          exact hdel.bind hrun
        · simp only [addTo, hev, if_neg hnear]
          exact hholds

def Call.Valid (sentinel : Nat) : Call -> Prop
  | Call.add _ ev _ => IsEvent sentinel ev
  | Call.del _ => True

def Call.apply (m : Nat -> Option Int) : Call -> Nat -> Option Int
  | Call.add now ev timer => addTo m ev (now + timer)
  | Call.del ev => Function.update m ev none

theorem Holds.call {c : Call} (h : Holds sentinel t m) (hc : c.Valid sentinel) :
    exists t', Returns (fun fuel => call fuel t c) t' ∧
      Holds sentinel t' (c.apply m) := by
  cases c with
  | add now ev timer => exact h.add hc now timer
  | del ev => exact h.del ev

/-!
## The least deadline
-/

theorem Holds.root_eq_sentinel (h : Holds sentinel t m) :
    t.timerRbtree.root = t.timerRbtree.sentinel ↔ forall a, m a = none := by
  obtain ⟨u, hsound, hu⟩ := h.tree
  obtain ⟨stale, hfocus⟩ := hsound.focus
  rw [hfocus.root_eq_sentinel]
  constructor
  · rintro rfl a
    cases ha : m a with
    | none => rfl
    | some k => cases (hu a k).mpr ha
  · intro hnone
    cases u with
    | leaf => rfl
    | node c l x r =>
        have hx := (hu x.addr x.key).mp (by simp [RbTree.toList])
        rw [hnone] at hx
        cases hx

theorem Holds.least (h : Holds sentinel t m)
    (hroot : ¬ t.timerRbtree.root = t.timerRbtree.sentinel) :
    exists ev key, m ev = some key ∧
      Returns (fun fuel => rbtreeMin fuel t.timerRbtree t.timerRbtree.root) ev ∧
      forall a k, m a = some k -> key ≤ k := by
  obtain ⟨u, hsound, hu⟩ := h.tree
  obtain ⟨stale, hfocus⟩ := hsound.focus
  have hleaf : u ≠ RbTree.leaf := fun heq => hroot (hfocus.root_eq_sentinel.mpr heq)
  obtain ⟨x, hx, hmin, -, hle⟩ := hsound.least hleaf (Nat.le_refl _)
  refine ⟨x.addr, x.key, (hu _ _).mp hx, (steady_rbtreeMin _ _).returns hmin, ?_⟩
  exact fun a k ha => hle ⟨a, k⟩ ((hu a k).mpr ha)

theorem Holds.check (h : Holds sentinel t m) (now : Int) :
    (Returns (fun fuel => checkTimers fuel now t) Finding.idle ∧
      forall a k, m a = some k -> now < k) ∨
    exists node key t',
      Returns (fun fuel => checkTimers fuel now t) (Finding.due node key t') ∧
      m node = some key ∧ key ≤ now ∧ (forall a k, m a = some k -> key ≤ k) ∧
      Holds sentinel t' (Function.update m node none) := by
  by_cases hroot : t.timerRbtree.root = t.timerRbtree.sentinel
  · refine Or.inl ⟨?_, ?_⟩
    · simp only [checkTimers, if_pos hroot]
      exact returns_const _
    · intro a k ha
      rw [h.root_eq_sentinel.mp hroot a] at ha
      cases ha
  · obtain ⟨node, key, hnode, hmin, hle⟩ := h.least hroot
    have hkey := h.key_eq hnode
    by_cases hdue : key ≤ now
    · obtain ⟨s, hrun, hholds⟩ := h.delete hnode
      refine Or.inr ⟨node, key, ⟨s, Function.update t.timerSet node false,
        Function.update t.timedout node true⟩, ?_, hnode, hdue, hle,
        hholds _ rfl rfl⟩
      simp only [checkTimers, if_neg hroot]
      refine hmin.bind ?_
      simp only [hkey, if_pos hdue]
      exact (hrun.map _).map _
    · refine Or.inl ⟨?_, ?_⟩
      · simp only [checkTimers, if_neg hroot]
        refine hmin.bind ?_
        simp only [hkey, if_neg hdue]
        exact returns_const _
      · intro a k ha
        have := hle a k ha
        omega

theorem Holds.find (h : Holds sentinel t m) (now : Int) :
    ((forall a, m a = none) ∧
      Returns (fun fuel => eventFindTimer fuel now t) eventTimerInfinite) ∨
    exists ev key, m ev = some key ∧ (forall a k, m a = some k -> key ≤ k) ∧
      Returns (fun fuel => eventFindTimer fuel now t)
        (if key - now > 0 then key - now else 0) := by
  by_cases hroot : t.timerRbtree.root = t.timerRbtree.sentinel
  · refine Or.inl ⟨h.root_eq_sentinel.mp hroot, ?_⟩
    simp only [eventFindTimer, if_pos hroot]
    exact returns_const _
  · obtain ⟨ev, key, hev, hmin, hle⟩ := h.least hroot
    refine Or.inr ⟨ev, key, hev, hle, ?_⟩
    rw [← h.key_eq hev]
    simp only [eventFindTimer, if_neg hroot]
    exact hmin.map _

end Timer
end NgxEpoll
