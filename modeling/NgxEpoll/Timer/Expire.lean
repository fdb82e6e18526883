import NgxEpoll.Timer.Flags
import Mathlib.Data.Int.Order.Basic

/-!
# Expiry

`event_timers_expire` at a time `now`, with handlers that delete timers and add
timers for later.  The loop reads the tree again in each turn; its log is a
trace of the map that the timers stand for, so that no more turns call a handler
than there were timers.
-/

namespace NgxEpoll
namespace Timer

open Foundation
open Rbtree

def Call.Future (now : Int) : Call -> Prop
  | Call.add now' _ timer => now' = now ∧ 0 < timer
  | Call.del _ => True

def Handlers.Future (now : Int) (handlers : Handlers) : Prop :=
  forall fired t c, c ∈ handlers fired t -> c.Future now

variable {sentinel : Nat} {t : EventTimer} {m m₀ : Nat -> Option Int} {now : Int}
  {p : Logged} {handlers : Handlers}

/-!
## Handlers
-/

theorem trace_add {ev : Nat} {timer : Int} {log : List (Act Nat Int)}
    (h : Holds sentinel t m) (htrace : Trace now m₀ log m) (htimer : 0 < timer) :
    Trace now m₀ (log ++ callLog t (Call.add now ev timer))
      (addTo m ev (now + timer)) := by
  have hlater : now < now + timer := by omega
  cases hev : m ev with
  | none =>
      have hset : ¬ t.timerSet ev = true := by simp [h.unset hev]
      simp only [callLog, if_neg hset, addTo, hev]
      exact htrace.snoc (Acts.add hev hlater)
  | some key =>
      have hset := h.set hev
      have hkey := h.key_eq hev
      by_cases hnear : IsNear (now + timer) key
      · simp only [callLog, if_pos hset, hkey, if_pos hnear, addTo, hev,
          List.append_nil]
        exact htrace
      · simp only [callLog, if_pos hset, hkey, if_neg hnear, addTo, hev]
        have hadd : Acts now (Function.update m ev none) (Act.add ev (now + timer)) _ :=
          Acts.add (Function.update_self ev none m) hlater
        rw [Function.update_idem] at hadd
        have hboth := (htrace.snoc (Acts.delete hev)).snoc hadd
        rw [List.append_assoc] at hboth
        exact hboth

theorem trace_call {c : Call} {log : List (Act Nat Int)} (h : Holds sentinel t m)
    (htrace : Trace now m₀ log m) (hc : c.Future now) :
    Trace now m₀ (log ++ callLog t c) (c.apply m) := by
  cases c with
  | add now' ev timer =>
      obtain ⟨rfl, htimer⟩ := hc
      exact trace_add h htrace htimer
  | del ev =>
      cases hev : m ev with
      | none =>
          have hset := h.unset hev
          rw [callLog, if_pos hset, List.append_nil, Call.apply, ← hev,
            Function.update_eq_self]
          exact htrace
      | some key =>
          have hset : ¬ t.timerSet ev = false := by simp [h.set hev]
          rw [callLog, if_neg hset]
          exact htrace.snoc (Acts.delete hev)

theorem fires_callLog (t : EventTimer) (c : Call) : fires (callLog t c) = [] := by
  cases c with
  | add now ev timer =>
      simp only [callLog]
      split
      · split <;> rfl
      · rfl
  | del ev =>
      simp only [callLog]
      split <;> rfl

theorem Holds.calls {cs : List Call} (h : Holds sentinel p.timers m)
    (htrace : Trace now m₀ p.log m)
    (hcs : forall c, c ∈ cs -> c.Valid sentinel ∧ c.Future now) :
    exists p' m', Returns (fun fuel => calls fuel p cs) p' ∧
      Holds sentinel p'.timers m' ∧ Trace now m₀ p'.log m' ∧
      fires p'.log = fires p.log := by
  induction cs generalizing p m with
  | nil => exact ⟨p, m, returns_const p, h, htrace, rfl⟩
  | cons c cs ih =>
      obtain ⟨hvalid, hfuture⟩ := hcs c List.mem_cons_self
      obtain ⟨t, hcall, ht⟩ := h.call hvalid
      have htrace' := trace_call h htrace hfuture
      obtain ⟨p', m', hcalls, hp', htrace'', hfires⟩ :=
        ih (p := ⟨t, p.log ++ callLog p.timers c⟩) ht htrace'
          (fun c' hc' => hcs c' (List.mem_cons_of_mem c hc'))
      refine ⟨p', m', hcall.bind hcalls, hp', htrace'', ?_⟩
      rw [hfires, fires_append, fires_callLog, List.append_nil]

/-!
## The loop
-/

/-- A turn of the loop finds no timer that is due, or it fires the one with the
least deadline. -/
theorem Holds.turn (h : Holds sentinel p.timers m) (htrace : Trace now m₀ p.log m)
    (hvalid : handlers.Valid sentinel) (hfuture : handlers.Future now) :
    ((exists N, forall fuel, N ≤ fuel ->
        expireTurn fuel (fun _ => now) handlers p = Turn.done (some p)) ∧
      forall a k, m a = some k -> now < k) ∨
    exists p' m', (exists N, forall fuel, N ≤ fuel ->
        expireTurn fuel (fun _ => now) handlers p = Turn.next p') ∧
      Holds sentinel p'.timers m' ∧ Trace now m₀ p'.log m' ∧
      (fires p'.log).length = (fires p.log).length + 1 := by
  rcases h.check now with
    ⟨⟨N, hN⟩, hlater⟩ | ⟨node, key, t, ⟨N, hN⟩, hnode, hdue, hleast, ht⟩
  · refine Or.inl ⟨⟨N, fun fuel hfuel => ?_⟩, hlater⟩
    simp only [expireTurn, hN fuel hfuel]
  · have htrace' := htrace.snoc (Acts.fire hnode hdue hleast)
    have hcs : forall c, c ∈ handlers (firedEvents (p.log ++ [Act.fire node key])) t ->
        c.Valid sentinel ∧ c.Future now :=
      fun c hc => ⟨hvalid _ _ c hc, hfuture _ _ c hc⟩
    obtain ⟨p', m', ⟨M, hM⟩, hp', htrace'', hfires⟩ :=
      Holds.calls (p := ⟨t, p.log ++ [Act.fire node key]⟩) ht htrace' hcs
    refine Or.inr ⟨p', m', ⟨N + M, fun fuel hfuel => ?_⟩, hp', htrace'', ?_⟩
    · simp only [expireTurn, hN fuel (by omega), handle, hM fuel (by omega)]
    · rw [hfires, fires_append, List.length_append]
      rfl

theorem iterate_idle (h : exists N, forall fuel, N ≤ fuel ->
      expireTurn fuel (fun _ => now) handlers p = Turn.done (some p)) :
    exists N, forall f g, N ≤ f -> N ≤ g ->
      iterate (expireTurn f (fun _ => now) handlers) (fun _ => none) g p =
        some p := by
  obtain ⟨N, hN⟩ := h
  refine ⟨N + 1, fun f g hf hg => ?_⟩
  obtain ⟨g, rfl⟩ : exists k, g = k + 1 := ⟨g - 1, by omega⟩
  simp only [iterate, hN f (by omega)]

/-- The loop ends when as many turns as there were timers have called a
handler. -/
theorem Holds.expire {as : List Nat} {left : Nat}
    (has : forall a k, m₀ a = some k -> a ∈ as) (h : Holds sentinel p.timers m)
    (htrace : Trace now m₀ p.log m) (hvalid : handlers.Valid sentinel)
    (hfuture : handlers.Future now)
    (hleft : as.length ≤ (fires p.log).length + left) :
    exists p' m', (exists N, forall f g, N ≤ f -> N ≤ g ->
        iterate (expireTurn f (fun _ => now) handlers) (fun _ => none) g p =
          some p') ∧
      Holds sentinel p'.timers m' ∧ Trace now m₀ p'.log m' ∧
      forall a k, m' a = some k -> now < k := by
  induction left generalizing p m with
  | zero =>
      rcases h.turn htrace hvalid hfuture with
        ⟨hidle, hlater⟩ | ⟨p', m', -, -, htrace', hfires⟩
      · exact ⟨p, m, iterate_idle hidle, h, htrace, hlater⟩
      · have hle := htrace'.length_fires_le has
        omega
  | succ left ih =>
      rcases h.turn htrace hvalid hfuture with
        ⟨hidle, hlater⟩ | ⟨p1, m1, ⟨N, hN⟩, h1, htrace1, hfires⟩
      · exact ⟨p, m, iterate_idle hidle, h, htrace, hlater⟩
      · obtain ⟨p', m', ⟨M, hM⟩, hp', htrace', hlater⟩ :=
          ih h1 htrace1 (by omega)
        refine ⟨p', m', ⟨N + M + 1, fun f g hf hg => ?_⟩, hp', htrace', hlater⟩
        obtain ⟨g, rfl⟩ : exists k, g = k + 1 := ⟨g - 1, by omega⟩
        simp only [iterate, hN f (by omega)]
        exact hM f g (by omega) (by omega)

/-!
## Runs
-/

/-- What `event_find_timer` returns when no timer is due. -/
def FindsLeast (now : Int) (t : EventTimer) : Prop :=
  exists r, Returns (fun fuel => eventFindTimer fuel now t) r ∧
    (r = eventTimerInfinite ↔ forall ev key, ¬ Armed t ev key) ∧
    (r ≠ eventTimerInfinite -> 0 < r ∧ exists ev key, Armed t ev key ∧
      r = key - now ∧ forall ev' key', Armed t ev' key' -> key ≤ key')

theorem Holds.findsLeast (h : Holds sentinel t m)
    (hlater : forall a k, m a = some k -> now < k) : FindsLeast now t := by
  rcases h.find now with ⟨hnone, hreturns⟩ | ⟨ev, key, hev, hle, hreturns⟩
  · refine ⟨_, hreturns, ?_, fun hne => absurd rfl hne⟩
    simp [h.armed_iff, hnone]
  · have hpos : key - now > 0 := by
      have := hlater ev key hev
      omega
    rw [if_pos hpos] at hreturns
    refine ⟨_, hreturns, ?_, fun _ => ⟨hpos, ev, key, h.armed_iff.mpr hev, rfl, ?_⟩⟩
    · constructor
      · intro heq
        rw [eventTimerInfinite] at heq
        omega
      · exact fun hnone => absurd (h.armed_iff.mpr hev) (hnone ev key)
    · exact fun ev' key' harmed => hle ev' key' (h.armed_iff.mp harmed)

theorem Holds.armed_eq (h : Holds sentinel t m) :
    Armed t = fun ev key => m ev = some key := by
  funext ev key
  exact propext h.armed_iff

/-- What `event_timers_expire` does to timers that a run has led to. -/
theorem expired_of_run {mem : Nat -> RbNode} (hsentinel : sentinel ≠ nullptr)
    (hrun : Reaches step Admits (eventTimerInit mem sentinel) t) (now : Int)
    (hvalid : handlers.Valid sentinel) (hfuture : handlers.Future now) :
    exists p,
      Returns (fun fuel => eventTimersExpire fuel (fun _ => now) handlers t) p ∧
      Expired now (Armed t) p.log (Armed p.timers) ∧ FindsLeast now p.timers := by
  obtain ⟨m, hm⟩ := kept_of_run hsentinel hrun
  obtain ⟨u, -, hu⟩ := hm.tree
  have has : forall a k, m a = some k -> a ∈ addrs u :=
    fun a k ha => List.mem_map_of_mem (f := Entry.addr) ((hu a k).mpr ha)
  obtain ⟨p, m', ⟨N, hN⟩, hp, htrace, hlater⟩ :=
    Holds.expire (p := ⟨t, []⟩) has hm Trace.nil hvalid hfuture
      (Nat.le_add_left _ _)
  refine ⟨p, ⟨N, fun fuel hfuel => hN fuel fuel hfuel hfuel⟩, ?_, hp.findsLeast hlater⟩
  rw [hm.armed_eq, hp.armed_eq]
  exact htrace.expired hlater

theorem expired_passedOn :
    exists t p, t.timerSet 5 = true ∧
      Returns (fun fuel => eventTimersExpire fuel (fun _ => 1500)
        (fun _ _ => [Call.add 1500 3 100]) t) p ∧
      Expired 1500 (Armed t) p.log (Armed p.timers) := by
  have hrun : Reaches step Admits (eventTimerInit numbered 1) _ :=
    (Reaches.refl _).oneLabel (a := Label.call 3 (Call.add 0 5 1000))
      ⟨by decide, by decide⟩ (by decide)
  let handlers : Handlers := fun _ _ => [Call.add 1500 3 100]
  have hvalid : handlers.Valid 1 := by
    intro _ _ c hc
    rw [List.mem_singleton.mp hc]
    exact ⟨by decide, by decide⟩
  have hfuture : handlers.Future 1500 := by
    intro _ _ c hc
    rw [List.mem_singleton.mp hc]
    exact ⟨rfl, by decide⟩
  obtain ⟨p, hreturns, hexpired, -⟩ :=
    expired_of_run (by decide) hrun 1500 hvalid hfuture
  exact ⟨_, p, by decide, hreturns, hexpired⟩

end Timer
end NgxEpoll
