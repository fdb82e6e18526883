import Mathlib.Data.List.Basic

/-!
# Loops

A `while` loop is a body that either leaves the loop with a result or
produces the next state.  The loop runs with the fuel its measure gives.  Where
every turn of the body lowers the measure the fuel is never used up, and
`loop_next` and `loop_done` are the unfolding equations of the source loop.
-/

namespace NgxEpoll
namespace Foundation

inductive Turn (state result : Type) where
  | next (s : state)
  | done (r : result)

variable {state result : Type}

/-- Where a turn goes on, its state meets `Next`; where it leaves, its result meets
`Done`. -/
def Turn.Meets (Next : state -> Prop) (Done : result -> Prop) : Turn state result -> Prop
  | Turn.next s => Next s
  | Turn.done r => Done r

theorem Turn.Meets.mono {Next Next' : state -> Prop} {Done Done' : result -> Prop}
    {t : Turn state result} (h : t.Meets Next Done) (hnext : forall s, Next s -> Next' s)
    (hdone : forall r, Done r -> Done' r) : t.Meets Next' Done' := by
  cases t with
  | next s => exact hnext s h
  | done r => exact hdone r h

theorem Turn.Meets.of_next {Next : state -> Prop} {Done : result -> Prop}
    {t : Turn state result} (h : t.Meets Next Done) {s : state} (ht : t = Turn.next s) :
    Next s := by
  rw [ht] at h
  exact h

theorem Turn.Meets.of_done {Next : state -> Prop} {Done : result -> Prop}
    {t : Turn state result} (h : t.Meets Next Done) {r : result} (ht : t = Turn.done r) :
    Done r := by
  rw [ht] at h
  exact h

def iterate (body : state -> Turn state result) (stuck : state -> result) :
    Nat -> state -> result
  | 0, s => stuck s
  | fuel + 1, s =>
      match body s with
      | Turn.done r => r
      | Turn.next s' => iterate body stuck fuel s'

theorem iterate_next {body : state -> Turn state result} {stuck : state -> result}
    {fuel : Nat} {s s' : state} (h : body s = Turn.next s') :
    iterate body stuck (fuel + 1) s = iterate body stuck fuel s' := by
  simp only [iterate, h]

theorem iterate_done {body : state -> Turn state result} {stuck : state -> result}
    {fuel : Nat} {s : state} {r : result} (h : body s = Turn.done r) :
    iterate body stuck (fuel + 1) s = r := by
  simp only [iterate, h]

theorem iterate_mono {body : state -> Turn state (Option result)}
    {fuel fuel' : Nat} {s : state} {r : result}
    (h : iterate body (fun _ => none) fuel s = some r) (hle : fuel ≤ fuel') :
    iterate body (fun _ => none) fuel' s = some r := by
  induction fuel generalizing s fuel' with
  | zero => cases h
  | succ fuel ih =>
      obtain ⟨fuel', rfl⟩ : exists k, fuel' = k + 1 := ⟨fuel' - 1, by omega⟩
      cases hbody : body s with
      | done r' =>
          simp only [iterate, hbody] at h ⊢
          exact h
      | next s' =>
          simp only [iterate, hbody] at h ⊢
          exact ih h (by omega)

/-!
## Results with enough fuel
-/

section Fuel

variable {α β : Type} {f : Nat -> Option α} {x y : α}

def Steady (f : Nat -> Option α) : Prop :=
  forall n n' x, f n = some x -> n ≤ n' -> f n' = some x

def Returns (f : Nat -> Option α) (x : α) : Prop :=
  exists N, forall n, N ≤ n -> f n = some x

theorem Steady.returns (hf : Steady f) {n : Nat} (h : f n = some x) : Returns f x :=
  ⟨n, fun n' hle => hf n n' x h hle⟩

theorem Returns.unique (h : Returns f x) (hf : Steady f) {n : Nat}
    (hn : f n = some y) : y = x := by
  obtain ⟨N, hN⟩ := h
  have hy := hf n (n + N) y hn (by omega)
  rw [hN (n + N) (by omega)] at hy
  exact (Option.some.inj hy).symm

theorem Returns.eq (h : Returns f x) (h' : Returns f y) : x = y := by
  obtain ⟨N, hN⟩ := h
  obtain ⟨M, hM⟩ := h'
  exact Option.some.inj ((hN (N + M) (by omega)).symm.trans (hM (N + M) (by omega)))

theorem steady_const (r : Option α) : Steady fun _ => r :=
  fun _ _ _ h _ => h

theorem returns_const (x : α) : Returns (fun _ => some x) x :=
  ⟨0, fun _ _ => rfl⟩

theorem Steady.bind {g : α -> Nat -> Option β} (hf : Steady f)
    (hg : forall x, Steady (g x)) : Steady fun n => (f n).bind fun x => g x n := by
  intro n n' y h hle
  obtain ⟨x, hx, hy⟩ := Option.bind_eq_some_iff.mp h
  simp only [hf n n' x hx hle, Option.bind_some]
  exact hg x n n' y hy hle

theorem Returns.bind {g : α -> Nat -> Option β} {y : β} (hf : Returns f x)
    (hg : Returns (g x) y) : Returns (fun n => (f n).bind fun x => g x n) y := by
  obtain ⟨N, hN⟩ := hf
  obtain ⟨M, hM⟩ := hg
  refine ⟨N + M, ?_⟩
  intro n hn
  simp only [hN n (by omega), Option.bind_some]
  exact hM n (by omega)

theorem Steady.map (hf : Steady f) (g : α -> β) : Steady fun n => (f n).map g := by
  intro n n' y h hle
  obtain ⟨x, hx, rfl⟩ := Option.map_eq_some_iff.mp h
  simp only [hf n n' x hx hle, Option.map_some]

theorem Returns.map (hf : Returns f x) (g : α -> β) :
    Returns (fun n => (f n).map g) (g x) := by
  obtain ⟨N, hN⟩ := hf
  refine ⟨N, fun n hn => ?_⟩
  simp only [hN n hn, Option.map_some]

end Fuel

def loop (measure : state -> Nat) (body : state -> Turn state result)
    (stuck : state -> result) (s : state) : result :=
  iterate body stuck (measure s + 1) s

/-- From states that meet `Inv`, every turn of the body lowers the measure and
keeps `Inv`. -/
def Lowers (Inv : state -> Prop) (measure : state -> Nat)
    (body : state -> Turn state result) : Prop :=
  forall s s', Inv s -> body s = Turn.next s' ->
    Inv s' ∧ measure s' < measure s

section Unfolding

variable {Inv : state -> Prop} {measure : state -> Nat}
  {body : state -> Turn state result}

theorem iterate_eq_of_lowers (hlow : Lowers Inv measure body)
    (stuck : state -> result) :
    forall (fuel : Nat) (s : state), Inv s -> measure s < fuel ->
      iterate body stuck fuel s = loop measure body stuck s := by
  intro fuel
  induction fuel using Nat.strongRecOn with
  | ind fuel ih =>
      intro s hinv hfuel
      cases fuel with
      | zero => omega
      | succ fuel =>
          unfold loop
          simp only [iterate]
          cases hbody : body s with
          | done r => rfl
          | next s' =>
              obtain ⟨hinv', hmeasure⟩ := hlow s s' hinv hbody
              simp only
              rw [ih fuel (by omega) s' hinv' (by omega)]
              by_cases hsame : measure s = fuel
              · rw [hsame, ih fuel (by omega) s' hinv' (by omega)]
              · rw [ih (measure s) (by omega) s' hinv' hmeasure]

theorem loop_done (stuck : state -> result) {s : state} {r : result}
    (hbody : body s = Turn.done r) : loop measure body stuck s = r := by
  unfold loop
  simp only [iterate, hbody]

theorem loop_next (hlow : Lowers Inv measure body) (stuck : state -> result)
    {s s' : state} (hinv : Inv s) (hbody : body s = Turn.next s') :
    loop measure body stuck s = loop measure body stuck s' := by
  obtain ⟨hinv', hmeasure⟩ := hlow s s' hinv hbody
  rw [← iterate_eq_of_lowers hlow stuck (measure s) s' hinv' hmeasure]
  unfold loop
  simp only [iterate, hbody]

theorem loop_induction (hlow : Lowers Inv measure body)
    (stuck : state -> result) (P : state -> result -> Prop)
    (hdone : forall s r, Inv s -> body s = Turn.done r -> P s r)
    (hnext : forall s s' r, Inv s -> body s = Turn.next s' -> P s' r -> P s r)
    {s : state} (hinit : Inv s) : P s (loop measure body stuck s) := by
  induction hm : measure s using Nat.strongRecOn generalizing s with
  | ind m ih =>
      cases hbody : body s with
      | done r =>
          rw [loop_done stuck hbody]
          exact hdone s r hinit hbody
      | next s' =>
          rw [loop_next hlow stuck hinit hbody]
          obtain ⟨hinv', hmeasure⟩ := hlow s s' hinit hbody
          exact hnext s s' _ hinit hbody (ih (measure s') (by omega) hinv' rfl)

/-- The rule of total correctness: the loop is left, in a state that its
invariant describes. -/
theorem loop_rule (hlow : Lowers Inv measure body) (stuck : state -> result)
    (Post : result -> Prop)
    (hdone : forall s r, Inv s -> body s = Turn.done r -> Post r)
    {s : state} (hinit : Inv s) : Post (loop measure body stuck s) :=
  loop_induction hlow stuck (fun _ r => Post r) hdone (fun _ _ _ _ _ h => h)
    hinit

theorem loop_meets (stuck : state -> result) (Post : result -> Prop)
    (hturn : forall s, Inv s ->
      (body s).Meets (fun s' => Inv s' ∧ measure s' < measure s) Post)
    {s : state} (hinit : Inv s) : Post (loop measure body stuck s) :=
  loop_rule (fun s _ hs hbody => (hturn s hs).of_next hbody) stuck Post
    (fun s _ hs hbody => (hturn s hs).of_done hbody) hinit

end Unfolding

/-!
## The states a loop goes through
-/

inductive Turns (body : state -> Turn state result) : state -> state -> Prop where
  | refl (s : state) : Turns body s s
  | tail {s t u : state} : Turns body s t -> body t = Turn.next u -> Turns body s u

theorem Turns.keeps {body : state -> Turn state result} (Inv : state -> Prop)
    (hnext : forall s s', Inv s -> body s = Turn.next s' -> Inv s') {s t : state}
    (h : Turns body s t) (hinit : Inv s) : Inv t := by
  induction h with
  | refl => exact hinit
  | tail _ hbody ih => exact hnext _ _ ih hbody

theorem Turns.trans {body : state -> Turn state result} {s t u : state}
    (h : Turns body s t) (h' : Turns body t u) : Turns body s u := by
  induction h' with
  | refl => exact h
  | tail _ hbody ih => exact Turns.tail ih hbody

theorem Turns.one {body : state -> Turn state result} {s t : state}
    (hbody : body s = Turn.next t) : Turns body s t :=
  Turns.tail (Turns.refl s) hbody

theorem loop_turns {Inv : state -> Prop} {measure : state -> Nat}
    {body : state -> Turn state result} (hlow : Lowers Inv measure body)
    (stuck : state -> result) {s t : state} (h : Turns body s t) (hinit : Inv s) :
    loop measure body stuck s = loop measure body stuck t := by
  induction h with
  | refl => rfl
  | tail h hbody ih =>
      rw [ih]
      refine loop_next hlow stuck ?_ hbody
      exact h.keeps Inv (fun s s' hs hturn => (hlow s s' hs hturn).1) hinit

/-- From `s` on the loop does not turn for ever. -/
def Leaves (body : state -> Turn state result) (s : state) : Prop :=
  Acc (fun t' t => body t = Turn.next t') s

theorem Lowers.leaves {Inv : state -> Prop} {measure : state -> Nat}
    {body : state -> Turn state result} (hlow : Lowers Inv measure body) {s : state}
    (hinit : Inv s) : Leaves body s := by
  induction hm : measure s using Nat.strongRecOn generalizing s with
  | ind m ih =>
      constructor
      intro s' hbody
      obtain ⟨hinv', hmeasure⟩ := hlow s s' hinit hbody
      exact ih (measure s') (by omega) hinv' rfl

theorem iterate_keeps {body : state -> Turn state (Option result)}
    (Inv : state -> Prop) (Post : result -> Prop)
    (hnext : forall s s', Inv s -> body s = Turn.next s' -> Inv s')
    (hdone : forall s r, Inv s -> body s = Turn.done (some r) -> Post r)
    {fuel : Nat} {s : state} {r : result} (hinit : Inv s)
    (h : iterate body (fun _ => none) fuel s = some r) : Post r := by
  induction fuel generalizing s with
  | zero => cases h
  | succ fuel ih =>
      cases hbody : body s with
      | done r' =>
          simp only [iterate, hbody] at h
          subst h
          exact hdone s r hinit hbody
      | next s' =>
          simp only [iterate, hbody] at h
          exact ih (hnext s s' hinit hbody) h

/-- The invariant rule with a fact that every turn establishes: fuel can run out
only after a turn. -/
theorem loop_keeps_turned (measure : state -> Nat)
    {body : state -> Turn state result} {stuck : state -> result}
    (Inv Turned : state -> Prop) (Post : result -> Prop)
    (hnext : forall s s', Inv s -> body s = Turn.next s' -> Inv s' ∧ Turned s')
    (hdone : forall s r, Inv s -> body s = Turn.done r -> Post r)
    (hstuck : forall s, Inv s -> Turned s -> Post (stuck s))
    {s : state} (hinit : Inv s) : Post (loop measure body stuck s) := by
  have hiterate : forall (fuel : Nat) (s : state), Inv s ->
      (fuel = 0 -> Turned s) -> Post (iterate body stuck fuel s) := by
    intro fuel
    induction fuel with
    | zero =>
        intro s hs hturned
        exact hstuck s hs (hturned rfl)
    | succ fuel ih =>
        intro s hs _
        simp only [iterate]
        cases hbody : body s with
        | done r => exact hdone s r hs hbody
        | next s' =>
            obtain ⟨hs', hturned⟩ := hnext s s' hs hbody
            exact ih s' hs' (fun _ => hturned)
  exact hiterate _ s hinit (fun h => absurd h (Nat.succ_ne_zero _))

theorem loop_keeps (measure : state -> Nat)
    {body : state -> Turn state result} {stuck : state -> result}
    (Inv : state -> Prop) (Post : result -> Prop)
    (hnext : forall s s', Inv s -> body s = Turn.next s' -> Inv s')
    (hdone : forall s r, Inv s -> body s = Turn.done r -> Post r)
    (hstuck : forall s, Inv s -> Post (stuck s))
    {s : state} (hinit : Inv s) : Post (loop measure body stuck s) :=
  loop_keeps_turned measure Inv (fun _ => True) Post
    (fun s s' hs hbody => ⟨hnext s s' hs hbody, trivial⟩) hdone
    (fun s hs _ => hstuck s hs) hinit

theorem loop_keeps_meets (measure : state -> Nat)
    {body : state -> Turn state result} {stuck : state -> result}
    (Inv : state -> Prop) (Post : result -> Prop)
    (hturn : forall s, Inv s -> (body s).Meets Inv Post)
    (hstuck : forall s, Inv s -> Post (stuck s))
    {s : state} (hinit : Inv s) : Post (loop measure body stuck s) :=
  loop_keeps measure Inv Post (fun s _ hs hbody => (hturn s hs).of_next hbody)
    (fun s _ hs hbody => (hturn s hs).of_done hbody) hstuck hinit

end Foundation
end NgxEpoll
