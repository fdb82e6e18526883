import NgxEpoll.Foundation.Runs
import NgxEpoll.Locks.Atomic
import NgxEpoll.Strings.Pieces
import NgxEpoll.Time.Gmtime

/-!
# The time in the log

`time_update` of `dn_time.cpp`, called by any number of threads, and what those read that
hold the address that `time_logstr` gave them.  Addresses count from `dfs_cache_log_time`.

## Readings
-/

namespace NgxEpoll
namespace Time

open Foundation
open NgxEpoll.Core
open Strings

/-- What `localtime_r` leaves, with the two additions of `time_localtime`, for the years of
four digits. -/
structure Printable (tm : Tm) : Prop where
  year : 0 ≤ tm.year ∧ tm.year < 10000
  mon : 1 ≤ tm.mon ∧ tm.mon ≤ 12
  mday : 1 ≤ tm.mday ∧ tm.mday ≤ 31
  hour : 0 ≤ tm.hour ∧ tm.hour ≤ 23
  min : 0 ≤ tm.min ∧ tm.min ≤ 59
  sec : 0 ≤ tm.sec ∧ tm.sec ≤ 60

structure Reading (localtime : Int -> Tm) where
  sec : Int
  usec : Int
  usec_bounds : 0 ≤ usec ∧ usec < 1000000
  printable : Printable (localtime sec)

def logText (tm : Tm) (msec : Nat) : List Byte :=
  let two := fun n : Int => decimalText (ascii "02") n.toNat
  decimalText (ascii "4") tm.year.toNat ++ (ascii "/" ++ (two tm.mon ++ (ascii "/" ++
    (two tm.mday ++ (ascii " " ++ (two tm.hour ++ (ascii ":" ++ (two tm.min ++ (ascii ":" ++
      (two tm.sec ++ (ascii "." ++ decimalText (ascii "04") msec)))))))))))

section

variable {localtime : Int -> Tm}

def Reading.text (r : Reading localtime) : List Byte :=
  logText (localtime r.sec) (r.usec / 1000).toNat

def msecOf (sec usec : Int) : Int :=
  sec * 1000 + usec / 1000

def Reading.msec (r : Reading localtime) : Int :=
  msecOf r.sec r.usec

end

/-!
## The function
-/

def cacheTimeSlot : Nat := 64

def rowSize : Nat := 20

/-- What the lock protects.  `log` lists the readings whose texts were published, and
`started` counts the texts that were begun. -/
structure Cached (localtime : Int -> Tm) where
  slot : BitVec 32
  sec : Int
  usec : Int
  currentMsec : Int
  mem : Mem
  data : Option Nat
  log : List (Reading localtime)
  started : Nat

inductive SectionPc (localtime : Int -> Tm) where
  | entered
  | stamped (r : Reading localtime)
  | late (r : Reading localtime)
  | writing (r : Reading localtime) (k : Nat)

def Cached.row {localtime : Int -> Tm} (c : Cached localtime) : Nat :=
  c.slot.toNat * rowSize

/-- The next access of a thread that has the lock, while the clock shows `now`. -/
def sectionGo {localtime : Int -> Tm} (c : Cached localtime) (now : Reading localtime) :
    SectionPc localtime -> Cached localtime × Option (SectionPc localtime)
  | SectionPc.entered => ({ c with currentMsec := now.msec }, some (SectionPc.stamped now))
  | SectionPc.stamped r =>
      if c.currentMsec - msecOf c.sec c.usec < 10 then (c, none)
      else (c, some (SectionPc.late r))
  | SectionPc.late r =>
      ({ c with slot := (c.slot + 1) ^^^ BitVec.ofNat 32 (cacheTimeSlot - 1)
                sec := r.sec
                usec := r.usec
                started := c.started + 1 }, some (SectionPc.writing r 0))
  | SectionPc.writing r k =>
      match (r.text ++ [0])[k]? with
      | some b =>
          ({ c with mem := store c.mem (c.row + k) [b] }, some (SectionPc.writing r (k + 1)))
      | none => ({ c with data := some c.row, log := c.log ++ [r] }, none)

/-- Where a thread is.  `trying` is `dfs_time_trylock` between its test and its `CAS`. -/
inductive UpdatePc (localtime : Int -> Tm) where
  | idle
  | trying
  | inside (p : SectionPc localtime)
  | leaving

structure Updating (thread : Type) (localtime : Int -> Tm) where
  lock : Nat
  shared : Cached localtime
  pcs : thread -> UpdatePc localtime

section System

variable {thread : Type} {localtime : Int -> Tm} [DecidableEq thread]

def Updating.goTo (s : Updating thread localtime) (i : thread) (pc : UpdatePc localtime) :
    Updating thread localtime :=
  { s with pcs := Function.update s.pcs i pc }

inductive UpdateMove (localtime : Int -> Tm) where
  | update
  | go (now : Reading localtime)

def updateStep (s : Updating thread localtime) (l : thread × UpdateMove localtime) :
    Option (Updating thread localtime) :=
  match l.2 with
  | UpdateMove.update =>
      match s.pcs l.1 with
      | UpdatePc.idle => if s.lock = 0 then some (s.goTo l.1 UpdatePc.trying) else some s
      | _ => none
  | UpdateMove.go now =>
      match s.pcs l.1 with
      | UpdatePc.idle => none
      | UpdatePc.trying =>
          match Locks.cas s.lock 0 1 with
          | (lock, true) =>
              some ({ s with lock := lock }.goTo l.1 (UpdatePc.inside SectionPc.entered))
          | (lock, false) => some ({ s with lock := lock }.goTo l.1 UpdatePc.idle)
      | UpdatePc.inside p =>
          match sectionGo s.shared now p with
          | (shared, some p') => some ({ s with shared := shared }.goTo l.1 (UpdatePc.inside p'))
          | (shared, none) => some ({ s with shared := shared }.goTo l.1 UpdatePc.leaving)
      | UpdatePc.leaving => some ({ s with lock := 0 }.goTo l.1 UpdatePc.idle)

/-- The state in `time_init` before its call. -/
def updateInit (thread : Type) (localtime : Int -> Tm) (mem : Mem) :
    Updating thread localtime where
  lock := 0
  shared :=
    { slot := 0, sec := 0, usec := 0, currentMsec := 0, mem := mem, data := none, log := []
      started := 0 }
  pcs := fun _ => UpdatePc.idle

end System

/-!
## Rows
-/

variable {localtime : Int -> Tm}

theorem length_decimalText {ds : List Byte} {k n : Nat} (hk : 0 < k)
    (hwidth : decimalValue ds % 2 ^ 32 = k) (hn : n < 10 ^ k) :
    (decimalText ds n).length = k := by
  have hle : (ascii (Nat.repr n)).length ≤ k := by
    unfold ascii
    rw [List.length_map, Nat.toList_repr]
    exact (Nat.length_toDigits_le_iff (by decide) hk).mpr hn
  unfold decimalText padded
  rw [hwidth, List.length_append, List.length_replicate]
  omega

theorem Reading.length_text (r : Reading localtime) : r.text.length = 24 := by
  have h := r.printable
  have hyear := h.year
  have hmon := h.mon
  have hmday := h.mday
  have hhour := h.hour
  have hmin := h.min
  have hsec := h.sec
  have husec := r.usec_bounds
  have htwo : forall n : Int, n < 100 -> (decimalText (ascii "02") n.toNat).length = 2 :=
    fun n hn => length_decimalText (by decide) (by decide) (by omega)
  unfold Reading.text logText
  dsimp only
  simp only [List.length_append]
  rw [length_decimalText (show 0 < 4 by decide) (by decide) (by omega), htwo _ (by omega),
    htwo _ (by omega), htwo _ (by omega), htwo _ (by omega), htwo _ (by omega),
    length_decimalText (show 0 < 4 by decide) (by decide) (by omega)]
  rfl

def rowOf (n : Nat) : Nat :=
  n % 2 * (62 * rowSize)

/-- What holds of the times and the texts at any time. -/
structure Base (mem : Mem) (c : Cached localtime) : Prop where
  slot : c.slot = BitVec.ofNat 32 (c.started % 2 * 62)
  outside : forall a, cacheTimeSlot * rowSize ≤ a -> c.mem a = mem a
  data : c.data = if c.log = [] then none else some (rowOf c.log.length)
  kept : forall n r, c.log[n]? = some r -> c.started ≤ n + 2 ->
    load c.mem (rowOf (n + 1)) 25 = r.text ++ [0]
  spaced : c.log.Pairwise fun r r' => r.msec + 10 ≤ r'.msec
  behind : forall r, r ∈ c.log -> r.msec ≤ msecOf c.sec c.usec

def Settled (c : Cached localtime) : Prop :=
  c.started = c.log.length

structure Writing (c : Cached localtime) (r : Reading localtime) (k : Nat) : Prop where
  started : c.started = c.log.length + 1
  le : k ≤ 25
  bytes : load c.mem (rowOf c.started) k = (r.text ++ [0]).take k
  sec : c.sec = r.sec
  usec : c.usec = r.usec
  later : forall r', r' ∈ c.log -> r'.msec + 10 ≤ r.msec

def Fits (c : Cached localtime) : SectionPc localtime -> Prop
  | SectionPc.entered => Settled c
  | SectionPc.stamped r => Settled c ∧ c.currentMsec = r.msec
  | SectionPc.late r => Settled c ∧ msecOf c.sec c.usec + 10 ≤ r.msec
  | SectionPc.writing r k => Writing c r k

variable {mem : Mem} {c c' : Cached localtime} {r now : Reading localtime} {k : Nat}

theorem Base.row (h : Base mem c) : c.row = rowOf c.started := by
  have hmod := Nat.mod_lt c.started (show 0 < 2 by decide)
  unfold Cached.row rowOf
  rw [h.slot, BitVec.toNat_ofNat, Nat.mod_eq_of_lt (by omega), Nat.mul_assoc]

theorem rowOf_inside (n : Nat) : rowOf n + 25 ≤ cacheTimeSlot * rowSize := by
  have hmod := Nat.mod_lt n (show 0 < 2 by decide)
  unfold rowOf cacheTimeSlot rowSize
  omega

theorem rowOf_apart (n : Nat) {k : Nat} (hk : k < 25) :
    Apart (rowOf (n + 1)) 25 (rowOf (n + 2) + k) 1 := by
  unfold Apart rowOf rowSize
  omega

theorem slot_next {n : Nat} : (BitVec.ofNat 32 (n % 2 * 62) + 1) ^^^
    BitVec.ofNat 32 (cacheTimeSlot - 1) = BitVec.ofNat 32 ((n + 1) % 2 * 62) := by
  rcases Nat.mod_two_eq_zero_or_one n with hzero | hone
  · rw [hzero, show (n + 1) % 2 = 1 by omega]
    decide
  · rw [hone, show (n + 1) % 2 = 0 by omega]
    decide

theorem Base.begin (h : Base mem c) (hsettled : Settled c)
    (hlate : msecOf c.sec c.usec + 10 ≤ r.msec) :
    Base mem (sectionGo c now (SectionPc.late r)).1 ∧
      Writing (sectionGo c now (SectionPc.late r)).1 r 0 := by
  constructor
  · constructor
    case slot =>
      show (c.slot + 1) ^^^ _ = _
      rw [h.slot]
      exact slot_next
    case outside => exact h.outside
    case data => exact h.data
    case kept =>
      intro n r' hr' hle
      exact h.kept n r' hr' (Nat.le_of_succ_le hle)
    case spaced => exact h.spaced
    case behind =>
      intro r' hr'
      have hle := h.behind r' hr'
      show r'.msec ≤ r.msec
      omega
  · constructor
    case started => exact congrArg (· + 1) hsettled
    case le => exact Nat.zero_le _
    case bytes => rfl
    case sec => rfl
    case usec => rfl
    case later =>
      intro r' hr'
      have hle := h.behind r' hr'
      omega

theorem Base.put (h : Base mem c) (hw : Writing c r k) {b : Byte}
    (hb : (r.text ++ [0])[k]? = some b) :
    Base mem { c with mem := store c.mem (c.row + k) [b] } ∧
      Writing { c with mem := store c.mem (c.row + k) [b] } r (k + 1) := by
  have hk : k < 25 := by
    have hlt := (List.getElem?_eq_some_iff.mp hb).1
    rw [List.length_append, r.length_text] at hlt
    exact hlt
  have hrow := rowOf_inside c.started
  rw [h.row]
  constructor
  · refine { h with outside := ?outside, kept := ?kept }
    case outside =>
      intro a ha
      show store c.mem (rowOf c.started + k) [b] a = mem a
      rw [store_apply_outside _ _ _ _ (Or.inr (by rw [List.length_singleton]; omega))]
      exact h.outside a ha
    case kept =>
      intro n r' hr' hle
      have hlt : n < c.log.length := (List.getElem?_eq_some_iff.mp hr').1
      have hle' : c.started ≤ n + 2 := hle
      have hnext : c.started = n + 2 := by
        have hstarted := hw.started
        omega
      rw [load_store_of_apart _ _ _ _ _ (by rw [hnext]; exact rowOf_apart n hk)]
      exact h.kept n r' hr' hle
  · refine { hw with le := hk, bytes := ?bytes }
    show load (store c.mem (rowOf c.started + k) [b]) (rowOf c.started) (k + 1) = _
    rw [load_add, load_store_of_apart _ _ _ _ _ (Or.inr (Or.inr (Or.inl (Nat.le_refl _)))),
      hw.bytes, List.take_add_one, hb]
    congr 1
    exact load_store_self c.mem _ [b]

theorem Base.publish (h : Base mem c) (hw : Writing c r k) (hend : (r.text ++ [0])[k]? = none) :
    Base mem { c with data := some c.row, log := c.log ++ [r] } ∧
      Settled { c with data := some c.row, log := c.log ++ [r] } := by
  have hk : k = 25 := by
    have hle := List.getElem?_eq_none_iff.mp hend
    rw [List.length_append, r.length_text] at hle
    exact Nat.le_antisymm hw.le hle
  subst hk
  have hlength : (c.log ++ [r]).length = c.started := by
    rw [List.length_append, hw.started]
    rfl
  refine ⟨?_, hlength.symm⟩
  refine { h with data := ?data, kept := ?kept, spaced := ?spaced, behind := ?behind }
  case data =>
    show some c.row = if c.log ++ [r] = [] then none else some (rowOf (c.log ++ [r]).length)
    rw [if_neg (List.append_ne_nil_of_right_ne_nil _ (List.cons_ne_nil r [])), h.row, hlength]
  case kept =>
    intro n r' hr' hle
    have hr' : (c.log ++ [r])[n]? = some r' := hr'
    rcases Nat.lt_or_ge n c.log.length with hlt | hge
    · rw [List.getElem?_append_left hlt] at hr'
      exact h.kept n r' hr' hle
    · have hlt := (List.getElem?_eq_some_iff.mp hr').1
      rw [hlength, hw.started] at hlt
      have hn : n = c.log.length := by omega
      subst hn
      rw [List.getElem?_concat_length] at hr'
      cases hr'
      have hbytes := hw.bytes
      rw [hw.started, List.take_of_length_le (by rw [List.length_append, r.length_text]; rfl)]
        at hbytes
      exact hbytes
  case spaced =>
    refine List.pairwise_append.mpr ⟨h.spaced, List.pairwise_singleton _ r, ?_⟩
    intro r' hr' r'' hr''
    rw [List.mem_singleton] at hr''
    exact hr'' ▸ hw.later r' hr'
  case behind =>
    intro r' hr'
    rcases List.mem_append.mp hr' with hold | hnew
    · exact h.behind r' hold
    · rw [List.mem_singleton] at hnew
      subst hnew
      show r'.msec ≤ msecOf c.sec c.usec
      rw [hw.sec, hw.usec]
      exact Int.le_refl _

def Behind (c : Cached localtime) : Option (SectionPc localtime) -> Prop
  | some p => Fits c p
  | none => Settled c

/-- Every access of a thread that has the lock keeps the texts, and the thread leaves when no
text is being written. -/
theorem section_keeps (h : Base mem c) {p : SectionPc localtime} (hfits : Fits c p)
    {p' : Option (SectionPc localtime)} (hgo : sectionGo c now p = (c', p')) :
    Base mem c' ∧ Behind c' p' := by
  cases p with
  | entered =>
      cases hgo
      exact ⟨{ h with }, hfits, rfl⟩
  | stamped r =>
      simp only [sectionGo] at hgo
      split at hgo
      next =>
        cases hgo
        exact ⟨h, hfits.1⟩
      next hlate =>
        cases hgo
        rw [hfits.2] at hlate
        refine ⟨h, hfits.1, ?_⟩
        omega
  | late r =>
      have hbegin := @Base.begin localtime mem c r now h hfits.1 hfits.2
      cases hgo
      exact hbegin
  | writing r k =>
      simp only [sectionGo] at hgo
      split at hgo
      next b hb =>
        cases hgo
        exact h.put hfits hb
      next hend =>
        cases hgo
        exact h.publish hfits hend

/-!
## Threads
-/

variable {thread : Type} [DecidableEq thread]

def UpdatePc.Holds : UpdatePc localtime -> Prop
  | UpdatePc.inside _ => True
  | UpdatePc.leaving => True
  | _ => False

structure Alone (s : Updating thread localtime) : Prop where
  free : s.lock = 0 -> forall i, ¬ (s.pcs i).Holds
  taken : s.lock ≠ 0 -> exists i, (s.pcs i).Holds
  one : forall i j, (s.pcs i).Holds -> (s.pcs j).Holds -> i = j

variable {s s' : Updating thread localtime} {i : thread} {pc : UpdatePc localtime}

theorem update_self : (s.goTo i pc).pcs i = pc := by
  simp only [Updating.goTo, Function.update_self]

theorem update_other {j : thread} (h : j ≠ i) : (s.goTo i pc).pcs j = s.pcs j := by
  simp only [Updating.goTo, Function.update_of_ne h]

theorem Alone.stays (h : Alone s) (hsame : pc.Holds ↔ (s.pcs i).Holds)
    (c : Cached localtime) : Alone ({ s with shared := c }.goTo i pc) := by
  have hholds : forall j, (({ s with shared := c }.goTo i pc).pcs j).Holds ↔
      (s.pcs j).Holds := by
    intro j
    rcases eq_or_ne j i with rfl | hne
    · rw [update_self]
      exact hsame
    · rw [update_other hne]
  constructor
  · intro hfree j hj
    exact h.free hfree j ((hholds j).mp hj)
  · intro htaken
    obtain ⟨j, hj⟩ := h.taken htaken
    exact ⟨j, (hholds j).mpr hj⟩
  · intro j k hj hk
    exact h.one j k ((hholds j).mp hj) ((hholds k).mp hk)

theorem Alone.take (h : Alone s) (hfree : s.lock = 0) (hpc : pc.Holds) :
    Alone ({ s with lock := 1 }.goTo i pc) := by
  have honly : forall j, (({ s with lock := 1 }.goTo i pc).pcs j).Holds -> j = i := by
    intro j hj
    by_contra hne
    rw [update_other hne] at hj
    exact h.free hfree j hj
  constructor
  · intro hbad
    exact absurd hbad Nat.one_ne_zero
  · intro _
    exact ⟨i, by rw [update_self]; exact hpc⟩
  · intro j k hj hk
    rw [honly j hj, honly k hk]

theorem Alone.leave (h : Alone s) (hi : (s.pcs i).Holds) :
    Alone ({ s with lock := 0 }.goTo i UpdatePc.idle) := by
  have hnone : forall j, ¬ (({ s with lock := 0 }.goTo i UpdatePc.idle).pcs j).Holds := by
    intro j hj
    rcases eq_or_ne j i with rfl | hne
    · rw [update_self] at hj
      exact hj
    · rw [update_other hne] at hj
      exact hne (h.one j i hj hi)
  constructor
  · exact fun _ => hnone
  · intro hbad
    exact absurd rfl hbad
  · intro j k hj
    exact absurd hj (hnone j)

structure Sound (mem : Mem) (s : Updating thread localtime) : Prop extends Alone s where
  base : Base mem s.shared
  fits : forall i p, s.pcs i = UpdatePc.inside p -> Fits s.shared p
  settled : (forall i p, s.pcs i ≠ UpdatePc.inside p) -> Settled s.shared

omit [DecidableEq thread] in
theorem sound_updateInit (mem : Mem) : Sound mem (updateInit thread localtime mem) := by
  constructor
  case toAlone =>
    constructor
    · exact fun _ _ h => h
    · intro h
      exact absurd rfl h
    · intro i j hi
      exact absurd hi id
  case base =>
    constructor
    · rfl
    · exact fun _ _ => rfl
    · rfl
    · intro n r hr
      cases hr
    · exact List.Pairwise.nil
    · intro r hr
      cases hr
  case fits =>
    intro i p hp
    cases hp
  case settled => exact fun _ => rfl

theorem Sound.outside (h : Sound mem s) (hold : forall p, s.pcs i ≠ UpdatePc.inside p)
    (hnew : forall p, pc ≠ UpdatePc.inside p) {lock : Nat}
    (halone : Alone ({ s with lock := lock }.goTo i pc)) :
    Sound mem ({ s with lock := lock }.goTo i pc) := by
  refine { halone with base := h.base, fits := ?fits, settled := ?settled }
  case fits =>
    intro j p hj
    rcases eq_or_ne j i with rfl | hne
    · rw [update_self] at hj
      exact absurd hj (hnew p)
    · rw [update_other hne] at hj
      exact h.fits j p hj
  case settled =>
    intro hnone
    refine h.settled fun j p hj => ?_
    rcases eq_or_ne j i with rfl | hne
    · exact hold p hj
    · exact hnone j p (by rw [update_other hne]; exact hj)

theorem Sound.enter (h : Sound mem s) (hfree : s.lock = 0) :
    Sound mem ({ s with lock := 1 }.goTo i (UpdatePc.inside SectionPc.entered)) := by
  have hnone : forall j p, s.pcs j ≠ UpdatePc.inside p := by
    intro j p hj
    exact h.free hfree j (by rw [hj]; trivial)
  have hholds : (@UpdatePc.inside localtime SectionPc.entered).Holds := trivial
  refine { h.toAlone.take hfree hholds with base := h.base, fits := ?fits, settled := ?settled }
  case fits =>
    intro j p hj
    rcases eq_or_ne j i with rfl | hne
    · rw [update_self] at hj
      cases hj
      exact h.settled hnone
    · rw [update_other hne] at hj
      exact absurd hj (hnone j p)
  case settled => exact fun _ => h.settled hnone

theorem Sound.access (h : Sound mem s) {p : SectionPc localtime}
    (hi : s.pcs i = UpdatePc.inside p) {p' : Option (SectionPc localtime)}
    (hgo : sectionGo s.shared now p = (c', p'))
    (hpc : pc = match p' with
      | some q => UpdatePc.inside q
      | none => UpdatePc.leaving) :
    Sound mem ({ s with shared := c' }.goTo i pc) := by
  obtain ⟨hbase, hbehind⟩ := section_keeps h.base (h.fits i p hi) hgo
  have hholds : (s.pcs i).Holds := by
    rw [hi]
    trivial
  have halone : forall j q, j ≠ i -> s.pcs j ≠ UpdatePc.inside q := by
    intro j q hne hj
    exact hne (h.one j i (by rw [hj]; trivial) hholds)
  have hnew : pc.Holds := by
    cases p' with
    | none => exact hpc ▸ trivial
    | some q => exact hpc ▸ trivial
  refine { h.toAlone.stays (iff_of_true hnew hholds) c' with
    base := hbase, fits := ?fits, settled := ?settled }
  case fits =>
    intro j q hj
    rcases eq_or_ne j i with rfl | hne
    · rw [update_self] at hj
      cases p' with
      | none =>
          rw [hpc] at hj
          cases hj
      | some q' =>
          rw [hpc] at hj
          cases hj
          exact hbehind
    · rw [update_other hne] at hj
      exact absurd hj (halone j q hne)
  case settled =>
    intro hnone
    cases p' with
    | none => exact hbehind
    | some q => exact absurd (by rw [update_self, hpc]) (hnone i q)

theorem step_sound {l : thread × UpdateMove localtime} (h : Sound mem s)
    (hstep : updateStep s l = some s') : Sound mem s' := by
  rcases l with ⟨i, move⟩
  cases move with
  | update =>
      unfold updateStep at hstep
      dsimp only at hstep
      cases hpc : s.pcs i with
      | idle =>
          rw [hpc] at hstep
          dsimp only at hstep
          split at hstep
          · cases hstep
            refine @Sound.outside _ mem _ _ s i _ h ?_ (fun _ hp => by cases hp)
              s.lock (h.toAlone.stays (by rw [hpc]; exact Iff.rfl) s.shared)
            intro p hp
            rw [hpc] at hp
            cases hp
          · cases hstep
            exact h
      | _ =>
          rw [hpc] at hstep
          cases hstep
  | go now =>
      unfold updateStep at hstep
      dsimp only at hstep
      cases hpc : s.pcs i with
      | idle =>
          rw [hpc] at hstep
          cases hstep
      | trying =>
          rw [hpc] at hstep
          dsimp only at hstep
          by_cases hfree : s.lock = 0
          · rw [Locks.cas_hit 0 1 hfree] at hstep
            cases hstep
            exact h.enter hfree
          · rw [Locks.cas_miss hfree] at hstep
            cases hstep
            refine @Sound.outside _ mem _ _ s i _ h ?_ (fun _ hp => by cases hp)
              s.lock (h.toAlone.stays (by rw [hpc]; exact Iff.rfl) s.shared)
            intro p hp
            rw [hpc] at hp
            cases hp
      | inside p =>
          rw [hpc] at hstep
          dsimp only at hstep
          split at hstep
          next c' p' hgo =>
            cases hstep
            exact h.access hpc hgo rfl
          next c' hgo =>
            cases hstep
            exact h.access hpc hgo rfl
      | leaving =>
          rw [hpc] at hstep
          cases hstep
          refine @Sound.outside _ mem _ _ s i _ h ?_ (fun _ hp => by cases hp)
            0 (h.toAlone.leave (by rw [hpc]; trivial))
          intro p hp
          rw [hpc] at hp
          cases hp

/-!
## Readers
-/

omit [DecidableEq thread] in
theorem Sound.started_le (h : Sound mem s) : s.shared.started ≤ s.shared.log.length + 1 := by
  by_cases hinside : exists i p, s.pcs i = UpdatePc.inside p
  · rcases hinside with ⟨i, p, hp⟩
    have hfits := h.fits i p hp
    cases p with
    | entered => exact Nat.le_succ_of_le (Nat.le_of_eq hfits)
    | stamped r => exact Nat.le_succ_of_le (Nat.le_of_eq hfits.1)
    | late r => exact Nat.le_succ_of_le (Nat.le_of_eq hfits.1)
    | writing r k => exact Nat.le_of_eq hfits.started
  · have hsettled := h.settled fun i p hp => hinside ⟨i, p, hp⟩
    exact Nat.le_succ_of_le (Nat.le_of_eq hsettled)

theorem section_extends (c : Cached localtime) (now : Reading localtime)
    (p : SectionPc localtime) : c.log <+: (sectionGo c now p).1.log := by
  cases p with
  | entered => exact List.prefix_refl _
  | stamped r =>
      simp only [sectionGo]
      split
      · exact List.prefix_refl _
      · exact List.prefix_refl _
  | late r => exact List.prefix_refl _
  | writing r k =>
      simp only [sectionGo]
      split
      · exact List.prefix_refl _
      · exact List.prefix_append _ _

theorem step_extends {l : thread × UpdateMove localtime} (hstep : updateStep s l = some s') :
    s.shared.log <+: s'.shared.log := by
  rcases l with ⟨i, move⟩
  unfold updateStep at hstep
  cases move with
  | update =>
      dsimp only at hstep
      split at hstep
      · split at hstep
        · cases hstep
          exact List.prefix_refl _
        · cases hstep
          exact List.prefix_refl _
      · cases hstep
  | go now =>
      dsimp only at hstep
      split at hstep
      · cases hstep
      · split at hstep
        · cases hstep
          exact List.prefix_refl _
        · cases hstep
          exact List.prefix_refl _
      next p _ =>
        have hextends := section_extends s.shared now p
        split at hstep
        next hgo =>
          rw [hgo] at hextends
          cases hstep
          exact hextends
        next hgo =>
          rw [hgo] at hextends
          cases hstep
          exact hextends
      · cases hstep
        exact List.prefix_refl _

theorem run_sound (h : Reaches updateStep Always (updateInit thread localtime mem) s) :
    Sound mem s :=
  h.invariant (Sound mem) (fun _ _ _ hs _ hstep => step_sound hs hstep)
    (sound_updateInit mem)

theorem run_extends (h : Reaches updateStep Always s s') : s.shared.log <+: s'.shared.log :=
  h.invariant (fun t => s.shared.log <+: t.shared.log)
    (fun _ _ _ hs _ hstep => hs.trans (step_extends hstep)) (List.prefix_refl _)

/-- A thread may read the last text that was published, its zero byte included, until a second
text is begun behind it: so the address that `time_logstr` gives is that of a whole text.  The
texts are at least ten milliseconds apart, even if the clock is set back, and nothing is
written behind the rows. -/
theorem log_time_untorn (h : Reaches updateStep Always (updateInit thread localtime mem) s)
    (h' : Reaches updateStep Always s s') :
    (forall r, s.shared.log.getLast? = some r ->
      exists p, s.shared.data = some p ∧ r.text.length = 24 ∧
        (s'.shared.started ≤ s.shared.log.length + 1 ->
          load s'.shared.mem p 25 = r.text ++ [0])) ∧
      s.shared.started ≤ s.shared.log.length + 1 ∧
      (s.shared.log.Pairwise fun r r' => r.msec + 10 ≤ r'.msec) ∧
      (forall a, cacheTimeSlot * rowSize ≤ a -> s.shared.mem a = mem a) ∧
      forall i j, (s.pcs i).Holds -> (s.pcs j).Holds -> i = j := by
  have hsound := run_sound h
  have hsound' := run_sound (h.trans h')
  refine ⟨?_, hsound.started_le, hsound.base.spaced, hsound.base.outside, hsound.one⟩
  intro r hr
  have hne : s.shared.log ≠ [] := by
    intro hnil
    rw [hnil] at hr
    cases hr
  have hpos := List.length_pos_iff.mpr hne
  refine ⟨rowOf s.shared.log.length, ?_, r.length_text, ?_⟩
  · rw [hsound.base.data, if_neg hne]
  · intro hstarted
    rw [List.getLast?_eq_getElem?] at hr
    rcases run_extends h' with ⟨w, hw⟩
    have hlast : s'.shared.log[s.shared.log.length - 1]? = some r := by
      rw [← hw, List.getElem?_append_left (by omega)]
      exact hr
    have hkept := hsound'.base.kept _ r hlast (by omega)
    rw [Nat.sub_add_cancel hpos] at hkept
    exact hkept

def someTm : Int -> Tm :=
  fun _ => { sec := 0, min := 0, hour := 6, mday := 28, mon := 9, year := 1970, wday := 1 }

theorem someTm_printable : Printable (someTm 0) := by
  constructor <;> decide

def someReading (n : Nat) : Reading someTm where
  sec := n
  usec := 0
  usec_bounds := by decide
  printable := someTm_printable

def someUpdate (thread : Bool) (n : Nat) : List (Bool × UpdateMove someTm) :=
  (thread, UpdateMove.update) :: List.replicate 31 (thread, UpdateMove.go (someReading n))

/-- The first text is whole while another thread writes the second one. -/
theorem log_time_untorn_second :
    let init := updateInit Bool someTm (asMem [])
    let s := after updateStep init (someUpdate true 1)
    let s' := after updateStep s ((someUpdate false 2).take 20)
    s'.shared.started = 2 ∧ exists p, s.shared.data = some p ∧
      load s'.shared.mem p 25 = ascii "1970/09/28 06:00:00.0000\x00" := by
  intro init s s'
  have hrun : Reaches updateStep Always init s :=
    (Reaches.refl _).labels (fun _ _ _ => trivial) (by decide +kernel)
  have hrun' : Reaches updateStep Always s s' :=
    (Reaches.refl _).labels (fun _ _ _ => trivial) (by decide +kernel)
  have hstarted : s'.shared.started = 2 := by decide +kernel
  have hlength : s.shared.log.length = 1 := by decide +kernel
  have hlast : s.shared.log.getLast? = some (someReading 1) := rfl
  rcases (log_time_untorn hrun hrun').1 _ hlast with ⟨p, hp, -, hload⟩
  refine ⟨hstarted, p, hp, ?_⟩
  rw [hload (by rw [hstarted, hlength])]
  decide +kernel

end Time
end NgxEpoll
