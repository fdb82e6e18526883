import NgxEpoll.Foundation.Loop
import NgxEpoll.Strings.Utf8
import Mathlib.Logic.Relation

/-!
# Characters of a text counted

`string_utf8_length` of `dfs_string.cpp`.  It passes on the length of the whole text with
every character.

## The function
-/

namespace NgxEpoll
namespace Strings

open Foundation
open NgxEpoll.Core

/-- The state of `string_utf8_length`.  Addresses from `top` on have not been read. -/
structure Utf8Length where
  p : Nat
  len : Nat
  top : Nat
deriving DecidableEq

def utf8LengthBody (m : Mem) (n last : Nat) (s : Utf8Length) : Turn Utf8Length Utf8Length :=
  if s.p < last then
    if (m s.p).toNat < 0x80 then
      Turn.next { p := s.p + 1, len := s.len + 1, top := max s.top (s.p + 1) }
    else
      let d := stringUtf8Decode m s.p n
      let top := max s.top (s.p + d.read)
      if 0x10ffff < d.u then Turn.done { p := d.p, len := n, top := top }
      else Turn.next { p := d.p, len := s.len + 1, top := top }
  else Turn.done s

def stringUtf8Length (m : Mem) (p n : Nat) : Utf8Length :=
  loop (fun s => p + n - s.p) (utf8LengthBody m n (p + n)) id { p := p, len := 0, top := p }

/-!
## Turns
-/

variable {m : Mem} {n last : Nat} {s : Utf8Length}

def ahead (m : Mem) (p n : Nat) : List Nat :=
  (load m p n).map BitVec.toNat

theorem utf8LengthBody_end (h : last ≤ s.p) : utf8LengthBody m n last s = Turn.done s := by
  unfold utf8LengthBody
  rw [if_neg (Nat.not_lt.mpr h)]

theorem utf8LengthBody_ascii (h : s.p < last) (hlow : (m s.p).toNat < 0x80) :
    utf8LengthBody m n last s =
      Turn.next { p := s.p + 1, len := s.len + 1, top := max s.top (s.p + 1) } := by
  unfold utf8LengthBody
  rw [if_pos h, if_pos hlow]

theorem utf8LengthBody_taken (hn : n ≠ 0) (h : s.p < last) (hhigh : ¬ (m s.p).toNat < 0x80)
    {v k : Nat} (hat : taken.At (ahead m s.p n) v k) :
    utf8LengthBody m n last s =
      Turn.next { p := s.p + k, len := s.len + 1, top := max s.top (s.p + k) } := by
  rcases (stringUtf8Decode_decodes hn).found v k hat with ⟨hu, hp, hread⟩
  have hle : ¬ 0x10ffff < v := Nat.not_lt.mpr (taken_at_le hat)
  unfold utf8LengthBody
  dsimp only
  rw [if_pos h, if_neg hhigh, hu, if_neg hle, hp, hread]

theorem utf8LengthBody_refused (hn : n ≠ 0) (h : s.p < last) (hhigh : ¬ (m s.p).toNat < 0x80)
    (hnone : forall v k, ¬ taken.At (ahead m s.p n) v k) :
    utf8LengthBody m n last s =
      Turn.done { p := (stringUtf8Decode m s.p n).p, len := n,
                  top := max s.top (s.p + (stringUtf8Decode m s.p n).read) } := by
  have hu := (stringUtf8Decode_decodes hn).refused hnone
  unfold utf8LengthBody
  dsimp only
  rw [if_pos h, if_neg hhigh, if_pos hu]

theorem utf8LengthBody_meets (hn : n ≠ 0) (s : Utf8Length) :
    (utf8LengthBody m n last s).Meets
      (fun s' => (s.p < last ∧ s.p < s'.p) ∧ s.top ≤ s'.top) fun r => s.top ≤ r.top := by
  rcases Nat.lt_or_ge s.p last with h | h
  · by_cases hlow : (m s.p).toNat < 0x80
    · rw [utf8LengthBody_ascii h hlow]
      exact ⟨⟨h, Nat.lt_succ_self _⟩, Nat.le_max_left _ _⟩
    · by_cases hat : exists v k, taken.At (ahead m s.p n) v k
      · rcases hat with ⟨v, k, hat⟩
        rw [utf8LengthBody_taken hn h hlow hat]
        have hk := hat.two_le.1
        exact ⟨⟨h, Nat.lt_add_of_pos_right (by omega)⟩, Nat.le_max_left _ _⟩
      · rw [utf8LengthBody_refused hn h hlow fun v k hk => hat ⟨v, k, hk⟩]
        exact Nat.le_max_left _ _
  · rw [utf8LengthBody_end h]
    exact Nat.le_refl _

theorem utf8LengthBody_lowers (hn : n ≠ 0) :
    Lowers (fun _ => True) (fun s => last - s.p) (utf8LengthBody m n last) := by
  intro s s' hinv hbody
  have h := (utf8LengthBody_meets hn s).of_next hbody
  exact ⟨trivial, by dsimp only; omega⟩

def utf8Run (m : Mem) (n last : Nat) (s : Utf8Length) : Utf8Length :=
  loop (fun s => last - s.p) (utf8LengthBody m n last) id s

theorem utf8Run_next (hn : n ≠ 0) {s' : Utf8Length}
    (h : utf8LengthBody m n last s = Turn.next s') :
    utf8Run m n last s = utf8Run m n last s' :=
  loop_next (utf8LengthBody_lowers hn) id trivial h

theorem utf8Run_done {s' : Utf8Length} (h : utf8LengthBody m n last s = Turn.done s') :
    utf8Run m n last s = s' :=
  loop_done id h

theorem le_utf8Run_top (hn : n ≠ 0) (s : Utf8Length) : s.top ≤ (utf8Run m n last s).top := by
  refine loop_induction (utf8LengthBody_lowers hn) id (fun s r => s.top ≤ r.top) ?_ ?_ trivial
  · intro s r hinv hbody
    exact (utf8LengthBody_meets hn s).of_done hbody
  · intro s s' r hinv hbody hle
    exact Nat.le_trans ((utf8LengthBody_meets hn s).of_next hbody).2 hle

/-!
## Reads beyond the text
-/

/-- A turn goes on from one rest of the text with another one. -/
inductive Passes : List Byte -> List Byte -> Prop where
  | ascii {c : Byte} {t : List Byte} : ¬ high c -> Passes (c :: t) t
  | row {t : List Byte} {v k : Nat} : taken.At (t.map BitVec.toNat) v k -> Passes t (t.drop k)

/-- A first byte that wants more bytes than are left but less than `n`, and only bytes from
0x80 on are left. -/
def Cut (n : Nat) (t : List Byte) : Prop :=
  exists a u, t = a :: u ∧ u.length < wanted a.toNat ∧ wanted a.toNat < n ∧
    forall b, b ∈ u -> high b

/-- Behind what `string_utf8_length` goes over, a character is cut by the end of the text. -/
def EndsCut (n : Nat) (t : List Byte) : Prop :=
  exists r, Relation.ReflTransGen Passes t r ∧ Cut n r

theorem wanted_of_low {c : Byte} (h : ¬ high c) : wanted c.toNat = 0 := by
  have hlow : ¬ 0x80 ≤ c.toNat := fun hle => h (high_iff.mpr hle)
  rcases wanted_cases c.toNat with h0 | h1 | h2 | h3
  · exact h0.2
  · omega
  · omega
  · omega

theorem not_cut_nil : ¬ Cut n [] := by
  intro h
  rcases h with ⟨a, u, heq, -⟩
  cases heq

theorem not_cut_of_low {c : Byte} (h : ¬ high c) (u : List Byte) : ¬ Cut n (c :: u) := by
  intro hcut
  rcases hcut with ⟨a, w, heq, hlt, -⟩
  cases heq
  rw [wanted_of_low h] at hlt
  exact Nat.not_lt_zero _ hlt

theorem not_passes_nil {t : List Byte} : ¬ Passes [] t := by
  intro h
  cases h with
  | row hat => exact absurd (Nat.le_trans hat.two_le.1 hat.two_le.2) (by decide)

theorem passes_ascii_iff {c : Byte} {t r : List Byte} (h : ¬ high c) :
    Passes (c :: t) r ↔ r = t := by
  constructor
  · intro hpass
    cases hpass with
    | ascii hlow => rfl
    | row hat =>
        rw [List.map_cons, taken_at_iff] at hat
        exact absurd (wanted_of_low h) hat.1
  · intro heq
    rw [heq]
    exact Passes.ascii h

theorem passes_row_iff {c : Byte} {t r : List Byte} {v k : Nat} (h : high c)
    (hat : taken.At ((c :: t).map BitVec.toNat) v k) :
    Passes (c :: t) r ↔ r = (c :: t).drop k := by
  constructor
  · intro hpass
    cases hpass with
    | ascii hlow => exact absurd h hlow
    | row hat' =>
        rw [List.map_cons, taken_at_iff] at hat hat'
        rw [hat.2.2.2.1, hat'.2.2.2.1]
  · intro heq
    rw [heq]
    exact Passes.row hat

theorem not_cut_of_taken {c : Byte} {t : List Byte} {v k : Nat}
    (hat : taken.At ((c :: t).map BitVec.toNat) v k) : ¬ Cut n (c :: t) := by
  intro hcut
  rcases hcut with ⟨a, u, heq, hlt, -⟩
  cases heq
  rw [List.map_cons, taken_at_iff] at hat
  have hle := hat.2.1
  rw [List.length_map] at hle
  exact absurd hlt (Nat.not_lt.mpr hle)

theorem endsCut_iff_of_passes {t r : List Byte} (hcut : ¬ Cut n t)
    (hpass : forall u, Passes t u ↔ u = r) : EndsCut n t ↔ EndsCut n r := by
  constructor
  · intro h
    rcases h with ⟨u, hsteps, hu⟩
    rcases hsteps.cases_head with heq | ⟨t', hhead, htail⟩
    · exact absurd (heq ▸ hu) hcut
    · rw [(hpass t').mp hhead] at htail
      exact ⟨u, htail, hu⟩
  · intro h
    rcases h with ⟨u, hsteps, hu⟩
    exact ⟨u, hsteps.head ((hpass r).mpr rfl), hu⟩

theorem endsCut_of_stops {t : List Byte} (hpass : forall u, ¬ Passes t u) :
    EndsCut n t ↔ Cut n t := by
  constructor
  · intro h
    rcases h with ⟨u, hsteps, hu⟩
    rcases hsteps.cases_head with heq | ⟨t', hhead, htail⟩
    · exact heq ▸ hu
    · exact absurd hhead (hpass t')
  · intro h
    exact ⟨t, Relation.ReflTransGen.refl, h⟩

theorem ahead_eq {p : Nat} {t : List Byte} (ht : load m p t.length = t) (hle : t.length ≤ n) :
    ahead m p n = t.map BitVec.toNat ++ ahead m (p + t.length) (n - t.length) := by
  have hsplit : load m p n = load m p t.length ++ load m (p + t.length) (n - t.length) := by
    rw [← load_add, Nat.add_sub_cancel' hle]
  unfold ahead
  rw [hsplit, ht, List.map_append]

/-- The rest `t` of the text lies ahead, up to `last`. -/
structure Left (m : Mem) (n last : Nat) (p : Nat) (t : List Byte) : Prop where
  text : load m p t.length = t
  sum : p + t.length = last
  le : t.length ≤ n

section Left

variable {p k : Nat} {c : Byte} {t u : List Byte}

theorem Left.drop (h : Left m n last p t) (hk : k ≤ t.length) :
    Left m n last (p + k) (t.drop k) := by
  have hsum := h.sum
  have hle := h.le
  constructor
  · rw [List.length_drop, ← load_drop m p t.length k hk, h.text]
  · rw [List.length_drop]
    omega
  · rw [List.length_drop]
    omega

theorem Left.lt (h : Left m n last p (c :: u)) : p < last := by
  have hsum := h.sum
  rw [List.length_cons] at hsum
  omega

theorem Left.parts (h : Left m n last p (c :: u)) : m p = c ∧ load m (p + 1) u.length = u := by
  have htext := h.text
  rw [List.length_cons, load_succ] at htext
  exact List.cons.inj htext

theorem Left.cut_iff (h : Left m n last p (c :: u)) (hn : n ≠ 0) :
    Cut n (c :: u) ↔ (c :: u).length < (stringUtf8Decode m p n).read := by
  rw [List.length_cons, read_gt_iff hn, h.parts.1, h.parts.2]
  constructor
  · intro hcut
    rcases hcut with ⟨a, w, heq, hrest⟩
    cases heq
    exact hrest
  · intro hrest
    exact ⟨c, u, rfl, hrest⟩

theorem Left.taken_iff (h : Left m n last p (c :: u)) (hn : n ≠ 0) (hcut : ¬ Cut n (c :: u))
    (v k : Nat) :
    taken.At (ahead m p n) v k ↔ taken.At ((c :: u).map BitVec.toNat) v k := by
  rw [ahead_eq h.text h.le]
  constructor
  · intro hat
    refine hat.of_append ?_
    rw [h.cut_iff hn, Nat.not_lt] at hcut
    rw [← ahead_eq h.text h.le] at hat
    rw [List.length_map, ← ((stringUtf8Decode_decodes hn).found v k hat).2.2]
    exact hcut
  · intro hat
    exact hat.append _

end Left

theorem not_lt_of_high {c : Byte} (h : high c) : ¬ c.toNat < 0x80 :=
  Nat.not_lt.mpr (high_iff.mp h)

theorem lt_of_not_high {c : Byte} (h : ¬ high c) : c.toNat < 0x80 :=
  Nat.lt_of_not_le fun hge => h (high_iff.mpr hge)

theorem read_le_top (hn : n ≠ 0) (h : s.p < last) (hhigh : ¬ (m s.p).toNat < 0x80) :
    s.p + (stringUtf8Decode m s.p n).read ≤ (utf8Run m n last s).top := by
  by_cases hat : exists v k, taken.At (ahead m s.p n) v k
  · rcases hat with ⟨v, k, hat⟩
    rw [utf8Run_next hn (utf8LengthBody_taken hn h hhigh hat),
      ((stringUtf8Decode_decodes hn).found v k hat).2.2]
    have hle := @le_utf8Run_top m n last hn
      { p := s.p + k, len := s.len + 1, top := max s.top (s.p + k) }
    exact Nat.le_trans (Nat.le_max_right s.top _) hle
  · rw [utf8Run_done (utf8LengthBody_refused hn h hhigh fun v k hk => hat ⟨v, k, hk⟩)]
    exact Nat.le_max_right _ _

/-- `string_utf8_length` reads beyond the text if and only if this ends with a cut
character. -/
theorem utf8Run_top_le_iff (hn : n ≠ 0) (t : List Byte) : forall s : Utf8Length,
    Left m n last s.p t -> s.top ≤ last ->
      ((utf8Run m n last s).top ≤ last ↔ ¬ EndsCut n t) := by
  induction hlength : t.length using Nat.strongRecOn generalizing t with
  | ind l ih =>
      subst hlength
      intro s hleft htop
      cases t with
      | nil =>
          rw [utf8Run_done (utf8LengthBody_end (Nat.le_of_eq hleft.sum.symm)),
            endsCut_of_stops fun u => not_passes_nil]
          exact iff_of_true htop not_cut_nil
      | cons c u =>
          have hsum := hleft.sum
          have hp := hleft.lt
          have hc := hleft.parts.1
          by_cases hhigh : high c
          · have hnot : ¬ (m s.p).toNat < 0x80 := hc ▸ not_lt_of_high hhigh
            by_cases hcut : Cut n (c :: u)
            · have hbeyond := (hleft.cut_iff hn).mp hcut
              have hread := read_le_top hn hp hnot
              refine iff_of_false (by omega) (fun hends => hends ?_)
              exact ⟨_, Relation.ReflTransGen.refl, hcut⟩
            · have htaken := hleft.taken_iff hn hcut
              by_cases hat : exists v k, taken.At ((c :: u).map BitVec.toNat) v k
              · rcases hat with ⟨v, k, hat⟩
                have hk := hat.two_le
                rw [List.length_map] at hk
                rw [utf8Run_next hn (utf8LengthBody_taken hn hp hnot ((htaken v k).mpr hat)),
                  endsCut_iff_of_passes hcut fun r => passes_row_iff hhigh hat]
                refine ih _ ?_ _ rfl _ (hleft.drop hk.2) ?_
                · rw [List.length_drop]
                  omega
                · exact Nat.max_le.mpr ⟨htop, by omega⟩
              · have hnone (v k : Nat) : ¬ taken.At (ahead m s.p n) v k :=
                  fun hk => hat ⟨v, k, (htaken v k).mp hk⟩
                have hread := mt (hleft.cut_iff hn).mpr hcut
                rw [utf8Run_done (utf8LengthBody_refused hn hp hnot hnone), endsCut_of_stops]
                · refine iff_of_true (Nat.max_le.mpr ⟨htop, ?_⟩) hcut
                  omega
                · intro r hpass
                  cases hpass with
                  | ascii hlow => exact hlow hhigh
                  | row hk => exact hat ⟨_, _, hk⟩
          · have hlow : (m s.p).toNat < 0x80 := hc ▸ lt_of_not_high hhigh
            have hcut : ¬ Cut n (c :: u) := not_cut_of_low hhigh u
            rw [utf8Run_next hn (utf8LengthBody_ascii hp hlow),
              endsCut_iff_of_passes hcut fun r => passes_ascii_iff hhigh]
            refine ih u.length (Nat.lt_succ_self _) u rfl _ ?_ ?_
            · exact hleft.drop (Nat.le_add_left 1 _)
            · exact Nat.max_le.mpr ⟨htop, hp⟩

/-!
## Characters counted
-/

/-- A character whose encoding does not begin with 0xe0 or 0xf0. -/
def Plain (v : Nat) : Prop :=
  ¬ (0x800 ≤ v ∧ v ≤ 0xfff) ∧ ¬ (0x10000 ≤ v ∧ v ≤ 0x3ffff)

instance (v : Nat) : Decidable (Plain v) :=
  inferInstanceAs (Decidable (_ ∧ _))

theorem taken_of_encoding {t : List Nat} {v k : Nat} (h : encodings.At t v k) (hv : Plain v) :
    taken.At t v k := by
  unfold Plain at hv
  cases h with
  | two t h =>
      refine Rows.At.two t ?_
      simp only [encodings, taken, Tail] at h ⊢
      omega
  | three t h =>
      refine Rows.At.three t ?_
      simp only [encodings, taken, Tail] at h ⊢
      omega
  | four t h =>
      refine Rows.At.four t ?_
      simp only [encodings, taken, Tail] at h ⊢
      omega

/-- A character that is not plain is not taken, or three bytes are, and a byte that begins
no character is next. -/
theorem not_taken_of_encoding {t : List Nat} {v k : Nat} (h : encodings.At t v k)
    (hv : ¬ Plain v) {v' k' : Nat} (hat : taken.At t v' k') :
    k' = 3 ∧ exists d u, t.drop 3 = d :: u ∧ 0x80 ≤ d ∧ d ≤ 0xbf := by
  unfold Plain at hv
  cases h with
  | two t h =>
      simp only [encodings, Tail] at h
      omega
  | three t h =>
      simp only [encodings, Tail] at h
      cases hat with
      | two w hrow =>
          simp only [taken] at hrow
          omega
      | three w hrow =>
          simp only [taken] at hrow
          omega
      | four w hrow =>
          simp only [taken] at hrow
          omega
  | four t h =>
      rename_i a b c d
      simp only [encodings, Tail] at h
      refine ⟨?_, d, t, rfl, by omega, by omega⟩
      cases hat with
      | two w hrow =>
          simp only [taken] at hrow
          omega
      | three w hrow => rfl
      | four w hrow =>
          simp only [taken] at hrow
          omega

theorem utf8_ascii {c : Char} (h : c.toNat ≤ 0x7f) :
    exists b : Byte, utf8 c = [b] ∧ ¬ high b := by
  have hbytes := utf8_toNat c
  unfold utf8Bytes at hbytes
  rw [if_pos h] at hbytes
  cases hc : utf8 c with
  | nil =>
      rw [hc] at hbytes
      cases hbytes
  | cons b s =>
      rw [hc, List.map_cons] at hbytes
      injection hbytes with hb hs
      rw [List.map_eq_nil_iff.mp hs]
      refine ⟨b, rfl, ?_⟩
      intro hhigh
      have hge := high_iff.mp hhigh
      omega

theorem utf8_high {c : Char} (h : 0x80 ≤ c.toNat) (s : List Byte) :
    exists b u, utf8 c ++ s = b :: u ∧ high b ∧
      encodings.At ((b :: u).map BitVec.toNat) c.toNat (utf8 c).length := by
  have hat := (encodings_at_char (utf8 c ++ s) c.toNat _).mpr
    ⟨c, rfl, h, List.prefix_append _ _, rfl⟩
  cases htext : utf8 c ++ s with
  | nil =>
      rw [htext] at hat
      exact absurd (Nat.le_trans hat.two_le.1 hat.two_le.2) (by decide)
  | cons b u =>
      rw [htext] at hat
      refine ⟨b, u, rfl, ?_, hat⟩
      rw [List.map_cons] at hat
      rw [high_iff]
      generalize b.toNat = a, u.map BitVec.toNat = w, c.toNat = v, (utf8 c).length = k at hat
      cases hat with
      | two t h =>
          simp only [encodings] at h
          omega
      | three t h =>
          simp only [encodings] at h
          omega
      | four t h =>
          simp only [encodings] at h
          omega

theorem not_cut_of_encoding {b : Byte} {u : List Byte} {v k : Nat}
    (h : encodings.At ((b :: u).map BitVec.toNat) v k) : ¬ Cut n (b :: u) := by
  intro hcut
  rcases hcut with ⟨a, w, heq, hlt, -⟩
  cases heq
  have hk := h.two_le.2
  have hwanted : wanted b.toNat + 1 ≤ k := by
    rw [List.map_cons] at h
    generalize b.toNat = a, u.map BitVec.toNat = w at h
    cases h with
    | two t h =>
        simp only [encodings] at h
        unfold wanted
        split_ifs <;> omega
    | three t h =>
        simp only [encodings] at h
        unfold wanted
        split_ifs <;> omega
    | four t h =>
        simp only [encodings] at h
        unfold wanted
        split_ifs <;> omega
  rw [List.length_map, List.length_cons] at hk
  omega

section Count

variable {c : Char} {b : Byte} {t u : List Byte}

/-- A whole text that begins with bytes of no character has the length of all its bytes. -/
theorem utf8Run_refused (hn : n ≠ 0) (hleft : Left m n last s.p (b :: u)) (hhigh : high b)
    (hcut : ¬ Cut n (b :: u)) (hnone : forall v k, ¬ taken.At ((b :: u).map BitVec.toNat) v k) :
    (utf8Run m n last s).len = n := by
  have hnot : ¬ (m s.p).toNat < 0x80 := hleft.parts.1 ▸ not_lt_of_high hhigh
  rw [utf8Run_done (utf8LengthBody_refused hn hleft.lt hnot fun v k hat =>
    hnone v k ((hleft.taken_iff hn hcut v k).mp hat))]

theorem utf8Run_taken (hn : n ≠ 0) (hleft : Left m n last s.p (b :: u)) (hhigh : high b)
    {v k : Nat} (hat : taken.At ((b :: u).map BitVec.toNat) v k) :
    utf8Run m n last s =
      utf8Run m n last { p := s.p + k, len := s.len + 1, top := max s.top (s.p + k) } := by
  have hnot : ¬ (m s.p).toNat < 0x80 := hleft.parts.1 ▸ not_lt_of_high hhigh
  have hahead := (hleft.taken_iff hn (not_cut_of_taken hat) v k).mpr hat
  exact utf8Run_next hn (utf8LengthBody_taken hn hleft.lt hnot hahead)

theorem utf8Run_char (hn : n ≠ 0) (hleft : Left m n last s.p (utf8 c ++ t))
    (hplain : Plain c.toNat) :
    Left m n last (s.p + (utf8 c).length) t ∧
      exists top, utf8Run m n last s =
        utf8Run m n last { p := s.p + (utf8 c).length, len := s.len + 1, top := top } := by
  have hle : (utf8 c).length ≤ (utf8 c ++ t).length := by
    rw [List.length_append]
    exact Nat.le_add_right _ _
  have hdrop := hleft.drop hle
  rw [List.drop_left] at hdrop
  refine ⟨hdrop, ?_⟩
  rcases Nat.lt_or_ge c.toNat 0x80 with hascii | hlong
  · rcases utf8_ascii (Nat.le_of_lt_succ hascii) with ⟨b, hb, hlow⟩
    rw [hb] at hleft ⊢
    have hless : (m s.p).toNat < 0x80 := hleft.parts.1 ▸ lt_of_not_high hlow
    exact ⟨_, utf8Run_next hn (utf8LengthBody_ascii hleft.lt hless)⟩
  · rcases utf8_high hlong t with ⟨b, u, htext, hhigh, hat⟩
    rw [htext] at hleft
    exact ⟨_, utf8Run_taken hn hleft hhigh (taken_of_encoding hat hplain)⟩

theorem utf8Run_not_plain (hn : n ≠ 0) (hleft : Left m n last s.p (utf8 c ++ t))
    (hplain : ¬ Plain c.toNat) : (utf8Run m n last s).len = n := by
  have hlong : 0x80 ≤ c.toNat := by
    unfold Plain at hplain
    omega
  rcases utf8_high hlong t with ⟨b, u, htext, hhigh, hat⟩
  rw [htext] at hleft
  by_cases htaken : exists v k, taken.At ((b :: u).map BitVec.toNat) v k
  · -- three of the four bytes are taken, and the last one begins no character
    rcases htaken with ⟨v, k, htaken⟩
    rcases not_taken_of_encoding hat hplain htaken with ⟨rfl, d, w, hdrop, hge, hle⟩
    have hlength := htaken.two_le.2
    rw [List.length_map] at hlength
    have hnext := hleft.drop hlength
    rw [utf8Run_taken hn hleft hhigh htaken]
    rw [← List.map_drop] at hdrop
    cases hrest : (b :: u).drop 3 with
    | nil =>
        rw [hrest] at hdrop
        cases hdrop
    | cons x r =>
        rw [hrest] at hdrop hnext
        injection hdrop with hx hr
        have hzero : wanted x.toNat = 0 := by
          rw [hx]
          unfold wanted
          split_ifs <;> omega
        refine utf8Run_refused hn hnext (high_iff.mpr (hx ▸ hge)) ?_ ?_
        · intro hcut
          rcases hcut with ⟨a, w', heq, hlt, -⟩
          cases heq
          rw [hzero] at hlt
          exact Nat.not_lt_zero _ hlt
        · intro v' k' hat'
          rw [List.map_cons, taken_at_iff] at hat'
          exact hat'.1 hzero
  · exact utf8Run_refused hn hleft hhigh (not_cut_of_encoding hat)
      fun v k hk => htaken ⟨v, k, hk⟩

end Count

theorem utf8Run_plain (hn : n ≠ 0) (cs : List Char) : forall s : Utf8Length,
    Left m n last s.p (cs.flatMap utf8) -> (forall c, c ∈ cs -> Plain c.toNat) ->
      (utf8Run m n last s).len = s.len + cs.length := by
  induction cs with
  | nil =>
      intro s hleft hplain
      rw [utf8Run_done (utf8LengthBody_end (Nat.le_of_eq hleft.sum.symm))]
      rfl
  | cons c cs ih =>
      intro s hleft hplain
      rw [List.forall_mem_cons] at hplain
      rw [List.flatMap_cons] at hleft
      rcases utf8Run_char hn hleft hplain.1 with ⟨hnext, top, hrun⟩
      rw [hrun, ih _ hnext hplain.2, List.length_cons]
      dsimp only
      omega

theorem utf8Run_not_all_plain (hn : n ≠ 0) (cs : List Char) : forall s : Utf8Length,
    Left m n last s.p (cs.flatMap utf8) -> (exists c, c ∈ cs ∧ ¬ Plain c.toNat) ->
      (utf8Run m n last s).len = n := by
  induction cs with
  | nil =>
      intro s hleft hexists
      rcases hexists with ⟨c, hmem, -⟩
      exact absurd hmem List.not_mem_nil
  | cons c cs ih =>
      intro s hleft hexists
      rw [List.flatMap_cons] at hleft
      by_cases hplain : Plain c.toNat
      · rcases utf8Run_char hn hleft hplain with ⟨hnext, top, hrun⟩
        rw [hrun]
        refine ih _ hnext ?_
        rcases hexists with ⟨d, hmem, hd⟩
        rcases List.mem_cons.mp hmem with heq | htail
        · exact absurd (heq ▸ hplain) hd
        · exact ⟨d, htail, hd⟩
      · exact utf8Run_not_plain hn hleft hplain

theorem utf8_length_pos (c : Char) : 1 ≤ (utf8 c).length := by
  rw [utf8_length]
  unfold utf8Bytes
  split_ifs <;> simp

theorem two_le_utf8_length {c : Char} (h : 0x80 ≤ c.toNat) : 2 ≤ (utf8 c).length := by
  rw [utf8_length]
  unfold utf8Bytes
  rw [if_neg (by omega)]
  split_ifs <;> simp

theorem three_le_utf8_length {c : Char} (h : ¬ Plain c.toNat) : 3 ≤ (utf8 c).length := by
  unfold Plain at h
  rw [utf8_length]
  unfold utf8Bytes
  rw [if_neg (by omega), if_neg (by omega)]
  split_ifs <;> simp

theorem length_le_flatMap (cs : List Char) : cs.length ≤ (cs.flatMap utf8).length := by
  induction cs with
  | nil => exact Nat.le_refl 0
  | cons c cs ih =>
      have hpos := utf8_length_pos c
      rw [List.flatMap_cons, List.length_append, List.length_cons]
      omega

theorem length_lt_flatMap {cs : List Char} (h : exists c, c ∈ cs ∧ ¬ Plain c.toNat) :
    cs.length < (cs.flatMap utf8).length := by
  rcases h with ⟨c, hmem, hplain⟩
  rcases List.append_of_mem hmem with ⟨cs₁, cs₂, rfl⟩
  have hlong : 0x80 ≤ c.toNat := by
    unfold Plain at hplain
    omega
  have htwo := two_le_utf8_length hlong
  have h₁ := length_le_flatMap cs₁
  have h₂ := length_le_flatMap cs₂
  simp only [List.flatMap_append, List.flatMap_cons, List.length_append, List.length_cons]
  omega

/-- Wherever the text is and whatever lies behind it, `string_utf8_length` reads nothing
but the text, and returns the number of its characters. -/
def CountsRight (t : List Byte) : Prop :=
  forall m p, load m p t.length = t ->
    (stringUtf8Length m p t.length).top ≤ p + t.length ∧
      forall cs : List Char, t = cs.flatMap utf8 ->
        (stringUtf8Length m p t.length).len = cs.length

theorem countsRight_nil : CountsRight [] := by
  intro m p hload
  have hrun : stringUtf8Length m p 0 = { p := p, len := 0, top := p } :=
    loop_done id (utf8LengthBody_end (Nat.le_refl p))
  rw [List.length_nil, hrun]
  refine ⟨Nat.le_refl p, ?_⟩
  intro cs hcs
  have hle := length_le_flatMap cs
  rw [← hcs] at hle
  exact (Nat.le_zero.mp hle).symm

/-- `string_utf8_length` is right if and only if a text of characters has only plain ones,
and the text does not end with a cut character. -/
theorem countsRight_iff (t : List Byte) :
    CountsRight t ↔
      (forall cs : List Char, t = cs.flatMap utf8 -> forall c, c ∈ cs -> Plain c.toNat) ∧
        ¬ EndsCut t.length t := by
  by_cases hnil : t = []
  · subst hnil
    refine iff_of_true countsRight_nil ⟨?_, ?_⟩
    · intro cs hcs c hmem
      have hle := length_le_flatMap cs
      rw [← hcs] at hle
      rw [List.length_eq_zero_iff.mp (Nat.le_zero.mp hle)] at hmem
      exact absurd hmem List.not_mem_nil
    · rw [endsCut_of_stops fun u => not_passes_nil]
      exact not_cut_nil
  · have hn : t.length ≠ 0 := fun hzero => hnil (List.length_eq_zero_iff.mp hzero)
    have hleft {m : Mem} {p : Nat} (hload : load m p t.length = t) :
        Left m t.length (p + t.length) p t := ⟨hload, rfl, Nat.le_refl _⟩
    have htop {m : Mem} {p : Nat} (hload : load m p t.length = t) :
        (stringUtf8Length m p t.length).top ≤ p + t.length ↔ ¬ EndsCut t.length t :=
      utf8Run_top_le_iff hn t { p := p, len := 0, top := p } (hleft hload)
        (Nat.le_add_right _ _)
    have hchars {m : Mem} {p : Nat} (hload : load m p t.length = t) {cs : List Char}
        (hcs : t = cs.flatMap utf8) : Left m t.length (p + t.length) p (cs.flatMap utf8) := by
      rw [← hcs]
      exact hleft hload
    constructor
    · intro h
      have hright := h (asMem t) 0 (load_asMem t)
      refine ⟨?_, (htop (load_asMem t)).mp hright.1⟩
      intro cs hcs c hmem
      by_contra hplain
      have hall : (stringUtf8Length (asMem t) 0 t.length).len = t.length :=
        utf8Run_not_all_plain hn cs { p := 0, len := 0, top := 0 } (hchars (load_asMem t) hcs)
          ⟨c, hmem, hplain⟩
      have hlt := length_lt_flatMap ⟨c, hmem, hplain⟩
      have hcount := hright.2 cs hcs
      rw [← hcs] at hlt
      omega
    · intro h m p hload
      refine ⟨(htop hload).mpr h.2, ?_⟩
      intro cs hcs
      have hcount : (stringUtf8Length m p t.length).len = 0 + cs.length :=
        utf8Run_plain hn cs { p := p, len := 0, top := p } (hchars hload hcs) (h.1 cs hcs)
      omega

/-- `string_utf8_decode` is right if and only if no row that it misreads begins the bytes,
and `string_utf8_length` if and only if a text of characters has none whose encoding begins
with 0xe0 or 0xf0 and the text does not end with a cut character. -/
theorem utf8_right_iff (m : Mem) (p n : Nat) (hn : n ≠ 0) (hp : 0x80 ≤ (m p).toNat)
    (t : List Byte) :
    (DecodesRight m p n ↔ ¬ exists v k, misread.At ((load m p n).map BitVec.toNat) v k) ∧
      (CountsRight t ↔
        (forall cs : List Char, t = cs.flatMap utf8 -> forall c, c ∈ cs -> Plain c.toNat) ∧
          ¬ EndsCut t.length t) :=
  ⟨decodesRight_iff hn hp, countsRight_iff t⟩

theorem not_misread_two : ¬ exists v k, misread.At [0xc3, 0xa9] v k := by
  rintro ⟨v, k, hat⟩
  cases hat with
  | two t h => exact absurd h.2.2 (by decide)

theorem plain_of_flatMap_two {cs : List Char} {a b : Byte} (h : [a, b] = cs.flatMap utf8) :
    forall c, c ∈ cs -> Plain c.toNat := by
  intro c hmem
  by_contra hplain
  rcases List.append_of_mem hmem with ⟨cs₁, cs₂, rfl⟩
  have hthree := three_le_utf8_length hplain
  have hlength := congrArg List.length h
  simp only [List.flatMap_append, List.flatMap_cons, List.length_append, List.length_cons,
    List.length_nil] at hlength
  omega

theorem not_endsCut_two : ¬ EndsCut 2 [0xc3, 0xa9] := by
  have hat : taken.At (([0xc3, 0xa9] : List Byte).map BitVec.toNat)
      (0xc3 % 32 * 64 + 0xa9 % 64) 2 :=
    Rows.At.two [] ⟨by decide, by decide, by decide, by decide⟩
  rw [endsCut_iff_of_passes (not_cut_of_taken hat) fun r => passes_row_iff (by decide) hat]
  exact fun h => not_cut_nil ((endsCut_of_stops fun u => not_passes_nil).mp h)

theorem utf8_right_iff_two :
    2 ≠ 0 ∧ 0x80 ≤ (asMem [0xc3, 0xa9] 0).toNat ∧
      stringUtf8Decode (asMem [0xc3, 0xa9]) 0 2 = { u := 0xe9, p := 2, read := 2 } ∧
      DecodesRight (asMem [0xc3, 0xa9]) 0 2 ∧ CountsRight [0xc3, 0xa9] := by
  have h := utf8_right_iff (asMem [0xc3, 0xa9]) 0 2 (by decide) (by decide) [0xc3, 0xa9]
  refine ⟨by decide, by decide, by decide, h.1.mpr not_misread_two, h.2.mpr ⟨?_, ?_⟩⟩
  · exact fun cs hcs => plain_of_flatMap_two hcs
  · exact not_endsCut_two

/-- The encodings `e0 a4 84` and `f0 9f 98 80` of characters are refused, `ed a0 80` is taken
for a character, and at the end of `41 c3` the byte behind the text is read. -/
theorem utf8_wrong :
    utf8 'ऄ' = [0xe0, 0xa4, 0x84] ∧
      (stringUtf8Decode (asMem [0xe0, 0xa4, 0x84]) 0 3).u = 0xffffffff ∧
      utf8 '😀' = [0xf0, 0x9f, 0x98, 0x80] ∧
      (stringUtf8Decode (asMem [0xf0, 0x9f, 0x98, 0x80]) 0 4).u = 0xffffffff ∧
      stringUtf8Decode (asMem [0xed, 0xa0, 0x80]) 0 3 = { u := 0xd800, p := 3, read := 3 } ∧
      (stringUtf8Length (asMem [0xe0, 0xa4, 0x84]) 0 3).len = 3 ∧
      (stringUtf8Length (asMem [0x41, 0xc3]) 0 2).top = 3 := by
  decide +kernel

end Strings
end NgxEpoll
