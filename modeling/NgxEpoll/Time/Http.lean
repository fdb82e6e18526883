import NgxEpoll.Strings.Pieces
import NgxEpoll.Time.Gmtime

/-!
# Dates of HTTP

`time_to_http_time`, `time_to_http_cookie_time` and `time_monthtoi` of `dfs_time.cpp`.  The
tables `week` and `months` hold addresses of strings.

## The functions
-/

namespace NgxEpoll
namespace Time

open Foundation
open NgxEpoll.Core
open Strings

def weekNames : List (List Byte) :=
  [ascii "Sun", ascii "Mon", ascii "Tue", ascii "Wed", ascii "Thu", ascii "Fri", ascii "Sat"]

def monthNames : List (List Byte) :=
  [ascii "Jan", ascii "Feb", ascii "Mar", ascii "Apr", ascii "May", ascii "Jun", ascii "Jul",
   ascii "Aug", ascii "Sep", ascii "Oct", ascii "Nov", ascii "Dec"]

structure Named (m : Mem) (week months : Nat -> BitVec 64) : Prop where
  week : forall i, i < 7 -> Lies m (week i).toNat (weekNames.getD i [])
  months : forall i, i < 12 -> Lies m (months i).toNat (monthNames.getD i [])

def timeToHttpTime (m : Mem) (week months : Nat -> BitVec 64) (t : Int) : Option Print :=
  let tm := timeGmtime t
  stringXxvsnprintf m 65536 (ascii "%s, %02d %s %4d %02d:%02d:%02d GMT\x00")
    [week tm.wday.toNat, BitVec.ofInt 64 tm.mday, months (tm.mon - 1).toNat,
     BitVec.ofInt 64 tm.year, BitVec.ofInt 64 tm.hour, BitVec.ofInt 64 tm.min,
     BitVec.ofInt 64 tm.sec]

def timeToHttpCookieTime (m : Mem) (week months : Nat -> BitVec 64) (t : Int) : Option Print :=
  let tm := timeGmtime t
  stringXxvsnprintf m 65536
    (if 2037 < tm.year then ascii "%s, %02d-%s-%d %02d:%02d:%02d GMT\x00"
     else ascii "%s, %02d-%s-%02d %02d:%02d:%02d GMT\x00")
    [week tm.wday.toNat, BitVec.ofInt 64 tm.mday, months (tm.mon - 1).toNat,
     BitVec.ofInt 64 (if 2037 < tm.year then tm.year else tm.year.tmod 100),
     BitVec.ofInt 64 tm.hour, BitVec.ofInt 64 tm.min, BitVec.ofInt 64 tm.sec]

def monthOf (ch0 ch1 ch2 : Byte) : Int :=
  if ch0 = byte 'J' then
    if ch1 = byte 'a' then if ch2 = byte 'n' then 0 else ngxError
    else if ch1 ≠ byte 'u' then ngxError
    else if ch2 = byte 'n' then 5
    else if ch2 = byte 'l' then 6
    else ngxError
  else if ch0 = byte 'F' then if ch1 = byte 'e' ∧ ch2 = byte 'b' then 1 else ngxError
  else if ch0 = byte 'M' then
    if ch1 ≠ byte 'a' then ngxError
    else if ch2 = byte 'r' then 2
    else if ch2 = byte 'y' then 4
    else ngxError
  else if ch0 = byte 'A' then
    if ch1 = byte 'p' ∧ ch2 = byte 'r' then 3
    else if ch1 = byte 'u' ∧ ch2 = byte 'g' then 7
    else ngxError
  else if ch0 = byte 'S' then if ch1 = byte 'e' ∧ ch2 = byte 'p' then 8 else ngxError
  else if ch0 = byte 'O' then if ch1 = byte 'c' ∧ ch2 = byte 't' then 9 else ngxError
  else if ch0 = byte 'N' then if ch1 = byte 'o' ∧ ch2 = byte 'v' then 10 else ngxError
  else if ch0 = byte 'D' then if ch1 = byte 'e' ∧ ch2 = byte 'c' then 11 else ngxError
  else ngxError

def timeMonthtoi (m : Mem) (s : Nat) : Int :=
  monthOf (m s) (m (s + 1)) (m (s + 2))

/-!
## Texts
-/

def dateText (wday mday mon : Nat) (sep : Byte) (year : List Byte) (hour min sec : Nat) :
    List Byte :=
  weekNames.getD wday [] ++ (ascii ", " ++ (twoDigits mday ++ ([sep] ++
    (monthNames.getD (mon - 1) [] ++ ([sep] ++ (year ++ (ascii " " ++ (twoDigits hour ++
      (ascii ":" ++ (twoDigits min ++ (ascii ":" ++ (twoDigits sec ++ ascii " GMT"))))))))))))

def dateFormat (sep : Byte) (year : List Byte) : List Byte :=
  let two := numberFormat (ascii "02") true (byte 'd')
  ascii "%s" ++ (ascii ", " ++ (two ++ ([sep] ++ (ascii "%s" ++ ([sep] ++ (year ++
    (ascii " " ++ (two ++ (ascii ":" ++ (two ++ (ascii ":" ++ (two ++ ascii " GMT"))))))))))))

variable {m : Mem} {week months : Nat -> BitVec 64}

theorem prints_two {n : Nat} (h : n < 100) :
    Prints m (numberFormat (ascii "02") true (byte 'd')) [BitVec.ofNat 64 n] (twoDigits n) := by
  rw [← decimalText_two h]
  exact prints_int (by decide) (by omega)

theorem prints_date (h : Named m week months) {wday mday mon hour min sec : Nat}
    (hwday : wday < 7) (hmday : mday < 100) (hmon : mon - 1 < 12) (hhour : hour < 100)
    (hmin : min < 100) (hsec : sec < 100) {sep : Byte} (hsep : sep ≠ 0 ∧ sep ≠ byte '%')
    {yearFormat year : List Byte} {a : BitVec 64} (hyear : Prints m yearFormat [a] year) :
    Prints m (dateFormat sep yearFormat)
      [week wday, BitVec.ofNat 64 mday, months (mon - 1), a, BitVec.ofNat 64 hour,
       BitVec.ofNat 64 min, BitVec.ofNat 64 sec]
      (dateText wday mday mon sep year hour min sec) := by
  have hplain : forall text : List Byte, (forall c, c ∈ text -> c ≠ 0 ∧ c ≠ byte '%') ->
      Prints m text [] text := fun text => prints_plain
  have hsep' : Prints m [sep] [] [sep] := hplain [sep] fun c hc => by
    rw [List.mem_singleton] at hc
    exact hc ▸ hsep
  have htime := ((prints_two hhour).append ((hplain (ascii ":") (by decide)).append
    ((prints_two hmin).append ((hplain (ascii ":") (by decide)).append
      ((prints_two (m := m) hsec).append (hplain (ascii " GMT") (by decide)))))))
  have hdate := hyear.append ((hplain (ascii " ") (by decide)).append htime)
  have hmonth := (prints_string (h.months (mon - 1) hmon)).append (hsep'.append hdate)
  have hday := (prints_two hmday).append (hsep'.append hmonth)
  exact (prints_string (h.week wday hwday)).append
    ((hplain (ascii ", ") (by decide)).append hday)

theorem length_twoDigits (n : Nat) : (twoDigits n).length = 2 :=
  rfl

theorem length_week {i : Nat} (h : i < 7) : (weekNames.getD i []).length = 3 := by
  revert i
  decide

theorem length_month {i : Nat} (h : i < 12) : (monthNames.getD i []).length = 3 := by
  revert i
  decide

theorem month_injective {i j : Nat} (hi : i < 12) (hj : j < 12)
    (h : monthNames.getD i [] = monthNames.getD j []) : i = j := by
  have hnames : forall i, i < 12 -> forall j, j < 12 ->
      monthNames.getD i [] = monthNames.getD j [] -> i = j := by
    decide
  exact hnames i hi j hj h

theorem length_dateText {wday mday mon hour min sec : Nat} (hwday : wday < 7)
    (hmon : mon - 1 < 12) (sep : Byte) (year : List Byte) :
    (dateText wday mday mon sep year hour min sec).length = 25 + year.length := by
  unfold dateText
  simp only [List.length_append, List.length_singleton, length_twoDigits, length_week hwday,
    length_month hmon]
  show 3 + (2 + (2 + (1 + (3 + (1 + (year.length + (1 + (2 + (1 + (2 + (1 + (2 + 4)))))))))))) = _
  omega

/-- A text tells the day of the month, the month, the year and the time of day. -/
theorem dateText_injective {wday wday' mday mday' mon mon' hour hour' min min' sec sec' : Nat}
    {sep : Byte} {year year' : List Byte} (hwday : wday < 7) (hwday' : wday' < 7)
    (hmon : mon - 1 < 12) (hmon' : mon' - 1 < 12) (hyear : year.length = year'.length)
    (h : dateText wday mday mon sep year hour min sec =
      dateText wday' mday' mon' sep year' hour' min' sec') :
    twoDigits mday = twoDigits mday' ∧ mon - 1 = mon' - 1 ∧ year = year' ∧
      twoDigits hour = twoDigits hour' ∧ twoDigits min = twoDigits min' ∧
        twoDigits sec = twoDigits sec' := by
  unfold dateText at h
  have h := (List.append_inj h (by rw [length_week hwday, length_week hwday'])).2
  obtain ⟨hmday, h⟩ := List.append_inj (List.append_cancel_left h) rfl
  obtain ⟨hname, h⟩ := List.append_inj (List.append_cancel_left h)
    (by rw [length_month hmon, length_month hmon'])
  obtain ⟨hyears, h⟩ := List.append_inj (List.append_cancel_left h) hyear
  obtain ⟨hhour, h⟩ := List.append_inj (List.append_cancel_left h) rfl
  obtain ⟨hmin, h⟩ := List.append_inj (List.append_cancel_left h) rfl
  obtain ⟨hsec, -⟩ := List.append_inj (List.append_cancel_left h) rfl
  exact ⟨hmday, month_injective hmon hmon' hname, hyears, hhour, hmin, hsec⟩

/-!
## Months
-/

theorem monthtoi_name {s i : Nat} (hi : i < 12) (h : load m s 3 = monthNames.getD i []) :
    timeMonthtoi m s = i := by
  have hnumber : forall i, i < 12 -> forall name, name = monthNames.getD i [] ->
      monthOf (name.getD 0 0) (name.getD 1 0) (name.getD 2 0) = i := by
    intro i hi name hname
    subst hname
    revert i
    decide
  exact hnumber i hi (load m s 3) h

/-!
## Dates
-/

def httpText (t : Nat) (d : Date) : List Byte :=
  dateText ((t / 86400 + 4) % 7) d.day d.month (byte ' ') (ascii (Nat.repr d.year))
    (t / 3600 % 24) (t / 60 % 60) (t % 60)

def cookieText (t : Nat) (d : Date) : List Byte :=
  dateText ((t / 86400 + 4) % 7) d.day d.month (byte '-')
    (if 2037 < d.year then ascii (Nat.repr d.year) else twoDigits (d.year % 100))
    (t / 3600 % 24) (t / 60 % 60) (t % 60)

structure DateOf (t : Nat) (d : Date) : Prop where
  valid : d.Valid
  since : d.sinceEpoch = t / 86400
  small : t < 2 ^ 32

variable {t t' : Nat} {d d' : Date}

theorem DateOf.year (h : DateOf t d) : 1970 ≤ d.year ∧ d.year < 9999 := by
  have hin := h.valid.in_year
  have hsince := h.since
  have hsmall := h.small
  have hepoch := yearStart_epoch
  have hmono : Monotone yearStart := monotone_nat_of_le_succ fun k => Nat.le_add_right _ _
  unfold Date.sinceEpoch Date.number at hsince
  constructor
  · by_contra hlt
    have hle : yearStart (d.year + 1) ≤ yearStart 1970 := hmono (by omega)
    rw [show yearStart (d.year + 1) = yearStart d.year + yearLength d.year from rfl] at hle
    omega
  · have hstart := yearStart_eq d.year
    omega

theorem DateOf.day_lt (h : DateOf t d) : d.day < 100 := by
  have hle := h.valid.day_le
  have hlength : monthLength d.year d.month ≤ 31 := by
    unfold monthLength
    split_ifs <;> decide
  omega

theorem DateOf.month_lt (h : DateOf t d) : d.month - 1 < 12 := by
  have hle := h.valid.month_le
  have hpos := h.valid.month_pos
  omega

theorem DateOf.length_year (h : DateOf t d) : (ascii (Nat.repr d.year)).length = 4 := by
  have hyear := h.year
  exact length_repr (by omega) (by omega)

theorem DateOf.second (h : DateOf t d) (h' : DateOf t' d') (hday : d.day = d'.day)
    (hmonth : d.month - 1 = d'.month - 1) (hyear : d.year = d'.year)
    (hhour : t / 3600 % 24 = t' / 3600 % 24) (hmin : t / 60 % 60 = t' / 60 % 60)
    (hsec : t % 60 = t' % 60) : t = t' := by
  have hpos := h.valid.month_pos
  have hpos' := h'.valid.month_pos
  have hsame : d = d' := by
    cases d with
    | mk year month day =>
        cases d' with
        | mk year' month' day' =>
            dsimp only at *
            rw [hyear, hday, show month = month' by omega]
  have hsince := h.since
  have hsince' := h'.since
  rw [hsame] at hsince
  omega

theorem httpText_injective (h : DateOf t d) (h' : DateOf t' d')
    (heq : httpText t d = httpText t' d') : t = t' := by
  obtain ⟨hday, hmonth, hyear, hhour, hmin, hsec⟩ := dateText_injective
    (Nat.mod_lt _ (by decide)) (Nat.mod_lt _ (by decide)) h.month_lt h'.month_lt
    (by rw [h.length_year, h'.length_year]) heq
  refine h.second h' (twoDigits_injective h.day_lt h'.day_lt hday) hmonth ?_
    (twoDigits_injective (by omega) (by omega) hhour)
    (twoDigits_injective (by omega) (by omega) hmin)
    (twoDigits_injective (by omega) (by omega) hsec)
  rw [← decimalValue_repr d.year, hyear, decimalValue_repr]

theorem DateOf.length_cookieYear (h : DateOf t d) :
    (if 2037 < d.year then ascii (Nat.repr d.year) else twoDigits (d.year % 100)).length =
      if 2037 < d.year then 4 else 2 := by
  split
  · exact h.length_year
  · rfl

theorem length_cookieText (h : DateOf t d) :
    (cookieText t d).length = if 2037 < d.year then 29 else 27 := by
  unfold cookieText
  rw [length_dateText (Nat.mod_lt _ (by decide)) h.month_lt, h.length_cookieYear]
  split <;> rfl

theorem cookieText_injective (h : DateOf t d) (h' : DateOf t' d')
    (heq : cookieText t d = cookieText t' d') : t = t' := by
  have hlength := congrArg List.length heq
  rw [length_cookieText h, length_cookieText h'] at hlength
  have hlate : 2037 < d.year ↔ 2037 < d'.year := by
    split_ifs at hlength <;> omega
  have hlength_year := h.length_cookieYear
  have hlength_year' := h'.length_cookieYear
  simp only [hlate] at hlength_year
  obtain ⟨hday, hmonth, hyear, hhour, hmin, hsec⟩ := dateText_injective
    (Nat.mod_lt _ (by decide)) (Nat.mod_lt _ (by decide)) h.month_lt h'.month_lt
    (by simp only [hlate]; rw [hlength_year, hlength_year']) heq
  refine h.second h' (twoDigits_injective h.day_lt h'.day_lt hday) hmonth ?_
    (twoDigits_injective (by omega) (by omega) hhour)
    (twoDigits_injective (by omega) (by omega) hmin)
    (twoDigits_injective (by omega) (by omega) hsec)
  by_cases hover : 2037 < d.year
  · rw [if_pos hover, if_pos (hlate.mp hover)] at hyear
    rw [← decimalValue_repr d.year, hyear, decimalValue_repr]
  · rw [if_neg hover, if_neg (fun h => hover (hlate.mpr h))] at hyear
    have hmod := twoDigits_injective (Nat.mod_lt _ (by decide)) (Nat.mod_lt _ (by decide)) hyear
    have hbounds := h.year
    have hbounds' := h'.year
    omega

structure Told (t : Nat) (d : Date) : Prop extends DateOf t d where
  told : timeGmtime t =
    { sec := t % 60, min := t / 60 % 60, hour := t / 3600 % 24, mday := d.day, mon := d.month
      year := d.year, wday := (t / 86400 + 4) % 7 }

theorem told_of_lt (ht : t < 2 ^ 32) : exists d, Told t d := by
  rcases timeGmtime_tells t ht with ⟨d, hvalid, hsince, -, htold⟩
  exact ⟨d, { valid := hvalid, since := hsince, small := ht, told := htold }⟩

theorem printDate (h : Named m week months) (hd : Told t d) {sep : Byte}
    (hsep : sep ≠ 0 ∧ sep ≠ byte '%') {yearFormat year : List Byte} {a : BitVec 64}
    (hyear : Prints m yearFormat [a] year) (hlength : year.length ≤ 4) :
    stringXxvsnprintf m 65536 (dateFormat sep yearFormat ++ [0])
        [week (timeGmtime t).wday.toNat, BitVec.ofInt 64 (timeGmtime t).mday,
         months ((timeGmtime t).mon - 1).toNat, a, BitVec.ofInt 64 (timeGmtime t).hour,
         BitVec.ofInt 64 (timeGmtime t).min, BitVec.ofInt 64 (timeGmtime t).sec] =
      some { fmt := [0], args := []
             out := dateText ((t / 86400 + 4) % 7) d.day d.month sep year (t / 3600 % 24)
               (t / 60 % 60) (t % 60) } := by
  have hpos := hd.valid.month_pos
  have hprints := prints_date h (Nat.mod_lt (t / 86400 + 4) (show 0 < 7 by decide)) hd.day_lt
    hd.month_lt (show t / 3600 % 24 < 100 by omega) (show t / 60 % 60 < 100 by omega)
    (show t % 60 < 100 by omega) hsep hyear
  rw [hd.told]
  dsimp only
  rw [show (((t : Int) / 86400 + 4) % 7).toNat = (t / 86400 + 4) % 7 by omega,
    show ((d.month : Int) - 1).toNat = d.month - 1 by omega, BitVec.ofInt_natCast,
    show (t : Int) / 3600 % 24 = ((t / 3600 % 24 : Nat) : Int) from rfl, BitVec.ofInt_natCast,
    show (t : Int) / 60 % 60 = ((t / 60 % 60 : Nat) : Int) from rfl, BitVec.ofInt_natCast,
    show (t : Int) % 60 = ((t % 60 : Nat) : Int) from rfl, BitVec.ofInt_natCast]
  refine hprints.returns ?_
  rw [length_dateText (Nat.mod_lt _ (by decide)) hd.month_lt]
  omega

theorem timeToHttpTime_eq (h : Named m week months) (hd : Told t d) :
    (timeToHttpTime m week months t).map Print.out = some (httpText t d) := by
  have hyear := hd.year
  have hprints := @prints_int m (ascii "4") (by decide) d.year (by omega)
  have hwhole : decimalText (ascii "4") d.year = ascii (Nat.repr d.year) := by
    unfold decimalText padded
    rw [hd.length_year]
    rfl
  rw [hwhole] at hprints
  have hdate := printDate h hd (show byte ' ' ≠ 0 ∧ byte ' ' ≠ byte '%' by decide) hprints
    (Nat.le_of_eq hd.length_year)
  have harg : BitVec.ofInt 64 (timeGmtime t).year = BitVec.ofNat 64 d.year := by
    rw [hd.told]
    exact BitVec.ofInt_natCast 64 d.year
  unfold timeToHttpTime
  dsimp only
  rw [harg]
  exact congrArg (Option.map Print.out) hdate

theorem timeToHttpCookieTime_eq (h : Named m week months) (hd : Told t d) :
    (timeToHttpCookieTime m week months t).map Print.out = some (cookieText t d) := by
  have hyear := hd.year
  have hfield : (timeGmtime t).year = d.year := by rw [hd.told]
  have hsep : byte '-' ≠ 0 ∧ byte '-' ≠ byte '%' := by decide
  unfold timeToHttpCookieTime cookieText
  dsimp only
  rw [hfield]
  by_cases hlate : 2037 < d.year
  · have hlate' : (2037 : Int) < d.year := by omega
    have hprints := @prints_int m [] (by decide) d.year (by omega)
    have hwhole : decimalText [] d.year = ascii (Nat.repr d.year) := by
      unfold decimalText padded
      rw [hd.length_year]
      rfl
    rw [hwhole] at hprints
    rw [if_pos hlate', if_pos hlate', if_pos hlate, BitVec.ofInt_natCast]
    exact congrArg (Option.map Print.out)
      (printDate h hd hsep hprints (Nat.le_of_eq hd.length_year))
  · have hlate' : ¬ (2037 : Int) < d.year := by omega
    have harg : BitVec.ofInt 64 ((d.year : Int).tmod 100) = BitVec.ofNat 64 (d.year % 100) :=
      BitVec.ofInt_natCast 64 (d.year % 100)
    rw [if_neg hlate', if_neg hlate', if_neg hlate, harg]
    exact congrArg (Option.map Print.out)
      (printDate h hd hsep (prints_two (Nat.mod_lt _ (by decide)))
        (show 2 ≤ 4 by decide))

theorem load_asMem_middle (xs ys zs : List Byte) :
    load (asMem (xs ++ (ys ++ zs))) xs.length ys.length = ys := by
  have hall := load_asMem (xs ++ (ys ++ zs))
  rw [load_eq_append_iff (by rw [List.length_append])] at hall
  have hrest := hall.2
  rw [load_eq_append_iff (by rw [List.length_append]), Nat.zero_add] at hrest
  exact hrest.1

theorem monthtoi_dateText {wday mday mon hour min sec : Nat} (hwday : wday < 7)
    (hmon : mon - 1 < 12) (sep : Byte) (year : List Byte) :
    timeMonthtoi (asMem (dateText wday mday mon sep year hour min sec)) 8 = (mon - 1 : Nat) := by
  have hload := load_asMem_middle
    (weekNames.getD wday [] ++ (ascii ", " ++ (twoDigits mday ++ [sep])))
    (monthNames.getD (mon - 1) []) ([sep] ++ (year ++ (ascii " " ++ (twoDigits hour ++
      (ascii ":" ++ (twoDigits min ++ (ascii ":" ++ (twoDigits sec ++ ascii " GMT"))))))))
  rw [length_month hmon, List.length_append, length_week hwday] at hload
  refine monthtoi_name hmon ?_
  unfold dateText
  simp only [List.append_assoc] at hload
  exact hload

/-- Both functions write the date and the time of day of every second of 32 bits, one with
29 bytes and the other one with 27 up to the year 2037; no other second has the same text, and
`time_monthtoi` finds the month in it. -/
theorem http_times_tell (h : Named m week months) (ht : t < 2 ^ 32) :
    exists d, Told t d ∧
      (timeToHttpTime m week months t).map Print.out = some (httpText t d) ∧
      (timeToHttpCookieTime m week months t).map Print.out = some (cookieText t d) ∧
      (httpText t d).length = 29 ∧
      (cookieText t d).length = (if 2037 < d.year then 29 else 27) ∧
      timeMonthtoi (asMem (httpText t d)) 8 = (d.month - 1 : Nat) ∧
      timeMonthtoi (asMem (cookieText t d)) 8 = (d.month - 1 : Nat) ∧
      forall t' : Nat, t' < 2 ^ 32 ->
        ((timeToHttpTime m week months t').map Print.out = some (httpText t d) -> t' = t) ∧
        ((timeToHttpCookieTime m week months t').map Print.out = some (cookieText t d) ->
          t' = t) := by
  rcases told_of_lt ht with ⟨d, hd⟩
  have hwday := Nat.mod_lt (t / 86400 + 4) (show 0 < 7 by decide)
  refine ⟨d, hd, timeToHttpTime_eq h hd, timeToHttpCookieTime_eq h hd, ?_,
    length_cookieText hd.toDateOf, monthtoi_dateText hwday hd.month_lt _ _,
    monthtoi_dateText hwday hd.month_lt _ _, ?_⟩
  · unfold httpText
    rw [length_dateText hwday hd.month_lt, hd.length_year]
  · intro t' ht'
    rcases told_of_lt ht' with ⟨d', hd'⟩
    rw [timeToHttpTime_eq h hd', timeToHttpCookieTime_eq h hd']
    exact ⟨fun heq => httpText_injective hd'.toDateOf hd.toDateOf (Option.some.inj heq),
      fun heq => cookieText_injective hd'.toDateOf hd.toDateOf (Option.some.inj heq)⟩

def namesMem : Mem :=
  asMem ((weekNames ++ monthNames).flatMap fun name => name ++ [0])

theorem namesMem_named :
    Named namesMem (fun i => BitVec.ofNat 64 (4 * i)) fun i => BitVec.ofNat 64 (28 + 4 * i) := by
  have hweek : forall i, i < 7 -> load namesMem (BitVec.ofNat 64 (4 * i)).toNat 4 =
      weekNames.getD i [] ++ [0] ∧ 0 ∉ weekNames.getD i [] := by
    decide
  have hmonths : forall i, i < 12 -> load namesMem (BitVec.ofNat 64 (28 + 4 * i)).toNat 4 =
      monthNames.getD i [] ++ [0] ∧ 0 ∉ monthNames.getD i [] := by
    decide
  have hlies : forall {p : Nat} {text : List Byte}, text.length = 3 ->
      load namesMem p 4 = text ++ [0] ∧ 0 ∉ text -> Lies namesMem p text := by
    intro p text hlength h
    obtain ⟨hbytes, hzero⟩ := (load_eq_append_iff (by rw [hlength]; rfl)).mp h.1
    exact { bytes := hbytes, ended := (List.cons.inj hzero).1, filled := h.2 }
  constructor
  · intro i hi
    exact hlies (length_week hi) (hweek i hi)
  · intro i hi
    exact hlies (length_month hi) (hmonths i hi)

theorem http_times_tell_late : 2145916800 < 2 ^ 32 ∧
    exists d, Told 2145916800 d ∧
      (timeToHttpCookieTime namesMem (fun i => BitVec.ofNat 64 (4 * i))
        (fun i => BitVec.ofNat 64 (28 + 4 * i)) 2145916800).map Print.out =
          some (cookieText 2145916800 d) ∧ d.year = 2038 := by
  rcases http_times_tell namesMem_named (show 2145916800 < 2 ^ 32 by decide) with
    ⟨d, hd, -, hcookie, -⟩
  refine ⟨by decide, d, hd, hcookie, ?_⟩
  have hyear : (timeGmtime (2145916800 : Nat)).year = 2038 := by decide
  rw [hd.told] at hyear
  exact Int.ofNat.inj hyear

end Time
end NgxEpoll
