import Mathlib.Tactic.IntervalCases
import Waxseal.Base.JsonRoundTrip
import Waxseal.Domain.Liveness

/-!
# Timestamps

What `datetime.isoformat` writes of a moment in UTC, with its microseconds, and what
`datetime.fromisoformat` makes of texts of that form: every moment is read back
(`fromIsoformat_isoformat`).
-/

namespace Waxseal

open Json

/-! ## Days -/

/-- The days of the years before a year that starts in March. -/
def daysBeforeYear (year : ℕ) : ℕ :=
  year / 400 * 146097 + (365 * (year % 400) + year % 400 / 4 - year % 400 / 100)

/-- The day, from 0, of a date in a year that starts in March. -/
def dayOfYear (month day : ℕ) : ℕ :=
  (153 * (if 2 < month then month - 3 else month + 9) + 2) / 5 + day - 1

/-- The day that a date is, counted from 1970-01-01. -/
def daysFromCivil (year month day : ℕ) : ℕ :=
  daysBeforeYear (year - (if month ≤ 2 then 1 else 0)) + dayOfYear month day - 719468

/-- The month of a year that starts in March. -/
def monthOfMarch (march : ℕ) : ℕ := if march < 10 then march + 3 else march - 9

theorem dayOfYear_monthOfMarch {march day : ℕ} (hmarch : march < 12)
    (hday : (153 * march + 2) / 5 ≤ day) :
    dayOfYear (monthOfMarch march) (day - (153 * march + 2) / 5 + 1) = day := by
  have hback : (if 2 < monthOfMarch march then monthOfMarch march - 3
      else monthOfMarch march + 9) = march := by
    unfold monthOfMarch
    split_ifs <;> omega
  rw [dayOfYear, hback]
  omega

theorem daysBeforeYear_era {era yearOfEra : ℕ} (h : yearOfEra < 400) :
    daysBeforeYear (yearOfEra + 400 * era) =
      era * 146097 + (365 * yearOfEra + yearOfEra / 4 - yearOfEra / 100) := by
  have hera : (yearOfEra + 400 * era) / 400 = era := by omega
  have hyear : (yearOfEra + 400 * era) % 400 = yearOfEra := by omega
  rw [daysBeforeYear, hera, hyear]

/-- A year of the era starts at most 365 days before its days. -/
theorem yearOfEra_spec {dayOfEra yearOfEra : ℕ} (h : dayOfEra < 146097)
    (hyear : yearOfEra =
      (dayOfEra - dayOfEra / 1460 + dayOfEra / 36524 - dayOfEra / 146096) / 365) :
    yearOfEra < 400 ∧ 365 * yearOfEra + yearOfEra / 4 - yearOfEra / 100 ≤ dayOfEra ∧
      dayOfEra ≤ 365 + (365 * yearOfEra + yearOfEra / 4 - yearOfEra / 100) := by
  refine ⟨by omega, ?_⟩
  rcases Nat.lt_or_ge dayOfEra 146096 with hlt | hge
  · have hcentury : dayOfEra / 36524 ≤ 3 := by omega
    rw [Nat.div_eq_of_lt hlt, Nat.sub_zero] at hyear
    generalize hc : dayOfEra / 36524 = century at *
    obtain ⟨q, k, hk, hq⟩ : ∃ q k, k < 4 ∧ yearOfEra = 4 * q + k :=
      ⟨yearOfEra / 4, yearOfEra % 4, by omega, by omega⟩
    have hfour : yearOfEra / 4 = q := by omega
    have hhundred : yearOfEra / 100 = century := by
      interval_cases century <;> omega
    rw [hfour, hhundred]
    interval_cases century <;> interval_cases k <;> omega
  · -- the leap day that ends the era
    obtain rfl : dayOfEra = 146096 := by omega
    omega

/-- How a date is made. -/
theorem civilDate_eq (days : ℕ) : ∃ era dayOfEra yearOfEra day march : ℕ,
    era = (days + 719468) / 146097 ∧ dayOfEra = (days + 719468) % 146097 ∧
    yearOfEra = (dayOfEra - dayOfEra / 1460 + dayOfEra / 36524 - dayOfEra / 146096) / 365 ∧
    day = dayOfEra - (365 * yearOfEra + yearOfEra / 4 - yearOfEra / 100) ∧
    march = (5 * day + 2) / 153 ∧
    civilDate days = (yearOfEra + 400 * era + (if monthOfMarch march ≤ 2 then 1 else 0),
      monthOfMarch march, day - (153 * march + 2) / 5 + 1) :=
  ⟨_, _, _, _, _, rfl, rfl, rfl, rfl, rfl, rfl⟩

/-- **The parts of a date**: the month is of the year, the day of the year, the year of the
era. -/
theorem civilDate_spec (days : ℕ) : ∃ era yearOfEra day march : ℕ,
    days + 719468 =
      era * 146097 + (365 * yearOfEra + yearOfEra / 4 - yearOfEra / 100) + day ∧
    yearOfEra < 400 ∧ day ≤ 365 ∧ march = (5 * day + 2) / 153 ∧
    civilDate days = (yearOfEra + 400 * era + (if monthOfMarch march ≤ 2 then 1 else 0),
      monthOfMarch march, day - (153 * march + 2) / 5 + 1) := by
  obtain ⟨era, dayOfEra, yearOfEra, day, march, hera, hdayOfEra, hyear, hday, hmarch, hdate⟩ :=
    civilDate_eq days
  have hlt : dayOfEra < 146097 := by omega
  obtain ⟨hyearLt, hstart, hend⟩ := yearOfEra_spec hlt hyear
  exact ⟨era, yearOfEra, day, march, by omega, hyearLt, by omega, hmarch, hdate⟩

/-- **A day is read back from its date.** -/
theorem daysFromCivil_civilDate (days : ℕ) :
    daysFromCivil (civilDate days).1 (civilDate days).2.1 (civilDate days).2.2 = days := by
  obtain ⟨era, yearOfEra, day, march, hdays, hyear, hday, hmarch, hdate⟩ := civilDate_spec days
  have hstart : yearOfEra + 400 * era + (if monthOfMarch march ≤ 2 then 1 else 0)
      - (if monthOfMarch march ≤ 2 then 1 else 0) = yearOfEra + 400 * era := Nat.add_sub_cancel _ _
  have hyears : daysBeforeYear (yearOfEra + 400 * era) =
      era * 146097 + (365 * yearOfEra + yearOfEra / 4 - yearOfEra / 100) := daysBeforeYear_era hyear
  have hday' : dayOfYear (monthOfMarch march) (day - (153 * march + 2) / 5 + 1) = day :=
    dayOfYear_monthOfMarch (by omega) (by omega)
  have hback : daysFromCivil (yearOfEra + 400 * era + (if monthOfMarch march ≤ 2 then 1 else 0))
      (monthOfMarch march) (day - (153 * march + 2) / 5 + 1) =
        daysBeforeYear (yearOfEra + 400 * era) + day - 719468 := by
    unfold daysFromCivil
    rw [hstart, hday']
  rw [hdate]
  refine hback.trans ?_
  omega

/-- The dates of four digits. -/
theorem civilDate_lt {days : ℕ} (h : days < 2932897) :
    (civilDate days).1 < 10000 ∧ (civilDate days).2.1 < 100 ∧ (civilDate days).2.2 < 100 := by
  obtain ⟨era, yearOfEra, day, march, hdays, hyear, hday, hmarch, hdate⟩ := civilDate_spec days
  rw [hdate]
  refine ⟨?_, ?_, ?_⟩
  · show yearOfEra + 400 * era + (if monthOfMarch march ≤ 2 then 1 else 0) < 10000
    unfold monthOfMarch
    split_ifs <;> omega
  · show monthOfMarch march < 100
    unfold monthOfMarch
    split_ifs <;> omega
  · show day - (153 * march + 2) / 5 + 1 < 100
    omega

/-! ## Moments -/

/-- A `datetime` in UTC from 1970 on: its microseconds since then, up to the end of the year
9999. -/
structure Moment where
  micros : ℕ
  lt : micros < 253402300800 * 1000000
  deriving DecidableEq

/-- `isoformat()` of the whole seconds, without the offset. -/
def isoDateTime (ts : ℕ) : PyStr :=
  let (year, month, day) := civilDate (ts / 86400)
  let second := ts % 86400
  zeroPadded 4 year ++ str "-" ++ zeroPadded 2 month ++ str "-" ++ zeroPadded 2 day ++ str "T"
    ++ zeroPadded 2 (second / 3600) ++ str ":" ++ zeroPadded 2 (second / 60 % 60) ++ str ":"
    ++ zeroPadded 2 (second % 60)

/-- The fraction of a second that `isoformat()` writes: none for a whole one. -/
def isoFraction (micros : ℕ) : PyStr :=
  if micros = 0 then [] else str "." ++ zeroPadded 6 micros

/-- `isoformat()`. -/
def Moment.isoformat (m : Moment) : PyStr :=
  isoDateTime (m.micros / 1000000) ++ isoFraction (m.micros % 1000000) ++ str "+00:00"

/-! ## Reading -/

/-- A number of so many digits. -/
def readDigits (width : ℕ) (s : PyStr) : Option (ℕ × PyStr) :=
  if (s.take width).length = width ∧ (s.take width).all isDigit then
    some (ofDigits (s.take width), s.drop width)
  else none

/-- A separator and a number after it. -/
def readField (separator : CodePoint) (width : ℕ) : PyStr → Option (ℕ × PyStr)
  | [] => none
  | c :: s => if c = separator then readDigits width s else none

/-- The fraction of a second, where there is one. -/
def readFraction (s : PyStr) : Option (ℕ × PyStr) :=
  match s with
  | [] => some (0, [])
  | c :: rest => if c = .ofChar '.' then readDigits 6 rest else some (0, c :: rest)

/-- The fraction of a second, and the offset of UTC. -/
def readEnd (s : PyStr) : Option ℕ := do
  let (micros, s) ← readFraction s
  if s = str "+00:00" then some micros else none

/-- The numbers in a timestamp. -/
structure DateTimeParts where
  year : ℕ
  month : ℕ
  day : ℕ
  hour : ℕ
  minute : ℕ
  second : ℕ
  micros : ℕ

/-- The numbers, each after its separator. -/
def readParts (text : PyStr) : Option DateTimeParts := do
  let (year, s) ← readDigits 4 text
  let (month, s) ← readField (.ofChar '-') 2 s
  let (day, s) ← readField (.ofChar '-') 2 s
  let (hour, s) ← readField (.ofChar 'T') 2 s
  let (minute, s) ← readField (.ofChar ':') 2 s
  let (second, s) ← readField (.ofChar ':') 2 s
  let micros ← readEnd s
  return { year, month, day, hour, minute, second, micros }

/-- The moment at a date and a time of day, where they are of the calendar and the clock. -/
def Moment.ofParts (p : DateTimeParts) : Option Moment :=
  let days := daysFromCivil p.year p.month p.day
  let total := (days * 86400 + p.hour * 3600 + p.minute * 60 + p.second) * 1000000 + p.micros
  if civilDate days = (p.year, p.month, p.day) ∧ p.hour < 24 ∧ p.minute < 60 ∧ p.second < 60 then
    if h : total < 253402300800 * 1000000 then some ⟨total, h⟩ else none
  else none

/-- `datetime.fromisoformat`, on the texts of the form `isoformat` writes of moments from 1970
on. -/
def Moment.fromIsoformat (text : PyStr) : Option Moment := (readParts text).bind ofParts

/-- **Digits are read back.** -/
theorem readDigits_zeroPadded {width n : ℕ} (hwidth : width ≠ 0) (h : n < 10 ^ width)
    (s : PyStr) : readDigits width (zeroPadded width n ++ s) = some (n, s) := by
  have hpadded : zeroPadded width n = (strNat n).leftpad width (.ofChar '0') := rfl
  have hlength : (zeroPadded width n).length = width := by
    rw [hpadded, List.length_leftpad, max_eq_left (length_strNat_le hwidth h)]
  have hdigits : (zeroPadded width n).all isDigit = true := by
    rw [zeroPadded, List.all_append, Bool.and_eq_true, List.all_eq_true, List.all_eq_true]
    refine ⟨fun c hc => ?_, fun c hc => isDigit_strNat hc⟩
    obtain rfl := List.eq_of_mem_replicate hc
    rfl
  rw [readDigits, List.take_left' hlength, List.drop_left' hlength, if_pos ⟨hlength, hdigits⟩,
    hpadded, ofDigits_leftpad]

theorem readField_zeroPadded {width n : ℕ} (separator : CodePoint) (hwidth : width ≠ 0)
    (h : n < 10 ^ width) (s : PyStr) :
    readField separator width (separator :: (zeroPadded width n ++ s)) = some (n, s) := by
  rw [readField, if_pos rfl, readDigits_zeroPadded hwidth h]

theorem readEnd_isoFraction {micros : ℕ} (h : micros < 1000000) :
    readEnd (isoFraction micros ++ str "+00:00") = some micros := by
  have hfraction : readFraction (isoFraction micros ++ str "+00:00") =
      some (micros, str "+00:00") := by
    unfold isoFraction
    split_ifs with hzero
    · rw [hzero]
      rfl
    · exact readDigits_zeroPadded (by decide) h _
  rw [readEnd, hfraction]
  rfl

/-- The date and the time of day, each after its separator. -/
theorem isoDateTime_append {ts year month day : ℕ} (h : civilDate (ts / 86400) = (year, month, day))
    (s : PyStr) : isoDateTime ts ++ s =
      zeroPadded 4 year ++ .ofChar '-' :: (zeroPadded 2 month ++ .ofChar '-' :: (zeroPadded 2 day ++
      .ofChar 'T' :: (zeroPadded 2 (ts % 86400 / 3600) ++ .ofChar ':' ::
      (zeroPadded 2 (ts % 86400 / 60 % 60) ++ .ofChar ':' ::
      (zeroPadded 2 (ts % 86400 % 60) ++ s))))) := by
  have hdash : str "-" = [.ofChar '-'] := rfl
  have htime : str "T" = [.ofChar 'T'] := rfl
  have hcolon : str ":" = [.ofChar ':'] := rfl
  rw [isoDateTime, h]
  simp only [hdash, htime, hcolon, List.append_assoc, List.cons_append, List.nil_append]

/-- **The numbers are read back.** -/
theorem readParts_isoDateTime {ts year month day micros : ℕ}
    (h : civilDate (ts / 86400) = (year, month, day)) (hts : ts < 253402300800)
    (hmicros : micros < 1000000) :
    readParts (isoDateTime ts ++ (isoFraction micros ++ str "+00:00")) =
      some ⟨year, month, day, ts % 86400 / 3600, ts % 86400 / 60 % 60, ts % 86400 % 60, micros⟩ := by
  have hdays : ts / 86400 < 2932897 := by omega
  obtain ⟨hyear, hmonth, hday⟩ := civilDate_lt hdays
  rw [h] at hyear hmonth hday
  have hclock : ts % 86400 / 3600 < 10 ^ 2 ∧ ts % 86400 / 60 % 60 < 10 ^ 2 ∧
      ts % 86400 % 60 < 10 ^ 2 := by omega
  have htwo : 2 ≠ 0 := by decide
  rw [readParts, isoDateTime_append h]
  simp only [readDigits_zeroPadded (by decide : 4 ≠ 0) hyear, Option.bind_eq_bind, Option.bind_some,
    readField_zeroPadded _ htwo hmonth, readField_zeroPadded _ htwo hday,
    readField_zeroPadded _ htwo hclock.1, readField_zeroPadded _ htwo hclock.2.1,
    readField_zeroPadded _ htwo hclock.2.2, readEnd_isoFraction hmicros]
  rfl

/-- The parts of a moment make it up. -/
theorem Moment.ofParts_eq {m : Moment} {ts year month day : ℕ} (hts : ts = m.micros / 1000000)
    (h : civilDate (ts / 86400) = (year, month, day)) :
    Moment.ofParts ⟨year, month, day, ts % 86400 / 3600, ts % 86400 / 60 % 60, ts % 86400 % 60,
      m.micros % 1000000⟩ = some m := by
  have hdays : daysFromCivil year month day = ts / 86400 := by
    have := daysFromCivil_civilDate (ts / 86400)
    rwa [h] at this
  have htotal : (ts / 86400 * 86400 + ts % 86400 / 3600 * 3600 + ts % 86400 / 60 % 60 * 60
      + ts % 86400 % 60) * 1000000 + m.micros % 1000000 = m.micros := by omega
  have hclock : ts % 86400 / 3600 < 24 ∧ ts % 86400 / 60 % 60 < 60 ∧ ts % 86400 % 60 < 60 := by
    omega
  simp only [Moment.ofParts, hdays, htotal]
  rw [if_pos ⟨h, hclock⟩, dif_pos m.lt]

/-- **A moment is read back from what `isoformat` wrote.** -/
theorem Moment.fromIsoformat_isoformat (m : Moment) :
    Moment.fromIsoformat m.isoformat = some m := by
  obtain ⟨ts, hts⟩ : ∃ ts, ts = m.micros / 1000000 := ⟨_, rfl⟩
  rcases hdate : civilDate (ts / 86400) with ⟨year, month, day⟩
  have hlt := m.lt
  rw [fromIsoformat, isoformat, ← hts, List.append_assoc,
    readParts_isoDateTime hdate (by omega) (by omega), Option.bind_some]
  exact ofParts_eq hts hdate

/-- A timestamp can be written. -/
theorem Moment.noSurrogatePair_isoformat (m : Moment) : NoSurrogatePair m.isoformat := by
  have hpadded : ∀ width n, ∀ c ∈ zeroPadded width n, IsPrintable c := by
    intro width n c hc
    rcases List.mem_append.mp hc with hzero | hdigit
    · obtain rfl := List.eq_of_mem_replicate hzero
      decide
    · have := isDigit_of_mem_strNat hdigit
      exact ⟨by omega, by omega⟩
  have hlit : ∀ {s : PyStr}, s.all (fun c => IsPrintable c) = true → ∀ c ∈ s, IsPrintable c :=
    fun h c hc => of_decide_eq_true (List.all_eq_true.mp h c hc)
  have hfraction : ∀ c ∈ isoFraction (m.micros % 1000000), IsPrintable c := by
    rw [isoFraction]
    split_ifs
    · exact List.forall_mem_nil _
    · exact List.forall_mem_append.mpr ⟨hlit rfl, hpadded _ _⟩
  rcases hdate : civilDate (m.micros / 1000000 / 86400) with ⟨year, month, day⟩
  refine noSurrogatePair_of_printable ?_
  rw [isoformat, isoDateTime, hdate]
  simp only [List.forall_mem_append]
  exact ⟨⟨⟨⟨⟨⟨⟨⟨⟨⟨⟨⟨hpadded _ _, hlit rfl⟩, hpadded _ _⟩, hlit rfl⟩, hpadded _ _⟩, hlit rfl⟩,
    hpadded _ _⟩, hlit rfl⟩, hpadded _ _⟩, hlit rfl⟩, hpadded _ _⟩, hfraction⟩, hlit rfl⟩

/-! ## Ages -/

namespace Moment

/-- A moment is at most so many seconds before now. -/
def Within (now : Moment) (seconds : ℤ) (m : Moment) : Prop :=
  (now.micros : ℤ) - m.micros ≤ seconds * 1000000

instance decidableWithin (now : Moment) (seconds : ℤ) (m : Moment) :
    Decidable (now.Within seconds m) :=
  inferInstanceAs (Decidable ((now.micros : ℤ) - m.micros ≤ seconds * 1000000))

/-- How many seconds before now a timestamp is: `(now - fromisoformat(ts)).total_seconds()`,
before it is rounded to a `float`, which no microsecond of five centuries is lost in.  `other`
says it of the texts that `isoformat` does not write of a moment from 1970 on. -/
def age (other : PyStr → Option ℚ) (now : Moment) (ts : PyStr) : Option ℚ :=
  match fromIsoformat ts with
  | some m => some (((now.micros : ℚ) - m.micros) / 1000000)
  | none => other ts

theorem age_isoformat (other : PyStr → Option ℚ) (now m : Moment) :
    now.age other m.isoformat = some (((now.micros : ℚ) - m.micros) / 1000000) := by
  rw [age, fromIsoformat_isoformat]

theorem age_le_iff {now m : Moment} {seconds : ℤ} :
    ((now.micros : ℚ) - m.micros) / 1000000 ≤ seconds ↔ now.Within seconds m := by
  rw [div_le_iff₀ (by norm_num), Within]
  exact_mod_cast Iff.rfl

/-- What is recent stays recent when something later is taken in its place. -/
theorem Within.mono {now m later : Moment} {seconds : ℤ} (h : now.Within seconds m)
    (hle : m.micros ≤ later.micros) : now.Within seconds later := by
  unfold Within at h ⊢
  omega

end Moment

end Waxseal
