-- The clock of the kernel: `time.rs`. The clock is read once, and from then on
-- the time is the first reading plus the ticks of the timer. The date of the
-- first reading stays, and only its day is counted on.
import Mathlib.Data.UInt
import Mathlib.Tactic.IntervalCases

namespace zenos_kernel.time

structure CurrentTime where
  second : UInt8
  minute : UInt8
  hour : UInt8
  day : UInt8
  month : UInt8
  year : UInt16
  deriving DecidableEq

namespace CurrentTime

def to_seconds_since_midnight (t : CurrentTime) : UInt64 :=
  t.hour.toUInt64 * 3600 + t.minute.toUInt64 * 60 + t.second.toUInt64

/-- `a.saturating_add(b).min(31)`. -/
def later_day (a b : UInt8) : UInt8 := UInt8.ofNat (min (min (a.toNat + b.toNat) 255) 31)

def from_seconds_with_date (secs : UInt64) (day month : UInt8) (year : UInt16) : CurrentTime :=
  let days_elapsed := secs / 86400
  let secs := secs % 86400
  let hour := (secs / 3600).toUInt8
  let secs := secs % 3600
  { second := (secs % 60).toUInt8
    minute := (secs / 60).toUInt8
    hour
    day := later_day day days_elapsed.toUInt8
    month
    year }

/-! ## Seconds since 1970 -/

def DAYS_IN_MONTH : List Nat := [31, 28, 31, 30, 31, 30, 31, 31, 30, 31, 30, 31]

def is_leap (year : Nat) : Bool := (year % 4 == 0 && year % 100 != 0) || year % 400 == 0

/-- The days of the years from 1970 on. -/
def days_before_year (year : Nat) : Nat :=
  ((List.range' 1970 (year - 1970)).map (fun y => if is_leap y then 366 else 365)).sum

/-- The days of month `m`, counted from 0. -/
def month_length (year m : Nat) : Option Nat :=
  (DAYS_IN_MONTH[m]?).map (fun n => if m = 1 ∧ is_leap year then n + 1 else n)

/-- The days of the first months of a year. `none`: there is no such month. -/
def days_before_month (year : Nat) : Nat → Option Nat
  | 0 => some 0
  | m + 1 => do
    let days ← days_before_month year m
    let n ← month_length year m
    pure (days + n)

/-- `as_unix_epoch`. `none` is a panic: the month or the day is 0, or the month is over 13. -/
def as_unix_epoch (t : CurrentTime) : Option Nat :=
  if t.month = 0 ∨ t.day = 0 then none
  else do
    let months ← days_before_month t.year.toNat (t.month.toNat - 1)
    let days := days_before_year t.year.toNat + months + (t.day.toNat - 1)
    pure (days * 86400 + t.hour.toNat * 3600 + t.minute.toNat * 60 + t.second.toNat)

end CurrentTime

/-! ## The statics -/

structure Clock where
  BOOT_TIME_SECS : UInt64
  BOOT_DAY : UInt64
  BOOT_MONTH : UInt64
  BOOT_YEAR : UInt64
  BOOT_TIME_INITIALIZED : Bool
  TICK_COUNT : UInt64

/-- `current_time`, when the hardware shows `rtc`. -/
def Clock.current_time (c : Clock) (rtc : CurrentTime) : CurrentTime × Clock :=
  if c.BOOT_TIME_INITIALIZED = false then
    (rtc, { c with
      BOOT_TIME_SECS := rtc.to_seconds_since_midnight
      BOOT_DAY := rtc.day.toUInt64
      BOOT_MONTH := rtc.month.toUInt64
      BOOT_YEAR := rtc.year.toUInt64
      BOOT_TIME_INITIALIZED := true })
  else
    let elapsed_secs := c.TICK_COUNT / 100
    let total_secs := c.BOOT_TIME_SECS + elapsed_secs
    (CurrentTime.from_seconds_with_date total_secs c.BOOT_DAY.toUInt8 c.BOOT_MONTH.toUInt8
      c.BOOT_YEAR.toUInt16, c)

/-- The clock after the first reading, `ticks` ticks after the start. -/
def Clock.booted (boot : CurrentTime) (ticks : UInt64) : Clock :=
  { (Clock.current_time ⟨0, 0, 0, 0, false, 0⟩ boot).2 with TICK_COUNT := ticks }

/-! ## The law and its limit -/

namespace CurrentTime

/-- A date of the calendar and a time of the day. -/
structure Valid (t : CurrentTime) : Prop where
  second : t.second.toNat < 60
  minute : t.minute.toNat < 60
  hour : t.hour.toNat < 24
  day_pos : t.day ≠ 0
  day : ∃ n, month_length t.year.toNat (t.month.toNat - 1) = some n ∧ t.day.toNat ≤ n
  month : t.month ≠ 0
  year : 1970 ≤ t.year.toNat

/-- A month is one of twelve, and it has at most 31 days. -/
theorem month_length_le {year m n : Nat} (h : month_length year m = some n) : m < 12 ∧ n ≤ 31 := by
  have hdays : ∀ m < 12, ∀ n, DAYS_IN_MONTH[m]? = some n → n ≤ 31 ∧ (m = 1 → n ≤ 30) := by decide
  obtain ⟨k, hk, rfl⟩ := Option.map_eq_some_iff.mp h
  have hm : m < 12 := (List.getElem?_eq_some_iff.mp hk).1
  obtain ⟨h31, h30⟩ := hdays m hm k hk
  refine ⟨hm, ?_⟩
  split
  · omega
  · exact h31

/-- The days of a month, by the calendar. -/
def month_days (year month : Nat) : Nat :=
  if month = 2 then if year % 4 = 0 ∧ year % 100 ≠ 0 ∨ year % 400 = 0 then 29 else 28
  else if month ∈ [4, 6, 9, 11] then 30 else 31

/-- The days of the first months of a year. -/
def month_sum (year months : Nat) : Nat := ((List.range' 1 months).map (month_days year)).sum

theorem month_sum_succ (year m : Nat) :
    month_sum year (m + 1) = month_sum year m + month_days year (m + 1) := by
  simp [month_sum, List.range'_1_concat, Nat.add_comm 1 m]

theorem month_length_eq (year : Nat) {m : Nat} (hm : m < 12) :
    month_length year m = some (month_days year (m + 1)) := by
  interval_cases m <;> simp [month_length, DAYS_IN_MONTH, month_days, is_leap]

theorem days_before_month_eq (year : Nat) {m : Nat} (hm : m ≤ 12) :
    days_before_month year m = some (month_sum year m) := by
  induction m with
  | zero => rfl
  | succ m ih =>
    rw [days_before_month, ih (by omega), month_length_eq year hm, month_sum_succ]
    rfl

/-- The day counts on from the days before its month, whether the month has that day or not. -/
theorem as_unix_epoch_eq {t : CurrentTime} {months : Nat} (hmonth : t.month ≠ 0) (hday : t.day ≠ 0)
    (hm : days_before_month t.year.toNat (t.month.toNat - 1) = some months) :
    t.as_unix_epoch = some ((days_before_year t.year.toNat + months + (t.day.toNat - 1)) * 86400 +
      t.hour.toNat * 3600 + t.minute.toNat * 60 + t.second.toNat) := by
  simp [as_unix_epoch, hmonth, hday, hm]

theorem seconds_toNat (t : CurrentTime) : t.to_seconds_since_midnight.toNat =
    t.hour.toNat * 3600 + t.minute.toNat * 60 + t.second.toNat := by
  have h1 := t.hour.toNat_lt
  have h2 := t.minute.toNat_lt
  have h3 := t.second.toNat_lt
  simp [to_seconds_since_midnight]
  omega

end CurrentTime

/-- The clock shows the seconds since the first reading exactly as long as the day, counted on
from the first one, is not over 31. -/
theorem clock_counts_seconds_iff {boot : CurrentTime} (hv : boot.Valid) (ticks : UInt64)
    (rtc : CurrentTime) : ∃ epoch, boot.as_unix_epoch = some epoch ∧
      (((Clock.booted boot ticks).current_time rtc).1.as_unix_epoch =
          some (epoch + ticks.toNat / 100) ↔
        boot.day.toNat + (boot.to_seconds_since_midnight.toNat + ticks.toNat / 100) / 86400
          ≤ 31) := by
  obtain ⟨n, hn, hdn⟩ := hv.day
  obtain ⟨hlt, h31⟩ := CurrentTime.month_length_le hn
  have hmonths := CurrentTime.days_before_month_eq boot.year.toNat (Nat.le_of_lt hlt)
  have hdpos : boot.day.toNat ≠ 0 := fun h => hv.day_pos (UInt8.toNat.inj h)
  refine ⟨_, CurrentTime.as_unix_epoch_eq hv.month hv.day_pos hmonths, ?_⟩
  have hticks := ticks.toNat_lt
  have hsecs := boot.seconds_toNat
  have := hv.hour
  have := hv.minute
  have := hv.second
  generalize htot : boot.to_seconds_since_midnight + ticks / 100 = total
  have htotal : total.toNat = boot.to_seconds_since_midnight.toNat + ticks.toNat / 100 := by
    rw [← htot]
    simp [UInt64.toNat_add]
    omega
  generalize hclock : ((Clock.booted boot ticks).current_time rtc).1 = now
  have hnow : now = CurrentTime.from_seconds_with_date total boot.day boot.month boot.year := by
    simp [← hclock, Clock.booted, Clock.current_time, htot]
  have hday : now.day.toNat = min (min (boot.day.toNat + total.toNat / 86400 % 256) 255) 31 := by
    simp [hnow, CurrentTime.from_seconds_with_date, CurrentTime.later_day]
  have htime : now.hour.toNat * 3600 + now.minute.toNat * 60 + now.second.toNat =
      total.toNat % 86400 := by
    simp [hnow, CurrentTime.from_seconds_with_date]
    omega
  have hmonth : now.month = boot.month := by
    rw [hnow]
    rfl
  have hyear : now.year = boot.year := by
    rw [hnow]
    rfl
  have hne : now.day ≠ 0 := by
    intro h
    rw [h] at hday
    simp at hday
    omega
  rw [CurrentTime.as_unix_epoch_eq (hmonth ▸ hv.month) hne (by rw [hmonth, hyear]; exact hmonths),
    hyear, Option.some.injEq]
  omega

/-- The last day of February, at noon. -/
def february : CurrentTime := ⟨0, 0, 12, 28, 2, 2026⟩

/-- The clock goes on to a thirtieth of February, and the seconds are right. -/
theorem two_days_after_february : ∃ epoch, february.as_unix_epoch = some epoch ∧
    ((Clock.booted february 17280000).current_time february).1.as_unix_epoch =
      some (epoch + 172800) := by
  have hv : february.Valid := ⟨by decide, by decide, by decide, by decide, ⟨28, by decide⟩,
    by decide, by decide⟩
  obtain ⟨epoch, hepoch, hiff⟩ := clock_counts_seconds_iff hv 17280000 february
  exact ⟨epoch, hepoch, hiff.mpr (by decide)⟩

/-- The last second of a year. -/
def lastSecond : CurrentTime := ⟨59, 59, 23, 31, 12, 2026⟩

/-- A second later the clock shows the start of the same day. -/
theorem the_clock_goes_back : lastSecond.Valid ∧ lastSecond.as_unix_epoch = some 1798761599 ∧
    ((Clock.booted lastSecond 100).current_time lastSecond).1.as_unix_epoch = some 1798675200 :=
  ⟨⟨by decide, by decide, by decide, by decide, ⟨31, by decide⟩, by decide, by decide⟩,
    by decide +kernel, by decide +kernel⟩

/-! ## The calendar -/

namespace CurrentTime

/-- The days from the first of January 1970 to a date. -/
def days_since_1970 (year month day : Nat) : Nat :=
  ((List.range' 1970 (year - 1970)).map (month_sum · 12)).sum + month_sum year (month - 1) +
    (day - 1)

/-- The seconds from the start of 1970. -/
def calendar_seconds (t : CurrentTime) : Nat :=
  86400 * days_since_1970 t.year.toNat t.month.toNat t.day.toNat +
    (t.hour.toNat * 3600 + t.minute.toNat * 60 + t.second.toNat)

/-- The second after `t`, with every carry. -/
def next_second (t : CurrentTime) : CurrentTime :=
  if t.second < 59 then { t with second := t.second + 1 }
  else if t.minute < 59 then { t with second := 0, minute := t.minute + 1 }
  else if t.hour < 23 then { t with second := 0, minute := 0, hour := t.hour + 1 }
  else if t.day.toNat < month_days t.year.toNat t.month.toNat then
    ⟨0, 0, 0, t.day + 1, t.month, t.year⟩
  else if t.month < 12 then ⟨0, 0, 0, 1, t.month + 1, t.year⟩
  else ⟨0, 0, 0, 1, 1, t.year + 1⟩

theorem days_before_year_eq (year : Nat) :
    days_before_year year = ((List.range' 1970 (year - 1970)).map (month_sum · 12)).sum := by
  have hyear : ∀ y, (if is_leap y then 366 else 365) = month_sum y 12 := by
    intro y
    simp [is_leap, month_sum, month_days, List.range']
    split <;> rfl
  simp only [days_before_year, hyear]

theorem days_next_month (year m : Nat) :
    days_since_1970 year (m + 2) 1 =
      days_since_1970 year (m + 1) (month_days year (m + 1)) + 1 := by
  have hpos : 0 < month_days year (m + 1) := by
    unfold month_days
    split_ifs <;> decide
  have hsum := month_sum_succ year m
  simp only [days_since_1970, Nat.succ_sub_one]
  omega

theorem days_next_year {year : Nat} (hy : 1970 ≤ year) :
    days_since_1970 (year + 1) 1 1 = days_since_1970 year 12 31 + 1 := by
  have hsum : month_sum year 12 = month_sum year 11 + 31 := month_sum_succ year 11
  have hconcat : List.range' 1970 (year + 1 - 1970) = List.range' 1970 (year - 1970) ++ [year] := by
    rw [Nat.sub_add_comm hy, List.range'_1_concat, Nat.add_sub_of_le hy]
  have hzero : month_sum (year + 1) 0 = 0 := rfl
  rw [days_since_1970, hconcat]
  simp [days_since_1970]
  omega

/-- The last time that a year of 16 bits can show. -/
def lastTime : CurrentTime := ⟨59, 59, 23, 31, 12, 65535⟩

variable {t : CurrentTime}

theorem epoch_eq (hm : 1 ≤ t.month.toNat ∧ t.month.toNat ≤ 12) (hd : 1 ≤ t.day.toNat) :
    t.as_unix_epoch = some t.calendar_seconds := by
  have hmonth : t.month ≠ 0 := fun h => by simp [h] at hm
  have hday : t.day ≠ 0 := fun h => by simp [h] at hd
  rw [as_unix_epoch_eq hmonth hday (days_before_month_eq _ (by omega)), days_before_year_eq,
    calendar_seconds, days_since_1970, Option.some.injEq]
  omega

/-- The seconds are those of the calendar, and a second later there is one more. -/
theorem epoch_is_gregorian (hv : t.Valid) :
    t.as_unix_epoch = some t.calendar_seconds ∧
      (t ≠ lastTime → t.next_second.as_unix_epoch = some (t.calendar_seconds + 1)) := by
  obtain ⟨n, hn, hdn⟩ := hv.day
  obtain ⟨hlt, h31⟩ := month_length_le hn
  have hm : t.month.toNat ≠ 0 := fun h => hv.month (UInt8.toNat.inj h)
  have hd : t.day.toNat ≠ 0 := fun h => hv.day_pos (UInt8.toNat.inj h)
  rw [month_length_eq _ hlt, Option.some.injEq, Nat.sub_add_cancel (Nat.pos_of_ne_zero hm)] at hn
  refine ⟨epoch_eq (by omega) (by omega), fun hlast => ?_⟩
  obtain ⟨hs, hmin, hh, -, -, -, hyear⟩ := hv
  obtain ⟨s, min, h, d, m, y⟩ := t
  simp only [next_second, UInt8.lt_iff_toNat_lt, UInt8.reduceToNat] at *
  split_ifs with h1 h2 h3 h4 h5
  all_goals
    rw [epoch_eq (by simp <;> omega) (by simp <;> omega), Option.some.injEq, calendar_seconds,
      calendar_seconds]
  · simp
    omega
  · simp
    omega
  · simp
    omega
  · have hd1 : (d + 1).toNat = d.toNat + 1 := by
      simp
      omega
    simp [days_since_1970, hd1]
    omega
  · have hm1 : (m + 1).toNat = m.toNat - 1 + 2 := by
      simp
      omega
    have hnext := days_next_month y.toNat (m.toNat - 1)
    rw [Nat.sub_add_cancel (Nat.pos_of_ne_zero hm)] at hnext
    have hdm : d.toNat = month_days y.toNat m.toNat := by omega
    simp [hm1, hnext, hdm]
    omega
  · have hm12 : m.toNat = 12 := by omega
    have hd31 : d.toNat = 31 := by
      have h12 : month_days y.toNat 12 = 31 := rfl
      rw [hm12] at hn h4
      omega
    have hy : y.toNat ≠ 65535 := by
      intro hy
      apply hlast
      simp only [lastTime, CurrentTime.mk.injEq, ← UInt8.toNat_inj, ← UInt16.toNat_inj]
      simp
      omega
    have hy1 : (y + 1).toNat = y.toNat + 1 := by
      have := y.toNat_lt
      simp
      omega
    simp [hy1, hm12, hd31, days_next_year hyear]
    omega

theorem lastSecond_steps : lastSecond.Valid ∧ lastSecond ≠ lastTime ∧
    lastSecond.next_second.as_unix_epoch = some (lastSecond.calendar_seconds + 1) := by
  have hv : lastSecond.Valid := ⟨by decide, by decide, by decide, by decide, ⟨31, by decide⟩,
    by decide, by decide⟩
  exact ⟨hv, by decide, (epoch_is_gregorian hv).2 (by decide)⟩

end CurrentTime

end zenos_kernel.time
