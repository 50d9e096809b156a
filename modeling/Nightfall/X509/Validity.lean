import Nightfall.X509.Certificate

/-! The validity dates of a certificate against the calendar: `checkDates` compares midnights. -/

namespace Nightfall.X509

open Bytes Contract Revert

def isLeapYear (year : ℕ) : Bool := decide (year % 4 = 0 ∧ (year % 100 ≠ 0 ∨ year % 400 = 0))

def monthLength (year month : ℕ) : ℕ :=
  if month = 2 then if isLeapYear year then 29 else 28
  else if month = 4 ∨ month = 6 ∨ month = 9 ∨ month = 11 then 30 else 31

def daysBeforeYear : ℕ → ℕ
  | 0 => 0
  | years + 1 => daysBeforeYear years + if isLeapYear (1970 + years) then 366 else 365

def daysBeforeMonth (year : ℕ) : ℕ → ℕ
  | 0 => 0
  | months + 1 => daysBeforeMonth year months + monthLength year (months + 1)

/-- A date and time of day of the years 2000 to 2099, as `YYMMDDhhmmssZ` writes it. -/
structure UtcTime where
  year : ℕ
  month : ℕ
  day : ℕ
  hour : ℕ
  minute : ℕ
  second : ℕ
  inCentury : year < 100
  isMonth : 1 ≤ month ∧ month ≤ 12
  isDay : 1 ≤ day ∧ day ≤ monthLength (2000 + year) month
  isTime : hour < 24 ∧ minute < 60 ∧ second < 60

def twoLetters (value : ℕ) : ByteString := [UInt8.ofNat (48 + value / 10), UInt8.ofNat (48 + value % 10)]

namespace UtcTime

variable (time : UtcTime)

def encode : ByteString :=
  twoLetters time.year ++ twoLetters time.month ++ twoLetters time.day ++ twoLetters time.hour ++
    twoLetters time.minute ++ twoLetters time.second ++ ascii "Z"

def timeOfDay : ℕ := time.hour * 3600 + time.minute * 60 + time.second

/-- Midnight of the date, in seconds since 1970. -/
def midnight : ℕ :=
  (daysBeforeYear (30 + time.year) + daysBeforeMonth (2000 + time.year) (time.month - 1) + (time.day - 1)) * 86400

def instant : ℕ := time.midnight + time.timeOfDay

end UtcTime

theorem daysFromDate_month : ∀ year < 100, ∀ month : ℕ, month < 13 → 1 ≤ month →
    daysFromDate ((year : ℕ) + 2000) month 1 =
      (daysBeforeYear (30 + year) + daysBeforeMonth (2000 + year) (month - 1) : ℕ) := by decide +kernel

theorem daysFromDate_day (year month day : ℤ) :
    daysFromDate year month day = daysFromDate year month 1 + (day - 1) := by
  simp only [daysFromDate]
  omega

theorem monthLength_le (year month : ℕ) : monthLength year month ≤ 31 := by
  rw [monthLength]
  split
  · split <;> decide
  · split <;> decide

theorem decimalDigit_eq {utcTime : ByteString} {index digit : ℕ} (small : digit < 10)
    (found : utcTime[index]? = some (UInt8.ofNat (48 + digit))) : decimalDigit utcTime index = .ok digit := by
  have isLetter : (UInt8.ofNat (48 + digit)).toNat = 48 + digit := by
    rw [UInt8.toNat_ofNat']
    omega
  simp only [decimalDigit, bind_eq_ok, readAt_eq_ok, require_eq_ok, pure_eq_ok]
  exact ⟨_, found, (), by omega, by omega⟩

theorem twoDigits_eq {utcTime : ByteString} {index value : ℕ} (small : value < 100)
    (found : slice utcTime index 2 = twoLetters value) : twoDigits utcTime index = .ok value := by
  have letter (offset : ℕ) (inside : offset < 2) : utcTime[index + offset]? = (twoLetters value)[offset]? := by
    rw [← found, slice, List.getElem?_take_of_lt inside, List.getElem?_drop]
  simp only [twoDigits, bind_eq_ok, pure_eq_ok]
  exact ⟨_, decimalDigit_eq (by omega) (letter 0 (by decide)), _,
    decimalDigit_eq (Nat.mod_lt value (by decide)) (letter 1 (by decide)), by omega⟩

theorem timestampFromDate_encode (time : UtcTime) : timestampFromDate time.encode = .ok time.midnight := by
  have inCentury := time.inCentury
  have isMonth := time.isMonth
  have isDay := time.isDay
  have atMost := monthLength_le (2000 + time.year) time.month
  have days : daysFromDate (time.year + 2000) time.month time.day =
      (daysBeforeYear (30 + time.year) + daysBeforeMonth (2000 + time.year) (time.month - 1) + (time.day - 1) : ℕ) := by
    rw [daysFromDate_day, daysFromDate_month time.year inCentury time.month (by omega) isMonth.1]
    omega
  simp only [timestampFromDate, bind_eq_ok, require_eq_ok, pure_eq_ok]
  refine ⟨_, twoDigits_eq inCentury rfl, _, twoDigits_eq (by omega) rfl, _, twoDigits_eq (by omega) rfl, (),
    by omega, (), ?_, ?_⟩
  · rw [days]
    exact Int.natCast_nonneg _
  · rw [days, Int.toNat_natCast, UtcTime.midnight]

section

variable {tlvs : List DecodedTlv} {first second : DecodedTlv} (isFirst : tlvs[sequenceIndex tlvs 3 + 1]? = some first)
  (isSecond : tlvs[sequenceIndex tlvs 3 + 2]? = some second) {notBefore notAfter : UtcTime}
  (utcTimes : first.tag.tagType = 0x17 ∧ second.tag.tagType = 0x17)
  (dates : first.value = notBefore.encode ∧ second.value = notAfter.encode)

include isFirst isSecond utcTimes dates

theorem checkDates_eq_ok (timestamp expiry : ℕ) : checkDates timestamp tlvs = .ok expiry ↔
    notBefore.midnight < timestamp ∧ timestamp < notAfter.midnight ∧ expiry = notAfter.midnight := by
  have read (time : UtcTime) (result : ℕ) : timestampFromDate time.encode = .ok result ↔ time.midnight = result := by
    rw [timestampFromDate_encode, Except.ok.injEq]
  simp only [checkDates, bind_eq_ok, readAt_eq_ok, require_eq_ok, pure_eq_ok, isFirst, isSecond, Option.some.injEq]
  constructor
  · rintro ⟨_, rfl, _, _, _, rfl, _, _, _, before, _, early, _, after, _, late, rfl⟩
    rw [dates.1, read] at before
    rw [dates.2, read] at after
    exact ⟨before ▸ early, after ▸ late, after.symm⟩
  · rintro ⟨early, late, rfl⟩
    exact ⟨_, rfl, (), utcTimes.1, _, rfl, (), utcTimes.2, _, dates.1 ▸ timestampFromDate_encode _, (), early, _,
      dates.2 ▸ timestampFromDate_encode _, (), late, rfl⟩

/-- A certificate passes between the midnights of its two dates, whatever their times of day say: the interval
it names is checked only if both times are midnight, or nothing lies in either interval. -/
theorem checkDates_between_midnights :
    (∀ timestamp expiry, checkDates timestamp tlvs = .ok expiry ↔ notBefore.instant - notBefore.timeOfDay < timestamp ∧
      timestamp < notAfter.instant - notAfter.timeOfDay ∧ expiry = notAfter.instant - notAfter.timeOfDay) ∧
    ((∀ timestamp expiry, checkDates timestamp tlvs = .ok expiry ↔
        notBefore.instant < timestamp ∧ timestamp < notAfter.instant ∧ expiry = notAfter.instant) ↔
      notBefore.timeOfDay = 0 ∧ notAfter.timeOfDay = 0 ∨
        notAfter.midnight ≤ notBefore.midnight + 1 ∧ notAfter.instant ≤ notBefore.instant + 1) := by
  have midnight (time : UtcTime) : time.instant - time.timeOfDay = time.midnight := Nat.add_sub_cancel ..
  have instant (time : UtcTime) : time.instant = time.midnight + time.timeOfDay := rfl
  simp only [checkDates_eq_ok isFirst isSecond utcTimes dates, midnight, implies_true, true_and]
  constructor
  · intro same
    have start := same (notBefore.midnight + 1) notAfter.midnight
    have later := same (notBefore.instant + 1) notAfter.instant
    rw [instant, instant] at *
    omega
  · intro agrees timestamp expiry
    rw [instant, instant] at *
    omega

end

def noon : UtcTime := ⟨24, 2, 29, 12, 0, 0, by decide, by decide, by decide, by decide⟩

def lastDay : UtcTime := ⟨24, 12, 31, 23, 59, 59, by decide, by decide, by decide, by decide⟩

def datedTlvs : List DecodedTlv :=
  List.replicate 3 ⟨0, 0, ⟨true, 0x10⟩, 0, [], [], 2⟩ ++
    [⟨0, 0, ⟨false, 0x17⟩, 0, noon.encode, [], 3⟩, ⟨0, 0, ⟨false, 0x17⟩, 0, lastDay.encode, [], 3⟩]

theorem checkDates_between_midnights_leapDay :
    checkDates 1709200000 datedTlvs = .ok (lastDay.instant - lastDay.timeOfDay) :=
  ((@checkDates_between_midnights datedTlvs _ _ rfl rfl noon lastDay ⟨rfl, rfl⟩ ⟨rfl, rfl⟩).1 _ _).mpr
    ⟨by decide, by decide, rfl⟩

theorem checkDates_before_notBefore : checkDates 1709200000 datedTlvs = .ok 1735603200 ∧
    1709200000 < noon.instant ∧ lastDay.instant = 1735689599 := by decide +kernel

end Nightfall.X509
