import Mathlib.Data.Int.Notation
import Mathlib.Data.List.Basic

/-! Days of the Gregorian calendar by number, instants in microseconds, and their ISO text. -/
namespace Library

def microsPerSecond : ℤ := 1000000
def microsPerDay : ℤ := 86400 * microsPerSecond

/-- Decimal digits, filled up with zeros. -/
def paddedDigits (width n : ℕ) : List Char := (Nat.toDigits 10 n).leftpad width '0'

/-- Year, month and day of the day with a number; day one starts year one. -/
def civilDate (ordinal : ℕ) : ℕ × ℕ × ℕ :=
  -- Years are counted from March here, so that a leap day ends one.
  let days := ordinal + 305
  let dayOfEra := days % 146097
  let yearOfEra := (dayOfEra - dayOfEra / 1460 + dayOfEra / 36524 - dayOfEra / 146096) / 365
  let dayOfYear := dayOfEra - (365 * yearOfEra + yearOfEra / 4 - yearOfEra / 100)
  let monthIndex := (5 * dayOfYear + 2) / 153
  let month := if monthIndex < 10 then monthIndex + 3 else monthIndex - 9
  (400 * (days / 146097) + yearOfEra + (if month ≤ 2 then 1 else 0),month,
    dayOfYear - (153 * monthIndex + 2) / 5 + 1)

def isoDate (ordinal : ℤ) : List Char :=
  let (year,month,day) := civilDate ordinal.toNat
  paddedDigits 4 year ++ '-' :: (paddedDigits 2 month ++ '-' :: paddedDigits 2 day)

/-- An instant in UTC, down to the second. -/
def isoSeconds (instant : ℤ) : List Char :=
  let seconds := (instant % microsPerDay / microsPerSecond).toNat
  isoDate (instant / microsPerDay) ++ 'T' :: (paddedDigits 2 (seconds / 3600) ++ ':' ::
    (paddedDigits 2 (seconds / 60 % 60) ++ ':' :: (paddedDigits 2 (seconds % 60) ++ "+00:00".toList)))

example : isoSeconds (739766 * microsPerDay + 52200 * microsPerSecond) = "2026-05-30T14:30:00+00:00".toList := by
  decide

theorem isDigit_of_mem_paddedDigits {width n : ℕ} {c : Char} (h : c ∈ paddedDigits width n) :
    c.isDigit = true := by
  rw [paddedDigits,List.leftpad,List.mem_append] at h
  rcases h with h | h
  · obtain rfl := List.eq_of_mem_replicate h
    rfl
  · exact Nat.isDigit_of_mem_toDigits (by decide) (by decide) h

theorem mem_isoDate {ordinal : ℤ} {c : Char} (h : c ∈ isoDate ordinal) : c.isDigit = true ∨ c = '-' := by
  simp only [isoDate,List.mem_append,List.mem_cons] at h
  rcases h with h | rfl | h | rfl | h
  · exact .inl (isDigit_of_mem_paddedDigits h)
  · exact .inr rfl
  · exact .inl (isDigit_of_mem_paddedDigits h)
  · exact .inr rfl
  · exact .inl (isDigit_of_mem_paddedDigits h)

/-- A character that is neither a digit nor a dash is in no date. -/
theorem not_mem_isoDate {c : Char} (hd : c.isDigit = false) (hc : c ≠ '-') (ordinal : ℤ) :
    c ∉ isoDate ordinal := by
  intro h
  rcases mem_isoDate h with h | h
  · exact absurd (hd.symm.trans h) (by decide)
  · exact hc h

end Library
