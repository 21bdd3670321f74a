import Mathlib.Data.List.Basic
import Mathlib.Order.Monotone.Basic

/-!
# Dates and the texts of times

The Gregorian calendar, day by day, and a time as the digits of its date, its hour and its minute.
Every day is later than the day before (`dateOf_strictMono`), so **two times have the same text
exactly when they lie in the same minute** (`stamp_inj`).

Dates are counted from a first day on, so that "later" is one order on numbers and the leap years
are in one function. The text of a time ends in parts of two digits each, and what stands before
them is the year, however many digits it has.
-/

set_option autoImplicit false

namespace HyChat.Lib.Calendar

structure Date where
  year : Nat
  month : Nat
  day : Nat
  deriving DecidableEq

def isLeap (year : Nat) : Bool := year % 4 == 0 && (year % 100 != 0 || year % 400 == 0)

def daysIn (year month : Nat) : Nat :=
  if month = 2 then if isLeap year then 29 else 28
  else if month = 4 ∨ month = 6 ∨ month = 9 ∨ month = 11 then 30 else 31

def Date.next (d : Date) : Date :=
  if d.day < daysIn d.year d.month then { d with day := d.day + 1 }
  else if d.month < 12 then ⟨d.year, d.month + 1, 1⟩
  else ⟨d.year + 1, 1, 1⟩

/-- The date that many days after the epoch -/
def dateOf : Nat → Date
  | 0 => ⟨1970, 1, 1⟩
  | n + 1 => (dateOf n).next

structure Date.Valid (d : Date) : Prop where
  month : 1 ≤ d.month ∧ d.month ≤ 12
  day : 1 ≤ d.day ∧ d.day ≤ 31

/-- Dates in their order -/
def Date.rank (d : Date) : Nat := (d.year * 13 + d.month) * 32 + d.day

theorem daysIn_le (year month : Nat) : daysIn year month ≤ 31 := by
  unfold daysIn
  split
  · split <;> omega
  · split <;> omega

theorem Date.Valid.next {d : Date} (h : d.Valid) : d.next.Valid := by
  obtain ⟨⟨hm, hm'⟩, hd, hd'⟩ := h
  have hle := daysIn_le d.year d.month
  unfold Date.next
  split
  · exact ⟨⟨hm, hm'⟩, by simp, by simp only; omega⟩
  · split
    · exact ⟨⟨by simp, by simp only; omega⟩, by simp, by simp⟩
    · exact ⟨by simp, by simp⟩

theorem valid_dateOf (n : Nat) : (dateOf n).Valid := by
  induction n with
  | zero => exact ⟨by decide, by decide⟩
  | succ n ih => exact ih.next

theorem Date.Valid.rank_lt_next {d : Date} (h : d.Valid) : d.rank < d.next.rank := by
  obtain ⟨⟨hm, hm'⟩, hd, hd'⟩ := h
  unfold Date.next
  split
  · simp only [Date.rank]
    omega
  · split
    · simp only [Date.rank]
      omega
    · simp only [Date.rank]
      omega

/-- **Every day is later than the day before.** -/
theorem dateOf_strictMono : StrictMono fun n => (dateOf n).rank :=
  strictMono_nat_of_lt_succ fun n => (valid_dateOf n).rank_lt_next

theorem dateOf_injective : Function.Injective dateOf := fun _ _ h =>
  dateOf_strictMono.injective (congrArg Date.rank h)

/-! ## Texts -/

/-- Two digits -/
def pad2 (n : Nat) : List Char := [(n / 10).digitChar, (n % 10).digitChar]

theorem digitChar_inj : ∀ a < 10, ∀ b < 10, a.digitChar = b.digitChar → a = b := by decide

theorem pad2_inj {a b : Nat} (ha : a < 100) (hb : b < 100) (h : pad2 a = pad2 b) : a = b := by
  simp only [pad2, List.cons.injEq, and_true] at h
  have htens := digitChar_inj (a / 10) (by omega) (b / 10) (by omega) h.1
  have hunits := digitChar_inj (a % 10) (by omega) (b % 10) (by omega) h.2
  omega

/-- The minutes, the hours and the days of a time in seconds -/
def minuteOf (seconds : Nat) : Nat := seconds / 60

/-- `strftime("%Y%m%d%H%M")` -/
def stamp (seconds : Nat) : List Char :=
  let date := dateOf (minuteOf seconds / 1440)
  Nat.toDigits 10 date.year ++ (pad2 date.month ++ pad2 date.day ++
    pad2 (minuteOf seconds % 1440 / 60) ++ pad2 (minuteOf seconds % 60))

theorem toDigits_inj {a b : Nat} (h : Nat.toDigits 10 a = Nat.toDigits 10 b) : a = b := by
  rw [← Nat.ofDigitChars_ten_toDigits (n := a), h, Nat.ofDigitChars_ten_toDigits]

/-- **The text of a time is the name of its minute.** -/
theorem stamp_inj {t t' : Nat} : stamp t = stamp t' ↔ minuteOf t = minuteOf t' := by
  constructor
  · intro h
    obtain ⟨⟨-, hm⟩, -, hd⟩ := valid_dateOf (minuteOf t / 1440)
    obtain ⟨⟨-, hm'⟩, -, hd'⟩ := valid_dateOf (minuteOf t' / 1440)
    obtain ⟨hyear, hrest⟩ := List.append_inj' h rfl
    obtain ⟨hrest, hminute⟩ := List.append_inj' hrest rfl
    obtain ⟨hrest, hhour⟩ := List.append_inj' hrest rfl
    obtain ⟨hmonth, hday⟩ := List.append_inj' hrest rfl
    have hyear := toDigits_inj hyear
    have hmonth := pad2_inj (by omega) (by omega) hmonth
    have hday := pad2_inj (by omega) (by omega) hday
    have hhour := pad2_inj (by omega) (by omega) hhour
    have hminute := pad2_inj (by omega) (by omega) hminute
    have hdate : dateOf (minuteOf t / 1440) = dateOf (minuteOf t' / 1440) := by
      cases hc : dateOf (minuteOf t / 1440)
      cases hc' : dateOf (minuteOf t' / 1440)
      rw [hc, hc'] at hyear hmonth hday
      exact Date.mk.injEq .. ▸ ⟨hyear, hmonth, hday⟩
    have hdays := dateOf_injective hdate
    omega
  · intro h
    rw [stamp, stamp, h]

theorem stamp_digits (t : Nat) : ∀ c ∈ stamp t, c ≠ ':' := by
  have hdigit : ∀ n < 16, n.digitChar ≠ ':' := by decide
  have hpad : ∀ n < 100, ∀ c ∈ pad2 n, c ≠ ':' := by
    intro n hn
    exact List.forall_mem_cons.mpr ⟨hdigit _ (by omega),
      List.forall_mem_singleton.mpr (hdigit _ (by omega))⟩
  obtain ⟨⟨-, hm⟩, -, hd⟩ := valid_dateOf (minuteOf t / 1440)
  refine List.forall_mem_append.mpr ⟨fun c hc => ?_, ?_⟩
  · have hc' := Nat.isDigit_of_mem_toDigits (by decide) (by decide) hc
    rintro rfl
    exact absurd hc' (by decide)
  · refine List.forall_mem_append.mpr ⟨List.forall_mem_append.mpr ⟨List.forall_mem_append.mpr
      ⟨hpad _ (by omega), hpad _ (by omega)⟩, hpad _ (by omega)⟩, hpad _ (by omega)⟩

end HyChat.Lib.Calendar
