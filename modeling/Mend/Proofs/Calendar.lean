import Mathlib.Algebra.Ring.Int.Defs
import Mathlib.Algebra.Ring.Nat
import Mend.Calendar

/-!
# Dates that are read back

* `daysOf_ofDays`: the year, the month and the day that a day has tell that day.
* `number?_padded`: a number that is written with zeros in front is read back.
* `ofText?_text`: the moment that the text of a moment writes is that moment.
-/

namespace Mend

namespace Date

/-! ## Days and moments -/

/-- The year of a cycle that a day is in: the day is one of its 366 at most. -/
theorem yearOfCycle_spec {day : Int} (hlow : 0 ≤ day) (hhigh : day < 146097) :
    0 ≤ yearOfCycle day ∧ yearOfCycle day < 400 ∧ daysBefore (yearOfCycle day) ≤ day ∧
      day ≤ daysBefore (yearOfCycle day) + 365 := by
  obtain ⟨year, hyear⟩ : ∃ year, year = yearOfCycle day := ⟨_, rfl⟩
  rw [← hyear]
  unfold yearOfCycle at hyear
  unfold daysBefore
  rcases Int.lt_or_le day 146096 with h | h
  · have hcentury : day / 36524 = 0 ∨ day / 36524 = 1 ∨ day / 36524 = 2 ∨ day / 36524 = 3 := by
      omega
    -- Four years have 1460 or 1461 days, so that the year is off from four times the number of
    -- 1460 days by no more than four.
    obtain ⟨four, hfour⟩ : ∃ four, four = day / 1460 := ⟨_, rfl⟩
    have hnear : year = 4 * four - 1 ∨ year = 4 * four ∨ year = 4 * four + 1 ∨
        year = 4 * four + 2 ∨ year = 4 * four + 3 ∨ year = 4 * four + 4 := by omega
    have hsame : year / 100 = day / 36524 := by
      rcases hcentury with hc | hc | hc | hc <;> rw [hc] at hyear ⊢ <;> omega
    rcases hnear with hn | hn | hn | hn | hn | hn <;> omega
  · have hlast : day = 146096 := by omega
    omega

/-- A day by its cycle, the year of the cycle, and the day and the month of that year, which begins
in March. -/
theorem exists_ofDays (n : Int) : ∃ cycle year day month,
    ofDays n = (year + cycle * 400 + (if month < 10 then 0 else 1),
      if month < 10 then month + 3 else month - 9, day - (153 * month + 2) / 5 + 1) ∧
    n = cycle * 146097 + daysBefore year + day - 719468 ∧
    0 ≤ year ∧ year < 400 ∧ 0 ≤ day ∧ day ≤ 365 ∧ month = (5 * day + 2) / 153 := by
  have hlow : 0 ≤ (n + 719468) % 146097 := by omega
  have hhigh : (n + 719468) % 146097 < 146097 := by omega
  obtain ⟨hyear, hyear', hfirst, hlast⟩ := yearOfCycle_spec hlow hhigh
  let year := yearOfCycle ((n + 719468) % 146097)
  let day := (n + 719468) % 146097 - daysBefore year
  have hday : 0 ≤ day ∧ day ≤ 365 :=
    ⟨Int.sub_nonneg.mpr hfirst, Int.sub_left_le_of_le_add hlast⟩
  refine ⟨(n + 719468) / 146097, year, day, (5 * day + 2) / 153, ?_, by omega, hyear, hyear',
    hday.1, hday.2, rfl⟩
  show (_, _) = _
  refine Prod.ext ?_ rfl
  show year + (n + 719468) / 146097 * 400 + _ = year + (n + 719468) / 146097 * 400 + _
  congr 1
  split <;> split <;> omega

/-- **A day is told by its year, its month and its day.** -/
theorem daysOf_ofDays (n : Int) : daysOf (ofDays n).1 (ofDays n).2.1 (ofDays n).2.2 = n := by
  obtain ⟨cycle, year, day, month, hdays, hn, hyear, hyear', hday, hday', hmonth⟩ :=
    exists_ofDays n
  rw [hdays]
  unfold daysOf
  dsimp only
  by_cases hmarch : month < 10
  · have hlate : ¬ month + 3 ≤ 2 := by omega
    have hcycle : (year + cycle * 400 + 0) / 400 = cycle := by omega
    have hrest : (year + cycle * 400 + 0) % 400 = year := by omega
    simp only [if_pos hmarch, if_neg hlate, hcycle, hrest]
    omega
  · have hearly : month - 9 ≤ 2 := by omega
    have hcycle : (year + cycle * 400 + 1 - 1) / 400 = cycle := by omega
    have hrest : (year + cycle * 400 + 1 - 1) % 400 = year := by omega
    simp only [if_neg hmarch, if_pos hearly, hcycle, hrest]
    omega

theorem toInstant_ofInstant (i : Instant) : (ofInstant i).toInstant = i := by
  obtain ⟨⟨count⟩⟩ := i
  unfold ofInstant toInstant
  dsimp only
  rw [daysOf_ofDays]
  congr 2
  omega

/-! ## Numbers with zeros in front -/

theorem toList_padded (width k : Nat) : (padded width k).toList =
    List.replicate (width - (Nat.toDigits 10 k).length) '0' ++ Nat.toDigits 10 k := by
  simp [padded]

theorem isDigit_of_mem_padded {width k : Nat} {c : Char} (h : c ∈ (padded width k).toList) :
    c.isDigit = true := by
  rw [toList_padded] at h
  rcases List.mem_append.mp h with h | h
  · rw [List.eq_of_mem_replicate h]
    rfl
  · exact Nat.isDigit_of_mem_toDigits (by omega) (by omega) h

theorem length_padded (width : Nat) {digits k : Nat} (hdigits : 0 < digits) (hk : k < 10 ^ digits) :
    width ≤ (padded width k).toList.length ∧
      (padded width k).toList.length ≤ max width digits := by
  have hlength : (Nat.toDigits 10 k).length ≤ digits :=
    (Nat.length_toDigits_le_iff (by omega) hdigits).mpr hk
  rw [toList_padded, List.length_append, List.length_replicate]
  omega

/-- **A number that is written with zeros in front is read back**, and so is what stands behind
it. -/
theorem number?_padded {width : Nat} {n : Int} (hwidth : 0 < width) (hlow : 0 ≤ n)
    (hhigh : n < 10 ^ width) (rest : List Char) :
    number? width ((padded width n).toList ++ rest) = some (n, rest) := by
  obtain ⟨k, rfl⟩ := Int.eq_ofNat_of_zero_le hlow
  have hk : k < 10 ^ width := by exact_mod_cast hhigh
  have hlength : (padded width k).toList.length = width := by
    have h := length_padded width hwidth hk
    omega
  have hall : (padded width k).toList.all Char.isDigit = true :=
    List.all_eq_true.mpr fun c hc => isDigit_of_mem_padded hc
  have hvalue : Nat.ofDigitChars 10 (padded width k).toList 0 = k := by
    rw [toList_padded, Nat.ofDigitChars_append, Nat.ofDigitChars_replicate_zero, Nat.mul_zero,
      Nat.ofDigitChars_toDigits (by omega) (by omega)]
  unfold number?
  rw [List.take_left' hlength, List.drop_left' hlength]
  simp only [hall, hlength, hvalue, decide_true, Bool.and_self, if_true]

/-! ## Texts -/

@[simp] theorem past?_cons (c : Char) (t : List Char) : past? c (c :: t) = some t := if_pos rfl

theorem fraction?_text {n : Int} (hlow : 0 ≤ n) (hhigh : n < 10 ^ 6) :
    fraction? (if n = 0 then "" else "." ++ padded 6 n).toList = some n := by
  by_cases hn : n = 0
  · rw [if_pos hn, hn]
    rfl
  · have hdot : ".".toList = ['.'] := rfl
    have hnumber := number?_padded (by decide : 0 < 6) hlow hhigh []
    rw [List.append_nil] at hnumber
    rw [if_neg hn, String.toList_append, hdot, List.singleton_append, fraction?]
    simp [hnumber]

/-- The parts of a date have the usual number of digits. -/
structure InDigits (d : Date) : Prop where
  year : 0 ≤ d.year ∧ d.year < 10 ^ 4
  month : 0 ≤ d.month ∧ d.month < 10 ^ 2
  day : 0 ≤ d.day ∧ d.day < 10 ^ 2
  hour : 0 ≤ d.hour ∧ d.hour < 10 ^ 2
  minute : 0 ≤ d.minute ∧ d.minute < 10 ^ 2
  second : 0 ≤ d.second ∧ d.second < 10 ^ 2
  microsecond : 0 ≤ d.microsecond ∧ d.microsecond < 10 ^ 6

theorem InDigits.ofText?_text {d : Date} (h : d.InDigits) : ofText? d.text = some d := by
  have htext : d.text.toList = (padded 4 d.year).toList ++ '-' :: ((padded 2 d.month).toList ++
      '-' :: ((padded 2 d.day).toList ++ 'T' :: ((padded 2 d.hour).toList ++
      ':' :: ((padded 2 d.minute).toList ++ ':' :: ((padded 2 d.second).toList ++
      (if d.microsecond = 0 then "" else "." ++ padded 6 d.microsecond).toList))))) := by
    have hdash : "-".toList = ['-'] := rfl
    have ht : "T".toList = ['T'] := rfl
    have hcolon : ":".toList = [':'] := rfl
    simp only [text, dayText, String.toList_append, hdash, ht, hcolon, List.append_assoc,
      List.cons_append, List.nil_append]
  unfold ofText?
  rw [htext]
  simp only [number?_padded (by decide : 0 < 4) h.year.1 h.year.2,
    number?_padded (by decide : 0 < 2) h.month.1 h.month.2,
    number?_padded (by decide : 0 < 2) h.day.1 h.day.2,
    number?_padded (by decide : 0 < 2) h.hour.1 h.hour.2,
    number?_padded (by decide : 0 < 2) h.minute.1 h.minute.2,
    number?_padded (by decide : 0 < 2) h.second.1 h.second.2,
    fraction?_text h.microsecond.1 h.microsecond.2, past?_cons, Option.bind_eq_bind,
    Option.bind_some]
  rfl

end Date

/-- The year of a moment is one that dates are written for. -/
def Instant.HasDate (i : Instant) : Prop :=
  1 ≤ (Date.ofInstant i).year ∧ (Date.ofInstant i).year ≤ 9999

instance (i : Instant) : Decidable i.HasDate := inferInstanceAs (Decidable (_ ∧ _))

namespace Instant.HasDate

theorem inDigits {i : Instant} (h : i.HasDate) : (Date.ofInstant i).InDigits := by
  obtain ⟨⟨count⟩⟩ := i
  obtain ⟨cycle, year, day, month, hdays, -, -, -, hday, hday', hmonth⟩ :=
    Date.exists_ofDays (count / 1000000 / 86400)
  have hmonths : 0 ≤ (Date.ofDays (count / 1000000 / 86400)).2.1 ∧
      (Date.ofDays (count / 1000000 / 86400)).2.1 < 10 ^ 2 := by
    rw [hdays]
    dsimp only
    split <;> omega
  have hdayOfMonth : 0 ≤ (Date.ofDays (count / 1000000 / 86400)).2.2 ∧
      (Date.ofDays (count / 1000000 / 86400)).2.2 < 10 ^ 2 := by
    rw [hdays]
    dsimp only
    omega
  refine ⟨⟨?_, ?_⟩, hmonths, hdayOfMonth, ?_, ?_, ?_, ?_⟩
  · exact Int.le_trans (by decide) h.1
  · exact Int.lt_of_le_of_lt h.2 (by decide)
  all_goals
    dsimp only [Date.ofInstant]
    omega

/-- **The moment that the text of a moment writes is that moment.** -/
theorem ofText?_text {i : Instant} (h : i.HasDate) : Instant.ofText? i.text = some i := by
  unfold Instant.ofText? Instant.text
  rw [h.inDigits.ofText?_text]
  simp only [Date.toInstant_ofInstant, if_true]

/-- The name of a folder for a moment has digits, hyphens and a letter, and 19 characters at
most. -/
theorem stamp_spec {i : Instant} (h : i.HasDate) :
    (∀ c ∈ i.stamp.toList, c.isDigit = true ∨ c = '-' ∨ c = 'T') ∧
      0 < i.stamp.toList.length ∧ i.stamp.toList.length ≤ 19 := by
  have hpart : ∀ (width : Nat) {digits : Nat} {n : Int}, 0 < digits → 0 ≤ n ∧ n < 10 ^ digits →
      (∀ c ∈ (Date.padded width n).toList, c.isDigit = true ∨ c = '-' ∨ c = 'T') ∧
        width ≤ (Date.padded width n).toList.length ∧
        (Date.padded width n).toList.length ≤ max width digits := by
    intro width digits n hdigits hn
    obtain ⟨k, rfl⟩ := Int.eq_ofNat_of_zero_le hn.1
    have hk : k < 10 ^ digits := by exact_mod_cast hn.2
    exact ⟨fun c hc => .inl (Date.isDigit_of_mem_padded hc), Date.length_padded width hdigits hk⟩
  obtain ⟨hyear, hyear', hyear''⟩ := hpart 1 (by decide) h.inDigits.year
  obtain ⟨hmonth, -, hmonth'⟩ := hpart 2 (by decide) h.inDigits.month
  obtain ⟨hday, -, hday'⟩ := hpart 2 (by decide) h.inDigits.day
  obtain ⟨hhour, -, hhour'⟩ := hpart 2 (by decide) h.inDigits.hour
  obtain ⟨hminute, -, hminute'⟩ := hpart 2 (by decide) h.inDigits.minute
  obtain ⟨hsecond, -, hsecond'⟩ := hpart 2 (by decide) h.inDigits.second
  have hdash : "-".toList = ['-'] := rfl
  have ht : "T".toList = ['T'] := rfl
  unfold Instant.stamp Date.stamp
  simp only [String.toList_append, hdash, ht, List.length_append, List.length_singleton]
  refine ⟨?_, by omega, by omega⟩
  simp only [List.forall_mem_append, List.forall_mem_singleton]
  exact ⟨⟨⟨⟨⟨⟨⟨⟨⟨⟨hyear, by decide⟩, hmonth⟩, by decide⟩, hday⟩, by decide⟩, hhour⟩, by decide⟩,
    hminute⟩, by decide⟩, hsecond⟩

end Instant.HasDate

end Mend
