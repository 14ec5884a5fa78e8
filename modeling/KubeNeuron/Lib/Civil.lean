import Mathlib.Data.Int.Basic

/-!
# The proleptic Gregorian calendar

Day numbers count from 1970-01-01. The calendar is computed on years that start in March, so that
the leap day is the last day of a year; an era is 400 such years. `daysOfCivil_civilOfDays` says
that a date denotes the day it was computed from, and `civilOfDays_valid` that the computed date is
a date of the calendar.
-/

namespace KubeNeuron.Lib

/-- A calendar date. -/
structure Civil where
  year : Int
  month : Int
  day : Int

def isLeap (y : Int) : Bool := y % 4 == 0 && (y % 100 != 0 || y % 400 == 0)

/-- The number of days of a month. -/
def daysIn (y m : Int) : Int :=
  if m = 2 then (if isLeap y then 29 else 28)
  else if m = 4 ∨ m = 6 ∨ m = 9 ∨ m = 11 then 30
  else 31

theorem daysIn_le (y m : Int) : daysIn y m ≤ 31 := by
  rw [daysIn]
  split_ifs
  all_goals omega

/-- The year of an era that the day `doe` of the era falls in: centuries, then groups of four years,
then single years, the last of each kind being the one that may be a day longer. -/
def yearOfEra (doe : Int) : Int :=
  let century := min (doe / 36524) 3
  let dayOfCentury := doe - 36524 * century
  let four := dayOfCentury / 1461
  let dayOfFour := dayOfCentury - 1461 * four
  100 * century + 4 * four + min (dayOfFour / 365) 3

/-- The day of the era on which the year `yoe` of the era starts. -/
def yearStart (yoe : Int) : Int := 365 * yoe + yoe / 4 - yoe / 100

def civilOfDays (z : Int) : Civil :=
  let doe := (z + 719468) % 146097
  let yoe := yearOfEra doe
  let doy := doe - yearStart yoe
  let mp := (5 * doy + 2) / 153
  { year := yoe + (z + 719468) / 146097 * 400 + (if 10 ≤ mp then 1 else 0)
    month := if mp < 10 then mp + 3 else mp - 9
    day := doy - (153 * mp + 2) / 5 + 1 }

def daysOfCivil (c : Civil) : Int :=
  let y := if c.month ≤ 2 then c.year - 1 else c.year
  let mp := if 2 < c.month then c.month - 3 else c.month + 9
  y / 400 * 146097 + yearStart (y % 400) + ((153 * mp + 2) / 5 + c.day - 1) - 719468

theorem yearOfEra_parts {doe : Int} (h0 : 0 ≤ doe) (h1 : doe < 146097) :
    ∃ century four single doy : Int, yearOfEra doe = 100 * century + 4 * four + single ∧
      doe = 36524 * century + 1461 * four + 365 * single + doy ∧
      0 ≤ century ∧ century ≤ 3 ∧ 0 ≤ four ∧ four ≤ 24 ∧ 0 ≤ single ∧ single ≤ 3 ∧
      0 ≤ doy ∧ doy ≤ 365 ∧ (doy = 365 → single = 3 ∧ (four = 24 → century = 3)) := by
  refine ⟨min (doe / 36524) 3, (doe - 36524 * min (doe / 36524) 3) / 1461,
    min ((doe - 36524 * min (doe / 36524) 3 -
      1461 * ((doe - 36524 * min (doe / 36524) 3) / 1461)) / 365) 3,
    doe - 36524 * min (doe / 36524) 3 - 1461 * ((doe - 36524 * min (doe / 36524) 3) / 1461) -
      365 * min ((doe - 36524 * min (doe / 36524) 3 -
        1461 * ((doe - 36524 * min (doe / 36524) 3) / 1461)) / 365) 3, rfl, by omega, ?_⟩
  have hc0 : 0 ≤ min (doe / 36524) 3 := by omega
  have hc3 : min (doe / 36524) 3 ≤ 3 := by omega
  have hd0 : 0 ≤ doe - 36524 * min (doe / 36524) 3 := by omega
  have hd1 : doe - 36524 * min (doe / 36524) 3 ≤ 36524 := by omega
  have hl : doe - 36524 * min (doe / 36524) 3 = 36524 → min (doe / 36524) 3 = 3 := by omega
  generalize min (doe / 36524) 3 = century at *
  generalize doe - 36524 * century = dayOfCentury at *
  omega

theorem yearStart_parts (century : Int) {four single : Int} (h0 : 0 ≤ four) (h1 : four ≤ 24)
    (h2 : 0 ≤ single) (h3 : single ≤ 3) :
    yearStart (100 * century + 4 * four + single) =
      36524 * century + 1461 * four + 365 * single := by
  unfold yearStart
  omega

theorem civilOfDays_parts (z : Int) : ∃ era century four single doy mp : Int, civilOfDays z =
        { year := 100 * century + 4 * four + single + era * 400 + (if 10 ≤ mp then 1 else 0)
          month := if mp < 10 then mp + 3 else mp - 9
          day := doy - (153 * mp + 2) / 5 + 1 } ∧
      z + 719468 = 146097 * era + 36524 * century + 1461 * four + 365 * single + doy ∧
      (0 ≤ century ∧ century ≤ 3) ∧ (0 ≤ four ∧ four ≤ 24) ∧ (0 ≤ single ∧ single ≤ 3) ∧
      (0 ≤ doy ∧ doy ≤ 365) ∧ (doy = 365 → single = 3 ∧ (four = 24 → century = 3)) ∧
      (0 ≤ mp ∧ mp ≤ 11) ∧ 153 * mp ≤ 5 * doy + 2 ∧ 5 * doy + 2 < 153 * mp + 153 := by
  have h0 : 0 ≤ (z + 719468) % 146097 := by omega
  have h1 : (z + 719468) % 146097 < 146097 := by omega
  obtain ⟨c, f, s, doy, hy, _, hc0, hc3, hf0, hf1, hs0, hs1, hdoy0, hdoy1, hl⟩ :=
    yearOfEra_parts h0 h1
  have hdoy : (z + 719468) % 146097 - yearStart (100 * c + 4 * f + s) = doy := by
    rw [yearStart_parts c hf0 hf1 hs0 hs1]
    omega
  refine ⟨(z + 719468) / 146097, c, f, s, doy, (5 * doy + 2) / 153, ?_, by omega, ⟨hc0, hc3⟩,
    ⟨hf0, hf1⟩, ⟨hs0, hs1⟩, ⟨hdoy0, hdoy1⟩, hl, by omega, by omega, by omega⟩
  simp only [civilOfDays, hy, hdoy]

/-- **A computed date denotes the day it was computed from.** -/
theorem daysOfCivil_civilOfDays (z : Int) : daysOfCivil (civilOfDays z) = z := by
  obtain ⟨era, c, f, s, _, mp, hciv, _, _, hf, hs, _, -, _, _, _⟩ :=
    civilOfDays_parts z
  have ht := yearStart_parts c hf.1 hf.2 hs.1 hs.2
  -- months from March to December keep the year; January and February belong to the next one
  by_cases hl : mp < 10
  · have hy : (100 * c + 4 * f + s + era * 400) / 400 = era := by omega
    have hyoe : (100 * c + 4 * f + s + era * 400) % 400 = 100 * c + 4 * f + s := by omega
    simp only [hciv, daysOfCivil, hl, if_true, if_neg (by omega : ¬ 10 ≤ mp), Int.add_zero,
      if_neg (by omega : ¬ mp + 3 ≤ 2), if_pos (by omega : 2 < mp + 3), hy, hyoe, ht]
    omega
  have hy : (100 * c + 4 * f + s + era * 400 + 1 - 1) / 400 = era := by omega
  have hyoe : (100 * c + 4 * f + s + era * 400 + 1 - 1) % 400 = 100 * c + 4 * f + s := by omega
  simp only [hciv, daysOfCivil, hl, if_false, if_pos (by omega : 10 ≤ mp),
    if_pos (by omega : mp - 9 ≤ 2), if_neg (by omega : ¬ 2 < mp - 9), hy, hyoe, ht]
  omega

/-- **A computed date is a date of the calendar.** -/
theorem civilOfDays_valid (z : Int) :
    1 ≤ (civilOfDays z).month ∧ (civilOfDays z).month ≤ 12 ∧ 1 ≤ (civilOfDays z).day ∧
      (civilOfDays z).day ≤ daysIn (civilOfDays z).year (civilOfDays z).month := by
  obtain ⟨_, _, _, _, doy, mp, hciv, _, _, _, _, _, hlast, _, _, _⟩ :=
    civilOfDays_parts z
  rw [hciv]
  simp only
  have hday : 1 ≤ doy - (153 * mp + 2) / 5 + 1 := by omega
  by_cases ht : mp < 10
  · rw [if_pos ht, if_neg (by omega : ¬ 10 ≤ mp)]
    refine ⟨by omega, by omega, hday, ?_⟩
    rw [daysIn, if_neg (by omega : ¬ mp + 3 = 2)]
    split_ifs with h30 <;> omega
  rw [if_neg ht, if_pos (by omega : 10 ≤ mp)]
  refine ⟨by omega, by omega, hday, ?_⟩
  rw [daysIn]
  split_ifs with hfeb hl h30
  · omega
  · -- the 366th day of a March-based year is the leap day of the calendar year it ends in
    by_cases h366 : doy = 365
    · obtain ⟨_, _⟩ := hlast h366
      refine absurd ?_ hl
      simp only [isLeap, Bool.and_eq_true, Bool.or_eq_true, beq_iff_eq, bne_iff_ne, ne_eq]
      omega
    · omega
  · omega
  · omega

end KubeNeuron.Lib
