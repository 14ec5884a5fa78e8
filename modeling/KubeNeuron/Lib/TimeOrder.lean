import KubeNeuron.Lib.GoTime

/-!
# The order of timestamps in text

Timestamps are compared as texts in places. The text of a time has a fixed width up to the second
for the years 0 to 9999, but the fraction of a second is printed without its trailing zeros, and a
whole second without a fraction: `.` sorts before `Z`. So the texts follow the order of the seconds,
and within a second any order is possible. `lt_of_text_lt` is the bound that remains.
-/

namespace KubeNeuron.Lib

open GoTime

/-! ## Texts of equal width -/

theorem append_lt_append {u v : Str} (x y : Str) (hl : u.length = v.length) (h : u < v) :
    u ++ x < v ++ y := by
  induction u generalizing v with
  | nil =>
    cases v with
    | nil => exact absurd h (List.lt_irrefl _)
    | cons => cases hl
  | cons a u ih =>
    cases v with
    | nil => cases hl
    | cons =>
      rw [List.cons_append, List.cons_append, List.cons_lt_cons_iff]
      obtain hab | ⟨rfl, huv⟩ := List.cons_lt_cons_iff.1 h
      · exact .inl hab
      · exact .inr ⟨rfl, ih (Nat.succ.inj hl) huv⟩

theorem digit_lt {m n : Nat} (h : m % 10 < n % 10) :
    (48 + m % 10).toUInt8 < (48 + n % 10).toUInt8 := by
  rw [UInt8.lt_iff_toNat_lt, toNat_digit, toNat_digit]
  omega

theorem fixedDigits_lt {w m n : Nat} (h : m < n) (hn : n < 10 ^ w) :
    fixedDigits w m < fixedDigits w n := by
  induction w generalizing m n with
  | zero =>
    rw [Nat.pow_zero] at hn
    omega
  | succ w ih =>
    rw [Nat.pow_succ] at hn
    rw [fixedDigits, fixedDigits]
    by_cases htens : m / 10 < n / 10
    · refine append_lt_append _ _ ?_ (ih htens (by omega))
      rw [length_fixedDigits, length_fixedDigits]
    · have he : m / 10 = n / 10 := by omega
      rw [he]
      exact List.append_left_lt (List.cons_lt_cons_iff.2 (.inl (digit_lt (by omega))))

theorem field_lt {w m n : Nat} {x y : Str} (hn : n < 10 ^ w) (h : m < n ∨ m = n ∧ x < y) :
    fixedDigits w m ++ x < fixedDigits w n ++ y := by
  obtain hlt | ⟨rfl, hxy⟩ := h
  · refine append_lt_append _ _ ?_ (fixedDigits_lt hlt hn)
    rw [length_fixedDigits, length_fixedDigits]
  · exact List.append_left_lt hxy

/-! ## Dates -/

/-- The day before in the order of the dates. -/
def Civil.Before (c d : Civil) : Prop :=
  c.year < d.year ∨ c.year = d.year ∧ (c.month < d.month ∨ c.month = d.month ∧ c.day < d.day)

theorem civilOfDays_before {z z' : Int} (h : z < z') : (civilOfDays z).Before (civilOfDays z') := by
  obtain ⟨era, c, f, s, doy, mp, hciv, hz, _, _, _, _, hl, _, _, _⟩ := civilOfDays_parts z
  obtain ⟨era', c', f', s', doy', mp', hciv', hz', _, _, _, _, hl', _, _, _⟩ :=
    civilOfDays_parts z'
  -- the parts of a day are digits in a mixed base, so the first that differs decides
  have hy : 100 * c + 4 * f + s + era * 400 < 100 * c' + 4 * f' + s' + era' * 400 ∨
      100 * c + 4 * f + s + era * 400 = 100 * c' + 4 * f' + s' + era' * 400 ∧ doy < doy' := by
    omega
  clear hz hz' hl hl'
  rw [hciv, hciv', Civil.Before]
  dsimp only
  generalize 100 * c + 4 * f + s + era * 400 = year at hy ⊢
  generalize 100 * c' + 4 * f' + s' + era' * 400 = year' at hy ⊢
  -- January and February belong to the next year
  split_ifs <;> omega

/-! ## Times -/

def utcText (ns : Int) : Str := formatRFC3339Nano (fun _ => 0) ⟨ns, .utc, none⟩

theorem utcText_eq (ns : Int) : utcText ns = clockText ns ++ [0x5A] := by
  rw [utcText, formatRFC3339Nano]
  simp only [Zone.offset, Int.zero_mul, Int.add_zero]
  rfl

theorem isDigitByte_head {w n : Nat} (hw : 0 < w) (x : Str) :
    ∃ b t, fixedDigits w n ++ x = b :: t ∧ isDigitByte b = true := by
  cases hdigs : fixedDigits w n with
  | nil =>
    have hl := length_fixedDigits w n
    rw [hdigs] at hl
    rw [← hl] at hw
    cases hw
  | cons b t =>
    have hm : b ∈ fixedDigits w n := by
      rw [hdigs]
      exact .head _
    exact ⟨b, t ++ x, rfl, isDigitByte_of_mem_fixedDigits hm⟩

theorem second_lt {a b : Int} (h : b / 1000000000 < a / 1000000000) :
    dayOf b < dayOf a ∨ dayOf b = dayOf a ∧
      nanoOfDay b / 1000000000 < nanoOfDay a / 1000000000 := by
  rw [dayOf, dayOf, nanoOfDay, nanoOfDay]
  omega

theorem clock_lt {m n : Nat} (x y : Str) (h : m / 1000000000 < n / 1000000000)
    (hn : n < 86400000000000) :
    fixedDigits 2 (m / 3600000000000) ++ 0x3A :: (fixedDigits 2 (m / 60000000000 % 60) ++ 0x3A ::
        (fixedDigits 2 (m / 1000000000 % 60) ++ x)) <
      fixedDigits 2 (n / 3600000000000) ++ 0x3A :: (fixedDigits 2 (n / 60000000000 % 60) ++ 0x3A ::
        (fixedDigits 2 (n / 1000000000 % 60) ++ y)) := by
  apply field_lt (by omega)
  by_cases hhour : m / 3600000000000 < n / 3600000000000
  · exact .inl hhour
  refine .inr ⟨by omega, List.cons_lt_cons_iff.2 (.inr ⟨rfl, ?_⟩)⟩
  apply field_lt (by omega)
  by_cases hminute : m / 60000000000 % 60 < n / 60000000000 % 60
  · exact .inl hminute
  refine .inr ⟨by omega, List.cons_lt_cons_iff.2 (.inr ⟨rfl, ?_⟩)⟩
  apply field_lt (by omega)
  exact .inl (by omega)

theorem utcText_lt {a b : Int} (hy : (civilOfDays (dayOf a)).year ≤ 9999)
    (hp : 0 ≤ (civilOfDays (dayOf a)).year) (h : b / 1000000000 < a / 1000000000) :
    utcText b < utcText a := by
  obtain ⟨_, _, _, hday1⟩ := civilOfDays_valid (dayOf a)
  have hday31 := Int.le_trans hday1 (daysIn_le _ _)
  obtain ⟨_, _, _, _⟩ := civilOfDays_valid (dayOf b)
  have hord : (civilOfDays (dayOf b)).Before (civilOfDays (dayOf a)) ∨
      civilOfDays (dayOf b) = civilOfDays (dayOf a) ∧
        nanoOfDay b / 1000000000 < nanoOfDay a / 1000000000 := by
    obtain hday | ⟨hday, hs⟩ := second_lt h
    · exact .inl (civilOfDays_before hday)
    · exact .inr ⟨congrArg civilOfDays hday, hs⟩
  rw [utcText_eq, utcText_eq, clockText, clockText]
  simp only [List.append_assoc, List.cons_append]
  generalize civilOfDays (dayOf a) = c at *
  generalize civilOfDays (dayOf b) = d at *
  rw [yearText_of_nonneg hp hy]
  by_cases hsign : d.year < 0
  · -- a sign sorts before every digit
    obtain ⟨_, _, ht, he⟩ := isDigitByte_head (w := 4) (n := c.year.toNat) (by decide)
      (0x2D :: (fixedDigits 2 c.month.toNat ++ 0x2D :: (fixedDigits 2 c.day.toNat ++
        0x54 :: (fixedDigits 2 (nanoOfDay a / 3600000000000) ++ 0x3A ::
          (fixedDigits 2 (nanoOfDay a / 60000000000 % 60) ++ 0x3A ::
            (fixedDigits 2 (nanoOfDay a / 1000000000 % 60) ++
              (fractionText (nanoOfDay a % 1000000000) ++ [0x5A])))))))
    rw [ht, yearText, if_pos hsign, List.cons_append, List.cons_lt_cons_iff]
    left
    simp only [isDigitByte, Bool.and_eq_true, decide_eq_true_eq] at he
    exact UInt8.lt_of_lt_of_le (by decide) he.1
  · have hle : d.year ≤ c.year := by
      obtain hb | ⟨rfl, -⟩ := hord
      · rw [Civil.Before] at hb
        omega
      · exact Int.le_refl _
    rw [yearText_of_nonneg (by omega) (by omega)]
    apply field_lt (by omega)
    obtain hb | ⟨rfl, hs⟩ := hord
    · obtain hlt | ⟨heq, hb⟩ := hb
      · exact .inl (by omega)
      refine .inr ⟨by rw [heq], List.cons_lt_cons_iff.2 (.inr ⟨rfl, ?_⟩)⟩
      apply field_lt (by omega)
      obtain _ | ⟨heq, _⟩ := hb
      · exact .inl (by omega)
      · refine .inr ⟨by rw [heq], List.cons_lt_cons_iff.2 (.inr ⟨rfl, ?_⟩)⟩
        exact field_lt (by omega) (.inl (by omega))
    · refine .inr ⟨rfl, List.cons_lt_cons_iff.2 (.inr ⟨rfl, List.append_left_lt ?_⟩)⟩
      refine List.cons_lt_cons_iff.2 (.inr ⟨rfl, List.append_left_lt ?_⟩)
      exact List.cons_lt_cons_iff.2 (.inr ⟨rfl, clock_lt _ _ hs (nanoOfDay_lt a)⟩)

/-- **What the order of two texts tells.** A time in the years 0 to 9999 whose text is smaller than
that of another time is less than a second after it. -/
theorem lt_of_text_lt {a b : Int} (hy : (civilOfDays (dayOf a)).year ≤ 9999)
    (hp : 0 ≤ (civilOfDays (dayOf a)).year) (h : utcText a < utcText b) : a < b + 1000000000 := by
  by_contra hnot
  have hlt := utcText_lt (b := b) hy hp (by omega)
  exact List.lt_irrefl _ (List.lt_trans h hlt)

end KubeNeuron.Lib
