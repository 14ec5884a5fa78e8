import Mathlib.Data.List.Basic

/-!
# Byte strings and their UTF-8 runes

A string of the source is a list of bytes; nothing makes it valid UTF-8. `runeLen` is the length of
the rune at the head of a byte string, or `0` when no valid encoding starts there, and `units` cuts
a byte string into runes and stray bytes in the order a decoder meets them.

`toValid` replaces each stray byte by the encoding of U+FFFD. It changes nothing in a valid
string (`toValid_eq_self`).
-/

namespace KubeNeuron.Lib

/-- A string of the source: a list of bytes. -/
abbrev Str : Type := List UInt8

instance lawfulStr : LawfulBEq Str := inferInstanceAs (LawfulBEq (List UInt8))

/-- The bytes of a literal. -/
def lit (s : String) : Str := s.toList.flatMap String.utf8EncodeChar

/-- The byte of an ASCII character. -/
def byte (c : Char) : UInt8 := c.toNat.toUInt8

/-! ## The rune at the head of a string -/

/-- A byte that continues a multi-byte rune. -/
def isCont (b : UInt8) : Bool := 0x80 ≤ b && b ≤ 0xBF

/-- The second byte of a three-byte rune whose first byte is `b`: overlong forms and surrogates are
excluded. -/
def second3 (b c : UInt8) : Bool :=
  (if b = 0xE0 then 0xA0 else 0x80) ≤ c && c ≤ (if b = 0xED then 0x9F else 0xBF)

/-- The second byte of a four-byte rune whose first byte is `b`: overlong forms and values above
U+10FFFF are excluded. -/
def second4 (b c : UInt8) : Bool :=
  (if b = 0xF0 then 0x90 else 0x80) ≤ c && c ≤ (if b = 0xF4 then 0x8F else 0xBF)

/-- The number of bytes a rune that starts with `b` has, `0` when none does. -/
def leadWidth (b : UInt8) : Nat :=
  if b < 0x80 then 1
  else if 0xC2 ≤ b && b ≤ 0xDF then 2
  else if 0xE0 ≤ b && b ≤ 0xEF then 3
  else if 0xF0 ≤ b && b ≤ 0xF4 then 4
  else 0

/-- The bytes after the first byte `b` complete a rune. -/
def tailOk (b : UInt8) : Str → Bool
  | [] => leadWidth b == 1
  | [c] => leadWidth b == 2 && isCont c
  | [c, d] => leadWidth b == 3 && second3 b c && isCont d
  | [c, d, e] => leadWidth b == 4 && second4 b c && isCont d && isCont e
  | _ => false

/-- The length of the valid rune at the head of a byte string, `0` when there is none. -/
def runeLen : Str → Nat
  | [] => 0
  | b :: s => if tailOk b (s.take (leadWidth b - 1)) then leadWidth b else 0

theorem tailOk_length {b : UInt8} {t : Str} (h : tailOk b t = true) :
    t.length + 1 = leadWidth b := by
  match t with
  | [] =>
    simp only [tailOk, beq_iff_eq] at h
    simp [h]
  | [c] =>
    simp only [tailOk, Bool.and_eq_true, beq_iff_eq] at h
    simp [h.1]
  | [c, d] =>
    simp only [tailOk, Bool.and_eq_true, beq_iff_eq] at h
    simp [h.1.1]
  | [c, d, e] =>
    simp only [tailOk, Bool.and_eq_true, beq_iff_eq] at h
    simp [h.1.1.1]
  | _ :: _ :: _ :: _ :: _ => simp [tailOk] at h

theorem runeLen_cons_pos {b : UInt8} {s : Str} (h : 0 < runeLen (b :: s)) :
    tailOk b (s.take (leadWidth b - 1)) = true ∧ runeLen (b :: s) = leadWidth b := by
  by_cases ht : tailOk b (s.take (leadWidth b - 1)) = true
  · exact ⟨ht, by simp [runeLen, ht]⟩
  · simp [runeLen, ht] at h

theorem runeLen_le (s : Str) : runeLen s ≤ s.length := by
  cases s with
  | nil => simp [runeLen]
  | cons b s =>
    by_cases h : 0 < runeLen (b :: s)
    · obtain ⟨ht, hl⟩ := runeLen_cons_pos h
      have hn := tailOk_length ht
      rw [List.length_take] at hn
      rw [List.length_cons]
      omega
    · omega

theorem runeLen_append {s : Str} (t : Str) (h : 0 < runeLen s) :
    runeLen (s ++ t) = runeLen s := by
  cases s with
  | nil => simp [runeLen] at h
  | cons =>
    obtain ⟨ht, hl⟩ := runeLen_cons_pos h
    have hn := tailOk_length ht
    rw [List.length_take] at hn
    rw [hl, List.cons_append, runeLen, List.take_append_of_le_length (by omega), if_pos ht]

theorem runeLen_take (s : Str) : runeLen (s.take (runeLen s)) = runeLen s := by
  cases s with
  | nil => rfl
  | cons b s =>
    by_cases h : 0 < runeLen (b :: s)
    · obtain ⟨ht, hl⟩ := runeLen_cons_pos h
      have hlen := tailOk_length ht
      obtain ⟨n, hn⟩ : ∃ n, leadWidth b = n + 1 := ⟨_, hlen.symm⟩
      rw [hl, hn, List.take_succ_cons, runeLen, hn, Nat.add_sub_cancel, List.take_take,
        Nat.min_self]
      rw [hn, Nat.add_sub_cancel] at ht
      rw [if_pos ht]
    · have hz : runeLen (b :: s) = 0 := by omega
      rw [hz]
      rfl

/-! ## Cutting a string into runes -/

/-- A piece of a byte string as a decoder meets it: a rune, or a byte that starts none. -/
inductive RuneUnit where
  | rune (bytes : Str)
  | stray (b : UInt8)

/-- Cut a string into units; `skip` bytes belong to the rune taken last. -/
def unitsFrom : Nat → Str → List RuneUnit
  | _, [] => []
  | skip + 1, _ :: s => unitsFrom skip s
  | 0, b :: s =>
    if runeLen (b :: s) = 0 then .stray b :: unitsFrom 0 s
    else .rune ((b :: s).take (runeLen (b :: s))) :: unitsFrom (runeLen (b :: s) - 1) s

def units (s : Str) : List RuneUnit := unitsFrom 0 s

/-- The encoding of U+FFFD, the replacement character. -/
def replacement : Str := [0xEF, 0xBF, 0xBD]

/-- The bytes a unit reads as: a stray byte reads as the replacement character. -/
def RuneUnit.read : RuneUnit → Str
  | .rune bytes => bytes
  | .stray _ => replacement

/-- A string with each stray byte replaced by U+FFFD. -/
def toValid (s : Str) : Str := (units s).flatMap RuneUnit.read

def ValidUTF8 (s : Str) : Prop := ∀ b, RuneUnit.stray b ∉ units s

instance (s : Str) : Decidable (ValidUTF8 s) :=
  decidable_of_iff ((units s).all fun
    | .rune _ => true
    | .stray _ => false) (by
      rw [List.all_eq_true]
      constructor
      · intro h b hb
        exact absurd (h _ hb) (by simp)
      intro h u hu
      cases u with
      | rune => rfl
      | stray b => exact absurd hu (h b))

/-- A unit that a cut can produce: a rune unit holds exactly one rune. -/
def RuneUnit.WellFormed : RuneUnit → Prop
  | .rune bytes => 0 < runeLen bytes ∧ runeLen bytes = bytes.length
  | .stray _ => True

theorem unitsFrom_wellFormed (skip : Nat) (s : Str) : ∀ u ∈ unitsFrom skip s, u.WellFormed := by
  induction s generalizing skip with
  | nil => simp [unitsFrom]
  | cons b s ih =>
    cases skip with
    | succ skip => exact ih skip
    | zero =>
      intro u hu
      rw [unitsFrom] at hu
      split_ifs at hu with h
      · obtain _ | ⟨_, hu⟩ := hu
        · trivial
        · exact ih 0 u hu
      obtain _ | ⟨_, hu⟩ := hu
      · constructor
        · rw [runeLen_take]
          omega
        · rw [runeLen_take, List.length_take]
          have := runeLen_le (b :: s)
          omega
      · exact ih _ u hu

theorem units_wellFormed (s : Str) : ∀ u ∈ units s, u.WellFormed :=
  unitsFrom_wellFormed 0 s

theorem unitsFrom_flatMap (skip : Nat) (s : Str) (h : ∀ b, RuneUnit.stray b ∉ unitsFrom skip s) :
    (unitsFrom skip s).flatMap RuneUnit.read = s.drop skip := by
  induction s generalizing skip with
  | nil => simp [unitsFrom]
  | cons b s ih =>
    cases skip with
    | succ skip => exact ih skip h
    | zero =>
      rw [unitsFrom] at h ⊢
      split_ifs at h ⊢ with hz
      · exact absurd (.head _) (h b)
      rw [List.flatMap_cons, ih _ (fun c hc => h c (List.mem_cons_of_mem _ hc))]
      obtain ⟨n, hn⟩ : ∃ n, runeLen (b :: s) = n + 1 := ⟨_, (Nat.succ_pred hz).symm⟩
      rw [hn, RuneUnit.read, Nat.add_sub_cancel, List.take_succ_cons, List.cons_append,
        List.take_append_drop, List.drop_zero]

theorem validUTF8_nil : ValidUTF8 [] := by decide

theorem toValid_eq_self {s : Str} (h : ValidUTF8 s) : toValid s = s :=
  unitsFrom_flatMap 0 s h

theorem unitsFrom_append_rune {r : Str} (hr : (RuneUnit.rune r).WellFormed) (s : Str) :
    units (r ++ s) = .rune r :: units s := by
  obtain ⟨hp, hl⟩ := hr
  obtain ⟨b, t, rfl⟩ : ∃ b t, r = b :: t := by
    cases r with
    | nil => simp [runeLen] at hp
    | cons b t => exact ⟨b, t, rfl⟩
  have ha : runeLen (b :: (t ++ s)) = (b :: t).length := by
    rw [← List.cons_append, runeLen_append s hp, hl]
  have hskip : ∀ t, unitsFrom t.length (t ++ s) = unitsFrom 0 s := by
    intro t
    induction t with
    | nil => rfl
    | cons c t ih => exact ih
  rw [List.cons_append, units, unitsFrom, ha, ← List.cons_append,
    List.take_left' rfl, List.length_cons, Nat.add_sub_cancel, hskip]
  rfl

theorem wellFormed_replacement : (RuneUnit.rune replacement).WellFormed := ⟨by decide, by decide⟩

theorem units_flatMap_read (us : List RuneUnit) (h : ∀ u ∈ us, u.WellFormed) :
    units (us.flatMap RuneUnit.read) = us.map fun u => .rune u.read := by
  induction us with
  | nil => rfl
  | cons u _ ih =>
    have hu : (RuneUnit.rune u.read).WellFormed := by
      cases u with
      | rune => exact h _ (.head _)
      | stray => exact wellFormed_replacement
    rw [List.flatMap_cons, unitsFrom_append_rune hu, ih fun v hv => h v (List.mem_cons_of_mem _ hv)]
    rfl

theorem validUTF8_of_units {α : Type} {s : Str} {l : List α} {f : α → Str}
    (h : units s = l.map fun a => .rune (f a)) : ValidUTF8 s := by
  intro b hb
  rw [h] at hb
  obtain ⟨_, -, hu⟩ := List.mem_map.1 hb
  cases hu

theorem validUTF8_toValid (s : Str) : ValidUTF8 (toValid s) :=
  validUTF8_of_units (units_flatMap_read _ (units_wellFormed s))

theorem toValid_toValid (s : Str) : toValid (toValid s) = toValid s :=
  toValid_eq_self (validUTF8_toValid s)

theorem ValidUTF8.append {s t : Str} (hs : ValidUTF8 s) (ht : ValidUTF8 t) :
    ValidUTF8 (s ++ t) := by
  have hwell : ∀ u ∈ units s ++ units t, u.WellFormed :=
    List.forall_mem_append.2 ⟨units_wellFormed s, units_wellFormed t⟩
  have heq : s ++ t = (units s ++ units t).flatMap RuneUnit.read := by
    rw [List.flatMap_append]
    exact congrArg₂ _ (toValid_eq_self hs).symm (toValid_eq_self ht).symm
  rw [heq]
  exact validUTF8_of_units (units_flatMap_read _ hwell)

theorem validUTF8_rune {r : Str} (hr : (RuneUnit.rune r).WellFormed) : ValidUTF8 r := by
  have hunits := unitsFrom_append_rune hr []
  rw [List.append_nil] at hunits
  exact validUTF8_of_units (l := [r]) (f := id) hunits

end KubeNeuron.Lib
