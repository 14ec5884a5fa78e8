import KubeNeuron.Lib.Bytes

/-!
# JSON strings and numbers as bytes

Reading back a written string gives it with its stray bytes replaced (`readString_quote`). Written
strings hold no line feed (`newline_not_mem_quote`). Numbers are kept as their text.
-/

namespace KubeNeuron.Lib

variable {b : UInt8} {r s : Str} {u : RuneUnit}

/-! ## Writing strings -/

/-- The lower-case hexadecimal digit of a number below sixteen. -/
def hexByte (n : Nat) : UInt8 := if n < 10 then (48 + n).toUInt8 else (87 + n).toUInt8

/-- One ASCII byte inside a JSON string. -/
def quoteAscii (b : UInt8) : Str :=
  if b = 0x22 ∨ b = 0x5C then [0x5C, b]
  else if b = 0x08 then [0x5C, 0x62]
  else if b = 0x0C then [0x5C, 0x66]
  else if b = 0x0A then [0x5C, 0x6E]
  else if b = 0x0D then [0x5C, 0x72]
  else if b = 0x09 then [0x5C, 0x74]
  else if b < 0x20 ∨ b = 0x3C ∨ b = 0x3E ∨ b = 0x26 then
    [0x5C, 0x75, 0x30, 0x30, hexByte (b.toNat / 16), hexByte (b.toNat % 16)]
  else [b]

/-- One unit inside a JSON string. -/
def quoteUnit : RuneUnit → Str
  | .stray _ => lit "\\ufffd"
  | .rune [b] => quoteAscii b
  | .rune bytes =>
    if bytes = [0xE2, 0x80, 0xA8] then lit "\\u2028"
    else if bytes = [0xE2, 0x80, 0xA9] then lit "\\u2029"
    else bytes

theorem quoteUnit_long (b c : UInt8) (t : Str) : quoteUnit (.rune (b :: c :: t)) =
      if b :: c :: t = [0xE2, 0x80, 0xA8] then lit "\\u2028"
      else if b :: c :: t = [0xE2, 0x80, 0xA9] then lit "\\u2029"
      else b :: c :: t := rfl

/-- A JSON string: the units of `s` between quotes. -/
def quote (s : Str) : Str := 0x22 :: ((units s).flatMap quoteUnit ++ [0x22])

/-! ## Reading strings -/

/-- The value of a hexadecimal digit. -/
def hexVal (b : UInt8) : Option Nat :=
  if 0x30 ≤ b ∧ b ≤ 0x39 then some (b.toNat - 48)
  else if 0x61 ≤ b ∧ b ≤ 0x66 then some (b.toNat - 87)
  else if 0x41 ≤ b ∧ b ≤ 0x46 then some (b.toNat - 55)
  else none

/-- Four hexadecimal digits. -/
def hex4 : Str → Option (Nat × Str)
  | a :: b :: c :: d :: s =>
    match hexVal a, hexVal b, hexVal c, hexVal d with
    | some a, some b, some c, some d => some (((a * 16 + b) * 16 + c) * 16 + d, s)
    | _, _, _, _ => none
  | _ => none

/-- The UTF-8 encoding of a code point; surrogates and values above U+10FFFF encode as U+FFFD. -/
def encodeRune (n : Nat) : Str :=
  if n < 0x80 then [n.toUInt8]
  else if n < 0x800 then [(0xC0 + n / 64).toUInt8, (0x80 + n % 64).toUInt8]
  else if 0xD800 ≤ n ∧ n < 0xE000 then replacement
  else if n < 0x10000 then
    [(0xE0 + n / 4096).toUInt8, (0x80 + n / 64 % 64).toUInt8, (0x80 + n % 64).toUInt8]
  else if n < 0x110000 then
    [(0xF0 + n / 262144).toUInt8, (0x80 + n / 4096 % 64).toUInt8, (0x80 + n / 64 % 64).toUInt8,
      (0x80 + n % 64).toUInt8]
  else replacement

/-- The low half of a surrogate pair, written as an escape at the head of `s`. -/
def readLowSurrogate : Str → Option (Nat × Str)
  | 0x5C :: 0x75 :: s =>
    match hex4 s with
    | some (n, s') => if 0xDC00 ≤ n ∧ n < 0xE000 then some (n, s') else none
    | none => none
  | _ => none

/-- What an escape reads as; the backslash is already consumed. A lone surrogate reads as
U+FFFD. -/
def readEscape : Str → Option (Str × Str)
  | [] => none
  | c :: s =>
    if c = 0x22 ∨ c = 0x5C ∨ c = 0x2F then some ([c], s)
    else if c = 0x62 then some ([0x08], s)
    else if c = 0x66 then some ([0x0C], s)
    else if c = 0x6E then some ([0x0A], s)
    else if c = 0x72 then some ([0x0D], s)
    else if c = 0x74 then some ([0x09], s)
    else if c = 0x75 then
      match hex4 s with
      | none => none
      | some (n, s') =>
        if 0xD800 ≤ n ∧ n < 0xDC00 then
          match readLowSurrogate s' with
          | some (m, s'') =>
            some (encodeRune (0x10000 + (n - 0xD800) * 1024 + (m - 0xDC00)), s'')
          | none => some (replacement, s')
        else some (encodeRune n, s')
    else none

/-- Put read bytes in front of the rest of a string. -/
def emit (u : Str) (p : Str × Str) : Str × Str := (u ++ p.1, p.2)

/-- Read a JSON string up to its closing quote; the opening quote is already consumed. -/
def readString : Nat → Str → Option (Str × Str)
  | 0, _ => none
  | _ + 1, [] => none
  | fuel + 1, b :: s =>
    if b = 0x22 then some ([], s)
    else if b = 0x5C then
      match readEscape s with
      | none => none
      | some (u, s') => (readString fuel s').map (emit u)
    else if b < 0x20 then none
    else if runeLen (b :: s) = 0 then (readString fuel s).map (emit replacement)
    else
      (readString fuel ((b :: s).drop (runeLen (b :: s)))).map
        (emit ((b :: s).take (runeLen (b :: s))))

/-! ## What is written is valid -/

theorem runeLen_ascii (h : b < 0x80) (s : Str) : runeLen (b :: s) = 1 := by
  have hw : leadWidth b = 1 := by simp [leadWidth, h]
  simp [runeLen, hw, tailOk]

theorem units_ascii (h : ∀ b ∈ s, b < 0x80) : units s = s.map fun b => .rune [b] := by
  induction s with
  | nil => rfl
  | cons b s ih =>
    have hl := runeLen_ascii (h b (.head _)) s
    have ht : units s = s.map fun b => .rune [b] := ih fun c hc => h c (.tail _ hc)
    rw [units, unitsFrom, hl, List.map_cons, ← ht]
    rfl

theorem validUTF8_of_ascii (h : ∀ b ∈ s, b < 0x80) : ValidUTF8 s :=
  validUTF8_of_units (units_ascii h)

theorem ascii_of_wellFormed (h : (RuneUnit.rune [b]).WellFormed) : b < 0x80 := by
  obtain ⟨hp, hl⟩ := h
  obtain ⟨-, hw⟩ := runeLen_cons_pos hp
  rw [hl] at hw
  by_contra hb
  simp only [leadWidth, List.length_singleton] at hw
  split_ifs at hw <;> omega

theorem not_ascii_of_wellFormed {c : UInt8}
    (h : (RuneUnit.rune (b :: c :: s)).WellFormed) : ¬ b < 0x80 := by
  intro hb
  have := runeLen_ascii hb (c :: s)
  rw [h.2] at this
  simp at this

theorem quoteAscii_bytes (hb : b < 0x80) : ∀ c ∈ quoteAscii b, c < 0x80 ∧ c ≠ 0x0A := by
  have hall : ∀ n : Fin 128, ∀ c ∈ quoteAscii n.val.toUInt8, c < 0x80 ∧
      c ≠ 0x0A := by decide +kernel
  simpa using hall ⟨b.toNat, hb⟩

theorem validUTF8_quoteUnit (hu : u.WellFormed) : ValidUTF8 (quoteUnit u) := by
  cases u with
  | stray =>
    have hescape : ValidUTF8 (lit "\\ufffd") := by decide
    exact hescape
  | rune r =>
    obtain _ | ⟨_, _ | ⟨_, _⟩⟩ := r
    · exact validUTF8_nil
    · exact validUTF8_of_ascii fun c hc => (quoteAscii_bytes (ascii_of_wellFormed hu) c hc).1
    rw [quoteUnit_long]
    split_ifs
    · decide
    · decide
    · exact validUTF8_rune hu

theorem validUTF8_quote (s : Str) : ValidUTF8 (quote s) := by
  have hunits : ∀ us : List RuneUnit, (∀ u ∈ us, u.WellFormed) →
      ValidUTF8 (us.flatMap quoteUnit) := by
    intro us
    induction us with
    | nil => exact fun _ => validUTF8_nil
    | cons u _ ih =>
      intro h
      apply (validUTF8_quoteUnit (h u (.head _))).append
      exact ih fun v hv => h v (.tail _ hv)
  have hm : ValidUTF8 [0x22] := by decide
  exact hm.append ((hunits _ (units_wellFormed s)).append hm)

/-! ## What is read is valid -/

theorem isCont_low (r : Fin 64) : isCont (0x80 + r.val).toUInt8 = true := by
  revert r
  decide

theorem wellFormed_of_tailOk {t : Str} (h : tailOk b t = true) :
    (RuneUnit.rune (b :: t)).WellFormed := by
  have hl := tailOk_length h
  have hrune : runeLen (b :: t) = leadWidth b := by
    rw [runeLen, List.take_of_length_le (by omega), if_pos h]
  constructor
  · omega
  · rw [hrune]
    exact hl.symm

theorem validUTF8_encodeRune (n : Nat) : ValidUTF8 (encodeRune n) := by
  have hc : ∀ m, isCont (0x80 + m % 64).toUInt8 = true := fun m =>
    isCont_low ⟨m % 64, Nat.mod_lt _ (by decide)⟩
  have hrepl : ValidUTF8 replacement := validUTF8_rune wellFormed_replacement
  rw [encodeRune]
  split_ifs with h1 h2 hsurrogate h3 h4
  · have hascii : ∀ m : Fin 128, m.val.toUInt8 < 0x80 := by decide
    exact validUTF8_of_ascii fun b hb => List.mem_singleton.1 hb ▸ hascii ⟨n, h1⟩
  · have hlead : ∀ q : Fin 32, 2 ≤ q.val → leadWidth (0xC0 + q.val).toUInt8 = 2 := by decide
    apply validUTF8_rune
    apply wellFormed_of_tailOk
    rw [tailOk, hlead ⟨n / 64, by omega⟩ (by simp only; omega), hc]
    rfl
  · exact hrepl
  · have hlead : ∀ q : Fin 16, leadWidth (0xE0 + q.val).toUInt8 = 3 := by decide
    have hs : ∀ q : Fin 16, ∀ r : Fin 64, (q.val = 0 → 32 ≤ r.val) → (q.val = 13 → r.val < 32) →
        second3 (0xE0 + q.val).toUInt8 (0x80 + r.val).toUInt8 = true := by decide +kernel
    apply validUTF8_rune
    apply wellFormed_of_tailOk
    rw [tailOk, hlead ⟨n / 4096, by omega⟩, hc,
      hs ⟨n / 4096, by omega⟩ ⟨n / 64 % 64, by omega⟩ (by simp only; omega) (by simp only; omega)]
    rfl
  · have hlead : ∀ q : Fin 5, leadWidth (0xF0 + q.val).toUInt8 = 4 := by decide
    have hs : ∀ q : Fin 5, ∀ r : Fin 64, (q.val = 0 → 16 ≤ r.val) → (q.val = 4 → r.val < 16) →
        second4 (0xF0 + q.val).toUInt8 (0x80 + r.val).toUInt8 = true := by decide +kernel
    apply validUTF8_rune
    apply wellFormed_of_tailOk
    rw [tailOk, hlead ⟨n / 262144, by omega⟩, hc, hc,
      hs ⟨n / 262144, by omega⟩ ⟨n / 4096 % 64, by omega⟩ (by simp only; omega)
        (by simp only; omega)]
    rfl
  · exact hrepl

theorem validUTF8_readEscape {u s' : Str} (h : readEscape s = some (u, s')) : ValidUTF8 u := by
  cases s with
  | nil => cases h
  | cons =>
    simp only [readEscape] at h
    split_ifs at h with hpl
    · cases h
      rcases hpl with rfl | rfl | rfl <;> decide
    iterate 5
      · cases h
        decide
    split at h
    · cases h
    split at h
    · split at h
      · obtain ⟨rfl, -⟩ := Prod.mk.inj (Option.some.inj h)
        exact validUTF8_encodeRune _
      · cases h
        exact validUTF8_rune wellFormed_replacement
    · cases h
      exact validUTF8_encodeRune _

/-- **A JSON string reads as valid UTF-8**, whatever the text is. -/
theorem validUTF8_readString {fuel : Nat} {u : Str} (h : readString fuel s = some (u, r)) :
    ValidUTF8 u := by
  induction fuel generalizing s u with
  | zero => cases h
  | succ fuel ih =>
    -- a piece that is valid in front of a string that was read
    have hemit : ∀ {v t : Str}, ValidUTF8 v → (readString fuel t).map (emit v) = some (u, r) →
        ValidUTF8 u := by
      intro v t hv hmap
      obtain ⟨⟨_, _⟩, hr, heq⟩ := Option.map_eq_some_iff.1 hmap
      cases heq
      exact hv.append (ih hr)
    cases s with
    | nil => cases h
    | cons b s =>
      simp only [readString] at h
      split_ifs at h with he hescape hlow hstray
      · cases h
        exact validUTF8_nil
      · split at h
        · cases h
        · rename_i hr
          exact hemit (validUTF8_readEscape hr) h
      · exact hemit (validUTF8_rune wellFormed_replacement) h
      refine hemit (validUTF8_rune ⟨?_, ?_⟩) h
      · rw [runeLen_take]
        omega
      · rw [runeLen_take, List.length_take, Nat.min_eq_left (runeLen_le _)]

/-! ## Reading back what was written -/

theorem hex4_hexByte (b : UInt8) (s : Str) :
    hex4 (0x30 :: 0x30 :: hexByte (b.toNat / 16) :: hexByte (b.toNat % 16) :: s) =
      some (b.toNat, s) := by
  have digit : ∀ n : Fin 16, hexVal (hexByte n) = some n.val := by decide
  have hz : hexVal 0x30 = some 0 := by decide
  have hhi := digit ⟨b.toNat / 16, by have := b.toNat_lt; omega⟩
  have hlo := digit ⟨b.toNat % 16, by omega⟩
  simp only at hhi hlo
  simp only [hex4, hz, hhi, hlo]
  congr 2
  omega

theorem readString_escape {s' u : Str} (h : readEscape s = some (u, s')) (fuel : Nat) :
    readString (fuel + 1) (0x5C :: s) = (readString fuel s').map (emit u) := by
  simp [readString, h]

theorem readString_rune {t : Str} (hu : (RuneUnit.rune (b :: t)).WellFormed)
    (h1 : b ≠ 0x22) (h2 : b ≠ 0x5C) (h3 : ¬ b < 0x20) (fuel : Nat) (s : Str) :
    readString (fuel + 1) (b :: t ++ s) = (readString fuel s).map (emit (b :: t)) := by
  have hl : runeLen (b :: (t ++ s)) = (b :: t).length := by
    rw [← List.cons_append, runeLen_append s hu.1]
    exact hu.2
  have hnz : ¬ runeLen (b :: (t ++ s)) = 0 := by
    rw [hl]
    simp
  rw [List.cons_append, readString, if_neg h1, if_neg h2, if_neg h3, if_neg hnz, hl,
    ← List.cons_append, List.drop_left, List.take_left]

theorem readString_quoteAscii (hb : b < 0x80) (fuel : Nat) (s : Str) :
    readString (fuel + 1) (quoteAscii b ++ s) = (readString fuel s).map (emit [b]) := by
  simp only [quoteAscii]
  split_ifs with h1 h2 h3 h4 h5 h6 h7
  · exact readString_escape (by rcases h1 with rfl | rfl <;> simp [readEscape]) fuel
  · exact readString_escape (by subst h2; simp [readEscape]) fuel
  · exact readString_escape (by subst h3; simp [readEscape]) fuel
  · exact readString_escape (by subst h4; simp [readEscape]) fuel
  · exact readString_escape (by subst h5; simp [readEscape]) fuel
  · exact readString_escape (by subst h6; simp [readEscape]) fuel
  · -- the six-byte escape: the reader goes through the four digits back to the byte
    have hlt : b.toNat < 0x80 := hb
    have hn : ¬ (0xD800 ≤ b.toNat ∧ b.toNat < 0xDC00) := by omega
    have henc : encodeRune b.toNat = [b] := by simp [encodeRune, hlt]
    exact readString_escape (by simp [readEscape, hex4_hexByte, hn, henc]) fuel
  push Not at h1
  refine readString_rune ⟨?_, ?_⟩ h1.1 h1.2 (fun h => h7 (.inl h)) fuel s
  · rw [runeLen_ascii hb]
    exact Nat.one_pos
  · exact runeLen_ascii hb []

theorem readString_quoteUnit (hu : u.WellFormed) (fuel : Nat) (s : Str) :
    readString (fuel + 1) (quoteUnit u ++ s) = (readString fuel s).map (emit u.read) := by
  cases u with
  | stray =>
    have hesc : readEscape (0x75 :: 0x66 :: 0x66 :: 0x66 :: 0x64 :: s) = some (replacement, s) :=
      rfl
    exact readString_escape hesc fuel
  | rune bytes =>
    match bytes, hu with
    | [], hu => simp [RuneUnit.WellFormed, runeLen] at hu
    | [b], hu => exact readString_quoteAscii (ascii_of_wellFormed hu) fuel s
    | b :: c :: t, hu =>
      rw [quoteUnit_long]
      split_ifs with h1 h2
      · have hesc : readEscape (0x75 :: 0x32 :: 0x30 :: 0x32 :: 0x38 :: s) =
            some ([0xE2, 0x80, 0xA8], s) := rfl
        rw [h1]
        exact readString_escape hesc fuel
      · have hesc : readEscape (0x75 :: 0x32 :: 0x30 :: 0x32 :: 0x39 :: s) =
            some ([0xE2, 0x80, 0xA9], s) := rfl
        rw [h2]
        exact readString_escape hesc fuel
      have hb : ¬ b < 0x80 := not_ascii_of_wellFormed hu
      refine readString_rune hu ?_ ?_ ?_ fuel s
      · rintro rfl
        exact hb (by decide)
      · rintro rfl
        exact hb (by decide)
      · exact fun h => hb (UInt8.lt_trans h (by decide))

theorem readString_flatMap_quoteUnit (us : List RuneUnit) (hus : ∀ u ∈ us, u.WellFormed)
    (fuel : Nat) (hf : us.length < fuel) (s : Str) :
    readString fuel (us.flatMap quoteUnit ++ 0x22 :: s) = some (us.flatMap RuneUnit.read, s) := by
  induction us generalizing fuel with
  | nil =>
    obtain ⟨n, rfl⟩ : ∃ n, fuel = n + 1 := ⟨fuel - 1, by simp at hf; omega⟩
    simp [readString]
  | cons u _ ih =>
    obtain ⟨n, rfl⟩ : ∃ n, fuel = n + 1 := ⟨fuel - 1, by simp at hf; omega⟩
    rw [List.flatMap_cons, List.append_assoc, readString_quoteUnit (hus u (.head _)) n,
      ih (fun v hv => hus v (List.mem_cons_of_mem _ hv)) n (by simpa using hf)]
    simp [emit]

theorem quoteUnit_ne_nil (hu : u.WellFormed) : quoteUnit u ≠ [] := by
  cases u with
  | stray =>
    rw [quoteUnit]
    decide
  | rune bytes =>
    match bytes, hu with
    | [], hu => simp [RuneUnit.WellFormed, runeLen] at hu
    | [b], _ =>
      rw [quoteUnit, quoteAscii]
      split_ifs <;> simp
    | b :: c :: t, _ =>
      rw [quoteUnit_long]
      split_ifs
      · decide
      · decide
      · simp

theorem length_le_flatMap_quoteUnit (us : List RuneUnit) (hus : ∀ u ∈ us, u.WellFormed) :
    us.length ≤ (us.flatMap quoteUnit).length := by
  induction us with
  | nil => simp
  | cons u _ ih =>
    have hp := List.length_pos_iff.2 (quoteUnit_ne_nil (hus u (.head _)))
    have := ih fun v hv => hus v (.tail _ hv)
    simp only [List.flatMap_cons, List.length_append, List.length_cons]
    omega

/-- **A written string reads back with its stray bytes replaced.** -/
theorem readString_quote (s : Str) (fuel : Nat) (hf : (quote s).length ≤ fuel + 1)
    (rest : Str) :
    readString fuel ((units s).flatMap quoteUnit ++ 0x22 :: rest) = some (toValid s, rest) := by
  refine readString_flatMap_quoteUnit (units s) (units_wellFormed s) fuel ?_ rest
  have := length_le_flatMap_quoteUnit (units s) (units_wellFormed s)
  simp only [quote, List.length_cons, List.length_append] at hf
  omega

/-! ## Numbers -/

/-- The decimal digits of a natural number. -/
def natText (n : Nat) : Str := (Nat.toDigits 10 n).map byte

def intText (i : Int) : Str :=
  if i < 0 then 0x2D :: natText i.natAbs else natText i.natAbs

def isDigitByte (b : UInt8) : Bool := 0x30 ≤ b && b ≤ 0x39

/-- The digits at the head of a text, and what follows them. -/
def readDigits (s : Str) : Str × Str :=
  (s.takeWhile isDigitByte, s.dropWhile isDigitByte)

/-- The integer part of a number: a zero, or digits that do not start with a zero. -/
def readIntPart : Str → Option (Str × Str)
  | [] => none
  | b :: s =>
    if b = 0x30 then some ([b], s)
    else if isDigitByte b then some (readDigits (b :: s))
    else none

/-- The fraction of a number, when there is one. -/
def readFraction : Str → Option (Str × Str)
  | 0x2E :: s =>
    match readDigits s with
    | ([], _) => none
    | (ds, r) => some (0x2E :: ds, r)
  | s => some ([], s)

/-- The exponent of a number, when there is one. -/
def readExponent : Str → Option (Str × Str)
  | [] => some ([], [])
  | b :: s =>
    if b = 0x65 ∨ b = 0x45 then
      let (sign, s') : Str × Str :=
        match s with
        | c :: r => if c = 0x2B ∨ c = 0x2D then ([c], r) else ([], c :: r)
        | [] => ([], [])
      match readDigits s' with
      | ([], _) => none
      | (ds, r) => some (b :: sign ++ ds, r)
    else some ([], b :: s)

/-- The minus sign of a number, when there is one, and the rest. -/
def splitSign : Str → Str × Str
  | [] => ([], [])
  | b :: s => if b = 0x2D then ([b], s) else ([], b :: s)

/-- A JSON number at the head of a text: its own text, and what follows it. -/
def readNumber (s : Str) : Option (Str × Str) :=
  match readIntPart (splitSign s).2 with
  | none => none
  | some (i, s₁) =>
    match readFraction s₁ with
    | none => none
    | some (f, s₂) =>
      match readExponent s₂ with
      | none => none
      | some (e, s₃) => some ((splitSign s).1 ++ i ++ f ++ e, s₃)

/-- The value of a text of decimal digits. -/
def parseNat (s : Str) : Option Nat :=
  if s ≠ [] ∧ s.all isDigitByte then
    some (s.foldl (fun n b => 10 * n + (b.toNat - 48)) 0)
  else none

/-- A value of a 64-bit signed integer. -/
def FitsInt64 (i : Int) : Prop := -9223372036854775808 ≤ i ∧ i ≤ 9223372036854775807

instance (i : Int) : Decidable (FitsInt64 i) := inferInstanceAs (Decidable (_ ∧ _))

/-- The 64-bit integer a number text denotes; a fraction or an exponent denotes none. -/
def parseInt (s : Str) : Option Int :=
  match parseNat (splitSign s).2 with
  | none => none
  | some n =>
    let i : Int := if (splitSign s).1 = [] then n else -n
    if FitsInt64 i then some i else none

theorem toNat_byte_of_isDigit {c : Char} (h : c.isDigit = true) : (byte c).toNat = c.toNat := by
  have hc : c.toNat ≤ 57 := by
    simp only [Char.isDigit, Bool.and_eq_true, decide_eq_true_eq] at h
    exact h.2
  simp only [byte, UInt8.toNat_ofNat']
  omega

theorem isDigitByte_byte {c : Char} (h : c.isDigit = true) : isDigitByte (byte c) = true := by
  have hn := toNat_byte_of_isDigit h
  simp only [Char.isDigit, Bool.and_eq_true, decide_eq_true_eq] at h
  simp only [isDigitByte, Bool.and_eq_true, decide_eq_true_eq, UInt8.le_iff_toNat_le, hn]
  exact h

theorem isDigitByte_of_mem_natText {n : Nat} (h : b ∈ natText n) : isDigitByte b = true := by
  obtain ⟨_, hc, rfl⟩ := List.mem_map.1 h
  exact isDigitByte_byte (Nat.isDigit_of_mem_toDigits (by decide) (by decide) hc)

theorem natText_ne_nil (n : Nat) : natText n ≠ [] := by
  simp [natText]

theorem natText_head (n : Nat) (hn : 0 < n) : ∃ b s, natText n = b :: s ∧ b ≠ 0x30 := by
  induction n using Nat.strongRecOn with
  | ind n ih =>
    by_cases h : n < 10
    · refine ⟨byte n.digitChar, [], by simp [natText, Nat.toDigits_of_lt_base h], ?_⟩
      have digit : ∀ k : Fin 10, 0 < k.val → byte k.val.digitChar ≠ 0x30 := by decide
      exact digit ⟨n, h⟩ hn
    obtain ⟨b, s, hb, hne⟩ := ih (n / 10) (by omega) (by omega)
    refine ⟨b, s ++ [byte (n % 10).digitChar], ?_, hne⟩
    rw [natText, Nat.toDigits_of_base_le (by decide) (by omega), List.map_append, ← natText, hb]
    rfl

theorem foldl_byte_eq_ofDigitChars (l : List Char) (h : ∀ c ∈ l, c.isDigit = true) (k : Nat) :
    (l.map byte).foldl (fun n b => 10 * n + (b.toNat - 48)) k = Nat.ofDigitChars 10 l k := by
  induction l generalizing k with
  | nil => simp
  | cons c l ih =>
    rw [List.map_cons, List.foldl_cons, ih fun d hd => h d (List.mem_cons_of_mem _ hd),
      toNat_byte_of_isDigit (h c (.head _))]
    rfl

@[simp] theorem parseNat_natText (n : Nat) : parseNat (natText n) = some n := by
  have ha : (natText n).all isDigitByte = true :=
    List.all_eq_true.2 fun b hb => isDigitByte_of_mem_natText hb
  rw [parseNat, if_pos ⟨natText_ne_nil n, ha⟩, natText, foldl_byte_eq_ofDigitChars,
    Nat.ofDigitChars_ten_toDigits]
  exact fun c hc => Nat.isDigit_of_mem_toDigits (by decide) (by decide) hc

theorem splitSign_natText (n : Nat) (r : Str) :
    splitSign (natText n ++ r) = ([], natText n ++ r) := by
  obtain ⟨b, _, hbs⟩ := List.exists_cons_of_ne_nil (natText_ne_nil n)
  have hb : isDigitByte b = true := isDigitByte_of_mem_natText (n := n) (by simp [hbs])
  have hne : b ≠ 0x2D := by
    rintro rfl
    exact absurd hb (by decide)
  rw [hbs, List.cons_append, splitSign, if_neg hne]

theorem natText_injective : Function.Injective natText := by
  intro m n h
  have hparse := congrArg parseNat h
  rw [parseNat_natText, parseNat_natText] at hparse
  exact Option.some.inj hparse

theorem mem_intText {i : Int} (h : b ∈ intText i) : isDigitByte b = true ∨ b = 0x2D := by
  rw [intText] at h
  split_ifs at h
  · obtain _ | ⟨_, h⟩ := h
    · exact .inr rfl
    · exact .inl (isDigitByte_of_mem_natText h)
  · exact .inl (isDigitByte_of_mem_natText h)

theorem intText_injective : Function.Injective intText := by
  have hsign : ∀ m n : Nat, natText m ≠ 0x2D :: natText n := by
    intro m n h
    have hdigit : isDigitByte 0x2D = true :=
      isDigitByte_of_mem_natText (n := m) (h ▸ (.head _))
    revert hdigit
    decide
  intro i j h
  rw [intText, intText] at h
  split_ifs at h
  · have ha := natText_injective (List.cons.inj h).2
    omega
  · exact absurd h.symm (hsign _ _)
  · exact absurd h (hsign _ _)
  · have ha := natText_injective h
    omega

theorem parseInt_intText {i : Int} (hi : FitsInt64 i) : parseInt (intText i) = some i := by
  obtain ⟨n, hn⟩ : ∃ n, i.natAbs = n := ⟨_, rfl⟩
  by_cases hneg : i < 0
  · have ha : -(n : Int) = i := by omega
    simp [intText, hneg, hn, parseInt, splitSign, ha, hi]
  have ha : (n : Int) = i := by omega
  have hsign := splitSign_natText n []
  rw [List.append_nil] at hsign
  simp [intText, hneg, hn, parseInt, hsign, ha, hi]

/-- A text that cannot continue a number: it is empty or starts with a byte no number holds. -/
def EndsNumber : Str → Prop
  | [] => True
  | b :: _ => isDigitByte b = false ∧ b ≠ 0x2E ∧ b ≠ 0x65 ∧ b ≠ 0x45

theorem readDigits_append {ds : Str} (hds : ∀ b ∈ ds, isDigitByte b = true)
    (hr : EndsNumber r) : readDigits (ds ++ r) = (ds, r) := by
  have hs : r.takeWhile isDigitByte = [] ∧ r.dropWhile isDigitByte = r := by
    cases r with
    | nil => simp
    | cons => simp [hr.1]
  rw [readDigits, List.takeWhile_append_of_pos hds, List.dropWhile_append_of_pos hds, hs.1,
    hs.2, List.append_nil]

theorem readIntPart_natText (n : Nat) (hr : EndsNumber r) :
    readIntPart (natText n ++ r) = some (natText n, r) := by
  have hd := readDigits_append (fun b hb => isDigitByte_of_mem_natText (n := n) hb) hr
  by_cases hn : n = 0
  · subst hn
    rfl
  obtain ⟨b, _, hbs, hne⟩ := natText_head n (by omega)
  have hb : isDigitByte b = true := isDigitByte_of_mem_natText (n := n) (by simp [hbs])
  rw [hbs, List.cons_append] at hd ⊢
  simp [readIntPart, hne, hb, hd]

theorem readFraction_of_endsNumber (hr : EndsNumber r) : readFraction r = some ([], r) := by
  unfold readFraction
  split
  · exact absurd rfl hr.2.1
  · rfl

theorem readExponent_of_endsNumber (hr : EndsNumber r) : readExponent r = some ([], r) := by
  cases r with
  | nil => rfl
  | cons => simp [readExponent, hr.2.2.1, hr.2.2.2]

/-- **The text of an integer is read as one number.** -/
theorem readNumber_intText (i : Int) (hr : EndsNumber r) :
    readNumber (intText i ++ r) = some (intText i, r) := by
  by_cases hneg : i < 0
  · simp [intText, hneg, readNumber, splitSign, readIntPart_natText _ hr,
      readFraction_of_endsNumber hr, readExponent_of_endsNumber hr]
  · simp [intText, hneg, readNumber, splitSign_natText, readIntPart_natText _ hr,
      readFraction_of_endsNumber hr, readExponent_of_endsNumber hr]

/-! ## Written text holds no line feed -/

theorem tailOk_cont {t : Str} (h : tailOk b t = true) : ∀ c ∈ t, (0x80 : UInt8) ≤ c := by
  have hn : ∀ c, isCont c = true → (0x80 : UInt8) ≤ c := by
    intro c hc
    simp only [isCont, Bool.and_eq_true, decide_eq_true_eq] at hc
    exact hc.1
  have h3 : ∀ c, second3 b c = true → (0x80 : UInt8) ≤ c := by
    intro c hc
    simp only [second3, Bool.and_eq_true, decide_eq_true_eq] at hc
    refine UInt8.le_trans ?_ hc.1
    split_ifs <;> decide
  have h4 : ∀ c, second4 b c = true → (0x80 : UInt8) ≤ c := by
    intro c hc
    simp only [second4, Bool.and_eq_true, decide_eq_true_eq] at hc
    refine UInt8.le_trans ?_ hc.1
    split_ifs <;> decide
  match t with
  | [] => simp
  | [c] =>
    simp only [tailOk, Bool.and_eq_true] at h
    simpa using hn c h.2
  | [c, d] =>
    simp only [tailOk, Bool.and_eq_true] at h
    simpa using ⟨h3 c h.1.2, hn d h.2⟩
  | [c, d, e] =>
    simp only [tailOk, Bool.and_eq_true] at h
    simpa using ⟨h4 c h.1.1.2, hn d h.1.2, hn e h.2⟩
  | _ :: _ :: _ :: _ :: _ => simp [tailOk] at h

theorem newline_not_mem_quoteUnit (hu : u.WellFormed) : (0x0A : UInt8) ∉ quoteUnit u := by
  cases u with
  | stray =>
    rw [quoteUnit]
    decide
  | rune bytes =>
    match bytes, hu with
    | [], hu => simp [RuneUnit.WellFormed, runeLen] at hu
    | [b], hu => exact fun h => (quoteAscii_bytes (ascii_of_wellFormed hu) _ h).2 rfl
    | b :: c :: t, hu =>
      rw [quoteUnit_long]
      split_ifs
      · decide
      · decide
      obtain ⟨ht, _⟩ := runeLen_cons_pos hu.1
      have htake : (c :: t).take (leadWidth b - 1) = c :: t := by
        refine List.take_of_length_le ?_
        have := hu.2
        simp only [List.length_cons] at this ⊢
        omega
      rw [htake] at ht
      intro hm
      rcases List.mem_cons.1 hm with hm | hm
      · exact not_ascii_of_wellFormed hu (hm ▸ by decide)
      · exact absurd (tailOk_cont ht _ hm) (by decide)

theorem newline_not_mem_quote (s : Str) : (0x0A : UInt8) ∉ quote s := by
  simp only [quote, List.mem_cons, List.mem_append, List.mem_flatMap, not_or]
  refine ⟨by decide, ?_, by decide⟩
  rintro ⟨u, hu, hm⟩
  exact newline_not_mem_quoteUnit (units_wellFormed s u hu) hm

theorem newline_not_mem_intText (i : Int) : (0x0A : UInt8) ∉ intText i := by
  intro h
  rcases mem_intText h with h | h <;> exact absurd h (by decide)

end KubeNeuron.Lib
