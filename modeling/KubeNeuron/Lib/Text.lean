import KubeNeuron.Lib.Bytes

/-!
# Trimming, splitting and lower case

The functions of the `strings` package that the models use. Trimming and lower-casing work rune by
rune; a stray byte is no white space and lower-cases to the replacement character. The lower-case
table of the non-ASCII runes is a parameter: nothing below depends on it.
-/

namespace KubeNeuron.Lib

/-- The encodings of the white space runes. -/
def spaces : List Str :=
  [[0x09], [0x0A], [0x0B], [0x0C], [0x0D], [0x20], [0xC2, 0x85], [0xC2, 0xA0],
    [0xE1, 0x9A, 0x80], [0xE2, 0x80, 0x80], [0xE2, 0x80, 0x81], [0xE2, 0x80, 0x82],
    [0xE2, 0x80, 0x83], [0xE2, 0x80, 0x84], [0xE2, 0x80, 0x85], [0xE2, 0x80, 0x86],
    [0xE2, 0x80, 0x87], [0xE2, 0x80, 0x88], [0xE2, 0x80, 0x89], [0xE2, 0x80, 0x8A],
    [0xE2, 0x80, 0xA8], [0xE2, 0x80, 0xA9], [0xE2, 0x80, 0xAF], [0xE2, 0x81, 0x9F],
    [0xE3, 0x80, 0x80]]

namespace RuneUnit

def isSpace : RuneUnit → Bool
  | .rune bytes => spaces.contains bytes
  | .stray _ => false

def bytes : RuneUnit → Str
  | .rune bytes => bytes
  | .stray b => [b]

/-- The unit in lower case; `lower` is the table of the non-ASCII runes. -/
def toLower (lower : Str → Str) : RuneUnit → Str
  | .rune [b] => if 0x41 ≤ b ∧ b ≤ 0x5A then [b + 0x20] else [b]
  | .rune bytes => lower bytes
  | .stray _ => replacement

end RuneUnit

/-- The string without the white space at its ends. -/
def trimSpace (s : Str) : Str :=
  (((units s).dropWhile RuneUnit.isSpace).reverse.dropWhile RuneUnit.isSpace).reverse.flatMap
    RuneUnit.bytes

def toLower (lower : Str → Str) (s : Str) : Str :=
  (units s).flatMap (RuneUnit.toLower lower)

/-- The string up to the last `sep`, all of it when there is none. -/
def beforeLast (sep : UInt8) (s : Str) : Str :=
  if s.contains sep then ((s.reverse.dropWhile (· ≠ sep)).drop 1).reverse else s

/-- The parts of the string between separators. -/
def splitOn (sep : UInt8) : Str → List Str
  | [] => [[]]
  | b :: s =>
    if b = sep then [] :: splitOn sep s
    else
      match splitOn sep s with
      | [] => [[b]]
      | part :: parts => (b :: part) :: parts

variable {sep : UInt8} {s s' t t' : Str}

/-- A text is cut in one way at its first separator. -/
theorem sep_append_inj (hs : sep ∉ s) (hs' : sep ∉ s') (h : s ++ sep :: t = s' ++ sep :: t') :
    s = s' ∧ t = t' := by
  rcases List.append_eq_append_iff.1 h with ⟨u, hu, ht⟩ | ⟨u, hu, ht⟩
  all_goals
    cases u with
    | nil => simp_all
    | cons b u =>
      -- the longer head would hold the separator that ends the shorter one
      obtain rfl : sep = b := by simp_all
      simp_all

/-- A text is cut in one way at its last separator. -/
theorem append_sep_inj (ht : sep ∉ t) (ht' : sep ∉ t') (h : s ++ sep :: t = s' ++ sep :: t') :
    s = s' ∧ t = t' := by
  have hrev := congrArg List.reverse h
  simp only [List.reverse_append, List.reverse_cons, List.append_assoc] at hrev
  obtain ⟨htail, hh⟩ := sep_append_inj (by simpa using ht) (by simpa using ht') hrev
  exact ⟨List.reverse_inj.1 hh, List.reverse_inj.1 htail⟩

theorem splitOn_eq (sep : UInt8) (s : Str) : splitOn sep s = s.splitOn sep := by
  induction s with
  | nil => rfl
  | cons b s ih =>
    rw [splitOn, ih, List.splitOn_cons_eq_if_modifyHead]
    cases hs : s.splitOn sep with
    | nil => exact absurd hs (List.splitOn_ne_nil sep s)
    | cons part parts => simp

/-- A text is cut at its last separator. -/
theorem cut_append (ht : sep ∉ t) :
    (s ++ sep :: t).reverse.takeWhile (· ≠ sep) = t.reverse ∧
      beforeLast sep (s ++ sep :: t) = s := by
  have hne : ∀ b ∈ t.reverse, decide (b ≠ sep) := by grind
  have hrev : (s ++ sep :: t).reverse = t.reverse ++ sep :: s.reverse := by simp
  constructor
  · rw [hrev, List.takeWhile_append_of_pos hne]
    simp
  · rw [beforeLast, if_pos (by simp), hrev, List.dropWhile_append_of_pos hne]
    simp
end KubeNeuron.Lib
