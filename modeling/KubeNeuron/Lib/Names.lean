import KubeNeuron.Lib.Json
import KubeNeuron.Lib.Text
import Mathlib.Data.List.Sort

/-!
# Sets of names

A set of strings is written as the JSON array of its members, sorted and without repetitions. What
is read back is the same set, with the stray bytes of the names replaced (`decodeNames_encodeNames`,
`mem_readNames`).
-/

namespace KubeNeuron.Lib

universe u

/-- The list without the repetitions that follow each other. -/
def compact {α : Type u} [DecidableEq α] : List α → List α
  | [] => []
  | [a] => [a]
  | a :: b :: l => if a = b then compact (b :: l) else a :: compact (b :: l)

theorem mem_compact {α : Type u} [DecidableEq α] {l : List α} {x : α} : x ∈ compact l ↔ x ∈ l := by
  induction l with
  | nil => rfl
  | cons a l ih =>
    cases l with
    | nil => rfl
    | cons =>
      rw [compact]
      split_ifs with h
      · rw [ih, h]
        simp
      · simp only [List.mem_cons, ih]

/-- The strings in increasing order. -/
def sortStrings (l : List Str) : List Str := l.insertionSort (· ≤ ·)

variable {l : List Str} {x : Str}

theorem mem_sortStrings : x ∈ sortStrings l ↔ x ∈ l :=
  (List.perm_insertionSort _ l).mem_iff

/-- The elements of an array of strings; `null` stands for the empty string. -/
def readStrings : List Json → Option (List Str)
  | [] => some []
  | .str s :: xs => (readStrings xs).map (s :: ·)
  | .null :: xs => (readStrings xs).map ([] :: ·)
  | _ :: _ => none

/-- The text of a set. -/
def encodeNames (l : List Str) : Str := (Json.arr ((compact (sortStrings l)).map .str)).print

/-- The names of a text; a blank text has none. -/
def decodeNames (raw : Str) : Option (List Str) :=
  if trimSpace raw = [] then some []
  else
    match Json.parseJson raw with
    | some .null => some []
    | some (.arr xs) => readStrings xs
    | _ => none

/-- The names as they are read back. -/
def readNames (l : List Str) : List Str := (compact (sortStrings l)).map toValid

theorem mem_readNames : x ∈ readNames l ↔ ∃ y ∈ l, toValid y = x := by
  simp only [readNames, List.mem_map, mem_compact, mem_sortStrings]

theorem readStrings_readBackElems (l : List Str) :
    readStrings (Json.readBackElems (l.map .str)) = some (l.map toValid) := by
  induction l with
  | nil => rfl
  | cons s l ih =>
    simp only [List.map_cons, Json.readBackElems, Json.readBack, readStrings, ih, Option.map_some]

theorem intNumsElems_strings (l : List Str) : Json.IntNumsElems (l.map .str) := by
  induction l with
  | nil => trivial
  | cons s l ih => exact ⟨trivial, ih⟩

theorem validUTF8_print_strings (l : List Str) : ValidUTF8 (Json.arr (l.map .str)).print := by
  have helems : ∀ l : List Str, ValidUTF8 (Json.printElems (l.map .str)) := by
    intro l
    induction l with
    | nil => decide
    | cons s l ih =>
      have hcomma : ValidUTF8 [0x2C] := by decide
      exact hcomma.append ((validUTF8_quote s).append ih)
  have ho : ValidUTF8 [0x5B] := by decide
  cases l with
  | nil => decide
  | cons s l => exact ho.append ((validUTF8_quote s).append (helems l))

/-- The value is a valid string, or the strings among its elements are valid. -/
def ValidStrings : Json → Prop
  | .str t => ValidUTF8 t
  | .arr xs => ∀ t, .str t ∈ xs → ValidUTF8 t
  | _ => True

theorem validStrings_parseScalar {s r : Str} {v : Json} (h : Json.parseScalar s = some (v, r)) :
    ValidStrings v := by
  revert h
  fun_cases Json.parseScalar s with
  | case4 =>
    intro h
    obtain ⟨_, -, heq⟩ := Option.map_eq_some_iff.1 h
    cases heq
    trivial
  | _ =>
    rintro ⟨⟩
    trivial

/-- What the readers of values and of elements give has valid strings. The induction is on the fuel
that the two hand to each other. -/
theorem validStrings_parse (fuel : Nat) :
    (∀ s v r, Json.parseValue fuel s = some (v, r) → ValidStrings v) ∧
      ∀ s xs r, Json.parseElems fuel s = some (xs, r) → ValidStrings (.arr xs) := by
  induction fuel with
  | zero =>
    constructor
    · intro s v r h
      cases h
    · intro s xs r h
      cases h
  | succ fuel ih =>
    constructor
    · intro s v r h
      simp only [Json.parseValue] at h
      split at h
      · cases h
      split_ifs at h
      · obtain ⟨_, hr, heq⟩ := Option.map_eq_some_iff.1 h
        cases heq
        exact validUTF8_readString hr
      · split at h
        · cases h
          exact fun t ht => absurd ht List.not_mem_nil
        · obtain ⟨_, helems, heq⟩ := Option.map_eq_some_iff.1 h
          cases heq
          exact ih.2 _ _ _ helems
      · split at h
        · cases h
          trivial
        · obtain ⟨_, -, heq⟩ := Option.map_eq_some_iff.1 h
          cases heq
          trivial
      · exact validStrings_parseScalar h
    · intro s xs r h t ht
      simp only [Json.parseElems] at h
      split at h
      · cases h
      rename_i v r' hvl
      split at h
      · obtain ⟨_, helems, heq⟩ := Option.map_eq_some_iff.1 h
        cases heq
        obtain _ | ⟨_, ht⟩ := ht
        · exact ih.1 _ _ _ hvl
        · exact ih.2 _ _ _ helems t ht
      · cases h
        obtain rfl := List.mem_singleton.1 ht
        exact ih.1 _ _ _ hvl
      · cases h

theorem mem_readStrings {xs : List Json} (h : readStrings xs = some l) (hx : x ∈ l) :
    x = [] ∨ Json.str x ∈ xs := by
  induction xs generalizing l with
  | nil =>
    cases h
    cases hx
  | cons j _ ih =>
    cases j with
    | str | null =>
      obtain ⟨_, hl, rfl⟩ := Option.map_eq_some_iff.1 h
      obtain _ | ⟨_, hx⟩ := hx
      · simp
      · exact (ih hl hx).imp id (.tail _)
    | _ => cases h

/-- **Names are valid UTF-8**, whatever text they were read from. -/
theorem validUTF8_of_decodeNames {raw : Str} (h : decodeNames raw = some l) (hx : x ∈ l) :
    ValidUTF8 x := by
  rw [decodeNames] at h
  split_ifs at h
  · cases h
    cases hx
  split at h
  · cases h
    cases hx
  · rename_i xs hparse
    rcases mem_readStrings h hx with rfl | hx
    · exact validUTF8_nil
    rw [Json.parseJson] at hparse
    split at hparse
    · rename_i hvl
      split_ifs at hparse
      cases hparse
      exact (validStrings_parse _).1 _ _ _ hvl x hx
    · cases hparse
  · cases h

theorem trimSpace_bracket (s : Str) : trimSpace (0x5B :: s) ≠ [] := by
  have hunits : units (0x5B :: s) = .rune [0x5B] :: units s :=
    unitsFrom_append_rune (r := [0x5B]) ⟨by decide, by decide⟩ s
  have hk : (units (0x5B :: s)).dropWhile RuneUnit.isSpace = .rune [0x5B] :: units s := by
    rw [hunits]
    exact List.dropWhile_cons_of_neg (by decide)
  intro h
  rw [trimSpace, hk, List.flatMap_eq_nil_iff] at h
  -- the bracket is still there when the end is trimmed
  have hm : RuneUnit.rune [0x5B] ∈
      ((RuneUnit.rune [0x5B] :: units s).reverse.dropWhile RuneUnit.isSpace).reverse := by
    rw [List.reverse_cons, List.dropWhile_append, List.mem_reverse]
    split_ifs
    · simp [List.dropWhile, RuneUnit.isSpace, spaces]
    · exact List.mem_append_right _ (List.mem_singleton_self _)
  exact absurd (h _ hm) (by decide)

/-- **A set of names reads back**, with the stray bytes of the names replaced. -/
theorem decodeNames_encodeNames (l : List Str) :
    decodeNames (encodeNames l) = some (readNames l) := by
  have hblank : trimSpace (encodeNames l) ≠ [] := by
    rw [encodeNames]
    cases compact (sortStrings l) with
    | nil | cons => exact trimSpace_bracket _
  have hnums : Json.IntNums (.arr ((compact (sortStrings l)).map .str)) := intNumsElems_strings _
  rw [decodeNames, if_neg hblank, encodeNames, Json.parseJson_print _ hnums]
  simp only [Json.readBack, readStrings_readBackElems, readNames]

end KubeNeuron.Lib
