import KubeNeuron.Lib.Json
import KubeNeuron.Lib.KeyMap

/-!
# Maps from strings to strings

Their JSON form is an object with the keys in increasing order. A printed map reads back with the
stray bytes of its keys and values replaced (`field_omitEmpty`).
-/

namespace KubeNeuron.Lib

/-- A map from strings to strings. -/
abbrev StrMap := KeyMap Str

namespace StrMap

def empty : StrMap := KeyMap.empty

/-- The value of a key, the empty string when the key is absent. -/
def get (m : StrMap) (k : Str) : Str := (m.get? k).getD []

/-! ## As JSON -/

def toMembers (m : StrMap) : List (Str × Json) := m.entries.map fun e => (e.1, .str e.2)

/-- The member of a map field that is left out when the map is empty. -/
def omitEmpty (m : StrMap) : Option Json :=
  if m.entries = [] then none else some (.obj m.toMembers)

/-- The entries of an object whose values are strings; `null` stands for the empty string. -/
def readEntries : List (Str × Json) → Option (List (Str × Str))
  | [] => some []
  | (k, .str v) :: ms => (readEntries ms).map ((k, v) :: ·)
  | (k, .null) :: ms => (readEntries ms).map ((k, []) :: ·)
  | _ :: _ => none

def field : Option Json → Option StrMap
  | none => some empty
  | some .null => some empty
  | some (.obj ms) => (readEntries ms).map KeyMap.ofEntries
  | some _ => none

/-- The map with the stray bytes of its keys and values replaced. -/
def readBack (m : StrMap) : StrMap :=
  KeyMap.ofEntries (m.entries.map fun e => (toValid e.1, toValid e.2))

/-- Every key and value is valid UTF-8. -/
def Valid (m : StrMap) : Prop := ∀ e ∈ m.entries, ValidUTF8 e.1 ∧ ValidUTF8 e.2

instance (m : StrMap) : Decidable m.Valid := inferInstanceAs (Decidable (∀ e ∈ m.entries, _))

theorem readEntries_readBackMembers (l : List (Str × Str)) :
    readEntries (Json.readBackMembers (l.map fun e => (e.1, Json.str e.2))) =
      some (l.map fun e => (toValid e.1, toValid e.2)) := by
  induction l with
  | nil => rfl
  | cons e l ih =>
    simp only [List.map_cons, Json.readBackMembers, Json.readBack, readEntries, ih, Option.map_some]

theorem field_omitEmpty (m : StrMap) : field (m.omitEmpty.map Json.readBack) = some m.readBack := by
  by_cases h : m.entries = []
  · simp [omitEmpty, h, field, readBack, KeyMap.ofEntries, empty]
  simp only [omitEmpty, h, if_false, Option.map_some, Json.readBack, field, toMembers,
    readEntries_readBackMembers]
  rfl

theorem readBack_of_valid {m : StrMap} (h : m.Valid) : m.readBack = m := by
  have hmap : (m.entries.map fun e => (toValid e.1, toValid e.2)) = m.entries := by
    refine (List.map_congr_left fun e he => ?_).trans (List.map_id _)
    rw [toValid_eq_self (h e he).1, toValid_eq_self (h e he).2]
    rfl
  rw [readBack, hmap, KeyMap.ofEntries_entries]

theorem valid_readBack (m : StrMap) : m.readBack.Valid := by
  intro e he
  obtain ⟨f, -, rfl⟩ := List.mem_map.1 (KeyMap.mem_ofEntries he)
  exact ⟨validUTF8_toValid f.1, validUTF8_toValid f.2⟩

theorem intNums_omitEmpty (m : StrMap) : ∀ v ∈ m.omitEmpty, Json.IntNums v := by
  intro v hv
  rw [omitEmpty] at hv
  split_ifs at hv
  · simp at hv
  cases hv
  have h : ∀ l : List (Str × Str),
      Json.IntNumsMembers (l.map fun e => (e.1, Json.str e.2)) := by
    intro l
    induction l with
    | nil => trivial
    | cons e l ih => exact ⟨trivial, ih⟩
  exact h m.entries

end StrMap

end KubeNeuron.Lib
