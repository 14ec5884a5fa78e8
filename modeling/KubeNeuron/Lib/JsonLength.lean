import KubeNeuron.Lib.StrMap

/-!
# The length of printed JSON

A value that was printed and read back prints no longer than before: a stray byte was printed as an
escape of six bytes and is now a rune of three, and entries of a map whose keys differed in stray
bytes only have become one.
-/

namespace KubeNeuron.Lib

/-! ## Strings -/

theorem length_quoteUnit_read (u : RuneUnit) :
    (quoteUnit (.rune u.read)).length ≤ (quoteUnit u).length := by
  cases u with
  | rune => exact Nat.le_refl _
  | stray =>
    have hl : (quoteUnit (.rune replacement)).length ≤ (lit "\\ufffd").length := by decide
    exact hl

theorem length_quote_toValid (s : Str) : (quote (toValid s)).length ≤ (quote s).length := by
  have hunits : ∀ us : List RuneUnit,
      ((us.map fun u => .rune u.read).flatMap quoteUnit).length ≤
        (us.flatMap quoteUnit).length := by
    intro us
    induction us with
    | nil => exact Nat.le_refl _
    | cons u _ ih =>
      rw [List.map_cons, List.flatMap_cons, List.flatMap_cons, List.length_append,
        List.length_append]
      exact Nat.add_le_add (length_quoteUnit_read u) ih
  have hr : units (toValid s) = (units s).map fun u => .rune u.read :=
    units_flatMap_read _ (units_wellFormed s)
  rw [quote, quote, hr, List.length_cons, List.length_cons, List.length_append, List.length_append]
  exact Nat.succ_le_succ (Nat.add_le_add_right (hunits (units s)) _)

theorem quote_ascii {s : Str} (h : ∀ b ∈ s, b < 0x80) :
    quote s = 0x22 :: (s.flatMap quoteAscii ++ [0x22]) := by
  rw [quote, units_ascii h, List.flatMap_map]
  rfl

theorem length_units_le_quote (s : Str) : (units s).length ≤ (quote s).length := by
  have hunits := length_le_flatMap_quoteUnit (units s) (units_wellFormed s)
  rw [quote, List.length_cons, List.length_append]
  omega

namespace Json

/-! ## Members -/

/-- What a member adds to an object: its key and value, a colon, and a comma or the closing
brace. -/
def memberLength (m : Str × Json) : Nat := (quote m.1).length + m.2.print.length + 2

def membersLength : List (Str × Json) → Nat
  | [] => 0
  | m :: ms => memberLength m + membersLength ms

theorem length_printMembers (ms : List (Str × Json)) :
    (printMembers ms).length = 1 + membersLength ms := by
  induction ms with
  | nil => rfl
  | cons m _ ih =>
    simp only [printMembers, List.length_cons, List.length_append, ih, membersLength, memberLength]
    omega

theorem length_print_obj (m : Str × Json) (ms : List (Str × Json)) :
    (print (.obj (m :: ms))).length = 1 + membersLength (m :: ms) := by
  simp only [print, List.length_cons, List.length_append, length_printMembers, membersLength,
    memberLength]
  omega

theorem length_print_obj_le {ms ms' : List (Str × Json)}
    (h : membersLength ms ≤ membersLength ms') :
    (print (.obj ms)).length ≤ (print (.obj ms')).length := by
  cases ms' with
  | nil =>
    cases ms with
    | nil => exact Nat.le_refl _
    | cons =>
      simp only [membersLength, memberLength] at h
      omega
  | cons =>
    rw [length_print_obj]
    cases ms with
    | nil =>
      simp only [print, membersLength, memberLength, List.length_cons, List.length_nil]
      omega
    | cons =>
      rw [length_print_obj]
      omega

/-! ## Records -/

/-- What a slot adds to a record, nothing when it is omitted. -/
def slotLength (f : Str × Option Json) : Nat := f.2.elim 0 fun v => memberLength (f.1, v)

theorem membersLength_members (f : Str × Option Json) (slots : List (Str × Option Json)) :
    membersLength (members (f :: slots)) = slotLength f + membersLength (members slots) := by
  obtain ⟨_, v⟩ := f
  cases v with
  | none => simp [members, slotLength]
  | some => simp [members, slotLength, membersLength]

theorem membersLength_members_le {slots slots' : List (Str × Option Json)}
    (h : List.Forall₂ (fun f g => slotLength f ≤ slotLength g) slots slots') :
    membersLength (members slots) ≤ membersLength (members slots') := by
  induction h with
  | nil => exact Nat.le_refl _
  | cons hfg _ ih =>
    rw [membersLength_members, membersLength_members]
    exact Nat.add_le_add hfg ih

theorem slotLength_some {k : Str} {v v' : Json} (h : v.print.length ≤ v'.print.length) :
    slotLength (k, some v) ≤ slotLength (k, some v') := by
  simp only [slotLength, memberLength, Option.elim_some]
  omega

theorem slotLength_str (k s : Str) :
    slotLength (k, some (.str (toValid s))) ≤ slotLength (k, some (.str s)) :=
  slotLength_some (length_quote_toValid s)

theorem slotLength_omitEmpty (k s : Str) :
    slotLength (k, omitEmpty (toValid s)) ≤ slotLength (k, omitEmpty s) := by
  by_cases hs : s = []
  · subst hs
    exact Nat.le_refl _
  rw [omitEmpty, omitEmpty]
  split_ifs
  · exact Nat.zero_le _
  · exact slotLength_str k s

end Json

/-! ## Maps -/

namespace StrMap

open Json

/-- The members of some entries. -/
def entryMembers (l : List (Str × Str)) : List (Str × Json) :=
  l.map fun e => (e.1, .str e.2)

theorem membersLength_insertEntry (k v : Str) (l : List (Str × Str)) :
    membersLength (entryMembers (KeyMap.insertEntry k v l)) ≤
      membersLength (entryMembers l) + memberLength (k, .str v) := by
  induction l with
  | nil => simp [KeyMap.insertEntry, entryMembers, membersLength]
  | cons e l ih =>
    rw [KeyMap.insertEntry]
    split_ifs
    · simp only [entryMembers, List.map_cons, membersLength]
      omega
    · simp only [entryMembers, List.map_cons, membersLength]
      omega
    · simp only [entryMembers, List.map_cons, membersLength] at ih ⊢
      omega

theorem membersLength_ofEntries (l : List (Str × Str)) :
    membersLength (entryMembers (KeyMap.ofEntries l).entries) ≤ membersLength (entryMembers l) := by
  have hfold : ∀ (l : List (Str × Str)) (m : StrMap),
      membersLength (entryMembers (l.foldl (fun m e => m.insert e.1 e.2) m).entries) ≤
        membersLength (entryMembers m.entries) + membersLength (entryMembers l) := by
    intro l
    induction l with
    | nil => exact fun m => Nat.le_refl _
    | cons e l ih =>
      intro m
      have hinsert := membersLength_insertEntry e.1 e.2 m.entries
      have ht := ih (m.insert e.1 e.2)
      simp only [List.foldl_cons, entryMembers, List.map_cons, membersLength, KeyMap.insert]
        at hinsert ht ⊢
      omega
  exact Nat.le_trans (hfold l KeyMap.empty) (Nat.le_of_eq (Nat.zero_add _))

theorem membersLength_toValid (l : List (Str × Str)) :
    membersLength (entryMembers (l.map fun e => (toValid e.1, toValid e.2))) ≤
      membersLength (entryMembers l) := by
  induction l with
  | nil => exact Nat.le_refl _
  | cons e l ih =>
    have hk := length_quote_toValid e.1
    have hvl := length_quote_toValid e.2
    simp only [entryMembers, List.map_cons, membersLength, memberLength, print] at ih ⊢
    omega

theorem slotLength_readBack (k : Str) (m : StrMap) :
    slotLength (k, m.readBack.omitEmpty) ≤ slotLength (k, m.omitEmpty) := by
  by_cases hm : m.entries = []
  · have hb : m.readBack.entries = [] := by
      rw [readBack, hm]
      rfl
    have he : m.readBack.omitEmpty = m.omitEmpty := by
      rw [omitEmpty, omitEmpty, if_pos hm, if_pos hb]
    exact Nat.le_of_eq (congrArg (fun v => slotLength (k, v)) he)
  rw [omitEmpty, omitEmpty]
  split_ifs
  · exact Nat.zero_le _
  apply slotLength_some
  apply length_print_obj_le
  exact Nat.le_trans (membersLength_ofEntries _) (membersLength_toValid m.entries)

end StrMap

end KubeNeuron.Lib
