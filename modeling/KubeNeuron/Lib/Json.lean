import KubeNeuron.Lib.JsonText
import Mathlib.Data.List.Nodup

/-!
# JSON values

The value tree, its compact printer, and a reader of any JSON text. `parseJson_print` says that the
reader recovers every printed value whose numbers are integers, with stray bytes replaced. Printed
values hold no line feed (`newline_not_mem_print`).
-/

namespace KubeNeuron.Lib

inductive Json where
  | null
  | bool (b : Bool)
  | num (text : Str)
  | str (s : Str)
  | arr (xs : List Json)
  | obj (ms : List (Str × Json))

namespace Json

/-- An integer value. -/
def int (i : Int) : Json := .num (intText i)

/-! ## Printing -/

mutual

/-- The compact text of a value. -/
def print : Json → Str
  | .null => lit "null"
  | .bool true => lit "true"
  | .bool false => lit "false"
  | .num text => text
  | .str s => quote s
  | .arr [] => [0x5B, 0x5D]
  | .arr (x :: xs) => 0x5B :: (print x ++ printElems xs)
  | .obj [] => [0x7B, 0x7D]
  | .obj ((k, v) :: ms) => 0x7B :: (quote k ++ 0x3A :: (print v ++ printMembers ms))

/-- The elements after the first, and the closing bracket. -/
def printElems : List Json → Str
  | [] => [0x5D]
  | x :: xs => 0x2C :: (print x ++ printElems xs)

/-- The members after the first, and the closing brace. -/
def printMembers : List (Str × Json) → Str
  | [] => [0x7D]
  | (k, v) :: ms => 0x2C :: (quote k ++ 0x3A :: (print v ++ printMembers ms))

end

/-! ## Reading -/

/-- Drop the white space at the head of a text. -/
def skipWs (s : Str) : Str :=
  s.dropWhile fun b => b == 0x20 || b == 0x09 || b == 0x0A || b == 0x0D

/-- Drop a fixed text from the head of another. -/
def dropLit (pre s : Str) : Option Str :=
  if pre.isPrefixOf s then some (s.drop pre.length) else none

/-- A literal name or a number at the head of a text. -/
def parseScalar (s : Str) : Option (Json × Str) :=
  match dropLit (lit "null") s with
  | some r => some (.null, r)
  | none =>
    match dropLit (lit "true") s with
    | some r => some (.bool true, r)
    | none =>
      match dropLit (lit "false") s with
      | some r => some (.bool false, r)
      | none => (readNumber s).map fun p => (.num p.1, p.2)

mutual

/-- A value at the head of a text, and what follows it. -/
def parseValue : Nat → Str → Option (Json × Str)
  | 0, _ => none
  | fuel + 1, s =>
    match skipWs s with
    | [] => none
    | b :: r =>
      if b = 0x22 then
        (readString (r.length + 1) r).map fun p => (.str p.1, p.2)
      else if b = 0x5B then
        match skipWs r with
        | 0x5D :: r' => some (.arr [], r')
        | r' => (parseElems fuel r').map fun p => (.arr p.1, p.2)
      else if b = 0x7B then
        match skipWs r with
        | 0x7D :: r' => some (.obj [], r')
        | r' => (parseMembers fuel r').map fun p => (.obj p.1, p.2)
      else parseScalar (b :: r)

/-- The elements of an array up to its closing bracket. -/
def parseElems : Nat → Str → Option (List Json × Str)
  | 0, _ => none
  | fuel + 1, s =>
    match parseValue fuel s with
    | none => none
    | some (v, r) =>
      match skipWs r with
      | 0x2C :: r' => (parseElems fuel r').map fun p => (v :: p.1, p.2)
      | 0x5D :: r' => some ([v], r')
      | _ => none

/-- The members of an object up to its closing brace. -/
def parseMembers : Nat → Str → Option (List (Str × Json) × Str)
  | 0, _ => none
  | fuel + 1, s =>
    match skipWs s with
    | 0x22 :: r =>
      match readString (r.length + 1) r with
      | none => none
      | some (k, r₁) =>
        match skipWs r₁ with
        | 0x3A :: r₂ =>
          match parseValue fuel r₂ with
          | none => none
          | some (v, r₃) =>
            match skipWs r₃ with
            | 0x2C :: r₄ =>
              (parseMembers fuel r₄).map fun p => ((k, v) :: p.1, p.2)
            | 0x7D :: r₄ => some ([(k, v)], r₄)
            | _ => none
        | _ => none
    | _ => none

end

/-- The value of a whole text: nothing but white space may follow it. -/
def parseJson (s : Str) : Option Json :=
  match parseValue (s.length + 1) s with
  | some (v, r) => if skipWs r = [] then some v else none
  | none => none

/-! ## Reading back what was printed -/

mutual

/-- The value with the stray bytes of its strings and keys replaced. -/
def readBack : Json → Json
  | .null => .null
  | .bool b => .bool b
  | .num text => .num text
  | .str s => .str (toValid s)
  | .arr xs => .arr (readBackElems xs)
  | .obj ms => .obj (readBackMembers ms)

/-- The elements with their stray bytes replaced. -/
def readBackElems : List Json → List Json
  | [] => []
  | x :: xs => readBack x :: readBackElems xs

/-- The members with their stray bytes replaced. -/
def readBackMembers : List (Str × Json) → List (Str × Json)
  | [] => []
  | (k, v) :: ms => (toValid k, readBack v) :: readBackMembers ms

end

mutual

/-- Every number of the value is the text of an integer. -/
def IntNums : Json → Prop
  | .num text => ∃ i, text = intText i
  | .arr xs => IntNumsElems xs
  | .obj ms => IntNumsMembers ms
  | _ => True

/-- Every number of the elements is the text of an integer. -/
def IntNumsElems : List Json → Prop
  | [] => True
  | x :: xs => IntNums x ∧ IntNumsElems xs

/-- Every number of the members is the text of an integer. -/
def IntNumsMembers : List (Str × Json) → Prop
  | [] => True
  | (_, v) :: ms => IntNums v ∧ IntNumsMembers ms

end

/-- A byte that starts a printed value: no white space and no closing bracket. -/
def StartsValue (b : UInt8) : Prop :=
  (b == 0x20 || b == 0x09 || b == 0x0A || b == 0x0D) = false ∧ b ≠ 0x5D ∧ b ≠ 0x7D

instance (b : UInt8) : Decidable (StartsValue b) := inferInstanceAs (Decidable (_ ∧ _))

theorem intText_head (i : Int) : ∃ b s, intText i = b :: s ∧ StartsValue b ∧
    ∀ c ∈ [0x22, 0x5B, 0x66, 0x6E, 0x74, 0x7B], b ≠ c := by
  have hnil : intText i ≠ [] := by
    rw [intText]
    split_ifs <;> simp [natText_ne_nil]
  obtain ⟨b, s, hbs⟩ := List.exists_cons_of_ne_nil hnil
  have hb : b ∈ intText i := by simp [hbs]
  have hne : ∀ c : UInt8, (isDigitByte c || c == 0x2D) = false → b ≠ c := by
    rintro _ hc rfl
    rcases mem_intText hb with h | h <;> simp [h] at hc
  refine ⟨b, s, hbs, ⟨?_, hne _ (by decide), hne _ (by decide)⟩, fun c hc => hne c ?_⟩
  · simp [hne 0x20 (by decide), hne 0x09 (by decide), hne 0x0A (by decide), hne 0x0D (by decide)]
  · simp only [List.mem_cons, List.not_mem_nil, or_false] at hc
    rcases hc with rfl | rfl | rfl | rfl | rfl | rfl <;> rfl

theorem print_head (j : Json) (hj : IntNums j) : ∃ b s, print j = b :: s ∧ StartsValue b := by
  match j with
  | .null => exact ⟨_, _, rfl, by decide⟩
  | .bool true => exact ⟨_, _, rfl, by decide⟩
  | .bool false => exact ⟨_, _, rfl, by decide⟩
  | .num text =>
    obtain ⟨i, rfl⟩ := hj
    obtain ⟨b, s, hbs, hb, -⟩ := intText_head i
    exact ⟨b, s, by rw [print, hbs], hb⟩
  | .str s => exact ⟨_, _, rfl, by decide⟩
  | .arr [] => exact ⟨_, _, rfl, by decide⟩
  | .arr (x :: xs) => exact ⟨_, _, rfl, by decide⟩
  | .obj [] => exact ⟨_, _, rfl, by decide⟩
  | .obj ((k, v) :: ms) => exact ⟨_, _, rfl, by decide⟩

theorem skipWs_of_startsValue {b : UInt8} (hb : StartsValue b) (s : Str) :
    skipWs (b :: s) = b :: s := by
  simp only [skipWs, List.dropWhile_cons, hb.1]
  rfl

theorem parseScalar_intText (i : Int) {rest : Str} (hr : EndsNumber rest) :
    parseScalar (intText i ++ rest) = some (.num (intText i), rest) := by
  obtain ⟨b, s, hbs, -, hne⟩ := intText_head i
  have hd : ∀ c pre, b ≠ c → dropLit (c :: pre) (intText i ++ rest) = none := by
    intro c pre hc
    rw [hbs, List.cons_append, dropLit]
    simp [Ne.symm hc]
  rw [parseScalar, show lit "null" = 0x6E :: [0x75, 0x6C, 0x6C] by decide,
    show lit "true" = 0x74 :: [0x72, 0x75, 0x65] by decide,
    show lit "false" = 0x66 :: [0x61, 0x6C, 0x73, 0x65] by decide, hd _ _ (hne _ (by decide)),
    hd _ _ (hne _ (by decide)), hd _ _ (hne _ (by decide)), readNumber_intText i hr]
  rfl

theorem readString_quote_append (s rest : Str) (fuel : Nat)
    (hf : ((units s).flatMap quoteUnit ++ 0x22 :: rest).length < fuel) :
    readString fuel ((units s).flatMap quoteUnit ++ 0x22 :: rest) = some (toValid s, rest) := by
  refine readString_quote s fuel ?_ rest
  simp only [quote, List.length_append, List.length_cons, List.length_nil] at hf ⊢
  omega

theorem quote_append (s rest : Str) :
    quote s ++ rest = 0x22 :: ((units s).flatMap quoteUnit ++ 0x22 :: rest) := by
  simp [quote]

theorem endsNumber_printElems (xs : List Json) (rest : Str) :
    EndsNumber (printElems xs ++ rest) := by
  cases xs with
  | nil | cons =>
    simp only [printElems, List.cons_append, EndsNumber]
    decide

theorem endsNumber_printMembers (ms : List (Str × Json)) (rest : Str) :
    EndsNumber (printMembers ms ++ rest) := by
  cases ms with
  | nil | cons =>
    simp only [printMembers, List.cons_append, EndsNumber]
    decide

mutual

theorem parseValue_print (j : Json) (hj : IntNums j) (fuel : Nat)
    (hf : (print j).length ≤ fuel) (rest : Str) (hr : EndsNumber rest) :
    parseValue fuel (print j ++ rest) = some (readBack j, rest) := by
  obtain ⟨n, rfl⟩ : ∃ n, fuel = n + 1 := by
    obtain ⟨_, _, hbs, -⟩ := print_head j hj
    rw [hbs, List.length_cons] at hf
    exact ⟨fuel - 1, by omega⟩
  match j, hj with
  | .null, _ => rfl
  | .bool true, _ => rfl
  | .bool false, _ => rfl
  | .num text, hj =>
    obtain ⟨i, rfl⟩ := hj
    obtain ⟨_, _, hbs, hb, hne⟩ := intText_head i
    have hscalar := parseScalar_intText i hr
    rw [hbs, List.cons_append] at hscalar
    rw [print, readBack, hbs, List.cons_append, parseValue, skipWs_of_startsValue hb]
    simp only [hne 0x22 (by decide), hne 0x5B (by decide), hne 0x7B (by decide), if_false]
    exact hscalar
  | .str s, _ =>
    rw [print, quote_append, parseValue, skipWs_of_startsValue (by decide)]
    simp only [if_true, readString_quote_append s rest _ (Nat.lt_succ_self _), Option.map_some,
      readBack]
  | .arr [], _ => rfl
  | .arr (x :: xs), hj =>
    obtain ⟨b, s, hbs, hb⟩ := print_head x hj.1
    have helems := parseElems_print x xs hj n (by
      simp only [print, List.length_cons, List.length_append] at hf ⊢
      omega) rest
    rw [hbs, List.cons_append] at helems
    rw [print, List.cons_append, List.append_assoc, hbs, List.cons_append, parseValue,
      skipWs_of_startsValue (by decide)]
    simp only [show (0x5B : UInt8) ≠ 0x22 by decide, if_false, if_true, skipWs_of_startsValue hb]
    split
    · rename_i heq
      exact absurd (List.cons.inj heq).1 hb.2.1
    · rw [helems]
      rfl
  | .obj [], _ => rfl
  | .obj ((k, v) :: ms), hj =>
    have hmembers := parseMembers_print k v ms hj n (by
      simp only [print, List.length_cons, List.length_append] at hf ⊢
      omega) rest
    rw [quote_append] at hmembers
    rw [print, List.cons_append, List.append_assoc, List.cons_append, List.append_assoc,
      quote_append, parseValue, skipWs_of_startsValue (by decide)]
    simp only [show (0x7B : UInt8) ≠ 0x22 by decide, show (0x7B : UInt8) ≠ 0x5B by decide,
      if_false, if_true, skipWs_of_startsValue (show StartsValue 0x22 by decide)]
    split
    · rename_i heq
      exact absurd (List.cons.inj heq).1 (by decide)
    · rw [hmembers]
      rfl
termination_by fuel

theorem parseElems_print (x : Json) (xs : List Json) (hx : IntNumsElems (x :: xs)) (fuel : Nat)
    (hf : (print x ++ printElems xs).length ≤ fuel) (rest : Str) :
    parseElems fuel (print x ++ (printElems xs ++ rest)) = some (readBackElems (x :: xs),
      rest) := by
  have hxs : 1 ≤ (printElems xs).length := by cases xs <;> simp [printElems]
  rw [List.length_append] at hf
  obtain ⟨n, rfl⟩ : ∃ n, fuel = n + 1 := ⟨fuel - 1, by omega⟩
  rw [parseElems, parseValue_print x hx.1 n (by omega) _ (endsNumber_printElems xs rest)]
  match xs, hx with
  | [], _ => rfl
  | y :: ys, hx =>
    rw [printElems, List.length_cons] at hf
    have ht := parseElems_print y ys hx.2 n (by omega) rest
    simp only [printElems, List.cons_append, List.append_assoc,
      skipWs_of_startsValue (show StartsValue 0x2C by decide), ht]
    rfl
termination_by fuel

theorem parseMembers_print (k : Str) (v : Json) (ms : List (Str × Json))
    (hm : IntNumsMembers ((k, v) :: ms)) (fuel : Nat)
    (hf : (quote k ++ 0x3A :: (print v ++ printMembers ms)).length ≤ fuel) (rest : Str) :
    parseMembers fuel (quote k ++ 0x3A :: (print v ++ (printMembers ms ++ rest))) =
      some (readBackMembers ((k, v) :: ms), rest) := by
  have hquote : 2 ≤ (quote k).length := by simp [quote]
  simp only [List.length_append, List.length_cons] at hf
  obtain ⟨n, rfl⟩ : ∃ n, fuel = n + 1 := ⟨fuel - 1, by omega⟩
  rw [quote_append, parseMembers, skipWs_of_startsValue (show StartsValue 0x22 by decide)]
  simp only [readString_quote_append k _ _ (Nat.lt_succ_self _),
    skipWs_of_startsValue (show StartsValue 0x3A by decide)]
  rw [parseValue_print v hm.1 n (by omega) _ (endsNumber_printMembers ms rest)]
  match ms, hm with
  | [], _ => rfl
  | (k', v') :: ms', hm =>
    simp only [List.length_append, List.length_cons, printMembers] at hf
    have ht := parseMembers_print k' v' ms' hm.2 n (by
      simp only [List.length_append, List.length_cons]
      omega) rest
    simp only [printMembers, List.cons_append, List.append_assoc,
      skipWs_of_startsValue (show StartsValue 0x2C by decide), ht]
    rfl
termination_by fuel

end

/-- **The reader recovers a printed value**, with the stray bytes of its strings replaced. -/
theorem parseJson_print (j : Json) (hj : IntNums j) : parseJson (print j) = some (readBack j) := by
  have h := parseValue_print j hj ((print j).length + 1) (Nat.le_succ _) [] trivial
  rw [List.append_nil] at h
  simp [parseJson, h, skipWs]

/-! ## Printed values hold no line feed -/

mutual

theorem newline_not_mem_print (j : Json) (hj : IntNums j) : (0x0A : UInt8) ∉ print j := by
  match j, hj with
  | .null, _ => decide
  | .bool true, _ => decide
  | .bool false, _ => decide
  | .num text, hj =>
    obtain ⟨i, rfl⟩ := hj
    exact newline_not_mem_intText i
  | .str s, _ => exact newline_not_mem_quote s
  | .arr [], _ => decide
  | .arr (x :: xs), hj =>
    have hx := newline_not_mem_print x hj.1
    have hxs := newline_not_mem_printElems xs hj.2
    simp only [print, List.mem_cons, List.mem_append, not_or]
    exact ⟨by decide, hx, hxs⟩
  | .obj [], _ => decide
  | .obj ((k, v) :: ms), hj =>
    have hv := newline_not_mem_print v hj.1
    have hms := newline_not_mem_printMembers ms hj.2
    simp only [print, List.mem_cons, List.mem_append, not_or]
    exact ⟨by decide, newline_not_mem_quote k, by decide, hv, hms⟩

theorem newline_not_mem_printElems (xs : List Json) (hxs : IntNumsElems xs) :
    (0x0A : UInt8) ∉ printElems xs := by
  match xs, hxs with
  | [], _ => decide
  | x :: xs, hxs =>
    have hx := newline_not_mem_print x hxs.1
    have ht := newline_not_mem_printElems xs hxs.2
    simp only [printElems, List.mem_cons, List.mem_append, not_or]
    exact ⟨by decide, hx, ht⟩

theorem newline_not_mem_printMembers (ms : List (Str × Json)) (hms : IntNumsMembers ms) :
    (0x0A : UInt8) ∉ printMembers ms := by
  match ms, hms with
  | [], _ => decide
  | (k, v) :: ms, hms =>
    have hv := newline_not_mem_print v hms.1
    have ht := newline_not_mem_printMembers ms hms.2
    simp only [printMembers, List.mem_cons, List.mem_append, not_or]
    exact ⟨by decide, newline_not_mem_quote k, by decide, hv, ht⟩

end

/-! ## Records -/

/-- The members of a record: the slots that are not omitted, in order. -/
def members (slots : List (Str × Option Json)) : List (Str × Json) :=
  slots.filterMap fun f => f.2.map fun v => (f.1, v)

/-- The value of the last member with the given key. -/
def get (ms : List (Str × Json)) (k : Str) : Option Json := ms.reverse.lookup k

theorem lookup_eq_none_of_notMem {ms : List (Str × Json)} {k : Str}
    (h : k ∉ ms.map Prod.fst) : ms.lookup k = none := by
  rw [List.lookup_eq_none_iff]
  intro p hp
  simp only [bne_iff_ne]
  rintro rfl
  exact h (List.mem_map_of_mem hp)

theorem map_fst_members (slots : List (Str × Option Json)) :
    ((members slots).map Prod.fst).Sublist (slots.map Prod.fst) := by
  induction slots with
  | nil => simp [members]
  | cons f _ ih =>
    obtain ⟨k, v⟩ := f
    cases v with
    | none => exact ih.trans (by simp)
    | some => exact List.Sublist.cons_cons k ih

theorem get_of_mem {ms : List (Str × Json)} (hnd : (ms.map Prod.fst).Nodup) {k : Str}
    {v : Json} (h : (k, v) ∈ ms) : get ms k = some v := by
  obtain ⟨l, r, hl⟩ := List.append_of_mem (List.mem_reverse.2 h)
  refine List.lookup_eq_some_iff.2 ⟨l, r, hl, fun p hp => bne_iff_ne.2 ?_⟩
  rw [← List.nodup_reverse, ← List.map_reverse, hl, List.map_append, List.map_cons] at hnd
  rintro rfl
  exact (List.nodup_append.1 hnd).2.2 _ (List.mem_map_of_mem hp) _ (.head _) rfl

theorem get_members {slots : List (Str × Option Json)} (hnd : (slots.map Prod.fst).Nodup)
    {k : Str} {v : Option Json} (h : (k, v) ∈ slots) : get (members slots) k = v := by
  cases v with
  | some v =>
    exact get_of_mem ((map_fst_members slots).nodup hnd) (List.mem_filterMap.2 ⟨_, h, rfl⟩)
  | none =>
    refine lookup_eq_none_of_notMem fun hm => ?_
    -- a member with the key would come from another slot of that key
    obtain ⟨_, hmem, rfl⟩ := List.mem_map.1 hm
    obtain ⟨⟨_, _⟩, hs, heq⟩ := List.mem_filterMap.1 (List.mem_reverse.1 hmem)
    obtain ⟨_, rfl, rfl⟩ := Option.map_eq_some_iff.1 heq
    cases List.inj_on_of_nodup_map hnd hs h rfl

/-- Keys a record can have: distinct, and their own replacement. -/
def RecordKeys (keys : List Str) : Prop := keys.Nodup ∧ ∀ k ∈ keys, toValid k = k

instance (keys : List Str) : Decidable (RecordKeys keys) :=
  inferInstanceAs (Decidable (_ ∧ _))

theorem readBackMembers_members (slots : List (Str × Option Json))
    (hk : ∀ k ∈ slots.map Prod.fst, toValid k = k) :
    readBackMembers (members slots) = members (slots.map fun f => (f.1, f.2.map readBack)) := by
  induction slots with
  | nil => rfl
  | cons f _ ih =>
    obtain ⟨k, v⟩ := f
    have hy : toValid k = k := hk k (.head _)
    have ht := ih fun f hf => hk f (.tail _ hf)
    cases v with
    | none => simpa [members] using ht
    | some =>
      simp only [members, List.filterMap_cons, Option.map_some, List.map_cons,
        readBackMembers, hy] at ht ⊢
      rw [ht]

theorem get_readBackMembers {slots : List (Str × Option Json)}
    (hk : RecordKeys (slots.map Prod.fst)) {k : Str} {v : Option Json}
    (h : (k, v) ∈ slots) : get (readBackMembers (members slots)) k = v.map readBack := by
  rw [readBackMembers_members slots hk.2]
  refine get_members ?_ (List.mem_map.2 ⟨(k, v), h, rfl⟩)
  rw [List.map_map]
  exact hk.1

@[simp]
theorem intNums_int (i : Int) : (int i).IntNums :=
  ⟨i, rfl⟩

theorem intNumsMembers_members (slots : List (Str × Option Json))
    (h : ∀ f ∈ slots, ∀ v ∈ f.2, IntNums v) : IntNumsMembers (members slots) := by
  induction slots with
  | nil => trivial
  | cons f _ ih =>
    obtain ⟨k, v⟩ := f
    have ht := ih fun f hf => h f (.tail _ hf)
    cases v with
    | none => exact ht
    | some v => exact ⟨h (k, some v) (.head _) v rfl, ht⟩

/-! ## Fields

An absent member and a `null` both leave a field at its zero value; a value of another kind is an
error. -/

def stringField : Option Json → Option Str
  | none => some []
  | some .null => some []
  | some (.str s) => some s
  | some _ => none

def boolField : Option Json → Option Bool
  | none => some false
  | some .null => some false
  | some (.bool b) => some b
  | some _ => none

/-- A 64-bit integer field. -/
def intField : Option Json → Option Int
  | none => some 0
  | some .null => some 0
  | some (.num text) => parseInt text
  | some _ => none

/-- The member of a field that is left out when it holds the empty string. -/
def omitEmpty (s : Str) : Option Json := if s = [] then none else some (.str s)

theorem stringField_omitEmpty (s : Str) :
    stringField ((omitEmpty s).map readBack) = some (toValid s) := by
  by_cases h : s = []
  · subst h
    rfl
  · simp [omitEmpty, h, readBack, stringField]

theorem intNums_omitEmpty (s : Str) : ∀ v ∈ omitEmpty s, IntNums v := by
  rw [omitEmpty]
  split_ifs <;> simp [IntNums]

theorem intField_int {i : Int} (hi : FitsInt64 i) : intField (some (int i)) = some i :=
  parseInt_intText hi

end Json

end KubeNeuron.Lib
