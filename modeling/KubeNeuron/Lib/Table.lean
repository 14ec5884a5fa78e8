import Mathlib.Data.List.Nodup
import Mathlib.Data.List.Perm.Basic

/-!
# Statements over a table

A table is a list of rows. `updateWhere` and `deleteWhere` are the effects of an `UPDATE` and a
`DELETE` with a `WHERE` clause, and `firstBy` is `ORDER BY … LIMIT 1`. The lemmas say which rows a
table holds after a statement, and that an update which keeps a key keeps the keys distinct.
-/

namespace KubeNeuron.Lib

universe u v

variable {ρ : Type u} {κ : Type v}

/-- The rows that meet `p`, changed by `f`; the others as they are. -/
def updateWhere (p : ρ → Bool) (f : ρ → ρ) (rows : List ρ) : List ρ :=
  rows.map fun r => if p r then f r else r

/-- The rows that do not meet `p`. -/
def deleteWhere (p : ρ → Bool) (rows : List ρ) : List ρ := rows.filter fun r => !p r

variable {p : ρ → Bool} {f : ρ → ρ} {rows : List ρ} {r : ρ}

theorem mem_updateWhere : r ∈ updateWhere p f rows ↔
      ∃ s ∈ rows, (p s = true ∧ r = f s) ∨ (p s = false ∧ r = s) := by
  simp only [updateWhere, List.mem_map]
  constructor
  · rintro ⟨s, hs, rfl⟩
    refine ⟨s, hs, ?_⟩
    cases h : p s with
    | true => exact Or.inl ⟨rfl, by simp⟩
    | false => exact Or.inr ⟨rfl, by simp⟩
  · rintro ⟨s, hs, ⟨hp, rfl⟩ | ⟨hp, rfl⟩⟩
    · exact ⟨s, hs, by simp [hp]⟩
    · exact ⟨r, hs, by simp [hp]⟩

theorem forall_mem_updateWhere {P : ρ → Prop} (h : ∀ s ∈ rows, P s)
    (hf : ∀ s ∈ rows, p s = true → P (f s)) : ∀ s ∈ updateWhere p f rows, P s := by
  intro s hs
  obtain ⟨t, ht, ⟨hp, rfl⟩ | ⟨-, rfl⟩⟩ := mem_updateWhere.1 hs
  · exact hf t ht hp
  · exact h s ht

theorem forall_mem_insert {P : ρ → Prop} (h : ∀ s ∈ rows, P s) (hr : P r) :
    ∀ s ∈ rows ++ [r], P s :=
  List.forall_mem_append.2 ⟨h, List.forall_mem_singleton.2 hr⟩

variable {key : ρ → κ}

theorem nodup_map_insert (h : (rows.map key).Nodup)
    (hr : ∀ s ∈ rows, key s ≠ key r) : ((rows ++ [r]).map key).Nodup := by
  rw [List.map_append, List.map_singleton, ← List.concat_eq_append]
  exact List.Nodup.concat (by simpa using hr) h

/-- A list in which one member was replaced. -/
theorem mem_set_or {P : ρ → Prop} {i : Nat} (hr : P r) : ∀ s ∈ rows.set i r, s ∈ rows ∨ P s := by
  intro s hs
  rcases List.mem_or_eq_of_mem_set hs with hold | rfl
  · exact .inl hold
  · exact .inr hr

theorem mem_deleteWhere : r ∈ deleteWhere p rows ↔ r ∈ rows ∧ p r = false := by
  simp [deleteWhere]

theorem updateWhere_of_none (h : ∀ r ∈ rows, p r = false) : updateWhere p f rows = rows := by
  refine (List.map_congr_left fun r hr => ?_).trans (List.map_id _)
  simp [h r hr]

theorem updateWhere_congr {p' : ρ → Bool}
    (h : ∀ r ∈ rows, p r = p' r) : updateWhere p f rows = updateWhere p' f rows :=
  List.map_congr_left fun r hr => by rw [h r hr]

theorem mem_updateWhere_single {a : ρ} (ha : a ∈ rows) (hp : ∀ s ∈ rows, p s = true ↔ s = a) :
    r ∈ updateWhere p f rows ↔ r = f a ∨ (r ∈ rows ∧ r ≠ a) := by
  rw [mem_updateWhere]
  constructor
  · rintro ⟨s, hs, ⟨hps, rfl⟩ | ⟨hps, rfl⟩⟩
    · exact .inl (congrArg f ((hp s hs).1 hps))
    · exact Or.inr ⟨hs, fun h => by simp [(hp r hs).2 h] at hps⟩
  · rintro (rfl | ⟨hr, hne⟩)
    · exact ⟨a, ha, .inl ⟨(hp a ha).2 rfl, rfl⟩⟩
    · exact ⟨r, hr, .inr ⟨Bool.eq_false_iff.2 fun h => hne ((hp r hr).1 h), rfl⟩⟩

theorem head?_filter_single {a : ρ} (ha : a ∈ rows)
    (hp : ∀ s ∈ rows, p s = true ↔ s = a) : (rows.filter p).head? = some a := by
  have hm : a ∈ rows.filter p := List.mem_filter.2 ⟨ha, (hp a ha).2 rfl⟩
  cases hf : rows.filter p with
  | nil => simp [hf] at hm
  | cons s =>
    have hs : s ∈ rows.filter p := by simp [hf]
    obtain ⟨hs, hps⟩ := List.mem_filter.1 hs
    rw [List.head?_cons, (hp s hs).1 hps]

theorem map_updateWhere (key : ρ → κ) (hf : ∀ r, key (f r) = key r) (rows : List ρ) :
    (updateWhere p f rows).map key = rows.map key := by
  rw [updateWhere, List.map_map]
  refine List.map_congr_left fun r _ => ?_
  by_cases h : p r = true
  · simp [h, hf]
  · simp [h]

theorem find?_updateWhere {κ : Type v} [DecidableEq κ] (key : ρ → κ)
    (hf : ∀ r, p r = true → key (f r) = key r) (rows : List ρ) (k : κ) :
    (updateWhere p f rows).find? (fun r => key r = k) =
      (rows.find? fun r => key r = k).map fun r => if p r then f r else r := by
  rw [updateWhere, List.find?_map]
  refine congrArg _ (congrArg (fun q => List.find? q rows) (funext fun r => ?_))
  by_cases h : p r = true
  · simp [h, hf r h]
  · simp [h]

theorem eq_of_key_eq (hnd : (rows.map key).Nodup) {s : ρ}
    (hr : r ∈ rows) (hs : s ∈ rows) (h : key r = key s) : r = s :=
  List.inj_on_of_nodup_map hnd hr hs h

/-- A condition that fixes the key is met by one row. -/
theorem iff_eq_of_key (hnd : (rows.map key).Nodup) (hr : r ∈ rows) (hp : p r = true)
    (hk : ∀ s, p s = true → key s = key r) : ∀ s ∈ rows, p s = true ↔ s = r :=
  fun s hs => ⟨fun h => eq_of_key_eq hnd hs hr (hk s h), fun h => h ▸ hp⟩

theorem find?_of_key (hnd : (rows.map key).Nodup) (hr : r ∈ rows) (hp : p r = true)
    (hk : ∀ s, p s = true → key s = key r) : rows.find? p = some r := by
  rw [← List.head?_filter]
  exact head?_filter_single hr (iff_eq_of_key hnd hr hp hk)

/-- A table with distinct keys is known by its column of keys and the row of each key: if every row
is found changed by `f`, the table is the other one changed by `f`. -/
theorem eq_map_of_find? {κ : Type v} [DecidableEq κ] (key : ρ → κ) {rows' : List ρ}
    (hnd : (rows.map key).Nodup) (hy : rows'.map key = rows.map key)
    (hf : ∀ k ∈ rows.map key,
      rows'.find? (fun r => key r = k) = (rows.find? fun r => key r = k).map f) :
    rows' = rows.map f := by
  induction rows generalizing rows' with
  | nil => exact List.map_eq_nil_iff.1 hy
  | cons r _ ih =>
    obtain ⟨_, _, rfl, hh, ht⟩ := List.map_eq_cons_iff.1 hy
    obtain ⟨ho, hnd⟩ := List.nodup_cons.1 hnd
    have hfirst := hf (key r) (.head _)
    simp only [List.find?_cons, hh] at hfirst
    rw [Option.some.inj hfirst]
    refine congrArg _ (ih hnd ht fun k hk => ?_)
    -- the key of the first row is not looked up in the rest
    have hne : key r ≠ k := fun heq => ho (heq ▸ hk)
    have hr := hf k (.tail _ hk)
    simpa only [List.find?_cons, hh, hne, decide_false] using hr

theorem nodup_map_deleteWhere (p : ρ → Bool)
    (hnd : (rows.map key).Nodup) : ((deleteWhere p rows).map key).Nodup :=
  hnd.sublist (List.filter_sublist.map key)

/-- The first row in the order `lt`. -/
def firstBy (lt : ρ → ρ → Bool) : List ρ → Option ρ
  | [] => none
  | r :: rows =>
    match firstBy lt rows with
    | none => some r
    | some s => if lt s r then some s else some r

theorem firstBy_mem {lt : ρ → ρ → Bool} (h : firstBy lt rows = some r) : r ∈ rows := by
  induction rows generalizing r with
  | nil => simp [firstBy] at h
  | cons s rows ih =>
    cases ht : firstBy lt rows with
    | none =>
      simp only [firstBy, ht, Option.some.injEq] at h
      exact h ▸ (.head _)
    | some =>
      simp only [firstBy, ht] at h
      split_ifs at h
      · exact .tail _ (ih (ht.trans h))
      · exact Option.some.inj h ▸ (.head _)

theorem firstBy_eq_none {lt : ρ → ρ → Bool} : firstBy lt rows = none ↔ rows = [] := by
  cases rows with
  | nil => simp [firstBy]
  | cons r rows =>
    cases ht : firstBy lt rows with
    | none => simp [firstBy, ht]
    | some =>
      simp only [firstBy, ht]
      split_ifs <;> simp

theorem firstBy_min {lt : ρ → ρ → Bool} (hasymm : ∀ a b, lt a b = true → lt b a = false)
    (htrans : ∀ a b c, lt a b = false → lt b c = false → lt a c = false)
    (h : firstBy lt rows = some r) : ∀ s ∈ rows, lt s r = false := by
  have hirrefl : ∀ a, lt a a = false := fun a =>
    Bool.eq_false_iff.2 fun haa => by simp [hasymm a a haa] at haa
  induction rows generalizing r with
  | nil => simp [firstBy] at h
  | cons a rows ih =>
    intro s hs
    cases ht : firstBy lt rows with
    | none =>
      simp only [firstBy, ht, Option.some.injEq] at h
      rw [firstBy_eq_none.1 ht] at hs
      rw [List.mem_singleton.1 hs, h]
      exact hirrefl r
    | some t =>
      simp only [firstBy, ht] at h
      split_ifs at h with hta
      · -- the head comes after the first of the rest
        cases h
        rcases List.mem_cons.1 hs with rfl | hs
        · exact hasymm _ _ hta
        · exact ih ht s hs
      cases h
      rcases List.mem_cons.1 hs with rfl | hs
      · exact hirrefl s
      · exact htrans s t a (ih ht s hs) (Bool.eq_false_iff.2 hta)

variable {i : Nat} {a b : ρ}

theorem countP_eraseIdx (h : rows[i]? = some a) :
    (rows.eraseIdx i).countP p + (if p a then 1 else 0) = rows.countP p := by
  obtain ⟨hi, rfl⟩ := List.getElem?_eq_some_iff.1 h
  rw [← (List.getElem_cons_eraseIdx_perm hi).countP_eq p, List.countP_cons]

theorem countP_set (h : rows[i]? = some a) : (rows.set i b).countP p + (if p a then 1 else 0) =
      rows.countP p + (if p b then 1 else 0) := by
  obtain ⟨hi, -⟩ := List.getElem?_eq_some_iff.1 h
  rw [(List.set_perm_cons_eraseIdx hi b).countP_eq p, List.countP_cons, ← countP_eraseIdx h]
  omega

end KubeNeuron.Lib
