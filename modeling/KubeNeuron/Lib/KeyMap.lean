import KubeNeuron.Lib.Bytes
import Mathlib.Data.List.Nodup
import Mathlib.Data.List.Perm.Subperm

/-!
# Maps with string keys

A map is kept as its entries in strictly increasing order of the keys: the order in which the source
sorts the keys before it walks a map, and in which the JSON text of a map lists them. Equal maps are
therefore equal lists, and inserting the entries of a map one by one rebuilds it
(`ofEntries_entries`).
-/

namespace KubeNeuron.Lib

variable {β : Type}

def KeysIncrease (l : List (Str × β)) : Prop := l.Pairwise fun a b => a.1 < b.1

/-- A map from strings to values. -/
@[ext] structure KeyMap (β : Type) where
  entries : List (Str × β)
  increase : KeysIncrease entries
  deriving DecidableEq

variable {k : Str} {v : β} {l : List (Str × β)} {m : KeyMap β}

namespace KeyMap

def empty : KeyMap β := ⟨[], List.Pairwise.nil⟩

def get? (m : KeyMap β) (k : Str) : Option β := m.entries.lookup k

def size (m : KeyMap β) : Nat := m.entries.length

/-- The entries that satisfy a condition. -/
def filter (p : Str → β → Bool) (m : KeyMap β) : KeyMap β :=
  ⟨m.entries.filter fun e => p e.1 e.2, m.increase.filter _⟩

/-- Put an entry in its place, replacing the entry of the same key. -/
def insertEntry (k : Str) (v : β) : List (Str × β) → List (Str × β)
  | [] => [(k, v)]
  | (k', v') :: l =>
    if k < k' then (k, v) :: (k', v') :: l
    else if k = k' then (k, v) :: l
    else (k', v') :: insertEntry k v l

theorem mem_insertEntry {e : Str × β} (h : e ∈ insertEntry k v l) : e = (k, v) ∨ e ∈ l := by
  induction l with
  | nil => simpa [insertEntry] using h
  | cons f l ih =>
    rw [insertEntry] at h
    split_ifs at h
    · rcases List.mem_cons.1 h with h | h
      · exact .inl h
      · exact .inr h
    · rcases List.mem_cons.1 h with h | h
      · exact .inl h
      · exact .inr (.tail _ h)
    rcases List.mem_cons.1 h with h | h
    · exact .inr (h ▸ (.head _))
    rcases ih h with h | h
    · exact .inl h
    · exact .inr (.tail _ h)

theorem keysIncrease_insertEntry (k : Str) (v : β)
    (hl : KeysIncrease l) : KeysIncrease (insertEntry k v l) := by
  induction l with
  | nil => exact List.pairwise_singleton _ _
  | cons f l ih =>
    obtain ⟨k', _⟩ := f
    obtain ⟨hh, ht⟩ := List.pairwise_cons.1 hl
    rw [insertEntry]
    split_ifs with hlt heq
    · refine List.pairwise_cons.2 ⟨?_, hl⟩
      exact List.forall_mem_cons.2 ⟨hlt, fun e he => List.lt_trans hlt (hh e he)⟩
    · subst heq
      exact List.pairwise_cons.2 ⟨hh, ht⟩
    refine List.pairwise_cons.2 ⟨?_, ih ht⟩
    intro e he
    rcases mem_insertEntry he with rfl | he
    · rcases Std.lt_trichotomy k k' with h | h | h
      · exact absurd h hlt
      · exact absurd h heq
      · exact h
    · exact hh e he

/-- Set the value of a key. -/
def insert (m : KeyMap β) (k : Str) (v : β) : KeyMap β :=
  ⟨insertEntry k v m.entries, keysIncrease_insertEntry k v m.increase⟩

/-- The map of a list of entries; the last of several entries for one key wins. -/
def ofEntries (l : List (Str × β)) : KeyMap β :=
  l.foldl (fun m e => m.insert e.1 e.2) empty

theorem insertEntry_of_lt (h : ∀ e ∈ l, e.1 < k) : insertEntry k v l = l ++ [(k, v)] := by
  induction l with
  | nil => rfl
  | cons f l ih =>
    obtain ⟨k', v'⟩ := f
    have hk : k' < k := h (k', v') (.head _)
    have hne : k ≠ k' := by
      rintro rfl
      exact List.lt_irrefl _ hk
    rw [insertEntry, if_neg (List.lt_asymm hk), if_neg hne, ih fun e he => h e (.tail _ he)]
    rfl

theorem foldl_insert_entries (m : KeyMap β) (hl : KeysIncrease (m.entries ++ l)) :
    (l.foldl (fun m e => m.insert e.1 e.2) m).entries = m.entries ++ l := by
  induction l generalizing m with
  | nil => simp
  | cons e l ih =>
    have hins : (m.insert e.1 e.2).entries = m.entries ++ [e] := by
      refine insertEntry_of_lt fun f hf => ?_
      exact (List.pairwise_append.1 hl).2.2 f hf e (.head _)
    rw [List.foldl_cons, ih (m.insert e.1 e.2), hins, List.append_assoc]
    · rfl
    · rw [hins, List.append_assoc]
      exact hl

theorem ofEntries_entries (m : KeyMap β) : ofEntries m.entries = m :=
  KeyMap.ext (foldl_insert_entries empty m.increase)

theorem mem_ofEntries {e : Str × β} (h : e ∈ (ofEntries l).entries) : e ∈ l := by
  have hfold : ∀ (l : List (Str × β)) (m : KeyMap β),
      e ∈ (l.foldl (fun m f => m.insert f.1 f.2) m).entries → e ∈ m.entries ∨ e ∈ l := by
    intro l
    induction l with
    | nil => exact fun m h => .inl h
    | cons f l ih =>
      intro m h
      rcases ih _ h with h | h
      · rcases mem_insertEntry h with rfl | h
        · exact .inr (.head _)
        · exact .inl h
      · exact .inr (.tail _ h)
  rcases hfold l empty h with h | h
  · simp [empty] at h
  · exact h

/-! ## Looking keys up -/

theorem get?_empty (k : Str) : (empty : KeyMap β).get? k = none := rfl

theorem lookup_cons (k : Str) (v : β) (l : List (Str × β)) (k' : Str) :
    ((k, v) :: l).lookup k' = if k' = k then some v else l.lookup k' := by
  by_cases h : k' = k
  · simp [h]
  · have : (k' == k) = false := by simpa using h
    simp [List.lookup_cons, this, h]

theorem lookup_eq_none (h : ∀ e ∈ l, e.1 ≠ k) : l.lookup k = none := by
  rw [List.lookup_eq_none_iff]
  intro e he
  simpa [bne_iff_ne] using Ne.symm (h e he)

theorem lookup_insertEntry (k k' : Str) (v : β) (l : List (Str × β)) :
    (insertEntry k v l).lookup k' = if k' = k then some v else l.lookup k' := by
  induction l with
  | nil => exact lookup_cons k v [] k'
  | cons f l ih =>
    obtain ⟨k'', _⟩ := f
    rw [insertEntry]
    by_cases hlt : k < k''
    · rw [if_pos hlt, lookup_cons]
    rw [if_neg hlt]
    by_cases heq : k = k''
    · rw [if_pos heq, lookup_cons, lookup_cons]
      by_cases h : k' = k
      · rw [if_pos h, if_pos h]
      · rw [if_neg h, if_neg h, if_neg (heq ▸ h)]
    rw [if_neg heq, lookup_cons, lookup_cons, ih]
    -- the key stands behind `k''`, so looking `k` up passes `k''`
    by_cases h : k' = k
    · rw [if_pos h, if_pos h, if_neg (h ▸ heq)]
    · rw [if_neg h, if_neg h]

theorem get?_insert (m : KeyMap β) (k k' : Str) (v : β) :
    (m.insert k v).get? k' = if k' = k then some v else m.get? k' :=
  lookup_insertEntry k k' v m.entries

@[simp] theorem get?_insert_self (m : KeyMap β) (k : Str) (v : β) :
    (m.insert k v).get? k = some v := by rw [get?_insert, if_pos rfl]

theorem get?_insert_of_ne (m : KeyMap β) {k' : Str} (v : β) (h : k' ≠ k) :
    (m.insert k v).get? k' = m.get? k' := by rw [get?_insert, if_neg h]

/-- An entry of the list is found when no other entry of it has the key with another value. -/
theorem get?_ofEntries (hm : (k, v) ∈ l) (hu : ∀ e ∈ l, e.1 = k → e.2 = v) :
    (ofEntries l).get? k = some v := by
  -- the value is in the map already, or the entry is still to come
  have hfold : ∀ m : KeyMap β, (k, v) ∈ l ∨ m.get? k = some v →
      (l.foldl (fun m e => m.insert e.1 e.2) m).get? k = some v := by
    clear hm
    induction l with
    | nil =>
      rintro m (hm | hm)
      · cases hm
      · exact hm
    | cons e l ih =>
      intro m hm
      apply ih fun f hf => hu f (.tail _ hf)
      by_cases hk : e.1 = k
      · rw [← hk, get?_insert_self, hu e (.head _) hk]
        exact .inr rfl
      · rw [get?_insert_of_ne _ _ (Ne.symm hk)]
        exact hm.imp_left fun h => (List.mem_cons.1 h).resolve_left fun he =>
          hk (congrArg Prod.fst he).symm
  exact hfold _ (.inl hm)

theorem forall_insert {P : Str → β → Prop}
    (h : ∀ k' v', k' ≠ k → m.get? k' = some v' → P k' v') (hk : P k v) (k' : Str) (v' : β)
    (hg : (m.insert k v).get? k' = some v') : P k' v' := by
  rw [get?_insert] at hg
  split_ifs at hg with heq
  · cases hg
    exact heq ▸ hk
  · exact h k' v' heq hg

theorem lookup_of_increase (hl : KeysIncrease l) : l.lookup k = some v ↔ (k, v) ∈ l := by
  induction l with
  | nil => simp
  | cons f l ih =>
    obtain ⟨k', _⟩ := f
    obtain ⟨hh, ht⟩ := List.pairwise_cons.1 hl
    rw [lookup_cons]
    by_cases h : k = k'
    · subst h
      have ho : ∀ w, (k, w) ∉ l := fun w hw => List.lt_irrefl _ (hh (k, w) hw)
      simp [ho, eq_comm]
    · simp [ih ht, h]

theorem mem_entries : (k, v) ∈ m.entries ↔ m.get? k = some v :=
  (lookup_of_increase m.increase).symm

theorem get?_filter {p : Str → β → Bool} :
    (m.filter p).get? k = some v ↔ m.get? k = some v ∧ p k v = true := by
  rw [← mem_entries, ← mem_entries]
  exact List.mem_filter

theorem get?_filter_eq (p : Str → β → Bool) : (m.filter p).get? k = (m.get? k).filter (p k) := by
  refine Option.ext fun v => ?_
  rw [get?_filter, Option.filter_eq_some_iff]

theorem mem_keys : k ∈ m.entries.map Prod.fst ↔ (m.get? k).isSome := by
  rw [List.mem_map, Option.isSome_iff_exists]
  constructor
  · rintro ⟨⟨_, v⟩, hm, rfl⟩
    exact ⟨v, mem_entries.1 hm⟩
  · rintro ⟨v, hv⟩
    exact ⟨(k, v), mem_entries.2 hv, rfl⟩

theorem nodup_keys (m : KeyMap β) : (m.entries.map Prod.fst).Nodup := by
  refine List.pairwise_map.2 (m.increase.imp ?_)
  intro a b hab heq
  exact List.lt_irrefl _ (heq ▸ hab)

theorem ext_get? {n : KeyMap β} (h : ∀ k, m.get? k = n.get? k) : m = n := by
  have hm : ∀ e, e ∈ m.entries ↔ e ∈ n.entries := by
    rintro ⟨_, _⟩
    rw [mem_entries, mem_entries, h]
  have hp : m.entries.Perm n.entries :=
    (List.perm_ext_iff_of_nodup (List.Nodup.of_map _ (nodup_keys m))
      (List.Nodup.of_map _ (nodup_keys n))).2 hm
  apply KeyMap.ext
  refine hp.eq_of_pairwise ?_ m.increase n.increase
  intro a b _ _ hab hba
  exact absurd hba (List.lt_asymm hab)

/-- The values changed by a function. -/
def mapValues {γ : Type} (f : β → γ) (m : KeyMap β) : KeyMap γ :=
  ⟨m.entries.map (Prod.map id f), List.pairwise_map.mpr m.increase⟩

theorem get?_mapValues {γ : Type} (f : β → γ) (m : KeyMap β) (k : Str) :
    (m.mapValues f).get? k = (m.get? k).map f := by
  have hlookup : ∀ l : List (Str × β), (l.map (Prod.map id f)).lookup k = (l.lookup k).map f := by
    intro l
    induction l with
    | nil => rfl
    | cons e l ih =>
      rw [List.map_cons, Prod.map_apply, id_eq, lookup_cons, lookup_cons, ih]
      split_ifs
      · rfl
      · rfl
  exact hlookup m.entries

theorem size_le {γ : Type} {n : KeyMap γ}
    (h : ∀ k, (m.get? k).isSome → (n.get? k).isSome) : m.size ≤ n.size := by
  have hs : m.entries.map Prod.fst ⊆ n.entries.map Prod.fst := fun k hk =>
    mem_keys.2 (h k (mem_keys.1 hk))
  simpa [size] using ((nodup_keys m).subperm hs).length_le

theorem size_lt {γ : Type} {n : KeyMap γ}
    (h : ∀ k, (m.get? k).isSome → (n.get? k).isSome) (hm : m.get? k = none)
    (hn : (n.get? k).isSome) : m.size < n.size := by
  have hk : k ∉ m.entries.map Prod.fst := by
    rw [mem_keys, hm]
    exact Bool.false_ne_true
  have hs : k :: m.entries.map Prod.fst ⊆ n.entries.map Prod.fst := by
    intro k' hk'
    obtain _ | ⟨_, hk'⟩ := hk'
    · exact mem_keys.2 hn
    · exact mem_keys.2 (h k' (mem_keys.1 hk'))
  have hnd := List.nodup_cons.2 ⟨hk, nodup_keys m⟩
  simpa [size, Nat.succ_le_iff] using (hnd.subperm hs).length_le

/-- A map with as many entries as a map it is part of is that map. -/
theorem eq_of_size {n : KeyMap β} (h : ∀ k v, m.get? k = some v → n.get? k = some v)
    (hs : m.size = n.size) : m = n := by
  apply ext_get?
  intro k
  cases hm : m.get? k with
  | some v => exact (h k v hm).symm
  | none =>
    by_contra hn
    refine Nat.ne_of_lt
      (size_lt (fun k' hk' => ?_) hm (Option.isSome_iff_ne_none.2 (Ne.symm hn))) hs
    obtain ⟨v, hv⟩ := Option.isSome_iff_exists.1 hk'
    exact Option.isSome_iff_exists.2 ⟨v, h k' v hv⟩

theorem length_insertEntry_le (k : Str) (v : β) (l : List (Str × β)) :
    (insertEntry k v l).length ≤ l.length + 1 := by
  induction l with
  | nil => exact Nat.le_refl _
  | cons e l ih =>
    rw [insertEntry]
    split_ifs
    · exact Nat.le_refl _
    · exact Nat.le_succ _
    · exact Nat.succ_le_succ ih

theorem size_insert_of_isSome (v : β) (h : (m.get? k).isSome) : (m.insert k v).size ≤ m.size := by
  apply size_le
  intro k' hk'
  rw [get?_insert] at hk'
  split_ifs at hk' with heq
  · rw [heq]
    exact h
  · exact hk'

/-! ## Removing keys -/

def erase (m : KeyMap β) (k : Str) : KeyMap β := m.filter fun k' _ => k' ≠ k

theorem get?_erase_some {k' : Str} :
    (m.erase k).get? k' = some v ↔ m.get? k' = some v ∧ k' ≠ k := by
  rw [erase, get?_filter, decide_eq_true_eq]

theorem get?_erase (m : KeyMap β) (k k' : Str) :
    (m.erase k).get? k' = if k' = k then none else m.get? k' := by
  by_cases h : k' = k
  · rw [if_pos h]
    exact Option.eq_none_iff_forall_ne_some.2 fun v hv => (get?_erase_some.1 hv).2 h
  rw [if_neg h]
  refine Option.ext fun v => ?_
  rw [get?_erase_some]
  exact ⟨fun hv => hv.1, fun hv => ⟨hv, h⟩⟩

/-! ## Counting references -/

/-- The references a key has. A key without any is not in the map. -/
def count (m : KeyMap Nat) (k : Str) : Nat := (m.get? k).getD 0

/-- One more reference. -/
def acquire (m : KeyMap Nat) (k : Str) : KeyMap Nat := m.insert k (m.count k + 1)

/-- One reference less, when the key has any. The key goes with its last reference. -/
def release (m : KeyMap Nat) (k : Str) : KeyMap Nat :=
  if m.count k = 0 then m
  else if m.count k = 1 then m.erase k
  else m.insert k (m.count k - 1)

theorem count_insert (m : KeyMap Nat) (k k' : Str) (n : Nat) :
    (m.insert k n).count k' = if k' = k then n else m.count k' := by
  rw [count, get?_insert]
  split_ifs
  · rfl
  · rfl

theorem count_acquire (m : KeyMap Nat) (k k' : Str) :
    (m.acquire k).count k' = m.count k' + if k' = k then 1 else 0 := by
  rw [acquire, count_insert]
  split_ifs with h
  · rw [h]
  · rfl

theorem count_release (m : KeyMap Nat) (k k' : Str) :
    (m.release k).count k' = m.count k' - if k' = k then 1 else 0 := by
  rw [release]
  by_cases h : k' = k
  · subst h
    rw [if_pos rfl]
    split_ifs with hz ho
    · omega
    · rw [count, get?_erase, if_pos rfl, ho]
      rfl
    · rw [count_insert, if_pos rfl]
  · rw [if_neg h, Nat.sub_zero]
    split_ifs
    · rfl
    · rw [count, get?_erase, if_neg h]
      rfl
    · rw [count_insert, if_neg h]

end KeyMap

end KubeNeuron.Lib
