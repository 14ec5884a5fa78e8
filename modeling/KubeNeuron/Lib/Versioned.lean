import KubeNeuron.Lib.Run

/-!
# Rows with versions

Writers read a row, compute a new one and write it over the version they have read. While the
versions agree a copy is the row, and otherwise the row lies ahead of it: `Coherent` says this for
all copies ever taken, with an order `R` that every write follows.
-/

namespace KubeNeuron.Lib

variable {K V : Type} (version : V → Nat) (raise : V → Nat → V)

/-- What a step does with one row: nothing, the row is created, written over the version it has, or
deleted. `create` and `update` say which rows the step writes. -/
inductive RowChange (create : V → Prop) (update : V → Nat → Prop) : Option V → Option V → Prop
  | keep (row : Option V) : RowChange create update row row
  | create {new : V} (hnew : create new) : RowChange create update none (some new)
  | update {old new : V} (hnew : update new (version old)) :
      RowChange create update (some old) (some (raise new (version old + 1)))
  | erase (row : Option V) : RowChange create update row none

/-- The copies of rows that were taken, `seen`, agree with the rows of a table and with each other:
an older copy lies behind in the order `R`, and versions that agree are those of one and the same
row. -/
structure Coherent (R : V → V → Prop) (rows : K → Option V) (seen : K → V → Prop) : Prop where
  behind : ∀ {k : K} {copy row : V}, seen k copy → rows k = some row →
    version copy ≤ version row ∧ R copy row ∧ (version copy = version row → copy = row)
  chain : ∀ {k : K} {copy other : V}, seen k copy → seen k other → version copy ≤ version other →
    R copy other ∧ (version copy = version other → copy = other)

namespace Coherent

variable {version} {raise} {R : V → V → Prop} {rows rows' : K → Option V}
  {seen seen' : K → V → Prop}

section

variable (h : Coherent version R rows seen)
include h

theorem eq_row {k : K} {copy row : V} (hs : seen k copy)
    (hr : rows k = some row) (hv : version row = version copy) : copy = row :=
  (h.behind hs hr).2.2 hv.symm

theorem take (hrefl : ∀ r, R r r)
    (hn : ∀ k copy, seen' k copy → seen k copy ∨ rows k = some copy) :
    Coherent version R rows seen' := by
  constructor
  · intro k copy row hc hr
    obtain hc | hc := hn k copy hc
    · exact h.behind hc hr
    · cases hc.symm.trans hr
      exact ⟨Nat.le_refl _, hrefl _, fun _ => rfl⟩
  intro k copy other hc ho hle
  obtain hc | hc := hn k copy hc
  · obtain ho | ho := hn k other ho
    · exact h.chain hc ho hle
    · exact (h.behind hc ho).2
  obtain ho | ho := hn k other ho
  · -- the other copy is not ahead of the row, so the versions agree
    obtain ⟨hother_le, -, heq⟩ := h.behind ho hc
    have he := heq (Nat.le_antisymm hother_le hle)
    subst he
    exact ⟨hrefl _, fun _ => rfl⟩
  · cases hc.symm.trans ho
    exact ⟨hrefl _, fun _ => rfl⟩

/-- A step on the rows, after which copies may be taken of the new ones. `P` is known of the rows
and the copies before the step, and `Q` holds of them after it. -/
theorem next (hrefl : ∀ r, R r r) (htrans : ∀ {a b c}, R a b → R b c → R a c)
    (hraise : ∀ r n, version (raise r n) = n) {P Q : K → V → Prop}
    (hrow : ∀ {k r}, rows k = some r → P k r) (hcopy : ∀ {k r}, seen k r → P k r)
    (hmono : ∀ {k r}, P k r → Q k r) {create : K → V → Prop} {update : K → V → Nat → Prop}
    (hg : ∀ k, RowChange version raise (create k) (update k) (rows k) (rows' k))
    (hcreate : ∀ k new, create k new → (∀ copy, ¬ seen k copy) ∧ Q k new)
    (hu : ∀ k old new, rows k = some old → update k new (version old) →
      R old (raise new (version old + 1)) ∧ Q k (raise new (version old + 1)))
    (hn : ∀ k copy, seen' k copy → seen k copy ∨ rows' k = some copy) :
    Coherent version R rows' seen' ∧ (∀ {k r}, rows' k = some r → Q k r) ∧
      ∀ {k r}, seen' k r → Q k r := by
  have hs : ∀ k row', rows' k = some row' → Q k row' ∧ ∀ copy, seen k copy →
      version copy ≤ version row' ∧ R copy row' ∧ (version copy = version row' → copy = row') := by
    intro k row' hr'
    have hk := hg k
    generalize hb : rows k = before at hk
    generalize ha : rows' k = after at hk
    cases hk with
    | keep =>
      have hr := hb.trans (ha.symm.trans hr')
      exact ⟨hmono (hrow hr), fun copy hc => h.behind hc hr⟩
    | create hn =>
      cases ha.symm.trans hr'
      obtain ⟨hno, hq⟩ := hcreate k _ hn
      exact ⟨hq, fun copy hc => (hno copy hc).elim⟩
    | @update old new hn =>
      cases ha.symm.trans hr'
      obtain ⟨hR', hq⟩ := hu k old new hb hn
      refine ⟨hq, fun copy hc => ?_⟩
      obtain ⟨hle, hR, -⟩ := h.behind hc hb
      rw [hraise]
      exact ⟨Nat.le_succ_of_le hle, htrans hR hR', fun heq => by omega⟩
    | erase => cases ha.symm.trans hr'
  have hc : Coherent version R rows' seen := ⟨fun hc hr => (hs _ _ hr).2 _ hc, h.chain⟩
  refine ⟨hc.take hrefl hn, fun hr => (hs _ _ hr).1, fun {k r} hr => ?_⟩
  obtain hold | hr := hn k r hr
  · exact hmono (hcopy hold)
  · exact (hs k r hr).1

end

end Coherent

end KubeNeuron.Lib
