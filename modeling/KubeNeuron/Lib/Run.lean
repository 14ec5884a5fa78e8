import Mathlib.Data.List.Basic

/-!
# Runs of a guarded step function

A system is a step function `next : σ → α → Option σ`; a run is a list of operations, each enabled
when it is taken. An invariant of single steps is one of runs (`exec_invariant`), a preorder across
single steps holds across runs (`exec_relates`), and both relativise to runs whose steps all meet a
side condition (`Along`).
-/

namespace KubeNeuron.Lib

universe u v

variable {σ : Type u} {α : Type v} {next : σ → α → Option σ}

/-- Take the operations in order. The result is `none` as soon as one of them is not enabled. -/
def exec (next : σ → α → Option σ) : σ → List α → Option σ
  | s, [] => some s
  | s, a :: as =>
    match next s a with
    | none => none
    | some t => exec next t as

/-- A step that was taken has met its guard. -/
theorem guarded {p : Prop} [Decidable p] {a b : σ} (h : (if p then some a else none) = some b) :
    p ∧ b = a := by
  split_ifs at h with hp
  exact ⟨hp, (Option.some.inj h).symm⟩

theorem unguarded {p : Prop} [Decidable p] {a b : σ} (h : (if p then none else some a) = some b) :
    ¬p ∧ b = a := by
  split_ifs at h with hp
  exact ⟨hp, (Option.some.inj h).symm⟩

variable {β γ ε : Type} {s : σ} {as : List α} {P : σ → Prop} {ok ok' : σ → α → Prop}
  {x : Except ε β}

theorem eq_ok_of_toOption {b : β} (h : x.toOption = some b) : x = .ok b := by
  cases x with
  | error => cases h
  | ok => exact congrArg _ (Option.some.inj h)

theorem bind_ok_iff {f : β → Except ε γ} {c : γ} :
    (x >>= f) = .ok c ↔ ∃ b, x = .ok b ∧ f b = .ok c := by
  cases x with
  | error => simp [bind, Except.bind]
  | ok b =>
    constructor
    · intro h
      exact ⟨b, rfl, h⟩
    · rintro ⟨_, hb, h⟩
      cases hb
      exact h

theorem map_ok_iff {f : β → γ} {c : γ} : x.map f = .ok c ↔ ∃ b, x = .ok b ∧ f b = c := by
  cases x with
  | error | ok => simp [Except.map]

theorem bind_error {f : β → Except ε γ} {e : ε}
    (h : (x >>= f) = .error e) : x = .error e ∨ ∃ b, x = .ok b ∧ f b = .error e := by
  cases x with
  | error =>
    cases h
    exact .inl rfl
  | ok b => exact .inr ⟨b, rfl, h⟩

theorem map_error {f : β → γ} {e : ε} (h : x.map f = .error e) : x = .error e := by
  cases x with
  | error =>
    cases h
    rfl
  | ok => cases h

@[simp] theorem exec_nil (s : σ) : exec next s [] = some s := rfl

theorem exec_cons_eq_some {u : σ} {a : α} :
    exec next s (a :: as) = some u ↔ ∃ t, next s a = some t ∧ exec next t as = some u := by
  cases h : next s a with
  | none | some => simp [exec, h]

theorem exec_append {u : σ} {bs : List α} : exec next s (as ++ bs) = some u ↔
      ∃ t, exec next s as = some t ∧ exec next t bs = some u := by
  induction as generalizing s with
  | nil => simp
  | cons _ _ ih =>
    rw [List.cons_append, exec_cons_eq_some]
    constructor
    · rintro ⟨t, ht, hu⟩
      obtain ⟨m, hm, hu⟩ := ih.1 hu
      exact ⟨m, exec_cons_eq_some.2 ⟨t, ht, hm⟩, hu⟩
    · rintro ⟨m, hm, hu⟩
      obtain ⟨t, ht, hm⟩ := exec_cons_eq_some.1 hm
      exact ⟨t, ht, ih.2 ⟨m, hm, hu⟩⟩

/-- What a concrete run reaches is found by running it. -/
instance decidableReached {o : Option σ} {P : σ → Prop} [DecidablePred P] :
    Decidable (∃ s, o = some s ∧ P s) :=
  match o with
  | none => isFalse (by simp)
  | some s => decidable_of_iff (P s) (by simp)

instance decidableReaches {o : Option σ} {P : σ → Prop} [DecidablePred P] :
    Decidable (∀ s, o = some s → P s) :=
  match o with
  | none => isTrue (by simp)
  | some s => decidable_of_iff (P s) (by simp)

theorem reached {o : Option σ} {Q : σ → Prop} (h : ∃ s, o = some s ∧ P s)
    (himp : ∀ s, o = some s → P s → Q s) : ∃ s, o = some s ∧ Q s := by
  obtain ⟨s, hs, hp⟩ := h
  exact ⟨s, hs, himp s hs hp⟩

/-- A reflexive, transitive relation that every step respects relates the ends of every run. The
steps may use an invariant. -/
theorem exec_relates {R : σ → σ → Prop} (refl : ∀ s, R s s) (trans : ∀ s t u, R s t → R t u → R s u)
    (keep : ∀ s a t, P s → next s a = some t → P t)
    (step : ∀ s a t, P s → next s a = some t → R s t)
    {t : σ} (hs : P s) (h : exec next s as = some t) : R s t := by
  induction as generalizing s with
  | nil =>
    simp only [exec_nil, Option.some.injEq] at h
    exact h ▸ refl s
  | cons a _ ih =>
    obtain ⟨m, hm, h⟩ := exec_cons_eq_some.1 h
    exact trans s m t (step s a m hs hm) (ih (keep s a m hs hm) h)

/-- Every step of the run from `s` meets the side condition `ok` in the state it is taken from. -/
def Along (next : σ → α → Option σ) (ok : σ → α → Prop) : σ → List α → Prop
  | _, [] => True
  | s, a :: as => ok s a ∧ ∀ t ∈ next s a, Along next ok t as

instance decidableAlong {ok : σ → α → Prop} [∀ s a, Decidable (ok s a)] :
    (s : σ) → (as : List α) → Decidable (Along next ok s as)
  | _, [] => isTrue trivial
  | s, a :: as =>
    have : DecidablePred fun t => Along next ok t as := fun t => decidableAlong t as
    inferInstanceAs (Decidable (ok s a ∧ ∀ t ∈ next s a, Along next ok t as))

theorem along_of_forall {ok : α → Prop} (h : ∀ a ∈ as, ok a) (s : σ) :
    Along next (fun _ a => ok a) s as := by
  induction as generalizing s with
  | nil => trivial
  | cons a _ ih =>
    refine ⟨h a (.head _), fun t _ => ?_⟩
    exact ih (fun b hb => h b (.tail _ hb)) t

theorem Along.mono (himp : ∀ s a, ok s a → ok' s a)
    (h : Along next ok s as) : Along next ok' s as := by
  induction as generalizing s with
  | nil => trivial
  | cons a _ ih => exact ⟨himp s a h.1, fun t ht => ih (h.2 t ht)⟩

theorem Along.and (h : Along next ok s as)
    (h' : Along next ok' s as) : Along next (fun s a => ok s a ∧ ok' s a) s as := by
  induction as generalizing s with
  | nil => trivial
  | cons a _ ih => exact ⟨⟨h.1, h'.1⟩, fun t ht => ih (h.2 t ht) (h'.2 t ht)⟩

/-- An invariant of the steps that meet a side condition is an invariant of the runs whose steps
all meet it. -/
theorem exec_invariant_along (step : ∀ s a t, P s → ok s a → next s a = some t → P t)
    {t : σ} (hs : P s) (hok : Along next ok s as)
    (h : exec next s as = some t) : P t := by
  induction as generalizing s with
  | nil =>
    simp only [exec_nil, Option.some.injEq] at h
    exact h ▸ hs
  | cons a _ ih =>
    obtain ⟨m, hm, h⟩ := exec_cons_eq_some.1 h
    exact ih (step s a m hs hok.1 hm) (hok.2 m hm) h

theorem exec_invariant (step : ∀ s a t, P s → next s a = some t → P t)
    {t : σ} (hs : P s) (h : exec next s as = some t) : P t :=
  exec_invariant_along (fun s a t hs (_ : True) => step s a t hs) hs
    (along_of_forall (fun _ _ => trivial) _) h

end KubeNeuron.Lib
