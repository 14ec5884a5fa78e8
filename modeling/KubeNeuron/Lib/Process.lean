import KubeNeuron.Lib.Run

/-!
# Programs that share a store

A program is a tree of calls: it ends with a value or an error, or makes a call and goes on with the
answer. Any number of programs run on one store, one call a step, and what a call finds may depend
on an input of the environment.

A program obeys a discipline `J` when each call it makes is allowed by `J` after the history of its
own calls and answers (`obeys`). `exec_disciplined` lets a proof about all runs of the system
assume, at every call of every process, that the discipline allowed it.
-/

namespace KubeNeuron.Lib

/-! ## Programs -/

/-- A program that makes calls `c : C`, answered in `A c`, and ends with a value or with an
error. -/
inductive Prog (C : Type) (A : C → Type) (ε α : Type) where
  | done (a : α)
  | fail (e : ε)
  | call (c : C) (k : A c → Prog C A ε α)

namespace Prog

variable {C : Type} {A : C → Type} {ε α β : Type}

/-- One program after another. An error ends both. -/
def bind : Prog C A ε α → (α → Prog C A ε β) → Prog C A ε β
  | .done a, f => f a
  | .fail e, _ => .fail e
  | .call c k, f => .call c fun a => (k a).bind f

instance : Monad (Prog C A ε) where
  pure := .done
  bind := bind

def ask (c : C) : Prog C A ε (A c) := .call c .done

/-- End with the value or the error of a computation. -/
def ofExcept : Except ε α → Prog C A ε α
  | .ok a => .done a
  | .error e => .fail e

/-- Run a program and hand on its error as a value. -/
def attempt : Prog C A ε α → Prog C A ε (Except ε α)
  | .done a => .done (.ok a)
  | .fail e => .done (.error e)
  | .call c k => .call c fun a => (k a).attempt

end Prog

/-! ## Obeying a discipline -/

/-- A call and its answer. -/
structure Event (C : Type) (A : C → Type) where
  call : C
  answer : A call

variable {C : Type} {A : C → Type} {ε α β : Type}

/-- After the history, the program makes only calls that the discipline allows, whatever they are
answered, and ends with a value in `Q` or with an error in `R`. -/
def obeys (J : List (Event C A) → C → Prop) : Prog C A ε α → (α → List (Event C A) → Prop) →
    (ε → List (Event C A) → Prop) → List (Event C A) → Prop
  | .done a, Q, _, h => Q a h
  | .fail e, _, R, h => R e h
  | .call c k, Q, R, h => J h c ∧ ∀ a, obeys J (k a) Q R (⟨c, a⟩ :: h)

variable {J : List (Event C A) → C → Prop} {Q : α → List (Event C A) → Prop}
  {R : ε → List (Event C A) → Prop} {h : List (Event C A)}

@[simp] theorem obeys_done {a : α} : obeys J (.done a) Q R h ↔ Q a h := Iff.rfl

@[simp] theorem obeys_fail {e : ε} : obeys J (.fail e) Q R h ↔ R e h := Iff.rfl

variable {p : Prog C A ε α}

theorem obeys_bind {f : α → Prog C A ε β} {Q : β → List (Event C A) → Prop} :
    obeys J (p >>= f) Q R h ↔ obeys J p (fun a h => obeys J (f a) Q R h) R h := by
  induction p generalizing h with
  | done | fail => exact Iff.rfl
  | call c k ih => exact and_congr_right fun _ => forall_congr' fun a => ih a

variable {R' : ε → List (Event C A) → Prop}

theorem obeys_mono {Q' : α → List (Event C A) → Prop}
    (hp : obeys J p Q R h) (hQ : ∀ a h, Q a h → Q' a h)
    (hR : ∀ e h, R e h → R' e h) : obeys J p Q' R' h := by
  induction p generalizing h with
  | done a => exact hQ a h hp
  | fail e => exact hR e h hp
  | call c k ih => exact ⟨hp.1, fun a => ih a (hp.2 a)⟩

theorem obeys_trivial (p : Prog C A ε α) (h : List (Event C A)) :
    obeys (fun _ _ => True) p (fun _ _ => True) (fun _ _ => True) h := by
  induction p generalizing h with
  | done | fail => trivial
  | call _ _ ih => exact ⟨trivial, fun a => ih a _⟩

theorem obeys_suffix (hp : obeys J p Q R h) :
    obeys J p (fun a h' => h <:+ h' ∧ Q a h') (fun e h' => h <:+ h' ∧ R e h') h := by
  induction p generalizing h with
  | done | fail => exact ⟨List.suffix_rfl, hp⟩
  | call c k ih =>
    refine ⟨hp.1, fun a => obeys_mono (ih a (hp.2 a)) ?_ ?_⟩
    all_goals exact fun _ _ => And.imp_left (List.suffix_cons _ _).trans

theorem obeys_seq {f : α → Prog C A ε β} {Q' : β → List (Event C A) → Prop} (hp : obeys J p Q R h)
    (hf : ∀ a h', h <:+ h' → Q a h' → obeys J (f a) Q' R' h')
    (hR : ∀ e h', h <:+ h' → R e h' → R' e h') : obeys J (p >>= f) Q' R' h := by
  rw [obeys_bind]
  exact obeys_mono (obeys_suffix hp) (fun a h' ⟨hs, hq⟩ => hf a h' hs hq) fun e h' ⟨hs, hr⟩ =>
    hR e h' hs hr

theorem obeys_attempt {Q : Except ε α → List (Event C A) → Prop} :
    obeys J p.attempt Q R h ↔ obeys J p (fun a => Q (.ok a)) (fun e => Q (.error e)) h := by
  induction p generalizing h with
  | done | fail => exact Iff.rfl
  | call c k ih => exact and_congr_right fun _ => forall_congr' fun a => ih a

theorem obeys_try {f : Except ε α → Prog C A ε β} {Q' : β → List (Event C A) → Prop}
    (hp : obeys J p Q R h) (hok : ∀ a h', h <:+ h' → Q a h' → obeys J (f (.ok a)) Q' R' h')
    (herr : ∀ e h', h <:+ h' → R e h' → obeys J (f (.error e)) Q' R' h') :
    obeys J (p.attempt >>= f) Q' R' h := by
  rw [obeys_bind, obeys_attempt]
  exact obeys_mono (obeys_suffix hp) (fun a h' ⟨hs, hq⟩ => hok a h' hs hq)
    fun e h' ⟨hs, hr⟩ => herr e h' hs hr

theorem obeys_ofExcept {x : Except ε α} :
    obeys J (Prog.ofExcept x) Q R h ↔ (∀ a, x = .ok a → Q a h) ∧ ∀ e, x = .error e → R e h := by
  cases x with
  | ok | error => simp [Prog.ofExcept]

/-! ## The system of all programs -/

/-- A call of process `pid`. -/
structure Entry (C : Type) (A : C → Type) where
  pid : Nat
  event : Event C A

/-- A process: the request it serves and what it still has to do, nothing once it was stopped. -/
structure Proc (C : Type) (A : C → Type) (ε ρ : Type) where
  request : ρ
  left : Option (Prog C A ε Unit)

/-- The store, the trace of all calls (newest first) and the processes, by number. -/
structure System (σ C : Type) (A : C → Type) (ε ρ : Type) where
  store : σ
  trace : List (Entry C A)
  procs : List (Proc C A ε ρ)

/-- A step of the system: a request arrives, a process makes its next call on an input of the
environment, a process is stopped, or the store changes by itself. -/
inductive SystemOp (ρ E X : Type) where
  | start (r : ρ)
  | step (i : Nat) (e : E)
  | stop (i : Nat)
  | env (x : X)

variable {σ ρ E X : Type}

/-- The history of one process. -/
def own (i : Nat) : List (Entry C A) → List (Event C A)
  | [] => []
  | e :: tr => if e.pid = i then e.event :: own i tr else own i tr

@[simp] theorem own_cons_self (i : Nat) (ev : Event C A) (tr : List (Entry C A)) :
    own i (⟨i, ev⟩ :: tr) = ev :: own i tr := by
  simp [own]

theorem own_cons_of_ne {i j : Nat} (h : j ≠ i) (ev : Event C A) (tr : List (Entry C A)) :
    own i (⟨j, ev⟩ :: tr) = own i tr := by
  simp [own, h]

theorem own_eq_nil {i : Nat} {tr : List (Entry C A)} (h : ∀ e ∈ tr, e.pid ≠ i) : own i tr = [] := by
  induction tr with
  | nil => rfl
  | cons e _ ih =>
    rw [own, if_neg (h e List.mem_cons_self)]
    exact ih fun f hf => h f (.tail _ hf)

theorem mem_own {i : Nat} {ev : Event C A} {tr : List (Entry C A)} :
    ev ∈ own i tr ↔ (⟨i, ev⟩ : Entry C A) ∈ tr := by
  induction tr with
  | nil => simp [own]
  | cons e _ ih =>
    obtain ⟨j, _⟩ := e
    by_cases hj : j = i
    · subst hj
      simp [ih]
    · rw [own_cons_of_ne hj, ih]
      simp [Ne.symm hj]

theorem own_append (i : Nat) (tr tr' : List (Entry C A)) : own i (tr ++ tr') = own i tr ++
    own i tr' := by
  induction tr with
  | nil => rfl
  | cons _ _ ih =>
    rw [List.cons_append, own, own]
    split
    · rw [ih, List.cons_append]
    · exact ih

/-- Something holds of every entry of a trace and the trace before it. -/
def AtEach (Φ : List (Entry C A) → Entry C A → Prop) : List (Entry C A) → Prop
  | [] => True
  | e :: tr => Φ tr e ∧ AtEach Φ tr

theorem AtEach.drop {Φ : List (Entry C A) → Entry C A → Prop} {after tr : List (Entry C A)}
    (h : AtEach Φ (after ++ tr)) : AtEach Φ tr := by
  induction after with
  | nil => exact h
  | cons _ _ ih => exact ih h.2

theorem AtEach.split {Φ : List (Entry C A) → Entry C A → Prop} {after before : List (Entry C A)}
    {e : Entry C A} (h : AtEach Φ (after ++ e :: before)) : Φ before e :=
  h.drop.1

def callNext (perform : σ → (c : C) → E → Option (σ × A c)) (w : System σ C A ε ρ) (i : Nat) (e : E)
    (r : ρ) : Option (Prog C A ε Unit) → Option (System σ C A ε ρ)
  | some (.call c k) =>
    (perform w.store c e).map fun out =>
      ⟨out.1, ⟨i, ⟨c, out.2⟩⟩ :: w.trace, w.procs.set i ⟨r, some (k out.2)⟩⟩
  | _ => none

/-- The step function of the system. -/
def systemNext (prog : ρ → Prog C A ε Unit) (perform : σ → (c : C) → E → Option (σ × A c))
    (env : σ → X → Option σ) (w : System σ C A ε ρ) : SystemOp ρ E X → Option (System σ C A ε ρ)
  | .start r => some { w with procs := w.procs ++ [⟨r, some (prog r)⟩] }
  | .step i e => (w.procs[i]?).bind fun p => callNext perform w i e p.request p.left
  | .stop i => (w.procs[i]?).map fun p => { w with procs := w.procs.set i ⟨p.request, none⟩ }
  | .env x => (env w.store x).map fun s => { w with store := s }

variable {prog : ρ → Prog C A ε Unit} {perform : σ → (c : C) → E → Option (σ × A c)}
  {env : σ → X → Option σ} {w w' : System σ C A ε ρ}

inductive SystemStep (prog : ρ → Prog C A ε Unit) (perform : σ → (c : C) → E → Option (σ × A c))
    (env : σ → X → Option σ) (w : System σ C A ε ρ) : SystemOp ρ E X → System σ C A ε ρ → Prop
  | start (r : ρ) :
      SystemStep prog perform env w (.start r) { w with procs := w.procs ++ [⟨r, some (prog r)⟩] }
  | step {i : Nat} {e : E} {r : ρ} {c : C} {k : A c → Prog C A ε Unit} {s : σ} {a : A c}
      (hproc : w.procs[i]? = some ⟨r, some (.call c k)⟩)
      (hperform : perform w.store c e = some (s, a)) :
      SystemStep prog perform env w (.step i e)
        ⟨s, ⟨i, ⟨c, a⟩⟩ :: w.trace, w.procs.set i ⟨r, some (k a)⟩⟩
  | stop {i : Nat} {p : Proc C A ε ρ} (hproc : w.procs[i]? = some p) :
      SystemStep prog perform env w (.stop i) { w with procs := w.procs.set i ⟨p.request, none⟩ }
  | env {x : X} {s : σ} (henv : env w.store x = some s) :
      SystemStep prog perform env w (.env x) { w with store := s }

theorem systemStep_of_next {op : SystemOp ρ E X} (h : systemNext prog perform env w op = some w') :
    SystemStep prog perform env w op w' := by
  cases op with
  | start r =>
    cases h
    exact .start r
  | step i e =>
    obtain ⟨⟨_, left⟩, hp, hc⟩ := Option.bind_eq_some_iff.1 h
    cases left with
    | none => cases hc
    | some p =>
      cases p with
      | done | fail => cases hc
      | call =>
        obtain ⟨⟨_, _⟩, hperf, rfl⟩ := Option.map_eq_some_iff.1 hc
        exact .step hp hperf
  | stop =>
    obtain ⟨_, hp, rfl⟩ := Option.map_eq_some_iff.1 h
    exact .stop hp
  | env =>
    obtain ⟨_, henv, rfl⟩ := Option.map_eq_some_iff.1 h
    exact .env henv

theorem exec_trace {ops : List (SystemOp ρ E X)}
    (h : exec (systemNext prog perform env) w ops = some w') :
    ∃ new, w'.trace = new ++ w.trace := by
  refine exec_invariant (P := fun v => ∃ new, v.trace = new ++ w.trace) ?_ ⟨[], rfl⟩ h
  rintro _ _ _ ⟨new, hw⟩ hn
  cases systemStep_of_next hn with
  | @step i e r c k s a hp hperf => exact ⟨⟨i, ⟨c, a⟩⟩ :: new, congrArg _ hw⟩
  | _ => exact ⟨new, hw⟩

/-- Every process that made a call has a number in use, and what every process has left obeys the
discipline of its request after the history of the process. -/
structure Disciplined (J : ρ → List (Event C A) → C → Prop) (Q : ρ → List (Event C A) → Prop)
    (w : System σ C A ε ρ) : Prop where
  used : ∀ e ∈ w.trace, e.pid < w.procs.length
  left : ∀ i r p, w.procs[i]? = some ⟨r, some p⟩ →
    obeys (J r) p (fun _ h => Q r h) (fun _ _ => True) (own i w.trace)

variable {J : ρ → List (Event C A) → C → Prop} {Q : ρ → List (Event C A) → Prop}

theorem Disciplined.start (s : σ) : Disciplined J Q (⟨s, [], []⟩ : System σ C A ε ρ) := by
  refine ⟨fun e he => ?_, fun i r p hp => ?_⟩
  · cases he
  · cases hp

theorem Disciplined.next {op : SystemOp ρ E X}
    (hprog : ∀ r, obeys (J r) (prog r) (fun _ h => Q r h) (fun _ _ => True) [])
    (hw : Disciplined J Q w) (h : systemNext prog perform env w op = some w') :
    Disciplined J Q w' := by
  cases systemStep_of_next h with
  | start r =>
    refine ⟨fun e he => ?_, fun i r' p hp => ?_⟩
    · have hlt := hw.used e he
      simp only [List.length_append, List.length_singleton]
      omega
    rw [List.getElem?_append] at hp
    split at hp
    · exact hw.left i r' p hp
    -- the new process has a number that no call was made under
    rw [List.getElem?_singleton] at hp
    split at hp
    · cases hp
      have hn : own i w.trace = [] := by
        apply own_eq_nil
        intro e he
        have hlt := hw.used e he
        omega
      rw [hn]
      exact hprog r
    · cases hp
  | @step i e r c k s a hproc hperf =>
    have hi : i < w.procs.length := (List.getElem?_eq_some_iff.1 hproc).1
    have hl := hw.left i r _ hproc
    refine ⟨fun f hf => ?_, fun j r' p hp => ?_⟩
    · rw [List.length_set]
      obtain _ | ⟨_, hf⟩ := hf
      · exact hi
      · exact hw.used f hf
    by_cases hij : i = j
    · subst hij
      rw [List.getElem?_set_self hi] at hp
      cases hp
      rw [own_cons_self]
      exact hl.2 a
    · rw [List.getElem?_set_ne hij] at hp
      rw [own_cons_of_ne hij]
      exact hw.left j r' p hp
  | @stop i q hproc =>
    have hi : i < w.procs.length := (List.getElem?_eq_some_iff.1 hproc).1
    refine ⟨fun f hf => ?_, fun j r' p hp => ?_⟩
    · rw [List.length_set]
      exact hw.used f hf
    by_cases hij : i = j
    · subst hij
      rw [List.getElem?_set_self hi] at hp
      cases hp
    · rw [List.getElem?_set_ne hij] at hp
      exact hw.left j r' p hp
  | env => exact ⟨hw.used, hw.left⟩

/-- A property of the store and the trace holds in every run, when all programs obey the discipline
and the property is kept by every call that the discipline allows and by every change of the store
itself. `ok` is a condition on the steps of the run. -/
theorem exec_disciplined {P : σ → List (Entry C A) → Prop}
    {ok : System σ C A ε ρ → SystemOp ρ E X → Prop}
    (hprog : ∀ r, obeys (J r) (prog r) (fun _ h => Q r h) (fun _ _ => True) [])
    (hc : ∀ (w : System σ C A ε ρ) i e r c a s', ok w (.step i e) →
      P w.store w.trace → J r (own i w.trace) c →
      perform w.store c e = some (s', a) → P s' (⟨i, ⟨c, a⟩⟩ :: w.trace))
    (henv : ∀ (w : System σ C A ε ρ) x s', ok w (.env x) → P w.store w.trace →
      env w.store x = some s' → P s' w.trace)
    {ops : List (SystemOp ρ E X)} (hp : P w.store w.trace) (hw : Disciplined J Q w)
    (hok : Along (systemNext prog perform env) ok w ops)
    (h : exec (systemNext prog perform env) w ops = some w') :
    P w'.store w'.trace ∧ Disciplined J Q w' := by
  refine exec_invariant_along (P := fun v => P v.store v.trace ∧ Disciplined J Q v) ?_
    ⟨hp, hw⟩ hok h
  rintro v op u ⟨hpv, hv⟩ hop hn
  refine ⟨?_, hv.next hprog hn⟩
  cases systemStep_of_next hn with
  | start | stop => exact hpv
  | @step i e r c k s a hproc hperf =>
    exact hc v i e r c a s hop hpv (hv.left i r _ hproc).1 hperf
  | @env x s hx => exact henv v x s hop hpv hx

end KubeNeuron.Lib
