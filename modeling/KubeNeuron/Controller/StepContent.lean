import KubeNeuron.Controller.Writers

/-!
# What the content hash of a step binds

An approval is bound to a step by the hash of the step's parts, each ended by a zero byte. The
hashed bytes determine the parts as long as no part holds a zero byte (`eq_of_ended`). The
structural check of a playbook bounds the action and the approval setting, but lets a zero byte
through everywhere else, and then the end of a part cannot be told from its inside.
-/

namespace KubeNeuron.Controller

open Lib Playbooks

/-! ## Parts ended by a zero byte -/

/-- Parts without a zero byte are read off the bytes in which each is ended by one. -/
theorem eq_of_ended {l m : List Str} (hl : ∀ part ∈ l, 0 ∉ part) (hm : ∀ part ∈ m, 0 ∉ part)
    (h : l.flatMap (· ++ [0]) = m.flatMap (· ++ [0])) : l = m := by
  induction l generalizing m with
  | nil =>
    cases m with
    | nil => rfl
    | cons y m => simp at h
  | cons x l ih =>
    cases m with
    | nil => simp at h
    | cons y m =>
      rw [List.forall_mem_cons] at hl hm
      simp only [List.flatMap_cons, List.append_assoc] at h
      obtain ⟨hpart, ht⟩ := sep_append_inj hl.1 hm.1 h
      rw [hpart, ih hl.2 hm.2 ht]

theorem entries_of_pairs {l m : List (Str × Str)}
    (h : (l.flatMap fun e => [e.1, e.2]) = m.flatMap fun e => [e.1, e.2]) : l = m := by
  induction l generalizing m with
  | nil =>
    cases m with
    | nil => rfl
    | cons f m => simp at h
  | cons e l ih =>
    cases m with
    | nil => simp at h
    | cons f m =>
      simp only [List.flatMap_cons, List.cons_append, List.cons.injEq] at h
      rw [ih h.2.2, Prod.ext h.1 h.2.1]

/-! ## Steps that pass the check of their playbook -/

/-- The step stands in a playbook of this name that passes the structural check. -/
def ValidIn (name : Str) (step : Step) : Prop :=
  ∃ book : Playbook, book.name = name ∧ step ∈ book.steps ∧ book.validate = .ok ()

/-- Every step of a valid playbook has passed its own check. -/
theorem validateStep_of_mem {seen : List Str} {steps : List Step} {s : Step}
    (h : validateSteps seen steps = .ok ()) (hm : s ∈ steps) :
    ∃ before, validateStep before s = .ok () := by
  induction steps generalizing seen with
  | nil => cases hm
  | cons t steps ih =>
    rw [validateSteps] at h
    split at h
    · cases h
    next hs =>
    obtain _ | ⟨_, hm⟩ := hm
    · exact ⟨seen, hs⟩
    · exact ih h hm

/-- The action is registered and the approval setting is one of three words: neither holds a zero
byte. -/
theorem ValidIn.fixed {name : Str} {s : Step} (h : ValidIn name s) :
    0 ∉ s.action ∧ 0 ∉ s.approval := by
  obtain ⟨book, -, hm, hv⟩ := h
  have hsteps : validateSteps [] book.steps = .ok () := by
    unfold Playbook.validate at hv
    split_ifs at hv
    exact hv
  obtain ⟨before, hs⟩ := validateStep_of_mem hsteps hm
  unfold validateStep at hs
  split_ifs at hs with _ _ _ ha hp
  constructor
  · obtain ⟨d, hd⟩ : ∃ d, byWire s.action = some d := by
      simpa [Option.ne_none_iff_exists'] using ha
    have hwire : ∀ d ∈ definitions, 0 ∉ d.wire := by decide
    have heq : d.wire = s.action := by simpa using List.find?_some hd
    exact heq ▸ hwire d (List.mem_of_find?_eq_some hd)
  · have hwords : s.approval = [] ∨ s.approval = lit "none" ∨ s.approval = lit "required" := by
      tauto
    rcases hwords with h | h | h <;> rw [h] <;> decide

/-! ## The content hash -/

/-- The two steps agree in all that a decision is about. -/
structure SameContent (p : Str) (s : Step) (q : Str) (t : Step) : Prop where
  book : p = q
  name : s.name = t.name
  action : s.action = t.action
  approval : s.approval = t.approval
  params : s.params = t.params

/-- The parts the check leaves to the author of the playbook. -/
def freeParts (playbookName : Str) (s : Step) : List Str :=
  [playbookName, s.name] ++ s.params.entries.flatMap fun e => [e.1, e.2]

theorem SameContent.of_content {p q : Str} {s t : Step} (hs : ValidIn p s) (ht : ValidIn q t)
    (hps : ∀ part ∈ freeParts p s, 0 ∉ part) (hqt : ∀ part ∈ freeParts q t, 0 ∉ part)
    (h : stepContent p s = stepContent q t) : SameContent p s q t := by
  have hparts := eq_of_ended
    (by have := hs.fixed; simp only [freeParts, List.cons_append, List.nil_append,
          List.forall_mem_cons] at hps ⊢; tauto)
    (by have := ht.fixed; simp only [freeParts, List.cons_append, List.nil_append,
          List.forall_mem_cons] at hqt ⊢; tauto) h
  simp only [List.cons_append, List.cons.injEq] at hparts
  obtain ⟨hbook, hn, ha, hp, hr⟩ := hparts
  exact ⟨hbook, hn, ha, hp, KeyMap.ext (entries_of_pairs hr)⟩

/-- A cordon step of this name. -/
def namedCordon (name : Str) : Step := ⟨name, lit "platform.cordon", [], 0, .empty⟩

/-- Let the free parts be written with some set of bytes. The content hash tells any two valid steps
apart exactly when the zero byte is not among them. -/
theorem contentHash_eq_iff_sameContent {sha : Str → Str} (hsha : Function.Injective sha)
    (allowed : UInt8 → Prop) :
    (∀ p s q t, ValidIn p s → ValidIn q t →
      (∀ part ∈ freeParts p s ++ freeParts q t, ∀ b ∈ part, allowed b) →
      (stepContentHash sha p s = stepContentHash sha q t ↔ SameContent p s q t)) ↔
    ¬allowed 0 := by
  constructor
  · intro h hzero
    -- The zero byte between the two names can belong to either of them.
    have hsame := (h [0, 0] (namedCordon [0]) [0] (namedCordon [0, 0])
      ⟨⟨[0, 0], lit "node", 0, [namedCordon [0]], []⟩, rfl, .head _, by decide +kernel⟩
      ⟨⟨[0], lit "node", 0, [namedCordon [0, 0]], []⟩, rfl, .head _, by decide +kernel⟩
      (by simpa [freeParts, namedCordon, StrMap.empty, KeyMap.empty] using hzero)).mp rfl
    exact absurd hsame.book (by decide)
  · intro hzero p s q t hs ht hfree
    obtain ⟨hps, hqt⟩ := List.forall_mem_append.mp hfree
    constructor
    · intro h
      exact SameContent.of_content hs ht (fun part hmem hin => hzero (hps part hmem 0 hin))
        (fun part hmem hin => hzero (hqt part hmem 0 hin)) (hsha h)
    · intro h
      rw [stepContentHash, stepContentHash, stepContent, stepContent, h.book, h.name, h.action,
        h.approval, h.params]

/-- A drain step with these parameters. -/
def drainWith (params : StrMap) : Step :=
  ⟨lit "drain", lit "platform.drain", lit "required", 0, params⟩

def drainOnly (params : StrMap) : Playbook := ⟨lit "reset", lit "node", 0, [drainWith params], []⟩

/-- Forcing an approved drain changes its hash. -/
theorem contentHash_of_forced_drain :
    stepContentHash id (lit "reset") (drainWith (.ofEntries [(lit "force", lit "true")])) ≠
      stepContentHash id (lit "reset") (drainWith .empty) := by
  have hiff := (contentHash_eq_iff_sameContent Function.injective_id (· ≠ 0)).mpr (by simp)
    (lit "reset") (drainWith (.ofEntries [(lit "force", lit "true")])) (lit "reset")
    (drainWith .empty) ⟨drainOnly _, rfl, .head _, by decide +kernel⟩
    ⟨drainOnly _, rfl, .head _, by decide +kernel⟩ (by decide +kernel)
  exact fun h => absurd (hiff.mp h).params (by decide +kernel)

/-- The same drain with a parameter folded into the value of another one. -/
def foldedParams : StrMap :=
  .ofEntries [(lit "a", lit "b" ++ [0] ++ lit "force" ++ [0] ++ lit "true")]

/-- A drain that is not forced and a forced one have the same hash. -/
theorem contentHash_of_folded_force : ValidIn (lit "reset") (drainWith foldedParams) ∧
      ValidIn (lit "reset")
        (drainWith (.ofEntries [(lit "a", lit "b"), (lit "force", lit "true")])) ∧
      foldedParams.get? (lit "force") = none ∧
      ∀ sha, stepContentHash sha (lit "reset") (drainWith foldedParams) =
        stepContentHash sha (lit "reset")
          (drainWith (.ofEntries [(lit "a", lit "b"), (lit "force", lit "true")])) := by
  refine ⟨⟨drainOnly _, rfl, .head _, by decide +kernel⟩,
    ⟨drainOnly _, rfl, .head _, by decide +kernel⟩, by decide +kernel, ?_⟩
  intro sha
  apply congrArg sha
  decide +kernel

end KubeNeuron.Controller
