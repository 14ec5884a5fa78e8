import KubeNeuron.Playbooks.Engine
import Mathlib.Data.List.Chain
import Mathlib.Logic.Relation

/-!
# Escalation chains

`ValidateEscalationGraph` follows the escalations from every playbook, in whatever order the map of
playbooks is walked, and refuses an unknown target and a return to a playbook the walk has passed. A
walk can run into a cycle that its start is not on, so a refusal says that *some* playbook reaches
itself, not that the start does.

The check ends and accepts exactly the sets in which every target exists and no playbook reaches
itself (`validateEscalationGraph_iff`).
-/

namespace KubeNeuron.Playbooks

open Lib Relation

inductive EscalationError where
  | itself (name : Str)
  | unknown (name next : Str)
  | cycle (start next : Str)
  deriving DecidableEq

namespace Engine

/-- The loop over one start. Without an answer the walk is still under way after `fuel` rounds, or
it stands on a playbook that is not in the map. -/
def followEscalations (e : Engine) (start : Str) :
    Nat → List Str → Str → Option (Except EscalationError Unit)
  | 0, _, _ => none
  | fuel + 1, visited, cur =>
    (e.playbook cur).bind fun book =>
      if book.escalateTo = [] then some (.ok ())
      else if book.escalateTo = cur then some (.error (.itself cur))
      else if (e.playbook book.escalateTo).isNone then
        some (.error (.unknown cur book.escalateTo))
      else if book.escalateTo ∈ visited then some (.error (.cycle start book.escalateTo))
      else e.followEscalations start fuel (book.escalateTo :: visited) book.escalateTo

/-- The check over the playbooks in the order the map is walked in. -/
def validateEscalationGraph (e : Engine) (fuel : Nat) :
    List Str → Option (Except EscalationError Unit)
  | [] => some (.ok ())
  | start :: order =>
    (e.playbook start).bind fun book =>
      if book.escalateTo = [] then e.validateEscalationGraph fuel order
      else
        match e.followEscalations start fuel [start] start with
        | none => none
        | some (.error err) => some (.error err)
        | some (.ok ()) => e.validateEscalationGraph fuel order

/-- One playbook escalates to another. -/
def Escalates (e : Engine) (name next : Str) : Prop :=
  next ≠ [] ∧ (e.playbook name).map Playbook.escalateTo = some next

/-- Every target exists and no playbook reaches itself. -/
def EscalationsEnd (e : Engine) : Prop :=
  (∀ name next, e.Escalates name next → (e.playbook next).isSome) ∧
    ∀ name, ¬TransGen e.Escalates name name

variable {e : Engine} {name next start : Str} {book : Playbook} {fuel : Nat}

theorem Escalates.eq (h : e.Escalates name next) (hb : e.playbook name = some book) :
    next = book.escalateTo := by
  simpa [hb] using h.2.symm

theorem not_reaches (hb : e.playbook name = some book) (h0 : book.escalateTo = []) :
    ¬TransGen e.Escalates name next := by
  intro h
  obtain ⟨_, hc, -⟩ := TransGen.head'_iff.1 h
  exact hc.1 (hc.eq hb ▸ h0)

theorem length_le_size {l : List Str} (hnd : l.Nodup)
    (hin : ∀ v ∈ l, (e.playbook v).isSome) : l.length ≤ e.books.size := by
  have hsub : l ⊆ e.books.entries.map Prod.fst := fun v hv => KeyMap.mem_keys.2 (hin v hv)
  simpa [KeyMap.size] using (hnd.subperm hsub).length_le

/-- **A walk ends**, and a walk without an error has passed everything its start reaches. -/
theorem followEscalations_spec {visited : List Str} {cur : Str} (hnd : visited.Nodup)
    (hin : ∀ v ∈ visited, (e.playbook v).isSome) (hcur : (e.playbook cur).isSome)
    (hreach : ∀ v ∈ visited, ReflTransGen e.Escalates v cur)
    (hf : e.books.size < fuel + visited.length) :
    (e.followEscalations start fuel visited cur = some (.ok ()) ∧
      ∀ y, TransGen e.Escalates cur y → y ∉ visited ∧ (e.playbook y).isSome) ∨
    (∃ err, e.followEscalations start fuel visited cur = some (.error err)) ∧
      ¬e.EscalationsEnd := by
  induction fuel generalizing visited cur with
  | zero =>
    -- the passed playbooks are different keys of the map
    have := length_le_size hnd hin
    omega
  | succ fuel ih =>
    obtain ⟨book, hb⟩ := Option.isSome_iff_exists.1 hcur
    rw [followEscalations, hb, Option.bind_some]
    by_cases h0 : book.escalateTo = []
    · rw [if_pos h0]
      exact .inl ⟨rfl, fun y hy => absurd hy (not_reaches hb h0)⟩
    have hedge : e.Escalates cur book.escalateTo := ⟨h0, by rw [hb, Option.map_some]⟩
    rw [if_neg h0]
    split_ifs with hself hnone hmem
    · exact .inr ⟨⟨_, rfl⟩, fun h => h.2 cur (.single (hself ▸ hedge))⟩
    · refine .inr ⟨⟨_, rfl⟩, fun h => ?_⟩
      simpa [Option.isNone_iff_eq_none.1 hnone] using h.1 _ _ hedge
    · -- the cycle need not pass the start
      exact .inr ⟨⟨_, rfl⟩, fun h => h.2 _ (TransGen.tail' (hreach _ hmem) hedge)⟩
    have hnext : (e.playbook book.escalateTo).isSome := by
      simpa [Option.isSome_iff_ne_none] using hnone
    refine (ih (List.nodup_cons.2 ⟨hmem, hnd⟩) (List.forall_mem_cons.2 ⟨hnext, hin⟩) hnext
      (List.forall_mem_cons.2 ⟨.refl, fun v hv => (hreach v hv).tail hedge⟩) ?_).imp_left ?_
    · rw [List.length_cons]
      omega
    rintro ⟨hr, hall⟩
    refine ⟨hr, fun y hy => ?_⟩
    obtain ⟨c, hc, hcy⟩ := TransGen.head'_iff.1 hy
    cases hc.eq hb
    rcases reflTransGen_iff_eq_or_transGen.1 hcy with rfl | hcy
    · exact ⟨hmem, hnext⟩
    · exact (hall y hcy).imp_left List.not_mem_of_not_mem_cons

theorem validateEscalationGraph_spec (hf : e.books.size < fuel) {order : List Str}
    (hin : ∀ s ∈ order, (e.playbook s).isSome) :
    (e.validateEscalationGraph fuel order = some (.ok ()) ∧
      ∀ s ∈ order, ∀ y, TransGen e.Escalates s y → y ∉ [s] ∧ (e.playbook y).isSome) ∨
    (∃ err, e.validateEscalationGraph fuel order = some (.error err)) ∧ ¬e.EscalationsEnd := by
  induction order with
  | nil => exact .inl ⟨rfl, by simp⟩
  | cons start order ih =>
    obtain ⟨hstart, horder⟩ := List.forall_mem_cons.1 hin
    obtain ⟨book, hb⟩ := Option.isSome_iff_exists.1 hstart
    have hrest := ih horder
    rw [validateEscalationGraph, hb, Option.bind_some]
    split_ifs with h0
    · refine hrest.imp_left fun h => ⟨h.1, List.forall_mem_cons.2 ⟨fun y hy => ?_, h.2⟩⟩
      exact absurd hy (not_reaches hb h0)
    rcases followEscalations_spec (List.nodup_singleton start) (by simpa using hstart) hstart
      (by simp [ReflTransGen.refl]) (Nat.lt_succ_of_lt hf) with ⟨hw, hall⟩ | ⟨⟨err, hw⟩, hbad⟩
    · rw [hw]
      exact hrest.imp_left fun h => ⟨h.1, List.forall_mem_cons.2 ⟨hall, h.2⟩⟩
    · rw [hw]
      exact .inr ⟨⟨err, rfl⟩, hbad⟩

theorem escalates_of_escalation (hk : ∀ k b, e.playbook k = some b → b.name = k)
    (h : (e.escalation name).map Playbook.name = some next) : e.Escalates name next := by
  obtain ⟨b, hb, rfl⟩ := Option.map_eq_some_iff.1 h
  obtain ⟨book, hbook, hb⟩ := Option.bind_eq_some_iff.1 hb
  split_ifs at hb with h0
  rw [hk _ _ hb]
  exact ⟨h0, by rw [hbook, Option.map_some]⟩

/-- A chain of escalations passes every playbook at most once. -/
theorem chain_length_lt (hend : e.EscalationsEnd) {chain : List Str} (hne : chain ≠ [])
    (hc : (name :: chain).IsChain e.Escalates) : chain.length < e.books.size := by
  have hpw : (name :: chain).Pairwise (TransGen e.Escalates) :=
    List.isChain_iff_pairwise.1 (hc.imp fun _ _ => .single)
  have hreach := (List.pairwise_cons.1 hpw).1
  have hname : (e.playbook name).isSome := by
    obtain ⟨b, hb⟩ := List.exists_mem_of_ne_nil _ hne
    obtain ⟨_, h, -⟩ := TransGen.head'_iff.1 (hreach b hb)
    simpa using congrArg Option.isSome h.2
  have hnd : (name :: chain).Nodup := by
    refine List.Pairwise.imp ?_ hpw
    rintro a _ h rfl
    exact hend.2 a h
  refine length_le_size hnd (List.forall_mem_cons.2 ⟨hname, fun b hb => ?_⟩)
  obtain ⟨_, -, h⟩ := TransGen.tail'_iff.1 (hreach b hb)
  exact hend.1 _ _ h

/-- **The check ends, accepts exactly the sets whose escalations end, and bounds their chains.** -/
theorem validateEscalationGraph_iff (hk : ∀ k b, e.playbook k = some b → b.name = k)
    {order : List Str} (ho : order.Perm (e.books.entries.map Prod.fst))
    (hf : e.books.size < fuel) :
    (∃ r, e.validateEscalationGraph fuel order = some r) ∧
    (e.validateEscalationGraph fuel order = some (.ok ()) ↔ e.EscalationsEnd) ∧
    (e.validateEscalationGraph fuel order = some (.ok ()) → ∀ name chain,
      (name :: chain).IsChain (fun a b => (e.escalation a).map Playbook.name = some b) →
      chain = [] ∨ chain.length < e.books.size) := by
  have hmem : ∀ {s}, s ∈ order ↔ (e.playbook s).isSome := ho.mem_iff.trans KeyMap.mem_keys
  rcases validateEscalationGraph_spec hf fun s => hmem.1 with ⟨hr, hall⟩ | ⟨⟨err, hr⟩, hbad⟩
  · have hfrom : ∀ {a b}, TransGen e.Escalates a b → b ∉ [a] ∧ (e.playbook b).isSome := by
      intro a b hab
      obtain ⟨_, h, -⟩ := TransGen.head'_iff.1 hab
      exact hall a (hmem.2 (by simpa using congrArg Option.isSome h.2)) b hab
    have hend : e.EscalationsEnd :=
      ⟨fun _ _ h => (hfrom (.single h)).2, fun a h => (hfrom h).1 (.head _)⟩
    refine ⟨⟨_, hr⟩, iff_of_true hr hend,
      fun _ name chain hc => or_iff_not_imp_left.2 fun hne => ?_⟩
    exact chain_length_lt hend hne (hc.imp fun _ _ => escalates_of_escalation hk)
  · simp [hr, hbad]

/-- Two playbooks, the first of which escalates to the second. -/
def ladder : Engine :=
  ⟨.ofEntries [(lit "reset", ⟨lit "reset", lit "gpu", 0, [], lit "reboot"⟩),
    (lit "reboot", ⟨lit "reboot", lit "node", 0, [], []⟩)], []⟩

theorem validateEscalationGraph_iff_ladder :
    ladder.validateEscalationGraph 3 [lit "reset", lit "reboot"] = some (.ok ()) ∧
      ladder.EscalationsEnd := by
  have h : ladder.validateEscalationGraph 3 [lit "reset", lit "reboot"] = some (.ok ()) := by decide
  refine ⟨h, (validateEscalationGraph_iff (fun k b hb => ?_) (by decide) (by decide)).2.1.1 h⟩
  have := KeyMap.mem_ofEntries (KeyMap.mem_entries.2 hb)
  simp only [List.mem_cons, Prod.mk.injEq, List.not_mem_nil, or_false] at this
  rcases this with ⟨rfl, rfl⟩ | ⟨rfl, rfl⟩ <;> rfl

end Engine

end KubeNeuron.Playbooks
