import KubeNeuron.Platform.CordonTakeover

/-!
# Held cordons

On a cordon with owners a mark names the hold. On a cordon of an older build it is an annotation of
the node, which the first join turns into a record of the hold that the reason names. Neither side
of that conversion tests the other (`late_mark_is_dropped`).
-/

namespace KubeNeuron.Platform

open Lib KubeNode

/-- What a call on a cordon without owners relies on. -/
def untrackedMarks : List Mark := [.owners, .reason, .held]

/-- A patch that was computed from a node without an owner set is not applied, or finds the owners,
the reason and the mark as they were read; and others write no annotation of a cordon. -/
def CordonWorld.undisturbed (w : CordonWorld) : CordonOp → Bool
  | .patch i fate =>
    match w.flights[i]? with
    | some ⟨call, _, some seen⟩ =>
      match plan call seen with
      | .write ops _ =>
        fate = .refused || (applyPatch w.node ops).isNone || (seen.get .owners).isSome ||
          untrackedMarks.all fun m => w.node.get m = seen.get m
      | _ => true
    | _ => true
  | .outside o => o.foreign
  | _ => true

/-- The node says that the hold is held: by its one mark on a cordon without owners, by name
otherwise. -/
inductive Verdict (n : KubeNode) (hold : Str) : Prop
  | untracked {reason : Str} (howners : n.get .owners = none) (hheld : (n.get .held).isSome)
      (hreason : n.get .reason = some reason) (hname : hold = legacyCordonOwner reason)
  | tracked (howners : hold ∈ n.names .owners) (hheld : hold ∈ n.names .heldOwners)

variable {owner raw reason : Str} {found held leaving owners : List Str}

variable {seen n n' : KubeNode} {hold : Str}

section

variable (h : Verdict n hold)
include h

theorem Verdict.heldBy {c : CordonedNode} (hc : cordonedNodeFrom n = some c) :
    c.heldBy hold = true := by
  rw [cordonedNodeFrom] at hc
  split_ifs at hc
  split at hc
  · rename_i owners heldOwners ho hheldO
    cases hc
    rw [CordonedNode.heldBy, CordonedNode.tracked]
    cases h with
    | untracked hn hh =>
      cases (decode_of_none hn).symm.trans ho
      exact hh
    | tracked hm hh =>
      rw [names, ho] at hm
      rw [names, hheldO] at hh
      have hl : 0 < owners.length := List.length_pos_of_mem hm
      simpa [hl] using hh
  · cases hc

theorem Verdict.congr
    (hg : ∀ m ∈ .handoff :: Mark.cordonAnnotations, n'.get m = n.get m) : Verdict n' hold := by
  cases h with
  | untracked ho _ hw hn =>
    refine .untracked ((hg _ (by decide)).trans ho) ?_ ((hg _ (by decide)).trans hw)
      hn
    rwa [hg .held (by decide)]
  | tracked ho hh =>
    refine .tracked ?_ ?_
    · rw [names_congr (hg .owners (by decide))]
      exact ho
    · rw [names_congr (hg .heldOwners (by decide))]
      exact hh

theorem Verdict.of_tracked (hr : n.get .owners = some raw) :
    hold ∈ n.names .owners ∧ hold ∈ n.names .heldOwners := by
  cases h with
  | untracked ho =>
    rw [ho] at hr
    cases hr
  | tracked ho hh => exact ⟨ho, hh⟩

theorem Verdict.of_untracked (h0 : n.get .owners = none) :
    (n.get .held).isSome ∧ ∃ reason, n.get .reason = some reason ∧
      hold = legacyCordonOwner reason := by
  cases h with
  | untracked _ hh hw hn => exact ⟨hh, _, hw, hn⟩
  | tracked ho =>
    rw [names_of_none h0] at ho
    cases ho

end

theorem toValid_legacyCordonOwner (h : n.get .reason = some reason) :
    toValid (legacyCordonOwner reason) = legacyCordonOwner reason := by
  have hw : ValidUTF8 reason := toValid_of_get h ▸ validUTF8_toValid reason
  have hlegacy : ValidUTF8 (lit "legacy-reason:") := by decide
  exact toValid_eq_self (hlegacy.append hw)

theorem mem_withOwner {o : Str} : o ∈ withOwner owners owner ↔ o ∈ owners ∨ o = owner := by
  rw [withOwner]
  split_ifs with hm
  · have hm : owner ∈ owners := by simpa using hm
    refine ⟨.inl, ?_⟩
    rintro (ho | rfl)
    · exact ho
    · exact hm
  · rw [List.mem_append, List.mem_singleton]

theorem Verdict.joined (h : Verdict n hold)
    (hr : seen.get .owners = some raw) (hf : decodeCordonOwners (seen.text .owners) = some found)
    (ho : n.get .owners = seen.get .owners)
    (hg : ∀ m : Mark, n'.get m = afterJoin owner reason found seen (n.get m) m) :
    Verdict n' hold := by
  have hs : seedOwners seen found owner reason = (found, []) := by
    rw [seedOwners, hr]
  obtain rfl : n.names .owners = found := by
    rw [names_congr ho, names, hf, Option.getD_some]
  obtain ⟨hm, _⟩ := h.of_tracked (ho.trans hr)
  refine .tracked ?_ ?_
  · have ho' : n'.get .owners = some (encodeCordonOwners (withOwner (n.names .owners) owner)) := by
      rw [hg, afterJoin, hs]
    rw [names_of_encode ho']
    exact mem_readNames_withOwner.2 (.inl hm)
  have hh' : n'.get .heldOwners = n.get .heldOwners := by
    rw [hg, afterJoin, hs]
    rfl
  rwa [names_congr hh']

theorem Verdict.converted {prior : Str}
    (hr : seen.get .owners = none) (hw : seen.get .reason = some prior)
    (hh : (seen.get .held).isSome)
    (hg : ∀ m : Mark, n'.get m = afterJoin owner reason found seen (n.get m) m) :
    Verdict n' (toValid (if prior = reason then owner else legacyCordonOwner prior)) := by
  have ho' : n'.get .owners = some (encodeCordonOwners
      (withOwner (seedOwners seen found owner reason).1 owner)) := hg .owners
  generalize hn : (if prior = reason then owner else legacyCordonOwner prior) = name
  -- the marker of before the owners is handed to this one
  have hs : name ∈ withOwner (seedOwners seen found owner reason).1 owner ∧
      (seedOwners seen found owner reason).2 = [name] := by
    rw [seedOwners, hr, hw, mem_withOwner, ← hn]
    by_cases he : prior = reason
    · simp [he, hh]
    · simp [he, hh]
  have hh' : n'.get .heldOwners = some (encodeCordonOwners [name]) := by
    rw [hg, afterJoin, hs.2]
    rfl
  refine .tracked ?_ ?_
  · rw [names_of_encode ho', mem_readNames]
    exact ⟨name, hs.1, rfl⟩
  · rw [names_of_encode hh', mem_readNames]
    exact ⟨name, List.mem_singleton_self _, rfl⟩

theorem not_mem_of_all_leave (hh : ∀ h ∈ held, Verdict n h) (ho : n.get .owners = some raw)
    (hd : decodeCordonOwners raw = some owners) (ha : ∀ o ∈ owners, o ∈ leaving) :
    hold ∉ (Call.releaseCordonOwners leaving).settle seen held := by
  intro hm
  obtain ⟨hm, hstays⟩ := List.mem_filter.1 hm
  have hw := ((hh hold hm).of_tracked ho).1
  rw [names_of_raw ho hd] at hw
  simp [ha hold hw] at hstays

/-- **One patch.** It keeps the verdicts on the holds that it does not release, under the names that
they have after it, and adds the one it marks. -/
theorem Verdict.landing {call : Call} (hlanding : Landing seen n n' call)
    (he : seen.get .owners = none → ∀ m ∈ untrackedMarks, n.get m = seen.get m)
    (hheld : ∀ h ∈ held, Verdict n h) :
    (∀ h ∈ call.settle seen held, Verdict n' h) ∧ ∀ h ∈ call.marks, Verdict n' h := by
  have hnom : ∀ h ∈ [], Verdict n' h := List.forall_mem_nil _
  -- on a cordon without owners the holds are the one that the reason names
  have h1 : seen.get .owners = none → ∀ k ∈ held, (seen.get .held).isSome ∧
      ∃ prior, seen.get .reason = some prior ∧ k = legacyCordonOwner prior := by
    intro hr k hk
    have hk := (hheld k hk).of_untracked ((he hr .owners (by decide)).trans hr)
    rwa [he hr .held (by decide), he hr .reason (by decide)] at hk
  cases hlanding with
  | @joined owner reason found hfound ho hguards hy hg =>
    refine ⟨?_, hnom⟩
    have hget : ∀ m : Mark, n'.get m = afterJoin owner reason found seen (n.get m) m := fun m =>
      (hy m.key).trans (wrote_joinWrites owner reason found seen m _)
    intro h hh
    rw [Call.settle] at hh
    cases hr : seen.get .owners with
    | some =>
      rw [if_neg (by simp [hr])] at hh
      exact (hheld h hh).joined hr hfound ho hget
    | none =>
      split_ifs at hh with hrename
      · obtain ⟨k, hk, rfl⟩ := List.mem_map.1 hh
        obtain ⟨hmark, _, hp, rfl⟩ := h1 hr k hk
        cases hp.symm.trans hrename.2
        rw [if_pos rfl]
        have hv := Verdict.converted hr hp hmark hget
        rwa [if_pos rfl] at hv
      obtain ⟨hmark, prior, hp, rfl⟩ := h1 hr h hh
      have hne : prior ≠ reason := fun heq => hrename ⟨hr, heq ▸ hp⟩
      have hv := Verdict.converted hr hp hmark hget
      rwa [if_neg hne, toValid_legacyCordonOwner hp] at hv
  | @shrunk owners names raw dropped hr hdec hrem hd ho hheldO hy hg =>
    refine ⟨fun h hh => ?_, hnom⟩
    obtain ⟨hh, hstays⟩ := List.mem_filter.1 hh
    obtain ⟨hmem, hmarked⟩ := (hheld h hh).of_tracked ho
    obtain ⟨hnm, -, hc⟩ := names_shrunk hdec hd ho hheldO hy
    exact .tracked ((hnm h).2 (List.mem_filter.2 ⟨hmem, hstays⟩))
      ((hc h).2 ⟨hmarked, by simpa using hstays⟩)
  | @emptied owners names raw hr hdec ha hs ho hheldO hf hhand hy hg
  | @handedOff owners names raw hr hdec ha hs ho hheldO htk hy hg =>
    refine ⟨fun h hh => ?_, hnom⟩
    exact absurd hh (not_mem_of_all_leave hheld ho hdec ha)
  | @cleared owners reason hr hw hmem htk hy hg =>
    refine ⟨fun h hh => ?_, hnom⟩
    obtain ⟨hh, hstays⟩ := List.mem_filter.1 hh
    obtain ⟨-, _, hp, rfl⟩ := h1 hr h hh
    rw [hw] at hp
    cases hp
    simp [hmem] at hstays
  | @uncordoned reason hr hx hw hy =>
    refine ⟨fun h hh => ?_, hnom⟩
    obtain ⟨hh, hstays⟩ := List.mem_filter.1 hh
    obtain ⟨-, _, hp, rfl⟩ := h1 hr h hh
    rw [text, hp, Option.getD_some] at hx
    simp [hx] at hstays
  | @markedOwner owner raw owners names hr hdec hnm hmem ho hheldO hy hg =>
    obtain ⟨howner, hkept, -, hc⟩ := names_marked hdec hnm hmem ho hheldO hy
    constructor
    · intro h hh
      obtain ⟨hmem, hmarked⟩ := (hheld h hh).of_tracked ho
      rw [← names_congr hkept] at hmem
      exact .tracked hmem ((hc h).2 (.inl hmarked))
    intro h hh
    obtain rfl := List.mem_singleton.1 hh
    rw [← names_congr hkept] at howner
    exact .tracked howner ((hc h).2 (.inr rfl))
  | @markedReason reason hr hx hw hy hg =>
    have h0 : n.get .owners = none := (he hr .owners (by decide)).trans hr
    have ht : ∀ m : Mark, m ≠ .held → n'.get m = n.get m := by
      intro m hm
      refine (hy m.key).trans ?_
      simp [PatchOp.onKey, hm, KubeNode.get]
    have hmark : (n'.get .held).isSome := by
      have hget : n'.get .held = some (toValid (lit "true")) := by
        refine (hy Mark.held.key).trans ?_
        simp [PatchOp.onKey]
      rw [hget]
      rfl
    -- the reason that was read is the expected one, so it is valid as it stands
    have hp : n'.get .reason = some reason := by
      have hseen : seen.get .reason = some (toValid reason) :=
        (he hr .reason (by decide)).symm.trans hw
      rw [text, hseen, Option.getD_some] at hx
      rw [ht _ (by decide), hw, hx]
    have ho' : n'.get .owners = none := (ht _ (by decide)).trans h0
    constructor
    · intro h hh
      obtain ⟨-, _, hfound, hn⟩ := (hheld h hh).of_untracked h0
      exact .untracked ho' hmark ((ht _ (by decide)).trans hfound) hn
    · intro h hh
      exact .untracked ho' hmark hp (List.mem_singleton.1 hh)

/-! ## Runs -/

variable {w w' : CordonWorld} {op : CordonOp}

theorem verdict_of_decided {call : Call} {n : KubeNode} (hp : plan call n = .done true) :
    ∀ h ∈ call.marks, Verdict n h := by
  cases call with
  | markCordonHeldIfOwner owner =>
    intro h hh
    obtain rfl := List.mem_singleton.1 hh
    simp only [plan, markCordonHeldIfOwner] at hp
    split at hp
    · cases hp
    rename_i raw hr
    split at hp
    · rename_i owners held hc hd
      split_ifs at hp with ha hm
      · cases hp
      refine .tracked ?_ ?_
      · rw [names_of_raw hr hc]
        simpa using ha
      · rw [names, hd, Option.getD_some]
        simpa using hm
    · cases hp
  | markCordonHeldIfReason =>
    simp only [plan, markCordonHeldIfReason] at hp
    split_ifs at hp
    cases hp
  | _ => exact List.forall_mem_nil _

theorem verdicts_next (hi : ∀ h ∈ w.held, Verdict w.node h) (hop : w.undisturbed op = true)
    (hn : cordonNext w op = some w') : ∀ h ∈ w'.held, Verdict w'.node h := by
  cases cordonEffect_of_next hn with
  | @decided i f marked hf hp =>
    intro h hh
    rcases List.mem_append.1 hh with hh | hh
    · split_ifs at hh with hmark
      · exact verdict_of_decided (hmark ▸ hp) h hh
      · cases hh
    · exact hi h hh
  | @landed i f seen after ops retries fate hfate hf hs hp hpat =>
    have he : seen.get .owners = none → ∀ m ∈ untrackedMarks, w.node.get m = seen.get m := by
      intro h0
      obtain ⟨_, _, _⟩ := f
      subst hs
      simp only [CordonWorld.undisturbed, hf] at hop
      rw [hp] at hop
      simpa [hfate, hpat, h0] using hop
    obtain ⟨ht, hmarks⟩ := Verdict.landing (landing_of_patch hp hpat) he hi
    intro h hh
    rcases List.mem_append.1 hh with hh | hh
    · split_ifs at hh
      · cases hh
      · exact hmarks h hh
    · exact ht h hh
  | @failed i f retries fate hf =>
    rw [CordonWorld.fail]
    split_ifs
    · exact hi
    · exact hi
  | outside o => exact fun h hh => (hi h hh).congr fun m hm => o.get_of_foreign hop w.node hm
  | _ => exact hi

/-- A human takes charge of a legacy cordon. Two remediations join it, the second one's hold is
marked, and the first one leaves. -/
def chargedRun : List CordonOp :=
  callOps (.markCordonHeldIfReason (lit "one")) ++
  callOps (.cordonForOwner (lit "a") (lit "two")) ++
  callOps (.cordonForOwner (lit "b") (lit "three")) ++
  callOps (.markCordonHeldIfOwner (lit "b")) ++ callOps (.releaseCordonOwners [lit "a"])

/-- A remediation has read the legacy cordon. A human takes charge of it and is told so; then the
patch of the join is applied. -/
def droppedRun : List CordonOp :=
  [.begin (.cordonForOwner (lit "b") (lit "two")), .begin (.markCordonHeldIfReason (lit "one")),
    .read 0, .read 1, .patch 1 .answered, .patch 0 .answered]

end KubeNeuron.Platform
