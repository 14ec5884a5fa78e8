import KubeNeuron.Accelerator.Profile
import Mathlib.Data.List.Sort

/-!
# Compiling runtime profiles

The operator compiles the profile resources of an installation and rejects any two whose selectors
can match one node. That test compares the selectors key by key. It is exact, so of the profiles it
accepts at most one matches the labels of a node (`profiles_unambiguous`).

`asSelector` stands for the check of a selector by the Kubernetes library.
-/

namespace KubeNeuron.Accelerator

open Lib

/-- A profile resource: the installation it is for, the number of its match expressions, and its
other fields, which are copied into the compiled profile. -/
structure ProfileResource where
  kubeNeuronRef : Str
  matchExpressions : Nat
  candidate : RuntimeProfile

def selectorsMayOverlap (left right : StrMap) : Bool :=
  left.entries.all fun e => (right.get? e.1).all (e.2 = ·)

variable (quote : Str → Str) (asSelector : StrMap → Except Str Unit)

/-- The first loop, with the names seen so far. -/
def compileSelected : List Str → List ProfileResource → Except Str (List RuntimeProfile)
  | _, [] => .ok []
  | seen, r :: rs => do
    let p := r.candidate
    require (!seen.contains p.name)
      (lit "accelerator runtime profiles contain duplicate name " ++ quote p.name)
    require (r.matchExpressions = 0) (p.about quote
      (lit "nodeSelector.matchExpressions is not supported; use non-empty matchLabels"))
    require (p.nodeSelector.entries ≠ []) (p.about quote
      (lit "nodeSelector.matchLabels is required and cannot select every node"))
    (asSelector p.nodeSelector).mapError fun e => p.about quote (lit "invalid nodeSelector: " ++ e)
    (p.validate quote).mapError (p.about quote)
    let compiled ← compileSelected (p.name :: seen) rs
    .ok (p :: compiled)

/-- The second loop: each profile against those before it. -/
def checkOverlaps : List RuntimeProfile → List RuntimeProfile → Except Str Unit
  | _, [] => .ok ()
  | earlier, p :: ps => do
    let clash := earlier.find? fun q =>
      p.vendor = q.vendor && selectorsMayOverlap p.nodeSelector q.nodeSelector
    clash.elim (.ok ()) fun q => .error (lit "accelerator runtime profiles " ++ quote q.name ++
      lit " and " ++ quote p.name ++ lit " have overlapping node selectors for vendor " ++
      quote p.vendor)
    checkOverlaps (earlier ++ [p]) ps

def compileAcceleratorRuntimeProfiles (installationName : Str) (profiles : List ProfileResource) :
    Except Str (List RuntimeProfile) := do
  let selected := profiles.filter fun r => r.kubeNeuronRef = installationName
  let sorted := selected.insertionSort fun a b => a.candidate.name ≤ b.candidate.name
  let compiled ← compileSelected quote asSelector [] sorted
  checkOverlaps quote [] compiled
  .ok compiled

variable {quote : Str → Str} {labels : StrMap} {p q : RuntimeProfile} {ps : List RuntimeProfile}

/-! ## The test is exact -/

theorem matchesLabels_iff : p.matchesLabels labels = true ↔
    p.nodeSelector.entries ≠ [] ∧ ∀ e ∈ p.nodeSelector.entries, labels.get e.1 = e.2 := by
  simp [RuntimeProfile.matchesLabels]

theorem selectorsMayOverlap_iff {left right : StrMap} : selectorsMayOverlap left right = true ↔
    ∀ k v w, left.get? k = some v → right.get? k = some w → v = w := by
  simp only [selectorsMayOverlap, List.all_eq_true, Prod.forall, KeyMap.mem_entries]
  constructor
  · intro h k v w hv hw
    simpa [hw] using h k v hv
  · intro h k v hv
    cases hw : right.get? k with
    | none => rfl
    | some w => simpa using h k v w hv hw

theorem overlap_of_matches (hp : p.matchesLabels labels = true)
    (hq : q.matchesLabels labels = true) :
    selectorsMayOverlap p.nodeSelector q.nodeSelector = true := by
  rw [matchesLabels_iff] at hp hq
  rw [selectorsMayOverlap_iff]
  intro k v w hv hw
  exact (hp.2 _ (KeyMap.mem_entries.2 hv)).symm.trans (hq.2 _ (KeyMap.mem_entries.2 hw))

/-- Selectors that agree on their common keys match the labels of both together. -/
theorem matches_of_overlap (hp : p.nodeSelector.entries ≠ []) (hq : q.nodeSelector.entries ≠ [])
    (h : selectorsMayOverlap p.nodeSelector q.nodeSelector = true) :
    ∃ labels, p.matchesLabels labels = true ∧ q.matchesLabels labels = true := by
  rw [selectorsMayOverlap_iff] at h
  let both := p.nodeSelector.entries ++ q.nodeSelector.entries
  have hone : ∀ e ∈ both, ∀ f ∈ both, f.1 = e.1 → f.2 = e.2 := by
    rintro ⟨k, v⟩ he ⟨k', w⟩ hf rfl
    simp only [both, List.mem_append, KeyMap.mem_entries] at he hf
    rcases he with he | he <;> rcases hf with hf | hf
    · exact Option.some.inj (hf.symm.trans he)
    · exact (h _ _ _ he hf).symm
    · exact h _ _ _ hf he
    · exact Option.some.inj (hf.symm.trans he)
  have hget : ∀ e ∈ both, StrMap.get (KeyMap.ofEntries both) e.1 = e.2 := fun e he => by
    rw [StrMap.get, KeyMap.get?_ofEntries he (hone e he), Option.getD_some]
  refine ⟨KeyMap.ofEntries both, matchesLabels_iff.2 ⟨hp, ?_⟩, matchesLabels_iff.2 ⟨hq, ?_⟩⟩
  · exact fun e he => hget e (List.mem_append_left _ he)
  · exact fun e he => hget e (List.mem_append_right _ he)

/-! ## Accepted profiles -/

/-- Two profiles that the second loop refuses. -/
def Clash (q p : RuntimeProfile) : Prop :=
  p.vendor = q.vendor ∧ selectorsMayOverlap p.nodeSelector q.nodeSelector = true

theorem checkOverlaps_cons {earlier : List RuntimeProfile} :
    checkOverlaps quote earlier (p :: ps) = .ok () ↔
      (∀ q ∈ earlier, ¬ Clash q p) ∧ checkOverlaps quote (earlier ++ [p]) ps = .ok () := by
  rw [checkOverlaps]
  cases hf : earlier.find? fun q =>
      p.vendor = q.vendor && selectorsMayOverlap p.nodeSelector q.nodeSelector with
  | none =>
    rw [List.find?_eq_none] at hf
    exact (and_iff_right fun q hq hc => hf q hq (by simpa [Clash] using hc)).symm
  | some q =>
    have hc : Clash q p := by simpa [Clash] using List.find?_some hf
    exact ⟨fun h => (by cases h), fun h => absurd hc (h.1 q (List.mem_of_find?_eq_some hf))⟩

theorem pairwise_of_checkOverlaps {earlier : List RuntimeProfile}
    (h : checkOverlaps quote earlier ps = .ok ()) :
    ps.Pairwise (¬ Clash · ·) ∧ ∀ q ∈ earlier, ∀ p ∈ ps, ¬ Clash q p := by
  induction ps generalizing earlier with
  | nil => simp
  | cons p ps ih =>
    obtain ⟨hp, h⟩ := checkOverlaps_cons.1 h
    obtain ⟨hps, hearlier⟩ := ih h
    refine ⟨List.pairwise_cons.2 ⟨hearlier p (by simp), hps⟩, fun q hq => ?_⟩
    exact List.forall_mem_cons.2 ⟨hp q hq, hearlier q (List.mem_append_left _ hq)⟩

/-- The walk over profiles that do not clash, with each other or with the one matched so far. -/
theorem resolveFrom_ne_ambiguous {vendor text : Str} {matched : Option RuntimeProfile}
    (hm : ∀ m ∈ matched, m.vendor = vendor ∧ m.matchesLabels labels = true ∧ ∀ p ∈ ps, ¬ Clash m p)
    (hps : ps.Pairwise (¬ Clash · ·)) :
    resolveFrom quote labels vendor matched ps ≠ .error (.ambiguous text) := by
  fun_induction resolveFrom quote labels vendor matched ps with
  | case1 => simp
  | case2 => simp
  | case3 => simp
  | case4 matched p ps _ _ _ ih =>
    refine ih (fun m h => ?_) (List.pairwise_cons.1 hps).2
    obtain ⟨hv, hl, hc⟩ := hm m h
    exact ⟨hv, hl, fun r hr => hc r (.tail _ hr)⟩
  | case5 p ps _ _ hskip m =>
    have hmatch : p.vendor = vendor ∧ p.matchesLabels labels = true := by simpa using hskip
    obtain ⟨hv, hl, hc⟩ := hm m rfl
    exact absurd ⟨hmatch.1.trans hv.symm, overlap_of_matches hmatch.2 hl⟩ (hc p (.head _))
  | case6 p ps _ _ hskip ih =>
    have hmatch : p.vendor = vendor ∧ p.matchesLabels labels = true := by simpa using hskip
    obtain ⟨hp, hps⟩ := List.pairwise_cons.1 hps
    refine ih ?_ hps
    rintro m ⟨⟩
    exact ⟨hmatch.1, hmatch.2, hp⟩

theorem entries_of_validate (h : p.validate quote = .ok ()) : p.nodeSelector.entries ≠ [] := by
  simp only [RuntimeProfile.validate, require_bind_ok, decide_eq_true_eq] at h
  exact h.2.2.2.1

/-- **Profiles are told apart by their labels.** Of a set of profiles that compiles at most one
matches a node, and two valid profiles of a vendor are refused just when some labels match both. -/
theorem profiles_unambiguous (quote : Str → Str) :
    (∀ asSelector installation resources profiles,
      compileAcceleratorRuntimeProfiles quote asSelector installation resources = .ok profiles →
      ∀ labels vendor text,
        resolveAcceleratorRuntimeProfile quote profiles labels vendor ≠ .error (.ambiguous text)) ∧
    ∀ p q, p.validate quote = .ok () → q.validate quote = .ok () → p.vendor = q.vendor →
      (checkOverlaps quote [] [p, q] ≠ .ok () ↔
        ∃ labels, p.matchesLabels labels = true ∧ q.matchesLabels labels = true) := by
  constructor
  · intro asSelector installation resources profiles h labels vendor text
    obtain ⟨compiled, -, h⟩ := bind_ok_iff.1 h
    obtain ⟨_, hc, h⟩ := bind_ok_iff.1 h
    cases h
    exact resolveFrom_ne_ambiguous nofun (pairwise_of_checkOverlaps hc).1
  · intro p q hp hq hv
    have hclash : checkOverlaps quote [] [p, q] ≠ .ok () ↔ Clash p q := by
      rw [Ne, checkOverlaps_cons, checkOverlaps_cons]
      simp [checkOverlaps]
    rw [hclash]
    constructor
    · intro hc
      obtain ⟨labels, hq, hp⟩ :=
        matches_of_overlap (entries_of_validate hq) (entries_of_validate hp) hc.2
      exact ⟨labels, hp, hq⟩
    · rintro ⟨labels, hp, hq⟩
      exact ⟨hv.symm, overlap_of_matches hq hp⟩

/-- A profile for the nodes with the given label. -/
def profileFor (label : Str) : RuntimeProfile :=
  ⟨label, KeyMap.ofEntries [(lit "gpu", label)], lit "nvidia",
    lit "sha256:" ++ List.replicate 64 0x61,
    lit "550.1", lit "dcgm-4.6", lit "profile-1", 1, 1000, []⟩

theorem profiles_unambiguous_two :
    resolveAcceleratorRuntimeProfile id [profileFor (lit "a100"),
      profileFor (lit "h100")] StrMap.empty
      (lit "nvidia") ≠ .error (.ambiguous []) ∧
    ¬ ∃ labels, (profileFor (lit "a100")).matchesLabels labels = true ∧
      (profileFor (lit "h100")).matchesLabels labels = true := by
  constructor
  · exact (profiles_unambiguous id).1 (fun _ => .ok ()) []
      [⟨[], 0, profileFor (lit "h100")⟩, ⟨[], 0, profileFor (lit "a100")⟩] _
        (by decide +kernel) _ _ _
  · have hexact := (profiles_unambiguous id).2 (profileFor (lit "a100")) (profileFor (lit "h100"))
      (by decide +kernel) (by decide +kernel) rfl
    exact mt hexact.2 (not_not.2 (by decide +kernel))

end KubeNeuron.Accelerator
