import KubeNeuron.Accelerator.Report

/-!
# Accelerator runtime profiles

A profile names the runtime that nodes must attest and the actions that may then be taken. The walk
over the selector map is in the order of the keys, so of several refused labels the first is named.
-/

namespace KubeNeuron.Accelerator

open Lib KubeNeuron.Types

/-! ## Time -/

/-- The largest `time.Duration`. -/
def maxDuration : Int := 9223372036854775807

/-- `Sub`: the distance of two instants, cut off at what a duration can hold. -/
def sub (t u : Int) : Int := max (-maxDuration - 1) (min maxDuration (t - u))

/-! ## Versions -/

/-- `splitRuntimeVersion`: the vendor in front of the last dash, and the number after it. -/
def splitRuntimeVersion (version : Str) : Str × Str :=
  if version.contains 0x2D then
    (beforeLast 0x2D version, (version.reverse.takeWhile (· ≠ 0x2D)).reverse)
  else ([], version)

/-- `RuntimeVersionSatisfies`: the same vendor, and the same major and minor number as far as the
profile pins them. -/
def runtimeVersionSatisfies (attested pinned : Str) : Bool :=
  let attested := trimSpace attested
  let pinned := trimSpace pinned
  if attested = [] || pinned = [] then false
  else if attested = pinned then true
  else
    let a := splitRuntimeVersion attested
    let p := splitRuntimeVersion pinned
    let attestedParts := splitOn 0x2E a.2
    let pinnedParts := splitOn 0x2E p.2
    if a.1 ≠ p.1 then false
    else if pinnedParts.head?.getD [] = [] then false
    else
      let compare := min pinnedParts.length 2
      compare ≤ attestedParts.length && attestedParts.take compare = pinnedParts.take compare

/-- A version of the form the profiles are written in: `vendor-major[.minor[.patch]][-build]`. A
text has one reading of this form, since neither the vendor nor the build holds a dash. -/
structure RuntimeVersion where
  vendor : Str
  numbers : List Str
  build : Option Str
  some_number : numbers ≠ []
  length_le : numbers.length ≤ 3
  plain : ∀ n ∈ numbers, n ≠ [] ∧ 0x2E ∉ n ∧ 0x2D ∉ n
  undashed : 0x2D ∉ vendor ∧ ∀ b ∈ build, 0x2D ∉ b

namespace RuntimeVersion

variable {a p : RuntimeVersion}

def number (v : RuntimeVersion) : Str := [0x2E].intercalate v.numbers

def text (v : RuntimeVersion) : Str :=
  v.vendor ++ 0x2D :: (v.number ++ v.build.elim [] (0x2D :: ·))

/-- What stands in front of the last dash. -/
def front (v : RuntimeVersion) : Str :=
  v.build.elim v.vendor fun _ => v.vendor ++ 0x2D :: v.number

/-- The version has the vendor of the pin, and the major and minor number that the pin names. -/
def Meets (a p : RuntimeVersion) : Prop := a.vendor = p.vendor ∧ p.numbers.take 2 <+: a.numbers

/-- Both have a build after the same vendor and number, and the builds agree as numbers would. -/
def SameBuild (a p : RuntimeVersion) : Prop :=
  a.vendor = p.vendor ∧ a.numbers = p.numbers ∧ ∃ b ∈ a.build, ∃ c ∈ p.build,
    (splitOn 0x2E c).head? ≠ some [] ∧ (splitOn 0x2E c).take 2 <+: splitOn 0x2E b

theorem splitOn_number (v : RuntimeVersion) : splitOn 0x2E v.number = v.numbers := by
  rw [splitOn_eq]
  exact List.splitOn_intercalate _ (fun n hn => (v.plain n hn).2.1) v.some_number

theorem dash_notMem_number (v : RuntimeVersion) : 0x2D ∉ v.number := by
  have hplain := v.plain
  rw [number, List.intercalate]
  generalize v.numbers = ns at hplain ⊢
  fun_induction List.intersperse [0x2E] ns <;> simp_all

/-- The version is split at its last dash. -/
theorem split_text (v : RuntimeVersion) :
    splitRuntimeVersion v.text = (v.front, v.build.getD v.number) := by
  have htext : v.text = v.front ++ 0x2D :: v.build.getD v.number := by
    cases hb : v.build <;> simp [text, front, hb]
  have hlast : 0x2D ∉ v.build.getD v.number := by
    cases hb : v.build with
    | none => exact v.dash_notMem_number
    | some b => exact v.undashed.2 b hb
  obtain ⟨hnum, hfront⟩ := cut_append (s := v.front) hlast
  rw [splitRuntimeVersion, htext, if_pos (by simp), hfront, hnum, List.reverse_reverse]

/-- A version with a build has another front than one without: the first dash ends the vendor. -/
theorem front_inj (h : a.front = p.front) : a.vendor = p.vendor ∧
    (a.build = none ∧ p.build = none ∨ a.numbers = p.numbers ∧ a.build.isSome ∧
      p.build.isSome) := by
  obtain ⟨hva, -⟩ := a.undashed
  obtain ⟨hvp, -⟩ := p.undashed
  cases ha : a.build <;> cases hp : p.build <;> simp only [front, ha, hp, Option.elim] at h
  · simpa using h
  · simp [h] at hva
  · simp [← h] at hvp
  · obtain ⟨hv, hn⟩ := sep_append_inj hva hvp h
    refine ⟨hv, .inr ⟨?_, rfl, rfl⟩⟩
    rw [← a.splitOn_number, hn, p.splitOn_number]

theorem meets_of_text_eq (h : a.text = p.text) : a.Meets p := by
  obtain ⟨hfront, hlast⟩ := Prod.mk.inj (a.split_text.symm.trans (h ▸ p.split_text))
  obtain ⟨hv, ⟨ha, hp⟩ | ⟨hn, -⟩⟩ := front_inj hfront
  · rw [ha, hp] at hlast
    have hn : a.numbers = p.numbers := by
      rw [← a.splitOn_number, ← p.splitOn_number]
      exact congrArg _ hlast
    exact ⟨hv, hn ▸ List.take_prefix _ _⟩
  · exact ⟨hv, hn ▸ List.take_prefix _ _⟩

end RuntimeVersion

/-- The part of the comparison that the numbers decide. -/
theorem takes_prefix_iff (as ps : List Str) :
    min ps.length 2 ≤ as.length ∧ as.take (min ps.length 2) = ps.take (min ps.length 2) ↔
      ps.take 2 <+: as := by
  have hpin : ps.take (min ps.length 2) = ps.take 2 := by grind
  rw [hpin]
  refine ⟨fun h => h.2 ▸ List.take_prefix _ _, fun h => ?_⟩
  have hlen := h.length_le
  rw [List.prefix_iff_eq_take] at h
  grind

/-- The comparison, for texts of the form: they are equal, or without a build the version meets the
pin, or the builds were compared in place of the numbers. -/
theorem runtimeVersionSatisfies_text {a p : RuntimeVersion} {attested pinned : Str}
    (ha : trimSpace attested = a.text) (hp : trimSpace pinned = p.text) :
    runtimeVersionSatisfies attested pinned = true ↔
      a.text = p.text ∨ a.build = none ∧ p.build = none ∧ a.Meets p ∨ a.SameBuild p := by
  have hne : ∀ v : RuntimeVersion, v.text ≠ [] := fun v => by simp [RuntimeVersion.text]
  have hhead : p.numbers.head?.getD [] ≠ [] := by
    obtain ⟨n, ns, hns⟩ := List.exists_cons_of_ne_nil p.some_number
    simpa [hns] using (p.plain n (by simp [hns])).1
  simp only [runtimeVersionSatisfies, ha, hp, hne, RuntimeVersion.split_text]
  by_cases htext : a.text = p.text
  · simp [htext]
  by_cases hfront : a.front = p.front
  · obtain ⟨hv, ⟨hab, hpb⟩ | ⟨hn, hab, hpb⟩⟩ := RuntimeVersion.front_inj hfront
    · simp [htext, hfront, hab, hpb, RuntimeVersion.splitOn_number, hhead, RuntimeVersion.Meets, hv,
        ← takes_prefix_iff, RuntimeVersion.SameBuild]
    · obtain ⟨b, hab⟩ := Option.isSome_iff_exists.1 hab
      obtain ⟨c, hpb⟩ := Option.isSome_iff_exists.1 hpb
      cases hparts : splitOn 0x2E c with
      | nil => exact absurd hparts (splitOn_eq 0x2E c ▸ List.splitOn_ne_nil _ _)
      | cons part parts =>
        simp [htext, hfront, hab, hpb, RuntimeVersion.SameBuild, hv, hn, hparts, ← takes_prefix_iff]
  · have hmeets : ¬(a.build = none ∧ p.build = none ∧ a.Meets p) := by
      rintro ⟨hab, hpb, hv, -⟩
      exact hfront (by simp [RuntimeVersion.front, hab, hpb, hv])
    have hbuild : ¬a.SameBuild p := by
      rintro ⟨hv, hn, b, hab, c, hpb, -⟩
      exact hfront (by simp [RuntimeVersion.front, RuntimeVersion.number, Option.mem_def.1 hab,
        Option.mem_def.1 hpb, hv, hn])
    simp [htext, hfront, hmeets, hbuild]

/-- Version 4.6.1 of one vendor, with a build or without. -/
def dcgm461 (build : Option Str) (h : ∀ b ∈ build, 0x2D ∉ b) : RuntimeVersion where
  vendor := lit "dcgm"
  numbers := [lit "4", lit "6", lit "1"]
  build := build
  some_number := List.cons_ne_nil _ _
  length_le := Nat.le_refl 3
  plain := by decide
  undashed := ⟨by decide, h⟩

/-- `AcceleratorActionPolicy`. -/
structure ActionPolicy where
  action : AcceleratorAction
  scopes : List TargetScope
  requireVerifiedUnpartitionedTopology : Bool
  deriving DecidableEq

/-- `AcceleratorRuntimeProfile`. -/
structure RuntimeProfile where
  name : Str
  nodeSelector : StrMap
  vendor : Str
  profileDigest : Str
  driverVersion : Str
  runtimeVersion : Str
  profileUID : Str
  profileGeneration : Int
  maxReportAge : Int
  allowedActions : List ActionPolicy
  deriving DecidableEq

/-- The text is `sha256:` and 64 lower-case hexadecimal digits. -/
def profileDigestPattern (digest : Str) : Bool :=
  digest.take 7 = lit "sha256:" && digest.length = 71 &&
    (digest.drop 7).all fun b => (0x61 ≤ b && b ≤ 0x66) || (0x30 ≤ b && b ≤ 0x39)

namespace RuntimeProfile

variable (quote : Str → Str) (p : RuntimeProfile)

/-- The text of an error about the profile. -/
def about (text : Str) : Str :=
  lit "accelerator runtime profile " ++ quote p.name ++ lit ": " ++ text

def validateSelector : List (Str × Str) → Except Str Unit
  | [] => .ok ()
  | e :: es => do
      require (trimmed e.1) (p.about quote (lit "node_selector contains an invalid label key"))
      require (trimmed e.2)
        (p.about quote (lit "node_selector label " ++ quote e.1 ++ lit " has an invalid value"))
      validateSelector es

/-- The scopes of a policy. A reset is for physical devices only, and only it may ask for a
topology. -/
def validateScopes (policy : ActionPolicy) :
    List TargetScope → List TargetScope → Except Str Unit
  | _, [] => .ok ()
  | seen, scope :: scopes => do
      require scope.valid (p.about quote (lit "action " ++ quote policy.action.text ++
        lit " has invalid scope " ++ quote scope.text))
      require (!seen.contains scope) (p.about quote (lit "duplicate action " ++
        quote policy.action.text ++ lit " for scope " ++ quote scope.text))
      require (policy.action ≠ .resetDevice || scope = .physicalDevice)
        (p.about quote (lit "reset-device only supports physical-device scope"))
      require (policy.action ≠ .resetDevice || policy.requireVerifiedUnpartitionedTopology)
        (p.about quote
          (lit "physical reset-device requires require_verified_unpartitioned_topology=true"))
      require (policy.action = .resetDevice || !policy.requireVerifiedUnpartitionedTopology)
        (p.about quote
          (lit "require_verified_unpartitioned_topology is only valid for reset-device"))
      validateScopes policy (scope :: seen) scopes

/-- The policies, after the given ones. -/
def validatePolicies : List ActionPolicy → List ActionPolicy → Except Str Unit
  | _, [] => .ok ()
  | seen, policy :: policies => do
      require policy.action.valid
        (p.about quote (lit "invalid allowed action " ++ quote policy.action.text))
      require (policy.scopes ≠ [])
        (p.about quote (lit "action " ++ quote policy.action.text ++ lit " has no scopes"))
      p.validateScopes quote policy
        ((seen.filter fun s => s.action = policy.action).flatMap ActionPolicy.scopes) policy.scopes
      validatePolicies (policy :: seen) policies

def validate : Except Str Unit := do
  require (trimSpace p.name ≠ []) (lit "accelerator runtime profile: name is required")
  require (trimSpace p.name = p.name)
    (p.about quote (lit "name must not have leading or trailing whitespace"))
  require (p.vendor = lit "nvidia") (p.about quote (lit "vendor must be " ++ quote (lit "nvidia") ++
    lit " until another vendor contract is implemented"))
  require (p.nodeSelector.entries ≠ [])
    (p.about quote (lit "node_selector is required and cannot select every node"))
  p.validateSelector quote p.nodeSelector.entries
  require (profileDigestPattern p.profileDigest)
    (p.about quote (lit "profile_digest must be a lowercase sha256 digest"))
  require (trimmed p.driverVersion) (p.about quote (lit "driver_version is required"))
  require (trimmed p.runtimeVersion) (p.about quote (lit "runtime_version is required"))
  require (trimmed p.profileUID) (p.about quote (lit "profile_uid is required"))
  require (0 < p.profileGeneration) (p.about quote (lit "profile_generation must be positive"))
  require (0 < p.maxReportAge) (p.about quote (lit "max_report_age must be positive"))
  p.validatePolicies quote [] p.allowedActions

def allows (action : AcceleratorAction) (scope : TargetScope) : Bool :=
  p.allowedActions.any fun policy => policy.action = action && policy.scopes.contains scope

/-- `RequiresVerifiedUnpartitionedTopology`: the first policy for the action at the scope says
so. -/
def requiresVerifiedUnpartitionedTopology (action : AcceleratorAction)
    (scope : TargetScope) : Bool :=
  (p.allowedActions.find? fun policy => policy.action = action && policy.scopes.contains scope).any
    ActionPolicy.requireVerifiedUnpartitionedTopology

/-- `MatchesLabels`. A missing label reads as the empty string. -/
def matchesLabels (labels : StrMap) : Bool :=
  p.nodeSelector.entries ≠ [] && p.nodeSelector.entries.all fun e => labels.get e.1 = e.2

/-- The part of `CheckReport` after both sides were found valid. -/
def checkFacts (now : Int) (report : AcceleratorReport) : Except Str Unit := do
  require (!zeroTime now) (p.about quote (lit "current time is required"))
  require (report.vendor = p.vendor) (p.about quote (lit "report vendor " ++ quote report.vendor ++
    lit " does not match profile vendor " ++ quote p.vendor))
  require (report.profileDigest = p.profileDigest)
    (p.about quote (lit "report profile digest does not match"))
  require (report.profileUID = p.profileUID && report.profileGeneration = p.profileGeneration)
    (p.about quote (lit "report profile identity does not match"))
  require (report.driverVersion = p.driverVersion)
    (p.about quote (lit "report driver version does not match"))
  require (runtimeVersionSatisfies report.runtimeVersion p.runtimeVersion)
    (p.about quote (lit "attested runtime version " ++ quote report.runtimeVersion ++
      lit " does not satisfy the pinned " ++ quote p.runtimeVersion))
  require (report.observedAt ≤ now) (p.about quote (lit "report observation is in the future"))
  require (sub now report.observedAt ≤ p.maxReportAge)
    (p.about quote (lit "report is older than max_report_age"))
  require (report.readiness = .ready)
    (p.about quote (lit "report readiness is " ++ quote report.readiness.text ++ lit ", not ready"))

/-- The error of an invalid report, as a profile names it. -/
def invalidReport : Except Str Unit → Except Str Unit
  | .ok u => .ok u
  | .error err => .error (p.about quote (lit "invalid agent report: " ++ err))

def checkReport (now : Int) (report : AcceleratorReport) : Except Str Unit := do
  p.validate quote
  p.invalidReport quote (report.validate quote)
  p.checkFacts quote now report

def checkAction (now : Int) (report : AcceleratorReport) (action : AcceleratorAction)
    (scope : TargetScope) : Except Str Unit := do
  p.checkReport quote now report
  require (p.allows action scope) (p.about quote (lit "action " ++ quote action.text ++
    lit " at scope " ++ quote scope.text ++ lit " is not allowed"))
  require (reportDeclaresCapability report action scope)
    (p.about quote (lit "agent report does not declare action " ++ quote action.text ++
      lit " at scope " ++ quote scope.text))
  require (!(p.requiresVerifiedUnpartitionedTopology action scope &&
      report.topologySafety ≠ .verifiedUnpartitioned))
    (p.about quote (lit "action " ++ quote action.text ++ lit " at scope " ++ quote scope.text ++
      lit " requires verified-unpartitioned topology"))

variable {quote : Str → Str} {p : RuntimeProfile} {now : Int} {report : AcceleratorReport}
  {x : Unit}

theorem checkReport_iff : p.checkReport quote now report = .ok x ↔
    (p.validate quote = .ok () ∧ report.validate quote = .ok ()) ∧
      p.checkFacts quote now report = .ok x := by
  have hreport : p.invalidReport quote (report.validate quote) = .ok () ↔
      report.validate quote = .ok () := by
    cases report.validate quote <;> simp [invalidReport]
  simp only [checkReport, bind_ok_iff, ← hreport]
  constructor
  · rintro ⟨_, hp, _, hvalid, hfacts⟩
    exact ⟨⟨hp, hvalid⟩, hfacts⟩
  · rintro ⟨⟨hp, hvalid⟩, hfacts⟩
    exact ⟨(), hp, (), hvalid, hfacts⟩

end RuntimeProfile

/-! ## Selection -/

/-- Why no profile was selected. -/
inductive ResolveError where
  | invalid (text : Str)
  | noProfile (text : Str)
  | ambiguous (text : Str)

/-- The walk of `ResolveAcceleratorRuntimeProfile`, with the profile that has matched so far. -/
def resolveFrom (quote : Str → Str) (labels : StrMap) (vendor : Str) :
    Option RuntimeProfile → List RuntimeProfile → Except ResolveError RuntimeProfile
  | some matched, [] => .ok matched
  | none, [] => .error (.noProfile
      (lit "no accelerator runtime profile matches node and vendor: vendor " ++ quote vendor))
  | matched, p :: ps =>
    match p.validate quote with
    | .error err => .error (.invalid (lit "configured accelerator runtime profile " ++
        quote p.name ++ lit " is invalid: " ++ err))
    | .ok _ =>
      if p.vendor ≠ vendor || !p.matchesLabels labels then
        resolveFrom quote labels vendor matched ps
      else
        match matched with
        | some m => .error (.ambiguous
            (lit "multiple accelerator runtime profiles match node and vendor: " ++ quote m.name ++
              lit " and " ++ quote p.name))
        | none => resolveFrom quote labels vendor (some p) ps

def resolveAcceleratorRuntimeProfile (quote : Str → Str) (profiles : List RuntimeProfile)
    (labels : StrMap) (vendor : Str) : Except ResolveError RuntimeProfile :=
  resolveFrom quote labels vendor none profiles

/-! ## A profile and a report -/

/-- A runtime profile that allows the reset of physical devices. -/
def sampleProfile : RuntimeProfile :=
  ⟨lit "lab", KeyMap.ofEntries [(lit "gpu", lit "yes")], lit "nvidia",
    lit "sha256:" ++ List.replicate 64 0x61, lit "550.1", lit "dcgm-4.6", lit "profile-1", 1, 1000,
    [⟨.resetDevice, [.physicalDevice], true⟩]⟩

/-- A report of the runtime of the sample profile, with one device. -/
def sampleReport (nodeUID : Str) (family : DeviceFamily) : AcceleratorReport :=
  ⟨lit "node-1", nodeUID, lit "nvidia", 100, [⟨lit "GPU-1", .physical, family, []⟩], lit "550.1",
    lit "dcgm-4.6.1", .verifiedUnpartitioned, [⟨.resetDevice, [.physicalDevice]⟩], .ready, [],
    sampleProfile.profileDigest, lit "profile-1", 1⟩

end KubeNeuron.Accelerator
