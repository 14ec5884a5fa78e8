import KubeNeuron.Lib.Process
import KubeNeuron.Lib.Text
import KubeNeuron.Types.Action

/-!
# The dispatch of a GPU reset

The executor resolves the index of the action against the inventory, and then runs the idle check,
the holder check and the reset. Each of these goes to a driver that can be asked by UUID or by
index, and the driver for `nvidia-smi` can be asked by UUID for all three. So whatever its commands
find, the reset is of the UUID that the action names, behind the two checks of that same UUID
(`gpuReset_guarded`).

`Atoi` is a parameter, and the text of a failed command includes the first line of its output.
-/

namespace KubeNeuron.Agent

open Lib KubeNeuron.Types

/-! ## The commands -/

structure GPU where
  index : Int
  uuid : Str

/-- What a dispatch asks for: whether the node is armed, the inventory, the compute applications and
the minor number of what a selector names, the processes that hold a device node, and the reset. -/
inductive SmiCall where
  | allowDestructiveAction
  | listGPUs
  | computeApps (selector : Str)
  | deviceMinor (selector : Str)
  | deviceHolders (minor : Int)
  | gpuReset (selector : Str)

@[reducible] def SmiCall.Answer : SmiCall → Type
  | .listGPUs => Except Str (List GPU)
  | .computeApps _ => Except Str Str
  | .deviceMinor _ => Except Str Int
  | .deviceHolders _ => Except Str (List Str)
  | _ => Except Str Unit

abbrev ResetM := Prog SmiCall SmiCall.Answer Str

/-- Whether a driver can be asked by UUID, and whether it can list holders at all. -/
structure Driver where
  idlesByUUID : Bool
  listsByUUID : Bool
  lists : Bool
  resetsByUUID : Bool

/-- The driver for `nvidia-smi`. -/
def smi : Driver := ⟨true, true, true, true⟩

/-! ## The dispatch -/

def paramInt (atoi : Str → Except Str Int) (params : StrMap) (key : Str) :
    Except Str Int :=
  match params.get? key with
  | none => .error (lit "missing required param \"" ++ key ++ lit "\"")
  | some s => (atoi (trimSpace s)).mapError fun e => lit "param \"" ++ key ++ lit "\": " ++ e

/-- The UUID that the action names. -/
def resetUUID (a : Action) : Str := trimSpace (a.params.get (lit "gpu_uuid"))

def resolveResetIndex (atoi : Str → Except Str Int) (a : Action) : ResetM Int := do
  let requested ← .ofExcept (paramInt atoi a.params (lit "gpu_index"))
  let uuid := resetUUID a
  if uuid = [] then .fail (lit "gpu_reset: gpu_uuid is required to bind the reset to a physical " ++
    lit "device; refusing to reset GPU index " ++ intText requested ++ lit " by index alone")
  else if (lit "MIG-").isPrefixOf uuid then .fail (lit "gpu_reset: " ++ uuid ++
    lit " is a MIG instance UUID, not a physical GPU; per-instance reset is not a supported " ++
    lit "remediation unit — target the parent GPU or escalate")
  else .call .listGPUs fun
    | .error e =>
      .fail (lit "gpu_reset: cannot read GPU inventory to resolve " ++ uuid ++ lit ": " ++ e)
    | .ok gpus =>
      let resolved := ((gpus.find? fun g => trimSpace g.uuid = uuid).map GPU.index).getD (-1)
      if resolved < 0 then
        .fail (lit "gpu_reset: GPU " ++ uuid ++ lit " is not in current inventory; " ++
        lit "it may have fallen off the bus or been renumbered — refusing to reset")
      else if resolved ≠ requested then
        .fail (lit "gpu_reset: GPU " ++ uuid ++ lit " is now at index " ++
        intText resolved ++ lit " but the request targets index " ++ intText requested ++
        lit "; topology changed under the incident — refusing to reset, a human must confirm")
      else .done resolved

/-- No process is listed. The comparison with `[N/A]` ignores case. -/
def noApps (out : Str) : Bool :=
  [[], lit "[N/A]", lit "[N/a]", lit "[n/A]", lit "[n/a]"].contains (trimSpace out)

def ensureIdleSelector (selector : Str) : ResetM Unit :=
  .call (.computeApps selector) fun
    | .error e => .fail (lit "idle check on GPU " ++ selector ++ lit " failed: " ++ e)
    | .ok out =>
      if noApps out then .done ()
      else .fail (lit "GPU " ++ selector ++ lit ": processes still attached (" ++
        (trimSpace out).takeWhile (· ≠ 0x0A) ++ lit "): device is not idle")

def ensureIdle (d : Driver) (uuid : Str) (index : Int) : ResetM Unit :=
  if uuid ≠ [] && d.idlesByUUID then ensureIdleSelector uuid else ensureIdleSelector (intText index)

/-- Refuse when a process holds the device that the selector names. -/
def checkHolders (index : Int) (selector : Str) : ResetM Unit :=
  let unknown := fun e : Str => lit "gpu_reset: cannot determine which processes hold GPU " ++
    intText index ++ lit ": " ++ e
  .call (.deviceMinor selector) fun
    | .error e =>
      .fail (unknown (lit "resolving device minor for GPU " ++ selector ++ lit ": " ++ e))
    | .ok minor => .call (.deviceHolders minor) fun
      | .error e => .fail (unknown e)
      | .ok holders =>
        if holders = [] then .done ()
        else .fail (lit "gpu_reset: GPU " ++ intText index ++ lit " is held by " ++
          natText holders.length ++ lit " process(es) and cannot be reset: " ++
          List.intercalate (lit ", ") holders ++ lit "; release them first (a quiesce step must " ++
          lit "stop the NVIDIA monitoring stack on this node)")

def ensureNoDeviceHolders (d : Driver) (uuid : Str) (index : Int) : ResetM Unit :=
  if uuid ≠ [] && d.listsByUUID then checkHolders index uuid
  else if d.lists then checkHolders index (intText index)
  else .done ()

def resetGPU (d : Driver) (uuid : Str) (index : Int) : ResetM Unit :=
  let selector := if d.resetsByUUID then uuid else intText index
  .call (.gpuReset selector) fun
    | .error e => .fail (lit "gpu-reset " ++ selector ++ lit " failed: " ++ e)
    | .ok _ => .done ()

/-- The case of a reset in `dispatch`. -/
def dispatchReset (atoi : Str → Except Str Int) (d : Driver) (a : Action) : ResetM Unit :=
  .call .allowDestructiveAction fun
    | .error e => .fail e
    | .ok _ => do
      let index ← resolveResetIndex atoi a
      let uuid := resetUUID a
      ensureIdle d uuid index
      ensureNoDeviceHolders d uuid index
      resetGPU d uuid index

/-! ## What comes before a reset -/

abbrev ResetHistory := List (Event SmiCall SmiCall.Answer)

/-- The inventory was read and lists the UUID, which is not that of a MIG instance. -/
def Resolved (uuid : Str) (h : ResetHistory) : Prop :=
  (lit "MIG-").isPrefixOf uuid = false ∧
    ∃ gpus, ⟨.listGPUs, .ok gpus⟩ ∈ h ∧ ∃ g ∈ gpus, trimSpace g.uuid = uuid

/-- An idle check of the UUID succeeded. -/
def IdleChecked (uuid : Str) (h : ResetHistory) : Prop :=
  ∃ out, ⟨.computeApps uuid, .ok out⟩ ∈ h ∧ noApps out = true

/-- A holder check of the UUID succeeded. -/
def HoldersChecked (uuid : Str) (h : ResetHistory) : Prop :=
  ∃ minor, ⟨.deviceMinor uuid, .ok minor⟩ ∈ h ∧ ⟨.deviceHolders minor, .ok []⟩ ∈ h

/-- A reset is of the UUID that the action names, and comes after its checks. -/
def resetAllowed (a : Action) (h : ResetHistory) : SmiCall → Prop
  | .gpuReset selector => selector = resetUUID a ∧ Resolved selector h ∧ IdleChecked selector h ∧
      HoldersChecked selector h
  | _ => True

variable {atoi : Str → Except Str Int} {a : Action} {h : ResetHistory} {index : Int}

theorem obeys_resolveResetIndex : obeys (resetAllowed a) (resolveResetIndex atoi a)
    (fun _ h => resetUUID a ≠ [] ∧ Resolved (resetUUID a) h) (fun _ _ => True) h := by
  rw [resolveResetIndex, obeys_bind, obeys_ofExcept]
  refine ⟨fun requested _ => ?_, fun _ _ => trivial⟩
  dsimp only
  split_ifs with hempty hmig
  · trivial
  · trivial
  refine ⟨trivial, fun answer => ?_⟩
  cases answer with
  | error => trivial
  | ok gpus =>
    dsimp only
    split_ifs with hmissing
    · trivial
    · trivial
    -- the index is not the one that stands for a UUID that was not found
    cases hf : gpus.find? fun g => decide (trimSpace g.uuid = resetUUID a) with
    | none => simp [hf] at hmissing
    | some g =>
      refine ⟨hempty, eq_false_of_ne_true hmig, gpus, .head _, g, List.mem_of_find?_eq_some hf, ?_⟩
      simpa using List.find?_some hf

theorem obeys_ensureIdle (hu : resetUUID a ≠ []) : obeys (resetAllowed a)
    (ensureIdle smi (resetUUID a) index) (fun _ h => IdleChecked (resetUUID a) h)
    (fun _ _ => True) h := by
  rw [ensureIdle, if_pos (by simp [hu, smi])]
  refine ⟨trivial, fun answer => ?_⟩
  cases answer with
  | error => trivial
  | ok out =>
    dsimp only
    split_ifs with hi
    · exact ⟨out, .head _, hi⟩
    · trivial

theorem obeys_ensureNoDeviceHolders (hu : resetUUID a ≠ []) : obeys (resetAllowed a)
    (ensureNoDeviceHolders smi (resetUUID a) index) (fun _ h => HoldersChecked (resetUUID a) h)
    (fun _ _ => True) h := by
  rw [ensureNoDeviceHolders, if_pos (by simp [hu, smi])]
  refine ⟨trivial, fun answer => ?_⟩
  cases answer with
  | error => trivial
  | ok minor =>
    refine ⟨trivial, fun answer => ?_⟩
    cases answer with
    | error => trivial
    | ok holders =>
      dsimp only
      split_ifs with hn
      · subst hn
        exact ⟨minor, .tail _ (.head _), .head _⟩
      · trivial

/-- **A reset is guarded.** With the driver for `nvidia-smi` and whatever its commands answer, a
dispatch resets only the UUID that the action names, never a MIG instance, and only after the
inventory listed the UUID and an idle check and a holder check of that UUID succeeded. -/
theorem gpuReset_guarded (atoi : Str → Except Str Int) (a : Action) :
    obeys (resetAllowed a) (dispatchReset atoi smi a) (fun _ _ => True) (fun _ _ => True) [] := by
  refine ⟨trivial, fun answer => ?_⟩
  cases answer with
  | error => trivial
  | ok =>
    refine obeys_seq obeys_resolveResetIndex ?_ fun _ _ _ ht => ht
    rintro index h₁ - ⟨hu, hmig, gpus, hl, hg⟩
    refine obeys_seq (obeys_ensureIdle hu) ?_ fun _ _ _ ht => ht
    rintro - h₂ hs₂ ⟨out, ho, hi⟩
    refine obeys_seq (obeys_ensureNoDeviceHolders hu) ?_ fun _ _ _ ht => ht
    intro _ h₃ hs₃ hh
    have hl₃ := hs₃.subset (hs₂.subset hl)
    refine ⟨⟨rfl, ⟨hmig, gpus, hl₃, hg⟩, ⟨out, hs₃.subset ho, hi⟩, hh⟩, fun answer => ?_⟩
    cases answer with
    | error | ok => trivial

end KubeNeuron.Agent
