import KubeNeuron.Playbooks.Engine

/-!
# The safety gate

The gate admits the steps of remediations. It counts the incidents that remediate a target
(`active`) and the reboot-class steps under way on it (`reboots`), and remembers how long an action
on a target has to rest. A target is counted under its `targetKey`, which a promotion of the target
does not change (`targetKey_sameDevice`).

What each operation does to the count of a target is said once, in the lemmas on `active`.
-/

namespace KubeNeuron.Safety

open Lib KubeNeuron.Types Playbooks

/-! ## Targets and actions -/

/-- `targetKey`. The bus address comes first: it does not change when the UUID becomes known. -/
def targetKey (lower : Str → Str) (t : Target) : Str :=
  if t.pciAddr ≠ [] then t.node ++ lit "/pci:" ++ normalizePCIAddress lower t.pciAddr
  else if t.isGPU then t.node ++ lit "/" ++ t.gpuUUID
  else t.node

theorem targetKey_sameDevice {lower : Str → Str} {a b : Target}
    (h : a.SameDevice b) : targetKey lower a = targetKey lower b := by
  rw [targetKey, targetKey, h.node, h.pciAddr]
  by_cases hpci : b.pciAddr ≠ []
  · rw [if_pos hpci, if_pos hpci]
  · rw [if_neg hpci, if_neg hpci, Target.isGPU, Target.isGPU,
      h.uuid (h.pciAddr.trans (Decidable.not_not.1 hpci))]

/-- `GateAction`: agent actions are gated by their operation, all others by their wire name. -/
def gateActionOf (d : Definition) : Str := if d.kind = .agent then d.op else d.wire

def gateAction (step : Step) : Str :=
  match byWire step.action with
  | some d => gateActionOf d
  | none => step.action

def isRebootClass (action : Str) : Bool :=
  [lit "reboot", lit "power_cycle", lit "driver_reinstall"].contains action

/-! ## The gate -/

/-- The limits the gate reads. -/
structure Limits where
  maxConcurrentRemediations : Int
  maxConcurrentReboots : Int

structure Gate where
  limits : Limits
  paused : Bool
  active : KeyMap Nat
  reboots : KeyMap Nat
  cooldownUntil : KeyMap Int

/-- Why a step was not admitted. -/
inductive DenialKind where
  | globalPause
  | cooldown
  | concurrency

namespace Gate

variable (lower : Str → Str) (g : Gate)

/-- `NewGate`. -/
def new (limits : Limits) : Gate := ⟨limits, false, .empty, .empty, .empty⟩

def cooldownKey (key action : Str) : Str := key ++ lit "|" ++ action

variable (now : Int) (target : Target) (action : Str)

/-- `stepDenialLocked`. -/
def stepDenial (key action : Str) : Option DenialKind :=
  if g.paused then some .globalPause
  else if (g.cooldownUntil.get? (cooldownKey key action)).any fun expiry => now < expiry then
    some .cooldown
  else if isRebootClass action && g.reboots.count key = 0 &&
      (g.reboots.size : Int) ≥ g.limits.maxConcurrentReboots then
    some .concurrency
  else none

/-- The reboot-class slot of a step, when it needs one. -/
def reserveStep (key action : Str) : Gate :=
  if isRebootClass action then { g with reboots := g.reboots.acquire key } else g

/-- `Allow`: the first step of a remediation reserves the target. -/
def allow : Except DenialKind Gate :=
  let key := targetKey lower target
  match g.stepDenial now key action with
  | some kind => .error kind
  | none =>
    if g.active.count key = 0 && (g.active.size : Int) ≥ g.limits.maxConcurrentRemediations then
      .error .concurrency
    else .ok ({ g with active := g.active.acquire key }.reserveStep key action)

/-- `AllowHeld`: a later step reserves only what it needs itself. -/
def allowHeld : Except DenialKind Gate :=
  let key := targetKey lower target
  match g.stepDenial now key action with
  | some kind => .error kind
  | none => .ok (g.reserveStep key action)

def occupyRemediation : Gate :=
  { g with active := g.active.acquire (targetKey lower target) }

def occupyStep : Gate :=
  g.reserveStep (targetKey lower target) action

/-- `pruneCooldownsLocked`. -/
def pruneCooldowns : Gate :=
  { g with cooldownUntil := g.cooldownUntil.filter fun _ expiry => now < expiry }

def stepDone (cooldown : Int) : Gate :=
  let key := targetKey lower target
  let g := if isRebootClass action then { g with reboots := g.reboots.release key } else g
  let g :=
    if cooldown > 0 then
      { g with cooldownUntil := g.cooldownUntil.insert (cooldownKey key action) (now + cooldown) }
    else g
  g.pruneCooldowns now

def releaseRemediation : Gate :=
  { g with active := g.active.release (targetKey lower target) }

def recordCooldown (cooldown : Int) : Gate :=
  if cooldown ≤ 0 then g
  else
    { g with
      cooldownUntil := g.cooldownUntil.insert
        (cooldownKey (targetKey lower target) action) (now + cooldown) }.pruneCooldowns now

/-! ## The count of a target -/

variable {lower : Str → Str} {g g' : Gate}

@[simp] theorem reserveStep_active (key action : Str) :
    (g.reserveStep key action).active = g.active := by
  rw [reserveStep]
  split_ifs
  · rfl
  · rfl

theorem allow_active {now : Int} {target : Target} {action : Str}
    (h : g.allow lower now target action = .ok g') :
    g'.active = g.active.acquire (targetKey lower target) := by
  simp only [allow] at h
  split at h
  · cases h
  split at h
  · cases h
  · cases h
    rw [reserveStep_active]

theorem allowHeld_active {now : Int} {target : Target} {action : Str}
    (h : g.allowHeld lower now target action = .ok g') : g'.active = g.active := by
  simp only [allowHeld] at h
  split at h
  · cases h
  · cases h
    rw [reserveStep_active]

@[simp] theorem occupyStep_active (target : Target) (action : Str) :
    (g.occupyStep lower target action).active = g.active :=
  reserveStep_active _ _

@[simp] theorem stepDone_active (now : Int) (target : Target) (action : Str) (cooldown : Int) :
    (g.stepDone lower now target action cooldown).active = g.active := by
  rw [stepDone]
  split_ifs
  · rfl
  · rfl
  · rfl
  · rfl

end Gate

end KubeNeuron.Safety
