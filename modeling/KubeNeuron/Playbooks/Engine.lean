import KubeNeuron.Types.Event

/-!
# Playbooks and the engine

The action registry as far as the walk and the dispatcher read it, playbooks with their structural
check, and the pure decisions of the engine: which playbook a class and vendor select, which step is
next, and which playbook a failure escalates to.

A playbook set can be replaced while incidents are under way, so nothing here assumes that the step
index of an incident lies inside its playbook.
-/

namespace KubeNeuron.Playbooks

open Lib KubeNeuron.Types

/-! ## The action registry -/

/-- The executor of an action. -/
inductive Kind where
  | platform
  | agent
  | verify
  | notify
  deriving DecidableEq

/-- One registered action. -/
structure Definition where
  wire : Str
  kind : Kind
  op : Str
  compensating : Bool
  idleGuard : Bool

/-- The namespace of a kind in wire names. -/
def Kind.word : Kind → Str
  | .platform => lit "platform"
  | .agent => lit "agent"
  | .verify => lit "verify"
  | .notify => lit "notify"

/-- A registered action. Its wire name is always the kind, a dot and the operation. -/
def registered (kind : Kind) (op : Str) (compensating idleGuard : Bool) : Definition :=
  ⟨kind.word ++ lit "." ++ op, kind, op, compensating, idleGuard⟩

/-- The wire operation of the quiesce action. -/
def opQuiesceAcceleratorStack : Str := lit "quiesce_accelerator_stack"

def definitions : List Definition :=
  [registered .notify (lit "observe") false false,
    registered .platform (lit "cordon") false false,
    registered .platform (lit "drain") false false,
    registered .platform (lit "uncordon") false false,
    registered .platform (lit "evict_gpu_workload") false false,
    registered .agent (lit "idle_check") false true,
    registered .agent (lit "wait_idle") false true,
    registered .platform opQuiesceAcceleratorStack false false,
    registered .platform (lit "restore_accelerator_stack") true false,
    registered .agent (lit "gpu_reset") false false,
    registered .agent (lit "collect_bundle") false false,
    registered .agent (lit "reboot") false false,
    registered .platform (lit "recycle_node") false false,
    registered .platform (lit "replace_node") false false,
    registered .agent (lit "run_diag") false false,
    registered .verify (lit "gpu_health") false false,
    registered .verify (lit "node_health") false false,
    registered .notify (lit "ticket") false false,
    registered .agent (lit "driver_reload") false false,
    registered .agent (lit "driver_reinstall") false false,
    registered .agent (lit "run_script") false false]

def byWire (wire : Str) : Option Definition := definitions.find? fun d => d.wire = wire

/-! ## Playbooks -/

/-- One action within a playbook. -/
structure Step where
  name : Str
  action : Str
  approval : Str
  timeout : Int
  params : StrMap
  deriving DecidableEq

/-- The step waits for a human. -/
def Step.needsApproval (s : Step) : Bool := s.approval = lit "required"

/-- The step only refuses when the device is in use. -/
def stepIsIdleGuard (s : Step) : Bool := (byWire s.action).any Definition.idleGuard

/-- A remediation procedure. -/
structure Playbook where
  name : Str
  target : Str
  cooldown : Int
  steps : List Step
  escalateTo : Str

/-- The spellings `strconv.ParseBool` reads, with their values. -/
def parseBool (s : Str) : Option Bool :=
  if [lit "1", lit "t", lit "T", lit "true", lit "TRUE", lit "True"].contains s then some true
  else if [lit "0", lit "f", lit "F", lit "false", lit "FALSE", lit "False"].contains s then
    some false
  else none

inductive PlaybookError where
  | nameRequired
  | badTarget
  | noSteps
  | negativeCooldown
  | stepNameRequired (index : Nat)
  | duplicateStep (name : Str)
  | actionRequired (name : Str)
  | unsupportedAction (name : Str)
  | badApproval (name : Str)
  | negativeTimeout (name : Str)
  | forceWithoutMeaning (name : Str)
  | forceNotBoolean (name : Str)
  | forceUnapproved (name : Str)
  deriving DecidableEq

/-- The only step that reads `force`. -/
def forceAwareAction : Str := lit "platform.drain"

/-- The check of a step's `force` parameter. -/
def validateForce (s : Step) : Except PlaybookError Unit :=
  match s.params.get? (lit "force") with
  | none => .ok ()
  | some v =>
    if s.action ≠ forceAwareAction then .error (.forceWithoutMeaning s.name)
    else
      match parseBool v with
      | none => .error (.forceNotBoolean s.name)
      | some forced =>
        if forced && !s.needsApproval then .error (.forceUnapproved s.name) else .ok ()

/-- The check of one step; `seen` are the names of the steps before it. -/
def validateStep (seen : List Str) (s : Step) : Except PlaybookError Unit :=
  if s.name = [] then .error (.stepNameRequired seen.length)
  else if seen.contains s.name then .error (.duplicateStep s.name)
  else if s.action = [] then .error (.actionRequired s.name)
  else if (byWire s.action).isNone then .error (.unsupportedAction s.name)
  else if s.approval ≠ [] ∧ s.approval ≠ lit "none" ∧ s.approval ≠ lit "required" then
    .error (.badApproval s.name)
  else if s.timeout < 0 then .error (.negativeTimeout s.name)
  else validateForce s

/-- The checks of the steps in order. -/
def validateSteps : List Str → List Step → Except PlaybookError Unit
  | _, [] => .ok ()
  | seen, s :: steps =>
    match validateStep seen s with
    | .error e => .error e
    | .ok () => validateSteps (seen ++ [s.name]) steps

def Playbook.validate (p : Playbook) : Except PlaybookError Unit :=
  if p.name = [] then .error .nameRequired
  else if p.target ≠ lit "gpu" ∧ p.target ≠ lit "node" then .error .badTarget
  else if p.steps = [] then .error .noSteps
  else if p.cooldown < 0 then .error .negativeCooldown
  else validateSteps [] p.steps

/-- The playbook only records and notifies. -/
def isObservePlaybook (p : Playbook) : Bool :=
  match p.steps with
  | [s] => (lit "notify.").isPrefixOf s.action
  | _ => false

/-! ## The engine -/

/-- Binds a problem class, and possibly a vendor, to a playbook. -/
structure Policy where
  cls : Str
  vendor : Str
  playbook : Str

/-- The loaded playbooks by name and the policies in order. -/
structure Engine where
  books : KeyMap Playbook
  policies : List Policy

namespace Engine

def playbook (e : Engine) (name : Str) : Option Playbook := e.books.get? name

/-- `PolicyFor`: an exact match of the vendor wins over the first unscoped policy. -/
def policyFor (e : Engine) (cls vendor : Str) : Option Policy :=
  (e.policies.find? fun p => p.cls = cls && p.vendor = vendor && vendorValid vendor).or
    (e.policies.find? fun p => p.cls = cls && p.vendor = [])

def selectFor (e : Engine) (cls vendor : Str) : Option Playbook :=
  (e.policyFor cls vendor).bind fun p => e.playbook p.playbook

/-- What `NextStep` answers. -/
inductive Next where
  | unknown
  | done
  | step (s : Step)
  deriving DecidableEq

def nextStep (e : Engine) (playbook : Str) (stepIndex : Int) : Next :=
  match e.playbook playbook with
  | none => .unknown
  | some book =>
    if stepIndex ≥ book.steps.length then .done
    else
      match book.steps[stepIndex.toNat]? with
      | none => .done
      | some s => .step s

def escalation (e : Engine) (name : Str) : Option Playbook :=
  (e.playbook name).bind fun book =>
    if book.escalateTo = [] then none else e.playbook book.escalateTo

/-- The chain of escalations from a playbook leads to known playbooks and never back to a playbook
it has passed; `fuel` bounds the length of the chain. -/
def escalates (e : Engine) : Nat → List Str → Str → Bool
  | 0, _, _ => false
  | fuel + 1, visited, current =>
    match e.playbook current with
    | none => false
    | some book =>
      book.escalateTo = [] ||
        (!visited.contains book.escalateTo &&
          e.escalates fuel (book.escalateTo :: visited) book.escalateTo)

/-- The checks of the loader and of `NewEngine`: every playbook passes its own check under its own
name, the escalations do not cycle, and every policy names a playbook. -/
def valid (e : Engine) : Bool :=
  (e.books.entries.all fun b =>
    b.2.name = b.1 && b.2.validate.isOk && e.escalates (e.books.size + 1) [b.1] b.1) &&
    e.policies.all fun p => (e.playbook p.playbook).isSome

end Engine

end KubeNeuron.Playbooks
