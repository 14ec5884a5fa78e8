import KubeNeuron.Controller.ApprovalRuns
import KubeNeuron.Controller.GateRuns

/-!
# The blast radius

`ConfinedWorld` puts the node selector of every installed configuration beside `WalkWorld`, and the
verdict of an admission is the one `destructiveStepConfinement` computes from the labels it reads.
`labelsMatchSelector` reads a missing label as an empty one; with selectors without empty values a
destructive step starts only on a node whose labels match (`destructive_start_confined`).
-/

namespace KubeNeuron.Controller

open Lib KubeNeuron.Types Store Playbooks

/-! ## Labels -/

/-- The answer of a platform that can read the labels of one node. -/
inductive LabelAnswer where
  | found (labels : StrMap)
  | absent
  | failed

/-- What the platform answers. `labeler` is absent on a platform that cannot read a single node, and
`nodes` is absent when the inventory could not be listed. -/
structure PlatformLabels where
  labeler : Option LabelAnswer
  nodes : Option (List (Str × StrMap))

/-- What the sources of labels answer to one lookup. `platform` is absent when none is configured,
and `stored` when the store has no such node or failed. -/
structure LabelSources where
  platform : Option PlatformLabels
  stored : Option StrMap

/-- The store's copy, which counts only when it has labels. -/
def LabelSources.fallback (src : LabelSources) (err : Str) : Except Str StrMap :=
  match src.stored with
  | some labels => if labels.entries = [] then .error err else .ok labels
  | none => .error err

def nodeLabelsForConfinement (src : LabelSources) (node : Str) : Except Str StrMap :=
  match src.platform with
  | none =>
    src.fallback (lit "node " ++ node ++
      lit " labels are unavailable (no platform configured and not labeled in inventory)")
  | some platform =>
    match platform.labeler with
    | some (.found labels) => .ok labels
    | some .absent => .error (lit "node " ++ node ++ lit " does not exist")
    -- a failed read falls through, like a platform that has none
    | some .failed | none =>
      match platform.nodes.bind fun nodes => nodes.find? fun n => n.1 = node with
      | some n => .ok n.2
      | none =>
        src.fallback (lit "node " ++ node ++ lit " is not present in the current inventory")

/-- `labelsMatchSelector`: a missing label reads as the empty string. -/
def labelsMatchSelector (selector labels : StrMap) : Bool :=
  selector.entries.all fun e => labels.get e.1 = e.2

/-- What `matchLabels` means in Kubernetes: every key of the selector is a label, with that
value. -/
def MatchLabels (selector labels : StrMap) : Prop :=
  ∀ k v, selector.get? k = some v → labels.get? k = some v

/-- No value of the selector is empty. -/
def plainSelector (selector : StrMap) : Bool := selector.entries.all fun e => e.2 ≠ []

theorem matchLabels_of_plain {selector labels : StrMap} (hpl : plainSelector selector = true)
    (h : labelsMatchSelector selector labels = true) : MatchLabels selector labels := by
  intro k v hk
  have he := KeyMap.mem_entries.2 hk
  have hvl : labels.get k = v := of_decide_eq_true (List.all_eq_true.1 h (k, v) he)
  have hne : v ≠ [] := of_decide_eq_true (List.all_eq_true.1 hpl (k, v) he)
  rw [StrMap.get] at hvl
  cases hf : labels.get? k with
  | none => exact absurd (by simpa [hf] using hvl.symm) hne
  | some => simpa [hf] using hvl

/-! ## Verdicts -/

/-- The `Destructive` column of the registry. -/
def Definition.destructive (d : Definition) : Bool :=
  [lit "platform.cordon", lit "platform.drain", lit "platform.evict_gpu_workload",
    lit "platform.quiesce_accelerator_stack", lit "platform.recycle_node",
    lit "platform.replace_node"].contains d.wire

def destructiveStep (step : Step) : Bool := (byWire step.action).any Definition.destructive

/-- `destructiveStepConfinement`, for a step that is simulated or not. -/
def destructiveStepConfinement (simulating : Bool) (selector : StrMap) (src : LabelSources)
    (node : Str) (step : Step) : Confinement :=
  if simulating then .inScope
  else if !destructiveStep step then .inScope
  else if selector.entries = [] then .inScope
  else
    match nodeLabelsForConfinement src node with
    | .error err =>
      .unresolved (lit "cannot confirm destructive step " ++ step.action ++
        lit " on node " ++ node ++
        lit " is within the declared spec.safety.destructiveExecution.nodeSelector: " ++ err)
    | .ok labels =>
      if labelsMatchSelector selector labels then .inScope
      else
        .outOfScope (lit "refusing destructive step " ++ step.action ++ lit " on node " ++ node ++
          lit ": it is outside the declared spec.safety.destructiveExecution.nodeSelector (blast radius), which the controller path must honor just as the agent path does")

/-- The answer an agent gets when it registers. -/
inductive AgentArming where
  | armed
  | unarmed
  deriving DecidableEq

def servedArming (selector : StrMap) (src : LabelSources) (node : Str) : AgentArming :=
  if selector.entries = [] then .unarmed
  else
    match nodeLabelsForConfinement src node with
    | .error _ => .unarmed
    | .ok labels => if labelsMatchSelector selector labels then .armed else .unarmed

/-- The step's labels are looked up: it is destructive, for real, and the selector is not empty. -/
structure Confined (simulating : Bool) (selector : StrMap) (step : Step) : Prop where
  real : simulating = false
  destructive : destructiveStep step = true
  selected : selector.entries ≠ []

theorem destructiveStepConfinement_confined {simulating : Bool} {selector : StrMap} {step : Step}
    (h : Confined simulating selector step) {src : LabelSources} {node : Str} :
    (∀ err, nodeLabelsForConfinement src node = .error err →
      ∃ reason, destructiveStepConfinement simulating selector src node step = .unresolved reason) ∧
    (destructiveStepConfinement simulating selector src node step = .inScope →
      ∃ labels, nodeLabelsForConfinement src node = .ok labels ∧
        labelsMatchSelector selector labels = true) := by
  fun_cases destructiveStepConfinement simulating selector src node step with
  | case1 hsim => simp [h.real] at hsim
  | case2 _ hd => simp [h.destructive] at hd
  | case3 _ _ hempty => exact absurd hempty h.selected
  | case4 => exact ⟨fun _ _ => ⟨_, rfl⟩, by simp⟩
  | case5 _ _ _ labels hlab hm => exact ⟨by simp [hlab], fun _ => ⟨labels, hlab, hm⟩⟩
  | case6 _ _ _ labels hlab => exact ⟨by simp [hlab], by simp⟩

theorem servedArming_armed {selector : StrMap} {src : LabelSources} {node : Str}
    (h : servedArming selector src node = .armed) :
    selector.entries ≠ [] ∧ ∃ labels, nodeLabelsForConfinement src node = .ok labels ∧
      labelsMatchSelector selector labels = true := by
  revert h
  fun_cases servedArming selector src node with
  | case3 he labels hlab hm => exact fun _ => ⟨he, labels, hlab, hm⟩
  | _ => rintro ⟨⟩

/-! ## The process with its selectors -/

/-- A process with the selector of each configuration, by its generation. `reading` is what the last
admission read, when it looked labels up. -/
structure ConfinedWorld where
  process : WalkWorld
  selectorOf : Nat → StrMap
  reading : Option (Except Str StrMap)

namespace ConfinedWorld

/-- A process that has just started. -/
def start (r : Records) (cfg : RuntimeConfig) (selector : StrMap) : ConfinedWorld :=
  ⟨.start r cfg, fun _ => selector, none⟩

def selector (w : ConfinedWorld) : StrMap := w.selectorOf w.process.gen

/-- A configuration is stored with its selector, as one snapshot. -/
def adopt (w : ConfinedWorld) (process : WalkWorld) (selector : StrMap) : ConfinedWorld :=
  { w with process, selectorOf := fun g => if g = process.gen then selector else w.selectorOf g }

end ConfinedWorld

/-- The operations of a process with selectors. -/
inductive ConfinedOp where
  | walk (op : WalkOp)
  | install (cfg : RuntimeConfig) (selector : StrMap)
  | restart (cfg : RuntimeConfig) (selector : StrMap)
  /-- The admission of a step, with what the sources of labels answer to it. -/
  | admission (t : Tick) (src : LabelSources)

/-- The operations that go to the process as they are. -/
def WalkOp.unconfined : WalkOp → Bool
  | .install _ | .restart _ | .admission _ => false
  | _ => true

/-- The labels an admission looks up. -/
def lookup (simulating : Bool) (selector : StrMap) (src : LabelSources) (node : Str) (step : Step) :
    Option (Except Str StrMap) :=
  if !simulating && destructiveStep step && selector.entries ≠ [] then
    some (nodeLabelsForConfinement src node)
  else none

/-- One operation. The verdict of an admission is computed from the selector that the pass
pinned. -/
def confinedNext (sha : Str → Str) (w : ConfinedWorld) : ConfinedOp → Option ConfinedWorld
  | .walk op =>
    if op.unconfined then (walkNext sha w.process op).map fun process => { w with process }
    else none
  | .install cfg selector =>
    (walkNext sha w.process (.install cfg)).map fun process => w.adopt process selector
  | .restart cfg selector =>
    (walkNext sha w.process (.restart cfg)).map fun process => w.adopt process selector
  | .admission t src =>
    match w.process.pass with
    | some p =>
      match p.phase with
      | .locked step _ =>
        let simulating := p.cfg.effectiveDryRun p.inc
        let selector := w.selectorOf p.gen
        let confinement :=
          destructiveStepConfinement simulating selector src p.inc.target.node step
        (walkNext sha w.process (.admission { t with confinement })).map fun process =>
          { w with process, reading := lookup simulating selector src p.inc.target.node step }
      | _ => none
    | none => none

/-- What one operation does. -/
inductive ConfinedStep (sha : Str → Str) (w : ConfinedWorld) : ConfinedOp → ConfinedWorld → Prop
  | walked {op : WalkOp} {process : WalkWorld} (hop : op.unconfined = true)
      (hstep : WalkStep sha w.process op process) : ConfinedStep sha w (.walk op) { w with process }
  | adopted {op : ConfinedOp} {wop : WalkOp} {cfg : RuntimeConfig} {selector : StrMap}
      {process : WalkWorld}
      (hop : op = .install cfg selector ∧ wop = .install cfg ∨
        op = .restart cfg selector ∧ wop = .restart cfg)
      (hgen : process.gen = w.process.gen + 1) (hstep : WalkStep sha w.process wop process) :
      ConfinedStep sha w op (w.adopt process selector)
  | decided {t : Tick} {src : LabelSources} {process : WalkWorld} (p : Pass) (step : Step)
      (actor : Str) (hpass : w.process.pass = some p) (hphase : p.phase = .locked step actor)
      (hstep : WalkStep sha w.process (.admission { t with
        confinement := destructiveStepConfinement (p.cfg.effectiveDryRun p.inc) (w.selectorOf p.gen)
          src p.inc.target.node step }) process) :
      ConfinedStep sha w (.admission t src)
        { w with
          process
          reading := lookup (p.cfg.effectiveDryRun p.inc) (w.selectorOf p.gen) src
            p.inc.target.node step }

variable {sha : Str → Str} {w w' : ConfinedWorld} {op : ConfinedOp}

theorem confinedStep_of_next : confinedNext sha w op = some w' → ConfinedStep sha w op w' := by
  fun_cases confinedNext sha w op with
  | case1 _ hop =>
    intro h
    obtain ⟨_, hn, rfl⟩ := Option.map_eq_some_iff.1 h
    exact .walked hop (walkStep_of_next hn)
  | case3 =>
    intro h
    obtain ⟨_, hn, rfl⟩ := Option.map_eq_some_iff.1 h
    refine .adopted (.inl ⟨rfl, rfl⟩) ?_ (walkStep_of_next hn)
    simp only [walkNext] at hn
    split_ifs at hn
    rw [← Option.some.inj hn]
  | case4 =>
    intro h
    obtain ⟨_, hn, rfl⟩ := Option.map_eq_some_iff.1 h
    refine .adopted (.inr ⟨rfl, rfl⟩) ?_ (walkStep_of_next hn)
    rw [← Option.some.inj hn]
  | case5 t src p hp step actor hph =>
    intro h
    obtain ⟨_, hn, rfl⟩ := Option.map_eq_some_iff.1 h
    exact .decided p step actor hp hph (walkStep_of_next hn)
  | _ => rintro ⟨⟩

theorem ConfinedStep.process
    (h : ConfinedStep sha w op w') : ∃ wop, WalkStep sha w.process wop w'.process := by
  cases h with
  | walked _ hs | adopted _ _ hs | decided _ _ _ _ _ hs => exact ⟨_, hs⟩

/-! ## Runs -/

/-- The configuration an operation brings has a selector without empty values. -/
def ConfinedOp.plain : ConfinedOp → Bool
  | .install _ selector | .restart _ selector => plainSelector selector
  | _ => true

/-- A pass that was admitted has read labels that match its selector, when it had to. -/
structure ConfinedInv (w : ConfinedWorld) : Prop where
  threads : ThreadInv w.process
  pins : PinInv w.process
  read : ∀ p step actor, w.process.pass = some p → p.phase = .admitted step actor →
    Confined (p.cfg.effectiveDryRun p.inc) (w.selectorOf p.gen) step →
    ∃ labels, w.reading = some (.ok labels) ∧ labelsMatchSelector (w.selectorOf p.gen) labels = true

theorem PassFrom.kept_of_starts {w : WalkWorld} {op : WalkOp} {q : Pass}
    (h : PassFrom sha w op q) (hop : ∀ t, op ≠ .admission t) (hs : q.starts = true) :
    w.pass = some q := by
  have hno : q.starts = false → w.pass = some q := fun hfalse => by
    rw [hfalse] at hs
    cases hs
  cases h with
  | kept hp => exact hp
  | picked _ _ hq | cancelled _ _ _ _ hq => exact hno (hq ▸ rfl)
  | turned _ _ ht => exact hno (ht.not_starts hop)
  | wrote _ _ _ _ _ _ _ hwr _ hn => exact hno (hwr.next_not_starts hn)

theorem ConfinedInv.step (hi : ConfinedInv w) (h : ConfinedStep sha w op w') : ConfinedInv w' := by
  obtain ⟨wop, hw⟩ := h.process
  refine ⟨hi.threads.step hw, hi.pins.step hw, fun q step actor hq hph hc => ?_⟩
  have hstarts : q.starts = true := Pass.starts_iff.2 ⟨step, actor, hph⟩
  cases h with
  | @walked op process hop hs =>
    have hp := (hs.pass_from hq).kept_of_starts (fun t ht => by
      rw [ht] at hop
      cases hop) hstarts
    exact hi.read q step actor hp hph hc
  | @adopted op wop cfg selector process hop hgen hs =>
    have hp := (hs.pass_from hq).kept_of_starts (fun t ht => by
      rcases hop with ⟨-, rfl⟩ | ⟨-, rfl⟩ <;> cases ht) hstarts
    -- the pass is older than the configuration that was stored
    have hle := (hi.pins.pinned q hp).1
    have hold : (w.adopt process selector).selectorOf q.gen = w.selectorOf q.gen :=
      if_neg (by rw [hgen]; omega)
    rw [hold] at hc ⊢
    exact hi.read q step actor hp hph hc
  | @decided t src process p step' actor' hp hph' hs =>
    obtain ⟨_, _, _, hp', hph'', ha | hrefused⟩ := hs.of_admission
    · obtain ⟨ha, rfl⟩ := ha
      cases hp.symm.trans hp'
      cases hph'.symm.trans hph''
      cases hq
      cases hph
      obtain ⟨hscope, -⟩ := admitStep_admitted ha
      obtain ⟨labels, hlab, hm⟩ := (destructiveStepConfinement_confined hc).2 hscope
      refine ⟨labels, ?_, hm⟩
      rw [lookup, hc.real, hc.destructive, if_pos (by simpa using hc.selected), hlab]
    · -- a plan is not a start
      obtain ⟨_, -, rfl⟩ := hrefused
      rw [Pass.follow_not_starts hq] at hstarts
      cases hstarts

theorem selectorOf_plain (h : ConfinedStep sha w op w') (hop : op.plain = true)
    (hpl : ∀ g, plainSelector (w.selectorOf g) = true) (g : Nat) :
    plainSelector (w'.selectorOf g) = true := by
  cases h with
  | walked | decided => exact hpl g
  | @adopted op wop cfg selector process hcases hgen hs =>
    have hn : plainSelector selector = true := by
      rcases hcases with ⟨rfl, -⟩ | ⟨rfl, -⟩
      · exact hop
      · exact hop
    show plainSelector (if g = process.gen then selector else w.selectorOf g) = true
    split_ifs
    · exact hn
    · exact hpl g

/-- An admission that could read no labels holds the step or hands the incident to a human. -/
def Withheld (p : Pass) (w' : ConfinedWorld) : Prop :=
  w'.process.pass = none ∨ ∃ reason, w'.process.pass = p.follow (quarantine p.inc reason)

theorem withheld_of_unresolved {t : Tick}
    {src : LabelSources} (h : ConfinedStep sha w (.admission t src) w') {p : Pass} {step : Step}
    {actor : Str} (hp : w.process.pass = some p) (hph : p.phase = .locked step actor)
    (hc : Confined (p.cfg.effectiveDryRun p.inc) (w.selectorOf p.gen) step) {err : Str}
    (hunread : nodeLabelsForConfinement src p.inc.target.node = .error err) : Withheld p w' := by
  obtain ⟨_, hv⟩ := (destructiveStepConfinement_confined hc).1 err hunread
  cases h with
  | @decided _ _ process p' step' actor' hp' hph' hs =>
    cases hp.symm.trans hp'
    cases hph.symm.trans hph'
    rw [hv] at hs
    obtain ⟨_, _, _, hp', _, ⟨ha, -⟩ | ⟨_, hl, rfl⟩⟩ :=
      hs.of_admission
    · cases (admitStep_admitted ha).1
    cases hp.symm.trans hp'
    simp only [admitStep] at hl
    split_ifs at hl
    · cases hl
      exact .inr ⟨_, rfl⟩
    · cases hl
      exact .inl rfl
  | adopted hop =>
    rcases hop with ⟨hop, -⟩ | ⟨hop, -⟩
    · cases hop
    · cases hop

/-- **Destructive steps are confined.** When no selector has an empty value, in every run:

* an incident enters `executing` only when the walk has admitted a step of it; when that step is
  destructive and for real, and the live selector is not empty, the admission has read labels that
  match the live selector;
* an agent is armed only on labels that match the live selector;
* an admission that could read no labels withholds the step. -/
theorem destructive_start_confined {sha : Str → Str} {r : Records}
    (hids : (r.db.incidents.map (·.id)).Nodup) {cfg : RuntimeConfig} {selector : StrMap}
    (hselector : plainSelector selector = true) {ops : List ConfinedOp}
    (hops : ∀ op ∈ ops, op.plain = true) {w w' : ConfinedWorld}
    (hrun : exec (confinedNext sha) (.start r cfg selector) ops = some w) {op : ConfinedOp}
    (hstep : confinedNext sha w op = some w') :
    (∀ id row', getIncident id w'.process.records.db = some row' → row'.state = .executing →
      (∀ row, getIncident id w.process.records.db = some row → row.state ≠ .executing) →
      ∃ p step actor, w.process.pass = some p ∧ p.inc.id = id ∧ p.phase = .admitted step actor ∧
        p.cfg = w.process.live ∧
        (Confined (w.process.live.effectiveDryRun p.inc) w.selector step →
          ∃ labels, w.reading = some (.ok labels) ∧ MatchLabels w.selector labels)) ∧
    (∀ src node, servedArming w.selector src node = .armed →
      ∃ labels, nodeLabelsForConfinement src node = .ok labels ∧ MatchLabels w.selector labels) ∧
    ∀ t src p step actor err, op = .admission t src → w.process.pass = some p →
      p.phase = .locked step actor →
        Confined (w.process.live.effectiveDryRun p.inc) w.selector step →
      nodeLabelsForConfinement src p.inc.target.node = .error err → Withheld p w' := by
  have hboth : ConfinedInv w ∧ ∀ g, plainSelector (w.selectorOf g) = true := by
    refine exec_invariant_along
      (P := fun v => ConfinedInv v ∧ ∀ g, plainSelector (v.selectorOf g) = true) ?_
      ⟨⟨threadInv_start hids cfg, ⟨?_, ?_⟩, ?_⟩, fun _ => hselector⟩ (along_of_forall hops _) hrun
    · intro v op v' hv hop hnext
      have hstep := confinedStep_of_next hnext
      exact ⟨hv.1.step hstep, selectorOf_plain hstep hop hv.2⟩
    -- there is no pass yet
    all_goals
      intros
      contradiction
  obtain ⟨hinv, hplain⟩ := hboth
  -- a pass that holds the lock works with the live configuration
  have hlocked : ∀ p, w.process.pass = some p → p.locks = true →
      p.cfg = w.process.live ∧ w.selectorOf p.gen = w.selector := by
    intro p hp hlocks
    have hgen := hinv.pins.locked p hp hlocks
    exact ⟨(hinv.pins.pinned p hp).2 hgen, congrArg w.selectorOf hgen⟩
  have hconfined := confinedStep_of_next hstep
  refine ⟨fun id row' hrow' hstate hnew => ?_, fun src node harmed => ?_, ?_⟩
  · obtain ⟨_, hwalk⟩ := hconfined.process
    obtain ⟨p, step, _, hstarted⟩ := hwalk.started hinv.threads hrow' hstate hnew
    obtain ⟨actor, _, hphase, -⟩ := hstarted.wrote
    have hpass := hstarted.pass
    obtain ⟨hcfg, hsel⟩ := hlocked p hpass (by rw [Pass.locks, hphase])
    have hid : p.inc.id = id := by
      rw [← hstarted.id, getIncident_id hstarted.found, getIncident_id hrow']
    refine ⟨p, step, actor, hpass, hid, hphase, hcfg, fun hc => ?_⟩
    have hread := hinv.read p step actor hpass hphase
    rw [hcfg, hsel] at hread
    obtain ⟨labels, hreading, hmatch⟩ := hread hc
    exact ⟨labels, hreading, matchLabels_of_plain (hplain _) hmatch⟩
  · obtain ⟨-, labels, hlabels, hmatch⟩ := servedArming_armed harmed
    exact ⟨labels, hlabels, matchLabels_of_plain (hplain _) hmatch⟩
  · intro t src p step actor err hop hpass hphase hc hunread
    obtain ⟨hcfg, hsel⟩ := hlocked p hpass (by rw [Pass.locks, hphase])
    rw [← hcfg, ← hsel] at hc
    subst hop
    exact withheld_of_unresolved hconfined hpass hphase hc hunread

/-! ## Two selectors -/

/-- A platform that reads the given labels of every node. -/
def readsLabels (entries : List (Str × Str)) : LabelSources :=
  ⟨some ⟨some (.found (KeyMap.ofEntries entries)), none⟩, none⟩

/-- The walk admits the first step of the sample incident, on a node with the given labels. -/
def confinedOps (entries : List (Str × Str)) : List ConfinedOp :=
  let ops : List WalkOp :=
    openingOps ++ [.list, .pick, .readNode false, .plan (sampleTick 3), .lock]
  ops.map .walk ++ [.admission (sampleTick 3) (readsLabels entries)]

def labSelector (value : Str) : StrMap := KeyMap.ofEntries [(lit "gpu-lab", value)]

/-- The sample incident is cordoned on a node of the lab. -/
theorem lab_start_confined :
    ∃ w w' row', exec (confinedNext id)
      (.start .empty (sampleConfig [cordonStep]) (labSelector (lit "yes")))
        (confinedOps [(lit "gpu-lab", lit "yes")]) = some w ∧
      confinedNext id w (.walk (.commit 4 false)) = some w' ∧
      getIncident (lit "inc-1") w'.process.records.db = some row' ∧ row'.state = .executing ∧
      ∃ p step actor, w.process.pass = some p ∧ p.inc.id = lit "inc-1" ∧
        p.phase = .admitted step actor ∧ p.cfg = w.process.live ∧
        (Confined (w.process.live.effectiveDryRun p.inc) w.selector step →
          ∃ labels, w.reading = some (.ok labels) ∧ MatchLabels w.selector labels) := by
  simp only [exists_and_left]
  refine reached (by decide +kernel) fun w hw (hrun :
    (∀ row, getIncident (lit "inc-1") w.process.records.db = some row → row.state ≠ .executing) ∧
    ∃ w', confinedNext id w (.walk (.commit 4 false)) = some w' ∧
      ∃ row', getIncident (lit "inc-1") w'.process.records.db = some row' ∧
        row'.state = .executing) => ?_
  obtain ⟨hnew, w', hw', row', hrow', hstate⟩ := hrun
  obtain ⟨hstart, -⟩ :=
    destructive_start_confined beforeRounds_empty.ids (by decide) (by decide +kernel) hw hw'
  obtain ⟨p, step, actor, hstart⟩ := hstart _ row' hrow' hstate hnew
  exact ⟨w', hw', row', hrow', hstate, p, hstart.1, hstart.2.1, step, actor, hstart.2.2⟩

def Pass.starting? (p : Pass) : Option Step :=
  match p.phase with
  | .admitted step _ => some step
  | _ => none

theorem Pass.phase_of_starting {p : Pass} {step : Step} (h : p.starting? = some step) :
    ∃ actor, p.phase = .admitted step actor := by
  rw [Pass.starting?] at h
  split at h
  next step' actor hph =>
    cases h
    exact ⟨actor, hph⟩
  · cases h

/-- With an empty value the sample incident is cordoned on a node that has no labels at all, and the
agent of that node is armed. -/
theorem unlabelled_node_is_selected : ∃ w w' row' p actor, exec (confinedNext id)
        (.start .empty (sampleConfig [cordonStep]) (labSelector [])) (confinedOps []) = some w ∧
      confinedNext id w (.walk (.commit 4 false)) = some w' ∧
      getIncident (lit "inc-1") w'.process.records.db = some row' ∧ row'.state = .executing ∧
      w.process.pass = some p ∧ p.phase = .admitted cordonStep actor ∧
      Confined (w.process.live.effectiveDryRun p.inc) w.selector cordonStep ∧
      w.reading = some (.ok StrMap.empty) ∧
      servedArming w.selector (readsLabels []) p.inc.target.node = .armed ∧
      ¬MatchLabels w.selector StrMap.empty := by
  simp only [exists_and_left]
  refine reached (by decide +kernel) fun w hw (hrun : w.selector.get? (lit "gpu-lab") = some [] ∧
    (∃ w', confinedNext id w (.walk (.commit 4 false)) = some w' ∧
      ∃ row', getIncident (lit "inc-1") w'.process.records.db = some row' ∧
        row'.state = .executing) ∧
    ∃ p, w.process.pass = some p ∧ p.starting? = some cordonStep ∧
      w.process.live.effectiveDryRun p.inc = false ∧
      (∃ read, w.reading = some read ∧ read.toOption = some StrMap.empty) ∧
      servedArming w.selector (readsLabels []) p.inc.target.node = .armed) => ?_
  obtain ⟨hkey, ⟨w', hw', row', hrow', hstate⟩, p, hp, hstarting, hreal, ⟨read, hread, hlabels⟩,
    harmed⟩ := hrun
  obtain ⟨actor, hphase⟩ := Pass.phase_of_starting hstarting
  refine ⟨w', hw', row', hrow', hstate, p, hp, actor, hphase, ⟨hreal, by decide, ?_⟩, ?_, harmed,
    fun hmatch => ?_⟩
  · exact (servedArming_armed harmed).1
  · rw [hread, eq_ok_of_toOption hlabels]
  · cases hmatch _ _ hkey

end KubeNeuron.Controller
