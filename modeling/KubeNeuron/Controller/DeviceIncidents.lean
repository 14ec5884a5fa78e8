import KubeNeuron.Controller.Writers
import KubeNeuron.Lib.Run

/-!
# The incidents of a device

A device is known by its UUID and by its bus address, and a signal carries the one, the other or
both. An ingest can tell that a signal and an open incident are about one device only by a part that
both carry, and a signal with an address alone falls back to an incident that names no device.

The incidents of a fleet are kept apart in every run without these two situations
(`devices_kept_apart`), and either of them breaks it (`devices_confused`).
-/

namespace KubeNeuron.DeviceIncidents

open Lib KubeNeuron.Types Store Controller

/-! ## Devices and the targets that name them -/

structure Device where
  node : Str
  uuid : Str
  pci : Str
  deriving DecidableEq

/-- The devices of a fleet. Each has both identities, and no two of a node share one. -/
structure Fleet where
  devices : Device → Prop
  named : ∀ d, devices d → d.uuid ≠ [] ∧ d.pci ≠ []
  uuid_inj : ∀ d, devices d → ∀ e, devices e → d.node = e.node → d.uuid = e.uuid → d = e
  pci_inj : ∀ d, devices d → ∀ e, devices e → d.node = e.node → d.pci = e.pci → d = e

/-- The target names the node and no device. -/
def NodeOnly (t : Target) : Prop := t.gpuUUID = [] ∧ t.pciAddr = []

/-- The target carries a non-empty part of the device's identity, and nothing of another one. -/
def Identifies (t : Target) (d : Device) : Prop :=
  ¬NodeOnly t ∧ t.node = d.node ∧ (t.gpuUUID = [] ∨ t.gpuUUID = d.uuid) ∧
    (t.pciAddr = [] ∨ t.pciAddr = d.pci)

/-- What a target is about: a device of the fleet, or the node alone. -/
def About (F : Fleet) (t : Target) : Option Device → Prop
  | none => NodeOnly t
  | some d => F.devices d ∧ Identifies t d

/-- The two targets carry the same part of an identity. -/
def SharePart (s t : Target) : Prop :=
  (s.gpuUUID ≠ [] ∧ t.gpuUUID ≠ []) ∨ (s.pciAddr ≠ [] ∧ t.pciAddr ≠ [])

instance (t : Target) : Decidable (NodeOnly t) :=
  inferInstanceAs (Decidable (_ ∧ _))

instance (t : Target) (d : Device) : Decidable (Identifies t d) :=
  inferInstanceAs (Decidable (_ ∧ _))

instance (s t : Target) : Decidable (SharePart s t) :=
  inferInstanceAs (Decidable (_ ∨ _))

/-- The target of a signal, with the address in its stored spelling. -/
def signalTarget (env : IngestEnv) (sig : Signal) : Target :=
  { sig.target with pciAddr := normalizePCIAddress env.lower sig.target.pciAddr }

/-! ## Runs -/

/-- The store, and which incident each signal joined. -/
structure World where
  db : Database
  joined : List (Str × Option Device)

/-- A signal about a device or the node arrives, or the controller writes an incident. -/
inductive Op where
  | signal (env : IngestEnv) (sig : Signal) (about : Option Device)
  | write (inc : Incident)

/-- A failed transaction leaves the store as it was. No writer reopens an incident. -/
def next (w : World) : Op → Option World
  | .signal env sig about =>
    match ingestTx env sig w.db with
    | .error _ => some w
    | .ok (db, id) => some ⟨db, w.joined ++ [(id, about)]⟩
  | .write inc =>
    if (getIncident inc.id w.db).any (·.state.terminal) && !inc.state.terminal then none
    else
      match updateIncident inc w.db with
      | .error _ => some w
      | .ok db => some ⟨db, w.joined⟩

/-- The signal names only the node, or a non-empty part of one device's identity, in any spelling of
its address (`normalizePCIAddress_spelling`). -/
def Op.Names (F : Fleet) : Op → Prop
  | .signal env sig about => About F (signalTarget env sig) about
  | .write _ => True

/-- The incidents tell those of the device from the others: each open one of the class shares a part
with the target, and none is without a device when the target has an address alone. -/
def TellsApart (rows : List Incident) (t : Target) (cls : Str) (d : Device) : Prop :=
  ∀ row ∈ rows, row.state.terminal = false → row.cls = cls →
    (Identifies row.target d → SharePart row.target t) ∧
      (row.target.node = d.node → t.gpuUUID = [] → ¬NodeOnly row.target)

/-- The store tells the incidents of the signal's device. -/
def Told (w : World) : Op → Prop
  | .signal env sig (some d) => TellsApart w.db.incidents (signalTarget env sig) sig.cls d
  | _ => True

instance (rows : List Incident) (t : Target) (cls : Str) (d : Device) :
    Decidable (TellsApart rows t cls d) :=
  inferInstanceAs (Decidable (∀ row ∈ rows, _))

instance (w : World) : (op : Op) → Decidable (Told w op)
  | .signal _ _ (some _) => inferInstanceAs (Decidable (TellsApart _ _ _ _))
  | .signal _ _ none => isTrue trivial
  | .write _ => isTrue trivial

variable {F : Fleet} {w w' : World} {t : Target} {a b : Option Device} {d : Device}

/-! ## What a target is about -/

theorem Identifies.uuid (h : Identifies t d) (hs : t.gpuUUID ≠ []) : t.gpuUUID = d.uuid :=
  h.2.2.1.resolve_left hs

theorem Identifies.pci (h : Identifies t d) (hs : t.pciAddr ≠ []) : t.pciAddr = d.pci :=
  h.2.2.2.resolve_left hs

/-- Targets of one node with one UUID or one address are about the same device. -/
theorem About.same {s : Target} (hs : About F s a) (ht : About F t b) (hn : s.node = t.node)
    (hpart : (t.gpuUUID ≠ [] ∧ s.gpuUUID = t.gpuUUID) ∨ (t.pciAddr ≠ [] ∧ s.pciAddr = t.pciAddr)) :
    a = b := by
  cases a with
  | none =>
    rcases hpart with ⟨hne, heq⟩ | ⟨hne, heq⟩
    · exact absurd (heq.symm.trans hs.1) hne
    · exact absurd (heq.symm.trans hs.2) hne
  | some d =>
    cases b with
    | none =>
      rcases hpart with ⟨hne, -⟩ | ⟨hne, -⟩
      · exact absurd ht.1 hne
      · exact absurd ht.2 hne
    | some e =>
      have hd : d.node = e.node := hs.2.2.1.symm.trans (hn.trans ht.2.2.1)
      congr 1
      rcases hpart with ⟨hne, heq⟩ | ⟨hne, heq⟩
      · apply F.uuid_inj d hs.1 e ht.1 hd
        rw [← hs.2.uuid (heq ▸ hne), ← ht.2.uuid hne, heq]
      · apply F.pci_inj d hs.1 e ht.1 hd
        rw [← hs.2.pci (heq ▸ hne), ← ht.2.pci hne, heq]

theorem About.unique (h : About F t a) (h' : About F t b) : a = b := by
  by_cases hu : t.gpuUUID = []
  · by_cases hpci : t.pciAddr = []
    · -- neither side can be a device
      have hn : ∀ {c}, About F t c → c = none := by
        intro c hc
        cases c with
        | none => rfl
        | some => exact absurd ⟨hu, hpci⟩ hc.2.1
      rw [hn h, hn h']
    · exact h.same h' rfl (.inr ⟨hpci, rfl⟩)
  · exact h.same h' rfl (.inl ⟨hu, rfl⟩)

/-! ## Which incident a signal finds -/

variable {env : IngestEnv} {sig : Signal}

variable {row : Incident} {db : Database}

/-- **A signal joins an incident of its own subject.** -/
theorem joins_own (hr : About F row.target b)
    (hs : About F (signalTarget env sig) a) (htold : Told w (.signal env sig a))
    (hf : getOpenIncident env.lower sig.target sig.cls w.db = some row) : b = a := by
  obtain ⟨⟨hm, ho⟩, hn, hcls, hu | ⟨hpci, hne⟩ | ⟨h0, hbare⟩⟩ :=
    getOpenIncident_found hf
  · exact hr.same hs hn (.inl hu)
  · exact hr.same hs hn (.inr ⟨hne, hpci⟩)
  cases a with
  | none => exact hr.unique hbare
  | some d => exact absurd hbare ((htold row hm ho hcls).2 (hn.trans hs.2.2.1) h0)

/-- **A device gets a new incident only when it has none** of the class. -/
theorem opens_alone (hw : Identifies row.target d)
    (hg : Identifies (signalTarget env sig) d) (htold : Told w (.signal env sig (some d)))
    (hf : getOpenIncident env.lower sig.target sig.cls w.db = none)
    (he : row ∈ w.db.incidents) (ho : row.state.terminal = false) : row.cls ≠ sig.cls := by
  intro hcls
  have hmiss := getOpenIncident_none hf he ho (hw.2.1.trans hg.2.1.symm) hcls
  have hu : row.target.gpuUUID ≠ [] → sig.target.gpuUUID = [] := by
    intro hm
    by_contra hne
    exact hmiss.1 hne ((hw.uuid hm).trans (hg.uuid hne).symm)
  rcases (htold row he ho hcls).1 hw with ⟨hr, hs⟩ | ⟨hr, hs⟩
  · exact hs (hu hr)
  · obtain ⟨hs', hr'⟩ := hmiss.2 hs ((hw.pci hr).trans (hg.pci hs).symm)
    exact hs' (hu hr')

/-- Attaching a signal of the same subject leaves the incident about it. -/
theorem Joined.about {row' : Incident} (h : Joined env sig row row')
    (hsrc : row'.target = row.target ∨ row'.target.gpuUUID = sig.target.gpuUUID)
    (hr : About F row.target a) (hg : About F (signalTarget env sig) a) :
    About F row'.target a := by
  rcases h.target with heq | ⟨he, hs, ha, heq⟩
  · rw [heq]
    exact hr
  cases a with
  | none => exact absurd hr.2 ha
  | some d =>
    have hc : row'.target.gpuUUID = sig.target.gpuUUID :=
      hsrc.resolve_left fun hk => hs (hk ▸ he)
    have hu := hg.2.uuid (hc ▸ hs)
    refine ⟨hr.1, fun hn => hs hn.1, ?_, .inr (hc.trans hu), ?_⟩
    · rw [heq]
      exact hr.2.2.1
    · rw [heq]
      exact hr.2.2.2.2

/-! ## The invariant -/

/-- Every incident is about one subject, every signal joined an incident about its own, and no
device has two open incidents of a class. -/
structure Apart (F : Fleet) (w : World) : Prop where
  ids : (w.db.incidents.map (·.id)).Nodup
  about : ∀ i row, getIncident i w.db = some row → ∃ a, About F row.target a
  joined : ∀ e ∈ w.joined, ∃ row, getIncident e.1 w.db = some row ∧ About F row.target e.2
  one : ∀ d i j row row', getIncident i w.db = some row → getIncident j w.db = some row' →
    row.state.terminal = false → row'.state.terminal = false → row.cls = row'.cls →
    About F row.target (some d) → About F row'.target (some d) → i = j

section

variable (h : Apart F w)
include h

theorem Apart.log {i : Str}
    (hr : getIncident i w.db = some row) (habout : About F row.target a) :
    Apart F ⟨w.db, w.joined ++ [(i, a)]⟩ := by
  exact ⟨h.ids, h.about, forall_mem_insert h.joined ⟨row, hr, habout⟩, h.one⟩

/-- A row replaced by one of the same class and subject that is not reopened. -/
theorem Apart.replaced {row' : Incident} (hrep : Replaced w.db db row row')
    (hcls : row'.cls = row.cls)
    (ho : row'.state.terminal = false → row.state.terminal = false)
    (habout : ∀ a, About F row.target a → About F row'.target a) : Apart F ⟨db, w.joined⟩ := by
  -- what is found now was there before, with the class and the subject it has
  have hback : ∀ i r, getIncident i db = some r → ∃ r0, getIncident i w.db = some r0 ∧
      r.cls = r0.cls ∧ (r.state.terminal = false → r0.state.terminal = false) ∧
      ∀ a, About F r.target a ↔ About F r0.target a := by
    intro i r hr
    rcases hrep.cases hr with ⟨rfl, rfl⟩ | ⟨-, hr⟩
    · refine ⟨row, hrep.found, hcls, ho, fun a => ⟨fun ha => ?_, habout a⟩⟩
      obtain ⟨b, hb⟩ := h.about _ _ hrep.found
      rw [ha.unique (habout b hb)]
      exact hb
    · exact ⟨r, hr, rfl, id, fun _ => Iff.rfl⟩
  constructor
  · show (db.incidents.map (·.id)).Nodup
    rw [hrep.ids]
    exact h.ids
  · intro i r hr
    obtain ⟨r0, hr0, -, -, hsame⟩ := hback i r hr
    obtain ⟨a, ha⟩ := h.about i r0 hr0
    exact ⟨a, (hsame a).2 ha⟩
  · intro e he
    obtain ⟨r, hr, ha⟩ := h.joined e he
    exact hrep.forward hr ha fun heq => habout _ (heq ▸ ha)
  · intro d i j r s hr hs hropen hsopen hclass hrd hsd
    obtain ⟨r0, hr0, hrcls, hropen0, hrsame⟩ := hback i r hr
    obtain ⟨s0, hs0, hscls, hsopen0, hssame⟩ := hback j s hs
    exact h.one d i j r0 s0 hr0 hs0 (hropen0 hropen) (hsopen0 hsopen)
      (hrcls.symm.trans (hclass.trans hscls)) ((hrsame _).1 hrd) ((hssame _).1 hsd)

/-- A row added for a subject that is a device without an open incident of the class, or the
node. -/
theorem Apart.added (hadd : Added w.db db row) (hw : About F row.target a)
    (hf : ∀ d r, r ∈ w.db.incidents → r.state.terminal = false → About F r.target (some d) →
      About F row.target (some d) → r.cls ≠ row.cls) : Apart F ⟨db, w.joined⟩ := by
  refine ⟨hadd.nodup h.ids, fun i r hr => ?_, fun e he => ?_, ?_⟩
  · rcases hadd.cases hr with ⟨-, rfl⟩ | ⟨-, hr⟩
    · exact ⟨a, hw⟩
    · exact h.about i r hr
  · obtain ⟨r, hr, ha⟩ := h.joined e he
    exact ⟨r, hadd.forward hr, ha⟩
  intro d i j r s hr hs hropen hsopen hcls hrd hsd
  rcases hadd.cases hr with ⟨rfl, rfl⟩ | ⟨-, hr⟩
  · rcases hadd.cases hs with ⟨rfl, -⟩ | ⟨-, hs⟩
    · rfl
    · exact absurd hcls.symm (hf d s (getIncident_mem hs) hsopen hsd hrd)
  · rcases hadd.cases hs with ⟨rfl, rfl⟩ | ⟨-, hs⟩
    · exact absurd hcls (hf d r (getIncident_mem hr) hropen hrd hsd)
    · exact h.one d i j r s hr hs hropen hsopen hcls hrd hsd

theorem Apart.signal (hs : About F (signalTarget env sig) a)
    (htold : Told w (.signal env sig a)) {id : Str}
    (hingest : ingestTx env sig w.db = .ok (db, id)) : Apart F ⟨db, w.joined ++ [(id, a)]⟩ := by
  rcases ingestTx_row h.ids hingest with
    ⟨rfl, hn, hadd⟩ | ⟨row, row', rfl, hf, he, hj, hsrc⟩
  · have hadded : Apart F ⟨db, w.joined⟩ := by
      apply h.added hadd hs
      intro d r hr ho hrd hw
      cases hs.unique hw
      exact opens_alone hrd.2 hs.2 htold hn hr ho
    exact hadded.log hadd.written hs
  obtain ⟨_, hb⟩ := h.about _ _ he.found
  cases joins_own hb hs htold hf
  have habout : ∀ c, About F row.target c → About F row'.target c := by
    intro c hc
    cases hc.unique hb
    exact Joined.about hj hsrc hb hs
  have hcols := hj.columns
  have hrevised : Apart F ⟨db, w.joined⟩ := by
    apply h.replaced he (by rw [hcols]; rfl) (fun _ => hj.open_) habout
  exact hrevised.log he.written (habout _ hb)

theorem Apart.write {inc : Incident}
    (hk : ((getIncident inc.id w.db).any (·.state.terminal) && !inc.state.terminal) = false)
    (hu : updateIncident inc w.db = .ok db) : Apart F ⟨db, w.joined⟩ := by
  obtain ⟨_, hid, -, hr⟩ := updateIncident_replaced hu
  refine h.replaced hr rfl (fun ho => ?_) (fun _ ha => ha)
  rw [← hid, hr.found] at hk
  simpa [show inc.state.terminal = false from ho] using hk

theorem Apart.next {op : Op} (hnm : op.Names F) (htold : Told w op)
    (hn : next w op = some w') : Apart F w' := by
  cases op with
  | signal env sig about =>
    simp only [DeviceIncidents.next] at hn
    split at hn
    · cases hn
      exact h
    next db id hingest =>
      cases hn
      exact h.signal hnm htold hingest
  | write inc =>
    simp only [DeviceIncidents.next] at hn
    split_ifs at hn with hk
    split at hn
    · cases hn
      exact h
    next db hu =>
      cases hn
      exact h.write (Bool.eq_false_iff.2 hk) hu

end

/-- **The incidents of a fleet are kept apart**, in every run from a store without incidents in
which the store can tell the incidents of each signal's device: each device has at most one open
incident of a class, no incident absorbs signals of two devices, and an incident that a signal of
the node joined names no device. -/
theorem devices_kept_apart {db : Database} (hstart : db.incidents = []) {ops : List Op}
    (hnames : ∀ op ∈ ops, op.Names F)
    (htold : Along next Told ⟨db, []⟩ ops) (hrun : exec next ⟨db, []⟩ ops = some w) :
    (∀ d, F.devices d → ∀ row ∈ w.db.incidents, ∀ row' ∈ w.db.incidents,
      row.state.terminal = false → row'.state.terminal = false → row.cls = row'.cls →
      Identifies row.target d → Identifies row'.target d → row = row') ∧
    (∀ i d e, (i, some d) ∈ w.joined → (i, some e) ∈ w.joined → d = e) ∧
    (∀ i, (i, none) ∈ w.joined → ∀ row ∈ w.db.incidents, row.id = i → NodeOnly row.target) := by
  have hboth : Along next (fun w op => op.Names F ∧ Told w op) ⟨db, []⟩ ops :=
    (along_of_forall hnames _).and htold
  have h : Apart F w := by
    refine exec_invariant_along (fun _ _ _ hs hok hn => Apart.next hs hok.1 hok.2 hn) ?_ hboth hrun
    constructor <;> simp [hstart, getIncident]
  refine ⟨fun d hd row hrow row' hrow' ho ho' hcls hi hi' => ?_, fun i d e hd he => ?_,
    fun i hi row hrow hid => ?_⟩
  · have hsame := h.one d _ _ row row' (getIncident_of_mem h.ids hrow)
      (getIncident_of_mem h.ids hrow') ho ho' hcls ⟨hd, hi⟩ ⟨hd, hi'⟩
    exact eq_of_key_eq h.ids hrow hrow' hsame
  · obtain ⟨_, hr, had⟩ := h.joined _ hd
    obtain ⟨_, hs, hae⟩ := h.joined _ he
    cases hr.symm.trans hs
    exact Option.some.inj (had.unique hae)
  obtain ⟨_, hr, ha⟩ := h.joined _ hi
  subst hid
  cases hr.symm.trans (getIncident_of_mem h.ids hrow)
  exact ha

/-! ## Two devices of one node -/

def gpu0 : Device := ⟨lit "n", lit "U0", lit "p0"⟩

def gpu1 : Device := ⟨lit "n", lit "U1", lit "p1"⟩

def twoGPUs : Fleet where
  devices := fun d => d ∈ [gpu0, gpu1]
  named := by decide
  uuid_inj := by decide
  pci_inj := by decide

/-- A signal that carries the given parts. The time is the name of a new incident. -/
def sampleSignal (now : Nat) (uuid pci : Str) (about : Option Device) : Op :=
  .signal ⟨id, true, fun _ => [], fun _ t => [UInt8.ofNat t], now, now, now⟩
    ⟨⟨lit "n", uuid, 0, pci⟩, lit "XID", StrMap.empty⟩ about

instance (op : Op) : Decidable (op.Names twoGPUs) :=
  match op with
  | .signal _ _ none => inferInstanceAs (Decidable (NodeOnly _))
  | .signal _ _ (some _) => inferInstanceAs (Decidable (_ ∈ [gpu0, gpu1] ∧ Identifies _ _))
  | .write _ => inferInstanceAs (Decidable True)

theorem devices_kept_apart_sample :
    ∃ w, exec next ⟨Database.empty, []⟩ [sampleSignal 1 [] (lit "p0") (some gpu0),
        sampleSignal 2 (lit "U0") (lit "p0") (some gpu0), sampleSignal 3 [] [] none] = some w ∧
      w.joined = [([1], some gpu0), ([1], some gpu0), ([3], none)] ∧
      (∀ i, (i, none) ∈ w.joined → ∀ row ∈ w.db.incidents, row.id = i → NodeOnly row.target) := by
  refine reached (by decide +kernel) fun w hw hjoined => ⟨hjoined, ?_⟩
  exact (devices_kept_apart (F := twoGPUs) rfl (by decide +kernel) (by decide +kernel) hw).2.2

/-- A device first named by its UUID alone and then by its address alone gets two incidents, and two
devices named by their addresses alone share the incident of a node alert. -/
theorem devices_confused :
    (∃ ops w, (∀ op ∈ ops, op.Names twoGPUs) ∧ exec next ⟨Database.empty, []⟩ ops = some w ∧
      ∃ row ∈ w.db.incidents, ∃ row' ∈ w.db.incidents, row.state.terminal = false ∧
        row'.state.terminal = false ∧ row.cls = row'.cls ∧ Identifies row.target gpu0 ∧
        Identifies row'.target gpu0 ∧ row ≠ row') ∧
    (∃ ops w, (∀ op ∈ ops, op.Names twoGPUs) ∧ exec next ⟨Database.empty, []⟩ ops = some w ∧
      ∃ j ∈ w.joined, ∃ k ∈ w.joined, j.1 = k.1 ∧ j.2 = some gpu0 ∧ k.2 = some gpu1) := by
  simp only [exists_and_left]
  constructor
  · exact ⟨[sampleSignal 1 (lit "U0") [] (some gpu0), sampleSignal 2 [] (lit "p0") (some gpu0)],
      by decide +kernel⟩
  · exact ⟨[sampleSignal 1 [] [] none, sampleSignal 2 [] (lit "p0") (some gpu0),
      sampleSignal 3 [] (lit "p1") (some gpu1)], by decide +kernel⟩

end KubeNeuron.DeviceIncidents
