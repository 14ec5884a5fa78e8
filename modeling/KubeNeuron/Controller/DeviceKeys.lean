import KubeNeuron.Controller.DeviceIncidents
import KubeNeuron.Safety.Gate

/-!
# The devices behind the keys of the gate

The gate knows a device by its bus address where the target carries one and by its UUID otherwise.
The keys of two devices, or of a device and a node, are never the same. A device has one key only
among targets that all carry its address, or all do not: a signal with the UUID alone is counted,
cooled down and watched for flapping apart from the signals that carry the address.
-/

namespace KubeNeuron.DeviceIncidents

open Lib KubeNeuron.Types Safety

/-- The target carries a non-empty part of the device's identity, with the address in any
spelling. -/
def Names (lower : Str → Str) (t : Target) (d : Device) : Prop :=
  ¬NodeOnly t ∧ t.node = d.node ∧ (t.gpuUUID = [] ∨ t.gpuUUID = d.uuid) ∧
    (t.pciAddr = [] ∨ normalizePCIAddress lower t.pciAddr = d.pci)

instance (lower : Str → Str) (t : Target) (d : Device) :
    Decidable (Names lower t d) :=
  inferInstanceAs (Decidable (_ ∧ _))

/-- What follows the node in the key of a target of the device. -/
def partKey (t : Target) (d : Device) : Str :=
  if t.pciAddr = [] then d.uuid else lit "pci:" ++ d.pci

variable {lower : Str → Str} {t u : Target} {d e : Device}

theorem targetKey_of_names (h : Names lower t d) :
    targetKey lower t = d.node ++ 0x2F :: partKey t d := by
  obtain ⟨hpart, hn, hu, hpci⟩ := h
  rw [targetKey, partKey]
  by_cases ha : t.pciAddr = []
  · obtain h0 | hu := hu
    · exact absurd ⟨h0, ha⟩ hpart
    have hgpu : t.isGPU := decide_eq_true fun h0 => hpart ⟨h0, ha⟩
    rw [if_neg (not_not.2 ha), if_pos hgpu, if_pos ha, hn, hu, List.append_assoc]
    rfl
  · rw [if_pos ha, if_neg ha, hn, hpci.resolve_left ha, List.append_assoc]
    rfl

/-- The node names of the fleet have no slash, and no UUID looks like an address. -/
def PlainNames (F : Fleet) : Prop :=
  ∀ d, F.devices d → 0x2F ∉ d.node ∧ ¬lit "pci:" <+: d.uuid

/-- Two targets of plainly named devices have one key exactly when they name one device, if and only
if two targets of one device both carry its address or both do not. No node has the key of a
device. -/
theorem targetKey_eq_iff_device {F : Fleet} (hF : PlainNames F) (hd : F.devices d)
    (he : F.devices e)
    (ht : Names lower t d) (hu : Names lower u e) :
    ((targetKey lower t = targetKey lower u ↔ d = e) ↔
      (d = e → (t.pciAddr = [] ↔ u.pciAddr = []))) ∧
    ∀ v, NodeOnly v → 0x2F ∉ v.node → targetKey lower t ≠ targetKey lower v := by
  have hsplit : targetKey lower t = targetKey lower u ↔
      d.node = e.node ∧ partKey t d = partKey u e := by
    rw [targetKey_of_names ht, targetKey_of_names hu]
    exact ⟨sep_append_inj (hF d hd).1 (hF e he).1, fun h => by rw [h.1, h.2]⟩
  -- A UUID is never taken for an address.
  have hpci pci {d : Device} (hd : F.devices d) : d.uuid ≠ lit "pci:" ++ pci :=
    fun h => (hF d hd).2 (h ▸ List.prefix_append _ _)
  constructor
  · rw [hsplit, partKey, partKey]
    split_ifs with htaddr huaddr huaddr
    · exact ⟨fun _ _ => iff_of_true htaddr huaddr,
        fun _ => ⟨fun h => F.uuid_inj d hd e he h.1 h.2, by rintro rfl; exact ⟨rfl, rfl⟩⟩⟩
    · simp only [hpci _ hd, and_false, false_iff, htaddr, huaddr, iff_false, not_true]
    · simp only [(hpci _ he).symm, and_false, false_iff, htaddr, huaddr, iff_true]
    · exact ⟨fun _ _ => iff_of_false htaddr huaddr, fun _ => ⟨fun h => F.pci_inj d hd e he h.1
        (List.append_cancel_left h.2), by rintro rfl; exact ⟨rfl, rfl⟩⟩⟩
  · intro v hv hslash heq
    have hkey : targetKey lower v = v.node := by
      simp [targetKey, hv.2, Target.isGPU, hv.1]
    rw [targetKey_of_names ht, hkey] at heq
    exact hslash (heq ▸ List.mem_append_right _ (.head _))

/-- With the address, the two spellings of the first device give one key, and the second device has
another one. -/
theorem targetKey_of_two_gpus :
    (targetKey id ⟨lit "n", [], 0, lit "P0.0"⟩ = targetKey id ⟨lit "n", lit "U0", 0, lit "p0"⟩ ↔
      gpu0 = gpu0) ∧
    (targetKey id ⟨lit "n", [], 0, lit "p0"⟩ = targetKey id ⟨lit "n", [], 0, lit "p1"⟩ ↔
      gpu0 = gpu1) := by
  have hplain : PlainNames twoGPUs := by
    rintro _ (- | ⟨-, (- | ⟨-, ⟨⟩⟩)⟩) <;> decide
  have h0 : twoGPUs.devices gpu0 := .head _
  have h1 : twoGPUs.devices gpu1 := .tail _ (.head _)
  constructor
  · exact (targetKey_eq_iff_device hplain h0 h0 (by decide +kernel) (by decide +kernel)).1.mpr
      (by decide)
  · exact (targetKey_eq_iff_device hplain h0 h1 (by decide +kernel) (by decide +kernel)).1.mpr
      (by decide)

/-- The same device by its UUID alone and by its address has two keys. -/
theorem targetKey_escaped :
    Names id ⟨lit "n", lit "U0", 0, []⟩ gpu0 ∧ Names id ⟨lit "n", lit "U0", 0, lit "p0"⟩ gpu0 ∧
      targetKey id ⟨lit "n", lit "U0", 0, []⟩ ≠ targetKey id ⟨lit "n", lit "U0", 0, lit "p0"⟩ := by
  decide +kernel

end KubeNeuron.DeviceIncidents
