import KubeNeuron.Lib.StrMap

/-!
# Nodes and JSON patches

The part of a node that a cordon reads and writes: the unschedulable flag and the annotations. Both
are left out of the stored object when they are false or empty, and a patch meets the object in that
form. A patch is applied as a whole or not at all.
-/

namespace KubeNeuron.Platform

open Lib

/-! ## Nodes -/

/-- The annotations that a cordon reads and writes. -/
inductive Mark where
  | owners
  | reason
  | restore
  | held
  | heldOwners
  | handoff
  | doNotDisrupt
  deriving DecidableEq

namespace Mark

def key : Mark → Str
  | .owners => lit "kubeneuron.io/cordon-owners"
  | .reason => lit "kubeneuron.io/cordon-reason"
  | .restore => lit "kubeneuron.io/cordon-restore"
  | .held => lit "kubeneuron.io/cordon-held"
  | .heldOwners => lit "kubeneuron.io/cordon-held-owners"
  | .handoff => lit "kubeneuron.io/cordon-handoff"
  | .doNotDisrupt => lit "karpenter.sh/do-not-disrupt"

theorem key_injective : Function.Injective key := by
  intro m m' h
  revert h
  cases m <;> cases m' <;> decide

@[simp] theorem key_inj {m m' : Mark} : m.key = m'.key ↔ m = m' := key_injective.eq_iff

theorem validUTF8_key (m : Mark) : ValidUTF8 m.key := by cases m <;> decide

/-- `cordonAnnotations`: what the product writes to hold a node cordoned. -/
def cordonAnnotations : List Mark := [.owners, .reason, .restore, .held, .heldOwners]

end Mark

structure Annotations where
  map : StrMap
  valid : map.Valid

namespace Annotations

def empty : Annotations := ⟨.empty, fun _ h => absurd h List.not_mem_nil⟩

/-- The value of a key. -/
def get? (a : Annotations) (k : Str) : Option Str := a.map.get? k

/-- Set a key, as JSON carries the key and the value. -/
def insert (a : Annotations) (k v : Str) : Annotations :=
  ⟨a.map.insert (toValid k) (toValid v), fun e he => by
    rcases KeyMap.mem_insertEntry he with rfl | he
    · exact ⟨validUTF8_toValid k, validUTF8_toValid v⟩
    · exact a.valid e he⟩

/-- Remove a key. -/
def erase (a : Annotations) (k : Str) : Annotations :=
  ⟨a.map.erase k, fun e he => a.valid e (List.mem_of_mem_filter he)⟩

theorem get?_insert (a : Annotations) (k v k' : Str) :
    (a.insert k v).get? k' = if k' = toValid k then some (toValid v) else a.get? k' :=
  KeyMap.get?_insert a.map (toValid k) k' (toValid v)

theorem get?_erase (a : Annotations) (k k' : Str) :
    (a.erase k).get? k' = if k' = k then none else a.get? k' :=
  KeyMap.get?_erase a.map k k'

theorem ext_get? {a b : Annotations} (h : ∀ k, a.get? k = b.get? k) : a = b := by
  obtain ⟨a, _⟩ := a
  obtain ⟨b, _⟩ := b
  obtain rfl : a = b := KeyMap.ext_get? h
  rfl

end Annotations

structure KubeNode where
  unschedulable : Bool
  annotations : Annotations

namespace KubeNode

def get (n : KubeNode) (m : Mark) : Option Str := n.annotations.get? m.key

/-- The value of an annotation, empty when it is not there. -/
def text (n : KubeNode) (m : Mark) : Str := (n.get m).getD []

theorem toValid_of_get {n : KubeNode} {m : Mark} {v : Str} (h : n.get m = some v) :
    toValid v = v :=
  toValid_eq_self (n.annotations.valid (m.key, v) (KeyMap.mem_entries.2 h)).2

theorem map_toValid_get (n : KubeNode) (m : Mark) : (n.get m).map toValid = n.get m := by
  cases h : n.get m with
  | none => rfl
  | some => exact congrArg some (toValid_of_get h)

theorem ext_get? {n n' : KubeNode} (hg : n.unschedulable = n'.unschedulable)
    (h : ∀ k, n.annotations.get? k = n'.annotations.get? k) : n = n' := by
  obtain ⟨flag, a⟩ := n
  obtain ⟨flag', a'⟩ := n'
  obtain rfl : flag = flag' := hg
  obtain rfl : a = a' := Annotations.ext_get? h
  rfl

end KubeNode

/-! ## Patches -/

/-- The operations of the patches; a test without a value asks for `null`, which is found where the
member is absent. -/
inductive PatchOp where
  | testNoAnnotations
  | addAnnotations
  | test (m : Mark) (value : Option Str)
  | testUnschedulable (value : Option Bool)
  | add (m : Mark) (value : Str)
  | addUnschedulable (value : Bool)
  | remove (m : Mark)

/-- The object that a patch is applied to, with the members it has. -/
structure PatchDoc where
  unschedulable : Option Bool
  annotations : Option Annotations

namespace PatchDoc

def get? (d : PatchDoc) (k : Str) : Option Str := d.annotations.bind fun a => a.get? k

def flag (d : PatchDoc) : Bool := d.unschedulable.getD false

end PatchDoc

/-- The stored form of a node: what is false or empty is left out. -/
def KubeNode.doc (n : KubeNode) : PatchDoc :=
  ⟨if n.unschedulable then some true else none,
    if n.annotations.map.entries = [] then none else some n.annotations⟩

/-- The node that an object is read as. -/
def PatchDoc.node (d : PatchDoc) : KubeNode := ⟨d.flag, d.annotations.getD .empty⟩

def PatchOp.apply (d : PatchDoc) : PatchOp → Option PatchDoc
  | .testNoAnnotations => if d.annotations.isNone then some d else none
  | .addAnnotations => some { d with annotations := some .empty }
  | .test m value =>
    d.annotations.bind fun a => if a.get? m.key = value.map toValid then some d else none
  | .testUnschedulable value => if d.unschedulable = value then some d else none
  | .add m value =>
    d.annotations.map fun a => { d with annotations := some (a.insert m.key value) }
  | .addUnschedulable value => some { d with unschedulable := some value }
  | .remove m =>
    d.annotations.bind fun a =>
      if (a.get? m.key).isSome then some { d with annotations := some (a.erase m.key) } else none

/-- The operations of a patch, in order. -/
def applyOps (d : PatchDoc) : List PatchOp → Option PatchDoc
  | [] => some d
  | op :: ops => (op.apply d).bind fun d => applyOps d ops

/-- A patch, as the API server applies it. -/
def applyPatch (n : KubeNode) (ops : List PatchOp) : Option KubeNode :=
  (applyOps n.doc ops).map PatchDoc.node

/-! ## What a patch has found -/

variable {d d' : PatchDoc} {ops : List PatchOp}

theorem KubeNode.doc_get? (n : KubeNode) (k : Str) : n.doc.get? k = n.annotations.get? k := by
  change (if n.annotations.map.entries = [] then none else some n.annotations).bind _ = _
  split_ifs with h
  · rw [Annotations.get?, KeyMap.get?, h]
    rfl
  · rfl

theorem KubeNode.doc_flag (n : KubeNode) : n.doc.flag = n.unschedulable := by
  rw [KubeNode.doc]
  cases n.unschedulable <;> rfl

theorem PatchDoc.node_get? (d : PatchDoc) (k : Str) : d.node.annotations.get? k = d.get? k := by
  rw [PatchDoc.node, PatchDoc.get?]
  cases d.annotations <;> rfl

theorem applyOps_test {m : Mark} {value : Option Str}
    (h : applyOps d (.test m value :: ops) = some d') :
    d.get? m.key = value.map toValid ∧ applyOps d ops = some d' := by
  obtain ⟨_, hs, ht⟩ := Option.bind_eq_some_iff.1 h
  obtain ⟨_, ha, hs⟩ := Option.bind_eq_some_iff.1 hs
  split_ifs at hs with hvl
  cases hs
  exact ⟨by rw [PatchDoc.get?, ha]; exact hvl, ht⟩

theorem applyOps_testUnschedulable {value : Option Bool}
    (h : applyOps d (.testUnschedulable value :: ops) = some d') :
    d.unschedulable = value ∧ applyOps d ops = some d' := by
  obtain ⟨_, hs, ht⟩ := Option.bind_eq_some_iff.1 h
  simp only [PatchOp.apply] at hs
  split_ifs at hs with hvl
  cases hs
  exact ⟨hvl, ht⟩

theorem applyOps_testNoAnnotations (h : applyOps d (.testNoAnnotations :: ops) = some d') :
    d.annotations = none ∧ applyOps d ops = some d' := by
  obtain ⟨_, hs, ht⟩ := Option.bind_eq_some_iff.1 h
  simp only [PatchOp.apply] at hs
  split_ifs at hs with hvl
  cases hs
  exact ⟨Option.isNone_iff_eq_none.1 hvl, ht⟩

/-! ## What a patch leaves behind -/

/-- What an operation makes of the value of an annotation. -/
def PatchOp.onKey (k : Str) (v : Option Str) : PatchOp → Option Str
  | .addAnnotations => none
  | .add m value => if k = m.key then some (toValid value) else v
  | .remove m => if k = m.key then none else v
  | _ => v

/-- What an operation makes of the flag. -/
def PatchOp.onFlag (flag : Bool) : PatchOp → Bool
  | .addUnschedulable value => value
  | _ => flag

theorem PatchOp.apply_effect {op : PatchOp} (h : op.apply d = some d') :
    (∀ k, d'.get? k = op.onKey k (d.get? k)) ∧ d'.flag = op.onFlag d.flag := by
  cases op with
  | testNoAnnotations | testUnschedulable =>
    simp only [PatchOp.apply] at h
    split_ifs at h
    cases h
    exact ⟨fun _ => rfl, rfl⟩
  | addAnnotations | addUnschedulable =>
    cases h
    exact ⟨fun _ => rfl, rfl⟩
  | test =>
    obtain ⟨_, -, h⟩ := Option.bind_eq_some_iff.1 h
    split_ifs at h
    cases h
    exact ⟨fun _ => rfl, rfl⟩
  | add m value =>
    obtain ⟨a, ha, rfl⟩ := Option.map_eq_some_iff.1 h
    refine ⟨fun k => ?_, rfl⟩
    have hg : d.get? k = a.get? k := by rw [PatchDoc.get?, ha, Option.bind_some]
    rw [hg]
    refine (a.get?_insert m.key value k).trans ?_
    rw [toValid_eq_self m.validUTF8_key]
    rfl
  | remove m =>
    obtain ⟨a, ha, h⟩ := Option.bind_eq_some_iff.1 h
    split_ifs at h
    cases h
    refine ⟨fun k => ?_, rfl⟩
    have hg : d.get? k = a.get? k := by rw [PatchDoc.get?, ha, Option.bind_some]
    rw [hg]
    exact a.get?_erase m.key k

theorem applyOps_effect {ops : List PatchOp} (h : applyOps d ops = some d') :
    (∀ k, d'.get? k = ops.foldl (fun v op => op.onKey k v) (d.get? k)) ∧
      d'.flag = ops.foldl PatchOp.onFlag d.flag := by
  induction ops generalizing d with
  | nil =>
    cases h
    exact ⟨fun _ => rfl, rfl⟩
  | cons _ _ ih =>
    obtain ⟨_, hop, ht⟩ := Option.bind_eq_some_iff.1 h
    obtain ⟨hget, hg⟩ := PatchOp.apply_effect hop
    obtain ⟨ihget, ihflag⟩ := ih ht
    refine ⟨fun k => ?_, ?_⟩
    · rw [ihget, hget, List.foldl_cons]
    · rw [ihflag, hg, List.foldl_cons]

end KubeNeuron.Platform
