import KubeNeuron.Lib.Names
import KubeNeuron.Lib.Run
import KubeNeuron.Lib.Table
import KubeNeuron.Platform.Node

/-!
# Cordons with owners

The node records the remediations that hold it in an annotation, joined and left by a patch that
tests the value it was computed from. A cordon of an older build has a reason and no owner set.
Every call reads the node, decides (`plan`) and sends a patch; `cordonNext` interleaves the steps of
any number of calls.
-/

namespace KubeNeuron.Platform

open Lib

/-! ## What the annotations say -/

/-- The owner that an untracked cordon stands for. -/
def legacyCordonOwner (reason : Str) : Str := lit "legacy-reason:" ++ reason

/-- `encodeCordonOwners`; an empty set is written as an empty array. -/
def encodeCordonOwners (owners : List Str) : Str := encodeNames owners

def decodeCordonOwners (raw : Str) : Option (List Str) := decodeNames raw

/-- The marks that a node has before its first cordon. -/
def cordonSnapshot (n : KubeNode) : Str :=
  List.intercalate [0x2C]
    ((if n.unschedulable then [lit "unschedulable"] else []) ++
      if (n.get .doNotDisrupt).isSome then [lit "do-not-disrupt"] else [])

/-- `priorMarks`: whether a release keeps the cordon and the pin. A node without a record keeps
both. -/
def priorMarks (n : KubeNode) : Bool × Bool :=
  match n.get .restore with
  | none => (true, true)
  | some record =>
    let parts := splitOn 0x2C record
    (parts.contains (lit "unschedulable"), parts.contains (lit "do-not-disrupt"))

/-- `CordonedNode`, without its name. -/
structure CordonedNode where
  reason : Str
  owners : List Str
  held : Bool
  heldOwners : List Str

namespace CordonedNode

def tracked (c : CordonedNode) : Bool := c.owners.length > 0

def heldBy (c : CordonedNode) (owner : Str) : Bool :=
  if c.tracked then c.heldOwners.contains owner else c.held

end CordonedNode

/-- `cordonedNodeFrom`: nothing for a node that is not ours or cannot be read. -/
def cordonedNodeFrom (n : KubeNode) : Option CordonedNode :=
  if ((n.get .reason).isNone ∧ (n.get .owners).isNone) ∨ n.unschedulable = false then none
  else
    match decodeCordonOwners (n.text .owners), decodeCordonOwners (n.text .heldOwners) with
    | some owners, some heldOwners =>
      some ⟨n.text .reason, owners, (n.get .held).isSome, heldOwners⟩
    | _, _ => none

/-! ## The operations of the patches -/

variable (seen : KubeNode)

/-- The owner set is as it was read. -/
def ownerSetGuard : List PatchOp :=
  if seen.annotations.map.entries = [] then [.testNoAnnotations, .addAnnotations]
  else [.test .owners (seen.get .owners)]

/-- The marks are as they are recorded. -/
def snapshotGuard : List PatchOp :=
  [.testUnschedulable (if seen.unschedulable then some true else none),
    .test .doNotDisrupt (seen.get .doNotDisrupt)]

/-- A patch that removes a missing annotation would fail. -/
def removeOurAnnotationOps : List PatchOp :=
  (Mark.cordonAnnotations.filter fun m => (seen.get m).isSome).map .remove

/-- The removal of the pin, where the record does not keep it. -/
def unpinOps : List PatchOp :=
  if !(priorMarks seen).2 && (seen.get .doNotDisrupt).isSome then [.remove .doNotDisrupt] else []

/-- `dropHeldOwnersOps`, none when the record is corrupt. -/
def dropHeldOwnersOps (leaving : List Str) : Option (List PatchOp) :=
  match seen.get .heldOwners with
  | none => some []
  | some rawHeld =>
    (decodeCordonOwners rawHeld).map fun held =>
      let kept := held.filter fun o => !leaving.contains o
      if kept.length = held.length then []
      else if kept = [] then [.remove .heldOwners]
      else [.add .heldOwners (encodeCordonOwners kept)]

/-- A node that was taken over keeps its flag and its pin. -/
def restoreOps : List PatchOp :=
  if (seen.get .handoff).isSome then
    .test .handoff (seen.get .handoff) :: removeOurAnnotationOps seen
  else
    .test .handoff none :: .addUnschedulable (priorMarks seen).1 ::
      (removeOurAnnotationOps seen ++ unpinOps seen)

/-! ## The calls -/

inductive Call where
  | cordonForOwner (owner reason : Str)
  | releaseCordonOwners (owners : List Str)
  | uncordonIfReason (expectedReason : Str)
  | markCordonHeldIfOwner (owner : Str)
  | markCordonHeldIfReason (expectedReason : Str)
  deriving DecidableEq

/-- What a call does after its read: it is done, with the answer of a mark; it goes on as another
call that reads for itself; or it sends a patch, which some calls try again. -/
inductive Plan where
  | done (marked : Bool)
  | again (call : Call)
  | write (ops : List PatchOp) (retries : Bool)

/-- The owners that a join finds on the node and the held owners it seeds. On a node without an
owner set they are the holder that its reason names: the joiner itself where the reason is its
own. -/
def seedOwners (owners : List Str) (owner reason : Str) : List Str × List Str :=
  match seen.get .owners, seen.get .reason with
  | none, some prior =>
    let priorOwner := if prior ≠ reason then legacyCordonOwner prior else owner
    (if prior ≠ reason then owners ++ [priorOwner] else owners,
      if (seen.get .held).isSome then [priorOwner] else [])
  | _, _ => (owners, [])

/-- The owners with the joiner among them. -/
def withOwner (owners : List Str) (owner : Str) : List Str :=
  if owners.contains owner then owners else owners ++ [owner]

def joinWrites (owner reason : Str) (found : List Str) (seen : KubeNode) : List PatchOp :=
  let seeded := seedOwners seen found owner reason
  [.add .owners (encodeCordonOwners (withOwner seeded.1 owner)), .add .reason reason,
    .add .doNotDisrupt (lit "true"), .addUnschedulable true] ++
  (if seeded.2 = [] then [] else [.add .heldOwners (encodeCordonOwners seeded.2)]) ++
  if (seen.get .restore).isSome then [] else [.add .restore (cordonSnapshot seen)]

def cordonForOwner (owner reason : Str) (seen : KubeNode) : Plan :=
  if owner = [] then .done false
  else
    match decodeCordonOwners (seen.text .owners) with
    | none => .done false
    | some found =>
      .write (ownerSetGuard seen ++
        ((if (seen.get .restore).isSome then [] else snapshotGuard seen) ++
        joinWrites owner reason found seen)) true

/-- The flag of a node that was taken over stays. -/
def clearOurAnnotations : Plan :=
  if removeOurAnnotationOps seen = [] then .done false
  else .write (.test .handoff (seen.get .handoff) :: removeOurAnnotationOps seen) false

/-- A cordon without an owner set is released by its reason. -/
def releaseUntrackedCordon (owners : List Str) (seen : KubeNode) : Plan :=
  match seen.get .reason with
  | none => .done false
  | some reason =>
    if owners.contains (legacyCordonOwner reason) then
      if (seen.get .handoff).isSome then clearOurAnnotations seen
      else .again (.uncordonIfReason reason)
    else .done false

def releaseCordonOwners (owners : List Str) (seen : KubeNode) : Plan :=
  match seen.get .owners with
  | none => releaseUntrackedCordon owners seen
  | some raw =>
    match decodeCordonOwners raw with
    | none => .done false
    | some held =>
      let remaining := held.filter fun o => !owners.contains o
      if remaining.length = held.length then .done false
      else if remaining = [] then
        .write (.test .owners (some raw) :: .test .heldOwners (seen.get .heldOwners) ::
          restoreOps seen) true
      else
        match dropHeldOwnersOps seen owners with
        | none => .done false
        | some dropped =>
          .write (.test .owners (some raw) :: .test .heldOwners (seen.get .heldOwners) ::
            .add .owners (encodeCordonOwners remaining) :: dropped) true

def uncordonIfReason (expectedReason : Str) (seen : KubeNode) : Plan :=
  if seen.text .reason ≠ expectedReason ∨ (seen.get .owners).isSome then .done false
  else
    .write (.test .reason (some expectedReason) :: .addUnschedulable (priorMarks seen).1 ::
      .remove .reason ::
      ((Mark.cordonAnnotations.filter fun m => m ≠ .reason && (seen.get m).isSome).map .remove ++
        unpinOps seen)) false

def markCordonHeldIfOwner (owner : Str) (seen : KubeNode) : Plan :=
  match seen.get .owners with
  | none => .done false
  | some raw =>
    match decodeCordonOwners raw, decodeCordonOwners (seen.text .heldOwners) with
    | some owners, some held =>
      if !owners.contains owner then .done false
      else if held.contains owner then .done true
      else
        .write [.test .owners (some raw), .test .heldOwners (seen.get .heldOwners),
          .add .heldOwners (encodeCordonOwners (held ++ [owner])), .add .held (lit "true")] false
    | _, _ => .done false

def markCordonHeldIfReason (expectedReason : Str) (seen : KubeNode) : Plan :=
  if seen.text .reason ≠ expectedReason ∨ (seen.get .owners).isSome then .done false
  else .write [.test .reason (some expectedReason), .add .held (lit "true")] false

/-- What a call decides on the node it has read. -/
def plan : Call → KubeNode → Plan
  | .cordonForOwner owner reason => cordonForOwner owner reason
  | .releaseCordonOwners owners => releaseCordonOwners owners
  | .uncordonIfReason expectedReason => uncordonIfReason expectedReason
  | .markCordonHeldIfOwner owner => markCordonHeldIfOwner owner
  | .markCordonHeldIfReason expectedReason => markCordonHeldIfReason expectedReason

/-! ## Interleavings -/

/-- A call on its way: the attempts it has left, and the node it has read. -/
structure Flight where
  call : Call
  left : Nat
  seen : Option KubeNode

/-- A patch that was applied: the call, the node it had read, and the node before and after. -/
structure Landed where
  call : Call
  seen : KubeNode
  before : KubeNode
  after : KubeNode

/-- The node, the calls on their way, the patches that were applied (the newest first), and the
holds that a mark has answered for and nobody has released since. -/
structure CordonWorld where
  node : KubeNode
  flights : List Flight
  writes : List Landed
  held : List Str

/-- A node that no call has touched yet. -/
def CordonWorld.start (n : KubeNode) : CordonWorld := ⟨n, [], [], []⟩

/-- What happens to a patch: its sender learns the outcome, the server refuses it for a conflict, or
the answer to a patch that was applied is lost. -/
inductive Fate where
  | answered
  | refused
  | lost
  deriving DecidableEq

/-- What others write to a node. -/
inductive Outside where
  | annotate (key value : Str)
  | unannotate (key : Str)
  | schedule (unschedulable : Bool)

/-- The node after somebody else's write. -/
def Outside.apply (n : KubeNode) : Outside → KubeNode
  | .annotate key value => { n with annotations := n.annotations.insert key value }
  | .unannotate key => { n with annotations := n.annotations.erase key }
  | .schedule unschedulable => { n with unschedulable }

/-- The write touches no annotation of a cordon. -/
def Outside.foreign : Outside → Bool
  | .annotate key _ => (.handoff :: Mark.cordonAnnotations).all fun m => m.key ≠ toValid key
  | .unannotate key => (.handoff :: Mark.cordonAnnotations).all fun m => m.key ≠ key
  | .schedule _ => true

theorem Outside.get_of_foreign {o : Outside} (h : o.foreign = true) (n : KubeNode) {m : Mark}
    (hm : m ∈ .handoff :: Mark.cordonAnnotations) : (o.apply n).get m = n.get m := by
  cases o with
  | annotate key value =>
    have hne : m.key ≠ toValid key := of_decide_eq_true (List.all_eq_true.1 h m hm)
    exact (n.annotations.get?_insert key value m.key).trans (if_neg hne)
  | unannotate key =>
    have hne : m.key ≠ key := of_decide_eq_true (List.all_eq_true.1 h m hm)
    exact (n.annotations.get?_erase key m.key).trans (if_neg hne)
  | schedule => rfl

/-- The steps. A call that is abandoned has failed or was lost with its process. -/
inductive CordonOp where
  | begin (call : Call)
  | read (i : Nat)
  | patch (i : Nat) (fate : Fate)
  | abandon (i : Nat)
  | outside (o : Outside)

/-- The hold that a mark is about. -/
def Call.marks : Call → List Str
  | .markCordonHeldIfOwner owner => [owner]
  | .markCordonHeldIfReason reason => [legacyCordonOwner reason]
  | _ => []

/-- The holds after a patch of the call. The first join with the reason of the cordon gives its
holder a new name. -/
def Call.settle (held : List Str) : Call → List Str
  | .cordonForOwner owner reason =>
    if seen.get .owners = none ∧ seen.get .reason = some reason then
      held.map fun h => if h = legacyCordonOwner reason then toValid owner else h
    else held
  | .releaseCordonOwners owners => held.filter fun h => !owners.contains h
  | .uncordonIfReason reason => held.filter fun h => h ≠ legacyCordonOwner reason
  | _ => held

def cordonPatchAttempts : Nat := 4

namespace CordonWorld

variable (w : CordonWorld)

/-- A call ends. -/
def leave (i : Nat) : CordonWorld := { w with flights := w.flights.eraseIdx i }

/-- A call has read the node. -/
def look (i : Nat) (f : Flight) : CordonWorld :=
  match plan f.call w.node with
  | .done marked => { w.leave i with held := (if marked then f.call.marks else []) ++ w.held }
  | .again call => { w with flights := w.flights.set i ⟨call, f.left, none⟩ }
  | .write _ _ => { w with flights := w.flights.set i { f with seen := some w.node } }

/-- A patch is applied. -/
def land (i : Nat) (f : Flight) (seen after : KubeNode) (fate : Fate) : CordonWorld :=
  { w.leave i with
    node := after
    writes := ⟨f.call, seen, w.node, after⟩ :: w.writes
    held := (if fate = .lost then [] else f.call.marks) ++ f.call.settle seen w.held }

/-- A patch has failed: the call reads again if it may. -/
def fail (i : Nat) (f : Flight) (retries : Bool) : CordonWorld :=
  if retries ∧ 1 < f.left then
    { w with flights := w.flights.set i { f with left := f.left - 1, seen := none } }
  else w.leave i

def arrive (i : Nat) (f : Flight) (seen : KubeNode) (ops : List PatchOp) (retries : Bool)
    (fate : Fate) : CordonWorld :=
  match if fate = .refused then none else applyPatch w.node ops with
  | none => w.fail i f retries
  | some after => w.land i f seen after fate

end CordonWorld

def cordonNext (w : CordonWorld) : CordonOp → Option CordonWorld
  | .begin call => some { w with flights := w.flights ++ [⟨call, cordonPatchAttempts, none⟩] }
  | .read i =>
    match w.flights[i]? with
    | some ⟨call, left, none⟩ => some (w.look i ⟨call, left, none⟩)
    | _ => none
  | .patch i fate =>
    match w.flights[i]? with
    | some ⟨call, left, some seen⟩ =>
      match plan call seen with
      | .write ops retries => some (w.arrive i ⟨call, left, some seen⟩ seen ops retries fate)
      | _ => none
    | _ => none
  | .abandon i => if i < w.flights.length then some (w.leave i) else none
  | .outside o => some { w with node := o.apply w.node }

/-! ## What a step does -/

/-- What a step does. -/
inductive CordonEffect (w : CordonWorld) : CordonOp → CordonWorld → Prop
  | begun (call : Call) :
      CordonEffect w (.begin call) { w with
        flights := w.flights ++ [⟨call, cordonPatchAttempts, none⟩] }
  | decided {i : Nat} {f : Flight} {marked : Bool} (hf : w.flights[i]? = some f)
      (hplan : plan f.call w.node = .done marked) :
      CordonEffect w (.read i)
        { w.leave i with held := (if marked then f.call.marks else []) ++ w.held }
  | redirected {i : Nat} {f : Flight} {call : Call} (hf : w.flights[i]? = some f)
      (hplan : plan f.call w.node = .again call) :
      CordonEffect w (.read i) { w with flights := w.flights.set i ⟨call, f.left, none⟩ }
  | looked {i : Nat} {f : Flight} (hf : w.flights[i]? = some f) :
      CordonEffect w (.read i) { w with flights := w.flights.set i { f with seen := some w.node } }
  | landed {i : Nat} {f : Flight} {seen after : KubeNode} {ops : List PatchOp} {retries : Bool}
      {fate : Fate} (hfate : fate ≠ .refused) (hf : w.flights[i]? = some f)
      (hseen : f.seen = some seen) (hplan : plan f.call seen = .write ops retries)
      (hpatch : applyPatch w.node ops = some after) :
      CordonEffect w (.patch i fate) (w.land i f seen after fate)
  | failed {i : Nat} {f : Flight} {retries : Bool} {fate : Fate} (hf : w.flights[i]? = some f) :
      CordonEffect w (.patch i fate) (w.fail i f retries)
  | abandoned (i : Nat) : CordonEffect w (.abandon i) (w.leave i)
  | outside (o : Outside) : CordonEffect w (.outside o) { w with node := o.apply w.node }

variable {w w' : CordonWorld} {op : CordonOp}

theorem cordonEffect_of_look {i : Nat} {f : Flight} (hf : w.flights[i]? = some f) :
    CordonEffect w (.read i) (w.look i f) := by
  cases hp : plan f.call w.node with
  | done =>
    rw [CordonWorld.look, hp]
    exact .decided hf hp
  | again =>
    rw [CordonWorld.look, hp]
    exact .redirected hf hp
  | write =>
    rw [CordonWorld.look, hp]
    exact .looked hf

theorem cordonEffect_of_next : cordonNext w op = some w' → CordonEffect w op w' := by
  fun_cases cordonNext w op with
  | case1 call =>
    rintro ⟨⟩
    exact .begun call
  | case2 i _ _ hf =>
    rintro ⟨⟩
    exact cordonEffect_of_look hf
  | case4 i fate _ _ _ hf _ _ hp =>
    rintro ⟨⟩
    rw [CordonWorld.arrive]
    split
    · exact .failed hf
    rename_i after hpat
    split_ifs at hpat with hfate
    exact .landed hfate hf rfl hp hpat
  | case7 i =>
    rintro ⟨⟩
    exact .abandoned i
  | case9 o =>
    rintro ⟨⟩
    exact .outside o
  | _ => rintro ⟨⟩

/-- Where a flight comes from: it was there before, it has just begun or turned into another call,
or it has just read the node. -/
inductive FlightFrom (w : CordonWorld) (op : CordonOp) (f : Flight) : Prop
  | kept (g : Flight) (hg : g ∈ w.flights) (hcall : f.call = g.call)
      (hseen : f.seen = g.seen ∨ f.seen = none ∨ f.seen = some w.node)
  | begun (hop : op = .begin f.call) (hseen : f.seen = none)
  | redirected (g : Flight) (hg : g ∈ w.flights) (hplan : plan g.call w.node = .again f.call)
      (hseen : f.seen = none)

theorem FlightFrom.of_mem {f : Flight} (h : f ∈ w.flights) : FlightFrom w op f :=
  .kept f h rfl (.inl rfl)

theorem flightFrom_of_effect (h : CordonEffect w op w') {f : Flight} (hf : f ∈ w'.flights) :
    FlightFrom w op f := by
  cases h with
  | begun =>
    rcases List.mem_append.1 hf with hf | hf
    · exact .of_mem hf
    · obtain rfl := List.mem_singleton.1 hf
      exact .begun rfl rfl
  | redirected hg hp =>
    rcases List.mem_or_eq_of_mem_set hf with hf | rfl
    · exact .of_mem hf
    · exact .redirected _ (List.mem_of_getElem? hg) hp rfl
  | looked hg =>
    rcases List.mem_or_eq_of_mem_set hf with hf | rfl
    · exact .of_mem hf
    · exact .kept _ (List.mem_of_getElem? hg) rfl (.inr (.inr rfl))
  | failed hg =>
    rw [CordonWorld.fail] at hf
    split_ifs at hf
    · rcases List.mem_or_eq_of_mem_set hf with hf | rfl
      · exact .of_mem hf
      · exact .kept _ (List.mem_of_getElem? hg) rfl (.inr (.inl rfl))
    · exact .of_mem (List.mem_of_mem_eraseIdx hf)
  | outside => exact .of_mem hf
  | _ => exact .of_mem (List.mem_of_mem_eraseIdx hf)

theorem flights_keep {P : KubeNode → Prop} {Q : Call → Prop} (he : CordonEffect w op w')
    (hd : P w.node) (hs : ∀ f ∈ w.flights, ∀ n, f.seen = some n → P n)
    (hcalls : ∀ f ∈ w.flights, Q f.call)
    (hbegin : ∀ call, op = .begin call → Q call)
    (hagain : ∀ f ∈ w.flights, ∀ call, plan f.call w.node = .again call → Q call) :
    (∀ f ∈ w'.flights, ∀ n, f.seen = some n → P n) ∧ ∀ f ∈ w'.flights, Q f.call := by
  constructor
  · intro f hf n hn
    cases flightFrom_of_effect he hf with
    | kept g hg _ hm =>
      rcases hm with hm | hm | hm
      · exact hs g hg n (hm ▸ hn)
      · rw [hm] at hn
        cases hn
      · cases hm.symm.trans hn
        exact hd
    | begun _ h0 | redirected _ _ _ h0 =>
      rw [h0] at hn
      cases hn
  · intro f hf
    cases flightFrom_of_effect he hf with
    | kept g hg hc => exact hc ▸ hcalls g hg
    | begun hop => exact hbegin _ hop
    | redirected g hg hp => exact hagain g hg _ hp

theorem plan_again {n : KubeNode} {call call' : Call} : plan call n = .again call' →
    ∃ owners reason, call = .releaseCordonOwners owners ∧ n.get .owners = none ∧
      n.get .reason = some reason ∧ n.get .handoff = none ∧ call' = .uncordonIfReason reason := by
  cases call with
  | releaseCordonOwners owners =>
    rw [plan]
    fun_cases releaseCordonOwners owners n with
    | case1 ho =>
      fun_cases releaseUntrackedCordon owners n with
      | case2 => fun_cases clearOurAnnotations n <;> rintro ⟨⟩
      | case3 reason hw _ htk =>
        rintro ⟨⟩
        exact ⟨owners, reason, rfl, ho, hw, by simpa using htk, rfl⟩
      | _ => rintro ⟨⟩
    | _ => rintro ⟨⟩
  | cordonForOwner owner reason =>
    rw [plan]
    fun_cases cordonForOwner owner reason n <;> rintro ⟨⟩
  | uncordonIfReason reason =>
    rw [plan]
    fun_cases uncordonIfReason reason n <;> rintro ⟨⟩
  | markCordonHeldIfOwner owner =>
    rw [plan]
    fun_cases markCordonHeldIfOwner owner n <;> rintro ⟨⟩
  | markCordonHeldIfReason reason =>
    rw [plan]
    fun_cases markCordonHeldIfReason reason n <;> rintro ⟨⟩

end KubeNeuron.Platform
