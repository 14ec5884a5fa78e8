import KubeNeuron.Lib.KeyMap
import KubeNeuron.Lib.Run
import Mathlib.Data.Finset.Image

/-!
# Cordons on bare metal

The controller keeps the owners of each cordon in memory and in a journal file, and a hook takes the
node out of service and back. A write of the journal can fail before or after its rename, a hook can
fail, and the process can die anywhere; a power loss can bring back a file whose rename was not
synced.

The journal is JSON, so it keeps names that are valid UTF-8. For such names no hold is lost
(`holds_survive`).
-/

namespace KubeNeuron.Baremetal

open Lib

inductive Phase where
  | cordoned
  | cordoning
  | uncordoning
  deriving DecidableEq

structure CordonState where
  owners : Finset Str
  heldOwners : Finset Str
  phase : Phase

/-- The cordons by node, in memory or in a journal file. A missing file is the empty journal. -/
abbrev Cordons := KeyMap CordonState

/-- What the journal keeps of the cordons: the names as JSON carries them. -/
def journal (c : Cordons) : Cordons :=
  KeyMap.ofEntries (c.entries.map fun e =>
    (toValid e.1, ⟨e.2.owners.image toValid, e.2.heldOwners.image toValid, e.2.phase⟩))

def loadRecord (r : CordonState) : CordonState :=
  ⟨r.owners.erase [], r.heldOwners.filter (· ∈ r.owners.erase []), r.phase⟩

/-- `loadCordonState`; it refuses a record that is not settled and one without owners. -/
def loadCordonState (file : Cordons) : Option Cordons :=
  if ∀ e ∈ file.entries, e.2.phase = .cordoned ∧ (loadRecord e.2).owners ≠ ∅ then
    some (file.mapValues loadRecord)
  else none

/-! ## Calls -/

/-- How a write of the journal or a run of a hook ends. What fails or is cut off by a crash may have
landed, except that a hook that fails has no effect. -/
inductive Fate where
  | ok
  | failed (landed : Bool)
  | crashed (landed : Bool)
  deriving DecidableEq

/-- The journal file and those behind it after a write. A success has synced the directory. -/
def Fate.land (file : Cordons) (files : List Cordons) : Fate → List Cordons
  | .ok => [file]
  | .failed true | .crashed true => file :: files
  | _ => files

def Fate.left (done undone : Cordons) : Fate → Option Cordons
  | .ok => some done
  | .failed _ => some undone
  | .crashed _ => none

/-- The two writes of a call and the hook between them. -/
structure Fates where
  first : Fate
  hook : Fate
  second : Fate

/-- The memory, if the process is up; the journal file, and behind it the files that a power loss
may bring back; the nodes that are physically cordoned; the owners whose cordon succeeded and whose
release was not requested since; and the owners in memory at each run of the uncordon hook. -/
structure Machine where
  memory : Option Cordons
  files : List Cordons
  physical : Finset Str
  holds : Finset (Str × Str)
  uncordons : List (Finset Str)

namespace Machine

/-- `persistCordonStateLocked`, and the memory afterwards. -/
def persist (w : Machine) (fate : Fate) (c undone : Cordons) : Machine :=
  { w with files := fate.land (journal c) w.files, memory := fate.left c undone }

/-- The answer of a cordon call. -/
def grant (w : Machine) (fate : Fate) (node owner : Str) : Machine :=
  if fate = .ok then { w with holds := insert (node, owner) w.holds } else w

/-- A call that runs the hook: the record of the intention is written first, and taken back when the
hook fails. `moved` are the cordoned nodes after the hook, `ran` the owners when it uncordons. -/
def throughHook (w : Machine) (x : Fates) (mid c : Cordons) (ran : List (Finset Str))
    (moved : Finset Str) (finish : Machine → Machine) : Machine :=
  let w' := w.persist x.first mid c
  if x.first ≠ .ok then w'
  else
    let w' := { w' with uncordons := ran ++ w.uncordons }
    match x.hook with
    | .ok => finish { w' with physical := moved }
    | .failed _ => w'.persist x.second c c
    | .crashed landed =>
      { w' with memory := none, physical := if landed then moved else w.physical }

/-- The way down of a node that is not cordoned. -/
def goDown (w : Machine) (x : Fates) (node owner : Str) (c : Cordons) : Machine :=
  let s := (c.get? node).getD ⟨∅, ∅, .cordoning⟩
  let down (phase : Phase) := c.insert node ⟨insert owner s.owners, s.heldOwners, phase⟩
  w.throughHook x (down .cordoning) c [] (insert node w.physical) fun w =>
    -- the physical cordon stands, so a failed write leaves the holder in memory
    (w.persist x.second (down .cordoned) (down .cordoned)).grant x.second node owner

def cordonForOwner (w : Machine) (x : Fates) (node owner : Str) (c : Cordons) : Machine :=
  if owner = [] then w
  else
    match c.get? node with
    | some s =>
      if s.phase = .cordoned then
        -- an owner that holds already leaves the set as it is
        (w.persist x.first (c.insert node { s with owners := insert owner s.owners }) c).grant
          x.first node owner
      else w.goDown x node owner c
    | none => w.goDown x node owner c

/-- The way back of a node whose last owner has left. -/
def giveBack (w : Machine) (x : Fates) (node : Str) (left : CordonState) (c : Cordons) :
    Machine :=
  w.throughHook x (c.insert node { left with phase := .uncordoning }) c [left.owners]
    (w.physical.erase node) fun w =>
      -- a failed write leaves a record that a restart refuses
      w.persist x.second (c.erase node) (c.insert node ⟨∅, ∅, .uncordoning⟩)

def releaseCordonOwners (w : Machine) (x : Fates) (node : Str) (owners : List Str)
    (c : Cordons) : Machine :=
  let w := { w with holds := w.holds.filter fun h => ¬(h.1 = node ∧ h.2 ∈ owners) }
  match c.get? node with
  | none => w
  | some s =>
    let left : CordonState :=
      ⟨s.owners.filter (· ∉ owners), s.heldOwners.filter (· ∉ owners), s.phase⟩
    if left.owners ≠ ∅ then w.persist x.first (c.insert node { left with phase := .cordoned }) c
    else w.giveBack x node left c

def markCordonHeldIfOwner (w : Machine) (x : Fates) (node owner : Str) (c : Cordons) :
    Machine :=
  match c.get? node with
  | none => w
  | some s =>
    if owner ∉ s.owners ∨ owner ∈ s.heldOwners then w
    else w.persist x.first (c.insert node { s with heldOwners := insert owner s.heldOwners }) c

end Machine

inductive Op where
  | cordon (x : Fates) (node owner : Str)
  | release (x : Fates) (node : Str) (owners : List Str)
  | mark (x : Fates) (node owner : Str)
  | restart (lost : Nat)

/-- A call needs a process; a restart reads the file, after a crash that may have lost the renames
that were not synced. -/
def next (w : Machine) : Op → Option Machine
  | .cordon x node owner => w.memory.map fun c => w.cordonForOwner x node owner c
  | .release x node owners => w.memory.map fun c => w.releaseCordonOwners x node owners c
  | .mark x node owner => w.memory.map fun c => w.markCordonHeldIfOwner x node owner c
  | .restart lost =>
    (w.files.drop lost).head?.map fun file =>
      { w with files := w.files.drop lost, memory := loadCordonState file }

def start (physical : Finset Str) : Machine := ⟨some .empty, [.empty], physical, ∅, []⟩

/-- The names of the node and of a new owner are valid UTF-8. -/
def Op.Utf8 : Op → Prop
  | .cordon _ node owner => ValidUTF8 node ∧ ValidUTF8 owner
  | _ => True

/-! ## The invariant -/

/-- The owners of a record are names that JSON carries, and the held ones are among them. -/
def CordonState.Named (s : CordonState) : Prop :=
  [] ∉ s.owners ∧ (∀ o ∈ s.owners, ValidUTF8 o) ∧ s.heldOwners ⊆ s.owners

/-- What memory and every journal file keep: names that JSON carries, a physical cordon behind every
settled record, and every hold. -/
structure Backed (physical : Finset Str) (holds : Finset (Str × Str)) (c : Cordons) :
    Prop where
  named : ∀ n s, c.get? n = some s → ValidUTF8 n ∧ s.Named
  down : ∀ n s, c.get? n = some s → s.phase = .cordoned → n ∈ physical
  held : ∀ n o, (n, o) ∈ holds → ∃ s, c.get? n = some s ∧ s.phase = .cordoned ∧ o ∈ s.owners

/-- In memory a record with owners is settled. -/
def Settled (c : Cordons) : Prop :=
  ∀ n s, c.get? n = some s → s.owners ≠ ∅ → s.phase = .cordoned

structure Stored (w : Machine) : Prop where
  some_file : w.files ≠ []
  files : ∀ f ∈ w.files, Backed w.physical w.holds f
  empty : ∀ owners ∈ w.uncordons, owners = ∅

structure Inv (w : Machine) : Prop extends Stored w where
  memory : ∀ c, w.memory = some c → Backed w.physical w.holds c ∧ Settled c

variable {w w' : Machine} {c d : Cordons} {node owner : Str} {s : CordonState} {x : Fates}
  {fate : Fate} {physical physical' : Finset Str} {holds : Finset (Str × Str)}

section

variable (h : Backed physical holds c)
include h

theorem journal_eq : journal c = c := by
  have hs : ∀ e ∈ c.entries,
      (toValid e.1,
        CordonState.mk (e.2.owners.image toValid) (e.2.heldOwners.image toValid) e.2.phase) =
        e := by
    intro e he
    obtain ⟨hn, -, hw, hh⟩ := h.named e.1 e.2 (KeyMap.mem_entries.1 he)
    have himage : ∀ t : Finset Str, t ⊆ e.2.owners → t.image toValid = t := by
      intro t ht
      rw [Finset.image_congr fun o ho => toValid_eq_self (hw o (ht ho))]
      exact Finset.image_id
    rw [toValid_eq_self hn, himage _ (Finset.Subset.refl _), himage _ hh]
  rw [journal, List.map_congr_left hs, List.map_id']
  exact KeyMap.ofEntries_entries c

/-- **A restart that does not refuse** recovers exactly what is recorded. -/
theorem load_exact (hload : loadCordonState c = some d) : d = c ∧ Settled c := by
  obtain ⟨hs, rfl⟩ := guarded hload
  refine ⟨KeyMap.ext_get? fun n => ?_, fun n s hn _ => ?_⟩
  · rw [KeyMap.get?_mapValues]
    cases hn : c.get? n with
    | none => rfl
    | some s =>
      obtain ⟨-, hblank, -, hh⟩ := h.named n s hn
      simp only [Option.map_some, loadRecord, Finset.erase_eq_of_notMem hblank,
        Finset.filter_true_of_mem fun _ ho => hh ho]
  · exact (hs _ (KeyMap.mem_entries.2 hn)).1

/-- A record put under a node is backed when it has the holds of the node. The physical state of the
other nodes stays. -/
theorem Backed.insert
    (hothers : ∀ n, n ≠ node → n ∈ physical → n ∈ physical') (hnamed : ValidUTF8 node ∧ s.Named)
    (hdown : s.phase = .cordoned → node ∈ physical')
    (hh : ∀ o, (node, o) ∈ holds → s.phase = .cordoned ∧ o ∈ s.owners) :
    Backed physical' holds (c.insert node s) := by
  refine ⟨KeyMap.forall_insert (fun n t _ => h.named n t) hnamed, ?_, fun n o ho => ?_⟩
  · exact KeyMap.forall_insert (fun n t hne hn ht => hothers n hne (h.down n t hn ht)) hdown
  rw [KeyMap.get?_insert]
  split_ifs with heq
  · exact ⟨s, rfl, hh o (heq ▸ ho)⟩
  · exact h.held n o ho

end

theorem Settled.insert (h : Settled c) (hs : s.owners ≠ ∅ → s.phase = .cordoned) :
    Settled (c.insert node s) :=
  KeyMap.forall_insert (fun n t _ => h n t) hs

theorem Fate.mem_land {f g : Cordons} {files : List Cordons} (h : f ∈ fate.land g files) :
    f = g ∨ f ∈ files := by
  unfold Fate.land at h
  split at h
  · exact .inl (List.mem_singleton.1 h)
  · exact List.mem_cons.1 h
  · exact List.mem_cons.1 h
  · exact .inr h

theorem Stored.persist (h : Stored w) (hc : Backed w.physical w.holds c) :
    Stored (w.persist fate c d) := by
  refine ⟨?_, fun f hf => ?_, h.empty⟩
  · show fate.land _ _ ≠ []
    unfold Fate.land
    split
    all_goals first | exact List.cons_ne_nil _ _ | exact h.some_file
  · rcases Fate.mem_land hf with rfl | hf
    · exact (journal_eq hc).symm ▸ hc
    · exact h.files f hf

theorem Inv.persist (h : Stored w) (hc : Backed w.physical w.holds c)
    (hs : fate = .ok → Settled c) (hd : Backed w.physical w.holds d) (hd' : Settled d) :
    Inv (w.persist fate c d) := by
  refine ⟨h.persist hc, fun e he => ?_⟩
  cases fate with
  | ok => exact Option.some.inj he ▸ ⟨hc, hs rfl⟩
  | failed => exact Option.some.inj he ▸ ⟨hd, hd'⟩
  | crashed => cases he

/-- A cordon that is granted was written. -/
theorem Inv.grant (h : Stored w) (hc : Backed w.physical w.holds c) (hc' : Settled c)
    (hd : Backed w.physical w.holds d) (hd' : Settled d) (hs : c.get? node = some s)
    (hph : s.phase = .cordoned) (hw : owner ∈ s.owners) :
    Inv ((w.persist fate c d).grant fate node owner) := by
  rw [Machine.grant]
  split_ifs with hok
  · subst hok
    have hbacked : Backed w.physical (Insert.insert (node, owner) w.holds) c := by
      refine ⟨hc.named, hc.down, fun n o ho => ?_⟩
      rcases Finset.mem_insert.1 ho with heq | ho
      · cases heq
        exact ⟨s, hs, hph, hw⟩
      · exact hc.held n o ho
    refine ⟨⟨List.cons_ne_nil _ _, fun f hf => ?_, h.empty⟩, fun e he => ?_⟩
    · rw [List.mem_singleton.1 hf, journal_eq hbacked]
      exact hbacked
    · cases he
      exact ⟨hbacked, hc'⟩
  · exact .persist h hc (fun _ => hc') hd hd'

/-! ## The calls -/

theorem CordonState.Named.join (h : s.Named) (hw : ValidUTF8 owner) (hblank : owner ≠ [])
    (phase : Phase) : CordonState.Named ⟨Insert.insert owner s.owners, s.heldOwners, phase⟩ := by
  obtain ⟨he, ho, hh⟩ := h
  refine ⟨?_, ?_, hh.trans (Finset.subset_insert _ _)⟩
  · simp [hblank.symm, he]
  · simpa [hw] using ho

theorem CordonState.Named.leave (h : s.Named) (owners : List Str) (phase : Phase) :
    CordonState.Named ⟨s.owners.filter (· ∉ owners), s.heldOwners.filter (· ∉ owners), phase⟩ := by
  obtain ⟨he, hw, hh⟩ := h
  refine ⟨fun hb => he (Finset.mem_of_mem_filter _ hb), fun o ho => ?_,
    Finset.filter_subset_filter _ hh⟩
  exact hw o (Finset.mem_of_mem_filter _ ho)

theorem Backed.erase (h : Backed physical holds c) (hf : ∀ o, (node, o) ∉ holds) :
    Backed (physical.erase node) holds (c.erase node) := by
  refine ⟨fun n s hn => ?_, fun n s hn hs => ?_, fun n o ho => ?_⟩
  · exact h.named n s (KeyMap.get?_erase_some.1 hn).1
  · obtain ⟨hn, hne⟩ := KeyMap.get?_erase_some.1 hn
    exact Finset.mem_erase.2 ⟨hne, h.down n s hn hs⟩
  obtain ⟨s, hs, hin⟩ := h.held n o ho
  refine ⟨s, KeyMap.get?_erase_some.2 ⟨hs, ?_⟩, hin⟩
  rintro rfl
  exact hf o ho

section

variable (h : Inv w)
include h

section

variable (hc : w.memory = some c)
include hc

/-- What a call through the hook needs: an intention that has every hold, and a physical state that
agrees with it. -/
theorem Inv.throughHook {mid : Cordons}
    (hmid : Backed w.physical w.holds mid) {ran : List (Finset Str)} (hran : ∀ o ∈ ran, o = ∅)
    {moved : Finset Str} (hmoved : Backed moved w.holds mid) {finish : Machine → Machine}
    (hfinish : ∀ w', Stored w' → w'.physical = moved → w'.holds = w.holds → Inv (finish w')) :
    Inv (w.throughHook x mid c ran moved finish) := by
  obtain ⟨hb, hs⟩ := h.memory c hc
  have hm : ∀ o ∈ ran ++ w.uncordons, o = ∅ := by
    intro o ho
    exact (List.mem_append.1 ho).elim (hran o) (h.empty o)
  simp only [Machine.throughHook]
  split_ifs with ht
  · exact .persist h.toStored hmid (fun hok => absurd hok ht) hb hs
  -- the intention is the only file left, and it agrees with either physical state
  rw [Decidable.not_not.1 ht]
  have hl : ∀ {p}, Backed p w.holds mid → ∀ f ∈ [journal mid], Backed p w.holds f := by
    intro p hp f hf
    rw [List.mem_singleton.1 hf, journal_eq hp]
    exact hp
  split
  · exact hfinish _ ⟨List.cons_ne_nil _ _, hl hmoved, hm⟩ rfl rfl
  · exact .persist ⟨List.cons_ne_nil _ _, hl hmid, hm⟩ hb (fun _ => hs) hb hs
  next landed _ =>
    refine ⟨⟨List.cons_ne_nil _ _, hl ?_, hm⟩, fun _ he => by cases he⟩
    cases landed with
    | false => exact hmid
    | true => exact hmoved

theorem Inv.goDown (hup : ∀ s, c.get? node = some s → s.phase ≠ .cordoned) (hn : ValidUTF8 node)
    (howner : ValidUTF8 owner) (hblank : owner ≠ []) : Inv (w.goDown x node owner c) := by
  obtain ⟨hb, ht⟩ := h.memory c hc
  have hf : ∀ o, (node, o) ∉ w.holds := by
    intro o ho
    obtain ⟨s, hs, hph, -⟩ := hb.held node o ho
    exact hup s hs hph
  have hnamed : ((c.get? node).getD ⟨∅, ∅, .cordoning⟩).Named := by
    cases hs : c.get? node with
    | none => exact ⟨Finset.notMem_empty _, by simp, Finset.Subset.refl _⟩
    | some s => exact (hb.named node s hs).2
  have hj := hnamed.join howner hblank
  have hbegun : ∀ p, (∀ n, n ≠ node → n ∈ w.physical → n ∈ p) → Backed p w.holds _ := fun p hp =>
    hb.insert hp ⟨hn, hj .cordoning⟩ (fun hs => by cases hs) fun o ho => absurd ho (hf o)
  simp only [Machine.goDown]
  refine h.throughHook hc (hbegun _ fun _ _ => id) (List.forall_mem_nil _)
    (hbegun _ fun _ _ => Finset.mem_insert_of_mem) fun w' hw' hphys hh => ?_
  have hdown := hb.insert (fun _ _ => Finset.mem_insert_of_mem) ⟨hn, hj .cordoned⟩
    (fun _ => Finset.mem_insert_self node w.physical) fun o ho => absurd ho (hf o)
  rw [← hphys, ← hh] at hdown
  exact .grant hw' hdown (ht.insert fun _ => rfl) hdown (ht.insert fun _ => rfl)
    (KeyMap.get?_insert_self _ _ _) rfl (Finset.mem_insert_self _ _)

theorem Inv.cordonForOwner (hn : ValidUTF8 node)
    (hw : ValidUTF8 owner) : Inv (w.cordonForOwner x node owner c) := by
  obtain ⟨hb, hset⟩ := h.memory c hc
  rw [Machine.cordonForOwner]
  split_ifs with hblank
  · exact h
  split
  next s hs =>
    split_ifs with hph
    · have hj := hb.insert (fun _ _ => id)
        ⟨hn, (hb.named node s hs).2.join hw hblank s.phase⟩ (hb.down node s hs)
        fun o ho => by
          obtain ⟨_, ht, -, hm⟩ := hb.held node o ho
          cases hs.symm.trans ht
          exact ⟨hph, Finset.mem_insert_of_mem hm⟩
      exact .grant h.toStored hj (hset.insert fun _ => hph) hb hset
        (KeyMap.get?_insert_self _ _ _) hph (Finset.mem_insert_self _ _)
    · exact h.goDown hc (fun t ht => by cases hs.symm.trans ht; exact hph) hn hw hblank
  · next h0 => exact h.goDown hc (fun t ht => by cases h0.symm.trans ht) hn hw hblank

theorem Inv.releaseCordonOwners {owners : List Str} :
    Inv (w.releaseCordonOwners x node owners c) := by
  set rest := w.holds.filter fun h => ¬(h.1 = node ∧ h.2 ∈ owners) with hr
  have hsub : rest ⊆ w.holds := Finset.filter_subset _ _
  have hfewer : ∀ {d}, Backed w.physical w.holds d → Backed w.physical rest d := fun hd =>
    ⟨hd.named, hd.down, fun n o ho => hd.held n o (hsub ho)⟩
  have hi : Inv { w with holds := rest } :=
    ⟨⟨h.some_file, fun f hf => hfewer (h.files f hf), h.empty⟩, fun d hd =>
      (h.memory d hd).imp_left hfewer⟩
  obtain ⟨hb, hset⟩ : Backed w.physical rest c ∧ Settled c := hi.memory c hc
  simp only [Machine.releaseCordonOwners]
  split
  · exact hi
  rename_i s hs
  obtain ⟨hnode, hnamed⟩ := hb.named node s hs
  have hl := hnamed.leave owners
  have hheld : ∀ o, (node, o) ∈ rest → o ∈ s.owners.filter (· ∉ owners) := by
    intro o ho
    obtain ⟨_, ht, -, hmem⟩ := hb.held node o ho
    cases hs.symm.trans ht
    have hu := (Finset.mem_filter.1 ho).2
    exact Finset.mem_filter.2 ⟨hmem, fun hin => hu ⟨rfl, hin⟩⟩
  split_ifs with hm
  · -- an owner is left, so the record was settled
    have hph : s.phase = .cordoned := by
      refine hset node s hs fun h0 => hm ?_
      simp [h0]
    refine .persist hi.toStored ?_ (fun _ => hset.insert fun _ => rfl) hb hset
    exact hb.insert (fun _ _ => id) ⟨hnode, hl _⟩ (fun _ => hb.down node s hs hph)
      fun o ho => ⟨rfl, hheld o ho⟩
  · have h0 : s.owners.filter (· ∉ owners) = ∅ := Decidable.not_not.1 hm
    have hfree : ∀ o, (node, o) ∉ rest := by
      intro o ho
      exact Finset.notMem_empty o (h0 ▸ hheld o ho)
    have hb' : ∀ p t, (∀ n, n ≠ node → n ∈ w.physical → n ∈ p) → t.Named →
        t.phase = .uncordoning → Backed p rest (c.insert node t) := fun p t hp ht hph =>
      hb.insert hp ⟨hnode, ht⟩ (fun hs => by rw [hph] at hs; cases hs) fun o ho =>
        absurd ho (hfree o)
    have hothers : ∀ n, n ≠ node → n ∈ w.physical → n ∈ w.physical.erase node := fun n hne hn =>
      Finset.mem_erase.2 ⟨hne, hn⟩
    refine hi.throughHook hc (hb' _ _ (fun _ _ => id) (hl _) rfl)
      (List.forall_mem_singleton.2 h0) (hb' _ _ hothers (hl _) rfl)
      fun w' hw' hphys (hh : w'.holds = rest) => ?_
    have hg := hb.erase hfree
    have he := hb' _ ⟨∅, ∅, .uncordoning⟩ hothers
      ⟨Finset.notMem_empty _, by simp, Finset.Subset.refl _⟩ rfl
    rw [← hphys, ← hh] at hg he
    refine .persist hw' hg (fun _ n t hn => ?_) he (hset.insert fun hne => absurd rfl hne)
    exact hset n t (KeyMap.get?_erase_some.1 hn).1

theorem Inv.markCordonHeldIfOwner : Inv (w.markCordonHeldIfOwner x node owner c) := by
  obtain ⟨hb, hset⟩ := h.memory c hc
  rw [Machine.markCordonHeldIfOwner]
  split
  · exact h
  rename_i s hs
  split_ifs with hskip
  · exact h
  obtain ⟨hn, he, hw, hh⟩ := hb.named node s hs
  have howner : owner ∈ s.owners := by
    by_contra hu
    exact hskip (.inl hu)
  refine .persist h.toStored ?_ (fun _ => hset.insert (hset node s hs)) hb hset
  refine hb.insert (fun _ _ => id) ⟨hn, he, hw, Finset.insert_subset howner hh⟩ (hb.down node s hs)
    fun o ho => ?_
  obtain ⟨_, ht, hph, hm⟩ := hb.held node o ho
  cases hs.symm.trans ht
  exact ⟨hph, hm⟩

end

theorem Inv.next {op : Op} (hop : op.Utf8) (hn : next w op = some w') : Inv w' := by
  cases op with
  | cordon x node owner =>
    obtain ⟨_, hc, rfl⟩ := Option.map_eq_some_iff.1 hn
    exact h.cordonForOwner hc hop.1 hop.2
  | release x node owners =>
    obtain ⟨_, hc, rfl⟩ := Option.map_eq_some_iff.1 hn
    exact h.releaseCordonOwners hc
  | mark x node owner =>
    obtain ⟨_, hc, rfl⟩ := Option.map_eq_some_iff.1 hn
    exact h.markCordonHeldIfOwner hc
  | restart lost =>
    obtain ⟨f, hf, rfl⟩ := Option.map_eq_some_iff.1 hn
    have hm : f ∈ w.files.drop lost := List.mem_of_head? hf
    have hfiles : ∀ g ∈ w.files.drop lost, Backed w.physical w.holds g := fun g hg =>
      h.files g (List.mem_of_mem_drop hg)
    refine ⟨⟨List.ne_nil_of_mem hm, hfiles, h.empty⟩, fun d hd => ?_⟩
    obtain ⟨rfl, hs⟩ := load_exact (hfiles f hm) hd
    exact ⟨hfiles _ hm, hs⟩

end

/-- **No hold is lost.** In every run whose nodes and owners have names in valid UTF-8, a node is
physically cordoned while an owner holds it, the uncordon hook runs only without owners, a restart
recovers exactly what the journal records or refuses, and a mark that is written stands in memory
and in the journal alike. -/
theorem holds_survive {physical : Finset Str} {ops : List Op} (hops : ∀ op ∈ ops, op.Utf8)
    (hrun : exec next (start physical) ops = some w) :
    (∀ node owner, (node, owner) ∈ w.holds → node ∈ w.physical) ∧
      (∀ owners ∈ w.uncordons, owners = ∅) ∧
      (∀ file ∈ w.files, ∀ c, loadCordonState file = some c → c = file) ∧
      ∀ x node owner w', x.first = .ok → next w (.mark x node owner) = some w' → w' = w ∨
        ∃ c s, w'.memory = some c ∧ w'.files = [c] ∧ c.get? node = some s ∧
          owner ∈ s.heldOwners := by
  have h : Inv w := by
    refine exec_invariant_along (fun _ _ _ hs hok hn => Inv.next hs hok hn) ?_
      (along_of_forall hops _) hrun
    have hempty : Backed physical ∅ KeyMap.empty := by
      constructor <;> simp [KeyMap.empty, KeyMap.get?]
    refine ⟨⟨List.cons_ne_nil _ _, ?_, by simp [start]⟩, fun c hc => ?_⟩
    · exact List.forall_mem_singleton.mpr hempty
    · cases hc
      exact ⟨hempty, fun _ _ hn => by cases hn⟩
  refine ⟨fun n o ho => ?_, h.empty, fun f hf c hc => (load_exact (h.files f hf) hc).1, ?_⟩
  · obtain ⟨f, hf⟩ := List.exists_mem_of_ne_nil _ h.some_file
    obtain ⟨s, hs, hphase, -⟩ := (h.files f hf).held n o ho
    exact (h.files f hf).down n s hs hphase
  intro x node owner w' hok hn
  obtain ⟨c, hc, rfl⟩ := Option.map_eq_some_iff.1 hn
  have hafter : Inv (w.markCordonHeldIfOwner x node owner c) := h.markCordonHeldIfOwner hc
  revert hafter
  rw [Machine.markCordonHeldIfOwner]
  split
  · exact fun _ => .inl rfl
  split_ifs
  · exact fun _ => .inl rfl
  rw [hok]
  intro hafter
  refine .inr ⟨_, _, rfl, ?_, KeyMap.get?_insert_self _ _ _, Finset.mem_insert_self _ _⟩
  exact congrArg (fun f => [f]) (journal_eq (hafter.memory _ rfl).1)

def allOk : Fates := ⟨.ok, .ok, .ok⟩

/-- An owner joins while another leaves through a failed write, and the process dies. -/
theorem holds_survive_restart :
    ∃ w, exec next (start ∅) [.cordon allOk (lit "n") (lit "a"), .cordon allOk (lit "n") (lit "b"),
        .release ⟨.failed true, .ok, .ok⟩ (lit "n") [lit "a"], .restart 1] = some w ∧
      (lit "n", lit "b") ∈ w.holds ∧ lit "n" ∈ w.physical := by
  refine reached (by decide +kernel) fun w hw hhold => ⟨hhold, ?_⟩
  refine (holds_survive ?_ hw).1 _ _ hhold
  rintro _ (- | ⟨-, (- | ⟨-, (- | ⟨-, (- | ⟨-, ⟨⟩⟩)⟩)⟩)⟩)
  · exact ⟨by decide, by decide⟩
  · exact ⟨by decide, by decide⟩
  · trivial
  · trivial

/-- An owner whose name is not valid UTF-8 comes back under another name, which anybody may
release. -/
theorem renamed_owner_is_released :
    ∃ w, exec next (start ∅) [.cordon allOk (lit "n") [0xff], .restart 0,
        .release allOk (lit "n") [toValid [0xff]]] = some w ∧
      (lit "n", [0xff]) ∈ w.holds ∧ lit "n" ∉ w.physical := by
  decide +kernel

end KubeNeuron.Baremetal
