import KubeNeuron.Platform.CordonPatches

/-!
# The owner set

Joins, releases and marks keep the owner annotation at the owners that joined and did not leave
(`owner_set_follows_patches`). Every patch tests the owner annotation that its call has read, so a
node that a call has read satisfies the same invariant as the node itself (`Sound`).
-/

namespace KubeNeuron.Platform

open Lib KubeNode

variable {held l : List Str} {owner raw : Str}

/-! ## Names on a node -/

def KubeNode.names (n : KubeNode) (m : Mark) : List Str :=
  (decodeCordonOwners (n.text m)).getD []

/-- The names in an annotation can be read. -/
def KubeNode.Decodes (n : KubeNode) (m : Mark) : Prop :=
  decodeCordonOwners (n.text m) = some (n.names m)

variable {n n' : KubeNode} {m : Mark} {o : Str}

theorem decode_of_none (h : n.get m = none) : decodeCordonOwners (n.text m) = some [] := by
  rw [text, h]
  decide

theorem decode_of_encode (h : n.get m = some (encodeCordonOwners l)) :
    decodeCordonOwners (n.text m) = some (readNames l) := by
  rw [text, h]
  exact decodeNames_encodeNames l

theorem names_of_none (h : n.get m = none) : n.names m = [] := by
  rw [names, decode_of_none h, Option.getD_some]

theorem names_of_encode (h : n.get m = some (encodeCordonOwners l)) : n.names m = readNames l := by
  rw [names, decode_of_encode h, Option.getD_some]

theorem names_congr (h : n'.get m = n.get m) : n'.names m = n.names m := by
  rw [names, names, text, text, h]

theorem decodes_of_some (h : decodeCordonOwners (n.text m) = some l) :
    n.Decodes m := by
  rw [KubeNode.Decodes, names, h, Option.getD_some]

theorem decodes_congr (h : n'.get m = n.get m) (hn : n.Decodes m) : n'.Decodes m := by
  rw [KubeNode.Decodes, names_congr h, text, h]
  exact hn

theorem toValid_name (ho : o ∈ n.names m) : toValid o = o := by
  rw [names] at ho
  cases hdecode : decodeCordonOwners (n.text m) with
  | none =>
    rw [hdecode] at ho
    cases ho
  | some =>
    rw [hdecode] at ho
    exact toValid_eq_self (validUTF8_of_decodeNames hdecode ho)

theorem mem_readNames_sub (hl : ∀ p ∈ l, p ∈ n.names m) : o ∈ readNames l ↔ o ∈ l := by
  rw [mem_readNames]
  constructor
  · rintro ⟨p, hp, rfl⟩
    rwa [toValid_name (hl p hp)]
  · exact fun ho => ⟨o, ho, toValid_name (hl o ho)⟩

theorem mem_readNames_append (hl : ∀ p ∈ l, p ∈ n.names m) :
    o ∈ readNames (l ++ [owner]) ↔ o ∈ l ∨ o = toValid owner := by
  rw [← mem_readNames_sub hl, mem_readNames, mem_readNames]
  simp [or_and_right, exists_or, @eq_comm _ o]

theorem mem_readNames_withOwner :
    o ∈ readNames (withOwner (n.names m) owner) ↔ o ∈ n.names m ∨ o = toValid owner := by
  rw [withOwner]
  split_ifs with hmem
  · have hmem : owner ∈ n.names m := by simpa using hmem
    rw [mem_readNames_sub (n := n) (m := m) fun p hp => hp]
    constructor
    · exact .inl
    rintro (ho | rfl)
    · exact ho
    · rwa [toValid_name hmem]
  · exact mem_readNames_append (n := n) (m := m) fun p hp => hp

/-! ## The invariant of a node -/

/-- A node whose cordon has owners, or that has no cordon of ours. -/
structure Sound (n : KubeNode) : Prop where
  owners : n.Decodes .owners
  heldOwners : n.Decodes .heldOwners
  nonempty : (n.get .owners).isSome → n.names .owners ≠ []
  held : ∀ o ∈ n.names .heldOwners, o ∈ n.names .owners
  reason : n.get .reason = none ↔ n.get .owners = none
  handoff : n.get .handoff = none

/-- The owners after a call: a joiner is among them by the name that JSON carries. -/
def Call.follow (owners : List Str) : Call → List Str
  | .cordonForOwner owner _ => toValid owner :: owners
  | .releaseCordonOwners leaving => owners.filter fun o => !leaving.contains o
  | _ => owners

/-- The owners that joined and did not leave, in the order of the patches. -/
def ownersAfter : List Landed → List Str
  | [] => []
  | l :: writes => l.call.follow (ownersAfter writes)

/-- The calls on a cordon with owners. -/
def Call.counted : Call → Bool
  | .cordonForOwner _ _ => true
  | .releaseCordonOwners _ => true
  | .markCordonHeldIfOwner _ => true
  | _ => false

variable {leaving : List Str} {dropped : List PatchOp}

variable {seen : KubeNode}

theorem Sound.seedOwners (h : Sound seen) (found : List Str) (owner reason : Str) :
    seedOwners seen found owner reason = (found, []) := by
  rw [Platform.seedOwners]
  split
  · rename_i prior howners hw
    rw [h.reason.2 howners] at hw
    cases hw
  · rfl

theorem Sound.joined (hs : Sound seen) (hn : Sound n) {reason : Str}
    {found : List Str} (hf : decodeCordonOwners (seen.text .owners) = some found)
    (howners : n.get .owners = seen.get .owners)
    (hkeys : Patched n n' (joinWrites owner reason found seen)) :
    Sound n' ∧ ∀ o, o ∈ n'.names .owners ↔ o ∈ (Call.cordonForOwner owner reason).follow
      (n.names .owners) := by
  have hg : ∀ m : Mark, n'.get m = afterJoin owner reason found seen (n.get m) m := fun m =>
    (hkeys m.key).trans (wrote_joinWrites owner reason found seen m _)
  -- the owners that the call has found are the owners of the node
  obtain rfl : found = n.names .owners := by
    rw [hs.owners] at hf
    rw [names_congr howners]
    exact (Option.some.inj hf).symm
  have howners' :
      n'.get .owners = some (encodeCordonOwners (withOwner (n.names .owners) owner)) := by
    rw [hg, afterJoin, hs.seedOwners]
  have hheld' : n'.get .heldOwners = n.get .heldOwners := by
    rw [hg, afterJoin, hs.seedOwners]
    rfl
  have hnm : ∀ o, o ∈ n'.names .owners ↔ o ∈ n.names .owners ∨ o = toValid owner := by
    intro o
    rw [names_of_encode howners']
    exact mem_readNames_withOwner
  refine ⟨⟨decodes_of_some (decode_of_encode howners'), decodes_congr hheld' hn.heldOwners,
    fun _ => ?_, ?_, ?_, ?_⟩, fun o => ?_⟩
  · exact List.ne_nil_of_mem ((hnm _).2 (.inr rfl))
  · intro o ho
    rw [names_congr hheld'] at ho
    exact (hnm o).2 (.inl (hn.held o ho))
  · rw [howners', hg]
    simp [afterJoin]
  · rw [hg]
    exact hn.handoff
  · rw [hnm o, Call.follow, List.mem_cons]
    exact or_comm

theorem names_dropped (h : dropHeldOwnersOps seen leaving = some dropped)
    (hheld : n'.get .heldOwners = wrote dropped Mark.heldOwners.key (seen.get .heldOwners)) :
    n'.Decodes .heldOwners ∧
      ∀ o, o ∈ n'.names .heldOwners ↔ o ∈ seen.names .heldOwners ∧ o ∉ leaving := by
  rw [dropHeldOwnersOps] at h
  split at h
  · rename_i hn
    cases h
    rw [hn] at hheld
    refine ⟨decodes_of_some (decode_of_none hheld), fun o => ?_⟩
    rw [names_of_none hheld, names_of_none hn]
    simp
  rename_i raw hw
  obtain ⟨held, _, rfl⟩ := Option.map_eq_some_iff.1 h
  have hr : decodeCordonOwners (seen.text .heldOwners) = some held := by
    rwa [text, hw]
  have hk : ∀ o, (o ∈ held.filter fun o => !leaving.contains o) ↔
      o ∈ seen.names .heldOwners ∧ o ∉ leaving := by
    rw [names, hr]
    simp
  dsimp only at hheld
  split_ifs at hheld with hl he
  · -- nothing was dropped, so none of the held owners leaves
    refine ⟨decodes_congr hheld (decodes_of_some hr), fun o => ?_⟩
    rw [names_congr hheld, ← hk o, List.filter_eq_self.2
      (List.length_filter_eq_length_iff.1 hl), names, hr, Option.getD_some]
  · have hg : n'.get .heldOwners = none := by simpa [PatchOp.onKey] using hheld
    refine ⟨decodes_of_some (decode_of_none hg), fun o => ?_⟩
    rw [← hk o, he, names_of_none hg]
  have hs : n'.get .heldOwners =
      some (encodeCordonOwners (held.filter fun o => !leaving.contains o)) := by
    simpa [PatchOp.onKey, toValid_encodeCordonOwners] using hheld
  refine ⟨decodes_of_some (decode_of_encode hs), fun o => ?_⟩
  rw [names_of_encode hs, ← hk o]
  exact mem_readNames_sub fun p hp => ((hk p).1 hp).1

theorem names_of_raw (hr : n.get .owners = some raw)
    (hheld : decodeCordonOwners raw = some held) : n.names .owners = held := by
  rw [names, text, hr, Option.getD_some, hheld, Option.getD_some]

section

variable (hheld : decodeCordonOwners raw = some held)
  (hdropped : dropHeldOwnersOps seen leaving = some dropped)
  (howners : n.get .owners = some raw) (hheldOwners : n.get .heldOwners = seen.get .heldOwners)
  (hkeys : Patched n n'
    (.add .owners (encodeCordonOwners (held.filter fun o => !leaving.contains o)) :: dropped))
include hheld hdropped howners hheldOwners hkeys

/-- The names that a release of some of the owners leaves. -/
theorem names_shrunk :
    (∀ o, o ∈ n'.names .owners ↔ o ∈ (n.names .owners).filter fun o => !leaving.contains o) ∧
      n'.Decodes .heldOwners ∧
      ∀ o, o ∈ n'.names .heldOwners ↔ o ∈ n.names .heldOwners ∧ o ∉ leaving := by
  obtain rfl := names_of_raw howners hheld
  refine ⟨fun o => ?_, ?_⟩
  · rw [names_of_encode ((hkeys Mark.owners.key).trans (wrote_shrunk hdropped _ (by decide) _))]
    exact mem_readNames_sub fun p hp => List.mem_of_mem_filter hp
  rw [names_congr hheldOwners]
  apply names_dropped hdropped
  rw [← hheldOwners]
  exact (hkeys Mark.heldOwners.key).trans (by simp [PatchOp.onKey, KubeNode.get])

theorem Sound.shrunk (hn : Sound n) (hrem : (held.filter fun o => !leaving.contains o) ≠ []) :
    Sound n' ∧ ∀ o, o ∈ n'.names .owners ↔ o ∈ (Call.releaseCordonOwners leaving).follow
      (n.names .owners) := by
  obtain ⟨hnm, hdecs, hheld'⟩ := names_shrunk hheld hdropped howners hheldOwners hkeys
  obtain rfl := names_of_raw howners hheld
  have ht : ∀ m : Mark, m ≠ .owners → m ≠ .heldOwners → n'.get m = n.get m := by
    intro m hm hm'
    exact (hkeys m.key).trans ((wrote_shrunk hdropped _ hm' _).trans (if_neg hm))
  have howners' : n'.get .owners =
      some (encodeCordonOwners ((n.names .owners).filter fun o => !leaving.contains o)) :=
    (hkeys Mark.owners.key).trans (wrote_shrunk hdropped _ (by decide) _)
  refine ⟨⟨decodes_of_some (decode_of_encode howners'), hdecs, fun _ => ?_, ?_, ?_, ?_⟩, hnm⟩
  · obtain ⟨o, ho⟩ := List.exists_mem_of_ne_nil _ hrem
    exact List.ne_nil_of_mem ((hnm o).2 ho)
  · intro o ho
    obtain ⟨ho, hstay⟩ := (hheld' o).1 ho
    exact (hnm o).2 (List.mem_filter.2 ⟨hn.held o ho, by simpa using hstay⟩)
  · have hw : n'.get .reason = n.get .reason := ht _ (by decide) (by decide)
    rw [hw, hn.reason, howners, howners']
    simp
  · rw [ht _ (by decide) (by decide)]
    exact hn.handoff

end

theorem Sound.emptied (hseen : Sound seen) (hn : Sound n) (hr : seen.get .owners = some raw)
    (hheld : decodeCordonOwners raw = some held)
    (ha : ∀ o ∈ held, o ∈ leaving) (howners : n.get .owners = some raw)
    (hheldOwners : n.get .heldOwners = seen.get .heldOwners)
    (hkeys : Patched n n' (removeOurAnnotationOps seen ++ unpinOps seen)) :
    Sound n' ∧ n'.get .owners = none ∧
      ∀ o, o ∈ n'.names .owners ↔
        o ∈ (Call.releaseCordonOwners leaving).follow (n.names .owners) := by
  have hg : ∀ m : Mark, m ≠ .doNotDisrupt →
      n'.get m = if m ∈ Mark.cordonAnnotations ∧ (seen.get m).isSome then none else n.get m := by
    intro m hm
    refine (hkeys m.key).trans ?_
    rw [wrote_append, wrote_unpin seen (by simpa using hm), wrote_removeOur_mark]
    rfl
  have howners' : n'.get .owners = none := by
    rw [hg _ (by decide), hr]
    rfl
  have hw' : n'.get .reason = none := by
    have hw : seen.get .reason ≠ none := fun h => by
      rw [hseen.reason.1 h] at hr
      cases hr
    rw [hg _ (by decide), if_pos ⟨by decide, Option.isSome_iff_ne_none.2 hw⟩]
  have hheld' : n'.get .heldOwners = none := by
    rw [hg _ (by decide)]
    split_ifs with hs
    · rfl
    -- a record that was not there when it was read is not there now
    rw [hheldOwners]
    simpa [Mark.cordonAnnotations] using hs
  have hhand' : n'.get .handoff = n.get .handoff := by
    rw [hg _ (by decide), if_neg (by simp [Mark.cordonAnnotations])]
  refine ⟨⟨decodes_of_some (decode_of_none howners'), decodes_of_some (decode_of_none hheld'),
    ?_, ?_, ?_, ?_⟩, howners', fun o => ?_⟩
  · simp [howners']
  · simp [names_of_none hheld']
  · simp [hw', howners']
  · exact hhand'.trans hn.handoff
  · rw [names_of_none howners', names_of_raw howners hheld, Call.follow,
      List.filter_eq_nil_iff.2 fun o ho => by simpa using ha o ho]

section

variable {owners : List Str} (hdecode : decodeCordonOwners raw = some owners)
  (hheld : decodeCordonOwners (seen.text .heldOwners) = some held) (hmem : owner ∈ owners)
  (howners : n.get .owners = some raw) (hheldOwners : n.get .heldOwners = seen.get .heldOwners)
  (hkeys : Patched n n'
    [.add .heldOwners (encodeCordonOwners (held ++ [owner])), .add .held (lit "true")])
include hdecode hheld hmem howners hheldOwners hkeys

/-- A mark adds its owner to the held ones. -/
theorem names_marked : owner ∈ n.names .owners ∧ n'.get .owners = n.get .owners ∧
      n'.Decodes .heldOwners ∧
      ∀ o, o ∈ n'.names .heldOwners ↔ o ∈ n.names .heldOwners ∨ o = owner := by
  have hheld' : n'.get .heldOwners = some (encodeCordonOwners (held ++ [owner])) :=
    (hkeys Mark.heldOwners.key).trans (wrote_marked _ (by decide) _)
  obtain rfl : n.names .heldOwners = held := by
    rw [names_congr hheldOwners, names, hheld, Option.getD_some]
  have ho : owner ∈ n.names .owners := by rwa [names_of_raw howners hdecode]
  refine ⟨ho, (hkeys Mark.owners.key).trans (wrote_marked _ (by decide) _),
    decodes_of_some (decode_of_encode hheld'), fun o => ?_⟩
  rw [names_of_encode hheld', mem_readNames_append fun p hp => hp, toValid_name ho]

theorem Sound.markedOwner (hn : Sound n) : Sound n' ∧ n'.get .owners = n.get .owners := by
  obtain ⟨hw, howners', hdecs, hnm⟩ :=
    names_marked hdecode hheld hmem howners hheldOwners hkeys
  have ht : ∀ m : Mark, m ≠ .held → m ≠ .heldOwners → n'.get m = n.get m := by
    intro m hm hm'
    exact (hkeys m.key).trans ((wrote_marked _ hm _).trans (if_neg hm'))
  refine ⟨⟨decodes_congr howners' hn.owners, hdecs, ?_, ?_, ?_, ?_⟩, howners'⟩
  · rw [howners', names_congr howners']
    exact hn.nonempty
  · intro o ho
    rw [names_congr howners']
    rcases (hnm o).1 ho with ho | rfl
    · exact hn.held o ho
    · exact hw
  · rw [howners', ht .reason (by decide) (by decide)]
    exact hn.reason
  · rw [ht _ (by decide) (by decide)]
    exact hn.handoff

end

/-- The patch makes a schedulable node of one that was not. -/
def Landed.uncordons (l : Landed) : Prop :=
  l.before.unschedulable = true ∧ l.after.unschedulable = false

/-- **One patch.** It keeps the node sound, does to the owners what its call says, and makes the
node schedulable only when it takes the last owner away. -/
theorem Sound.landing {call : Call} (hs : Sound seen) (hn : Sound n)
    (hc : call.counted = true) (h : Landing seen n n' call) :
    Sound n' ∧ (∀ o, o ∈ n'.names .owners ↔ o ∈ call.follow (n.names .owners)) ∧
      (n.unschedulable = true → n'.unschedulable = false →
        n.names .owners ≠ [] ∧ n'.get .owners = none) := by
  cases h with
  | joined hd howners _ hkeys hg =>
    obtain ⟨hsound, hnm⟩ := hs.joined hn hd howners hkeys
    refine ⟨hsound, hnm, fun _ hf => ?_⟩
    rw [hg] at hf
    cases hf
  | shrunk _ hheld hrem hdropped howners hheldOwners hkeys hg =>
    obtain ⟨hsound, hnm⟩ :=
      Sound.shrunk hheld hdropped howners hheldOwners hkeys hn hrem
    refine ⟨hsound, hnm, fun hcord hf => ?_⟩
    rw [hg, hcord] at hf
    cases hf
  | emptied hr hheld ha _ howners hheldOwners _ _ hkeys =>
    obtain ⟨hsound, hgone, hnm⟩ := hs.emptied hn hr hheld ha howners hheldOwners hkeys
    refine ⟨hsound, hnm, fun _ _ => ⟨?_, hgone⟩⟩
    rwa [names_of_raw howners hheld]
  | handedOff _ _ _ _ _ _ htk | cleared _ _ _ htk =>
    rw [hs.handoff] at htk
    cases htk
  | uncordoned | markedReason => cases hc
  | markedOwner _ hdecode hheld hmem howners hheldOwners hkeys hg =>
    obtain ⟨hsound, hk⟩ := Sound.markedOwner hdecode hheld hmem howners hheldOwners hkeys hn
    refine ⟨hsound, fun o => by rw [names_congr hk]; rfl, fun hcord hf => ?_⟩
    rw [hg, hcord] at hf
    cases hf

/-! ## Runs -/

/-- The steps of the calls on a cordon with owners, and writes of others that touch no cordon. -/
def CordonOp.counted : CordonOp → Bool
  | .begin call => call.counted
  | .outside o => o.foreign
  | _ => true

/-- A node without a cordon of ours. -/
def KubeNode.uncordoned (n : KubeNode) : Bool :=
  [Mark.owners, .reason, .heldOwners, .handoff].all fun m => n.get m = none

/-- What every run keeps. -/
structure OwnersInv (w : CordonWorld) : Prop where
  node : Sound w.node
  names : ∀ o, o ∈ w.node.names .owners ↔ o ∈ ownersAfter w.writes
  seen : ∀ f ∈ w.flights, ∀ n, f.seen = some n → Sound n
  counted : ∀ f ∈ w.flights, f.call.counted = true
  uncordons : ∀ l ∈ w.writes, l.uncordons → l.before.names .owners ≠ [] ∧ l.after.get .owners = none

variable {w w' : CordonWorld} {op : CordonOp}

theorem sound_of_uncordoned (h : n.uncordoned = true) : Sound n := by
  have hg : ∀ m ∈ [Mark.owners, .reason, .heldOwners, .handoff], n.get m = none := fun m hm =>
    of_decide_eq_true (List.all_eq_true.1 h m hm)
  have howners : n.get .owners = none := hg _ (by decide)
  have hheld : n.get .heldOwners = none := hg _ (by decide)
  refine ⟨decodes_of_some (decode_of_none howners), decodes_of_some (decode_of_none hheld),
    ?_, ?_, ?_, hg _ (by decide)⟩
  · simp [howners]
  · simp [names_of_none hheld]
  · simp [howners, hg .reason (by decide)]

theorem Sound.congr (h : Sound n)
    (hg : ∀ m ∈ .handoff :: Mark.cordonAnnotations, n'.get m = n.get m) :
    Sound n' := by
  have howners := hg .owners (by decide)
  have hheld := hg .heldOwners (by decide)
  constructor
  · exact decodes_congr howners h.owners
  · exact decodes_congr hheld h.heldOwners
  · rw [howners, names_congr howners]
    exact h.nonempty
  · rw [names_congr hheld, names_congr howners]
    exact h.held
  · rw [hg .reason (by decide), howners]
    exact h.reason
  · rw [hg .handoff (by decide)]
    exact h.handoff

theorem Sound.plan_ne_again (h : Sound n) (call call' : Call) : plan call n ≠ .again call' := by
  intro hp
  obtain ⟨_, _, -, howners, hw, -⟩ := plan_again hp
  rw [h.reason.2 howners] at hw
  cases hw

theorem OwnersInv.flights (h : OwnersInv w) (hop : op.counted = true) (he : CordonEffect w op w') :
    (∀ f ∈ w'.flights, ∀ n, f.seen = some n → Sound n) ∧
      ∀ f ∈ w'.flights, f.call.counted = true := by
  apply flights_keep (Q := fun call => call.counted = true) he h.node h.seen h.counted
  · rintro call rfl
    exact hop
  · exact fun f _ call hp => absurd hp (h.node.plan_ne_again _ _)

theorem OwnersInv.quiet (h : OwnersInv w) (hop : op.counted = true) (he : CordonEffect w op w')
    (hn : w'.node = w.node) (hwr : w'.writes = w.writes) : OwnersInv w' := by
  obtain ⟨hs, hc⟩ := h.flights hop he
  refine ⟨hn ▸ h.node, ?_, hs, hc, hwr ▸ h.uncordons⟩
  rw [hn, hwr]
  exact h.names

theorem OwnersInv.next (h : OwnersInv w) (hop : op.counted = true)
    (hn : cordonNext w op = some w') :
    OwnersInv w' := by
  have he := cordonEffect_of_next hn
  obtain ⟨hsounds, hc⟩ := h.flights hop he
  cases cordonEffect_of_next hn with
  | @landed i f seen after ops retries fate hfate hf hs hp hpat =>
    have hmem := List.mem_of_getElem? hf
    obtain ⟨hd, hnm, huncordons⟩ := (h.seen f hmem seen hs).landing h.node
      (h.counted f hmem) (landing_of_patch hp hpat)
    refine ⟨hd, fun o => (hnm o).trans ?_, hsounds, hc,
      List.forall_mem_cons.2 ⟨fun hl => huncordons hl.1 hl.2, h.uncordons⟩⟩
    -- the owners of the record and of the node change in the same way
    change _ ↔ o ∈ f.call.follow (ownersAfter w.writes)
    cases f.call with
    | cordonForOwner => simp only [Call.follow, List.mem_cons, h.names]
    | releaseCordonOwners => simp only [Call.follow, List.mem_filter, h.names]
    | uncordonIfReason | markCordonHeldIfOwner | markCordonHeldIfReason => exact h.names o
  | @failed i f retries fate hf =>
    refine h.quiet hop he ?_ ?_ <;>
    · rw [CordonWorld.fail]
      split_ifs <;> rfl
  | outside o =>
    have hg : ∀ m ∈ .handoff :: Mark.cordonAnnotations, (o.apply w.node).get m = w.node.get m :=
      fun m hm => o.get_of_foreign hop w.node hm
    refine ⟨h.node.congr hg, fun o' => ?_, h.seen, h.counted, h.uncordons⟩
    rw [names_congr (hg .owners (by decide))]
    exact h.names o'
  | _ => exact h.quiet hop he rfl rfl

/-- **The owner set follows the patches.** On a node that starts without a cordon of ours, after any
interleaving of joins, releases and marks of single holds, the owner annotation decodes to the
owners that joined and have not left, as JSON carries their names; the held owners are among them;
and only a patch that takes the last owner away has made the node schedulable. -/
theorem owner_set_follows_patches {n : KubeNode} {ops : List CordonOp} {w : CordonWorld}
    (hstart : n.uncordoned = true) (hops : ∀ op ∈ ops, op.counted = true)
    (hrun : exec cordonNext (.start n) ops = some w) :
    (∃ owners, decodeCordonOwners (w.node.text .owners) = some owners ∧
      ∀ o, o ∈ owners ↔ o ∈ ownersAfter w.writes) ∧
    (∃ heldOwners, decodeCordonOwners (w.node.text .heldOwners) = some heldOwners ∧
      ∀ o ∈ heldOwners, o ∈ ownersAfter w.writes) ∧
    ∀ l ∈ w.writes, l.uncordons → l.before.names .owners ≠ [] ∧ l.after.get .owners = none := by
  have hsound := sound_of_uncordoned hstart
  have hstart' : OwnersInv (.start n) := by
    refine ⟨hsound, fun o => ?_, List.forall_mem_nil _, List.forall_mem_nil _,
      List.forall_mem_nil _⟩
    have howners : n.get .owners = none :=
      of_decide_eq_true (List.all_eq_true.mp hstart _ (by decide))
    rw [CordonWorld.start, names_of_none howners]
    rfl
  have halong : Along cordonNext (fun _ op => op.counted = true) (.start n) ops :=
    along_of_forall hops _
  have hinv : OwnersInv w :=
    exec_invariant_along (fun _ _ _ h hop hnext => h.next hop hnext) hstart' halong hrun
  exact ⟨⟨_, hinv.node.owners, hinv.names⟩,
    ⟨_, hinv.node.heldOwners, fun o ho => (hinv.names o).mp (hinv.node.held o ho)⟩,
    hinv.uncordons⟩

/-- A schedulable node without annotations. -/
def freshNode : KubeNode := ⟨false, .empty⟩

/-- The steps of a call that nothing comes between, when no other call is on its way. -/
def callOps (call : Call) : List CordonOp := [.begin call, .read 0, .patch 0 .answered]

/-- Two remediations read the node before either has joined: the second one's patch fails and it
reads again. Its hold is marked, and the first one leaves. -/
def sharedRun : List CordonOp :=
  [.begin (.cordonForOwner (lit "a") (lit "one")), .begin (.cordonForOwner (lit "b") (lit "two")),
    .read 0, .read 1, .patch 0 .answered, .patch 0 .answered, .read 0, .patch 0 .answered] ++
  callOps (.markCordonHeldIfOwner (lit "b")) ++ callOps (.releaseCordonOwners [lit "a"])

theorem shared_owner_set_follows : ∃ w, exec cordonNext (.start freshNode) sharedRun = some w ∧
      w.writes.length = 4 ∧ ownersAfter w.writes = [lit "b"] ∧
      ∃ owners, decodeCordonOwners (w.node.text .owners) = some owners ∧
        ∀ o, o ∈ owners ↔ o ∈ ownersAfter w.writes := by
  exact reached (by decide +kernel) fun w hw (hrun : w.writes.length = 4 ∧
    ownersAfter w.writes = [lit "b"]) =>
    ⟨hrun.1, hrun.2, (owner_set_follows_patches (by decide +kernel) (by decide +kernel) hw).1⟩

/-- A node on which only a record of held owners was left. -/
def leftoverNode : KubeNode :=
  ⟨false, Annotations.empty.insert Mark.heldOwners.key (encodeCordonOwners [lit "a"])⟩

/-- An owner that is not valid UTF-8 joins: the set that the annotation decodes to does not have it.
And a record of held owners that was there before is no part of the owner set. -/
theorem stray_owner_is_not_found :
    (leftoverNode.get .owners = none ∧ leftoverNode.get .reason = none ∧
      leftoverNode.get .handoff = none ∧ leftoverNode.names .heldOwners = [lit "a"]) ∧
    ∃ w, exec cordonNext (.start freshNode)
      (callOps (.cordonForOwner [0xFF] (lit "one"))) = some w ∧
      freshNode.uncordoned = true ∧
      (∀ op ∈ callOps (.cordonForOwner [0xFF] (lit "one")), op.counted = true) ∧
      w.writes.map Landed.call = [.cordonForOwner [0xFF] (lit "one")] ∧
      decodeCordonOwners (w.node.text .owners) = some [replacement] ∧ [0xFF] ∉ [replacement] := by
  decide +kernel

end KubeNeuron.Platform
