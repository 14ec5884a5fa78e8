import Mathlib.Data.List.Basic

/-!
# Chains

A list of entries is a chain when every entry names the tag of the entry before it and the first one
names a given start. A chain grows at its end (`linked_concat`) by an entry that names its last tag.
-/

namespace KubeNeuron.Lib

universe u v

variable {α : Type u} {β : Type v} (prev tag : α → β)

/-- Every entry names the tag of the one before it, and the first one names `start`. -/
def Linked : β → List α → Prop
  | _, [] => True
  | start, a :: l => prev a = start ∧ Linked (tag a) l

/-- The tag of the last entry, `start` when there is none. -/
def endTag : β → List α → β
  | start, [] => start
  | _, a :: l => endTag (tag a) l

variable {prev tag} {start : β} {l : List α} {a : α}

theorem linked_concat :
    Linked prev tag start (l ++ [a]) ↔ Linked prev tag start l ∧ prev a = endTag tag start l := by
  induction l generalizing start with
  | nil => simp [Linked, endTag]
  | cons b l ih => simp only [List.cons_append, Linked, endTag, ih, and_assoc]

theorem endTag_eq (h : l ≠ []) : some (endTag tag start l) = l.getLast?.map tag := by
  induction l generalizing start with
  | nil => exact absurd rfl h
  | cons b l ih =>
    cases l with
    | nil => rfl
    | cons c l =>
      exact @ih (tag b) (List.cons_ne_nil c l)

end KubeNeuron.Lib
