import RtThread.Mm.Aspace
import RtThread.Mm.AvlTree

/-!
# Searching the vareas

The searches of `avl_adpt.c` on a tree are searches in the list of its vareas, which are in the order of their addresses
(`search_at`, `insertPlace_at`).
-/

namespace RtThread.RtAspace

open HeightTree
open UtilAvl (Linked At Search Forest)

variable {c : AspaceConfig} {s : RtAspace} {t : HeightTree Nat} {x closest : Option Nat} {n k start : Nat}
  {compare : RtVarea → Ordering} {minOff : Int}

/-- `search` answers a varea that it looks for, or there is none. -/
theorem search_at (ht : Linked s.tree.node x t) (hn : t.keys.length ≤ n)
    (hmono : t.keys.Pairwise fun i j => (compare (s.varea i) = .lt → compare (s.varea j) = .lt) ∧
      (compare (s.varea j) = .gt → compare (s.varea i) = .gt)) :
    (∃ v ∈ t.keys, search compare s n t.root = some (some v) ∧ compare (s.varea v) = .eq) ∨
      search compare s n t.root = some none ∧ ∀ v ∈ t.keys, compare (s.varea v) ≠ .eq := by
  induction t generalizing x n with
  | nil =>
    right
    cases n <;> exact ⟨rfl, by simp⟩
  | node h l a r ihl ihr =>
    obtain ⟨ha, hl, hr⟩ := ht
    simp only [keys, List.length_append, List.length_cons] at hn
    obtain ⟨n, rfl⟩ := Nat.exists_eq_succ_of_ne_zero (show n ≠ 0 by omega)
    obtain ⟨hml, hmr, hmc⟩ := List.pairwise_append.1 hmono
    obtain ⟨hma, hmr⟩ := List.pairwise_cons.1 hmr
    simp only [root_node, search]
    cases hcmp : compare (s.varea a) with
    | lt =>
      simp only [ha]
      rcases ihl (n := n) hl (by omega) hml with ⟨v, hv, h1, h2⟩ | ⟨h1, h2⟩
      · exact .inl ⟨v, by simp [keys, hv], h1, h2⟩
      · right
        refine ⟨h1, ?_⟩
        intro v hv
        rcases List.mem_append.1 hv with hv | hv
        · exact h2 v hv
        · rcases List.mem_cons.1 hv with rfl | hv
          · rw [hcmp]
            decide
          · rw [(hma v hv).1 hcmp]
            decide
    | gt =>
      simp only [ha]
      rcases ihr (n := n) hr (by omega) hmr with ⟨v, hv, h1, h2⟩ | ⟨h1, h2⟩
      · exact .inl ⟨v, by simp [keys, hv], h1, h2⟩
      · right
        refine ⟨h1, ?_⟩
        intro v hv
        rcases List.mem_append.1 hv with hv | hv
        · rw [(hmc v hv a List.mem_cons_self).2 hcmp]
          decide
        · rcases List.mem_cons.1 hv with rfl | hv
          · rw [hcmp]
            decide
          · exact h2 v hv
    | eq => exact .inl ⟨a, by simp [keys], rfl, hcmp⟩

/-- The place for a new start. -/
theorem insertPlace_at {next : NodePlace} {current : Option Nat} (ht : Linked s.tree.node x t)
    (hget : s.tree.get next = t.root) (hn : t.keys.length ≤ n) (hne : ∀ i ∈ t.keys, (s.varea i).start ≠ k)
    (hsearch : Search s.tree (fun i => (s.varea i).start) k next current) :
    ∃ next' current', insertPlace k s n next current = some (some (next', current')) ∧
      Search s.tree (fun i => (s.varea i).start) k next' current' ∧ s.tree.get next' = none := by
  induction t generalizing x n next current with
  | nil =>
    refine ⟨next, current, ?_, hsearch, hget⟩
    cases n <;> simp [insertPlace, hget, root]
  | node h l a r ihl ihr =>
    obtain ⟨ha, hl, hr⟩ := ht
    simp only [keys, List.length_append, List.length_cons] at hn
    obtain ⟨n, rfl⟩ := Nat.exists_eq_succ_of_ne_zero (show n ≠ 0 by omega)
    rw [root_node] at hget
    simp only [insertPlace, hget]
    rcases Nat.lt_trichotomy k (s.varea a).start with hlt | heq | hgt
    · rw [if_pos hlt]
      refine ihl hl ?_ (by omega) (fun i hi => hne i (by simp [keys, hi])) (.left hsearch hget hlt)
      simp only [UtilAvl.get, ha]
    · exact absurd heq.symm (hne a (by simp [keys]))
    · rw [if_neg (by omega), if_pos hgt]
      refine ihr hr ?_ (by omega) (fun i hi => hne i (by simp [keys, hi])) (.right hsearch hget hgt)
      simp only [UtilAvl.get, ha]

/-- A start that a varea has is found. -/
theorem insertPlace_taken {next : NodePlace} (current : Option Nat) {w : Nat} (ht : Linked s.tree.node x t)
    (hget : s.tree.get next = t.root) (hn : t.keys.length ≤ n)
    (hsort : t.keys.Pairwise fun i j => (s.varea i).start < (s.varea j).start) (hw : w ∈ t.keys)
    (hk : (s.varea w).start = k) : insertPlace k s n next current = some none := by
  induction t generalizing x n next current with
  | nil => cases hw
  | node h l a r ihl ihr =>
    obtain ⟨ha, hl, hr⟩ := ht
    simp only [keys, List.length_append, List.length_cons] at hn
    obtain ⟨n, rfl⟩ := Nat.exists_eq_succ_of_ne_zero (show n ≠ 0 by omega)
    obtain ⟨hsl, hsr, hsc⟩ := List.pairwise_append.1 hsort
    obtain ⟨hsa, hsr⟩ := List.pairwise_cons.1 hsr
    rw [root_node] at hget
    simp only [insertPlace, hget]
    rcases Nat.lt_trichotomy k (s.varea a).start with hlt | heq | hgt
    · rw [if_pos hlt]
      apply ihl _ hl _ (by omega) hsl _
      · simp only [UtilAvl.get, ha]
      · rcases List.mem_append.1 hw with hw | hw
        · exact hw
        · rcases List.mem_cons.1 hw with rfl | hw
          · omega
          · have := hsa w hw
            omega
    · rw [if_neg (by omega), if_neg (by omega)]
    · rw [if_neg (by omega), if_pos hgt]
      apply ihr _ hr _ (by omega) hsr _
      · simp only [UtilAvl.get, ha]
      · rcases List.mem_append.1 hw with hw | hw
        · have := hsc w hw a List.mem_cons_self
          omega
        · rcases List.mem_cons.1 hw with rfl | hw
          · omega
          · exact hw

end RtThread.RtAspace
