import Mathlib.Data.List.TakeWhile

/-!
# Tokens between delimiters

The tokens of a list are its longest pieces without a delimiter, in order (`tokens`). The first one stands behind the delimiters
that the list starts with (`tokens_delim`, `tokens_token`).
-/

namespace Segments

variable {α : Type} {s t rest : List α}

theorem exists_segment (p : α → Bool) (s : List α) :
    ∃ t rest, s = t ++ rest ∧ (∀ c ∈ t, p c) ∧ ∀ c ∈ rest.head?, ¬ p c := by
  refine ⟨s.takeWhile p, s.dropWhile p, List.takeWhile_append_dropWhile.symm, fun c => List.mem_takeWhile_imp, ?_⟩
  intro c hc
  have := List.head?_dropWhile_not p s
  rw [Option.mem_def] at hc
  simpa [hc] using this

variable [DecidableEq α] {delim : List α}

def tokens (delim s : List α) : List (List α) := (s.splitOnP (· ∈ delim)).filter (· ≠ [])

theorem tokens_delim (hs : ∀ c ∈ s, c ∈ delim) : tokens delim (s ++ rest) = tokens delim rest := by
  induction s with
  | nil => rfl
  | cons c s ih =>
    have hc := hs c List.mem_cons_self
    rw [← ih fun c hc => hs c (List.mem_cons_of_mem _ hc)]
    simp [tokens, List.splitOnP_cons_eq_if_splitOnPPrepend, hc]

theorem tokens_none (hs : ∀ c ∈ s, c ∈ delim) : tokens delim s = [] := by
  rw [← List.append_nil s, tokens_delim hs]
  rfl

theorem tokens_token (ht : ∀ c ∈ t, c ∉ delim) (hne : t ≠ []) (hrest : ∀ c ∈ rest.head?, c ∈ delim) :
    tokens delim (t ++ rest) = t :: tokens delim rest.tail := by
  have ht' : ∀ c ∈ t, decide (c ∈ delim) = false := fun c hc => decide_eq_false (ht c hc)
  cases rest with
  | nil =>
    rw [List.append_nil, tokens, List.splitOnP_eq_singleton ht']
    simp [hne, tokens]
  | cons d rest =>
    rw [tokens, List.splitOnP_append_cons_of_forall_mem ht' d (decide_eq_true (hrest d rfl))]
    simp [hne, tokens]

end Segments
