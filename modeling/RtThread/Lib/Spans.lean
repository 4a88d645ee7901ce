import Mathlib.Algebra.GroupWithZero.Nat
import Mathlib.Data.List.Basic

/-!
# Ordered lists of spans

A set of numbers as a list of spans, in order and with a gap between any two (`Spaced`). `take` removes a number of
elements from the first span that has them, `give` adds a span and joins it with its neighbours. Both keep the list
spaced (`Spaced.take`, `Spaced.give`), and do to the set and to the number of its elements what they should.
-/

namespace Spans

/-- The numbers from `start` on, `size` of them. -/
structure Span where
  start : Nat
  size : Nat
  deriving DecidableEq

/-- `x` is in one of the spans. -/
def Covers (rs : List Span) (x : Nat) : Prop := ∃ r ∈ rs, r.start ≤ x ∧ x < r.start + r.size

/-- The sizes together. -/
def total (rs : List Span) : Nat := (rs.map Span.size).sum

/-- No span is empty, and each one ends before the next one starts, with a gap between them. -/
structure Spaced (rs : List Span) : Prop where
  pos : ∀ r ∈ rs, 0 < r.size
  gap : rs.Pairwise fun r t => r.start + r.size < t.start

/-- `n` elements are removed from the first span that has them: their start, and what is left. -/
def take (n : Nat) : List Span → Option (Nat × List Span)
  | [] => none
  | r :: rs =>
    if n < r.size then some (r.start, ⟨r.start + n, r.size - n⟩ :: rs)
    else if r.size = n then some (r.start, rs)
    else (take n rs).map fun q => (q.1, r :: q.2)

/-- A span in front of the others, joined with the next one if there is no gap. -/
def joinNext (r : Span) : List Span → List Span
  | [] => [r]
  | t :: rs => if r.start + r.size = t.start then ⟨r.start, r.size + t.size⟩ :: rs else r :: t :: rs

/-- The elements from `x` on, `n` of them, are added. -/
def give (x n : Nat) : List Span → List Span
  | [] => [⟨x, n⟩]
  | r :: rs =>
    if r.start + r.size = x then joinNext ⟨r.start, r.size + n⟩ rs
    else if r.start = x + n then ⟨x, r.size + n⟩ :: rs
    else if x + n < r.start then ⟨x, n⟩ :: r :: rs
    else r :: give x n rs

variable {rs rs' : List Span} {r t : Span} {x y n lo : Nat}

@[simp] theorem covers_nil : ¬Covers [] x := fun h => by obtain ⟨r, hr, -⟩ := h; cases hr

theorem covers_cons : Covers (r :: rs) x ↔ (r.start ≤ x ∧ x < r.start + r.size) ∨ Covers rs x := by
  simp [Covers]

@[simp] theorem total_nil : total [] = 0 := rfl

@[simp] theorem total_cons : total (r :: rs) = r.size + total rs := by simp [total]

theorem spaced_nil : Spaced [] := ⟨by simp, .nil⟩

theorem spaced_cons : Spaced (r :: rs) ↔ 0 < r.size ∧ (∀ t ∈ rs, r.start + r.size < t.start) ∧ Spaced rs := by
  constructor
  · rintro ⟨hp, hg⟩
    obtain ⟨h1, h2⟩ := List.pairwise_cons.1 hg
    exact ⟨hp r (by simp), h1, fun t ht => hp t (by simp [ht]), h2⟩
  · rintro ⟨h0, h1, hs⟩
    refine ⟨fun t ht => ?_, List.pairwise_cons.2 ⟨h1, hs.gap⟩⟩
    rcases List.mem_cons.1 ht with rfl | ht
    · exact h0
    · exact hs.pos t ht

/-- The spans are apart from each other. -/
theorem Spaced.disjoint (hs : Spaced rs) : rs.Pairwise fun r t => ∀ x, ¬((r.start ≤ x ∧ x < r.start + r.size) ∧
    t.start ≤ x ∧ x < t.start + t.size) :=
  hs.gap.imp fun hlt x hx => by omega

/-- What lies in front of all spans is not covered. -/
theorem lt_of_covers (hlo : ∀ t ∈ rs, lo < t.start) (hx : Covers rs x) : lo < x := by
  obtain ⟨t, ht, hle, -⟩ := hx
  have := hlo t ht
  omega

/-- There are no more spans than elements. -/
theorem Spaced.length_le {hi : Nat} (hs : Spaced rs) (h : ∀ x, Covers rs x → lo ≤ x ∧ x < hi) : rs.length ≤ hi - lo := by
  induction rs generalizing lo with
  | nil => exact Nat.zero_le _
  | cons r rs ih =>
    obtain ⟨h0, h1, hs'⟩ := spaced_cons.1 hs
    have hr := h r.start (covers_cons.2 (.inl ⟨Nat.le_refl _, by omega⟩))
    have hrec : rs.length ≤ hi - (r.start + 1) := ih hs' fun x hx => by
      have := lt_of_covers h1 hx
      have := h x (covers_cons.2 (.inr hx))
      omega
    rw [List.length_cons]
    omega

/-- Elements that are not covered are before or behind each span. -/
theorem Spaced.apart (hs : Spaced rs) (hn : 0 < n) (hd : ∀ y, x ≤ y → y < x + n → ¬Covers rs y) (hr : r ∈ rs) :
    r.start + r.size ≤ x ∨ x + n ≤ r.start := by
  have h0 := hs.pos r hr
  by_contra hno
  exact hd (max x r.start) (by omega) (by omega) ⟨r, hr, by omega, by omega⟩

/-! ## `take` -/

theorem start_take {b : Nat} (ht : take n rs = some (b, rs')) (hlo : ∀ t ∈ rs, lo < t.start) : ∀ t ∈ rs', lo < t.start := by
  induction rs generalizing b rs' with
  | nil => cases ht
  | cons r rs ih =>
    have hr := hlo r (by simp)
    have hrs : ∀ t ∈ rs, lo < t.start := fun t ht => hlo t (by simp [ht])
    rw [take] at ht
    split at ht
    · cases ht
      intro t ht
      rcases List.mem_cons.1 ht with rfl | ht
      · dsimp only; omega
      · exact hrs t ht
    · split at ht
      · cases ht
        exact hrs
      · obtain ⟨q, hq, he⟩ := Option.map_eq_some_iff.1 ht
        cases he
        intro t ht
        rcases List.mem_cons.1 ht with rfl | ht
        · exact hr
        · exact ih hq hrs t ht

/-- What `take` does to a spaced list. -/
theorem Spaced.take {b : Nat} (hs : Spaced rs) (hn : 0 < n) (ht : take n rs = some (b, rs')) :
    Spaced rs' ∧ (∀ x, Covers rs x ↔ (b ≤ x ∧ x < b + n) ∨ Covers rs' x) ∧
      (∀ x, Covers rs' x → ¬(b ≤ x ∧ x < b + n)) ∧ total rs' + n = total rs := by
  induction rs generalizing b rs' with
  | nil => cases ht
  | cons r rs ih =>
    obtain ⟨h0, h1, hs⟩ := spaced_cons.1 hs
    have hafter {x : Nat} (hx : Covers rs x) := lt_of_covers h1 hx
    rw [Spans.take] at ht
    split at ht
    · rename_i hlt
      cases ht
      refine ⟨spaced_cons.2 ⟨by dsimp only; omega, fun t ht => ?_, hs⟩, fun x => ?_, fun x hx => ?_, ?_⟩
      · have := h1 t ht; dsimp only; omega
      · rw [covers_cons, covers_cons, ← or_assoc]
        exact or_congr_left (by dsimp only; omega)
      · rcases covers_cons.1 hx with hx | hx
        · dsimp only at hx; omega
        · have := hafter hx; omega
      · simp only [total_cons]; omega
    · split at ht
      · rename_i heq
        cases ht
        refine ⟨hs, fun x => by rw [covers_cons, heq], fun x hx => ?_, ?_⟩
        · have := hafter hx; omega
        · simp only [total_cons]; omega
      · obtain ⟨q, hq, he⟩ := Option.map_eq_some_iff.1 ht
        cases he
        obtain ⟨i1, i2, i3, i4⟩ := ih hs hq
        refine ⟨spaced_cons.2 ⟨h0, start_take hq h1, i1⟩, fun x => ?_, fun x hx => ?_, ?_⟩
        · rw [covers_cons, covers_cons, i2, or_left_comm]
        · rcases covers_cons.1 hx with hx | hx
          · have hb := hafter ((i2 q.1).2 (.inl ⟨Nat.le_refl _, by omega⟩))
            omega
          · exact i3 x hx
        · simp only [total_cons]; omega

/-! ## `give` -/

theorem total_joinNext : total (joinNext r rs) = r.size + total rs := by
  cases rs with
  | nil => simp [joinNext]
  | cons t rs =>
    rw [joinNext]
    split
    · simp only [total_cons]; omega
    · simp only [total_cons]

theorem covers_joinNext : Covers (joinNext r rs) x ↔ (r.start ≤ x ∧ x < r.start + r.size) ∨ Covers rs x := by
  cases rs with
  | nil => rw [joinNext, covers_cons]
  | cons t rs =>
    rw [joinNext]
    split
    · rw [covers_cons, covers_cons, ← or_assoc]
      exact or_congr_left (by dsimp only; omega)
    · rw [covers_cons]

theorem spaced_joinNext (h0 : 0 < r.size) (h1 : ∀ t ∈ rs, r.start + r.size ≤ t.start) (hs : Spaced rs) :
    Spaced (joinNext r rs) := by
  cases rs with
  | nil => exact spaced_cons.2 ⟨h0, by simp, spaced_nil⟩
  | cons t rs =>
    obtain ⟨ht0, ht1, hs'⟩ := spaced_cons.1 hs
    have ht := h1 t (by simp)
    rw [joinNext]
    split
    · refine spaced_cons.2 ⟨by dsimp only; omega, fun u hu => ?_, hs'⟩
      have := ht1 u hu
      dsimp only
      omega
    · refine spaced_cons.2 ⟨h0, fun u hu => ?_, hs⟩
      rcases List.mem_cons.1 hu with rfl | hu
      · omega
      · have := ht1 u hu; omega

theorem total_give : total (give x n rs) = total rs + n := by
  induction rs with
  | nil => simp [give]
  | cons r rs ih =>
    rw [give]
    split
    · rw [total_joinNext, total_cons]; dsimp only; omega
    · split
      · simp only [total_cons]; omega
      · split
        · simp only [total_cons]; omega
        · rw [total_cons, ih, total_cons, Nat.add_assoc]

theorem covers_give : Covers (give x n rs) y ↔ (x ≤ y ∧ y < x + n) ∨ Covers rs y := by
  induction rs with
  | nil => rw [give, covers_cons]
  | cons r rs ih =>
    rw [give]
    split
    · rw [covers_joinNext, covers_cons, ← or_assoc]
      exact or_congr_left (by dsimp only; omega)
    · split
      · rw [covers_cons, covers_cons, ← or_assoc]
        exact or_congr_left (by dsimp only; omega)
      · split
        · rw [covers_cons]
        · rw [covers_cons, covers_cons, ih, or_left_comm]

/-- The new elements are not among the old ones. -/
theorem Spaced.give (hs : Spaced rs) (hn : 0 < n) (hd : ∀ r ∈ rs, r.start + r.size ≤ x ∨ x + n ≤ r.start) :
    Spaced (give x n rs) := by
  induction rs with
  | nil => exact spaced_cons.2 ⟨hn, by simp, spaced_nil⟩
  | cons r rs ih =>
    obtain ⟨h0, h1, hs'⟩ := spaced_cons.1 hs
    have hr := hd r (by simp)
    have hrs : ∀ t ∈ rs, t.start + t.size ≤ x ∨ x + n ≤ t.start := fun t ht => hd t (by simp [ht])
    rw [Spans.give]
    split
    · rename_i heq
      refine spaced_joinNext (by dsimp only; omega) (fun t ht => ?_) hs'
      have := h1 t ht
      have := hrs t ht
      dsimp only
      omega
    · split
      · refine spaced_cons.2 ⟨by dsimp only; omega, fun t ht => ?_, hs'⟩
        have := h1 t ht
        dsimp only
        omega
      · split
        · refine spaced_cons.2 ⟨hn, fun t ht => ?_, hs⟩
          rcases List.mem_cons.1 ht with rfl | ht
          · assumption
          · have := h1 t ht; dsimp only; omega
        · refine spaced_cons.2 ⟨h0, fun t ht => ?_, ih hs' hrs⟩
          -- The new elements come after `r`.
          have hc : Covers (Spans.give x n rs) t.start :=
            ⟨t, ht, Nat.le_refl _, by have := (ih hs' hrs).pos t ht; omega⟩
          rcases covers_give.1 hc with hx | hx
          · omega
          · exact lt_of_covers h1 hx

end Spans
