import RtThread.Mm.AspaceFree

/-!
# The limits of `_find_free`

Whether the place that `_find_free` gives is in the limits, aligned and the fixed one, by where there is room
(`findFree_contract_iff`). A preferred address is not compared with the limits, a search behind a varea may start below them,
and the one from their start may end after them.
-/

namespace RtThread.RtAspace

open HeightTree

variable {c : AspaceConfig} {s : RtAspace} {t : HeightTree Nat} {fuel req a last bound ls lsize v prefer flags va : Nat}
  {P : Nat → Prop}

/-- What is expected of a place: it is in the limits, aligned, and the fixed address if there is one. -/
def InContract (req ls lsize prefer flags va : Nat) : Prop :=
  va ≠ 0 → ls ≤ va ∧ va + req ≤ ls + lsize ∧ alignOf flags ∣ va ∧
    (MmFlag.test flags MmFlag.mapFixed = true → prefer ≠ 0 → va = prefer)

/-- If there is a place from the start of the limits on, there is one that ends in them. -/
def FitsBelow (c : AspaceConfig) (fuel : Nat) (s : RtAspace) (t : HeightTree Nat) (req a bound ls last : Nat) : Prop :=
  (∃ p, Place c fuel s t req a ls last p) → ∃ p, Place c fuel s t req a ls last p ∧ (p = 0 ∨ p + req ≤ bound)

/-- An alignment that an `int` can be shifted to; and then: without a preferred address, the request fits into the limits if it
fits anywhere above their start. A preferred range that no varea overlaps is in the limits, and a fixed address is aligned. If
a varea overlaps it and the address is not fixed, the places from there on are not below the limits, and if there are none, the
request fits into the limits if it fits anywhere between their start and that varea. -/
structure ContractFine (c : AspaceConfig) (fuel : Nat) (s : RtAspace) (t : HeightTree Nat) (prefer req ls lsize flags a : Nat) :
    Prop where
  shift : MmFlag.alignSize flags = some a
  search : prefer = 0 → FitsBelow c fuel s t req a (ls + lsize) ls (ls + lsize - 1)
  free : prefer ≠ 0 → (∀ v ∈ t.keys,
      compareOverlap c ⟨align c prefer a, pred c ((align c prefer a + req) % 2 ^ c.bits)⟩ (s.varea v) ≠ .eq) →
    align c prefer a = 0 ∨ ls ≤ align c prefer a ∧ align c prefer a + req ≤ ls + lsize ∧
      (MmFlag.test flags MmFlag.mapFixed = true → a ∣ prefer)
  taken : prefer ≠ 0 → MmFlag.test flags MmFlag.mapFixed = false → ∀ v,
    s.bstSearchOverlap c fuel ⟨align c prefer a, pred c ((align c prefer a + req) % 2 ^ c.bits)⟩ =
      some (some v) →
    (∀ p, PlaceFrom c s t req a (ls + lsize - 1) v p → ls ≤ p) ∧
      ((∀ p, ¬ PlaceFrom c s t req a (ls + lsize - 1) v p) →
        FitsBelow c fuel s t req a (ls + lsize) ls (pred c (s.varea v).start))

/-- The lowest place ends at the bound or before, exactly if one does. -/
theorem Lowest.ends_iff (h : Lowest P va) : (va ≠ 0 → va + req ≤ bound) ↔ ((∃ p, P p) → ∃ p, P p ∧ (p = 0 ∨ p + req ≤ bound)) := by
  rcases h with ⟨hva, hall⟩ | ⟨rfl, hno⟩
  · constructor
    · intro hend _
      refine ⟨va, hva, ?_⟩
      rw [Classical.or_iff_not_imp_left]
      exact hend
    · intro hex hne
      obtain ⟨p, hp, hor⟩ := hex ⟨va, hva⟩
      have := hall p hp
      omega
  · exact iff_of_true (fun hne => absurd rfl hne) fun ⟨p, hp⟩ => absurd hp (hno p)

/-- Places from the start of the limits on are not below it, unless they have wrapped, and are aligned. -/
theorem Lined.place_above (h : Lined c s t) (hfuel : t.keys.length ≤ fuel) (ha : 0 < a) (hle : a ≤ 2 ^ c.bits)
    (hls : ls < 2 ^ c.bits) (hp : Place c fuel s t req a ls last va) : (va ≠ 0 → ls ≤ va) ∧ a ∣ va := by
  obtain ⟨y, hy, hexceed⟩ := h.exceed_weak hfuel ls
  cases hp with
  | last => exact ⟨le_align ha hle hls, align_dvd c ls a⟩
  | start => exact ⟨le_align ha hle hls, align_dvd c ls a⟩
  | @former f w _ _ hf hheld =>
    refine ⟨fun hne => ?_, align_dvd c _ a⟩
    have := (h.behind_eq hf ha hle hne).2.1
    have := hheld.2
    omega
  | @next w _ hw hp =>
    cases hy.symm.trans hw
    obtain ⟨hne, u, hu, hwu, -, rfl⟩ := hp
    refine ⟨fun _ => ?_, align_dvd c _ a⟩
    have := (h.behind_eq hu ha hle hne).2.1
    have := h.start_lt hu
    have := (hexceed w rfl).2
    omega

/-- The search from the start of the limits on, for a result that need not be a fixed address. -/
theorem Lined.head_contract_iff (h : Lined c s t) (hfuel : t.keys.length ≤ fuel) (halign : MmFlag.alignSize flags = some a)
    (hls : ls < 2 ^ c.bits) (hlast : last < 2 ^ c.bits) (hfixed : MmFlag.test flags MmFlag.mapFixed = true → prefer = 0) :
    (∃ va, s.findHeadAndAscSearch c fuel req a ⟨ls, last⟩ = some va ∧ InContract req ls lsize prefer flags va) ↔
      FitsBelow c fuel s t req a (ls + lsize) ls last := by
  obtain ⟨halignOf, ha, hle⟩ := alignOf_spec (c := c) ⟨0, 0, 0, 0, flags⟩ halign
  obtain ⟨va, heq, hlow⟩ := findHead_lowest req ⟨ls, last⟩ h hfuel ha hle hlast
  rw [FitsBelow, ← hlow.ends_iff, heq]
  simp only [Option.some.injEq, exists_eq_left']
  constructor
  · exact fun hc hne => (hc hne).2.1
  · intro he hne
    obtain ⟨habove, hdvd⟩ := h.place_above hfuel ha hle hls (hlow.of_ne_zero hne)
    exact ⟨habove hne, he hne, halignOf ▸ hdvd, fun hf hp => absurd (hfixed hf) hp⟩

end RtThread.RtAspace
