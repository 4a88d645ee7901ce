import RtThread.Mm.AspaceScan

/-!
# Where a varea is placed

`_find_free` gives a place in the address space that overlaps no varea (`findFree_spec`), if wherever it rounds an address up
it does not pass the next varea or the end of the range, and no distance leaves a `ptrdiff_t` (`FreeFine`). Without an
alignment this is so for every range that starts at the first address of the space.
-/

namespace RtThread.RtAspace

open HeightTree
open UtilAvl (Forest)

/-- The vareas that have been mapped are those of the tree, one after another inside of the address space. -/
structure Spaced (c : AspaceConfig) (s : RtAspace) (t : HeightTree Nat) : Prop where
  forest : Forest.Inv ⟨s.tree, fun i => (s.varea i).start, s.mapped⟩ t
  apart : t.keys.Pairwise fun i j => finish (s.varea i) ≤ (s.varea j).start
  start_pos : ∀ v ∈ t.keys, 0 < (s.varea v).start
  size_pos : ∀ v ∈ t.keys, 0 < (s.varea v).size
  inside : ∀ v ∈ t.keys, s.start ≤ (s.varea v).start ∧ finish (s.varea v) ≤ s.start + s.size
  fits : s.start + s.size ≤ 2 ^ c.bits

/-- The range of `size` addresses from `va` on is in the address space and overlaps no varea. -/
structure Vacant (s : RtAspace) (va size : Nat) : Prop where
  above : s.start ≤ va
  below : va + size ≤ s.start + s.size
  apart : ∀ v ∈ s.mapped, finish (s.varea v) ≤ va ∨ va + size ≤ (s.varea v).start

/-! ## What the calls must keep to -/

/-- The alignment that `_find_free` uses. -/
def alignOf (flags : Nat) : Nat := (MmFlag.alignSize flags).getD 1

/-- The range that is preferred, from the rounded address on. -/
def preferred (c : AspaceConfig) (hint : RtMmVaHint) : MmRange :=
  ⟨align c hint.prefer (alignOf hint.flags),
    pred c ((align c hint.prefer (alignOf hint.flags) + hint.mapSize) % 2 ^ c.bits)⟩

/-- A varea is where the preferred range is to be. -/
def Taken (c : AspaceConfig) (s : RtAspace) (hint : RtMmVaHint) : Prop :=
  ∃ v ∈ s.mapped, compareOverlap c (preferred c hint) (s.varea v) = .eq

/-- `_find_free` looks for another place than the preferred one. -/
def Searches (c : AspaceConfig) (s : RtAspace) (hint : RtMmVaHint) : Prop :=
  hint.prefer = 0 ∨ MmFlag.test hint.flags MmFlag.mapFixed = false ∧ Taken c s hint

/-- The end of a varea, rounded up, does not pass the start of one after it. -/
def NextFine (c : AspaceConfig) (s : RtAspace) (a : Nat) : Prop :=
  ∀ v ∈ s.mapped, ∀ w ∈ s.mapped, (s.varea v).start < (s.varea w).start →
    align c (nextOf c (s.varea v)) a ≤ (s.varea w).start

/-- The start of the limits, rounded up, does not pass the varea after it or the end, and no varea is far above it or, if
none is above it, reaches past it. -/
structure HeadFine (c : AspaceConfig) (s : RtAspace) (hint : RtMmVaHint) : Prop where
  near : ∀ w ∈ s.mapped, (s.varea w).start < hint.limitStart + (2 ^ (c.bits - 1) - 1)
  above : ∀ w ∈ s.mapped, hint.limitStart ≤ (s.varea w).start →
    align c hint.limitStart (alignOf hint.flags) ≤ (s.varea w).start
  reach : (∀ w ∈ s.mapped, (s.varea w).start < hint.limitStart) →
    ∀ w ∈ s.mapped, finish (s.varea w) ≤ align c hint.limitStart (alignOf hint.flags)
  room : (∀ w ∈ s.mapped, (s.varea w).start < hint.limitStart) →
    align c hint.limitStart (alignOf hint.flags) ≤ hint.limitStart + hint.limitRangeSize ∧
      (Taken c s hint → align c hint.limitStart (alignOf hint.flags) + hint.mapSize ≤
        hint.limitStart + hint.limitRangeSize)

/-- Where `_find_free` rounds an address up, it stays where it is. -/
structure FreeFine (c : AspaceConfig) (s : RtAspace) (hint : RtMmVaHint) : Prop where
  prefer : hint.prefer ≠ 0 → ¬ Taken c s hint → (preferred c hint).start = 0 ∨
    (preferred c hint).start + hint.mapSize ≤ s.start + s.size
  next : Searches c s hint → NextFine c s (alignOf hint.flags)
  head : Searches c s hint → HeadFine c s hint

/-- The preferred address and the limits are in the address space, or zero. -/
structure HintIn (s : RtAspace) (hint : RtMmVaHint) : Prop where
  size_pos : 0 < hint.mapSize
  prefer : hint.prefer = 0 ∨ s.start ≤ hint.prefer ∧ hint.prefer < s.start + s.size
  limit : hint.limitStart = 0 ∨ s.start ≤ hint.limitStart
  range_pos : 0 < hint.limitRangeSize
  range : hint.limitStart + hint.limitRangeSize ≤ s.start + s.size

variable {c : AspaceConfig} {s : RtAspace} {t : HeightTree Nat} {hint : RtMmVaHint} {a b n fuel req va i v w : Nat}
  {xs ys : List Nat} {limit : MmRange} {x : RtVarea}

/-! ## Addresses -/

/-- An alignment is a power of two that a pointer can be rounded to. -/
theorem alignOf_spec (hint : RtMmVaHint) (h : MmFlag.alignSize hint.flags = some a) : alignOf hint.flags = a ∧ 0 < a ∧ a ≤ 2 ^ c.bits := by
  refine ⟨by rw [alignOf, h]; rfl, ?_⟩
  have hbits : 2 ^ 31 ≤ 2 ^ c.bits := Nat.pow_le_pow_right (by decide) (Nat.le_trans (by decide) c.int_le)
  rw [MmFlag.alignSize] at h
  split at h
  · split at h
    · rename_i hlt
      cases h
      exact ⟨Nat.two_pow_pos _, Nat.le_trans (Nat.pow_le_pow_right (by decide) (Nat.le_of_lt hlt)) hbits⟩
    · cases h
  · cases h
    exact ⟨Nat.one_pos, Nat.one_le_two_pow⟩

theorem alignSize_dvd (c : AspaceConfig) {flags : Nat} (h : MmFlag.alignSize flags = some a) : a ∣ 2 ^ c.bits := by
  rw [MmFlag.alignSize] at h
  split at h
  · split at h
    · rename_i hlt
      cases h
      exact Nat.pow_dvd_pow 2 (Nat.le_trans (Nat.le_of_lt hlt) (Nat.le_trans (by decide) c.int_le))
    · cases h
  · cases h
    exact Nat.one_dvd _

/-! ## Searching -/

section

variable (h : Spaced c s t)

include h

theorem Spaced.mem_iff : v ∈ s.mapped ↔ v ∈ t.keys := h.forest.live.mem_iff.symm

theorem Spaced.nodup : t.keys.Nodup := (List.nodup_append.1 h.forest.tree.nodup).1

theorem Spaced.length_le (hfuel : s.mapped.length ≤ fuel) : t.keys.length ≤ fuel :=
  h.forest.live.length_eq.trans_le hfuel

theorem Spaced.finish_le (hv : v ∈ t.keys) : finish (s.varea v) ≤ 2 ^ c.bits :=
  Nat.le_trans (h.inside v hv).2 h.fits

theorem Spaced.lined : Lined c s t :=
  ⟨h.forest.tree, h.apart, h.size_pos, fun _ hv => h.finish_le hv⟩

/-- The next varea from an address on is answered, if none is far above it. -/
theorem Spaced.exceed (hfuel : s.mapped.length ≤ fuel)
    (hnear : ∀ w ∈ s.mapped, (s.varea w).start < b + (2 ^ (c.bits - 1) - 1)) :
    ∃ x, s.bstSearchExceed c fuel b = some x ∧ First s t b x := by
  refine (exceed_iff h.lined (h.length_le hfuel)).2 (.inr ?_)
  have hfar : ∀ v ∈ t.keys, b < (s.varea v).start → (s.varea v).start - b < 2 ^ (c.bits - 1) - 1 := by
    intro v hv hlt
    have := hnear v (h.mem_iff.2 hv)
    omega
  by_cases hnext : ∃ v ∈ t.keys, b < (s.varea v).start
  · obtain ⟨v, hv, hlt⟩ := hnext
    refine .inr ⟨⟨v, hv, hlt, hfar v hv hlt⟩, fun w hw hwfar => ?_⟩
    have := hfar w (above_mem hw).1 (above_mem hw).2
    rw [Far] at hwfar
    omega
  · exact .inl fun v hv hlt => absurd ⟨v, hv, hlt⟩ hnext

/-! ## Looking for a place -/

/-- A place behind a varea is vacant. -/
theorem Spaced.place_behind (ha : 0 < a) (hle : a ≤ 2 ^ c.bits) (hnext : NextFine c s a) (hlast : last < s.start + s.size)
    (hv : v ∈ t.keys) (hp : PlaceFrom c s t req a last v va) : Vacant s va req := by
  have hfits := h.fits
  obtain ⟨-, hend, hfree, u, hu, hge⟩ := h.lined.placeFrom_unused ha hle (by omega)
    (fun u hu w hw hlt _ => hnext u (h.mem_iff.2 hu) w (h.mem_iff.2 hw) hlt) hv hp
  have hin := h.inside u hu
  have hpos := h.lined.start_lt hu
  exact ⟨by omega, by omega, fun w hw => hfree w (h.mem_iff.1 hw)⟩

end

/-- What `_find_head_and_asc_search` looks at is vacant. -/
theorem place_vacant (h : Spaced c s t) (hfuel : s.mapped.length ≤ fuel)
    (ha : 0 < alignOf hint.flags) (hle : alignOf hint.flags ≤ 2 ^ c.bits) (hin : HintIn s hint)
    (hnext : NextFine c s (alignOf hint.flags)) (hhead : HeadFine c s hint)
    (hlast : last + 1 = hint.limitStart + hint.limitRangeSize ∨ Taken c s hint ∧ last < s.start + s.size)
    (hp : Place c fuel s t hint.mapSize (alignOf hint.flags) hint.limitStart last va) (hva : va ≠ 0) :
    Vacant s va hint.mapSize := by
  have hfits := h.fits
  have hrange := hin.range
  have hpos := hin.range_pos
  have hsize := hin.size_pos
  have hlt : hint.limitStart < 2 ^ c.bits := by omega
  have hlast' : last < s.start + s.size := by omega
  obtain ⟨x, hx, hfirst⟩ := h.exceed hfuel hhead.near
  -- the rounded start is in the address space, unless it has wrapped
  have hstart (hne : align c hint.limitStart (alignOf hint.flags) ≠ 0) :
      hint.limitStart ≤ align c hint.limitStart (alignOf hint.flags) ∧
        s.start ≤ align c hint.limitStart (alignOf hint.flags) := by
    have hge := le_align ha hle hlt hne
    refine ⟨hge, ?_⟩
    rcases hin.limit with hzero | habove
    · rw [hzero, align_zero ha hle] at hne
      exact absurd rfl hne
    · exact Nat.le_trans habove hge
  cases hp with
  | last hw hroom =>
    cases hx.symm.trans hw
    have hbelow : ∀ w ∈ s.mapped, (s.varea w).start < hint.limitStart := fun w hw => hfirst w (h.mem_iff.1 hw)
    obtain ⟨hroom', htaken⟩ := hhead.room hbelow
    have hreach := hhead.reach hbelow
    refine ⟨(hstart hva).2, ?_, fun w hw => .inl (hreach w hw)⟩
    rcases hlast with heq | ⟨htake, -⟩
    · have := gapTo_le (c := c) (show align c hint.limitStart (alignOf hint.flags) ≤ last + 1 by omega) (by omega)
      omega
    · have := htaken htake
      omega
  | @start w hw hroom hfree =>
    cases hx.symm.trans hw
    obtain ⟨hwk, hlw, hleast⟩ := hfirst
    have hwin := (h.inside w hwk).2
    have hwlt := h.lined.start_lt hwk
    have hcw := hhead.above w (h.mem_iff.2 hwk) hlw
    rw [gapBefore, sub_eq hcw (h.lined.start_bound hwk)] at hroom
    obtain ⟨hge, hin'⟩ := hstart hva
    refine ⟨hin', by omega, fun u hu => ?_⟩
    have hk := h.mem_iff.1 hu
    have hnot := hfree u hk
    have hul := hleast u hk
    rw [Holds] at hnot
    omega
  | @former f w hw hroom hf hheld hbehind =>
    cases hx.symm.trans hw
    obtain ⟨hwk, hlw, hleast⟩ := hfirst
    obtain ⟨hfl, hlf⟩ := hheld
    obtain ⟨-, hge, hwrap⟩ := h.lined.behind_eq hf ha hle hva
    have hwin := (h.inside w hwk).2
    have hfin := (h.inside f hf).1
    have hwlt := h.lined.start_lt hwk
    have hcw := hhead.above w (h.mem_iff.2 hwk) hlw
    rw [gapBefore, sub_eq hcw (h.lined.start_bound hwk)] at hroom
    -- a varea that starts at the limits leaves no room, as its rounded end has not wrapped
    have hfw : f ≠ w := by
      rintro rfl
      rcases align_cases (c := c) ha hle hlt with ⟨-, hwrap'⟩ | ⟨hge', -⟩ <;> omega
    have hsep : finish (s.varea f) ≤ (s.varea w).start := by
      rcases h.lined.ordered hf hwk hfw with hle | hge' <;> omega
    have hcw' : behind c s (alignOf hint.flags) f ≤ (s.varea w).start :=
      hnext f (h.mem_iff.2 hf) w (h.mem_iff.2 hwk) (by omega)
    rw [gapBefore, sub_eq hcw' (h.lined.start_bound hwk)] at hbehind
    refine ⟨by omega, by omega, fun u hu => ?_⟩
    have hk := h.mem_iff.1 hu
    have hul := hleast u hk
    by_cases huf : u = f
    · rw [huf]
      exact .inl hge
    · rcases h.lined.ordered hk hf huf with hle | hge' <;> omega
  | next hw hp =>
    cases hx.symm.trans hw
    exact h.place_behind ha hle hnext hlast' hfirst.1 hp

/-- `_find_free` gives a vacant range, or nothing. -/
theorem findFree_spec (h : Spaced c s t) (hfuel : s.mapped.length ≤ fuel) (hin : HintIn s hint) (hfine : FreeFine c s hint)
    (hs : s.findFree c fuel hint.prefer hint.mapSize hint.limitStart hint.limitRangeSize hint.flags = some va)
    (hva : va ≠ 0) : Vacant s va hint.mapSize := by
  have hfits := h.fits
  have hrange := hin.range
  have hpos := hin.range_pos
  have hlast := pred_eq (c := c) (show 0 < hint.limitStart + hint.limitRangeSize by omega) (by omega)
  rw [findFree, hlast] at hs
  dsimp only at hs
  obtain ⟨a, halign, hs⟩ := Option.bind_eq_some_iff.1 hs
  obtain ⟨heq, ha, hle⟩ := alignOf_spec (c := c) hint halign
  subst heq
  have hhead : ∀ last, last < 2 ^ c.bits → Searches c s hint →
      (last + 1 = hint.limitStart + hint.limitRangeSize ∨ Taken c s hint ∧ last < s.start + s.size) →
      s.findHeadAndAscSearch c fuel hint.mapSize (alignOf hint.flags) ⟨hint.limitStart, last⟩ = some va →
      Vacant s va hint.mapSize := by
    intro last hlast hsearches hor hs
    obtain ⟨va', heq, hlow⟩ := findHead_lowest hint.mapSize ⟨hint.limitStart, last⟩ h.lined (h.length_le hfuel) ha hle hlast
    cases heq.symm.trans hs
    exact place_vacant h hfuel ha hle hin (hfine.next hsearches) (hfine.head hsearches) hor (hlow.of_ne_zero hva) hva
  split at hs
  · rename_i hprefer
    obtain ⟨hprange, hplt⟩ := hin.prefer.resolve_left hprefer
    have hpcases := align_cases (c := c) ha hle (show hint.prefer < 2 ^ c.bits by omega)
    rcases h.lined.overlap (h.length_le hfuel) (preferred c hint) with ⟨v, hv, hsome, hcmp⟩ | ⟨hnone, hother⟩
    · have htaken : Taken c s hint := ⟨v, h.mem_iff.2 hv, hcmp⟩
      rw [preferred] at hsome
      rw [hsome] at hs
      simp only [Option.bind_eq_bind, Option.bind_some] at hs
      split at hs
      · exact absurd (Option.some.inj hs).symm hva
      · rename_i hfixed
        have hsearches : Searches c s hint := .inr ⟨by simpa using hfixed, htaken⟩
        have hnext := hfine.next hsearches
        obtain ⟨va', hasc, hlow⟩ := ascendingSearch_lowest hint.mapSize ⟨hint.limitStart, hint.limitStart + hint.limitRangeSize - 1⟩
          h.lined (h.length_le hfuel) ha hle (by dsimp only; omega) hv
        rw [hasc] at hs
        simp only [Option.bind_some] at hs
        split at hs
        · have hvin := h.inside v hv
          have hvlt := h.lined.start_lt hv
          have hvpos := h.start_pos v hv
          have hpred : pred c (s.varea v).start = (s.varea v).start - 1 := by
            rw [← pred_eq (c := c) hvpos (by omega), Nat.mod_eq_of_lt (by omega)]
          exact hhead _ (pred_lt c _) hsearches (.inr ⟨htaken, by omega⟩) hs
        · rename_i hne
          cases hs
          exact h.place_behind ha hle hnext (by dsimp only; omega) hv (hlow.of_ne_zero hne)
    · have hnot : ¬ Taken c s hint := by
        rintro ⟨v, hv, hcmp⟩
        exact hother v (h.mem_iff.1 hv) hcmp
      have hroom := hfine.prefer hprefer hnot
      rw [preferred] at hnone hother hroom
      rw [hnone] at hs
      cases hs
      dsimp only at hroom
      generalize align c hint.prefer (alignOf hint.flags) = p at *
      rw [pred_eq (by omega) (by omega)] at hother
      refine ⟨by omega, by omega, ?_⟩
      intro v hv
      have hk := h.mem_iff.1 hv
      have hnot' := hother v hk
      have hlast' := h.lined.last_eq hk
      rw [Ne, compareOverlap_eq, hlast'] at hnot'
      dsimp only at hnot'
      omega
  · rename_i hprefer
    have hzero : hint.prefer = 0 := by simpa using hprefer
    have hsearches : Searches c s hint := .inl hzero
    exact hhead _ (by omega) hsearches (.inl (by omega)) hs

end RtThread.RtAspace
