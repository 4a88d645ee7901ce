import Mathlib.Data.Finset.Max
import RtThread.Mm.AspacePlace

/-!
# What `_find_free` finds

Without an alignment and a fixed address, there is a place for every free range in the limits; but a place at `NULL` is not told
from none. So nothing is found only where there is none exactly if no such place is come to (`findFree_complete_iff`).
-/

namespace RtThread.RtAspace

open HeightTree

variable {c : AspaceConfig} {s : RtAspace} {t : HeightTree Nat} {fuel req last ls lsize x u v w p prefer flags : Nat}

/-! ## Places without an alignment -/

/-- The vareas that end at an unused range or before have one that is the last. -/
theorem last_before (hv : v ∈ t.keys) (hx : finish (s.varea v) ≤ x) :
    ∃ u ∈ t.keys, (s.varea v).start ≤ (s.varea u).start ∧ finish (s.varea u) ≤ x ∧
      ∀ w, nextVarea s t u = some w → w ∈ t.keys ∧ (s.varea u).start < (s.varea w).start ∧ x < finish (s.varea w) := by
  obtain ⟨u, hu, hmax⟩ := (t.keys.toFinset.filter fun u => finish (s.varea u) ≤ x).exists_max_image
    (fun u => (s.varea u).start) ⟨v, by simpa using ⟨hv, hx⟩⟩
  simp only [Finset.mem_filter, List.mem_toFinset, and_imp] at hu hmax
  refine ⟨u, hu.1, hmax v hv hx, hu.2, fun w hw => ?_⟩
  have hwk := List.mem_of_find?_eq_some hw
  have hlt : (s.varea u).start < (s.varea w).start := by simpa using List.find?_some hw
  refine ⟨hwk, hlt, Nat.not_le.1 fun hle => ?_⟩
  have := hmax w hwk hle
  omega

theorem Lined.behind_one (h : Lined c s t) (hv : v ∈ t.keys) (hlt : finish (s.varea v) < 2 ^ c.bits) :
    behind c s 1 v = finish (s.varea v) := by
  rcases nextOf_cases (h.finish_le v hv) with ⟨heq, -⟩ | ⟨-, hend⟩
  · rw [behind, heq, align_one hlt]
  · omega

/-- There is a place behind a varea or a later one exactly if there is an unused range. -/
theorem Lined.placeFrom_iff (h : Lined c s t) (hlast : last < 2 ^ c.bits) (hreq : 0 < req) (hv : v ∈ t.keys) :
    (∃ p, PlaceFrom c s t req 1 last v p) ↔ ∃ x, finish (s.varea v) ≤ x ∧ x + req ≤ last + 1 ∧ Unused s t x req := by
  constructor
  · rintro ⟨p, hp⟩
    have hnext : ∀ u ∈ t.keys, ∀ w ∈ t.keys, (s.varea u).start < (s.varea w).start → behind c s 1 u ≠ 0 →
        behind c s 1 u ≤ (s.varea w).start := by
      intro u hu w hw hlt _
      have hwlt := h.start_lt hw
      have hsep : finish (s.varea u) ≤ (s.varea w).start := by
        rcases h.ordered hu hw (by rintro rfl; omega) with hle | hge <;> omega
      rwa [h.behind_one hu (Nat.lt_of_le_of_lt hsep (h.start_bound hw))]
    obtain ⟨h1, h2, h3, -⟩ := h.placeFrom_unused Nat.one_pos Nat.one_le_two_pow hlast hnext hv hp
    exact ⟨p, h1, h2, h3⟩
  · rintro ⟨x, hx, hroom, hfree⟩
    obtain ⟨u, hu, hvu, hux, hnext⟩ := last_before hv hx
    have hlt := h.start_lt hu
    have hbehind := h.behind_one hu (by omega)
    refine ⟨behind c s 1 u, by omega, u, hu, hvu, ⟨by omega, by omega, ?_, ?_⟩, rfl⟩
    · rw [hbehind, gapTo_eq (by omega) (by omega) hlast]
      omega
    · cases hnx : nextVarea s t u with
      | none =>
        rw [hbehind, gapBehind, gapTo_eq (by omega) (by omega) hlast]
        omega
      | some w =>
        obtain ⟨hw, huw, hxw⟩ := hnext w hnx
        have hbeyond := (hfree w hw).resolve_left (Nat.not_le.2 hxw)
        rw [hbehind, h.gapBehind_eq hw (by omega) (by omega) (by omega) hlast]
        omega

/-- There is a place for an unused range in the limits. -/
theorem Lined.place_exists (h : Lined c s t) (hfuel : t.keys.length ≤ fuel) (hls : ls < 2 ^ c.bits) (hlast : last < 2 ^ c.bits)
    (hreq : 0 < req) (hpos : 0 < ls ∨ ∃ w, s.bstSearchExceed c fuel ls = some (some w) ∧ (s.varea w).start < req)
    (hx : ls ≤ x) (hroom : x + req ≤ last + 1) (hfree : Unused s t x req) : ∃ p, Place c fuel s t req 1 ls last p := by
  obtain ⟨y, hy, hexceed⟩ := h.exceed_weak hfuel ls
  have hone := align_one hls
  cases y with
  | none =>
    have hls : 0 < ls := hpos.resolve_right fun ⟨_, hw, _⟩ => nomatch hy.symm.trans hw
    exact ⟨_, .last hy (by rw [hone, gapTo_eq hls (by omega) hlast]; omega)⟩
  | some w =>
    obtain ⟨hw, hlw⟩ := hexceed w rfl
    have hwlt := h.start_bound hw
    rcases hfree w hw with hbefore | hbeyond
    · obtain ⟨p, hp⟩ := (h.placeFrom_iff hlast hreq hw).2 ⟨x, hbefore, hroom, hfree⟩
      exact ⟨p, .next hy hp⟩
    · have hgap : req ≤ gapBefore c s w (align c ls 1) := by
        rw [gapBefore, hone, sub_eq hlw hwlt]
        omega
      by_cases hheld : ∃ f ∈ t.keys, Holds s f ls
      · obtain ⟨f, hf, hfl, hlf⟩ := hheld
        have hfx := (hfree f hf).resolve_right (by omega)
        refine ⟨_, .former hy hgap hf ⟨hfl, hlf⟩ ?_⟩
        rw [gapBefore, h.behind_one hf (by omega), sub_eq (by omega) hwlt]
        omega
      · exact ⟨_, .start hy hgap fun f hf hh => hheld ⟨f, hf, hh⟩⟩

/-- No place is at `NULL`, if the limits start above it, or if a varea that is below the end of the request is met. -/
theorem Lined.place_ne_zero (h : Lined c s t) (hfuel : t.keys.length ≤ fuel) (hls : ls < 2 ^ c.bits) (hreq : 0 < req)
    (hpos : 0 < ls ∨ ∃ w, s.bstSearchExceed c fuel ls = some (some w) ∧ (s.varea w).start < req)
    (hp : Place c fuel s t req 1 ls last p) : p ≠ 0 := by
  have hone := align_one hls
  obtain ⟨y, hy, hexceed⟩ := h.exceed_weak hfuel ls
  cases hp with
  | last hw hroom =>
    have hls : 0 < ls := hpos.resolve_right fun ⟨_, hw', _⟩ => nomatch hw.symm.trans hw'
    omega
  | @start w hw hroom hfree =>
    cases hy.symm.trans hw
    obtain ⟨hwk, hlw⟩ := hexceed w rfl
    rw [hone, gapBefore, sub_eq hlw (h.start_bound hwk)] at hroom
    rcases hpos with hpos | ⟨u, hu, hless⟩
    · omega
    · cases hw.symm.trans hu
      omega
  | @former f w hw hroom hf hheld hbehind =>
    cases hy.symm.trans hw
    obtain ⟨hwk, hlw⟩ := hexceed w rfl
    obtain ⟨hfl, hlf⟩ := hheld
    have hwlt := h.start_bound hwk
    rw [hone, gapBefore, sub_eq hlw hwlt] at hroom
    have := h.start_lt hwk
    rcases h.ordered hf hwk (by rintro rfl; omega) with hle | hge
    · rw [h.behind_one hf (by omega)]
      omega
    · omega
  | next hw hp => exact hp.1

/-- Otherwise the place at `NULL` is come to. -/
theorem Lined.place_null (h : Lined c s t) (hfuel : t.keys.length ≤ fuel) (hreq : 0 < req)
    (hno : ∀ w, s.bstSearchExceed c fuel 0 = some (some w) → req ≤ (s.varea w).start)
    (hlow : Lowest (Place c fuel s t req 1 0 last) p) : p = 0 := by
  have hzero : align c 0 1 = 0 := align_one (Nat.two_pow_pos _)
  obtain ⟨y, hy, hexceed⟩ := h.exceed_weak hfuel 0
  by_contra hne
  cases y with
  | none =>
    cases hlow.of_ne_zero hne with
    | last => exact hne hzero
    | start hw => cases hy.symm.trans hw
    | former hw => cases hy.symm.trans hw
    | next hw => cases hy.symm.trans hw
  | some w =>
    have hw := hno w hy
    have hwlt := h.start_bound (hexceed w rfl).1
    have hplace : Place c fuel s t req 1 0 last (align c 0 1) := by
      refine .start hy (by rwa [hzero, gapBefore, sub_eq (Nat.zero_le _) hwlt]) fun f hf hheld => ?_
      -- a varea at `NULL` would be the next one
      rcases exceed_least h hfuel 0 with ⟨v, -, hkey, heq⟩ | ⟨hnone, -⟩
      · cases hy.symm.trans heq
        omega
      · exact hnone f hf (Nat.le_zero.1 hheld.1)
    rcases hlow with ⟨-, hall⟩ | ⟨heq, -⟩
    · exact hne (Nat.le_zero.1 (hzero ▸ hall _ hplace))
    · exact hne heq

/-! ## Completeness -/

/-- No place at `NULL` is come to: the limits start above it; or they hold no unused range; or no varea overlaps the preferred
range, or one from its start on is unused; or a varea starts below the end of a request at `NULL`, and the search from there
finds the lowest one or meets such a one half of the address space away. -/
def NullFine (c : AspaceConfig) (s : RtAspace) (t : HeightTree Nat) (prefer req ls lsize : Nat) : Prop :=
  0 < ls ∨ (∀ x, ls ≤ x → x + req ≤ ls + lsize → ¬ Unused s t x req) ∨
    prefer ≠ 0 ∧ ((∀ v ∈ t.keys, compareOverlap c ⟨prefer, pred c ((prefer + req) % 2 ^ c.bits)⟩ (s.varea v) ≠ .eq) ∨
      ∃ x, prefer ≤ x ∧ ls ≤ x ∧ x + req ≤ ls + lsize ∧ Unused s t x req) ∨
    ExceedFine c s t 0 ∧ (∃ v ∈ t.keys, (s.varea v).start < req) ∨ ∃ v ∈ above s 0 t, Far c s 0 v ∧ (s.varea v).start < req

/-- The search from the start of the limits on, in limits that reach as far as every unused range. -/
theorem Lined.head_complete_iff (h : Lined c s t) (hfuel : t.keys.length ≤ fuel) (hreq : 0 < req) (hls : ls < 2 ^ c.bits)
    (hl : last < 2 ^ c.bits) (hcover : ∀ x, ls ≤ x → x + req ≤ ls + lsize → Unused s t x req → x + req ≤ last + 1) :
    (∃ va, s.findHeadAndAscSearch c fuel req 1 ⟨ls, last⟩ = some va ∧
      (va = 0 → ∀ x, ls ≤ x → x + req ≤ ls + lsize → ¬ Unused s t x req)) ↔
      0 < ls ∨ (∀ x, ls ≤ x → x + req ≤ ls + lsize → ¬ Unused s t x req) ∨
        ExceedFine c s t 0 ∧ (∃ v ∈ t.keys, (s.varea v).start < req) ∨
          ∃ v ∈ above s 0 t, Far c s 0 v ∧ (s.varea v).start < req := by
  have hexceed : (∃ w, s.bstSearchExceed c fuel 0 = some (some w) ∧ (s.varea w).start < req) ↔ _ := exceed_lt_iff h hfuel
  simp only [Nat.zero_le, true_and] at hexceed
  rw [← hexceed]
  obtain ⟨va, heq, hlow⟩ := findHead_lowest req ⟨ls, last⟩ h hfuel Nat.one_pos Nat.one_le_two_pow hl
  by_cases hpos : 0 < ls ∨ ∃ w, s.bstSearchExceed c fuel ls = some (some w) ∧ (s.varea w).start < req
  · refine iff_of_true ⟨va, heq, fun hva x hx hroom hfree => ?_⟩ ?_
    · have hex := h.place_exists hfuel hls hl hreq hpos hx (hcover x hx hroom hfree) hfree
      exact (hlow.ne_zero_iff fun p hp => h.place_ne_zero hfuel hls hreq hpos hp).2 hex hva
    · rcases Nat.eq_zero_or_pos ls with rfl | hls
      · exact .inr (.inr (hpos.resolve_left (Nat.lt_irrefl 0)))
      · exact .inl hls
  · obtain ⟨hzero, hno⟩ := not_or.1 hpos
    obtain rfl : ls = 0 := Nat.eq_zero_of_not_pos hzero
    have hnull := h.place_null hfuel hreq (fun w hw => Nat.not_lt.1 fun hless => hno ⟨w, hw, hless⟩) hlow
    rw [heq, hnull]
    simp only [Option.some.injEq, exists_eq_left', forall_const, Nat.lt_irrefl, false_or, hno, or_false]

/-- **`_find_free` finds a place where there is one**, without an alignment and a fixed address, exactly where it does not come
to a place at `NULL`. -/
theorem findFree_complete_iff (h : Lined c s t) (hfuel : t.keys.length ≤ fuel) (hprefer : prefer < 2 ^ c.bits) (hreq : 0 < req)
    (hls : ls < 2 ^ c.bits) (hend : ls + lsize ≤ 2 ^ c.bits)
    (halign : MmFlag.test flags MmFlag.requestAlign = false)
    (hfixed : MmFlag.test flags MmFlag.mapFixed = false) :
    (∃ va, s.findFree c fuel prefer req ls lsize flags = some va ∧
      (va = 0 → ∀ x, ls ≤ x → x + req ≤ ls + lsize → ∃ v ∈ t.keys, (s.varea v).start < x + req ∧ x < finish (s.varea v))) ↔
      NullFine c s t prefer req ls lsize := by
  have hused : (∀ x, ls ≤ x → x + req ≤ ls + lsize → ∃ v ∈ t.keys, (s.varea v).start < x + req ∧ x < finish (s.varea v)) ↔
      ∀ x, ls ≤ x → x + req ≤ ls + lsize → ¬ Unused s t x req := by
    refine forall_congr' fun x => imp_congr_right fun _ => imp_congr_right fun _ => ?_
    simp only [Unused, not_forall, not_or, Nat.not_le, exists_prop, and_comm]
  simp only [hused]
  have hone : MmFlag.alignSize flags = some 1 := by rw [MmFlag.alignSize, halign]; rfl
  obtain ⟨last, hlast⟩ : ∃ last, last = pred c ((ls + lsize) % 2 ^ c.bits) := ⟨_, rfl⟩
  have hlt : last < 2 ^ c.bits := hlast ▸ pred_lt c _
  have hlimit : 0 < ls + lsize → last + 1 = ls + lsize := by
    intro hpos
    rw [hlast, pred_eq hpos hend]
    omega
  rw [findFree, hone, NullFine, ← hlast]
  simp only [Option.bind_eq_bind, Option.bind_some, align_one hprefer, hfixed]
  by_cases hp : prefer ≠ 0
  · rw [if_pos hp]
    rcases h.overlap hfuel ⟨prefer, pred c ((prefer + req) % 2 ^ c.bits)⟩ with ⟨v, hv, hsome, hcmp⟩ | ⟨hnone, hother⟩
    · obtain ⟨hvlast, hvfin⟩ := (h.compareOverlap_iff hv _).1 hcmp
      obtain ⟨va, hasc, hlow⟩ := ascendingSearch_lowest req ⟨ls, last⟩ h hfuel Nat.one_pos Nat.one_le_two_pow hlt hv
      have hroom : va ≠ 0 ↔ ∃ x, finish (s.varea v) ≤ x ∧ x + req ≤ last + 1 ∧ Unused s t x req :=
        (hlow.ne_zero_iff fun p hp => hp.1).trans (h.placeFrom_iff hlt hreq hv)
      -- an unused range from the preferred address on is behind the varea
      have hfrom : ∀ x, prefer ≤ x → x + req ≤ ls + lsize → Unused s t x req → finish (s.varea v) ≤ x := by
        intro x hx hxroom hfree
        rw [pred_eq (by omega) (by omega)] at hvlast
        rcases hfree v hv with hbefore | hbeyond <;> omega
      rw [hsome]
      simp only [Option.bind_some, Bool.false_eq_true, if_false]
      rw [hasc]
      simp only [Option.bind_some]
      split
      · rename_i hzero
        have hnone : ¬ ∃ x, finish (s.varea v) ≤ x ∧ x + req ≤ last + 1 ∧ Unused s t x req := fun hx => hroom.2 hx hzero
        rw [h.head_complete_iff hfuel hreq hls (pred_lt c _) fun x hx hxroom hfree => ?_]
        · have hthird : ¬ (prefer ≠ 0 ∧ ((∀ v ∈ t.keys,
              compareOverlap c ⟨prefer, pred c ((prefer + req) % 2 ^ c.bits)⟩ (s.varea v) ≠ .eq) ∨ ∃ x, prefer ≤ x ∧ ls ≤ x ∧ x + req ≤ ls + lsize ∧ Unused s t x req)) := by
            rintro ⟨-, hall | ⟨x, hx, -, hxroom, hfree⟩⟩
            · exact hall v hv hcmp
            · exact hnone ⟨x, hfrom x hx hxroom hfree, by omega, hfree⟩
          simp only [hthird, false_or]
        · rcases hfree v hv with hbefore | hbeyond
          · exact absurd ⟨x, hbefore, by omega, hfree⟩ hnone
          · have hbound := h.start_bound hv
            have hpred := pred_eq (c := c) (show 0 < (s.varea v).start by omega) (by omega)
            rw [Nat.mod_eq_of_lt hbound] at hpred
            omega
      · rename_i hne
        obtain ⟨x, hx, hxroom, hfree⟩ := hroom.1 hne
        refine iff_of_true ⟨_, rfl, fun hva => absurd hva hne⟩ ?_
        rcases Nat.eq_zero_or_pos ls with rfl | hls
        · refine .inr ?_
          rcases Nat.eq_zero_or_pos lsize with rfl | hsize
          · exact .inl fun x _ hxroom => absurd hxroom (by omega)
          · have hend := hlimit (by omega)
            exact .inr (.inl ⟨hp, .inr ⟨x, by omega, Nat.zero_le _, by omega, hfree⟩⟩)
        · exact .inl hls
    · rw [hnone]
      exact iff_of_true ⟨_, rfl, fun hva => absurd hva hp⟩ (.inr (.inr (.inl ⟨hp, .inl hother⟩)))
  · rw [if_neg hp, h.head_complete_iff hfuel hreq hls hlt fun x _ hxroom _ => by have := hlimit (by omega); omega]
    simp only [hp, false_and, false_or]

/-- A gap of a page between two vareas, and two pages that are looked for from there on, in limits that start at `NULL`. -/
theorem findFree_complete_gap : ∃ va, (farSpace 0x1000 0x3000).findFree word64 2 0x2000 0x2000 0 0x8000 0 = some va ∧
    (va = 0 → ∀ x, 0 ≤ x → x + 0x2000 ≤ 0 + 0x8000 → ∃ v ∈ farTree.keys,
      ((farSpace 0x1000 0x3000).varea v).start < x + 0x2000 ∧ x < finish ((farSpace 0x1000 0x3000).varea v)) :=
  (findFree_complete_iff (farSpace_lined (by decide) (by decide)) (by decide) (by decide) (by decide) (by decide) (by decide)
    (by decide) (by decide)).2 (.inr (.inr (.inl ⟨by decide, .inr ⟨0x4000, by decide, by decide, by decide, by unfold Unused; decide⟩⟩)))

/-- In limits that start at `NULL`, the free place there is given, which stands for none, though there are others. -/
theorem findFree_null : Lined word64 (farSpace 0x10000 0x20000) farTree ∧
    (farSpace 0x10000 0x20000).findFree word64 2 0 0x1000 0 0x30000 0 = some 0 ∧
    ¬ ∀ x, 0 ≤ x → x + 0x1000 ≤ 0 + 0x30000 → ∃ v ∈ farTree.keys,
      ((farSpace 0x10000 0x20000).varea v).start < x + 0x1000 ∧ x < finish ((farSpace 0x10000 0x20000).varea v) := by
  refine ⟨farSpace_lined (by decide) (by decide), by decide, ?_⟩
  intro hall
  have hused := hall 0x12000 (by decide) (by decide)
  exact absurd hused (by decide)

end RtThread.RtAspace
