import RtThread.Mm.AspaceSearch

/-!
# The places that `_find_free` looks at

The start of the limits or the end of a varea, rounded up, is a place for a request if it has room up to the next varea and the
limits (`Place`). `_ascending_search` and `_find_head_and_asc_search` give the lowest one (`ascendingSearch_lowest`,
`findHead_lowest`).
-/

namespace RtThread.RtAspace

open HeightTree
open UtilAvl (next_of_keys)

variable {c : AspaceConfig} {s : RtAspace} {t : HeightTree Nat} {fuel n req a b last ls u v w p va x y : Nat}
  {xs ys : List Nat} {limit : MmRange} {r : RtVarea} {P Q : Nat → Prop}

/-! ## Addresses -/

/-- A rounded address is above the address, or it has wrapped to zero. -/
theorem align_cases (ha : 0 < a) (hle : a ≤ 2 ^ c.bits) (hva : va < 2 ^ c.bits) :
    align c va a = 0 ∧ 2 ^ c.bits < va + a ∨ va ≤ align c va a ∧ va + a ≤ 2 ^ c.bits := by
  simp only [align]
  by_cases hwrap : va + (a - 1) < 2 ^ c.bits
  · right
    rw [Nat.mod_eq_of_lt hwrap]
    have := Nat.mod_lt (va + (a - 1)) ha
    omega
  · left
    have heq : (va + (a - 1)) % 2 ^ c.bits = va + (a - 1) - 2 ^ c.bits := by
      rw [Nat.mod_eq_sub_mod (by omega), Nat.mod_eq_of_lt (by omega)]
    rw [heq, Nat.mod_eq_of_lt (by omega)]
    omega

theorem align_zero (ha : 0 < a) (hle : a ≤ 2 ^ c.bits) : align c 0 a = 0 := by
  simp only [align]
  rw [Nat.zero_add, Nat.mod_eq_of_lt (by omega), Nat.mod_eq_of_lt (by omega), Nat.sub_self]

theorem align_one (h : va < 2 ^ c.bits) : align c va 1 = va := by
  simp only [align]
  rw [Nat.sub_self, Nat.add_zero, Nat.mod_eq_of_lt h, Nat.mod_one, Nat.sub_zero]

theorem align_mono (hxy : x ≤ y) (hy : y + (a - 1) < 2 ^ c.bits) : align c x a ≤ align c y a := by
  simp only [align]
  rw [Nat.mod_eq_of_lt (by omega), Nat.mod_eq_of_lt hy]
  have hdiv : (x + (a - 1)) / a ≤ (y + (a - 1)) / a := Nat.div_le_div_right (by omega)
  have h1 := Nat.div_add_mod (x + (a - 1)) a
  have h2 := Nat.div_add_mod (y + (a - 1)) a
  have h3 := Nat.mul_le_mul_left a hdiv
  omega

theorem align_dvd (c : AspaceConfig) (x a : Nat) : a ∣ align c x a := Nat.dvd_sub_mod _

theorem le_align (ha : 0 < a) (hle : a ≤ 2 ^ c.bits) (hx : x < 2 ^ c.bits) (hne : align c x a ≠ 0) : x ≤ align c x a := by
  rcases align_cases ha hle hx with ⟨hzero, -⟩ | ⟨hge, -⟩
  · exact absurd hzero hne
  · exact hge

theorem align_of_dvd (ha : 0 < a) (hle : a ∣ 2 ^ c.bits) (hx : x < 2 ^ c.bits) (hdvd : a ∣ x) : align c x a = x := by
  obtain ⟨k, rfl⟩ := hdvd
  obtain ⟨m, hm⟩ := hle
  have hkm : k + 1 ≤ m := Nat.lt_of_mul_lt_mul_left (hm ▸ hx)
  have hroom := Nat.mul_le_mul_left a hkm
  rw [Nat.mul_succ] at hroom
  simp only [align]
  rw [Nat.mod_eq_of_lt (by omega), Nat.mul_add_mod, Nat.mod_eq_of_lt (show a - 1 < a by omega), Nat.add_sub_cancel]

theorem pred_lt (c : AspaceConfig) (x : Nat) : pred c x < 2 ^ c.bits := Nat.mod_lt _ (Nat.two_pow_pos _)

theorem gapTo_le {cand : Nat} (hcand : cand ≤ last + 1) (hlast : last < 2 ^ c.bits) : gapTo c last cand ≤ last + 1 - cand := by
  have heq : last + (2 ^ c.bits - cand) + 1 = last + 1 - cand + 2 ^ c.bits := by omega
  rw [gapTo, heq, Nat.add_mod_right]
  exact Nat.mod_le _ _

theorem gapTo_eq {cand : Nat} (hpos : 0 < cand) (hcand : cand ≤ last + 1) (hlast : last < 2 ^ c.bits) :
    gapTo c last cand = last + 1 - cand := by
  have heq : last + (2 ^ c.bits - cand) + 1 = last + 1 - cand + 2 ^ c.bits := by omega
  rw [gapTo, heq, Nat.add_mod_right, Nat.mod_eq_of_lt (by omega)]

theorem nextOf_cases (h : finish r ≤ 2 ^ c.bits) : nextOf c r = finish r ∧ finish r < 2 ^ c.bits ∨
    nextOf c r = 0 ∧ finish r = 2 ^ c.bits := by
  rcases Nat.lt_or_eq_of_le h with hlt | heq
  · exact .inl ⟨Nat.mod_eq_of_lt hlt, hlt⟩
  · refine .inr ⟨?_, heq⟩
    change finish r % _ = 0
    rw [heq, Nat.mod_self]

/-! ## Places -/

/-- The end of a varea, rounded up. -/
def behind (c : AspaceConfig) (s : RtAspace) (a v : Nat) : Nat := align c (nextOf c (s.varea v)) a

/-- The next varea after one. -/
def nextVarea (s : RtAspace) (t : HeightTree Nat) (v : Nat) : Option Nat :=
  t.keys.find? fun w => decide ((s.varea v).start < (s.varea w).start)

/-- What is left from `candidate` up to the next varea or the end, whichever is lower, as `_ascending_search` computes it. -/
def gapBehind (c : AspaceConfig) (s : RtAspace) (last candidate : Nat) : Option Nat → Nat
  | none => gapTo c last candidate
  | some w => gapTo c (lower last (pred c (s.varea w).start)) candidate

/-- A varea starts before the end and has room for the request behind it, up to the end and to the next varea. -/
def RoomBehind (c : AspaceConfig) (s : RtAspace) (t : HeightTree Nat) (req a last v : Nat) : Prop :=
  (s.varea v).start < last ∧ behind c s a v ≤ last ∧ req ≤ gapTo c last (behind c s a v) ∧
    req ≤ gapBehind c s last (behind c s a v) (nextVarea s t v)

/-- A place behind one of the vareas from `v` on. -/
def PlaceFrom (c : AspaceConfig) (s : RtAspace) (t : HeightTree Nat) (req a last v p : Nat) : Prop :=
  p ≠ 0 ∧ ∃ u ∈ t.keys, (s.varea v).start ≤ (s.varea u).start ∧ RoomBehind c s t req a last u ∧ p = behind c s a u

/-- The address is in the varea. -/
def Holds (s : RtAspace) (v addr : Nat) : Prop := (s.varea v).start ≤ addr ∧ addr < finish (s.varea v)

/-- What is left from `candidate` up to a varea, as `_find_head_and_asc_search` computes it. -/
def gapBefore (c : AspaceConfig) (s : RtAspace) (w candidate : Nat) : Nat :=
  ((s.varea w).start + (2 ^ c.bits - candidate)) % 2 ^ c.bits

/-- A place for a request from the start of the limits on: their start, rounded up, if there is no varea above it; or if no
varea holds it and there is room up to the next one; or the end of the varea that holds it; or one behind a varea from the next
one on. -/
inductive Place (c : AspaceConfig) (fuel : Nat) (s : RtAspace) (t : HeightTree Nat) (req a ls last : Nat) : Nat → Prop
  | last (hw : s.bstSearchExceed c fuel ls = some none) (hroom : req ≤ gapTo c last (align c ls a)) :
    Place c fuel s t req a ls last (align c ls a)
  | start {w : Nat} (hw : s.bstSearchExceed c fuel ls = some (some w)) (hroom : req ≤ gapBefore c s w (align c ls a))
    (hfree : ∀ f ∈ t.keys, ¬ Holds s f ls) : Place c fuel s t req a ls last (align c ls a)
  | former {v w : Nat} (hw : s.bstSearchExceed c fuel ls = some (some w)) (hroom : req ≤ gapBefore c s w (align c ls a))
    (hv : v ∈ t.keys) (hheld : Holds s v ls) (hbehind : req ≤ gapBefore c s w (behind c s a v)) :
    Place c fuel s t req a ls last (behind c s a v)
  | next {w p : Nat} (hw : s.bstSearchExceed c fuel ls = some (some w)) (hp : PlaceFrom c s t req a last w p) :
    Place c fuel s t req a ls last p

/-- The least number of a kind; or zero, and there is none. -/
def Lowest (P : Nat → Prop) (p : Nat) : Prop := P p ∧ (∀ q, P q → p ≤ q) ∨ p = 0 ∧ ∀ q, ¬ P q

theorem Lowest.congr (h : Lowest P p) (hiff : ∀ q, P q ↔ Q q) : Lowest Q p := by
  rwa [← funext fun q => propext (hiff q)]

theorem Lowest.of_ne_zero (h : Lowest P p) (hne : p ≠ 0) : P p := by
  rcases h with ⟨hp, -⟩ | ⟨hzero, -⟩
  · exact hp
  · exact absurd hzero hne

theorem Lowest.ne_zero_iff (h : Lowest P p) (hpos : ∀ q, P q → q ≠ 0) : p ≠ 0 ↔ ∃ q, P q := by
  rcases h with ⟨hp, -⟩ | ⟨rfl, hno⟩
  · exact iff_of_true (hpos p hp) ⟨p, hp⟩
  · exact iff_of_false (fun hne => hne rfl) fun ⟨q, hq⟩ => hno q hq

/-! ## The order of the places -/

theorem Lined.nextVarea_eq (h : Lined c s t) (ht : t.keys = xs ++ v :: ys) : nextVarea s t v = ys.head? := by
  have hv : v ∈ t.keys := by simp [ht]
  have hlt := h.start_lt hv
  have hxs : xs.find? (fun w => decide ((s.varea v).start < (s.varea w).start)) = none := by
    rw [List.find?_eq_none]
    intro w hw
    have := h.before ht hw
    have := h.start_lt (v := w) (by simp [ht, hw])
    simp only [decide_eq_true_eq]
    omega
  rw [nextVarea, ht, List.find?_append, hxs, Option.none_or, List.find?_cons_of_neg (by simp)]
  cases ys with
  | nil => rfl
  | cons w ys =>
    have := h.after ht (w := w) List.mem_cons_self
    exact List.find?_cons_of_pos (by simp only [decide_eq_true_eq]; omega)

/-- The next varea starts at a later one or before. -/
theorem Lined.nextVarea_le (h : Lined c s t) (hw : w ∈ t.keys) (hlt : (s.varea v).start < (s.varea w).start) :
    ∃ x ∈ t.keys, nextVarea s t v = some x ∧ (s.varea v).start < (s.varea x).start ∧
      (s.varea x).start ≤ (s.varea w).start := by
  cases hx : nextVarea s t v with
  | none => exact absurd (by simpa using hlt) (List.find?_eq_none.1 hx w hw)
  | some x =>
    obtain ⟨hvx, xs, ys, ht, hxs⟩ := List.find?_eq_some_iff_append.1 hx
    refine ⟨x, by simp [ht], rfl, of_decide_eq_true hvx, ?_⟩
    rw [ht] at hw
    rcases List.mem_append.1 hw with hw | hw
    · exact absurd hlt (by simpa using hxs w hw)
    · rcases List.mem_cons.1 hw with rfl | hw
      · exact Nat.le_refl _
      · have := h.after ht hw
        have := h.start_lt (v := x) (by simp [ht])
        omega

/-- The vareas from one on are it and those after it. -/
theorem Lined.mem_from (h : Lined c s t) (ht : t.keys = xs ++ v :: ys) (hu : u ∈ t.keys)
    (hle : (s.varea v).start ≤ (s.varea u).start) : u = v ∨ u ∈ ys := by
  have hlt := h.start_lt hu
  rw [ht] at hu
  rcases List.mem_append.1 hu with hu | hu
  · have := h.before ht hu
    omega
  · exact List.mem_cons.1 hu

/-- Of two vareas, the one that starts first ends first. -/
theorem Lined.finish_mono (h : Lined c s t) (hv : v ∈ t.keys) (hu : u ∈ t.keys)
    (hle : (s.varea v).start ≤ (s.varea u).start) : finish (s.varea v) ≤ finish (s.varea u) := by
  by_cases heq : v = u
  · rw [heq]
  · have h1 := h.start_lt hv
    have h2 := h.start_lt hu
    rcases h.ordered hv hu heq with hle | hge
    · omega
    · omega

/-- A rounded end that has not wrapped. -/
theorem Lined.behind_eq (h : Lined c s t) (hv : v ∈ t.keys) (ha : 0 < a) (hle : a ≤ 2 ^ c.bits) (hne : behind c s a v ≠ 0) :
    behind c s a v = align c (finish (s.varea v)) a ∧ finish (s.varea v) ≤ behind c s a v ∧
      finish (s.varea v) + a ≤ 2 ^ c.bits := by
  rw [behind] at hne ⊢
  rcases nextOf_cases (h.finish_le v hv) with ⟨heq, hlt⟩ | ⟨heq, -⟩
  · rw [heq] at hne ⊢
    rcases align_cases ha hle hlt with ⟨hzero, -⟩ | ⟨hge, hroom⟩
    · exact absurd hzero hne
    · exact ⟨rfl, hge, hroom⟩
  · rw [heq, align_zero ha hle] at hne
    exact absurd rfl hne

/-- Addresses up to the end of a varea are rounded to its rounded end or below. -/
theorem Lined.align_le_behind (h : Lined c s t) (hv : v ∈ t.keys) (ha : 0 < a) (hle : a ≤ 2 ^ c.bits)
    (hx : x ≤ finish (s.varea v)) (hne : behind c s a v ≠ 0) : align c x a ≤ behind c s a v := by
  obtain ⟨heq, -, hroom⟩ := h.behind_eq hv ha hle hne
  rw [heq]
  exact align_mono hx (by omega)

/-- Rounded ends are in the order of the vareas, but for those that wrap. -/
theorem Lined.behind_mono (h : Lined c s t) (hv : v ∈ t.keys) (hu : u ∈ t.keys) (ha : 0 < a) (hle : a ≤ 2 ^ c.bits)
    (hvu : (s.varea v).start ≤ (s.varea u).start) (hne : behind c s a u ≠ 0) : behind c s a v ≤ behind c s a u ∧ behind c s a v ≠ 0 := by
  have hfin := h.finish_mono hv hu hvu
  obtain ⟨-, -, hroom⟩ := h.behind_eq hu ha hle hne
  have hpos := h.start_lt hv
  have hnext : nextOf c (s.varea v) = finish (s.varea v) := Nat.mod_eq_of_lt (by omega : finish (s.varea v) < 2 ^ c.bits)
  refine ⟨?_, ?_⟩
  · rw [behind, hnext]
    exact h.align_le_behind hu ha hle hfin hne
  · rw [behind, hnext]
    rcases align_cases (c := c) ha hle (show finish (s.varea v) < 2 ^ c.bits by omega) with ⟨-, hwrap⟩ | ⟨hge, -⟩
    · omega
    · omega

/-- The range of `req` addresses from `x` on has none of a varea. -/
def Unused (s : RtAspace) (t : HeightTree Nat) (x req : Nat) : Prop :=
  ∀ v ∈ t.keys, finish (s.varea v) ≤ x ∨ x + req ≤ (s.varea v).start

/-- What is left up to a varea that the candidate has not passed. -/
theorem Lined.gapBehind_eq (h : Lined c s t) (hw : w ∈ t.keys) (hpos : 0 < x) (hx : x ≤ (s.varea w).start) (hend : x ≤ last + 1)
    (hlast : last < 2 ^ c.bits) : gapBehind c s last x (some w) = min (last + 1) (s.varea w).start - x := by
  have hwlt := h.start_bound hw
  have hpred : pred c (s.varea w).start = (s.varea w).start - 1 := by
    rw [← pred_eq (c := c) (show 0 < (s.varea w).start by omega) (by omega), Nat.mod_eq_of_lt hwlt]
  have hlower : lower last ((s.varea w).start - 1) < 2 ^ c.bits ∧
      lower last ((s.varea w).start - 1) + 1 = min (last + 1) (s.varea w).start := by
    rw [lower]
    split <;> omega
  rw [gapBehind, hpred, gapTo_eq hpos (by omega) hlower.1, hlower.2]

/-- A place behind a varea is unused, if no rounded end passes a later varea. -/
theorem Lined.placeFrom_unused (h : Lined c s t) (ha : 0 < a) (hle : a ≤ 2 ^ c.bits) (hlast : last < 2 ^ c.bits)
    (hnext : ∀ u ∈ t.keys, ∀ w ∈ t.keys, (s.varea u).start < (s.varea w).start → behind c s a u ≠ 0 →
      behind c s a u ≤ (s.varea w).start)
    (hv : v ∈ t.keys) (hp : PlaceFrom c s t req a last v p) :
    finish (s.varea v) ≤ p ∧ p + req ≤ last + 1 ∧ Unused s t p req ∧ ∃ u ∈ t.keys, finish (s.varea u) ≤ p := by
  obtain ⟨hne, u, hu, hvu, ⟨-, hend, hroom, hgap⟩, rfl⟩ := hp
  obtain ⟨-, hge, -⟩ := h.behind_eq hu ha hle hne
  have hle' := gapTo_le (c := c) (Nat.le_succ_of_le hend) hlast
  refine ⟨Nat.le_trans (h.finish_mono hv hu hvu) hge, by omega, fun w hw => ?_, u, hu, hge⟩
  by_cases hlt : (s.varea u).start < (s.varea w).start
  · obtain ⟨x, hx, heq, hux, hxw⟩ := h.nextVarea_le hw hlt
    have hux' := hnext u hu x hx hux hne
    rw [heq, h.gapBehind_eq hx (Nat.pos_of_ne_zero hne) hux' (Nat.le_succ_of_le hend) hlast] at hgap
    omega
  · have := h.finish_mono hw hu (Nat.not_lt.1 hlt)
    omega

/-! ## `_ascending_search` -/

theorem ascendingSearch_from (req : Nat) (limit : MmRange) (h : Lined c s t) (hfuel : t.keys.length ≤ fuel) (ha : 0 < a)
    (hle : a ≤ 2 ^ c.bits) (hlast : limit.last < 2 ^ c.bits) (ht : t.keys = xs ++ v :: ys) (hn : (v :: ys).length ≤ n) :
    ∃ va, s.ascendingSearch c fuel req a limit n (some v) = some va ∧ Lowest (PlaceFrom c s t req a limit.last v) va := by
  induction n generalizing xs v ys with
  | zero => simp at hn
  | succ n ih =>
    have hv : v ∈ t.keys := by simp [ht]
    have hvlt := h.start_lt hv
    have hnext := h.nextVarea_eq ht
    -- where the loop breaks off, a later varea has no room either, or its rounded end has wrapped
    have hbreak : (limit.last ≤ (s.varea v).start ∨ limit.last < behind c s a v ∨ gapTo c limit.last (behind c s a v) < req) →
        ∀ p, ¬ PlaceFrom c s t req a limit.last v p := by
      rintro hbreak p ⟨hne, u, hu, hvu, ⟨h1, h2, h3, -⟩, rfl⟩
      obtain ⟨h4, h5⟩ := h.behind_mono hv hu ha hle hvu hne
      rw [gapTo_eq (by omega) (by omega) hlast] at h3
      rw [gapTo_eq (by omega) (by omega) hlast] at hbreak
      omega
    -- where there is room, it is behind the first varea
    have hfirst : RoomBehind c s t req a limit.last v → Lowest (PlaceFrom c s t req a limit.last v) (behind c s a v) := by
      intro hroom
      by_cases hzero : behind c s a v = 0
      · refine .inr ⟨hzero, ?_⟩
        rintro p ⟨hne, u, hu, hvu, -, rfl⟩
        exact (h.behind_mono hv hu ha hle hvu hne).2 hzero
      · refine .inl ⟨⟨hzero, v, hv, Nat.le_refl _, hroom, rfl⟩, ?_⟩
        rintro p ⟨hne, u, hu, hvu, -, rfl⟩
        exact (h.behind_mono hv hu ha hle hvu hne).1
    rw [ascendingSearch]
    split
    · rename_i hstart
      change ∃ va, (if behind c s a v > limit.last ∨ gapTo c limit.last (behind c s a v) < req then some 0 else _) = some va ∧ _
      split
      · rename_i hno
        exact ⟨0, rfl, .inr ⟨rfl, hbreak (.inr hno)⟩⟩
      · rename_i hroom
        rw [not_or, Nat.not_lt, Nat.not_lt] at hroom
        rw [next_of_keys h.tree ht hfuel]
        cases ys with
        | nil => exact ⟨_, rfl, hfirst ⟨hstart, hroom.1, hroom.2, by rw [hnext]; exact hroom.2⟩⟩
        | cons w ys =>
          have ht' : t.keys = (xs ++ [v]) ++ w :: ys := by simp [ht]
          have hvw := h.after ht (w := w) List.mem_cons_self
          have hw : w ∈ t.keys := by simp [ht]
          by_cases hgap : req ≤ gapTo c (lower limit.last (pred c (s.varea w).start)) (behind c s a v)
          · exact ⟨_, if_pos hgap, hfirst ⟨hstart, hroom.1, hroom.2, by rw [hnext]; exact hgap⟩⟩
          · obtain ⟨va, heq, hlow⟩ := ih ht' (by simpa using hn)
            refine ⟨va, (if_neg hgap).trans heq, hlow.congr fun p => ?_⟩
            refine and_congr_right fun _ => exists_congr fun u => and_congr_right fun hu => ⟨?_, ?_⟩
            · rintro ⟨hwu, hrest⟩
              exact ⟨by omega, hrest⟩
            · rintro ⟨hvu, hr, rfl⟩
              refine ⟨?_, hr, rfl⟩
              rcases h.mem_from ht hu hvu with rfl | hus
              · have hgap' := hr.2.2.2
                rw [hnext] at hgap'
                exact absurd hgap' hgap
              · rcases List.mem_cons.1 hus with rfl | hus
                · exact Nat.le_refl _
                · have := h.after ht' hus
                  have := h.start_lt hw
                  omega
    · rename_i hstart
      exact ⟨0, rfl, .inr ⟨rfl, hbreak (.inl (Nat.not_lt.1 hstart))⟩⟩

/-- `_ascending_search` gives the lowest place from a varea on. -/
theorem ascendingSearch_lowest (req : Nat) (limit : MmRange) (h : Lined c s t) (hfuel : t.keys.length ≤ fuel) (ha : 0 < a)
    (hle : a ≤ 2 ^ c.bits) (hlast : limit.last < 2 ^ c.bits) (hv : v ∈ t.keys) :
    ∃ va, s.ascendingSearch c fuel req a limit fuel (some v) = some va ∧ Lowest (PlaceFrom c s t req a limit.last v) va := by
  obtain ⟨xs, ys, ht⟩ := List.append_of_mem hv
  refine ascendingSearch_from req limit h hfuel ha hle hlast ht (Nat.le_trans ?_ hfuel)
  rw [ht, List.length_append]
  exact Nat.le_add_left _ _

/-! ## `_find_head_and_asc_search` -/

theorem Lined.compareOverlap_self (h : Lined c s t) (hv : v ∈ t.keys) (key : Nat) :
    compareOverlap c ⟨key, key⟩ (s.varea v) = .eq ↔ Holds s v key := h.compareOverlap_iff hv key

theorem Lined.holds_unique (h : Lined c s t) (hv : v ∈ t.keys) (hw : w ∈ t.keys) (hvx : Holds s v x) (hwx : Holds s w x) :
    w = v := by
  by_contra hne
  obtain ⟨h1, h2⟩ := hvx
  obtain ⟨h3, h4⟩ := hwx
  rcases h.ordered hw hv hne with hle | hge <;> omega

/-- `_aspace_bst_search_exceed` answers a varea from the key on, if any. -/
theorem Lined.exceed_weak (h : Lined c s t) (hfuel : t.keys.length ≤ fuel) (key : Nat) :
    ∃ x, s.bstSearchExceed c fuel key = some x ∧ ∀ w, x = some w → w ∈ t.keys ∧ key ≤ (s.varea w).start := by
  rcases exceed_least h hfuel key with ⟨v, hv, hkey, heq⟩ | ⟨-, ⟨w, hw, heq, -⟩ | ⟨heq, -⟩⟩
  · exact ⟨_, heq, by rintro w ⟨⟩; exact ⟨hv, Nat.le_of_eq hkey.symm⟩⟩
  · exact ⟨_, heq, by rintro u ⟨⟩; exact ⟨(above_mem hw).1, Nat.le_of_lt (above_mem hw).2⟩⟩
  · exact ⟨_, heq, nofun⟩

/-- `_find_head_and_asc_search` gives the lowest place. -/
theorem findHead_lowest (req : Nat) (limit : MmRange) (h : Lined c s t) (hfuel : t.keys.length ≤ fuel) (ha : 0 < a)
    (hle : a ≤ 2 ^ c.bits) (hlast : limit.last < 2 ^ c.bits) :
    ∃ va, s.findHeadAndAscSearch c fuel req a limit = some va ∧ Lowest (Place c fuel s t req a limit.start limit.last) va := by
  obtain ⟨y, hy, hexceed⟩ := h.exceed_weak hfuel limit.start
  have heq {x : Option Nat} (hx : s.bstSearchExceed c fuel limit.start = some x) : y = x := Option.some.inj (hy.symm.trans hx)
  rw [findHeadAndAscSearch, hy]
  cases y with
  | none =>
    have hno : ∀ p, Place c fuel s t req a limit.start limit.last p →
        req ≤ gapTo c limit.last (align c limit.start a) ∧ p = align c limit.start a := by
      rintro p (⟨-, hroom⟩ | ⟨hw, -⟩ | ⟨hw, -⟩ | ⟨hw, -⟩)
      · exact ⟨hroom, rfl⟩
      all_goals cases heq hw
    simp only [Option.bind_eq_bind, Option.bind_some]
    split
    · rename_i hroom
      exact ⟨_, rfl, .inl ⟨.last hy hroom, fun p hp => Nat.le_of_eq (hno p hp).2.symm⟩⟩
    · rename_i hroom
      exact ⟨0, rfl, .inr ⟨rfl, fun p hp => hroom (hno p hp).1⟩⟩
  | some w =>
    obtain ⟨hw, hlw⟩ := hexceed w rfl
    obtain ⟨vb, hasc, hlow⟩ := ascendingSearch_lowest req limit h hfuel ha hle hlast hw
    -- the places after the head
    have hfrom {x p : Nat} (hx : x ≤ finish (s.varea w)) (hp : PlaceFrom c s t req a limit.last w p) : align c x a ≤ p := by
      obtain ⟨hne, u, hu, hwu, -, rfl⟩ := hp
      exact h.align_le_behind hu ha hle (Nat.le_trans hx (h.finish_mono hw hu hwu)) hne
    have hwlt := h.start_lt hw
    have hnohead (hno : ∀ p, Place c fuel s t req a limit.start limit.last p → PlaceFrom c s t req a limit.last w p) :
        ∃ va, s.ascendingSearch c fuel req a limit fuel (some w) = some va ∧
          Lowest (Place c fuel s t req a limit.start limit.last) va :=
      ⟨vb, hasc, hlow.congr fun p => ⟨.next hy, hno p⟩⟩
    simp only [Option.bind_eq_bind, Option.bind_some]
    change ∃ va, (if gapBefore c s w (align c limit.start a) ≥ req then _ else _) = some va ∧ _
    split
    · rename_i hroom
      rw [bstSearch]
      rcases h.overlap hfuel ⟨limit.start, limit.start⟩ with ⟨f, hf, hsome, hcmp⟩ | ⟨hnone, hother⟩
      · have hheld := (h.compareOverlap_self hf limit.start).1 hcmp
        rw [hsome]
        simp only [Option.bind_some]
        change ∃ va, (if gapBefore c s w (behind c s a f) ≥ req then some (behind c s a f) else _) = some va ∧ _
        split
        · rename_i hbehind
          refine ⟨_, rfl, .inl ⟨.former hy hroom hf hheld hbehind, ?_⟩⟩
          rintro p (⟨hw', -⟩ | ⟨-, -, hfree⟩ | ⟨-, -, hv, hhv, -⟩ | ⟨hw', hp⟩)
          · cases heq hw'
          · exact absurd hheld (hfree f hf)
          · rw [h.holds_unique hf hv hheld hhv]
          · cases heq hw'
            obtain ⟨hne, u, hu, hwu, -, rfl⟩ := hp
            exact (h.behind_mono hf hu ha hle (Nat.le_trans hheld.1 (Nat.le_trans hlw hwu)) hne).1
        · rename_i hbehind
          refine hnohead ?_
          rintro p (⟨hw', -⟩ | ⟨-, -, hfree⟩ | ⟨hw', -, hv, hhv, hb⟩ | ⟨hw', hp⟩)
          · cases heq hw'
          · exact absurd hheld (hfree f hf)
          · cases heq hw'
            exact absurd (h.holds_unique hf hv hheld hhv ▸ hb) hbehind
          · cases heq hw'
            exact hp
      · rw [hnone]
        have hfree : ∀ f ∈ t.keys, ¬ Holds s f limit.start := fun f hf hheld =>
          hother f hf ((h.compareOverlap_self hf limit.start).2 hheld)
        refine ⟨_, rfl, .inl ⟨.start hy hroom hfree, ?_⟩⟩
        rintro p (⟨hw', -⟩ | ⟨-, -, -⟩ | ⟨-, -, hv, hhv, -⟩ | ⟨hw', hp⟩)
        · cases heq hw'
        · exact Nat.le_refl _
        · exact absurd hhv (hfree _ hv)
        · cases heq hw'
          exact hfrom (by omega) hp
    · rename_i hroom
      refine hnohead ?_
      rintro p (⟨hw', -⟩ | ⟨hw', hr, -⟩ | ⟨hw', hr, -⟩ | ⟨hw', hp⟩) <;> cases heq hw'
      · exact absurd hr hroom
      · exact absurd hr hroom
      · exact hp

end RtThread.RtAspace
