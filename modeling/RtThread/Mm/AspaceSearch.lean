import Mathlib.Data.List.Pairwise
import RtThread.Mm.AspaceTree

/-!
# The searches of `avl_adpt.c`

Vareas that are apart, in a search tree of any shape. `_aspace_bst_search` and `_aspace_bst_search_overlap` answer a varea
where there is one (`Lined.overlap`). `_aspace_bst_search_exceed` keeps the least distance in a `ptrdiff_t`, where one from
half of the address space on is negative: it answers the next varea exactly if it meets no such distance before
(`searched_iff`).
-/

namespace RtThread.RtAspace

open HeightTree
open UtilAvl (Linked At)

/-- One past the last address of a varea. -/
def finish (v : RtVarea) : Nat := v.start + v.size

/-- The vareas of a tree are not empty, do not wrap and follow each other. -/
structure Lined (c : AspaceConfig) (s : RtAspace) (t : HeightTree Nat) : Prop where
  tree : At s.tree [] t
  apart : t.keys.Pairwise fun i j => finish (s.varea i) ≤ (s.varea j).start
  size_pos : ∀ v ∈ t.keys, 0 < (s.varea v).size
  finish_le : ∀ v ∈ t.keys, finish (s.varea v) ≤ 2 ^ c.bits

variable {c : AspaceConfig} {s : RtAspace} {t l r : HeightTree Nat} {x closest : Option Nat} {fuel n key u v w : Nat}
  {va : RtVarea} {minOff : Int} {ks xs ys : List Nat}

/-! ## Addresses -/

theorem sub_eq {high cand : Nat} (hcand : cand ≤ high) (hhigh : high < 2 ^ c.bits) :
    (high + (2 ^ c.bits - cand)) % 2 ^ c.bits = high - cand := by
  have heq : high + (2 ^ c.bits - cand) = high - cand + 2 ^ c.bits := by omega
  rw [heq, Nat.add_mod_right, Nat.mod_eq_of_lt (by omega)]

theorem pred_eq {high : Nat} (hpos : 0 < high) (hhigh : high ≤ 2 ^ c.bits) : pred c (high % 2 ^ c.bits) = high - 1 := by
  rw [pred, Nat.mod_add_mod]
  have heq : high + (2 ^ c.bits - 1) = high - 1 + 2 ^ c.bits := by
    omega
  rw [heq, Nat.add_mod_right, Nat.mod_eq_of_lt (by omega)]

theorem lastOf_eq (hpos : 0 < va.size) (h : finish va ≤ 2 ^ c.bits) : lastOf c va = finish va - 1 := by
  have : pred c (finish va % 2 ^ c.bits) = finish va - 1 := pred_eq (Nat.lt_of_lt_of_le hpos (Nat.le_add_left _ _)) h
  rwa [pred, Nat.mod_add_mod] at this

/-- A distance upwards, as a `ptrdiff_t`. -/
theorem ptrdiff_eq {a b : Nat} (hab : a ≤ b) (hb : b < 2 ^ c.bits) :
    ptrdiff c b a = if b - a < 2 ^ (c.bits - 1) then ((b - a : Nat) : Int) else ((b - a : Nat) : Int) - 2 ^ c.bits := by
  rw [ptrdiff, sub_eq hab hb]

/-! ## Vareas that follow each other -/

theorem Lined.last_eq (h : Lined c s t) (hv : v ∈ t.keys) : lastOf c (s.varea v) = finish (s.varea v) - 1 :=
  lastOf_eq (h.size_pos v hv) (h.finish_le v hv)

theorem Lined.start_lt (h : Lined c s t) (hv : v ∈ t.keys) : (s.varea v).start < finish (s.varea v) :=
  Nat.lt_add_of_pos_right (h.size_pos v hv)

theorem Lined.start_bound (h : Lined c s t) (hv : v ∈ t.keys) : (s.varea v).start < 2 ^ c.bits :=
  Nat.lt_of_lt_of_le (h.start_lt hv) (h.finish_le v hv)

theorem Lined.sorted (h : Lined c s t) : t.keys.Pairwise fun i j => (s.varea i).start < (s.varea j).start :=
  h.apart.imp_of_mem fun hi _ hij => Nat.lt_of_lt_of_le (h.start_lt hi) hij

/-- One of two vareas ends before the other starts. -/
theorem Lined.ordered (h : Lined c s t) (hv : v ∈ t.keys) (hw : w ∈ t.keys) (hne : v ≠ w) :
    finish (s.varea v) ≤ (s.varea w).start ∨ finish (s.varea w) ≤ (s.varea v).start := by
  have hsymm : Std.Symm fun i j => finish (s.varea i) ≤ (s.varea j).start ∨ finish (s.varea j) ≤ (s.varea i).start :=
    ⟨fun _ _ => Or.symm⟩
  have hpair : t.keys.Pairwise fun i j => finish (s.varea i) ≤ (s.varea j).start ∨ finish (s.varea j) ≤ (s.varea i).start :=
    h.apart.imp fun hij => Or.inl hij
  exact hpair.forall hv hw hne

/-- The vareas after one in the tree start where it ends, or later. -/
theorem Lined.after (h : Lined c s t) (ht : t.keys = xs ++ v :: ys) (hw : w ∈ ys) :
    finish (s.varea v) ≤ (s.varea w).start := by
  have := h.apart
  rw [ht] at this
  exact (List.pairwise_cons.1 (List.pairwise_append.1 this).2.1).1 w hw

theorem Lined.before (h : Lined c s t) (ht : t.keys = xs ++ v :: ys) (hw : w ∈ xs) :
    finish (s.varea w) ≤ (s.varea v).start := by
  have := h.apart
  rw [ht] at this
  exact (List.pairwise_append.1 this).2.2 w hw v List.mem_cons_self

theorem compareOverlap_eq {r : MmRange} : compareOverlap c r va = .eq ↔ r.start ≤ lastOf c va ∧ va.start ≤ r.last := by
  rw [compareOverlap]
  split
  · simp
    omega
  · split <;> simp <;> omega

theorem Lined.compareOverlap_iff (h : Lined c s t) (hv : v ∈ t.keys) (last : Nat) :
    compareOverlap c ⟨key, last⟩ (s.varea v) = .eq ↔ (s.varea v).start ≤ last ∧ key < finish (s.varea v) := by
  have := h.start_lt hv
  rw [compareOverlap_eq, h.last_eq hv]
  dsimp only
  omega

/-- A varea that overlaps the range is found, if there is one. -/
theorem Lined.overlap (h : Lined c s t) (hfuel : t.keys.length ≤ fuel) (r : MmRange) :
    (∃ v ∈ t.keys, s.bstSearchOverlap c fuel r = some (some v) ∧ compareOverlap c r (s.varea v) = .eq) ∨
      s.bstSearchOverlap c fuel r = some none ∧ ∀ v ∈ t.keys, compareOverlap c r (s.varea v) ≠ .eq := by
  have hroot : s.tree.rootNode = t.root := h.tree.above
  rw [bstSearchOverlap, hroot]
  refine search_at h.tree.below hfuel ?_
  refine h.apart.imp_of_mem fun {i j} hi hj hij => ?_
  have hlast := h.last_eq hi
  have hlast' := h.last_eq hj
  have hlt := h.start_lt hi
  have hlt' := h.start_lt hj
  constructor
  · intro hcmp
    rw [compareOverlap] at hcmp ⊢
    split at hcmp
    · cases hcmp
    · split at hcmp
      · rw [if_neg (by omega), if_pos (by omega)]
      · cases hcmp
  · intro hcmp
    rw [compareOverlap] at hcmp ⊢
    split at hcmp
    · rw [if_pos (by omega)]
    · split at hcmp <;> cases hcmp

/-! ## The next varea -/

/-- The vareas above the key that the search meets, in this order. -/
def above (s : RtAspace) (key : Nat) : HeightTree Nat → List Nat
  | .nil => []
  | .node _ l a r =>
    if key < (s.varea a).start then a :: above s key l
    else if (s.varea a).start < key then above s key r
    else []

/-- What the loop of `_aspace_bst_search_exceed` does with a varea above the key. -/
def pick (c : AspaceConfig) (s : RtAspace) (key : Nat) (x : Option Nat × Int) (v : Nat) : Option Nat × Int :=
  if ptrdiff c (s.varea v).start key < x.2 then (some v, ptrdiff c (s.varea v).start key) else x

/-- A varea that starts at the key is found. -/
theorem searchExceed_hit (ht : Linked s.tree.node x t) (hn : t.keys.length ≤ n)
    (hsort : t.keys.Pairwise fun i j => (s.varea i).start < (s.varea j).start) (hv : v ∈ t.keys)
    (hkey : (s.varea v).start = key) : searchExceedLoop c key s n t.root closest minOff = some (some v) := by
  induction t generalizing x n closest minOff with
  | nil => cases hv
  | node h l a r ihl ihr =>
    obtain ⟨ha, hl, hr⟩ := ht
    simp only [keys, List.length_append, List.length_cons] at hn
    obtain ⟨n, rfl⟩ := Nat.exists_eq_succ_of_ne_zero (show n ≠ 0 by omega)
    obtain ⟨hsl, hsr, hsc⟩ := List.pairwise_append.1 hsort
    obtain ⟨hsa, hsr⟩ := List.pairwise_cons.1 hsr
    simp only [root_node, searchExceedLoop, ha]
    rcases List.mem_append.1 hv with hv | hv
    · have := hsc v hv a List.mem_cons_self
      rw [if_pos (by omega)]
      split <;> exact ihl hl (by omega) hsl hv
    · rcases List.mem_cons.1 hv with rfl | hv
      · rw [if_neg (by omega), if_neg (by omega)]
      · have := hsa v hv
        rw [if_neg (by omega), if_pos (by omega)]
        exact ihr hr (by omega) hsr hv

/-- Otherwise the loop picks from the vareas that it meets above the key. -/
theorem searchExceed_pick (ht : Linked s.tree.node x t) (hn : t.keys.length ≤ n)
    (hne : ∀ v ∈ t.keys, (s.varea v).start ≠ key) :
    searchExceedLoop c key s n t.root closest minOff = some ((above s key t).foldl (pick c s key) (closest, minOff)).1 := by
  induction t generalizing x n closest minOff with
  | nil =>
    cases n <;> rfl
  | node h l a r ihl ihr =>
    obtain ⟨ha, hl, hr⟩ := ht
    simp only [keys, List.length_append, List.length_cons] at hn
    obtain ⟨n, rfl⟩ := Nat.exists_eq_succ_of_ne_zero (show n ≠ 0 by omega)
    have hnea := hne a (by simp)
    have hnel : ∀ v ∈ l.keys, (s.varea v).start ≠ key := fun v hv => hne v (by simp [hv])
    have hner : ∀ v ∈ r.keys, (s.varea v).start ≠ key := fun v hv => hne v (by simp [hv])
    simp only [root_node, searchExceedLoop, above, ha]
    by_cases hlt : key < (s.varea a).start
    · rw [if_pos hlt, if_pos hlt, List.foldl_cons, pick]
      split
      · exact ihl hl (by omega) hnel
      · exact ihl hl (by omega) hnel
    · rw [if_neg hlt, if_neg hlt, if_pos (by omega), if_pos (by omega)]
      exact ihr hr (by omega) hner

theorem above_mem (hv : v ∈ above s key t) : v ∈ t.keys ∧ key < (s.varea v).start := by
  induction t with
  | nil => cases hv
  | node h l a r ihl ihr =>
    rw [above] at hv
    split at hv
    · rename_i hlt
      rcases List.mem_cons.1 hv with rfl | hv
      · exact ⟨by simp, hlt⟩
      · exact ⟨by simp [(ihl hv).1], (ihl hv).2⟩
    · split at hv
      · exact ⟨by simp [(ihr hv).1], (ihr hv).2⟩
      · cases hv

/-- They come nearer to the key. -/
theorem above_sorted (key : Nat) (hsort : t.keys.Pairwise fun i j => (s.varea i).start < (s.varea j).start) :
    (above s key t).Pairwise fun i j => (s.varea j).start < (s.varea i).start := by
  induction t with
  | nil => exact .nil
  | node h l a r ihl ihr =>
    obtain ⟨hsl, hsr, hsc⟩ := List.pairwise_append.1 hsort
    rw [above]
    split
    · refine List.pairwise_cons.2 ⟨?_, ihl hsl⟩
      intro v hv
      exact hsc v (above_mem hv).1 a List.mem_cons_self
    · split
      · exact ihr (List.pairwise_cons.1 hsr).2
      · exact .nil

/-- The last of them is the nearest varea above the key. -/
theorem above_nearest (hsort : t.keys.Pairwise fun i j => (s.varea i).start < (s.varea j).start)
    (hne : ∀ v ∈ t.keys, (s.varea v).start ≠ key) (hw : w ∈ t.keys) (hlt : key < (s.varea w).start) :
    ∃ v ∈ above s key t, (s.varea v).start ≤ (s.varea w).start := by
  induction t with
  | nil => cases hw
  | node h l a r ihl ihr =>
    obtain ⟨hsl, hsr, hsc⟩ := List.pairwise_append.1 hsort
    obtain ⟨hsa, hsr⟩ := List.pairwise_cons.1 hsr
    have hnea := hne a (by simp)
    rw [above]
    by_cases hlta : key < (s.varea a).start
    · rw [if_pos hlta]
      rcases List.mem_append.1 hw with hw | hw
      · obtain ⟨v, hv, hle⟩ := ihl hsl (fun v hv => hne v (by simp [hv])) hw
        exact ⟨v, List.mem_cons_of_mem _ hv, hle⟩
      · refine ⟨a, List.mem_cons_self, ?_⟩
        rcases List.mem_cons.1 hw with rfl | hw
        · exact Nat.le_refl _
        · exact Nat.le_of_lt (hsa w hw)
    · rw [if_neg hlta, if_pos (by omega)]
      rcases List.mem_append.1 hw with hw | hw
      · have := hsc w hw a List.mem_cons_self
        omega
      · rcases List.mem_cons.1 hw with rfl | hw
        · exact absurd hlt hlta
        · exact ihr hsr (fun v hv => hne v (by simp [hv])) hw

/-- What is picked has the least distance. -/
theorem pick_least (key : Nat) (ks : List Nat) (x : Option Nat × Int) :
    (∀ v ∈ ks, (ks.foldl (pick c s key) x).2 ≤ ptrdiff c (s.varea v).start key) ∧ (ks.foldl (pick c s key) x).2 ≤ x.2 ∧
      (ks.foldl (pick c s key) x = x ∨
        ∃ w ∈ ks, ks.foldl (pick c s key) x = (some w, ptrdiff c (s.varea w).start key) ∧
          ptrdiff c (s.varea w).start key < x.2) := by
  induction ks generalizing x with
  | nil => exact ⟨nofun, Int.le_refl _, .inl rfl⟩
  | cons v ks ih =>
    obtain ⟨hall, hle, hor⟩ := ih (pick c s key x v)
    have hv : (pick c s key x v).2 ≤ ptrdiff c (s.varea v).start key ∧ (pick c s key x v).2 ≤ x.2 := by
      rw [pick]
      split
      · exact ⟨Int.le_refl _, by dsimp only; omega⟩
      · exact ⟨by omega, Int.le_refl _⟩
    refine ⟨List.forall_mem_cons.2 ⟨Int.le_trans hle hv.1, hall⟩, Int.le_trans hle hv.2, ?_⟩
    rcases hor with heq | ⟨w, hw, heq, hlt⟩
    · rw [List.foldl_cons, heq, pick]
      split
      · rename_i hless
        exact .inr ⟨v, List.mem_cons_self, rfl, hless⟩
      · exact .inl rfl
    · exact .inr ⟨w, List.mem_cons_of_mem _ hw, heq, Int.lt_of_lt_of_le hlt hv.2⟩

/-- A varea half of the address space away. -/
def Far (c : AspaceConfig) (s : RtAspace) (key v : Nat) : Prop := 2 ^ (c.bits - 1) ≤ (s.varea v).start - key

theorem ptrdiff_far (h : Lined c s t) (hv : v ∈ t.keys) (hlt : key < (s.varea v).start) :
    ptrdiff c (s.varea v).start key < 0 ↔ Far c s key v := by
  have hbound := h.start_bound hv
  have hcast : ((2 : Int) ^ c.bits) = ((2 ^ c.bits : Nat) : Int) := by rw [Int.natCast_pow]; rfl
  rw [ptrdiff_eq (Nat.le_of_lt hlt) hbound, Far]
  split
  · omega
  · omega

/-- A distance that is not far is what it is as a `ptrdiff_t`. -/
theorem ptrdiff_near (h : Lined c s t) (hv : v ∈ t.keys) (hlt : key < (s.varea v).start) (hnear : ¬ Far c s key v) :
    ptrdiff c (s.varea v).start key = ((s.varea v).start - key : Nat) := by
  rw [ptrdiff_eq (Nat.le_of_lt hlt) (h.start_bound hv), if_pos (Nat.not_le.1 hnear)]

/-- The answer is the varea with the least start from the key on, or there is none. -/
def First (s : RtAspace) (t : HeightTree Nat) (key : Nat) : Option Nat → Prop
  | some v => v ∈ t.keys ∧ key ≤ (s.varea v).start ∧ ∀ w ∈ t.keys, key ≤ (s.varea w).start → (s.varea v).start ≤ (s.varea w).start
  | none => ∀ w ∈ t.keys, (s.varea w).start < key

/-- A varea starts at the key; or all that start above it are far; or one is near, and the search meets no far one. -/
def ExceedFine (c : AspaceConfig) (s : RtAspace) (t : HeightTree Nat) (key : Nat) : Prop :=
  (∃ v ∈ t.keys, (s.varea v).start = key) ∨ (∀ v ∈ t.keys, key < (s.varea v).start → Far c s key v) ∨
    (∃ v ∈ t.keys, key < (s.varea v).start ∧ (s.varea v).start - key < 2 ^ (c.bits - 1) - 1) ∧
      ∀ v ∈ above s key t, ¬ Far c s key v

/-- The search meets the nearest varea above the key. -/
theorem exists_nearest (h : Lined c s t) (hne : ∀ v ∈ t.keys, (s.varea v).start ≠ key) (hw : w ∈ t.keys)
    (hlt : key < (s.varea w).start) : ∃ u ∈ above s key t,
      ∀ w ∈ t.keys, key ≤ (s.varea w).start → (s.varea u).start ≤ (s.varea w).start := by
  obtain ⟨v, hv, -⟩ := above_nearest h.sorted hne hw hlt
  obtain ⟨ks, u, hks⟩ : ∃ ks u, above s key t = ks ++ [u] :=
    ⟨_, _, (List.dropLast_append_getLast (List.ne_nil_of_mem hv)).symm⟩
  refine ⟨u, by simp [hks], ?_⟩
  intro w hw hle
  have hlt : key < (s.varea w).start := Nat.lt_of_le_of_ne hle (hne w hw).symm
  obtain ⟨v, hv, hvw⟩ := above_nearest h.sorted hne hw hlt
  have hsort := above_sorted key h.sorted
  rw [hks] at hv hsort
  rcases List.mem_append.1 hv with hv | hv
  · have := (List.pairwise_append.1 hsort).2.2 v hv u (List.mem_singleton_self u)
    omega
  · rwa [List.mem_singleton.1 hv] at hvw

/-- The answer starts at the key; or it has the least distance of those that the search meets above the key, and none has one
that is less than `PTRDIFF_MAX` if there is no answer. -/
theorem exceed_least (h : Lined c s t) (hfuel : t.keys.length ≤ fuel) (key : Nat) :
    (∃ v ∈ t.keys, (s.varea v).start = key ∧ s.bstSearchExceed c fuel key = some (some v)) ∨
      (∀ v ∈ t.keys, (s.varea v).start ≠ key) ∧
        ((∃ w ∈ above s key t, s.bstSearchExceed c fuel key = some (some w) ∧
            ptrdiff c (s.varea w).start key < (2 ^ (c.bits - 1) - 1 : Nat) ∧
            ∀ v ∈ above s key t, ptrdiff c (s.varea w).start key ≤ ptrdiff c (s.varea v).start key) ∨
          s.bstSearchExceed c fuel key = some none ∧
            ∀ v ∈ above s key t, (2 ^ (c.bits - 1) - 1 : Nat) ≤ ptrdiff c (s.varea v).start key) := by
  have hroot : s.tree.rootNode = t.root := h.tree.above
  have hone : 1 ≤ 2 ^ (c.bits - 1) := Nat.one_le_two_pow
  have hmax : ((2 : Int) ^ (c.bits - 1) - 1) = ((2 ^ (c.bits - 1) - 1 : Nat) : Int) := by
    rw [Int.ofNat_sub hone, Int.natCast_pow]
    rfl
  rw [bstSearchExceed, hroot, hmax]
  by_cases hhit : ∃ v ∈ t.keys, (s.varea v).start = key
  · obtain ⟨v, hv, hkey⟩ := hhit
    exact .inl ⟨v, hv, hkey, searchExceed_hit h.tree.below hfuel h.sorted hv hkey⟩
  · have hne : ∀ v ∈ t.keys, (s.varea v).start ≠ key := fun v hv he => hhit ⟨v, hv, he⟩
    refine .inr ⟨hne, ?_⟩
    rw [searchExceed_pick h.tree.below hfuel hne]
    obtain ⟨hall, -, heq | ⟨w, hw, heq, hlt⟩⟩ := pick_least (c := c) (s := s) key (above s key t)
      (none, ((2 ^ (c.bits - 1) - 1 : Nat) : Int))
    · rw [heq] at hall ⊢
      exact .inr ⟨rfl, hall⟩
    · rw [heq] at hall ⊢
      exact .inl ⟨w, hw, rfl, hlt, hall⟩

/-- `_aspace_bst_search_exceed` answers the next varea exactly if it is fine for it. -/
theorem exceed_iff (h : Lined c s t) (hfuel : t.keys.length ≤ fuel) :
    (∃ x, s.bstSearchExceed c fuel key = some x ∧ First s t key x) ↔ ExceedFine c s t key := by
  rcases exceed_least h hfuel key with ⟨v, hv, hkey, heq⟩ | ⟨hne, hor⟩
  · rw [heq]
    refine iff_of_true ⟨_, rfl, hv, Nat.le_of_eq hkey.symm, ?_⟩ (.inl ⟨v, hv, hkey⟩)
    intro w _ hle
    rwa [hkey]
  · by_cases hnone : ∃ w ∈ t.keys, key < (s.varea w).start
    · obtain ⟨w, hw, hlt⟩ := hnone
      obtain ⟨u, humem, hnearest⟩ := exists_nearest h hne hw hlt
      have hmem : ∀ v ∈ above s key t, v ∈ t.keys ∧ key < (s.varea v).start := fun v hv => above_mem hv
      obtain ⟨hu, hultu⟩ := hmem u humem
      have hoff := fun v hv => ptrdiff_eq (c := c) (Nat.le_of_lt (hmem v hv).2) (h.start_bound (hmem v hv).1)
      have huoff := hoff u humem
      by_cases hfar : Far c s key u
      · -- all are far, and the distances get less also as negative numbers
        have hall : ∀ v ∈ t.keys, key < (s.varea v).start → Far c s key v := by
          intro v hv hlt
          exact Nat.le_trans hfar (Nat.sub_le_sub_right (hnearest v hv (Nat.le_of_lt hlt)) key)
        have hneg := (ptrdiff_far h hu hultu).2 hfar
        refine iff_of_true ?_ (.inr (.inl hall))
        rcases hor with ⟨x, hx, heq, -, hleast⟩ | ⟨-, hleast⟩
        · obtain ⟨hxk, hxlt⟩ := hmem x hx
          refine ⟨_, heq, hxk, Nat.le_of_lt hxlt, fun v hv hle => Nat.le_trans ?_ (hnearest v hv hle)⟩
          have hxu := hleast u humem
          rw [hoff x hx, if_neg (Nat.not_lt.2 (hall x hxk hxlt)), huoff, if_neg (Nat.not_lt.2 hfar)] at hxu
          omega
        · have := hleast u humem
          omega
      · rw [if_pos (Nat.not_le.1 hfar)] at huoff
        by_cases hsome : ∃ v ∈ above s key t, Far c s key v
        · -- a far one is met, and the nearest does not replace it
          obtain ⟨f, hf, hffar⟩ := hsome
          have hneg := (ptrdiff_far h (hmem f hf).1 (hmem f hf).2).2 hffar
          refine iff_of_false ?_ ?_
          · rintro ⟨x, hx, hfirst⟩
            rcases hor with ⟨y, hy, heq, -, hleast⟩ | ⟨-, hleast⟩
            · cases hx.symm.trans heq
              obtain ⟨hyk, hylt⟩ := hmem y hy
              have hyfar := (ptrdiff_far h hyk hylt).1 (Int.lt_of_le_of_lt (hleast f hf) hneg)
              exact hfar (Nat.le_trans hyfar (Nat.sub_le_sub_right (hfirst.2.2 u hu (Nat.le_of_lt hultu)) key))
            · have := hleast f hf
              omega
          · rintro (⟨v, hv, hkey⟩ | hall | ⟨-, hnear⟩)
            · exact hne v hv hkey
            · exact hfar (hall u hu hultu)
            · exact hnear f hf hffar
        · have hnear : ∀ v ∈ above s key t, ¬ Far c s key v := fun v hv hf => hsome ⟨v, hv, hf⟩
          rcases hor with ⟨x, hx, heq, hless, hleast⟩ | ⟨heq, hleast⟩
          · obtain ⟨hxk, hxlt⟩ := hmem x hx
            have hxu := hleast u humem
            rw [hoff x hx, if_pos (Nat.not_le.1 (hnear x hx))] at hxu hless
            refine iff_of_true ⟨_, heq, hxk, Nat.le_of_lt hxlt, fun v hv hle => Nat.le_trans ?_ (hnearest v hv hle)⟩
              (.inr (.inr ⟨⟨x, hxk, hxlt, by omega⟩, hnear⟩))
            omega
          · -- the one distance that is not less than `PTRDIFF_MAX`
            have hmax := hleast u humem
            refine iff_of_false ?_ ?_
            · rintro ⟨x, hx, hfirst⟩
              cases hx.symm.trans heq
              have := hfirst u hu
              omega
            · rintro (⟨v, hv, hkey⟩ | hall | ⟨⟨v, hv, hltv, hless⟩, -⟩)
              · exact hne v hv hkey
              · exact hfar (hall u hu hultu)
              · have := hnearest v hv (Nat.le_of_lt hltv)
                omega
    · refine iff_of_true ?_ (.inr (.inl fun v hv hlt => absurd ⟨v, hv, hlt⟩ hnone))
      rcases hor with ⟨x, hx, -⟩ | ⟨heq, -⟩
      · exact absurd ⟨x, above_mem hx⟩ hnone
      · refine ⟨_, heq, fun w hw => ?_⟩
        have := hne w hw
        by_contra hge
        exact hnone ⟨w, hw, by omega⟩

/-- Whether the answer starts below `n`. -/
theorem exceed_lt_iff (h : Lined c s t) (hfuel : t.keys.length ≤ fuel) :
    (∃ w, s.bstSearchExceed c fuel key = some (some w) ∧ (s.varea w).start < n) ↔
      (ExceedFine c s t key ∧ ∃ v ∈ t.keys, key ≤ (s.varea v).start ∧ (s.varea v).start < n) ∨
        ∃ v ∈ above s key t, Far c s key v ∧ (s.varea v).start < n := by
  by_cases hfine : ExceedFine c s t key
  · obtain ⟨x, hx, hfirst⟩ := (exceed_iff h hfuel).2 hfine
    have hleft : (∃ w, s.bstSearchExceed c fuel key = some (some w) ∧ (s.varea w).start < n) ↔
        ∃ v ∈ t.keys, key ≤ (s.varea v).start ∧ (s.varea v).start < n := by
      rw [hx]
      constructor
      · rintro ⟨w, hw, hlt⟩
        cases hw
        exact ⟨w, hfirst.1, hfirst.2.1, hlt⟩
      · rintro ⟨v, hv, hle, hlt⟩
        cases x with
        | none => exact absurd (hfirst v hv) (Nat.not_lt.2 hle)
        | some w => exact ⟨w, rfl, Nat.lt_of_le_of_lt (hfirst.2.2 v hv hle) hlt⟩
    rw [hleft]
    constructor
    · exact fun hv => .inl ⟨hfine, hv⟩
    · rintro (⟨-, hv⟩ | ⟨v, hv, -, hlt⟩)
      · exact hv
      · exact ⟨v, (above_mem hv).1, Nat.le_of_lt (above_mem hv).2, hlt⟩
  · -- a far one is answered
    rcases exceed_least h hfuel key with ⟨v, hv, hkey, -⟩ | ⟨-, hor⟩
    · exact absurd (.inl ⟨v, hv, hkey⟩) hfine
    · constructor
      · rintro ⟨w, hw, hlt⟩
        rcases hor with ⟨x, hx, heq, hless, hleast⟩ | ⟨heq, -⟩
        · cases hw.symm.trans heq
          obtain ⟨hwk, hwlt⟩ := above_mem hx
          refine .inr ⟨w, hx, ?_, hlt⟩
          by_contra hnear
          rw [ptrdiff_near h hwk hwlt hnear] at hless
          refine hfine (.inr (.inr ⟨⟨w, hwk, hwlt, by omega⟩, fun v hv hfar => ?_⟩))
          have := (ptrdiff_far h (above_mem hv).1 (above_mem hv).2).2 hfar
          have := hleast v hv
          rw [ptrdiff_near h hwk hwlt hnear] at this
          omega
        · cases hw.symm.trans heq
      · rintro (⟨hf, -⟩ | ⟨v, hv, hfar, hlt⟩)
        · exact absurd hf hfine
        · obtain ⟨hvk, hvlt⟩ := above_mem hv
          have hneg := (ptrdiff_far h hvk hvlt).2 hfar
          rcases hor with ⟨w, hw, heq, -, hleast⟩ | ⟨-, hleast⟩
          · obtain ⟨hwk, hwlt⟩ := above_mem hw
            have hle := hleast v hv
            have hwfar := (ptrdiff_far h hwk hwlt).1 (Int.lt_of_le_of_lt hle hneg)
            rw [ptrdiff_eq (Nat.le_of_lt hwlt) (h.start_bound hwk), if_neg (Nat.not_lt.2 hwfar),
              ptrdiff_eq (Nat.le_of_lt hvlt) (h.start_bound hvk), if_neg (Nat.not_lt.2 hfar)] at hle
            exact ⟨w, heq, by omega⟩
          · have := hleast v hv
            omega

/-! ## All searches -/

/-- What is expected of the searches for an address, and for the ranges from there on. -/
structure Searched (c : AspaceConfig) (fuel : Nat) (s : RtAspace) (t : HeightTree Nat) (key : Nat) : Prop where
  exceed : ∃ x, s.bstSearchExceed c fuel key = some x ∧ First s t key x
  search : (∃ v ∈ t.keys, s.bstSearch c fuel key = some (some v) ∧ (s.varea v).start ≤ key ∧ key < finish (s.varea v)) ∨
    s.bstSearch c fuel key = some none ∧ ∀ v ∈ t.keys, ¬ ((s.varea v).start ≤ key ∧ key < finish (s.varea v))
  overlap : ∀ last, key ≤ last → ∃ x, s.bstSearchOverlap c fuel ⟨key, last⟩ = some x ∧
    (x = none ↔ ∀ v ∈ t.keys, ¬ ((s.varea v).start ≤ last ∧ key < finish (s.varea v)))

/-- **The searches are right for an address exactly if no far varea misleads `_aspace_bst_search_exceed`**, whatever the shape
of the tree. -/
theorem searched_iff (h : Lined c s t) (hfuel : t.keys.length ≤ fuel) (key : Nat) :
    Searched c fuel s t key ↔ ExceedFine c s t key := by
  constructor
  · intro hs
    exact (exceed_iff h hfuel).1 hs.exceed
  · intro hfine
    refine ⟨(exceed_iff h hfuel).2 hfine, ?_, ?_⟩
    · rcases h.overlap hfuel ⟨key, key⟩ with ⟨v, hv, hsome, hcmp⟩ | ⟨hnone, hother⟩
      · exact .inl ⟨v, hv, hsome, (h.compareOverlap_iff hv key).1 hcmp⟩
      · exact .inr ⟨hnone, fun v hv hin => hother v hv ((h.compareOverlap_iff hv key).2 hin)⟩
    · intro last _
      rcases h.overlap hfuel ⟨key, last⟩ with ⟨v, hv, hsome, hcmp⟩ | ⟨hnone, hother⟩
      · refine ⟨some v, hsome, iff_of_false (by simp) ?_⟩
        intro hall
        exact hall v hv ((h.compareOverlap_iff hv last).1 hcmp)
      · exact ⟨none, hnone, iff_of_true rfl fun v hv hin => hother v hv ((h.compareOverlap_iff hv last).2 hin)⟩

/-- Two vareas of a 64-bit address space, the one with the higher address at the root. -/
def farSpace (low high : Nat) : RtAspace where
  start := 0x1000
  size := 2 ^ 64 - 0x1000
  tree := ⟨some 1, fun i => if i = 1 then ⟨some 0, none, none, 2⟩ else ⟨none, none, some 1, 1⟩⟩
  varea := fun i => ⟨if i = 1 then high else low, 0x1000, 0, 0, 0⟩
  mapped := [0, 1]

theorem int_le_64 : 32 ≤ 64 := by decide

def word64 : AspaceConfig := ⟨64, 12, int_le_64⟩

def farTree : HeightTree Nat := .node 2 (.node 1 .nil 0 .nil) 1 .nil

theorem farSpace_lined {low high : Nat} (h : low + 0x1000 ≤ high) (hhigh : high + 0x1000 ≤ 2 ^ 64) :
    Lined word64 (farSpace low high) farTree where
  tree := ⟨⟨rfl, ⟨rfl, trivial, trivial⟩, trivial⟩, rfl, by decide⟩
  apart := List.pairwise_pair.2 h
  size_pos _ _ := by simp [farSpace]
  finish_le v hv := by
    have hv : v = 0 ∨ v = 1 := by simpa [farTree] using hv
    rcases hv with rfl | rfl
    · show low + 0x1000 ≤ 2 ^ 64
      omega
    · exact hhigh

/-- Two vareas above the address, neither far from it. -/
theorem searched_iff_near : Searched word64 2 (farSpace 0x10000 0x7f0000000000) farTree 0x1000 :=
  (searched_iff (farSpace_lined (by decide) (by decide)) (by decide) 0x1000).2
    (.inr (.inr ⟨⟨0, by decide, by decide, by decide⟩, by
      intro v hv
      have hv : v ∈ [1, 0] := hv
      rcases List.mem_cons.1 hv with rfl | hv
      · show ¬ (2 ^ 63 ≤ 0x7f0000000000 - 0x1000)
        decide
      · rw [List.mem_singleton.1 hv]
        show ¬ (2 ^ 63 ≤ 0x10000 - 0x1000)
        decide⟩))

/-- With one in the upper half at the root, it is answered for the nearer one. -/
theorem search_misled : Lined word64 (farSpace 0x10000 0xffff800000000000) farTree ∧
    (farSpace 0x10000 0xffff800000000000).bstSearchExceed word64 2 0x1000 = some (some 1) ∧
    ¬ Searched word64 2 (farSpace 0x10000 0xffff800000000000) farTree 0x1000 := by
  have hexceed : (farSpace 0x10000 0xffff800000000000).bstSearchExceed word64 2 0x1000 = some (some 1) := by decide
  refine ⟨farSpace_lined (by decide) (by decide), hexceed, ?_⟩
  rintro ⟨⟨x, hx, hfirst⟩, -, -⟩
  rw [hexceed] at hx
  cases hx
  have hle := hfirst.2.2 0 (by decide) (by decide)
  revert hle
  decide

end RtThread.RtAspace
