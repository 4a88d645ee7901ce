import Mathlib.Algebra.GroupWithZero.Nat
import Mathlib.Data.List.Chain
import Mathlib.Data.List.Pairwise
import Mathlib.Logic.Function.Basic

/-!
# Tiled memory

A memory area is tiled by blocks that follow each other without gaps. Each block starts with a header that says where the
next block starts, where the one before starts, and whether the block is used.

- the blocks of an area as a list (`Block`), their addresses (`starts`), what the used ones add up to (`usedSize`), and
  the first free one (`firstFree`);
- when headers describe such a list (`Seg`): a segment depends on its own headers only, and two segments that meet are
  one;
- no two free blocks next to each other (`Merged`).
-/

namespace Tiles

/-- A block, its header included in the size. -/
structure Block where
  size : Nat
  used : Bool
  deriving DecidableEq

variable {bs cs : List Block} {b : Block} {a e p q x n : Nat}

/-- The size of a list of blocks. -/
def extent (bs : List Block) : Nat := (bs.map Block.size).sum

/-- The size of the used blocks. -/
def usedSize (bs : List Block) : Nat := (bs.map fun b => if b.used then b.size else 0).sum

/-- Where the blocks start, from the address `a` on, with the blocks. -/
def starts (a : Nat) : List Block → List (Nat × Block)
  | [] => []
  | b :: bs => (a, b) :: starts (a + b.size) bs

/-- Where the last block starts, `p` if there is none. -/
def last (p a : Nat) : List Block → Nat
  | [] => p
  | b :: bs => last a (a + b.size) bs

/-- Where the first free block starts, and where the blocks end if there is none. -/
def firstFree (a : Nat) : List Block → Nat
  | [] => a
  | b :: bs => if b.used then firstFree (a + b.size) bs else a

attribute [grind =] extent usedSize starts last firstFree

/-- No two free blocks stand next to each other. -/
def Merged (bs : List Block) : Prop := bs.IsChain fun b c => b.used ∨ c.used

@[simp] theorem extent_nil : extent [] = 0 := rfl
@[simp] theorem extent_cons : extent (b :: bs) = b.size + extent bs := by simp [extent]
@[simp] theorem extent_append : extent (bs ++ cs) = extent bs + extent cs := by simp [extent]

@[simp] theorem usedSize_nil : usedSize [] = 0 := rfl
@[simp] theorem usedSize_cons : usedSize (b :: bs) = (if b.used then b.size else 0) + usedSize bs := by simp [usedSize]
@[simp] theorem usedSize_append : usedSize (bs ++ cs) = usedSize bs + usedSize cs := by simp [usedSize]

@[simp] theorem starts_nil : starts a [] = [] := rfl
@[simp] theorem starts_cons : starts a (b :: bs) = (a, b) :: starts (a + b.size) bs := rfl

@[simp] theorem starts_append : starts a (bs ++ cs) = starts a bs ++ starts (a + extent bs) cs := by
  induction bs generalizing a with
  | nil => simp
  | cons b bs ih => simp [ih, Nat.add_assoc]

@[simp] theorem length_starts : (starts a bs).length = bs.length := by
  induction bs generalizing a with
  | nil => rfl
  | cons b bs ih => simp [ih]

theorem last_append : last p a (bs ++ cs) = last (last p a bs) (a + extent bs) cs := by
  induction bs generalizing p a with
  | nil => simp [last]
  | cons b bs ih => simp [last, ih, Nat.add_assoc]

/-- A block and its place, in the list that it splits. -/
theorem mem_starts : (x, b) ∈ starts a bs ↔ ∃ ds es, bs = ds ++ b :: es ∧ x = a + extent ds := by
  induction bs generalizing a with
  | nil => simp
  | cons c bs ih =>
    simp only [starts_cons, List.mem_cons, Prod.mk.injEq, ih]
    constructor
    · rintro (⟨rfl, rfl⟩ | ⟨ds, es, rfl, rfl⟩)
      · exact ⟨[], bs, rfl, by simp⟩
      · exact ⟨c :: ds, es, rfl, by simp [Nat.add_assoc]⟩
    · rintro ⟨ds, es, h, rfl⟩
      cases ds with
      | nil =>
        obtain ⟨rfl, -⟩ := List.cons.inj h
        exact .inl ⟨by simp, rfl⟩
      | cons d ds =>
        obtain ⟨rfl, hbs⟩ := List.cons.inj h
        exact .inr ⟨ds, es, hbs, by simp [Nat.add_assoc]⟩

theorem le_of_mem_starts (h : (x, b) ∈ starts a bs) : a ≤ x ∧ x + b.size ≤ a + extent bs := by
  obtain ⟨ds, es, rfl, rfl⟩ := mem_starts.1 h
  simp only [extent_append, extent_cons]
  omega

/-- Two blocks that stand apart. -/
def Apart (q r : Nat × Block) : Prop := q.1 + q.2.size ≤ r.1 ∨ r.1 + r.2.size ≤ q.1

instance : Std.Symm Apart := ⟨fun _ _ h => Or.symm h⟩

/-- All blocks of an area stand apart. -/
theorem pairwise_starts : (starts a bs).Pairwise Apart := by
  induction bs generalizing a with
  | nil => exact .nil
  | cons b bs ih =>
    refine List.pairwise_cons.2 ⟨fun q hq => .inl ?_, ih⟩
    exact (le_of_mem_starts hq).1

/-- The starts of the blocks ascend. -/
theorem pairwise_lt_starts (hpos : ∀ b ∈ bs, 0 < b.size) : ((starts a bs).map Prod.fst).Pairwise (· < ·) := by
  induction bs generalizing a with
  | nil => exact .nil
  | cons b bs ih =>
    have hb := hpos b (by simp)
    refine List.pairwise_cons.2 ⟨fun x hx => ?_, ih fun c hc => hpos c (by simp [hc])⟩
    obtain ⟨⟨x, c⟩, hm, rfl⟩ := List.mem_map.1 hx
    have := (le_of_mem_starts hm).1
    omega

/-- The blocks fill the area. -/
theorem exists_starts (ha : a ≤ x) (hx : x < a + extent bs) : ∃ y b, (y, b) ∈ starts a bs ∧ y ≤ x ∧ x < y + b.size := by
  induction bs generalizing a with
  | nil => rw [extent_nil] at hx; omega
  | cons b bs ih =>
    rw [extent_cons] at hx
    by_cases hb : x < a + b.size
    · exact ⟨a, b, by simp, ha, hb⟩
    · obtain ⟨y, d, hm, h1, h2⟩ := ih (a := a + b.size) (by omega) (by omega)
      exact ⟨y, d, by simp [hm], h1, h2⟩

/-- A block starts or ends at `x`. -/
def Boundary (bs : List Block) (x : Nat) : Prop := ∃ ds es, bs = ds ++ es ∧ x = extent ds

theorem Boundary.apart {z : Nat} (hx : Boundary bs x) (hm : (z, b) ∈ starts 0 bs) : x ≤ z ∨ z + b.size ≤ x := by
  obtain ⟨ds, es, rfl, rfl⟩ := hx
  rw [starts_append, List.mem_append] at hm
  rcases hm with hm | hm
  · have := (le_of_mem_starts hm).2; omega
  · have := (le_of_mem_starts hm).1; omega

/-- Two blocks of an area with different starts stand apart. -/
theorem apart_of_ne {q r : Nat × Block} (hq : q ∈ starts a bs) (hr : r ∈ starts a bs) (hne : q ≠ r) : Apart q r :=
  pairwise_starts.forall hq hr hne

/-! ## The first free block -/

theorem firstFree_append_used (h : ∀ b ∈ bs, b.used) : firstFree a (bs ++ cs) = firstFree (a + extent bs) cs := by
  induction bs generalizing a with
  | nil => simp
  | cons b bs ih =>
    rw [List.cons_append, firstFree, if_pos (h b (by simp)), ih fun b hb => h b (by simp [hb]), extent_cons,
      Nat.add_assoc]

/-- Blocks after a free one do not matter. -/
theorem firstFree_append_free (h : ∃ b ∈ bs, b.used = false) : firstFree a (bs ++ cs) = firstFree a bs := by
  induction bs generalizing a with
  | nil => simp at h
  | cons b bs ih =>
    rw [List.cons_append, firstFree, firstFree]
    split
    · rename_i hb
      refine ih ?_
      obtain ⟨c, hc, hf⟩ := h
      rcases List.mem_cons.1 hc with rfl | hc
      · simp [hb] at hf
      · exact ⟨c, hc, hf⟩
    · rfl

theorem firstFree_le : firstFree a bs ≤ a + extent bs := by
  induction bs generalizing a with
  | nil => simp [firstFree]
  | cons b bs ih =>
    rw [firstFree]
    split
    · have := ih (a := a + b.size); rw [extent_cons]; omega
    · omega

theorem le_firstFree : a ≤ firstFree a bs := by
  induction bs generalizing a with
  | nil => simp [firstFree]
  | cons b bs ih =>
    rw [firstFree]
    split
    · have := ih (a := a + b.size); omega
    · exact Nat.le_refl _

theorem firstFree_le_of_free (a : Nat) (ds es : List Block) (hb : b.used = false) :
    firstFree a (ds ++ b :: es) ≤ a + extent ds := by
  induction ds generalizing a with
  | nil => simp [firstFree, hb]
  | cons d ds ih =>
    rw [List.cons_append, firstFree]
    split
    · have := ih (a := a + d.size); rw [extent_cons]; omega
    · omega

theorem firstFree_lt (hpos : ∀ b ∈ bs, 0 < b.size) (h : ∃ b ∈ bs, b.used = false) : firstFree a bs < a + extent bs := by
  obtain ⟨b, hb, hf⟩ := h
  have hb' := hpos b hb
  obtain ⟨ds, es, rfl⟩ := List.append_of_mem hb
  have := firstFree_le_of_free a ds es hf
  rw [extent_append, extent_cons]
  omega

theorem length_le_extent (hpos : ∀ b ∈ bs, 0 < b.size) : bs.length ≤ extent bs := by
  induction bs with
  | nil => simp
  | cons b bs ih =>
    have hb := hpos b (by simp)
    have := ih fun c hc => hpos c (by simp [hc])
    rw [List.length_cons, extent_cons]
    omega

/-- What stands at a free block and after it does not matter. -/
theorem firstFree_congr {c : Block} {ds es fs : List Block} (hb : b.used = false) (hc : c.used = false) :
    firstFree a (ds ++ b :: es) = firstFree a (ds ++ c :: fs) := by
  induction ds generalizing a with
  | nil => simp [firstFree, hb, hc]
  | cons d ds ih => simp only [List.cons_append, firstFree, ih]

/-- A block becomes free: the first free one is the lower of the two. -/
theorem firstFree_lower (a : Nat) (ds cs fs : List Block) (hb : b.used = false) :
    (if a + extent ds < firstFree a (ds ++ cs) then a + extent ds else firstFree a (ds ++ cs)) =
      firstFree a (ds ++ b :: fs) := by
  by_cases hfree : ∃ d ∈ ds, d.used = false
  · have hle := @firstFree_le ds a
    rw [firstFree_append_free hfree, firstFree_append_free hfree, if_neg (by omega)]
  · have hall : ∀ d ∈ ds, d.used := fun d hd => by
      by_contra hd'
      exact hfree ⟨d, hd, by simpa using hd'⟩
    have hge := @le_firstFree cs (a + extent ds)
    have hthis : firstFree (a + extent ds) (b :: fs) = a + extent ds := by simp [firstFree, hb]
    rw [firstFree_append_used hall, firstFree_append_used hall, hthis]
    split <;> omega

/-- A used block may be seen as two. -/
theorem firstFree_split_used {ds es : List Block} {n k : Nat} (hb : b.used = true) (hn : n + k = b.size) :
    firstFree a (ds ++ b :: es) = firstFree a ((ds ++ [⟨n, true⟩]) ++ ⟨k, true⟩ :: es) := by
  induction ds generalizing a with
  | nil => simp [firstFree, hb, ← hn, Nat.add_assoc]
  | cons d ds ih => simp only [List.cons_append, firstFree, ih]

theorem extent_dvd {n : Nat} (h : ∀ b ∈ bs, n ∣ b.size) : n ∣ extent bs := by
  induction bs with
  | nil => simp
  | cons b bs ih =>
    exact Nat.dvd_add (h b (by simp)) (ih fun c hc => h c (by simp [hc]))

theorem usedSize_le : usedSize bs ≤ extent bs := by
  induction bs with
  | nil => simp
  | cons b bs ih => rw [usedSize_cons, extent_cons]; split <;> omega

/-- The blocks before the first free one are used. -/
theorem exists_firstFree : ∃ ds es, bs = ds ++ es ∧ (∀ b ∈ ds, b.used) ∧ firstFree a bs = a + extent ds ∧
    ∀ c ∈ es.head?, c.used = false := by
  induction bs generalizing a with
  | nil => exact ⟨[], [], rfl, by simp, by simp [firstFree], by simp⟩
  | cons b bs ih =>
    by_cases hb : b.used
    · obtain ⟨ds, es, rfl, hu, hf, hh⟩ := ih (a := a + b.size)
      refine ⟨b :: ds, es, rfl, ?_, ?_, hh⟩
      · intro c hc
        rcases List.mem_cons.1 hc with rfl | hc
        · exact hb
        · exact hu c hc
      · rw [firstFree, if_pos hb, hf, extent_cons, Nat.add_assoc]
    · exact ⟨[], b :: bs, rfl, by simp, by simp [firstFree, hb], by simpa using hb⟩

/-! ## Headers -/

/-- What the headers say: where the next block starts, where the one before starts, whether the block is used, and
whether the rest of the header is as it should be. -/
structure Headers where
  next : Nat → Nat
  prev : Nat → Nat
  used : Nat → Bool
  valid : Nat → Prop

variable {h h' : Headers}

/-- The headers from the address `a` on describe the blocks, which end at `e`; the block before starts at `p`. -/
def Seg (h : Headers) (p a : Nat) : List Block → Nat → Prop
  | [], e => a = e
  | b :: bs, e => h.prev a = p ∧ h.next a = a + b.size ∧ h.used a = b.used ∧ h.valid a ∧ Seg h a (a + b.size) bs e

@[simp] theorem seg_nil : Seg h p a [] e ↔ a = e := Iff.rfl

@[simp] theorem seg_cons : Seg h p a (b :: bs) e ↔
    h.prev a = p ∧ h.next a = a + b.size ∧ h.used a = b.used ∧ h.valid a ∧ Seg h a (a + b.size) bs e := Iff.rfl

theorem Seg.end_eq (hs : Seg h p a bs e) : e = a + extent bs := by
  induction bs generalizing p a with
  | nil => rw [← seg_nil.1 hs]; simp
  | cons b bs ih => rw [ih hs.2.2.2.2, extent_cons, Nat.add_assoc]

/-- Two segments that meet. -/
theorem seg_append : Seg h p a (bs ++ cs) e ↔
    Seg h p a bs (a + extent bs) ∧ Seg h (last p a bs) (a + extent bs) cs e := by
  induction bs generalizing p a with
  | nil => simp [last]
  | cons b bs ih => simp only [List.cons_append, seg_cons, ih, last, extent_cons, ← Nat.add_assoc, and_assoc]

/-- Two families of headers agree at an address, up to the place of the block before. -/
structure Agree (h h' : Headers) (x : Nat) : Prop where
  next : h'.next x = h.next x
  used : h'.used x = h.used x
  valid : h.valid x → h'.valid x

/-- A segment depends on its own headers only. -/
theorem Seg.congr (hs : Seg h p a bs e) (hpos : ∀ b ∈ bs, 0 < b.size)
    (hh : ∀ x, a ≤ x → x < e → Agree h h' x ∧ h'.prev x = h.prev x) : Seg h' p a bs e := by
  induction bs generalizing p a with
  | nil => exact hs
  | cons b bs ih =>
    obtain ⟨hp, hn, hu, hv, hs⟩ := hs
    have he := hs.end_eq
    have hb := hpos b (by simp)
    obtain ⟨ha, hp'⟩ := hh a (Nat.le_refl a) (by omega)
    exact ⟨hp'.trans hp, ha.next.trans hn, ha.used.trans hu, ha.valid hv,
      ih hs (fun c hc => hpos c (by simp [hc])) fun x hx hxe => hh x (by omega) hxe⟩

/-- The first header alone says where the block before starts. -/
theorem Seg.set_prev (hs : Seg h p a bs e) (hpos : ∀ b ∈ bs, 0 < b.size)
    (hh : ∀ x, a ≤ x → x < e → Agree h h' x ∧ (x ≠ a → h'.prev x = h.prev x))
    (hq : a < e → h'.prev a = q) : Seg h' q a bs e := by
  cases bs with
  | nil => exact hs
  | cons b bs =>
    obtain ⟨-, hn, hu, hv, hs⟩ := hs
    have he := hs.end_eq
    have hb := hpos b (by simp)
    have ha := (hh a (Nat.le_refl a) (by omega)).1
    refine ⟨hq (by omega), ha.next.trans hn, ha.used.trans hu, ha.valid hv,
      hs.congr (fun c hc => hpos c (by simp [hc])) fun x hx hxe => ?_⟩
    obtain ⟨h1, h2⟩ := hh x (by omega) hxe
    exact ⟨h1, h2 (by omega)⟩

theorem Seg.of_mem_starts (hs : Seg h p a bs e) (hm : (x, b) ∈ starts a bs) :
    h.next x = x + b.size ∧ h.used x = b.used ∧ h.valid x := by
  obtain ⟨ds, es, rfl, rfl⟩ := mem_starts.1 hm
  obtain ⟨-, -, hn, hu, hv, -⟩ := seg_append.1 hs
  exact ⟨hn, hu, hv⟩

/-- The start of a block is where the block before it ends, and that one knows it. -/
theorem Seg.prev_next (hs : Seg h p a bs e) (hm : (x, b) ∈ starts a bs) (hne : h.next x ≠ e) :
    h.prev (h.next x) = x := by
  obtain ⟨ds, es, rfl, rfl⟩ := mem_starts.1 hm
  obtain ⟨-, -, hn, -, -, hs⟩ := seg_append.1 hs
  rw [hn] at hne ⊢
  cases es with
  | nil => exact absurd hs hne
  | cons c es => exact hs.1

/-- From a block on, the headers link the starts in both directions. -/
theorem Seg.isChain (hs : Seg h p a bs e) :
    ((starts a bs).map Prod.fst).IsChain fun x y => h.next x = y ∧ h.prev y = x := by
  induction bs generalizing p a with
  | nil => exact List.isChain_nil
  | cons b bs ih =>
    obtain ⟨-, hn, -, -, hs⟩ := hs
    have hc := ih hs
    cases bs with
    | nil => exact List.isChain_singleton a
    | cons d ds => exact List.isChain_cons_cons.2 ⟨⟨hn, hs.1⟩, hc⟩

/-! ## Marking, splitting and joining blocks -/

variable {ds es : List Block} {u : Bool}

/-- The block at `x` is marked. -/
theorem Seg.mark (hs : Seg h p a (ds ++ b :: es) e) (hpos : ∀ c ∈ ds ++ b :: es, 0 < c.size) (hx : x = a + extent ds)
    (hnext : h'.next x = h.next x) (hprev : ∀ y, h'.prev y = h.prev y) (hu : h'.used x = u) (hv : h'.valid x)
    (hother : ∀ y, y ≠ x → Agree h h' y) : Seg h' p a (ds ++ ⟨b.size, u⟩ :: es) e := by
  subst hx
  have hb := hpos b (by simp)
  obtain ⟨h1, hp, hn, -, -, h2⟩ := seg_append.1 hs
  refine seg_append.2 ⟨h1.congr (fun c hc => hpos c (by simp [hc])) fun y hy hye => ⟨hother y (by omega), hprev y⟩,
    (hprev _).trans hp, hnext.trans hn, hu, hv,
    h2.congr (fun c hc => hpos c (by simp [hc])) fun y hy _ => ⟨hother y (by omega), hprev y⟩⟩

/-- The block at `x` is split after `n` bytes. -/
theorem Seg.split (hs : Seg h p a (ds ++ b :: es) e) (hpos : ∀ c ∈ ds ++ b :: es, 0 < c.size) (hx : x = a + extent ds)
    (h0 : 0 < n) (hn : n < b.size) (hx1 : h'.next x = x + n ∧ h'.used x = h.used x ∧ (h.valid x → h'.valid x))
    (hx2 : h'.next (x + n) = x + b.size ∧ h'.prev (x + n) = x ∧ h'.used (x + n) = u ∧ h'.valid (x + n))
    (hx3 : x + b.size < e → h'.prev (x + b.size) = x + n) (hother : ∀ y, y ≠ x → y ≠ x + n → Agree h h' y)
    (hprev : ∀ y, y ≠ x + n → y ≠ x + b.size → h'.prev y = h.prev y) :
    Seg h' p a (ds ++ ⟨n, b.used⟩ :: ⟨b.size - n, u⟩ :: es) e := by
  subst hx
  obtain ⟨h1, hp, -, hu, hv, h2⟩ := seg_append.1 hs
  have hsub : a + extent ds + n + (b.size - n) = a + extent ds + b.size := by omega
  refine seg_append.2 ⟨h1.congr (fun c hc => hpos c (by simp [hc])) fun y hy hye => ?_,
    (hprev _ (by omega) (by omega)).trans hp, hx1.1, hx1.2.1.trans hu, hx1.2.2 hv, hx2.2.1, ?_, hx2.2.2.1,
    hx2.2.2.2, ?_⟩
  · exact ⟨hother y (by omega) (by omega), hprev y (by omega) (by omega)⟩
  · rw [hx2.1]; exact hsub.symm
  · dsimp only
    rw [hsub]
    refine h2.set_prev (fun c hc => hpos c (by simp [hc])) (fun y hy hye => ?_) hx3
    exact ⟨hother y (by omega) (by omega), fun hne => hprev y (by omega) hne⟩

/-- The block at `x` and the next one become one. -/
theorem Seg.join {c : Block} (hs : Seg h p a (ds ++ b :: c :: es) e) (hpos : ∀ d ∈ ds ++ b :: c :: es, 0 < d.size)
    (hx : x = a + extent ds)
    (hx1 : h'.next x = x + b.size + c.size ∧ h'.used x = h.used x ∧ (h.valid x → h'.valid x))
    (hx3 : x + b.size + c.size < e → h'.prev (x + b.size + c.size) = x)
    (hother : ∀ y, y ≠ x → y ≠ x + b.size → Agree h h' y)
    (hprev : ∀ y, y ≠ x + b.size → y ≠ x + b.size + c.size → h'.prev y = h.prev y) :
    Seg h' p a (ds ++ ⟨b.size + c.size, b.used⟩ :: es) e := by
  subst hx
  have hb := hpos b (by simp)
  have hc := hpos c (by simp)
  obtain ⟨h1, hp, -, hu, hv, -, -, -, -, h2⟩ := seg_append.1 hs
  refine seg_append.2 ⟨h1.congr (fun d hd => hpos d (by simp [hd])) fun y hy hye => ?_,
    (hprev _ (by omega) (by omega)).trans hp, hx1.1.trans (Nat.add_assoc _ _ _), hx1.2.1.trans hu, hx1.2.2 hv, ?_⟩
  · exact ⟨hother y (by omega) (by omega), hprev y (by omega) (by omega)⟩
  · dsimp only
    rw [← Nat.add_assoc]
    refine h2.set_prev (fun d hd => hpos d (by simp [hd])) (fun y hy hye => ?_) hx3
    exact ⟨hother y (by omega) (by omega), fun hne => hprev y (by omega) hne⟩

/-! ## Free blocks that stand apart -/

theorem merged_append : Merged (bs ++ cs) ↔
    Merged bs ∧ Merged cs ∧ ∀ b ∈ bs.getLast?, ∀ c ∈ cs.head?, b.used ∨ c.used := List.isChain_append

theorem merged_cons : Merged (b :: bs) ↔ (∀ c ∈ bs.head?, b.used ∨ c.used) ∧ Merged bs := List.isChain_cons

@[simp] theorem merged_nil : Merged [] := List.isChain_nil

/-- The blocks around a block, when it is marked as used. -/
theorem Merged.mark_used (hm : Merged (ds ++ b :: es)) (n : Nat) : Merged (ds ++ ⟨n, true⟩ :: es) := by
  obtain ⟨h1, h2, -⟩ := merged_append.1 hm
  exact merged_append.2 ⟨h1, merged_cons.2 ⟨fun _ _ => .inl rfl, (merged_cons.1 h2).2⟩, by simp⟩

/-- A free block that is split into a used and a free one. -/
theorem Merged.split_free (hm : Merged (ds ++ b :: es)) (hb : b.used = false) (n k : Nat) :
    Merged (ds ++ ⟨n, true⟩ :: ⟨k, false⟩ :: es) := by
  obtain ⟨h1, h2, -⟩ := merged_append.1 hm
  obtain ⟨h3, h4⟩ := merged_cons.1 h2
  refine merged_append.2 ⟨h1, merged_cons.2 ⟨fun _ _ => .inl rfl, merged_cons.2 ⟨fun c hc => ?_, h4⟩⟩, by simp⟩
  exact .inr ((h3 c hc).resolve_left (by simp [hb]))

/-! ## Used blocks -/

/-- The used blocks, with their places. -/
def usedBlocks (a : Nat) (bs : List Block) : List (Nat × Block) := (starts a bs).filter fun q => q.2.used

@[simp] theorem usedBlocks_append : usedBlocks a (bs ++ cs) = usedBlocks a bs ++ usedBlocks (a + extent bs) cs := by
  simp [usedBlocks]

@[simp] theorem usedBlocks_nil : usedBlocks a [] = [] := rfl

theorem usedBlocks_cons_used (hb : b.used = true) : usedBlocks a (b :: bs) = (a, b) :: usedBlocks (a + b.size) bs := by
  simp [usedBlocks, hb]

theorem usedBlocks_cons_free (hb : b.used = false) : usedBlocks a (b :: bs) = usedBlocks (a + b.size) bs := by
  simp [usedBlocks, hb]

/-- The used blocks before and behind the block at `x`. -/
theorem usedBlocks_middle_used (hx : x = a + extent ds) (hb : b.used = true) :
    usedBlocks a (ds ++ b :: es) = usedBlocks a ds ++ (x, b) :: usedBlocks (x + b.size) es := by
  rw [usedBlocks_append, usedBlocks_cons_used hb, hx]

theorem usedBlocks_middle_free (hx : x = a + extent ds) (hb : b.used = false) :
    usedBlocks a (ds ++ b :: es) = usedBlocks a ds ++ usedBlocks (x + b.size) es := by
  rw [usedBlocks_append, usedBlocks_cons_free hb, hx]

/-- Two free blocks that become one. -/
theorem usedBlocks_join {c : Block} (hb : b.used = false) (hc : c.used = false) :
    usedBlocks a (ds ++ b :: c :: es) = usedBlocks a (ds ++ ⟨b.size + c.size, false⟩ :: es) := by
  rw [usedBlocks_append, usedBlocks_append, usedBlocks_cons_free hb, usedBlocks_cons_free hc,
    usedBlocks_cons_free (b := ⟨b.size + c.size, false⟩) rfl, Nat.add_assoc (a + extent ds)]

theorem usedSize_eq : usedSize bs = ((usedBlocks a bs).map fun q => q.2.size).sum := by
  induction bs generalizing a with
  | nil => rfl
  | cons b bs ih =>
    rw [usedSize_cons, ih (a := a + b.size)]
    cases hb : b.used with
    | true => simp [usedBlocks_cons_used hb]
    | false => simp [usedBlocks_cons_free hb]

theorem pairwise_usedBlocks : (usedBlocks a bs).Pairwise Apart := pairwise_starts.filter _

theorem mem_usedBlocks : (x, b) ∈ usedBlocks a bs ↔ (x, b) ∈ starts a bs ∧ b.used := by simp [usedBlocks]

/-- Merged blocks none of which is used are one block. -/
theorem Merged.single (hm : Merged bs) (hne : bs ≠ []) (hu : usedBlocks a bs = []) : bs = [⟨extent bs, false⟩] := by
  obtain ⟨b, cs, rfl⟩ := List.exists_cons_of_ne_nil hne
  cases hb : b.used with
  | true =>
    rw [usedBlocks_cons_used hb] at hu
    cases hu
  | false =>
    rw [usedBlocks_cons_free hb] at hu
    cases cs with
    | nil => simp [← hb]
    | cons c cs =>
      have hc : c.used = true := ((merged_cons.1 hm).1 c rfl).resolve_left (by simp [hb])
      rw [usedBlocks_cons_used hc] at hu
      cases hu

/-- The place of a used block, and what the others are. -/
theorem exists_of_perm {us : List (Nat × Block)} (hp : (usedBlocks 0 bs).Perm ((x, b) :: us)) :
    ∃ ds es, bs = ds ++ b :: es ∧ x = extent ds ∧ b.used ∧
      us.Perm (usedBlocks 0 ds ++ usedBlocks (x + b.size) es) := by
  obtain ⟨hms, hb⟩ := mem_usedBlocks.1 (hp.mem_iff.2 List.mem_cons_self)
  obtain ⟨ds, es, rfl, hx⟩ := mem_starts.1 hms
  rw [Nat.zero_add] at hx
  refine ⟨ds, es, rfl, hx, hb, List.Perm.cons_inv (a := (x, b)) (hp.symm.trans ?_)⟩
  rw [usedBlocks_append, usedBlocks_cons_used hb, ← hx, Nat.zero_add]
  exact List.perm_middle

/-! ## Free blocks -/

/-- The free blocks, with their places. -/
def freeBlocks (a : Nat) (bs : List Block) : List (Nat × Block) := (starts a bs).filter fun q => !q.2.used

@[simp] theorem freeBlocks_append : freeBlocks a (bs ++ cs) = freeBlocks a bs ++ freeBlocks (a + extent bs) cs := by
  simp [freeBlocks]

@[simp] theorem freeBlocks_nil : freeBlocks a [] = [] := rfl

theorem freeBlocks_cons_used (hb : b.used = true) : freeBlocks a (b :: bs) = freeBlocks (a + b.size) bs := by
  simp [freeBlocks, hb]

theorem freeBlocks_cons_free (hb : b.used = false) : freeBlocks a (b :: bs) = (a, b) :: freeBlocks (a + b.size) bs := by
  simp [freeBlocks, hb]

theorem mem_freeBlocks : (x, b) ∈ freeBlocks a bs ↔ (x, b) ∈ starts a bs ∧ b.used = false := by simp [freeBlocks]

/-- What the free blocks add up to, without their headers of `n` bytes. -/
def freeRoom (n : Nat) (bs : List Block) : Nat := (bs.map fun b => if b.used then 0 else b.size - n).sum

@[simp] theorem freeRoom_nil : freeRoom n [] = 0 := rfl
@[simp] theorem freeRoom_cons : freeRoom n (b :: bs) = (if b.used then 0 else b.size - n) + freeRoom n bs := by
  simp [freeRoom]
@[simp] theorem freeRoom_append : freeRoom n (bs ++ cs) = freeRoom n bs + freeRoom n cs := by simp [freeRoom]

theorem freeRoom_le : freeRoom n bs ≤ extent bs := by
  induction bs with
  | nil => simp
  | cons b bs ih => rw [freeRoom_cons, extent_cons]; split <;> omega

theorem freeRoom_eq : freeRoom n bs = ((freeBlocks a bs).map fun q => q.2.size - n).sum := by
  induction bs generalizing a with
  | nil => rfl
  | cons b bs ih =>
    rw [freeRoom_cons, ih (a := a + b.size)]
    cases hb : b.used with
    | true => simp [freeBlocks_cons_used hb]
    | false => simp [freeBlocks_cons_free hb]

end Tiles
