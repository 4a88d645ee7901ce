import RtThread.Lib.Bytes

/-!
# The wrappers of the heap

`rt_calloc`, `rt_malloc_align` and `rt_free_align` (`kservice.c`), over any `rt_malloc`. They multiply and add sizes before
they ask for a block, so a large request wraps to a small one; and `rt_malloc_align` keeps the block in the word before the
address that it returns.
-/

namespace RtThread

/-- `sizeof(void *)`, which is that of `rt_size_t`. -/
structure HeapWord where
  size : Nat
  size_eq : size = 4 ∨ size = 8

/-- The number of values of a word. -/
def HeapWord.top (w : HeapWord) : Nat := 256 ^ w.size

/-- `rt_malloc`: the block of so many bytes, or NULL, which is 0. -/
structure HeapMalloc (w : HeapWord) where
  block : Nat → Nat
  fits : ∀ n, block n ≠ 0 → block n + n ≤ w.top ∧ block n < w.top

/-- `x & ~(a - 1)`, for a power of two `a`. -/
def maskDown (x a : Nat) : Nat := x - x % a

namespace HeapWord

variable (w : HeapWord) (malloc : HeapMalloc w)

/-- `rt_calloc`: the address, and the memory. -/
def rtCalloc (count size : Nat) (mem : Nat → BitVec 8) : Nat × (Nat → BitVec 8) :=
  let n := count * size % w.top
  let p := malloc.block n
  (p, if p ≠ 0 then fun a => if p ≤ a ∧ a < p + n then 0 else mem a else mem)

/-- `align`, behind `align = ((align + uintptr_size) & ~uintptr_size);`. -/
def ptrAlign (align : Nat) : Nat := maskDown ((align + (w.size - 1)) % w.top) w.size

/-- `align_size`. -/
def alignSize (size align : Nat) : Nat := (maskDown ((size + (w.size - 1)) % w.top) w.size + w.ptrAlign align) % w.top

/-- `align_ptr`. -/
def alignPtr (ptr align : Nat) : Nat :=
  if ptr % align = 0 then (ptr + align) % w.top else maskDown ((ptr + (align - 1)) % w.top) align

/-- `rt_malloc_align`: the address, and the memory. -/
def rtMallocAlign (size align : Nat) (mem : Nat → BitVec 8) : Nat × (Nat → BitVec 8) :=
  let ptr := malloc.block (w.alignSize size align)
  if ptr ≠ 0 then
    let alignPtr := w.alignPtr ptr (w.ptrAlign align)
    (alignPtr, Bytes.store mem ((alignPtr + (w.top - w.size)) % w.top) ptr w.size)
  else (ptr, mem)

/-- `rt_free_align`: what it passes to `rt_free`. -/
def rtFreeAlign (mem : Nat → BitVec 8) (ptr : Nat) : Option Nat :=
  if ptr = 0 then none else some (Bytes.load mem ((ptr + (w.top - w.size)) % w.top) w.size)

/-- A block of `rt_calloc` has room for all objects. -/
def CallocLaw (count size : Nat) : Prop :=
  ∀ mem, (w.rtCalloc malloc count size mem).1 ≠ 0 → count * size ≤ count * size % w.top

/-- An address of `rt_malloc_align` is aligned, with the word before it and the `size` bytes from it on inside the block,
and `rt_free_align` frees the block, whatever its user has written. -/
def AlignLaw (size align : Nat) : Prop :=
  ∀ mem a mem', w.rtMallocAlign malloc size align mem = (a, mem') → a ≠ 0 →
    align ∣ a ∧ malloc.block (w.alignSize size align) + w.size ≤ a ∧
      a + size ≤ malloc.block (w.alignSize size align) + w.alignSize size align ∧
      ∀ mem'', (∀ x, x < a ∨ a + size ≤ x → mem'' x = mem' x) →
        w.rtFreeAlign mem'' a = some (malloc.block (w.alignSize size align))

variable {w malloc} {size align p : Nat}

theorem size_pow (w : HeapWord) : ∃ k, w.size = 2 ^ k ∧ 1 ≤ w.size ∧ w.size < w.top ∧ w.size ∣ w.top ∧ w.top = 2 ^ (8 * w.size) := by
  unfold top
  rcases w.size_eq with h | h <;> rw [h]
  · exact ⟨2, rfl, by decide, by decide, by decide, by decide⟩
  · exact ⟨3, rfl, by decide, by decide, by decide, by decide⟩

theorem maskDown_dvd (x a : Nat) : a ∣ maskDown x a := Nat.dvd_sub_mod x

/-- Rounding up to a multiple of `a`. -/
theorem maskDown_add {x a : Nat} (ha : 0 < a) : x ≤ maskDown (x + (a - 1)) a ∧ maskDown (x + (a - 1)) a < x + a := by
  have := Nat.mod_lt (x + (a - 1)) ha
  unfold maskDown
  omega

theorem eq_of_dvd {x y a : Nat} (hx : a ∣ x) (hy : a ∣ y) (h : x < y + a) (h' : y < x + a) : x = y := by
  obtain ⟨m, rfl⟩ := hx
  obtain ⟨n, rfl⟩ := hy
  have hlt : m < n + 1 := Nat.lt_of_mul_lt_mul_left (a := a) (by rw [Nat.mul_add, Nat.mul_one]; exact h)
  have hlt' : n < m + 1 := Nat.lt_of_mul_lt_mul_left (a := a) (by rw [Nat.mul_add, Nat.mul_one]; exact h')
  rw [show m = n by omega]

/-- The alignment is rounded up to that of a pointer. -/
theorem ptrAlign_eq (halign : ∃ k, align = 2 ^ k) (hlt : align < w.top) :
    w.ptrAlign align = max align w.size ∧ align ∣ max align w.size ∧ max align w.size ∣ w.top ∧
      2 * max align w.size ≤ w.top := by
  obtain ⟨k, rfl⟩ := halign
  obtain ⟨j, hj, hpos, hjt, -, htop⟩ := w.size_pow
  have hhalf (i : Nat) (hi : 2 ^ i < w.top) : 2 ^ i ∣ w.top ∧ 2 * 2 ^ i ≤ w.top := by
    rw [htop] at hi ⊢
    have hlt := (Nat.pow_lt_pow_iff_right (by decide)).1 hi
    rw [← Nat.pow_succ']
    exact ⟨Nat.pow_dvd_pow 2 (by omega), Nat.pow_le_pow_right (by decide) hlt⟩
  have hk := hhalf k hlt
  have hsize := hhalf j (hj ▸ hjt)
  rw [← hj] at hsize
  have hround := maskDown_add (x := 2 ^ k) hpos
  have hdvd := maskDown_dvd (2 ^ k + (w.size - 1)) w.size
  rw [ptrAlign, Nat.mod_eq_of_lt (by omega)]
  rcases Nat.le_total k j with hkj | hkj
  · have hle : 2 ^ k ∣ w.size := hj ▸ Nat.pow_dvd_pow 2 hkj
    rw [Nat.max_eq_right (Nat.le_of_dvd hpos hle)]
    exact ⟨eq_of_dvd hdvd (Nat.dvd_refl _) (by have := Nat.le_of_dvd hpos hle; omega)
      (by have := Nat.two_pow_pos k; omega), hle, hsize⟩
  · have hle : w.size ∣ 2 ^ k := hj ▸ Nat.pow_dvd_pow 2 hkj
    rw [Nat.max_eq_left (Nat.le_of_dvd (Nat.two_pow_pos k) hle)]
    exact ⟨eq_of_dvd hdvd hle hround.2 (by omega), Nat.dvd_refl _, hk⟩

/-- The address is the next multiple of the alignment behind the start of the block. -/
theorem alignPtr_eq {a : Nat} (ha : 0 < a) (hdvd : a ∣ w.top) (hp : p < w.top) :
    a ∣ p - p % a + a ∧ p - p % a + a ≤ w.top ∧ w.alignPtr p a = (p - p % a + a) % w.top := by
  have hmod := Nat.mod_lt p ha
  have hle := Nat.mod_le p a
  have hmul : a ∣ p - p % a + a := Nat.dvd_add (Nat.dvd_sub_mod p) (Nat.dvd_refl a)
  have htop : p - p % a + a ≤ w.top := by
    obtain ⟨m, hm⟩ := hdvd
    have hdiv := Nat.div_add_mod p a
    have hlt : p / a < m := Nat.div_lt_of_lt_mul (hm ▸ hp)
    have hmul := Nat.mul_le_mul_left a hlt
    rw [Nat.mul_succ] at hmul
    omega
  refine ⟨hmul, htop, ?_⟩
  unfold alignPtr
  split
  · rename_i h0
    rw [h0, Nat.sub_zero]
  · rename_i h0
    by_cases hwrap : p + (a - 1) < w.top
    · have hround := maskDown_add (x := p) ha
      have heq : maskDown (p + (a - 1)) a = p - p % a + a := eq_of_dvd (maskDown_dvd _ _) hmul (by omega) (by omega)
      rw [Nat.mod_eq_of_lt hwrap, heq, Nat.mod_eq_of_lt (show p - p % a + a < w.top by omega)]
    · rw [eq_of_dvd hmul hdvd (by omega) (by omega), Nat.mod_self, Nat.mod_eq_sub_mod (by omega),
        Nat.mod_eq_of_lt (b := w.top) (by omega), maskDown, Nat.mod_eq_of_lt (by omega), Nat.sub_self]

/-- When a block of `rt_malloc_align` is as it should be. -/
def AlignFits (w : HeapWord) (size align p : Nat) : Prop :=
  let a := max align w.size
  p = 0 ∨ w.top ≤ p - p % a + a ∨ maskDown (size + (w.size - 1)) w.size + a < w.top ∧ w.size + p % a ≤ a

theorem alignLaw_iff (halign : ∃ k, align = 2 ^ k) (hlt : align < w.top) (hsize : size < w.top) :
    w.AlignLaw malloc size align ↔ w.AlignFits size align (malloc.block (w.alignSize size align)) := by
  obtain ⟨hptr, hdvd, htop, hhalf⟩ := w.ptrAlign_eq halign hlt
  obtain ⟨-, -, hpos, hlt', hsz, -⟩ := w.size_pow
  have hmax := Nat.le_max_right align w.size
  have hfits := malloc.fits (w.alignSize size align)
  have hn : w.alignSize size align =
      (maskDown ((size + (w.size - 1)) % w.top) w.size + max align w.size) % w.top := by rw [alignSize, hptr]
  unfold AlignLaw AlignFits rtMallocAlign
  rw [hptr]
  generalize max align w.size = a at *
  generalize w.alignSize size align = n at *
  generalize malloc.block n = p at *
  by_cases hp : p = 0
  · simp only [hp, true_or, iff_true]
    rintro mem x mem' heq hx
    simp only [ne_eq, not_true_eq_false, if_false, Prod.mk.injEq] at heq
    exact absurd heq.1.symm hx
  · obtain ⟨hmul, hle, haddr⟩ := alignPtr_eq (by omega) htop (hfits hp).2
    have hmodle := Nat.mod_le p a
    have hround := maskDown_add (x := size) (show 0 < w.size by omega)
    simp only [ne_eq, hp, not_false_eq_true, if_true, haddr, false_or, Prod.mk.injEq]
    by_cases hwrap : w.top ≤ p - p % a + a
    · have hzero : (p - p % a + a) % w.top = 0 := by rw [Nat.le_antisymm hle hwrap, Nat.mod_self]
      refine iff_of_true ?_ (.inl hwrap)
      rintro mem x mem' ⟨rfl, -⟩ hx
      exact absurd hzero hx
    · rw [Nat.mod_eq_of_lt (Nat.lt_of_not_le hwrap), or_iff_right hwrap]
      have hword : (p - p % a + a + (w.top - w.size)) % w.top = p - p % a + a - w.size := by
        rw [show p - p % a + a + (w.top - w.size) = p - p % a + a - w.size + w.top by omega, Nat.add_mod_right,
          Nat.mod_eq_of_lt (by omega)]
      constructor
      · intro h
        obtain ⟨-, hlow, hhigh, -⟩ := h (fun _ => 0) _ _ ⟨rfl, rfl⟩ (by omega)
        refine ⟨?_, by omega⟩
        by_contra hover
        -- the total wraps, either when the size is rounded up or when the alignment is added
        have hsmall : n + w.top = maskDown (size + (w.size - 1)) w.size + a := by
          rw [hn]
          by_cases hup : size + (w.size - 1) < w.top
          · rw [Nat.mod_eq_of_lt hup, Nat.mod_eq_sub_mod (by omega), Nat.mod_eq_of_lt (by omega)]
            omega
          · have hzero : maskDown ((size + (w.size - 1)) % w.top) w.size = 0 := by
              rw [Nat.mod_eq_sub_mod (by omega), Nat.mod_eq_of_lt (a := _ - _) (by omega), maskDown,
                Nat.mod_eq_of_lt (by omega), Nat.sub_self]
            rw [hzero, eq_of_dvd (maskDown_dvd (size + (w.size - 1)) w.size) hsz (by omega) (by omega), Nat.zero_add,
              Nat.mod_eq_of_lt (by omega), Nat.add_comm]
        omega
      · rintro ⟨hfit, hroom⟩ mem x mem' ⟨rfl, rfl⟩ -
        have hn' : n = maskDown (size + (w.size - 1)) w.size + a := by
          rw [hn, Nat.mod_eq_of_lt (a := size + _) (by omega), Nat.mod_eq_of_lt hfit]
        refine ⟨Nat.dvd_trans hdvd hmul, by omega, by omega, ?_⟩
        intro mem'' hmem
        rw [HeapWord.rtFreeAlign, if_neg (by omega), hword]
        congr 1
        rw [Bytes.load_congr (m := Bytes.store mem (p - p % a + a - w.size) p w.size)]
        · exact Bytes.load_store_of_lt (hfits hp).2
        · intro x _ hx
          rw [hmem x (.inl (by omega)), hword]

theorem heap_wrappers (w : HeapWord) (malloc : HeapMalloc w) {count size align : Nat} (hsize : size < w.top)
    (halign : ∃ k, align = 2 ^ k) (hlt : align < w.top) :
    (w.CallocLaw malloc count size ↔ malloc.block (count * size % w.top) = 0 ∨ count * size < w.top) ∧
      (w.AlignLaw malloc size align ↔ w.AlignFits size align (malloc.block (w.alignSize size align))) := by
  refine ⟨?_, alignLaw_iff halign hlt hsize⟩
  have htop : 0 < w.top := by omega
  constructor
  · intro h
    by_cases hp : malloc.block (count * size % w.top) = 0
    · exact .inl hp
    · exact .inr ((h (fun _ => 0) hp).trans_lt (Nat.mod_lt _ htop))
  · rintro (hp | hlt) mem hne
    · exact absurd hp hne
    · rw [Nat.mod_eq_of_lt hlt]

/-- The heap of a 32-bit target, with a block of up to a MiB at `0x10010`. -/
def sramHeap : HeapMalloc ⟨4, .inl rfl⟩ where
  block n := if n ≤ 2 ^ 20 then 0x10010 else 0
  fits n := by
    split
    · exact fun _ => ⟨by change _ ≤ 256 ^ 4; omega, by decide⟩
    · exact fun h => absurd rfl h

theorem heap_wrappers_sram :
    (HeapWord.CallocLaw ⟨4, .inl rfl⟩ sramHeap 10 100 ↔
      sramHeap.block (10 * 100 % HeapWord.top ⟨4, .inl rfl⟩) = 0 ∨ 10 * 100 < HeapWord.top ⟨4, .inl rfl⟩) ∧
    (HeapWord.AlignLaw ⟨4, .inl rfl⟩ sramHeap 100 64 ↔
      HeapWord.AlignFits ⟨4, .inl rfl⟩ 100 64 (sramHeap.block (HeapWord.alignSize ⟨4, .inl rfl⟩ 100 64))) :=
  heap_wrappers _ sramHeap (by decide) ⟨6, rfl⟩ (by decide)

/-- `rt_calloc(65537, 65536)` returns a block of 65536 bytes. -/
theorem calloc_wraps : ¬ HeapWord.CallocLaw ⟨4, .inl rfl⟩ sramHeap 65537 65536 :=
  fun h => absurd (h (fun _ => 0) (by decide)) (by decide)

end HeapWord

end RtThread
