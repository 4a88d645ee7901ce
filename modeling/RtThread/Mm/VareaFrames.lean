import Mathlib.Data.List.Perm.Subperm
import RtThread.Mm.Pages

/-!
# The frames of a varea

`mm_object.c`: a varea records the pages that it faulted in, in a list threaded through their records. What callers record
and take out is kept beside it (`Tracked`). The list is that of the recorded pages as long as pages are recorded with no
page before them and those taken out have pages on both sides; taking out the first or the last page writes to a null
page, and `rt_varea_pgmgr_pop_all` leaves the head where it is (`frames_listed_iff`).
-/

namespace RtThread

/-- The page allocator, and `varea->frames`. -/
structure VareaFrames where
  pages : PageState
  frames : Option Nat

namespace VareaFrames

variable (c : PageConfig)

/-- `rt_varea_pgmgr_insert`. -/
def rtVareaPgmgrInsert (v : VareaFrames) (pageAddr : Nat) : VareaFrames :=
  let page := c.addrToPage pageAddr
  match v.frames with
  | none => ⟨v.pages.setNext page none, some page⟩
  | some frames => ⟨(v.pages.setPre frames (some page)).setNext page (some frames), some page⟩

/-- `while (page)`: the next page is read before the page is freed. -/
def popAllLoop (s : PageState) : Option Nat → Nat → Option PageState
  | none, _ => some s
  | some _, 0 => none
  | some page, n + 1 =>
    let next := (s.page page).next
    match s.rtPagesFree c (c.pageToAddr page) 0 with
    | none => none
    | some (s, _) => popAllLoop s next n

/-- `rt_varea_pgmgr_pop_all`. -/
def rtVareaPgmgrPopAll (v : VareaFrames) : Option VareaFrames :=
  (popAllLoop c v.pages v.frames (2 ^ (c.addressWidthBits - c.pageShift))).map fun s => { v with pages := s }

/-- The body of the loop; `none` is a write to a null page, or an assertion of `rt_pages_free`. -/
def popPage (s : PageState) (vaddr : Nat) : Option PageState :=
  let page := c.addrToPage vaddr
  match (s.page page).pre with
  | none => none
  | some pre =>
    let s := s.setNext pre (s.page page).next
    match (s.page page).next with
    | none => none
    | some next => ((s.setPre next (s.page page).pre).rtPagesFree c vaddr 0).map Prod.fst

/-- `while (vaddr != vend)`. -/
def popLoop (s : PageState) (vaddr vend : Nat) : Nat → Option PageState
  | 0 => if vaddr = vend then some s else none
  | n + 1 =>
    if vaddr = vend then some s
    else
      match popPage c s vaddr with
      | none => none
      | some s => popLoop s ((vaddr + c.archPageSize) % 2 ^ c.addressWidthBits) vend n

/-- `rt_varea_pgmgr_pop`. -/
def rtVareaPgmgrPop (v : VareaFrames) (vaddr size : Nat) : Option VareaFrames :=
  (popLoop c v.pages vaddr ((vaddr + size) % 2 ^ c.addressWidthBits) (2 ^ (c.addressWidthBits - c.pageShift))).map
    fun s => { v with pages := s }

/-- The calls on a varea, and those of the page allocator. -/
inductive Call
  | insert (pageAddr : Nat)
  | pop (vaddr size : Nat)
  | popAll
  | pages (e : PageState.Ev)

def call (v : VareaFrames) : Call → Option VareaFrames
  | .insert pageAddr => some (v.rtVareaPgmgrInsert c pageAddr)
  | .pop vaddr size => v.rtVareaPgmgrPop c vaddr size
  | .popAll => v.rtVareaPgmgrPopAll c
  | .pages e => (v.pages.step c e).map fun x => { v with pages := x.1 }

/-! ## What is expected -/

/-- A varea, and the pages that were recorded and not taken out, the last recorded first. -/
structure Tracked where
  varea : VareaFrames
  recorded : List Nat

def recordedAfter (recorded : List Nat) : Call → List Nat
  | .insert pageAddr => c.addrToPage pageAddr :: recorded
  | .pop vaddr size => recorded.diff (List.range' (c.addrToPage vaddr) (size / c.archPageSize))
  | .popAll => []
  | .pages _ => recorded

/-- What callers do: they record pages of their own, each once, and take out runs of recorded pages. Other callers of the
page allocator do not drop the last reference to a recorded page. -/
def Allowed (t : Tracked) : Call → Prop
  | .insert pageAddr => ∃ p, pageAddr = c.pageToAddr p ∧ (p, 0) ∈ t.varea.pages.live ∧ p ∉ t.recorded
  | .pop vaddr size => ∃ p n, vaddr = c.pageToAddr p ∧ size = n * c.archPageSize ∧ ∀ i < n, p + i ∈ t.recorded
  | .popAll => True
  | .pages e => (∃ r s, PageState.Step c t.varea.pages (e, r) s) ∧
      ∀ p ∈ t.recorded, e = .free (c.pageToAddr p) 0 → (t.varea.pages.page p).refCnt ≠ 1

/-- The recorded pages are listed, each once. -/
def Listed (t : Tracked) : Prop :=
  t.recorded.Nodup ∧
  Doubly.Linked (fun p => (t.varea.pages.page p).next) (fun p => (t.varea.pages.page p).pre) none t.varea.frames t.recorded

/-- The pages are freed one after the other, each once. -/
def freeEach (s : PageState) (xs : List Nat) : Option PageState :=
  xs.foldlM (fun s p => (s.rtPagesFree c (c.pageToAddr p) 0).map Prod.fst) s

/-- A call returns, with the recorded pages listed; one for all pages has freed each. -/
def Works (t : Tracked) (x : Call) : Prop :=
  ∃ v, t.varea.call c x = some v ∧ Listed ⟨v, recordedAfter c t.recorded x⟩ ∧
    (x = .popAll → freeEach c t.varea.pages t.recorded = some v.pages)

/-- When a call works: a page is recorded whose record says that no page is before it, pages are taken out that are neither
the first nor the last, and nothing is recorded when all are taken out. -/
def Fine (t : Tracked) : Call → Prop
  | .insert pageAddr => (t.varea.pages.page (c.addrToPage pageAddr)).pre = none
  | .pop vaddr size => ∀ i < size / c.archPageSize,
      t.recorded.head? ≠ some (c.addrToPage vaddr + i) ∧ t.recorded.getLast? ≠ some (c.addrToPage vaddr + i)
  | .popAll => t.recorded = []
  | .pages _ => True

def Step (t : Tracked) (x : Call) (t' : Tracked) : Prop :=
  Allowed c t x ∧ t.varea.call c x = some t'.varea ∧ t'.recorded = recordedAfter c t.recorded x

variable {c : PageConfig} {s s' : PageState} {v : VareaFrames} {t t' : Tracked} {a b lo hi p q x k n st tl : Nat} {Z : Prop}
  {prev head h : Option Nat} {xs : List Nat} {free : PageList → Nat → List Nat}

/-! ## Addresses -/

theorem pageToAddr_eq (c : PageConfig) (p : Nat) : c.pageToAddr p =
    (p * 2 ^ c.pageShift + (2 ^ c.addressWidthBits - c.pvOffset)) % 2 ^ c.addressWidthBits := by
  rw [PageConfig.pageToAddr, Nat.shiftLeft_eq, Nat.mod_add_mod]

theorem pageToAddr_add (c : PageConfig) (p n : Nat) :
    (c.pageToAddr p + n * c.archPageSize) % 2 ^ c.addressWidthBits = c.pageToAddr (p + n) := by
  rw [pageToAddr_eq, pageToAddr_eq, Nat.mod_add_mod, PageConfig.archPageSize, Nat.add_mul, Nat.add_right_comm]

/-- The pages of a run have different addresses. -/
theorem pageToAddr_ne (hp : 0 < p) (hn : p + n < 2 ^ (c.addressWidthBits - c.pageShift)) :
    c.pageToAddr p ≠ c.pageToAddr (p + (n + 1)) := by
  intro he
  rw [pageToAddr_eq, pageToAddr_eq, Nat.add_mul, Nat.add_right_comm] at he
  have hdvd := Nat.dvd_of_mod_eq_zero (Nat.sub_mod_eq_zero_of_mod_eq he.symm)
  rw [Nat.add_sub_cancel_left] at hdvd
  have hpow : 2 ^ c.addressWidthBits = 2 ^ (c.addressWidthBits - c.pageShift) * 2 ^ c.pageShift := by
    have := c.shadow_lt
    rw [← Nat.pow_add, Nat.sub_add_cancel (by omega)]
  rw [hpow] at hdvd
  have hle := Nat.le_of_dvd (Nat.succ_pos n) (Nat.dvd_of_mul_dvd_mul_right (Nat.two_pow_pos _) hdvd)
  omega

/-! ## Links -/

section

variable (s : PageState) (p : Nat) (h : Option Nat) (x : Nat)

theorem setNext_next : ((s.setNext p h).page x).next = if x = p then h else (s.page x).next := by
  rw [PageState.setNext_page]
  split <;> rfl

theorem setNext_pre : ((s.setNext p h).page x).pre = (s.page x).pre := by
  rw [PageState.setNext_page]
  split
  · rename_i hx
    rw [hx]
  · rfl

theorem setPre_next : ((s.setPre p h).page x).next = (s.page x).next := by
  rw [PageState.setPre_page]
  split
  · rename_i hx
    rw [hx]
  · rfl

theorem setPre_pre : ((s.setPre p h).page x).pre = if x = p then h else (s.page x).pre := by
  rw [PageState.setPre_page]
  split <;> rfl

end

/-- The links of a page in use are its owner's. -/
theorem relink_inv (s' : PageState) (hv : PageState.Inv c a b lo hi Z s free) (hp : (p, k) ∈ s.live) (hlist : s'.list = s.list)
    (hlive : s'.live = s.live) (hpage : ∀ x, x ≠ p → s'.page x = s.page x)
    (hself : (s'.page p).sizeBits = (s.page p).sizeBits ∧ (s'.page p).refCnt = (s.page p).refCnt) :
    PageState.Inv c a b lo hi Z s' free := by
  have hrest : ∀ x, (s'.page x).sizeBits = (s.page x).sizeBits ∧ (s'.page x).refCnt = (s.page x).refCnt := by
    intro x
    by_cases hx : x = p
    · rw [hx]
      exact hself
    · rw [hpage x hx]
      exact ⟨rfl, rfl⟩
  constructor
  · rw [hlive]
    apply hv.core.congr hlist
    · intro l j q hq
      rw [hpage q]
      · exact ⟨rfl, rfl⟩
      · rintro rfl
        exact hv.core.not_free_of_busy hp hq
    · exact fun x => (hrest x).1
  · intro d hd
    rw [(hrest d.1).1]
    exact hv.live_tag d (hlive ▸ hd)
  · intro d hd
    rw [(hrest d.1).2]
    exact hv.live_ref d (hlive ▸ hd)
  · intro hz x h1 h2 h3
    rw [(hrest x).2]
    exact hv.zero hz x h1 h2 (hlive ▸ h3)

theorem setNext_inv (hv : PageState.Inv c a b lo hi Z s free) (hp : (p, k) ∈ s.live) (h : Option Nat) :
    PageState.Inv c a b lo hi Z (s.setNext p h) free := by
  apply relink_inv (s.setNext p h) hv hp rfl rfl
  · intro x hx
    rw [PageState.setNext_page, if_neg hx]
  · rw [PageState.setNext_page, if_pos rfl]
    exact ⟨rfl, rfl⟩

theorem setPre_inv (hv : PageState.Inv c a b lo hi Z s free) (hp : (p, k) ∈ s.live) (h : Option Nat) :
    PageState.Inv c a b lo hi Z (s.setPre p h) free := by
  apply relink_inv (s.setPre p h) hv hp rfl rfl
  · intro x hx
    rw [PageState.setPre_page, if_neg hx]
  · rw [PageState.setPre_page, if_pos rfl]
    exact ⟨rfl, rfl⟩

/-! ## The list -/

/-- The pages from `head` on are `xs`, which callers have; before the first is `prev`. -/
structure Inv (c : PageConfig) (a b lo hi : Nat) (Z : Prop) (prev : Option Nat) (s : PageState) (head : Option Nat)
    (xs : List Nat) : Prop where
  blocks : ∃ free, PageState.Inv c a b lo hi Z s free
  nodup : xs.Nodup
  linked : Doubly.Linked (fun p => (s.page p).next) (fun p => (s.page p).pre) prev head xs
  live : ∀ p ∈ xs, (p, 0) ∈ s.live

theorem Inv.page_mem (hi : Inv c a b lo hi Z prev s head xs) (hp : p ∈ xs) : a ≤ p ∧ p < b := by
  obtain ⟨free, hv⟩ := hi.blocks
  obtain ⟨h1, h2, -⟩ := hv.core.first_mem (.inl (hi.live p hp))
  exact ⟨h1, h2⟩

theorem page_lt (hr : c.Region a b lo hi) (h1 : a ≤ p) (h2 : p < b) : p < 2 ^ (c.addressWidthBits - c.pageShift) := by
  rw [← hr.addrToPage p h1 h2, PageConfig.addrToPage, Nat.shiftRight_eq_div_pow, Nat.div_lt_iff_lt_mul (Nat.two_pow_pos _),
    ← Nat.pow_add, Nat.sub_add_cancel (by have := c.shadow_lt; omega)]
  exact Nat.mod_lt _ (Nat.two_pow_pos _)

/-- Freeing a page that is not in the list. -/
theorem Inv.free_page (hr : c.Region a b lo hi) (h : Inv c a b lo hi Z prev s head xs) (hp : (p, 0) ∈ s.live)
    (hnot : p ∉ xs) : ∃ s' real, s.rtPagesFree c (c.pageToAddr p) 0 = some (s', real) ∧
      Inv c a b lo hi Z prev s' head xs := by
  obtain ⟨free, hv⟩ := h.blocks
  obtain ⟨s', real, free', hfree, hv', -, hlive, hlinks⟩ := hv.doFree hr hp
  have hstay : ∀ q ∈ xs, (q, 0) ∈ s'.live := by
    intro q hq
    have hne : (q, 0) ≠ (p, 0) := by
      rintro ⟨⟩
      exact hnot hq
    rw [hlive]
    split
    · exact (List.mem_erase_of_ne hne).2 (h.live q hq)
    · exact h.live q hq
  have hsame : ∀ q ∈ xs, (s'.page q).next = (s.page q).next ∧ (s'.page q).pre = (s.page q).pre :=
    fun q hq => hlinks (q, 0) (h.live q hq) (hstay q hq)
  refine ⟨s', real, hfree, ?_⟩
  constructor
  · exact ⟨free', hv'⟩
  · exact h.nodup
  · apply h.linked.congr
    · exact fun q hq => (hsame q hq).1
    · exact fun q hq => (hsame q hq).2
  · exact hstay

/-! ## Recording -/

/-- A page is put before the others. -/
theorem Inv.insert (h : Inv c a b lo hi Z none v.pages v.frames xs) (hr : c.Region a b lo hi)
    (hp : (p, 0) ∈ v.pages.live) (hnot : p ∉ xs) (hpre : (v.pages.page p).pre = none) :
    Inv c a b lo hi Z none (v.rtVareaPgmgrInsert c (c.pageToAddr p)).pages
      (v.rtVareaPgmgrInsert c (c.pageToAddr p)).frames (p :: xs) := by
  obtain ⟨free, hv⟩ := h.blocks
  obtain ⟨h1, h2, -⟩ := hv.core.first_mem (.inl hp)
  obtain ⟨s, frames⟩ := v
  have hnodup := List.nodup_cons.2 ⟨hnot, h.nodup⟩
  have hlinked := h.linked
  have hlive : ∀ q ∈ p :: xs, (q, 0) ∈ s.live := by
    intro q hq
    rcases List.mem_cons.1 hq with rfl | hq
    · exact hp
    · exact h.live q hq
  cases frames with
  | none =>
    simp only [rtVareaPgmgrInsert, hr.addrToPage p h1 h2]
    obtain rfl : xs = [] := by
      cases xs with
      | nil => rfl
      | cons y ys => cases hlinked.1
    refine ⟨⟨free, setNext_inv hv hp _⟩, hnodup, ⟨rfl, ?_, ?_⟩, hlive⟩
    · show ((s.setNext p none).page p).pre = none
      rw [setNext_pre, hpre]
    · show ((s.setNext p none).page p).next = none
      rw [setNext_next, if_pos rfl]
  | some f =>
    simp only [rtVareaPgmgrInsert, hr.addrToPage p h1 h2]
    have hf : f ∈ xs := List.mem_of_head? (hlinked.head_eq ▸ rfl)
    have hpf : p ≠ f := fun e => hnot (e ▸ hf)
    refine ⟨⟨free, setNext_inv (setPre_inv hv (h.live f hf) _) hp _⟩, hnodup, ?_, hlive⟩
    apply hlinked.push h.nodup
    · rw [setNext_next, if_pos rfl]
    · rw [setNext_pre, setPre_pre, if_neg hpf, hpre]
    · intro y hy
      rw [setNext_next, if_neg fun (e : y = p) => hnot (e ▸ hy), setPre_next]
    · rintro y ⟨⟩
      rw [setNext_pre, setPre_pre, if_pos rfl]
    · intro y hy hne
      rw [setNext_pre, setPre_pre, if_neg fun (e : y = f) => hne (e ▸ rfl)]

/-- The record of the page keeps what it says of a page before it. -/
theorem insert_pre (v : VareaFrames) (addr : Nat) (hne : v.frames ≠ some (c.addrToPage addr)) :
    (v.rtVareaPgmgrInsert c addr).frames = some (c.addrToPage addr) ∧
    ((v.rtVareaPgmgrInsert c addr).pages.page (c.addrToPage addr)).pre = (v.pages.page (c.addrToPage addr)).pre := by
  obtain ⟨s, frames⟩ := v
  cases frames with
  | none => exact ⟨rfl, setNext_pre ..⟩
  | some f =>
    refine ⟨rfl, ?_⟩
    show (((s.setPre f _).setNext _ _).page _).pre = _
    rw [setNext_pre, setPre_pre, if_neg fun (e : _ = f) => hne (e ▸ rfl)]

/-! ## Taking out -/

/-- Taking out a node between others leaves the ends. -/
theorem ends_erase (h1 : xs.head? ≠ some p) (h2 : xs.getLast? ≠ some p) :
    (xs.erase p).head? = xs.head? ∧ (xs.erase p).getLast? = xs.getLast? := by
  constructor
  · cases xs with
    | nil => rfl
    | cons x xs =>
      have hx : x ≠ p := fun e => h1 (congrArg some e)
      rw [List.erase_cons_tail (by simpa using hx)]
      rfl
  · rcases List.eq_nil_or_concat' xs with rfl | ⟨ys, y, rfl⟩
    · rfl
    · rw [List.getLast?_concat] at h2 ⊢
      have hy : y ≠ p := fun e => h2 (congrArg some e)
      rw [List.erase_append]
      split
      · rw [List.getLast?_concat]
      · rw [List.erase_of_not_mem (by simpa using hy.symm), List.getLast?_concat]

/-- A page between two others is taken out and freed. -/
theorem Inv.popPage_inner (hr : c.Region a b lo hi) (h : Inv c a b lo hi Z none s head xs) (hp : p ∈ xs)
    (h1 : xs.head? ≠ some p) (h2 : xs.getLast? ≠ some p) :
    ∃ s', popPage c s (c.pageToAddr p) = some s' ∧ Inv c a b lo hi Z none s' head (xs.erase p) := by
  obtain ⟨h3, h4⟩ := h.page_mem hp
  have hlinked := h.linked
  obtain ⟨q, hpre⟩ := Option.ne_none_iff_exists'.1 fun e => h1 ((hlinked.pre_eq_none_iff h.nodup hp).1 e)
  obtain ⟨r, hnext⟩ := Option.ne_none_iff_exists'.1 fun e => h2 ((hlinked.next_eq_none_iff h.nodup hp).1 e)
  have hq : q ∈ xs := by
    rcases hlinked.pre_mem hp with hnone | ⟨y, hy, hyp⟩
    · cases hnone.symm.trans hpre
    · exact Option.some.inj (hyp.symm.trans hpre) ▸ hy
  have hr' : r ∈ xs := hlinked.next_mem hp hnext
  have hpq : p ≠ q := fun e => hlinked.pre_ne h.nodup (by simp) hp (e ▸ hpre)
  have hrest : Inv c a b lo hi Z none ((s.setNext q (some r)).setPre r (some q)) head (xs.erase p) := by
    obtain ⟨free, hv⟩ := h.blocks
    constructor
    · exact ⟨free, setPre_inv (setNext_inv hv (h.live q hq) _) (h.live r hr') _⟩
    · exact h.nodup.erase p
    · have hrem : Doubly.Linked (fun y => (((s.setNext q (some r)).setPre r (some q)).page y).next)
          (fun y => (((s.setNext q (some r)).setPre r (some q)).page y).pre) none
          (if (s.page p).pre = none then (s.page p).next else head) (xs.erase p) := by
        apply hlinked.remove h.nodup hp (by simp)
        · intro y _ _
          rw [setPre_next, setNext_next]
          simp only [hpre, Option.some.injEq, eq_comm (a := q), hnext]
        · intro y _ _
          rw [setPre_pre, setNext_pre]
          simp only [hnext, Option.some.injEq, eq_comm (a := r), hpre]
      rwa [hpre, if_neg (by simp)] at hrem
    · exact fun y hy => h.live y (List.mem_of_mem_erase hy)
  have hnot : p ∉ xs.erase p := fun hmem => (h.nodup.mem_erase_iff.1 hmem).1 rfl
  obtain ⟨s', real, hfree, hinv⟩ := hrest.free_page hr (h.live p hp) hnot
  refine ⟨s', ?_, hinv⟩
  simp only [popPage, hr.addrToPage p h3 h4, hpre, hnext, setNext_next, if_neg hpq, setNext_pre, hfree, Option.map_some]

/-- For the first or the last page, a null page is written to. -/
theorem Inv.popPage_end (hr : c.Region a b lo hi) (h : Inv c a b lo hi Z none s head xs) (hp : p ∈ xs)
    (hend : xs.head? = some p ∨ xs.getLast? = some p) : popPage c s (c.pageToAddr p) = none := by
  obtain ⟨h3, h4⟩ := h.page_mem hp
  have hlinked := h.linked
  simp only [popPage, hr.addrToPage p h3 h4]
  cases hpre : (s.page p).pre with
  | none => rfl
  | some q =>
    have hpq : p ≠ q := fun e => hlinked.pre_ne h.nodup (by simp) hp (e ▸ hpre)
    have hlast : xs.getLast? = some p := by
      rcases hend with hhead | hlast
      · cases ((hlinked.pre_eq_none_iff h.nodup hp).2 hhead).symm.trans hpre
      · exact hlast
    have hnext : (s.page p).next = none := (hlinked.next_eq_none_iff h.nodup hp).2 hlast
    simp only [setNext_next, if_neg hpq, hnext]

/-- A run of pages is taken out if neither end of the list is in it. -/
theorem Inv.popLoop (hr : c.Region a b lo hi) (hpos : 0 < a) {fuel : Nat} (h : Inv c a b lo hi Z none s head xs)
    (hrun : ∀ i < n, p + i ∈ xs) (hfuel : n ≤ fuel) :
    ((∀ i < n, xs.head? ≠ some (p + i) ∧ xs.getLast? ≠ some (p + i)) →
      ∃ s', popLoop c s (c.pageToAddr p) (c.pageToAddr (p + n)) fuel = some s' ∧
        Inv c a b lo hi Z none s' head (xs.diff (List.range' p n))) ∧
    ((¬ ∀ i < n, xs.head? ≠ some (p + i) ∧ xs.getLast? ≠ some (p + i)) →
      popLoop c s (c.pageToAddr p) (c.pageToAddr (p + n)) fuel = none) := by
  induction n generalizing s p xs fuel with
  | zero =>
    refine ⟨fun _ => ⟨s, ?_, by simpa using h⟩, fun hne => absurd (by simp) hne⟩
    cases fuel <;> simp [VareaFrames.popLoop]
  | succ n ih =>
    obtain ⟨fuel, rfl⟩ : ∃ m, fuel = m + 1 := ⟨fuel - 1, by omega⟩
    have hp : p ∈ xs := hrun 0 (by omega)
    have hlast := h.page_mem (hrun n (by omega))
    have hne : c.pageToAddr p ≠ c.pageToAddr (p + (n + 1)) :=
      pageToAddr_ne (by have := (h.page_mem hp).1; omega) (page_lt hr hlast.1 hlast.2)
    have hsucc : (c.pageToAddr p + c.archPageSize) % 2 ^ c.addressWidthBits = c.pageToAddr (p + 1) := by
      rw [← pageToAddr_add, Nat.one_mul]
    have hsum : p + (n + 1) = p + 1 + n := by omega
    simp only [VareaFrames.popLoop, if_neg hne, hsucc]
    by_cases hend : xs.head? = some p ∨ xs.getLast? = some p
    · rw [h.popPage_end hr hp hend]
      refine ⟨fun hall => ?_, fun _ => rfl⟩
      have h0 := hall 0 (by omega)
      exact absurd hend (not_or.2 h0)
    · obtain ⟨h1, h2⟩ := not_or.1 hend
      obtain ⟨s', hpop, h'⟩ := h.popPage_inner hr hp h1 h2
      obtain ⟨h3, h4⟩ := ends_erase h1 h2
      have hrun' : ∀ i < n, p + 1 + i ∈ xs.erase p := by
        intro i hi
        refine h.nodup.mem_erase_iff.2 ⟨by omega, ?_⟩
        rw [Nat.add_assoc, Nat.add_comm 1 i]
        exact hrun (i + 1) (by omega)
      have hiff : (∀ i < n + 1, xs.head? ≠ some (p + i) ∧ xs.getLast? ≠ some (p + i)) ↔
          ∀ i < n, (xs.erase p).head? ≠ some (p + 1 + i) ∧ (xs.erase p).getLast? ≠ some (p + 1 + i) := by
        rw [h3, h4]
        constructor
        · intro hall i hi
          rw [Nat.add_assoc, Nat.add_comm 1 i]
          exact hall (i + 1) (by omega)
        · intro hall i hi
          cases i with
          | zero => exact ⟨h1, h2⟩
          | succ i =>
            rw [Nat.add_comm i 1, ← Nat.add_assoc]
            exact hall i (by omega)
      rw [hpop, hiff, hsum, List.range'_succ, List.diff_cons]
      exact ih h' hrun' (by omega)

/-- Every page is freed, in the order of the list; its record is read before that. -/
theorem Inv.popAllLoop (hr : c.Region a b lo hi) {fuel : Nat} (h : Inv c a b lo hi Z prev s head xs)
    (hfuel : xs.length ≤ fuel) :
    ∃ s', popAllLoop c s head fuel = some s' ∧ freeEach c s xs = some s' ∧
      ∃ free, PageState.Inv c a b lo hi Z s' free := by
  induction xs generalizing prev s head fuel with
  | nil =>
    obtain rfl : head = none := h.linked
    refine ⟨s, ?_, rfl, h.blocks⟩
    cases fuel <;> rfl
  | cons x xs ih =>
    obtain ⟨fuel, rfl⟩ : ∃ m, fuel = m + 1 := ⟨fuel - 1, by rw [List.length_cons] at hfuel; omega⟩
    obtain ⟨rfl, -, h3⟩ := h.linked
    obtain ⟨hx, hnd⟩ := List.nodup_cons.1 h.nodup
    have htail : Inv c a b lo hi Z (some x) s (s.page x).next xs :=
      ⟨h.blocks, hnd, h3, fun y hy => h.live y (List.mem_cons_of_mem _ hy)⟩
    have hle : xs.length ≤ fuel := Nat.le_of_succ_le_succ hfuel
    obtain ⟨s', real, hfree, h'⟩ := htail.free_page hr (h.live x List.mem_cons_self) hx
    obtain ⟨s'', hloop, heach, hblocks⟩ := ih h' hle
    refine ⟨s'', ?_, ?_, hblocks⟩
    · simp only [VareaFrames.popAllLoop, hfree]
      exact hloop
    · simp only [freeEach, List.foldlM_cons, hfree, Option.map_some]
      exact heach

/-! ## Calls -/

/-- What holds between calls. -/
abbrev Tracked.Inv (c : PageConfig) (a b lo hi : Nat) (Z : Prop) (t : Tracked) : Prop :=
  VareaFrames.Inv c a b lo hi Z none t.varea.pages t.varea.frames t.recorded

theorem mul_div_pageSize (c : PageConfig) (n : Nat) : n * c.archPageSize / c.archPageSize = n :=
  Nat.mul_div_cancel n (Nat.two_pow_pos _)

/-- The recorded pages are no more than there are page frames. -/
theorem Inv.length_le (hr : c.Region a b lo hi) (h : Inv c a b lo hi Z prev s head xs) :
    xs.length ≤ 2 ^ (c.addressWidthBits - c.pageShift) := by
  have hsub : xs ⊆ List.range (2 ^ (c.addressWidthBits - c.pageShift)) := by
    intro p hp
    obtain ⟨h1, h2⟩ := h.page_mem hp
    exact List.mem_range.2 (page_lt hr h1 h2)
  have hle := (h.nodup.subperm hsub).length_le
  rwa [List.length_range] at hle

/-- A run of recorded pages is short of the address space. -/
theorem Inv.run_le (hr : c.Region a b lo hi) (h : Inv c a b lo hi Z prev s head xs) (hrun : ∀ i < n, p + i ∈ xs) :
    n ≤ 2 ^ (c.addressWidthBits - c.pageShift) := by
  cases n with
  | zero => exact Nat.zero_le _
  | succ n =>
    obtain ⟨h1, h2⟩ := h.page_mem (hrun n (by omega))
    have := page_lt hr h1 h2
    omega

/-- What a call does: if it is fine it works and keeps what holds, otherwise it does not work. -/
def Settled (c : PageConfig) (a b lo hi : Nat) (Z : Prop) (t : Tracked) (x : Call) : Prop :=
  (Fine c t x → ∃ v, t.varea.call c x = some v ∧ Tracked.Inv c a b lo hi Z ⟨v, recordedAfter c t.recorded x⟩ ∧
    (x = .popAll → freeEach c t.varea.pages t.recorded = some v.pages)) ∧
  (Works c t x → Fine c t x)

section

variable (hr : c.Region a b lo hi)

include hr

theorem Inv.settled_insert (h : t.Inv c a b lo hi Z) (hp : (p, 0) ∈ t.varea.pages.live)
    (hnew : p ∉ t.recorded) : Settled c a b lo hi Z t (.insert (c.pageToAddr p)) := by
  obtain ⟨free, hv⟩ := h.blocks
  obtain ⟨h1, h2, -⟩ := hv.core.first_mem (.inl hp)
  have hpage : c.addrToPage (c.pageToAddr p) = p := hr.addrToPage p h1 h2
  constructor
  · intro hfine
    rw [Fine, hpage] at hfine
    refine ⟨_, rfl, ?_, nofun⟩
    simp only [recordedAfter, hpage]
    exact Inv.insert h hr hp hnew hfine
  · rintro ⟨v, hcall, ⟨-, hlinked⟩, -⟩
    cases hcall
    have hne : t.varea.frames ≠ some (c.addrToPage (c.pageToAddr p)) := by
      rw [h.linked.head_eq, hpage]
      exact fun e => hnew (List.mem_of_head? e)
    have hpre := hlinked.2.1
    simp only at hpre
    rw [(insert_pre t.varea _ hne).2] at hpre
    exact hpre

theorem Inv.settled_pop (hpos : 0 < a) (h : t.Inv c a b lo hi Z)
    (hrun : ∀ i < n, p + i ∈ t.recorded) : Settled c a b lo hi Z t (.pop (c.pageToAddr p) (n * c.archPageSize)) := by
  have hpage : n = 0 ∨ c.addrToPage (c.pageToAddr p) = p := by
    rcases Nat.eq_zero_or_pos n with hn | hn
    · exact .inl hn
    · obtain ⟨h1, h2⟩ := h.page_mem (hrun 0 hn)
      exact .inr (hr.addrToPage p h1 h2)
  have hafter : recordedAfter c t.recorded (.pop (c.pageToAddr p) (n * c.archPageSize)) =
      t.recorded.diff (List.range' p n) := by
    rw [recordedAfter, mul_div_pageSize]
    rcases hpage with rfl | hpage
    · rfl
    · rw [hpage]
  have hfine : Fine c t (.pop (c.pageToAddr p) (n * c.archPageSize)) ↔
      ∀ i < n, t.recorded.head? ≠ some (p + i) ∧ t.recorded.getLast? ≠ some (p + i) := by
    rw [Fine, mul_div_pageSize]
    rcases hpage with rfl | hpage
    · simp
    · rw [hpage]
  obtain ⟨hgood, hbad⟩ := h.popLoop hr hpos hrun (h.run_le hr hrun)
  rw [Settled, hfine, hafter]
  constructor
  · intro hall
    obtain ⟨s', hloop, hinv⟩ := hgood hall
    refine ⟨{ t.varea with pages := s' }, ?_, hinv, nofun⟩
    simp only [call, rtVareaPgmgrPop, pageToAddr_add, hloop, Option.map_some]
  · rintro ⟨v, hcall, -⟩
    by_contra hall
    simp only [call, rtVareaPgmgrPop, pageToAddr_add, hbad hall, Option.map_none, reduceCtorEq] at hcall

/-- Taking out all pages frees each. -/
theorem Inv.popAll (h : t.Inv c a b lo hi Z) : ∃ s free, t.varea.call c .popAll =
    some { t.varea with pages := s } ∧ freeEach c t.varea.pages t.recorded = some s ∧
      PageState.Inv c a b lo hi Z s free := by
  obtain ⟨s, hloop, heach, free, hv⟩ := h.popAllLoop hr (h.length_le hr)
  refine ⟨s, free, ?_, heach, hv⟩
  simp only [call, rtVareaPgmgrPopAll, hloop, Option.map_some]

theorem Inv.settled_popAll (h : t.Inv c a b lo hi Z) : Settled c a b lo hi Z t .popAll := by
  obtain ⟨s, free, hcall, heach, hv⟩ := h.popAll hr
  have hhead := h.linked.head_eq
  constructor
  · intro hfine
    refine ⟨_, hcall, ?_, fun _ => heach⟩
    rw [hfine] at hhead
    exact ⟨⟨free, hv⟩, List.nodup_nil, hhead, nofun⟩
  · rintro ⟨v, hcall', ⟨-, hlinked⟩, -⟩
    cases hcall.symm.trans hcall'
    have hnone : t.varea.frames = none := hlinked
    rw [hhead, List.head?_eq_none_iff] at hnone
    exact hnone

theorem Inv.settled_pages (h : t.Inv c a b lo hi Z) {e : PageState.Ev}
    (hx : Allowed c t (.pages e)) : Settled c a b lo hi Z t (.pages e) := by
  obtain ⟨⟨r, s, hstep⟩, hlast⟩ := hx
  obtain ⟨free, hv⟩ := h.blocks
  obtain ⟨hblocks, hlinks, hstay⟩ := hv.step_links hr hstep
  have hlive : ∀ p ∈ t.recorded, (p, 0) ∈ s.live := by
    intro p hp
    rcases hstay (p, 0) (h.live p hp) with hmem | ⟨he, hone⟩
    · exact hmem
    · exact absurd hone (hlast p hp he)
  have hsame : ∀ p ∈ t.recorded, (s.page p).next = (t.varea.pages.page p).next ∧
      (s.page p).pre = (t.varea.pages.page p).pre := fun p hp => hlinks (p, 0) (h.live p hp) (hlive p hp)
  refine ⟨fun _ => ⟨{ t.varea with pages := s }, ?_, ?_, nofun⟩, fun _ => trivial⟩
  · simp only [call, hstep.1, Option.map_some]
  · refine ⟨hblocks, h.nodup, ?_, hlive⟩
    apply h.linked.congr
    · exact fun p hp => (hsame p hp).1
    · exact fun p hp => (hsame p hp).2

theorem Inv.settled (hpos : 0 < a) (h : t.Inv c a b lo hi Z) {x : Call} (hx : Allowed c t x) :
    Settled c a b lo hi Z t x := by
  cases x with
  | insert addr =>
    obtain ⟨p, rfl, hp, hnew⟩ := hx
    exact h.settled_insert hr hp hnew
  | pop vaddr size =>
    obtain ⟨p, n, rfl, rfl, hrun⟩ := hx
    exact h.settled_pop hr hpos hrun
  | popAll => exact h.settled_popAll hr
  | pages e => exact h.settled_pages hr hx

theorem Inv.works_iff (hpos : 0 < a) (h : t.Inv c a b lo hi Z) {x : Call}
    (hx : Allowed c t x) : Works c t x ↔ Fine c t x := by
  obtain ⟨hgood, hbad⟩ := h.settled hr hpos hx
  refine ⟨hbad, ?_⟩
  intro hfine
  obtain ⟨v, hcall, hinv, heach⟩ := hgood hfine
  exact ⟨v, hcall, ⟨hinv.nodup, hinv.linked⟩, heach⟩

theorem Inv.step (hpos : 0 < a) (h : t.Inv c a b lo hi Z) {x : Call} (hs : Step c t x t')
    (hfine : Fine c t x) : t'.Inv c a b lo hi Z := by
  obtain ⟨hx, hcall, hrec⟩ := hs
  obtain ⟨v, hcall', hinv, -⟩ := (h.settled hr hpos hx).1 hfine
  obtain ⟨varea, recorded⟩ := t'
  cases hcall'.symm.trans hcall
  obtain rfl : recorded = _ := hrec
  exact hinv

theorem Inv.run (hpos : 0 < a) {xs : List Call} (h : t.Inv c a b lo hi Z)
    (hrun : Runs.Run (fun t x t' => Step c t x t' ∧ Fine c t x) t xs t') : t'.Inv c a b lo hi Z :=
  hrun.invariant (I := fun t => Tracked.Inv c a b lo hi Z t) h fun _ _ _ ht hs => Inv.step hr hpos ht hs.1 hs.2

end

/-! ## Runs -/

/-- The records of a region come first. -/
theorem firstFrame_pos (h : PageState.RegionOk c st tl) : 0 < PageState.firstFrame c st tl := by
  have hsize := Nat.le_of_dvd (PageState.initMprSize_pos h) (PageState.initMprSize_dvd c st tl)
  have hdown := PageConfig.down_le st c.shadowSize
  obtain ⟨-, hfloor, -⟩ := PageConfig.floor_spec (Nat.two_pow_pos (c.maxOrder - 1 + c.pageShift)) h.shadow
  have hle : PageConfig.down st c.shadowSize ≤ PageState.managedStart c st tl := Nat.le_trans hdown (Nat.le_add_right ..)
  rw [PageState.firstFrame, h.window.addrToPage_eq hle (Nat.le_trans h.room hfloor)]
  apply Nat.div_pos _ (Nat.two_pow_pos _)
  rw [PageState.managedStart]
  omega

local instance pairLawful : LawfulBEq (Nat × Nat) := inferInstance

/-- What is checked of the calls of callers with pages that they allocate. -/
def checks (c : PageConfig) (t : Tracked) : Call → Bool
  | .insert pageAddr => pageAddr = c.pageToAddr (c.addrToPage pageAddr) ∧
      (c.addrToPage pageAddr, 0) ∈ t.varea.pages.live ∧ c.addrToPage pageAddr ∉ t.recorded
  | .pop vaddr size => vaddr = c.pageToAddr (c.addrToPage vaddr) ∧ size = size / c.archPageSize * c.archPageSize ∧
      ∀ i < size / c.archPageSize, c.addrToPage vaddr + i ∈ t.recorded
  | .popAll => true
  | .pages (.alloc k _) => k < c.maxOrder
  | .pages _ => false

def checked (c : PageConfig) (t : Tracked) (x : Call) : Option Tracked :=
  if checks c t x then (t.varea.call c x).map fun v => ⟨v, recordedAfter c t.recorded x⟩ else none

theorem checked_step {x : Call} (h : checked c t x = some t') : Step c t x t' := by
  rw [checked] at h
  obtain ⟨hok, h⟩ := Option.ite_none_right_eq_some.1 h
  obtain ⟨v, hcall, rfl⟩ := Option.map_eq_some_iff.1 h
  refine ⟨?_, hcall, rfl⟩
  cases x with
  | insert addr => exact ⟨_, of_decide_eq_true hok⟩
  | pop vaddr size => exact ⟨_, _, of_decide_eq_true hok⟩
  | popAll => trivial
  | pages e =>
    cases e with
    | alloc k flags =>
      obtain ⟨⟨s1, r⟩, hstep, -⟩ := Option.map_eq_some_iff.1 hcall
      exact ⟨⟨r, s1, hstep, of_decide_eq_true hok⟩, nofun⟩
    | refInc addr k => cases hok
    | free addr k => cases hok

instance (c : PageConfig) (t : Tracked) (x : Call) : Decidable (Fine c t x) :=
  match x with
  | .insert pageAddr => inferInstanceAs (Decidable ((t.varea.pages.page (c.addrToPage pageAddr)).pre = none))
  | .pop vaddr size => inferInstanceAs (Decidable (∀ i < size / c.archPageSize,
      t.recorded.head? ≠ some (c.addrToPage vaddr + i) ∧ t.recorded.getLast? ≠ some (c.addrToPage vaddr + i)))
  | .popAll => inferInstanceAs (Decidable (t.recorded = []))
  | .pages _ => .isTrue trivial

/-- **The recorded pages of a varea are listed while all calls are fine**: taking out all pages then frees each once, and a
call of what callers do works exactly if it is fine. -/
theorem frames_listed_iff (h : PageState.RegionOk c st tl) {s1 : PageState} {tables : Nat}
    (hinit : s.rtPageInit c st tl tables = some s1) {xs : List Call}
    (hrun : Runs.Run (fun t x t' => Step c t x t' ∧ Fine c t x) ⟨⟨s1, none⟩, []⟩ xs t) :
    Listed t ∧
    (∃ s2, t.varea.call c .popAll = some { t.varea with pages := s2 } ∧
      freeEach c t.varea.pages t.recorded = some s2) ∧
    ∀ x, Allowed c t x → (Works c t x ↔ Fine c t x) := by
  have hr := h.region
  have hpos := firstFrame_pos h
  obtain ⟨free, hv⟩ := h.inv_of_run hinit .nil
  have hinv := Inv.run (t := ⟨⟨s1, none⟩, []⟩) hr hpos ⟨⟨free, hv⟩, List.nodup_nil, rfl, nofun⟩ hrun
  obtain ⟨s2, -, hcall, heach, -⟩ := Inv.popAll hr hinv
  exact ⟨⟨hinv.nodup, hinv.linked⟩, ⟨s2, hcall, heach⟩, fun x hx => Inv.works_iff hr hpos hinv hx⟩

/-- No page has been written to. -/
def untouched : PageState := ⟨fun _ => ⟨none, none, 0, 0⟩, fun _ _ => none, false, []⟩

/-- A region is set up, and nothing is recorded. -/
def fresh : Tracked :=
  ⟨⟨(untouched.rtPageInit PageState.virt64 0x80800000 0x84000000 0).getD untouched, none⟩, []⟩

theorem fresh_init : untouched.rtPageInit PageState.virt64 0x80800000 0x84000000 0 = some fresh.varea.pages := by
  obtain ⟨s1, -, hinst, -⟩ := PageState.virt64_region.installed untouched
  rfl

/-- Three pages are recorded, and the second is taken out. -/
theorem frames_listed_iff_three : ∃ t, Runs.Run (fun t x t' => Step PageState.virt64 t x t' ∧ Fine PageState.virt64 t x)
      fresh [.pages (.alloc 0 0), .pages (.alloc 0 0), .pages (.alloc 0 0), .insert 0x8087f000, .insert 0x8087e000,
        .insert 0x8087d000, .pop 0x8087e000 0x1000] t ∧
    t.recorded = [0x8087d, 0x8087f] ∧ Listed t ∧
    (∃ s2, t.varea.call PageState.virt64 .popAll = some { t.varea with pages := s2 } ∧
      freeEach PageState.virt64 t.varea.pages t.recorded = some s2) ∧
    ∀ x, Allowed PageState.virt64 t x → (Works PageState.virt64 t x ↔ Fine PageState.virt64 t x) := by
  obtain ⟨t, hrun, hrec⟩ := Runs.Run.of_foldlM (s := fresh)
    (f := fun t x => if Fine PageState.virt64 t x then checked PageState.virt64 t x else none)
    (P := fun t : Tracked => t.recorded = [0x8087d, 0x8087f])
    [.pages (.alloc 0 0), .pages (.alloc 0 0), .pages (.alloc 0 0), .insert 0x8087f000, .insert 0x8087e000,
      .insert 0x8087d000, .pop 0x8087e000 0x1000] (by decide +kernel)
  have hstep : ∀ t x t', (if Fine PageState.virt64 t x then checked PageState.virt64 t x else none) = some t' →
      Step PageState.virt64 t x t' ∧ Fine PageState.virt64 t x := by
    intro t x t' h
    obtain ⟨hfine, h⟩ := Option.ite_none_right_eq_some.1 h
    exact ⟨checked_step h, hfine⟩
  exact ⟨t, hrun.mono hstep, hrec, frames_listed_iff PageState.virt64_region fresh_init (hrun.mono hstep)⟩

/-- A page is recorded. Taking it out writes to a null page, and taking out all leaves it at the head of the list. -/
theorem pop_only : untouched.rtPageInit PageState.virt64 0x80800000 0x84000000 0 = some fresh.varea.pages ∧
    ∃ t, Runs.Run (Step PageState.virt64) fresh [.pages (.alloc 0 0), .insert 0x8087f000] t ∧ t.recorded = [0x8087f] ∧
      Allowed PageState.virt64 t (.pop 0x8087f000 0x1000) ∧
      t.varea.call PageState.virt64 (.pop 0x8087f000 0x1000) = none ∧
      ¬ Works PageState.virt64 t (.pop 0x8087f000 0x1000) ∧
      (∃ v, t.varea.call PageState.virt64 .popAll = some v ∧ v.frames = some 0x8087f) ∧
      ¬ Works PageState.virt64 t .popAll := by
  obtain ⟨t, hrun, hrec, hpop, hall⟩ := Runs.Run.of_foldlM (s := fresh) (f := checked PageState.virt64)
    (P := fun t : Tracked => t.recorded = [0x8087f] ∧
      (t.varea.call PageState.virt64 (.pop 0x8087f000 0x1000)).isNone = true ∧
      ((t.varea.call PageState.virt64 .popAll).bind fun v => v.frames) = some 0x8087f)
    [.pages (.alloc 0 0), .insert 0x8087f000] (by decide)
  have hnone := Option.isNone_iff_eq_none.1 hpop
  obtain ⟨v, hv, hframes⟩ := Option.bind_eq_some_iff.1 hall
  refine ⟨fresh_init, t, hrun.mono fun _ _ _ h => checked_step h, hrec, ?_, hnone, ?_, ⟨v, hv, hframes⟩, ?_⟩
  · refine ⟨0x8087f, 1, by decide, by decide, ?_⟩
    intro i hi
    obtain rfl : i = 0 := by omega
    rw [hrec]
    decide
  · rintro ⟨v', hv', -⟩
    cases hnone.symm.trans hv'
  · rintro ⟨v', hv', ⟨-, hlinked⟩, -⟩
    cases hv.symm.trans hv'
    cases hframes.symm.trans hlinked

end VareaFrames

end RtThread
