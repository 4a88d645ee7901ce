import Mathlib.Data.Finset.Card
import Mathlib.Order.Interval.Finset.Nat
import RtThread.Lib.Runs
import RtThread.Lib.Spans

/-!
# `slab.c`: the page allocator

Addresses of pages are counted in pages, and `0` is `RT_NULL`. The free pages stand in runs; the first page of a run holds
its length and the address of the next run. `SlabPages.Listed` says that the runs on `page_list` are the spans of a list;
the two functions do to them what `Spans.take` and `Spans.give` do (`Listed.rtSlabPageAlloc`, `Listed.rtSlabPageFree`).
-/

namespace RtThread

open Function (update update_idem update_of_ne update_self)

open Spans

/-- `struct rt_slab_page`. -/
structure SlabPage where
  next : Nat
  page : Nat
  deriving DecidableEq

/-- What the page allocator knows of `struct rt_slab`, with the memory. -/
structure SlabPages where
  heapStart : Nat
  heapEnd : Nat
  pageList : Nat
  mem : Nat → SlabPage

namespace SlabPages

def setPage (s : SlabPages) (b : Nat) (p : SlabPage) : SlabPages := { s with mem := update s.mem b p }

/-- `*prev`, where `prev` points to `page_list` or to the `next` of a page. -/
def deref (s : SlabPages) : Option Nat → Nat
  | none => s.pageList
  | some b => (s.mem b).next

/-- `*prev = n`. -/
def assign (s : SlabPages) (prev : Option Nat) (n : Nat) : SlabPages :=
  match prev with
  | none => { s with pageList := n }
  | some b => s.setPage b { s.mem b with next := n }

/-- The loop of `rt_slab_page_alloc`. -/
def allocFrom (npages : Nat) : Nat → Option Nat → SlabPages → Option (SlabPages × Nat)
  | 0, _, _ => none
  | fuel + 1, prev, s =>
    let b := s.deref prev
    if b = 0 then some (s, b)
    else if npages < (s.mem b).page then
      let n := b + npages
      some ((s.setPage n { next := (s.mem b).next, page := (s.mem b).page - npages }).assign prev n, b)
    else if (s.mem b).page = npages then some (s.assign prev (s.mem b).next, b)
    else allocFrom npages fuel (some b) s

/-- There are no more runs than pages, before the end of the list. -/
def fuel (s : SlabPages) : Nat := s.heapEnd - s.heapStart + 1

/-- `rt_slab_page_alloc`. -/
def rtSlabPageAlloc (s : SlabPages) (npages : Nat) : Option (SlabPages × Nat) :=
  if npages = 0 then some (s, 0) else allocFrom npages s.fuel none s

/-- The loop of `rt_slab_page_free`. -/
def freeFrom (n npages : Nat) : Nat → Option Nat → SlabPages → Option SlabPages
  | 0, _, _ => none
  | fuel + 1, prev, s =>
    let b := s.deref prev
    if b = 0 then some ((s.setPage n { next := b, page := npages }).assign prev n)
    else if 0 < (s.mem b).page ∧ (n < b ∨ b + (s.mem b).page ≤ n) then
      if b + (s.mem b).page = n then
        let s := s.setPage b { s.mem b with page := (s.mem b).page + npages }
        if b + (s.mem b).page = (s.mem b).next then
          let next := s.mem (s.mem b).next
          some (s.setPage b { next := next.next, page := (s.mem b).page + next.page })
        else some s
      else if b = n + npages then
        some ((s.setPage n { next := (s.mem b).next, page := (s.mem b).page + npages }).assign prev n)
      else if n + npages < b then some ((s.setPage n { next := b, page := npages }).assign prev n)
      else freeFrom n npages fuel (some b) s
    else none

/-- `rt_slab_page_free`; a function that returns `none` is one whose assertion fails. -/
def rtSlabPageFree (s : SlabPages) (addr npages : Nat) : Option SlabPages :=
  if addr ≠ 0 ∧ npages ≠ 0 then freeFrom addr npages s.fuel none s else none

/-- `rt_slab_page_init`. -/
def rtSlabPageInit (s : SlabPages) (addr npages : Nat) : Option SlabPages :=
  if addr ≠ 0 ∧ npages ≠ 0 then rtSlabPageFree { s with pageList := 0 } addr npages else none

variable {s s' : SlabPages} {rs ds es : List Span} {r : Span} {p q b n npages : Nat} {prev : Option Nat}
  {mem mem' : Nat → SlabPage}

@[simp] theorem setPage_mem (i : SlabPage) : (s.setPage b i).mem = update s.mem b i := rfl

/-! ## The list of runs -/

/-- The runs from the page `p` on are `rs`, and the last one links `q`. -/
def Links (mem : Nat → SlabPage) (p : Nat) : List Span → Nat → Prop
  | [], q => p = q
  | r :: rs, q => p = r.start ∧ p ≠ 0 ∧ (mem p).page = r.size ∧ Links mem (mem p).next rs q

theorem links_append : Links mem p (ds ++ es) q ↔ ∃ x, Links mem p ds x ∧ Links mem x es q := by
  induction ds generalizing p with
  | nil => simp [Links]
  | cons d ds ih =>
    simp only [List.cons_append, Links, ih]
    constructor
    · rintro ⟨h1, h2, h3, x, h4, h5⟩
      exact ⟨x, ⟨h1, h2, h3, h4⟩, h5⟩
    · rintro ⟨x, ⟨h1, h2, h3, h4⟩, h5⟩
      exact ⟨h1, h2, h3, x, h4, h5⟩

/-- Only the first pages of the runs matter. -/
theorem Links.congr (hl : Links mem p rs q) (hm : ∀ r ∈ rs, mem' r.start = mem r.start) : Links mem' p rs q := by
  induction rs generalizing p with
  | nil => exact hl
  | cons r rs ih =>
    obtain ⟨h1, h2, h3, h4⟩ := hl
    have he : mem' p = mem p := by rw [h1]; exact hm r (by simp)
    refine ⟨h1, h2, by rw [he, h3], ?_⟩
    rw [he]
    exact ih h4 fun t ht => hm t (by simp [ht])

/-- The runs on `page_list`, in order, within the region. -/
structure Listed (s : SlabPages) (rs : List Span) : Prop where
  links : Links s.mem s.pageList rs 0
  spaced : Spaced rs
  heapStart_pos : 0 < s.heapStart
  within : ∀ x, Covers rs x → s.heapStart ≤ x ∧ x < s.heapEnd

/-- The pointer behind the runs `ds`. -/
def prevOf (ds : List Span) : Option Nat := ds.getLast?.map Span.start

theorem prevOf_concat : prevOf (ds ++ [r]) = some r.start := by simp [prevOf]

theorem deref_prevOf (hl : Links s.mem s.pageList ds q) : s.deref (prevOf ds) = q := by
  rcases List.eq_nil_or_concat ds with rfl | ⟨ds, d, rfl⟩
  · exact hl
  · rw [List.concat_eq_append] at hl ⊢
    rw [prevOf_concat]
    obtain ⟨x, -, h1, -, -, h4⟩ := links_append.1 hl
    rw [deref, ← h1]
    exact h4

/-- What the runs before the pointer and the pages behind it are after an assignment. -/
theorem assign_spec (hl : Links s.mem s.pageList ds q) (hs : Spaced ds) :
    Links (s.assign (prevOf ds) n).mem (s.assign (prevOf ds) n).pageList ds n ∧
      (∀ x, (∀ d ∈ ds, x ≠ d.start) → (s.assign (prevOf ds) n).mem x = s.mem x) ∧
      (s.assign (prevOf ds) n).heapStart = s.heapStart ∧ (s.assign (prevOf ds) n).heapEnd = s.heapEnd := by
  rcases List.eq_nil_or_concat ds with rfl | ⟨ds, d, rfl⟩
  · exact ⟨rfl, fun x _ => rfl, rfl, rfl⟩
  · rw [List.concat_eq_append] at hl hs ⊢
    rw [prevOf_concat]
    obtain ⟨x, h0, h1, h2, h3, h4⟩ := links_append.1 hl
    have hgap := (List.pairwise_append.1 hs.gap).2.2
    refine ⟨links_append.2 ⟨x, h0.congr fun e he => ?_, h1, h2, ?_, ?_⟩, fun y hy => ?_, rfl, rfl⟩
    · have := hgap e he d (by simp)
      exact update_of_ne (by omega) _ _
    · rw [assign, h1, setPage_mem, update_self, ← h1, h3]
    · rw [assign, h1, setPage_mem, update_self]
      rfl
    · exact update_of_ne (hy d (by simp)) _ _

/-- `assign_spec`, when the runs behind the pointer are known after the assignment. -/
theorem Links.assign (hl : Links s.mem s.pageList ds q) (hs : Spaced ds) (hr : Links s.mem n rs 0)
    (hd : ∀ r ∈ rs, ∀ d ∈ ds, r.start ≠ d.start) :
    Links (s.assign (prevOf ds) n).mem (s.assign (prevOf ds) n).pageList (ds ++ rs) 0 := by
  obtain ⟨h1, h2, -, -⟩ := assign_spec (n := n) hl hs
  exact links_append.2 ⟨n, h1, hr.congr fun r hr => h2 _ (hd r hr)⟩

/-- The page `n` is written; it is not the first one of a run before the pointer. -/
theorem Links.setPage {i : SlabPage} (hl : Links s.mem p ds q) (hd : ∀ d ∈ ds, d.start ≠ n) :
    Links (s.setPage n i).mem p ds q :=
  hl.congr fun d hd' => update_of_ne (hd d hd') _ _

section Loops

variable {k : Nat}

/-- The heap after a call: the runs are now `rs`. -/
structure Became (s s' : SlabPages) (rs : List Span) : Prop where
  links : Links s'.mem s'.pageList rs 0
  heapStart : s'.heapStart = s.heapStart
  heapEnd : s'.heapEnd = s.heapEnd

theorem allocFrom_none (hl : Links s.mem s.pageList (ds ++ rs) 0) (ht : take npages rs = none) (hk : rs.length < k) :
    allocFrom npages k (prevOf ds) s = some (s, 0) := by
  induction rs generalizing ds k with
  | nil =>
    obtain ⟨k, rfl⟩ := Nat.exists_eq_add_one_of_ne_zero (show k ≠ 0 by omega)
    rw [List.append_nil] at hl
    rw [allocFrom, deref_prevOf hl]
    rfl
  | cons r rs ih =>
    obtain ⟨k, rfl⟩ := Nat.exists_eq_add_one_of_ne_zero (show k ≠ 0 by omega)
    obtain ⟨b, hds, hb, hb0, hpage, hnext⟩ := links_append.1 hl
    rw [take] at ht
    split at ht
    · cases ht
    split at ht
    · cases ht
    rename_i h1 h2
    rw [allocFrom, deref_prevOf hds]
    rw [if_neg hb0, hpage, if_neg h1, if_neg h2]
    have hl' : Links s.mem s.pageList ((ds ++ [r]) ++ rs) 0 := by simpa using hl
    have hrec := ih hl' (Option.map_eq_none_iff.1 ht) (by simpa using hk)
    rw [prevOf_concat, ← hb] at hrec
    exact hrec

/-- The loop of `rt_slab_page_alloc` does what `take` does. -/
theorem allocFrom_some {rs' : List Span} (hl : Links s.mem s.pageList (ds ++ rs) 0) (hs : Spaced (ds ++ rs))
    (hn : 0 < npages) (ht : take npages rs = some (b, rs')) (hk : rs.length < k) :
    b ≠ 0 ∧ ∃ s', allocFrom npages k (prevOf ds) s = some (s', b) ∧ Became s s' (ds ++ rs') := by
  induction rs generalizing ds k rs' with
  | nil => cases ht
  | cons r rs ih =>
    obtain ⟨k, rfl⟩ := Nat.exists_eq_add_one_of_ne_zero (show k ≠ 0 by omega)
    obtain ⟨x, hds, hx, hx0, hpage, hnext⟩ := links_append.1 hl
    obtain ⟨hg1, hg2, hg3⟩ := List.pairwise_append.1 hs.gap
    obtain ⟨hg4, -⟩ := List.pairwise_cons.1 hg2
    have hsd : Spaced ds := ⟨fun d hd => hs.pos d (by simp [hd]), hg1⟩
    rw [allocFrom, deref_prevOf hds]
    rw [if_neg hx0, hpage]
    rw [take] at ht
    split at ht
    · -- The run is split.
      rename_i hlt
      cases ht
      rw [if_pos hlt]
      have hds' := hds.setPage (n := x + npages) (i := ⟨(s.mem x).next, r.size - npages⟩) fun d hd => by
        have := hg3 d hd r (by simp); omega
      have hrs' : Links (s.setPage (x + npages) ⟨(s.mem x).next, r.size - npages⟩).mem (x + npages)
          (⟨r.start + npages, r.size - npages⟩ :: rs) 0 := by
        refine ⟨by rw [hx], by omega, by simp, ?_⟩
        rw [setPage_mem, update_self]
        refine hnext.congr fun t ht => update_of_ne ?_ _ _
        have := hg4 t ht
        omega
      obtain ⟨-, -, h3, h4⟩ := assign_spec (n := x + npages) hds' hsd
      refine ⟨by omega, _, by rw [hx], hds'.assign hsd hrs' fun t ht d hd => ?_, h3, h4⟩
      rcases List.mem_cons.1 ht with rfl | ht
      · have := hg3 d hd r (by simp); dsimp only; omega
      · have := hg3 d hd t (by simp [ht]); omega
    · rename_i hlt
      split at ht
      · -- The run is taken out.
        rename_i heq
        cases ht
        rw [if_neg hlt, if_pos heq]
        obtain ⟨-, -, h3, h4⟩ := assign_spec (n := (s.mem x).next) hds hsd
        refine ⟨by omega, _, by rw [hx], hds.assign hsd hnext fun t ht d hd => ?_, h3, h4⟩
        have := hg3 d hd t (by simp [ht])
        omega
      · rename_i heq
        rw [if_neg hlt, if_neg heq]
        obtain ⟨q, hq, he⟩ := Option.map_eq_some_iff.1 ht
        cases he
        have hl' : Links s.mem s.pageList ((ds ++ [r]) ++ rs) 0 := by simpa using hl
        obtain ⟨h0, s', hs', hb⟩ := ih hl' (by simpa using hs) hq (by simpa using hk)
        rw [prevOf_concat, ← hx] at hs'
        exact ⟨h0, s', hs', by simpa using hb⟩

/-- A run is put before the runs `ts`. -/
theorem became_insert {x : Nat} {ts : List Span} (hlx : Links s.mem s.pageList ds x) (ht : Links s.mem q ts 0)
    (hs : Spaced (ds ++ ts)) (hn : n ≠ 0) (hd : ∀ d ∈ ds, d.start < n) (hn' : ∀ t ∈ ts, n < t.start) :
    Became s ((s.setPage n ⟨q, k⟩).assign (prevOf ds) n) (ds ++ ⟨n, k⟩ :: ts) := by
  obtain ⟨hg1, -, hg3⟩ := List.pairwise_append.1 hs.gap
  have hsd : Spaced ds := ⟨fun d hd => hs.pos d (by simp [hd]), hg1⟩
  have hds := hlx.setPage (n := n) (i := ⟨q, k⟩) fun d hd' => Nat.ne_of_lt (hd d hd')
  have hts : Links (s.setPage n ⟨q, k⟩).mem n (⟨n, k⟩ :: ts) 0 := by
    refine ⟨rfl, hn, by simp, ?_⟩
    rw [setPage_mem, update_self]
    exact ht.congr fun t ht => update_of_ne (Nat.ne_of_gt (hn' t ht)) _ _
  obtain ⟨-, -, h3, h4⟩ := assign_spec (n := n) hds hsd
  refine ⟨hds.assign hsd hts fun t ht d hd' => ?_, h3, h4⟩
  rcases List.mem_cons.1 ht with rfl | ht
  · exact Nat.ne_of_gt (hd d hd')
  · have := hg3 d hd' t ht; omega

/-- A run grows at its end, and takes in the next one if it reaches it. -/
theorem became_join (hl : Links s.mem s.pageList (ds ++ r :: rs) 0) (hs : Spaced (ds ++ r :: rs))
    (hr : ∀ t ∈ rs, r.start + r.size + k ≤ t.start) :
    Became s
      (let s1 := s.setPage r.start { s.mem r.start with page := (s.mem r.start).page + k }
      if r.start + (s1.mem r.start).page = (s1.mem r.start).next then
        s1.setPage r.start ⟨(s1.mem (s1.mem r.start).next).next,
          (s1.mem r.start).page + (s1.mem (s1.mem r.start).next).page⟩
      else s1) (ds ++ joinNext ⟨r.start, r.size + k⟩ rs) := by
  obtain ⟨x, hds, rfl, hx0, hpage, hnext⟩ := links_append.1 hl
  obtain ⟨-, hg2, hg3⟩ := List.pairwise_append.1 hs.gap
  obtain ⟨hg4, -⟩ := List.pairwise_cons.1 hg2
  have hne (d : Span) (hd : d ∈ ds) : d.start ≠ r.start := by
    have := hg3 d hd r (by simp)
    omega
  simp only [setPage_mem, update_self, hpage]
  cases rs with
  | nil =>
    have h0 : (s.mem r.start).next = 0 := hnext
    rw [if_neg (by omega), joinNext]
    refine ⟨links_append.2 ⟨r.start, hds.setPage hne, rfl, hx0, ?_, ?_⟩, rfl, rfl⟩
    · rw [setPage_mem, update_self]
    · rw [setPage_mem, update_self]
      exact h0
  | cons t rs =>
    obtain ⟨ht, ht0, htp, htn⟩ := hnext
    have hlt := hg4 t (by simp)
    obtain ⟨hg5, -⟩ := List.pairwise_cons.1 (List.pairwise_cons.1 hg2).2
    have hrest (i : SlabPage) : Links (s.setPage r.start i).mem (s.mem (s.mem r.start).next).next rs 0 := by
      refine htn.congr fun u hu => update_of_ne ?_ _ _
      have := hg5 u hu
      omega
    rw [ht, joinNext]
    split
    · refine ⟨links_append.2 ⟨r.start, ?_, rfl, hx0, ?_, ?_⟩, rfl, rfl⟩
      · exact (hds.setPage hne).setPage hne
      · rw [setPage_mem, update_self, ← ht, update_of_ne (by omega), htp, Nat.add_assoc]
      · rw [setPage_mem, update_self, setPage_mem, update_idem, ← ht,
          update_of_ne (show (s.mem r.start).next ≠ r.start by omega)]
        exact hrest _
    · refine ⟨links_append.2 ⟨r.start, hds.setPage hne, rfl, hx0, ?_, ?_⟩, rfl, rfl⟩
      · rw [setPage_mem, update_self]
      · rw [setPage_mem, update_self]
        refine ⟨rfl, by dsimp only; omega, ?_, ?_⟩
        · rw [update_of_ne (by dsimp only; omega), ← ht, htp]
        · rw [update_of_ne (by dsimp only; omega), ← ht]
          exact hrest _

/-- The loop of `rt_slab_page_free` does what `give` does. -/
theorem freeFrom_spec (hl : Links s.mem s.pageList (ds ++ rs) 0) (hs : Spaced (ds ++ rs)) (hn : n ≠ 0)
    (hnp : 0 < npages) (hd : ∀ r ∈ rs, r.start + r.size ≤ n ∨ n + npages ≤ r.start)
    (hds : ∀ d ∈ ds, d.start < n) (hk : rs.length < k) :
    ∃ s', freeFrom n npages k (prevOf ds) s = some s' ∧ Became s s' (ds ++ give n npages rs) := by
  induction rs generalizing ds k with
  | nil =>
    obtain ⟨k, rfl⟩ := Nat.exists_eq_add_one_of_ne_zero (show k ≠ 0 by omega)
    rw [List.append_nil] at hl
    rw [freeFrom, deref_prevOf hl]
    exact ⟨_, rfl, became_insert hl rfl hs hn hds (by simp)⟩
  | cons r rs ih =>
    obtain ⟨k, rfl⟩ := Nat.exists_eq_add_one_of_ne_zero (show k ≠ 0 by omega)
    obtain ⟨x, hlx, hx, hx0, hpage, hnext⟩ := links_append.1 hl
    have hr := hd r (by simp)
    have hr0 := hs.pos r (by simp)
    have hrs : ∀ t ∈ rs, t.start + t.size ≤ n ∨ n + npages ≤ t.start := fun t ht => hd t (by simp [ht])
    obtain ⟨hg1, hg2, hg3⟩ := List.pairwise_append.1 hs.gap
    obtain ⟨hg4, -⟩ := List.pairwise_cons.1 hg2
    rw [freeFrom, deref_prevOf hlx]
    dsimp only
    rw [if_neg hx0, hpage, if_pos ⟨hr0, by omega⟩, give, ← hx]
    split
    · have hj := became_join (k := npages) hl hs fun t ht => by
        have := hg4 t ht
        have := hrs t ht
        omega
      rw [← hx] at hj
      dsimp only at hj
      rw [hpage] at hj
      refine ⟨_, ?_, hj⟩
      split <;> rfl
    · split
      · rename_i heq
        have hs' : Spaced (ds ++ rs) := ⟨fun t ht => hs.pos t (by
          rcases List.mem_append.1 ht with h | h <;> simp [h]), List.pairwise_append.2 ⟨hg1, (List.pairwise_cons.1 hg2).2,
            fun d hd t ht => hg3 d hd t (by simp [ht])⟩⟩
        refine ⟨_, rfl, became_insert hlx hnext hs' hn hds fun t ht => ?_⟩
        have := hg4 t ht
        omega
      · split
        · refine ⟨_, rfl, became_insert hlx ?_ hs hn hds fun t ht => ?_⟩
          · exact ⟨hx, hx0, hpage, hnext⟩
          · rcases List.mem_cons.1 ht with rfl | ht
            · omega
            · have := hg4 t ht; omega
        · have hl' : Links s.mem s.pageList ((ds ++ [r]) ++ rs) 0 := by simpa using hl
          obtain ⟨s', hs', hb⟩ := ih (k := k) hl' (by simpa using hs) hrs
            (fun d hd => by
              rcases List.mem_append.1 hd with hd | hd
              · exact hds d hd
              · obtain rfl := List.mem_singleton.1 hd
                omega) (by simpa using hk)
          rw [prevOf_concat, ← hx] at hs'
          exact ⟨s', hs', by simpa using hb⟩

end Loops

/-! ## The calls -/

theorem Listed.length_lt (L : Listed s rs) : rs.length < s.fuel := by
  have := L.spaced.length_le L.within
  rw [fuel]
  omega

/-- `rt_slab_page_alloc` takes the first pages of the first run that is long enough, or there is none. -/
theorem Listed.rtSlabPageAlloc (L : Listed s rs) (hn : 0 < npages) :
    (take npages rs = none ∧ SlabPages.rtSlabPageAlloc s npages = some (s, 0)) ∨
    ∃ b rs' s', take npages rs = some (b, rs') ∧ b ≠ 0 ∧ SlabPages.rtSlabPageAlloc s npages = some (s', b) ∧
      Listed s' rs' ∧ s'.heapStart = s.heapStart ∧ s'.heapEnd = s.heapEnd := by
  have hlinks : Links s.mem s.pageList ([] ++ rs) 0 := L.links
  rw [SlabPages.rtSlabPageAlloc, if_neg (by omega)]
  cases ht : take npages rs with
  | none => exact .inl ⟨rfl, allocFrom_none hlinks ht L.length_lt⟩
  | some q =>
    obtain ⟨b, rs'⟩ := q
    obtain ⟨hb, s', hs', hl, h1, h2⟩ := allocFrom_some hlinks L.spaced hn ht L.length_lt
    obtain ⟨hsp, hc, -⟩ := L.spaced.take hn ht
    refine .inr ⟨b, rs', s', rfl, hb, hs', ⟨hl, hsp, h1 ▸ L.heapStart_pos, fun x hx => ?_⟩, h1, h2⟩
    rw [h1, h2]
    exact L.within x ((hc x).2 (.inr hx))

/-- `rt_slab_page_free` puts pages that are not free back in order, and joins the runs that meet. -/
theorem Listed.rtSlabPageFree (L : Listed s rs) (hnp : 0 < npages) (hlo : s.heapStart ≤ n)
    (hhi : n + npages ≤ s.heapEnd) (hd : ∀ x, n ≤ x → x < n + npages → ¬Covers rs x) :
    ∃ s', SlabPages.rtSlabPageFree s n npages = some s' ∧ Listed s' (give n npages rs) ∧
      s'.heapStart = s.heapStart ∧ s'.heapEnd = s.heapEnd := by
  have hpos := L.heapStart_pos
  have hap (r : Span) (hr : r ∈ rs) := L.spaced.apart hnp hd hr
  have hlinks : Links s.mem s.pageList ([] ++ rs) 0 := L.links
  obtain ⟨s', hs', hl, h1, h2⟩ := freeFrom_spec (n := n) hlinks L.spaced (by omega) hnp hap (by simp) L.length_lt
  refine ⟨s', ?_, ⟨hl, L.spaced.give hnp hap, h1 ▸ hpos, fun x hx => ?_⟩, h1, h2⟩
  · rw [SlabPages.rtSlabPageFree, if_pos ⟨by omega, by omega⟩]
    exact hs'
  · rw [h1, h2]
    rcases covers_give.1 hx with hx | hx
    · omega
    · exact L.within x hx

/-- The region becomes one run. -/
theorem listed_rtSlabPageInit (hs : 0 < s.heapStart) (hn : 0 < npages) (hle : s.heapStart + npages ≤ s.heapEnd) :
    ∃ s', rtSlabPageInit s s.heapStart npages = some s' ∧ Listed s' [⟨s.heapStart, npages⟩] ∧
      s'.heapStart = s.heapStart ∧ s'.heapEnd = s.heapEnd := by
  have L : Listed { s with pageList := 0 } [] := ⟨rfl, spaced_nil, hs, fun x hx => absurd hx covers_nil⟩
  rw [rtSlabPageInit, if_pos ⟨by omega, by omega⟩]
  exact L.rtSlabPageFree hn (Nat.le_refl _) hle fun x _ _ => covers_nil

end SlabPages

/-! ## Runs -/

/-- The page allocator, with the pages that it has handed out and not taken back. -/
structure SlabPagesUsed where
  slab : SlabPages
  pages : Finset Nat

namespace SlabPagesUsed

open SlabPages

/-- A call, or a store of a user to a page of its own. -/
inductive Event
  | alloc (npages : Nat)
  | free (addr npages : Nat)
  | store (b : Nat) (p : SlabPage)
  deriving DecidableEq

/-- Users free pages of their own, any number that follow each other, and write to them. -/
def step (s : SlabPagesUsed) : Event → Option (SlabPagesUsed × Nat)
  | .alloc npages => (s.slab.rtSlabPageAlloc npages).map fun r =>
      ({ slab := r.1, pages := if r.2 = 0 then s.pages else s.pages ∪ Finset.Ico r.2 (r.2 + npages) }, r.2)
  | .free addr npages =>
    if 0 < npages ∧ Finset.Ico addr (addr + npages) ⊆ s.pages then
      (s.slab.rtSlabPageFree addr npages).map fun h =>
        ({ slab := h, pages := s.pages \ Finset.Ico addr (addr + npages) }, 0)
    else none
  | .store b p => if b ∈ s.pages then some ({ s with slab := s.slab.setPage b p }, 0) else none

/-- The states of runs that start with `rt_slab_page_init` on one region, whatever the memory holds. -/
def Reach (addr npages : Nat) (s : SlabPagesUsed) : Prop :=
  ∃ (h0 h : SlabPages) (ls : List (Event × Nat)), h0.heapStart = addr ∧ addr + npages ≤ h0.heapEnd ∧
    rtSlabPageInit h0 addr npages = some h ∧
      Runs.Run (fun s l s' => step s l.1 = some (s', l.2)) ⟨h, ∅⟩ ls s

variable {s s' : SlabPagesUsed} {addr npages r : Nat} {rs : List Span} {e : Event}

/-- The free pages and those in use are the pages of the region. -/
structure Inv (addr npages : Nat) (s : SlabPagesUsed) (rs : List Span) : Prop where
  listed : Listed s.slab rs
  heapStart : s.slab.heapStart = addr
  heapEnd : addr + npages ≤ s.slab.heapEnd
  region : ∀ x, addr ≤ x ∧ x < addr + npages ↔ Covers rs x ∨ x ∈ s.pages
  apart : ∀ x, Covers rs x → x ∉ s.pages
  total : total rs + s.pages.card = npages

/-- Pages in use, which users may free. -/
theorem Inv.free (I : Inv addr npages s rs) {n k : Nat} (hk : 0 < k) (hsub : Finset.Ico n (n + k) ⊆ s.pages) :
    ∃ h, s.slab.rtSlabPageFree n k = some h ∧ Inv addr npages ⟨h, s.pages \ Finset.Ico n (n + k)⟩ (give n k rs) := by
  have hin (x : Nat) (h1 : n ≤ x) (h2 : x < n + k) : x ∈ s.pages := hsub (Finset.mem_Ico.2 ⟨h1, h2⟩)
  have hlo := (I.region n).2 (.inr (hin n (Nat.le_refl _) (by omega)))
  have hhi := (I.region (n + k - 1)).2 (.inr (hin _ (by omega) (by omega)))
  have hend := I.heapEnd
  obtain ⟨h, hh, L, h1, h2⟩ := I.listed.rtSlabPageFree hk (by rw [I.heapStart]; exact hlo.1) (by omega)
    fun x hx hx' hc => I.apart x hc (hin x hx hx')
  refine ⟨h, hh, L, h1.trans I.heapStart, by rw [h2]; exact hend, fun x => ?_, fun x hc => ?_, ?_⟩
  · rw [I.region, covers_give, Finset.mem_sdiff, Finset.mem_Ico]
    by_cases hx : n ≤ x ∧ x < n + k
    · simp [hx, hin x hx.1 hx.2]
    · simp [hx]
  · rw [Finset.mem_sdiff, Finset.mem_Ico]
    rcases covers_give.1 hc with hx | hx
    · exact fun hno => hno.2 hx
    · exact fun hno => I.apart x hx hno.1
  · have hcard := Finset.card_sdiff_add_card_eq_card hsub
    rw [Nat.card_Ico] at hcard
    have := I.total
    rw [total_give]
    dsimp only
    omega

theorem Inv.alloc (I : Inv addr npages s rs) (n : Nat) : ∃ s' r rs', step s (.alloc n) = some (s', r) ∧
    Inv addr npages s' rs' := by
  rcases Nat.eq_zero_or_pos n with rfl | hn
  · exact ⟨s, 0, rs, rfl, I⟩
  rcases I.listed.rtSlabPageAlloc hn with ⟨-, he⟩ | ⟨b, rs', h, ht, hb, he, L, h1, h2⟩
  · exact ⟨s, 0, rs, by rw [step, he]; rfl, I⟩
  · obtain ⟨-, hc, hno, htot⟩ := I.listed.spaced.take hn ht
    refine ⟨⟨h, s.pages ∪ Finset.Ico b (b + n)⟩, b, rs', ?_, L, h1.trans I.heapStart, by rw [h2]; exact I.heapEnd,
      fun x => ?_, fun x hx => ?_, ?_⟩
    · rw [step, he, Option.map_some, if_neg hb]
    · rw [I.region, hc, Finset.mem_union, Finset.mem_Ico]
      tauto
    · rw [Finset.mem_union, Finset.mem_Ico, not_or]
      exact ⟨I.apart x ((hc x).2 (.inr hx)), hno x hx⟩
    · have hdis : Disjoint s.pages (Finset.Ico b (b + n)) := by
        refine Finset.disjoint_left.2 fun x hx hx' => ?_
        exact I.apart x ((hc x).2 (.inl (Finset.mem_Ico.1 hx'))) hx
      have := I.total
      rw [Finset.card_union_of_disjoint hdis, Nat.card_Ico]
      omega

theorem Inv.step (I : Inv addr npages s rs) (hk : SlabPagesUsed.step s e = some (s', r)) :
    ∃ rs', Inv addr npages s' rs' := by
  cases e with
  | alloc n =>
    obtain ⟨s1, r1, rs', he, I'⟩ := I.alloc n
    cases he.symm.trans hk
    exact ⟨rs', I'⟩
  | free n k =>
    simp only [SlabPagesUsed.step] at hk
    split at hk
    swap
    · cases hk
    rename_i hc
    obtain ⟨h, hh, I'⟩ := I.free hc.1 hc.2
    rw [hh] at hk
    cases hk
    exact ⟨_, I'⟩
  | store b p =>
    simp only [SlabPagesUsed.step] at hk
    split at hk
    swap
    · cases hk
    rename_i hb
    cases hk
    have L := I.listed
    refine ⟨rs, ⟨L.links.setPage fun t ht heq => ?_, L.spaced, L.heapStart_pos, L.within⟩, I.heapStart, I.heapEnd,
      I.region, I.apart, I.total⟩
    -- The first page of a run is free.
    refine I.apart b ⟨t, ht, by omega, ?_⟩ hb
    have := L.spaced.pos t ht
    omega

theorem Reach.inv (hr : Reach addr npages s) : ∃ rs, Inv addr npages s rs := by
  obtain ⟨h0, h, ls, rfl, hend, he, hrun⟩ := hr
  refine hrun.invariant (I := fun s => ∃ rs, Inv h0.heapStart npages s rs) ?_ fun s l s' ⟨rs, I⟩ hs => I.step hs
  have hpos : h0.heapStart ≠ 0 ∧ npages ≠ 0 := by
    by_contra hno
    rw [rtSlabPageInit, if_neg hno] at he
    cases he
  obtain ⟨h1, he1, L, h2, h3⟩ := listed_rtSlabPageInit (Nat.pos_of_ne_zero hpos.1) (Nat.pos_of_ne_zero hpos.2) hend
  cases he.symm.trans he1
  refine ⟨_, L, h2, by rw [h3]; exact hend, fun x => ?_, fun x _ => Finset.notMem_empty x, by simp⟩
  simp [Covers]

/-- What `page_list` is. -/
structure Coalesced (npages : Nat) (s : SlabPagesUsed) (rs : List Span) : Prop where
  links : Links s.slab.mem s.slab.pageList rs 0
  pos : ∀ r ∈ rs, 0 < r.size
  ordered : rs.Pairwise fun r t => r.start < t.start
  disjoint : rs.Pairwise fun r t => ∀ x, ¬((r.start ≤ x ∧ x < r.start + r.size) ∧ t.start ≤ x ∧ x < t.start + t.size)
  separate : rs.Pairwise fun r t => r.start + r.size ≠ t.start ∧ t.start + t.size ≠ r.start
  free : ∀ x, Covers rs x → x ∉ s.pages
  total : total rs = npages - s.pages.card
  card_le : s.pages.card ≤ npages

/-- In every state reached, the runs on `page_list` are in order, apart from each other and never adjacent, and they have
the pages of the region that are not in use; and no call fails or does not end. -/
theorem page_list_coalesced (hr : Reach addr npages s) :
    (∃ rs, Coalesced npages s rs) ∧ (∀ n, (step s (.alloc n)).isSome) ∧
      ∀ n k, 0 < k → Finset.Ico n (n + k) ⊆ s.pages → (step s (.free n k)).isSome := by
  obtain ⟨rs, I⟩ := hr.inv
  have hs := I.listed.spaced
  have htot := I.total
  refine ⟨⟨rs, I.listed.links, hs.pos, ?_, hs.disjoint, ?_, I.apart, by omega, by omega⟩, fun n => ?_, fun n k hk hsub => ?_⟩
  · exact hs.gap.imp fun h => by omega
  · exact hs.gap.imp fun h => by omega
  · obtain ⟨s', r, rs', he, -⟩ := I.alloc n
    rw [he]; rfl
  · obtain ⟨h, he, -⟩ := I.free hk hsub
    rw [step, if_pos ⟨hk, hsub⟩, he]; rfl

/-- Ten pages from page 16 on. -/
def slab16 : SlabPages := (rtSlabPageInit ⟨16, 26, 0, fun _ => ⟨0, 0⟩⟩ 16 10).get (by decide)

/-- Two runs are taken, and given back in parts; the last part joins the runs on both sides. -/
def events16 : List (Event × Nat) :=
  [(.alloc 4, 16), (.alloc 3, 20), (.free 17 1, 0), (.store 18 ⟨0, 7⟩, 0), (.free 20 2, 0), (.free 18 2, 0)]

theorem page_list_coalesced_events16 : ∃ s, Reach 16 10 s ∧ s.pages = {16, 22} ∧
    ((∃ rs, Coalesced 10 s rs) ∧ (∀ n, (step s (.alloc n)).isSome) ∧
      ∀ n k, 0 < k → Finset.Ico n (n + k) ⊆ s.pages → (step s (.free n k)).isSome) := by
  obtain ⟨s, hrun, hp⟩ := Runs.Run.of_computed (f := step) (s := ⟨slab16, ∅⟩) (P := fun s => s.pages = {16, 22}) events16
    (by decide)
  have hr : Reach 16 10 s := ⟨_, slab16, events16, rfl, by decide, (Option.some_get _).symm, hrun⟩
  exact ⟨s, hr, hp, page_list_coalesced hr⟩

end SlabPagesUsed

end RtThread
