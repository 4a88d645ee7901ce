import Mathlib.Data.List.Induction
import RtThread.Ofw.Translate

/-!
# Address translation and earlier calls

The table of `rt_ofw_translate_address` knows a bus by its node alone, not by the property that its entries were read from. The
results of calls are compared behind any two histories of calls.
-/

namespace RtThread

namespace DeviceTree

/-- A call of `rt_ofw_translate_address`, and whether there is memory. -/
structure TypedCall where
  node : Nat
  rangeType : Option String
  address : BitVec 64
  alloc : Bool

variable (t : DeviceTree) (nr : Nat)

def TypedCall.run (c : TypedCall) (table : BusTable) : Option (BusTable × BitVec 64) :=
  t.rtOfwTranslateAddress nr c.alloc table c.node c.rangeType c.address

/-- The bus that a call stops at. -/
def TypedCall.bus (c : TypedCall) : Option Nat :=
  (t.parents c.node).find? fun b => t.value b (c.rangeType.getD "ranges") ≠ []

/-- The call's property of a bus. -/
def TypedCall.value (c : TypedCall) (b : Nat) : List (BitVec 8) := t.value b (c.rangeType.getD "ranges")

/-- The entries in it. -/
def TypedCall.entries (c : TypedCall) (b : Nat) : List BusRange := (t.ofwReadRanges b (c.value t b)).getD []

/-- The call puts a bus into the table. -/
def TypedCall.Reads (c : TypedCall) (b : Nat) : Prop := c.bus t = some b ∧ t.CountsOk b (c.value t b) ∧ c.alloc

/-- The table behind a history, if all its calls return. -/
def history (calls : List TypedCall) : Option BusTable :=
  calls.foldlM (fun table c => (c.run t nr table).map Prod.fst) []

/-- Behind any two histories of calls of `C`, a call of `C` has the same result. -/
def HistoryIndependent (C : TypedCall → Prop) : Prop :=
  ∀ calls calls' table table', (∀ c ∈ calls ++ calls', C c) → t.history nr calls = some table →
    t.history nr calls' = some table' → ∀ c, C c → (c.run t nr table).map Prod.snd = (c.run t nr table').map Prod.snd

/-- What one call of `C` reads of a bus is what the others need there, and the buses have room in the table. -/
structure TypesAgree (C : TypedCall → Prop) : Prop where
  entries : ∀ c c', C c → C c' → ∀ b, c.Reads t b → c'.bus t = some b →
    if c'.alloc then t.CountsOk b (c'.value t b) ∧
      busOffset (c.entries t b) c'.address = busOffset (c'.entries t b) c'.address
    else c'.address + busOffset (c.entries t b) c'.address = BitVec.allOnes 64
  room : ∀ bs : List Nat, bs.Nodup → (∀ b ∈ bs, ∃ c, C c ∧ c.Reads t b) → bs.length ≤ nr

/-- The buses of the table, each once, with the entries that a call of `C` reads. -/
structure TableFrom (C : TypedCall → Prop) (table : BusTable) : Prop where
  nodup : (table.map Prod.fst).Nodup
  entries : ∀ x ∈ table, ∃ c, C c ∧ c.Reads t x.1 ∧ x.2 = c.entries t x.1

variable {t nr} {C : TypedCall → Prop} {table : BusTable} {c : TypedCall} {b : Nat}

theorem run_none (h : c.bus t = none) : c.run t nr table = some (table, c.address) := by
  rw [TypedCall.run, rtOfwTranslateAddress, show List.find? _ (t.parents c.node) = none from h]

theorem run_cached {x : Nat × List BusRange} (h : c.bus t = some b) (hx : table.find? (fun x => x.1 = b) = some x) :
    c.run t nr table = some (table, c.address + busOffset x.2 c.address) := by
  rw [TypedCall.run, rtOfwTranslateAddress, show List.find? _ (t.parents c.node) = some b from h]
  simp only [hx]

theorem run_new (h : c.bus t = some b) (hx : table.find? (fun x => x.1 = b) = none) :
    c.run t nr table = (t.ofwBusRanges c.alloc b (c.value t b)).bind fun ranges =>
      match ranges with
      | none => some (table, BitVec.allOnes 64)
      | some es => if table.length < nr then some (table ++ [(b, es)], c.address + busOffset es c.address) else none := by
  rw [TypedCall.run, rtOfwTranslateAddress, show List.find? _ (t.parents c.node) = some b from h]
  simp only [hx]
  rfl

theorem run_reads (h : c.Reads t b) (hx : table.find? (fun x => x.1 = b) = none) :
    c.run t nr table = if table.length < nr
      then some (table ++ [(b, c.entries t b)], c.address + busOffset (c.entries t b) c.address) else none := by
  rw [run_new h.1 hx, ofwBusRanges_eq _ h.2.1, h.2.2]
  rfl

/-- Without memory a bus with counts is not read. -/
theorem ofwBusRanges_off {alloc : Bool} {value : List (BitVec 8)} (h : t.CountsOk b value) (value' : List (BitVec 8))
    (halloc : alloc = false) : t.ofwBusRanges alloc b value' = some none := by
  obtain ⟨haddr, hsize, hparent, hsome⟩ := h
  obtain ⟨es, hes⟩ := Option.isSome_iff_exists.1 hsome
  rw [ofwBusRanges, if_neg (by omega), if_neg (cells_ne_zero hes), halloc]
  rfl

theorem run_first (hnr : 0 < nr) (h : c.Reads t b) :
    c.run t nr [] = some ([(b, c.entries t b)], c.address + busOffset (c.entries t b) c.address) :=
  (run_reads h rfl).trans (if_pos hnr)

theorem find_none (h : b ∉ table.map Prod.fst) : table.find? (fun x => x.1 = b) = none := by
  rw [List.find?_eq_none]
  intro x hx heq
  exact h (of_decide_eq_true heq ▸ List.mem_map_of_mem hx)

/-- A call keeps the table. -/
theorem TableFrom.step {table' : BusTable} {r : BitVec 64} (h : TableFrom t C table) (hc : C c)
    (hrun : c.run t nr table = some (table', r)) : TableFrom t C table' := by
  cases hb : c.bus t with
  | none =>
    rw [run_none hb] at hrun
    cases hrun
    exact h
  | some b =>
    cases hx : table.find? (fun x => x.1 = b) with
    | some x =>
      rw [run_cached hb hx] at hrun
      cases hrun
      exact h
    | none =>
      rw [run_new hb hx] at hrun
      obtain ⟨ranges, hranges, hrun⟩ := Option.bind_eq_some_iff.1 hrun
      cases ranges with
      | none =>
        cases hrun
        exact h
      | some es =>
        simp only at hrun
        split at hrun
        · cases hrun
          obtain ⟨halloc, hcounts, rfl⟩ := ofwBusRanges_some hranges
          constructor
          · rw [List.map_append, List.map_singleton, ← List.concat_eq_append, List.nodup_concat]
            refine ⟨fun hmem => ?_, h.nodup⟩
            obtain ⟨y, hy, heq⟩ := List.mem_map.1 hmem
            exact List.find?_eq_none.1 hx y hy (decide_eq_true heq)
          · intro x hmem
            rcases List.mem_append.1 hmem with hmem | hmem
            · exact h.entries x hmem
            · obtain rfl := List.mem_singleton.1 hmem
              exact ⟨c, hc, ⟨hb, hcounts, halloc⟩, rfl⟩
        · cases hrun

theorem TableFrom.history {calls : List TypedCall} (hC : ∀ c ∈ calls, C c) (h : t.history nr calls = some table) :
    TableFrom t C table := by
  have hrun (calls : List TypedCall) (table table' : BusTable) (hC : ∀ c ∈ calls, C c) (h : TableFrom t C table)
      (heq : calls.foldlM (fun table c => (c.run t nr table).map Prod.fst) table = some table') :
      TableFrom t C table' := by
    induction calls generalizing table with
    | nil =>
      cases heq
      exact h
    | cons c calls ih =>
      obtain ⟨table1, hstep, heq⟩ := Option.bind_eq_some_iff.1 heq
      obtain ⟨x, hx, rfl⟩ := Option.map_eq_some_iff.1 hstep
      exact ih x.1 (fun c hc => hC c (List.mem_cons_of_mem _ hc)) (h.step (hC c List.mem_cons_self) hx) heq
  exact hrun calls [] table hC ⟨List.nodup_nil, fun x hx => by cases hx⟩ h

/-- Behind a history, a call has the result that it has as the first one. -/
theorem TypesAgree.result (h : TypesAgree t nr C) (hnr : 0 < nr) (htable : TableFrom t C table) (hc : C c) :
    (c.run t nr table).map Prod.snd = (c.run t nr []).map Prod.snd := by
  cases hb : c.bus t with
  | none => rw [run_none hb, run_none hb, Option.map_some, Option.map_some]
  | some b =>
    cases hx : table.find? (fun x => x.1 = b) with
    | some x =>
      obtain rfl : x.1 = b := by simpa using List.find?_some hx
      obtain ⟨c0, hc0, hreads, heq⟩ := htable.entries x (List.mem_of_find?_eq_some hx)
      have hagree := h.entries c0 c hc0 hc x.1 hreads hb
      rw [run_cached hb hx, heq]
      cases halloc : c.alloc with
      | true =>
        rw [if_pos halloc] at hagree
        rw [run_first hnr ⟨hb, hagree.1, halloc⟩, hagree.2]
        rfl
      | false =>
        rw [if_neg (by simp [halloc])] at hagree
        rw [run_new hb rfl, ofwBusRanges_off hreads.2.1 _ halloc, hagree]
        rfl
    | none =>
      by_cases hreads : c.Reads t b
      · have hroom : table.length < nr := by
          have hlen := h.room (b :: table.map Prod.fst) (List.nodup_cons.2 ⟨fun hmem => ?_, htable.nodup⟩) ?_
          · rwa [List.length_cons, List.length_map] at hlen
          · obtain ⟨y, hy, heq⟩ := List.mem_map.1 hmem
            exact List.find?_eq_none.1 hx y hy (decide_eq_true heq)
          · intro b' hb'
            rcases List.mem_cons.1 hb' with rfl | hb'
            · exact ⟨c, hc, hreads⟩
            · obtain ⟨y, hy, rfl⟩ := List.mem_map.1 hb'
              obtain ⟨c0, hc0, hreads, -⟩ := htable.entries y hy
              exact ⟨c0, hc0, hreads⟩
        rw [run_reads hreads hx, if_pos hroom, run_first hnr hreads, Option.map_some, Option.map_some]
      · rw [run_new hb hx, run_new hb rfl]
        match hranges : t.ofwBusRanges c.alloc b (t.value b (c.rangeType.getD "ranges")) with
        | none => rfl
        | some none => rfl
        | some (some es) =>
          obtain ⟨halloc, hcounts, -⟩ := ofwBusRanges_some hranges
          exact absurd ⟨hb, hcounts, halloc⟩ hreads

/-- Calls that read any buses there is room for. -/
theorem exists_history {bs : List Nat} (hbs : bs.Nodup) (hC : ∀ b ∈ bs, ∃ c, C c ∧ c.Reads t b) (hlen : bs.length ≤ nr) :
    ∃ calls table, (∀ c ∈ calls, C c) ∧ t.history nr calls = some table ∧ table.map Prod.fst = bs := by
  induction bs using List.reverseRecOn with
  | nil => exact ⟨[], [], fun c hc => absurd hc List.not_mem_nil, rfl, rfl⟩
  | append_singleton bs b ih =>
    rw [← List.concat_eq_append, List.nodup_concat] at hbs
    rw [List.length_append, List.length_singleton] at hlen
    obtain ⟨calls, table, hcalls, hhist, rfl⟩ := ih hbs.2 (fun b hb => hC b (List.mem_append_left _ hb)) (by omega)
    obtain ⟨c, hc, hreads⟩ := hC b List.mem_concat_self
    rw [List.length_map] at hlen
    refine ⟨calls ++ [c], table ++ [(b, c.entries t b)], ?_, ?_, ?_⟩
    · intro c' hc'
      rcases List.mem_append.1 hc' with hc' | hc'
      · exact hcalls c' hc'
      · exact List.mem_singleton.1 hc' ▸ hc
    · rw [history, List.foldlM_append, show List.foldlM _ _ calls = some table from hhist]
      simp [run_reads hreads (find_none hbs.1), show table.length < nr by omega]
    · rw [List.map_append, List.map_singleton]

/-- What the types need is enough and necessary. -/
theorem history_independent (hnr : 0 < nr) : HistoryIndependent t nr C ↔ TypesAgree t nr C := by
  constructor
  · intro h
    refine ⟨fun c c' hc hc' b hreads hb => ?_, fun bs hbs hC => ?_⟩
    · have hone : t.history nr [c] = some [(b, c.entries t b)] := by
        simp [history, run_first hnr hreads]
      have hres := h [c] [] _ [] (by simpa using hc) hone rfl c' hc'
      rw [run_cached hb (x := (b, c.entries t b)) (by simp)] at hres
      split
      · rename_i halloc
        by_cases hcounts : t.CountsOk b (c'.value t b)
        · rw [run_first hnr ⟨hb, hcounts, halloc⟩] at hres
          exact ⟨hcounts, add_left_inj' (Option.some.inj hres)⟩
        · obtain ⟨haddr, hsize, hparent, hsome⟩ := hreads.2.1
          obtain ⟨es, hes⟩ := Option.isSome_iff_exists.1 hsome
          have hnone : t.ofwReadRanges b (c'.value t b) = none :=
            Option.not_isSome_iff_eq_none.1 fun hsome => hcounts ⟨haddr, hsize, hparent, hsome⟩
          rw [run_new hb rfl, ofwBusRanges, if_neg (by omega), if_neg (cells_ne_zero hes), if_pos halloc, hnone] at hres
          cases hres
      · rename_i halloc
        rw [run_new hb rfl, ofwBusRanges_off hreads.2.1 _ (Bool.not_eq_true _ ▸ halloc)] at hres
        exact Option.some.inj hres
    · by_contra hlong
      rw [Nat.not_le] at hlong
      have hmem := List.getElem_mem hlong
      obtain ⟨c, hc, hreads⟩ := hC _ hmem
      obtain ⟨calls, table, hcalls, hhist, hmap⟩ := exists_history
        (hbs.sublist (List.take_sublist nr bs)) (fun b hb => hC b (List.mem_of_mem_take hb)) (List.length_take_le nr bs)
      have hres := h calls [] table [] (by simpa using hcalls) hhist rfl c hc
      have hnew : bs[nr] ∉ table.map Prod.fst := by
        rw [hmap]
        intro hmem
        obtain ⟨i, hi, heq⟩ := List.getElem_of_mem hmem
        rw [List.length_take] at hi
        rw [List.getElem_take, hbs.getElem_inj_iff] at heq
        omega
      have hfull : ¬ table.length < nr := by
        rw [← List.length_map Prod.fst, hmap, List.length_take]
        omega
      rw [run_reads hreads (find_none hnew), if_neg hfull, run_first hnr hreads] at hres
      cases hres
  · intro h calls calls' table table' hC hhist hhist' c hc
    rw [h.result hnr (.history (fun c hc => hC c (List.mem_append_left _ hc)) hhist) hc,
      h.result hnr (.history (fun c hc => hC c (List.mem_append_right _ hc)) hhist') hc]

/-- A bus that the CPU and the device see at different addresses. -/
def dmaTree : DeviceTree :=
  chainTree [oneCell, cellProp "ranges" [0, 0xe0000000, 0x100000] :: cellProp "dma-ranges" [0, 0, 0x100000] :: oneCell, []]

theorem history_independent_dma : HistoryIndependent dmaTree 8 (fun c => c.rangeType = none) ↔
    TypesAgree dmaTree 8 fun c => c.rangeType = none :=
  history_independent (by decide)

/-- Once `ranges` of the bus has been read, `dma-ranges` is never looked at. -/
theorem ranges_for_dma_ranges : ¬ HistoryIndependent dmaTree 8 fun _ => True :=
  fun h => absurd (h [⟨2, some "ranges", 0, true⟩] [] [(1, [⟨0, 0xe0000000, 0x100000⟩])] [] (fun _ _ => trivial)
    (by decide) rfl ⟨2, some "dma-ranges", 0x10, true⟩ trivial) (by decide)

end DeviceTree

end RtThread
