import Mathlib.Algebra.GroupWithZero.Nat
import RtThread.Drivers.RingBlkAlloc

/-!
# Queues of blocks

`rt_rbb_blk_queue_get` takes the first block that was put and blocks after it as long as they were put, do not start before
the one before, and fit the length that was asked for. The first block is taken without a look at the length, a gap between
two blocks is not seen, and where no block ends the walk it reads behind the end of the list.
-/

namespace RtThread

namespace RtRbb

variable {rbb rbb' : RtRbb} {live free lost ts us vs xs : List Nat} {bits len last total a b c i : Nat} {st : RbbStatus}
  {queue : RtRbbBlkQueue}

def rtRbbBlkQueueBuf (rbb : RtRbb) (queue : RtRbbBlkQueue) : Option Nat := queue.blocks.map fun i => (rbb.blkSet i).buf

/-- The bytes of blocks. -/
def bytes (rbb : RtRbb) (ts : List Nat) : Nat := (ts.map fun i => (rbb.blkSet i).size).sum

/-- The blocks fill the bytes from the address `a` on, one after another. -/
def Fill (rbb : RtRbb) : Nat → List Nat → Prop
  | _, [] => True
  | a, i :: is => (rbb.blkSet i).buf = a ∧ Fill rbb (a + (rbb.blkSet i).size) is

/-- What a queue of blocks should be: no more than `len` bytes, without a gap, of blocks that were put and are now got. -/
structure QueueGot (rbb : RtRbb) (len total : Nat) (queue : RtRbbBlkQueue) (rbb' : RtRbb) (past : Bool) : Prop where
  inList : past = false
  le_len : total ≤ len
  run : ∃ us ts vs, rbb.Linked .blkList (us ++ (ts ++ vs)) ∧ ts.length = queue.blkNum ∧
    (ts = [] ∨ queue.blocks = ts.head?) ∧ (∀ a ∈ rtRbbBlkQueueBuf rbb queue, rbb.Fill a ts) ∧ total = rbb.bytes ts ∧
    (∀ i ∈ ts, (rbb.blkSet i).status = .put ∧ rbb'.blkSet i = { rbb.blkSet i with status := .get }) ∧
    ∀ i, i ∉ ts → rbb'.blkSet i = rbb.blkSet i

/-- The block `c` is not taken after `last`, with `total` bytes before. -/
def Breaks (bits len : Nat) (rbb : RtRbb) (last total c : Nat) : Prop :=
  (rbb.blkSet c).status ≠ .put ∨ (rbb.blkSet last).buf > (rbb.blkSet c).buf ∨
    (total + (rbb.blkSet c).size) % 2 ^ bits > len

/-- The list is empty, and so is the caller's queue; or the first blocks that were put lie one after another, fit `len`,
and are followed by a block that is not taken. -/
def QueueFine (bits len : Nat) (rbb : RtRbb) (queue : RtRbbBlkQueue) : Prop :=
  rbb.next .blkList = none ∧ queue.blkNum = 0 ∨
    ∃ us b ts c vs, rbb.Linked .blkList (us ++ b :: (ts ++ c :: vs)) ∧ (∀ i ∈ us, (rbb.blkSet i).status ≠ .put) ∧
      (∀ i ∈ b :: ts, (rbb.blkSet i).status = .put) ∧ rbb.Fill (rbb.blkSet b).buf (b :: ts) ∧ rbb.bytes (b :: ts) ≤ len ∧
      Breaks bits len rbb (ts.getLastD b) (rbb.bytes (b :: ts)) c

@[simp] theorem bytes_nil : rbb.bytes [] = 0 := rfl

@[simp] theorem bytes_cons : rbb.bytes (i :: ts) = (rbb.blkSet i).size + rbb.bytes ts := by simp [bytes]

theorem sizeSum_eq : rbb.sizeSum bits total ts % 2 ^ bits = (total + rbb.bytes ts) % 2 ^ bits := by
  induction ts generalizing total with
  | nil => rfl
  | cons i ts ih =>
    have h : rbb.sizeSum bits ((total + (rbb.blkSet i).size) % 2 ^ bits) ts % 2 ^ bits = _ := ih
    rw [Nat.mod_add_mod] at h
    rw [bytes_cons, ← Nat.add_assoc, ← h]
    rfl

theorem sizeSum_lt (h : total < 2 ^ bits) : rbb.sizeSum bits total ts < 2 ^ bits := by
  induction ts generalizing total with
  | nil => exact h
  | cons i ts ih => exact ih (Nat.mod_lt _ (Nat.two_pow_pos bits))

/-! ## The blocks that are marked -/

theorem markGet_of_notMem (h : i ∉ ts) : (rbb.markGet ts).blkSet i = rbb.blkSet i := by
  induction ts generalizing rbb with
  | nil => rfl
  | cons j ts ih =>
    rw [List.mem_cons, not_or] at h
    exact (ih h.2).trans (Function.update_of_ne h.1 _ _)

theorem markGet_of_mem (hnd : ts.Nodup) (h : i ∈ ts) :
    (rbb.markGet ts).blkSet i = { rbb.blkSet i with status := .get } := by
  induction ts generalizing rbb with
  | nil => cases h
  | cons j ts ih =>
    obtain ⟨hj, hnd'⟩ := List.nodup_cons.1 hnd
    rcases List.mem_cons.1 h with rfl | hi
    · exact (markGet_of_notMem hj).trans (Function.update_self _ _ _)
    · have hne : i ≠ j := fun e => hj (e ▸ hi)
      rw [show (rbb.markGet (j :: ts)).blkSet i = ((rbb.setStatus j .get).markGet ts).blkSet i from rfl, ih hnd' hi,
        show (rbb.setStatus j .get).blkSet i = rbb.blkSet i from Function.update_of_ne hne _ _]

/-! ## The blocks that are taken -/

theorem takeRun_put (h : i ∈ rbb.takeRun bits len last total xs) : (rbb.blkSet i).status = .put := by
  induction xs generalizing last total with
  | nil => cases h
  | cons x xs ih =>
    unfold takeRun at h
    split_ifs at h with hstop
    · cases h
    · rcases List.mem_cons.1 h with rfl | h
      · by_contra hne
        exact hstop (Or.inl hne)
      · exact ih h

/-- Not all blocks are taken: the first that is left is one that breaks the walk. -/
theorem takeRun_breaks (hne : (rbb.takeRun bits len last total xs).length ≠ xs.length) :
    ∃ c vs, xs = rbb.takeRun bits len last total xs ++ c :: vs ∧
      Breaks bits len rbb ((rbb.takeRun bits len last total xs).getLastD last)
        (total + rbb.bytes (rbb.takeRun bits len last total xs)) c := by
  induction xs generalizing last total with
  | nil => exact absurd rfl hne
  | cons x xs ih =>
    unfold takeRun at hne ⊢
    split_ifs at hne ⊢ with hstop
    · exact ⟨x, xs, rfl, hstop⟩
    · rw [List.length_cons, List.length_cons, Ne, Nat.succ_inj] at hne
      obtain ⟨c, vs, he, hb⟩ := ih hne
      refine ⟨c, vs, congrArg (x :: ·) he, ?_⟩
      rw [List.getLastD_cons, bytes_cons, ← Nat.add_assoc]
      unfold Breaks at hb ⊢
      rwa [Nat.add_assoc, Nat.mod_add_mod, ← Nat.add_assoc] at hb

/-- Blocks one after another, up to one that breaks the walk, are the ones that are taken. -/
theorem takeRun_eq (hlen : len < 2 ^ bits) (hput : ∀ i ∈ ts, (rbb.blkSet i).status = .put)
    (hfill : rbb.Fill ((rbb.blkSet last).buf + a) ts) (hle : total + rbb.bytes ts ≤ len)
    (hb : Breaks bits len rbb (ts.getLastD last) (total + rbb.bytes ts) c) :
    rbb.takeRun bits len last total (ts ++ c :: vs) = ts := by
  induction ts generalizing last total a with
  | nil =>
    exact if_pos hb
  | cons x ts ih =>
    obtain ⟨hx, hrest⟩ := hfill
    rw [bytes_cons, ← Nat.add_assoc] at hle hb
    rw [List.getLastD_cons] at hb
    have hmod : (total + (rbb.blkSet x).size) % 2 ^ bits = total + (rbb.blkSet x).size := Nat.mod_eq_of_lt (by omega)
    have hgo : ¬((rbb.blkSet x).status ≠ .put ∨ (rbb.blkSet last).buf > (rbb.blkSet x).buf ∨
        (total + (rbb.blkSet x).size) % 2 ^ bits > len) := by
      rintro (h | h | h)
      · exact h (hput x (by simp))
      · omega
      · omega
    rw [List.cons_append]
    unfold takeRun
    rw [if_neg hgo, hmod, ih (fun i hi => hput i (by simp [hi])) (hx ▸ hrest) hle hb]

/-- The first block that was put. -/
theorem dropWhile_skips (hus : ∀ i ∈ us, (rbb.blkSet i).status ≠ .put) (hb : (rbb.blkSet b).status = .put) :
    (us ++ b :: xs).dropWhile rbb.skips = b :: xs := by
  induction us with
  | nil => exact List.dropWhile_cons_of_neg (by simp [skips, hb])
  | cons u us ih =>
    rw [List.cons_append, List.dropWhile_cons_of_pos (by simpa [skips] using hus u (by simp))]
    exact ih fun i hi => hus i (by simp [hi])

theorem exists_put (rbb : RtRbb) (live : List Nat) :
    (∀ i ∈ live, (rbb.blkSet i).status ≠ .put) ∧ live.dropWhile rbb.skips = [] ∨
      ∃ us b xs, live = us ++ b :: xs ∧ (∀ i ∈ us, (rbb.blkSet i).status ≠ .put) ∧ (rbb.blkSet b).status = .put := by
  induction live with
  | nil => exact Or.inl ⟨nofun, rfl⟩
  | cons x xs ih =>
    by_cases hx : (rbb.blkSet x).status = .put
    · exact Or.inr ⟨[], x, xs, rfl, nofun, hx⟩
    · rcases ih with ⟨hall, hdrop⟩ | ⟨us, b, ys, rfl, hus, hb⟩
      · refine Or.inl ⟨List.forall_mem_cons.2 ⟨hx, hall⟩, ?_⟩
        rw [List.dropWhile_cons_of_pos (by simpa [skips] using hx)]
        exact hdrop
      · exact Or.inr ⟨x :: us, b, ys, rfl, List.forall_mem_cons.2 ⟨hx, hus⟩, hb⟩

/-! ## The result -/

namespace Books

/-- No block was put. -/
theorem queueGot_iff_of_none (h : rbb.Books live free lost) (hall : ∀ i ∈ live, (rbb.blkSet i).status ≠ .put) :
    QueueGot rbb len 0 queue rbb (decide (live ≠ [])) ↔ QueueFine bits len rbb queue := by
  constructor
  · intro hq
    have hnil : live = [] := by simpa using hq.inList
    obtain ⟨us, ts, vs, hl, hn, -⟩ := hq.run
    have he := h.live_linked.eq hl
    rw [hnil] at he
    obtain ⟨-, hts, -⟩ : us = [] ∧ ts = [] ∧ vs = [] := by simpa using he.symm
    subst hnil hts
    exact Or.inl ⟨h.live_linked.2, hn.symm⟩
  · rintro (⟨hnone, hq⟩ | ⟨us, b, ts, c, vs, hl, -, hput, -⟩)
    · cases live with
      | nil => exact ⟨rfl, Nat.zero_le len, [], [], [], h.live_linked, hq.symm, Or.inl rfl, fun _ _ => trivial, rfl, nofun,
          fun _ _ => rfl⟩
      | cons x xs =>
        rw [h.head_live] at hnone
        cases hnone
    · rw [h.live_linked.eq hl] at hall
      exact absurd (hput b (by simp)) (hall b (by simp))


/-- What is taken from the block `b` on, the first that was put. -/
def taken (bits len : Nat) (rbb : RtRbb) (b : Nat) (xs : List Nat) : List Nat :=
  rbb.takeRun bits len b (rbb.sizeSum bits 0 [b]) xs

theorem sizeSum_eq_bytes (h : rbb.bytes ts < 2 ^ bits) : rbb.sizeSum bits 0 ts = rbb.bytes ts := by
  have he : rbb.sizeSum bits 0 ts % 2 ^ bits = _ := sizeSum_eq
  rw [Nat.zero_add, Nat.mod_eq_of_lt h, Nat.mod_eq_of_lt (sizeSum_lt (Nat.two_pow_pos bits))] at he
  exact he

section

variable (h : rbb.Books (us ++ b :: xs) free lost) (hlen : len < 2 ^ bits)
  (hus : ∀ i ∈ us, (rbb.blkSet i).status ≠ .put) (hb : (rbb.blkSet b).status = .put)

include h hlen hus hb

theorem queueGot_of_fine (hf : QueueFine bits len rbb queue) :
    QueueGot rbb len (rbb.sizeSum bits 0 (b :: taken bits len rbb b xs)) ⟨some b, (taken bits len rbb b xs).length + 1⟩
      (rbb.markGet (b :: taken bits len rbb b xs)) (decide ((taken bits len rbb b xs).length = xs.length)) := by
  rcases hf with ⟨hnone, -⟩ | ⟨us', b', ts, c, vs, hl, hus', hput, hfill, hle, hbreak⟩
  · have hl := h.live_linked
    cases us with
    | nil => cases hnone.symm.trans hl.2.1
    | cons u us => cases hnone.symm.trans hl.2.1
  · have he := h.live_linked.eq hl
    have hdrop := congrArg (List.dropWhile rbb.skips) he
    rw [dropWhile_skips hus hb, dropWhile_skips hus' (hput b' (by simp))] at hdrop
    obtain ⟨rfl, rfl⟩ := List.cons.inj hdrop
    have hnd := (List.nodup_append.1 h.nodup).1
    rw [bytes_cons] at hle hbreak
    have hfirst : rbb.sizeSum bits 0 [b] = (rbb.blkSet b).size := by
      rw [sizeSum_eq_bytes] <;> rw [bytes_cons, bytes_nil] <;> omega
    have hts : taken bits len rbb b (ts ++ c :: vs) = ts := by
      unfold taken
      rw [hfirst]
      exact takeRun_eq hlen (fun i hi => hput i (by simp [hi])) hfill.2 hle hbreak
    rw [hts, sizeSum_eq_bytes (by rw [bytes_cons]; omega)]
    refine ⟨by simp, by rwa [bytes_cons], us, b :: ts, c :: vs, h.live_linked, rfl, Or.inr rfl, ?_, rfl, ?_, ?_⟩
    · intro a ha
      obtain rfl : (rbb.blkSet b).buf = a := Option.some.inj ha
      exact hfill
    · intro i hi
      have hnd' : (b :: ts).Nodup := by
        have hsub : (b :: ts).Sublist (us ++ b :: (ts ++ c :: vs)) :=
          (((List.sublist_append_left ts (c :: vs)).cons_cons b).trans (List.sublist_append_right us _))
        exact hnd.sublist hsub
      exact ⟨hput i hi, markGet_of_mem hnd' hi⟩
    · intro i hi
      exact markGet_of_notMem hi

theorem fine_of_queueGot
    (hq : QueueGot rbb len (rbb.sizeSum bits 0 (b :: taken bits len rbb b xs))
      ⟨some b, (taken bits len rbb b xs).length + 1⟩ (rbb.markGet (b :: taken bits len rbb b xs))
      (decide ((taken bits len rbb b xs).length = xs.length))) : QueueFine bits len rbb queue := by
  obtain ⟨us', ts, vs, hl, hn, hhead, hfill, htotal, -⟩ := hq.run
  have hle := hq.le_len
  have hpast : (taken bits len rbb b xs).length ≠ xs.length := by simpa using hq.inList
  obtain ⟨c, ws, hxs, hbreak⟩ := takeRun_breaks hpast
  -- the run of the contract is the one that is taken
  have hts : ts = b :: taken bits len rbb b xs := by
    cases ts with
    | nil => simp at hn
    | cons t ts =>
      obtain rfl : b = t := Option.some.inj (hhead.resolve_left (List.cons_ne_nil t ts))
      have he := h.live_linked.eq hl
      have hnd := (List.nodup_append.1 h.nodup).1
      have hout : b ∉ us ++ xs := (List.nodup_cons.1 (List.nodup_middle.1 hnd)).1
      have hbus : b ∉ us := fun hmem => hout (List.mem_append_left xs hmem)
      have hbxs : b ∉ xs := fun hmem => hout (List.mem_append_right us hmem)
      obtain ⟨-, -, hrest⟩ := (List.append_cons_inj_of_notMem hbus hbxs).1 he
      have hpre : ts <+: xs := hrest ▸ List.prefix_append ts vs
      have hpre' : taken bits len rbb b xs <+: xs := takeRun_initial ..
      have hlen' : ts.length = (taken bits len rbb b xs).length := Nat.succ.inj hn
      rw [(List.prefix_of_prefix_length_le hpre hpre' hlen'.le).eq_of_length hlen']
  rw [hts] at htotal hfill
  rw [htotal] at hle
  have hsize : rbb.sizeSum bits 0 [b] = (rbb.blkSet b).size := by
    rw [bytes_cons] at hle
    rw [sizeSum_eq_bytes] <;> rw [bytes_cons, bytes_nil] <;> omega
  refine Or.inr ⟨us, b, taken bits len rbb b xs, c, ws, ?_, hus, ?_, hfill _ rfl, hle, ?_⟩
  · exact hxs ▸ h.live_linked
  · exact List.forall_mem_cons.2 ⟨hb, fun i hi => takeRun_put hi⟩
  · rw [hsize] at hbreak
    unfold taken
    rw [hsize]
    exact hbreak

end

/-- The queue is as it should be if and only if the condition holds. -/
theorem queueGot_iff (h : rbb.Books live free lost) (hlen : len < 2 ^ bits) {past : Bool} {q : RtRbbBlkQueue}
    (hr : rtRbbBlkQueueGet bits rbb len queue = some (total, q, rbb', past)) :
    QueueGot rbb len total q rbb' past ↔ QueueFine bits len rbb queue := by
  rw [h.queueGet_eq] at hr
  rcases exists_put rbb live with ⟨hall, hdrop⟩ | ⟨us, b, xs, rfl, hus, hb⟩
  · rw [hdrop] at hr
    obtain ⟨rfl, rfl, rfl, rfl⟩ : 0 = total ∧ queue = q ∧ rbb = rbb' ∧ decide (live ≠ []) = past := by
      simpa using Option.some.inj hr
    exact h.queueGot_iff_of_none hall
  · rw [dropWhile_skips hus hb] at hr
    obtain ⟨rfl, rfl, rfl, rfl⟩ := (by simpa only [Option.some.injEq, Prod.mk.injEq] using hr)
    exact ⟨h.fine_of_queueGot hlen hus hb, h.queueGot_of_fine hlen hus hb⟩

end Books

/-- Any call keeps the lists. -/
theorem Books.of_move {x : Call × RtRbb × Ret} (h : rbb.Books live free lost) (hm : Move bits rbb x rbb') :
    ∃ live' free' lost', rbb'.Books live' free' lost' := by
  obtain ⟨c, s, r⟩ := x
  obtain ⟨rfl, hok, hcall⟩ := hm
  by_cases halloc : ∃ n, c = .alloc n
  · obtain ⟨n, rfl⟩ := halloc
    obtain ⟨y, hy, he⟩ := Option.map_eq_some_iff.1 hcall
    obtain ⟨-, rfl⟩ := Prod.mk.inj he
    cases free with
    | nil =>
      rw [h.alloc_nil (lt_of_alloc hy)] at hy
      obtain rfl := Option.some.inj hy
      exact ⟨live, [], lost, h⟩
    | cons i free =>
      obtain ⟨s1, h1, -, -, hr⟩ := h.alloc_cons bits (lt_of_alloc hy)
      rw [hr] at hy
      obtain rfl := Option.some.inj hy
      cases rbbNewBuf bits s n with
      | none => exact ⟨live, free, i :: lost, h1⟩
      | some buf => exact ⟨live ++ [i], free, lost, (h1.place buf n).1⟩
  · rw [not_exists] at halloc
    obtain ⟨-, -, live', free', h', -⟩ := h.keeps_of_call halloc hok hcall
    exact ⟨live', free', lost, h'⟩

/-- After any calls, a queue of blocks can be asked for, and it is as it should be if and only if the condition holds. -/
theorem queueGet_contract_iff {buf bufSize k : Nat} {blockSet : Nat → RtRbbBlk} {next : SlistNode → Option SlistNode}
    {ls : List (Call × RtRbb × Ret)} (hr : Runs.Run (Move bits) (rtRbbInit buf bufSize blockSet next k) ls rbb)
    (hlen : len < 2 ^ bits) (queue : RtRbbBlkQueue) :
    ∃ total q rbb' past, rtRbbBlkQueueGet bits rbb len queue = some (total, q, rbb', past) ∧
      (QueueGot rbb len total q rbb' past ↔ QueueFine bits len rbb queue) := by
  obtain ⟨live, free, lost, h⟩ := hr.invariant (I := fun rbb => ∃ live free lost, rbb.Books live free lost)
    ⟨_, _, _, (inv_init buf bufSize k blockSet next).1.toBooks⟩ fun s x s' ⟨live, free, lost, h⟩ hm => h.of_move hm
  obtain ⟨r, rbb', past, hq, -⟩ := h.queueGet bits len queue
  exact ⟨r.1, r.2, rbb', past, hq, h.queueGot_iff hlen hq⟩

/-- Four descriptors and eight bytes; the first allocation gets descriptor 3. -/
def wide : RtRbb := rtRbbInit 0 8 (fun _ => ⟨.get, 0, 0⟩) (fun _ => none) 4

def wideAfter (cs : List Call) : RtRbb := ((Runs.exec (run 32) wide cs).map Prod.fst).getD wide

theorem run_wide (cs : List Call) (h : (Runs.exec (run 32) wide cs).isSome) :
    ∃ ls, Runs.Run (Move 32) wide ls (wideAfter cs) := by
  obtain ⟨⟨s, ls⟩, hx⟩ := Option.isSome_iff_exists.1 h
  refine ⟨ls, ?_⟩
  unfold wideAfter
  rw [hx]
  exact Runs.Run.of_exec (fun s c s' r (hr : run 32 s c = some (s', r)) (_ : True) => (step_of_run hr).move) hx fun _ _ => trivial

/-- Two blocks that were put, and one that was not. -/
theorem queueGet_contract_wide :
    ∃ total q rbb' past,
      rtRbbBlkQueueGet 32 (wideAfter [.alloc 2, .alloc 2, .alloc 2, .put 3, .put 2]) 4 ⟨none, 0⟩ =
        some (total, q, rbb', past) ∧
      (QueueGot (wideAfter [.alloc 2, .alloc 2, .alloc 2, .put 3, .put 2]) 4 total q rbb' past ↔
        QueueFine 32 4 (wideAfter [.alloc 2, .alloc 2, .alloc 2, .put 3, .put 2]) ⟨none, 0⟩) := by
  obtain ⟨ls, hr⟩ := run_wide [.alloc 2, .alloc 2, .alloc 2, .put 3, .put 2] (by decide)
  exact queueGet_contract_iff hr (by decide) ⟨none, 0⟩

/-- One block that was put, with nothing after it; a block that is longer than what was asked for; and two blocks with a
gap between them. -/
theorem queueGet_bad :
    (∃ ls, Runs.Run (Move 32) wide ls (wideAfter [.alloc 4, .put 3]) ∧ ∀ total q rbb' past,
      rtRbbBlkQueueGet 32 (wideAfter [.alloc 4, .put 3]) 8 ⟨none, 0⟩ = some (total, q, rbb', past) →
        ¬QueueGot (wideAfter [.alloc 4, .put 3]) 8 total q rbb' past) ∧
    (∃ ls, Runs.Run (Move 32) wide ls (wideAfter [.alloc 4, .alloc 4, .put 3]) ∧ ∀ total q rbb' past,
      rtRbbBlkQueueGet 32 (wideAfter [.alloc 4, .alloc 4, .put 3]) 2 ⟨none, 0⟩ = some (total, q, rbb', past) →
        ¬QueueGot (wideAfter [.alloc 4, .alloc 4, .put 3]) 2 total q rbb' past) ∧
    ∃ ls, Runs.Run (Move 32) wide ls
        (wideAfter [.alloc 2, .alloc 2, .alloc 2, .alloc 2, .put 3, .put 1, .free 2]) ∧ ∀ total q rbb' past,
      rtRbbBlkQueueGet 32 (wideAfter [.alloc 2, .alloc 2, .alloc 2, .alloc 2, .put 3, .put 1, .free 2]) 8 ⟨none, 0⟩ =
          some (total, q, rbb', past) →
        ¬QueueGot (wideAfter [.alloc 2, .alloc 2, .alloc 2, .alloc 2, .put 3, .put 1, .free 2]) 8 total q rbb' past := by
  refine ⟨?_, ?_, ?_⟩
  · obtain ⟨ls, hr⟩ := run_wide [.alloc 4, .put 3] (by decide)
    refine ⟨ls, hr, fun total q rbb' past hq h => ?_⟩
    have hret : (rtRbbBlkQueueGet 32 (wideAfter [.alloc 4, .put 3]) 8 ⟨none, 0⟩).map (fun x => x.2.2.2) = some true := by
      decide
    rw [hq] at hret
    cases h.inList.symm.trans (Option.some.inj hret)
  · obtain ⟨ls, hr⟩ := run_wide [.alloc 4, .alloc 4, .put 3] (by decide)
    refine ⟨ls, hr, fun total q rbb' past hq h => ?_⟩
    have hret : (rtRbbBlkQueueGet 32 (wideAfter [.alloc 4, .alloc 4, .put 3]) 2 ⟨none, 0⟩).map (fun x => x.1) =
        some 4 := by
      decide
    rw [hq] at hret
    obtain rfl : total = 4 := Option.some.inj hret
    exact absurd h.le_len (by decide)
  · obtain ⟨ls, hr⟩ := run_wide [.alloc 2, .alloc 2, .alloc 2, .alloc 2, .put 3, .put 1, .free 2] (by decide)
    refine ⟨ls, hr, fun total q rbb' past hq h => ?_⟩
    generalize hs : wideAfter [.alloc 2, .alloc 2, .alloc 2, .alloc 2, .put 3, .put 1, .free 2] = s at hq h
    have hret : (rtRbbBlkQueueGet 32 s 8 ⟨none, 0⟩).map
        (fun x => (x.2.1.blocks, x.2.1.blkNum, (x.2.2.1.blkSet 1).status)) = some (some 3, 2, .get) := by
      subst hs
      decide
    have hput : (s.blkSet 1).status = .put ∧ (s.blkSet 3).buf = 0 ∧ (s.blkSet 3).size = 2 ∧ (s.blkSet 1).buf = 4 := by
      subst hs
      decide
    obtain ⟨h1, h2, h3, h4⟩ := hput
    rw [hq] at hret
    obtain ⟨hblocks, hnum, hget⟩ : q.blocks = some 3 ∧ q.blkNum = 2 ∧ (rbb'.blkSet 1).status = .get := by
      simpa using Option.some.inj hret
    obtain ⟨-, ts, -, -, hlen, hhead, hfill, -, -, hout⟩ := h.run
    have hmem : 1 ∈ ts := by
      by_contra hne
      rw [hout 1 hne, h1] at hget
      cases hget
    rw [hnum] at hlen
    obtain ⟨x, y, rfl⟩ := List.length_eq_two.1 hlen
    obtain rfl : 3 = x := Option.some.inj (hblocks.symm.trans (hhead.resolve_left (by simp)))
    obtain rfl : 1 = y := by simpa using hmem
    have hf := hfill (s.blkSet 3).buf (by unfold rtRbbBlkQueueBuf; rw [hblocks]; rfl)
    have hy : (s.blkSet 1).buf = (s.blkSet 3).buf + (s.blkSet 3).size := hf.2.1
    rw [h2, h3, h4] at hy
    cases hy

end RtRbb

end RtThread
