import RtThread.Lib.Bitmap
import RtThread.Kernel.Scheduler

/-!
# The ready queues and their bitmap

`Queues k ex`: the lists, the bitmap and the cached masks of the threads fit together, but for one thread `ex`, which
is in no list and whose state says nothing. Every function that moves a thread takes it out (`Queues.out`,
`Queues.unlink`), changes it, and puts it back (`Queues.insert`, `Queues.enqueue`, `Queues.settle`).
-/

namespace RtThread

open Function (update update_of_ne update_self)

open Bitmap

/-- The bitmap over a family of lists: one level of bits, or two. -/
structure BitsOk (twoLevel : Prop) (group : BitVec 32) (table : Nat → BitVec 8) (L : ListHead → List ThreadId) :
    Prop where
  one : ¬twoLevel → Marks group fun p => L (.ready p) ≠ []
  group : twoLevel → Marks group fun n => table n ≠ 0#8
  table : twoLevel → ∀ n, Marks (table n) fun b => L (.ready (8 * n + b)) ≠ []

namespace BitsOk

variable {two : Prop} {g : BitVec 32} {tb : Nat → BitVec 8} {L L' : ListHead → List ThreadId} {p : Nat}

theorem split_priority (p : Nat) : 8 * (p >>> 3) + (p &&& 7) = p := by
  rw [Nat.shiftRight_eq_div_pow, show (7 : Nat) = 2 ^ 3 - 1 from rfl, Nat.and_two_pow_sub_one_eq_mod]
  exact Nat.div_add_mod p (2 ^ 3)

theorem and_seven_lt (p : Nat) : p &&& 7 < 8 := Nat.lt_of_le_of_lt Nat.and_le_right (by decide)

/-- Bit `p &&& 7` of byte `p >>> 3` stands for priority `p` only. -/
theorem index_ne {n b : Nat} (hb : b < 8) (h : n ≠ p >>> 3 ∨ b ≠ p &&& 7) : 8 * n + b ≠ p := fun e => by
  have := split_priority p
  omega

/-- Only which ready queues are empty matters. -/
theorem congr (h : BitsOk two g tb L) (hL : ∀ q, L' (.ready q) = [] ↔ L (.ready q) = []) : BitsOk two g tb L' where
  one h1 := (h.one h1).congr fun _ _ => not_congr (hL _)
  group := h.group
  table h2 n := (h.table h2 n).congr fun _ _ => not_congr (hL _)

/-- One level: setting the bit of a queue that is no longer empty. -/
theorem set_one (h : BitsOk two g tb L) (h1 : ¬two) (hL : L' (.ready p) ≠ [])
    (hne : ∀ q, q ≠ p → L' (.ready q) = L (.ready q)) : BitsOk two (g ||| 1#32 <<< p) tb L' where
  one _ := (h.one h1).set hL fun j hj => by rw [hne j hj]
  group h2 := absurd h2 h1
  table h2 := absurd h2 h1

/-- One level: clearing the bit of an empty queue. -/
theorem clear_one (h : BitsOk two g tb L) (h1 : ¬two) (hL : L' (.ready p) = [])
    (hne : ∀ q, q ≠ p → L' (.ready q) = L (.ready q)) : BitsOk two (g &&& ~~~(1#32 <<< p)) tb L' where
  one _ := (h.one h1).clear (by simpa using hL) fun j hj => by rw [hne j hj]
  group h2 := absurd h2 h1
  table h2 := absurd h2 h1

/-- The bytes that do not hold the bit of `p` keep their meaning. -/
theorem table_update (h : BitsOk two g tb L) (h2 : two) {v : BitVec 8}
    (hv : Marks v fun b => L' (.ready (8 * (p >>> 3) + b)) ≠ []) (hne : ∀ q, q ≠ p → L' (.ready q) = L (.ready q))
    (n : Nat) : Marks (update tb (p >>> 3) v n) fun b => L' (.ready (8 * n + b)) ≠ [] := by
  by_cases e : n = p >>> 3
  · subst e; rwa [update_self]
  · rw [update_of_ne e]
    exact (h.table h2 n).congr fun b hb => by rw [hne _ (index_ne hb (.inl e))]

/-- The bits of the byte of `p`, without bit `p` itself. -/
theorem byte_ne (hne : ∀ q, q ≠ p → L' (.ready q) = L (.ready q)) (b : Nat) (hb : b ≠ p &&& 7) :
    L' (.ready (8 * (p >>> 3) + b)) ≠ [] ↔ L (.ready (8 * (p >>> 3) + b)) ≠ [] := by
  rw [hne]
  intro e
  have := split_priority p
  omega

/-- Two levels: setting the bits of a queue that is no longer empty. -/
theorem set_two (h : BitsOk two g tb L) (h2 : two) (hL : L' (.ready p) ≠ [])
    (hne : ∀ q, q ≠ p → L' (.ready q) = L (.ready q)) :
    BitsOk two (g ||| 1#32 <<< (p >>> 3))
      (update tb (p >>> 3) (tb (p >>> 3) ||| 1#8 <<< (p &&& 7))) L' := by
  have hb : Marks (tb (p >>> 3) ||| 1#8 <<< (p &&& 7)) fun b => L' (.ready (8 * (p >>> 3) + b)) ≠ [] :=
    (h.table h2 _).set (by rwa [split_priority]) (byte_ne hne)
  refine ⟨fun h1 => absurd h2 h1, fun _ => ?_, fun _ => table_update h h2 hb hne⟩
  refine (h.group h2).set ?_ fun j hj => by rw [update_of_ne hj]
  rw [update_self, hb.ne_zero_iff]
  exact ⟨_, and_seven_lt _, by rwa [split_priority]⟩

/-- Two levels: clearing the bit of an empty queue, and the bit of its byte once that is zero. -/
theorem clear_two (h : BitsOk two g tb L) (h2 : two) (hL : L' (.ready p) = [])
    (hne : ∀ q, q ≠ p → L' (.ready q) = L (.ready q)) {v : BitVec 8}
    (hv : v = tb (p >>> 3) &&& ~~~(1#8 <<< (p &&& 7))) :
    BitsOk two (if v = 0#8 then g &&& ~~~(1#32 <<< (p >>> 3)) else g) (update tb (p >>> 3) v) L' := by
  have hb : Marks v fun b => L' (.ready (8 * (p >>> 3) + b)) ≠ [] := by
    rw [hv]
    exact (h.table h2 _).clear (by rw [split_priority]; simpa using hL) (byte_ne hne)
  refine ⟨fun h1 => absurd h2 h1, fun _ => ?_, fun _ => table_update h h2 hb hne⟩
  split
  · rename_i h0
    refine (h.group h2).clear (by simpa using h0) fun j hj => by rw [update_of_ne hj]
  · rename_i h0
    have hold : tb (p >>> 3) ≠ 0#8 := fun e => h0 (by rw [hv, e]; simp)
    refine (h.group h2).congr fun j _ => ?_
    by_cases e : j = p >>> 3
    · subst e; rw [update_self]; exact iff_of_true h0 hold
    · rw [update_of_ne e]

end BitsOk

/-- The lowest set bit of a word is the least number it marks. -/
theorem rtFfs_marks {w : Nat} (hw : w ≤ 32) {g : BitVec w} {P : Nat → Prop} (h : Marks g P) (hg : g ≠ 0#w) :
    ∃ i < w, rtFfs (g.setWidth 32) = i + 1 ∧ P i ∧ ∀ j < i, ¬P j := by
  have hget (j : Nat) (hj : j < 32) : (g.setWidth 32).toNat.testBit j = g.getLsbD j := by
    change (g.setWidth 32).getLsbD j = _
    simp [hj]
  have hne : g.setWidth 32 ≠ 0#32 := by
    intro e
    obtain ⟨i, hi, hP⟩ := h.ne_zero_iff.1 hg
    have := hget i (by omega)
    rw [e, (h i hi).2 hP] at this
    simp at this
  obtain ⟨i, hi, hffs, hbit, hlow⟩ := rtFfs_spec hne
  rw [hget i hi] at hbit
  have hiw : i < w := BitVec.lt_of_getLsbD hbit
  refine ⟨i, hiw, hffs, (h i hiw).1 hbit, fun j hj hP => ?_⟩
  have := hlow j hj
  rw [hget j (by omega), (h j (by omega)).2 hP] at this
  cases this

namespace BitsOk

variable {two : Prop} {g : BitVec 32} {tb : Nat → BitVec 8} {L : ListHead → List ThreadId}

/-- Two levels: the lowest bits say which is the first queue that is not empty. -/
theorem highest (h : BitsOk two g tb L) (h2 : two) (hg : g ≠ 0#32) :
    ∃ n b, n < 32 ∧ b < 8 ∧ rtFfs g = n + 1 ∧ rtFfs ((tb n).setWidth 32) = b + 1 ∧ L (.ready (8 * n + b)) ≠ [] ∧
      ∀ q < 8 * n + b, L (.ready q) = [] := by
  obtain ⟨n, hn, hffs, hbyte, hlow⟩ := rtFfs_marks (by omega) (h.group h2) hg
  obtain ⟨b, hb, hffs', hne, hlow'⟩ := rtFfs_marks (by omega) (h.table h2 n) hbyte
  refine ⟨n, b, hn, hb, hffs, hffs', hne, fun q hq => ?_⟩
  rw [← split_priority q]
  have hq8 := and_seven_lt q
  have hsplit := split_priority q
  by_contra hne'
  rcases Nat.lt_or_ge (q >>> 3) n with hlt | hge
  · exact hlow _ hlt ((h.table h2 _).ne_zero_iff.2 ⟨_, hq8, hne'⟩)
  · have e : q >>> 3 = n := by omega
    rw [e] at hne' hsplit
    exact hlow' _ (by omega) hne'

/-- Two levels: no bit is set, and all queues are empty. -/
theorem queue_nil (h : BitsOk two g tb L) (h2 : two) (hg : g = 0#32) {q : Nat} (hq : q < 256) : L (.ready q) = [] := by
  by_contra hne
  have hbyte : tb (q >>> 3) ≠ 0#8 := (h.table h2 _).ne_zero_iff.2 ⟨_, and_seven_lt q, by rwa [split_priority]⟩
  have hlt : q >>> 3 < 32 := by
    omega
  exact (h.group h2).ne_zero_iff.2 ⟨_, hlt, hbyte⟩ hg

end BitsOk

namespace Kernel

/-- The masks of a thread are those of its current priority. -/
def Masked (k : Kernel) (x : Thread) : Prop :=
  if k.twoLevel then
    x.number = x.currentPriority >>> 3 ∧ x.numberMask = 1#32 <<< (x.currentPriority >>> 3) ∧
      x.highMask = 1#8 <<< (x.currentPriority &&& 0x07)
  else x.numberMask = 1#32 <<< x.currentPriority

/-- The queues are consistent, but for the thread `ex`. -/
structure Queues (k : Kernel) (ex : Option ThreadId) : Prop where
  wf : Links.Wf k.tlist
  free : ∀ t, ex = some t → Links.Free k.tlist t
  ready : ∀ t p, ex ≠ some t → (t ∈ k.tlist (.ready p) ↔ (k.thread t).stat = .ready ∧ k.prio t = p)
  wait : ∀ t h, ex ≠ some t → h.isWait → t ∈ k.tlist h → k.suspended t
  defunct : ∀ t, ex ≠ some t → t ∈ k.tlist .defunct → (k.thread t).stat = .close
  masked : ∀ t, (k.thread t).stat ≠ .init → (k.thread t).stat ≠ .close → k.Masked (k.thread t)
  prio_lt : ∀ t, k.prio t < k.priorityMax
  init_lt : ∀ t, (k.thread t).initPriority < k.priorityMax
  max_le : k.priorityMax ≤ 256
  bits : BitsOk k.twoLevel k.readyPriorityGroup k.readyTable k.tlist

theorem masked_calcPriorityAttribute (k : Kernel) (x : Thread) : k.Masked (k.calcPriorityAttribute x) := by
  unfold Masked calcPriorityAttribute
  by_cases h : k.twoLevel <;> simp [h]

/-- The part of a thread the queues depend on. -/
def queuePart (x : Thread) : Stat × Nat × Nat × Nat × BitVec 32 × BitVec 8 :=
  (x.stat, x.currentPriority, x.initPriority, x.number, x.numberMask, x.highMask)

theorem Masked.congr {k k' : Kernel} {x y : Thread} (h : k.Masked x) (hxy : queuePart y = queuePart x)
    (hk : k'.priorityMax = k.priorityMax) : k'.Masked y := by
  simp only [queuePart, Prod.mk.injEq] at hxy
  obtain ⟨-, hp, -, hn, hm, hh⟩ := hxy
  simpa only [Masked, twoLevel, hk, hp, hn, hm, hh] using h

namespace Queues

variable {k k' : Kernel} {t : ThreadId} {ex : Option ThreadId} {f : Thread → Thread}

/-! ## Writes that the queues do not see -/

theorem congr (h : k.Queues ex) (hth : ∀ u, queuePart (k'.thread u) = queuePart (k.thread u))
    (hl : k'.tlist = k.tlist) (hk : k'.priorityMax = k.priorityMax)
    (hg : k'.readyPriorityGroup = k.readyPriorityGroup) (ht : k'.readyTable = k.readyTable) : k'.Queues ex := by
  have hs u : (k'.thread u).stat = (k.thread u).stat := congrArg (·.1) (hth u)
  have hp u : k'.prio u = k.prio u := congrArg (·.2.1) (hth u)
  have hi u : (k'.thread u).initPriority = (k.thread u).initPriority := congrArg (·.2.2.1) (hth u)
  refine ⟨?_, ?_, ?_, ?_, ?_, ?_, ?_, ?_, ?_, ?_⟩
  · rw [hl]; exact h.wf
  · rw [hl]; exact h.free
  · intro u p hu; rw [hl, hs, hp]; exact h.ready u p hu
  · intro u d hu hw; rw [hl]; simp only [suspended, hs]; exact h.wait u d hu hw
  · intro u hu; rw [hl, hs]; exact h.defunct u hu
  · intro u hu hc; exact (h.masked u (hs u ▸ hu) (hs u ▸ hc)).congr (hth u) hk
  · intro u; rw [hp, hk]; exact h.prio_lt u
  · intro u; rw [hi, hk]; exact h.init_lt u
  · rw [hk]; exact h.max_le
  · simp only [twoLevel, hk, hg, ht, hl]; exact h.bits

/-- The exempt thread may be written to, if it keeps valid priorities and masks. -/
theorem modThread (h : k.Queues (some t))
    (hm : (f (k.thread t)).stat ≠ .init → (f (k.thread t)).stat ≠ .close → k.Masked (f (k.thread t)))
    (hp : (f (k.thread t)).currentPriority < k.priorityMax)
    (hi : (f (k.thread t)).initPriority < k.priorityMax) : (k.modThread t f).Queues (some t) where
  wf := h.wf
  free := h.free
  ready u p hu := by
    have e : u ≠ t := fun e => hu (by rw [e])
    rw [modThread_tlist, prio, modThread_thread_of_ne e]; exact h.ready u p hu
  wait u d hu hw := by
    have e : u ≠ t := fun e => hu (by rw [e])
    rw [modThread_tlist, suspended, modThread_thread_of_ne e]; exact h.wait u d hu hw
  defunct u hu := by
    have e : u ≠ t := fun e => hu (by rw [e])
    rw [modThread_tlist, modThread_thread_of_ne e]; exact h.defunct u hu
  masked u := by
    by_cases e : u = t
    · subst e; rw [modThread_thread_self]; exact hm
    · rw [modThread_thread_of_ne e]; exact h.masked u
  prio_lt u := by
    by_cases e : u = t
    · subst e; rw [prio, modThread_thread_self]; exact hp
    · rw [prio, modThread_thread_of_ne e]; exact h.prio_lt u
  init_lt u := by
    by_cases e : u = t
    · subst e; rw [modThread_thread_self]; exact hi
    · rw [modThread_thread_of_ne e]; exact h.init_lt u
  max_le := h.max_le
  bits := h.bits

/-- The exempt thread may change its state, if its masks are valid. -/
theorem setStat (h : k.Queues (some t)) (hm : k.Masked (k.thread t)) (s : Stat) :
    (k.modThread t fun x => { x with stat := s }).Queues (some t) :=
  h.modThread (fun _ _ => hm) (h.prio_lt t) (h.init_lt t)

/-! ## Taking a thread out -/

/-- A thread that is in no list may be exempt. -/
theorem open_ (h : k.Queues none) (hf : Links.Free k.tlist t) : k.Queues (some t) where
  wf := h.wf
  free u hu := by rw [← Option.some.inj hu]; exact hf
  ready u p _ := h.ready u p (by simp)
  wait u d _ := h.wait u d (by simp)
  defunct u _ := h.defunct u (by simp)
  masked := h.masked
  prio_lt := h.prio_lt
  init_lt := h.init_lt
  max_le := h.max_le
  bits := h.bits

/-- A thread whose list is given by its state: no state but these is linked. -/
theorem free_of_stat (h : k.Queues none) (hr : (k.thread t).stat ≠ .ready) (hs : k.suspended t = false)
    (hc : (k.thread t).stat ≠ .close) : Links.Free k.tlist t := by
  intro d hmem
  cases d with
  | ready p => exact hr ((h.ready t p (by simp)).1 hmem).1
  | defunct => exact hc (h.defunct t (by simp) hmem)
  | _ => exact absurd (h.wait t _ (by simp) rfl hmem) (by simp [hs])

variable {g : BitVec 32} {tb : Nat → BitVec 8} {xs : List ThreadId}

/-- Unlinking takes a thread out, given that the bitmap follows. -/
theorem out_of (h : k.Queues none) (hb : BitsOk k.twoLevel g tb (Links.remove k.tlist t)) :
    Queues { k with tlist := Links.remove k.tlist t, readyPriorityGroup := g, readyTable := tb } (some t) where
  wf := h.wf.remove t
  free u hu := by rw [← Option.some.inj hu]; exact Links.free_remove _ _
  ready u p hu := by
    have e : u ≠ t := fun e => hu (by rw [e])
    simpa [Links.mem_remove, e] using h.ready u p (by simp)
  wait u d _ hw hmem := h.wait u d (by simp) hw (Links.mem_remove.1 hmem).1
  defunct u _ hmem := h.defunct u (by simp) (Links.mem_remove.1 hmem).1
  masked := h.masked
  prio_lt := h.prio_lt
  init_lt := h.init_lt
  max_le := h.max_le
  bits := hb

/-- `rt_list_remove` on a thread that is not in a ready queue. -/
theorem unlink (h : k.Queues none) (hr : (k.thread t).stat ≠ .ready) :
    Queues { k with tlist := Links.remove k.tlist t } (some t) :=
  h.out_of <| h.bits.congr fun q => by
    rw [Links.remove_of_notMem fun hq => hr ((h.ready t q (by simp)).1 hq).1]

/-- `rt_schedule_remove_thread`, on a thread in any list or none. -/
theorem out (h : k.Queues none) (hm : k.Masked (k.thread t)) : (k.rtScheduleRemoveThread t).Queues (some t) := by
  have hne : ∀ q, q ≠ k.prio t → Links.remove k.tlist t (.ready q) = k.tlist (.ready q) := fun q hq =>
    Links.remove_of_notMem fun hmem => hq ((h.ready t q (by simp)).1 hmem).2.symm
  unfold rtScheduleRemoveThread
  unfold Masked at hm
  dsimp only
  split
  · rename_i he
    by_cases h2 : k.twoLevel
    · rw [if_pos h2] at hm
      obtain ⟨hn, hmask, hh⟩ := hm
      have := h.out_of (h.bits.clear_two h2 he hne rfl)
      simp only [twoLevel, h2, if_true, hn, hmask, hh, update_self] at this ⊢
      split <;> rename_i h0
      · simpa only [h0, if_true] using this
      · simpa only [h0, if_false] using this
    · rw [if_neg h2] at hm
      have := h.out_of (h.bits.clear_one h2 he hne)
      simpa only [twoLevel, h2, if_false, hm] using this
  · rename_i he
    refine h.out_of (h.bits.congr fun q => ?_)
    by_cases e : q = k.prio t
    · subst e
      exact iff_of_false he fun h0 => he (by simp [Links.remove, h0])
    · rw [hne q e]

/-! ## Putting it back -/

/-- A thread that is in no list is back once its state is not `ready`. -/
theorem settle (h : k.Queues (some t)) (hr : (k.thread t).stat ≠ .ready) : k.Queues none where
  wf := h.wf
  free u hu := by simp at hu
  ready u p _ := by
    by_cases e : u = t
    · subst e; exact iff_of_false (h.free _ rfl _) fun hs => hr hs.1
    · exact h.ready u p (by simpa using Ne.symm e)
  wait u d _ hw hmem := by
    by_cases e : u = t
    · subst e; exact absurd hmem (h.free _ rfl _)
    · exact h.wait u d (by simpa using Ne.symm e) hw hmem
  defunct u _ hmem := by
    by_cases e : u = t
    · subst e; exact absurd hmem (h.free _ rfl _)
    · exact h.defunct u (by simpa using Ne.symm e) hmem
  masked := h.masked
  prio_lt := h.prio_lt
  init_lt := h.init_lt
  max_le := h.max_le
  bits := h.bits

/-- Linking the exempt thread anywhere in a wait list or in the defunct list. -/
theorem enqueue (h : k.Queues (some t)) {d : ListHead} (hxs : xs.Perm (t :: k.tlist d))
    (hd_ok : (d.isWait ∧ k.suspended t) ∨ (d = .defunct ∧ (k.thread t).stat = .close)) :
    Queues { k with tlist := update k.tlist d xs } none := by
  have hr : (k.thread t).stat ≠ .ready := by
    rcases hd_ok with ⟨-, hs⟩ | ⟨-, hs⟩ <;> intro e <;> simp [suspended, e, Stat.isSuspend] at hs
  have hq : ∀ q, d ≠ .ready q := by
    rintro q rfl
    rcases hd_ok with ⟨hw, -⟩ | ⟨hw, -⟩ <;> simp [ListHead.isWait] at hw
  have hmem : ∀ d' u, u ∈ update k.tlist d xs d' ↔ u ∈ k.tlist d' ∨ (d' = d ∧ u = t) := by
    intro d' u
    by_cases e : d' = d
    · subst e; simp [hxs.mem_iff, or_comm]
    · simp [e]
  have h0 := h.settle hr
  refine ⟨h.wf.update (h.free t rfl) hxs, by simp, ?_, ?_, ?_, h.masked, h.prio_lt, h.init_lt, h.max_le, ?_⟩
  · intro u p _
    simpa [Ne.symm (hq p)] using h0.ready u p (by simp)
  · intro u d' _ hw hu
    rcases (hmem _ _).1 hu with hu | ⟨rfl, rfl⟩
    · exact h0.wait u d' (by simp) hw hu
    · rcases hd_ok with ⟨-, hs⟩ | ⟨rfl, -⟩
      · exact hs
      · simp [ListHead.isWait] at hw
  · intro u _ hu
    rcases (hmem _ _).1 hu with hu | ⟨rfl, rfl⟩
    · exact h0.defunct u (by simp) hu
    · rcases hd_ok with ⟨hw, -⟩ | ⟨-, hs⟩
      · simp [ListHead.isWait] at hw
      · exact hs
  · exact h.bits.congr fun q => by simp only [update_of_ne (Ne.symm (hq q))]

/-- Linking the exempt thread in the queue of its priority, given that the bitmap follows. -/
theorem link_of (h : k.Queues (some t)) (hr : (k.thread t).stat = .ready)
    (hxs : xs.Perm (t :: k.tlist (.ready (k.prio t))))
    (hb : BitsOk k.twoLevel g tb (update k.tlist (.ready (k.prio t)) xs)) : Queues { k with
      tlist := update k.tlist (.ready (k.prio t)) xs, readyPriorityGroup := g, readyTable := tb } none := by
  have hmem : ∀ d u, u ∈ update k.tlist (.ready (k.prio t)) xs d ↔
      u ∈ k.tlist d ∨ (d = .ready (k.prio t) ∧ u = t) := by
    intro d u
    by_cases e : d = .ready (k.prio t)
    · subst e; simp [hxs.mem_iff, or_comm]
    · simp [e]
  refine ⟨h.wf.update (h.free t rfl) hxs, by simp, ?_, ?_, ?_, h.masked, h.prio_lt, h.init_lt, h.max_le, hb⟩
  · intro u p _
    rw [hmem]
    by_cases e : u = t
    · subst e
      have := h.free _ rfl (.ready p)
      simp only [this, false_or, ListHead.ready.injEq, and_true, hr, true_and]
      exact eq_comm
    · simpa [e] using h.ready u p (by simpa using Ne.symm e)
  · intro u d _ hw hu
    rcases (hmem d u).1 hu with hold | ⟨rfl, -⟩
    · by_cases e : u = t
      · subst e; exact absurd hold (h.free _ rfl d)
      · exact h.wait u d (by simpa using Ne.symm e) hw hold
    · simp [ListHead.isWait] at hw
  · intro u _ hu
    rcases (hmem .defunct u).1 hu with hold | ⟨d, -⟩
    · by_cases e : u = t
      · subst e; exact absurd hold (h.free _ rfl .defunct)
      · exact h.defunct u (by simpa using Ne.symm e) hold
    · simp at d

/-- `rt_schedule_insert_thread`. -/
theorem insert (h : k.Queues (some t)) (hm : k.Masked (k.thread t)) : (k.rtScheduleInsertThread t).Queues none := by
  unfold rtScheduleInsertThread
  split
  · exact (h.setStat hm .running).settle (by simp)
  · have h1 := h.setStat hm .ready
    set k1 := k.modThread t fun x => { x with stat := .ready } with hk1
    have hm1 : k1.Masked (k1.thread t) := by rw [hk1, modThread_thread_self]; exact hm
    have hr : (k1.thread t).stat = .ready := by rw [hk1, modThread_thread_self]
    dsimp only
    have hxs : ∃ xs, xs.Perm (t :: k1.tlist (.ready (k1.prio t))) ∧
        (if (k1.thread t).statYield then
          { k1 with tlist := Links.insertBefore k1.tlist (.ready (k1.thread t).currentPriority) t }
        else { k1 with tlist := Links.insertAfter k1.tlist (.ready (k1.thread t).currentPriority) t }) =
          { k1 with tlist := update k1.tlist (.ready (k1.prio t)) xs } := by
      split
      · exact ⟨_, List.perm_append_singleton _ _, rfl⟩
      · exact ⟨_, .refl _, rfl⟩
    obtain ⟨xs, hperm, hxs⟩ := hxs
    rw [hxs]
    have hL : update k1.tlist (.ready (k1.prio t)) xs (.ready (k1.prio t)) ≠ [] := by
      rw [update_self]
      intro e
      simp [e] at hperm
    have hne : ∀ q, q ≠ k1.prio t →
        update k1.tlist (.ready (k1.prio t)) xs (.ready q) = k1.tlist (.ready q) := fun q hq =>
      update_of_ne (by simpa using hq) _ _
    unfold Masked at hm1
    by_cases h2 : k1.twoLevel
    · rw [if_pos h2] at hm1
      obtain ⟨hn, hmask, hh⟩ := hm1
      simpa only [twoLevel, h2, if_true, hn, hmask, hh] using h1.link_of hr hperm (h1.bits.set_two h2 hL hne)
    · rw [if_neg h2] at hm1
      simpa only [twoLevel, h2, if_false, hm1] using h1.link_of hr hperm (h1.bits.set_one h2 hL hne)

end Queues

end Kernel

end RtThread
