import RtThread.Ipc.Waits
import RtThread.Lib.Singly

/-!
# The two lists of a message queue

The buffers of a message queue are on its free list, on its queue, or off both while a call copies a message.
`MessageQueue.Lists` says what the four links and `entry` are; for each section of the message queue functions, a lemma
says how it changes the lists. `MessageQueue.Carries` says that a buffer has the bytes of a message.
-/

namespace RtThread

namespace MessageQueue

open Singly

variable {x y : MessageQueue} {free bufs : List Nat} {msg msg' size fuel : Nat} {buffer bytes : List (BitVec 8)}
  {urgent : Bool}

/-- The buffers of the free list and of the queue. -/
structure Lists (x : MessageQueue) (free bufs : List Nat) : Prop where
  free : Chain x.next x.msgQueueFree free
  queue : Chain x.next x.msgQueueHead bufs
  tail : x.msgQueueTail = bufs.getLast?
  entry : x.entry = bufs.length

theorem Lists.init (flag : IpcFlag) (msgSize maxMsgs : Nat) :
    Lists (Kernel.rtMqInit flag msgSize maxMsgs) (List.range maxMsgs).reverse [] := by
  have key : ∀ x : MessageQueue, x.msgQueueFree = none →
      ∀ n, let y := (List.range n).foldl (fun q temp => { q with
        next := Function.update q.next temp q.msgQueueFree, msgQueueFree := some temp }) x
      Chain y.next y.msgQueueFree (List.range n).reverse ∧
        y.msgQueueHead = x.msgQueueHead ∧ y.msgQueueTail = x.msgQueueTail ∧ y.entry = x.entry := by
    intro x hx n
    induction n with
    | zero => exact ⟨hx, rfl, rfl, rfl⟩
    | succ n ih =>
      rw [List.range_succ, List.foldl_append, List.reverse_append]
      obtain ⟨hfree, hhead, htail, hentry⟩ := ih
      exact ⟨hfree.cons (by simp), hhead, htail, hentry⟩
  obtain ⟨hfree, hhead, htail, hentry⟩ := key
    { flag := flag, msgSize := msgSize, maxMsgs := maxMsgs, entry := 0, msgQueueHead := none, msgQueueTail := none,
      msgQueueFree := none, next := fun _ => none, content := fun _ _ => 0#8 } rfl maxMsgs
  exact ⟨hfree, hhead, htail, hentry⟩

/-- A buffer goes off the free list. -/
theorem Lists.taken (hl : x.Lists free bufs) (hf : x.msgQueueFree = some msg) :
    ∃ free', free = msg :: free' ∧ (Waits.mqTaken x msg).Lists free' bufs := by
  have hfree := hl.free
  rw [hf] at hfree
  cases free with
  | nil => cases hfree
  | cons z zs =>
    obtain ⟨hz, hzs⟩ := hfree
    cases hz
    exact ⟨zs, rfl, hzs, hl.queue, hl.tail, hl.entry⟩

/-- A message is copied to a buffer that is on neither list. -/
theorem Lists.filled (hl : x.Lists free bufs) (hm : msg ∉ free ++ bufs) :
    (Waits.mqFilled x msg buffer urgent).Lists free bufs := by
  rw [List.mem_append, not_or] at hm
  have hupd {head : Option Nat} {xs : List Nat} (hc : Chain x.next head xs) (hx : msg ∉ xs) :
      Chain (if urgent then x.next else Function.update x.next msg none) head xs := by
    split
    · exact hc
    · exact hc.update hx none
  exact ⟨hupd hl.free hm.1, hupd hl.queue hm.2, hl.tail, hl.entry⟩

/-- The buffers of the queue when `msg` is linked. -/
def insert (bufs : List Nat) (msg : Nat) (urgent : Bool) : List Nat := if urgent then msg :: bufs else bufs ++ [msg]

/-- A buffer is linked; `_rt_mq_send_wait` has cleared its link before. -/
theorem Lists.linked (hl : x.Lists free bufs) (hnd : (free ++ bufs).Nodup) (hm : msg ∉ free ++ bufs)
    (hnull : urgent = false → x.next msg = none) :
    Lists { Kernel.mqLinkMsg x msg urgent with entry := x.entry + 1 } free (insert bufs msg urgent) := by
  rw [List.mem_append, not_or] at hm
  obtain ⟨-, hnd', hdisj⟩ := List.nodup_append.1 hnd
  have htail := hl.tail
  have hhead := hl.queue.head_eq
  cases urgent with
  | true =>
    refine ⟨hl.free.update hm.1 _, hl.queue.cons hm.2, ?_, ?_⟩
    · change x.msgQueueTail.or (some msg) = (msg :: bufs).getLast?
      rw [htail, List.getLast?_cons]
      cases bufs.getLast? <;> rfl
    · change x.entry + 1 = (msg :: bufs).length
      rw [hl.entry, List.length_cons]
  | false =>
    have hentry : x.entry + 1 = (bufs ++ [msg]).length := by
      rw [hl.entry, List.length_append, List.length_singleton]
    have hlast : some msg = (bufs ++ [msg]).getLast? := by simp
    cases ht : x.msgQueueTail with
    | none =>
      rw [ht] at htail
      obtain rfl : bufs = [] := List.getLast?_eq_none_iff.1 htail.symm
      have hnone : x.msgQueueHead = none := hhead
      refine ⟨?_, ?_, hlast, hentry⟩
      · simp only [Kernel.mqLinkMsg, ht, Bool.false_eq_true, if_false]
        exact hl.free
      · simp only [Kernel.mqLinkMsg, ht, hnone, Bool.false_eq_true, if_false]
        exact ⟨rfl, hnull rfl⟩
    | some tail =>
      rw [ht] at htail
      have hmem : tail ∈ bufs := List.mem_of_getLast? htail.symm
      have hout : tail ∉ free := fun h => hdisj _ h _ hmem rfl
      have hsome : x.msgQueueHead.or (some msg) = x.msgQueueHead := by
        rw [hhead]
        cases bufs with
        | nil => cases hmem
        | cons z zs => rfl
      refine ⟨?_, ?_, hlast, hentry⟩
      · simp only [Kernel.mqLinkMsg, ht, Bool.false_eq_true, if_false]
        exact hl.free.update hout _
      · simp only [Kernel.mqLinkMsg, ht, hsome, Bool.false_eq_true, if_false]
        exact hl.queue.snoc hnd' htail.symm hm.2 (hnull rfl)

/-- The first message goes off the queue. -/
theorem Lists.detached (hl : x.Lists free bufs) (hnd : bufs.Nodup) (hh : x.msgQueueHead = some msg) :
    ∃ bufs', bufs = msg :: bufs' ∧ (Waits.mqDetached x msg).Lists free bufs' := by
  have hqueue := hl.queue
  rw [hh] at hqueue
  cases bufs with
  | nil => cases hqueue
  | cons z zs =>
    obtain ⟨hz, hzs⟩ := hqueue
    cases hz
    refine ⟨zs, rfl, hl.free, hzs, ?_, ?_⟩
    · change (if x.msgQueueTail = some msg then none else x.msgQueueTail) = zs.getLast?
      rw [hl.tail]
      cases zs with
      | nil => simp
      | cons w ws =>
        rw [List.getLast?_cons_cons, if_neg]
        intro hw
        exact (List.nodup_cons.1 hnd).1 (List.mem_of_getLast? hw)
    · change x.entry - 1 = zs.length
      rw [hl.entry, List.length_cons, Nat.add_sub_cancel]

/-- A buffer goes back on the free list. -/
theorem Lists.freed (hl : x.Lists free bufs) (hm : msg ∉ free ++ bufs) :
    (Waits.mqFreed x msg).Lists (msg :: free) bufs := by
  rw [List.mem_append, not_or] at hm
  exact ⟨hl.free.cons hm.1, hl.queue.update hm.2 _, hl.tail, hl.entry⟩

/-- All messages go to the free list. -/
theorem Lists.released (hf : Chain x.next x.msgQueueFree free) (hq : Chain x.next x.msgQueueHead bufs)
    (ht : x.msgQueueTail = bufs.getLast?) (hnd : (free ++ bufs).Nodup) (hx : Kernel.mqReleaseAll fuel x = some y) :
    Lists { y with entry := 0 } (bufs.reverse ++ free) [] ∧ ∀ m, m ∉ bufs → y.next m = x.next m := by
  induction fuel generalizing x free bufs with
  | zero =>
    unfold Kernel.mqReleaseAll at hx
    split at hx
    · rename_i hnone
      cases hx
      rw [hnone] at hq
      cases bufs with
      | nil => exact ⟨⟨hf, hnone, ht, rfl⟩, fun _ _ => rfl⟩
      | cons z zs => cases hq.1
    · cases hx
  | succ fuel ih =>
    unfold Kernel.mqReleaseAll at hx
    split at hx
    · rename_i hnone
      cases hx
      rw [hnone] at hq
      cases bufs with
      | nil => exact ⟨⟨hf, hnone, ht, rfl⟩, fun _ _ => rfl⟩
      | cons z zs => cases hq.1
    · rename_i msg hsome
      rw [hsome] at hq
      cases bufs with
      | nil => cases hq
      | cons z zs =>
        obtain ⟨hz, hzs⟩ := hq
        cases hz
        have hperm : (free ++ msg :: zs).Perm (msg :: free ++ zs) := List.perm_middle
        have hnd' := hperm.nodup_iff.1 hnd
        have hout : msg ∉ free ++ zs := (List.nodup_cons.1 hnd').1
        rw [List.mem_append, not_or] at hout
        have hlast : (if x.msgQueueTail = some msg then none else x.msgQueueTail) = zs.getLast? := by
          rw [ht]
          cases zs with
          | nil => simp
          | cons w ws =>
            rw [List.getLast?_cons_cons, if_neg]
            intro hw
            exact hout.2 (List.mem_of_getLast? hw)
        obtain ⟨hl, hnext⟩ := ih (hf.cons hout.1) (hzs.update hout.2 _) hlast hnd' hx
        refine ⟨?_, fun m hm => ?_⟩
        · rw [List.reverse_cons, List.append_assoc]
          exact hl
        · rw [List.mem_cons, not_or] at hm
          rw [hnext m hm.2]
          exact Function.update_of_ne hm.1 _ _

/-- The loop of `rt_mq_control` ends after one turn for every message. -/
theorem isSome_mqReleaseAll (hq : Chain x.next x.msgQueueHead bufs) (hnd : bufs.Nodup) (hf : bufs.length ≤ fuel) :
    (Kernel.mqReleaseAll fuel x).isSome := by
  induction fuel generalizing x bufs with
  | zero =>
    obtain rfl : bufs = [] := List.length_eq_zero_iff.1 (Nat.le_zero.1 hf)
    have hnone : x.msgQueueHead = none := hq
    simp [Kernel.mqReleaseAll, hnone]
  | succ fuel ih =>
    unfold Kernel.mqReleaseAll
    split
    · rfl
    · rename_i msg hsome
      rw [hsome] at hq
      cases bufs with
      | nil => cases hq
      | cons z zs =>
        obtain ⟨hz, hzs⟩ := hq
        cases hz
        obtain ⟨hout, hnd'⟩ := List.nodup_cons.1 hnd
        exact ih (hzs.update hout _) hnd' (Nat.le_of_succ_le_succ hf)

theorem mqReleaseAll_content (hx : Kernel.mqReleaseAll fuel x = some y) : y.content = x.content := by
  induction fuel generalizing x with
  | zero =>
    unfold Kernel.mqReleaseAll at hx
    split at hx
    · rw [← Option.some.inj hx]
    · cases hx
  | succ fuel ih =>
    unfold Kernel.mqReleaseAll at hx
    split at hx
    · rw [← Option.some.inj hx]
    · have h1 := ih hx
      exact h1

/-! ## Bytes -/

/-- The buffer has the bytes of the message. -/
structure Carries (x : MessageQueue) (msg : Nat) (bytes : List (BitVec 8)) : Prop where
  length_le : bytes.length ≤ x.msgSize
  content : ∀ i v, bytes[i]? = some v → x.content msg i = v

theorem Carries.congr (hc : x.Carries msg bytes) (hs : y.msgSize = x.msgSize)
    (hcontent : y.content msg = x.content msg) : y.Carries msg bytes :=
  ⟨by rw [hs]; exact hc.length_le, by rw [hcontent]; exact hc.content⟩

theorem carries_filled (hs : buffer.length ≤ x.msgSize) : (Waits.mqFilled x msg buffer urgent).Carries msg buffer := by
  refine ⟨hs, fun i v hv => ?_⟩
  change Function.update x.content msg _ msg i = v
  rw [Function.update_self, hv]
  rfl

/-- The bytes of the message are received, as many as the receiver asks for. -/
theorem Carries.mqBytes (hc : x.Carries msg bytes) (size : Nat) :
    (Kernel.mqBytes x msg size).take bytes.length = bytes.take size := by
  have hlen := hc.length_le
  have hmin : (if x.msgSize < size then x.msgSize else size) = min x.msgSize size := by split <;> omega
  apply List.ext_getElem?
  intro i
  rw [List.getElem?_take, List.getElem?_take, Kernel.mqBytes, List.getElem?_map, hmin]
  by_cases hi : i < bytes.length
  · have hget : bytes[i]? = some bytes[i] := List.getElem?_eq_getElem hi
    rw [if_pos hi]
    by_cases hs : i < size
    · rw [if_pos hs, List.getElem?_range (by omega), hget, Option.map_some, hc.content i _ hget]
    · rw [if_neg hs, List.getElem?_eq_none (by rw [List.length_range]; omega)]
      rfl
  · rw [if_neg hi, List.getElem?_eq_none (by omega)]
    split <;> rfl

theorem Carries.take_mqBytes (hc : x.Carries msg bytes) (size : Nat) :
    (Kernel.mqBytes x msg size).take bytes.length = bytes.take (Kernel.mqBytes x msg size).length := by
  have hlen := hc.length_le
  rw [hc.mqBytes, List.take_eq_take_iff, Kernel.mqBytes, List.length_map, List.length_range]
  split <;> omega

end MessageQueue

end RtThread
