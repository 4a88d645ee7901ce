import RtThread.Drivers.RingBuffer
import RtThread.Lib.Circular
import RtThread.Lib.Fifo

/-!
# The ring buffer is a queue of bytes

The write index stands as many bytes after the read index as the buffer holds, around the pool and its mirror (`Holds`).
Every function moves one index or both by what it puts, gets or drops (`Moved`), and so does to the bytes what `Queued`
says.
-/

namespace RtThread

namespace RtRingbuffer

/-- What a call does to a queue of at most `cap` bytes. -/
inductive Queued (cap : Nat) (q : List (BitVec 8)) : Op → Ret → List (BitVec 8) → Prop
  | put (ptr length) :
    Queued cap q (.put ptr length) (.size (min length (cap - q.length))) (Fifo.put cap q (bytes ptr length))
  | putForce (ptr length) :
    Queued cap q (.putForce ptr length) (.size (min length cap)) (Fifo.force cap q (bytes ptr length))
  | putchar (ch) : Queued cap q (.putchar ch) (.size (min 1 (cap - q.length))) (Fifo.put cap q [ch])
  | putcharForce (ch) : Queued cap q (.putcharForce ch) (.size 1) (Fifo.force cap q [ch])
  | get {ptr length ptr'} (hb : bytes ptr' (min length q.length) = q.take length)
      (hp : ∀ i, min length q.length ≤ i → ptr' i = ptr i) :
    Queued cap q (.get ptr length) (.got (min length q.length) ptr') (q.drop length)
  | getcharNone {ch} (hq : q = []) : Queued cap q (.getchar ch) (.char 0 ch) []
  | getchar {ch x xs} (hq : q = x :: xs) : Queued cap q (.getchar ch) (.char 1 x) xs
  /-- The oldest bytes are read, at least one if there is one. -/
  | peek {xs ys} (hq : q = xs ++ ys) (hx : xs = [] → q = []) : Queued cap q .peek (.peeked xs) ys

/-- The calls of a list on the queue. -/
inductive QueuedRun (cap : Nat) : List (BitVec 8) → List Op → List Ret → List (BitVec 8) → Prop
  | nil (q) : QueuedRun cap q [] [] q
  | cons {q q' q'' op ret ops rets} (hc : Queued cap q op ret q') (hr : QueuedRun cap q' ops rets q'') :
    QueuedRun cap q (op :: ops) (ret :: rets) q''

/-- The buffer holds the bytes of `q`: the two indexes are that many bytes apart, around the mirror. -/
structure Holds (rb : RtRingbuffer) (q : List (BitVec 8)) : Prop where
  size_lt : rb.bufferSize < 2 ^ 31
  read_lt : rb.readIndex < rb.bufferSize
  write_lt : rb.writeIndex < rb.bufferSize
  length_le : q.length ≤ rb.bufferSize
  apart : rb.readIndex + q.length = rb.writeIndex + if rb.readMirror = rb.writeMirror then 0 else rb.bufferSize
  content : q = Circular.content rb.bufferPtr rb.bufferSize rb.readIndex q.length


variable {rb : RtRingbuffer} {q : List (BitVec 8)} {cap n d : Nat} {m m' : Bool} {i i' : Nat}
  {pool pool' ptr f : Nat → BitVec 8}

/-! ## The indexes -/

/-- An index moves by `n` bytes: to the other side of the mirror if it passes the end of the pool. -/
def Moved (cap : Nat) (m : Bool) (i n : Nat) (m' : Bool) (i' : Nat) : Prop :=
  i' < cap ∧ ((m' = m ∧ i' = i + n) ∨ (m' = !m ∧ i' + cap = i + n))

theorem moved_near (hc : cap < 2 ^ 31) (hn : n < cap - i) : Moved cap m i n m (index31 (i + n)) := by
  have e : index31 (i + n) = i + n := Nat.mod_eq_of_lt (by omega)
  rw [e]
  exact ⟨by omega, Or.inl ⟨rfl, rfl⟩⟩

theorem moved_wrap (hc : cap < 2 ^ 31) (hi : i < cap) (hn : cap - i ≤ n) (hle : n ≤ cap) :
    Moved cap m i n (!m) (index31 (n - (cap - i))) := by
  have e : index31 (n - (cap - i)) = n - (cap - i) := Nat.mod_eq_of_lt (by omega)
  exact ⟨by omega, Or.inr ⟨rfl, by omega⟩⟩

/-- One byte, as `putchar` and `getchar` move. -/
theorem moved_one_wrap (hi : i < cap) (he : i = cap - 1) : Moved cap m i 1 (!m) 0 :=
  ⟨by omega, Or.inr ⟨rfl, by omega⟩⟩

namespace Holds

section

variable (h : rb.Holds q)

include h

theorem pos : 0 < rb.bufferSize := by
  have := h.read_lt
  omega

theorem write_eq : rb.writeIndex = (rb.readIndex + q.length) % rb.bufferSize := by
  have hap := h.apart
  have hw := h.write_lt
  rw [hap]
  split
  · rw [Nat.add_zero, Nat.mod_eq_of_lt hw]
  · rw [Nat.add_mod_right, Nat.mod_eq_of_lt hw]

/-- `rt_ringbuffer_data_len` is the number of the bytes. -/
theorem dataLen : rtRingbufferDataLen rb = q.length := by
  have hap := h.apart
  have hle := h.length_le
  unfold rtRingbufferDataLen rtRingbufferStatus
  by_cases hi : rb.readIndex = rb.writeIndex
  · rw [if_pos hi]
    by_cases hm : rb.readMirror = rb.writeMirror
    · rw [if_pos hm]
      rw [if_pos hm] at hap
      change 0 = q.length
      omega
    · rw [if_neg hm]
      rw [if_neg hm] at hap
      change rb.bufferSize = q.length
      omega
  · rw [if_neg hi]
    change (if rb.writeIndex > rb.readIndex then rb.writeIndex - rb.readIndex
      else rb.bufferSize - (rb.readIndex - rb.writeIndex)) = q.length
    split_ifs at hap ⊢ <;> omega

theorem spaceLen : rtRingbufferSpaceLen rb = rb.bufferSize - q.length := by
  rw [rtRingbufferSpaceLen, h.dataLen]

/-- The buffer is full when the status says so. -/
theorem status_full : rtRingbufferStatus rb = .full ↔ q.length = rb.bufferSize := by
  have hap := h.apart
  have hw := h.write_lt
  unfold rtRingbufferStatus
  split_ifs at hap ⊢ <;> simp <;> omega

/-- Bytes are written, and the write index moves. -/
theorem append (hn : q.length + n ≤ rb.bufferSize)
    (hw : Circular.Written rb.bufferPtr pool' rb.bufferSize rb.writeIndex n f)
    (hm : Moved rb.bufferSize rb.writeMirror rb.writeIndex n m' i') :
    Holds { rb with bufferPtr := pool', writeMirror := m', writeIndex := i' } (q ++ bytes f n) := by
  have hlen : (q ++ bytes f n).length = q.length + n := by simp [bytes]
  have hap := h.apart
  have hr := h.read_lt
  refine ⟨h.size_lt, hr, hm.1, hlen.trans_le hn, ?_, ?_⟩
  · change rb.readIndex + _ = i' + if rb.readMirror = m' then 0 else rb.bufferSize
    obtain ⟨hi, ⟨rfl, he⟩ | ⟨rfl, he⟩⟩ := hm
    · split_ifs at hap ⊢ <;> omega
    · by_cases hmir : rb.readMirror = rb.writeMirror
      · have hne : rb.readMirror ≠ !rb.writeMirror := by simp [hmir]
        rw [if_pos hmir] at hap
        rw [if_neg hne]
        omega
      · rw [if_neg hmir] at hap
        omega
  · rw [hlen]
    rw [h.write_eq] at hw
    have hc := h.content
    have happ := Circular.content_written h.read_lt hn hw
    rw [← hc] at happ
    exact happ.symm

/-- The read index moves. -/
theorem dropped (hn : n ≤ q.length) (hm : Moved rb.bufferSize rb.readMirror rb.readIndex n m' i') :
    Holds { rb with readMirror := m', readIndex := i' } (q.drop n) := by
  have hap := h.apart
  have hw := h.write_lt
  have hle := h.length_le
  refine ⟨h.size_lt, hm.1, hw, by rw [List.length_drop]; exact (Nat.sub_le _ _).trans hle, ?_, ?_⟩
  · change i' + _ = rb.writeIndex + if m' = rb.writeMirror then 0 else rb.bufferSize
    rw [List.length_drop]
    obtain ⟨hi, ⟨rfl, he⟩ | ⟨rfl, he⟩⟩ := hm
    · split_ifs at hap ⊢ <;> omega
    · by_cases hmir : rb.readMirror = rb.writeMirror
      · rw [if_pos hmir] at hap
        omega
      · have heq : (!rb.readMirror) = rb.writeMirror := by
          revert hmir
          cases rb.readMirror <;> cases rb.writeMirror <;> decide
        rw [if_neg hmir] at hap
        rw [if_pos heq]
        omega
  · have hi : i' = (rb.readIndex + n) % rb.bufferSize := by
      obtain ⟨hi, ⟨-, he⟩ | ⟨-, he⟩⟩ := hm
      · rw [← he, Nat.mod_eq_of_lt hi]
      · rw [← he, Nat.add_mod_right, Nat.mod_eq_of_lt hi]
    have hc := h.content
    rw [List.length_drop, hi, ← Circular.content_drop hn, ← hc]

end

end Holds

/-! ## The bytes -/

variable (pool ptr) in
theorem written_near (hn : n < cap - i) : Circular.Written pool (rtMemcpy pool i ptr 0 n) cap i n ptr := by
  constructor
  · intro j hj
    rw [Nat.mod_eq_of_lt (by omega), rtMemcpy, if_pos (by omega), Nat.zero_add, Nat.add_sub_cancel_left]
  · intro k hk
    unfold rtMemcpy
    rw [if_neg]
    intro hik
    apply hk (k - i) (by omega)
    rw [Nat.mod_eq_of_lt (by omega)]
    omega

variable (ptr) in
theorem written_wrap (hi : rb.writeIndex < rb.bufferSize) (hn : rb.bufferSize - rb.writeIndex ≤ n)
    (hle : n ≤ rb.bufferSize) :
    Circular.Written rb.bufferPtr (rb.wrapCopy ptr n) rb.bufferSize rb.writeIndex n ptr := by
  constructor
  · intro j hj
    rw [Circular.add_mod hi (by omega)]
    unfold wrapCopy rtMemcpy
    split_ifs
    · omega
    · congr 1
      omega
    · omega
    · congr 1
      omega
    · omega
    · omega
  · intro k hk
    have hout : ¬(rb.writeIndex ≤ k ∧ k < rb.bufferSize) := by
      intro hik
      apply hk (k - rb.writeIndex) (by omega)
      rw [Nat.mod_eq_of_lt (by omega)]
      omega
    have hlow : ¬k < n - (rb.bufferSize - rb.writeIndex) := by
      intro hkn
      apply hk (k + (rb.bufferSize - rb.writeIndex)) (by omega)
      rw [Circular.add_mod hi (by omega)]
      split_ifs <;> omega
    unfold wrapCopy rtMemcpy
    rw [if_neg (by omega), if_neg (by omega)]

theorem written_one (hi : i < cap) {ch : BitVec 8} :
    Circular.Written pool (Function.update pool i ch) cap i 1 fun _ => ch := by
  constructor
  · intro j hj
    rw [Nat.lt_one_iff.1 hj, Nat.add_zero, Nat.mod_eq_of_lt hi, Function.update_self]
  · intro k hk
    have hne := hk 0 Nat.one_pos
    rw [Nat.add_zero, Nat.mod_eq_of_lt hi] at hne
    exact Function.update_of_ne (Ne.symm hne) _ _

@[simp] theorem length_bytes : (bytes ptr n).length = n := by simp [bytes]

theorem bytes_one {ch : BitVec 8} : bytes (fun _ => ch) 1 = [ch] := rfl

theorem take_bytes : (bytes ptr n).take d = bytes ptr (min d n) := by
  rw [bytes, bytes, ← List.map_take, List.take_range]

/-- The last bytes of a block. -/
theorem bytes_split (hd : d ≤ n) : bytes ptr n = bytes ptr (n - d) ++ bytes (fun j => ptr (n - d + j)) d := by
  have e : n = n - d + d := by omega
  conv_lhs => rw [e]
  rw [bytes, List.range_add, List.map_append, List.map_map]
  rfl

/-- The bytes that are got. -/
theorem Holds.bytes_take (h : rb.Holds q) (hn : n ≤ q.length)
    (hp : ∀ j < n, ptr j = rb.bufferPtr ((rb.readIndex + j) % rb.bufferSize)) : bytes ptr n = q.take n := by
  have hc := h.content
  rw [hc, Circular.content_take hn]
  apply List.map_congr_left
  intro j hj
  exact hp j (List.mem_range.1 hj)

/-! ## The functions -/

theorem call_bufferSize (rb : RtRingbuffer) (op : Op) : (rb.call op).2.bufferSize = rb.bufferSize := by
  cases op <;> unfold RtRingbuffer.call
  · unfold rtRingbufferPut
    dsimp only
    split_ifs <;> rfl
  · unfold rtRingbufferPutForce
    dsimp only
    split_ifs <;> rfl
  · unfold rtRingbufferPutchar
    dsimp only
    split_ifs <;> rfl
  · unfold rtRingbufferPutcharForce
    dsimp only
    split_ifs <;> rfl
  · unfold rtRingbufferGet
    dsimp only
    split_ifs <;> rfl
  · unfold rtRingbufferGetchar
    split_ifs <;> rfl
  · unfold rtRingbufferPeek
    dsimp only
    split_ifs <;> rfl

theorem calls_bufferSize (rb : RtRingbuffer) (ops : List Op) : (rb.calls ops).2.bufferSize = rb.bufferSize := by
  induction ops generalizing rb with
  | nil => rfl
  | cons op ops ih => exact (ih _).trans (call_bufferSize rb op)

namespace Holds

variable {length : Nat} {ch : BitVec 8}

variable (ptr length) in
theorem put (h : rb.Holds q) :
    (rtRingbufferPut rb ptr length).1 = min length (rb.bufferSize - q.length) ∧
      (rtRingbufferPut rb ptr length).2.Holds (Fifo.put rb.bufferSize q (bytes ptr length)) := by
  have hw := h.write_lt
  rw [Fifo.put, take_bytes]
  unfold rtRingbufferPut
  rw [h.spaceLen]
  by_cases h0 : rb.bufferSize - q.length = 0
  · rw [if_pos h0, h0]
    simpa [bytes] using h
  rw [if_neg h0]
  have hn : (if rb.bufferSize - q.length < length then rb.bufferSize - q.length else length) =
      min (rb.bufferSize - q.length) length := by
    split_ifs <;> omega
  rw [hn, Nat.min_comm length]
  generalize hm : min (rb.bufferSize - q.length) length = n
  have hfit : q.length + n ≤ rb.bufferSize := by omega
  by_cases hnear : rb.bufferSize - rb.writeIndex > n
  · rw [if_pos hnear]
    exact ⟨rfl, h.append hfit (written_near _ _ hnear) (moved_near h.size_lt hnear)⟩
  · rw [if_neg hnear]
    have hfar : rb.bufferSize - rb.writeIndex ≤ n := by omega
    exact ⟨rfl, h.append hfit (written_wrap _ hw hfar (by omega)) (moved_wrap h.size_lt hw hfar (by omega))⟩

/-- The oldest bytes make room for `n` more. -/
theorem force (h : rb.Holds q) (hn : n ≤ rb.bufferSize) (hfull : rb.bufferSize < q.length + n)
    (hw : Circular.Written rb.bufferPtr pool' rb.bufferSize rb.writeIndex n f)
    (hm : Moved rb.bufferSize rb.writeMirror rb.writeIndex n m' i') :
    Holds { rb with
      bufferPtr := pool'
      writeMirror := m'
      writeIndex := i'
      readMirror := if m' = rb.writeMirror ∨ rb.readIndex < i' then rb.readMirror else !rb.readMirror
      readIndex := i' } (Fifo.force rb.bufferSize q (bytes f n)) := by
  have hap := h.apart
  have hle := h.length_le
  rw [Fifo.force_eq (by rw [length_bytes]; exact hn), length_bytes]
  have hmoved : Moved rb.bufferSize rb.readMirror rb.readIndex (q.length + n - rb.bufferSize)
      (if m' = rb.writeMirror ∨ rb.readIndex < i' then rb.readMirror else !rb.readMirror) i' := by
    refine ⟨hm.1, ?_⟩
    obtain ⟨hi, ⟨rfl, he⟩ | ⟨rfl, he⟩⟩ := hm
    · rw [if_pos (Or.inl rfl)]
      refine Or.inl ⟨rfl, ?_⟩
      split_ifs at hap <;> omega
    · by_cases hlt : rb.readIndex < i'
      · rw [if_pos (Or.inr hlt)]
        refine Or.inl ⟨rfl, ?_⟩
        split_ifs at hap <;> omega
      · rw [if_neg (by simp [hlt])]
        refine Or.inr ⟨rfl, ?_⟩
        split_ifs at hap <;> omega
  have hdropped := h.dropped (by omega) hmoved
  exact hdropped.append (by rw [List.length_drop]; change _ ≤ rb.bufferSize; omega) hw hm

variable (ptr length) in
theorem putForce (h : rb.Holds q) :
    (rtRingbufferPutForce rb ptr length).1 = min length rb.bufferSize ∧
      (rtRingbufferPutForce rb ptr length).2.Holds (Fifo.force rb.bufferSize q (bytes ptr length)) := by
  have hle := h.length_le
  have hw := h.write_lt
  unfold rtRingbufferPutForce
  rw [h.spaceLen]
  have hforce : Fifo.force rb.bufferSize q (bytes ptr length) = Fifo.force rb.bufferSize q
      (bytes (if length > rb.bufferSize then fun i => ptr (length - rb.bufferSize + i) else ptr)
        (if length > rb.bufferSize then rb.bufferSize else length)) := by
    split_ifs with hlong
    · rw [bytes_split (Nat.le_of_lt hlong)]
      exact Fifo.force_append (by rw [length_bytes])
    · rfl
  have hmin : (if length > rb.bufferSize then rb.bufferSize else length) = min length rb.bufferSize := by
    split_ifs <;> omega
  rw [hforce, hmin]
  generalize (if length > rb.bufferSize then fun i => ptr (length - rb.bufferSize + i) else ptr) = src
  generalize hn : min length rb.bufferSize = n
  have hnle : n ≤ rb.bufferSize := by omega
  by_cases hnear : rb.bufferSize - rb.writeIndex > n
  · rw [if_pos hnear]
    refine ⟨rfl, ?_⟩
    dsimp only
    have hwr := written_near rb.bufferPtr src hnear
    have hmv := moved_near (m := rb.writeMirror) h.size_lt hnear
    by_cases hfull : n > rb.bufferSize - q.length
    · have h1 := h.force hnle (by omega) hwr hmv
      rw [if_pos (Or.inl rfl)] at h1
      rw [if_pos hfull]
      exact h1
    · rw [if_neg hfull, Fifo.force_of_fit (by rw [length_bytes]; omega)]
      exact h.append (by omega) hwr hmv
  · rw [if_neg hnear]
    refine ⟨rfl, ?_⟩
    dsimp only
    have hfar : rb.bufferSize - rb.writeIndex ≤ n := by omega
    have hwr := written_wrap src hw hfar hnle
    have hmv := moved_wrap (m := rb.writeMirror) h.size_lt hw hfar hnle
    by_cases hfull : n > rb.bufferSize - q.length
    · have h1 := h.force hnle (by omega) hwr hmv
      rw [if_pos hfull]
      convert h1 using 2
      by_cases hlt : index31 (n - (rb.bufferSize - rb.writeIndex)) ≤ rb.readIndex
      · rw [if_pos hlt, if_neg (by simp; omega)]
      · rw [if_neg hlt, if_pos (Or.inr (by omega))]
    · rw [if_neg hfull, Fifo.force_of_fit (by rw [length_bytes]; omega)]
      exact h.append (by omega) hwr hmv

variable (ch) in
theorem putchar (h : rb.Holds q) :
    (rtRingbufferPutchar rb ch).1 = min 1 (rb.bufferSize - q.length) ∧
      (rtRingbufferPutchar rb ch).2.Holds (Fifo.put rb.bufferSize q [ch]) := by
  have hw := h.write_lt
  unfold rtRingbufferPutchar
  rw [h.spaceLen]
  by_cases h0 : rb.bufferSize - q.length = 0
  · rw [if_pos h0, Fifo.put, h0]
    simpa using h
  have h1 : min 1 (rb.bufferSize - q.length) = 1 := by omega
  have hput : Fifo.put rb.bufferSize q [ch] = q ++ bytes (fun _ => ch) 1 := by
    rw [Fifo.put, ← bytes_one, take_bytes, Nat.min_comm, h1]
  rw [if_neg h0, h1, hput]
  dsimp only
  split_ifs with hlast
  · exact ⟨rfl, h.append (by omega) (written_one hw) (moved_one_wrap hw hlast)⟩
  · exact ⟨rfl, h.append (by omega) (written_one hw) (moved_near h.size_lt (by omega))⟩

variable (ch) in
theorem putcharForce (h : rb.Holds q) :
    (rtRingbufferPutcharForce rb ch).1 = 1 ∧
      (rtRingbufferPutcharForce rb ch).2.Holds (Fifo.force rb.bufferSize q [ch]) := by
  have hle := h.length_le
  have hw := h.write_lt
  unfold rtRingbufferPutcharForce
  rw [← bytes_one]
  dsimp only
  have hwr : Circular.Written rb.bufferPtr (Function.update rb.bufferPtr rb.writeIndex ch) rb.bufferSize rb.writeIndex 1
      fun _ => ch := written_one hw
  by_cases hfull : q.length = rb.bufferSize
  · have hst := h.status_full.2 hfull
    split_ifs with hlast
    · refine ⟨rfl, ?_⟩
      have h1 := h.force (by omega) (by omega) hwr (moved_one_wrap (m := rb.writeMirror) hw hlast)
      rw [if_neg (by simp)] at h1
      exact h1
    · refine ⟨rfl, ?_⟩
      have h1 := h.force (by omega) (by omega) hwr (moved_near (m := rb.writeMirror) h.size_lt (by omega))
      rw [if_pos (Or.inl rfl)] at h1
      exact h1
  · have hst : rtRingbufferStatus rb ≠ .full := fun e => hfull (h.status_full.1 e)
    rw [if_neg hst, if_neg hst, Fifo.force_of_fit (by rw [length_bytes]; omega)]
    split_ifs with hlast
    · exact ⟨rfl, h.append (by omega) hwr (moved_one_wrap hw hlast)⟩
    · exact ⟨rfl, h.append (by omega) hwr (moved_near h.size_lt (by omega))⟩

variable (ptr length) in
theorem get (h : rb.Holds q) :
    (rtRingbufferGet rb ptr length).1 = min length q.length ∧
      (∀ j < min length q.length,
        (rtRingbufferGet rb ptr length).2.1 j = rb.bufferPtr ((rb.readIndex + j) % rb.bufferSize)) ∧
      (∀ j, min length q.length ≤ j → (rtRingbufferGet rb ptr length).2.1 j = ptr j) ∧
      (rtRingbufferGet rb ptr length).2.2.Holds (q.drop length) := by
  have hle := h.length_le
  have hr := h.read_lt
  unfold rtRingbufferGet
  rw [h.dataLen]
  by_cases h0 : q.length = 0
  · have hq := List.length_eq_zero_iff.1 h0
    rw [if_pos h0, h0, Nat.min_zero]
    refine ⟨rfl, fun j hj => absurd hj (Nat.not_lt_zero j), fun _ _ => rfl, ?_⟩
    rw [hq] at h ⊢
    simpa using h
  have hmin : (if q.length < length then q.length else length) = min length q.length := by split_ifs <;> omega
  have hdrop : q.drop length = q.drop (min length q.length) := by
    rw [List.drop_eq_drop_iff]
    omega
  rw [if_neg h0, hmin, hdrop]
  generalize hn : min length q.length = n
  by_cases hnear : rb.bufferSize - rb.readIndex > n
  · rw [if_pos hnear]
    refine ⟨rfl, fun j hj => ?_, fun j hj => ?_, h.dropped (by omega) (moved_near h.size_lt hnear)⟩
    · rw [Nat.mod_eq_of_lt (by omega)]
      exact if_pos (by omega)
    · exact if_neg (by omega)
  · rw [if_neg hnear]
    refine ⟨rfl, fun j hj => ?_, fun j hj => ?_,
      h.dropped (by omega) (moved_wrap h.size_lt hr (by omega) (by omega))⟩
    · rw [Circular.add_mod hr (by omega)]
      unfold rtMemcpy
      dsimp only
      by_cases hfar : rb.bufferSize - rb.readIndex ≤ j
      · rw [if_pos (by omega), if_neg (by omega)]
        congr 1
        omega
      · rw [if_neg (by omega), if_pos (by omega), if_pos (by omega)]
        congr 1
    · unfold rtMemcpy
      dsimp only
      rw [if_neg (by omega), if_neg (by omega)]

variable (ch) in
theorem getchar (h : rb.Holds q) :
    (q = [] → rtRingbufferGetchar rb ch = (0, ch, rb)) ∧
      ∀ x xs, q = x :: xs → (rtRingbufferGetchar rb ch).1 = 1 ∧ (rtRingbufferGetchar rb ch).2.1 = x ∧
        (rtRingbufferGetchar rb ch).2.2.Holds xs := by
  have hr := h.read_lt
  unfold rtRingbufferGetchar
  rw [h.dataLen]
  constructor
  · intro hq
    rw [hq]
    exact if_pos rfl
  · intro x xs hq
    have hx : rb.bufferPtr rb.readIndex = x := by
      have hc := h.content
      rw [hq, List.length_cons, Circular.content_pop hr] at hc
      exact (List.cons.inj hc).1.symm
    have hdrop : xs = q.drop 1 := by rw [hq]; rfl
    have hlen : 1 ≤ q.length := by rw [hq]; exact Nat.succ_pos _
    rw [if_neg (by omega), hdrop]
    split_ifs with hlast
    · exact ⟨rfl, hx, h.dropped hlen (moved_one_wrap hr hlast)⟩
    · exact ⟨rfl, hx, h.dropped hlen (moved_near h.size_lt (by omega))⟩

/-- The bytes up to the end of the pool. -/
theorem peek (h : rb.Holds q) :
    (q = [] → rtRingbufferPeek rb = (0, none, rb)) ∧
      (q ≠ [] → ∃ n ≤ q.length, 0 < n ∧ n ≤ rb.bufferSize - rb.readIndex ∧ (rtRingbufferPeek rb).1 = n ∧
        (rtRingbufferPeek rb).2.1 = some rb.readIndex ∧ (rtRingbufferPeek rb).2.2.bufferPtr = rb.bufferPtr ∧
        (rtRingbufferPeek rb).2.2.Holds (q.drop n)) := by
  have hr := h.read_lt
  unfold rtRingbufferPeek
  rw [h.dataLen]
  constructor
  · intro hq
    rw [hq]
    exact if_pos rfl
  · intro hq
    have hpos := List.length_pos_iff.2 hq
    rw [if_neg (by omega)]
    by_cases hnear : rb.bufferSize - rb.readIndex > q.length
    · rw [if_pos hnear]
      exact ⟨q.length, le_rfl, hpos, hnear.le, rfl, rfl, rfl, h.dropped le_rfl (moved_near h.size_lt hnear)⟩
    · rw [if_neg hnear]
      refine ⟨rb.bufferSize - rb.readIndex, by omega, by omega, le_rfl, rfl, rfl, rfl, h.dropped (by omega) ?_⟩
      exact ⟨h.pos, Or.inr ⟨rfl, by omega⟩⟩

/-- A call does to the bytes what it does to the queue. -/
theorem call (h : rb.Holds q) (op : Op) :
    ∃ q', Queued rb.bufferSize q op (rb.call op).1 q' ∧ (rb.call op).2.Holds q' := by
  cases op with
  | put ptr length =>
    obtain ⟨hret, hq⟩ := h.put ptr length
    refine ⟨_, ?_, hq⟩
    change Queued _ _ _ (.size (rtRingbufferPut rb ptr length).1) _
    rw [hret]
    exact .put ptr length
  | putForce ptr length =>
    obtain ⟨hret, hq⟩ := h.putForce ptr length
    refine ⟨_, ?_, hq⟩
    change Queued _ _ _ (.size (rtRingbufferPutForce rb ptr length).1) _
    rw [hret]
    exact .putForce ptr length
  | putchar ch =>
    obtain ⟨hret, hq⟩ := h.putchar ch
    refine ⟨_, ?_, hq⟩
    change Queued _ _ _ (.size (rtRingbufferPutchar rb ch).1) _
    rw [hret]
    exact .putchar ch
  | putcharForce ch =>
    obtain ⟨hret, hq⟩ := h.putcharForce ch
    refine ⟨_, ?_, hq⟩
    change Queued _ _ _ (.size (rtRingbufferPutcharForce rb ch).1) _
    rw [hret]
    exact .putcharForce ch
  | get ptr length =>
    obtain ⟨hret, hnew, hold, hq⟩ := h.get ptr length
    refine ⟨_, ?_, hq⟩
    change Queued _ _ _ (.got (rtRingbufferGet rb ptr length).1 (rtRingbufferGet rb ptr length).2.1) _
    rw [hret]
    refine .get ?_ hold
    rw [h.bytes_take (Nat.min_le_right _ _) hnew, List.take_eq_take_iff]
    omega
  | getchar ch =>
    obtain ⟨hnone, hsome⟩ := h.getchar ch
    change ∃ q', Queued _ _ _ (.char (rtRingbufferGetchar rb ch).1 (rtRingbufferGetchar rb ch).2.1) _ ∧
      Holds (rtRingbufferGetchar rb ch).2.2 q'
    cases hq : q with
    | nil =>
      rw [hnone hq]
      refine ⟨[], .getcharNone rfl, ?_⟩
      rw [← hq]
      exact h
    | cons x xs =>
      obtain ⟨h1, hx, hxs⟩ := hsome x xs hq
      rw [h1, hx]
      exact ⟨xs, .getchar rfl, hxs⟩
  | peek =>
    obtain ⟨hnone, hsome⟩ := h.peek
    by_cases hq : q = []
    · refine ⟨[], ?_, ?_⟩
      · unfold RtRingbuffer.call
        rw [hnone hq]
        exact .peek (by rw [hq]; rfl) fun _ => hq
      · unfold RtRingbuffer.call
        rw [hnone hq, ← hq]
        exact h
    · obtain ⟨n, hn, hpos, hnear, h1, hp, hpool, hdrop⟩ := hsome hq
      refine ⟨q.drop n, ?_, hdrop⟩
      have hbytes : bytes (fun i => rb.bufferPtr (rb.readIndex + i)) n = q.take n := by
        apply h.bytes_take hn
        intro j hj
        rw [Nat.mod_eq_of_lt (by omega)]
      unfold RtRingbuffer.call
      dsimp only
      rw [h1, hp, hpool]
      change Queued _ _ _ (.peeked (bytes (fun i => rb.bufferPtr (rb.readIndex + i)) n)) _
      rw [hbytes]
      refine .peek (List.take_append_drop n q).symm ?_
      intro htake
      rw [List.take_eq_nil_iff] at htake
      exact htake.resolve_left (by omega)

/-- The calls of a list do to the bytes what they do to the queue. -/
theorem calls (h : rb.Holds q) (ops : List Op) :
    ∃ q', QueuedRun rb.bufferSize q ops (rb.calls ops).1 q' ∧ (rb.calls ops).2.Holds q' := by
  induction ops generalizing rb q with
  | nil => exact ⟨q, .nil q, h⟩
  | cons op ops ih =>
    obtain ⟨q1, hc, h1⟩ := h.call op
    obtain ⟨q2, hr, h2⟩ := ih h1
    rw [call_bufferSize] at hr
    exact ⟨q2, .cons hc hr, h2⟩

variable (pool) in
/-- The empty buffer. -/
theorem init {w : Word} {size : Nat} (hs : size < 2 ^ 31) (hN : 0 < w.rtAlignDown size) :
    (rtRingbufferInit w pool size).Holds [] := by
  have hle : w.rtAlignDown size ≤ size := Nat.sub_le _ _
  exact ⟨hle.trans_lt hs, hN, hN, Nat.zero_le _, rfl, rfl⟩

end Holds

/-- After any calls the buffer is the queue of bytes that they make, and its length is that of the queue. -/
theorem ringbuffer_fifo {w : Word} {size : Nat} (hs : size < 2 ^ 31) (hN : 0 < w.rtAlignDown size) (ops : List Op) :
    ∃ q, QueuedRun (w.rtAlignDown size) [] ops ((rtRingbufferInit w pool size).calls ops).1 q ∧
      q.length ≤ w.rtAlignDown size ∧
      rtRingbufferDataLen ((rtRingbufferInit w pool size).calls ops).2 = q.length := by
  obtain ⟨q, hr, hq⟩ := (Holds.init pool hs hN).calls ops
  have hle := hq.length_le
  rw [calls_bufferSize] at hle
  exact ⟨q, hr, hle, hq.dataLen⟩

/-- A target with words of 32 bits. -/
def word32 : Word := ⟨32, 4, ⟨2, rfl⟩, by decide⟩

/-- Three bytes and then seven more in a pool of eight, and the ten are more than it holds. -/
theorem ringbuffer_fifo_wrap :
    ∃ q, QueuedRun 8 [] [.put (fun i => BitVec.ofNat 8 i) 3, .putForce (fun i => BitVec.ofNat 8 (10 + i)) 7]
        ((rtRingbufferInit word32 (fun _ => 0#8) 11).calls
          [.put (fun i => BitVec.ofNat 8 i) 3, .putForce (fun i => BitVec.ofNat 8 (10 + i)) 7]).1 q ∧ q.length = 8 := by
  obtain ⟨q, hr, -, hlen⟩ := @ringbuffer_fifo (fun _ => 0#8) word32 11 (by decide)
    (by decide) [.put (fun i => BitVec.ofNat 8 i) 3, .putForce (fun i => BitVec.ofNat 8 (10 + i)) 7]
  refine ⟨q, hr, ?_⟩
  rw [← hlen]
  decide

end RtRingbuffer

end RtThread
