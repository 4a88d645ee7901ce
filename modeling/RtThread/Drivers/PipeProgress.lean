import RtThread.Drivers.Pipe

/-!
# End of file and progress of pipes

A thread sleeps on a side of the pipe when it is suspended there, or about to be (`SleepsOn`), and another one comes to the
side when it will test the fifo for that side or wake up its queue (`ComesTo`). As long as the fifo is ready for a side on
which a thread sleeps, there is one that comes (`Covered`). The wakeups keep this, and so does every step but those that
`Clean` excludes: a read that leaves bytes, or a write that leaves room, while other threads sleep on its side and none
comes. With `pipe->writer` true exactly as long as a descriptor is open for writing, a read returns 0 only without one
(`pipe_progress`).
-/

namespace RtThread

open Function (update update_of_ne update_self)

/-! ## Bytes and room in the fifo -/

namespace RtRingbuffer

/-- The buffer of a pipe; one of less than a word has no byte. -/
def Fine (rb : RtRingbuffer) : Prop :=
  (∃ q, rb.Holds q) ∨ (rb.bufferSize = 0 ∧ rb.readIndex = rb.writeIndex ∧ rb.readMirror = rb.writeMirror)

variable {rb : RtRingbuffer}

theorem Fine.init (w : Word) (pool : Nat → BitVec 8) {size : Nat} (h : size < 2 ^ 31) :
    (rtRingbufferInit w pool size).Fine := by
  rcases Nat.eq_zero_or_pos (w.rtAlignDown size) with hzero | hpos
  · exact Or.inr ⟨hzero, rfl, rfl⟩
  · exact Or.inl ⟨[], Holds.init pool h hpos⟩

theorem empty_lens (h : rb.bufferSize = 0) (hi : rb.readIndex = rb.writeIndex) (hm : rb.readMirror = rb.writeMirror) :
    rtRingbufferDataLen rb = 0 ∧ rtRingbufferSpaceLen rb = 0 := by
  have hstatus : rtRingbufferStatus rb = .empty := by rw [rtRingbufferStatus, if_pos hi, if_pos hm]
  have hdata : rtRingbufferDataLen rb = 0 := by rw [rtRingbufferDataLen, hstatus]
  exact ⟨hdata, by rw [rtRingbufferSpaceLen, hdata, h]⟩

theorem put_bufferSize (rb : RtRingbuffer) (ptr : Nat → BitVec 8) (n : Nat) :
    (rtRingbufferPut rb ptr n).2.bufferSize = rb.bufferSize := call_bufferSize rb (.put ptr n)

theorem get_bufferSize (rb : RtRingbuffer) (ptr : Nat → BitVec 8) (n : Nat) :
    (rtRingbufferGet rb ptr n).2.2.bufferSize = rb.bufferSize := call_bufferSize rb (.get ptr n)

/-- What a get does to the bytes in the buffer. -/
theorem Fine.get (h : rb.Fine) (ptr : Nat → BitVec 8) (n : Nat) :
    (rtRingbufferGet rb ptr n).1 = min n (rtRingbufferDataLen rb) ∧ (rtRingbufferGet rb ptr n).2.2.Fine ∧
      rtRingbufferDataLen (rtRingbufferGet rb ptr n).2.2 = rtRingbufferDataLen rb - n := by
  rcases h with ⟨q, hq⟩ | ⟨hsize, hindex, hmirror⟩
  · obtain ⟨hlen, -, -, hholds⟩ := hq.get ptr n
    rw [hlen, hholds.dataLen, hq.dataLen, List.length_drop]
    exact ⟨rfl, Or.inl ⟨_, hholds⟩, rfl⟩
  · have hdata := (empty_lens hsize hindex hmirror).1
    have hget : rtRingbufferGet rb ptr n = (0, ptr, rb) := by rw [rtRingbufferGet, hdata, if_pos rfl]
    rw [hget, hdata]
    exact ⟨(Nat.min_zero n).symm, Or.inr ⟨hsize, hindex, hmirror⟩, by simp⟩

/-- What a put does to the room in the buffer. -/
theorem Fine.put (h : rb.Fine) (ptr : Nat → BitVec 8) (n : Nat) :
    (rtRingbufferPut rb ptr n).1 = min n (rtRingbufferSpaceLen rb) ∧ (rtRingbufferPut rb ptr n).2.Fine ∧
      rtRingbufferSpaceLen (rtRingbufferPut rb ptr n).2 = rtRingbufferSpaceLen rb - n := by
  rcases h with ⟨q, hq⟩ | ⟨hsize, hindex, hmirror⟩
  · obtain ⟨hlen, hholds⟩ := hq.put ptr n
    rw [hlen, hholds.spaceLen, hq.spaceLen, put_bufferSize]
    refine ⟨rfl, Or.inl ⟨_, hholds⟩, ?_⟩
    rw [Fifo.put, List.length_append, List.length_take, RtRingbuffer.length_bytes]
    omega
  · have hspace := (empty_lens hsize hindex hmirror).2
    have hput : rtRingbufferPut rb ptr n = (0, rb) := by rw [rtRingbufferPut, hspace, if_pos rfl]
    rw [hput, hspace]
    exact ⟨(Nat.min_zero n).symm, Or.inr ⟨hsize, hindex, hmirror⟩, by simp⟩

end RtRingbuffer

/-! ## Threads that sleep and threads that come -/

/-- The thread is suspended on the side, or it will be if the flag of its queue stays as it is. -/
def PipeStage.SleepsOn (side : PipeSide) (flag : Bool) : PipeStage → Prop
  | .suspended call => call.side = side
  | .wakeup call => call.side = side ∧ flag = false
  | .wait call => call.side = side ∧ flag = false
  | _ => False

/-- The thread will test the fifo for the side, or wake up its queue. -/
def PipeStage.ComesTo (side : PipeSide) : PipeStage → Prop
  | .lock call => call.side = side
  | .resumed call => call.side = side
  | .leaving call => call.side = side
  | .wakeup call => call.side ≠ side
  | .done _ => side = .readers
  | _ => False

namespace PipeState

/-- There are bytes for the readers, or there is room for the writers. -/
def Ready (s : PipeState) : PipeSide → Prop
  | .readers => ∃ rb, s.fifo = some rb ∧ 0 < rtRingbufferDataLen rb
  | .writers => ∃ rb, s.fifo = some rb ∧ 0 < rtRingbufferSpaceLen rb

def Sleeps (s : PipeState) (side : PipeSide) (t : ThreadId) : Prop := (s.thread t).SleepsOn side (s.queue side).flag

/-- Where a thread sleeps and the fifo is ready, another one comes. -/
def Covered (s : PipeState) (side : PipeSide) : Prop :=
  s.Ready side → ∀ t, s.Sleeps side t → ∃ u, (s.thread u).ComesTo side

/-- The queues have the threads that are suspended. -/
structure Listed (s : PipeState) : Prop where
  nodup : ∀ side, (s.queue side).waitingList.Nodup
  mem_iff : ∀ side t, t ∈ (s.queue side).waitingList ↔ ∃ call, call.side = side ∧ s.thread t = .suspended call

/-- Without `pipe->writer` no reader sleeps, whatever the flag of its queue. -/
def Unblocked (s : PipeState) : Prop := s.writer = false → ∀ t, ¬ (s.thread t).SleepsOn .readers false

/-- A descriptor is open for writing. -/
def OpenWriter (s : PipeState) : Prop := ∃ f ∈ s.fds, f.mode.Writes

variable {c : PipeConfig} {s s' : PipeState} {side side' : PipeSide} {t u : ThreadId} {stage : PipeStage} {call : PipeCall}
  {q : RtWqueue} {r : PipeRet}

@[simp] theorem thread_setThread : (s.setThread t stage).thread = update s.thread t stage := rfl
@[simp] theorem queue_setThread : (s.setThread t stage).queue = s.queue := rfl
@[simp] theorem writer_setThread : (s.setThread t stage).writer = s.writer := rfl
@[simp] theorem thread_setQueue : (s.setQueue side q).thread = s.thread := rfl
@[simp] theorem queue_setQueue : (s.setQueue side q).queue = update s.queue side q := rfl

theorem ready_of_fifo (h : s'.fifo = s.fifo) : s'.Ready side ↔ s.Ready side := by
  cases side <;> simp only [Ready, h]

/-! ## One thread moves -/

theorem Listed.setThread (h : Listed s) (hold : ∀ call, s.thread t ≠ .suspended call)
    (hnew : ∀ call, stage ≠ .suspended call) : Listed (s.setThread t stage) where
  nodup := h.nodup
  mem_iff side u := by
    rw [queue_setThread, h.mem_iff, thread_setThread]
    by_cases hu : u = t
    · subst hu
      rw [update_self]
      exact ⟨fun ⟨call, _, hc⟩ => absurd hc (hold call), fun ⟨call, _, hc⟩ => absurd hc (hnew call)⟩
    · rw [update_of_ne hu]

theorem Listed.suspend (h : Listed s) (hold : ∀ call, s.thread t ≠ .suspended call) :
    Listed ((s.setQueue call.side ⟨(s.queue call.side).flag, (s.queue call.side).waitingList ++ [t]⟩).setThread t
      (.suspended call)) := by
  have hnotmem : ∀ side, t ∉ (s.queue side).waitingList := by
    intro side hmem
    obtain ⟨call', -, hc⟩ := (h.mem_iff side t).1 hmem
    exact hold call' hc
  constructor
  · intro side
    by_cases hs : side = call.side
    · subst hs
      simpa [List.nodup_append] using ⟨h.nodup call.side, fun u hu => ne_of_mem_of_not_mem hu (hnotmem call.side)⟩
    · simpa [hs] using h.nodup side
  · intro side u
    simp only [queue_setThread, queue_setQueue, thread_setThread, thread_setQueue]
    by_cases hu : u = t
    · subst hu
      by_cases hs : side = call.side
      · subst hs
        simp
      · simp [hs, hnotmem side, Ne.symm hs]
    · rw [update_of_ne hu, ← h.mem_iff]
      by_cases hs : side = call.side
      · subst hs
        simp [hu]
      · simp [hs]

/-- The thread does not fall asleep, and it still comes if it did. -/
theorem Covered.setThread (h : Covered s side)
    (hsleep : stage.SleepsOn side (s.queue side).flag → (s.thread t).SleepsOn side (s.queue side).flag)
    (hcome : (s.thread t).ComesTo side → stage.ComesTo side) : Covered (s.setThread t stage) side := by
  intro hready u hu
  have hu' : s.Sleeps side u := by
    rw [Sleeps, thread_setThread, queue_setThread] at hu
    by_cases hut : u = t
    · subst hut
      rw [update_self] at hu
      exact hsleep hu
    · rwa [update_of_ne hut] at hu
  obtain ⟨v, hv⟩ := h hready u hu'
  refine ⟨v, ?_⟩
  rw [thread_setThread]
  by_cases hvt : v = t
  · subst hvt
    rw [update_self]
    exact hcome hv
  · rwa [update_of_ne hvt]

theorem covered_of_comes (h : (s.thread u).ComesTo side) : Covered s side := fun _ _ _ => ⟨u, h⟩

/-- The thread comes now. -/
theorem covered_setThread (h : stage.ComesTo side) : Covered (s.setThread t stage) side :=
  covered_of_comes (u := t) (by rwa [thread_setThread, update_self])

theorem Unblocked.setThread (h : Unblocked s) (hsleep : stage.SleepsOn .readers false →
    s.writer = true ∨ (s.thread t).SleepsOn .readers false) : Unblocked (s.setThread t stage) := by
  intro hwriter u hu
  rw [thread_setThread] at hu
  by_cases hut : u = t
  · subst hut
    rw [update_self] at hu
    rcases hsleep hu with htrue | hold
    · rw [writer_setThread, htrue] at hwriter
      cases hwriter
    · exact h hwriter u hold
  · rw [update_of_ne hut] at hu
    exact h hwriter u hu

/-! ## A wakeup -/

section

variable (h : Listed s) (side : PipeSide)

include h

/-- The first thread of the queue is resumed, if there is one. -/
theorem Listed.wakeup_cases :
    ((s.queue side).waitingList = [] ∧ s.rtWqueueWakeup side = s.setQueue side ⟨true, []⟩) ∨
      ∃ t ts call, (s.queue side).waitingList = t :: ts ∧ call.side = side ∧ s.thread t = .suspended call ∧
        s.rtWqueueWakeup side = (s.setThread t (.resumed call)).setQueue side ⟨true, ts⟩ := by
  rw [rtWqueueWakeup]
  cases hlist : (s.queue side).waitingList with
  | nil => exact Or.inl ⟨rfl, rfl⟩
  | cons t ts =>
    obtain ⟨call, hside, ht⟩ := (h.mem_iff side t).1 (by rw [hlist]; exact List.mem_cons_self)
    exact Or.inr ⟨t, ts, call, rfl, hside, ht, by simp only [rtThreadResume, ht]⟩

theorem Listed.wakeup : Listed (s.rtWqueueWakeup side) := by
  rcases h.wakeup_cases side with ⟨hlist, heq⟩ | ⟨t, ts, call, hlist, hside, ht, heq⟩
  · rw [heq]
    constructor
    · intro side'
      by_cases hs : side' = side
      · subst hs
        simp
      · simpa [hs] using h.nodup side'
    · intro side' u
      by_cases hs : side' = side
      · subst hs
        have hmem := h.mem_iff side' u
        rw [hlist] at hmem
        simpa using hmem
      · simpa [hs] using h.mem_iff side' u
  · have hnodup := h.nodup side
    rw [hlist] at hnodup
    obtain ⟨hnotmem, hnodup⟩ := List.nodup_cons.1 hnodup
    rw [heq]
    constructor
    · intro side'
      by_cases hs : side' = side
      · subst hs
        simpa using hnodup
      · simpa [hs] using h.nodup side'
    · intro side' u
      have hmem := h.mem_iff side' u
      simp only [queue_setQueue, queue_setThread, thread_setQueue, thread_setThread]
      by_cases hu : u = t
      · subst hu
        rw [update_self]
        refine iff_of_false ?_ (fun ⟨_, _, hc⟩ => nomatch hc)
        by_cases hs : side' = side
        · subst hs
          simpa using hnotmem
        · rw [update_of_ne hs, hmem, ht]
          rintro ⟨call', hside', hc⟩
          exact hs (by rw [← hside', ← hside, PipeStage.suspended.inj hc])
      · rw [update_of_ne hu, ← hmem]
        by_cases hs : side' = side
        · subst hs
          rw [update_self, hlist]
          simp [hu]
        · rw [update_of_ne hs]

theorem wakeup_fifo : (s.rtWqueueWakeup side).fifo = s.fifo := by
  rcases h.wakeup_cases side with ⟨-, heq⟩ | ⟨t, ts, call, -, -, -, heq⟩ <;> rw [heq] <;> rfl

theorem wakeup_fds : (s.rtWqueueWakeup side).fds = s.fds := by
  rcases h.wakeup_cases side with ⟨-, heq⟩ | ⟨t, ts, call, -, -, -, heq⟩ <;> rw [heq] <;> rfl

theorem wakeup_writer : (s.rtWqueueWakeup side).writer = s.writer := by
  rcases h.wakeup_cases side with ⟨-, heq⟩ | ⟨t, ts, call, -, -, -, heq⟩ <;> rw [heq] <;> rfl

/-- Only a suspended thread is moved. -/
theorem wakeup_thread (u : ThreadId) : (s.rtWqueueWakeup side).thread u = s.thread u ∨
      ∃ call, call.side = side ∧ s.thread u = .suspended call ∧ (s.rtWqueueWakeup side).thread u = .resumed call := by
  rcases h.wakeup_cases side with ⟨-, heq⟩ | ⟨t, ts, call, -, hside, ht, heq⟩
  · rw [heq]
    exact Or.inl rfl
  · rw [heq, thread_setQueue, thread_setThread]
    by_cases hu : u = t
    · subst hu
      exact Or.inr ⟨call, hside, ht, update_self _ _ _⟩
    · exact Or.inl (update_of_ne hu _ _)

/-- A wakeup covers its side: a thread that is still suspended was in the queue behind the one that is resumed. -/
theorem covered_wakeup : Covered (s.rtWqueueWakeup side) side := by
  intro _ u hu
  rcases h.wakeup_cases side with ⟨hlist, heq⟩ | ⟨t, ts, call, -, hside, -, heq⟩
  · exfalso
    rw [heq, Sleeps, queue_setQueue, update_self, thread_setQueue] at hu
    cases hu' : s.thread u with
    | suspended call =>
      rw [hu'] at hu
      have hmem := (h.mem_iff side u).2 ⟨call, hu, hu'⟩
      rw [hlist] at hmem
      cases hmem
    | _ => simp [hu', PipeStage.SleepsOn] at hu
  · refine ⟨t, ?_⟩
    rw [heq, thread_setQueue, thread_setThread, update_self]
    exact hside

end

/-- A wakeup of one side leaves the other one as it is. -/
theorem Covered.wakeup (h : Covered s side) (hl : Listed s) (hne : side ≠ side') :
    Covered (s.rtWqueueWakeup side') side := by
  rcases hl.wakeup_cases side' with ⟨-, heq⟩ | ⟨t, ts, call, -, hside, ht, heq⟩
  · rw [heq]
    intro hready u hu
    rw [Sleeps, queue_setQueue, update_of_ne hne] at hu
    exact h hready u hu
  · have hmoved : Covered (s.setThread t (.resumed call)) side :=
      h.setThread (fun hs => hs.elim) (fun hc => by rw [ht] at hc; exact hc.elim)
    rw [heq]
    intro hready u hu
    rw [Sleeps, queue_setQueue, update_of_ne hne] at hu
    exact hmoved hready u hu

theorem Unblocked.wakeup (h : Unblocked s) (hl : Listed s) (side : PipeSide) : Unblocked (s.rtWqueueWakeup side) := by
  intro hwriter u hu
  rw [wakeup_writer hl] at hwriter
  rcases wakeup_thread hl side u with heq | ⟨call, -, -, heq⟩
  · rw [heq] at hu
    exact h hwriter u hu
  · rw [heq] at hu
    exact hu

/-! ## Sound states -/

/-- What the threads of a pipe keep. -/
structure Calls (s : PipeState) : Prop where
  listed : Listed s
  readers : Covered s .readers
  writers : Covered s .writers
  unblocked : Unblocked s

structure Sound (s : PipeState) : Prop extends Calls s where
  writer : s.writer = true ↔ s.OpenWriter
  fifo : s.fifo = none ↔ s.fds = []
  idle : s.fds = [] → ∀ t, s.thread t = .idle
  fine : ∀ rb, s.fifo = some rb → rb.Fine

theorem Calls.covered (h : Calls s) : ∀ side, Covered s side
  | .readers => h.readers
  | .writers => h.writers

theorem Sound.initial : Sound initial where
  listed := ⟨fun _ => List.nodup_nil, fun _ _ => iff_of_false List.not_mem_nil fun ⟨_, _, h⟩ => nomatch h⟩
  readers := fun _ _ h => h.elim
  writers := fun _ _ h => h.elim
  unblocked := fun _ _ h => h
  writer := iff_of_false (nofun) fun ⟨_, h, _⟩ => nomatch h
  fifo := iff_of_true rfl rfl
  idle := fun _ _ => rfl
  fine := fun _ h => nomatch h

/-- The descriptors stay, and a thread that is not idle shows that there is one. -/
theorem Sound.of_calls (h : Sound s) (ht : s.thread t ≠ .idle) (hcalls : Calls s') (hfds : s'.fds = s.fds)
    (hwriter : s'.writer = s.writer) (hfifo : ∃ rb, s'.fifo = some rb ∧ rb.Fine) : Sound s' := by
  have hne : s.fds ≠ [] := fun hnil => ht (h.idle hnil t)
  obtain ⟨rb, hrb, hfine⟩ := hfifo
  refine ⟨hcalls, ?_, ?_, ?_, ?_⟩
  · rw [hwriter, OpenWriter, hfds]
    exact h.writer
  · rw [hrb, hfds]
    exact iff_of_false (nofun) hne
  · exact fun hnil => absurd (hfds ▸ hnil) hne
  · intro rb' hrb'
    obtain rfl : rb = rb' := Option.some.inj (hrb.symm.trans hrb')
    exact hfine

theorem Sound.some_fifo (h : Sound s) (ht : s.thread t ≠ .idle) : ∃ rb, s.fifo = some rb ∧ rb.Fine := by
  cases hfifo : s.fifo with
  | none => exact absurd (h.idle (h.fifo.1 hfifo) t) ht
  | some rb => exact ⟨rb, rfl, h.fine rb hfifo⟩

/-- A thread moves that neither is nor gets suspended. -/
theorem Calls.setThread (h : Calls s) (hold : ∀ call, s.thread t ≠ .suspended call)
    (hnew : ∀ call, stage ≠ .suspended call)
    (hsleep : ∀ side flag, stage.SleepsOn side flag → (s.thread t).SleepsOn side flag)
    (hcome : ∀ side, (s.thread t).ComesTo side → Covered (s.setThread t stage) side) : Calls (s.setThread t stage) := by
  have hcovered : ∀ side, Covered (s.setThread t stage) side := by
    intro side
    by_cases hc : (s.thread t).ComesTo side
    · exact hcome side hc
    · exact (h.covered side).setThread (hsleep side _) fun hc' => absurd hc' hc
  exact ⟨h.listed.setThread hold hnew, hcovered .readers, hcovered .writers,
    h.unblocked.setThread fun hs => Or.inr (hsleep _ _ hs)⟩

/-- A wakeup of a side needs no cover there before. -/
theorem calls_wakeup (hl : Listed s) (hother : Covered s side.other) (hu : Unblocked s) :
    Calls (s.rtWqueueWakeup side) := by
  have hne : side.other ≠ side := by cases side <;> exact nofun
  have hcovered := hother.wakeup hl hne
  refine ⟨hl.wakeup side, ?_, ?_, hu.wakeup hl side⟩
  · cases side with
    | readers => exact covered_wakeup hl .readers
    | writers => exact hcovered
  · cases side with
    | readers => exact hcovered
    | writers => exact covered_wakeup hl .writers

/-- The flag of a side is cleared by a thread that comes there. -/
theorem Calls.clear (h : Calls s) (hold : ∀ call, s.thread t ≠ .suspended call)
    (hcome : ∀ side, (s.thread t).ComesTo side → side = call.side) {ts : List ThreadId}
    (hts : ts = (s.queue call.side).waitingList) :
    Calls ((s.setQueue call.side ⟨false, ts⟩).setThread t (.leaving call)) := by
  have hlisted : Listed (s.setQueue call.side ⟨false, ts⟩) := by
    constructor
    · intro side
      by_cases hs : side = call.side
      · subst hs
        simpa [hts] using h.listed.nodup call.side
      · simpa [hs] using h.listed.nodup side
    · intro side u
      by_cases hs : side = call.side
      · subst hs
        simpa [hts] using h.listed.mem_iff call.side u
      · simpa [hs] using h.listed.mem_iff side u
  have hcovered : ∀ side, Covered ((s.setQueue call.side ⟨false, ts⟩).setThread t (.leaving call)) side := by
    intro side
    by_cases hs : side = call.side
    · subst hs
      exact covered_setThread rfl
    · have hq : Covered (s.setQueue call.side ⟨false, ts⟩) side := by
        intro hready u hu
        rw [Sleeps, queue_setQueue, update_of_ne hs] at hu
        exact h.covered side hready u hu
      exact hq.setThread (fun hc => hc.elim) fun hc => absurd (hcome side hc) hs
  exact ⟨hlisted.setThread hold (fun _ hc => nomatch hc), hcovered .readers, hcovered .writers,
    Unblocked.setThread (s := s.setQueue call.side ⟨false, ts⟩) h.unblocked fun hs => hs.elim⟩

/-! ## The steps of a call -/

/-- Neither a read without a byte to read, nor a call that leaves bytes or room where others sleep and none comes; no write
that an `int` does not count. -/
def CleanLock (s : PipeState) (t : ThreadId) : PipeStage → Prop
  | .lock (.read _ count) =>
    count % 2 ^ 32 ≠ 0 ∧ ∀ rb, s.fifo = some rb → count % 2 ^ 32 < rtRingbufferDataLen rb →
      (∀ u, u ≠ t → ¬ s.Sleeps .readers u) ∨ ∃ u, u ≠ t ∧ (s.thread u).ComesTo .readers
  | .lock (.write _ rest ret) =>
    ret + rest.length < 2 ^ 31 ∧ ∀ rb, s.fifo = some rb → rest.length < rtRingbufferSpaceLen rb →
      (∀ u, u ≠ t → ¬ s.Sleeps .writers u) ∨ ∃ u, u ≠ t ∧ (s.thread u).ComesTo .writers
  | _ => True

/-- A thread that came is done with its side: the fifo is not ready, or the others are taken care of. -/
theorem Covered.leave (hready : s'.Ready side → (∀ u, u ≠ t → ¬ s.Sleeps side u) ∨ ∃ u, u ≠ t ∧ (s.thread u).ComesTo side)
    (hthread : ∀ u, u ≠ t → s'.thread u = s.thread u) (hflag : (s'.queue side).flag = (s.queue side).flag)
    (hsleep : ¬ s'.Sleeps side t) : Covered s' side := by
  intro hr u hu
  have hut : u ≠ t := fun heq => hsleep (heq ▸ hu)
  rcases hready hr with hnone | ⟨v, hvt, hv⟩
  · rw [Sleeps, hthread u hut, hflag] at hu
    exact absurd hu (hnone u hut)
  · exact ⟨v, by rwa [hthread v hvt]⟩

variable {rb : RtRingbuffer} {nonblock alloc : Bool} {count fd : Nat} {f : PipeFd}

theorem Sound.lock_write {rest : List (BitVec 8)} {ret : Nat} (h : Sound s)
    (ht : s.thread t = .lock (.write nonblock rest ret)) (hrb : s.fifo = some rb)
    (hclean : CleanLock s t (.lock (.write nonblock rest ret))) : Sound (s.pipeFopsWrite t rb nonblock rest ret).1 := by
  obtain ⟨hlen, hfine, hspace⟩ := (h.fine rb hrb).put (fun i => rest.getD i 0) rest.length
  have hold : ∀ call, s.thread t ≠ .suspended call := fun call hc => nomatch ht.symm.trans hc
  have hidle : s.thread t ≠ .idle := fun hc => nomatch ht.symm.trans hc
  simp only [pipeFopsWrite]
  generalize rtRingbufferPut rb (fun i => rest.getD i 0) rest.length = put at hlen hfine hspace
  obtain ⟨len, rb'⟩ := put
  simp only at hlen hfine hspace
  -- the stage that follows: the thread wakes up the readers, and stays with the writers or has filled the fifo
  have hstage : ∀ stage : PipeStage, (∀ call, stage ≠ .suspended call) → stage.ComesTo .readers →
      (∀ flag, ¬ stage.SleepsOn .readers flag) → (∀ flag, stage.SleepsOn .writers flag → len < rest.length) →
      Sound ((s.setFifo (some rb')).setThread t stage) := by
    intro stage hnew hcome hnotr hfull
    refine h.of_calls hidle ⟨?_, covered_setThread hcome, ?_, ?_⟩ rfl rfl ⟨rb', rfl, hfine⟩
    · exact Listed.setThread (s := s.setFifo (some rb')) ⟨h.listed.nodup, h.listed.mem_iff⟩ hold hnew
    · by_cases hsleep : stage.SleepsOn .writers (s.queue .writers).flag
      · rintro ⟨rb'', hrb'', hpos⟩
        obtain rfl : rb' = rb'' := Option.some.inj hrb''
        have := hfull _ hsleep
        omega
      · refine Covered.leave (s := s) (t := t) ?_ (fun u hu => update_of_ne hu _ _) rfl ?_
        · rintro ⟨rb'', hrb'', hpos⟩
          obtain rfl : rb' = rb'' := Option.some.inj hrb''
          exact hclean.2 rb hrb (by omega)
        · rw [Sleeps, thread_setThread, update_self]
          exact hsleep
    · exact Unblocked.setThread (s := s.setFifo (some rb')) h.unblocked fun hs => absurd hs (hnotr _)
  split
  · exact hstage _ (fun _ hc => nomatch hc) rfl (fun _ hc => hc) fun _ hc => hc.elim
  · rename_i hrest
    split
    · exact hstage _ (fun _ hc => nomatch hc) rfl (fun _ hc => hc) fun _ hc => hc.elim
    · refine hstage _ (fun _ hc => nomatch hc) (nofun) (fun _ hc => nomatch hc.1) fun _ _ => ?_
      rw [List.drop_eq_nil_iff] at hrest
      omega

section

variable (h : Sound s)

include h

theorem Sound.lock_read (ht : s.thread t = .lock (.read nonblock count)) (hrb : s.fifo = some rb)
    (hclean : CleanLock s t (.lock (.read nonblock count))) : Sound (s.pipeFopsRead t rb nonblock count).1 := by
  obtain ⟨hlen, hfine, hdata⟩ := (h.fine rb hrb).get (fun _ => 0) (count % 2 ^ 32)
  have hsize := RtRingbuffer.get_bufferSize rb (fun _ => 0) (count % 2 ^ 32)
  have hold : ∀ call, s.thread t ≠ .suspended call := fun call hc => by cases ht.symm.trans hc
  have hidle : s.thread t ≠ .idle := fun hc => by cases ht.symm.trans hc
  have hnotw : ¬ (s.thread t).ComesTo .writers := by
    rw [ht]
    exact fun hc => by cases hc
  obtain ⟨hcount, hclean⟩ := hclean
  simp only [pipeFopsRead]
  generalize rtRingbufferGet rb (fun _ => 0) (count % 2 ^ 32) = got at hlen hfine hdata hsize
  obtain ⟨len, buf, rb'⟩ := got
  simp only at hlen hfine hdata hsize
  have hlisted : Listed (s.setFifo (some rb')) := ⟨h.listed.nodup, h.listed.mem_iff⟩
  have hdone : Listed ((s.setFifo (some rb')).setThread t .idle) := hlisted.setThread hold fun _ hc => by cases hc
  have hreaders : Covered ((s.setFifo (some rb')).setThread t .idle) .readers := by
    refine Covered.leave (s := s) (t := t) ?_ (fun u hu => update_of_ne hu _ _) rfl ?_
    · rintro ⟨rb'', hrb'', hpos⟩
      obtain rfl : rb' = rb'' := Option.some.inj hrb''
      exact hclean rb hrb (by omega)
    · rw [Sleeps, thread_setThread, update_self]
      exact fun hc => hc
  have hunblocked : Unblocked ((s.setFifo (some rb')).setThread t .idle) :=
    Unblocked.setThread (s := s.setFifo (some rb')) h.unblocked fun hs => hs.elim
  split
  · -- the read returns, and has woken up a writer
    refine h.of_calls hidle (calls_wakeup hdone hreaders hunblocked) (wakeup_fds hdone _) (wakeup_writer hdone _)
      ⟨rb', wakeup_fifo hdone _, hfine⟩
  · -- nothing has been read: there is as much room as before, and no byte
    rename_i hnot
    obtain ⟨hzero, hwriter⟩ := not_or.1 hnot
    have hwriters : Covered (s.setFifo (some rb')) .writers := by
      rintro ⟨rb'', hrb'', hpos⟩
      obtain rfl : rb' = rb'' := Option.some.inj hrb''
      have hsame : rtRingbufferSpaceLen rb' = rtRingbufferSpaceLen rb := by
        rw [rtRingbufferSpaceLen, rtRingbufferSpaceLen, hsize, hdata]
        omega
      exact h.writers ⟨rb, hrb, hsame ▸ hpos⟩
    split
    · exact h.of_calls hidle ⟨hdone, hreaders, hwriters.setThread (fun hc => hc.elim) fun hc => absurd hc hnotw, hunblocked⟩
        rfl rfl ⟨rb', rfl, hfine⟩
    · refine h.of_calls hidle ⟨hlisted.setThread hold (fun _ hc => by cases hc), ?_, ?_, ?_⟩ rfl rfl ⟨rb', rfl, hfine⟩
      · rintro ⟨rb'', hrb'', hpos⟩
        obtain rfl : rb' = rb'' := Option.some.inj hrb''
        omega
      · exact covered_setThread fun hc => by cases hc
      · exact Unblocked.setThread (s := s.setFifo (some rb')) h.unblocked fun _ => Or.inl (by simpa using hwriter)

theorem Sound.lock (hs : Step c s (.lock t, r) s') (hclean : CleanLock s t (s.thread t)) : Sound s' := by
  have hs : s.step c (.lock t) = some (s', r) := hs
  rw [step] at hs
  split at hs
  · rename_i nonblock count rb ht hrb
    obtain ⟨rfl, -⟩ := Prod.mk.inj (Option.some.inj hs)
    exact h.lock_read ht hrb (ht ▸ hclean)
  · rename_i nonblock rest ret rb ht hrb
    obtain ⟨rfl, -⟩ := Prod.mk.inj (Option.some.inj hs)
    exact h.lock_write ht hrb (ht ▸ hclean)
  · cases hs

/-- A thread moves and wakes up the side to which it came. -/
theorem Sound.of_wakeup (hidle : s.thread t ≠ .idle) (hold : ∀ call, s.thread t ≠ .suspended call)
    (hnew : ∀ call, stage ≠ .suspended call)
    (hsleep : ∀ side flag, stage.SleepsOn side flag → (s.thread t).SleepsOn side flag)
    (hcome : ¬ (s.thread t).ComesTo side.other) : Sound ((s.setThread t stage).rtWqueueWakeup side) := by
  have hlisted : Listed (s.setThread t stage) := h.listed.setThread hold hnew
  refine h.of_calls hidle (calls_wakeup hlisted ?_ ?_) (wakeup_fds hlisted side) (wakeup_writer hlisted side) ?_
  · exact (h.covered side.other).setThread (hsleep _ _) fun hc => absurd hc hcome
  · exact h.unblocked.setThread fun hs => Or.inr (hsleep _ _ hs)
  · rw [wakeup_fifo hlisted]
    exact h.some_fifo hidle

theorem Sound.wakeup (hs : Step c s (.wakeup t, r) s') : Sound s' := by
  have hs : s.step c (.wakeup t) = some (s', r) := hs
  rw [step] at hs
  split at hs
  · rename_i call ht
    cases hs
    refine h.of_wakeup (fun hc => nomatch ht.symm.trans hc) (fun _ hc => nomatch ht.symm.trans hc)
      (fun _ hc => nomatch hc) (fun side flag hsleep => ?_) fun hc => ?_
    · rw [ht]
      exact hsleep
    · rw [ht] at hc
      cases call <;> exact hc rfl
  · rename_i ret ht
    cases hs
    refine h.of_wakeup (fun hc => nomatch ht.symm.trans hc) (fun _ hc => nomatch ht.symm.trans hc)
      (fun _ hc => nomatch hc) (fun side flag hsleep => hsleep.elim) fun hc => ?_
    rw [ht] at hc
    cases hc
  · cases hs

theorem Sound.wait (hs : Step c s (.wait t, r) s') : Sound s' := by
  have hs : s.step c (.wait t) = some (s', r) := hs
  rw [step] at hs
  split at hs
  · rename_i call ht
    cases hs
    have hidle : s.thread t ≠ .idle := fun hc => nomatch ht.symm.trans hc
    have hold : ∀ call, s.thread t ≠ .suspended call := fun _ hc => nomatch ht.symm.trans hc
    have hcome : ∀ side, ¬ (s.thread t).ComesTo side := by
      intro side hc
      rw [ht] at hc
      exact hc
    simp only [rtWqueueWait]
    split
    · exact h.of_calls hidle (h.toCalls.clear hold (fun side hc => absurd hc (hcome side)) rfl) rfl rfl (h.some_fifo hidle)
    · -- the thread slept already, before it was suspended
      rename_i hflag
      have hsleep : ∀ side, PipeStage.SleepsOn side (s.queue side).flag (.suspended call) →
          (s.thread t).SleepsOn side (s.queue side).flag := by
        rintro side rfl
        rw [ht]
        exact ⟨rfl, by simpa using hflag⟩
      have hcovered : ∀ side, Covered (s.setThread t (.suspended call)) side := fun side =>
        (h.covered side).setThread (hsleep side) fun hc => absurd hc (hcome side)
      have hflags : ∀ side, ((s.setQueue call.side ⟨(s.queue call.side).flag,
          (s.queue call.side).waitingList ++ [t]⟩).queue side).flag = (s.queue side).flag := by
        intro side
        by_cases hs : side = call.side
        · subst hs
          simp
        · simp [hs]
      have hcovered' : ∀ side, Covered ((s.setQueue call.side ⟨(s.queue call.side).flag,
          (s.queue call.side).waitingList ++ [t]⟩).setThread t (.suspended call)) side := by
        intro side hready u hu
        rw [Sleeps, queue_setThread, hflags] at hu
        exact hcovered side hready u hu
      refine h.of_calls hidle ⟨h.listed.suspend hold, hcovered' .readers, hcovered' .writers, ?_⟩ rfl rfl
        (h.some_fifo hidle)
      refine Unblocked.setThread (s := s.setQueue call.side _) h.unblocked fun hside => Or.inr ?_
      rw [thread_setQueue, ht]
      exact ⟨hside, rfl⟩
  · cases hs

theorem Sound.clean (hs : Step c s (.clean t, r) s') : Sound s' := by
  have hs : s.step c (.clean t) = some (s', r) := hs
  rw [step] at hs
  split at hs
  · rename_i call ht
    cases hs
    have hidle : s.thread t ≠ .idle := fun hc => nomatch ht.symm.trans hc
    refine h.of_calls hidle (h.toCalls.clear (fun _ hc => nomatch ht.symm.trans hc) ?_ rfl) rfl rfl (h.some_fifo hidle)
    intro side hc
    rw [ht] at hc
    exact hc.symm
  · cases hs

theorem Sound.remove (hs : Step c s (.remove t, r) s') : Sound s' := by
  have hs : s.step c (.remove t) = some (s', r) := hs
  rw [step] at hs
  split at hs
  · rename_i call ht
    cases hs
    have hidle : s.thread t ≠ .idle := fun hc => nomatch ht.symm.trans hc
    have hnotmem : t ∉ (s.queue call.side).waitingList := by
      rw [h.listed.mem_iff]
      rintro ⟨call', -, hc⟩
      exact nomatch ht.symm.trans hc
    have hqueue : s.setQueue call.side { s.queue call.side with
        waitingList := (s.queue call.side).waitingList.erase t } = s := by
      rw [List.erase_of_not_mem hnotmem]
      exact congrArg (fun q => { s with queue := q }) (Function.update_eq_self _ _)
    rw [hqueue]
    refine h.of_calls hidle (h.toCalls.setThread (fun _ hc => nomatch ht.symm.trans hc) (fun _ hc => nomatch hc)
      (fun _ _ hc => hc.elim) fun side hc => covered_setThread ?_) rfl rfl (h.some_fifo hidle)
    rw [ht] at hc
    exact hc
  · cases hs

/-- A call begins. -/
theorem Sound.begin (ht : s.thread t = .idle) (hfds : s.fds ≠ []) (call : PipeCall) :
    Sound (s.setThread t (.lock call)) where
  toCalls := by
    refine h.toCalls.setThread (fun _ hc => nomatch ht.symm.trans hc) (fun _ hc => nomatch hc) (fun _ _ hc => hc.elim) ?_
    intro side hc
    rw [ht] at hc
    exact hc.elim
  writer := h.writer
  fifo := h.fifo
  idle hnil := absurd hnil hfds
  fine := h.fine

end

theorem fds_ne_nil (h : (s.fds.find? fun f => f.fd = fd) = some f) : s.fds ≠ [] := by
  intro hnil
  rw [hnil] at h
  cases h

theorem Sound.read (h : Sound s) (hs : Step c s (.read t fd count, r) s') : Sound s' := by
  have hs : s.step c (.read t fd count) = some (s', r) := hs
  rw [step] at hs
  split at hs
  · rename_i f ht hf
    cases hs
    exact h.begin ht (fds_ne_nil hf) _
  · cases hs

theorem Sound.write {data : List (BitVec 8)} (h : Sound s) (hs : Step c s (.write t fd data, r) s') : Sound s' := by
  have hs : s.step c (.write t fd data) = some (s', r) := hs
  rw [step] at hs
  split at hs
  · rename_i f ht hf
    split at hs
    · cases hs
      exact h
    · cases hs
      exact h.begin ht (fds_ne_nil hf) _
  · cases hs

/-! ## Descriptors -/

/-- What opens and closes have to respect: `pipe->writer` stays true exactly as long as a descriptor is open for writing, no
reader is about to wait when the last of these is closed, and no call is under way when the last descriptor is. -/
def CleanFd (s : PipeState) : PipeEv → Prop
  | .open _ mode _ alloc => (mode = .rdwr → s.writer = true) ∧ (mode = .wronly → s.fds = [] → alloc = true)
  | .close fd => ∀ f, (s.fds.find? fun f => f.fd = fd) = some f →
      (f.mode.Writes → (f.mode = .wronly ↔ ∀ g ∈ s.fds.erase f, ¬ g.mode.Writes)) ∧
      (f.mode = .wronly → ∀ t call, call.side = .readers → s.thread t ≠ .wakeup call ∧ s.thread t ≠ .wait call) ∧
      (s.fds.length = 1 → ∀ t, s.thread t = .idle)
  | _ => True

/-- The threads and the queues stay, and the fifo, or no thread is in a call. -/
theorem Calls.of_threads (h : Calls s) (hthread : s'.thread = s.thread) (hqueue : s'.queue = s.queue)
    (hfifo : s'.fifo = s.fifo ∨ s'.fifo = none ∨ ∀ t, s.thread t = .idle) (hwriter : s'.writer = false → s.writer = false) :
    Calls s' := by
  have hcovered : ∀ side, Covered s' side := by
    intro side hready t hsleep
    rw [Sleeps, hthread, hqueue] at hsleep
    rw [hthread]
    rcases hfifo with hfifo | hnone | hidle
    · exact h.covered side ((ready_of_fifo hfifo).1 hready) t hsleep
    · cases side with
      | readers =>
        obtain ⟨rb, hrb, -⟩ := hready
        exact nomatch hnone.symm.trans hrb
      | writers =>
        obtain ⟨rb, hrb, -⟩ := hready
        exact nomatch hnone.symm.trans hrb
    · rw [hidle t] at hsleep
      exact hsleep.elim
  refine ⟨⟨?_, ?_⟩, hcovered .readers, hcovered .writers, ?_⟩
  · rw [hqueue]
    exact h.listed.nodup
  · rw [hqueue, hthread]
    exact h.listed.mem_iff
  · intro hw
    rw [hthread]
    exact h.unblocked (hwriter hw)

theorem Sound.pipeFopsOpen (h : Sound s) (hrdwr : f.mode = .rdwr → s.writer = true)
    (hwronly : f.mode = .wronly → s.fds = [] → alloc = true) : Sound (s.pipeFopsOpen c f alloc).1 := by
  have hw : (s.writer || f.mode.hasWronly) = false → s.writer = false := fun hor => (Bool.or_eq_false_iff.1 hor).1
  -- the flag, when the descriptor is added
  have hadded : (s.writer || f.mode.hasWronly) = true ↔ ∃ g ∈ f :: s.fds, g.mode.Writes := by
    rw [Bool.or_eq_true, h.writer, OpenWriter]
    rw [List.exists_mem_cons_iff]
    cases hmode : f.mode with
    | rdonly => simp [AccessMode.hasWronly, AccessMode.Writes]
    | wronly => simp [AccessMode.hasWronly, AccessMode.Writes]
    | rdwr =>
      have hopen := h.writer.1 (hrdwr hmode)
      exact iff_of_true (Or.inl hopen) (Or.inr hopen)
  rw [PipeState.pipeFopsOpen]
  split
  · rename_i hfirst
    have hnil : s.fds = [] := List.length_eq_zero_iff.1 (by simpa using hfirst)
    split
    · refine ⟨h.toCalls.of_threads rfl rfl (Or.inr (Or.inr (h.idle hnil))) hw, hadded, iff_of_false (nofun)
        (nofun), (nofun), fun rb hrb => ?_⟩
      cases hrb
      exact RtRingbuffer.Fine.init _ _ (c.bufsz_lt.trans (by decide))
    · rename_i halloc
      have hmode : f.mode.hasWronly = false := by
        cases hmode : f.mode with
        | wronly => exact absurd (hwronly hmode hnil) halloc
        | _ => rfl
      refine ⟨h.toCalls.of_threads rfl rfl (Or.inr (Or.inl rfl)) hw, ?_, iff_of_true rfl hnil, h.idle, fun _ hrb => nomatch hrb⟩
      rw [hmode, Bool.or_false]
      exact h.writer
  · rename_i hfirst
    have hne : s.fds ≠ [] := by
      rintro hnil
      simp [hnil] at hfirst
    exact ⟨h.toCalls.of_threads rfl rfl (Or.inl rfl) hw, hadded,
      iff_of_false (fun hn => hne (h.fifo.1 hn)) (nofun), (nofun), h.fine⟩

theorem Sound.open {mode : AccessMode} (h : Sound s)
    (hs : Step c s (.open fd mode nonblock alloc, r) s') (hclean : CleanFd s (.open fd mode nonblock alloc)) : Sound s' := by
  have hs : s.step c (.open fd mode nonblock alloc) = some (s', r) := hs
  rw [step] at hs
  split at hs
  · obtain rfl : (s.pipeFopsOpen c ⟨fd, mode, nonblock⟩ alloc).1 = s' := congrArg Prod.fst (Option.some.inj hs)
    exact h.pipeFopsOpen hclean.1 hclean.2
  · cases hs

/-- The readers have been woken up: nothing else has changed. -/
structure Woken (s s' : PipeState) : Prop where
  fifo : s'.fifo = s.fifo
  fds : s'.fds = s.fds
  writer : s'.writer = s.writer
  listed : Listed s'
  writers : Covered s' .writers
  thread : ∀ t, s'.thread t = s.thread t ∨
    ∃ call, call.side = .readers ∧ s.thread t = .suspended call ∧ s'.thread t = .resumed call

theorem Woken.wakeup (h : Woken s s') : Woken s (s'.rtWqueueWakeup .readers) where
  fifo := (wakeup_fifo h.listed _).trans h.fifo
  fds := (wakeup_fds h.listed _).trans h.fds
  writer := (wakeup_writer h.listed _).trans h.writer
  listed := h.listed.wakeup _
  writers := h.writers.wakeup h.listed nofun
  thread t := by
    rcases wakeup_thread h.listed .readers t with heq | ⟨call, hside, hsusp, heq⟩
    · rw [heq]
      exact h.thread t
    · rcases h.thread t with hsame | ⟨call', -, -, hres⟩
      · exact Or.inr ⟨call, hside, hsame ▸ hsusp, heq⟩
      · exact nomatch hsusp.symm.trans hres

theorem wakeup_list (s : PipeState) (side : PipeSide) :
    ((s.rtWqueueWakeup side).queue side).waitingList = (s.queue side).waitingList.tail := by
  rw [rtWqueueWakeup]
  split
  · rename_i hlist
    simp [hlist]
  · rename_i hlist
    simp [hlist]

/-- The loop of the close wakes up all the readers in the queue. -/
theorem woken_wakeupReaders (hl : Listed s) (hw : Covered s .writers) :
    Woken s s.wakeupReaders ∧ (s.wakeupReaders.queue .readers).waitingList = [] := by
  have hloop : ∀ n s', Woken s s' → (s'.queue .readers).waitingList.length = n →
      Woken s ((fun s => s.rtWqueueWakeup .readers)^[n] s') ∧
        (((fun s => s.rtWqueueWakeup .readers)^[n] s').queue .readers).waitingList = [] := by
    intro n
    induction n with
    | zero => exact fun s' h hlen => ⟨h, List.length_eq_zero_iff.1 hlen⟩
    | succ n ih =>
      intro s' h hlen
      refine ih _ h.wakeup ?_
      rw [wakeup_list, List.length_tail, hlen, Nat.add_sub_cancel]
  exact hloop _ s ⟨rfl, rfl, rfl, hl, hw, fun _ => Or.inl rfl⟩ rfl

theorem Sound.dropFd (h : Sound s) (hf : f ∈ s.fds) (hcalls : Calls s') (hfifo : s'.fifo = s.fifo)
    (hfds : s'.fds = s.fds) (hwriter : s'.writer = true ↔ ∃ g ∈ s.fds.erase f, g.mode.Writes)
    (hidle : s.fds.length = 1 → ∀ t, s'.thread t = .idle) : Sound (dropFd c s' f) := by
  have hne : s.fds ≠ [] := List.ne_nil_of_mem hf
  have hlen := List.length_erase_of_mem hf
  have hpos := List.length_pos_of_mem hf
  rw [PipeState.dropFd, hfds]
  split
  · rename_i hone
    have hnil : s.fds.erase f = [] := List.length_eq_zero_iff.1 (by omega)
    exact ⟨hcalls.of_threads rfl rfl (Or.inr (Or.inl rfl)) id, hwriter, iff_of_true rfl hnil, fun _ => hidle hone,
      fun _ hrb => nomatch hrb⟩
  · rename_i hone
    have hne' : s.fds.erase f ≠ [] := by
      intro hnil
      rw [hnil, List.length_nil] at hlen
      omega
    refine ⟨hcalls.of_threads rfl rfl (Or.inl rfl) id, hwriter, ?_, fun hnil => absurd hnil hne', ?_⟩
    · exact iff_of_false (fun hn => hne (h.fifo.1 (hfifo ▸ hn))) hne'
    · exact fun rb hrb => h.fine rb (hfifo ▸ hrb)

theorem Sound.close (h : Sound s) (hs : Step c s (.close fd, r) s') (hclean : CleanFd s (.close fd)) : Sound s' := by
  have hs : s.step c (.close fd) = some (s', r) := hs
  obtain ⟨f, hf, heq⟩ := Option.map_eq_some_iff.1 hs
  obtain rfl : s.pipeFopsClose c f = s' := congrArg Prod.fst heq
  obtain ⟨hlast, hwindow, hidle⟩ := hclean f hf
  have hmem : f ∈ s.fds := List.mem_of_find?_eq_some hf
  rw [pipeFopsClose]
  cases hmode : f.mode with
  | wronly =>
    -- no reader is left that sleeps: those in the queue are woken up
    obtain ⟨hw, hlist⟩ := woken_wakeupReaders (s := { s with writer := false }) ⟨h.listed.nodup, h.listed.mem_iff⟩ h.writers
    have hnone := (hlast (by rw [hmode]; exact nofun)).1 hmode
    simp only [AccessMode.hasWronly, if_true]
    generalize PipeState.wakeupReaders { s with writer := false } = s1 at hw hlist
    have hawake : ∀ t flag, ¬ (s1.thread t).SleepsOn .readers flag := by
      intro t flag hsleep
      cases ht : s1.thread t with
      | suspended call =>
        rw [ht] at hsleep
        have hmem := (hw.listed.mem_iff .readers t).2 ⟨call, hsleep, ht⟩
        rw [hlist] at hmem
        cases hmem
      | wakeup call =>
        rw [ht] at hsleep
        rcases hw.thread t with hsame | ⟨_, -, -, hres⟩
        · exact (hwindow hmode t call hsleep.1).1 (hsame.symm.trans ht)
        · exact nomatch ht.symm.trans hres
      | wait call =>
        rw [ht] at hsleep
        rcases hw.thread t with hsame | ⟨_, -, -, hres⟩
        · exact (hwindow hmode t call hsleep.1).2 (hsame.symm.trans ht)
        · exact nomatch ht.symm.trans hres
      | _ =>
        rw [ht] at hsleep
        exact hsleep
    refine h.dropFd hmem ⟨hw.listed, fun _ t ht => absurd ht (hawake t _), hw.writers, fun _ t => hawake t _⟩ hw.fifo hw.fds
      ?_ fun hone t => ?_
    · rw [hw.writer]
      exact iff_of_false (nofun) fun ⟨g, hg, hgw⟩ => hnone g hg hgw
    · rcases hw.thread t with hsame | ⟨call, -, hsusp, -⟩
      · rw [hsame]
        exact hidle hone t
      · exact nomatch (hidle hone t).symm.trans hsusp
  | rdonly =>
    refine h.dropFd hmem h.toCalls rfl rfl (h.writer.trans ⟨?_, ?_⟩) hidle
    · rintro ⟨g, hg, hgw⟩
      have hne : g ≠ f := by
        rintro rfl
        exact hgw hmode
      exact ⟨g, (List.mem_erase_of_ne hne).2 hg, hgw⟩
    · exact fun ⟨g, hg, hgw⟩ => ⟨g, List.mem_of_mem_erase hg, hgw⟩
  | rdwr =>
    have hwrites : f.mode.Writes := by
      rw [hmode]
      exact nofun
    refine h.dropFd hmem h.toCalls rfl rfl (iff_of_true (h.writer.2 ⟨f, hmem, hwrites⟩) ?_) hidle
    by_contra hnone
    have hwronly := (hlast hwrites).2 fun g hg hgw => hnone ⟨g, hg, hgw⟩
    exact nomatch hmode.symm.trans hwronly

/-! ## Runs -/

/-- The steps that keep what has been woken up, and the flag, right. -/
def Clean (s : PipeState) : PipeEv → Prop
  | .lock t => CleanLock s t (s.thread t)
  | e => CleanFd s e

theorem Sound.step {x : PipeEv × PipeRet} (h : Sound s) (hs : Step c s x s') (hclean : Clean s x.1) : Sound s' := by
  obtain ⟨e, r⟩ := x
  cases e with
  | «open» fd mode nonblock alloc => exact h.open hs hclean
  | close fd => exact h.close hs hclean
  | read t fd count => exact h.read hs
  | write t fd data => exact h.write hs
  | lock t => exact h.lock hs hclean
  | wakeup t => exact h.wakeup hs
  | wait t => exact h.wait hs
  | clean t => exact h.clean hs
  | remove t => exact h.remove hs

theorem sound_run {ls : List (PipeEv × PipeRet)}
    (hr : Runs.Run (fun s x s' => Step c s x s' ∧ Clean s x.1) initial ls s) : Sound s :=
  hr.invariant (I := Sound) Sound.initial fun _ _ _ h hs => h.step hs.1 hs.2

/-- No thread is in a call but those that are suspended. -/
def Quiescent (s : PipeState) : Prop := ∀ t, s.thread t = .idle ∨ ∃ call, s.thread t = .suspended call

/-- A blocked reader implies an empty fifo and an open writer, and a blocked writer a full fifo. -/
structure Progress (s : PipeState) : Prop where
  reader : ∀ t call, call.side = .readers → s.thread t = .suspended call →
    (∃ rb, s.fifo = some rb ∧ rtRingbufferDataLen rb = 0) ∧ s.OpenWriter
  writer : ∀ t call, call.side = .writers → s.thread t = .suspended call →
    ∃ rb, s.fifo = some rb ∧ rtRingbufferSpaceLen rb = 0

/-- Where no thread comes, the fifo is not ready for a side on which one is suspended. -/
theorem Sound.not_ready (h : Sound s) (hq : Quiescent s) (hside : call.side = side) (ht : s.thread t = .suspended call) :
    ¬ s.Ready side := by
  intro hready
  have hsleep : s.Sleeps side t := by
    rw [Sleeps, ht]
    exact hside
  obtain ⟨u, hu⟩ := h.covered side hready t hsleep
  rcases hq u with hidle | ⟨call', hsusp⟩
  · rw [hidle] at hu
    exact hu
  · rw [hsusp] at hu
    exact hu

theorem Sound.progress (h : Sound s) (hq : Quiescent s) : Progress s := by
  constructor
  · intro t call hside ht
    have hidle : s.thread t ≠ .idle := fun hc => nomatch ht.symm.trans hc
    obtain ⟨rb, hrb, -⟩ := h.some_fifo hidle
    refine ⟨⟨rb, hrb, ?_⟩, ?_⟩
    · by_contra hpos
      exact h.not_ready hq hside ht ⟨rb, hrb, Nat.pos_of_ne_zero hpos⟩
    · rw [← h.writer]
      by_contra hfalse
      refine h.unblocked (by simpa using hfalse) t ?_
      rw [ht]
      exact hside
  · intro t call hside ht
    have hidle : s.thread t ≠ .idle := fun hc => nomatch ht.symm.trans hc
    obtain ⟨rb, hrb, -⟩ := h.some_fifo hidle
    refine ⟨rb, hrb, ?_⟩
    by_contra hpos
    exact h.not_ready hq hside ht ⟨rb, hrb, Nat.pos_of_ne_zero hpos⟩

/-- A read returns no byte only when `pipe->writer` is false. -/
theorem writer_of_got_nil {e : PipeEv} (hs : Step c s (e, .got []) s') : s.writer = false := by
  have hs : s.step c e = some (s', .got []) := hs
  cases e with
  | lock t =>
    rw [PipeState.step] at hs
    split at hs
    · rename_i nonblock count rb ht hrb
      have hret := congrArg Prod.snd (Option.some.inj hs)
      simp only [pipeFopsRead] at hret
      split at hret
      · rename_i hcond
        rcases hcond with hpos | hfalse
        · have hlen := congrArg List.length (PipeRet.got.inj hret)
          rw [RtRingbuffer.length_bytes, List.length_nil] at hlen
          omega
        · exact hfalse
      · split at hret
        · cases hret
        · cases hret
    · have hret := congrArg Prod.snd (Option.some.inj hs)
      simp only [pipeFopsWrite] at hret
      split at hret
      · cases hret
      · split at hret
        · cases hret
        · cases hret
    · cases hs
  | «open» fd mode nonblock alloc =>
    rw [PipeState.step] at hs
    split at hs
    · have hret := congrArg Prod.snd (Option.some.inj hs)
      simp only [pipeFopsOpen] at hret
      split at hret
      · split at hret
        · cases hret
        · cases hret
      · cases hret
    · cases hs
  | close fd =>
    obtain ⟨f, -, heq⟩ := Option.map_eq_some_iff.1 hs
    exact nomatch congrArg Prod.snd heq
  | wakeup t =>
    rw [PipeState.step] at hs
    split at hs
    · exact nomatch congrArg Prod.snd (Option.some.inj hs)
    · rename_i ret ht
      have hret := congrArg Prod.snd (Option.some.inj hs)
      cases ret <;> cases hret
    · cases hs
  | write t fd data =>
    rw [PipeState.step] at hs
    split at hs
    · split at hs
      · exact nomatch congrArg Prod.snd (Option.some.inj hs)
      · exact nomatch congrArg Prod.snd (Option.some.inj hs)
    · cases hs
  | _ =>
    rw [PipeState.step] at hs
    split at hs
    · exact nomatch congrArg Prod.snd (Option.some.inj hs)
    · cases hs

/-- In the runs of clean steps a read returns 0 only when no descriptor is open for writing, and whenever every call is
blocked, the blocked readers have an empty fifo and an open writer and the blocked writers a full fifo. -/
theorem pipe_progress (c : PipeConfig) {ls : List (PipeEv × PipeRet)}
    (hr : Runs.Run (fun s x s' => Step c s x s' ∧ Clean s x.1) initial ls s) :
    (Quiescent s → Progress s) ∧ ∀ e s', Step c s (e, .got []) s' → ¬ s.OpenWriter := by
  have h := sound_run hr
  refine ⟨h.progress, fun e s' hs hopen => ?_⟩
  rw [← h.writer, writer_of_got_nil hs] at hopen
  cases hopen

/-- A pipe of 4 bytes. -/
def pipe4 : PipeConfig := ⟨RtRingbuffer.word32, 4, false, by decide, by decide⟩

/-- A reader blocks on an empty pipe with a writer. -/
theorem pipe_progress_blocked : ∃ s, Runs.Run (fun s x s' => Step pipe4 s x s' ∧ Clean s x.1) initial
    [(.open 0 .rdonly false true, .opened true), (.open 1 .wronly false true, .opened true), (.read 1 0 4, .none),
      (.lock 1, .none), (.wakeup 1, .none), (.wait 1, .none)] s ∧ s.thread 1 = .suspended (.read false 4) ∧
    (Quiescent s → Progress s) ∧ ∀ e s', Step pipe4 s (e, .got []) s' → ¬ s.OpenWriter := by
  have hr : ∃ s, Runs.Run (fun s x s' => Step pipe4 s x s' ∧ Clean s x.1) initial
      [(.open 0 .rdonly false true, .opened true), (.open 1 .wronly false true, .opened true), (.read 1 0 4, .none),
        (.lock 1, .none), (.wakeup 1, .none), (.wait 1, .none)] s ∧ s.thread 1 = .suspended (.read false 4) := by
    refine ⟨_, .cons ⟨rfl, (nofun), (nofun)⟩ (.cons ⟨rfl, (nofun), fun _ _ => rfl⟩
      (.cons ⟨rfl, trivial⟩ (.cons ⟨rfl, ?_⟩ (.cons ⟨rfl, trivial⟩ (.cons ⟨rfl, trivial⟩ .nil))))), rfl⟩
    refine ⟨by decide, fun rb hrb hlt => ?_⟩
    cases hrb
    exact absurd hlt (by decide)
  obtain ⟨s, hr, ht⟩ := hr
  exact ⟨s, hr, ht, pipe_progress pipe4 hr⟩

/-- One of two writers closes: the reader gets the end of the file. -/
theorem pipe_eof_early : ¬ ∀ ls s, Runs.Run (Step pipe4) initial ls s →
    (Quiescent s → Progress s) ∧ ∀ e s', Step pipe4 s (e, .got []) s' → ¬ s.OpenWriter := by
  intro hclaim
  obtain ⟨s, hr, hopen, hgot⟩ : ∃ s, Runs.Run (Step pipe4) initial
      [(.open 0 .rdonly false true, .opened true), (.open 1 .wronly false true, .opened true),
        (.open 2 .wronly false true, .opened true), (.close 1, .none), (.read 1 0 4, .none)] s ∧
      (∃ f ∈ s.fds, f.mode.Writes) ∧ (s.step pipe4 (.lock 1)).map Prod.snd = some (.got []) :=
    Runs.Run.of_computed (P := fun s : PipeState => (∃ f ∈ s.fds, f.mode.Writes) ∧
      (PipeState.step pipe4 s (.lock 1)).map Prod.snd = some (PipeRet.got [])) _ (by decide)
  obtain ⟨⟨s', r⟩, hs, rfl⟩ := Option.map_eq_some_iff.1 hgot
  exact (hclaim _ _ hr).2 _ _ hs hopen

end PipeState

end RtThread
