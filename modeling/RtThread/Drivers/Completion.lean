import RtThread.Kernel.Types
import RtThread.Lib.Runs

/-!
# Completions

`completion.c`, for one completion: a step is a section with the interrupts disabled, or an access to shared memory outside
of one. A done sets the flag and resumes the thread that waits; a thread that comes back from waiting clears the flag,
whatever its result is. So the completions are kept in the runs in which a thread comes back to a set flag if and only if it
was resumed by a done, and in which a done does not set the flag twice, and in no others (`completion_conservation`).
-/

namespace RtThread

/-- Where a thread is in `rt_completion_wait`: suspended, with its timer or not; resumed, with its `error`; or about to clear
the flag, with its `result`. -/
inductive CompletionStage
  | idle
  | suspended (timer : Bool)
  | resumed (err : RtErr)
  | clearing (result : RtErr)
deriving DecidableEq, Repr

/-- `struct rt_completion`, the threads, and how many calls of `rt_completion_done` have found the flag clear and are before
their section. -/
structure CompletionState where
  flag : Bool
  suspendedList : List ThreadId
  thread : ThreadId → CompletionStage
  doing : Nat

inductive CompletionEv
  | wait (thread : ThreadId) (timeout : Int)
  | expire (thread : ThreadId)
  | readError (thread : ThreadId)
  | clear (thread : ThreadId)
  | doneTest
  | doneSection
deriving DecidableEq, Repr

/-- What a step returns: the result of a wait, that the thread is suspended, that a done has found the flag set, or nothing. -/
inductive CompletionRet
  | waited (result : RtErr)
  | suspended
  | completed
  | done
deriving DecidableEq, Repr

namespace CompletionState

def setThread (s : CompletionState) (t : ThreadId) (stage : CompletionStage) : CompletionState :=
  { s with thread := Function.update s.thread t stage }

/-- The first section of `rt_completion_wait`. -/
def rtCompletionWait (s : CompletionState) (t : ThreadId) (timeout : Int) : Option (CompletionState × CompletionRet) :=
  if s.flag then some ({ s with flag := false }, .waited .eok)
  else
    -- only one thread can suspend on complete
    if s.suspendedList ≠ [] then none
    else if timeout = 0 then some (s, .waited .etimeout)
    else
      some ({ s.setThread t (.suspended (decide (0 < timeout))) with suspendedList := s.suspendedList ++ [t] }, .suspended)

/-- `_thread_timeout` -/
def threadTimeout (s : CompletionState) (t : ThreadId) : CompletionState :=
  { s.setThread t (.resumed .etimeout) with suspendedList := s.suspendedList.erase t }

/-- `rt_thread_resume`: a thread that is not suspended is left as it is. -/
def rtThreadResume (s : CompletionState) (t : ThreadId) : CompletionState :=
  match s.thread t with
  | .suspended _ => { s.setThread t (.resumed .eok) with suspendedList := s.suspendedList.erase t }
  | _ => s

/-- The section of `rt_completion_done`. -/
def rtCompletionDone (s : CompletionState) : CompletionState :=
  match s.suspendedList with
  | [] => { s with flag := true }
  | t :: _ => { s with flag := true }.rtThreadResume t

def step (s : CompletionState) : CompletionEv → Option (CompletionState × CompletionRet)
  | .wait t timeout => if s.thread t = .idle then s.rtCompletionWait t timeout else none
  | .expire t => if s.thread t = .suspended true then some (s.threadTimeout t, .done) else none
  | .readError t =>
    match s.thread t with
    | .resumed err => some (s.setThread t (.clearing err), .done)
    | _ => none
  | .clear t =>
    match s.thread t with
    | .clearing result => some ({ s.setThread t .idle with flag := false }, .waited result)
    | _ => none
  | .doneTest => if s.flag then some (s, .completed) else some ({ s with doing := s.doing + 1 }, .done)
  | .doneSection => if s.doing = 0 then none else some ({ s.rtCompletionDone with doing := s.doing - 1 }, .done)

/-- After `rt_completion_init`. -/
def initial : CompletionState := ⟨false, [], fun _ => .idle, 0⟩

def Step (s : CompletionState) (x : CompletionEv × CompletionRet) (s' : CompletionState) : Prop :=
  s.step x.1 = some (s', x.2)

/-! ## Conservation -/

/-- How many waits have returned `RT_EOK`. -/
def succeeded (ls : List (CompletionEv × CompletionRet)) : Nat := ls.countP fun x => x.2 = .waited .eok

/-- How many calls of `rt_completion_done` have found the flag clear, and set it. -/
def signalled (ls : List (CompletionEv × CompletionRet)) : Nat := ls.countP fun x => x.1 = .doneSection

/-- Every completion has been waited for, except one if the flag is set. -/
def Conserved (ls : List (CompletionEv × CompletionRet)) (s : CompletionState) : Prop :=
  succeeded ls + (if s.flag then 1 else 0) = signalled ls

/-- A thread finds the flag set when it comes back if a done has resumed it, and clear if its time is over; and a done that
has found the flag clear finds it clear again. -/
def Undisturbed (s : CompletionState) : CompletionEv → Prop
  | .clear t => ∀ result, s.thread t = .clearing result → (s.flag = true ↔ result = .eok)
  | .doneSection => s.flag = false
  | _ => True

variable {s s' : CompletionState} {ls : List (CompletionEv × CompletionRet)} {x : CompletionEv × CompletionRet} {t : ThreadId}
  {timeout : Int} {r : CompletionRet}

theorem succeeded_snoc : succeeded (ls ++ [x]) = succeeded ls + if x.2 = .waited .eok then 1 else 0 := by
  simp [succeeded, List.countP_append, List.countP_singleton]

theorem signalled_snoc : signalled (ls ++ [x]) = signalled ls + if x.1 = .doneSection then 1 else 0 := by
  simp [signalled, List.countP_append, List.countP_singleton]

@[simp] theorem rtThreadResume_flag : (s.rtThreadResume t).flag = s.flag := by
  rw [rtThreadResume]
  split <;> rfl

@[simp] theorem rtCompletionDone_flag : s.rtCompletionDone.flag = true := by
  rw [rtCompletionDone]
  split
  · rfl
  · rw [rtThreadResume_flag]

theorem rtCompletionWait_flag (h : s.rtCompletionWait t timeout = some (s', r)) :
    s.flag = true ∧ s'.flag = false ∧ r = .waited .eok ∨ s.flag = false ∧ s'.flag = false ∧ r ≠ .waited .eok := by
  rw [rtCompletionWait] at h
  split at h
  · rename_i hflag
    cases h
    exact .inl ⟨hflag, rfl, rfl⟩
  · rename_i hflag
    have hflag : s.flag = false := by simpa using hflag
    split at h
    · cases h
    · split at h
      · cases h
        exact .inr ⟨hflag, hflag, by simp⟩
      · cases h
        exact .inr ⟨hflag, hflag, by simp⟩

/-- What a step does to the flag, to the waits that have succeeded and to the completions. -/
theorem step_flag (h : Step s x s') :
    (s.flag = true ∧ s'.flag = false ∧ x.2 = .waited .eok ∧ (∃ t timeout, x.1 = .wait t timeout)) ∨
    (∃ t result, x.1 = .clear t ∧ s.thread t = .clearing result ∧ x.2 = .waited result ∧ s'.flag = false) ∨
    (x.1 = .doneSection ∧ x.2 = .done ∧ s'.flag = true) ∨
    s'.flag = s.flag ∧ x.2 ≠ .waited .eok ∧ (∀ t, x.1 ≠ .clear t) ∧ x.1 ≠ .doneSection := by
  obtain ⟨e, r⟩ := x
  change s.step e = some (s', r) at h
  cases e with
  | wait t timeout =>
    rw [step] at h
    split at h
    · rcases rtCompletionWait_flag h with ⟨hset, hclear, rfl⟩ | ⟨hclear, hclear', hr⟩
      · exact .inl ⟨hset, hclear, rfl, t, timeout, rfl⟩
      · exact .inr (.inr (.inr ⟨hclear'.trans hclear.symm, hr, by simp, by simp⟩))
    · cases h
  | expire t =>
    rw [step] at h
    split at h
    · cases h
      exact .inr (.inr (.inr ⟨rfl, by simp, by simp, by simp⟩))
    · cases h
  | readError t =>
    rw [step] at h
    split at h
    · cases h
      exact .inr (.inr (.inr ⟨rfl, by simp, by simp, by simp⟩))
    · cases h
  | clear t =>
    rw [step] at h
    split at h
    · rename_i result hstage
      cases h
      exact .inr (.inl ⟨t, result, rfl, hstage, rfl, rfl⟩)
    · cases h
  | doneTest =>
    rw [step] at h
    split at h
    · cases h
      exact .inr (.inr (.inr ⟨rfl, by simp, by simp, by simp⟩))
    · cases h
      exact .inr (.inr (.inr ⟨rfl, by simp, by simp, by simp⟩))
  | doneSection =>
    rw [step] at h
    split at h
    · cases h
    · cases h
      exact .inr (.inr (.inl ⟨rfl, rfl, rtCompletionDone_flag⟩))

/-- The step that keeps the completions is the one that is not disturbed. -/
theorem conserved_step (hls : Conserved ls s) (h : Step s x s') : Conserved (ls ++ [x]) s' ↔ Undisturbed s x.1 := by
  rw [Conserved] at hls
  rw [Conserved, succeeded_snoc, signalled_snoc]
  rcases step_flag h with ⟨hset, hclear, hr, t, timeout, he⟩ | ⟨t, result, he, hstage, hr, hclear⟩ | ⟨he, hr, hset⟩ |
    ⟨hflag, hr, hclear, hdone⟩
  · rw [hset, if_pos rfl] at hls
    rw [hclear, hr, he]
    constructor
    · intro _
      exact trivial
    · intro _
      simpa using hls
  · rw [hclear, hr, he]
    have hiff : Undisturbed s (.clear t) ↔ (s.flag = true ↔ result = .eok) := by
      constructor
      · intro hund
        exact hund result hstage
      · intro hund result' hstage'
        obtain rfl := CompletionStage.clearing.inj (hstage.symm.trans hstage')
        exact hund
    rw [hiff]
    by_cases hset : s.flag = true <;> by_cases hok : result = .eok <;> simp [hset, hok] at hls ⊢ <;> omega
  · rw [hset, hr, he]
    change _ ↔ s.flag = false
    by_cases hset' : s.flag = true
    · simp [hset'] at hls ⊢
      omega
    · simp [hset'] at hls ⊢
      omega
  · rw [hflag, if_neg hr, if_neg hdone]
    constructor
    · intro _
      obtain ⟨e, r⟩ := x
      cases e with
      | clear t => exact absurd rfl (hclear t)
      | doneSection => exact absurd rfl hdone
      | wait t timeout => exact trivial
      | expire t => exact trivial
      | readError t => exact trivial
      | doneTest => exact trivial
    · intro _
      exact hls

/-- The runs that keep the completions at every point are those in which no step is disturbed. -/
theorem completion_conservation (ls : List (CompletionEv × CompletionRet)) (s : CompletionState) :
    Runs.RunWith Step Conserved initial ls s ↔ Runs.Run (fun s x s' => Step s x s' ∧ Undisturbed s x.1) initial ls s := by
  refine Runs.RunWith.iff_run (I := Conserved) rfl rfl ?_ ?_
  · intro ls s x s' hls hs
    exact (conserved_step hls hs.1).2 hs.2
  · intro ls s x s' hls
    constructor
    · rintro ⟨hs, hls'⟩
      exact ⟨hs, (conserved_step hls hs).1 hls'⟩
    · rintro ⟨hs, hund⟩
      exact ⟨hs, (conserved_step hls hs).2 hund⟩

/-- The time of a wait is over, a done sets the flag, and the wait clears it. -/
def timedOut : List (CompletionEv × CompletionRet) :=
  [(.wait 1 10, .suspended), (.expire 1, .done), (.doneTest, .done), (.doneSection, .done), (.readError 1, .done),
    (.clear 1, .waited .etimeout)]

/-- A done resumes a thread, and another thread takes the flag before it runs. -/
def takenTwice : List (CompletionEv × CompletionRet) :=
  [(.wait 1 (-1), .suspended), (.doneTest, .done), (.doneSection, .done), (.wait 2 (-1), .waited .eok), (.readError 1, .done),
    (.clear 1, .waited .eok)]

/-- A completion is lost to a wait that returns `-RT_ETIMEOUT`, and one done lets two waits succeed. -/
theorem completion_not_conserved :
    (∃ s, Runs.Run Step initial timedOut s ∧ succeeded timedOut = 0 ∧ s.flag = false ∧ signalled timedOut = 1) ∧
    ∃ s, Runs.Run Step initial takenTwice s ∧ succeeded takenTwice = 2 ∧ signalled takenTwice = 1 := by
  constructor
  · obtain ⟨s, hs, hflag⟩ := Runs.Run.of_computed (f := step) (s := initial) timedOut (P := fun s => s.flag = false)
      (by decide)
    exact ⟨s, hs, by decide, hflag, by decide⟩
  · obtain ⟨s, hs, -⟩ := Runs.Run.of_computed (f := step) (s := initial) takenTwice (P := fun _ => True)
      (by decide)
    exact ⟨s, hs, by decide, by decide⟩

end CompletionState

end RtThread
