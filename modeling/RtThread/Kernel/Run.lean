import RtThread.Lib.Runs
import RtThread.Kernel.Step

/-!
# Runs of the kernel

A run starts in a state where nothing has happened yet (`Boot`): every thread is initialised and not started, every
mutex is free. Its labels are the steps with what they returned. `KRun ok` are the runs all of whose steps meet a
condition `ok` on the state before the step and on the step.
-/

namespace RtThread

/-- The steps of the scheduler and of the clock, and the start of threads. -/
def Ev.isSched : Ev → Bool
  | .schedulerStart | .schedule | .dispatch _ | .cont | .tick | .sigcheck _ _ | .startup _ _ | .defunctDequeue | .yield
  | .enterCritical | .exitCritical => true
  | _ => false

/-- The calls of the mutex functions that block and wake threads, and the expiry of their timers. -/
def Ev.isMutex : Ev → Bool
  | .mutexTake _ _ _ | .mutexRelease _ | .timeout _ => true
  | _ => false

namespace Kernel

/-- A kernel in which no thread has been started. -/
structure Boot (k : Kernel) : Prop where
  priorityMax_le : k.priorityMax ≤ 256
  stat : ∀ t, (k.thread t).stat = .init
  initPriority_lt : ∀ t, (k.thread t).initPriority < k.priorityMax
  currentPriority : ∀ t, (k.thread t).currentPriority = (k.thread t).initPriority
  error : ∀ t, (k.thread t).error = .eok
  pendingObject : ∀ t, (k.thread t).pendingObject = none
  cont : ∀ t, (k.thread t).cont = []
  isrCont : ∀ i, k.isrCont i = []
  tlist : ∀ h, k.tlist h = []
  takenObjectList : ∀ t, k.takenObjectList t = []
  object : ∀ m, (k.mutex m).object = .attached
  priority : ∀ m, (k.mutex m).priority = 0xff
  hold : ∀ m, (k.mutex m).hold = 0
  owner : ∀ m, (k.mutex m).owner = none
  readyPriorityGroup : k.readyPriorityGroup = 0#32
  readyTable : ∀ n, k.readyTable n = 0#8
  currentThread : k.currentThread = none

/-- A step with its label, for some amount of fuel. -/
def Step (k : Kernel) (l : Ev × Option Ret) (k' : Kernel) : Prop := ∃ fuel, step fuel k l.1 = some (k', l.2)

/-- The runs whose steps meet the condition. -/
def KRun (ok : Kernel → Ev → Prop) : Kernel → List (Ev × Option Ret) → Kernel → Prop :=
  Runs.Run fun k l k' => ok k l.1 ∧ k.Step l k'

/-- The kernel after a list of events, each with the given fuel; the last state before one that cannot happen. -/
def after (fuel : Nat) (k : Kernel) (evs : List Ev) : Kernel := ((Runs.exec (step fuel) k evs).map (·.1)).getD k

/-- The labels of the run `after` computes. -/
def labels (fuel : Nat) (k : Kernel) (evs : List Ev) : List (Ev × Option Ret) :=
  ((Runs.exec (step fuel) k evs).map (·.2)).getD []

/-- A run computed with a fixed amount of fuel, whose events meet the condition in every state. -/
theorem KRun.of_exec {ok : Kernel → Ev → Prop} (fuel : Nat) (k : Kernel) (evs : List Ev)
    (h : (Runs.exec (step fuel) k evs).isSome) (hok : ∀ e ∈ evs, ∀ k, ok k e) :
    KRun ok k (labels fuel k evs) (after fuel k evs) := by
  obtain ⟨⟨k', ls⟩, he⟩ := Option.isSome_iff_exists.1 h
  have hk : after fuel k evs = k' := by simp [after, he]
  have hl : labels fuel k evs = ls := by simp [labels, he]
  rw [hk, hl]
  have hstep (s : Kernel) (e : Ev) (s' : Kernel) (r : Option Ret) (hs : step fuel s e = some (s', r))
      (he : ∀ k, ok k e) : ok s e ∧ s.Step (e, r) s' := ⟨he s, fuel, hs⟩
  exact Runs.Run.of_exec hstep he hok

/-- A kernel with threads of the given priorities, before anything has happened; thread `t` has the priority `prios t`. -/
def boot (priorityMax : Nat) (prios : ThreadId → Nat) : Kernel where
  priorityMax := priorityMax
  thread t :=
    { stat := .init
      statYield := false
      currentPriority := prios t
      initPriority := prios t
      number := 0
      numberMask := 0#32
      highMask := 0#8
      error := .eok
      pendingObject := none
      eventSet := 0#32
      eventInfo := 0#8
      initTick := 20#64
      remainingTick := 20#64
      timerActivated := false
      suspendSigcheck := true
      cont := [] }
  tlist _ := []
  takenObjectList _ := []
  mutex _ := { object := .attached, ceilingPriority := 0xff, priority := 0xff, hold := 0, owner := none }
  sem _ := { flag := .fifo, value := 0 }
  event _ := { flag := .fifo, set := 0#32 }
  mailbox _ := { flag := .fifo, msgPool := fun _ => 0#64, size := 4, entry := 0, inOffset := 0, outOffset := 0 }
  mq _ := rtMqInit .fifo 4 2
  isrCont _ := []
  readyPriorityGroup := 0#32
  readyTable _ := 0#8
  currentThread := none
  currentPriority := priorityMax - 1
  schedulerLockNest := 0#16
  tick := 0#32

theorem boot_boot {priorityMax : Nat} {prios : ThreadId → Nat} (hmax : priorityMax ≤ 256)
    (hp : ∀ t, prios t < priorityMax) : Boot (boot priorityMax prios) where
  priorityMax_le := hmax
  stat _ := rfl
  initPriority_lt := hp
  currentPriority _ := rfl
  error _ := rfl
  pendingObject _ := rfl
  cont _ := rfl
  isrCont _ := rfl
  tlist _ := rfl
  takenObjectList _ := rfl
  object _ := rfl
  priority _ := rfl
  hold _ := rfl
  owner _ := rfl
  readyPriorityGroup := rfl
  readyTable _ := rfl
  currentThread := rfl

end Kernel

end RtThread
