import RtThread.Ipc.MessageBuffers
import RtThread.Lib.Deque
import RtThread.Lib.Pool

/-!
# The messages of a message queue

A call of the message queue functions has a buffer in hand between its two sections. The labels of a run say which
messages were linked, taken off the queue, returned and discarded; `Messages.replay` reads them as the operations of a
double-ended queue with the messages that are being copied beside it.

- `Messages`: what was sent, what is queued, what is in whose hands, what was received and what a reset discarded.
- `Messages.Kept`: the buffers are on the two lists of the message queue or in hand, each once, and have the bytes of the
  messages. For each section of the message queue functions, a lemma says how it goes on.
-/

namespace RtThread

open Function (update update_of_ne update_self)

/-- The buffer of a message queue that a frame has in hand. -/
def Frame.held (q : MqId) : Frame → Option Nat
  | .mqCopyIn q' msg _ _ | .mqLink q' msg _ _ | .mqCopyOut q' msg _ | .mqFree q' msg _ => if q' = q then some msg else none
  | _ => none

/-- The frame is of a call that receives a message, after it has taken it off the queue. -/
def Frame.receives (q : MqId) : Frame → Bool
  | .mqCopyOut q' _ _ | .mqFree q' _ _ => q' = q
  | _ => false

/-- The buffer in the hand of who has the frames `fs`. -/
def inHand (q : MqId) (fs : List Frame) : Option Nat := fs.findSome? (Frame.held q)

/-- A message that was sent. -/
abbrev Message := Deque.Item (List (BitVec 8))

/-- What was done with one message queue; what was taken off the queue was received, discarded, or is in the hands of a
caller. -/
structure Messages where
  log : Deque.Log (List (BitVec 8))
  hands : List (Context × Message)
  received : List Message
  discarded : List Message
  deriving DecidableEq, Repr

namespace Messages

def empty : Messages := { log := .empty, hands := [], received := [], discarded := [] }

/-- A caller takes the first message off the queue. -/
def detach (m : Messages) (c : Context) : Option Messages :=
  match m.log.take with
  | none => none
  | some (x, log) => some { m with log := log, hands := m.hands ++ [(c, x)] }

/-- A caller returns with the bytes of its message, as many as it asked for. -/
def recv (m : Messages) (c : Context) (buffer : List (BitVec 8)) : Option Messages :=
  match m.hands.find? (·.1 = c) with
  | none => none
  | some p =>
    if buffer.take p.2.value.length = p.2.value.take buffer.length then
      some { m with hands := m.hands.erase p, received := m.received ++ [p.2] }
    else none

def reset (m : Messages) : Messages :=
  { m with log := m.log.takeAll, discarded := m.discarded ++ m.log.queue }

/-- The messages after a step; a call that returns an error does nothing. -/
def next (q : MqId) (m : Messages) : Option Ret → Option Messages
  | some (.mqSend _ q' buffer urgent .eok) => some (if q' = q then { m with log := m.log.send buffer urgent } else m)
  | some (.mqDetach c q') => if q' = q then m.detach c else some m
  | some (.mqRecv c q' .eok buffer) => if q' = q then m.recv c buffer else some m
  | some (.mqReset q') => some (if q' = q then m.reset else m)
  | _ => some m

/-- The messages after a run. -/
def replay (q : MqId) (ls : List (Ev × Option Ret)) : Option Messages := ls.foldlM (fun m l => m.next q l.2) empty

variable {q : MqId} {m m' : Messages} {c : Context} {buffer : List (BitVec 8)} {ls : List (Ev × Option Ret)}
  {r : Option Ret} {x : Message}

theorem replay_snoc {l : Ev × Option Ret} :
    replay q (ls ++ [l]) = (replay q ls).bind fun m => m.next q l.2 := by
  simp [replay, List.foldlM_append]

/-- A step that does nothing with the message queue. -/
theorem next_of_idle (hr : ∀ x ∈ r, x.obj = some (.mq q) → x.acts = false) : m.next q r = some m := by
  unfold next
  split
  · rw [if_neg fun hq => by simpa [Ret.acts] using hr _ rfl (by simp [hq])]
  · rw [if_neg fun hq => by simpa [Ret.acts] using hr _ rfl (by simp [hq])]
  · rw [if_neg fun hq => by simpa [Ret.acts] using hr _ rfl (by simp [hq])]
  · rw [if_neg fun hq => by simpa [Ret.acts] using hr _ rfl (by simp [hq])]
  · rfl

theorem log_of_recv (hr : m.recv c buffer = some m') : m'.log = m.log := by
  unfold recv at hr
  split at hr
  · cases hr
  · split at hr
    · rw [← Option.some.inj hr]
    · cases hr

theorem order_next (hn : m.next q r = some m') : m.log.order.Sublist m'.log.order := by
  unfold next at hn
  split at hn
  · cases hn
    split
    · exact Deque.Log.order_send
    · exact List.Sublist.refl _
  · split at hn
    · unfold detach at hn
      split at hn
      · cases hn
      · rename_i ht
        cases hn
        rw [← Deque.Log.order_take ht]
    · rw [Option.some.inj hn]
  · split at hn
    · rw [log_of_recv hn]
    · rw [Option.some.inj hn]
  · cases hn
    split
    · rw [reset, Deque.Log.order_takeAll]
    · exact List.Sublist.refl _
  · rw [Option.some.inj hn]

theorem order_foldlM (hm : ls.foldlM (fun m l => m.next q l.2) m = some m') :
    m.log.order.Sublist m'.log.order := by
  induction ls generalizing m with
  | nil => rw [Option.some.inj hm]
  | cons l ls ih =>
    obtain ⟨m1, h1, h2⟩ := Option.bind_eq_some_iff.1 hm
    exact (order_next h1).trans (ih h2)

/-- A message is taken off the queue where it stood when it was linked. -/
theorem order_replay {ls' : List (Ev × Option Ret)} (hm : replay q (ls ++ ls') = some m') :
    ∃ m, replay q ls = some m ∧ m.log.order.Sublist m'.log.order := by
  unfold replay at hm
  rw [List.foldlM_append] at hm
  obtain ⟨m, h1, h2⟩ := Option.bind_eq_some_iff.1 hm
  exact ⟨m, h1, order_foldlM h2⟩

/-- Nothing is lost, doubled or overtaken, but by urgent messages. -/
structure Settled (m : Messages) : Prop where
  ordered : m.log.Ordered
  taken : (m.received ++ m.discarded ++ m.hands.map Prod.snd).Perm m.log.taken
  /-- A caller has one message in its hands. -/
  one : (m.hands.map Prod.fst).Nodup

theorem Settled.empty : empty.Settled := ⟨.empty, .nil, .nil⟩

theorem Settled.send (hs : m.Settled) (buffer : List (BitVec 8)) (urgent : Bool) :
    Settled { m with log := m.log.send buffer urgent } :=
  ⟨hs.ordered.send buffer urgent, hs.taken, hs.one⟩

theorem Settled.detach {log : Deque.Log (List (BitVec 8))} (hs : m.Settled) (hx : m.log.take = some (x, log))
    (hc : c ∉ m.hands.map Prod.fst) : Settled { m with log := log, hands := m.hands ++ [(c, x)] } := by
  obtain ⟨-, -, htaken⟩ := Deque.Log.take_eq_some hx
  constructor
  · exact hs.ordered.take hx
  · rw [htaken, List.map_append, ← List.append_assoc]
    exact hs.taken.append_right _
  · rw [List.map_append]
    exact hs.one.append (by simp) (by simpa using hc)

theorem Settled.next_detach (hs : m.Settled) (hm : m.detach c = some m') (hc : ∀ x, (c, x) ∉ m.hands) : m'.Settled := by
  unfold Messages.detach at hm
  split at hm
  · cases hm
  · rename_i x log hx
    cases hm
    apply hs.detach hx
    intro hmem
    obtain ⟨p, hp, rfl⟩ := List.mem_map.1 hmem
    exact hc p.2 hp

theorem Settled.recv (hs : m.Settled) {p : Context × Message} (hp : p ∈ m.hands) :
    Settled { m with hands := m.hands.erase p, received := m.received ++ [p.2] } := by
  have hperm : m.hands.Perm (p :: m.hands.erase p) := List.perm_cons_erase hp
  constructor
  · exact hs.ordered
  · refine List.Perm.trans ?_ hs.taken
    have h1 := (hperm.map Prod.snd).append_left (m.received ++ m.discarded)
    refine List.Perm.trans ?_ h1.symm
    rw [List.map_cons, List.append_assoc, List.append_assoc, List.append_assoc]
    apply List.Perm.append_left
    exact (@List.perm_middle _ p.2 m.discarded _).symm
  · have h1 := (hperm.map Prod.fst).nodup_iff.1 hs.one
    exact (List.nodup_cons.1 h1).2

theorem Settled.reset (hs : m.Settled) : m.reset.Settled := by
  constructor
  · exact hs.ordered.takeAll
  · change (m.received ++ (m.discarded ++ m.log.queue) ++ m.hands.map Prod.snd).Perm (m.log.taken ++ m.log.queue)
    refine List.Perm.trans ?_ (hs.taken.append_right m.log.queue)
    simp only [List.append_assoc]
    exact (List.perm_append_comm.append_left _).append_left _
  · exact hs.one

/-- The message in the hands of a caller. -/
theorem Settled.find (hs : m.Settled) (hx : (c, x) ∈ m.hands) : m.hands.find? (·.1 = c) = some (c, x) := by
  have hone := hs.one
  generalize m.hands = ps at hone hx
  induction ps with
  | nil => cases hx
  | cons p ps ih =>
    rw [List.map_cons, List.nodup_cons] at hone
    rcases List.mem_cons.1 hx with rfl | hx
    · simp
    · have hne : p.1 ≠ c := by
        rintro rfl
        exact hone.1 (List.mem_map.2 ⟨_, hx, rfl⟩)
      rw [List.find?_cons_of_neg (by simpa using hne)]
      exact ih hone.2 hx

end Messages

/-! ## Frames and hands -/

section Hands

variable {q : MqId} {c : Context} {f : Frame} {fs : List Frame} {msg : Nat}

theorem Frame.obj_of_held (hf : f.held q = some msg) : f.obj = some (.mq q) := by
  cases f <;> simp_all [Frame.held, Frame.obj]

theorem Frame.held_of_head {h : ListHead} (hf : f.head = some h) : f.held q = none := by
  cases f <;> first | rfl | cases hf

theorem Frame.held_of_receives (hr : f.receives q) : (f.held q).isSome := by
  cases f <;> simp_all [Frame.receives, Frame.held]

@[simp] theorem inHand_nil : inHand q [] = none := rfl

@[simp] theorem inHand_single : inHand q [f] = f.held q := by
  unfold inHand
  rw [List.findSome?_cons]
  cases f.held q <;> rfl

theorem inHand_eq_some (hfs : fs.length ≤ 1) : inHand q fs = some msg ↔ ∃ f, fs = [f] ∧ f.held q = some msg := by
  match fs, hfs with
  | [], _ => simp
  | [f], _ => simp

/-- `rt_schedule` has nothing in hand. -/
theorem inHand_filter (fs : List Frame) : inHand q (fs.filter (· ≠ .schedule)) = inHand q fs := by
  induction fs with
  | nil => rfl
  | cons f fs ih =>
    by_cases hf : f = .schedule
    · subst hf
      rw [List.filter_cons_of_neg (by simp), ih]
      rfl
    · rw [List.filter_cons_of_pos (by simpa using hf)]
      unfold inHand at ih ⊢
      rw [List.findSome?_cons, List.findSome?_cons, ih]

end Hands

namespace Messages

/-- What is known of the buffer that the frame `f` of the caller `c` has in hand. -/
def FrameKept (q : MqId) (m : Messages) (x : MessageQueue) (c : Context) : Frame → Prop
  | .mqCopyIn q' _ buffer _ => q' = q → buffer.length ≤ x.msgSize
  | .mqLink q' msg buffer urgent => q' = q → x.Carries msg buffer ∧ (urgent = false → x.next msg = none)
  | .mqCopyOut q' msg _ => q' = q → ∃ y, (c, y) ∈ m.hands ∧ x.Carries msg y.value
  | .mqFree q' _ buffer => q' = q →
    ∃ y, (c, y) ∈ m.hands ∧ buffer.take y.value.length = y.value.take buffer.length
  | _ => True

/-- The buffers of the message queue `x`, and the messages they have. -/
structure Kept (q : MqId) (n : Nat) (m : Messages) (x : MessageQueue) (calls : Context → List Frame)
    (free bufs : List Nat) : Prop where
  lists : x.Lists free bufs
  parted : Pool.Parted n (free ++ bufs) (inHand q ∘ calls)
  queue : List.Forall₂ (fun msg y => x.Carries msg y.value) bufs m.log.queue
  frame : ∀ {c f}, calls c = [f] → FrameKept q m x c f
  hands : ∀ {c y}, (c, y) ∈ m.hands → ∃ f, calls c = [f] ∧ f.receives q

variable {q : MqId} {n : Nat} {m m' : Messages} {x x' : MessageQueue} {calls calls' : Context → List Frame}
  {free free' bufs bufs' : List Nat} {c : Context} {f : Frame} {fs : List Frame} {msg size : Nat}
  {buffer : List (BitVec 8)} {urgent : Bool} {ms : List Message}

theorem carries_congr (hq : List.Forall₂ (fun msg (y : Message) => x.Carries msg y.value) bufs ms)
    (hs : x'.msgSize = x.msgSize) (hx : ∀ msg ∈ bufs, x'.content msg = x.content msg) :
    List.Forall₂ (fun msg (y : Message) => x'.Carries msg y.value) bufs ms := by
  induction hq with
  | nil => exact .nil
  | cons hc _ ih =>
    constructor
    · exact hc.congr hs (hx _ (by simp))
    · exact ih fun msg hm => hx msg (by simp [hm])

theorem FrameKept.congr (hf : FrameKept q m x c f) (hs : x'.msgSize = x.msgSize)
    (hx : ∀ msg, f.held q = some msg → x'.content msg = x.content msg ∧ x'.next msg = x.next msg)
    (hm : ∀ y, (c, y) ∈ m.hands → (c, y) ∈ m'.hands) : FrameKept q m' x' c f := by
  cases f with
  | mqCopyIn q' msg buffer urgent =>
    intro hq
    rw [hs]
    exact hf hq
  | mqLink q' msg buffer urgent =>
    intro hq
    obtain ⟨hcontent, hnext⟩ := hx msg (if_pos hq)
    obtain ⟨hc, hn⟩ := hf hq
    rw [hnext]
    exact ⟨hc.congr hs hcontent, hn⟩
  | mqCopyOut q' msg size =>
    intro hq
    obtain ⟨y, hy, hc⟩ := hf hq
    exact ⟨y, hm y hy, hc.congr hs (hx msg (if_pos hq)).1⟩
  | mqFree q' msg buffer =>
    intro hq
    obtain ⟨y, hy, hb⟩ := hf hq
    exact ⟨y, hm y hy, hb⟩
  | _ => trivial

section

variable (hk : Kept q n m x calls free bufs)

include hk

/-- The callers that have a buffer in hand are the same. -/
theorem Kept.congr (hle : ∀ c, (calls c).length ≤ 1) (hle' : ∀ c, (calls' c).length ≤ 1)
    (hc : ∀ c f, (f.held q).isSome → (calls' c = [f] ↔ calls c = [f])) : Kept q n m x calls' free bufs := by
  have hhand : inHand q ∘ calls' = inHand q ∘ calls := by
    funext c
    apply Option.ext
    intro msg
    rw [Function.comp, Function.comp, inHand_eq_some (hle' c), inHand_eq_some (hle c)]
    constructor
    · rintro ⟨f, hf, hh⟩
      exact ⟨f, (hc c f (by simp [hh])).1 hf, hh⟩
    · rintro ⟨f, hf, hh⟩
      exact ⟨f, (hc c f (by simp [hh])).2 hf, hh⟩
  refine ⟨hk.lists, by rw [hhand]; exact hk.parted, hk.queue, fun {c f} hf => ?_, fun {c y} hy => ?_⟩
  · cases hh : f.held q with
    | none =>
      cases f with
      | mqCopyIn q' | mqLink q' | mqCopyOut q' | mqFree q' =>
        intro hq
        subst hq
        simp [Frame.held] at hh
      | _ => trivial
    | some msg => exact hk.frame ((hc c f (by simp [hh])).1 hf)
  · obtain ⟨f, hf, hr⟩ := hk.hands hy
    exact ⟨f, (hc c f (Frame.held_of_receives hr)).2 hf, hr⟩

/-- The caller `c` goes on with the frames `fs`; the other callers keep their buffers and their messages. -/
theorem Kept.move (hl : x'.Lists free' bufs')
    (hp : Pool.Parted n (free' ++ bufs') (update (inHand q ∘ calls) c (inHand q fs)))
    (hq : List.Forall₂ (fun msg y => x'.Carries msg y.value) bufs' m'.log.queue) (hs : x'.msgSize = x.msgSize)
    (hx : ∀ d msg, d ≠ c → inHand q (calls d) = some msg → x'.content msg = x.content msg ∧ x'.next msg = x.next msg)
    (hf : ∀ f, fs = [f] → FrameKept q m' x' c f) (hm : ∀ d y, d ≠ c → ((d, y) ∈ m'.hands ↔ (d, y) ∈ m.hands))
    (hr : ∀ y, (c, y) ∈ m'.hands → ∃ f, fs = [f] ∧ f.receives q) :
    Kept q n m' x' (update calls c fs) free' bufs' := by
  refine ⟨hl, by rw [Function.comp_update]; exact hp, hq, fun {d f} hd => ?_, fun {d y} hy => ?_⟩
  · by_cases e : d = c
    · subst e
      rw [update_self] at hd
      exact hf f hd
    · rw [update_of_ne e] at hd
      refine (hk.frame hd).congr hs (fun msg hh => hx d msg e ?_) fun y => (hm d y e).2
      rw [hd, inHand_single, hh]
  · by_cases e : d = c
    · subst e
      rw [update_self]
      exact hr y hy
    · rw [update_of_ne e]
      exact hk.hands ((hm d y e).1 hy)

/-- A caller without a message. -/
theorem Kept.notMem_hands (hc : ∀ f, calls c = [f] → f.receives q = false)
    (y : Message) : (c, y) ∉ m.hands := by
  intro hy
  obtain ⟨f, hf, hr⟩ := hk.hands hy
  rw [hc f hf] at hr
  cases hr

theorem Kept.notMem_of_inHand (hc : inHand q (calls c) = none) (y : Message) : (c, y) ∉ m.hands := by
  apply hk.notMem_hands
  intro f hf
  rw [hf, inHand_single] at hc
  by_contra hr
  have hsome := Frame.held_of_receives (Bool.eq_true_of_not_eq_false hr)
  rw [hc] at hsome
  cases hsome

end

/-! ## Sections -/

/-- A sender takes the first free buffer. -/
theorem Kept.take (urgent : Bool) (hk : Kept q n m x calls free bufs) (hc : inHand q (calls c) = none)
    (hf : x.msgQueueFree = some msg) (hs : buffer.length ≤ x.msgSize) :
    ∃ free', free = msg :: free' ∧ Kept q n m (Waits.mqTaken x msg)
      (update calls c [.mqCopyIn q msg buffer urgent]) free' bufs := by
  obtain ⟨free', rfl, hl⟩ := hk.lists.taken hf
  refine ⟨free', rfl, hk.move hl ?_ (carries_congr hk.queue rfl fun _ _ => rfl) rfl (fun _ _ _ _ => ⟨rfl, rfl⟩) ?_
    (fun _ _ _ => Iff.rfl) fun y hy => absurd hy (hk.notMem_of_inHand hc y)⟩
  · have hp := hk.parted.grab (c := c) hc
    simpa [Frame.held] using hp
  · intro f hf
    obtain rfl := (List.cons.inj hf).1
    exact fun _ => hs

/-- The bytes are copied to the buffer. -/
theorem Kept.copyIn (hk : Kept q n m x calls free bufs) (hc : calls c = [.mqCopyIn q msg buffer urgent]) :
    Kept q n m (Waits.mqFilled x msg buffer urgent) (update calls c [.mqLink q msg buffer urgent])
      free bufs := by
  have hhand : (inHand q ∘ calls) c = some msg := by
    rw [Function.comp, hc, inHand_single]
    exact if_pos rfl
  have hout := hk.parted.apart hhand
  have hs : buffer.length ≤ x.msgSize := hk.frame hc rfl
  have hself : update (inHand q ∘ calls) c (inHand q [.mqLink q msg buffer urgent]) = inHand q ∘ calls := by
    rw [Function.update_eq_self_iff, hhand, inHand_single]
    exact if_pos rfl
  refine hk.move (hk.lists.filled hout) (by rw [hself]; exact hk.parted) (carries_congr hk.queue rfl ?_) rfl ?_ ?_
    (fun _ _ _ => Iff.rfl) fun y hy => absurd hy (hk.notMem_hands (fun f hf => ?_) y)
  · intro b hb
    have hne : b ≠ msg := by rintro rfl; exact hout (List.mem_append_right _ hb)
    exact update_of_ne hne _ _
  · intro d b hd hb
    have hne : b ≠ msg := by rintro rfl; exact hd (hk.parted.one hb hhand)
    refine ⟨update_of_ne hne _ _, ?_⟩
    cases urgent with
    | true => rfl
    | false => exact update_of_ne hne _ _
  · intro f hf
    obtain rfl := (List.cons.inj hf).1
    refine fun _ => ⟨MessageQueue.carries_filled hs, ?_⟩
    rintro rfl
    exact update_self _ _ _
  · rw [hc] at hf
    obtain rfl := (List.cons.inj hf).1
    rfl

theorem mqLinkMsg_next (hl : x.Lists free bufs) (hb : size ∉ free ++ bufs) (hne : size ≠ msg) :
    (Kernel.mqLinkMsg x msg urgent).next size = x.next size := by
  rw [List.mem_append, not_or] at hb
  cases urgent with
  | true => exact update_of_ne hne _ _
  | false =>
    have htail := hl.tail
    cases ht : x.msgQueueTail with
    | none => simp [Kernel.mqLinkMsg, ht]
    | some tail =>
      rw [ht] at htail
      have hout : size ≠ tail := by
        rintro rfl
        exact hb.2 (List.mem_of_getLast? htail.symm)
      simp [Kernel.mqLinkMsg, ht, hout]

@[simp] theorem mqLinkMsg_content : (Kernel.mqLinkMsg x msg urgent).content = x.content := by
  unfold Kernel.mqLinkMsg
  split <;> rfl

/-- The message is linked. -/
theorem Kept.link (hk : Kept q n m x calls free bufs) (hc : calls c = [.mqLink q msg buffer urgent]) :
    Kept q n { m with log := m.log.send buffer urgent }
      { Kernel.mqLinkMsg x msg urgent with entry := x.entry + 1 } (update calls c []) free
      (MessageQueue.insert bufs msg urgent) := by
  have hhand : (inHand q ∘ calls) c = some msg := by
    rw [Function.comp, hc, inHand_single]
    exact if_pos rfl
  have hout := hk.parted.apart hhand
  obtain ⟨hcarry, hnull⟩ := hk.frame hc rfl
  have hqueue : List.Forall₂ (fun b (y : Message) =>
      MessageQueue.Carries { Kernel.mqLinkMsg x msg urgent with entry := x.entry + 1 } b y.value) bufs m.log.queue :=
    carries_congr hk.queue (Waits.mqLinkMsg_msgSize x msg urgent) fun b _ => by rw [mqLinkMsg_content]
  have hcarry' := hcarry.congr (y := { Kernel.mqLinkMsg x msg urgent with entry := x.entry + 1 })
    (Waits.mqLinkMsg_msgSize x msg urgent) (by rw [mqLinkMsg_content])
  refine hk.move (hk.lists.linked hk.parted.nodup hout hnull) ?_ ?_ (Waits.mqLinkMsg_msgSize x msg urgent) ?_ (by simp)
    (fun _ _ _ => Iff.rfl) fun y hy => absurd hy (hk.notMem_hands (fun f hf => ?_) y)
  · refine (hk.parted.give hhand).perm ?_
    unfold MessageQueue.insert
    split
    · exact List.perm_middle
    · rw [← List.append_assoc]
      exact List.perm_append_singleton _ _
  · cases urgent with
    | true => exact .cons hcarry' hqueue
    | false =>
      exact List.rel_append hqueue (.cons hcarry' .nil)
  · intro d b hd hb
    refine ⟨by rw [mqLinkMsg_content], mqLinkMsg_next hk.lists (hk.parted.apart hb) ?_⟩
    rintro rfl
    exact hd (hk.parted.one hb hhand)
  · rw [hc] at hf
    obtain rfl := (List.cons.inj hf).1
    rfl

/-- A receiver takes the first message off the queue. -/
theorem Kept.detach (size : Nat) (hk : Kept q n m x calls free bufs) (hc : inHand q (calls c) = none)
    (hh : x.msgQueueHead = some msg) :
    ∃ m' bufs', m.detach c = some m' ∧ Kept q n m' (Waits.mqDetached x msg)
      (update calls c [.mqCopyOut q msg size]) free bufs' := by
  obtain ⟨bufs', rfl, hl⟩ := hk.lists.detached (List.nodup_append.1 hk.parted.nodup).2.1 hh
  have hqueue := hk.queue
  generalize hms : m.log.queue = ms at hqueue
  cases hqueue with
  | @cons _ y _ ys hcarry hrest =>
    have htake : m.log.take = some (y, { m.log with queue := ys, taken := m.log.taken ++ [y] }) := by
      unfold Deque.Log.take
      rw [hms]
    have hrest' : List.Forall₂ (fun b (y : Message) => (Waits.mqDetached x msg).Carries b y.value) bufs' ys :=
      carries_congr hrest rfl fun _ _ => rfl
    refine ⟨_, bufs', by rw [Messages.detach, htake], hk.move hl ?_ hrest' rfl (fun _ _ _ _ => ⟨rfl, rfl⟩) ?_ ?_ ?_⟩
    · have hmiddle : (free ++ msg :: bufs').Perm (msg :: (free ++ bufs')) := List.perm_middle
      have hp := (hk.parted.perm hmiddle.symm).grab (c := c) hc
      simpa [Frame.held] using hp
    · intro f hf
      obtain rfl := (List.cons.inj hf).1
      exact fun _ => ⟨y, by simp, hcarry.congr rfl rfl⟩
    · intro d z hd
      simp [hd]
    · intro z _
      exact ⟨_, rfl, by simp [Frame.receives]⟩

/-- The bytes are copied to the receiver. -/
theorem Kept.copyOut (hk : Kept q n m x calls free bufs) (hc : calls c = [.mqCopyOut q msg size]) :
    Kept q n m x (update calls c [.mqFree q msg (Kernel.mqBytes x msg size)]) free bufs := by
  have hhand : (inHand q ∘ calls) c = some msg := by
    rw [Function.comp, hc, inHand_single]
    exact if_pos rfl
  have hself : update (inHand q ∘ calls) c (inHand q [.mqFree q msg (Kernel.mqBytes x msg size)]) =
      inHand q ∘ calls := by
    rw [Function.update_eq_self_iff, hhand, inHand_single]
    exact if_pos rfl
  obtain ⟨y, hy, hcarry⟩ := hk.frame hc rfl
  refine hk.move hk.lists (by rw [hself]; exact hk.parted) hk.queue rfl (fun _ _ _ _ => ⟨rfl, rfl⟩) ?_
    (fun _ _ _ => Iff.rfl) fun _ _ => ⟨_, rfl, by simp [Frame.receives]⟩
  intro f hf
  obtain rfl := (List.cons.inj hf).1
  refine fun _ => ⟨y, hy, hcarry.take_mqBytes size⟩

/-- The receiver puts its buffer back and returns. -/
theorem Kept.giveBack (hk : Kept q n m x calls free bufs) (hs : m.Settled) (hc : calls c = [.mqFree q msg buffer]) :
    ∃ m', m.recv c buffer = some m' ∧ m'.Settled ∧
      Kept q n m' (Waits.mqFreed x msg) (update calls c []) (msg :: free) bufs := by
  have hhand : (inHand q ∘ calls) c = some msg := by
    rw [Function.comp, hc, inHand_single]
    exact if_pos rfl
  have hout := hk.parted.apart hhand
  obtain ⟨y, hy, hbytes⟩ := hk.frame hc rfl
  have hrecv : m.recv c buffer = some { m with hands := m.hands.erase (c, y), received := m.received ++ [y] } := by
    unfold Messages.recv
    rw [hs.find hy]
    exact if_pos hbytes
  refine ⟨_, hrecv, hs.recv hy, hk.move (hk.lists.freed hout) (hk.parted.give hhand)
    (carries_congr hk.queue rfl fun _ _ => rfl) rfl ?_ (by simp) ?_ ?_⟩
  · intro d b hd hb
    refine ⟨rfl, update_of_ne ?_ _ _⟩
    rintro rfl
    exact hd (hk.parted.one hb hhand)
  · intro d z hd
    exact List.mem_erase_of_ne fun e => hd (Prod.mk.inj e).1
  · intro z hz
    have hperm := ((List.perm_cons_erase hy).map Prod.fst).nodup_iff.1 hs.one
    exact absurd (List.mem_map.2 ⟨_, hz, rfl⟩) (List.nodup_cons.1 hperm).1

/-- A reset puts all messages of the queue on the free list. -/
theorem Kept.reset {fuel : Nat} (hk : Kept q n m x calls free bufs) (hx : Kernel.mqReleaseAll fuel x = some x') :
    Kept q n m.reset { x' with entry := 0 } calls (bufs.reverse ++ free) [] := by
  obtain ⟨hl, hnext⟩ := MessageQueue.Lists.released hk.lists.free hk.lists.queue hk.lists.tail hk.parted.nodup hx
  refine ⟨hl, hk.parted.perm ?_, .nil, fun {c f} hf => ?_, hk.hands⟩
  · rw [List.append_nil]
    exact ((List.reverse_perm bufs).append_right free).trans List.perm_append_comm
  · have hsize : x'.msgSize = x.msgSize := Waits.mqReleaseAll_msgSize hx
    refine (hk.frame hf).congr hsize (fun b hb => ?_) fun y hy => hy
    refine ⟨congrFun (MessageQueue.mqReleaseAll_content hx) b, hnext b fun hm => ?_⟩
    refine hk.parted.apart (c := c) (x := b) ?_ (List.mem_append_right _ hm)
    rw [Function.comp, hf, inHand_single, hb]

end Messages

end RtThread
