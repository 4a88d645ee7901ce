import RtThread.Lib.Places
import RtThread.Lib.Singly
import RtThread.Lwp.ChannelProtocol

/-!
# The messages of IPC channels

Where the messages of the pool are (`Pool`), and what a channel is as a protocol (`Channel.prot`). A message that a section
has in its hand is in no place that the protocol looks at, so writing it, or giving it back, is not seen there.
-/

namespace RtThread.LwpIpc

open Function (update)
open Places (Placed)
open Singly (Chain)

/-- The places of messages. None is in a hand outside of a section. -/
inductive MsgPlace
  | free
  | unused
  | waitMsg
  | msgRet (t : Nat)
  | hand
deriving DecidableEq

namespace Channel

variable {δ : Type} {max m t : Nat} {s s' : Channel δ} {hand xs ys : List Nat} {x : ChannelThread} {v : IpcMsg δ}

def items (max : Nat) (s : Channel δ) (free hand : List Nat) : MsgPlace → List Nat
  | .free => free
  | .unused => List.range' s.msgUsed (max - s.msgUsed)
  | .waitMsg => s.waitMsg
  | .msgRet t => (s.thread t).msgRet.toList
  | .hand => hand

/-- Every message is in one place, and the free list links the free ones. -/
structure Pool (max : Nat) (hand : List Nat) (s : Channel δ) : Prop where
  used : s.msgUsed ≤ max
  placed : ∃ free, Chain (fun i => (s.msg i).sender) s.msgFreeList free ∧ Placed max (s.items max free hand)

@[simp] theorem setThread_self : (s.setThread t x).thread t = x := Function.update_self ..

@[simp] theorem setThread_of_ne {t' : Nat} (h : t' ≠ t) : (s.setThread t x).thread t' = s.thread t' :=
  Function.update_of_ne h ..

/-! ## Between the places -/

namespace Pool

theorem congr (h : Pool max hand s) (hmsg : s'.msg = s.msg) (hfree : s'.msgFreeList = s.msgFreeList)
    (hused : s'.msgUsed = s.msgUsed) (hwait : s'.waitMsg = s.waitMsg)
    (hret : ∀ t, (s'.thread t).msgRet = (s.thread t).msgRet) : Pool max hand s' := by
  obtain ⟨free, hc, hp⟩ := h.placed
  refine ⟨by rw [hused]; exact h.used, free, by rw [hmsg, hfree]; exact hc, hp.perm fun p => ?_⟩
  have heq : s'.items max free hand p = s.items max free hand p := by
    cases p with
    | unused => rw [items, items, hused]
    | waitMsg => exact hwait
    | msgRet t => rw [items, items, hret t]
    | _ => rfl
  rw [heq]

theorem alloc (h : Pool max [] s) (ha : s.msgAlloc max = some (m, s')) :
    ∃ free used, s' = { s with msgFreeList := free, msgUsed := used } ∧ Pool max [m] s' := by
  obtain ⟨free, hc, hp⟩ := h.placed
  rw [msgAlloc] at ha
  cases hf : s.msgFreeList with
  | some p =>
    rw [hf] at ha hc
    obtain ⟨rfl, rfl⟩ : p = m ∧ _ = s' := by simpa using ha
    cases free with
    | nil => cases hc
    | cons q rest =>
      obtain rfl := Option.some.inj hc.1
      refine ⟨_, s.msgUsed, rfl, h.used, rest, hc.2, hp.move (p := .free) (q := .hand) (nofun) .rfl .rfl ?_⟩
      intro r hr hr'
      cases r with
      | free => exact absurd rfl hr
      | hand => exact absurd rfl hr'
      | _ => rfl
  | none =>
    rw [hf] at ha hc
    dsimp only at ha
    obtain ⟨hlt, ha⟩ := Option.ite_none_right_eq_some.1 ha
    obtain ⟨rfl, rfl⟩ : s.msgUsed = m ∧ _ = s' := by simpa using ha
    have hrange : List.range' s.msgUsed (max - s.msgUsed) =
        s.msgUsed :: List.range' (s.msgUsed + 1) (max - (s.msgUsed + 1)) := by
      obtain ⟨k, hk⟩ : ∃ k, max - s.msgUsed = k + 1 := ⟨max - s.msgUsed - 1, by omega⟩
      rw [hk, List.range'_succ]
      congr 2
      omega
    refine ⟨none, s.msgUsed + 1, by rw [← hf], hlt, free, hc,
      hp.move (p := .unused) (q := .hand) (nofun) (.of_eq hrange) .rfl ?_⟩
    intro r hr hr'
    cases r with
    | unused => exact absurd rfl hr
    | hand => exact absurd rfl hr'
    | _ => rfl

/-- A message in the hand is in no other place. -/
theorem hand_only (h : Pool max [m] s) :
    m ∉ s.waitMsg ∧ (∀ t, (s.thread t).msgRet ≠ some m) := by
  obtain ⟨free, -, hp⟩ := h.placed
  have hm : m ∈ s.items max free [m] .hand := List.mem_cons_self
  refine ⟨fun hw => ?_, fun t ht => ?_⟩
  · cases hp.one (p := .waitMsg) hw hm
  · have hmem : m ∈ s.items max free [m] (.msgRet t) := by
      rw [items, ht]
      exact List.mem_cons_self
    cases hp.one hmem hm

/-- The message in the hand is written. -/
theorem write (h : Pool max [m] s) (v : IpcMsg δ) : Pool max [m] { s with msg := update s.msg m v } := by
  obtain ⟨free, hc, hp⟩ := h.placed
  refine ⟨h.used, free, hc.congr fun i hi => ?_, hp⟩
  have hne : i ≠ m := by
    rintro rfl
    cases hp.one (p := .free) (q := .hand) hi List.mem_cons_self
  dsimp only
  rw [Function.update_of_ne hne]

theorem msgFree (h : Pool max [m] s) : Pool max [] (s.msgFree m) := by
  obtain ⟨free, hc, hp⟩ := h.placed
  have hnot : m ∉ free := by
    intro hm
    cases hp.one (p := .free) (q := .hand) hm List.mem_cons_self
  refine ⟨h.used, m :: free, ⟨rfl, ?_⟩, hp.move (p := .hand) (q := .free) (nofun) .rfl .rfl ?_⟩
  · dsimp only [Channel.msgFree]
    rw [Function.update_self]
    refine hc.congr fun i hi => ?_
    have hne : i ≠ m := by
      rintro rfl
      exact hnot hi
    rw [Function.update_of_ne hne]
  · intro r hr hr'
    cases r with
    | free => exact absurd rfl hr'
    | hand => exact absurd rfl hr
    | _ => rfl

/-- A message is put into the queue. -/
theorem put (h : Pool max [m] s) : Pool max [] { s with waitMsg := s.waitMsg ++ [m] } := by
  obtain ⟨free, hc, hp⟩ := h.placed
  refine ⟨h.used, free, hc, hp.move (p := .hand) (q := .waitMsg) (nofun) .rfl (List.perm_append_singleton _ _) ?_⟩
  intro r hr hr'
  cases r with
  | waitMsg => exact absurd rfl hr'
  | hand => exact absurd rfl hr
  | _ => rfl

/-- A message is taken out of the queue. -/
theorem take (h : Pool max [] s) (hw : s.waitMsg = xs ++ m :: ys) : Pool max [m] { s with waitMsg := xs ++ ys } := by
  obtain ⟨free, hc, hp⟩ := h.placed
  refine ⟨h.used, free, hc, hp.move (p := .waitMsg) (q := .hand) (nofun) ?_ .rfl ?_⟩
  · show s.waitMsg.Perm (m :: (xs ++ ys))
    rw [hw]
    exact List.perm_middle
  · intro r hr hr'
    cases r with
    | waitMsg => exact absurd rfl hr
    | hand => exact absurd rfl hr'
    | _ => rfl

theorem items_setThread {free : List Nat} {p : MsgPlace} (hp : p ≠ .msgRet t) (hp' : p ≠ .hand) {hand' : List Nat} :
    (s.setThread t x).items max free hand' p = s.items max free hand p := by
  cases p with
  | msgRet t' =>
    have hne : t' ≠ t := by
      rintro rfl
      exact hp rfl
    rw [items, items, setThread_of_ne hne]
  | hand => exact absurd rfl hp'
  | _ => rfl

/-- A thread gets a message. -/
theorem give (h : Pool max [m] s) (hret : (s.thread t).msgRet = none) (hx : x.msgRet = some m) :
    Pool max [] (s.setThread t x) := by
  obtain ⟨free, hc, hp⟩ := h.placed
  refine ⟨h.used, free, hc, hp.move (p := .hand) (q := .msgRet t) (nofun) .rfl ?_ ?_⟩
  · rw [items, items, setThread_self, hx, hret]
    exact .rfl
  · intro r hr hr'
    exact items_setThread hr' hr

/-- A thread gives its message back. -/
theorem giveBack (h : Pool max [] s) (hret : (s.thread t).msgRet = some m) (hx : x.msgRet = none) :
    Pool max [m] (s.setThread t x) := by
  obtain ⟨free, hc, hp⟩ := h.placed
  refine ⟨h.used, free, hc, hp.move (p := .msgRet t) (q := .hand) (nofun) ?_ .rfl ?_⟩
  · rw [items, items, setThread_self, hx, hret]
    exact .rfl
  · intro r hr hr'
    exact items_setThread hr hr'

/-- A thread goes on, with the message that it has. -/
theorem setThread (h : Pool max hand s) (hx : x.msgRet = (s.thread t).msgRet) : Pool max hand (s.setThread t x) := by
  refine h.congr rfl rfl rfl rfl fun t' => ?_
  by_cases htt : t' = t
  · subst htt
    rw [setThread_self]
    exact hx
  · rw [setThread_of_ne htt]

end Pool

/-! ## The protocol -/

def entry (s : Channel δ) (m : Nat) : Entry δ := ⟨(s.msg m).sender, (s.msg m).needReply, (s.msg m).data, s.number m⟩

def protThread (s : Channel δ) (x : ChannelThread) : ProtocolThread δ :=
  ⟨x.error, x.msgRet.map s.entry, x.wakeup, x.timer, x.pc, x.request⟩

def prot (s : Channel δ) : Protocol δ where
  stat := s.stat
  reply := s.reply
  queue := s.waitMsg.map s.entry
  waitThread := s.waitThread
  suspendThread := s.suspendThread
  thread := fun t => s.protThread (s.thread t)
  accepted := s.accepted
  received := s.received
  replies := s.replies
  returned := s.returned

theorem prot_thread_setThread : (s.setThread t x).prot.thread = update s.prot.thread t (s.protThread x) := by
  funext t'
  by_cases htt : t' = t
  · subst htt
    rw [Function.update_self]
    show (s.setThread t' x).protThread ((s.setThread t' x).thread t') = s.protThread x
    rw [setThread_self]
    rfl
  · rw [Function.update_of_ne htt]
    show (s.setThread t x).protThread ((s.setThread t x).thread t') = s.protThread (s.thread t')
    rw [setThread_of_ne htt]
    rfl

theorem prot_setThread :
    (s.setThread t x).prot = { s.prot with thread := update s.prot.thread t (s.protThread x) } := by
  rw [← prot_thread_setThread]
  rfl

/-- What happens to the message in the hand, and to the free list, is not seen. -/
theorem Pool.prot_eq (h : Pool max [m] s) {msg : Nat → IpcMsg δ} {number : Nat → Nat} {free : Option Nat}
    (hmsg : ∀ i, i ≠ m → msg i = s.msg i) (hnumber : ∀ i, i ≠ m → number i = s.number i) :
    prot { s with msg := msg, number := number, msgFreeList := free } = s.prot := by
  obtain ⟨hw, hret⟩ := h.hand_only
  have hentry : ∀ i, i ≠ m → entry { s with msg := msg, number := number, msgFreeList := free } i = s.entry i := by
    intro i hi
    rw [entry, entry]
    dsimp only
    rw [hmsg i hi, hnumber i hi]
  have hqueue : s.waitMsg.map (entry { s with msg := msg, number := number, msgFreeList := free }) = s.waitMsg.map s.entry := by
    apply List.map_congr_left
    intro i hi
    apply hentry
    rintro rfl
    exact hw hi
  have hthread : (prot { s with msg := msg, number := number, msgFreeList := free }).thread = s.prot.thread := by
    funext t
    show protThread { s with msg := msg, number := number, msgFreeList := free } (s.thread t) = s.protThread (s.thread t)
    rw [protThread, protThread]
    congr 1
    cases hr : (s.thread t).msgRet with
    | none => rfl
    | some i =>
      have hne : i ≠ m := by
        rintro rfl
        exact hret t hr
      exact congrArg some (hentry i hne)
  show Protocol.mk _ _ (s.waitMsg.map (entry { s with msg := msg, number := number, msgFreeList := free })) _ _
    (prot { s with msg := msg, number := number, msgFreeList := free }).thread _ _ _ _ = _
  rw [hqueue, hthread]
  rfl

theorem Pool.prot_msgFree (h : Pool max [m] s) : (s.msgFree m).prot = s.prot :=
  h.prot_eq (fun _ hi => Function.update_of_ne hi _ _) fun _ _ => rfl

theorem prot_put : prot { s with waitMsg := s.waitMsg ++ [m] } = { s.prot with queue := s.prot.queue ++ [s.entry m] } := by
  show Protocol.mk _ _ ((s.waitMsg ++ [m]).map s.entry) _ _ _ _ _ _ _ = _
  rw [List.map_append]
  rfl

end Channel

end RtThread.LwpIpc
