import Mathlib.Data.List.Perm.Basic
import Mathlib.Data.List.Range

/-!
# A double-ended queue with its history

Values are sent to the end of a queue, or (urgent ones) to its front, and taken from the front. A `Log` keeps what was
sent and what was taken, numbered by the sends. Nothing is lost, doubled or overtaken, but by urgent values (`Ordered`),
and a value is taken where it stood when it was sent (`order_send`, `order_take`).
-/

namespace Deque

variable {α : Type}

/-- A value that was sent, with the number of the send. -/
structure Item (α : Type) where
  tag : Nat
  value : α
  urgent : Bool
  deriving DecidableEq, Repr

/-- What was sent, what is queued, and what was taken, in this order. -/
structure Log (α : Type) where
  sent : List (Item α)
  queue : List (Item α)
  taken : List (Item α)
  deriving DecidableEq, Repr

namespace Log

def empty : Log α := { sent := [], queue := [], taken := [] }

/-- The next value to be sent. -/
def item (m : Log α) (value : α) (urgent : Bool) : Item α := { tag := m.sent.length, value := value, urgent := urgent }

def send (m : Log α) (value : α) (urgent : Bool) : Log α :=
  let x := m.item value urgent
  { m with sent := m.sent ++ [x], queue := if urgent then x :: m.queue else m.queue ++ [x] }

/-- The first value is taken. -/
def take (m : Log α) : Option (Item α × Log α) :=
  match m.queue with
  | [] => none
  | x :: xs => some (x, { m with queue := xs, taken := m.taken ++ [x] })

def takeAll (m : Log α) : Log α := { m with queue := [], taken := m.taken ++ m.queue }

/-- The values in the order they are taken in, if no more are sent. -/
def order (m : Log α) : List (Item α) := m.taken ++ m.queue

variable {m m' : Log α} {value : α} {urgent : Bool} {x : Item α}

theorem take_eq_some (ht : m.take = some (x, m')) :
    m.queue = x :: m'.queue ∧ m'.sent = m.sent ∧ m'.taken = m.taken ++ [x] := by
  unfold take at ht
  split at ht
  · cases ht
  · rename_i y ys hq
    cases ht
    exact ⟨hq, rfl, rfl⟩

/-- A value that is sent normally comes last, an urgent one before those queued; the others stay in order. -/
theorem order_send : m.order.Sublist (m.send value urgent).order := by
  unfold order send
  apply List.Sublist.append_left
  split
  · exact List.sublist_cons_self _ _
  · exact List.sublist_append_left _ _

theorem order_take (ht : m.take = some (x, m')) : m'.order = m.order := by
  obtain ⟨hq, -, htaken⟩ := take_eq_some ht
  simp [order, hq, htaken]

theorem order_takeAll : m.takeAll.order = m.order := by simp [order, takeAll]

/-- Every value sent is in the order once, the normal ones as they were sent. -/
structure Ordered (m : Log α) : Prop where
  tags : m.sent.map Item.tag = List.range m.sent.length
  once : m.order.Perm m.sent
  normal : (m.order.filter fun x => !x.urgent).Sublist m.sent

theorem Ordered.empty : (empty : Log α).Ordered := ⟨rfl, .nil, List.Sublist.refl _⟩

theorem Ordered.of_order (ho : m.Ordered) (hs : m'.sent = m.sent) (horder : m'.order = m.order) : m'.Ordered := by
  constructor
  · rw [hs]; exact ho.tags
  · rw [hs, horder]; exact ho.once
  · rw [hs, horder]; exact ho.normal

theorem Ordered.take (ho : m.Ordered) (ht : m.take = some (x, m')) : m'.Ordered :=
  ho.of_order (take_eq_some ht).2.1 (order_take ht)

theorem Ordered.takeAll (ho : m.Ordered) : m.takeAll.Ordered := ho.of_order rfl order_takeAll

theorem Ordered.send (ho : m.Ordered) (value : α) (urgent : Bool) : (m.send value urgent).Ordered := by
  have hlast : (m.order ++ [m.item value urgent]).Perm (m.sent ++ [m.item value urgent]) := ho.once.append_right _
  constructor
  · change (m.sent ++ [m.item value urgent]).map Item.tag = List.range (m.sent ++ [m.item value urgent]).length
    rw [List.map_append, ho.tags, List.length_append, List.length_singleton, List.range_succ]
    rfl
  · cases urgent with
    | true =>
      refine List.Perm.trans ?_ hlast
      change (m.taken ++ ([m.item value true] ++ m.queue)).Perm (m.taken ++ m.queue ++ [m.item value true])
      rw [List.append_assoc]
      exact List.perm_append_comm.append_left _
    | false =>
      change (m.taken ++ (m.queue ++ [m.item value false])).Perm _
      rw [← List.append_assoc]
      exact hlast
  · cases urgent with
    | true =>
      refine List.Sublist.trans ?_ (ho.normal.trans (List.sublist_append_left _ _))
      simp [order, Log.send, item]
    | false =>
      change ((m.taken ++ (m.queue ++ [m.item value false])).filter _).Sublist _
      rw [← List.append_assoc, List.filter_append]
      exact ho.normal.append (by simp [item])

end Log

end Deque
