import Mathlib.Data.List.Basic
import RtThread.Lib.Runs

/-!
# A queue of bounded length

Values are appended to a queue that holds `cap` of them: what does not fit is left out (`put`), or pushes the oldest
values out (`force`).
-/

namespace Fifo

variable {α : Type} {cap : Nat} {q xs ys : List α}

/-- The longest prefix of `xs` that fits is appended. -/
def put (cap : Nat) (q xs : List α) : List α := q ++ xs.take (cap - q.length)

/-- All of `xs` is appended, and the last `cap` values stay. -/
def force (cap : Nat) (q xs : List α) : List α := (q ++ xs).drop ((q ++ xs).length - cap)

/-- What does not have to make room stays. -/
theorem force_eq (hx : xs.length ≤ cap) : force cap q xs = q.drop (q.length + xs.length - cap) ++ xs := by
  rw [force, List.length_append, List.drop_append]
  have h0 : q.length + xs.length - cap - q.length = 0 := by omega
  rw [h0, List.drop_zero]

/-- Values that fit push nothing out. -/
theorem force_of_fit (h : q.length + xs.length ≤ cap) : force cap q xs = q ++ xs := by
  rw [force, List.length_append, Nat.sub_eq_zero_of_le h, List.drop_zero]

/-- Of values that are more than `cap`, the last `cap` count. -/
theorem force_append (hy : cap ≤ ys.length) : force cap q (xs ++ ys) = force cap q ys := by
  have h1 : (q ++ (xs ++ ys)).length - cap = (q ++ xs).length + (ys.length - cap) := by
    simp only [List.length_append]
    omega
  have h2 : (q ++ ys).length - cap = q.length + (ys.length - cap) := by
    simp only [List.length_append]
    omega
  rw [force, force, h1, h2, ← List.append_assoc, List.drop_length_add_append, List.drop_length_add_append]

/-! ## Runs

The queue with its history: values are appended while there is room, and taken from the front.
-/

/-- What may happen to the queue. -/
inductive Act (α : Type)
  | push (v : α)
  | refuse
  | pop (v : α)
  | look (v : α)
  | count (n : Nat)
  | miss
  | pass

/-- What each of them needs and does: a refusal needs a full queue, a miss an empty one. -/
def Next (cap : Nat) (q : List α) : Act α → List α → Prop
  | .push v, q' => q.length < cap ∧ q' = q ++ [v]
  | .refuse, q' => q.length = cap ∧ q' = q
  | .pop v, q' => q = v :: q'
  | .look v, q' => q.head? = some v ∧ q' = q
  | .count n, q' => q.length = n ∧ q' = q
  | .miss, q' => q = [] ∧ q' = q
  | .pass, q' => q' = q

/-- The values appended. -/
def pushed : List (Act α) → List α
  | [] => []
  | .push v :: as => v :: pushed as
  | _ :: as => pushed as

/-- The values taken. -/
def popped : List (Act α) → List α
  | [] => []
  | .pop v :: as => v :: popped as
  | _ :: as => popped as

variable {as bs : List (Act α)} {a : Act α} {q' q'' : List α}

theorem pushed_append : pushed (as ++ bs) = pushed as ++ pushed bs := by
  induction as with
  | nil => rfl
  | cons a as ih => cases a <;> simp [pushed, ih]

theorem popped_append : popped (as ++ bs) = popped as ++ popped bs := by
  induction as with
  | nil => rfl
  | cons a as ih => cases a <;> simp [popped, ih]

/-- The queue is what was appended and not taken yet: each value is taken once, in its turn. -/
theorem Next.order (h : Next cap q a q') (hq : pushed as = popped as ++ q) :
    pushed (as ++ [a]) = popped (as ++ [a]) ++ q' := by
  rw [pushed_append, popped_append, hq]
  cases a with
  | push v =>
    obtain ⟨-, rfl⟩ := h
    simp [pushed, popped]
  | pop v =>
    obtain rfl : q = v :: q' := h
    simp [pushed, popped]
  | pass =>
    obtain rfl : q' = q := h
    simp [pushed, popped]
  | refuse | look v | count n | miss =>
    obtain ⟨-, rfl⟩ := h
    simp [pushed, popped]

theorem run_order (h : Runs.Run (Next cap) [] as q) : pushed as = popped as ++ q :=
  h.history (I := fun as q => pushed as = popped as ++ q) rfl fun _ _ _ _ hq hn => hn.order hq

/-- What happened says what is queued. -/
theorem run_unique (h : Runs.Run (Next cap) [] as q) (h' : Runs.Run (Next cap) [] as q') : q = q' := by
  have heq : popped as ++ q = popped as ++ q' := by rw [← run_order h, ← run_order h']
  exact List.append_cancel_left heq

end Fifo
