import Mathlib.Data.List.Nodup

/-!
# `clk.c`: preparing and enabling a clock

A clock node is given with the nodes above it, as `rt_clk_register` links them. The callbacks of a node are drivers' code:
`out` says what a callback returns after the calls that have been made, and every call is kept in a log, with the handle
that the callback is given.
-/

namespace RtThread.Clk

/-- The callbacks of `struct rt_clk_ops` that are called here. -/
inductive Callback
  | prepare | unprepare | enable | disable
  deriving DecidableEq

/-- The callback returns an error code. -/
def Callback.isOn : Callback → Bool
  | .prepare | .enable => true
  | .unprepare | .disable => false

/-- `struct rt_clk_ops`: whether each callback is there. -/
structure Ops where
  prepare : Bool
  unprepare : Bool
  enable : Bool
  disable : Bool

def Ops.has (ops : Ops) : Callback → Bool
  | .prepare => ops.prepare
  | .unprepare => ops.unprepare
  | .enable => ops.enable
  | .disable => ops.disable

/-- `unused_clk_ops`. -/
def unusedClkOps : Ops := ⟨false, false, false, false⟩

/-- The fields of a `struct rt_clk_node`. `clk` is the node that its own handle points to; `none` for the error pointer of a
handle that could not be allocated. -/
structure Np where
  addr : Nat
  ops : Ops
  clk : Option Nat

/-- A `struct rt_clk_node`, with its `parent`. -/
inductive Node
  | root (np : Np)
  | child (np : Np) (parent : Node)

/-- A `struct rt_clk` that a user holds: its `clk_np`. -/
structure Handle where
  clkNp : Option Node

/-- A call of a callback: its node, the node of the handle that it gets, and what it returns (0 from those that return
nothing). -/
structure Event where
  cb : Callback
  node : Nat
  clk : Option Nat
  err : Int

namespace Node

def np : Node → Np
  | root np | child np _ => np

/-- The nodes above a node, from the root down. -/
def above : Node → List Np
  | root _ => []
  | child _ parent => parent.above ++ [parent.np]

/-- The path to a node, from the root down. -/
def path (n : Node) : List Np := n.above ++ [n.np]

end Node

/-- `clk_alloc`, for a node: the node that the new handle points to. -/
def clkAlloc (allocated : Bool) (clkNp : Nat) : Option Nat := if allocated then some clkNp else none

/-- `rt_clk_register`, of a node at `addr`. -/
def rtClkRegister (addr : Nat) (ops : Option Ops) (allocated : Bool) (parentNp : Option Node) : Node :=
  let np : Np := { addr := addr, ops := ops.getD unusedClkOps, clk := clkAlloc allocated addr }
  match parentNp with
  | none => .root np
  | some parent => .child np parent

/-- The nodes of clock trees: each one is registered once, under one that is. -/
inductive Registered : Node → Prop
  | root (addr : Nat) (ops : Option Ops) (allocated : Bool) : Registered (rtClkRegister addr ops allocated none)
  | child {parent : Node} (hp : Registered parent) (addr : Nat) (ops : Option Ops) (allocated : Bool)
      (hnew : ∀ p ∈ parent.path, p.addr ≠ addr) : Registered (rtClkRegister addr ops allocated (some parent))

/-- What the callbacks return: after the calls of a log, a callback of a node with a handle. -/
abbrev Outcomes := List Event → Callback → Nat → Option Nat → Int

section Calls

variable (out : Outcomes)

/-- The call of one callback of a node, if it is there. -/
def Np.call (np : Np) (cb : Callback) (clk : Option Nat) (log : List Event) : List Event × Int :=
  if np.ops.has cb then
    let err := if cb.isOn then out log cb np.addr clk else 0
    (log ++ [⟨cb, np.addr, clk, err⟩], err)
  else (log, 0)

/-- The recursion over the parents: it passes the node's own handle on, and ignores what the parents return. -/
def walk (cb : Callback) (clk : Option Nat) : Node → List Event → List Event × Int
  | .root np, log => np.call out cb clk log
  | .child np parent, log => np.call out cb clk (walk cb np.clk parent log).1

/-- `clk_prepare`. -/
def clkPrepare := walk out .prepare

/-- `clk_unprepare`. -/
def clkUnprepare (clk : Option Nat) (clkNp : Node) (log : List Event) : List Event := (walk out .unprepare clk clkNp log).1

/-- `clk_enable`. -/
def clkEnable := walk out .enable

/-- `clk_disable`. -/
def clkDisable (clk : Option Nat) (clkNp : Node) (log : List Event) : List Event := (walk out .disable clk clkNp log).1

/-- The node of a handle. -/
def nodeOf (clk : Option Handle) : Option Node := clk.bind Handle.clkNp

/-- `rt_clk_prepare`. -/
def rtClkPrepare (clk : Option Handle) (log : List Event) : List Event × Int :=
  match nodeOf clk with
  | some np => clkPrepare out (some np.np.addr) np log
  | none => (log, 0)

/-- `rt_clk_unprepare`. -/
def rtClkUnprepare (clk : Option Handle) (log : List Event) : List Event :=
  match nodeOf clk with
  | some np => clkUnprepare out (some np.np.addr) np log
  | none => log

/-- `rt_clk_enable`. -/
def rtClkEnable (clk : Option Handle) (log : List Event) : List Event × Int :=
  match nodeOf clk with
  | some np => clkEnable out (some np.np.addr) np log
  | none => (log, 0)

/-- `rt_clk_disable`. -/
def rtClkDisable (clk : Option Handle) (log : List Event) : List Event :=
  match nodeOf clk with
  | some np => clkDisable out (some np.np.addr) np log
  | none => log

/-- `rt_clk_prepare_enable`. -/
def rtClkPrepareEnable (clk : Option Handle) (log : List Event) : List Event × Int :=
  if clk.isSome then
    let (log, err) := rtClkPrepare out clk log
    if err = 0 then
      let (log, err) := rtClkEnable out clk log
      if err ≠ 0 then (rtClkUnprepare out clk log, err) else (log, err)
    else (log, err)
  else (log, 0)

/-- `rt_clk_disable_unprepare`. -/
def rtClkDisableUnprepare (clk : Option Handle) (log : List Event) : List Event :=
  if clk.isSome then rtClkUnprepare out clk (rtClkDisable out clk log) else log

end Calls

/-! ## What the calls promise -/

/-- The callbacks of the nodes of a list, in its order. -/
def steps (cb : Callback) (nps : List Np) : List (Callback × Nat) :=
  (nps.filter fun p => p.ops.has cb).map fun p => (cb, p.addr)

/-- The path of a handle, from the root down. -/
def pathOf (clk : Option Handle) : List Np := ((nodeOf clk).map Node.path).getD []

/-- The callback and the node of a call. -/
def Event.step (e : Event) : Callback × Nat := (e.cb, e.node)

/-- The calls of `prepare` and `enable`. -/
def onSteps (es : List Event) : List (Callback × Nat) := (es.map Event.step).filter fun s => s.1.isOn

/-- The calls of a callback at a node that have succeeded. -/
def done (es : List Event) (cb : Callback) (a : Nat) : Nat :=
  es.countP fun e => e.cb = cb ∧ e.node = a ∧ e.err = 0

/-- `rt_clk_prepare_enable` makes the calls `es` and returns `err`, and `rt_clk_disable_unprepare` after it makes `ds`. -/
structure Disciplined (nps : List Np) (es : List Event) (err : Int) (ds : List Event) : Prop where
  /-- From the root down, and each callback gets a handle of its node. -/
  order : onSteps es <+: steps .prepare nps ++ steps .enable nps
  own : ∀ e ∈ es, e.cb.isOn → e.clk = some e.node
  /-- `RT_EOK` says that all callbacks have been called, and succeeded. -/
  whole : err = 0 → onSteps es = steps .prepare nps ++ steps .enable nps
  ok : err = 0 → ∀ e ∈ es, e.cb.isOn → e.err = 0
  /-- An error says that everything is as before. -/
  balanced : err ≠ 0 → ∀ p ∈ nps, done es .prepare p.addr = done es .unprepare p.addr ∧
    done es .enable p.addr = done es .disable p.addr
  /-- A success is undone in the opposite order. -/
  undone : err = 0 → ds.map Event.step = steps .disable nps.reverse ++ steps .unprepare nps.reverse

/-- The calls of `rt_clk_prepare_enable` and of `rt_clk_disable_unprepare` after it keep what they promise. -/
def Discipline (out : Outcomes) (clk : Option Handle) (log : List Event) : Prop :=
  ∃ es ds, (rtClkPrepareEnable out clk log).1 = log ++ es ∧
    rtClkDisableUnprepare out clk (log ++ es) = (log ++ es) ++ ds ∧
    Disciplined (pathOf clk) es (rtClkPrepareEnable out clk log).2 ds

/-! ## The walks -/

variable {out : Outcomes} {cb : Callback} {clk : Option Nat} {n : Node} {np : Np}
  {log es ds : List Event}

/-- The call of a callback as a list. -/
def Np.events (np : Np) (cb : Callback) (clk : Option Nat) (err : Int) : List Event :=
  if np.ops.has cb then [⟨cb, np.addr, clk, err⟩] else []

/-- What the callback returns, or 0 if it is not there. -/
def Np.result (out : Outcomes) (np : Np) (cb : Callback) (clk : Option Nat)
    (log : List Event) : Int :=
  if np.ops.has cb && cb.isOn then out log cb np.addr clk else 0

theorem Np.call_eq : np.call out cb clk log =
    (log ++ np.events cb clk (np.result out cb clk log), np.result out cb clk log) := by
  unfold Np.call Np.events Np.result
  cases h : np.ops.has cb <;> simp

/-- What a walk adds to the log. -/
structure Walked (out : Outcomes) (cb : Callback) (clk : Option Nat) (n : Node)
    (log es : List Event) : Prop where
  log : (walk out cb clk n log).1 = log ++ es
  map_step : es.map Event.step = steps cb n.path
  err : cb.isOn = false → ∀ e ∈ es, e.err = 0

theorem steps_append (cb : Callback) (ps qs : List Np) : steps cb (ps ++ qs) = steps cb ps ++ steps cb qs := by
  simp [steps]

theorem Np.steps_events (err : Int) : (np.events cb clk err).map Event.step = steps cb [np] := by
  unfold Np.events steps
  cases h : np.ops.has cb <;> simp [h, Event.step]

variable {e : Event} {err : Int} {α : Type} {l : List α}

theorem Np.events_err (he : e ∈ np.events cb clk err) : e.err = err := by
  unfold Np.events at he
  split at he
  · rw [List.mem_singleton.1 he]
  · cases he

theorem Np.events_clk (he : e ∈ np.events cb (some np.addr) err) : e.clk = some e.node := by
  unfold Np.events at he
  split at he
  · rw [List.mem_singleton.1 he]
  · cases he

theorem Np.result_of_not_isOn (h : cb.isOn = false) : np.result out cb clk log = 0 := by simp [Np.result, h]

theorem Np.mem_events (h : np.ops.has cb = true) : ⟨cb, np.addr, clk, err⟩ ∈ np.events cb clk err := by
  rw [Np.events, if_pos h]
  exact List.mem_singleton_self _

theorem walked (out : Outcomes) (cb : Callback) (clk : Option Nat) (n : Node)
    (log : List Event) : ∃ es, Walked out cb clk n log es := by
  have hlast (np : Np) (clk : Option Nat) (log : List Event) (hcb : cb.isOn = false) :
      ∀ e ∈ np.events cb clk (np.result out cb clk log), e.err = 0 := by
    intro e he
    rw [Np.events_err he]
    simp [Np.result, hcb]
  induction n generalizing clk with
  | root np =>
    refine ⟨_, by rw [walk, Np.call_eq], ?_, hlast np clk log⟩
    exact Np.steps_events _
  | child np parent ih =>
    obtain ⟨es, W⟩ := ih np.clk
    refine ⟨es ++ np.events cb clk (np.result out cb clk (log ++ es)), ?_, ?_, fun hcb e he => ?_⟩
    · rw [walk, Np.call_eq, W.log, List.append_assoc]
    · rw [List.map_append, W.map_step, Np.steps_events]
      exact (steps_append cb parent.path [np]).symm
    · rcases List.mem_append.1 he with he | he
      · exact W.err hcb e he
      · exact hlast np clk _ hcb e he

/-- A walk over nodes without the callback calls only the one of the node itself. -/
theorem walk_of_above (h : ∀ p ∈ n.above, p.ops.has cb = false) : walk out cb clk n log = n.np.call out cb clk log := by
  induction n generalizing clk with
  | root np => rfl
  | child np parent ih =>
    have hp : ∀ p ∈ parent.above ++ [parent.np], p.ops.has cb = false := h
    have hlog : (walk out cb np.clk parent log).1 = log := by
      rw [ih fun p hm => hp p (List.mem_append_left _ hm), Np.call_eq, Np.events, hp parent.np (by simp)]
      simp
    rw [walk, hlog]
    rfl

theorem Registered.np_clk (hn : Registered n) {a : Nat} (hc : n.np.clk = some a) : a = n.np.addr := by
  have hall (allocated : Bool) (addr : Nat) (h : clkAlloc allocated addr = some a) : a = addr := by
    unfold clkAlloc at h
    split at h
    · exact (Option.some.inj h).symm
    · cases h
  cases hn with
  | root addr ops allocated => exact hall allocated addr hc
  | child hp addr ops allocated hnew => exact hall allocated addr hc

theorem Registered.above_ne (hn : Registered n) : ∀ p ∈ n.above, p.addr ≠ n.np.addr := by
  cases hn with
  | root addr ops allocated => simp [rtClkRegister, Node.above]
  | child hp addr ops allocated hnew => exact hnew

/-- A walk with a handle of no node on the path calls a callback with a handle of another node. -/
theorem exists_foreign (hn : Registered n) (hclk : ∀ p ∈ n.path, clk ≠ some p.addr)
    (hhas : ∃ p ∈ n.path, p.ops.has cb = true) (hlog : (walk out cb clk n log).1 = log ++ es) : ∃ e ∈ es, e.clk ≠ some e.node := by
  induction hn generalizing clk es with
  | root addr ops allocated =>
    obtain ⟨p, hp, hhas⟩ := hhas
    obtain rfl : p = _ := List.mem_singleton.1 hp
    simp only [rtClkRegister, walk, Np.call_eq] at hlog
    rw [← List.append_cancel_left hlog]
    exact ⟨_, Np.mem_events hhas, hclk _ hp⟩
  | @child parent hp addr ops allocated hnew ih =>
    obtain ⟨es0, W⟩ := walked out cb (clkAlloc allocated addr) parent log
    simp only [rtClkRegister, walk, Np.call_eq] at hlog
    rw [W.log, List.append_assoc] at hlog
    rw [← List.append_cancel_left hlog]
    obtain ⟨p, hm, hhas⟩ := hhas
    rcases List.mem_append.1 hm with hm | hm
    · -- The parents get the handle of the node below them.
      obtain ⟨e, he, hne⟩ := ih
        (fun q hq hc => hnew q hq ((Registered.child hp addr ops allocated hnew).np_clk hc)) ⟨p, hm, hhas⟩ W.log
      exact ⟨e, List.mem_append_left _ he, hne⟩
    · obtain rfl : p = _ := List.mem_singleton.1 hm
      exact ⟨_, List.mem_append_right _ (Np.mem_events hhas), hclk _ (List.mem_append_right _ hm)⟩

theorem Registered.foreign (hn : Registered n) (hhas : ∃ p ∈ n.above, p.ops.has cb = true)
    (hlog : (walk out cb clk n log).1 = log ++ es) : ∃ e ∈ es, e.clk ≠ some e.node := by
  cases hn with
  | root addr ops allocated => simp [rtClkRegister, Node.above] at hhas
  | @child parent hp addr ops allocated hnew =>
    obtain ⟨es0, W⟩ := walked out cb (clkAlloc allocated addr) parent log
    simp only [rtClkRegister, walk, Np.call_eq] at hlog
    rw [W.log, List.append_assoc] at hlog
    rw [← List.append_cancel_left hlog]
    obtain ⟨e, he, hne⟩ := exists_foreign hp
      (fun q hq hc => hnew q hq ((Registered.child hp addr ops allocated hnew).np_clk hc)) hhas W.log
    exact ⟨e, List.mem_append_left _ he, hne⟩

theorem Walked.cb_eq (W : Walked out cb clk n log es) (he : e ∈ es) : e.cb = cb := by
  have hm : e.step ∈ steps cb n.path := W.map_step ▸ List.mem_map_of_mem he
  obtain ⟨p, -, hp⟩ := List.mem_map.1 hm
  exact (congrArg Prod.fst hp).symm

/-! ## When the promises are kept -/

/-- The callback of the node is there and returns an error. -/
def Np.Fails (out : Outcomes) (np : Np) (cb : Callback) (log : List Event) : Prop :=
  np.result out cb (some np.addr) log ≠ 0

/-- No parent has a callback that the call reaches and handles wrongly. If `prepare` of the node fails, the call reaches
`prepare` of the parents only. -/
def Upright (out : Outcomes) (n : Node) (log : List Event) : Prop :=
  (∀ p ∈ n.above, p.ops.prepare = false) ∧
    (n.np.Fails out .prepare log ∨
      (∀ p ∈ n.above, p.ops.enable = false) ∧
        (n.np.Fails out .enable (log ++ n.np.events .prepare (some n.np.addr) 0) →
          n.np.ops.prepare = n.np.ops.unprepare ∧ ∀ p ∈ n.above, p.ops.unprepare = false) ∧
        (¬n.np.Fails out .enable (log ++ n.np.events .prepare (some n.np.addr) 0) →
          (steps .disable n.path).length ≤ 1 ∧ (steps .unprepare n.path).length ≤ 1))

theorem steps_path (h : ∀ p ∈ n.above, p.ops.has cb = false) : steps cb n.path = steps cb [n.np] := by
  have hnil : steps cb n.above = [] := by
    unfold steps
    rw [List.filter_eq_nil_iff.2 fun p hp => by simp [h p hp]]
    rfl
  rw [Node.path, steps_append, hnil, List.nil_append]

theorem filter_steps (cb : Callback) (nps : List Np) :
    (steps cb nps).filter (fun s => s.1.isOn) = if cb.isOn then steps cb nps else [] := by
  split
  next h =>
    refine List.filter_eq_self.2 fun s hs => ?_
    obtain ⟨p, -, rfl⟩ := List.mem_map.1 hs
    exact h
  next h =>
    refine List.filter_eq_nil_iff.2 fun s hs => ?_
    obtain ⟨p, -, rfl⟩ := List.mem_map.1 hs
    exact h

theorem onSteps_append (es ds : List Event) : onSteps (es ++ ds) = onSteps es ++ onSteps ds := by
  simp [onSteps]

theorem onSteps_events (err : Int) : onSteps (np.events cb clk err) = if cb.isOn then steps cb [np] else [] := by
  rw [onSteps, Np.steps_events, filter_steps]

theorem Walked.onSteps_eq (W : Walked out cb clk n log es) : onSteps es = if cb.isOn then steps cb n.path else [] := by
  rw [onSteps, W.map_step, filter_steps]

theorem steps_reverse (cb : Callback) (nps : List Np) : steps cb nps.reverse = (steps cb nps).reverse := by
  simp [steps]

/-- A list without duplicates that reads the same from its end has one element at most. -/
theorem length_le_one_of_reverse (hl : l.Nodup) (hr : l = l.reverse) : l.length ≤ 1 := by
  by_contra hlt
  have h0 : 0 < l.length := by omega
  have he : l[0] = l[l.length - 1] := by
    rw [List.getElem_of_eq hr h0, List.getElem_reverse]
    simp
  have := (List.Nodup.getElem_inj_iff hl).1 he
  omega

theorem reverse_of_length_le_one (h : l.length ≤ 1) : l.reverse = l := by
  match l with
  | [] | [_] => rfl
  | _ :: _ :: _ => simp at h

theorem Registered.nodup (hn : Registered n) : (n.path.map Np.addr).Nodup := by
  induction hn with
  | root addr ops allocated => simp [rtClkRegister, Node.path, Node.above]
  | child hp addr ops allocated hnew ih =>
    show (List.map Np.addr (_ ++ [_])).Nodup
    rw [List.map_append, List.nodup_append]
    refine ⟨ih, by simp, fun a ha b hb => ?_⟩
    obtain ⟨p, hm, rfl⟩ := List.mem_map.1 ha
    rw [List.map_singleton, List.mem_singleton] at hb
    exact hb ▸ hnew p hm

theorem Registered.nodup_steps (hn : Registered n) (cb : Callback) : (steps cb n.path).Nodup := by
  have h := (hn.nodup.sublist ((List.filter_sublist (p := fun p => p.ops.has cb)).map Np.addr)).map
    (f := fun a => (cb, a)) fun _ _ h => (Prod.mk.inj h).2
  rwa [List.map_map] at h

/-! ## Successful calls -/

theorem done_append (es ds : List Event) (cb : Callback) (a : Nat) :
    done (es ++ ds) cb a = done es cb a + done ds cb a := List.countP_append

theorem done_events (np : Np) (cb cb' : Callback) (err : Int) (a : Nat) :
    done (np.events cb clk err) cb' a = if np.ops.has cb ∧ cb = cb' ∧ np.addr = a ∧ err = 0 then 1 else 0 := by
  unfold done Np.events
  cases h : np.ops.has cb <;> simp [List.countP_cons]

theorem Walked.done_eq_zero (W : Walked out cb clk n log es) {cb' : Callback} (hcb : cb ≠ cb') (a : Nat) :
    done es cb' a = 0 := by
  refine List.countP_eq_zero.2 fun e he hd => ?_
  exact hcb ((W.cb_eq he).symm.trans (of_decide_eq_true hd).1)

/-- What a callback that cannot fail has done to a node of the path. -/
theorem Walked.done_pos (W : Walked out cb clk n log es) (hcb : cb.isOn = false) {p : Np} (hp : p ∈ n.path)
    (hhas : p.ops.has cb = true) : 0 < done es cb p.addr := by
  have hs : (cb, p.addr) ∈ steps cb n.path := List.mem_map.2 ⟨p, List.mem_filter.2 ⟨hp, hhas⟩, rfl⟩
  rw [← W.map_step] at hs
  obtain ⟨e, he, hes⟩ := List.mem_map.1 hs
  refine List.countP_pos_iff.2 ⟨e, he, decide_eq_true ⟨W.cb_eq he, (Prod.mk.inj hes).2, W.err hcb e he⟩⟩

theorem walked_of_above (h : ∀ p ∈ n.above, p.ops.has cb = false) :
    Walked out cb clk n log (n.np.events cb clk (n.np.result out cb clk log)) where
  log := by rw [walk_of_above h, Np.call_eq]
  map_step := by rw [Np.steps_events, steps_path h]
  err hcb e he := by
    rw [Np.events_err he]
    simp [Np.result, hcb]

theorem walk_err (h : ∀ p ∈ n.above, p.ops.has cb = false) : (walk out cb clk n log).2 = n.np.result out cb clk log := by
  rw [walk_of_above h, Np.call_eq]

/-! ## The calls, case by case -/

variable {k : Option Handle}

theorem isSome_of_nodeOf (hk : nodeOf k = some n) : k.isSome = true := by
  cases k with
  | none => cases hk
  | some k => rfl

theorem rtClkPrepareEnable_eq (hk : nodeOf k = some n) : rtClkPrepareEnable out k log =
    let r1 := walk out .prepare (some n.np.addr) n log
    let r2 := walk out .enable (some n.np.addr) n r1.1
    if r1.2 = 0 then
      if r2.2 ≠ 0 then ((walk out .unprepare (some n.np.addr) n r2.1).1, r2.2) else r2
    else r1 := by
  simp only [rtClkPrepareEnable, isSome_of_nodeOf hk, if_true, rtClkPrepare, rtClkEnable, rtClkUnprepare, hk, clkPrepare,
    clkEnable, clkUnprepare]

theorem pathOf_eq (hk : nodeOf k = some n) : pathOf k = n.path := by
  rw [pathOf, hk]
  rfl

/-- The calls of `rt_clk_disable_unprepare` go down the path twice. -/
theorem rtClkDisableUnprepare_steps (hk : nodeOf k = some n) (log : List Event) :
    ∃ ds, rtClkDisableUnprepare out k log = log ++ ds ∧
      ds.map Event.step = steps .disable n.path ++ steps .unprepare n.path := by
  obtain ⟨es, W⟩ := walked out .disable (some n.np.addr) n log
  obtain ⟨ds, W'⟩ := walked out .unprepare (some n.np.addr) n (log ++ es)
  refine ⟨es ++ ds, ?_, by rw [List.map_append, W.map_step, W'.map_step]⟩
  simp only [rtClkDisableUnprepare, isSome_of_nodeOf hk, if_true, rtClkUnprepare, rtClkDisable, hk, clkDisable,
    clkUnprepare, W.log, W'.log, List.append_assoc]

theorem undone_iff (hn : Registered n) (hds : ds.map Event.step = steps .disable n.path ++ steps .unprepare n.path) :
    ds.map Event.step = steps .disable n.path.reverse ++ steps .unprepare n.path.reverse ↔
      (steps .disable n.path).length ≤ 1 ∧ (steps .unprepare n.path).length ≤ 1 := by
  rw [hds, steps_reverse, steps_reverse]
  constructor
  · intro h
    obtain ⟨h1, h2⟩ := List.append_inj h (by rw [List.length_reverse])
    exact ⟨length_le_one_of_reverse (hn.nodup_steps _) h1, length_le_one_of_reverse (hn.nodup_steps _) h2⟩
  · rintro ⟨h1, h2⟩
    rw [reverse_of_length_le_one h1, reverse_of_length_le_one h2]

/-- A call of `prepare` of a parent gets a handle of the node below it. -/
theorem not_discipline_of_prepare (hn : Registered n) (hk : nodeOf k = some n)
    (hhas : ∃ p ∈ n.above, p.ops.prepare = true) : ¬Discipline out k log := by
  rintro ⟨es, ds, hes, -, D⟩
  obtain ⟨es1, W1⟩ := walked out .prepare (some n.np.addr) n log
  obtain ⟨es2, W2⟩ := walked out .enable (some n.np.addr) n (log ++ es1)
  obtain ⟨es3, W3⟩ := walked out .unprepare (some n.np.addr) n (log ++ es1 ++ es2)
  obtain ⟨e, he, hne⟩ := @Registered.foreign out .prepare _ n log es1 hn hhas W1.log
  have hpre : es1 ⊆ es := by
    rw [rtClkPrepareEnable_eq hk] at hes
    dsimp only at hes
    rw [W1.log, W2.log, W3.log, List.append_assoc, List.append_assoc] at hes
    split at hes
    · split at hes
      · rw [← List.append_cancel_left hes]
        exact List.subset_append_left _ _
      · rw [W2.log, List.append_assoc] at hes
        rw [← List.append_cancel_left hes]
        exact List.subset_append_left _ _
    · rw [W1.log] at hes
      rw [← List.append_cancel_left hes]
      exact List.Subset.refl _
  exact hne (D.own e (hpre he) (by rw [W1.cb_eq he]; rfl))

/-- The first call fails, and it is the only one. -/
theorem discipline_of_fails (hk : nodeOf k = some n) (ha : ∀ p ∈ n.above, p.ops.prepare = false)
    (hf : n.np.Fails out .prepare log) : Discipline out k log := by
  have W := @walked_of_above out .prepare (some n.np.addr) n log ha
  have hr := @walk_err out .prepare (some n.np.addr) n log ha
  obtain ⟨ds, hds, -⟩ := @rtClkDisableUnprepare_steps out n k hk
    (log ++ n.np.events .prepare (some n.np.addr) (n.np.result out .prepare (some n.np.addr) log))
  have hpe := @rtClkPrepareEnable_eq out n log k hk
  dsimp only at hpe
  rw [hr, if_neg hf] at hpe
  refine ⟨_, ds, by rw [hpe, W.log], hds, ?_⟩
  rw [hpe, hr, pathOf_eq hk]
  generalize hr0 : n.np.result out .prepare (some n.np.addr) log = r
  have hne : r ≠ 0 := hr0 ▸ hf
  refine ⟨?_, ?_, fun h => absurd h hne, fun h => absurd h hne, fun _ p hp => ?_, fun h => absurd h hne⟩
  · rw [onSteps_events, steps_path ha]
    exact List.prefix_append _ _
  · exact fun e he _ => Np.events_clk he
  · simp [done_events, hne]

section Prepared

variable (hk : nodeOf k = some n) (ha : ∀ p ∈ n.above, p.ops.prepare = false) (hf : ¬n.np.Fails out .prepare log)

include hk ha hf

/-- The call from `rt_clk_enable` on. -/
theorem rtClkPrepareEnable_prepared : rtClkPrepareEnable out k log =
    let r := walk out .enable (some n.np.addr) n (log ++ n.np.events .prepare (some n.np.addr) 0)
    if r.2 ≠ 0 then ((walk out .unprepare (some n.np.addr) n r.1).1, r.2) else r := by
  have W := @walked_of_above out .prepare (some n.np.addr) n log ha
  have h0 : n.np.result out .prepare (some n.np.addr) log = 0 := not_not.1 hf
  have hpe := @rtClkPrepareEnable_eq out n log k hk
  dsimp only at hpe
  rwa [W.log, walk_err ha, h0, if_pos rfl] at hpe

/-- A call of `enable` of a parent gets a handle of the node below it. -/
theorem not_discipline_of_enable (hn : Registered n) (hhas : ∃ p ∈ n.above, p.ops.enable = true) :
    ¬Discipline out k log := by
  rintro ⟨es, ds, hes, -, D⟩
  rw [rtClkPrepareEnable_prepared hk ha hf] at hes
  dsimp only at hes
  generalize hlog : log ++ n.np.events .prepare (some n.np.addr) 0 = log1 at hes
  obtain ⟨es1, W1⟩ := walked out .enable (some n.np.addr) n log1
  obtain ⟨es2, W2⟩ := walked out .unprepare (some n.np.addr) n (log1 ++ es1)
  obtain ⟨e, he, hne⟩ := @Registered.foreign out .enable _ n log1 es1 hn hhas W1.log
  have hsub : e ∈ es := by
    rw [W1.log, W2.log, ← hlog, List.append_assoc, List.append_assoc] at hes
    split at hes
    · rw [← List.append_cancel_left hes]
      simp [he]
    · rw [hlog, W1.log, ← hlog, List.append_assoc] at hes
      rw [← List.append_cancel_left hes]
      simp [he]
  exact hne (D.own e hsub (by rw [W1.cb_eq he]; rfl))

variable (hb : ∀ p ∈ n.above, p.ops.enable = false)

include hb

/-- `enable` of the node fails: the whole path is unprepared. -/
theorem discipline_rollback_iff (hn : Registered n)
    (hg : n.np.Fails out .enable (log ++ n.np.events .prepare (some n.np.addr) 0)) : Discipline out k log ↔
      n.np.ops.prepare = n.np.ops.unprepare ∧ ∀ p ∈ n.above, p.ops.unprepare = false := by
  have hpe := rtClkPrepareEnable_prepared hk ha hf
  dsimp only at hpe
  generalize hlog : log ++ n.np.events .prepare (some n.np.addr) 0 = log1 at hpe hg
  have W1 := @walked_of_above out .enable (some n.np.addr) n log1 hb
  rw [Np.Fails] at hg
  rw [walk_err hb, if_pos hg, W1.log] at hpe
  generalize hr : n.np.result out .enable (some n.np.addr) log1 = r at hpe
  have hne : r ≠ 0 := hr ▸ hg
  obtain ⟨us, W2⟩ := walked out .unprepare (some n.np.addr) n (log1 ++ n.np.events .enable (some n.np.addr) r)
  rw [W2.log, ← hlog, List.append_assoc, List.append_assoc] at hpe
  have hleaf : n.np ∈ n.path := List.mem_append_right _ (List.mem_singleton_self _)
  constructor
  · rintro ⟨es, ds, hes, -, D⟩
    rw [hpe] at hes
    rw [hpe, ← List.append_cancel_left hes, pathOf_eq hk] at D
    have hbal (p : Np) (hp : p ∈ n.path) := (D.balanced hne p hp).1
    simp only [done_append, done_events, W2.done_eq_zero (show Callback.unprepare ≠ .prepare by decide)] at hbal
    have hun : ∀ p ∈ n.above, p.ops.unprepare = false := by
      intro p hp
      by_contra hu
      have hpath : p ∈ n.path := List.mem_append_left _ hp
      have hpos := W2.done_pos rfl hpath ((Bool.eq_false_or_eq_true _).resolve_right hu)
      have := hbal p hpath
      simp [(hn.above_ne p hp).symm] at this
      omega
    refine ⟨?_, hun⟩
    have hus := List.append_cancel_left (W2.log.symm.trans (walked_of_above hun).log)
    have hl := hbal n.np hleaf
    rw [hus, done_events, Np.result_of_not_isOn rfl] at hl
    cases h1 : n.np.ops.prepare <;> cases h2 : n.np.ops.unprepare <;> simp [Ops.has, h1, h2] at hl ⊢
  · rintro ⟨hp, hu⟩
    have hus := List.append_cancel_left (W2.log.symm.trans (walked_of_above hu).log)
    rw [Np.result_of_not_isOn rfl] at hus
    obtain ⟨ds, hds, -⟩ := @rtClkDisableUnprepare_steps out n k hk (rtClkPrepareEnable out k log).1
    refine ⟨_, ds, congrArg Prod.fst hpe, by rw [hpe] at hds; exact hds, ?_⟩
    rw [hpe, pathOf_eq hk]
    refine ⟨?_, ?_, fun h => absurd h hne, fun h => absurd h hne, fun _ p hp' => ?_, fun h => absurd h hne⟩
    · rw [onSteps_append, onSteps_append, onSteps_events, onSteps_events, W2.onSteps_eq, @steps_path .prepare n ha,
        @steps_path .enable n hb]
      simp [Callback.isOn]
    · intro e he hon
      rcases List.mem_append.1 he with he | he
      · exact Np.events_clk he
      · rcases List.mem_append.1 he with he | he
        · exact Np.events_clk he
        · rw [W2.cb_eq he] at hon
          cases hon
    · rw [hus]
      simp only [done_append, done_events]
      simp [Ops.has, hp, hne]

/-- The call succeeds: it is undone in its own order. -/
theorem discipline_success_iff (hn : Registered n)
    (hg : ¬n.np.Fails out .enable (log ++ n.np.events .prepare (some n.np.addr) 0)) : Discipline out k log ↔
      (steps .disable n.path).length ≤ 1 ∧ (steps .unprepare n.path).length ≤ 1 := by
  have hpe := rtClkPrepareEnable_prepared hk ha hf
  generalize hlog : log ++ n.np.events .prepare (some n.np.addr) 0 = log1 at hpe hg
  have W1 := @walked_of_above out .enable (some n.np.addr) n log1 hb
  have h0 : n.np.result out .enable (some n.np.addr) log1 = 0 := not_not.1 hg
  have hr := @walk_err out .enable (some n.np.addr) n log1 hb
  rw [h0] at W1 hr
  rw [if_neg fun h => h hr] at hpe
  obtain ⟨ds, hds, hsteps⟩ := @rtClkDisableUnprepare_steps out n k hk (rtClkPrepareEnable out k log).1
  have hpe1 : (rtClkPrepareEnable out k log).1 =
      log ++ (n.np.events .prepare (some n.np.addr) 0 ++ n.np.events .enable (some n.np.addr) 0) := by
    rw [hpe, W1.log, ← hlog, List.append_assoc]
  have hpe2 : (rtClkPrepareEnable out k log).2 = 0 := by rw [hpe, hr]
  rw [hpe1] at hds
  rw [← undone_iff hn hsteps]
  constructor
  · rintro ⟨es, ds', hes, hds', D⟩
    obtain rfl := List.append_cancel_left (hpe1.symm.trans hes)
    rw [List.append_cancel_left (hds.symm.trans hds'), ← pathOf_eq hk]
    exact D.undone hpe2
  · intro hund
    refine ⟨_, ds, hpe1, hds, ?_⟩
    rw [hpe2, pathOf_eq hk]
    have hon : onSteps (n.np.events .prepare (some n.np.addr) 0 ++ n.np.events .enable (some n.np.addr) 0) =
        steps .prepare n.path ++ steps .enable n.path := by
      rw [onSteps_append, onSteps_events, onSteps_events, steps_path ha, steps_path hb]
      rfl
    refine ⟨hon ▸ List.prefix_refl _, ?_, fun _ => hon, ?_, fun h => absurd rfl h, fun _ => hund⟩
    · intro e he _
      exact (List.mem_append.1 he).elim Np.events_clk Np.events_clk
    · intro _ e he _
      exact (List.mem_append.1 he).elim Np.events_err Np.events_err

end Prepared

/-- For every clock of every tree, every handle and every pattern of results: the promises are kept exactly if no parent has
a callback that the call reaches on the way up, or that it has to undo. -/
theorem clk_discipline (out : Outcomes) (k : Option Handle) (log : List Event)
    (hn : ∀ n ∈ nodeOf k, Registered n) : Discipline out k log ↔ ∀ n ∈ nodeOf k, Upright out n log := by
  cases hk : nodeOf k with
  | none =>
    refine ⟨fun _ => nofun, fun _ => ⟨[], [], ?_, ?_, ?_⟩⟩
    · cases k <;> simp [rtClkPrepareEnable, rtClkPrepare, rtClkEnable, hk]
    · cases k <;> simp [rtClkDisableUnprepare, rtClkUnprepare, rtClkDisable, hk]
    · have hp : pathOf k = [] := by rw [pathOf, hk]; rfl
      rw [hp]
      refine ⟨List.prefix_refl _, nofun, fun _ => rfl, fun _ => nofun, fun _ => nofun, fun _ => rfl⟩
  | some n =>
    have hn := hn n hk
    suffices h : Discipline out k log ↔ Upright out n log from
      h.trans ⟨fun h m hm => Option.some.inj hm ▸ h, fun h => h n rfl⟩
    by_cases ha : ∀ p ∈ n.above, p.ops.prepare = false
    swap
    · have hhas : ∃ p ∈ n.above, p.ops.prepare = true := by simpa using ha
      exact iff_of_false (not_discipline_of_prepare hn hk hhas) fun h => ha h.1
    by_cases hf : n.np.Fails out .prepare log
    · exact iff_of_true (discipline_of_fails hk ha hf) ⟨ha, .inl hf⟩
    by_cases hb : ∀ p ∈ n.above, p.ops.enable = false
    swap
    · have hhas : ∃ p ∈ n.above, p.ops.enable = true := by simpa using hb
      exact iff_of_false (not_discipline_of_enable hk ha hf hn hhas) fun h => hb (h.2.resolve_left hf).1
    by_cases hg : n.np.Fails out .enable (log ++ n.np.events .prepare (some n.np.addr) 0)
    · rw [discipline_rollback_iff hk ha hf hb hn hg]
      exact ⟨fun h => ⟨ha, .inr ⟨hb, fun _ => h, fun h' => absurd hg h'⟩⟩, fun h => (h.2.resolve_left hf).2.1 hg⟩
    · rw [discipline_success_iff hk ha hf hb hn hg]
      exact ⟨fun h => ⟨ha, .inr ⟨hb, fun h' => absurd h' hg, fun _ => h⟩⟩, fun h => (h.2.resolve_left hf).2.2 hg⟩

/-- A gate under an oscillator, both with all their callbacks. -/
def gate : Node :=
  rtClkRegister 2 (some ⟨true, true, true, true⟩) true (some (rtClkRegister 1 (some ⟨true, true, true, true⟩) true none))

theorem registered_gate : Registered gate := .child (.root 1 _ true) 2 _ true (by decide)

theorem clk_discipline_gate : Discipline (fun _ _ _ _ => 0) (some ⟨some gate⟩) [] ↔
    ∀ n ∈ nodeOf (some ⟨some gate⟩), Upright (fun _ _ _ _ => 0) n [] :=
  clk_discipline _ _ _ fun _ hn => Option.some.inj hn ▸ registered_gate

/-- `prepare` of the oscillator gets a handle of the gate. -/
theorem not_clk_discipline :
    ¬∀ (out : Outcomes) (k : Option Handle) (log : List Event),
      (∀ n ∈ nodeOf k, Registered n) → Discipline out k log := by
  intro h
  exact not_discipline_of_prepare registered_gate rfl ⟨_, List.mem_singleton_self _, rfl⟩
    (h (fun _ _ _ _ => 0) (some ⟨some gate⟩) [] fun _ hn => Option.some.inj hn ▸ registered_gate)

end RtThread.Clk
