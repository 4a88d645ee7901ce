import RtThread.Lib.Forest
import RtThread.Lib.Runs

/-!
# Unflattening a device tree

`fdt_unflatten_single` (`fdt.c`) walks the flat tree with libfdt's subnode and property functions and builds nodes
linked by parent, first child and sibling, with an explicit stack of `OFW_NODE_MAX_DEPTH` ancestors. libfdt is a
parameter (`Libfdt`); that it enumerates a flat tree is `Enumerates`. The loop is a machine whose state has the local
variables, the nodes and the indexes used on `np_stack`. The node offset kept in `rt_data` on the way down is cleared
on the way up. The loop leaves by `np = np_stack[--depth]` at depth 0.
-/

namespace RtThread

open Function (update update_idem update_of_ne update_self)

open Forests Runs

/-- `OFW_NODE_MAX_DEPTH`. -/
def ofwNodeMaxDepth : Int := 64

/-- `OFW_PHANDLE_MIN`. -/
def ofwPhandleMin : Nat := 1

/-- `OFW_PHANDLE_MAX`. -/
def ofwPhandleMax : Nat := 0xfffffffe

def RT_ENOMEM : Int := 5

/-- `struct rt_ofw_prop`: `length` is the length of the value. -/
structure OfwProp where
  name : String
  value : List (BitVec 8)
  deriving DecidableEq, Repr

/-- What `name` points to before a `name` property is seen. -/
def nullName : List (BitVec 8) := "<NULL>".toList.map fun c => BitVec.ofNat 8 c.toNat

/-- `struct rt_ofw_node`. Zero in `rtData` is `RT_NULL`. -/
structure OfwNode where
  name : List (BitVec 8) := []
  fullName : String := ""
  phandle : BitVec 32 := 0
  props : List OfwProp := []
  parent : Option Nat := none
  child : Option Nat := none
  sibling : Option Nat := none
  rtData : Int := 0
  deriving DecidableEq, Repr

/-- The functions of libfdt that read the flat tree; a negative offset is an error code. -/
structure Libfdt where
  getName : Int → String
  getPhandle : Int → BitVec 32
  firstSubnode : Int → Int
  nextSubnode : Int → Int
  firstPropertyOffset : Int → Int
  nextPropertyOffset : Int → Int
  getpropByOffset : Int → OfwProp

/-- A node of the flat tree. -/
structure FlatNode where
  fullName : String
  phandle : BitVec 32
  props : List OfwProp
  deriving DecidableEq, Repr

/-- From `off` on, the property functions give the properties in order. -/
def EnumeratesProps (fdt : Libfdt) : Int → List OfwProp → Prop
  | off, [] => off < 0
  | off, p :: ps => 0 ≤ off ∧ fdt.getpropByOffset off = p ∧ EnumeratesProps fdt (fdt.nextPropertyOffset off) ps

/-- From `off` on, the subnode functions give the trees in order, each with its name, phandle, properties and subnodes. -/
def Enumerates (fdt : Libfdt) : Int → Forest FlatNode → Prop
  | off, .nil => off < 0
  | off, .cons x children siblings =>
    0 ≤ off ∧ fdt.getName off = x.fullName ∧ fdt.getPhandle off = x.phandle ∧
      EnumeratesProps fdt (fdt.firstPropertyOffset off) x.props ∧
      Enumerates fdt (fdt.firstSubnode off) children ∧ Enumerates fdt (fdt.nextSubnode off) siblings

/-- Where the loop stands: at the start of its body, in `fdt_unflatten_props`, behind it, in the inner `while`; it
returned an error code, or it dereferenced `RT_NULL` or wrote outside `np_stack`. -/
inductive UnflattenPhase
  | visit
  | props
  | link
  | climb
  | done (err : Int)
  | fault
  deriving DecidableEq, Repr

/-- The local variables of `fdt_unflatten_single` and `fdt_unflatten_props`, the nodes, and the range of phandles.
`prop` tells whether the pointer to the property to fill is not null, `requests` counts the calls of the allocator,
`indexes` are the ones used on `np_stack`, in order, `phandles` is `_phandle_min` and `_phandle_max`. -/
structure Unflatten where
  phase : UnflattenPhase := .visit
  heap : Nat → OfwNode
  count : Nat
  np : Option Nat
  parent : Option Nat := none
  nodeOff : Int
  propOff : Int := 0
  prop : Bool := false
  depth : Int := 0
  npStack : Int → Option Nat
  indexes : List Int := []
  requests : Nat := 0
  phandles : Nat × Nat := (ofwPhandleMax, ofwPhandleMin)

/-- The phandle of a node widens the range of phandles. -/
def widen (phandles : Nat × Nat) (phandle : BitVec 32) : Nat × Nat :=
  if ofwPhandleMin ≤ phandle.toNat then (min phandle.toNat phandles.1, max phandle.toNat phandles.2) else phandles

namespace OfwNode

/-- The fields that the start of the body sets. -/
def describe (x : OfwNode) (fullName : String) (phandle : BitVec 32) : OfwNode :=
  { x with name := nullName, fullName := fullName, phandle := phandle }

/-- A property is added, and a `name` property is the name. -/
def addProp (x : OfwNode) (p : OfwProp) : OfwNode :=
  { x with name := if p.name = "name" then p.value else x.name, props := x.props ++ [p] }

def setParent (x : OfwNode) (parent : Option Nat) : OfwNode := { x with parent := parent }

def setChild (x : OfwNode) (child : Option Nat) : OfwNode := { x with child := child }

def setSibling (x : OfwNode) (sibling : Option Nat) : OfwNode := { x with sibling := sibling }

def setData (x : OfwNode) (rtData : Int) : OfwNode := { x with rtData := rtData }

end OfwNode

namespace Unflatten

/-- Change a node. -/
def modNode (s : Unflatten) (n : Nat) (g : OfwNode → OfwNode) : Unflatten :=
  { s with heap := update s.heap n (g (s.heap n)) }

/-- The pointer that the next `rt_calloc` of a node returns. -/
def fresh (alloc : Nat → Bool) (s : Unflatten) : Option Nat := if alloc s.requests then some s.count else none

/-- `rt_calloc` of a node. -/
def calloc (alloc : Nat → Bool) (s : Unflatten) : Unflatten :=
  if alloc s.requests then
    { s with heap := update s.heap s.count {}, count := s.count + 1, requests := s.requests + 1 }
  else { s with requests := s.requests + 1 }

/-- `rt_malloc` of the property to fill next. -/
def mallocProp (alloc : Nat → Bool) (s : Unflatten) : Unflatten :=
  { s with prop := alloc s.requests, requests := s.requests + 1 }

/-- The loop ends with the error code. -/
def finish (err : Int) (s : Unflatten) : Unflatten := { s with phase := .done err }

/-- The start of the body, up to the first property. -/
def visit (fdt : Libfdt) (alloc : Nat → Bool) (s : Unflatten) : Unflatten :=
  match s.np with
  | none => s.finish (-RT_ENOMEM)
  | some n =>
    let phandle := fdt.getPhandle s.nodeOff
    let propOff := fdt.firstPropertyOffset s.nodeOff
    let s := s.modNode n fun x => x.describe (fdt.getName s.nodeOff) phandle
    let s := { s with phase := .props, phandles := widen s.phandles phandle, propOff := propOff, prop := false }
    if 0 ≤ propOff then s.mallocProp alloc else s

/-- One round of the loop of `fdt_unflatten_props`. -/
def unflattenProp (fdt : Libfdt) (alloc : Nat → Bool) (s : Unflatten) (n : Nat) : Unflatten :=
  if s.propOff < 0 then { s with phase := .link }
  else if !s.prop then s.finish (-RT_ENOMEM)
  else
    let propOff := fdt.nextPropertyOffset s.propOff
    let s := s.modNode n fun x => x.addProp (fdt.getpropByOffset s.propOff)
    let s := { s with propOff := propOff }
    if propOff < 0 then s else s.mallocProp alloc

/-- `np_stack[depth++] = np`. -/
def push (s : Unflatten) (n : Nat) : Unflatten :=
  { s with
    parent := some n
    npStack := update s.npStack s.depth (some n)
    indexes := s.indexes ++ [s.depth]
    depth := s.depth + 1 }

/-- `np = np_stack[--depth]`. -/
def pop (s : Unflatten) : Unflatten :=
  { s with np := s.npStack (s.depth - 1), indexes := s.indexes ++ [s.depth - 1], depth := s.depth - 1 }

/-- `np->child = rt_calloc(..); np = np->child`. -/
def newChild (alloc : Nat → Bool) (s : Unflatten) (n : Nat) : Unflatten :=
  { (s.calloc alloc).modNode n fun x => x.setChild (s.fresh alloc) with np := s.fresh alloc, phase := .visit }

/-- `np->sibling = rt_calloc(..); np = np->sibling`. -/
def newSibling (alloc : Nat → Bool) (s : Unflatten) (n : Nat) : Unflatten :=
  { (s.calloc alloc).modNode n fun x => x.setSibling (s.fresh alloc) with np := s.fresh alloc, phase := .visit }

/-- Behind the properties: down to the first child, whose parent goes onto the stack, or into the inner loop. -/
def link (fdt : Libfdt) (alloc : Nat → Bool) (s : Unflatten) (n : Nat) : Unflatten :=
  if (s.heap n).child.isSome then { s.modNode n fun x => x.setParent s.parent with phase := .climb }
  else
    let nodeOff := fdt.firstSubnode s.nodeOff
    let s := s.modNode n fun x => (x.setParent s.parent).setData s.nodeOff
    let s := { s with nodeOff := nodeOff }
    if nodeOff < 0 then { s with phase := .climb }
    else if s.depth < ofwNodeMaxDepth then (s.push n).newChild alloc n
    else { s with indexes := s.indexes ++ [s.depth], phase := .fault }

/-- One round of the inner loop: to the next sibling, or up. -/
def climb (fdt : Libfdt) (alloc : Nat → Bool) (s : Unflatten) (n : Nat) : Unflatten :=
  let nodeOff := fdt.nextSubnode (s.heap n).rtData
  let s : Unflatten := { s.modNode n fun x => x.setData 0 with nodeOff := nodeOff }
  if nodeOff < 0 then
    let s := (s.modNode n fun x => x.setSibling none).pop
    if 0 ≤ s.depth then s else s.finish 0
  else { s with parent := (s.heap n).parent }.newSibling alloc n

/-- The machine goes on by one round of the loop it is in. -/
def step (fdt : Libfdt) (alloc : Nat → Bool) (s : Unflatten) : Unflatten :=
  match s.phase, s.np with
  | .visit, _ => s.visit fdt alloc
  | .props, some n => s.unflattenProp fdt alloc n
  | .link, some n => s.link fdt alloc n
  | .climb, some n => s.climb fdt alloc n
  | .done err, _ => s.finish err
  | _, _ => { s with phase := .fault }

/-- The call on the root, the only node so far, with whatever is in and around `np_stack`. -/
def start (rootOff : Int) (npStack : Int → Option Nat) : Unflatten where
  heap := fun _ => {}
  count := 1
  np := some 0
  nodeOff := rootOff
  npStack := npStack

end Unflatten

/-- The pointers of the nodes. -/
def ofwLinks (heap : Nat → OfwNode) : Links Nat where
  parent n := (heap n).parent
  child n := (heap n).child
  sibling n := (heap n).sibling

/-- What a node copies from the flat tree. -/
def OfwNode.flat (x : OfwNode) : FlatNode := ⟨x.fullName, x.phandle, x.props⟩

/-- The nodes of `shape` are the flat forest: each node once, linked in order, with its data, and no offset left. -/
structure Unflattened (heap : Nat → OfwNode) (p : Option Nat) (shape : Forest Nat) (flat : Forest FlatNode) : Prop where
  nodup : shape.nodes.Nodup
  linked : Linked (ofwLinks heap) p shape
  data : shape.map (fun n => (heap n).flat) = flat
  cleared : ∀ n ∈ shape.nodes, (heap n).rtData = 0

theorem Unflattened.congr {heap heap' : Nat → OfwNode} {p : Option Nat} {shape : Forest Nat} {flat : Forest FlatNode}
    (h : Unflattened heap p shape flat) (heq : ∀ n ∈ shape.nodes, heap' n = heap n) : Unflattened heap' p shape flat := by
  refine ⟨h.nodup, ?_, ?_, ?_⟩
  · exact h.linked.congr fun n hn => by simp only [ofwLinks, heq n hn, and_self]
  · exact (Forest.map_congr fun n hn => by rw [heq n hn]).trans h.data
  · intro n hn
    rw [heq n hn]
    exact h.cleared n hn

namespace Unflatten

variable {fdt : Libfdt} {alloc : Nat → Bool} {s s' : Unflatten} {n a : Nat} {ps : List OfwProp}

/-! ## The properties of a node -/

theorem unflattenProp_step (fdt : Libfdt) (halloc : ∀ i, alloc i = true) (hphase : s.phase = .props) (hnp : s.np = some n)
    (hoff : 0 ≤ s.propOff) (hprop : s.prop = true) :
    ∃ requests, step fdt alloc s =
      { s.modNode n fun x => x.addProp (fdt.getpropByOffset s.propOff) with
        propOff := fdt.nextPropertyOffset s.propOff, prop := true, requests := requests } := by
  have hstep : step fdt alloc s = s.unflattenProp fdt alloc n := by simp only [step, hphase, hnp]
  rw [hstep, unflattenProp, if_neg (Int.not_lt.2 hoff), if_neg (by simp [hprop])]
  dsimp only
  split
  · exact ⟨s.requests, by rw [← hprop]; rfl⟩
  · exact ⟨s.requests + 1, by rw [← halloc s.requests]; rfl⟩

/-- `fdt_unflatten_props` copies the properties in order. -/
theorem unflattenProps_reaches (halloc : ∀ i, alloc i = true) (hphase : s.phase = .props) (hnp : s.np = some n)
    (hps : EnumeratesProps fdt s.propOff ps) (hprop : 0 ≤ s.propOff → s.prop = true) :
    ∃ propOff prop requests, Reaches (step fdt alloc) s
      { s.modNode n fun x => ps.foldl OfwNode.addProp x with
        phase := .link, propOff := propOff, prop := prop, requests := requests } := by
  induction ps generalizing s with
  | nil =>
    refine ⟨s.propOff, s.prop, s.requests, .head ?_⟩
    have hstep : step fdt alloc s = { s with phase := .link } := by
      simp only [step, hphase, hnp, unflattenProp, if_pos (show s.propOff < 0 from hps)]
    rw [hstep, modNode, List.foldl_nil, Function.update_eq_self]
    exact .refl _
  | cons p ps ih =>
    obtain ⟨hoff, rfl, hnext⟩ := hps
    obtain ⟨requests, hstep⟩ := unflattenProp_step fdt halloc hphase hnp hoff (hprop hoff)
    obtain ⟨propOff, prop', requests', hr⟩ := ih (s := step fdt alloc s) (by rw [hstep]; exact hphase)
      (by rw [hstep]; exact hnp) (by rw [hstep]; exact hnext) (by rw [hstep]; exact fun _ => rfl)
    refine ⟨propOff, prop', requests', .head ?_⟩
    rw [hstep] at hr ⊢
    simpa only [modNode, update_self, update_idem, List.foldl_cons] using hr

/-- The body up to the links: the node has its name, phandle and properties. -/
theorem visit_reaches (halloc : ∀ i, alloc i = true) (hphase : s.phase = .visit) (hnp : s.np = some n)
    (hps : EnumeratesProps fdt (fdt.firstPropertyOffset s.nodeOff) ps) :
    ∃ propOff prop requests, Reaches (step fdt alloc) s
      { s.modNode n fun x => ps.foldl OfwNode.addProp (x.describe (fdt.getName s.nodeOff) (fdt.getPhandle s.nodeOff)) with
        phase := .link, phandles := widen s.phandles (fdt.getPhandle s.nodeOff)
        propOff := propOff, prop := prop, requests := requests } := by
  obtain ⟨prop, requests, hok, hstep⟩ : ∃ prop requests, (0 ≤ fdt.firstPropertyOffset s.nodeOff → prop = true) ∧
      step fdt alloc s =
        { s.modNode n fun x => x.describe (fdt.getName s.nodeOff) (fdt.getPhandle s.nodeOff) with
          phase := .props, phandles := widen s.phandles (fdt.getPhandle s.nodeOff)
          propOff := fdt.firstPropertyOffset s.nodeOff, prop := prop, requests := requests } := by
    have hvisit : step fdt alloc s = s.visit fdt alloc := by simp only [step, hphase]
    rw [hvisit, visit, hnp]
    dsimp only
    split
    · exact ⟨true, s.requests + 1, fun _ => rfl, by rw [← halloc s.requests]; simp only [mallocProp, modNode, hnp]⟩
    · rename_i hoff
      exact ⟨false, s.requests, fun h => absurd h hoff, by simp only [modNode]⟩
  obtain ⟨propOff, prop', requests', hr⟩ := unflattenProps_reaches (s := step fdt alloc s) halloc (by rw [hstep])
    (by rw [hstep]; exact hnp) (by rw [hstep]; exact hps) (by rw [hstep]; exact hok)
  refine ⟨propOff, prop', requests', .head ?_⟩
  rw [hstep] at hr ⊢
  simpa only [modNode, update_self, update_idem] using hr

theorem foldl_addProp (x : OfwNode) (ps : List OfwProp) :
    ∃ name, ps.foldl OfwNode.addProp x = { x with name := name, props := x.props ++ ps } := by
  induction ps generalizing x with
  | nil => exact ⟨x.name, by rw [List.append_nil]; rfl⟩
  | cons p ps ih =>
    obtain ⟨name, h⟩ := ih (x.addProp p)
    refine ⟨name, ?_⟩
    rw [List.foldl_cons, h]
    simp only [OfwNode.addProp, List.append_assoc, List.singleton_append]

/-! ## Walking a forest -/

/-- The ancestors, the nearest first, are on the stack. -/
structure Stacked (s : Unflatten) (st : List Nat) : Prop where
  depth : s.depth = st.length
  slot : ∀ (i : Nat) v, st.reverse[i]? = some v → s.npStack i = some v

/-- The start of the body on a new node below the ancestors. -/
structure Entered (s : Unflatten) (st : List Nat) (a : Nat) : Prop where
  phase : s.phase = .visit
  np : s.np = some a
  fresh : s.heap a = {}
  lt : a < s.count
  parent : s.parent = st.head?
  stacked : Stacked s st
  fits : (st.length : Int) ≤ ofwNodeMaxDepth

/-- Between the two states `np_stack` is used within its bounds, and the phandles of the forest widen the range. -/
structure Between (flat : Forest FlatNode) (s s' : Unflatten) : Prop where
  count : s.count ≤ s'.count
  indexes : ∃ l, s'.indexes = s.indexes ++ l ∧ ∀ i ∈ l, 0 ≤ i ∧ i < ofwNodeMaxDepth
  phandles : s'.phandles = (flat.nodes.map FlatNode.phandle).foldl widen s.phandles

/-- The children of a node are built, and the inner loop is at the node. -/
structure Descended (x : FlatNode) (flat : Forest FlatNode) (s : Unflatten) (st : List Nat) (a : Nat) (off : Int)
    (s' : Unflatten) (shape : Forest Nat) : Prop where
  phase : s'.phase = .climb
  np : s'.np = some a
  stacked : Stacked s' st
  between : Between (.cons x flat .nil) s s'
  built : Unflattened s'.heap (some a) shape flat
  owned : ∀ n, n ∈ shape.nodes ↔ s.count ≤ n ∧ n < s'.count
  node : (s'.heap a).flat = x ∧ (s'.heap a).parent = st.head? ∧ (s'.heap a).child = shape.head? ∧ (s'.heap a).rtData = off
  frame : ∀ n, n ∉ shape.nodes → n ≠ a → s'.heap n = s.heap n

/-- The forest is built from the new node on, and the loop is back at the nearest ancestor, or over. -/
structure Walked (flat : Forest FlatNode) (s : Unflatten) (st : List Nat) (a : Nat) (s' : Unflatten)
    (shape : Forest Nat) : Prop where
  phase : s'.phase = if st = [] then .done 0 else .climb
  np : s'.np = s'.npStack (st.length - 1)
  depth : s'.depth = st.length - 1
  slot : ∀ (i : Nat) v, st.reverse[i]? = some v → s'.npStack i = some v
  between : ∃ s1, Between flat s s1 ∧ s'.count = s1.count ∧ s'.phandles = s1.phandles ∧
    s'.indexes = s1.indexes ++ [(st.length : Int) - 1]
  built : Unflattened s'.heap st.head? shape flat
  head : shape.head? = some a
  owned : ∀ n, n ∈ shape.nodes ↔ n = a ∨ s.count ≤ n ∧ n < s'.count
  frame : ∀ n, n ∉ shape.nodes → s'.heap n = s.heap n

/-- The machine writes behind the end of `np_stack`. -/
def Overruns (fdt : Libfdt) (alloc : Nat → Bool) (s : Unflatten) : Prop :=
  ∃ s', Reaches (step fdt alloc) s s' ∧ s'.phase = .fault ∧ ofwNodeMaxDepth ∈ s'.indexes

/-- From any start on the forest, it is built if its levels fit on the stack, and otherwise the stack overruns. -/
def Walks (fdt : Libfdt) (alloc : Nat → Bool) (flat : Forest FlatNode) : Prop :=
  ∀ s st a, Entered s st a → 0 ≤ s.nodeOff → Enumerates fdt s.nodeOff flat →
    ((flat.levels + st.length : Int) ≤ ofwNodeMaxDepth + 1 →
      ∃ s' shape, Reaches (step fdt alloc) s s' ∧ Walked flat s st a s' shape) ∧
    (ofwNodeMaxDepth + 1 < (flat.levels + st.length : Int) → Overruns fdt alloc s)

theorem Stacked.push {st : List Nat} (h : Stacked s st) (n : Nat) : Stacked (s.push n) (n :: st) := by
  refine ⟨by simp [Unflatten.push, h.depth], ?_⟩
  intro i v hi
  show update s.npStack s.depth (some n) i = some v
  rw [List.reverse_cons] at hi
  by_cases hlt : i < st.length
  · rw [List.getElem?_append_left (by simpa using hlt)] at hi
    have hne : (i : Int) ≠ s.depth := by rw [h.depth]; omega
    rw [update_of_ne hne]
    exact h.slot i v hi
  · rw [List.getElem?_append_right (by simpa using hlt), List.length_reverse] at hi
    obtain ⟨hzero, rfl⟩ : i - st.length = 0 ∧ n = v := by simpa [List.getElem?_singleton] using hi
    have heq : (i : Int) = s.depth := by rw [h.depth]; omega
    rw [heq, update_self]

theorem Overruns.of_reaches (hr : Reaches (step fdt alloc) s s') (h : Overruns fdt alloc s') : Overruns fdt alloc s := by
  obtain ⟨s2, hr2, hphase, hmem⟩ := h
  exact ⟨s2, hr.trans hr2, hphase, hmem⟩

variable {x : FlatNode} {cs ss : Forest FlatNode} {st : List Nat}

/-- The node is described, and its links come next. -/
structure Visited (x : FlatNode) (s : Unflatten) (st : List Nat) (a : Nat) (s' : Unflatten) (y : OfwNode) : Prop where
  phase : s'.phase = .link
  np : s'.np = some a
  heap : s'.heap = update s.heap a y
  flat : y.flat = x
  child : y.child = none
  parent : s'.parent = st.head?
  stacked : Stacked s' st
  count : s'.count = s.count
  nodeOff : s'.nodeOff = s.nodeOff
  indexes : s'.indexes = s.indexes
  phandles : s'.phandles = widen s.phandles x.phandle

theorem Entered.visited (h : Entered s st a) (halloc : ∀ i, alloc i = true) (henum : Enumerates fdt s.nodeOff (.cons x cs ss)) :
    ∃ s' y, Reaches (step fdt alloc) s s' ∧ Visited x s st a s' y := by
  obtain ⟨-, hname, hphandle, hprops, -, -⟩ := henum
  obtain ⟨propOff, prop, requests, hr⟩ := visit_reaches halloc h.phase h.np hprops
  obtain ⟨name, hadd⟩ := foldl_addProp ((s.heap a).describe (fdt.getName s.nodeOff) (fdt.getPhandle s.nodeOff)) x.props
  refine ⟨_, _, hr, rfl, h.np, rfl, ?_, ?_, h.parent, ⟨h.stacked.depth, h.stacked.slot⟩, rfl, rfl, rfl, ?_⟩
  · dsimp only
    rw [hadd, h.fresh, hname, hphandle]
    rfl
  · dsimp only
    rw [hadd, h.fresh]
    rfl
  · rw [hphandle]

variable {s1 s2 : Unflatten} {y : OfwNode} {shape : Forest Nat} {off rootOff : Int}

/-- From a node that is described, down to its first child. -/
theorem Visited.link_step (h : Visited x s st a s1 y) (halloc : ∀ i, alloc i = true)
    (hlt : a < s.count) (hoff : 0 ≤ fdt.firstSubnode s.nodeOff) (hfits : (st.length : Int) < ofwNodeMaxDepth) :
    ∃ s2, step fdt alloc s1 = s2 ∧ Entered s2 (a :: st) s.count ∧ s2.nodeOff = fdt.firstSubnode s.nodeOff ∧
      s2.count = s.count + 1 ∧ s2.phandles = s1.phandles ∧ s2.indexes = s.indexes ++ [(st.length : Int)] ∧
      s2.heap a = ((y.setParent st.head?).setData s.nodeOff).setChild (some s.count) ∧
      ∀ n, n ≠ a → n ≠ s.count → s2.heap n = s.heap n := by
  have hy : s1.heap a = y := by rw [h.heap, update_self]
  have hstep : step fdt alloc s1 = s1.link fdt alloc a := by simp only [step, h.phase, h.np]
  have hne : a ≠ s.count := Nat.ne_of_lt hlt
  have hdepth : s1.depth = st.length := h.stacked.depth
  have hlink : s1.link fdt alloc a =
      (({ s1.modNode a fun x => (x.setParent s1.parent).setData s1.nodeOff with
          nodeOff := fdt.firstSubnode s1.nodeOff }).push a).newChild alloc a := by
    rw [link, if_neg (by simp [hy, h.child]), h.nodeOff]
    rw [if_neg (Int.not_lt.2 hoff)]
    exact if_pos (by rw [modNode, hdepth]; exact hfits)
  have hfresh : ∀ t : Unflatten, t.fresh alloc = some t.count := fun t => if_pos (halloc _)
  have hcalloc : ∀ t : Unflatten, t.calloc alloc =
      { t with heap := update t.heap t.count {}, count := t.count + 1, requests := t.requests + 1 } :=
    fun t => if_pos (halloc _)
  have hpush := h.stacked.push a
  refine ⟨_, hstep.trans hlink, ⟨rfl, ?_, ?_, ?_, ?_, ⟨?_, ?_⟩, ?_⟩, ?_, ?_, ?_, ?_, ?_, ?_⟩
  · simp only [newChild, hfresh, Unflatten.push, modNode, h.count]
  · simp only [newChild, hcalloc, Unflatten.push, modNode, h.count]
    rw [update_of_ne hne.symm, update_self]
  · simp only [newChild, hcalloc, Unflatten.push, modNode, h.count]
    omega
  · simp only [newChild, hcalloc, Unflatten.push, modNode, List.head?_cons]
  · simpa only [newChild, hcalloc, Unflatten.push, modNode] using hpush.depth
  · simpa only [newChild, hcalloc, Unflatten.push, modNode] using hpush.slot
  · rw [List.length_cons]
    omega
  · simp only [newChild, hcalloc, Unflatten.push, modNode, h.nodeOff]
  · simp only [newChild, hcalloc, Unflatten.push, modNode, h.count]
  · simp only [newChild, hcalloc, Unflatten.push, modNode]
  · simp only [newChild, hcalloc, Unflatten.push, modNode, h.indexes, hdepth]
  · simp only [newChild, hcalloc, hfresh, Unflatten.push, modNode, h.count]
    rw [update_self, update_of_ne hne, update_self, hy, h.parent, h.nodeOff]
  · intro n hn hcount
    simp only [newChild, hcalloc, Unflatten.push, modNode, h.count]
    rw [update_of_ne hn, update_of_ne hcount, update_of_ne hn, h.heap, update_of_ne hn]

/-- Without children, the inner loop is next. -/
theorem Visited.leaf (fdt : Libfdt) (alloc : Nat → Bool) (h : Visited x s st a s1 y)
    (hoff : fdt.firstSubnode s.nodeOff < 0) :
    ∃ s', Reaches (step fdt alloc) s1 s' ∧ Descended x .nil s st a s.nodeOff s' .nil := by
  have hy : s1.heap a = y := by rw [h.heap, update_self]
  have hstep : step fdt alloc s1 =
      { s1.modNode a fun x => (x.setParent s1.parent).setData s1.nodeOff with
        nodeOff := fdt.firstSubnode s1.nodeOff, phase := .climb } := by
    simp only [step, h.phase, h.np]
    rw [link, if_neg (by simp [hy, h.child]), h.nodeOff]
    exact if_pos hoff
  refine ⟨_, .head (.refl _), ?_⟩
  rw [hstep]
  refine ⟨rfl, h.np, ⟨h.stacked.depth, h.stacked.slot⟩, ⟨Nat.le_of_eq h.count.symm, ⟨[], ?_, fun _ hi => nomatch hi⟩, ?_⟩,
    ⟨List.nodup_nil, trivial, rfl, fun _ hn => nomatch hn⟩, fun n => ⟨fun hn => (nomatch hn), fun hn => ?_⟩, ?_, ?_⟩
  · rw [List.append_nil]
    exact h.indexes
  · exact h.phandles
  · have hcount := h.count
    simp only [modNode] at hn
    omega
  · simp only [modNode, update_self, hy]
    exact ⟨h.flat, h.parent, h.child, h.nodeOff⟩
  · intro n _ hn
    simp only [modNode, h.heap, update_of_ne hn]

/-- The children of a node are built, if they fit on the stack. -/
theorem descend (halloc : ∀ i, alloc i = true) (hent : Entered s st a) (henum : Enumerates fdt s.nodeOff (.cons x cs ss))
    (ih : Walks fdt alloc cs) :
    ((cs.levels + 1 + st.length : Int) ≤ ofwNodeMaxDepth + 1 →
      ∃ s' shape, Reaches (step fdt alloc) s s' ∧ Descended x cs s st a s.nodeOff s' shape) ∧
    (ofwNodeMaxDepth + 1 < (cs.levels + 1 + st.length : Int) → Overruns fdt alloc s) := by
  obtain ⟨s1, y, hr1, hv⟩ := hent.visited halloc henum
  obtain ⟨-, -, -, -, hchildren, -⟩ := henum
  cases cs with
  | nil =>
    refine ⟨fun _ => ?_, fun hlt => ?_⟩
    · obtain ⟨s2, hr2, hd⟩ := hv.leaf fdt alloc hchildren
      exact ⟨s2, .nil, hr1.trans hr2, hd⟩
    · have := hent.fits
      simp only [Forest.levels] at hlt
      omega
  | cons z ds es =>
    have hoff : 0 ≤ fdt.firstSubnode s.nodeOff := hchildren.1
    have hlevels : 1 ≤ (Forest.cons z ds es).levels := by
      simp only [Forest.levels]
      omega
    by_cases hfits : (st.length : Int) < ofwNodeMaxDepth
    · obtain ⟨s2, hstep, hent2, hoff2, hcount2, hphandles2, hindexes2, hnode2, hframe2⟩ := hv.link_step halloc hent.lt hoff hfits
      have hr2 : Reaches (step fdt alloc) s s2 := hr1.trans (.head (hstep ▸ .refl _))
      obtain ⟨hwalk, hover⟩ := ih s2 (a :: st) s.count hent2 (hoff2 ▸ hoff) (hoff2 ▸ hchildren)
      simp only [List.length_cons] at hwalk hover
      refine ⟨fun hle => ?_, fun hlt => .of_reaches hr2 (hover (by omega))⟩
      obtain ⟨s3, shape, hr3, hw⟩ := hwalk (by omega)
      have hcount3 : s2.count ≤ s3.count := by
        obtain ⟨s', hb, hc, -, -⟩ := hw.between
        exact hc ▸ hb.count
      have hout : a ∉ shape.nodes := by
        intro ha
        have := (hw.owned a).1 ha
        have := hent.lt
        omega
      refine ⟨s3, shape, hr2.trans hr3, hw.phase, ?_, ⟨?_, ?_⟩, ⟨?_, ?_, ?_⟩, hw.built, ?_, ?_, ?_⟩
      · have hlen : ((a :: st).length : Int) - 1 = st.length := by simp
        rw [hw.np, hlen]
        exact hw.slot st.length a (by simp)
      · rw [hw.depth]
        simp
      · intro i v hi
        refine hw.slot i v ?_
        rw [List.reverse_cons, List.getElem?_append_left (List.getElem?_eq_some_iff.1 hi).1]
        exact hi
      · omega
      · obtain ⟨s', hb, -, -, hidx⟩ := hw.between
        obtain ⟨l, hl, hbound⟩ := hb.indexes
        refine ⟨(st.length : Int) :: (l ++ [(st.length : Int)]), ?_, ?_⟩
        · rw [hidx, hl, hindexes2]
          simp
        · intro i hi
          rcases List.mem_cons.1 hi with rfl | hi
          · exact ⟨Int.natCast_nonneg _, hfits⟩
          · rcases List.mem_append.1 hi with hi | hi
            · exact hbound i hi
            · obtain rfl := List.mem_singleton.1 hi
              exact ⟨Int.natCast_nonneg _, hfits⟩
      · obtain ⟨s', hb, -, hp, -⟩ := hw.between
        rw [hp, hb.phandles, hphandles2, hv.phandles]
        simp [Forest.nodes]
      · intro n
        rw [hw.owned n]
        omega
      · rw [hw.frame a hout, hnode2, hw.head]
        exact ⟨hv.flat, rfl, rfl, rfl⟩
      · intro n hn hna
        have hnc : n ≠ s.count := by
          rintro rfl
          exact hn (Forest.head?_mem hw.head)
        rw [hw.frame n hn, hframe2 n hna hnc]
    · have hstack : (st.length : Int) = ofwNodeMaxDepth := by
        have := hent.fits
        omega
      refine ⟨fun hle => by omega, fun _ => .of_reaches hr1 ?_⟩
      have hy : s1.heap a = y := by rw [hv.heap, update_self]
      have hdepth : s1.depth = st.length := hv.stacked.depth
      refine ⟨_, .head (.refl _), ?_⟩
      simp only [step, hv.phase, hv.np]
      rw [link, if_neg (by simp [hy, hv.child]), hv.nodeOff]
      rw [if_neg (Int.not_lt.2 hoff), if_neg (by rw [modNode, hdepth]; omega)]
      refine ⟨rfl, ?_⟩
      rw [modNode, hdepth, hstack]
      exact List.mem_append_right _ List.mem_cons_self

/-- The last tree of a forest is built, and the loop goes up. -/
theorem Descended.last (h : Descended x cs s st a off s2 shape) (hlt : a < s.count) (hoff : fdt.nextSubnode off < 0) :
    Walked (.cons x cs .nil) s st a (step fdt alloc s2) (.cons a shape .nil) := by
  obtain ⟨hflat, hparent, hchild, hdata⟩ := h.node
  have hdepth : s2.depth = st.length := h.stacked.depth
  have hout : ∀ n ∈ shape.nodes, n ≠ a := by
    intro n hn
    have := (h.owned n).1 hn
    omega
  have hclimb : step fdt alloc s2 = s2.climb fdt alloc a := by simp only [step, h.phase, h.np]
  obtain ⟨s3, hs3, hstep⟩ : ∃ s3 : Unflatten, s3 = (({ s2.modNode a fun x => x.setData 0 with
      nodeOff := fdt.nextSubnode off } : Unflatten).modNode a fun x => x.setSibling none).pop ∧
      step fdt alloc s2 = if 0 ≤ s3.depth then s3 else s3.finish 0 := by
    refine ⟨_, rfl, ?_⟩
    rw [hclimb, climb, hdata]
    exact if_pos hoff
  have hheap : s3.heap = update s2.heap a (((s2.heap a).setData 0).setSibling none) := by
    rw [hs3]
    simp only [pop, modNode, update_self, update_idem]
  have hself : s3.heap a = ((s2.heap a).setData 0).setSibling none := by rw [hheap, update_self]
  have hother : ∀ n, n ≠ a → s3.heap n = s2.heap n := fun n hn => by rw [hheap, update_of_ne hn]
  have hfin : ∃ phase, step fdt alloc s2 = { s3 with phase := phase } ∧ phase = if st = [] then .done 0 else .climb := by
    have hdepth3 : s3.depth = st.length - 1 := by simp only [hs3, pop, modNode, hdepth]
    by_cases hnil : st = []
    · refine ⟨.done 0, ?_, (if_pos hnil).symm⟩
      rw [hstep]
      exact if_neg (by rw [hdepth3, hnil]; decide)
    · have hpos : 1 ≤ st.length := List.length_pos_iff.2 hnil
      refine ⟨s3.phase, ?_, ?_⟩
      · rw [hstep]
        exact if_pos (by omega)
      · rw [if_neg hnil, hs3]
        exact h.phase
  obtain ⟨phase, hfin, hphase⟩ := hfin
  rw [hfin]
  have hbuilt : Unflattened s3.heap (some a) shape cs := h.built.congr fun n hn => hother n (hout n hn)
  refine ⟨hphase, ?_, ?_, ?_, ⟨s2, h.between, ?_, ?_, ?_⟩, ⟨?_, ⟨?_, ?_, ?_, hbuilt.linked, trivial⟩, ?_, ?_⟩, rfl, ?_, ?_⟩
  · simp only [hs3, pop, modNode, hdepth]
  · simp only [hs3, pop, modNode, hdepth]
  · intro i v hi
    simp only [hs3, pop, modNode]
    exact h.stacked.slot i v hi
  · simp only [hs3, pop, modNode]
  · simp only [hs3, pop, modNode]
  · simp only [hs3, pop, modNode, hdepth]
  · simp only [Forest.nodes, List.append_nil, List.nodup_cons]
    exact ⟨fun ha => hout a ha rfl, h.built.nodup⟩
  · exact (congrArg OfwNode.parent hself).trans hparent
  · exact (congrArg OfwNode.child hself).trans hchild
  · exact congrArg OfwNode.sibling hself
  · exact congrArg₂ (Forest.cons · · .nil) ((congrArg OfwNode.flat hself).trans hflat) hbuilt.data
  · intro n hn
    simp only [Forest.nodes, List.append_nil, List.mem_cons] at hn
    rcases hn with rfl | hn
    · exact congrArg OfwNode.rtData hself
    · exact hbuilt.cleared n hn
  · intro n
    simp only [Forest.nodes, List.append_nil, List.mem_cons, hs3, pop, modNode]
    rw [h.owned n]
  · intro n hn
    simp only [Forest.nodes, List.append_nil, List.mem_cons, not_or] at hn
    exact (hother n hn.1).trans (h.frame n hn.2 hn.1)

/-- From a node whose children are built, to its next sibling. -/
theorem Descended.sibling_step (h : Descended x cs s st a off s2 shape)
    (halloc : ∀ i, alloc i = true) (hlt : a < s.count) (hfits : (st.length : Int) ≤ ofwNodeMaxDepth)
    (hoff : 0 ≤ fdt.nextSubnode off) :
    ∃ s3, step fdt alloc s2 = s3 ∧ Entered s3 st s2.count ∧ s3.nodeOff = fdt.nextSubnode off ∧
      s3.count = s2.count + 1 ∧ s3.phandles = s2.phandles ∧ s3.indexes = s2.indexes ∧
      s3.heap a = ((s2.heap a).setData 0).setSibling (some s2.count) ∧
      ∀ n, n ≠ a → n ≠ s2.count → s3.heap n = s2.heap n := by
  obtain ⟨hflat, hparent, hchild, hdata⟩ := h.node
  have hcount := h.between.count
  have hne : a ≠ s2.count := by omega
  have hclimb : step fdt alloc s2 = s2.climb fdt alloc a := by simp only [step, h.phase, h.np]
  have hfresh : ∀ t : Unflatten, t.fresh alloc = some t.count := fun t => if_pos (halloc _)
  have hcalloc : ∀ t : Unflatten, t.calloc alloc =
      { t with heap := update t.heap t.count {}, count := t.count + 1, requests := t.requests + 1 } :=
    fun t => if_pos (halloc _)
  have hnext : s2.climb fdt alloc a =
      ({ s2.modNode a fun x => x.setData 0 with
          nodeOff := fdt.nextSubnode off, parent := st.head? } : Unflatten).newSibling alloc a := by
    rw [climb, hdata]
    rw [if_neg (Int.not_lt.2 hoff), ← hparent]
    simp only [modNode, update_self]
    rfl
  refine ⟨_, hclimb.trans hnext, ⟨rfl, ?_, ?_, ?_, ?_, ⟨?_, ?_⟩, hfits⟩, ?_, ?_, ?_, ?_, ?_, ?_⟩
  · simp only [newSibling, hfresh, modNode]
  · simp only [newSibling, hcalloc, modNode]
    rw [update_of_ne hne.symm, update_self]
  · simp only [newSibling, hcalloc, modNode]
    omega
  · simp only [newSibling, hcalloc, modNode]
  · simp only [newSibling, hcalloc, modNode]
    exact h.stacked.depth
  · simp only [newSibling, hcalloc, modNode]
    exact h.stacked.slot
  · simp only [newSibling, hcalloc, modNode]
  · simp only [newSibling, hcalloc, modNode]
  · simp only [newSibling, hcalloc, modNode]
  · simp only [newSibling, hcalloc, modNode]
  · simp only [newSibling, hcalloc, hfresh, modNode]
    rw [update_self, update_of_ne hne, update_self]
  · intro n hn hnc
    simp only [newSibling, hcalloc, modNode]
    rw [update_of_ne hn, update_of_ne hnc, update_of_ne hn]

/-- A tree and the trees after it, put together. -/
theorem Descended.cons {s3 s4 : Unflatten} {shape' : Forest Nat}
    (h : Descended x cs s st a off s2 shape) (hlt : a < s.count)
    (hcount : s3.count = s2.count + 1) (hphandles : s3.phandles = s2.phandles) (hindexes : s3.indexes = s2.indexes)
    (hnode : s3.heap a = ((s2.heap a).setData 0).setSibling (some s2.count))
    (hframe : ∀ n, n ≠ a → n ≠ s2.count → s3.heap n = s2.heap n) (hw : Walked ss s3 st s2.count s4 shape') :
    Walked (.cons x cs ss) s st a s4 (.cons a shape shape') := by
  obtain ⟨hflat, hparent, hchild, hdata⟩ := h.node
  have hcount2 := h.between.count
  obtain ⟨s', hb, hc, hp, hidx⟩ := hw.between
  have hcount4 : s3.count ≤ s4.count := hc ▸ hb.count
  have hout : a ∉ shape.nodes ∧ a ∉ shape'.nodes := by
    refine ⟨fun ha => ?_, fun ha => ?_⟩
    · have := (h.owned a).1 ha
      omega
    · have := (hw.owned a).1 ha
      omega
  have hself : s4.heap a = ((s2.heap a).setData 0).setSibling (some s2.count) := (hw.frame a hout.2).trans hnode
  have hold : ∀ n, n ∉ shape'.nodes → n ≠ a → s4.heap n = s2.heap n := by
    intro n hn hna
    rw [hw.frame n hn, hframe n hna]
    rintro rfl
    exact hn (Forest.head?_mem hw.head)
  have hdisj : ∀ n ∈ shape.nodes, n ∉ shape'.nodes := by
    intro n hn hn'
    have := (h.owned n).1 hn
    have := (hw.owned n).1 hn'
    omega
  have hbuilt : Unflattened s4.heap (some a) shape cs := by
    refine h.built.congr fun n hn => hold n (hdisj n hn) ?_
    rintro rfl
    exact hout.1 hn
  refine ⟨hw.phase, hw.np, hw.depth, hw.slot, ⟨s', ⟨?_, ?_, ?_⟩, hc, hp, hidx⟩,
    ⟨?_, ⟨?_, ?_, ?_, hbuilt.linked, hw.built.linked⟩, ?_, ?_⟩, rfl, ?_, ?_⟩
  · omega
  · obtain ⟨l, hl, hin⟩ := h.between.indexes
    obtain ⟨l', hl', hin'⟩ := hb.indexes
    refine ⟨l ++ l', by rw [hl', hindexes, hl, List.append_assoc], ?_⟩
    intro i hi
    exact (List.mem_append.1 hi).elim (hin i) (hin' i)
  · rw [hb.phandles, hphandles, h.between.phandles]
    simp [Forest.nodes]
  · simp only [Forest.nodes, List.nodup_cons, List.mem_append, List.nodup_append]
    refine ⟨fun ha => ha.elim hout.1 hout.2, h.built.nodup, hw.built.nodup, ?_⟩
    rintro n hn m hm rfl
    exact hdisj n hn hm
  · exact (congrArg OfwNode.parent hself).trans hparent
  · exact (congrArg OfwNode.child hself).trans hchild
  · exact (congrArg OfwNode.sibling hself).trans hw.head.symm
  · rw [Forest.map, hbuilt.data, hw.built.data]
    exact congrArg (Forest.cons · cs ss) ((congrArg OfwNode.flat hself).trans hflat)
  · intro n hn
    rcases List.mem_cons.1 hn with rfl | hn
    · exact congrArg OfwNode.rtData hself
    · exact (List.mem_append.1 hn).elim (hbuilt.cleared n) (hw.built.cleared n)
  · intro n
    simp only [Forest.nodes, List.mem_cons, List.mem_append]
    rw [h.owned n, hw.owned n]
    omega
  · intro n hn
    simp only [Forest.nodes, List.mem_cons, List.mem_append, not_or] at hn
    obtain ⟨hna, hn1, hn2⟩ := hn
    exact (hold n hn2 hna).trans (h.frame n hn1 hna)

/-- Every forest is walked. -/
theorem walks (halloc : ∀ i, alloc i = true) (flat : Forest FlatNode) : Walks fdt alloc flat := by
  induction flat with
  | nil =>
    intro s st a _ hoff henum
    exact absurd henum (Int.not_lt.2 hoff)
  | cons x cs ss ihc ihs =>
    intro s st a hent hoff henum
    obtain ⟨hdown, hdeep⟩ := descend halloc hent henum ihc
    obtain ⟨-, -, -, -, -, hsiblings⟩ := henum
    have hlevels : (Forest.cons x cs ss).levels = max (cs.levels + 1) ss.levels := rfl
    by_cases hfits : (cs.levels + 1 + st.length : Int) ≤ ofwNodeMaxDepth + 1
    · obtain ⟨s2, shape, hr2, hd⟩ := hdown hfits
      cases ss with
      | nil =>
        refine ⟨fun _ => ⟨_, _, hr2.trans (.head (.refl _)), hd.last hent.lt hsiblings⟩, fun hlt => ?_⟩
        simp only [Forest.levels] at hlt
        omega
      | cons z ds es =>
        obtain ⟨s3, hstep, hent3, hoff3, hcount3, hphandles3, hindexes3, hnode3, hframe3⟩ :=
          hd.sibling_step halloc hent.lt hent.fits hsiblings.1
        have hr3 : Reaches (step fdt alloc) s s3 := hr2.trans (.head (hstep ▸ .refl _))
        obtain ⟨hwalk, hover⟩ := ihs s3 st s2.count hent3 (hoff3 ▸ hsiblings.1) (hoff3 ▸ hsiblings)
        refine ⟨fun hle => ?_, fun hlt => .of_reaches hr3 (hover (by omega))⟩
        obtain ⟨s4, shape', hr4, hw⟩ := hwalk (by omega)
        exact ⟨s4, _, hr3.trans hr4, hd.cons hent.lt hcount3 hphandles3 hindexes3 hnode3 hframe3 hw⟩
    · exact ⟨fun hle => by omega, fun _ => hdeep (by omega)⟩

/-! ## The whole tree -/

theorem step_done {err : Int} (h : s.phase = .done err) : step fdt alloc s = s := by
  cases s
  cases h
  rfl

theorem step_fault (h : s.phase = .fault) : step fdt alloc s = s := by
  cases s
  cases h
  rfl

theorem start_entered (off : Int) (npStack : Int → Option Nat) : Entered (start off npStack) [] 0 :=
  ⟨rfl, rfl, rfl, Nat.one_pos, rfl, ⟨rfl, fun _ _ h => nomatch h⟩, by decide⟩

/-- The tree is unflattened, or the call returns an error, and `np_stack` is used within its bounds. -/
def Unflattens (fdt : Libfdt) (alloc : Nat → Bool) (rootOff : Int) (npStack : Int → Option Nat)
    (flat : Forest FlatNode) : Prop :=
  ∃ s err, Reaches (step fdt alloc) (start rootOff npStack) s ∧ s.phase = .done err ∧
    (∀ i ∈ s.indexes, 0 ≤ i ∧ i < ofwNodeMaxDepth) ∧
    (err ≠ 0 ∨ ∃ shape, shape.head? = some 0 ∧ Unflattened s.heap none shape flat)

section

variable (halloc : ∀ i, alloc i = true) (npStack : Int → Option Nat)
  (henum : Enumerates fdt rootOff (.cons x cs .nil))

include halloc henum

/-- A tree with at most one level more than the stack has entries is unflattened, and the last use of the stack, and
no other, is at index -1. -/
theorem start_walked (hfits : ((Forest.cons x cs .nil).levels : Int) ≤ ofwNodeMaxDepth + 1) :
    ∃ s shape l, Reaches (step fdt alloc) (start rootOff npStack) s ∧ s.phase = .done 0 ∧ s.indexes = l ++ [-1] ∧
      (∀ i ∈ l, 0 ≤ i ∧ i < ofwNodeMaxDepth) ∧ shape.head? = some 0 ∧ Unflattened s.heap none shape (.cons x cs .nil) ∧
      s.phandles = ((Forest.cons x cs .nil).nodes.map FlatNode.phandle).foldl widen (ofwPhandleMax, ofwPhandleMin) ∧
      ∀ n, n ∈ shape.nodes ↔ n < s.count := by
  obtain ⟨hwalk, -⟩ := walks halloc (.cons x cs .nil) (start rootOff npStack) [] 0 (start_entered rootOff npStack) henum.1 henum
  obtain ⟨s, shape, hr, hw⟩ := hwalk (by simpa using hfits)
  obtain ⟨s', hb, hc, hp, hidx⟩ := hw.between
  obtain ⟨l, hl, hin⟩ := hb.indexes
  refine ⟨s, shape, l, hr, hw.phase, ?_, hin, hw.head, hw.built, hp.trans hb.phandles, ?_⟩
  · rw [hidx, hl]
    rfl
  · intro n
    have hcount : 1 ≤ s.count := by
      rw [hc]
      exact hb.count
    refine (hw.owned n).trans ?_
    show n = 0 ∨ 1 ≤ n ∧ n < s.count ↔ n < s.count
    omega

/-- A deeper tree overruns the stack. -/
theorem start_overruns
    (hdeep : ofwNodeMaxDepth + 1 < ((Forest.cons x cs .nil).levels : Int)) : Overruns fdt alloc (start rootOff npStack) :=
  (walks halloc (.cons x cs .nil) (start rootOff npStack) [] 0 (start_entered rootOff npStack) henum.1 henum).2
    (by simpa using hdeep)

theorem not_unflattens : ¬ Unflattens fdt alloc rootOff npStack (.cons x cs .nil) := by
  rintro ⟨s, err, hr, hphase, hin, -⟩
  by_cases hfits : ((Forest.cons x cs .nil).levels : Int) ≤ ofwNodeMaxDepth + 1
  · obtain ⟨s', shape, l, hr', hphase', hidx, -⟩ := start_walked halloc npStack henum hfits
    obtain rfl := hr.stop_unique hr' (step_done hphase) (step_done hphase')
    have := hin (-1) (hidx ▸ List.mem_append_right _ List.mem_cons_self)
    omega
  · obtain ⟨s', hr', hphase', -⟩ := start_overruns halloc npStack henum (by omega)
    obtain rfl := hr.stop_unique hr' (step_done hphase) (step_fault hphase')
    rw [hphase] at hphase'
    cases hphase'

end

/-- On every tree the loop leaves the stack: with at most one level more than the stack has entries the tree is
unflattened and only the last use of the stack is out of its bounds, and with more levels the stack overruns. -/
theorem fdt_unflatten_single (halloc : ∀ i, alloc i = true) {rootOff : Int} (npStack : Int → Option Nat)
    (henum : Enumerates fdt rootOff (.cons x cs .nil)) :
    ¬ Unflattens fdt alloc rootOff npStack (.cons x cs .nil) ∧
    (((Forest.cons x cs .nil).levels : Int) ≤ ofwNodeMaxDepth + 1 →
      ∃ s shape l, Reaches (step fdt alloc) (start rootOff npStack) s ∧ s.phase = .done 0 ∧ s.indexes = l ++ [-1] ∧
        (∀ i ∈ l, 0 ≤ i ∧ i < ofwNodeMaxDepth) ∧ shape.head? = some 0 ∧ Unflattened s.heap none shape (.cons x cs .nil)) ∧
    (ofwNodeMaxDepth + 1 < ((Forest.cons x cs .nil).levels : Int) → Overruns fdt alloc (start rootOff npStack)) := by
  refine ⟨not_unflattens halloc npStack henum, fun hfits => ?_, start_overruns halloc npStack henum⟩
  obtain ⟨s, shape, l, hr, hphase, hidx, hin, hhead, hbuilt, -⟩ := start_walked halloc npStack henum hfits
  exact ⟨s, shape, l, hr, hphase, hidx, hin, hhead, hbuilt⟩

/-- A chain of `n` nodes, each the only child of the one before it. -/
def chain : Nat → Forest FlatNode
  | 0 => .nil
  | n + 1 => .cons ⟨"", 0, []⟩ (chain n) .nil

/-- The flat tree that is a chain of `n` nodes. -/
def chainFdt (n : Nat) : Libfdt where
  getName _ := ""
  getPhandle _ := 0
  firstSubnode off := if off + 1 < n then off + 1 else -1
  nextSubnode _ := -1
  firstPropertyOffset _ := -1
  nextPropertyOffset _ := -1
  getpropByOffset _ := ⟨"", []⟩

theorem chain_levels (n : Nat) : (chain n).levels = n := by
  induction n with
  | zero => rfl
  | succ n ih => simp [chain, Forest.levels, ih]

theorem chainFdt_enumerates {n k : Nat} (hk : k < n) : Enumerates (chainFdt n) ((n - (k + 1) : Nat) : Int) (chain (k + 1)) := by
  induction k with
  | zero =>
    refine ⟨Int.natCast_nonneg _, rfl, rfl, Int.negSucc_lt_zero 0, ?_, Int.negSucc_lt_zero 0⟩
    have hfirst : (chainFdt n).firstSubnode ((n - 1 : Nat) : Int) = -1 := if_neg (by omega)
    show (chainFdt n).firstSubnode ((n - 1 : Nat) : Int) < 0
    omega
  | succ k ih =>
    refine ⟨Int.natCast_nonneg _, rfl, rfl, Int.negSucc_lt_zero 0, ?_, Int.negSucc_lt_zero 0⟩
    have hfirst : (chainFdt n).firstSubnode ((n - (k + 1 + 1) : Nat) : Int) = ((n - (k + 1) : Nat) : Int) := by
      refine (if_pos (by omega)).trans ?_
      omega
    rw [hfirst]
    exact ih (by omega)

/-- A tree with two levels. -/
theorem fdt_unflatten_single_chain :
    ∃ s shape l, Reaches (step (chainFdt 2) fun _ => true) (start 0 fun _ => none) s ∧ s.phase = .done 0 ∧
      s.indexes = l ++ [-1] ∧ (∀ i ∈ l, 0 ≤ i ∧ i < ofwNodeMaxDepth) ∧ shape.head? = some 0 ∧
      Unflattened s.heap none shape (chain 2) :=
  (fdt_unflatten_single (fun _ => rfl) (fun _ => none) (chainFdt_enumerates (n := 2) (k := 1) (by decide))).2.1 (by decide)

/-- A lone root ends with a read before the stack, and a chain of 66 nodes with a write behind it. -/
theorem np_stack_left :
    ¬ Unflattens (chainFdt 1) (fun _ => true) 0 (fun _ => none) (chain 1) ∧
    Overruns (chainFdt 66) (fun _ => true) (start 0 fun _ => none) := by
  refine ⟨not_unflattens (fun _ => rfl) _ (chainFdt_enumerates Nat.one_pos), ?_⟩
  refine start_overruns (fun _ => rfl) _ (chainFdt_enumerates (n := 66) (k := 65) (by decide)) ?_
  have hlevels : ((chain 66).levels : Int) = 66 := by rw [chain_levels]; rfl
  exact hlevels ▸ (by decide)

end Unflatten

end RtThread
