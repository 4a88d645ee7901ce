import Mathlib.Logic.Function.Basic
import Mathlib.Order.Lattice

/-!
# AVL trees of linked nodes

`avl.c` and `avl.h`: a tree of nodes with left, right and parent links and a height each. The heap is a function from
nodes to their fields. A loop is given fuel; a dereference of a null link has no result.
-/

namespace RtThread

structure UtilAvlStruct where
  avlLeft : Option Nat
  avlRight : Option Nat
  parent : Option Nat
  height : Nat
deriving DecidableEq, Repr

/-- A variable that holds a link: `nodeplace` points to one. -/
inductive NodePlace
  | rootNode
  | avlLeft (node : Nat)
  | avlRight (node : Nat)
deriving DecidableEq, Repr

/-- The nodes, and the root of one tree. -/
structure UtilAvl where
  rootNode : Option Nat
  node : Nat → UtilAvlStruct

namespace UtilAvl

/-! ## Reads and writes -/

def setLeft (s : UtilAvl) (i : Nat) (x : Option Nat) : UtilAvl :=
  { s with node := Function.update s.node i { s.node i with avlLeft := x } }

def setRight (s : UtilAvl) (i : Nat) (x : Option Nat) : UtilAvl :=
  { s with node := Function.update s.node i { s.node i with avlRight := x } }

def setParent (s : UtilAvl) (i : Nat) (x : Option Nat) : UtilAvl :=
  { s with node := Function.update s.node i { s.node i with parent := x } }

def setHeight (s : UtilAvl) (i : Nat) (h : Nat) : UtilAvl :=
  { s with node := Function.update s.node i { s.node i with height := h } }

/-- `if (p != NULL) p->parent = x;` -/
def setParentOf (s : UtilAvl) (p x : Option Nat) : UtilAvl :=
  match p with
  | none => s
  | some i => s.setParent i x

/-- The link in a place. -/
def get (s : UtilAvl) : NodePlace → Option Nat
  | .rootNode => s.rootNode
  | .avlLeft i => (s.node i).avlLeft
  | .avlRight i => (s.node i).avlRight

/-- `*nodeplace = x;` -/
def put (s : UtilAvl) (place : NodePlace) (x : Option Nat) : UtilAvl :=
  match place with
  | .rootNode => { s with rootNode := x }
  | .avlLeft i => s.setLeft i x
  | .avlRight i => s.setRight i x

/-- `HEIGHT_OF`. -/
def heightOf (s : UtilAvl) : Option Nat → Nat
  | none => 0
  | some i => (s.node i).height

/-- The place of a node: `NODE_PLACE`, or the root. -/
def nodePlace (s : UtilAvl) (i : Nat) : NodePlace :=
  match (s.node i).parent with
  | none => .rootNode
  | some p => if (s.node p).avlLeft = some i then .avlLeft p else .avlRight p

/-! ## Rotations -/

def rotateRight (s : UtilAvl) (axis lchild : Nat) (lrchild : Option Nat) (nodeplace : NodePlace) (lrheight : Nat) :
    UtilAvl :=
  let s := s.setLeft axis lrchild
  let s := s.setRight lchild (some axis)
  let s := s.setHeight axis (lrheight + 1)
  let s := s.setHeight lchild ((s.node axis).height + 1)
  let s := s.setParent lchild (s.node axis).parent
  let s := s.setParent axis (some lchild)
  let s := s.put nodeplace (some lchild)
  s.setParentOf lrchild (some axis)

def midmountRight (s : UtilAvl) (axis lchild lrchild : Nat) (nodeplace : NodePlace) (lrheight : Nat) : UtilAvl :=
  let s := s.setRight lchild (s.node lrchild).avlLeft
  let s := s.setLeft axis (s.node lrchild).avlRight
  let s := s.setLeft lrchild (some lchild)
  let s := s.setRight lrchild (some axis)
  let s := s.setHeight lrchild (s.node lchild).height
  let s := s.setHeight lchild lrheight
  let s := s.setHeight axis lrheight
  let s := s.setParent lrchild (s.node axis).parent
  let s := s.setParent lchild (some lrchild)
  let s := s.setParent axis (some lrchild)
  let s := s.setParentOf (s.node lchild).avlRight (some lchild)
  let s := s.setParentOf (s.node axis).avlLeft (some axis)
  s.put nodeplace (some lrchild)

def rotateLeft (s : UtilAvl) (axis rchild : Nat) (rlchild : Option Nat) (nodeplace : NodePlace) (rlheight : Nat) :
    UtilAvl :=
  let s := s.setRight axis rlchild
  let s := s.setLeft rchild (some axis)
  let s := s.setHeight axis (rlheight + 1)
  let s := s.setHeight rchild ((s.node axis).height + 1)
  let s := s.setParent rchild (s.node axis).parent
  let s := s.setParent axis (some rchild)
  let s := s.put nodeplace (some rchild)
  s.setParentOf rlchild (some axis)

def midmountLeft (s : UtilAvl) (axis rchild rlchild : Nat) (nodeplace : NodePlace) (rlheight : Nat) : UtilAvl :=
  let s := s.setLeft rchild (s.node rlchild).avlRight
  let s := s.setRight axis (s.node rlchild).avlLeft
  let s := s.setRight rlchild (some rchild)
  let s := s.setLeft rlchild (some axis)
  let s := s.setHeight rlchild (s.node rchild).height
  let s := s.setHeight rchild rlheight
  let s := s.setHeight axis rlheight
  let s := s.setParent rlchild (s.node axis).parent
  let s := s.setParent rchild (some rlchild)
  let s := s.setParent axis (some rlchild)
  let s := s.setParentOf (s.node rchild).avlLeft (some rchild)
  let s := s.setParentOf (s.node axis).avlRight (some axis)
  s.put nodeplace (some rlchild)

/-! ## Rebalance -/

/-- One round of the loop of `util_avl_rebalance` at `axis`: the next `axis` (null ends the loop), or no change of the
tree at all, which leaves the loop. -/
inductive Round
  | stop
  | next (s : UtilAvl) (axis : Option Nat)

def rebalanceRound (s : UtilAvl) (axis : Nat) : Option Round :=
  let lchild := (s.node axis).avlLeft
  let rchild := (s.node axis).avlRight
  let nodeplace := s.nodePlace axis
  let lheight := s.heightOf lchild
  let rheight := s.heightOf rchild
  if rheight + 1 < lheight then
    match lchild with
    | none => none
    | some lchild =>
      let lrchild := (s.node lchild).avlRight
      let lrheight := s.heightOf lrchild
      if s.heightOf (s.node lchild).avlLeft ≥ lrheight then
        let s := s.rotateRight axis lchild lrchild nodeplace lrheight
        some (.next s (s.node lchild).parent)
      else
        match lrchild with
        | none => none
        | some lrchild =>
          let s := s.midmountRight axis lchild lrchild nodeplace lrheight
          some (.next s (s.node lrchild).parent)
  else if lheight + 1 < rheight then
    match rchild with
    | none => none
    | some rchild =>
      let rlchild := (s.node rchild).avlLeft
      let rlheight := s.heightOf rlchild
      if s.heightOf (s.node rchild).avlRight ≥ rlheight then
        let s := s.rotateLeft axis rchild rlchild nodeplace rlheight
        some (.next s (s.node rchild).parent)
      else
        match rlchild with
        | none => none
        | some rlchild =>
          let s := s.midmountLeft axis rchild rlchild nodeplace rlheight
          some (.next s (s.node rlchild).parent)
  else
    let height := (if lheight < rheight then rheight else lheight) + 1
    if height = (s.node axis).height then
      some .stop
    else
      let s := s.setHeight axis height
      some (.next s (s.node axis).parent)

def utilAvlRebalance : Nat → UtilAvl → Option Nat → Option UtilAvl
  | _, s, none => some s
  | 0, _, some _ => none
  | fuel + 1, s, some axis =>
    match s.rebalanceRound axis with
    | none => none
    | some .stop => some s
    | some (.next s axis) => utilAvlRebalance fuel s axis

/-! ## Link and remove -/

def utilAvlLink (s : UtilAvl) (newNode : Nat) (parent : Option Nat) (nodeplace : NodePlace) : UtilAvl :=
  let s := s.setLeft newNode none
  let s := s.setRight newNode none
  let s := s.setParent newNode parent
  let s := s.setHeight newNode 1
  s.put nodeplace (some newNode)

/-- The loop that looks for the successor, with its parent. -/
def successorLoop : Nat → UtilAvl → Nat → Nat → Option (Nat × Nat)
  | 0, _, _, _ => none
  | fuel + 1, s, sparent, successor =>
    match (s.node successor).avlLeft with
    | none => some (sparent, successor)
    | some left => successorLoop fuel s successor left

def utilAvlRemove (fuel : Nat) (s : UtilAvl) (node : Nat) : Option UtilAvl :=
  if s.rootNode = none then
    some s
  else
    let nodeplace := s.nodePlace node
    match (s.node node).avlRight with
    | none =>
      let s := s.put nodeplace (s.node node).avlLeft
      let s := s.setParentOf (s.node node).avlLeft (s.node node).parent
      utilAvlRebalance fuel s (s.node node).parent
    | some rchild =>
      match (s.node rchild).avlLeft with
      | none =>
        let s := s.put nodeplace (some rchild)
        let s := s.setLeft rchild (s.node node).avlLeft
        let s := s.setParentOf (s.node rchild).avlLeft (some rchild)
        let s := s.setParent rchild (s.node node).parent
        match utilAvlRebalance fuel s (some rchild) with
        | none => none
        | some s => utilAvlRebalance fuel s (s.node rchild).parent
      | some left =>
        match successorLoop fuel s rchild left with
        | none => none
        | some (sparent, successor) =>
          let s := s.put nodeplace (some successor)
          let s := s.setLeft sparent (s.node successor).avlRight
          let s := s.setLeft successor (s.node node).avlLeft
          let s := s.setRight successor (s.node node).avlRight
          let s := s.setParentOf (s.node successor).avlLeft (some successor)
          match (s.node successor).avlRight with
          | none => none
          | some right =>
            let s := s.setParent right (some successor)
            let s := s.setParentOf (s.node sparent).avlLeft (some sparent)
            let s := s.setParent successor (s.node node).parent
            match utilAvlRebalance fuel s (some sparent) with
            | none => none
            | some s => utilAvlRebalance fuel s (some successor)

/-! ## Enumeration -/

def leftmost : Nat → UtilAvl → Nat → Option Nat
  | 0, _, _ => none
  | fuel + 1, s, node =>
    match (s.node node).avlLeft with
    | none => some node
    | some left => leftmost fuel s left

/-- The loop of `util_avl_next` that goes up. -/
def nextUp : Nat → UtilAvl → Nat → Option (Option Nat)
  | 0, _, _ => none
  | fuel + 1, s, node =>
    match (s.node node).parent with
    | none => some none
    | some successor =>
      if (s.node successor).avlRight = some node then
        nextUp fuel s successor
      else
        some (some successor)

def utilAvlFirst (fuel : Nat) (s : UtilAvl) : Option (Option Nat) :=
  match s.rootNode with
  | none => some none
  | some root => (leftmost fuel s root).map some

def utilAvlNext (fuel : Nat) (s : UtilAvl) (node : Nat) : Option (Option Nat) :=
  match (s.node node).avlRight with
  | some right => (leftmost fuel s right).map some
  | none => nextUp fuel s node

/-! ## Positions for a key -/

/-- The search for the key `k` comes to the place `nodeplace`, a link of `current`. -/
inductive Search {K : Type} [LinearOrder K] (s : UtilAvl) (key : Nat → K) (k : K) : NodePlace → Option Nat → Prop
  | root : Search s key k .rootNode none
  | left {place : NodePlace} {above : Option Nat} {current : Nat} (hs : Search s key k place above)
      (hc : s.get place = some current) (hk : k < key current) : Search s key k (.avlLeft current) (some current)
  | right {place : NodePlace} {above : Option Nat} {current : Nat} (hs : Search s key k place above)
      (hc : s.get place = some current) (hk : key current < k) : Search s key k (.avlRight current) (some current)

end UtilAvl

end RtThread
