import RtThread.Mm.Avl

/-!
# The AVL tree of the processes

`lwp_avl.c` and `lwp_avl.h`: nodes with left and right links and a height each, no link to the parent. The way back up is
a stack of link variables in a local array of `avl_maxheight` entries; a write behind the array has no result, nor has a
dereference of a null link. A loop without a stack is given fuel.
-/

namespace RtThread

structure LwpAvlStruct where
  avlLeft : Option Nat
  avlRight : Option Nat
  avlHeight : Nat
  avlKey : Nat
  data : Option Nat
deriving DecidableEq, Repr

/-- The nodes, and the variable `*ptree` of one tree. -/
structure LwpAvl where
  ptree : Option Nat
  node : Nat → LwpAvlStruct

namespace LwpAvl

def avlMaxheight : Nat := 32

/-! ## Reads and writes -/

def setLeft (s : LwpAvl) (i : Nat) (x : Option Nat) : LwpAvl :=
  { s with node := Function.update s.node i { s.node i with avlLeft := x } }

def setRight (s : LwpAvl) (i : Nat) (x : Option Nat) : LwpAvl :=
  { s with node := Function.update s.node i { s.node i with avlRight := x } }

def setHeight (s : LwpAvl) (i : Nat) (h : Nat) : LwpAvl :=
  { s with node := Function.update s.node i { s.node i with avlHeight := h } }

def setKey (s : LwpAvl) (i : Nat) (k : Nat) : LwpAvl :=
  { s with node := Function.update s.node i { s.node i with avlKey := k } }

def setData (s : LwpAvl) (i : Nat) (x : Option Nat) : LwpAvl :=
  { s with node := Function.update s.node i { s.node i with data := x } }

/-- `*nodeplace` -/
def get (s : LwpAvl) : NodePlace → Option Nat
  | .rootNode => s.ptree
  | .avlLeft i => (s.node i).avlLeft
  | .avlRight i => (s.node i).avlRight

/-- `*nodeplace = x;` -/
def put (s : LwpAvl) (nodeplace : NodePlace) (x : Option Nat) : LwpAvl :=
  match nodeplace with
  | .rootNode => { s with ptree := x }
  | .avlLeft i => s.setLeft i x
  | .avlRight i => s.setRight i x

/-- `heightof`. -/
def heightof (s : LwpAvl) : Option Nat → Nat
  | none => 0
  | some i => (s.node i).avlHeight

/-! ## Rebalance -/

/-- One round of the loop of `lwp_avl_rebalance`: on to the next entry of the stack, or no change, which leaves the
loop. -/
inductive Round
  | stop
  | next (s : LwpAvl)

def rebalanceRound (s : LwpAvl) (nodeplace : NodePlace) (node : Nat) : Option Round :=
  let nodeleft := (s.node node).avlLeft
  let noderight := (s.node node).avlRight
  let heightleft := s.heightof nodeleft
  let heightright := s.heightof noderight
  if heightright + 1 < heightleft then
    match nodeleft with
    | none => none
    | some nodeleft =>
      let nodeleftleft := (s.node nodeleft).avlLeft
      let nodeleftright := (s.node nodeleft).avlRight
      let heightleftright := s.heightof nodeleftright
      if s.heightof nodeleftleft ≥ heightleftright then
        let s := s.setLeft node nodeleftright
        let s := s.setRight nodeleft (some node)
        let s := s.setHeight node (1 + heightleftright)
        let s := s.setHeight nodeleft (1 + (1 + heightleftright))
        some (.next (s.put nodeplace (some nodeleft)))
      else
        match nodeleftright with
        | none => none
        | some nodeleftright =>
          let s := s.setRight nodeleft (s.node nodeleftright).avlLeft
          let s := s.setLeft node (s.node nodeleftright).avlRight
          let s := s.setLeft nodeleftright (some nodeleft)
          let s := s.setRight nodeleftright (some node)
          let s := s.setHeight node heightleftright
          let s := s.setHeight nodeleft heightleftright
          let s := s.setHeight nodeleftright heightleft
          some (.next (s.put nodeplace (some nodeleftright)))
  else if heightleft + 1 < heightright then
    match noderight with
    | none => none
    | some noderight =>
      let noderightright := (s.node noderight).avlRight
      let noderightleft := (s.node noderight).avlLeft
      let heightrightleft := s.heightof noderightleft
      if s.heightof noderightright ≥ heightrightleft then
        let s := s.setRight node noderightleft
        let s := s.setLeft noderight (some node)
        let s := s.setHeight node (1 + heightrightleft)
        let s := s.setHeight noderight (1 + (1 + heightrightleft))
        some (.next (s.put nodeplace (some noderight)))
      else
        match noderightleft with
        | none => none
        | some noderightleft =>
          let s := s.setLeft noderight (s.node noderightleft).avlRight
          let s := s.setRight node (s.node noderightleft).avlLeft
          let s := s.setRight noderightleft (some noderight)
          let s := s.setLeft noderightleft (some node)
          let s := s.setHeight node heightrightleft
          let s := s.setHeight noderight heightrightleft
          let s := s.setHeight noderightleft heightright
          some (.next (s.put nodeplace (some noderightleft)))
  else
    let height := (if heightleft < heightright then heightright else heightleft) + 1
    if height = (s.node node).avlHeight then some .stop else some (.next (s.setHeight node height))

/-- The entries of the stack, the last one first. -/
def lwpAvlRebalance : List NodePlace → LwpAvl → Option LwpAvl
  | [], s => some s
  | nodeplace :: places, s =>
    match s.get nodeplace with
    | none => none
    | some node =>
      match s.rebalanceRound nodeplace node with
      | none => none
      | some .stop => some s
      | some (.next s) => lwpAvlRebalance places s

/-! ## Remove -/

/-- The search of `lwp_avl_remove`: no node with the key, or the stack, whose last entry is the place of the node. `room`
is what is left of the array. -/
def removeSearch (s : LwpAvl) (key room : Nat) (nodeplace : NodePlace) (stack : List NodePlace) :
    Option (Option (List NodePlace × NodePlace)) :=
  match s.get nodeplace with
  | none => some none
  | some node =>
    match room with
    | 0 => none
    | room + 1 =>
      if key = (s.node node).avlKey then some (some (stack ++ [nodeplace], nodeplace))
      else if key < (s.node node).avlKey then s.removeSearch key room (.avlLeft node) (stack ++ [nodeplace])
      else s.removeSearch key room (.avlRight node) (stack ++ [nodeplace])

/-- The search for the predecessor: the node, its place, and the stack. -/
def predecessorLoop (s : LwpAvl) (room : Nat) (nodeplace : NodePlace) (stack : List NodePlace) :
    Option (Nat × NodePlace × List NodePlace) :=
  match s.get nodeplace with
  | none => none
  | some node =>
    match (s.node node).avlRight with
    | none => some (node, nodeplace, stack)
    | some _ =>
      match room with
      | 0 => none
      | room + 1 => s.predecessorLoop room (.avlRight node) (stack ++ [nodeplace])

def lwpAvlRemove (s : LwpAvl) (nodeToDelete : Nat) : Option LwpAvl :=
  match s.removeSearch (s.node nodeToDelete).avlKey avlMaxheight .rootNode [] with
  | none => none
  | some none => some s
  | some (some (stack, nodeplaceToDelete)) =>
    match (s.node nodeToDelete).avlLeft with
    | none =>
      let s := s.put nodeplaceToDelete (s.node nodeToDelete).avlRight
      lwpAvlRebalance stack.dropLast.reverse s
    | some _ =>
      match s.predecessorLoop (avlMaxheight - stack.length) (.avlLeft nodeToDelete) stack with
      | none => none
      | some (node, nodeplace, stack') =>
        let s := s.put nodeplace (s.node node).avlLeft
        let s := s.setLeft node (s.node nodeToDelete).avlLeft
        let s := s.setRight node (s.node nodeToDelete).avlRight
        let s := s.setHeight node (s.node nodeToDelete).avlHeight
        let s := s.put nodeplaceToDelete (some node)
        -- `*stack_ptr_to_delete = &node->avl_left;` may write the entry behind the last one
        if stack.length < avlMaxheight then
          lwpAvlRebalance (stack'.set stack.length (.avlLeft node)).reverse s
        else
          none

/-! ## Insert -/

/-- The search of `lwp_avl_insert`: the empty place, and the stack. -/
def insertSearch (s : LwpAvl) (key room : Nat) (nodeplace : NodePlace) (stack : List NodePlace) :
    Option (NodePlace × List NodePlace) :=
  match s.get nodeplace with
  | none => some (nodeplace, stack)
  | some node =>
    match room with
    | 0 => none
    | room + 1 =>
      if key < (s.node node).avlKey then s.insertSearch key room (.avlLeft node) (stack ++ [nodeplace])
      else s.insertSearch key room (.avlRight node) (stack ++ [nodeplace])

def lwpAvlInsert (s : LwpAvl) (newNode : Nat) : Option LwpAvl :=
  match s.insertSearch (s.node newNode).avlKey avlMaxheight .rootNode [] with
  | none => none
  | some (nodeplace, stack) =>
    let s := s.setLeft newNode none
    let s := s.setRight newNode none
    let s := s.setHeight newNode 1
    lwpAvlRebalance stack.reverse (s.put nodeplace (some newNode))

/-! ## Searching and visiting -/

def lwpAvlFind (s : LwpAvl) (key : Nat) : Nat → Option Nat → Option (Option Nat)
  | _, none => some none
  | 0, some _ => none
  | fuel + 1, some ptree =>
    if key = (s.node ptree).avlKey then some (some ptree)
    else if key < (s.node ptree).avlKey then s.lwpAvlFind key fuel (s.node ptree).avlLeft
    else s.lwpAvlFind key fuel (s.node ptree).avlRight

/-- The function `fun` reads and writes what `arg` points to. -/
def lwpAvlTraversal {σ : Type} (s : LwpAvl) (f : Nat → σ → Int × σ) : Nat → Option Nat → σ → Option (Int × σ)
  | _, none, arg => some (0, arg)
  | 0, some _, _ => none
  | fuel + 1, some ptree, arg =>
    match (s.node ptree).avlLeft.elim (some (0, arg)) (fun _ => s.lwpAvlTraversal f fuel (s.node ptree).avlLeft arg) with
    | none => none
    | some (ret, arg) =>
      if ret ≠ 0 then
        some (ret, arg)
      else
        let (ret, arg) := f ptree arg
        if ret ≠ 0 then
          some (ret, arg)
        else
          (s.node ptree).avlRight.elim (some (ret, arg))
            (fun _ => s.lwpAvlTraversal f fuel (s.node ptree).avlRight arg)

def lwpMapFindFirst (s : LwpAvl) : Nat → Option Nat → Option (Option Nat)
  | _, none => some none
  | 0, some _ => none
  | fuel + 1, some ptree =>
    match (s.node ptree).avlLeft with
    | none => some (some ptree)
    | some left => s.lwpMapFindFirst fuel (some left)

end LwpAvl

end RtThread
