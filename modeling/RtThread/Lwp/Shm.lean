import RtThread.Lib.Arena
import RtThread.Lwp.AvlRun

/-!
# Shared memory

`lwp_shm.c`: the segments are in an array, and two trees find them by key and by the address of their pages. A tree node
for each comes from one call of `rt_malloc`. The pages, the nodes and the areas that are attached are lists of what was
given out and not given back; to free what is not there has no result. What the allocators, `rt_aspace_map` and
`rt_aspace_unmap` do in a call is given with the call.
-/

namespace RtThread

/-- `RT_LWP_SHM_MAX_NR`, an `int`; the width of `size_t`; and `ARCH_PAGE_SHIFT`. -/
structure ShmConfig where
  maxNr : Nat
  sizeBits : Nat
  pageShift : Nat
  lt_int : maxNr < 2 ^ 31
  bits : 32 ≤ sizeBits

structure LwpShmStruct where
  addr : Nat
  size : Nat
  ref : Int
  key : Nat

structure LwpShm where
  node : Nat → LwpAvlStruct
  shmTreeKey : Option Nat
  shmTreePa : Option Nat
  shmFreeList : Int
  shmIdUsed : Nat
  shmAry : Nat → LwpShmStruct
  /-- The blocks of pages, with their order. -/
  pages : List (Nat × Nat)
  /-- The blocks of two tree nodes. -/
  blocks : List Nat
  /-- The item that each attached area belongs to. -/
  vareas : List Nat

namespace LwpShm

/-! ## Reads and writes -/

/-- `(int)addr` -/
def toInt (addr : Nat) : Int := if addr % 2 ^ 32 < 2 ^ 31 then (addr % 2 ^ 32 : Nat) else (addr % 2 ^ 32 : Nat) - 2 ^ 32

/-- `(size_t)id` -/
def toSize (c : ShmConfig) (id : Int) : Nat := (id % 2 ^ c.sizeBits).toNat

def setItem (s : LwpShm) (i : Nat) (p : LwpShmStruct) : LwpShm := { s with shmAry := Function.update s.shmAry i p }

/-- The tree of the keys, or of the addresses. -/
def keyTree (s : LwpShm) : LwpAvl := ⟨s.shmTreeKey, s.node⟩
def paTree (s : LwpShm) : LwpAvl := ⟨s.shmTreePa, s.node⟩

def withKeyTree (s : LwpShm) (avl : LwpAvl) : LwpShm := { s with shmTreeKey := avl.ptree, node := avl.node }
def withPaTree (s : LwpShm) (avl : LwpAvl) : LwpShm := { s with shmTreePa := avl.ptree, node := avl.node }

def rtPageBits (c : ShmConfig) (size : Nat) : Nat :=
  let bit := Nat.log2 size
  let bit := if size ^^^ 1 <<< bit ≠ 0 then bit + 1 else bit
  bit - c.pageShift

local instance pairLawful : LawfulBEq (Nat × Nat) := inferInstance

def rtPagesFree (s : LwpShm) (addr bit : Nat) : Option LwpShm :=
  if (addr, bit) ∈ s.pages then some { s with pages := s.pages.erase (addr, bit) } else none

def rtFree (s : LwpShm) (block : Nat) : Option LwpShm :=
  if block ∈ s.blocks then some { s with blocks := s.blocks.erase block } else none

def onShmVareaOpen (s : LwpShm) (i : Nat) : LwpShm := s.setItem i { s.shmAry i with ref := (s.shmAry i).ref + 1 }

def onShmVareaClose (s : LwpShm) (i : Nat) : LwpShm := s.setItem i { s.shmAry i with ref := (s.shmAry i).ref - 1 }

/-! ## Identifiers -/

/-- `_shm_id_alloc` -/
def shmIdAlloc (c : ShmConfig) (s : LwpShm) : Int × LwpShm :=
  if s.shmFreeList ≠ -1 then
    (s.shmFreeList, { s with shmFreeList := toInt (s.shmAry s.shmFreeList.toNat).addr })
  else if s.shmIdUsed < c.maxNr then
    (s.shmIdUsed, { s with shmIdUsed := s.shmIdUsed + 1 })
  else
    (-1, s)

def shmIdFree (c : ShmConfig) (s : LwpShm) (id : Nat) : LwpShm :=
  let s := s.setItem id { s.shmAry id with addr := toSize c s.shmFreeList }
  { s with shmFreeList := id }

def shmIdToNode (c : ShmConfig) (fuel : Nat) (s : LwpShm) (id : Int) : Option (Option Nat) :=
  if id < 0 ∨ id ≥ c.maxNr then
    some none
  else
    match s.keyTree.lwpAvlFind (s.shmAry id.toNat).key fuel s.shmTreeKey with
    | none => none
    | some none => some none
    | some (some nodeKey) => if (s.node nodeKey).data ≠ some id.toNat then some none else some (some nodeKey)

/-! ## Get -/

/-- The code behind the label `err`, where `node_key` is always null. -/
def getErr (c : ShmConfig) (s : LwpShm) (id : Int) (pageAddr : Option Nat) (bit : Nat) : Option (Int × LwpShm) :=
  let s := if id ≠ -1 then s.shmIdFree c id.toNat else s
  match pageAddr with
  | none => some (-1, s)
  | some addr =>
    match s.rtPagesFree addr bit with
    | none => none
    | some s => some (-1, s)

/-- What `rt_pages_alloc_ext` and `rt_malloc` give are `pageAddr` and `nodeKey`. -/
def lwpShmget (c : ShmConfig) (fuel : Nat) (s : LwpShm) (key size : Nat) (create : Bool) (pageAddr nodeKey : Option Nat) :
    Option (Int × LwpShm) :=
  match s.keyTree.lwpAvlFind key fuel s.shmTreeKey with
  | none => none
  | some (some nodeKey) => (s.node nodeKey).data.map fun p => ((p : Int), s)
  | some none =>
    if !create then
      some (-1, s)
    else if size = 0 then
      s.getErr c (-1) none 0
    else
      let (id, s) := s.shmIdAlloc c
      if id = -1 then
        s.getErr c id none 0
      else
        let bit := rtPageBits c size
        match pageAddr with
        | none => s.getErr c id none bit
        | some addr =>
          let s := { s with pages := (addr, bit) :: s.pages }
          let s := s.setItem id.toNat ⟨addr, 1 <<< (bit + c.pageShift) % 2 ^ c.sizeBits, 0, key⟩
          match nodeKey with
          | none => s.getErr c id pageAddr bit
          | some nodeKey =>
            let s := { s with blocks := nodeKey :: s.blocks }
            match ((s.keyTree.setKey nodeKey (s.shmAry id.toNat).key).setData nodeKey id.toNat).lwpAvlInsert nodeKey with
            | none => none
            | some avl =>
              let s := s.withKeyTree avl
              let nodePa := nodeKey + 1
              match ((s.paTree.setKey nodePa (s.shmAry id.toNat).addr).setData nodePa id.toNat).lwpAvlInsert nodePa with
              | none => none
              | some avl => some (id, s.withPaTree avl)

/-! ## Remove -/

def lwpShmrm (c : ShmConfig) (fuel : Nat) (s : LwpShm) (id : Int) : Option (Int × LwpShm) :=
  match s.shmIdToNode c fuel id with
  | none => none
  | some none => some (-1, s)
  | some (some nodeKey) =>
    match (s.node nodeKey).data with
    | none => none
    | some p =>
      if (s.shmAry p).ref ≠ 0 then
        some (0, s)
      else
        let bit := rtPageBits c (s.shmAry p).size
        match s.rtPagesFree (s.shmAry p).addr bit with
        | none => none
        | some s =>
          match s.keyTree.lwpAvlRemove nodeKey with
          | none => none
          | some avl =>
            let s := s.withKeyTree avl
            let nodePa := nodeKey + 1
            match s.paTree.lwpAvlRemove nodePa with
            | none => none
            | some avl =>
              match (s.withPaTree avl).rtFree nodeKey with
              | none => none
              | some s => some (0, s.shmIdFree c id.toNat)

/-! ## Attach and detach -/

/-- `lwpSelf`: there is a process. `installed`: `rt_aspace_map` has installed an area, for which it calls
`on_varea_open`; `va` is the address that it gives if it succeeds. -/
def lwpShmat (c : ShmConfig) (fuel : Nat) (s : LwpShm) (id : Int) (shmVaddr : Nat) (lwpSelf installed : Bool)
    (va : Option Nat) : Option (Option Nat × LwpShm) :=
  if shmVaddr % 2 ^ c.pageShift ≠ 0 then
    some (none, s)
  else
    match s.shmIdToNode c fuel id with
    | none => none
    | some none => some (none, s)
    | some (some nodeKey) =>
      match (s.node nodeKey).data with
      | none => none
      | some p =>
        if !lwpSelf then
          some (none, s)
        else
          some (va, if installed then { s.onShmVareaOpen p with vareas := p :: s.vareas } else s)

/-- `removed`: the item that the area belongs to which `rt_aspace_unmap` has removed and called `on_varea_close` for, if
it belongs to one; `ok` is whether it succeeds. -/
def lwpShmdt (s : LwpShm) (lwpSelf : Bool) (removed : Option Nat) (ok : Bool) : Int × LwpShm :=
  if !lwpSelf then
    (-1, s)
  else
    (if ok then 0 else -1,
      match removed with
      | none => s
      | some p => { s.onShmVareaClose p with vareas := s.vareas.erase p })

end LwpShm

end RtThread
