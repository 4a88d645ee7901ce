import Mathlib.Algebra.Group.Nat.Defs
import Mathlib.Data.List.Perm.Subperm
import RtThread.Ofw.Unflatten

/-!
# The phandle table

The table `_phandle_hash` of `base.c` maps a phandle, rebased by the least one, to its node. It is set up behind
`rt_fdt_unflatten` from the range of the phandles of the tree, grows with `rt_ofw_append_child`, and is a cache of the
walk over all nodes for `rt_ofw_find_node_by_phandle`. The arithmetic on phandles is modulo 2^32. An access outside the
allocated entries is an outcome of its own (`outside`): nothing is said about what the call does then.
-/

namespace RtThread

open Forests Runs

/-- `OFW_NODE_MIN_HASH`. -/
def ofwNodeMinHash : Nat := 128

/-- The sizes of a pointer, in bytes, and of `rt_size_t`, in bits. -/
structure OfwConfig where
  ptrSize : Nat
  sizeBits : Nat

/-- The entries that an allocation for `n` entries has. -/
def OfwConfig.entries (c : OfwConfig) (n : Nat) : Nat := c.ptrSize * n % 2 ^ c.sizeBits / c.ptrSize

/-- `RT_ALIGN(max, OFW_NODE_MIN_HASH)` on a phandle. -/
def ofwAlign (max : Nat) : Nat := (max + (ofwNodeMinHash - 1)) % 2 ^ 32 / ofwNodeMinHash * ofwNodeMinHash

/-- `cpu_to_fdt32(phandle)`, as bytes. -/
def cpuToFdt32 (n : Nat) : List (BitVec 8) :=
  [BitVec.ofNat 8 (n / 2 ^ 24), BitVec.ofNat 8 (n / 2 ^ 16), BitVec.ofNat 8 (n / 2 ^ 8), BitVec.ofNat 8 n]

/-- The nodes, `_phandle_range`, `_phandle_next` and the entries of `_phandle_hash`, if it is not `RT_NULL`. -/
structure PhandleState where
  heap : Nat → OfwNode
  count : Nat
  lo : Nat := 1
  hi : Nat := 1
  next : Nat := 1
  hash : Option (List (Option Nat)) := none

/-- The calls. For `append`: the parent (the root, if none), the name, whether the table, the node and the property
are allocated, and what an extended table has in its new entries. -/
inductive PhandleEv
  | find (phandle : BitVec 32)
  | append (parent : Option Nat) (fullName : Option String) (table node prop : Bool) (junk : List (Option Nat))
  deriving DecidableEq

/-- The node found, the node appended, or an access outside the table. -/
inductive PhandleRet
  | found (np : Option Nat)
  | appended (np : Option Nat)
  | outside
  deriving DecidableEq

namespace PhandleState

/-- `phandle - _phandle_range[0]`. -/
def rebase (s : PhandleState) (phandle : BitVec 32) : Nat := (phandle.toNat + (2 ^ 32 - s.lo)) % 2 ^ 32

/-- `rt_ofw_find_node_by_phandle`. -/
def findNodeByPhandle (s : PhandleState) (phandle : BitVec 32) : Option (PhandleState × PhandleRet) :=
  if ofwPhandleMin ≤ phandle.toNat ∧ phandle.toNat ≤ ofwPhandleMax then
    let poff := s.rebase phandle
    match s.hash.bind fun table => table[poff]?.map fun np => (table, np) with
    | none => some (s, .outside)
    | some (_, some np) => some (s, .found (some np))
    | some (table, none) =>
      ((ofwLinks s.heap).find s.count (fun np => decide ((s.heap np).phandle = phandle)) s.count (some 0)).map fun np =>
        match np with
        | none => (s, .found none)
        | some np => ({ s with hash := some (table.set poff (some np)) }, .found (some np))
  else some (s, .found none)

/-- What `ofw_phandle_hash_reset` does: an error, an access outside the table, or a new table. -/
inductive Reset
  | error
  | outside
  | ok (s : PhandleState)

/-- `ofw_phandle_hash_reset`. -/
def hashReset (c : OfwConfig) (s : PhandleState) (lo hi : Nat) (alloc : Bool) (junk : List (Option Nat)) : Reset :=
  let max := ofwAlign hi
  let len := c.entries ((max + (2 ^ 32 - lo)) % 2 ^ 32)
  if s.hi < max ∧ alloc = true ∧ len ≠ 0 then
    let s1 := { s with lo := if lo = 0 then s.lo else lo, hi := max, next := (hi + 1) % 2 ^ 32 }
    match s.hash with
    | none => .ok { s1 with hash := some (List.replicate len none) }
    | some table =>
      if len < max then .outside
      else
        let table := (table ++ junk ++ List.replicate len none).take len
        .ok { s1 with hash := some (table.take s.hi ++ List.replicate (max - s.hi) none ++ table.drop max) }
  else .error

/-- `ofw_phandle_next`, with 0 for an error. The assertion stops the system. -/
def phandleNext (c : OfwConfig) (s : PhandleState) (alloc : Bool) (junk : List (Option Nat)) :
    Option (Option (PhandleState × Nat)) :=
  if s.next = ofwPhandleMax then none
  else if s.next ≤ s.hi then some (some ({ s with next := (s.next + 1) % 2 ^ 32 }, s.next))
  else
    match s.hashReset c s.lo s.next alloc junk with
    | .ok s => some (some ({ s with next := (s.next + 1) % 2 ^ 32 }, s.next))
    | .error => some (some (s, 0))
    | .outside => some none

/-- The new node. -/
def newNode (fullName : String) (phandle parent : Nat) : OfwNode :=
  { fullName := fullName, phandle := BitVec.ofNat 32 phandle, parent := some parent, props := [⟨"phandle", cpuToFdt32 phandle⟩] }

/-- The new node `np` is linked behind the last child of `parent`. -/
def linkNode (s : PhandleState) (parent : Nat) (x : OfwNode) : Option PhandleState :=
  ((ofwLinks s.heap).lastChild s.count parent).map fun last =>
    let heap := Function.update s.heap s.count x
    let heap := match last with
      | none => Function.update heap parent ((heap parent).setChild (some s.count))
      | some child => Function.update heap child ((heap child).setSibling (some s.count))
    { s with heap := heap, count := s.count + 1 }

/-- `rt_ofw_append_child`. -/
def appendChild (c : OfwConfig) (s : PhandleState) (parent : Option Nat) (fullName : Option String)
    (table node prop : Bool) (junk : List (Option Nat)) : Option (PhandleState × PhandleRet) :=
  match fullName with
  | none => some (s, .appended none)
  | some fullName =>
    (s.phandleNext c table junk).bind fun r =>
      match r with
      | none => some (s, .outside)
      | some (s, phandle) =>
        if phandle ≠ 0 ∧ node = true ∧ prop = true then
          let parent := parent.getD 0
          (s.linkNode parent (newNode fullName phandle parent)).map fun s => (s, .appended (some (s.count - 1)))
        else some (s, .appended none)

/-- A call; the parent is a node of the tree. -/
def step (c : OfwConfig) (s : PhandleState) : PhandleEv → Option (PhandleState × PhandleRet)
  | .find phandle => s.findNodeByPhandle phandle
  | .append parent fullName table node prop junk =>
    if parent.getD 0 < s.count then s.appendChild c parent fullName table node prop junk else none

/-- The end of `rt_fdt_unflatten`: the table is set up, unless the scan of the aliases failed. -/
def unflattened (c : OfwConfig) (heap : Nat → OfwNode) (count : Nat) (phandles : Nat × Nat) (aliases table : Bool) :
    PhandleState :=
  let s : PhandleState := { heap := heap, count := count }
  if aliases then
    match s.hashReset c phandles.1 phandles.2 table [] with
    | .ok s => s
    | _ => s
  else s

end PhandleState

/-- The node has the phandle; phandles range from 1 to 2^32-2. -/
def HasPhandle (heap : Nat → OfwNode) (n : Nat) (phandle : BitVec 32) : Prop :=
  ofwPhandleMin ≤ phandle.toNat ∧ phandle.toNat ≤ ofwPhandleMax ∧ (heap n).phandle = phandle

/-- The nodes allocated are one tree, whose root is node 0. -/
def OneTree (heap : Nat → OfwNode) (count : Nat) : Prop :=
  ∃ shape : Forest Nat, shape.head? = some 0 ∧ Linked (ofwLinks heap) none shape ∧ shape.nodes.Nodup ∧
    ∀ n, n ∈ shape.nodes ↔ n < count

namespace PhandleState

/-- What is said of a call: no access is outside the table, the node found has the phandle and none does if none is
found, and the phandle of the node appended is new. -/
def Answers (s : PhandleState) (x : PhandleEv × PhandleRet) (s' : PhandleState) : Prop :=
  match x with
  | (.find phandle, .found (some n)) => n < s.count ∧ HasPhandle s.heap n phandle
  | (.find phandle, .found none) => ∀ n, n < s.count → ¬ HasPhandle s.heap n phandle
  | (.append .., .appended (some n)) =>
    n = s.count ∧ s'.count = n + 1 ∧ ∀ m, m < s.count → (s.heap m).phandle ≠ (s'.heap n).phandle
  | (.append .., .appended none) => True
  | _ => False

/-- The phandle's entry is inside the table. -/
def InTable (s : PhandleState) (phandle : BitVec 32) : Prop :=
  ∃ table, s.hash = some table ∧ s.rebase phandle < table.length

/-- No node has the phandle. -/
def Unused (s : PhandleState) (phandle : Nat) : Prop := ∀ n, n < s.count → (s.heap n).phandle.toNat ≠ phandle

/-- The table cannot be extended for the next phandle. -/
def Full (c : OfwConfig) (s : PhandleState) (alloc : Bool) : Prop :=
  ofwAlign s.next ≤ s.hi ∨ alloc = false ∨ c.entries ((ofwAlign s.next + (2 ^ 32 - s.lo)) % 2 ^ 32) = 0

/-- A lookup of a phandle that is refused or has its entry inside the table. A call that appends nothing, takes an unused
phandle without extending the table, or, if there is no table yet, with a new one. -/
def Handles (c : OfwConfig) (s : PhandleState) : PhandleEv → Prop
  | .find phandle => phandle.toNat < ofwPhandleMin ∨ ofwPhandleMax < phandle.toNat ∨ s.InTable phandle
  | .append _ fullName table _ _ _ =>
    fullName = none ∨ s.next ≤ s.hi ∧ s.Unused s.next ∨ s.hi < s.next ∧ s.Full c table ∨
      s.hi < s.next ∧ s.hash = none ∧ s.Unused (s.next + 1)

/-- What the calls keep: the nodes are one tree, and every entry of the table is the node whose phandle it is for. -/
structure Inv (s : PhandleState) : Prop where
  tree : OneTree s.heap s.count
  entries : ∀ table, s.hash = some table → ∀ i n, table[i]? = some (some n) →
    n < s.count ∧ ∃ phandle, HasPhandle s.heap n phandle ∧ s.rebase phandle = i
  hi : s.hi ≤ 2 ^ 32 - ofwNodeMinHash
  next : s.next < 2 ^ 32

/-- There is a table, and the next phandle is behind those of all nodes. -/
structure Fresh (s : PhandleState) : Prop where
  table : s.hash ≠ none
  below : ∀ n, n < s.count → (s.heap n).phandle.toNat < s.next

variable {c : OfwConfig} {s s' : PhandleState} {phandle : BitVec 32} {r : PhandleRet}

theorem rebase_inj {p q : BitVec 32} (h : s.rebase p = s.rebase q) : p = q := by
  simp only [rebase] at h
  exact BitVec.eq_of_toNat_eq (by omega)

theorem ofwAlign_le (n : Nat) : ofwAlign n ≤ 2 ^ 32 - ofwNodeMinHash := by
  simp only [ofwAlign, ofwNodeMinHash]
  omega

/-! ## Looking a phandle up -/

/-- The walk over all nodes finds a node with the phandle, if there is one. -/
theorem walk_spec (h : OneTree s.heap s.count) (phandle : BitVec 32) :
    ∃ np, (ofwLinks s.heap).find s.count (fun np => decide ((s.heap np).phandle = phandle)) s.count (some 0) = some np ∧
      (∀ n ∈ np, n < s.count ∧ (s.heap n).phandle = phandle) ∧
      (np = none → ∀ n, n < s.count → (s.heap n).phandle ≠ phandle) := by
  obtain ⟨shape, hhead, hlinked, hnodup, hnodes⟩ := h
  have hlen : shape.nodes.length ≤ s.count := by
    have hsub : shape.nodes ⊆ List.range s.count := fun n hn => List.mem_range.2 ((hnodes n).1 hn)
    simpa using (hnodup.subperm hsub).length_le
  refine ⟨_, hhead ▸ hlinked.find hlen, ?_, ?_⟩
  · intro n hn
    exact ⟨(hnodes n).1 (List.mem_of_find?_eq_some hn), by simpa using List.find?_some hn⟩
  · intro hnone n hn
    simpa using List.find?_eq_none.1 hnone n ((hnodes n).2 hn)

/-- A lookup keeps the invariant and answers, if its entry is inside the table. -/
theorem find_step (hinv : s.Inv) (h : s.findNodeByPhandle phandle = some (s', r))
    (hok : s.Handles c (.find phandle)) : s'.Inv ∧ s.Answers (.find phandle, r) s' ∧ (s.Fresh → s'.Fresh) := by
  rw [findNodeByPhandle] at h
  split at h
  · rename_i hvalid
    obtain ⟨table, htable, hlt⟩ : s.InTable phandle := by
      rcases hok with hlo | hhi | hin
      · omega
      · omega
      · exact hin
    have hentry : (s.hash.bind fun table => table[s.rebase phandle]?.map fun np => (table, np)) =
        some (table, table[s.rebase phandle]) := by
      simp [htable, List.getElem?_eq_getElem hlt]
    dsimp only at h
    rw [hentry] at h
    cases hnp : table[s.rebase phandle] with
    | some np =>
      rw [hnp] at h
      cases h
      obtain ⟨hlt', q, hq, hidx⟩ := hinv.entries table htable (s.rebase phandle) np
        (by rw [List.getElem?_eq_getElem hlt, hnp])
      obtain rfl := rebase_inj hidx
      exact ⟨hinv, ⟨hlt', hq⟩, id⟩
    | none =>
      rw [hnp] at h
      obtain ⟨np, hfind, hsome, hnone⟩ := walk_spec hinv.tree phandle
      simp only [hfind, Option.map_some, Option.some.injEq] at h
      cases np with
      | none =>
        cases h
        exact ⟨hinv, fun n hn hp => hnone rfl n hn hp.2.2, id⟩
      | some np =>
        cases h
        obtain ⟨hnp', hp⟩ := hsome np rfl
        refine ⟨⟨hinv.tree, ?_, hinv.hi, hinv.next⟩, ⟨hnp', hvalid.1, hvalid.2, hp⟩,
          fun hf => ⟨(fun h => by cases h), hf.below⟩⟩
        intro table' htable' i n hi
        cases htable'
        rw [List.getElem?_set] at hi
        split at hi
        · rename_i heq
          cases Option.some.inj hi
          exact ⟨hnp', phandle, ⟨hvalid.1, hvalid.2, hp⟩, heq⟩
        · exact hinv.entries table htable i n hi
  · rename_i hvalid
    cases h
    exact ⟨hinv, fun n _ hp => hvalid ⟨hp.1, hp.2.1⟩, id⟩

/-! ## Appending a node -/

variable {parent : Nat} {x : OfwNode}

/-- The new node is linked as the last child, and nothing else of the tree changes. -/
theorem linkNode_spec (h : OneTree s.heap s.count) (hp : parent < s.count) (hx : x.parent = some parent)
    (hchild : x.child = none) (hsibling : x.sibling = none) :
    ∃ heap, s.linkNode parent x = some { s with heap := heap, count := s.count + 1 } ∧ OneTree heap (s.count + 1) ∧
      (∀ n, n < s.count → (heap n).phandle = (s.heap n).phandle) ∧ (heap s.count).phandle = x.phandle := by
  obtain ⟨shape, hhead, hlinked, hnodup, hnodes⟩ := h
  have hlen : shape.nodes.length ≤ s.count := by
    have hsub : shape.nodes ⊆ List.range s.count := fun n hn => List.mem_range.2 ((hnodes n).1 hn)
    simpa using (hnodup.subperm hsub).length_le
  have hmem : parent ∈ shape.nodes := (hnodes parent).2 hp
  have hnew : s.count ∉ shape.nodes := fun hn => Nat.lt_irrefl _ ((hnodes _).1 hn)
  have hlast := hlinked.lastChild hmem hnodup hlen
  have htree : ∀ heap, ofwLinks heap = (ofwLinks s.heap).link parent s.count (shape.lastChild? parent) →
      OneTree heap (s.count + 1) := by
    intro heap hheap
    have hperm := Forest.nodes_appendChild (b := s.count) hmem hnodup
    refine ⟨shape.appendChild parent s.count, ?_, hheap ▸ hlinked.link hnew hmem hnodup, ?_, ?_⟩
    · rw [Forest.head?_appendChild, hhead]
    · exact hperm.nodup_iff.2 (List.nodup_cons.2 ⟨hnew, hnodup⟩)
    · intro n
      rw [hperm.mem_iff, List.mem_cons, hnodes n]
      omega
  have hne : parent ≠ s.count := Nat.ne_of_lt hp
  rw [linkNode, hlast]
  cases hc : shape.lastChild? parent with
  | none =>
    refine ⟨_, rfl, htree _ ?_, ?_, ?_⟩
    · rw [hc]
      simp only [ofwLinks, Links.link, Links.mk.injEq]
      refine ⟨?_, ?_, ?_⟩ <;> funext n <;> by_cases hn : n = parent <;> by_cases hn' : n = s.count <;>
        simp_all [Function.update_apply, OfwNode.setChild]
    · intro n hn
      by_cases hnp : n = parent
      · simp [hnp, hne, OfwNode.setChild]
      · simp [hnp, Nat.ne_of_lt hn]
    · simp [hne.symm]
  | some d =>
    have hd : d < s.count := (hnodes d).1 (Forest.lastChild?_mem hc)
    have hdne : d ≠ s.count := Nat.ne_of_lt hd
    refine ⟨_, rfl, htree _ ?_, ?_, ?_⟩
    · rw [hc]
      simp only [ofwLinks, Links.link, Links.mk.injEq]
      refine ⟨?_, ?_, ?_⟩ <;> funext n <;> by_cases hn : n = d <;> by_cases hn' : n = s.count <;>
        simp_all [Function.update_apply, OfwNode.setSibling]
    · intro n hn
      by_cases hnd : n = d
      · simp [hnd, hdne, OfwNode.setSibling]
      · simp [hnd, Nat.ne_of_lt hn]
    · simp [hdne.symm]

/-- A phandle that is handed out is not in use; the nodes and the entries of the table stay. -/
structure Handed (s s' : PhandleState) (phandle : Nat) : Prop where
  inv : s'.Inv
  heap : s'.heap = s.heap
  count : s'.count = s.count
  lt : phandle < 2 ^ 32
  unused : phandle ≠ 0 → s.Unused phandle
  table : s.hash ≠ none → s'.hash ≠ none ∧ s.next ≤ s'.next ∧ (phandle ≠ 0 → phandle < s'.next)

variable {table node prop : Bool} {junk : List (Option Nat)}

theorem hashReset_full (h : s.Full c table) : s.hashReset c s.lo s.next table junk = .error := by
  refine if_neg ?_
  rintro ⟨hmax, halloc, hlen⟩
  rcases h with h | h | h
  · omega
  · rw [halloc] at h
    cases h
  · exact hlen h

/-- Without a table, the reset fails or makes one whose entries are all `RT_NULL`. -/
theorem hashReset_none (c : OfwConfig) (table : Bool) (junk : List (Option Nat)) (h : s.hash = none) (lo hi : Nat) :
    s.hashReset c lo hi table junk = .error ∨
      s.hi < ofwAlign hi ∧ ∃ len, s.hashReset c lo hi table junk =
        .ok { s with
          lo := if lo = 0 then s.lo else lo, hi := ofwAlign hi, next := (hi + 1) % 2 ^ 32
          hash := some (List.replicate len none) } := by
  simp only [hashReset, h]
  split
  · rename_i hcond
    exact .inr ⟨hcond.1, _, rfl⟩
  · exact .inl rfl

theorem phandleNext_spec (hinv : s.Inv) {r : Option (PhandleState × Nat)} (h : s.phandleNext c table junk = some r)
    (hok : s.next ≤ s.hi ∧ s.Unused s.next ∨ s.hi < s.next ∧ s.Full c table ∨
      s.hi < s.next ∧ s.hash = none ∧ s.Unused (s.next + 1)) :
    ∃ s' phandle, r = some (s', phandle) ∧ Handed s s' phandle := by
  have hhi := hinv.hi
  have hnext := hinv.next
  simp only [ofwNodeMinHash] at hhi
  rw [phandleNext] at h
  obtain ⟨-, h⟩ := Option.ite_none_left_eq_some.1 h
  split at h
  · rename_i hle
    cases h
    have hmod : (s.next + 1) % 2 ^ 32 = s.next + 1 := Nat.mod_eq_of_lt (by omega)
    refine ⟨_, _, rfl, ⟨hinv.tree, hinv.entries, hinv.hi, Nat.mod_lt _ (by decide)⟩, rfl, rfl, hnext, ?_, ?_⟩
    · intro _
      rcases hok with ⟨-, hun⟩ | ⟨hlt, -⟩ | ⟨hlt, -⟩
      · exact hun
      · omega
      · omega
    · intro htable
      have hlt : s.next < (s.next + 1) % 2 ^ 32 := by omega
      exact ⟨htable, Nat.le_of_lt hlt, fun _ => hlt⟩
  · rename_i hle
    have herror : s.hashReset c s.lo s.next table junk = .error →
        ∃ s' phandle, r = some (s', phandle) ∧ Handed s s' phandle := by
      intro herr
      rw [herr] at h
      cases h
      exact ⟨_, _, rfl, hinv, rfl, rfl, by decide, fun h => absurd rfl h,
        fun htable => ⟨htable, Nat.le_refl _, fun h => absurd rfl h⟩⟩
    rcases hok with ⟨hlt, -⟩ | ⟨-, hfull⟩ | ⟨-, hnone, hun⟩
    · omega
    · exact herror (hashReset_full hfull)
    · rcases hashReset_none c table junk hnone s.lo s.next with herr | ⟨hgrow, len, hreset⟩
      · exact herror herr
      · rw [hreset] at h
        cases h
        have hroom : s.next + 127 < 2 ^ 32 := by
          simp only [ofwAlign, ofwNodeMinHash] at hgrow
          omega
        have hmod : (s.next + 1) % 2 ^ 32 = s.next + 1 := Nat.mod_eq_of_lt (by omega)
        refine ⟨_, _, rfl, ⟨hinv.tree, ?_, ofwAlign_le _, Nat.mod_lt _ (by decide)⟩, rfl, rfl,
          Nat.mod_lt _ (by decide), ?_, fun htable => absurd hnone htable⟩
        · intro t ht i n hi
          cases ht
          have := (List.getElem?_eq_some_iff.1 hi).2
          simp at this
        · intro _
          rw [hmod]
          exact hun

/-- A call that appends keeps the invariant and answers. -/
theorem append_step (hinv : s.Inv) {parent : Option Nat} {fullName : Option String} (hparent : parent.getD 0 < s.count)
    (h : s.appendChild c parent fullName table node prop junk = some (s', r))
    (hok : s.Handles c (.append parent fullName table node prop junk)) :
    s'.Inv ∧ s.Answers (.append parent fullName table node prop junk, r) s' ∧ (s.Fresh → s'.Fresh) := by
  cases fullName with
  | none =>
    cases h
    exact ⟨hinv, trivial, id⟩
  | some fullName =>
    obtain ⟨r', hnext, h⟩ := Option.bind_eq_some_iff.1 h
    obtain ⟨s1, phandle, rfl, hh⟩ := phandleNext_spec hinv hnext (hok.resolve_left (nofun))
    dsimp only at h
    split at h
    · rename_i hcond
      obtain ⟨s2, hlink, heq⟩ := Option.map_eq_some_iff.1 h
      cases heq
      have hparent' : parent.getD 0 < s1.count := hh.count ▸ hparent
      obtain ⟨heap, hlink', htree, hold, hnew⟩ := linkNode_spec hh.inv.tree hparent' (x := newNode fullName phandle (parent.getD 0))
        rfl rfl rfl
      cases hlink'.symm.trans hlink
      have hphandle : (heap s1.count).phandle.toNat = phandle := by
        rw [hnew]
        exact Nat.mod_eq_of_lt hh.lt
      refine ⟨⟨htree, ?_, hh.inv.hi, hh.inv.next⟩, ⟨?_, ?_, ?_⟩, ?_⟩
      · intro t ht i n hi
        obtain ⟨hn, q, ⟨hq1, hq2, hq⟩, hidx⟩ := hh.inv.entries t ht i n hi
        exact ⟨Nat.lt_succ_of_lt hn, q, ⟨hq1, hq2, (hold n hn).trans hq⟩, hidx⟩
      · exact hh.count
      · rfl
      · intro m hm heq
        have hun := hh.unused hcond.1 m hm
        rw [heq] at hun
        exact hun hphandle
      · intro hfresh
        obtain ⟨ht, hle, hlt⟩ := hh.table hfresh.table
        refine ⟨ht, ?_⟩
        intro n hn
        by_cases hcount : n = s1.count
        · rw [hcount]
          exact hphandle ▸ hlt hcond.1
        · have hn' : n < s1.count := Nat.lt_of_le_of_ne (Nat.lt_succ_iff.1 hn) hcount
          show (heap n).phandle.toNat < s1.next
          rw [hold n hn', hh.heap]
          exact Nat.lt_of_lt_of_le (hfresh.below n (hh.count ▸ hn')) hle
    · cases h
      refine ⟨hh.inv, trivial, fun hfresh => ?_⟩
      obtain ⟨ht, hle, -⟩ := hh.table hfresh.table
      refine ⟨ht, fun n hn => ?_⟩
      rw [hh.heap]
      exact Nat.lt_of_lt_of_le (hfresh.below n (hh.count ▸ hn)) hle

/-! ## Behind `rt_fdt_unflatten` -/

/-- The nodes are the flat tree, from node 0 on, and the range is that of its phandles. -/
def Booted (heap : Nat → OfwNode) (count : Nat) (phandles : Nat × Nat) (flat : Forest FlatNode) : Prop :=
  ∃ shape, shape.head? = some 0 ∧ Unflattened heap none shape flat ∧ (∀ n, n ∈ shape.nodes ↔ n < count) ∧
    phandles = (flat.nodes.map FlatNode.phandle).foldl widen (ofwPhandleMax, ofwPhandleMin)

/-- What `fdt_unflatten_single` leaves of a tree that fits on its stack. -/
theorem start_booted {fdt : Libfdt} {alloc : Nat → Bool} {y : FlatNode} {cs : Forest FlatNode} {rootOff : Int}
    (halloc : ∀ i, alloc i = true) (npStack : Int → Option Nat) (henum : Enumerates fdt rootOff (.cons y cs .nil))
    (hfits : ((Forest.cons y cs .nil).levels : Int) ≤ ofwNodeMaxDepth + 1) :
    ∃ u, Reaches (Unflatten.step fdt alloc) (.start rootOff npStack) u ∧ u.phase = .done 0 ∧
      Booted u.heap u.count u.phandles (.cons y cs .nil) := by
  obtain ⟨u, shape, -, hr, hphase, -, -, hhead, hbuilt, hphandles, hnodes⟩ := Unflatten.start_walked halloc npStack henum hfits
  exact ⟨u, hr, hphase, shape, hhead, hbuilt, hnodes, hphandles⟩

theorem foldl_widen (ps : List (BitVec 32)) (range : Nat × Nat) :
    range.2 ≤ (ps.foldl widen range).2 ∧ (range.2 < 2 ^ 32 → (ps.foldl widen range).2 < 2 ^ 32) ∧
      ∀ p ∈ ps, ofwPhandleMin ≤ p.toNat → p.toNat ≤ (ps.foldl widen range).2 := by
  induction ps generalizing range with
  | nil => exact ⟨Nat.le_refl _, id, fun _ hp => nomatch hp⟩
  | cons p ps ih =>
    obtain ⟨hle, hlt, hall⟩ := ih (widen range p)
    have hp := p.isLt
    have hwiden : range.2 ≤ (widen range p).2 ∧ (range.2 < 2 ^ 32 → (widen range p).2 < 2 ^ 32) ∧
        (ofwPhandleMin ≤ p.toNat → p.toNat ≤ (widen range p).2) := by
      simp only [widen]
      split
      · exact ⟨Nat.le_max_right _ _, fun h => Nat.max_lt.2 ⟨hp, h⟩, fun _ => Nat.le_max_left _ _⟩
      · rename_i hmin
        exact ⟨Nat.le_refl _, id, fun h => absurd h hmin⟩
    refine ⟨Nat.le_trans hwiden.1 hle, fun h => hlt (hwiden.2.1 h), ?_⟩
    intro q hq hmin
    rcases List.mem_cons.1 hq with rfl | hq
    · exact Nat.le_trans (hwiden.2.2 hmin) hle
    · exact hall q hq hmin

theorem Booted.inv {heap : Nat → OfwNode} {count : Nat} {phandles : Nat × Nat} {flat : Forest FlatNode}
    (h : Booted heap count phandles flat) (c : OfwConfig) (aliases table : Bool) :
    (unflattened c heap count phandles aliases table).Inv ∧
      ((unflattened c heap count phandles aliases table).hash ≠ none →
        (unflattened c heap count phandles aliases table).Fresh) := by
  obtain ⟨shape, hhead, hbuilt, hnodes, rfl⟩ := h
  have htree : OneTree heap count := ⟨shape, hhead, hbuilt.linked, hbuilt.nodup, hnodes⟩
  have hempty : ({ heap := heap, count := count } : PhandleState).Inv :=
    ⟨htree, fun _ h => (nomatch h), Nat.le_of_ble_eq_true rfl, Nat.le_of_ble_eq_true rfl⟩
  obtain ⟨hmin, hlt, hall⟩ := foldl_widen (flat.nodes.map FlatNode.phandle) (ofwPhandleMax, ofwPhandleMin)
  generalize (flat.nodes.map FlatNode.phandle).foldl widen (ofwPhandleMax, ofwPhandleMin) = phandles at hmin hlt hall
  have hmax : phandles.2 < 2 ^ 32 := hlt (by decide)
  have hbelow : ∀ n, n < count → (heap n).phandle.toNat ≤ phandles.2 := by
    intro n hn
    have hmem : (heap n).phandle ∈ flat.nodes.map FlatNode.phandle := by
      rw [← hbuilt.data, Forest.nodes_map, List.map_map]
      exact List.mem_map.2 ⟨n, (hnodes n).2 hn, rfl⟩
    by_cases hzero : ofwPhandleMin ≤ (heap n).phandle.toNat
    · exact hall _ hmem hzero
    · omega
  rw [unflattened]
  cases aliases with
  | false => exact ⟨hempty, fun h => absurd rfl h⟩
  | true =>
    rcases hashReset_none c table [] (s := { heap := heap, count := count }) rfl
      phandles.1 phandles.2 with herr | ⟨hgrow, len, hok⟩
    · simp only [herr, if_true]
      exact ⟨hempty, fun h => absurd rfl h⟩
    · simp only [hok, if_true]
      have hgrow' : 1 < ofwAlign phandles.2 := hgrow
      have hnext : (phandles.2 + 1) % 2 ^ 32 = phandles.2 + 1 := by
        simp only [ofwAlign, ofwNodeMinHash] at hgrow'
        omega
      refine ⟨⟨htree, ?_, ofwAlign_le _, Nat.mod_lt _ (by decide)⟩, fun _ => ⟨(fun h => by cases h), ?_⟩⟩
      · intro t ht i n hi
        cases ht
        have := (List.getElem?_eq_some_iff.1 hi).2
        simp at this
      · intro n hn
        show (heap n).phandle.toNat < (phandles.2 + 1) % 2 ^ 32
        rw [hnext]
        exact Nat.lt_succ_of_le (hbelow n hn)

/-! ## Runs -/

/-- A call and what it returns. -/
def Step (c : OfwConfig) (s : PhandleState) (x : PhandleEv × PhandleRet) (s' : PhandleState) : Prop :=
  step c s x.1 = some (s', x.2)

variable {ls : List (PhandleEv × PhandleRet)} {x : PhandleEv × PhandleRet} {heap : Nat → OfwNode} {count : Nat}
  {phandles : Nat × Nat} {flat : Forest FlatNode} {aliases : Bool}

theorem step_answers (hinv : s.Inv) (h : Step c s x s') (hok : s.Handles c x.1) :
    s'.Inv ∧ s.Answers x s' ∧ (s.Fresh → s'.Fresh) := by
  obtain ⟨e, r⟩ := x
  cases e with
  | find phandle => exact find_step hinv h hok
  | append parent fullName table node prop junk =>
    simp only [Step, step] at h
    obtain ⟨hparent, h⟩ := Option.ite_none_right_eq_some.1 h
    exact append_step hinv hparent h hok

/-- A lookup whose entry is not in the table leaves it. -/
theorem find_outside (hlo : ofwPhandleMin ≤ phandle.toNat) (hhi : phandle.toNat ≤ ofwPhandleMax) (h : ¬ s.InTable phandle) :
    s.findNodeByPhandle phandle = some (s, .outside) := by
  have hentry : (s.hash.bind fun table => table[s.rebase phandle]?.map fun np => (table, np)) = none := by
    cases hs : s.hash with
    | none => rfl
    | some t =>
      have hge : t.length ≤ s.rebase phandle := Nat.not_lt.1 fun hlt => h ⟨t, hs, hlt⟩
      simp [List.getElem?_eq_none hge]
  rw [findNodeByPhandle, if_pos ⟨hlo, hhi⟩]
  dsimp only
  rw [hentry]

/-- Where every call keeps to its condition, every access is inside the table, every lookup finds the node with the
phandle, and every phandle handed out is new; where the table was set up, the next one is unused throughout. A lookup
whose entry is not in the table leaves it. -/
theorem phandle_table (hboot : Booted heap count phandles flat)
    (hr : Run (fun s x s' => Step c s x s' ∧ s.Handles c x.1) (unflattened c heap count phandles aliases table) ls s) :
    Run (fun s x s' => Step c s x s' ∧ s.Answers x s') (unflattened c heap count phandles aliases table) ls s ∧
    ((unflattened c heap count phandles aliases table).hash ≠ none → s.Unused s.next) ∧
    ∀ phandle s' r, Step c s (.find phandle, r) s' →
      (r ≠ .outside ↔ phandle.toNat < ofwPhandleMin ∨ ofwPhandleMax < phandle.toNat ∨ s.InTable phandle) := by
  obtain ⟨hinit, hfresh⟩ := hboot.inv c aliases table
  have hinv : s.Inv := hr.invariant (I := Inv) hinit fun s x s' hinv h => (step_answers hinv h.1 h.2).1
  refine ⟨?_, ?_, ?_⟩
  · clear hinv
    induction hr with
    | nil => exact .nil
    | snoc hr hs ih =>
      have hinv : Inv _ := hr.invariant (I := Inv) hinit fun s x s' hinv h => (step_answers hinv h.1 h.2).1
      exact .snoc ih ⟨hs.1, (step_answers hinv hs.1 hs.2).2.1⟩
  · intro htable
    have hboth : s.Inv ∧ s.Fresh := hr.invariant (I := fun s => s.Inv ∧ s.Fresh) ⟨hinit, hfresh htable⟩
      fun s x s' hinv h => ⟨(step_answers hinv.1 h.1 h.2).1, (step_answers hinv.1 h.1 h.2).2.2 hinv.2⟩
    exact fun n hn => Nat.ne_of_lt (hboth.2.below n hn)
  · intro phandle s' r hs
    constructor
    · intro hr
      by_contra hno
      simp only [not_or, Nat.not_lt] at hno
      rw [Step, step, find_outside hno.1 hno.2.1 hno.2.2] at hs
      cases hs
      exact hr rfl
    · rintro hok rfl
      exact (find_step (c := c) hinv hs hok).2.1

/-- A root whose phandle is 127, and nothing else. -/
def oneNode : Nat → OfwNode := fun _ => { phandle := 127 }

/-- A platform with pointers of 8 bytes. -/
def ofw64 : OfwConfig := ⟨8, 64⟩

/-- The flat tree of that root. -/
def oneFlat : Forest FlatNode := .cons ⟨"", 127, []⟩ .nil .nil

theorem oneNode_booted : Booted oneNode 1 (127, 127) oneFlat :=
  ⟨.cons 0 .nil .nil, rfl, ⟨List.nodup_singleton 0, ⟨rfl, rfl, rfl, trivial, trivial⟩, rfl, fun _ _ => rfl⟩, by
    intro n
    simp [Forest.nodes], rfl⟩

/-- A root with `/cpus`, a processor below it, and an interrupt controller; the last two have the phandles 1 and 2. -/
def boardNode (n : Nat) : OfwNode where
  fullName := ["", "cpus", "cpu@0", "intc"].getD n ""
  phandle := BitVec.ofNat 32 (n - 1)
  parent := [none, some 0, some 1, some 0].getD n none
  child := [some 1, some 2].getD n none
  sibling := [none, some 3].getD n none

/-- The flat tree of that root. -/
def boardFlat : Forest FlatNode :=
  .cons ⟨"", 0, []⟩ (.cons ⟨"cpus", 0, []⟩ (.cons ⟨"cpu@0", 1, []⟩ .nil .nil) (.cons ⟨"intc", 2, []⟩ .nil .nil)) .nil

theorem boardNode_booted : Booted boardNode 4 (1, 2) boardFlat := by
  refine ⟨.cons 0 (.cons 1 (.cons 2 .nil .nil) (.cons 3 .nil .nil)) .nil, rfl, ⟨by decide, ?_, rfl, fun _ _ => rfl⟩, ?_, by decide⟩
  · simp [Linked, ofwLinks, boardNode, Forest.head?]
  · intro n
    simp only [Forest.nodes, List.mem_cons, List.nil_append, List.append_nil, List.cons_append, List.not_mem_nil, or_false]
    omega

/-- The processor is looked up, and a node is appended to the root and looked up. -/
theorem phandle_table_board : ∃ s, Run (fun s x s' => Step ofw64 s x s' ∧ s.Answers x s')
    (unflattened ofw64 boardNode 4 (1, 2) true true) [(.find 1, .found (some 2)),
      (.append none (some "child") true true true [], .appended (some 4)), (.find 3, .found (some 4))] s := by
  obtain ⟨s1, h1⟩ : ∃ s1, Step ofw64 (unflattened ofw64 boardNode 4 (1, 2) true true) (.find 1, .found (some 2)) s1 := ⟨_, rfl⟩
  obtain ⟨s2, h2⟩ : ∃ s2, Step ofw64 s1 (.append none (some "child") true true true [], .appended (some 4)) s2 := by
    cases h1
    exact ⟨_, rfl⟩
  obtain ⟨s3, h3⟩ : ∃ s3, Step ofw64 s2 (.find 3, .found (some 4)) s3 := by
    cases h1
    cases h2
    exact ⟨_, rfl⟩
  refine ⟨s3, (phandle_table boardNode_booted (.cons ⟨h1, ?_⟩ (.cons ⟨h2, ?_⟩ (.cons ⟨h3, ?_⟩ .nil)))).1⟩
  · exact .inr (.inr ⟨_, rfl, by decide +kernel⟩)
  · cases h1
    have hunused : ∀ n < 4, (boardNode n).phandle.toNat ≠ 3 := by decide
    exact .inr (.inl ⟨by decide, hunused⟩)
  · cases h1
    cases h2
    exact .inr (.inr ⟨_, rfl, by decide +kernel⟩)

/-- An append without a table to extend. -/
def appendOne : PhandleEv := .append none (some "child") true true true []

/-- The table of a root whose phandle is 127 has one entry. The lookup of 128 is outside, and the second node that is
appended extends the table and clears entries behind its end. -/
theorem phandle_outside :
    Booted oneNode 1 (127, 127) oneFlat ∧
    (∃ s, Run (Step ofw64) (unflattened ofw64 oneNode 1 (127, 127) true true) [(.find 128, .outside)] s) ∧
    ∃ s, Run (Step ofw64) (unflattened ofw64 oneNode 1 (127, 127) true true)
      [(appendOne, .appended (some 1)), (appendOne, .outside)] s :=
  ⟨oneNode_booted, ⟨_, .cons rfl .nil⟩, ⟨_, .cons rfl (.cons rfl .nil)⟩⟩

end PhandleState

end RtThread
