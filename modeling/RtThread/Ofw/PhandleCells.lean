import RtThread.Ofw.Phandle
import RtThread.Ofw.Translate

/-!
# Phandle lists

`ofw_parse_phandle_cells` and `rt_ofw_count_phandle_cells` (`base.c`, 1487–1598), with the loop of
`rt_ofw_foreach_prop_u32`. A position is a cell of the property; a read that is not wholly inside the property or
`_phandle_hash`, and a write behind the end of `args`, has no result. The table is kept as it is: what a lookup puts into it
changes no other one (`lookup_find`). An address does not wrap: pointers have 64 bits.

The list as it is meant is a sequence of specifiers, a phandle and the cells that its node asks for (`specAt`). The code
reads it so exactly if the property is not empty, and every specifier that it looks at is whole, has its phandle in the
table and fits into `args` (`parse_phandle_cells_iff`).
-/

namespace RtThread

structure OfwCellArgs where
  /-- `data` -/
  node : Option Nat
  argsCount : BitVec 32
  args : Nat → BitVec 32

namespace OfwCellArgs

def RT_OFW_MAX_CELL_ARGS : Nat := 16

end OfwCellArgs

open OfwCellArgs (RT_OFW_MAX_CELL_ARGS)

def RT_EEMPTY : Int := 4
def RT_EINVAL : Int := 10

/-- `rt_ofw_prop_next_u32`: the next position, or none at the end, and `*out_value`. -/
def rtOfwPropNextU32 (prop : Option OfwProp) (cur : Option Nat) (outValue : BitVec 32) :
    Option (Option Nat × BitVec 32) :=
  match prop with
  | none => some (none, outValue)
  | some prop =>
    match cur with
    | some cur =>
      if 4 * (cur + 1) ≥ prop.value.length then some (none, outValue)
      else (fdtCell prop.value (cur + 1)).map fun value => (some (cur + 1), value)
    | none => (fdtCell prop.value 0).map fun value => (some 0, value)

namespace PhandleState

/-- What `rt_ofw_find_node_by_phandle` finds, if it stays inside the table. -/
def lookup (s : PhandleState) (phandle : BitVec 32) : Option (Option Nat) :=
  match s.findNodeByPhandle phandle with
  | some (_, .found np) => some np
  | _ => none

/-- The node found. -/
def nodeOf (s : PhandleState) (phandle : BitVec 32) : Option Nat := (s.lookup phandle).join

variable {s s' : PhandleState} {phandle : BitVec 32}

/-- The entry of the table, or the walk. -/
theorem lookup_eq : s.lookup phandle =
    if ofwPhandleMin ≤ phandle.toNat ∧ phandle.toNat ≤ ofwPhandleMax then
      (s.hash.bind fun table => table[s.rebase phandle]?).bind fun entry =>
        match entry with
        | some np => some (some np)
        | none => (ofwLinks s.heap).find s.count (fun np => decide ((s.heap np).phandle = phandle)) s.count (some 0)
    else some none := by
  rw [lookup, findNodeByPhandle]
  split_ifs with hrange
  · cases htable : s.hash with
    | none => rfl
    | some table =>
      simp only [Option.bind_some]
      cases hentry : table[s.rebase phandle]? with
      | none => rfl
      | some entry =>
        cases entry with
        | some np => rfl
        | none =>
          simp only [Option.map_some, Option.bind_some]
          cases (ofwLinks s.heap).find s.count (fun np => decide ((s.heap np).phandle = phandle)) s.count (some 0) with
          | none => rfl
          | some np => cases np <;> rfl
  · rfl

/-- A lookup finds the same before and behind another one. -/
theorem lookup_find {r : PhandleRet} (h : s.findNodeByPhandle phandle = some (s', r)) : s'.lookup = s.lookup := by
  rw [findNodeByPhandle] at h
  split_ifs at h
  · dsimp only at h
    split at h
    · cases h
      rfl
    · cases h
      rfl
    · rename_i table hentry
      obtain ⟨np, hwalk, hs⟩ := Option.map_eq_some_iff.1 h
      cases np with
      | none =>
        cases hs
        rfl
      | some np =>
        cases hs
        obtain ⟨table', htable, hmap⟩ := Option.bind_eq_some_iff.1 hentry
        obtain ⟨entry, hget, heq⟩ := Option.map_eq_some_iff.1 hmap
        cases heq
        have hlt := (List.getElem?_eq_some_iff.1 hget).1
        funext phandle'
        rw [lookup_eq, lookup_eq, htable]
        simp only [rebase, Option.bind_some] at hget hlt ⊢
        by_cases hsame : phandle' = phandle
        · rw [hsame, List.getElem?_set_self hlt, hget]
          simp only [Option.bind_some, hwalk]
        · -- the entry is the one of this phandle alone
          have hne : (phandle.toNat + (2 ^ 32 - s.lo)) % 2 ^ 32 ≠ (phandle'.toNat + (2 ^ 32 - s.lo)) % 2 ^ 32 :=
            fun heq => hsame (rebase_inj (s := s) heq).symm
          rw [List.getElem?_set_ne hne]
  · cases h
    rfl

end PhandleState

namespace DeviceTree

variable (t : DeviceTree) (s : PhandleState) (cellsName : Option String)

/-- `cells_count`, which stays 0 for a phandle without a node, and if the node does not say. -/
def cellsCount (value : BitVec 32) : BitVec 32 :=
  match cellsName, s.nodeOf value with
  | some name, some phandleNp => (t.readU32 phandleNp name).getD 0
  | _, _ => 0

/-- `for (int idx = 0; idx < cells_count; ++idx)`, with `count` rounds to go. -/
def copyArgs (prop : Option OfwProp) : Nat → Nat → Option Nat → BitVec 32 → OfwCellArgs → Option OfwCellArgs
  | 0, _, _, _, out => some out
  | count + 1, idx, cell, value, out =>
    match rtOfwPropNextU32 prop cell value with
    | none => none
    | some (cell, value) =>
      if idx < RT_OFW_MAX_CELL_ARGS then
        copyArgs prop count (idx + 1) cell value { out with args := Function.update out.args idx value }
      else
        none

/-- The specifier at the position, with its phandle, is the one that is asked for. -/
def parseFound (prop : Option OfwProp) (cell : Nat) (value : BitVec 32) (out : OfwCellArgs) :
    Option (Int × OfwCellArgs) :=
  match copyArgs prop (t.cellsCount s cellsName value).toNat 0 (some cell) value out with
  | none => none
  | some out =>
    some (if (s.nodeOf value).isSome then 0 else -RT_EEMPTY,
      { out with argsCount := t.cellsCount s cellsName value, node := s.nodeOf value })

/-- The loop of `rt_ofw_foreach_prop_u32`. Every round goes on by a cell and more. -/
def parseLoop (prop : Option OfwProp) (index : Nat) :
    Nat → Option Nat → BitVec 32 → Nat → OfwCellArgs → Option (Int × OfwCellArgs)
  | _, none, _, _, out => some (-RT_EEMPTY, out)
  | 0, some _, _, _, _ => none
  | fuel + 1, some cell, value, count, out =>
    if (s.lookup value).isNone then
      none
    else if count = index then
      t.parseFound s cellsName prop cell value out
    else
      match rtOfwPropNextU32 prop (some (cell + (t.cellsCount s cellsName value).toNat)) value with
      | none => none
      | some (cell, value) => parseLoop prop index fuel cell value (count + 1) out

/-- `ofw_parse_phandle_cells`; `value` and `outArgs` are not initialised. -/
def ofwParsePhandleCells (np : Nat) (listName : String) (index : Nat) (value : BitVec 32) (outArgs : OfwCellArgs) :
    Option (Int × OfwCellArgs) :=
  let prop := t.getProp np listName
  match rtOfwPropNextU32 prop none value with
  | none => none
  | some (cell, value) => t.parseLoop s cellsName prop index ((t.value np listName).length + 1) cell value 0 outArgs

def rtOfwParsePhandleCells (np : Nat) (listName : String) (index : Int) (value : BitVec 32) (outArgs : OfwCellArgs) :
    Option (Int × OfwCellArgs) :=
  if index ≥ 0 then t.ofwParsePhandleCells s cellsName np listName index.toNat value outArgs
  else some (-RT_EINVAL, outArgs)

/-- `while (!ofw_parse_phandle_cells(np, list_name, cells_name, index, &args))`, where `count` is always `index`. -/
def countLoop (np : Nat) (listName : String) (value : BitVec 32) : Nat → Nat → OfwCellArgs → Option Nat
  | 0, _, _ => none
  | fuel + 1, index, args =>
    match t.ofwParsePhandleCells s cellsName np listName index value args with
    | none => none
    | some (err, args) => if err = 0 then countLoop np listName value fuel (index + 1) args else some index

def rtOfwCountPhandleCells (np : Nat) (listName : String) (value : BitVec 32) (args : OfwCellArgs) : Option Int :=
  match cellsName with
  | none => some (((t.getProp np listName).map fun prop => ((prop.value.length / 4 : Nat) : Int)).getD (-1))
  | some _ =>
    (t.countLoop s cellsName np listName value ((t.value np listName).length + 1) 0 args).map fun count => (count : Int)

/-! ## The list as it is meant -/

/-- The position of the specifier with an index, if there is one: its first byte is inside the property. -/
def specAt (list : List (BitVec 8)) : Nat → Option Nat
  | 0 => if list = [] then none else some 0
  | index + 1 =>
    match specAt list index with
    | none => none
    | some pos =>
      match fdtCell list pos with
      | none => none
      | some phandle =>
        if 4 * (pos + 1 + (t.cellsCount s cellsName phandle).toNat) < list.length then
          some (pos + 1 + (t.cellsCount s cellsName phandle).toNat)
        else
          none

/-- The specifier with an index, with all its cells. -/
structure Spec (list : List (BitVec 8)) (index pos : Nat) (phandle : BitVec 32) : Prop where
  at_pos : t.specAt s cellsName list index = some pos
  cell : fdtCell list pos = some phandle
  cells : 4 * (pos + 1 + (t.cellsCount s cellsName phandle).toNat) ≤ list.length

/-- The result is the specifier. -/
structure IsSpec (list : List (BitVec 8)) (pos : Nat) (phandle : BitVec 32) (out : OfwCellArgs) : Prop where
  node : out.node = s.nodeOf phandle
  argsCount : out.argsCount = t.cellsCount s cellsName phandle
  args : ∀ i < (t.cellsCount s cellsName phandle).toNat, fdtCell list (pos + 1 + i) = some (out.args i)

/-- A call of `rt_ofw_parse_phandle_cells` stays inside the property and `args`, and finds the specifier with the index if
it is there with all its cells and its phandle resolves. -/
def ParseOk (np : Nat) (listName : String) (index : Int) : Prop :=
  ∀ value outArgs, ∃ err out, t.rtOfwParsePhandleCells s cellsName np listName index value outArgs = some (err, out) ∧
    (err = 0 ↔ ∃ (i pos : Nat) (phandle : BitVec 32),
      index = i ∧ t.Spec s cellsName (t.value np listName) i pos phandle ∧ (s.nodeOf phandle).isSome) ∧
    (err = 0 → ∃ (i pos : Nat) (phandle : BitVec 32),
      index = i ∧ t.Spec s cellsName (t.value np listName) i pos phandle ∧
        t.IsSpec s cellsName (t.value np listName) pos phandle out)

/-- A call of `rt_ofw_count_phandle_cells` returns, and if all phandles of the property resolve, with the number of the
specifiers that have all their cells. -/
def CountOk (np : Nat) (listName : String) : Prop :=
  ∀ value args, ∃ count, t.rtOfwCountPhandleCells s cellsName np listName value args = some count ∧
    ((t.getProp np listName).isSome →
      (∀ i pos phandle, t.specAt s cellsName (t.value np listName) i = some pos →
        fdtCell (t.value np listName) pos = some phandle → (s.nodeOf phandle).isSome) →
      ∀ i : Nat, (i : Int) < count ↔ ∃ pos phandle, t.Spec s cellsName (t.value np listName) i pos phandle)

/-- The phandle is a whole cell, and its entry is in the table. -/
def Seen (list : List (BitVec 8)) (pos : Nat) : Prop := ∃ phandle, fdtCell list pos = some phandle ∧ (s.lookup phandle).isSome

/-- A specifier that is seen, with all its cells, which fit into `args`. -/
def Fits (list : List (BitVec 8)) (pos : Nat) : Prop :=
  ∃ phandle, fdtCell list pos = some phandle ∧ (s.lookup phandle).isSome ∧ 4 * (pos + 1 + (t.cellsCount s cellsName phandle).toNat) ≤ list.length ∧
    (t.cellsCount s cellsName phandle).toNat ≤ RT_OFW_MAX_CELL_ARGS

/-- The property is not empty, the phandles up to the index are seen, and the specifier with the index fits. -/
def ParseWhen (np : Nat) (listName : String) (index : Int) : Prop :=
  0 ≤ index → (t.getProp np listName).isSome → t.value np listName ≠ [] ∧
    (∀ (i : Nat) pos, (i : Int) ≤ index → t.specAt s cellsName (t.value np listName) i = some pos →
      Seen s (t.value np listName) pos) ∧
    ∀ (i : Nat) pos, (i : Int) = index → t.specAt s cellsName (t.value np listName) i = some pos →
      t.Fits s cellsName (t.value np listName) pos

/-- The property is not empty, and every specifier fits up to the first phandle without a node. -/
def CountWhen (np : Nat) (listName : String) : Prop :=
  cellsName.isSome → (t.getProp np listName).isSome → t.value np listName ≠ [] ∧
    ∀ i pos, t.specAt s cellsName (t.value np listName) i = some pos →
      (∀ j < i, ∀ pos phandle, t.specAt s cellsName (t.value np listName) j = some pos →
        fdtCell (t.value np listName) pos = some phandle → (s.nodeOf phandle).isSome) →
      t.Fits s cellsName (t.value np listName) pos

/-! ## Cells and specifiers -/

variable {t s cellsName} {prop : OfwProp} {list : List (BitVec 8)} {pos pos' cur n idx i j index count fuel : Nat}
  {value phandle phandle' : BitVec 32} {cell : Option Nat} {out out' : OfwCellArgs}

theorem fdtCell_some (list : List (BitVec 8)) (h : 4 * (i + 1) ≤ list.length) : ∃ c, fdtCell list i = some c := by
  have hspec := fdtCell_spec list i
  rwa [if_pos h] at hspec

theorem fdtCell_none (h : list.length < 4 * (i + 1)) : fdtCell list i = none := by
  have hspec := fdtCell_spec list i
  rwa [if_neg (Nat.not_le.2 h)] at hspec

theorem le_of_fdtCell (h : fdtCell list i = some value) : 4 * (i + 1) ≤ list.length := by
  by_contra hlt
  rw [fdtCell_none (Nat.lt_of_not_le hlt)] at h
  cases h

theorem next_end (h : prop.value.length ≤ 4 * (cur + 1)) :
    rtOfwPropNextU32 (some prop) (some cur) value = some (none, value) := by
  exact if_pos h

theorem next_cell (h : 4 * (cur + 1) < prop.value.length) :
    rtOfwPropNextU32 (some prop) (some cur) value =
      (fdtCell prop.value (cur + 1)).map fun value => (some (cur + 1), value) := by
  exact if_neg (Nat.not_le.2 h)

/-- Arguments that are all there are copied. -/
theorem copyArgs_of_le (value : BitVec 32) (out : OfwCellArgs) (h : 4 * (pos + 1 + n) ≤ prop.value.length) (hroom : idx + n ≤ RT_OFW_MAX_CELL_ARGS) :
    ∃ args, copyArgs (some prop) n idx (some pos) value out = some { out with args := args } ∧
      (∀ i < n, fdtCell prop.value (pos + 1 + i) = some (args (idx + i))) ∧ ∀ i < idx, args i = out.args i := by
  induction n generalizing idx pos value out with
  | zero => exact ⟨out.args, rfl, fun i hi => absurd hi (Nat.not_lt_zero i), fun i _ => rfl⟩
  | succ n ih =>
    obtain ⟨c, hc⟩ := fdtCell_some prop.value (i := pos + 1) (by omega)
    obtain ⟨args, hargs, hcells, hold⟩ := @ih (pos + 1) (idx + 1) c
      { out with args := Function.update out.args idx c } (by omega) (by omega)
    refine ⟨args, ?_, ?_, ?_⟩
    · rw [copyArgs, next_cell (by omega), hc]
      dsimp only [Option.map_some]
      rw [if_pos (by omega)]
      exact hargs
    · intro i hi
      cases i with
      | zero =>
        show fdtCell prop.value (pos + 1) = some (args idx)
        rw [hold idx (Nat.lt_succ_self idx)]
        dsimp only
        rw [Function.update_self]
        exact hc
      | succ i =>
        have hi' := hcells i (by omega)
        rwa [show pos + 1 + 1 + i = pos + 1 + (i + 1) by omega, show idx + 1 + i = idx + (i + 1) by omega] at hi'
    · intro i hi
      rw [hold i (by omega)]
      exact Function.update_of_ne (by omega) _ _

/-- More arguments than there is room for. -/
theorem copyArgs_of_gt {prop : Option OfwProp} (h : RT_OFW_MAX_CELL_ARGS < idx + n) (hidx : idx ≤ RT_OFW_MAX_CELL_ARGS) :
    copyArgs prop n idx cell value out = none := by
  induction n generalizing idx cell value out with
  | zero => omega
  | succ n ih =>
    rw [copyArgs]
    split
    · rfl
    · split
      · exact ih (by omega) (by omega)
      · rfl

theorem specAt_lt (h : t.specAt s cellsName list i = some pos) : 4 * pos < list.length ∧ i ≤ pos := by
  induction i generalizing pos with
  | zero =>
    rw [specAt] at h
    split at h
    · cases h
    · rename_i hne
      cases h
      have hpos := List.length_pos_of_ne_nil hne
      exact ⟨by omega, Nat.le_refl 0⟩
  | succ i ih =>
    rw [specAt] at h
    split at h
    · cases h
    · rename_i pos' hpos'
      split at h
      · cases h
      · split at h
        · rename_i hlt
          cases h
          have hi := (ih hpos').2
          exact ⟨hlt, by omega⟩
        · cases h

theorem specAt_succ (h : t.specAt s cellsName list i = some pos) (hcell : fdtCell list pos = some phandle) :
    t.specAt s cellsName list (i + 1) =
      if 4 * (pos + 1 + (t.cellsCount s cellsName phandle).toNat) < list.length then
        some (pos + 1 + (t.cellsCount s cellsName phandle).toNat)
      else none := by
  rw [specAt, h]
  dsimp only
  rw [hcell]

/-- The specifiers before one have all their cells, with room left. -/
theorem specAt_of_succ (h : t.specAt s cellsName list (i + 1) = some pos) :
    ∃ pos' phandle, t.specAt s cellsName list i = some pos' ∧ fdtCell list pos' = some phandle ∧
      pos = pos' + 1 + (t.cellsCount s cellsName phandle).toNat ∧ 4 * pos < list.length := by
  rw [specAt] at h
  split at h
  · cases h
  · rename_i pos' hpos'
    split at h
    · cases h
    · rename_i phandle hcell
      split at h
      · rename_i hlt
        cases h
        exact ⟨pos', phandle, hpos', hcell, rfl, hlt⟩
      · cases h

/-- A specifier before one. -/
theorem specAt_of_lt (h : t.specAt s cellsName list j = some pos) (hij : i < j) :
    ∃ pos' phandle, t.specAt s cellsName list i = some pos' ∧ fdtCell list pos' = some phandle ∧
      4 * (pos' + 1 + (t.cellsCount s cellsName phandle).toNat) < list.length := by
  induction j generalizing pos with
  | zero => exact absurd hij (Nat.not_lt_zero i)
  | succ j ih =>
    obtain ⟨pos', phandle, hpos', hcell, rfl, hlt⟩ := specAt_of_succ h
    rcases Nat.lt_or_eq_of_le (Nat.le_of_lt_succ hij) with hlt' | rfl
    · exact ih hpos' hlt'
    · exact ⟨pos', phandle, hpos', hcell, hlt⟩

theorem specAt_none (h : t.specAt s cellsName list i = none) (hij : i ≤ j) : t.specAt s cellsName list j = none := by
  rcases Nat.lt_or_eq_of_le hij with hlt | rfl
  · cases hj : t.specAt s cellsName list j with
    | none => rfl
    | some pos =>
      obtain ⟨pos', phandle, hpos', -⟩ := specAt_of_lt hj hlt
      rw [h] at hpos'
      cases hpos'
  · exact h

/-! ## Parsing -/

/-- From a specifier on, the loop finds the one with the index, or the end, or reads a cell that is not whole. -/
theorem parseLoop_cases (hspec : t.specAt s cellsName prop.value count = some pos)
    (hcell : fdtCell prop.value pos = some phandle) (hle : count ≤ index) (hfuel : prop.value.length < pos + fuel)
    (hbefore : ∀ j < count, ∀ pos', t.specAt s cellsName prop.value j = some pos' → Seen s prop.value pos') :
    (∃ j pos', j ≤ index ∧ t.specAt s cellsName prop.value j = some pos' ∧ ¬ Seen s prop.value pos' ∧
      t.parseLoop s cellsName (some prop) index fuel (some pos) phandle count out = none) ∨
    (t.specAt s cellsName prop.value index = none ∧
      (∀ j pos', t.specAt s cellsName prop.value j = some pos' → Seen s prop.value pos') ∧
      t.parseLoop s cellsName (some prop) index fuel (some pos) phandle count out = some (-RT_EEMPTY, out)) ∨
    ∃ pos' phandle', t.specAt s cellsName prop.value index = some pos' ∧ fdtCell prop.value pos' = some phandle' ∧
      (∀ j ≤ index, ∀ pos', t.specAt s cellsName prop.value j = some pos' → Seen s prop.value pos') ∧
      t.parseLoop s cellsName (some prop) index fuel (some pos) phandle count out =
        t.parseFound s cellsName (some prop) pos' phandle' out := by
  have hpos := (specAt_lt hspec).1
  induction fuel generalizing pos phandle count with
  | zero => omega
  | succ fuel ih =>
    rw [parseLoop]
    by_cases hout : (s.lookup phandle).isNone
    · rw [if_pos hout]
      refine .inl ⟨count, pos, hle, hspec, ?_, rfl⟩
      rintro ⟨phandle', hcell', hin⟩
      cases hcell.symm.trans hcell'
      rw [Option.isNone_iff_eq_none.1 hout] at hin
      cases hin
    rw [if_neg hout]
    have hseen : Seen s prop.value pos := ⟨phandle, hcell, Option.isSome_iff_ne_none.2 fun hnone => hout (Option.isNone_iff_eq_none.2 hnone)⟩
    have hupto : ∀ j ≤ count, ∀ pos', t.specAt s cellsName prop.value j = some pos' → Seen s prop.value pos' := by
      intro j hj pos' hspec'
      rcases Nat.lt_or_eq_of_le hj with hlt | rfl
      · exact hbefore j hlt pos' hspec'
      · cases hspec.symm.trans hspec'
        exact hseen
    by_cases heq : count = index
    · subst heq
      rw [if_pos rfl]
      exact .inr (.inr ⟨pos, phandle, hspec, hcell, hupto, rfl⟩)
    · rw [if_neg heq]
      have hsucc := specAt_succ hspec hcell
      generalize (t.cellsCount s cellsName phandle).toNat = n at hsucc ⊢
      by_cases hlt : 4 * (pos + 1 + n) < prop.value.length
      · rw [if_pos hlt] at hsucc
        rw [next_cell (by omega), show pos + n + 1 = pos + 1 + n by omega]
        cases hnext : fdtCell prop.value (pos + 1 + n) with
        | none =>
          refine .inl ⟨count + 1, _, by omega, hsucc, ?_, rfl⟩
          rintro ⟨phandle', hcell', -⟩
          exact absurd (hnext.symm.trans hcell') (by simp)
        | some phandle' =>
          exact ih hsucc hnext (by omega) (by omega) (fun j hj => hupto j (Nat.le_of_lt_succ hj)) hlt
      · rw [if_neg hlt] at hsucc
        rw [next_end (by omega)]
        refine .inr (.inl ⟨specAt_none hsucc (by omega), ?_, by cases fuel <;> rfl⟩)
        intro j pos' hj
        by_cases hjc : j ≤ count
        · exact hupto j hjc pos' hj
        · rw [specAt_none hsucc (by omega)] at hj
          cases hj

variable {np : Nat} {listName : String}

/-- What a call does with a property that is not empty. -/
theorem parse_cases (hprop : t.getProp np listName = some prop) (hne : prop.value ≠ [])
    (index : Nat) (value : BitVec 32) (outArgs : OfwCellArgs) :
    (∃ j pos', j ≤ index ∧ t.specAt s cellsName prop.value j = some pos' ∧ ¬ Seen s prop.value pos' ∧
      t.ofwParsePhandleCells s cellsName np listName index value outArgs = none) ∨
    (t.specAt s cellsName prop.value index = none ∧
      (∀ j pos', t.specAt s cellsName prop.value j = some pos' → Seen s prop.value pos') ∧
      t.ofwParsePhandleCells s cellsName np listName index value outArgs = some (-RT_EEMPTY, outArgs)) ∨
    ∃ pos' phandle', t.specAt s cellsName prop.value index = some pos' ∧ fdtCell prop.value pos' = some phandle' ∧
      (∀ j ≤ index, ∀ pos', t.specAt s cellsName prop.value j = some pos' → Seen s prop.value pos') ∧
      t.ofwParsePhandleCells s cellsName np listName index value outArgs =
        t.parseFound s cellsName (some prop) pos' phandle' outArgs := by
  have hvalue : t.value np listName = prop.value := by
    rw [DeviceTree.value, hprop]
    rfl
  have hzero : t.specAt s cellsName prop.value 0 = some 0 := by
    rw [specAt, if_neg hne]
  rw [ofwParsePhandleCells, hprop, hvalue, rtOfwPropNextU32]
  cases hcell : fdtCell prop.value 0 with
  | none =>
    refine .inl ⟨0, 0, Nat.zero_le _, hzero, ?_, rfl⟩
    rintro ⟨phandle, hcell', -⟩
    exact absurd (hcell.symm.trans hcell') (by simp)
  | some phandle =>
    exact parseLoop_cases hzero hcell (Nat.zero_le _) (by omega) fun j hj => absurd hj (Nat.not_lt_zero j)

/-- A specifier that fits is copied. -/
theorem parseFound_of_fits (out : OfwCellArgs) (hcell : fdtCell prop.value pos = some phandle) (hfits : t.Fits s cellsName prop.value pos) :
    ∃ out', t.parseFound s cellsName (some prop) pos phandle out =
        some (if (s.nodeOf phandle).isSome then 0 else -RT_EEMPTY, out') ∧
      t.IsSpec s cellsName prop.value pos phandle out' := by
  obtain ⟨phandle', hcell', -, hle, hroom⟩ := hfits
  cases hcell.symm.trans hcell'
  obtain ⟨args, hargs, hcells, -⟩ := copyArgs_of_le phandle out hle (show 0 + _ ≤ RT_OFW_MAX_CELL_ARGS by omega)
  rw [parseFound, hargs]
  refine ⟨_, rfl, rfl, rfl, fun i hi => ?_⟩
  have hi' := hcells i hi
  rwa [Nat.zero_add] at hi'

/-- One that does not is read or written outside, or found although it is not all there. -/
theorem parseFound_of_not_fits (out : OfwCellArgs) (hcell : fdtCell prop.value pos = some phandle)
    (hseen : Seen s prop.value pos) (hfits : ¬ t.Fits s cellsName prop.value pos) :
    t.parseFound s cellsName (some prop) pos phandle out = none ∨
      (s.nodeOf phandle).isSome ∧ prop.value.length < 4 * (pos + 1 + (t.cellsCount s cellsName phandle).toNat) ∧
        ∃ out', t.parseFound s cellsName (some prop) pos phandle out = some (0, out') := by
  by_cases hroom : (t.cellsCount s cellsName phandle).toNat ≤ RT_OFW_MAX_CELL_ARGS
  · have hlt : prop.value.length < 4 * (pos + 1 + (t.cellsCount s cellsName phandle).toNat) := by
      by_contra hge
      obtain ⟨phandle', hcell', hin⟩ := hseen
      cases hcell.symm.trans hcell'
      exact hfits ⟨phandle, hcell, hin, Nat.le_of_not_lt hge, hroom⟩
    -- the cell of the phandle is there, so it asks for more, and has a node
    have hsome : (s.nodeOf phandle).isSome := by
      have hle := le_of_fdtCell hcell
      cases hfind : s.nodeOf phandle with
      | some np => rfl
      | none =>
        have hzero : t.cellsCount s cellsName phandle = 0 := by
          unfold cellsCount
          rw [hfind]
          cases cellsName <;> rfl
        rw [hzero] at hlt
        have : (0 : BitVec 32).toNat = 0 := rfl
        omega
    rw [parseFound]
    cases copyArgs (some prop) (t.cellsCount s cellsName phandle).toNat 0 (some pos) phandle out with
    | none => exact .inl rfl
    | some out' =>
      rw [if_pos hsome]
      exact .inr ⟨hsome, hlt, _, rfl⟩
  · left
    rw [parseFound, copyArgs_of_gt (by omega) (Nat.zero_le _)]

/-- A property that is there, and its value. -/
theorem getProp_cases (t : DeviceTree) (np : Nat) (listName : String) :
    (t.getProp np listName = none ∧ t.value np listName = []) ∨
      ∃ prop, t.getProp np listName = some prop ∧ t.value np listName = prop.value := by
  unfold value
  cases hprop : t.getProp np listName with
  | none => exact .inl ⟨rfl, rfl⟩
  | some prop => exact .inr ⟨prop, rfl, rfl⟩

theorem specAt_nil (index : Nat) : t.specAt s cellsName [] index = none :=
  specAt_none (i := 0) (by rw [specAt, if_pos rfl]) (Nat.zero_le _)

/-- An empty property is read behind its end. -/
theorem parse_nil (hprop : t.getProp np listName = some prop) (hnil : prop.value = [])
    (index : Nat) (value : BitVec 32) (outArgs : OfwCellArgs) :
    t.ofwParsePhandleCells s cellsName np listName index value outArgs = none := by
  rw [ofwParsePhandleCells, hprop, rtOfwPropNextU32, hnil]
  rfl

theorem parse_absent (hprop : t.getProp np listName = none)
    (index : Nat) (value : BitVec 32) (outArgs : OfwCellArgs) :
    t.ofwParsePhandleCells s cellsName np listName index value outArgs = some (-RT_EEMPTY, outArgs) := by
  rw [ofwParsePhandleCells, hprop]
  rfl

/-- The call finds the specifier with the index exactly if it and those before it are as they should be. -/
theorem parseOk_iff {index : Int} :
    t.ParseOk s cellsName np listName index ↔ t.ParseWhen s cellsName np listName index := by
  rcases Int.lt_or_le index 0 with hneg | hpos
  · constructor
    · exact fun _ h => absurd h (Int.not_le.2 hneg)
    · intro _ value outArgs
      refine ⟨-RT_EINVAL, outArgs, ?_, ⟨fun h => absurd h (by decide), ?_⟩, fun h => absurd h (by decide)⟩
      · rw [rtOfwParsePhandleCells, if_neg (Int.not_le.2 hneg)]
      · rintro ⟨i, -, -, rfl, -⟩
        exact absurd hneg (by omega)
  · obtain ⟨n, rfl⟩ := Int.eq_ofNat_of_zero_le hpos
    have hcall : ∀ value outArgs, t.rtOfwParsePhandleCells s cellsName np listName (n : Int) value outArgs =
        t.ofwParsePhandleCells s cellsName np listName n value outArgs := by
      intro value outArgs
      rw [rtOfwParsePhandleCells, if_pos hpos, Int.toNat_natCast]
    rcases t.getProp_cases np listName with ⟨hprop, hvalue⟩ | ⟨prop, hprop, hvalue⟩
    · constructor
      · intro _ _ hsome
        rw [hprop] at hsome
        cases hsome
      · intro _ value outArgs
        refine ⟨-RT_EEMPTY, outArgs, ?_, ⟨fun h => absurd h (by decide), ?_⟩, fun h => absurd h (by decide)⟩
        · rw [hcall, parse_absent hprop]
        · rintro ⟨i, pos, phandle, -, hspec, -⟩
          have hat := hspec.at_pos
          rw [hvalue, specAt_nil] at hat
          cases hat
    · unfold ParseOk ParseWhen
      rw [hvalue]
      constructor
      · intro hok _ _
        obtain ⟨err, out, hr, hiff, -⟩ := hok 0 ⟨none, 0, fun _ => 0⟩
        rw [hcall] at hr
        by_cases hne : prop.value = []
        · rw [parse_nil hprop hne] at hr
          cases hr
        rcases parse_cases hprop hne n 0 ⟨none, 0, fun _ => 0⟩ with ⟨j, pos, -, -, -, hr'⟩ | ⟨hnone, hall, -⟩ |
          ⟨pos, phandle, hspec, hcell, hall, hr'⟩
        · rw [hr] at hr'
          cases hr'
        · refine ⟨hne, fun i pos _ hi => hall i pos hi, fun i pos hi hspec => ?_⟩
          obtain rfl := Int.ofNat_inj.1 hi
          rw [hnone] at hspec
          cases hspec
        · refine ⟨hne, fun i pos' hi hspec' => hall i (Int.ofNat_le.1 hi) pos' hspec', fun i pos' hi hspec' => ?_⟩
          obtain rfl := Int.ofNat_inj.1 hi
          cases hspec'.symm.trans hspec
          by_contra hfits
          rcases parseFound_of_not_fits ⟨none, 0, fun _ => 0⟩ hcell (hall i (Nat.le_refl _) pos hspec) hfits with
            hnone | ⟨-, hlt, out', hsome⟩
          · rw [hr, hnone] at hr'
            cases hr'
          · rw [hr, hsome] at hr'
            cases hr'
            obtain ⟨i', pos', phandle', hi', hs, -⟩ := hiff.1 rfl
            obtain rfl := Int.ofNat_inj.1 hi'
            cases hspec.symm.trans hs.at_pos
            cases hcell.symm.trans hs.cell
            exact absurd hs.cells (Nat.not_le.2 hlt)
      · intro hwhen value outArgs
        obtain ⟨hne, hwhole, hfits⟩ := hwhen hpos (by rw [hprop]; rfl)
        rcases parse_cases hprop hne n value outArgs with ⟨j, pos, hj, hspec, hunseen, -⟩ | ⟨hnone, -, hr⟩ |
          ⟨pos, phandle, hspec, hcell, -, hr⟩
        · exact absurd (hwhole j pos (Int.ofNat_le.2 hj) hspec) hunseen
        · refine ⟨-RT_EEMPTY, outArgs, hr, ⟨fun h => absurd h (by decide), ?_⟩, fun h => absurd h (by decide)⟩
          rintro ⟨i, pos, phandle, hi, hspec, -⟩
          obtain rfl := Int.ofNat_inj.1 hi
          exact absurd (hnone.symm.trans hspec.at_pos) (by simp)
        · have hfit := hfits n pos rfl hspec
          obtain ⟨out', hr', his⟩ := parseFound_of_fits outArgs hcell hfit
          obtain ⟨phandle', hcell', -, hle, -⟩ := hfit
          cases hcell.symm.trans hcell'
          refine ⟨_, out', hr.trans hr', ⟨fun h => ?_, ?_⟩, fun _ => ⟨n, pos, phandle, rfl, ⟨hspec, hcell, hle⟩, his⟩⟩
          · refine ⟨n, pos, phandle, rfl, ⟨hspec, hcell, hle⟩, ?_⟩
            by_contra hsome
            rw [if_neg hsome] at h
            exact absurd h (by decide)
          · rintro ⟨i, pos', phandle', hi, hs, hsome⟩
            obtain rfl := Int.ofNat_inj.1 hi
            cases hspec.symm.trans hs.at_pos
            cases hcell.symm.trans hs.cell
            rw [if_pos hsome]

/-! ## Counting -/

section Count

variable {np : Nat} {listName : String} {args : OfwCellArgs}

theorem countLoop_none (h : t.ofwParsePhandleCells s cellsName np listName index value args = none) :
    t.countLoop s cellsName np listName value (fuel + 1) index args = none := by
  rw [countLoop, h]

theorem countLoop_stop {err : Int} {args' : OfwCellArgs} (herr : err ≠ 0)
    (h : t.ofwParsePhandleCells s cellsName np listName index value args = some (err, args')) :
    t.countLoop s cellsName np listName value (fuel + 1) index args = some index := by
  rw [countLoop, h]
  exact if_neg herr

theorem countLoop_next {args' : OfwCellArgs}
    (h : t.ofwParsePhandleCells s cellsName np listName index value args = some (0, args')) :
    t.countLoop s cellsName np listName value (fuel + 1) index args =
      t.countLoop s cellsName np listName value fuel (index + 1) args' := by
  rw [countLoop, h]
  exact if_pos rfl

/-- Past the specifiers that are found. -/
theorem countLoop_reach (fuel : Nat) (args : OfwCellArgs) (h : ∀ j, index ≤ j → j < index + n →
      ∀ args, ∃ args', t.ofwParsePhandleCells s cellsName np listName j value args = some (0, args')) :
    ∃ args', t.countLoop s cellsName np listName value (fuel + n) index args =
      t.countLoop s cellsName np listName value fuel (index + n) args' := by
  induction n generalizing index args with
  | zero => exact ⟨args, rfl⟩
  | succ n ih =>
    obtain ⟨args1, h1⟩ := h index (Nat.le_refl _) (by omega) args
    obtain ⟨args2, h2⟩ := @ih (index + 1) args1 fun j hj hj' => h j (by omega) (by omega)
    refine ⟨args2, ?_⟩
    rw [show fuel + (n + 1) = fuel + n + 1 by omega, countLoop_next h1, h2, show index + 1 + n = index + (n + 1) by omega]

theorem Fits.seen (h : t.Fits s cellsName list pos) : Seen s list pos := by
  obtain ⟨phandle, hcell, hin, -⟩ := h
  exact ⟨phandle, hcell, hin⟩

/-- The count goes on to the end, or to the first phandle without a node. -/
theorem countLoop_of_fits (value : BitVec 32) (index : Nat) (args : OfwCellArgs)
    (hprop : t.getProp np listName = some prop) (hne : prop.value ≠ [])
    (hfits : ∀ i pos, t.specAt s cellsName prop.value i = some pos →
      (∀ j < i, ∀ pos phandle, t.specAt s cellsName prop.value j = some pos → fdtCell prop.value pos = some phandle →
        (s.nodeOf phandle).isSome) → t.Fits s cellsName prop.value pos)
    (hbefore : ∀ j < index, ∃ pos phandle, t.Spec s cellsName prop.value j pos phandle ∧ (s.nodeOf phandle).isSome)
    (hfuel : prop.value.length < index + fuel) :
    ∃ count, t.countLoop s cellsName np listName value fuel index args = some count ∧
      (∀ j < count, ∃ pos phandle, t.Spec s cellsName prop.value j pos phandle) ∧
      (t.specAt s cellsName prop.value count = none ∨
        ∃ pos phandle, t.specAt s cellsName prop.value count = some pos ∧ fdtCell prop.value pos = some phandle ∧
          s.nodeOf phandle = none) := by
  have hclear : ∀ i ≤ index, ∀ j < i, ∀ pos phandle, t.specAt s cellsName prop.value j = some pos →
      fdtCell prop.value pos = some phandle → (s.nodeOf phandle).isSome := by
    intro i hi j hj pos phandle hspec hcell
    obtain ⟨pos', phandle', hs, hsome⟩ := hbefore j (Nat.lt_of_lt_of_le hj hi)
    cases hspec.symm.trans hs.at_pos
    cases hcell.symm.trans hs.cell
    exact hsome
  have hdone : ∀ j < index, ∃ pos phandle, t.Spec s cellsName prop.value j pos phandle := by
    intro j hj
    obtain ⟨pos, phandle, hs, -⟩ := hbefore j hj
    exact ⟨pos, phandle, hs⟩
  induction fuel generalizing index args with
  | zero =>
    obtain ⟨pos, phandle, hs, -⟩ := hbefore (index - 1) (by omega)
    have hlt := specAt_lt hs.at_pos
    omega
  | succ fuel ih =>
    rcases parse_cases hprop hne index value args with ⟨j, pos, hj, hspec, hunseen, -⟩ | ⟨hnone, -, hr⟩ |
      ⟨pos, phandle, hspec, hcell, -, hr⟩
    · exact absurd (hfits j pos hspec (hclear j hj)).seen hunseen
    · exact ⟨index, countLoop_stop (by decide) hr, hdone, .inl hnone⟩
    · have hfit := hfits index pos hspec (hclear index (Nat.le_refl _))
      obtain ⟨args', hr', -⟩ := parseFound_of_fits args hcell hfit
      rw [hr'] at hr
      obtain ⟨phandle', hcell', -, hle, -⟩ := hfit
      cases hcell.symm.trans hcell'
      cases hfind : s.nodeOf phandle with
      | none =>
        rw [hfind, if_neg (by simp)] at hr
        exact ⟨index, countLoop_stop (by decide) hr, hdone, .inr ⟨pos, phandle, hspec, hcell, hfind⟩⟩
      | some node =>
        have hsome : (s.nodeOf phandle).isSome := by rw [hfind]; rfl
        rw [if_pos hsome] at hr
        have hbefore' : ∀ j < index + 1,
            ∃ pos phandle, t.Spec s cellsName prop.value j pos phandle ∧ (s.nodeOf phandle).isSome := by
          intro j hj
          rcases Nat.lt_or_eq_of_le (Nat.le_of_lt_succ hj) with hlt | rfl
          · exact hbefore j hlt
          · exact ⟨pos, phandle, ⟨hspec, hcell, hle⟩, hsome⟩
        rw [countLoop_next hr]
        refine ih (index + 1) args' hbefore' (by omega) ?_ fun j hj => ?_
        · intro i hi j hj pos phandle hs hc
          obtain ⟨pos', phandle', hs', hsome'⟩ := hbefore' j (by omega)
          cases hs.symm.trans hs'.at_pos
          cases hc.symm.trans hs'.cell
          exact hsome'
        · obtain ⟨pos, phandle, hs, -⟩ := hbefore' j hj
          exact ⟨pos, phandle, hs⟩

/-- Without a name for the number of cells every specifier is one cell. -/
theorem specAt_single (i : Nat) : t.specAt s none list i = if 4 * i < list.length then some i else none := by
  induction i with
  | zero =>
    cases list with
    | nil => rfl
    | cons b list => rw [specAt, if_neg (by simp), if_pos (by simp)]
  | succ i ih =>
    rw [specAt, ih]
    by_cases hlt : 4 * (i + 1) < list.length
    · rw [if_pos (show 4 * i < list.length by omega)]
      obtain ⟨c, hc⟩ := fdtCell_some list (i := i) (by omega)
      dsimp only
      rw [hc]
      rfl
    · rw [if_neg hlt]
      by_cases hlt' : 4 * i < list.length
      · rw [if_pos hlt']
        dsimp only
        cases fdtCell list i with
        | none => rfl
        | some c => exact if_neg hlt
      · rw [if_neg hlt']

theorem countOk_single : t.CountOk s none np listName := by
  intro value args
  refine ⟨_, rfl, ?_⟩
  intro hsome _ i
  rcases t.getProp_cases np listName with ⟨hprop, -⟩ | ⟨prop, hprop, hvalue⟩
  · rw [hprop] at hsome
    cases hsome
  · rw [hprop, hvalue]
    show (i : Int) < (prop.value.length / 4 : Nat) ↔ _
    constructor
    · intro hlt
      have hle : 4 * (i + 1) ≤ prop.value.length := by omega
      obtain ⟨c, hc⟩ := fdtCell_some prop.value hle
      refine ⟨i, c, ?_, hc, hle⟩
      rw [specAt_single, if_pos (by omega)]
    · rintro ⟨pos, phandle, hs⟩
      have hat := hs.at_pos
      rw [specAt_single] at hat
      split at hat
      · cases hat
        have hle := le_of_fdtCell hs.cell
        omega
      · cases hat

/-- The specifiers are counted exactly if they are as they should be, up to the first phandle without a node. -/
theorem countOk_iff : t.CountOk s cellsName np listName ↔ t.CountWhen s cellsName np listName := by
  cases cellsName with
  | none => exact ⟨fun _ h => (by cases h), fun _ => countOk_single⟩
  | some name =>
    rcases t.getProp_cases np listName with ⟨hprop, hvalue⟩ | ⟨prop, hprop, hvalue⟩
    · constructor
      · intro _ _ hsome
        rw [hprop] at hsome
        cases hsome
      · intro _ value args
        refine ⟨0, ?_, fun hsome => ?_⟩
        · rw [rtOfwCountPhandleCells, hvalue, countLoop_stop (by decide) (parse_absent hprop _ _ _)]
          rfl
        · rw [hprop] at hsome
          cases hsome
    · unfold CountOk CountWhen
      rw [hvalue]
      have hpresent : (t.getProp np listName).isSome := by rw [hprop]; rfl
      constructor
      · intro hok _ _
        obtain ⟨count, hr, hcount⟩ := hok 0 ⟨none, 0, fun _ => 0⟩
        rw [rtOfwCountPhandleCells, hvalue] at hr
        obtain ⟨m, hr, rfl⟩ := Option.map_eq_some_iff.1 hr
        by_cases hne : prop.value = []
        · rw [countLoop_none (parse_nil hprop hne _ _ _)] at hr
          cases hr
        refine ⟨hne, fun i => ?_⟩
        induction i using Nat.strongRecOn with
        | ind i ih =>
          intro pos hspec hclear
          by_contra hfits
          obtain ⟨hlt, hile⟩ := specAt_lt hspec
          -- the specifiers before it fit, so that the count comes to it
          have hfound : ∀ j, 0 ≤ j → j < 0 + i →
              ∀ args, ∃ args', t.ofwParsePhandleCells s (some name) np listName j 0 args = some (0, args') := by
            intro j _ hj args
            rw [Nat.zero_add] at hj
            obtain ⟨pos', phandle', hspec', hcell', -⟩ := specAt_of_lt hspec hj
            have hfit := ih j hj pos' hspec' fun k hk => hclear k (Nat.lt_trans hk hj)
            rcases parse_cases hprop hne j 0 args with ⟨k, pos'', hk, hspec'', hunseen, -⟩ | ⟨hnone, -⟩ |
              ⟨pos'', phandle'', hspec'', hcell'', -, hr''⟩
            · have hki := Nat.lt_of_le_of_lt hk hj
              exact absurd (ih k hki pos'' hspec'' fun m hm => hclear m (Nat.lt_trans hm hki)).seen hunseen
            · exact absurd (hnone.symm.trans hspec') (by simp)
            · cases hspec''.symm.trans hspec'
              obtain ⟨args', hargs', -⟩ := parseFound_of_fits args hcell'' hfit
              rw [if_pos (hclear j hj _ _ hspec'' hcell'')] at hargs'
              exact ⟨args', hr''.trans hargs'⟩
          obtain ⟨fuel, hfuel⟩ : ∃ fuel, prop.value.length + 1 = fuel + 1 + 1 + i := ⟨prop.value.length - 1 - i, by omega⟩
          obtain ⟨args1, hreach⟩ := countLoop_reach (fuel + 1 + 1) ⟨none, 0, fun _ => 0⟩ hfound
          rw [hfuel, hreach, Nat.zero_add] at hr
          rcases parse_cases hprop hne i 0 args1 with ⟨j, pos', hj, hspec', -, hnone⟩ | ⟨hnone, -⟩ |
            ⟨pos', phandle', hspec', hcell', hupto, hr'⟩
          · rw [countLoop_none hnone] at hr
            cases hr
          · exact absurd (hnone.symm.trans hspec) (by simp)
          · cases hspec'.symm.trans hspec
            rcases parseFound_of_not_fits args1 hcell' (hupto i (Nat.le_refl _) _ hspec') hfits with hnone | ⟨hsome, hlen, args2, hfound'⟩
            · rw [countLoop_none (hr'.trans hnone)] at hr
              cases hr
            · -- it is counted, and is the last one
              have hlast : t.specAt s (some name) prop.value (i + 1) = none := by
                rw [specAt_succ hspec' hcell', if_neg (by omega)]
              rw [countLoop_next (hr'.trans hfound')] at hr
              rcases parse_cases hprop hne (i + 1) 0 args2 with ⟨j, pos'', hj, hspec'', hunseen, -⟩ | ⟨-, -, hend⟩ |
                ⟨pos'', phandle'', hspec'', -, -⟩
              · have hji : j ≤ i := by
                  by_contra hgt
                  exact absurd ((specAt_none hlast (show i + 1 ≤ j by omega)).symm.trans hspec'') (by simp)
                exact absurd (hupto j hji pos'' hspec'') hunseen
              · rw [countLoop_stop (by decide) hend] at hr
                cases hr
                have hall : ∀ j pos phandle, t.specAt s (some name) prop.value j = some pos →
                    fdtCell prop.value pos = some phandle → (s.nodeOf phandle).isSome := by
                  intro j pos phandle hs hc
                  rcases Nat.lt_trichotomy j i with hji | rfl | hji
                  · exact hclear j hji pos phandle hs hc
                  · cases hs.symm.trans hspec'
                    cases hc.symm.trans hcell'
                    exact hsome
                  · exact absurd ((specAt_none hlast hji).symm.trans hs) (by simp)
                obtain ⟨pos3, phandle3, hs⟩ := (hcount hpresent hall i).1 (show (i : Int) < (i + 1 : Nat) by omega)
                cases hspec'.symm.trans hs.at_pos
                cases hcell'.symm.trans hs.cell
                exact absurd hs.cells (Nat.not_le.2 hlen)
              · exact absurd (hlast.symm.trans hspec'') (by simp)
      · intro hwhen value args
        obtain ⟨hne, hfits⟩ := hwhen rfl hpresent
        obtain ⟨count, hr, hdone, hend⟩ := countLoop_of_fits value 0 args hprop hne hfits
          (fun j hj => absurd hj (Nat.not_lt_zero j)) (show prop.value.length < 0 + (prop.value.length + 1) by omega)
        refine ⟨count, ?_, fun _ hall i => ?_⟩
        · rw [rtOfwCountPhandleCells, hvalue, hr]
          rfl
        · have hlast : t.specAt s (some name) prop.value count = none := by
            rcases hend with hnone | ⟨pos, phandle, hspec, hcell, hfind⟩
            · exact hnone
            · have hsome := hall count pos phandle hspec hcell
              rw [hfind] at hsome
              cases hsome
          constructor
          · intro hi
            exact hdone i (Int.ofNat_lt.1 hi)
          · rintro ⟨pos, phandle, hs⟩
            by_contra hge
            have hnone := specAt_none hlast (show count ≤ i by omega)
            exact absurd (hnone.symm.trans hs.at_pos) (by simp)

end Count

/-! ## Every call -/

/-- `rt_ofw_parse_phandle_cells` and `rt_ofw_count_phandle_cells` do what the list says exactly if the property is not
empty, and the specifiers that they look at are whole, have their phandles in the table and fit into `args`. -/
theorem parse_phandle_cells_iff (t : DeviceTree) (s : PhandleState) (cellsName : Option String) (np : Nat)
    (listName : String) (index : Int) :
    (t.ParseOk s cellsName np listName index ↔ t.ParseWhen s cellsName np listName index) ∧
      (t.CountOk s cellsName np listName ↔ t.CountWhen s cellsName np listName) :=
  ⟨parseOk_iff, countOk_iff⟩

/-- A list with one of the two arguments of its specifier. -/
def truncatedTree : DeviceTree := chainTree [[cellProp "list" [1, 0xaa]], [cellProp "#list-cells" [2]]]

/-- The second of its nodes has the phandle 1, which is in the table. -/
def phandleOne : PhandleState where
  heap n := { phandle := BitVec.ofNat 32 n, parent := if n = 0 then none else some 0, child := if n = 0 then some 1 else none }
  count := 2
  hi := 128
  next := 2
  hash := some (some 1 :: List.replicate 126 none)

/-- The argument that is missing is given as the one before it, and the specifier is counted. -/
theorem parse_phandle_cells_truncated :
    (truncatedTree.rtOfwParsePhandleCells phandleOne (some "#list-cells") 0 "list" 0 0 ⟨none, 0, fun _ => 0⟩).map
        (fun r => (r.1, r.2.node, r.2.argsCount, r.2.args 0, r.2.args 1)) =
      some (0, some 1, 2, 0xaa, 0xaa) ∧
    ¬ truncatedTree.ParseOk phandleOne (some "#list-cells") 0 "list" 0 := by
  refine ⟨by decide, ?_⟩
  rw [parseOk_iff]
  intro hwhen
  obtain ⟨-, -, hfits⟩ := hwhen (by decide) (by decide)
  obtain ⟨phandle, hcell, -, hle, -⟩ := hfits 0 0 rfl (by decide)
  have hone : fdtCell (truncatedTree.value 0 "list") 0 = some 1 := by decide
  cases hone.symm.trans hcell
  revert hle
  decide

end DeviceTree

end RtThread
