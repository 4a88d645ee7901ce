import Mathlib.Algebra.Group.Nat.Defs
import RtThread.Lib.Runs
import RtThread.Ofw.Unflatten

/-!
# Device address translation

Two functions translate the address of a device through the `ranges` of its buses: `rt_ofw_translate_address` (`io.c`)
on the unflattened tree and `rt_fdt_translate_address` (`fdt.c`) on the flat one. A node is known by its properties and
its ancestors, the parent first. A property is read in cells of four bytes, most significant byte first; a read behind
its end is `none`. The standard reading (`DeviceTree.translate`) goes through every ancestor whose `ranges` is not empty.
-/

namespace RtThread

open Runs

/-- A device tree: the properties of each node, and its ancestors. -/
structure DeviceTree where
  props : Nat → List OfwProp
  parents : Nat → List Nat
  parents_parent : ∀ n p ps, parents n = p :: ps → parents p = ps

/-- The cell at an index: `fdt32_to_cpu(cell[i])`. -/
def fdtCell (value : List (BitVec 8)) (i : Nat) : Option (BitVec 32) :=
  match value.drop (4 * i) with
  | a :: b :: c :: d :: _ => some (a ++ b ++ c ++ d)
  | _ => none

/-- `rt_fdt_read_number`, from the cell `pos` on. -/
def rtFdtReadNumber (value : List (BitVec 8)) : Nat → Nat → BitVec 64 → Option (BitVec 64)
  | _, 0, val => some val
  | pos, size + 1, val =>
    (fdtCell value pos).bind fun cell => rtFdtReadNumber value (pos + 1) size (val <<< 32 ||| cell.setWidth 64)

/-- `rt_fdt_next_cell`: the number, and the position behind it. A negative size runs through 2^31 cells and more, and so
behind the end of every property. -/
def rtFdtNextCell (value : List (BitVec 8)) (pos : Nat) (size : Int) : Option (BitVec 64 × Nat) :=
  if size < 0 then none else (rtFdtReadNumber value pos size.toNat 0).map fun val => (val, pos + size.toNat)

/-- An entry of `ranges`. -/
structure BusRange where
  childAddr : BitVec 64
  parentAddr : BitVec 64
  childSize : BitVec 64
  deriving DecidableEq, Repr

/-- The entry's range of child addresses has the address. -/
def BusRange.contains (e : BusRange) (address : BitVec 64) : Bool :=
  e.childAddr ≤ address && address < e.childAddr + e.childSize

/-- What the entry adds to an address. -/
def BusRange.offset (e : BusRange) : BitVec 64 := e.parentAddr - e.childAddr

/-- What the first entry that has the address adds to it. -/
def busOffset (es : List BusRange) (address : BitVec 64) : BitVec 64 :=
  ((es.find? fun e => e.contains address).map BusRange.offset).getD 0

/-- The entry from the cell `pos` on, with the given cell counts. -/
def readRange (value : List (BitVec 8)) (pos : Nat) (addr parent size : Int) : Option (BusRange × Nat) :=
  (rtFdtNextCell value pos addr).bind fun (childAddr, pos) =>
    (rtFdtNextCell value pos parent).bind fun (parentAddr, pos) =>
      (rtFdtNextCell value pos size).map fun (childSize, pos) => (⟨childAddr, parentAddr, childSize⟩, pos)

/-- The next entries. -/
def readRanges (value : List (BitVec 8)) (addr parent size : Int) : Nat → Nat → Option (List BusRange)
  | 0, _ => some []
  | groups + 1, pos =>
    (readRange value pos addr parent size).bind fun (e, pos) =>
      (readRanges value addr parent size groups pos).map (e :: ·)

/-- The entries of a property. -/
def busRanges (value : List (BitVec 8)) (addr parent size : Int) : List BusRange :=
  (readRanges value addr parent size (value.length / 4 / (addr + parent + size).toNat) 0).getD []

namespace DeviceTree

variable (t : DeviceTree)

/-- `rt_ofw_get_prop`, and `fdt_getprop`. -/
def getProp (n : Nat) (name : String) : Option OfwProp := (t.props n).find? fun p => p.name = name

/-- The value of a property, empty without one. -/
def value (n : Nat) (name : String) : List (BitVec 8) := ((t.getProp n name).map OfwProp.value).getD []

/-- `rt_ofw_prop_read_u32`. -/
def readU32 (n : Nat) (name : String) : Option (BitVec 32) := (t.getProp n name).bind fun p => fdtCell p.value 0

/-! ## The standard reading -/

/-- `#address-cells` of a node, with the standard's default. -/
def addressCells (n : Nat) : Nat := ((t.readU32 n "#address-cells").map BitVec.toNat).getD 2

/-- `#size-cells` of a node, with the standard's default. -/
def sizeCells (n : Nat) : Nat := ((t.readU32 n "#size-cells").map BitVec.toNat).getD 1

/-- The entries of a bus: addresses of the bus, of its parent, and sizes on the bus. -/
def ranges (b : Nat) : List BusRange :=
  busRanges (t.value b "ranges") (t.addressCells b) (t.addressCells ((t.parents b).headD b)) (t.sizeCells b)

/-- What a bus adds to an address: nothing without `ranges`, with an empty one, or if no entry has the address. -/
def offset (b : Nat) (address : BitVec 64) : BitVec 64 :=
  if t.value b "ranges" = [] then 0 else busOffset (t.ranges b) address

/-- The address through every ancestor bus, up to the root. -/
def translate (n : Nat) (address : BitVec 64) : BitVec 64 :=
  (t.parents n).foldl (fun a b => a + t.offset b a) address

/-! ## `rt_ofw_translate_address` -/

/-- `ofw_bus_addr_cells`: the count of the nearest node that has one. -/
def ofwBusAddrCells (n : Nat) : Int :=
  (((n :: t.parents n).findSome? fun m => t.readU32 m "#address-cells").map BitVec.toInt).getD 1

/-- `ofw_bus_size_cells`. -/
def ofwBusSizeCells (n : Nat) : Int :=
  (((n :: t.parents n).findSome? fun m => t.readU32 m "#size-cells").map BitVec.toInt).getD 1

/-- `rt_ofw_io_addr_cells`. -/
def rtOfwIoAddrCells (n : Nat) : Int := t.ofwBusAddrCells ((t.parents n).headD n)

/-- The cells of an entry, an `int`. -/
def ofwGroupCells (b : Nat) : Int :=
  (t.ofwBusAddrCells b + t.ofwBusSizeCells b + t.rtOfwIoAddrCells b).bmod (2 ^ 32)

/-- The entries that `ofw_bus_ranges` reads. Entries without cells divide by zero, and a negative number of entries asks for
a block that is smaller than what is written to it. -/
def ofwReadRanges (b : Nat) (value : List (BitVec 8)) : Option (List BusRange) :=
  let groups := ((value.length / 4 : Nat) : Int).tdiv (t.ofwGroupCells b)
  if t.ofwGroupCells b = 0 ∨ groups < 0 then none
  else readRanges value (t.ofwBusAddrCells b) (t.rtOfwIoAddrCells b) (t.ofwBusSizeCells b) groups.toNat 0

/-- No count is negative, and the entries are inside the property. -/
def CountsOk (b : Nat) (value : List (BitVec 8)) : Prop :=
  0 ≤ t.ofwBusAddrCells b ∧ 0 ≤ t.ofwBusSizeCells b ∧ 0 ≤ t.rtOfwIoAddrCells b ∧ (t.ofwReadRanges b value).isSome

instance (b : Nat) (value : List (BitVec 8)) : Decidable (t.CountsOk b value) := inferInstanceAs (Decidable (_ ∧ _ ∧ _ ∧ _))

/-- The table `_bus_ranges`: the buses read so far, with their entries. -/
abbrev BusTable := List (Nat × List BusRange)

/-- `ofw_bus_ranges`: `RT_NULL` for a negative count or without memory. -/
def ofwBusRanges (alloc : Bool) (b : Nat) (value : List (BitVec 8)) : Option (Option (List BusRange)) :=
  if t.ofwBusAddrCells b < 0 ∨ t.ofwBusSizeCells b < 0 ∨ t.rtOfwIoAddrCells b < 0 then some none
  else if t.ofwGroupCells b = 0 then none
  else if alloc then (t.ofwReadRanges b value).map some
  else some none

/-- `rt_ofw_translate_address`, with the table that is left, of at most `nr` buses. There is no result if it divides by
zero, reads behind the property or fails the assertion on the size of the table. -/
def rtOfwTranslateAddress (nr : Nat) (alloc : Bool) (table : BusTable) (n : Nat) (rangeType : Option String)
    (address : BitVec 64) : Option (BusTable × BitVec 64) :=
  let rangeType := rangeType.getD "ranges"
  match (t.parents n).find? fun b => t.value b rangeType ≠ [] with
  | none => some (table, address)
  | some b =>
    match table.find? fun x => x.1 = b with
    | some x => some (table, address + busOffset x.2 address)
    | none =>
      (t.ofwBusRanges alloc b (t.value b rangeType)).bind fun ranges =>
        match ranges with
        | none => some (table, BitVec.allOnes 64)
        | some es => if table.length < nr then some (table ++ [(b, es)], address + busOffset es address) else none

/-! ## `rt_fdt_translate_address` -/

/-- `fdt_cells`: the count, or `-FDT_ERR_NOTFOUND` or `-FDT_ERR_BADNCELLS`. -/
def fdtCells (n : Nat) (name : String) : Int :=
  match t.getProp n name with
  | none => -1
  | some p =>
    match fdtCell p.value 0 with
    | none => -14
    | some cells => if p.value.length ≠ 4 ∨ 4 < cells.toNat then -14 else cells.toNat

/-- `fdt_address_cells`. -/
def fdtAddressCells (n : Nat) : Int :=
  let val := t.fdtCells n "#address-cells"
  if val = 0 then -14 else if val = -1 then 2 else val

/-- `fdt_size_cells`. -/
def fdtSizeCells (n : Nat) : Int :=
  let val := t.fdtCells n "#size-cells"
  if val = -1 then 1 else val

/-- `fdt_io_addr_cells`: the count of the last ancestor that has one. Of an empty property it reads what is behind it,
`stray`. -/
def fdtIoAddrCells (stray : BitVec 32) (n : Nat) : Int :=
  let cells := (t.parents n).foldl (fun cells m =>
    match t.getProp m "#address-cells" with
    | none => cells
    | some p => ((fdtCell p.value 0).getD stray).toInt) (-1)
  if cells < 0 then t.fdtAddressCells n else cells

end DeviceTree

/-- `local.size` has the width of `rt_size_t`. -/
def BusRange.narrow (w : Nat) (e : BusRange) : BusRange := { e with childSize := (e.childSize.setWidth w).setWidth 64 }

/-- The loop of `rt_fdt_translate_address`: `length` starts as the length in bytes and loses the cells of an entry. -/
def fdtTranslateLoop (w : Nat) (value : List (BitVec 8)) (addr parent size : Int) (address : BitVec 64) :
    Nat → Nat → Int → Option (BitVec 64)
  | 0, _, _ => none
  | fuel + 1, pos, length =>
    if 0 < length then
      (readRange value pos addr parent size).bind fun (e, pos) =>
        let e := e.narrow w
        if e.contains address then some (address - e.childAddr + e.parentAddr)
        else fdtTranslateLoop w value addr parent size address fuel pos (length - (addr + parent + size))
    else some address

namespace DeviceTree

variable (t : DeviceTree)

/-- `rt_fdt_translate_address`; without a result it reads behind the end of `ranges`. -/
def rtFdtTranslateAddress (w : Nat) (stray : BitVec 32) (n : Nat) (address : BitVec 64) : Option (BitVec 64) :=
  match t.parents n with
  | [] => some address
  | p :: _ =>
    let value := t.value p "ranges"
    if value = [] then some address
    else fdtTranslateLoop w value (t.fdtAddressCells p) (t.fdtIoAddrCells stray p) (t.fdtSizeCells p) address
      (value.length + 1) 0 value.length

end DeviceTree

/-! ## Reading -/

variable {value : List (BitVec 8)} {pos n w : Nat} {val : BitVec 64} {address : BitVec 64} {es : List BusRange}

theorem fdtCell_spec (value : List (BitVec 8)) (i : Nat) :
    if 4 * (i + 1) ≤ value.length then ∃ cell, fdtCell value i = some cell else fdtCell value i = none := by
  have hlen : (value.drop (4 * i)).length = value.length - 4 * i := List.length_drop
  rw [fdtCell]
  split
  · rename_i hle
    match value.drop (4 * i), hlen with
    | [], h => simp at h; omega
    | [_], h => simp at h; omega
    | [_, _], h => simp at h; omega
    | [_, _, _], h => simp at h; omega
    | a :: b :: c :: d :: rest, _ => exact ⟨_, rfl⟩
  · rename_i hle
    match value.drop (4 * i), hlen with
    | [], _ => rfl
    | [_], _ => rfl
    | [_, _], _ => rfl
    | [_, _, _], _ => rfl
    | a :: b :: c :: d :: rest, h => simp at h; omega

theorem rtFdtReadNumber_some (h : 4 * (pos + n) ≤ value.length) :
    ∃ val', rtFdtReadNumber value pos n val = some val' := by
  induction n generalizing pos val with
  | zero => exact ⟨val, rfl⟩
  | succ n ih =>
    obtain ⟨cell, hcell⟩ : ∃ cell, fdtCell value pos = some cell := by
      have hspec := fdtCell_spec value pos
      rwa [if_pos (by omega)] at hspec
    rw [rtFdtReadNumber, hcell]
    exact ih (by omega)

theorem rtFdtReadNumber_none (hn : n ≠ 0) (h : value.length < 4 * (pos + n)) : rtFdtReadNumber value pos n val = none := by
  induction n generalizing pos val with
  | zero => exact absurd rfl hn
  | succ n ih =>
    have hspec := fdtCell_spec value pos
    rw [rtFdtReadNumber]
    split at hspec
    · obtain ⟨cell, hcell⟩ := hspec
      rw [hcell]
      exact ih (by omega) (by omega)
    · rw [hspec]
      rfl

theorem rtFdtNextCell_some (h : 4 * (pos + n) ≤ value.length) : ∃ val, rtFdtNextCell value pos n = some (val, pos + n) := by
  obtain ⟨val, hval⟩ : ∃ val, rtFdtReadNumber value pos n 0 = some val := rtFdtReadNumber_some h
  refine ⟨val, ?_⟩
  rw [rtFdtNextCell, if_neg (Int.not_lt.2 (Int.natCast_nonneg n)), Int.toNat_natCast, hval]
  rfl

theorem rtFdtNextCell_none (hn : n ≠ 0) (h : value.length < 4 * (pos + n)) : rtFdtNextCell value pos n = none := by
  rw [rtFdtNextCell, if_neg (Int.not_lt.2 (Int.natCast_nonneg n)), Int.toNat_natCast, rtFdtReadNumber_none hn h]
  rfl

variable {addr parent size : Nat}

/-- An entry inside the property is read. -/
theorem readRange_some (h : 4 * (pos + (addr + parent + size)) ≤ value.length) :
    ∃ e, readRange value pos addr parent size = some (e, pos + (addr + parent + size)) := by
  obtain ⟨v1, h1⟩ : ∃ v, rtFdtNextCell value pos addr = some (v, pos + addr) := rtFdtNextCell_some (by omega)
  obtain ⟨v2, h2⟩ : ∃ v, rtFdtNextCell value (pos + addr) parent = some (v, pos + addr + parent) :=
    rtFdtNextCell_some (by omega)
  obtain ⟨v3, h3⟩ : ∃ v, rtFdtNextCell value (pos + addr + parent) size = some (v, pos + addr + parent + size) :=
    rtFdtNextCell_some (by omega)
  refine ⟨⟨v1, v2, v3⟩, ?_⟩
  have hpos : pos + addr + parent + size = pos + (addr + parent + size) := by omega
  simp only [readRange, h1, h2, h3, Option.bind_some, Option.map_some, hpos]

/-- An entry that ends behind the property is not. -/
theorem readRange_none (hpos : 4 * pos ≤ value.length)
    (h : value.length < 4 * (pos + (addr + parent + size))) : readRange value pos addr parent size = none := by
  by_cases ha : 4 * (pos + addr) ≤ value.length
  · obtain ⟨v1, h1⟩ := rtFdtNextCell_some ha
    by_cases hp : 4 * (pos + addr + parent) ≤ value.length
    · obtain ⟨v2, h2⟩ := rtFdtNextCell_some hp
      have h3 : rtFdtNextCell value (pos + addr + parent) size = none := rtFdtNextCell_none (by omega) (by omega)
      simp only [readRange, h1, h2, h3, Option.bind_some, Option.map_none]
    · have h2 : rtFdtNextCell value (pos + addr) parent = none := rtFdtNextCell_none (by omega) (by omega)
      simp only [readRange, h1, h2, Option.bind_some, Option.bind_none]
  · have h1 : rtFdtNextCell value pos addr = none := rtFdtNextCell_none (by omega) (by omega)
    rw [readRange, h1]
    rfl

/-- The entries that fit are read. -/
theorem readRanges_some {groups : Nat} (h : 4 * (pos + groups * (addr + parent + size)) ≤ value.length) :
    ∃ es, readRanges value addr parent size groups pos = some es := by
  induction groups generalizing pos with
  | zero => exact ⟨[], rfl⟩
  | succ groups ih =>
    rw [Nat.succ_mul groups] at h
    obtain ⟨e, he⟩ : ∃ e, readRange value pos addr parent size = some (e, pos + (addr + parent + size)) :=
      readRange_some (by omega)
    obtain ⟨es, hes⟩ : ∃ es, readRanges value addr parent size groups (pos + (addr + parent + size)) = some es :=
      ih (by omega)
    exact ⟨e :: es, by simp only [readRanges, he, hes, Option.bind_some, Option.map_some]⟩

theorem groups_le (value : List (BitVec 8)) (g : Nat) : 4 * (0 + value.length / 4 / g * g) ≤ value.length := by
  have := Nat.div_mul_le_self (value.length / 4) g
  omega

/-- The number of whole entries is the one for which all are read. -/
theorem busRanges_eq (value : List (BitVec 8)) (addr parent size : Nat) :
    readRanges value addr parent size (value.length / 4 / (addr + parent + size)) 0 =
      some (busRanges value addr parent size) := by
  obtain ⟨es, hes⟩ := readRanges_some (groups_le value (addr + parent + size))
  have hsum : ((addr : Int) + parent + size).toNat = addr + parent + size := by omega
  rw [busRanges, hsum, hes]
  rfl

/-- The loop finds the first entry that has the address, and reads on behind the end if none has. -/
theorem fdtTranslateLoop_eq {groups fuel : Nat} {length : Int} (hfuel : groups < fuel)
    (hvalue : value ≠ []) (hlength : length = value.length - pos)
    (hin : 4 * (pos + groups * (addr + parent + size)) ≤ value.length)
    (hout : value.length < 4 * (pos + (groups + 1) * (addr + parent + size)))
    (hes : readRanges value addr parent size groups pos = some es) :
    fdtTranslateLoop w value addr parent size address fuel pos length =
      (es.find? fun e => (e.narrow w).contains address).map fun e => address + e.offset := by
  have hpos : 0 < value.length := List.length_pos_iff.2 hvalue
  induction groups generalizing pos fuel length es with
  | zero =>
    obtain ⟨fuel, rfl⟩ : ∃ fuel', fuel = fuel' + 1 := ⟨fuel - 1, by omega⟩
    cases hes
    rw [fdtTranslateLoop, if_pos (by omega), readRange_none (by omega) (by simpa using hout)]
    rfl
  | succ groups ih =>
    obtain ⟨fuel, rfl⟩ : ∃ fuel', fuel = fuel' + 1 := ⟨fuel - 1, by omega⟩
    rw [Nat.succ_mul groups] at hin
    rw [Nat.succ_mul (groups + 1)] at hout
    obtain ⟨e, he⟩ : ∃ e, readRange value pos addr parent size = some (e, pos + (addr + parent + size)) :=
      readRange_some (by omega)
    obtain ⟨es', hes'⟩ : ∃ es', readRanges value addr parent size groups (pos + (addr + parent + size)) = some es' :=
      readRanges_some (by omega)
    obtain rfl : e :: es' = es := by
      simpa only [readRanges, he, hes', Option.bind_some, Option.map_some, Option.some.injEq] using hes
    rw [fdtTranslateLoop, if_pos (by omega), he, List.find?_cons]
    dsimp only [Option.bind_some]
    cases hc : (e.narrow w).contains address with
    | true =>
      simp only [if_true, Option.map_some, BusRange.offset, BusRange.narrow]
      rw [BitVec.sub_eq_add_neg, BitVec.sub_eq_add_neg, BitVec.add_assoc, BitVec.add_comm (-e.childAddr)]
    | false =>
      exact ih (by omega) (by omega) (by omega) (by omega) hes'

/-- A negative count reads behind the end. -/
theorem readRange_neg {addr parent size : Int} (h : addr < 0 ∨ parent < 0 ∨ size < 0) :
    readRange value pos addr parent size = none := by
  have hneg : ∀ pos (n : Int), n < 0 → rtFdtNextCell value pos n = none := fun _ _ hn => if_pos hn
  rw [readRange]
  rcases h with h | h | h
  · rw [hneg _ _ h]
    rfl
  · cases h1 : rtFdtNextCell value pos addr with
    | none => rfl
    | some x => simp only [Option.bind_some, hneg _ _ h, Option.bind_none]
  · cases h1 : rtFdtNextCell value pos addr with
    | none => rfl
    | some x =>
      cases h2 : rtFdtNextCell value x.2 parent with
      | none => simp only [Option.bind_some, h2, Option.bind_none]
      | some y => simp only [Option.bind_some, h2, hneg _ _ h, Option.map_none]

namespace DeviceTree

variable {t : DeviceTree} {stray : BitVec 32} {nr b p : Nat} {ps : List Nat} {alloc : Bool} {table : BusTable}

/-! ## What the two functions compute -/

/-- The counts of `rt_fdt_translate_address` are not negative. -/
def FdtCountsOk (t : DeviceTree) (stray : BitVec 32) (p : Nat) : Prop :=
  0 ≤ t.fdtAddressCells p ∧ 0 ≤ t.fdtIoAddrCells stray p ∧ 0 ≤ t.fdtSizeCells p

instance (p : Nat) : Decidable (t.FdtCountsOk stray p) := inferInstanceAs (Decidable (_ ∧ _ ∧ _))

/-- The entries that `rt_fdt_translate_address` reads. -/
def fdtRanges (t : DeviceTree) (stray : BitVec 32) (p : Nat) : List BusRange :=
  busRanges (t.value p "ranges") (t.fdtAddressCells p) (t.fdtIoAddrCells stray p) (t.fdtSizeCells p)

/-- The entry that `rt_fdt_translate_address` finds. -/
def fdtEntry (t : DeviceTree) (w : Nat) (stray : BitVec 32) (p : Nat) (address : BitVec 64) : Option BusRange :=
  (t.fdtRanges stray p).find? fun e => (e.narrow w).contains address

/-- The entries that `rt_ofw_translate_address` reads. -/
def ofwRanges (t : DeviceTree) (b : Nat) : List BusRange := (t.ofwReadRanges b (t.value b "ranges")).getD []

/-- The bus whose entries `rt_ofw_translate_address` reads: the nearest ancestor whose `ranges` is not empty. -/
def firstBus (t : DeviceTree) (n : Nat) : Option Nat := (t.parents n).find? fun b => t.value b "ranges" ≠ []

/-- What that bus adds. -/
def firstOffset (t : DeviceTree) (n : Nat) (address : BitVec 64) : BitVec 64 :=
  match t.firstBus n with
  | none => 0
  | some b => busOffset (t.ofwRanges b) address

/-- That bus is in the table, or it has counts, and there is memory and room in the table. -/
def Readable (t : DeviceTree) (nr : Nat) (alloc : Bool) (table : BusTable) (n : Nat) : Prop :=
  ∀ b, t.firstBus n = some b →
    (∃ x ∈ table, x.1 = b) ∨ t.CountsOk b (t.value b "ranges") ∧ alloc = true ∧ table.length < nr

/-- The table has what the buses' properties say. -/
def TableOk (t : DeviceTree) (table : BusTable) : Prop := ∀ x ∈ table, x.2 = t.ofwRanges x.1

theorem fdtAddressCells_pos (h : 0 ≤ t.fdtAddressCells p) : 0 < t.fdtAddressCells p := by
  simp only [fdtAddressCells] at h ⊢
  split at h
  · omega
  · rename_i hzero
    split at h
    · rename_i hnone
      omega
    · rename_i hnone
      omega

/-- Inside `ranges` only if an entry has the address. -/
theorem rtFdtTranslateAddress_eq (hparents : t.parents n = p :: ps) (hvalue : t.value p "ranges" ≠ []) :
    (t.FdtCountsOk stray p → t.rtFdtTranslateAddress w stray n address =
      (t.fdtEntry w stray p address).map fun e => address + e.offset) ∧
    (¬ t.FdtCountsOk stray p → t.rtFdtTranslateAddress w stray n address = none) := by
  have hpos : 0 < (t.value p "ranges").length := List.length_pos_iff.2 hvalue
  constructor
  · rintro ⟨haddr, hparent, hsize⟩
    have haddr' := fdtAddressCells_pos haddr
    rw [rtFdtTranslateAddress, hparents]
    simp only [if_neg hvalue]
    rw [fdtEntry, fdtRanges]
    obtain ⟨addr, heq⟩ := Int.eq_ofNat_of_zero_le haddr
    obtain ⟨parent, heq'⟩ := Int.eq_ofNat_of_zero_le hparent
    obtain ⟨size, heq''⟩ := Int.eq_ofNat_of_zero_le hsize
    rw [heq, heq', heq'']
    generalize t.value p "ranges" = value at hvalue hpos
    have hg : addr + parent + size ≠ 0 := by omega
    have hdiv := Nat.div_add_mod (value.length / 4) (addr + parent + size)
    have hmod := Nat.mod_lt (value.length / 4) (Nat.pos_of_ne_zero hg)
    have hle : value.length / 4 / (addr + parent + size) ≤ value.length :=
      Nat.le_trans (Nat.div_le_self _ _) (Nat.div_le_self _ _)
    have hout : value.length < 4 * (0 + (value.length / 4 / (addr + parent + size) + 1) * (addr + parent + size)) := by
      rw [Nat.add_mul, Nat.mul_comm (value.length / 4 / _)]
      omega
    exact fdtTranslateLoop_eq (Nat.lt_succ_of_le hle) hvalue (by simp) (groups_le _ _) hout (busRanges_eq value addr parent size)
  · intro hbad
    rw [rtFdtTranslateAddress, hparents]
    simp only [if_neg hvalue]
    rw [fdtTranslateLoop, if_pos (by omega), readRange_neg]
    · rfl
    · simp only [FdtCountsOk, not_and_or, Int.not_le] at hbad
      exact hbad

theorem cells_ne_zero {value : List (BitVec 8)} (h : t.ofwReadRanges b value = some es) : t.ofwGroupCells b ≠ 0 := by
  intro hzero
  rw [ofwReadRanges, if_pos (Or.inl hzero)] at h
  cases h

theorem ofwBusRanges_eq (alloc : Bool) {value : List (BitVec 8)} (h : t.CountsOk b value) :
    t.ofwBusRanges alloc b value = some (if alloc then some ((t.ofwReadRanges b value).getD []) else none) := by
  obtain ⟨haddr, hsize, hparent, hsome⟩ := h
  obtain ⟨es, hes⟩ := Option.isSome_iff_exists.1 hsome
  rw [ofwBusRanges, if_neg (by omega), if_neg (cells_ne_zero hes), hes]
  cases alloc with
  | false => rfl
  | true => rfl

theorem ofwBusRanges_some {value : List (BitVec 8)} (h : t.ofwBusRanges alloc b value = some (some es)) :
    alloc ∧ t.CountsOk b value ∧ es = (t.ofwReadRanges b value).getD [] := by
  rw [ofwBusRanges] at h
  split at h
  · cases h
  · rename_i hneg
    split at h
    · cases h
    · cases alloc with
      | false => cases h
      | true =>
        obtain ⟨es', hes, heq⟩ := Option.map_eq_some_iff.1 h
        obtain rfl := Option.some.inj heq
        rw [CountsOk, hes]
        exact ⟨rfl, ⟨by omega, by omega, by omega, rfl⟩, rfl⟩

/-- One level is translated, whatever is above it. -/
theorem rtOfwTranslateAddress_eq (htable : t.TableOk table) (h : t.Readable nr alloc table n) {rangeType : Option String}
    (htype : rangeType.getD "ranges" = "ranges") :
    ∃ table', t.rtOfwTranslateAddress nr alloc table n rangeType address =
      some (table', address + t.firstOffset n address) := by
  have hfirst : ((t.parents n).find? fun b => t.value b "ranges" ≠ []) = t.firstBus n := rfl
  rw [rtOfwTranslateAddress, htype, hfirst, firstOffset]
  cases hb : t.firstBus n with
  | none => exact ⟨table, by simp⟩
  | some b =>
    simp only
    cases hx : table.find? (fun x => x.1 = b) with
    | some x =>
      have hmem := List.mem_of_find?_eq_some hx
      have heq : x.1 = b := by simpa using List.find?_some hx
      exact ⟨table, by simp only [htable x hmem, heq]⟩
    | none =>
      rcases h b hb with ⟨x, hmem, heq⟩ | ⟨hcounts, rfl, hroom⟩
      · have := List.find?_eq_none.1 hx x hmem
        simp [heq] at this
      · refine ⟨table ++ [(b, t.ofwRanges b)], ?_⟩
        simp only [ofwBusRanges_eq true hcounts, if_true, Option.bind_some, if_pos hroom]
        rfl

/-! ## The table -/

/-- A call of `rt_ofw_translate_address` on `ranges`: the node, the address, and whether there is memory. -/
structure TranslateCall where
  node : Nat
  address : BitVec 64
  alloc : Bool

/-- A call, and the table before and after it. -/
def Step (t : DeviceTree) (nr : Nat) (table : BusTable) (call : TranslateCall) (table' : BusTable) : Prop :=
  ∃ r, t.rtOfwTranslateAddress nr call.alloc table call.node none call.address = some (table', r)

/-- An entry goes into the table as it is read. -/
theorem step_tableOk {table' : BusTable} {call : TranslateCall} (h : t.TableOk table) (hs : Step t nr table call table') :
    t.TableOk table' := by
  obtain ⟨r, hs⟩ := hs
  rw [rtOfwTranslateAddress] at hs
  split at hs
  · cases hs
    exact h
  · rename_i b hb
    split at hs
    · cases hs
      exact h
    · obtain ⟨ranges, hranges, hs⟩ := Option.bind_eq_some_iff.1 hs
      split at hs
      · cases hs
        exact h
      · rename_i es
        split at hs
        · cases hs
          intro x hx
          rcases List.mem_append.1 hx with hx | hx
          · exact h x hx
          · obtain rfl := List.mem_singleton.1 hx
            exact (ofwBusRanges_some hranges).2.2
        · cases hs

/-! ## Both functions and the standard reading -/

/-- Both read inside `ranges` and give the address translated through every ancestor bus. -/
def Translated (t : DeviceTree) (w nr : Nat) (stray : BitVec 32) (alloc : Bool) (table : BusTable) (n : Nat)
    (address : BitVec 64) : Prop :=
  (∃ table', t.rtOfwTranslateAddress nr alloc table n (some "ranges") address = some (table', t.translate n address)) ∧
    t.rtFdtTranslateAddress w stray n address = some (t.translate n address)

/-- The nearest bus is read with the counts of the standard: with the inherited ones of `rt_ofw_translate_address`, whose sum
is an `int`, and, if it is the parent, with those of `libfdt`, where a size is as wide as `rt_size_t`. -/
structure StandardCounts (t : DeviceTree) (w : Nat) (stray : BitVec 32) (n : Nat) : Prop where
  ofw : ∀ b, t.firstBus n = some b → t.ofwBusAddrCells b = t.addressCells b ∧
    t.rtOfwIoAddrCells b = t.addressCells ((t.parents b).headD b) ∧ t.ofwBusSizeCells b = t.sizeCells b ∧
    t.addressCells b + t.addressCells ((t.parents b).headD b) + t.sizeCells b < 2 ^ 31
  fdt : ∀ p ps, t.parents n = p :: ps → t.value p "ranges" ≠ [] → t.fdtAddressCells p = t.addressCells p ∧
    t.fdtIoAddrCells stray p = t.addressCells ((t.parents p).headD p) ∧ t.fdtSizeCells p = t.sizeCells p ∧
    ∀ e ∈ t.ranges p, e.childSize.toNat < 2 ^ w

/-- The buses above the nearest one leave the address where that one puts it. If it is the parent, one of its entries has the
address, and if it is further up, it leaves the address as it is. -/
structure OneBus (t : DeviceTree) (n : Nat) (address : BitVec 64) : Prop where
  above : ∀ b, t.firstBus n = some b → t.translate b (address + t.offset b address) = address + t.offset b address
  parent : ∀ p ps, t.parents n = p :: ps → t.value p "ranges" ≠ [] → ∃ e ∈ t.ranges p, e.contains address
  further : ∀ p ps b, t.parents n = p :: ps → t.value p "ranges" = [] → t.firstBus n = some b → t.offset b address = 0

theorem find_congr {es : List BusRange} {f g : BusRange → Bool} (h : ∀ e ∈ es, f e = g e) : es.find? f = es.find? g := by
  induction es with
  | nil => rfl
  | cons e es ih =>
    rw [List.find?_cons, List.find?_cons, h e List.mem_cons_self, ih fun e he => h e (List.mem_cons_of_mem _ he)]

theorem add_none (a : BitVec 64) : a + 0 = a := BitVec.add_zero a

theorem offset_nil (h : t.value b "ranges" = []) : t.offset b address = 0 := if_pos h

/-- The standard reading begins at the nearest bus. -/
theorem translate_eq : t.translate n address = match t.firstBus n with
    | none => address
    | some b => t.translate b (address + t.offset b address) := by
  induction hparents : t.parents n generalizing n address with
  | nil => rw [firstBus, translate, hparents]; rfl
  | cons p ps ih =>
    have hup := t.parents_parent n p ps hparents
    have htranslate : t.translate n address = t.translate p (address + t.offset p address) := by
      rw [translate, hparents, translate, hup]
      rfl
    by_cases hvalue : t.value p "ranges" = []
    · have hfirst : t.firstBus n = t.firstBus p := by
        rw [firstBus, hparents, List.find?_cons_of_neg (by simpa using hvalue), firstBus, hup]
      rw [htranslate, hfirst, offset_nil hvalue, add_none]
      exact ih hup
    · have hfirst : t.firstBus n = some p := by
        rw [firstBus, hparents, List.find?_cons_of_pos (by simpa using hvalue)]
      rw [htranslate, hfirst]

namespace StandardCounts

variable (h : t.StandardCounts w stray n)

include h

/-- `rt_ofw_translate_address` reads the entries. -/
theorem ofwRanges (hb : t.firstBus n = some b) : t.ofwRanges b = t.ranges b := by
  obtain ⟨haddr, hparent, hsize, hsum⟩ := h.ofw b hb
  rw [DeviceTree.ofwRanges, ofwReadRanges, ofwGroupCells, ranges, haddr, hparent, hsize]
  generalize t.addressCells b = addr at hsum ⊢
  generalize t.addressCells ((t.parents b).headD b) = parent at hsum ⊢
  generalize t.sizeCells b = size at hsum ⊢
  generalize t.value b "ranges" = value
  have hcells : ((addr : Int) + size + parent).bmod (2 ^ 32) = (addr + parent + size : Nat) := by
    rw [Int.bmod_eq_of_le (by omega) (by omega)]
    omega
  have hgroups : ((value.length / 4 : Nat) : Int).tdiv (addr + parent + size : Nat) =
      (value.length / 4 / (addr + parent + size) : Nat) := rfl
  rw [hcells, hgroups]
  by_cases hzero : addr + parent + size = 0
  · obtain ⟨rfl, rfl, rfl⟩ : addr = 0 ∧ parent = 0 ∧ size = 0 := by omega
    simp [busRanges, readRanges]
  · rw [if_neg (not_or.2 ⟨by omega, Int.not_lt.2 (Int.natCast_nonneg _)⟩), Int.toNat_natCast, busRanges_eq]
    rfl

theorem firstOffset (hb : t.firstBus n = some b) : t.firstOffset n address = t.offset b address := by
  have hvalue : t.value b "ranges" ≠ [] := by simpa using List.find?_some hb
  rw [DeviceTree.firstOffset, hb, offset, if_neg hvalue, ← h.ofwRanges hb]

/-- `rt_fdt_translate_address` reads the entries. -/
theorem fdt_eq (hparents : t.parents n = p :: ps) (hvalue : t.value p "ranges" ≠ []) :
    t.rtFdtTranslateAddress w stray n address =
      ((t.ranges p).find? fun e => e.contains address).map fun e => address + e.offset := by
  obtain ⟨haddr, hparent, hsize, hfits⟩ := h.fdt p ps hparents hvalue
  have hcounts : t.FdtCountsOk stray p := by
    rw [FdtCountsOk, haddr, hparent, hsize]
    omega
  have hranges : t.fdtRanges stray p = t.ranges p := by rw [fdtRanges, haddr, hparent, hsize, ranges]
  have hnarrow : ∀ e ∈ t.ranges p, (e.narrow w).contains address = e.contains address := by
    intro e he
    have hsame : (e.childSize.setWidth w).setWidth 64 = e.childSize := by
      refine BitVec.eq_of_toNat_eq ?_
      rw [BitVec.toNat_setWidth, BitVec.toNat_setWidth, Nat.mod_eq_of_lt (hfits e he), Nat.mod_eq_of_lt e.childSize.isLt]
    rw [BusRange.narrow, hsame]
  rw [(rtFdtTranslateAddress_eq hparents hvalue).1 hcounts, fdtEntry, hranges]
  exact congrArg _ (find_congr hnarrow)

end StandardCounts

theorem add_left_inj' {a x y : BitVec 64} (h : a + x = a + y) : x = y := by
  have := congrArg (· - a) h
  simpa [BitVec.add_comm a] using this

/-- With the counts of the standard, both functions give the address translated through every ancestor bus if and only if
one bus does it all. -/
theorem StandardCounts.translated_iff (h : t.StandardCounts w stray n) {table' : BusTable}
    (hofw : t.rtOfwTranslateAddress nr alloc table n (some "ranges") address = some (table', address + t.firstOffset n address)) :
    t.Translated w nr stray alloc table n address ↔ t.OneBus n address := by
  have hfdt : ∀ p ps, t.parents n = p :: ps → t.value p "ranges" = [] →
      t.rtFdtTranslateAddress w stray n address = some address := by
    intro p ps hparents hvalue
    rw [rtFdtTranslateAddress, hparents]
    exact if_pos hvalue
  have hleft : t.Translated w nr stray alloc table n address ↔ address + t.firstOffset n address = t.translate n address ∧
      t.rtFdtTranslateAddress w stray n address = some (t.translate n address) := by
    simp only [Translated, hofw, Option.some.injEq, Prod.mk.injEq, exists_and_right, exists_eq', true_and]
  rw [hleft, translate_eq]
  cases hparents : t.parents n with
  | nil =>
    have hb : t.firstBus n = none := by rw [firstBus, hparents]; rfl
    simp only [hb]
    refine iff_of_true ⟨?_, by rw [rtFdtTranslateAddress, hparents]⟩ ⟨fun b hb' => ?_, fun p ps hp => ?_, fun p ps b hp => ?_⟩
    · rw [DeviceTree.firstOffset, hb]
      exact add_none address
    · rw [hb] at hb'
      cases hb'
    · rw [hparents] at hp
      cases hp
    · rw [hparents] at hp
      cases hp
  | cons p ps =>
    by_cases hvalue : t.value p "ranges" = []
    · rw [hfdt p ps hparents hvalue]
      cases hb : t.firstBus n with
      | none =>
        refine iff_of_true ⟨?_, rfl⟩ ⟨fun b hb' => ?_, fun p' ps' hp hne => ?_, fun p ps b _ _ hb' => ?_⟩
        · rw [DeviceTree.firstOffset, hb]
          exact add_none address
        · rw [hb] at hb'
          cases hb'
        · obtain ⟨rfl, rfl⟩ := List.cons.inj (hparents.symm.trans hp)
          exact absurd hvalue hne
        · rw [hb] at hb'
          cases hb'
      | some b =>
        simp only [h.firstOffset hb]
        constructor
        · rintro ⟨habove, hnone⟩
          rw [← habove] at hnone
          have hzero := add_left_inj' ((add_none address).trans (Option.some.inj hnone))
          refine ⟨fun b' hb' => ?_, fun p' ps' hp hne => ?_, fun p' ps' b' _ _ hb' => ?_⟩
          · obtain rfl := Option.some.inj (hb.symm.trans hb')
            exact habove.symm
          · obtain ⟨rfl, rfl⟩ := List.cons.inj (hparents.symm.trans hp)
            exact absurd hvalue hne
          · obtain rfl := Option.some.inj (hb.symm.trans hb')
            exact hzero.symm
        · intro hone
          have hzero := hone.further p ps b hparents hvalue hb
          have habove := hone.above b hb
          rw [habove, hzero, add_none]
          exact ⟨rfl, rfl⟩
    · have hb : t.firstBus n = some p := by
        rw [firstBus, hparents, List.find?_cons_of_pos (by simpa using hvalue)]
      have hoffset : t.offset p address = busOffset (t.ranges p) address := if_neg hvalue
      rw [h.fdt_eq hparents hvalue]
      simp only [hb, h.firstOffset hb]
      constructor
      · rintro ⟨habove, hres⟩
        obtain ⟨e, he, -⟩ := Option.map_eq_some_iff.1 hres
        refine ⟨fun b' hb' => ?_, fun p' ps' hp _ => ?_, fun p' ps' b' hp hnil => ?_⟩
        · obtain rfl := Option.some.inj (hb.symm.trans hb')
          exact habove.symm
        · obtain ⟨rfl, rfl⟩ := List.cons.inj (hparents.symm.trans hp)
          exact ⟨e, List.mem_of_find?_eq_some he, List.find?_some (p := fun e : BusRange => e.contains address) he⟩
        · obtain ⟨rfl, rfl⟩ := List.cons.inj (hparents.symm.trans hp)
          exact absurd hnil hvalue
      · intro hone
        have habove := hone.above p hb
        obtain ⟨e, he⟩ := Option.isSome_iff_exists.1 (List.find?_isSome.2 (hone.parent p ps hparents hvalue))
        refine ⟨habove.symm, ?_⟩
        rw [habove, he, hoffset, busOffset, he]
        rfl

/-- A property that is a list of cells. -/
def cellProp (name : String) (cells : List Nat) : OfwProp :=
  ⟨name, cells.flatMap fun n =>
    [BitVec.ofNat 8 (n / 2 ^ 24), BitVec.ofNat 8 (n / 2 ^ 16), BitVec.ofNat 8 (n / 2 ^ 8), BitVec.ofNat 8 n]⟩

/-- A chain of nodes, the root first. -/
def chainTree (nodes : List (List OfwProp)) : DeviceTree where
  props n := nodes.getD n []
  parents n := (List.range n).reverse
  parents_parent n p ps h := by
    cases n with
    | zero => cases h
    | succ n =>
      rw [List.range_succ, List.reverse_append] at h
      obtain ⟨rfl, rfl⟩ := List.cons.inj h
      rfl

/-- One cell for an address and one for a size. -/
def oneCell : List OfwProp := [cellProp "#address-cells" [1], cellProp "#size-cells" [1]]

/-- A device below a bus at 0x1000 of a bus at 0xe0000000. -/
def nestedTree : DeviceTree :=
  chainTree [oneCell, cellProp "ranges" [0, 0xe0000000, 0x100000] :: oneCell,
    cellProp "ranges" [0, 0x1000, 0x100] :: oneCell, []]

/-- A device on a bus at 0xe0000000. -/
def socTree : DeviceTree := chainTree [oneCell, cellProp "ranges" [0, 0xe0000000, 0x100000] :: oneCell, []]

end DeviceTree

end RtThread
