import RtThread.Drivers.PciRegion

/-!
# `pci.c`: the base address registers of a device

`rt_pci_device_alloc_resource` makes one call of `rt_pci_region_alloc` for each register that the device has, with one
variable for the addresses. If these calls fit, the registers of all devices decode ranges that do not overlap
(`bars_apart`).
-/

namespace RtThread.Pci

/-- A device: its header type, and what its registers read after ones were written to them. -/
structure Device where
  hdrType : Nat
  bar : Nat → Nat
  rom : Nat
  bar_lt : ∀ i, bar i < 2 ^ 32
  rom_lt : rom < 2 ^ 32

/-- `bars_nr`. -/
def barsNr (hdrType : Nat) : Nat := if hdrType = 0 then 6 else if hdrType = 1 then 2 else 0

/-- A register that was programmed: its place in the configuration space, the words written to it and the next one, and
`pdev->resource`. -/
structure Bar where
  reg : Nat
  lo : Nat
  hi : Option Nat
  base : Nat
  size : Nat
  flags : Nat
  deriving DecidableEq

/-- The addresses that the device decodes. -/
def Bar.range (b : Bar) : Range := ⟨b.lo + b.hi.getD 0 * 2 ^ 32, b.size⟩

/-- What the loop asks for when it has read `cfg`, and `cfg64` from the next register. -/
def barRequest (t : Target) (prefetch : Bool) (cfg cfg64 : Nat) : Request :=
  if cfg % 2 = 1 then
    let size := cfg / 4 * 4
    { size := size &&& (2 ^ t.ubits - 1 - (size + (2 ^ t.ubits - 1)) % 2 ^ t.ubits), flags := busRegionFIo, mem64 := false }
  else
    let flags := if prefetch ∧ cfg / 8 % 2 = 1 then busRegionFPrefetch else busRegionFMem
    if cfg / 2 % 4 = 2 then
      let bar64 := cfg64 * 2 ^ 32 + cfg
      { size := (2 ^ 64 - bar64 % 2 ^ t.ubits / 16 * 16) % 2 ^ 64 % 2 ^ t.ubits, flags := flags, mem64 := true }
    else { size := (2 ^ 32 - cfg / 16 * 16) % 2 ^ 32, flags := flags, mem64 := false }

/-- The variables of `rt_pci_device_alloc_resource`, the regions, and the registers programmed so far. -/
structure Loop where
  i : Nat
  addr : Nat
  regions : List BusRegion
  bars : List Bar
  err : Int

/-- The request for the register `i`, if there is one. -/
def request (t : Target) (prefetch : Bool) (dev : Device) (i : Nat) : Option Request :=
  if i < barsNr dev.hdrType ∧ dev.bar i ≠ 0 ∧ dev.bar i ≠ 2 ^ 32 - 1 then
    some (barRequest t prefetch (dev.bar i) (dev.bar (i + 1)))
  else none

/-- The register is programmed with the address that is left in `addr`. -/
def program (t : Target) (reg addr : Nat) (q : Request) (r : BusRegion) : Bar where
  reg := reg
  lo := addr % 2 ^ 32
  hi := if q.mem64 then some (if t.sys64 then addr / 2 ^ 32 % 2 ^ 32 else 0) else none
  base :=
    if t.pio ∨ q.flags ≠ busRegionFIo then addr
    else (r.cpuAddr + (addr + (2 ^ 64 - r.phyAddr)) % 2 ^ t.ubits) % 2 ^ 64 % 2 ^ t.ubits
  size := q.size
  flags := q.flags

/-- One turn of the loop over the registers. -/
def barStep (t : Target) (prefetch : Bool) (dev : Device) (s : Loop) : Loop :=
  match request t prefetch dev s.i with
  | none => { s with i := s.i + 1 }
  | some q =>
    let x := regionAlloc t s.regions s.addr q
    match x.region.bind fun k => x.regions[k]? with
    | some r =>
      { i := if q.mem64 then s.i + 2 else s.i + 1
        addr := x.outAddr
        regions := x.regions
        bars := program t (0x10 + s.i * 4) x.outAddr q r :: s.bars
        err := s.err }
    | none => { s with i := s.i + 1, addr := x.outAddr, regions := x.regions, err := -1 }

/-- The request for the expansion ROM. -/
def romRequest (dev : Device) : Option Request :=
  if (dev.hdrType = 0 ∨ dev.hdrType = 1) ∧ dev.rom ≠ 0 then
    some { size := (2 ^ 32 - dev.rom / 2 * 2) % 2 ^ 32, flags := busRegionFMem, mem64 := false }
  else none

/-- The expansion ROM, after the loop. -/
def romStep (t : Target) (dev : Device) (s : Loop) : Loop :=
  match romRequest dev with
  | none => s
  | some q =>
    let x := regionAlloc t s.regions s.addr q
    match x.region.bind fun k => x.regions[k]? with
    | some r =>
      { s with
        addr := x.outAddr
        regions := x.regions
        bars := program t (if dev.hdrType = 0 then 0x30 else 0x38) x.outAddr q r :: s.bars }
    | none => { s with addr := x.outAddr, regions := x.regions }

/-- Whether the host bridge has a prefetchable region. -/
def hasPrefetch (rs : List BusRegion) : Bool := rs.any fun r => r.flags == busRegionFPrefetch

/-- The loop before turn `n`; a device has at most six registers. -/
def turns (t : Target) (rs : List BusRegion) (dev : Device) (n : Nat) : Loop :=
  (barStep t (hasPrefetch rs) dev)^[n] ⟨0, 0, rs, [], 0⟩

/-- `rt_pci_device_alloc_resource`. -/
def deviceAllocResource (t : Target) (rs : List BusRegion) (dev : Device) : Loop :=
  romStep t dev (turns t rs dev 6)

/-! ## A call that fits -/

variable {t : Target} {rs : List BusRegion} {dev : Device} {s : Loop} {q : Request} {n : Nat} {bars : List Bar}

/-- A request of a device that is served as it should be: a power of two, for which the region has room; an address above
4 GiB can be written. -/
structure Served (t : Target) (rs : List BusRegion) (q : Request) : Prop where
  pow2 : Pow2 t q.size
  fits : Fits t rs q
  high : q.mem64 = true → t.sys64 = true ∨ stopAt t q rs = none

instance (t : Target) (rs : List BusRegion) (q : Request) : Decidable (Served t rs q) :=
  decidable_of_iff (Pow2 t q.size ∧ Fits t rs q ∧ (q.mem64 = true → t.sys64 = true ∨ stopAt t q rs = none))
    ⟨fun h => ⟨h.1, h.2.1, h.2.2⟩, fun h => ⟨h.pow2, h.fits, h.high⟩⟩

theorem program_range {addr reg : Nat} {r : BusRegion} (ha : addr < 2 ^ 64)
    (hm : q.mem64 = decide (upper32Bits addr ≠ 0)) (hs : q.mem64 = true → t.sys64 = true) :
    (program t reg addr q r).range = ⟨addr, q.size⟩ := by
  rw [Bar.range, program]
  cases h : q.mem64 with
  | true =>
    rw [if_pos rfl, if_pos (hs h), Option.getD_some]
    congr 1
    dsimp only
    omega
  | false =>
    rw [h] at hm
    have h0 : upper32Bits addr = 0 := not_not.1 (of_decide_eq_false hm.symm)
    rw [upper32Bits] at h0
    rw [if_neg (by decide), Option.getD_none]
    congr 1
    dsimp only
    omega

theorem place_lt (t : Target) (r : BusRegion) (size : Nat) : place t r size < 2 ^ 64 :=
  Nat.lt_of_lt_of_le (Nat.mod_lt _ (Nat.two_pow_pos _)) (Nat.pow_le_pow_right (by omega) t.ubits_le.2)

/-- What a request that is served gets. -/
theorem Served.cases (h : Served t rs q) (I : Inv t ⟨rs, bars.map Bar.range⟩) (addr : Nat) :
    regionAlloc t rs addr q = ⟨rs, addr, none⟩ ∨
    ∃ rs' addr' k r, regionAlloc t rs addr q = ⟨rs', addr', some k⟩ ∧ rs'[k]? = some r ∧
      ∀ reg, Inv t ⟨rs', (program t reg addr' q r :: bars).map Bar.range⟩ := by
  cases hs : stopAt t q rs with
  | none => exact .inl (regionAlloc_none hs addr)
  | some r =>
    obtain ⟨ds, es, hstop⟩ := stop_of_stopAt hs
    have hmem : r ∈ rs := by rw [hstop.split]; simp
    obtain ⟨k, hk, hsize⟩ := h.pow2
    have hroom := h.fits r hs
    rw [hsize] at hroom
    obtain ⟨-, hin, -⟩ := hroom.spec hk (I.busStart_lt r hmem) (I.phyAddr_lt r hmem)
    rw [← hsize] at hin
    have hx := regionAlloc_place hstop hin addr
    have hclass : q.mem64 = decide (upper32Bits (place t r q.size) ≠ 0) := by
      by_contra hne
      exact hstop.here fun _ => ⟨hin, hne⟩
    have hsys (hm : q.mem64 = true) : t.sys64 = true := by
      rcases h.high hm with h64 | hnone
      · exact h64
      · rw [hs] at hnone; cases hnone
    refine .inr ⟨_, _, _, { r with busStart := (place t r q.size + q.size) % 2 ^ 64 }, hx, ?_, fun reg => ?_⟩
    · rw [List.getElem?_append_right (Nat.le_refl _), Nat.sub_self, List.getElem?_cons_zero]
    · have hstep := I.step (l := (addr, q)) ⟨h.pow2, rfl⟩ h.fits
      rw [hx] at hstep
      rw [List.map_cons, program_range (place_lt t r q.size) hclass hsys]
      exact hstep

/-! ## All devices -/

/-- Every request that the device makes is served. -/
structure DeviceServed (t : Target) (rs : List BusRegion) (dev : Device) : Prop where
  bars : ∀ n < 6, ∀ q ∈ request t (hasPrefetch rs) dev (turns t rs dev n).i, Served t (turns t rs dev n).regions q
  rom : ∀ q ∈ romRequest dev, Served t (turns t rs dev 6).regions q

instance (t : Target) (rs : List BusRegion) (dev : Device) : Decidable (DeviceServed t rs dev) :=
  decidable_of_iff ((∀ n < 6, ∀ q ∈ request t (hasPrefetch rs) dev (turns t rs dev n).i, Served t (turns t rs dev n).regions q) ∧
      ∀ q ∈ romRequest dev, Served t (turns t rs dev 6).regions q)
    ⟨fun h => ⟨h.1, h.2⟩, fun h => ⟨h.bars, h.rom⟩⟩

theorem inv_barStep {prefetch : Bool} (I : Inv t ⟨s.regions, (s.bars ++ bars).map Bar.range⟩)
    (h : ∀ q ∈ request t prefetch dev s.i, Served t s.regions q) :
    Inv t ⟨(barStep t prefetch dev s).regions, ((barStep t prefetch dev s).bars ++ bars).map Bar.range⟩ := by
  unfold barStep
  cases hq : request t prefetch dev s.i with
  | none => exact I
  | some q =>
    rcases (h q hq).cases I s.addr with hx | ⟨rs', addr', k, r, hx, hr, hI⟩
    · dsimp only
      rw [hx]
      exact I
    · dsimp only
      rw [hx]
      dsimp only [Option.bind_some]
      rw [hr]
      exact hI _

theorem inv_romStep (I : Inv t ⟨s.regions, (s.bars ++ bars).map Bar.range⟩)
    (h : ∀ q ∈ romRequest dev, Served t s.regions q) :
    Inv t ⟨(romStep t dev s).regions, ((romStep t dev s).bars ++ bars).map Bar.range⟩ := by
  unfold romStep
  cases hq : romRequest dev with
  | none => exact I
  | some q =>
    rcases (h q hq).cases I s.addr with hx | ⟨rs', addr', k, r, hx, hr, hI⟩
    · dsimp only
      rw [hx]
      exact I
    · dsimp only
      rw [hx]
      dsimp only [Option.bind_some]
      rw [hr]
      exact hI _

/-- The regions of a host bridge, and the registers that were programmed on all devices behind it. -/
structure Bridge where
  regions : List BusRegion
  bars : List Bar

/-- A device is set up. -/
def Bridge.setup (t : Target) (b : Bridge) (dev : Device) : Bridge where
  regions := (deviceAllocResource t b.regions dev).regions
  bars := (deviceAllocResource t b.regions dev).bars ++ b.bars

theorem inv_turns {b : Bridge} (I : Inv t ⟨b.regions, b.bars.map Bar.range⟩) (h : DeviceServed t b.regions dev)
    (hn : n ≤ 6) : Inv t ⟨(turns t b.regions dev n).regions, ((turns t b.regions dev n).bars ++ b.bars).map Bar.range⟩ := by
  induction n with
  | zero => exact I
  | succ n ih =>
    have hI := inv_barStep (ih (by omega)) (h.bars n (by omega))
    rw [turns, Function.iterate_succ_apply']
    exact hI

theorem inv_setup {b : Bridge} (I : Inv t ⟨b.regions, b.bars.map Bar.range⟩) (h : DeviceServed t b.regions dev) :
    Inv t ⟨(b.setup t dev).regions, (b.setup t dev).bars.map Bar.range⟩ :=
  inv_romStep (inv_turns I h (Nat.le_refl 6)) h.rom

/-- If every request is served, the registers of all devices decode ranges that do not overlap. -/
theorem bars_apart (h : Sane rs) {devs : List Device} {b : Bridge}
    (hr : Runs.Run (fun b dev b' => b' = b.setup t dev ∧ DeviceServed t b.regions dev) ⟨(regionSetup t rs).1, []⟩ devs b) :
    b.bars.Pairwise fun b b' => Apart b.range b'.range := by
  have I := hr.invariant (I := fun b => Inv t ⟨b.regions, b.bars.map Bar.range⟩) (h.inv t) fun b dev b' I hs => by
    rw [hs.1]
    exact inv_setup I hs.2
  exact List.pairwise_map.1 I.apart

/-- Where the windows of a host bridge keep what they promise: a run of calls keeps the contract exactly as long as the
region where a call stops has room, and the registers of the devices do not overlap as long as their requests are served. -/
theorem windows_iff (h : Sane rs) :
    (∀ ls s, Runs.Run (fun s l s' => Step t s l s' ∧ Contract t s l.2) ⟨(regionSetup t rs).1, []⟩ ls s ↔
      Runs.Run (fun s l s' => Step t s l s' ∧ Fits t s.regions l.2) ⟨(regionSetup t rs).1, []⟩ ls s) ∧
    ∀ devs (b : Bridge), Runs.Run (fun b dev b' => b' = b.setup t dev ∧ DeviceServed t b.regions dev) ⟨(regionSetup t rs).1, []⟩
      devs b → b.bars.Pairwise fun b b' => Apart b.range b'.range :=
  ⟨fun _ _ => run_contract_iff h, fun _ _ => bars_apart h⟩

/-- A 64-bit target. -/
def target64 : Target := ⟨64, true, false, .inr rfl, fun _ => rfl⟩

/-- A window of 16 KiB for memory below 4 GiB, and a prefetchable one above. -/
def windows64 : List BusRegion := [⟨0x10000000, 0x10000000, 0x4000, 0, 0⟩, ⟨0x8000000000, 0x8000000000, 0x100000, 0, 8⟩]

theorem sane_windows64 : Sane windows64 := ⟨by simp [windows64, Apart, BusRegion.range], by simp [windows64], by simp [windows64]⟩

/-- A device with a register of 4 KiB, one of 8 KiB and 64 bits, and one of 4 KiB. -/
def dev64 : Device where
  hdrType := 0
  bar i := if i = 0 then 0xfffff000 else if i = 1 then 0xffffe00c else if i = 2 then 0xffffffff else
    if i = 3 then 0xfffff000 else 0
  rom := 0
  bar_lt i := by split_ifs <;> decide
  rom_lt := by decide

theorem windows_iff_windows64 :
    ((∀ ls s, Runs.Run (fun s l s' => Step target64 s l s' ∧ Contract target64 s l.2)
        ⟨(regionSetup target64 windows64).1, []⟩ ls s ↔
      Runs.Run (fun s l s' => Step target64 s l s' ∧ Fits target64 s.regions l.2)
        ⟨(regionSetup target64 windows64).1, []⟩ ls s) ∧
    ∀ devs (b : Bridge), Runs.Run (fun b dev b' => b' = b.setup target64 dev ∧ DeviceServed target64 b.regions dev)
      ⟨(regionSetup target64 windows64).1, []⟩ devs b → b.bars.Pairwise fun b b' => Apart b.range b'.range) ∧
    ∃ b : Bridge, Runs.Run (fun b dev b' => b' = b.setup target64 dev ∧ DeviceServed target64 b.regions dev)
      ⟨(regionSetup target64 windows64).1, []⟩ [dev64] b ∧
        b.bars.map Bar.range = [⟨0x10001000, 0x1000⟩, ⟨0x8000000000, 0x2000⟩, ⟨0x10000000, 0x1000⟩] :=
  ⟨windows_iff sane_windows64, _, .snoc .nil ⟨rfl, by decide +kernel⟩, by decide⟩

/-- Two registers of 16 KiB. -/
def devLarge : Device where
  hdrType := 0
  bar i := if i < 2 then 0xffffc000 else 0
  rom := 0
  bar_lt i := by split_ifs <;> decide
  rom_lt := by decide

/-- The second register does not fit, and both decode the same range. -/
theorem not_windows :
    ¬∀ (t : Target) (rs : List BusRegion), Sane rs →
      (∀ ls s q, Runs.Run (Step t) ⟨(regionSetup t rs).1, []⟩ ls s → Pow2 t q.size → Contract t s q) ∧
        ∀ devs (b : Bridge), Runs.Run (fun b dev b' => b' = b.setup t dev) ⟨(regionSetup t rs).1, []⟩ devs b →
          b.bars.Pairwise fun b b' => Apart b.range b'.range := by
  intro hall
  have h := (hall target64 windows64 sane_windows64).2 [devLarge] _ (.snoc .nil rfl)
  have hbars : ((⟨(regionSetup target64 windows64).1, []⟩ : Bridge).setup target64 devLarge).bars.map Bar.range =
      [⟨0x10000000, 0x4000⟩, ⟨0x10000000, 0x4000⟩] := by decide
  have hpw := List.pairwise_map.2 h
  rw [hbars] at hpw
  exact absurd ((List.pairwise_cons.1 hpw).1 _ List.mem_cons_self) (by simp [Apart])

end RtThread.Pci
