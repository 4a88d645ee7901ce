import Mathlib.Algebra.Group.Nat.Defs
import Mathlib.Data.List.Basic
import RtThread.Lib.Runs

/-!
# `pci.c`: windows of a host bridge

`rt_pci_region_alloc` takes the next address of a region that is a multiple of the size. It stops at the first region of
the kind whose 32-bit or 64-bit address class is not the wrong one, and returns this region also if the range does not
fit (`Stop`). In a run, the calls keep their contract exactly as long as the range fits there (`run_contract_iff`).
-/

namespace RtThread.Pci

/-- What the target decides: the width of `rt_ubase_t`, `RT_PCI_SYS_64BIT` and `ARCH_SUPPORT_PIO`. -/
structure Target where
  ubits : Nat
  sys64 : Bool
  pio : Bool
  ubits_eq : ubits = 32 ∨ ubits = 64
  sys64_ubits : sys64 = true → ubits = 64

/-- `struct rt_pci_bus_region`. -/
structure BusRegion where
  phyAddr : Nat
  cpuAddr : Nat
  size : Nat
  busStart : Nat
  flags : Nat
  deriving DecidableEq

/-- The three kinds of regions. -/
def busRegionFMem : Nat := 0
def busRegionFIo : Nat := 1
def busRegionFPrefetch : Nat := 8

/-- `rt_pci_region_setup`: the regions of the host bridge, and the error code. -/
def regionSetup (t : Target) (regions : List BusRegion) : List BusRegion × Int :=
  (regions.map fun r => { r with busStart := max 0x1000 (r.phyAddr % 2 ^ t.ubits) },
    if regions = [] then -4 else 0)

/-- `rt_upper_32_bits`. -/
def upper32Bits (a : Nat) : Nat := a / 2 ^ 32 % 2 ^ 32

/-- `(void *)(((region->bus_start - 1) | (size - 1)) + 1)`. -/
def place (t : Target) (r : BusRegion) (size : Nat) : Nat :=
  (((r.busStart + (2 ^ 64 - 1)) % 2 ^ 64 ||| (size + (2 ^ t.ubits - 1)) % 2 ^ t.ubits) + 1) % 2 ^ 64 % 2 ^ t.ubits

/-- `(rt_uint64_t)addr - region->phy_addr + size <= region->size`. -/
def InRegion (t : Target) (r : BusRegion) (size : Nat) : Prop :=
  (place t r size + (2 ^ 64 - r.phyAddr) + size) % 2 ^ 64 ≤ r.size

instance (t : Target) (r : BusRegion) (size : Nat) : Decidable (InRegion t r size) := by
  unfold InRegion; infer_instance

/-- The arguments of `rt_pci_region_alloc`. -/
structure Request where
  size : Nat
  flags : Nat
  mem64 : Bool
  deriving DecidableEq

/-- The loop of `rt_pci_region_alloc`: the regions, which of them is returned, and what `*out_addr` is set to. -/
def regionLoop (t : Target) (q : Request) : List BusRegion → List BusRegion × Option Nat × Option Nat
  | [] => ([], none, none)
  | r :: rs =>
    let again : List BusRegion × Option Nat × Option Nat :=
      let x := regionLoop t q rs
      (r :: x.1, x.2.1.map (· + 1), x.2.2)
    if r.flags = q.flags ∧ 0 < r.size then
      let addr := place t r q.size
      if InRegion t r q.size then
        let addr64 := decide (upper32Bits addr ≠ 0)
        if q.mem64 ≠ addr64 then again
        else ({ r with busStart := (addr + q.size) % 2 ^ 64 } :: rs, some 0, some addr)
      else (r :: rs, some 0, none)
    else again

/-- What `rt_pci_region_alloc` leaves and returns: the regions, `*out_addr`, and which region. -/
structure AllocResult where
  regions : List BusRegion
  outAddr : Nat
  region : Option Nat

/-- `rt_pci_region_alloc`. -/
def regionAlloc (t : Target) (regions : List BusRegion) (outAddr : Nat) (q : Request) : AllocResult :=
  let x := regionLoop t q regions
  { regions := x.1, outAddr := x.2.2.getD outAddr, region := x.2.1 }

/-! ## Where a call stops -/

variable {t : Target} {q : Request} {rs rs' ds es : List BusRegion} {r r' d : BusRegion} {k x y : Nat}

/-- The loop goes on after the region. -/
def Skips (t : Target) (q : Request) (r : BusRegion) : Prop :=
  r.flags = q.flags ∧ 0 < r.size → InRegion t r q.size ∧ q.mem64 ≠ decide (upper32Bits (place t r q.size) ≠ 0)

instance (t : Target) (q : Request) (r : BusRegion) : Decidable (Skips t q r) := by unfold Skips; infer_instance

/-- The region at which the loop stops. -/
def stopAt (t : Target) (q : Request) (rs : List BusRegion) : Option BusRegion := rs.find? fun r => !decide (Skips t q r)

/-- The loop stops at the region `r`, which stands between `ds` and `es`. -/
structure Stop (t : Target) (q : Request) (rs ds : List BusRegion) (r : BusRegion) (es : List BusRegion) : Prop where
  split : rs = ds ++ r :: es
  before : ∀ d ∈ ds, Skips t q d
  here : ¬Skips t q r

theorem skips_of_stopAt (h : stopAt t q rs = none) : ∀ r ∈ rs, Skips t q r := by
  intro r hr
  simpa using List.find?_eq_none.1 h r hr

theorem stop_of_stopAt (h : stopAt t q rs = some r) : ∃ ds es, Stop t q rs ds r es := by
  obtain ⟨hr, ds, es, hrs, hds⟩ := List.find?_eq_some_iff_append.1 h
  exact ⟨ds, es, hrs, fun d hd => by simpa using hds d hd, by simpa using hr⟩

theorem regionLoop_skip (hr : Skips t q r) : regionLoop t q (r :: rs) =
    (r :: (regionLoop t q rs).1, (regionLoop t q rs).2.1.map (· + 1), (regionLoop t q rs).2.2) := by
  rw [regionLoop]
  split
  · rename_i hm
    obtain ⟨h1, h2⟩ := hr hm
    rw [if_pos h1, if_pos h2]
  · rfl

/-- Nothing is found. -/
theorem regionLoop_none (h : ∀ r ∈ rs, Skips t q r) : regionLoop t q rs = (rs, none, none) := by
  induction rs with
  | nil => rfl
  | cons r rs ih =>
    obtain ⟨hr, hrs⟩ := List.forall_mem_cons.1 h
    rw [regionLoop_skip hr, ih hrs]
    rfl

/-- A range is taken from the region where the loop stops, or the region is returned as it is. -/
theorem regionLoop_stop (h : Stop t q rs ds r es) : regionLoop t q rs =
    if InRegion t r q.size then
      (ds ++ { r with busStart := (place t r q.size + q.size) % 2 ^ 64 } :: es, some ds.length, some (place t r q.size))
    else (rs, some ds.length, none) := by
  obtain ⟨rfl, hb, hr⟩ := h
  induction ds with
  | nil =>
    unfold Skips at hr
    push Not at hr
    obtain ⟨hm, hr⟩ := hr
    rw [List.nil_append, regionLoop, if_pos hm]
    split
    · rename_i hin
      rw [if_neg fun hne => hne (hr hin)]
      rfl
    · rfl
  | cons d ds ih =>
    obtain ⟨hd, hds⟩ := List.forall_mem_cons.1 hb
    rw [List.cons_append, regionLoop_skip hd, ih hds]
    split <;> rfl

/-! ## Multiples of a power of two -/

/-- The next multiple of `size` from `a` on. -/
def alignUp (a size : Nat) : Nat := (a + size - 1) / size * size

theorem dvd_alignUp (a size : Nat) : size ∣ alignUp a size := Nat.dvd_mul_left size _

theorem le_alignUp (hs : 0 < size) : x ≤ alignUp x size := by
  have h := Nat.div_add_mod (x + size - 1) size
  have hm := Nat.mod_lt (x + size - 1) hs
  rw [Nat.mul_comm] at h
  rw [alignUp]
  omega

theorem alignUp_le (hs : 0 < size) (hd : size ∣ y) (h : x ≤ y) : alignUp x size ≤ y := by
  obtain ⟨m, rfl⟩ := hd
  rw [alignUp, Nat.mul_comm]
  refine Nat.mul_le_mul_left size (Nat.le_of_lt_succ ((Nat.div_lt_iff_lt_mul hs).2 ?_))
  rw [Nat.succ_mul, Nat.mul_comm]
  omega

theorem or_two_pow_sub_one (x k : Nat) : x ||| (2 ^ k - 1) = x / 2 ^ k * 2 ^ k + (2 ^ k - 1) := by
  have hk := Nat.two_pow_pos k
  have hd : (x ||| (2 ^ k - 1)) / 2 ^ k = x / 2 ^ k := by
    rw [Nat.or_div_two_pow, Nat.div_eq_of_lt (show 2 ^ k - 1 < 2 ^ k by omega), Nat.or_zero]
  have hm : (x ||| (2 ^ k - 1)) % 2 ^ k = 2 ^ k - 1 := by
    rw [Nat.or_mod_two_pow, Nat.mod_eq_of_lt (show 2 ^ k - 1 < 2 ^ k by omega)]
    apply Nat.le_antisymm
    · exact Nat.le_sub_one_of_lt (Nat.or_lt_two_pow (Nat.mod_lt _ hk) (by omega))
    · exact Nat.right_le_or
  have h := Nat.div_add_mod (x ||| (2 ^ k - 1)) (2 ^ k)
  rw [hd, hm, Nat.mul_comm] at h
  exact h.symm

theorem Target.ubits_le (t : Target) : 32 ≤ t.ubits ∧ t.ubits ≤ 64 := by
  rcases t.ubits_eq with h | h <;> omega

/-- The range starts at the next multiple, in the width of a pointer. -/
theorem place_eq (hb : r.busStart < 2 ^ 64) (hk : k < t.ubits) :
    place t r (2 ^ k) = alignUp r.busStart (2 ^ k) % 2 ^ t.ubits := by
  have hu := t.ubits_le
  have hpos := Nat.two_pow_pos k
  have hlt : 2 ^ k < 2 ^ t.ubits := Nat.pow_lt_pow_right (by omega) hk
  have hdvd : 2 ^ t.ubits ∣ 2 ^ 64 := Nat.pow_dvd_pow 2 hu.2
  have hsize : (2 ^ k + (2 ^ t.ubits - 1)) % 2 ^ t.ubits = 2 ^ k - 1 := by
    rw [show 2 ^ k + (2 ^ t.ubits - 1) = (2 ^ k - 1) + 2 ^ t.ubits by omega, Nat.add_mod_right,
      Nat.mod_eq_of_lt (by omega)]
  rw [place, hsize, or_two_pow_sub_one, Nat.mod_mod_of_dvd _ hdvd, Nat.add_assoc, Nat.sub_add_cancel hpos]
  rcases Nat.eq_zero_or_pos r.busStart with h0 | h0
  · -- The subtraction wraps, and so does the addition.
    obtain ⟨m, hm⟩ := Nat.pow_dvd_pow 2 (show k ≤ 64 by omega)
    have hq : (2 ^ 64 - 1) / 2 ^ k * 2 ^ k + 2 ^ k = 2 ^ 64 := by
      have hm0 : 0 < m := Nat.pos_of_ne_zero fun h => by rw [h] at hm; simp at hm
      have hdiv : (2 ^ 64 - 1) / 2 ^ k = m - 1 := by
        rw [hm, Nat.div_eq_iff hpos]
        obtain ⟨m, rfl⟩ := Nat.exists_eq_add_one_of_ne_zero (Nat.ne_of_gt hm0)
        rw [Nat.add_sub_cancel, Nat.mul_comm m, Nat.mul_succ]
        omega
      rw [hdiv, ← Nat.succ_mul, Nat.succ_eq_add_one, Nat.sub_add_cancel hm0, Nat.mul_comm, ← hm]
    have hz : alignUp 0 (2 ^ k) = 0 := Nat.eq_zero_of_le_zero (alignUp_le hpos (Nat.dvd_zero _) (Nat.le_refl 0))
    rw [h0, hz, Nat.zero_add, Nat.mod_eq_of_lt (show 2 ^ 64 - 1 < 2 ^ 64 by omega), hq,
      Nat.mod_eq_zero_of_dvd hdvd, Nat.zero_mod]
  · have hsub : (r.busStart + (2 ^ 64 - 1)) % 2 ^ 64 = r.busStart - 1 := by
      rw [show r.busStart + (2 ^ 64 - 1) = (r.busStart - 1) + 2 ^ 64 by omega, Nat.add_mod_right,
        Nat.mod_eq_of_lt (by omega)]
    rw [hsub, ← Nat.succ_mul, Nat.succ_eq_add_one, ← Nat.add_div_right _ hpos, alignUp,
      show r.busStart - 1 + 2 ^ k = r.busStart + 2 ^ k - 1 by omega]

/-! ## The contract of a call -/

/-- The addresses from `start` on, `size` of them. -/
structure Range where
  start : Nat
  size : Nat
  deriving DecidableEq

/-- The ranges do not overlap. -/
def Apart (g g' : Range) : Prop := g.start + g.size ≤ g'.start ∨ g'.start + g'.size ≤ g.start

/-- The addresses of a region. -/
def BusRegion.range (r : BusRegion) : Range := ⟨r.phyAddr, r.size⟩

/-- The regions, with the ranges that were returned. -/
structure Windows where
  regions : List BusRegion
  given : List Range

/-- A returned range is a multiple of its size, inside the region as it was set up, and apart from those returned before;
a call that returns `RT_NULL` changes nothing. -/
def AllocResult.Ok (x : AllocResult) (s : Windows) (q : Request) (outAddr : Nat) : Prop :=
  match x.region with
  | some i => ∃ r, s.regions[i]? = some r ∧ q.size ∣ x.outAddr ∧ max 0x1000 r.phyAddr ≤ x.outAddr ∧
      x.outAddr + q.size ≤ r.phyAddr + r.size ∧ ∀ g ∈ s.given, Apart ⟨x.outAddr, q.size⟩ g
  | none => x.regions = s.regions ∧ x.outAddr = outAddr

/-- What a call promises, whatever `*out_addr` is before it. -/
def Contract (t : Target) (s : Windows) (q : Request) : Prop :=
  ∀ outAddr, (regionAlloc t s.regions outAddr q).Ok s q outAddr

/-- The region has room for the next multiple of the size. -/
def Room (t : Target) (r : BusRegion) (size : Nat) : Prop :=
  max 0x1000 r.phyAddr ≤ alignUp r.busStart size ∧ alignUp r.busStart size + size ≤ r.phyAddr + r.size ∧
    alignUp r.busStart size < 2 ^ t.ubits

instance (t : Target) (r : BusRegion) (size : Nat) : Decidable (Room t r size) := by unfold Room; infer_instance

/-- If the loop stops at a region, the region has room. -/
def Fits (t : Target) (rs : List BusRegion) (q : Request) : Prop := ∀ r ∈ stopAt t q rs, Room t r q.size

instance (t : Target) (rs : List BusRegion) (q : Request) : Decidable (Fits t rs q) := by unfold Fits; infer_instance

/-- A power of two that `rt_size_t` can hold. -/
def Pow2 (t : Target) (size : Nat) : Prop := ∃ k < t.ubits, size = 2 ^ k

instance (t : Target) (size : Nat) : Decidable (Pow2 t size) := by unfold Pow2; infer_instance

/-- The regions stand apart and do not wrap; what was returned lies in front of the next free address of its region, or
the region is used up to the last address. -/
structure Inv (t : Target) (s : Windows) : Prop where
  regions : s.regions.Pairwise fun r r' => Apart r.range r'.range
  phyAddr_lt : ∀ r ∈ s.regions, r.phyAddr < 2 ^ 64
  end_le : ∀ r ∈ s.regions, r.phyAddr + r.size ≤ 2 ^ 64
  busStart_le : ∀ r ∈ s.regions, r.busStart ≤ 2 ^ t.ubits
  busStart_lt : ∀ r ∈ s.regions, r.busStart < 2 ^ 64
  given : ∀ g ∈ s.given, ∃ r ∈ s.regions, r.phyAddr ≤ g.start ∧ g.start + g.size ≤ r.phyAddr + r.size ∧
    (g.start + g.size ≤ r.busStart ∨ r.busStart = 0)
  apart : s.given.Pairwise Apart

variable {s s' : Windows}

theorem Apart.symm {g g' : Range} (h : Apart g g') : Apart g' g := Or.symm h

theorem alignUp_zero {size : Nat} (hs : 0 < size) : alignUp 0 size = 0 :=
  Nat.eq_zero_of_le_zero (alignUp_le hs (Nat.dvd_zero _) (Nat.le_refl 0))

/-- What a region with room gives. -/
theorem Room.spec (hroom : Room t r (2 ^ k)) (hk : k < t.ubits) (hb : r.busStart < 2 ^ 64)
    (hphy : r.phyAddr < 2 ^ 64) :
    place t r (2 ^ k) = alignUp r.busStart (2 ^ k) ∧ InRegion t r (2 ^ k) ∧
      alignUp r.busStart (2 ^ k) + 2 ^ k ≤ 2 ^ t.ubits ∧ r.busStart ≠ 0 := by
  obtain ⟨h1, h2, h3⟩ := hroom
  have hpos := Nat.two_pow_pos k
  have hplace : place t r (2 ^ k) = alignUp r.busStart (2 ^ k) := by rw [place_eq hb hk, Nat.mod_eq_of_lt h3]
  refine ⟨hplace, ?_, ?_, fun h0 => ?_⟩
  · rw [InRegion, hplace]
    rw [show alignUp r.busStart (2 ^ k) + (2 ^ 64 - r.phyAddr) + 2 ^ k =
      (alignUp r.busStart (2 ^ k) + 2 ^ k - r.phyAddr) + 2 ^ 64 by omega, Nat.add_mod_right]
    exact Nat.le_trans (Nat.mod_le _ _) (by omega)
  · -- Two multiples of the size.
    have hd : 2 ^ k ∣ 2 ^ t.ubits - alignUp r.busStart (2 ^ k) :=
      Nat.dvd_sub (Nat.pow_dvd_pow 2 (Nat.le_of_lt hk)) (dvd_alignUp _ _)
    have := Nat.le_of_dvd (by omega) hd
    omega
  · rw [h0, alignUp_zero hpos] at h1
    omega

theorem Stop.getElem? (h : Stop t q rs ds r es) : rs[ds.length]? = some r := by
  rw [h.split, List.getElem?_append_right (Nat.le_refl _), Nat.sub_self]
  rfl

theorem regionAlloc_eq {region addr : Option Nat} (h : regionLoop t q rs = (rs', region, addr)) (outAddr : Nat) :
    regionAlloc t rs outAddr q = ⟨rs', addr.getD outAddr, region⟩ := by
  rw [regionAlloc, h]

theorem regionAlloc_none (h : stopAt t q rs = none) (outAddr : Nat) : regionAlloc t rs outAddr q = ⟨rs, outAddr, none⟩ :=
  regionAlloc_eq (regionLoop_none (skips_of_stopAt h)) outAddr

/-- The range does not fit. -/
theorem regionAlloc_stale (h : Stop t q rs ds r es) (hin : ¬InRegion t r q.size) (outAddr : Nat) :
    regionAlloc t rs outAddr q = ⟨rs, outAddr, some ds.length⟩ :=
  regionAlloc_eq ((regionLoop_stop h).trans (if_neg hin)) outAddr

theorem regionAlloc_place (h : Stop t q rs ds r es) (hin : InRegion t r q.size) (outAddr : Nat) :
    regionAlloc t rs outAddr q = ⟨ds ++ { r with busStart := (place t r q.size + q.size) % 2 ^ 64 } :: es,
      place t r q.size, some ds.length⟩ := by
  rw [regionAlloc_eq ((regionLoop_stop h).trans (if_pos hin)), Option.getD_some]

/-- In a good state, a call keeps the contract exactly if the region where the loop stops has room. -/
theorem Inv.contract_iff (I : Inv t s) (hq : Pow2 t q.size) : Contract t s q ↔ Fits t s.regions q := by
  obtain ⟨k, hk, hsize⟩ := hq
  have hpos := Nat.two_pow_pos k
  cases hs : stopAt t q s.regions with
  | none =>
    constructor
    · intro _ r hr
      rw [hs] at hr
      cases hr
    · intro _ outAddr
      rw [regionAlloc_none hs]
      exact ⟨rfl, rfl⟩
  | some r =>
    obtain ⟨ds, es, hstop⟩ := stop_of_stopAt hs
    have hmem : r ∈ s.regions := by rw [hstop.split]; simp
    have hb := I.busStart_lt r hmem
    constructor
    · intro hc r' hr'
      cases hs.symm.trans hr'
      have hc := hc 0
      by_cases hin : InRegion t r q.size
      · rw [regionAlloc_place hstop hin] at hc
        obtain ⟨r1, hr1, -, hlo, hhi, -⟩ := hc
        cases hstop.getElem?.symm.trans hr1
        dsimp only at hlo hhi
        rw [hsize, place_eq hb hk] at hlo hhi
        -- The next multiple does not exceed the width of a pointer, and is not its bound.
        have hle := alignUp_le hpos (Nat.pow_dvd_pow 2 (Nat.le_of_lt hk)) (I.busStart_le r hmem)
        have hne : alignUp r.busStart (2 ^ k) ≠ 2 ^ t.ubits := fun h => by
          rw [h, Nat.mod_self] at hlo
          omega
        have hlt := Nat.lt_of_le_of_ne hle hne
        rw [Nat.mod_eq_of_lt hlt] at hlo hhi
        rw [hsize]
        exact ⟨hlo, hhi, hlt⟩
      · rw [regionAlloc_stale hstop hin] at hc
        obtain ⟨r1, -, -, hlo, -⟩ := hc
        dsimp only at hlo
        omega
    · intro hfits outAddr
      have hroom := hfits r hs
      rw [hsize] at hroom
      obtain ⟨hplace, hin, -, h0⟩ := hroom.spec hk hb (I.phyAddr_lt r hmem)
      obtain ⟨h1, h2, -⟩ := hroom
      rw [← hsize] at hin hplace
      rw [regionAlloc_place hstop hin, hplace, hsize]
      refine ⟨r, hstop.getElem?, by rw [hsize]; exact dvd_alignUp _ _, h1, by rw [hsize]; exact h2, fun g hg => ?_⟩
      obtain ⟨r', hr', h3, h4, h5⟩ := I.given g hg
      have hle := le_alignUp (x := r.busStart) hpos
      have hap (hap : Apart r.range r'.range) : Apart ⟨alignUp r.busStart (2 ^ k), 2 ^ k⟩ g := by
        simp only [Apart, BusRegion.range] at hap ⊢
        omega
      rw [hstop.split, List.mem_append, List.mem_cons] at hr'
      have hpw := I.regions
      rw [hstop.split] at hpw
      obtain ⟨-, hpw2, hpw3⟩ := List.pairwise_append.1 hpw
      rw [hsize]
      rcases hr' with hr' | rfl | hr'
      · exact hap (hpw3 r' hr' r (by simp)).symm
      · right
        rcases h5 with h5 | h5
        · dsimp only; omega
        · exact absurd h5 h0
      · exact hap ((List.pairwise_cons.1 hpw2).1 r' hr')


/-! ## Runs -/

/-- A call, and what it does; `*out_addr` holds anything before. -/
def Step (t : Target) (s : Windows) (l : Nat × Request) (s' : Windows) : Prop :=
  Pow2 t l.2.size ∧ s' =
    { regions := (regionAlloc t s.regions l.1 l.2).regions
      given := ((regionAlloc t s.regions l.1 l.2).region.map fun _ =>
        ⟨(regionAlloc t s.regions l.1 l.2).outAddr, l.2.size⟩).toList ++ s.given }

/-- A call that fits keeps the invariant. -/
theorem Inv.step {l : Nat × Request} (I : Inv t s) (hs : Step t s l s') (hf : Fits t s.regions l.2) : Inv t s' := by
  obtain ⟨⟨k, hk, hsize⟩, rfl⟩ := hs
  have hc := (I.contract_iff ⟨k, hk, hsize⟩).2 hf l.1
  rcases hs : stopAt t l.2 s.regions with - | r
  · rw [regionAlloc_none hs]
    exact I
  obtain ⟨ds, es, hstop⟩ := stop_of_stopAt hs
  have hmem : r ∈ s.regions := by rw [hstop.split]; simp
  have hroom := hf r hs
  rw [hsize] at hroom
  obtain ⟨hplace, hin, hend, h0⟩ := hroom.spec hk (I.busStart_lt r hmem) (I.phyAddr_lt r hmem)
  obtain ⟨h1, h2, h3⟩ := hroom
  have hle := le_alignUp (x := r.busStart) (Nat.two_pow_pos k)
  rw [← hsize] at hin hplace
  rw [regionAlloc_place hstop hin, hplace, hsize] at hc ⊢
  obtain ⟨r1, -, -, -, -, hap⟩ := hc
  rw [hsize] at hap
  generalize hbus : (alignUp r.busStart (2 ^ k) + 2 ^ k) % 2 ^ 64 = bus
  have hub := t.ubits_le
  have hle64 := Nat.pow_le_pow_right (show 0 < 2 by omega) hub.2
  -- The new next free address is the end of the range, or `0` if that is the end of the address space.
  have hbus' : bus = alignUp r.busStart (2 ^ k) + 2 ^ k ∨ bus = 0 := by
    rcases Nat.lt_or_ge (alignUp r.busStart (2 ^ k) + 2 ^ k) (2 ^ 64) with hlt | hge
    · left; rw [← hbus, Nat.mod_eq_of_lt hlt]
    · right
      rw [← hbus, show alignUp r.busStart (2 ^ k) + 2 ^ k = 2 ^ 64 by omega, Nat.mod_self]
  have hbus64 : bus < 2 ^ 64 := by rw [← hbus]; exact Nat.mod_lt _ (Nat.two_pow_pos 64)
  have hall {P : BusRegion → Prop} (hP : ∀ r ∈ s.regions, P r) (hr : P { r with busStart := bus }) :
      ∀ r' ∈ ds ++ { r with busStart := bus } :: es, P r' := by
    intro r' hr'
    rw [hstop.split] at hP
    rcases List.mem_append.1 hr' with hr' | hr'
    · exact hP r' (by simp [hr'])
    · rcases List.mem_cons.1 hr' with rfl | hr'
      · exact hr
      · exact hP r' (by simp [hr'])
  constructor
  · have hpw := I.regions
    rw [hstop.split] at hpw
    obtain ⟨hp1, hp2, hp3⟩ := List.pairwise_append.1 hpw
    obtain ⟨hp4, hp5⟩ := List.pairwise_cons.1 hp2
    refine List.pairwise_append.2 ⟨hp1, List.pairwise_cons.2 ⟨hp4, hp5⟩, fun d hd e he => ?_⟩
    rcases List.mem_cons.1 he with rfl | he
    · exact hp3 d hd r (by simp)
    · exact hp3 d hd e (by simp [he])
  · exact hall I.phyAddr_lt (I.phyAddr_lt r hmem)
  · exact hall I.end_le (I.end_le r hmem)
  · exact hall I.busStart_le (by dsimp only; omega)
  · exact hall I.busStart_lt hbus64
  · intro g hg
    rcases List.mem_cons.1 hg with rfl | hg
    · exact ⟨{ r with busStart := bus }, by simp, by dsimp only; omega, h2,
        hbus'.imp (fun h => by dsimp only; omega) id⟩
    · obtain ⟨r', hr', h4, h5, h6⟩ := I.given g hg
      rw [hstop.split, List.mem_append, List.mem_cons] at hr'
      rcases hr' with hr' | rfl | hr'
      · exact ⟨r', by simp [hr'], h4, h5, h6⟩
      · refine ⟨{ r' with busStart := bus }, by simp, h4, h5, ?_⟩
        rcases h6 with h6 | h6
        · exact hbus'.imp (fun h => by dsimp only; omega) id
        · exact absurd h6 h0
      · exact ⟨r', by simp [hr'], h4, h5, h6⟩
  · exact List.pairwise_cons.2 ⟨hap, I.apart⟩

/-- A host bridge as the device tree gives it: the regions stand apart and do not wrap. -/
structure Sane (rs : List BusRegion) : Prop where
  apart : rs.Pairwise fun r r' => Apart r.range r'.range
  phyAddr_lt : ∀ r ∈ rs, r.phyAddr < 2 ^ 64
  end_le : ∀ r ∈ rs, r.phyAddr + r.size ≤ 2 ^ 64

theorem Sane.inv (h : Sane rs) (t : Target) : Inv t ⟨(regionSetup t rs).1, []⟩ := by
  have hu := t.ubits_le
  have h32 := Nat.pow_le_pow_right (show 0 < 2 by omega) hu.1
  have h64 := Nat.pow_le_pow_right (show 0 < 2 by omega) hu.2
  have hall {P : BusRegion → Prop} (hP : ∀ r ∈ rs, P { r with busStart := max 0x1000 (r.phyAddr % 2 ^ t.ubits) }) :
      ∀ r ∈ (regionSetup t rs).1, P r := by
    intro r hr
    obtain ⟨r0, hr0, rfl⟩ := List.mem_map.1 hr
    exact hP r0 hr0
  have hmod (x : Nat) : x % 2 ^ t.ubits < 2 ^ t.ubits := Nat.mod_lt _ (Nat.two_pow_pos _)
  refine ⟨List.pairwise_map.2 h.apart, hall h.phyAddr_lt, hall h.end_le, hall fun r _ => ?_, hall fun r _ => ?_,
    by simp, .nil⟩
  · dsimp only
    omega
  · dsimp only
    omega

/-- A run keeps the contract exactly as long as the region where a call stops has room. -/
theorem run_contract_iff (h : Sane rs) {ls : List (Nat × Request)} :
    Runs.Run (fun s l s' => Step t s l s' ∧ Contract t s l.2) ⟨(regionSetup t rs).1, []⟩ ls s ↔
      Runs.Run (fun s l s' => Step t s l s' ∧ Fits t s.regions l.2) ⟨(regionSetup t rs).1, []⟩ ls s :=
  Runs.Run.iff_of_invariant (h.inv t) (fun _ _ _ I hs => I.step hs.1 hs.2) fun _ _ _ I =>
    and_congr_right fun hs => I.contract_iff hs.1

end RtThread.Pci
