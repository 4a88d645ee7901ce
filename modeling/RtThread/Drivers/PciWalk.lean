import Mathlib.Data.List.Nodup
import Mathlib.Logic.Relation

/-!
# The walk over PCI buses

`rt_pci_enum_device` of `pci.c`. A list head is taken for a child bus, so the walk leaves the tree at the first bus that has
children; and a device for which the callback returns true is passed to it once more, unless it is the last of its bus.
-/

namespace RtThread.Pci

/-- Buses, their lists of children and of devices. -/
structure BusTree (β δ : Type) where
  parent : β → Option β
  childrenNodes : β → List β
  devicesNodes : β → List δ

/-- A `struct rt_pci_bus *`: a bus, or what `rt_list_entry` makes of the head of the children of one. -/
inductive BusPtr (β : Type)
  | bus (b : β)
  | head (b : β)

variable {β δ : Type} [DecidableEq β] (t : BusTree β δ) (callback : List δ → δ → Bool)

/-- "Goto bottom": the bus and `parent`. What is no bus is not dereferenced. -/
def gotoBottom : Nat → BusPtr β → Option (β × Option β)
  | n + 1, .bus b => if t.childrenNodes b = [] then some (b, t.parent b) else gotoBottom n (.head b)
  | _, _ => none

/-- The loop over the devices of a bus and the call behind it: `is_end`, and all calls so far. The callback may depend on
the calls before. -/
def callDevices : List δ → Option δ → List δ → Bool × List δ
  | [], none, calls => (false, calls)
  | [], some last, calls => (callback calls last, calls ++ [last])
  | pdev :: rest, none, calls => callDevices rest (some pdev) calls
  | pdev :: rest, some last, calls =>
    -- The `break` keeps `last_pdev`, and the call behind the loop follows.
    if callback calls last then (true, calls ++ [last] ++ [last]) else callDevices rest (some pdev) (calls ++ [last])

/-- "Up a level or goto next": `bus`, `is_end` and the calls. -/
def upOrNext : Nat → β → Option β → List δ → Option (Option β × Bool × List δ)
  | 0, _, _, _ => none
  | _ + 1, _, none, calls => some (none, false, calls)
  | n + 1, bus, some parent, calls =>
    match ((t.childrenNodes parent).dropWhile (· ≠ bus)).tail with
    | next :: _ => some (some next, false, calls)
    | [] =>
      match callDevices callback (t.devicesNodes parent) none calls with
      | (true, calls) => some (some parent, true, calls)
      | (false, calls) => upOrNext n parent (t.parent parent) calls

/-- "Walk tree": the calls; `none` if the loops take more than `n` steps or something that is no bus is dereferenced. -/
def walkTree (n : Nat) : Nat → BusPtr β → List δ → Option (List δ)
  | 0, _, _ => none
  | k + 1, ptr, calls =>
    (gotoBottom t n ptr).bind fun (bus, parent) =>
      match callDevices callback (t.devicesNodes bus) none calls with
      | (true, calls) => some calls
      | (false, calls) => (upOrNext t callback n bus parent calls).bind fun
        | (some bus, false, calls) => walkTree n k (.bus bus) calls
        | (_, _, calls) => some calls

def rtPciEnumDevice (n : Nat) (bus : β) : Option (List δ) := walkTree t callback n n (.bus bus) []

variable {t callback}

/-- A walk that calls back as it should: for devices of the tree, not twice for one, for all of them unless it is stopped, and
not after it was. -/
structure Walked (t : BusTree β δ) (callback : List δ → δ → Bool) (root : β) (calls : List δ) : Prop where
  nodup : calls.Nodup
  mem : ∀ d ∈ calls, ∃ b, Relation.ReflTransGen (fun a b => b ∈ t.childrenNodes a) root b ∧ d ∈ t.devicesNodes b
  all : (∀ xs d, callback xs d = false) →
    ∀ b, Relation.ReflTransGen (fun a b => b ∈ t.childrenNodes a) root b → ∀ d ∈ t.devicesNodes b, d ∈ calls
  stops : ∀ xs d ys, calls = xs ++ d :: ys → callback xs d = true → ys = []

/-- The loop calls back for every device once if no call but the last returns true; else it ends with two calls for one device. -/
theorem callDevices_cases (callback : List δ → δ → Bool) (ds : List δ) (d : δ) (calls : List δ) :
    (callDevices callback ds (some d) calls).2 = calls ++ d :: ds ∧
      (∀ xs e ys, d :: ds = xs ++ e :: ys → ys ≠ [] → callback (calls ++ xs) e = false) ∨
    ∃ xs e ys, d :: ds = xs ++ e :: ys ∧ ys ≠ [] ∧ callback (calls ++ xs) e = true ∧
      (callDevices callback ds (some d) calls).2 = calls ++ xs ++ [e, e] := by
  induction ds generalizing d calls with
  | nil =>
    refine .inl ⟨rfl, fun xs e ys h hys => absurd (List.append_eq_singleton_iff.mp h.symm) ?_⟩
    simp [hys]
  | cons pdev ds ih =>
    cases hd : callback calls d with
    | true => exact .inr ⟨[], d, pdev :: ds, rfl, by simp, by simpa using hd, by simp [callDevices, hd]⟩
    | false =>
      rw [callDevices, if_neg (by simp [hd])]
      rcases ih pdev (calls ++ [d]) with ⟨h, hno⟩ | ⟨xs, e, ys, h, hys, he, hcalls⟩
      · refine .inl ⟨by rw [h]; simp, fun xs e ys heq hys => ?_⟩
        cases xs with
        | nil =>
          cases heq
          simpa using hd
        | cons x xs =>
          obtain ⟨rfl, htail⟩ := List.cons.inj heq
          simpa using hno xs e ys htail hys
      · exact .inr ⟨d :: xs, e, ys, by rw [h]; rfl, hys, by simpa using he, by simpa using hcalls⟩

/-- On a root without children the walk is the loop over its devices. -/
theorem rtPciEnumDevice_leaf {root : β} (hroot : t.parent root = none) (hleaf : t.childrenNodes root = []) (n : Nat) :
    rtPciEnumDevice t callback (n + 1) root = some (callDevices callback (t.devicesNodes root) none []).2 := by
  rw [rtPciEnumDevice, walkTree, gotoBottom, if_pos hleaf, hroot, Option.bind_some]
  dsimp only
  rcases callDevices callback (t.devicesNodes root) none [] with ⟨_ | _, calls⟩ <;> rfl

/-- The walk ends and calls back as it should if and only if the root has no children and no call for a device, but the last,
returns true. -/
theorem pci_walk (t : BusTree β δ) (callback : List δ → δ → Bool) (root : β) (hroot : t.parent root = none)
    (hnodup : (t.devicesNodes root).Nodup) :
    (∃ n calls, rtPciEnumDevice t callback n root = some calls ∧ Walked t callback root calls) ↔
      t.childrenNodes root = [] ∧
        ∀ xs d ys, t.devicesNodes root = xs ++ d :: ys → ys ≠ [] → callback xs d = false := by
  constructor
  · rintro ⟨n, calls, hrun, hw⟩
    by_cases hleaf : t.childrenNodes root = []
    · refine ⟨hleaf, ?_⟩
      obtain ⟨n, rfl⟩ : ∃ m, n = m + 1 := Nat.exists_eq_succ_of_ne_zero fun h => by subst h; cases hrun
      rw [rtPciEnumDevice_leaf hroot hleaf] at hrun
      cases hrun
      cases hds : t.devicesNodes root with
      | nil => simp
      | cons d ds =>
        rw [hds, callDevices] at hw
        rcases callDevices_cases callback ds d [] with ⟨-, hno⟩ | ⟨xs, e, -, -, -, he, hcalls⟩
        · exact hno
        · exact absurd (hw.stops xs e [e] hcalls he) (by simp)
    · rcases n with _ | _ | n
      · cases hrun
      all_goals simp [rtPciEnumDevice, walkTree, gotoBottom, hleaf] at hrun
  · rintro ⟨hleaf, hno⟩
    refine ⟨1, t.devicesNodes root, ?_, hnodup, fun d hd => ⟨root, .refl, hd⟩, fun _ b hb => ?_, fun xs d ys h hd => ?_⟩
    · rw [rtPciEnumDevice_leaf hroot hleaf]
      cases hds : t.devicesNodes root with
      | nil => rfl
      | cons d ds =>
        rcases callDevices_cases callback ds d [] with ⟨h, -⟩ | ⟨xs, e, ys, h, hys, he, -⟩
        · exact congrArg some h
        · exact absurd (hno xs e ys (hds.trans h) hys) (by simpa using he)
    · rcases hb.cases_head with rfl | ⟨c, hc, -⟩
      · exact fun d hd => hd
      · simp [hleaf] at hc
    · by_contra hys
      simp [hno xs d ys h hys] at hd

/-- A root with three devices and a child, or with none. -/
def twoBuses (leaf : Bool) : BusTree Bool Nat where
  parent b := if b then some false else none
  childrenNodes b := if b || leaf then [] else [true]
  devicesNodes b := if b then [3] else [0, 1, 2]

/-- All devices of a lone root. -/
theorem pci_walk_lone : (rtPciEnumDevice (twoBuses true) (fun _ _ => false) 3 false = some [0, 1, 2]) ∧
    ∃ n calls, rtPciEnumDevice (twoBuses true) (fun _ _ => false) n false = some calls ∧
      Walked (twoBuses true) (fun _ _ => false) false calls :=
  ⟨by decide, (pci_walk (twoBuses true) (fun _ _ => false) false rfl (by decide)).mpr ⟨rfl, fun _ _ _ _ _ => rfl⟩⟩

/-- A root with a child is not walked, and the device at which the walk is stopped is called for twice. -/
theorem head_dereferenced : rtPciEnumDevice (twoBuses false) (fun _ _ => false) 9 false = none ∧
    rtPciEnumDevice (twoBuses true) (fun _ d => d == 1) 9 false = some [0, 1, 1] := by
  decide

end RtThread.Pci
