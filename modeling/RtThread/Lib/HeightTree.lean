import Mathlib.Data.List.Nodup
import Mathlib.Data.Nat.Fib.Basic
import Mathlib.Order.Lattice
import Mathlib.Tactic.SplitIfs

/-!
# Height-balanced trees

Binary trees with a height stored at each node, which may be out of date, and the way back up from a position: a tree
with a hole is the list of the nodes above it, innermost first (`Limb`, `plug`). `fix` repairs one node whose children
are balanced and differ by at most two, by a rotation or a new height, or finds nothing to change; `climb` repairs a node
and those above it until nothing changes. Climbing from a position whose subtree changed its height by at most one gives
a balanced tree (`climbTo_balanced`), and keeps the order of the keys (`climb_keys`).
-/

/-- A binary tree with a height at each node. -/
inductive HeightTree (α : Type)
  | nil
  | node (h : Nat) (l : HeightTree α) (a : α) (r : HeightTree α)

namespace HeightTree

variable {α : Type}

/-- The stored height. -/
def ht : HeightTree α → Nat
  | nil => 0
  | node h _ _ _ => h

def root : HeightTree α → Option α
  | nil => none
  | node _ _ a _ => some a

@[simp] def keys : HeightTree α → List α
  | nil => []
  | node _ l a r => l.keys ++ a :: r.keys

/-- The stored heights are right, and children differ by at most one. -/
def Balanced : HeightTree α → Prop
  | nil => True
  | node h l _ r => l.Balanced ∧ r.Balanced ∧ h = max l.ht r.ht + 1 ∧ l.ht ≤ r.ht + 1 ∧ r.ht ≤ l.ht + 1

section Simp

variable {h : Nat} {l r : HeightTree α} {a : α}

@[simp] theorem ht_nil : (nil : HeightTree α).ht = 0 := rfl

@[simp] theorem ht_node : (node h l a r).ht = h := rfl

@[simp] theorem root_nil : (nil : HeightTree α).root = none := rfl

@[simp] theorem root_node : (node h l a r).root = some a := rfl

theorem balanced_node : (node h l a r).Balanced ↔
    l.Balanced ∧ r.Balanced ∧ h = max l.ht r.ht + 1 ∧ l.ht ≤ r.ht + 1 ∧ r.ht ≤ l.ht + 1 := Iff.rfl

end Simp

theorem Balanced.eq_nil {t : HeightTree α} (hb : t.Balanced) (ht : t.ht = 0) : t = nil := by
  cases t with
  | nil => rfl
  | node h l a r =>
    obtain ⟨-, -, hh, -⟩ := hb
    rw [ht_node] at ht
    omega

/-- A node above a hole: the hole is its left, or its right child. -/
inductive Limb (α : Type)
  | left (h : Nat) (a : α) (r : HeightTree α)
  | right (h : Nat) (l : HeightTree α) (a : α)

namespace Limb

def fill : Limb α → HeightTree α → HeightTree α
  | left h a r, t => node h t a r
  | right h l a, t => node h l a t

def key : Limb α → α
  | left _ a _ => a
  | right _ _ a => a

def sibling : Limb α → HeightTree α
  | left _ _ r => r
  | right _ l _ => l

def ht : Limb α → Nat
  | left h _ _ => h
  | right h _ _ => h

/-- The keys before the hole. -/
def before : Limb α → List α
  | left _ _ _ => []
  | right _ l a => l.keys ++ [a]

/-- The keys after the hole. -/
def after : Limb α → List α
  | left _ a r => a :: r.keys
  | right _ _ _ => []

section Simp

variable {h : Nat} {l r : HeightTree α} {a : α}

@[simp] theorem sibling_left : (left h a r).sibling = r := rfl

@[simp] theorem sibling_right : (right h l a).sibling = l := rfl

@[simp] theorem fill_left (t : HeightTree α) : (left h a r).fill t = node h t a r := rfl

@[simp] theorem fill_right (t : HeightTree α) : (right h l a).fill t = node h l a t := rfl

@[simp] theorem key_left : (left h a r).key = a := rfl

@[simp] theorem key_right : (right h l a).key = a := rfl

end Simp

theorem keys_fill (f : Limb α) (t : HeightTree α) : (f.fill t).keys = f.before ++ t.keys ++ f.after := by
  cases f <;> simp [before, after]

theorem ht_fill (f : Limb α) (t : HeightTree α) : (f.fill t).ht = f.ht := by
  cases f <;> rfl

theorem root_fill (f : Limb α) (t : HeightTree α) : (f.fill t).root = some f.key := by
  cases f <;> rfl

end Limb

/-- A tree in the hole below a list of limbs, the innermost first. -/
@[simp] def plug : List (Limb α) → HeightTree α → HeightTree α
  | [], t => t
  | f :: c, t => plug c (f.fill t)

@[simp] def before : List (Limb α) → List α
  | [] => []
  | f :: c => before c ++ f.before

@[simp] def after : List (Limb α) → List α
  | [] => []
  | f :: c => f.after ++ after c

variable {t t' l r : HeightTree α} {f : Limb α} {c c' : List (Limb α)} {h k : Nat} {a : α}

theorem keys_plug (c : List (Limb α)) (t : HeightTree α) : (plug c t).keys = before c ++ t.keys ++ after c := by
  induction c generalizing t with
  | nil => simp
  | cons f c ih => simp [ih, f.keys_fill]

theorem root_plug_congr {t t' : HeightTree α} (c : List (Limb α)) (ht : t'.root = t.root) :
    (plug c t').root = (plug c t).root := by
  induction c generalizing t t' with
  | nil => exact ht
  | cons f c ih =>
    refine ih ?_
    rw [f.root_fill, f.root_fill]

theorem plug_append (c c' : List (Limb α)) (t : HeightTree α) : plug (c ++ c') t = plug c' (plug c t) := by
  induction c generalizing t with
  | nil => rfl
  | cons f c ih => exact ih _

theorem before_append (c c' : List (Limb α)) : before (c ++ c') = before c' ++ before c := by
  induction c with
  | nil => simp
  | cons f c ih => simp [ih]

theorem after_append (c c' : List (Limb α)) : after (c ++ c') = after c ++ after c' := by
  induction c with
  | nil => simp
  | cons f c ih => simp [ih]

/-- The keys that are not in the hole. -/
def outside (c : List (Limb α)) : List α := c.flatMap fun f => f.key :: f.sibling.keys

@[simp] theorem outside_nil : outside ([] : List (Limb α)) = [] := rfl

@[simp] theorem outside_cons (f : Limb α) (c : List (Limb α)) :
    outside (f :: c) = f.key :: (f.sibling.keys ++ outside c) := List.flatMap_cons

theorem outside_append (c c' : List (Limb α)) : outside (c ++ c') = outside c ++ outside c' := List.flatMap_append

theorem Limb.keys_fill_perm (f : Limb α) (t : HeightTree α) :
    (f.fill t).keys.Perm (t.keys ++ f.key :: f.sibling.keys) := by
  cases f with
  | left h a r => exact .refl _
  | right h l a =>
    refine List.perm_middle.trans (.trans ?_ List.perm_middle.symm)
    exact .cons a List.perm_append_comm

theorem keys_plug_perm (c : List (Limb α)) (t : HeightTree α) : (plug c t).keys.Perm (t.keys ++ outside c) := by
  induction c generalizing t with
  | nil => simp
  | cons f c ih =>
    refine (ih _).trans (((f.keys_fill_perm t).append_right _).trans ?_)
    rw [outside_cons, List.append_assoc, List.cons_append]

/-- The root above a position is a node there, or above. -/
theorem exists_root_plug (c : List (Limb α)) (h : Nat) (l : HeightTree α) (a : α) (r : HeightTree α) :
    ∃ b, (plug c (node h l a r)).root = some b ∧ (b = a ∨ b ∈ outside c) := by
  induction c generalizing h l a r with
  | nil => exact ⟨a, rfl, .inl rfl⟩
  | cons f c ih =>
    have hup : ∃ b, (plug c (f.fill (node h l a r))).root = some b ∧ (b = f.key ∨ b ∈ outside c) := by
      cases f with
      | left h' a' r' => exact ih _ _ _ _
      | right h' l' a' => exact ih _ _ _ _
    obtain ⟨b, hb, hmem⟩ := hup
    refine ⟨b, hb, .inr ?_⟩
    rw [outside_cons, List.mem_cons, List.mem_append]
    exact hmem.imp_right .inr

/-- Every key is at some position. -/
theorem exists_plug_of_mem (ha : a ∈ t.keys) : ∃ c h l r, t = plug c (node h l a r) := by
  induction t with
  | nil => cases ha
  | node h l b r ihl ihr =>
    rcases List.mem_append.1 ha with hl | hr
    · obtain ⟨c, h', l', r', hc⟩ := ihl hl
      refine ⟨c ++ [.left h b r], h', l', r', ?_⟩
      rw [plug_append, ← hc]
      rfl
    · rcases List.mem_cons.1 hr with rfl | hr
      · exact ⟨[], h, l, r, rfl⟩
      · obtain ⟨c, h', l', r', hc⟩ := ihr hr
        refine ⟨c ++ [.right h l b], h', l', r', ?_⟩
        rw [plug_append, ← hc]
        rfl

/-! ## Balance -/

/-- The limbs are balanced around a hole of height `k`. -/
def Fits : List (Limb α) → Nat → Prop
  | [], _ => True
  | f :: c, k =>
    f.sibling.Balanced ∧ f.ht = max k f.sibling.ht + 1 ∧ k ≤ f.sibling.ht + 1 ∧ f.sibling.ht ≤ k + 1 ∧ Fits c f.ht

theorem balanced_fill (f : Limb α) (t : HeightTree α) :
    (f.fill t).Balanced ↔ t.Balanced ∧ f.sibling.Balanced ∧ f.ht = max t.ht f.sibling.ht + 1 ∧
      t.ht ≤ f.sibling.ht + 1 ∧ f.sibling.ht ≤ t.ht + 1 := by
  cases f with
  | left h a r => exact Iff.rfl
  | right h l a =>
    rw [Limb.fill_right, balanced_node, Nat.max_comm]
    constructor
    · rintro ⟨h1, h2, h3, h4, h5⟩
      exact ⟨h2, h1, h3, h5, h4⟩
    · rintro ⟨h1, h2, h3, h4, h5⟩
      exact ⟨h2, h1, h3, h5, h4⟩

theorem balanced_plug (c : List (Limb α)) (t : HeightTree α) :
    (plug c t).Balanced ↔ t.Balanced ∧ Fits c t.ht := by
  induction c generalizing t with
  | nil => simp [Fits]
  | cons f c ih =>
    rw [plug, ih, balanced_fill, Limb.ht_fill, and_assoc]
    refine and_congr_right fun _ => ?_
    rw [Fits, and_assoc, and_assoc, and_assoc]

/-! ## Repair -/

/-- The left child comes up, or its right child does. -/
def rotRight : HeightTree α → α → HeightTree α → Option (HeightTree α)
  | nil, _, _ => none
  | node hl ll b lr, a, r =>
    if lr.ht ≤ ll.ht then
      some (node (lr.ht + 1 + 1) ll b (node (lr.ht + 1) lr a r))
    else
      match lr with
      | nil => none
      | node hm m1 d m2 => some (node hl (node hm ll b m1) d (node hm m2 a r))

/-- The right child comes up, or its left child does. -/
def rotLeft : HeightTree α → α → HeightTree α → Option (HeightTree α)
  | _, _, nil => none
  | l, a, node hr rl b rr =>
    if rl.ht ≤ rr.ht then
      some (node (rl.ht + 1 + 1) (node (rl.ht + 1) l a rl) b rr)
    else
      match rl with
      | nil => none
      | node hm m1 d m2 => some (node hr (node hm l a m1) d (node hm m2 b rr))

/-- What is done about a node: a rotation, a new height, or nothing. -/
def fix : HeightTree α → Option (HeightTree α)
  | nil => none
  | node h l a r =>
    if r.ht + 1 < l.ht then rotRight l a r
    else if l.ht + 1 < r.ht then rotLeft l a r
    else if max l.ht r.ht + 1 = h then none
    else some (node (max l.ht r.ht + 1) l a r)

theorem rotRight_keys (hf : rotRight l a r = some t') : t'.keys = l.keys ++ a :: r.keys := by
  unfold rotRight at hf
  split at hf
  · cases hf
  · split_ifs at hf
    · cases hf
      simp
    · split at hf
      · cases hf
      · cases hf
        simp

theorem rotLeft_keys (hf : rotLeft l a r = some t') : t'.keys = l.keys ++ a :: r.keys := by
  unfold rotLeft at hf
  split at hf
  · cases hf
  · split_ifs at hf
    · cases hf
      simp
    · split at hf
      · cases hf
      · cases hf
        simp

theorem fix_keys (hf : fix t = some t') : t'.keys = t.keys := by
  unfold fix at hf
  split at hf
  · cases hf
  · split_ifs at hf
    · exact rotRight_keys hf
    · exact rotLeft_keys hf
    · cases hf
      rfl

/-- A rotation makes a tree balanced that is higher on the left by two, as high as its left child or higher by one. -/
theorem rotRight_balanced (hl : l.Balanced) (hr : r.Balanced) (hlr : l.ht = r.ht + 2) :
    ∃ t', rotRight l a r = some t' ∧ t'.Balanced ∧ l.ht ≤ t'.ht ∧ t'.ht ≤ l.ht + 1 := by
  cases l with
  | nil => simp at hlr
  | node hl' ll b lr =>
    obtain ⟨b1, b2, b3, b4, b5⟩ := hl
    rw [ht_node] at hlr
    by_cases h4 : lr.ht ≤ ll.ht
    · refine ⟨_, if_pos h4, ⟨b1, ⟨b2, hr, ?_, ?_, ?_⟩, ?_, ?_, ?_⟩, ?_, ?_⟩ <;> (try dsimp only [ht_node]) <;> omega
    · cases lr with
      | nil => simp at h4
      | node hm m1 d m2 =>
        obtain ⟨c1, c2, c3, c4, c5⟩ := b2
        dsimp only [ht_node] at *
        refine ⟨_, if_neg h4, ⟨⟨b1, c1, ?_, ?_, ?_⟩, ⟨c2, hr, ?_, ?_, ?_⟩, ?_, ?_, ?_⟩, ?_, ?_⟩ <;>
          (try dsimp only [ht_node]) <;> omega

theorem rotLeft_balanced (hl : l.Balanced) (hr : r.Balanced) (hrl : r.ht = l.ht + 2) :
    ∃ t', rotLeft l a r = some t' ∧ t'.Balanced ∧ r.ht ≤ t'.ht ∧ t'.ht ≤ r.ht + 1 := by
  cases r with
  | nil => simp at hrl
  | node hr' rl b rr =>
    obtain ⟨b1, b2, b3, b4, b5⟩ := hr
    rw [ht_node] at hrl
    by_cases h4 : rl.ht ≤ rr.ht
    · refine ⟨_, if_pos h4, ⟨⟨hl, b1, ?_, ?_, ?_⟩, b2, ?_, ?_, ?_⟩, ?_, ?_⟩ <;> (try dsimp only [ht_node]) <;> omega
    · cases rl with
      | nil => simp at h4
      | node hm m1 d m2 =>
        obtain ⟨c1, c2, c3, c4, c5⟩ := b1
        dsimp only [ht_node] at *
        refine ⟨_, if_neg h4, ⟨⟨hl, c1, ?_, ?_, ?_⟩, ⟨c2, b2, ?_, ?_, ?_⟩, ?_, ?_, ?_⟩, ?_, ?_⟩ <;>
          (try dsimp only [ht_node]) <;> omega

/-- A balanced node stays as it is. -/
theorem fix_of_balanced (hb : t.Balanced) : fix t = none := by
  cases t with
  | nil => rfl
  | node h l a r =>
    obtain ⟨-, -, h1, h2, h3⟩ := hb
    unfold fix
    dsimp only
    rw [if_neg (by omega), if_neg (by omega), if_pos h1.symm]

/-- A node whose children are balanced and differ by at most two: if nothing is done, then it is balanced. -/
theorem balanced_of_fix (hl : l.Balanced) (hr : r.Balanced) (hlr : l.ht ≤ r.ht + 2) (hrl : r.ht ≤ l.ht + 2)
    (hf : fix (node h l a r) = none) : (node h l a r).Balanced := by
  unfold fix at hf
  dsimp only at hf
  split_ifs at hf with h1 h2 h3
  · obtain ⟨t', ht', -⟩ := rotRight_balanced (a := a) hl hr (by omega)
    rw [ht'] at hf
    cases hf
  · obtain ⟨t', ht', -⟩ := rotLeft_balanced (a := a) hl hr (by omega)
    rw [ht'] at hf
    cases hf
  · exact ⟨hl, hr, h3.symm, by omega, by omega⟩

/-- Otherwise it is made balanced; a rotation may take one off its height. -/
theorem fix_balanced (hl : l.Balanced) (hr : r.Balanced) (hlr : l.ht ≤ r.ht + 2) (hrl : r.ht ≤ l.ht + 2)
    (hf : fix (node h l a r) = some t') :
    t'.Balanced ∧ t'.ht ≤ max l.ht r.ht + 1 ∧ max l.ht r.ht ≤ t'.ht ∧
      (t'.ht = max l.ht r.ht → l.ht = r.ht + 2 ∨ r.ht = l.ht + 2) := by
  unfold fix at hf
  dsimp only at hf
  split_ifs at hf with h1 h2 h3
  · obtain ⟨t'', ht'', hb, h4, h5⟩ := rotRight_balanced (a := a) hl hr (by omega)
    cases hf.symm.trans ht''
    exact ⟨hb, by omega, by omega, fun _ => by omega⟩
  · obtain ⟨t'', ht'', hb, h4, h5⟩ := rotLeft_balanced (a := a) hl hr (by omega)
    cases hf.symm.trans ht''
    exact ⟨hb, by omega, by omega, fun _ => by omega⟩
  · cases hf
    exact ⟨⟨hl, hr, rfl, by omega, by omega⟩, le_rfl, Nat.le_succ _, fun h4 => by simp at h4⟩

/-- The children of a filled limb: balanced, if the limb is balanced around a height close to the filling's. -/
theorem balanced_of_fix_fill (hb : t.Balanced) (hc : Fits (f :: c) k) (hkt : k ≤ t.ht + 1) (htk : t.ht ≤ k + 1)
    (hf : fix (f.fill t) = none) : (f.fill t).Balanced := by
  obtain ⟨h1, -, h3, h4, -⟩ := hc
  cases f with
  | left h a r =>
    rw [Limb.sibling_left] at h1 h3 h4
    exact balanced_of_fix hb h1 (by omega) (by omega) hf
  | right h l a =>
    rw [Limb.sibling_right] at h1 h3 h4
    exact balanced_of_fix h1 hb (by omega) (by omega) hf

/-- A filled limb is made balanced, and its height changes by at most one. -/
theorem fix_fill_balanced (hb : t.Balanced) (hc : Fits (f :: c) k) (hkt : k ≤ t.ht + 1) (htk : t.ht ≤ k + 1)
    (hf : fix (f.fill t) = some t') : t'.Balanced ∧ f.ht ≤ t'.ht + 1 ∧ t'.ht ≤ f.ht + 1 := by
  obtain ⟨h1, h2, h3, h4, -⟩ := hc
  cases f with
  | left h a r =>
    obtain ⟨hb', h5, h6, h7⟩ := fix_balanced hb h1 (by omega) (by omega) hf
    exact ⟨hb', by omega, by omega⟩
  | right h l a =>
    obtain ⟨hb', h5, h6, h7⟩ := fix_balanced h1 hb (by omega) (by omega) hf
    exact ⟨hb', by omega, by omega⟩

/-- A node and those above it are repaired, until nothing is done about one. -/
def climb : List (Limb α) → HeightTree α → HeightTree α
  | c, t =>
    match fix t with
    | none => plug c t
    | some t' =>
      match c with
      | [] => t'
      | f :: c => climb c (f.fill t')

/-- The same, from the node above a position on. -/
def climbTo : List (Limb α) → HeightTree α → HeightTree α
  | [], t => t
  | f :: c, t => climb c (f.fill t)

theorem climb_of_none (hf : fix t = none) : climb c t = plug c t := by
  unfold climb
  rw [hf]

theorem climb_of_some (hf : fix t = some t') : climb c t = climbTo c t' := by
  cases c with
  | nil =>
    unfold climb
    rw [hf]
    rfl
  | cons f c =>
    rw [climb, hf]
    rfl

theorem climb_of_balanced (hb : t.Balanced) : climb c t = plug c t := climb_of_none (fix_of_balanced hb)

theorem climbTo_keys : (climbTo c t).keys = (plug c t).keys := by
  induction c generalizing t with
  | nil => rfl
  | cons f c ih =>
    rw [climbTo, plug]
    cases hf : fix (f.fill t) with
    | none => rw [climb_of_none hf]
    | some t' => rw [climb_of_some hf, ih, keys_plug, keys_plug, fix_keys hf]

theorem climb_keys : (climb c t).keys = (plug c t).keys := by
  cases hf : fix t with
  | none => rw [climb_of_none hf]
  | some t' => rw [climb_of_some hf, climbTo_keys, keys_plug, keys_plug, fix_keys hf]

/-- Climbing from a position whose subtree has changed its height by at most one. -/
theorem climbTo_balanced (hb : t.Balanced) (hc : Fits c k) (hkt : k ≤ t.ht + 1) (htk : t.ht ≤ k + 1) :
    (climbTo c t).Balanced := by
  induction c generalizing t k with
  | nil => exact hb
  | cons f c ih =>
    have h5 : Fits c f.ht := hc.2.2.2.2
    rw [climbTo]
    cases hf : fix (f.fill t) with
    | none =>
      rw [climb_of_none hf, balanced_plug, Limb.ht_fill]
      exact ⟨balanced_of_fix_fill hb hc hkt htk hf, h5⟩
    | some t' =>
      rw [climb_of_some hf]
      obtain ⟨hb', h6, h7⟩ := fix_fill_balanced hb hc hkt htk hf
      exact ih hb' h5 h6 h7

/-- The height of what a list of limbs makes of a subtree of height `k`. -/
@[grind =] def top : List (Limb α) → Nat → Nat
  | [], k => k
  | f :: c, _ => top c f.ht

theorem ht_plug (c : List (Limb α)) (t : HeightTree α) : (plug c t).ht = top c t.ht := by
  induction c generalizing t with
  | nil => rfl
  | cons f c ih => rw [plug, ih, Limb.ht_fill, top]

/-- Every limb adds to the height. -/
theorem Fits.le_top (hc : Fits c k) : k + c.length ≤ top c k := by
  induction c generalizing k with
  | nil => exact Nat.le_refl k
  | cons f c ih =>
    obtain ⟨-, h2, -, -, h5⟩ := hc
    have h6 := ih h5
    rw [top, List.length_cons]
    omega

/-- Climbing through a part of the limbs: it comes out at the top with a height changed by at most one, or stops on the
way with the height as it was. -/
theorem climbTo_append (c' : List (Limb α)) (hb : t.Balanced) (hc : Fits c k) (hkt : k ≤ t.ht + 1) (htk : t.ht ≤ k + 1) :
    ∃ t1 : HeightTree α, t1.Balanced ∧ t1.keys = (plug c t).keys ∧
      ((climbTo (c ++ c') t = climbTo c' t1 ∧ top c k ≤ t1.ht + 1 ∧ t1.ht ≤ top c k + 1) ∨
        climbTo (c ++ c') t = plug c' t1 ∧ t1.ht = top c k) := by
  induction c generalizing t k with
  | nil => exact ⟨t, hb, rfl, .inl ⟨rfl, hkt, htk⟩⟩
  | cons f c ih =>
    have h5 : Fits c f.ht := hc.2.2.2.2
    rw [List.cons_append, climbTo, top, plug]
    cases hf : fix (f.fill t) with
    | none =>
      refine ⟨plug c (f.fill t), ?_, rfl, .inr ⟨?_, ?_⟩⟩
      · rw [balanced_plug, Limb.ht_fill]
        exact ⟨balanced_of_fix_fill hb hc hkt htk hf, h5⟩
      · rw [climb_of_none hf, plug_append]
      · rw [ht_plug, Limb.ht_fill]
    | some t' =>
      obtain ⟨hb', h6, h7⟩ := fix_fill_balanced hb hc hkt htk hf
      obtain ⟨t1, hb1, hk1, h1⟩ := ih hb' h5 h6 h7
      rw [climb_of_some hf]
      refine ⟨t1, hb1, ?_, h1⟩
      rw [hk1, keys_plug, keys_plug, fix_keys hf]

/-- A node is replaced whose right subtree has changed its height by at most one, with a height that is too low for it. -/
theorem climb_replaced (hl : l.Balanced) (hc : Fits (.right h l a :: c) k) (hr : r.Balanced) (hkr : k ≤ r.ht + 1)
    (hrk : r.ht ≤ k + 1) {j : Nat} (hj : j ≤ r.ht) {b : α} : (climb c (node j l b r)).Balanced := by
  obtain ⟨-, h2, h3, h4, h5⟩ := hc
  rw [Limb.sibling_right] at h2 h3 h4
  have h6 : Limb.ht (.right h l a) = h := rfl
  cases hf : fix (node j l b r) with
  | none =>
    obtain ⟨-, -, h7, -, -⟩ := balanced_of_fix hl hr (by omega) (by omega) hf
    omega
  | some t' =>
    obtain ⟨hb', h7, h8, h9⟩ := fix_balanced hl hr (by omega) (by omega) hf
    rw [climb_of_some hf]
    exact climbTo_balanced hb' h5 (by omega) (by omega)

/-- A balanced tree of height `h` has at least as many nodes as the sparsest one, which the Fibonacci numbers count. -/
theorem Balanced.fib_le (hb : t.Balanced) : Nat.fib (t.ht + 2) ≤ t.keys.length + 1 := by
  induction t with
  | nil => exact Nat.le_refl 1
  | node h l a r ihl ihr =>
    obtain ⟨hl, hr, hh, h1, h2⟩ := hb
    have hlen : (node h l a r).keys.length + 1 = l.keys.length + 1 + (r.keys.length + 1) := by
      simp only [keys, List.length_append, List.length_cons]
      omega
    rw [hlen, ht_node]
    rcases Nat.le_total l.ht r.ht with hle | hle
    · have hfib : Nat.fib (h + 2) = Nat.fib (r.ht + 1) + Nat.fib (r.ht + 2) := by
        rw [show h + 2 = r.ht + 1 + 2 by omega]
        exact Nat.fib_add_two
      have := Nat.fib_mono (show r.ht + 1 ≤ l.ht + 2 by omega)
      have := ihl hl
      have := ihr hr
      omega
    · have hfib : Nat.fib (h + 2) = Nat.fib (l.ht + 1) + Nat.fib (l.ht + 2) := by
        rw [show h + 2 = l.ht + 1 + 2 by omega]
        exact Nat.fib_add_two
      have := Nat.fib_mono (show l.ht + 1 ≤ r.ht + 2 by omega)
      have := ihl hl
      have := ihr hr
      omega

end HeightTree
