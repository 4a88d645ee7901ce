import RtThread.Lib.HeightTree
import RtThread.Mm.Avl

/-!
# The links of an AVL tree

What it means that the nodes in the heap form a tree: below a position (`Linked`), above it (`Above`), and at it (`At`).
One round of `util_avl_rebalance` repairs the node at a position and goes to the one above it.
-/

namespace RtThread.UtilAvl

open HeightTree

/-- The nodes of a tree, linked below `parent`. -/
def Linked (node : Nat → UtilAvlStruct) : Option Nat → HeightTree Nat → Prop
  | _, .nil => True
  | parent, .node h l a r =>
    node a = ⟨l.root, r.root, parent, h⟩ ∧ Linked node (some a) l ∧ Linked node (some a) r

/-- The node above a position. -/
def owner : List (Limb Nat) → Option Nat
  | [] => none
  | f :: _ => some f.key

/-- The link to a position. -/
def place : List (Limb Nat) → NodePlace
  | [] => .rootNode
  | .left _ a _ :: _ => .avlLeft a
  | .right _ _ a :: _ => .avlRight a

/-- The fields of the node of a limb around the child `x`. -/
def cell (x parent : Option Nat) : Limb Nat → UtilAvlStruct
  | .left h _ r => ⟨x, r.root, parent, h⟩
  | .right h l _ => ⟨l.root, x, parent, h⟩

/-- The nodes around a position, at which `x` is linked. -/
def Above (s : UtilAvl) : List (Limb Nat) → Option Nat → Prop
  | [], x => s.rootNode = x
  | f :: c, x => s.node f.key = cell x (owner c) f ∧ Linked s.node (some f.key) f.sibling ∧ Above s c (some f.key)

/-- The heap holds a tree, which is `t` at the position below `c`. -/
structure At (s : UtilAvl) (c : List (Limb Nat)) (t : HeightTree Nat) : Prop where
  below : Linked s.node (owner c) t
  above : Above s c t.root
  nodup : (t.keys ++ outside c).Nodup

variable {s s' : UtilAvl} {c : List (Limb Nat)} {f : Limb Nat} {t t' l r ll lr rl rr m1 m2 : HeightTree Nat}
  {m m' : Nat → UtilAvlStruct} {parent x y : Option Nat} {a b d i j k h hl hr hm : Nat}

/-! ## Reads over writes -/

@[simp] theorem setLeft_self : (s.setLeft i x).node i = { s.node i with avlLeft := x } := Function.update_self _ _ _
@[simp] theorem setRight_self : (s.setRight i x).node i = { s.node i with avlRight := x } := Function.update_self _ _ _
@[simp] theorem setParent_self : (s.setParent i x).node i = { s.node i with parent := x } := Function.update_self _ _ _
@[simp] theorem setHeight_self : (s.setHeight i h).node i = { s.node i with height := h } := Function.update_self _ _ _
theorem setLeft_of_ne (hj : j ≠ i) : (s.setLeft i x).node j = s.node j := Function.update_of_ne hj _ _
theorem setRight_of_ne (hj : j ≠ i) : (s.setRight i x).node j = s.node j := Function.update_of_ne hj _ _
theorem setParent_of_ne (hj : j ≠ i) : (s.setParent i x).node j = s.node j := Function.update_of_ne hj _ _
theorem setHeight_of_ne (hj : j ≠ i) : (s.setHeight i h).node j = s.node j := Function.update_of_ne hj _ _

/-- The writes leave the root link alone. -/
@[simp] theorem setLeft_rootNode : (s.setLeft i x).rootNode = s.rootNode := rfl
@[simp] theorem setRight_rootNode : (s.setRight i x).rootNode = s.rootNode := rfl
@[simp] theorem setParent_rootNode : (s.setParent i x).rootNode = s.rootNode := rfl
@[simp] theorem setHeight_rootNode : (s.setHeight i h).rootNode = s.rootNode := rfl
@[simp] theorem setParentOf_rootNode : (s.setParentOf y x).rootNode = s.rootNode := by cases y <;> rfl

theorem root_mem (ha : t.root = some a) : a ∈ t.keys := by
  cases t with
  | nil => cases ha
  | node h l b r =>
    cases ha
    simp

theorem setParentOf_of_notMem (hj : j ∉ t.keys) : (s.setParentOf t.root x).node j = s.node j := by
  cases ht : t.root with
  | none => rfl
  | some i =>
    refine setParent_of_ne ?_
    rintro rfl
    exact hj (root_mem ht)

theorem put_of_notMem (hj : j ∉ outside c) : (s.put (place c) x).node j = s.node j := by
  cases c with
  | nil => rfl
  | cons f c =>
    rw [outside_cons, List.mem_cons, not_or] at hj
    cases f with
    | left h a r => exact setLeft_of_ne hj.1
    | right h l a => exact setRight_of_ne hj.1

/-! ## Frames -/

theorem Linked.congr (hl : Linked m parent t) (hn : ∀ a ∈ t.keys, m' a = m a) : Linked m' parent t := by
  induction t generalizing parent with
  | nil => trivial
  | node h l a r ihl ihr =>
    obtain ⟨h1, h2, h3⟩ := hl
    refine ⟨?_, ihl h2 ?_, ihr h3 ?_⟩
    · rw [hn a (by simp), h1]
    · intro b hb
      exact hn b (List.mem_append_left _ hb)
    · intro b hb
      exact hn b (List.mem_append_right _ (List.mem_cons_of_mem _ hb))

theorem Above.congr (ha : Above s c x) (hr : s'.rootNode = s.rootNode)
    (hn : ∀ a ∈ outside c, s'.node a = s.node a) : Above s' c x := by
  induction c generalizing x with
  | nil => exact hr.trans ha
  | cons f c ih =>
    obtain ⟨h1, h2, h3⟩ := ha
    refine ⟨?_, h2.congr ?_, ih h3 ?_⟩
    · rw [hn _ List.mem_cons_self, h1]
    · intro b hb
      exact hn b (List.mem_cons_of_mem _ (List.mem_append_left _ hb))
    · intro b hb
      exact hn b (List.mem_cons_of_mem _ (List.mem_append_right _ hb))

/-- A new link at a position. -/
theorem Above.put (ha : Above s c x) (hnd : (outside c).Nodup) : Above (s.put (place c) y) c y := by
  cases c with
  | nil => rfl
  | cons f c =>
    obtain ⟨h1, h2, h3⟩ := ha
    rw [outside_cons, List.nodup_cons, List.mem_append, not_or] at hnd
    obtain ⟨⟨hsib, hout⟩, -⟩ := hnd
    have hne : ∀ b, b ∈ f.sibling.keys ∨ b ∈ outside c → b ≠ f.key := by
      rintro b hb rfl
      exact hb.elim hsib hout
    cases f with
    | left h a r =>
      refine ⟨?_, h2.congr fun b hb => setLeft_of_ne (hne b (.inl hb)),
        h3.congr rfl fun b hb => setLeft_of_ne (hne b (.inr hb))⟩
      refine setLeft_self.trans ?_
      rw [show s.node a = _ from h1]
      rfl
    | right h l a =>
      refine ⟨?_, h2.congr fun b hb => setRight_of_ne (hne b (.inl hb)),
        h3.congr rfl fun b hb => setRight_of_ne (hne b (.inr hb))⟩
      refine setRight_self.trans ?_
      rw [show s.node a = _ from h1]
      rfl

/-- A subtree gets another parent. -/
theorem Linked.reparent (ht : Linked s.node parent t) (hnd : t.keys.Nodup) :
    Linked (s.setParentOf t.root x).node x t := by
  cases t with
  | nil => trivial
  | node h l a r =>
    obtain ⟨h1, h2, h3⟩ := ht
    rw [keys, List.nodup_append] at hnd
    obtain ⟨-, hr, hlr⟩ := hnd
    have hl : ∀ b ∈ l.keys, b ≠ a := fun b hb => hlr b hb a List.mem_cons_self
    have hr : ∀ b ∈ r.keys, b ≠ a := by
      rintro b hb rfl
      exact (List.nodup_cons.1 hr).1 hb
    refine ⟨?_, h2.congr fun b hb => setParent_of_ne (hl b hb), h3.congr fun b hb => setParent_of_ne (hr b hb)⟩
    refine setParent_self.trans ?_
    rw [h1]

/-! ## Positions -/

theorem At.up (h : At s (f :: c) t) : At s c (f.fill t) := by
  obtain ⟨hb, ⟨h1, h2, h3⟩, hnd⟩ := h
  refine ⟨?_, ?_, ?_⟩
  · cases f with
    | left h a r => exact ⟨h1, hb, h2⟩
    | right h l a => exact ⟨h1, h2, hb⟩
  · rw [Limb.root_fill]
    exact h3
  · refine ((f.keys_fill_perm t).append_right _).nodup_iff.2 ?_
    rwa [List.append_assoc, List.cons_append]

theorem At.down (h : At s c (f.fill t)) : At s (f :: c) t := by
  obtain ⟨hb, ha, hnd⟩ := h
  have hnd' : (t.keys ++ outside (f :: c)).Nodup := by
    have h1 := ((f.keys_fill_perm t).append_right (outside c)).nodup_iff.1 hnd
    rwa [List.append_assoc, List.cons_append, ← outside_cons] at h1
  cases f with
  | left h a r => exact ⟨hb.2.1, ⟨hb.1, hb.2.2, ha⟩, hnd'⟩
  | right h l a => exact ⟨hb.2.2, ⟨hb.1, hb.2.1, ha⟩, hnd'⟩

theorem at_plug_iff : At s [] (plug c t) ↔ At s c t := by
  induction c generalizing t with
  | nil => rfl
  | cons f c ih =>
    rw [plug, ih]
    exact ⟨At.down, At.up⟩

theorem heightOf_root (ht : Linked s.node parent t) : s.heightOf t.root = t.ht := by
  cases t with
  | nil => rfl
  | node h l a r =>
    show (s.node a).height = h
    rw [ht.1]

theorem At.nodePlace (h : At s c t) (ha : t.root = some a) : s.nodePlace a = place c := by
  cases t with
  | nil => cases ha
  | node h' l b r =>
    obtain rfl := Option.some.inj ha
    obtain ⟨⟨hb, -⟩, habove, hnd⟩ := h
    unfold UtilAvl.nodePlace
    rw [hb]
    cases c with
    | nil => rfl
    | cons f c =>
      dsimp only [owner]
      rw [habove.1]
      cases f with
      | left h a r' => exact if_pos rfl
      | right h l' a =>
        refine if_neg fun e => ?_
        have hmem : b ∈ l'.keys := root_mem e
        refine (List.nodup_append.1 hnd).2.2 b ?_ b ?_ rfl
        · simp
        · exact List.mem_cons_of_mem _ (List.mem_append_left _ hmem)

/-! ## Rotations -/

/-- The new root of a subtree is linked, and then one of the subtrees below it gets its new parent. -/
theorem Above.put_setParentOf (ha : Above s c x) (hnd : (outside c).Nodup) (ht : ∀ j ∈ outside c, j ∉ t.keys) :
    Above ((s.put (place c) y).setParentOf t.root (some i)) c y :=
  (ha.put hnd).congr setParentOf_rootNode fun j hj => setParentOf_of_notMem (ht j hj)

/-- The writes to the two nodes of a rotation. -/
theorem rotateRight_eq (hab : a ≠ b) (x : Option Nat) (p : NodePlace) :
    ∃ s1 : UtilAvl, s.rotateRight a b x p k = (s1.put p (some b)).setParentOf x (some a) ∧
      s1.node a = ⟨x, (s.node a).avlRight, some b, k + 1⟩ ∧
      s1.node b = ⟨(s.node b).avlLeft, some a, (s.node a).parent, k + 1 + 1⟩ ∧
      s1.rootNode = s.rootNode ∧ ∀ j, j ≠ a → j ≠ b → s1.node j = s.node j := by
  refine ⟨_, rfl, ?_, ?_, rfl, ?_⟩
  · simp [setRight_of_ne, setHeight_of_ne, setParent_of_ne, hab]
  · simp [setLeft_of_ne, setRight_of_ne, setHeight_of_ne, setParent_of_ne, hab, hab.symm]
  · intro j h1 h2
    simp [setLeft_of_ne, setRight_of_ne, setHeight_of_ne, setParent_of_ne, h1, h2]

theorem rotateLeft_eq (hab : a ≠ b) (x : Option Nat) (p : NodePlace) :
    ∃ s1 : UtilAvl, s.rotateLeft a b x p k = (s1.put p (some b)).setParentOf x (some a) ∧
      s1.node a = ⟨(s.node a).avlLeft, x, some b, k + 1⟩ ∧
      s1.node b = ⟨some a, (s.node b).avlRight, (s.node a).parent, k + 1 + 1⟩ ∧
      s1.rootNode = s.rootNode ∧ ∀ j, j ≠ a → j ≠ b → s1.node j = s.node j := by
  refine ⟨_, rfl, ?_, ?_, rfl, ?_⟩
  · simp [setLeft_of_ne, setHeight_of_ne, setParent_of_ne, hab]
  · simp [setLeft_of_ne, setRight_of_ne, setHeight_of_ne, setParent_of_ne, hab, hab.symm]
  · intro j h1 h2
    simp [setLeft_of_ne, setRight_of_ne, setHeight_of_ne, setParent_of_ne, h1, h2]

theorem rotateRight_at (hs : At s c (.node h (.node hl ll b lr) a r)) :
    At (s.rotateRight a b lr.root (place c) k) c (.node (k + 1 + 1) ll b (.node (k + 1) lr a r)) := by
  obtain ⟨⟨ha, ⟨hb, hll, hlr⟩, hr⟩, habove, hnd⟩ := hs
  have hnd' : ((HeightTree.node (k + 1 + 1) ll b (.node (k + 1) lr a r)).keys ++ outside c).Nodup := by
    simpa using hnd
  simp only [keys] at hnd
  have hab : a ≠ b := by grind
  obtain ⟨s1, heq, h1a, h1b, hroot, h1⟩ := rotateRight_eq (s := s) (k := k) hab lr.root (place c)
  rw [heq]
  have hout : (outside c).Nodup ∧ ∀ j ∈ outside c, j ≠ a ∧ j ≠ b ∧ j ∉ lr.keys := by grind
  have hlr' : lr.keys.Nodup ∧ ∀ j ∈ lr.keys, j ≠ a ∧ j ≠ b ∧ j ∉ outside c := by grind
  -- what is neither on the spine nor in the subtree that moves stays as it is
  have hsame : ∀ j, j ∉ lr.keys → j ∉ outside c →
      ((s1.put (place c) (some b)).setParentOf lr.root (some a)).node j = s1.node j := by
    intro j hj hj'
    rw [setParentOf_of_notMem hj, put_of_notMem hj']
  have hstay : ∀ j ∈ ll.keys ++ r.keys,
      ((s1.put (place c) (some b)).setParentOf lr.root (some a)).node j = s.node j := by
    intro j hj
    have hne : j ∉ lr.keys ∧ j ∉ outside c ∧ j ≠ a ∧ j ≠ b := by grind
    rw [hsame j hne.1 hne.2.1, h1 j hne.2.2.1 hne.2.2.2]
  refine ⟨⟨?_, hll.congr ?_, ?_, ?_, hr.congr ?_⟩, ?_, hnd'⟩
  · rw [hsame b (by grind) (by grind), h1b, hb, ha]
    rfl
  · intro j hj
    exact hstay j (List.mem_append_left _ hj)
  · rw [hsame a (by grind) (by grind), h1a, ha]
  · refine Linked.reparent (hlr.congr fun j hj => ?_) hlr'.1
    obtain ⟨h2, h3, h4⟩ := hlr'.2 j hj
    rw [put_of_notMem h4, h1 j h2 h3]
  · intro j hj
    exact hstay j (List.mem_append_right _ hj)
  · refine Above.put_setParentOf (habove.congr hroot fun j hj => ?_) hout.1 fun j hj => (hout.2 j hj).2.2
    exact h1 j (hout.2 j hj).1 (hout.2 j hj).2.1

theorem rotateLeft_at (hs : At s c (.node h l a (.node hr rl b rr))) :
    At (s.rotateLeft a b rl.root (place c) k) c (.node (k + 1 + 1) (.node (k + 1) l a rl) b rr) := by
  obtain ⟨⟨ha, hl, ⟨hb, hrl, hrr⟩⟩, habove, hnd⟩ := hs
  have hnd' : ((HeightTree.node (k + 1 + 1) (.node (k + 1) l a rl) b rr).keys ++ outside c).Nodup := by
    simpa using hnd
  simp only [keys] at hnd
  have hab : a ≠ b := by grind
  obtain ⟨s1, heq, h1a, h1b, hroot, h1⟩ := rotateLeft_eq (s := s) (k := k) hab rl.root (place c)
  rw [heq]
  have hout : (outside c).Nodup ∧ ∀ j ∈ outside c, j ≠ a ∧ j ≠ b ∧ j ∉ rl.keys := by grind
  have hrl' : rl.keys.Nodup ∧ ∀ j ∈ rl.keys, j ≠ a ∧ j ≠ b ∧ j ∉ outside c := by grind
  have hsame : ∀ j, j ∉ rl.keys → j ∉ outside c →
      ((s1.put (place c) (some b)).setParentOf rl.root (some a)).node j = s1.node j := by
    intro j hj hj'
    rw [setParentOf_of_notMem hj, put_of_notMem hj']
  have hstay : ∀ j ∈ l.keys ++ rr.keys,
      ((s1.put (place c) (some b)).setParentOf rl.root (some a)).node j = s.node j := by
    intro j hj
    have hne : j ∉ rl.keys ∧ j ∉ outside c ∧ j ≠ a ∧ j ≠ b := by grind
    rw [hsame j hne.1 hne.2.1, h1 j hne.2.2.1 hne.2.2.2]
  refine ⟨⟨?_, ⟨?_, hl.congr ?_, ?_⟩, hrr.congr ?_⟩, ?_, hnd'⟩
  · rw [hsame b (by grind) (by grind), h1b, hb, ha]
    rfl
  · rw [hsame a (by grind) (by grind), h1a, ha]
  · intro j hj
    exact hstay j (List.mem_append_left _ hj)
  · refine Linked.reparent (hrl.congr fun j hj => ?_) hrl'.1
    obtain ⟨h2, h3, h4⟩ := hrl'.2 j hj
    rw [put_of_notMem h4, h1 j h2 h3]
  · intro j hj
    exact hstay j (List.mem_append_right _ hj)
  · refine Above.put_setParentOf (habove.congr hroot fun j hj => ?_) hout.1 fun j hj => (hout.2 j hj).2.2
    exact h1 j (hout.2 j hj).1 (hout.2 j hj).2.1

@[simp] theorem setParentOf_avlLeft : ((s.setParentOf y x).node j).avlLeft = (s.node j).avlLeft := by
  cases y with
  | none => rfl
  | some i =>
    by_cases hj : j = i
    · subst hj
      simp [setParentOf]
    · simp [setParentOf, setParent_of_ne hj]

@[simp] theorem setParentOf_avlRight : ((s.setParentOf y x).node j).avlRight = (s.node j).avlRight := by
  cases y with
  | none => rfl
  | some i =>
    by_cases hj : j = i
    · subst hj
      simp [setParentOf]
    · simp [setParentOf, setParent_of_ne hj]

/-- Three nodes, and the lists of those below, beside and above them. -/
theorem apart_of_nodup {m1 m2 rest out : List Nat} (hnd : (a :: b :: d :: (m1 ++ (m2 ++ (rest ++ out)))).Nodup) :
    (a ≠ b ∧ a ≠ d ∧ b ≠ d) ∧
      (out.Nodup ∧ ∀ j ∈ out, j ≠ a ∧ j ≠ b ∧ j ≠ d ∧ j ∉ m1 ∧ j ∉ m2) ∧
      (m1.Nodup ∧ ∀ j ∈ m1, j ≠ a ∧ j ≠ b ∧ j ≠ d ∧ j ∉ m2 ∧ j ∉ out) ∧
      (m2.Nodup ∧ ∀ j ∈ m2, j ≠ a ∧ j ≠ b ∧ j ≠ d ∧ j ∉ m1 ∧ j ∉ out) ∧
      (∀ j ∈ rest, j ∉ m1 ∧ j ∉ m2 ∧ j ∉ out ∧ j ≠ a ∧ j ≠ b ∧ j ≠ d) ∧
      ∀ j ∈ [a, b, d], j ∉ m1 ∧ j ∉ m2 ∧ j ∉ out := by
  simp only [List.nodup_cons, List.nodup_append, List.mem_append, List.mem_cons, not_or] at hnd
  obtain ⟨⟨hab, had, ha1, ha2, ha3, ha4⟩, ⟨hbd, hb1, hb2, hb3, hb4⟩, ⟨hd1, hd2, hd3, hd4⟩, hm1, ⟨hm2, ⟨-, hout, h34⟩, h2⟩,
    h1⟩ := hnd
  refine ⟨⟨hab, had, hbd⟩, ⟨hout, ?_⟩, ⟨hm1, ?_⟩, ⟨hm2, ?_⟩, ?_, ?_⟩
  all_goals
    intro j hj
    grind

/-- The writes to the three nodes of a double rotation. -/
theorem midmountRight_eq (hab : a ≠ b) (had : a ≠ d) (hbd : b ≠ d) (p : NodePlace) :
    ∃ s1 : UtilAvl,
      s.midmountRight a b d p k = ((s1.setParentOf (s1.node b).avlRight (some b)).setParentOf
        ((s1.setParentOf (s1.node b).avlRight (some b)).node a).avlLeft (some a)).put p (some d) ∧
      s1.node a = ⟨(s.node d).avlRight, (s.node a).avlRight, some d, k⟩ ∧
      s1.node b = ⟨(s.node b).avlLeft, (s.node d).avlLeft, some d, k⟩ ∧
      s1.node d = ⟨some b, some a, (s.node a).parent, (s.node b).height⟩ ∧
      s1.rootNode = s.rootNode ∧ ∀ j, j ≠ a → j ≠ b → j ≠ d → s1.node j = s.node j := by
  refine ⟨_, rfl, ?_, ?_, ?_, rfl, ?_⟩
  · simp [setLeft_of_ne, setRight_of_ne, setHeight_of_ne, setParent_of_ne, hab, had, hbd.symm]
  · simp [setLeft_of_ne, setRight_of_ne, setHeight_of_ne, setParent_of_ne, hab.symm, hbd]
  · simp [setLeft_of_ne, setRight_of_ne, setHeight_of_ne, setParent_of_ne, hab, hab.symm, had, hbd, had.symm, hbd.symm]
  · intro j h1 h2 h3
    simp [setLeft_of_ne, setRight_of_ne, setHeight_of_ne, setParent_of_ne, h1, h2, h3]

theorem midmountLeft_eq (hab : a ≠ b) (had : a ≠ d) (hbd : b ≠ d) (p : NodePlace) :
    ∃ s1 : UtilAvl,
      s.midmountLeft a b d p k = ((s1.setParentOf (s1.node b).avlLeft (some b)).setParentOf
        ((s1.setParentOf (s1.node b).avlLeft (some b)).node a).avlRight (some a)).put p (some d) ∧
      s1.node a = ⟨(s.node a).avlLeft, (s.node d).avlLeft, some d, k⟩ ∧
      s1.node b = ⟨(s.node d).avlRight, (s.node b).avlRight, some d, k⟩ ∧
      s1.node d = ⟨some a, some b, (s.node a).parent, (s.node b).height⟩ ∧
      s1.rootNode = s.rootNode ∧ ∀ j, j ≠ a → j ≠ b → j ≠ d → s1.node j = s.node j := by
  refine ⟨_, rfl, ?_, ?_, ?_, rfl, ?_⟩
  · simp [setLeft_of_ne, setRight_of_ne, setHeight_of_ne, setParent_of_ne, hab, had, hbd.symm]
  · simp [setLeft_of_ne, setRight_of_ne, setHeight_of_ne, setParent_of_ne, hab.symm, hbd]
  · simp [setLeft_of_ne, setRight_of_ne, setHeight_of_ne, setParent_of_ne, hab, hab.symm, had, hbd, had.symm, hbd.symm]
  · intro j h1 h2 h3
    simp [setLeft_of_ne, setRight_of_ne, setHeight_of_ne, setParent_of_ne, h1, h2, h3]

theorem midmountRight_at (hs : At s c (.node h (.node hl ll b (.node hm m1 d m2)) a r)) :
    At (s.midmountRight a b d (place c) k) c (.node hl (.node k ll b m1) d (.node k m2 a r)) := by
  obtain ⟨⟨ha, ⟨hb, hll, ⟨hd, hm1, hm2⟩⟩, hr⟩, habove, hnd⟩ := hs
  have hnd' : ((HeightTree.node hl (.node k ll b m1) d (.node k m2 a r)).keys ++ outside c).Nodup := by
    simpa using hnd
  simp only [keys] at hnd
  have hperm : (a :: b :: d :: (m1.keys ++ (m2.keys ++ ((ll.keys ++ r.keys) ++ outside c)))).Nodup := by
    refine (List.Perm.nodup_iff (List.perm_iff_count.2 fun x => ?_)).1 hnd
    simp only [List.count_append, List.count_cons]
    omega
  obtain ⟨⟨hab, had, hbd⟩, hout, hm1', hm2', hrest, hspine⟩ := apart_of_nodup hperm
  obtain ⟨s1, heq, h1a, h1b, h1d, hroot, h1⟩ := midmountRight_eq (s := s) (k := k) hab had hbd (place c)
  rw [heq, setParentOf_avlLeft, h1a, h1b, hd]
  have hsame : ∀ j, j ∉ m1.keys → j ∉ m2.keys → j ∉ outside c →
      (((s1.setParentOf m1.root (some b)).setParentOf m2.root (some a)).put (place c) (some d)).node j = s1.node j := by
    intro j hj hj' hc
    rw [put_of_notMem hc, setParentOf_of_notMem hj', setParentOf_of_notMem hj]
  have hspine' : ∀ j ∈ [a, b, d], (((s1.setParentOf m1.root (some b)).setParentOf m2.root (some a)).put (place c) (some d)).node j =
      s1.node j := by
    intro j hj
    obtain ⟨h2, h3, h4⟩ := hspine j hj
    exact hsame j h2 h3 h4
  have hstay : ∀ j ∈ ll.keys ++ r.keys,
      (((s1.setParentOf m1.root (some b)).setParentOf m2.root (some a)).put (place c) (some d)).node j = s.node j := by
    intro j hj
    obtain ⟨h2, h3, h4, h5, h6, h7⟩ := hrest j hj
    rw [hsame j h2 h3 h4, h1 j h5 h6 h7]
  have hm1s : Linked s1.node (some d) m1 := hm1.congr fun j hj => by
    obtain ⟨h2, h3, h4, -⟩ := hm1'.2 j hj
    exact h1 j h2 h3 h4
  have hm2s : Linked (s1.setParentOf m1.root (some b)).node (some d) m2 := hm2.congr fun j hj => by
    obtain ⟨h2, h3, h4, h5, -⟩ := hm2'.2 j hj
    rw [setParentOf_of_notMem h5, h1 j h2 h3 h4]
  refine ⟨⟨?_, ⟨?_, hll.congr ?_, ?_⟩, ⟨?_, ?_, hr.congr ?_⟩⟩, ?_, hnd'⟩
  · rw [hspine' d (by simp), h1d, ha, hb]
    rfl
  · rw [hspine' b (by simp), h1b, hb, hd]
  · intro j hj
    exact hstay j (List.mem_append_left _ hj)
  · refine (hm1s.reparent hm1'.1).congr fun j hj => ?_
    obtain ⟨-, -, -, h5, h6⟩ := hm1'.2 j hj
    rw [put_of_notMem h6, setParentOf_of_notMem h5]
  · rw [hspine' a (by simp), h1a, ha, hd]
  · refine (hm2s.reparent hm2'.1).congr fun j hj => ?_
    exact put_of_notMem (hm2'.2 j hj).2.2.2.2
  · intro j hj
    exact hstay j (List.mem_append_right _ hj)
  · refine Above.put (habove.congr ?_ fun j hj => ?_) hout.1
    · simp [hroot]
    · obtain ⟨h2, h3, h4, h5, h6⟩ := hout.2 j hj
      rw [setParentOf_of_notMem h6, setParentOf_of_notMem h5, h1 j h2 h3 h4]

theorem midmountLeft_at (hs : At s c (.node h l a (.node hr (.node hm m1 d m2) b rr))) :
    At (s.midmountLeft a b d (place c) k) c (.node hr (.node k l a m1) d (.node k m2 b rr)) := by
  obtain ⟨⟨ha, hl, ⟨hb, ⟨hd, hm1, hm2⟩, hrr⟩⟩, habove, hnd⟩ := hs
  have hnd' : ((HeightTree.node hr (.node k l a m1) d (.node k m2 b rr)).keys ++ outside c).Nodup := by
    simpa using hnd
  simp only [keys] at hnd
  have hperm : (a :: b :: d :: (m1.keys ++ (m2.keys ++ ((l.keys ++ rr.keys) ++ outside c)))).Nodup := by
    refine (List.Perm.nodup_iff (List.perm_iff_count.2 fun x => ?_)).1 hnd
    simp only [List.count_append, List.count_cons]
    omega
  obtain ⟨⟨hab, had, hbd⟩, hout, hm1', hm2', hrest, hspine⟩ := apart_of_nodup hperm
  obtain ⟨s1, heq, h1a, h1b, h1d, hroot, h1⟩ := midmountLeft_eq (s := s) (k := k) hab had hbd (place c)
  rw [heq, setParentOf_avlRight, h1a, h1b, hd]
  have hsame : ∀ j, j ∉ m1.keys → j ∉ m2.keys → j ∉ outside c →
      (((s1.setParentOf m2.root (some b)).setParentOf m1.root (some a)).put (place c) (some d)).node j = s1.node j := by
    intro j hj hj' hc
    rw [put_of_notMem hc, setParentOf_of_notMem hj, setParentOf_of_notMem hj']
  have hspine' : ∀ j ∈ [a, b, d], (((s1.setParentOf m2.root (some b)).setParentOf m1.root (some a)).put (place c) (some d)).node j =
      s1.node j := by
    intro j hj
    obtain ⟨h2, h3, h4⟩ := hspine j hj
    exact hsame j h2 h3 h4
  have hstay : ∀ j ∈ l.keys ++ rr.keys,
      (((s1.setParentOf m2.root (some b)).setParentOf m1.root (some a)).put (place c) (some d)).node j = s.node j := by
    intro j hj
    obtain ⟨h2, h3, h4, h5, h6, h7⟩ := hrest j hj
    rw [hsame j h2 h3 h4, h1 j h5 h6 h7]
  have hm2s : Linked s1.node (some d) m2 := hm2.congr fun j hj => by
    obtain ⟨h2, h3, h4, -⟩ := hm2'.2 j hj
    exact h1 j h2 h3 h4
  have hm1s : Linked (s1.setParentOf m2.root (some b)).node (some d) m1 := hm1.congr fun j hj => by
    obtain ⟨h2, h3, h4, h5, -⟩ := hm1'.2 j hj
    rw [setParentOf_of_notMem h5, h1 j h2 h3 h4]
  refine ⟨⟨?_, ⟨?_, hl.congr ?_, ?_⟩, ⟨?_, ?_, hrr.congr ?_⟩⟩, ?_, hnd'⟩
  · rw [hspine' d (by simp), h1d, ha, hb]
    rfl
  · rw [hspine' a (by simp), h1a, ha, hd]
  · intro j hj
    exact hstay j (List.mem_append_left _ hj)
  · refine (hm1s.reparent hm1'.1).congr fun j hj => ?_
    exact put_of_notMem (hm1'.2 j hj).2.2.2.2
  · rw [hspine' b (by simp), h1b, hb, hd]
  · refine (hm2s.reparent hm2'.1).congr fun j hj => ?_
    obtain ⟨-, -, -, h5, h6⟩ := hm2'.2 j hj
    rw [put_of_notMem h6, setParentOf_of_notMem h5]
  · intro j hj
    exact hstay j (List.mem_append_right _ hj)
  · refine Above.put (habove.congr ?_ fun j hj => ?_) hout.1
    · simp [hroot]
    · obtain ⟨h2, h3, h4, h5, h6⟩ := hout.2 j hj
      rw [setParentOf_of_notMem h5, setParentOf_of_notMem h6, h1 j h2 h3 h4]

/-! ## One round -/

theorem setHeight_at (hs : At s c (.node h l a r)) : At (s.setHeight a k) c (.node k l a r) := by
  obtain ⟨⟨ha, hl, hr⟩, habove, hnd⟩ := hs
  have hne : ∀ j, j ∈ l.keys ∨ j ∈ r.keys ∨ j ∈ outside c → j ≠ a := by
    have hnd' := hnd
    simp only [keys] at hnd'
    grind
  refine ⟨⟨?_, hl.congr ?_, hr.congr ?_⟩, habove.congr rfl ?_, hnd⟩
  · rw [setHeight_self, ha]
  · intro j hj
    exact setHeight_of_ne (hne j (.inl hj))
  · intro j hj
    exact setHeight_of_ne (hne j (.inr (.inl hj)))
  · intro j hj
    exact setHeight_of_ne (hne j (.inr (.inr hj)))

/-- The parent of the root of a position. -/
theorem At.root_parent (hs : At s c t) (ha : t.root = some a) : (s.node a).parent = owner c := by
  cases t with
  | nil => cases ha
  | node h l b r =>
    cases ha
    rw [hs.below.1]

/-- A round does to the node at a position what `fix` does, and goes to the node above. -/
theorem rebalanceRound_at (hs : At s c t) (ha : t.root = some a) :
    match fix t with
    | none => s.rebalanceRound a = some .stop
    | some t' => ∃ s', s.rebalanceRound a = some (.next s' (owner c)) ∧ At s' c t' := by
  have hplace := hs.nodePlace ha
  cases t with
  | nil => cases ha
  | node h l b r =>
    cases ha
    have hb := hs.below
    obtain ⟨hb, hll, hrr⟩ := hb
    unfold rebalanceRound fix
    rw [hb, hplace]
    dsimp only
    rw [heightOf_root hll, heightOf_root hrr]
    by_cases h1 : r.ht + 1 < l.ht
    · rw [if_pos h1, if_pos h1]
      cases l with
      | nil => simp at h1
      | node hl' l1 d lr =>
        obtain ⟨hd, hl1, hlr⟩ := hll
        dsimp only [root_node]
        unfold rotRight
        rw [hd]
        dsimp only
        rw [heightOf_root hl1, heightOf_root hlr]
        by_cases h2 : lr.ht ≤ l1.ht
        · rw [if_pos h2, if_pos h2]
          have hrot := rotateRight_at (k := lr.ht) hs
          refine ⟨_, ?_, hrot⟩
          rw [hrot.root_parent rfl]
        · rw [if_neg h2, if_neg h2]
          cases lr with
          | nil => simp at h2
          | node hm m1 e m2 =>
            have hrot := midmountRight_at (k := hm) hs
            refine ⟨_, ?_, hrot⟩
            rw [root_node, ht_node]
            dsimp only
            rw [hrot.root_parent rfl]
    · rw [if_neg h1, if_neg h1]
      by_cases h2 : l.ht + 1 < r.ht
      · rw [if_pos h2, if_pos h2]
        cases r with
        | nil => simp at h2
        | node hr' rl d r1 =>
          obtain ⟨hd, hrl, hr1⟩ := hrr
          dsimp only [root_node]
          unfold rotLeft
          rw [hd]
          dsimp only
          rw [heightOf_root hr1, heightOf_root hrl]
          by_cases h3 : rl.ht ≤ r1.ht
          · rw [if_pos h3, if_pos h3]
            have hrot := rotateLeft_at (k := rl.ht) hs
            refine ⟨_, ?_, hrot⟩
            rw [hrot.root_parent rfl]
          · rw [if_neg h3, if_neg h3]
            cases rl with
            | nil => simp at h3
            | node hm m1 e m2 =>
              have hrot := midmountLeft_at (k := hm) hs
              refine ⟨_, ?_, hrot⟩
              rw [root_node, ht_node]
              dsimp only
              rw [hrot.root_parent rfl]
      · have hmax : (if l.ht < r.ht then r.ht else l.ht) = max l.ht r.ht := by
          split_ifs <;> omega
        rw [if_neg h2, if_neg h2, hmax]
        by_cases h3 : max l.ht r.ht + 1 = h
        · rw [if_pos h3, if_pos h3]
        · rw [if_neg h3, if_neg h3]
          have hset := setHeight_at (k := max l.ht r.ht + 1) hs
          refine ⟨_, ?_, hset⟩
          rw [hset.root_parent rfl]

/-- `util_avl_rebalance` from the node at a position. -/
theorem rebalance_at {n : Nat} (hs : At s c t) (ha : t.root = some a) (hn : c.length < n) :
    ∃ s', utilAvlRebalance n s (some a) = some s' ∧ At s' [] (climb c t) := by
  induction c generalizing s t a n with
  | nil =>
    obtain ⟨n, rfl⟩ := Nat.exists_eq_succ_of_ne_zero (Nat.ne_of_gt hn)
    have hround := rebalanceRound_at hs ha
    unfold utilAvlRebalance
    cases hf : fix t with
    | none =>
      rw [hf] at hround
      rw [hround, climb_of_none hf]
      exact ⟨s, rfl, hs⟩
    | some t' =>
      rw [hf] at hround
      obtain ⟨s', hround, hs'⟩ := hround
      rw [hround, climb_of_some hf]
      refine ⟨s', ?_, hs'⟩
      cases n <;> rfl
  | cons f c ih =>
    obtain ⟨n, rfl⟩ := Nat.exists_eq_succ_of_ne_zero (Nat.ne_of_gt (Nat.zero_lt_of_lt hn))
    have hround := rebalanceRound_at hs ha
    unfold utilAvlRebalance
    cases hf : fix t with
    | none =>
      rw [hf] at hround
      rw [hround, climb_of_none hf]
      exact ⟨s, rfl, at_plug_iff.2 hs⟩
    | some t' =>
      rw [hf] at hround
      obtain ⟨s', hround, hs'⟩ := hround
      rw [hround, climb_of_some hf]
      exact ih hs'.up (Limb.root_fill f t') (by simp at hn; omega)

/-- The same, from the node above a position. -/
theorem rebalance_owner_at {n : Nat} (hs : At s c t) (hn : c.length ≤ n) :
    ∃ s', utilAvlRebalance n s (owner c) = some s' ∧ At s' [] (climbTo c t) := by
  cases c with
  | nil =>
    refine ⟨s, ?_, hs⟩
    cases n <;> rfl
  | cons f c => exact rebalance_at hs.up (Limb.root_fill f t) hn

end RtThread.UtilAvl
