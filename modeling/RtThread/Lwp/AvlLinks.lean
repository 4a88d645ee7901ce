import RtThread.Lib.HeightTree
import RtThread.Lwp.Avl

/-!
# The links of an AVL tree without parents

What it means that the nodes in the heap form a tree: below a position (`Linked`), above it (`Above`), and at it (`At`).
One round of `lwp_avl_rebalance` repairs the node at a position (`rebalanceRound_at`), and the entries of the stack lead
from there to the root (`rebalance_at`). Keys and data, and the nodes outside the tree, stay as they are (`Keeps`).
-/

namespace RtThread.LwpAvl

open HeightTree

/-- The children and the height of a node. -/
def HasLinks (x : LwpAvlStruct) (left right : Option Nat) (height : Nat) : Prop :=
  x.avlLeft = left ∧ x.avlRight = right ∧ x.avlHeight = height

/-- The nodes of a tree. -/
def Linked (node : Nat → LwpAvlStruct) : HeightTree Nat → Prop
  | .nil => True
  | .node h l a r => HasLinks (node a) l.root r.root h ∧ Linked node l ∧ Linked node r

/-- The variable that links the hole of a limb. -/
def linkOf : Limb Nat → NodePlace
  | .left _ a _ => .avlLeft a
  | .right _ _ a => .avlRight a

/-- The variable that links a position. -/
def place : List (Limb Nat) → NodePlace
  | [] => .rootNode
  | f :: _ => linkOf f

/-- The node of a limb around the child `x`. -/
def Around (node : LwpAvlStruct) (x : Option Nat) : Limb Nat → Prop
  | .left h _ r => HasLinks node x r.root h
  | .right h l _ => HasLinks node l.root x h

/-- The nodes around a position, at which `x` is linked. -/
def Above (s : LwpAvl) : List (Limb Nat) → Option Nat → Prop
  | [], x => s.ptree = x
  | f :: c, x => Around (s.node f.key) x f ∧ Linked s.node f.sibling ∧ Above s c (some f.key)

/-- The heap holds a tree, which is `t` at the position below `c`. -/
structure At (s : LwpAvl) (c : List (Limb Nat)) (t : HeightTree Nat) : Prop where
  below : Linked s.node t
  above : Above s c t.root
  nodup : (t.keys ++ outside c).Nodup

/-- The keys and data of all nodes and the nodes outside a set are as before. -/
structure Keeps (s s' : LwpAvl) (ids : List Nat) : Prop where
  key : ∀ i, (s'.node i).avlKey = (s.node i).avlKey
  data : ∀ i, (s'.node i).data = (s.node i).data
  node : ∀ i, i ∉ ids → s'.node i = s.node i

variable {s s' s'' : LwpAvl} {c c' : List (Limb Nat)} {f : Limb Nat} {t t' l r ll lr rl rr m1 m2 : HeightTree Nat}
  {m m' : Nat → LwpAvlStruct} {x y : Option Nat} {a b d i j k k' h hl hr hm : Nat} {ids ids' : List Nat}

/-! ## Reads over writes -/

@[simp] theorem setLeft_self : (s.setLeft i x).node i = { s.node i with avlLeft := x } := Function.update_self _ _ _
@[simp] theorem setRight_self : (s.setRight i x).node i = { s.node i with avlRight := x } := Function.update_self _ _ _
@[simp] theorem setHeight_self : (s.setHeight i h).node i = { s.node i with avlHeight := h } :=
  Function.update_self _ _ _
theorem setLeft_of_ne (hj : j ≠ i) : (s.setLeft i x).node j = s.node j := Function.update_of_ne hj _ _
theorem setRight_of_ne (hj : j ≠ i) : (s.setRight i x).node j = s.node j := Function.update_of_ne hj _ _
theorem setHeight_of_ne (hj : j ≠ i) : (s.setHeight i h).node j = s.node j := Function.update_of_ne hj _ _
@[simp] theorem setLeft_ptree : (s.setLeft i x).ptree = s.ptree := rfl
@[simp] theorem setRight_ptree : (s.setRight i x).ptree = s.ptree := rfl
@[simp] theorem setHeight_ptree : (s.setHeight i h).ptree = s.ptree := rfl

theorem put_of_notMem (hj : j ∉ outside c) : (s.put (place c) x).node j = s.node j := by
  cases c with
  | nil => rfl
  | cons f c =>
    rw [outside_cons, List.mem_cons, not_or] at hj
    cases f with
    | left h a r => exact setLeft_of_ne hj.1
    | right h l a => exact setRight_of_ne hj.1

/-! ## What is kept -/

theorem Keeps.refl : Keeps s s ids := ⟨fun _ => rfl, fun _ => rfl, fun _ _ => rfl⟩

theorem Keeps.trans (h : Keeps s s' ids) (h' : Keeps s' s'' ids) : Keeps s s'' ids where
  key i := (h'.key i).trans (h.key i)
  data i := (h'.data i).trans (h.data i)
  node i hi := (h'.node i hi).trans (h.node i hi)

theorem Keeps.mono (h : Keeps s s' ids) (hsub : ∀ i ∈ ids, i ∈ ids') : Keeps s s' ids' :=
  ⟨h.key, h.data, fun i hi => h.node i fun hi' => hi (hsub i hi')⟩

/-- A write to the links or the height of one node. -/
theorem keeps_update {n : LwpAvlStruct} (hi : i ∈ ids) (hkey : n.avlKey = (s.node i).avlKey)
    (hdata : n.data = (s.node i).data) : Keeps s { s with node := Function.update s.node i n } ids := by
  refine ⟨fun j => ?_, fun j => ?_, fun j hj => Function.update_of_ne (ne_of_mem_of_not_mem hi hj).symm _ _⟩
  · by_cases hji : j = i
    · subst hji
      simpa using hkey
    · simp [hji]
  · by_cases hji : j = i
    · subst hji
      simpa using hdata
    · simp [hji]

theorem keeps_setLeft (hi : i ∈ ids) : Keeps s (s.setLeft i x) ids := keeps_update hi rfl rfl
theorem keeps_setRight (hi : i ∈ ids) : Keeps s (s.setRight i x) ids := keeps_update hi rfl rfl
theorem keeps_setHeight (hi : i ∈ ids) : Keeps s (s.setHeight i h) ids := keeps_update hi rfl rfl

theorem keeps_put (hsub : ∀ i ∈ outside c, i ∈ ids) : Keeps s (s.put (place c) x) ids := by
  cases c with
  | nil => exact ⟨fun _ => rfl, fun _ => rfl, fun _ _ => rfl⟩
  | cons f c =>
    have hkey : f.key ∈ ids := hsub _ (by simp)
    cases f with
    | left h a r => exact keeps_setLeft hkey
    | right h l a => exact keeps_setRight hkey

/-! ## Frames -/

theorem Linked.congr (hl : Linked m t) (hn : ∀ a ∈ t.keys, m' a = m a) : Linked m' t := by
  induction t with
  | nil => trivial
  | node h l a r ihl ihr =>
    obtain ⟨h1, h2, h3⟩ := hl
    refine ⟨?_, ihl h2 ?_, ihr h3 ?_⟩
    · rw [hn a (by simp)]
      exact h1
    · intro b hb
      exact hn b (List.mem_append_left _ hb)
    · intro b hb
      exact hn b (List.mem_append_right _ (List.mem_cons_of_mem _ hb))

theorem Linked.of_links (hl : Linked m t) (hn : ∀ i, HasLinks (m' i) (m i).avlLeft (m i).avlRight (m i).avlHeight) :
    Linked m' t := by
  induction t with
  | nil => trivial
  | node h l a r ihl ihr =>
    obtain ⟨⟨h1, h2, h3⟩, hl, hr⟩ := hl
    obtain ⟨h4, h5, h6⟩ := hn a
    exact ⟨⟨h4.trans h1, h5.trans h2, h6.trans h3⟩, ihl hl, ihr hr⟩

theorem Above.congr (ha : Above s c x) (hr : s'.ptree = s.ptree) (hn : ∀ a ∈ outside c, s'.node a = s.node a) :
    Above s' c x := by
  induction c generalizing x with
  | nil => exact hr.trans ha
  | cons f c ih =>
    obtain ⟨h1, h2, h3⟩ := ha
    refine ⟨?_, h2.congr ?_, ih h3 ?_⟩
    · rw [hn _ List.mem_cons_self]
      exact h1
    · intro b hb
      exact hn b (List.mem_cons_of_mem _ (List.mem_append_left _ hb))
    · intro b hb
      exact hn b (List.mem_cons_of_mem _ (List.mem_append_right _ hb))

/-- A heap with the same nodes in a tree holds the tree. -/
theorem At.congr (ha : At s c t) (hr : s'.ptree = s.ptree)
    (hn : ∀ i, i ∈ t.keys ∨ i ∈ outside c → s'.node i = s.node i) : At s' c t where
  below := ha.below.congr fun i hi => hn i (.inl hi)
  above := ha.above.congr hr fun i hi => hn i (.inr hi)
  nodup := ha.nodup

/-- A new link at a position. -/
theorem Above.put (ha : Above s c x) (hnd : (outside c).Nodup) : Above (s.put (place c) y) c y := by
  cases c with
  | nil => rfl
  | cons f c =>
    obtain ⟨h1, h2, h3⟩ := ha
    rw [outside_cons, List.nodup_cons, List.mem_append, not_or] at hnd
    obtain ⟨⟨hsib, hout⟩, -⟩ := hnd
    have hne : ∀ b, b ∈ f.sibling.keys ∨ b ∈ outside c → b ≠ f.key := by
      rintro b hb rfl
      exact hb.elim hsib hout
    cases f with
    | left h a r =>
      refine ⟨?_, h2.congr fun b hb => setLeft_of_ne (hne b (.inl hb)),
        h3.congr rfl fun b hb => setLeft_of_ne (hne b (.inr hb))⟩
      change HasLinks ((s.setLeft a y).node a) y r.root h
      rw [setLeft_self]
      exact ⟨rfl, h1.2⟩
    | right h l a =>
      refine ⟨?_, h2.congr fun b hb => setRight_of_ne (hne b (.inl hb)),
        h3.congr rfl fun b hb => setRight_of_ne (hne b (.inr hb))⟩
      change HasLinks ((s.setRight a y).node a) l.root y h
      rw [setRight_self]
      exact ⟨h1.1, rfl, h1.2.2⟩

/-- Nodes that are linked in a new way, and the tree of them put at the position. -/
theorem Above.relink (ha : Above s c x) (t' : HeightTree Nat) (hl : Linked s'.node t') (hr : s'.ptree = s.ptree)
    (hout : ∀ j ∈ outside c, s'.node j = s.node j) (hnd : (t'.keys ++ outside c).Nodup) :
    At (s'.put (place c) t'.root) c t' := by
  have hdisj := List.nodup_append.1 hnd
  refine ⟨hl.congr fun j hj => put_of_notMem fun hj' => hdisj.2.2 j hj j hj' rfl, ?_, hnd⟩
  exact (ha.congr hr hout).put hdisj.2.1

theorem At.relink (hs : At s c t) (t' : HeightTree Nat) (hl : Linked s'.node t') (hr : s'.ptree = s.ptree)
    (hout : ∀ j ∈ outside c, s'.node j = s.node j) (hkeys : t'.keys.Perm t.keys) :
    At (s'.put (place c) t'.root) c t' :=
  hs.above.relink t' hl hr hout ((hkeys.append_right _).nodup_iff.2 hs.nodup)

/-! ## Positions -/

theorem At.up (h : At s (f :: c) t) : At s c (f.fill t) := by
  obtain ⟨hb, ⟨h1, h2, h3⟩, hnd⟩ := h
  refine ⟨?_, ?_, ?_⟩
  · cases f with
    | left h a r => exact ⟨h1, hb, h2⟩
    | right h l a => exact ⟨h1, h2, hb⟩
  · rw [Limb.root_fill]
    exact h3
  · refine ((f.keys_fill_perm t).append_right _).nodup_iff.2 ?_
    rwa [List.append_assoc, List.cons_append]

theorem At.down (h : At s c (f.fill t)) : At s (f :: c) t := by
  obtain ⟨hb, ha, hnd⟩ := h
  have hnd' : (t.keys ++ outside (f :: c)).Nodup := by
    have h1 := ((f.keys_fill_perm t).append_right (outside c)).nodup_iff.1 hnd
    rwa [List.append_assoc, List.cons_append, ← outside_cons] at h1
  cases f with
  | left h a r => exact ⟨hb.2.1, ⟨hb.1, hb.2.2, ha⟩, hnd'⟩
  | right h l a => exact ⟨hb.2.2, ⟨hb.1, hb.2.1, ha⟩, hnd'⟩

theorem at_plug_iff : At s [] (plug c t) ↔ At s c t := by
  induction c generalizing t with
  | nil => rfl
  | cons f c ih => exact ih.trans ⟨At.down, At.up⟩

/-- The link at a position leads to the tree there. -/
theorem Above.get (ha : Above s c x) : s.get (place c) = x := by
  cases c with
  | nil => exact ha
  | cons f c =>
    cases f with
    | left h a r => exact ha.1.1
    | right h l a => exact ha.1.2.1

theorem heightof_root (ht : Linked s.node t) : s.heightof t.root = t.ht := by
  cases t with
  | nil => rfl
  | node h l a r => exact ht.1.2.2

/-! ## Rotations -/

/-- The left child comes up. -/
theorem rotateRight_at (hs : At s c (.node h (.node hl ll b lr) a r)) :
    At (((((s.setLeft a lr.root).setRight b (some a)).setHeight a k).setHeight b k').put (place c) (some b)) c
      (.node k' ll b (.node k lr a r)) := by
  have hnd := (List.nodup_append.1 hs.nodup).1
  have hdisj := (List.nodup_append.1 hs.nodup).2.2
  obtain ⟨ha, ⟨hb, hll, hlr⟩, hr⟩ := hs.below
  simp only [keys] at hnd hdisj
  have hab : a ≠ b := by grind
  have hother : ∀ j, j ≠ a → j ≠ b →
      ((((s.setLeft a lr.root).setRight b (some a)).setHeight a k).setHeight b k').node j = s.node j := by
    intro j hja hjb
    rw [setHeight_of_ne hjb, setHeight_of_ne hja, setRight_of_ne hjb, setLeft_of_ne hja]
  refine hs.relink (.node k' ll b (.node k lr a r)) ⟨?_, ?_, ?_, ?_, ?_⟩ rfl ?_ (by simp)
  · rw [setHeight_self, setHeight_of_ne hab.symm, setRight_self, setLeft_of_ne hab.symm]
    exact ⟨hb.1, rfl, rfl⟩
  · exact hll.congr fun j hj => hother j (by grind) (by grind)
  · rw [setHeight_of_ne hab, setHeight_self, setRight_of_ne hab, setLeft_self]
    exact ⟨rfl, ha.2.1, rfl⟩
  · exact hlr.congr fun j hj => hother j (by grind) (by grind)
  · exact hr.congr fun j hj => hother j (by grind) (by grind)
  · intro j hj
    exact hother j (by grind) (by grind)

/-- The right child comes up. -/
theorem rotateLeft_at (hs : At s c (.node h l a (.node hr rl b rr))) :
    At (((((s.setRight a rl.root).setLeft b (some a)).setHeight a k).setHeight b k').put (place c) (some b)) c
      (.node k' (.node k l a rl) b rr) := by
  have hnd := (List.nodup_append.1 hs.nodup).1
  have hdisj := (List.nodup_append.1 hs.nodup).2.2
  obtain ⟨ha, hl, ⟨hb, hrl, hrr⟩⟩ := hs.below
  simp only [keys] at hnd hdisj
  have hab : a ≠ b := by grind
  have hother : ∀ j, j ≠ a → j ≠ b →
      ((((s.setRight a rl.root).setLeft b (some a)).setHeight a k).setHeight b k').node j = s.node j := by
    intro j hja hjb
    rw [setHeight_of_ne hjb, setHeight_of_ne hja, setLeft_of_ne hjb, setRight_of_ne hja]
  refine hs.relink (.node k' (.node k l a rl) b rr) ⟨?_, ⟨?_, ?_, ?_⟩, ?_⟩ rfl ?_ (by simp)
  · rw [setHeight_self, setHeight_of_ne hab.symm, setLeft_self, setRight_of_ne hab.symm]
    exact ⟨rfl, hb.2.1, rfl⟩
  · rw [setHeight_of_ne hab, setHeight_self, setLeft_of_ne hab, setRight_self]
    exact ⟨ha.1, rfl, rfl⟩
  · exact hl.congr fun j hj => hother j (by grind) (by grind)
  · exact hrl.congr fun j hj => hother j (by grind) (by grind)
  · exact hrr.congr fun j hj => hother j (by grind) (by grind)
  · intro j hj
    exact hother j (by grind) (by grind)

/-- Three nodes of a tree that change places: they are different, and all others are neither. -/
theorem spine_apart (hnd : (t.keys ++ outside c).Nodup) {rest : List Nat}
    (hperm : t.keys.Perm (a :: b :: d :: rest)) :
    a ≠ b ∧ a ≠ d ∧ b ≠ d ∧ ∀ j, j ∈ rest ∨ j ∈ outside c → j ≠ a ∧ j ≠ b ∧ j ≠ d := by
  have hnd' := (hperm.append_right (outside c)).nodup_iff.1 hnd
  simp only [List.cons_append, List.nodup_cons, List.mem_cons, List.mem_append, not_or] at hnd'
  obtain ⟨⟨hab, had, ha⟩, ⟨hbd, hb⟩, hd, -⟩ := hnd'
  refine ⟨hab, had, hbd, fun j hj => ⟨?_, ?_, ?_⟩⟩
  · rintro rfl
    exact hj.elim ha.1 ha.2
  · rintro rfl
    exact hj.elim hb.1 hb.2
  · rintro rfl
    exact hj.elim hd.1 hd.2

/-- The right child of the left child comes up. -/
theorem midmountRight_at (hs : At s c (.node h (.node hl ll b (.node hm m1 d m2)) a r)) :
    At ((((((((s.setRight b m1.root).setLeft a m2.root).setLeft d (some b)).setRight d (some a)).setHeight a
      k).setHeight b k).setHeight d k').put (place c) (some d)) c (.node k' (.node k ll b m1) d (.node k m2 a r)) := by
  have hperm : (HeightTree.node h (.node hl ll b (.node hm m1 d m2)) a r).keys.Perm
      (a :: b :: d :: (ll.keys ++ m1.keys ++ m2.keys ++ r.keys)) := by
    refine List.perm_iff_count.2 fun x => ?_
    simp only [keys, List.count_append, List.count_cons]
    omega
  obtain ⟨hab, had, hbd, hrest⟩ := spine_apart hs.nodup hperm
  obtain ⟨ha, ⟨hb, hll, ⟨hd, hm1, hm2⟩⟩, hr⟩ := hs.below
  have hother : ∀ j, j ≠ a ∧ j ≠ b ∧ j ≠ d →
      (((((((s.setRight b m1.root).setLeft a m2.root).setLeft d (some b)).setRight d (some a)).setHeight a
        k).setHeight b k).setHeight d k').node j = s.node j := by
    rintro j ⟨hja, hjb, hjd⟩
    rw [setHeight_of_ne hjd, setHeight_of_ne hjb, setHeight_of_ne hja, setRight_of_ne hjd, setLeft_of_ne hjd,
      setLeft_of_ne hja, setRight_of_ne hjb]
  refine hs.relink (.node k' (.node k ll b m1) d (.node k m2 a r)) ⟨?_, ⟨?_, ?_, ?_⟩, ⟨?_, ?_, ?_⟩⟩ rfl ?_ ?_
  · rw [setHeight_self]
    exact ⟨by simp [setHeight_of_ne, had.symm, hbd.symm],
      by simp [setHeight_of_ne, had.symm, hbd.symm], rfl⟩
  · rw [setHeight_of_ne hbd, setHeight_self]
    exact ⟨by simp [setHeight_of_ne, setRight_of_ne, setLeft_of_ne, hab.symm, hbd, hb.1],
      by simp [setHeight_of_ne, setRight_of_ne, setLeft_of_ne, hab.symm, hbd], rfl⟩
  · exact hll.congr fun j hj => hother j (hrest j (.inl (by simp [hj])))
  · exact hm1.congr fun j hj => hother j (hrest j (.inl (by simp [hj])))
  · rw [setHeight_of_ne had, setHeight_of_ne hab, setHeight_self]
    exact ⟨by simp [setRight_of_ne, setLeft_of_ne, had],
      by simp [setRight_of_ne, setLeft_of_ne, hab, had, ha.2.1], rfl⟩
  · exact hm2.congr fun j hj => hother j (hrest j (.inl (by simp [hj])))
  · exact hr.congr fun j hj => hother j (hrest j (.inl (by simp [hj])))
  · exact fun j hj => hother j (hrest j (.inr hj))
  · simp

/-- The left child of the right child comes up. -/
theorem midmountLeft_at (hs : At s c (.node h l a (.node hr (.node hm m1 d m2) b rr))) :
    At ((((((((s.setLeft b m2.root).setRight a m1.root).setRight d (some b)).setLeft d (some a)).setHeight a
      k).setHeight b k).setHeight d k').put (place c) (some d)) c (.node k' (.node k l a m1) d (.node k m2 b rr)) := by
  have hperm : (HeightTree.node h l a (.node hr (.node hm m1 d m2) b rr)).keys.Perm
      (a :: b :: d :: (l.keys ++ m1.keys ++ m2.keys ++ rr.keys)) := by
    refine List.perm_iff_count.2 fun x => ?_
    simp only [keys, List.count_append, List.count_cons]
    omega
  obtain ⟨hab, had, hbd, hrest⟩ := spine_apart hs.nodup hperm
  obtain ⟨ha, hl, ⟨hb, ⟨hd, hm1, hm2⟩, hrr⟩⟩ := hs.below
  have hother : ∀ j, j ≠ a ∧ j ≠ b ∧ j ≠ d →
      (((((((s.setLeft b m2.root).setRight a m1.root).setRight d (some b)).setLeft d (some a)).setHeight a
        k).setHeight b k).setHeight d k').node j = s.node j := by
    rintro j ⟨hja, hjb, hjd⟩
    rw [setHeight_of_ne hjd, setHeight_of_ne hjb, setHeight_of_ne hja, setLeft_of_ne hjd, setRight_of_ne hjd,
      setRight_of_ne hja, setLeft_of_ne hjb]
  refine hs.relink (.node k' (.node k l a m1) d (.node k m2 b rr)) ⟨?_, ⟨?_, ?_, ?_⟩, ⟨?_, ?_, ?_⟩⟩ rfl ?_ ?_
  · rw [setHeight_self]
    exact ⟨by simp [setHeight_of_ne, had.symm, hbd.symm],
      by simp [setHeight_of_ne, had.symm, hbd.symm], rfl⟩
  · rw [setHeight_of_ne had, setHeight_of_ne hab, setHeight_self]
    exact ⟨by simp [setRight_of_ne, setLeft_of_ne, hab, had, ha.1],
      by simp [setRight_of_ne, setLeft_of_ne, had], rfl⟩
  · exact hl.congr fun j hj => hother j (hrest j (.inl (by simp [hj])))
  · exact hm1.congr fun j hj => hother j (hrest j (.inl (by simp [hj])))
  · rw [setHeight_of_ne hbd, setHeight_self]
    exact ⟨by simp [setHeight_of_ne, setRight_of_ne, setLeft_of_ne, hab.symm, hbd],
      by simp [setHeight_of_ne, setRight_of_ne, setLeft_of_ne, hab.symm, hbd, hb.2.1], rfl⟩
  · exact hm2.congr fun j hj => hother j (hrest j (.inl (by simp [hj])))
  · exact hrr.congr fun j hj => hother j (hrest j (.inl (by simp [hj])))
  · exact fun j hj => hother j (hrest j (.inr hj))
  · simp

/-- A node gets a height. -/
theorem setHeight_at (hs : At s c (.node h l a r)) : At (s.setHeight a k) c (.node k l a r) := by
  have hnd := (List.nodup_append.1 hs.nodup).1
  have hdisj := (List.nodup_append.1 hs.nodup).2.2
  simp only [keys] at hnd hdisj
  obtain ⟨ha, hl, hr⟩ := hs.below
  refine ⟨⟨?_, hl.congr fun j hj => setHeight_of_ne (by grind), hr.congr fun j hj => setHeight_of_ne (by grind)⟩,
    hs.above.congr rfl fun j hj => setHeight_of_ne (by grind), hs.nodup⟩
  rw [setHeight_self]
  exact ⟨ha.1, ha.2.1, rfl⟩

/-! ## Rebalance -/

/-- A round does to the node at a position what `fix` does. -/
theorem rebalanceRound_at (hs : At s c t) (ha : t.root = some a) (hids : ∀ i, i ∈ t.keys ∨ i ∈ outside c → i ∈ ids) :
    match fix t with
    | none => s.rebalanceRound (place c) a = some .stop
    | some t' => ∃ s', s.rebalanceRound (place c) a = some (.next s') ∧ At s' c t' ∧ Keeps s s' ids := by
  cases t with
  | nil => cases ha
  | node h l b r =>
    obtain rfl := Option.some.inj ha
    obtain ⟨hb, hll, hrr⟩ := hs.below
    have hbid : b ∈ ids := hids b (.inl (by simp))
    have hout : ∀ i ∈ outside c, i ∈ ids := fun i hi => hids i (.inr hi)
    unfold rebalanceRound fix
    dsimp only
    rw [hb.1, hb.2.1, hb.2.2, heightof_root hll, heightof_root hrr]
    by_cases h1 : r.ht + 1 < l.ht
    · rw [if_pos h1, if_pos h1]
      cases l with
      | nil => simp at h1
      | node hl' l1 d lr =>
        obtain ⟨hd, hl1, hlr⟩ := hll
        have hdid : d ∈ ids := hids d (.inl (by simp))
        dsimp only [root_node]
        unfold rotRight
        dsimp only
        rw [hd.1, hd.2.1, heightof_root hl1, heightof_root hlr]
        by_cases h2 : lr.ht ≤ l1.ht
        · rw [if_pos h2, if_pos h2, Nat.add_comm 1 lr.ht, Nat.add_comm 1]
          exact ⟨_, rfl, rotateRight_at hs, (((keeps_setLeft hbid).trans (keeps_setRight hdid)).trans
            (keeps_setHeight hbid)).trans (keeps_setHeight hdid) |>.trans (keeps_put hout)⟩
        · rw [if_neg h2, if_neg h2]
          cases lr with
          | nil => simp at h2
          | node hm m1 e m2 =>
            have heid : e ∈ ids := hids e (.inl (by simp))
            have hde : e ≠ d := by
              rintro rfl
              have hnd := (List.nodup_append.1 hs.nodup).1
              simp [List.nodup_append] at hnd
            dsimp only [root_node]
            rw [setRight_of_ne hde, hlr.1.1, hlr.1.2.1, ht_node, ht_node]
            exact ⟨_, rfl, midmountRight_at hs, (((((keeps_setRight hdid).trans (keeps_setLeft hbid)).trans
              (keeps_setLeft heid)).trans (keeps_setRight heid)).trans (keeps_setHeight hbid)).trans
              (keeps_setHeight hdid) |>.trans (keeps_setHeight heid) |>.trans (keeps_put hout)⟩
    · rw [if_neg h1, if_neg h1]
      by_cases h2 : l.ht + 1 < r.ht
      · rw [if_pos h2, if_pos h2]
        cases r with
        | nil => simp at h2
        | node hr' rl d r1 =>
          obtain ⟨hd, hrl, hr1⟩ := hrr
          have hdid : d ∈ ids := hids d (.inl (by simp))
          dsimp only [root_node]
          unfold rotLeft
          dsimp only
          rw [hd.1, hd.2.1, heightof_root hr1, heightof_root hrl]
          by_cases h3 : rl.ht ≤ r1.ht
          · rw [if_pos h3, if_pos h3, Nat.add_comm 1 rl.ht, Nat.add_comm 1]
            exact ⟨_, rfl, rotateLeft_at hs, (((keeps_setRight hbid).trans (keeps_setLeft hdid)).trans
              (keeps_setHeight hbid)).trans (keeps_setHeight hdid) |>.trans (keeps_put hout)⟩
          · rw [if_neg h3, if_neg h3]
            cases rl with
            | nil => simp at h3
            | node hm m1 e m2 =>
              have heid : e ∈ ids := hids e (.inl (by simp))
              have hde : e ≠ d := by
                rintro rfl
                have hnd := (List.nodup_append.1 hs.nodup).1
                simp [List.nodup_append] at hnd
              dsimp only [root_node]
              rw [setLeft_of_ne hde, hrl.1.1, hrl.1.2.1, ht_node, ht_node]
              exact ⟨_, rfl, midmountLeft_at hs, (((((keeps_setLeft hdid).trans (keeps_setRight hbid)).trans
                (keeps_setRight heid)).trans (keeps_setLeft heid)).trans (keeps_setHeight hbid)).trans
                (keeps_setHeight hdid) |>.trans (keeps_setHeight heid) |>.trans (keeps_put hout)⟩
      · have hmax : (if l.ht < r.ht then r.ht else l.ht) = max l.ht r.ht := by
          split_ifs <;> omega
        rw [if_neg h2, if_neg h2, hmax]
        by_cases h3 : max l.ht r.ht + 1 = h
        · rw [if_pos h3, if_pos h3]
        · rw [if_neg h3, if_neg h3]
          exact ⟨_, rfl, setHeight_at hs, keeps_setHeight hbid⟩

/-- The entries of the stack for a position and those above it, the last one first. -/
def places : List (Limb Nat) → List NodePlace
  | [] => [.rootNode]
  | f :: c => linkOf f :: places c

/-- The nodes around the position above. -/
theorem mem_of_fill {i : Nat} (hi : i ∈ (f.fill t).keys ∨ i ∈ outside c) : i ∈ t.keys ∨ i ∈ outside (f :: c) := by
  rw [outside_cons, ← List.cons_append, List.mem_append]
  rcases hi with hi | hi
  · exact (List.mem_append.1 ((f.keys_fill_perm t).mem_iff.1 hi)).imp_right .inl
  · exact .inr (.inr hi)

/-- `lwp_avl_rebalance` from the node at a position. -/
theorem rebalance_at (hs : At s c t) (ha : t.root = some a) (hids : ∀ i, i ∈ t.keys ∨ i ∈ outside c → i ∈ ids) :
    ∃ s', lwpAvlRebalance (places c) s = some s' ∧ At s' [] (climb c t) ∧ Keeps s s' ids := by
  have hround := rebalanceRound_at hs ha hids
  have hget : s.get (place c) = some a := by rw [hs.above.get, ha]
  induction c generalizing s t a with
  | nil =>
    rw [places, lwpAvlRebalance, show s.get .rootNode = some a from hget]
    dsimp only
    cases hf : fix t with
    | none =>
      rw [hf] at hround
      rw [show s.rebalanceRound .rootNode a = _ from hround, climb_of_none hf]
      exact ⟨s, rfl, hs, .refl⟩
    | some t' =>
      rw [hf] at hround
      obtain ⟨s', hround, hs', hkeep⟩ := hround
      rw [show s.rebalanceRound .rootNode a = _ from hround, climb_of_some hf]
      exact ⟨s', rfl, hs', hkeep⟩
  | cons f c ih =>
    rw [places, lwpAvlRebalance, show s.get (linkOf f) = some a from hget]
    dsimp only
    cases hf : fix t with
    | none =>
      rw [hf] at hround
      rw [show s.rebalanceRound (linkOf f) a = _ from hround, climb_of_none hf]
      exact ⟨s, rfl, at_plug_iff.2 hs, .refl⟩
    | some t' =>
      rw [hf] at hround
      obtain ⟨s1, hround, hs1, hkeep⟩ := hround
      rw [show s.rebalanceRound (linkOf f) a = _ from hround, climb_of_some hf]
      have hids' : ∀ i, i ∈ (f.fill t').keys ∨ i ∈ outside c → i ∈ ids := by
        intro i hi
        have hi' := mem_of_fill hi
        rw [fix_keys hf] at hi'
        exact hids i hi'
      have hget1 : s1.get (place c) = some f.key := by rw [hs1.up.above.get, Limb.root_fill]
      obtain ⟨s', hrest, hs', hkeep'⟩ :=
        ih hs1.up (Limb.root_fill f t') hids' (rebalanceRound_at hs1.up (Limb.root_fill f t') hids') hget1
      exact ⟨s', hrest, hs', hkeep.trans hkeep'⟩

/-- The same, from the node above a position: the entry of the position itself is not on the stack. -/
theorem rebalance_above_at (hs : At s c t) (hids : ∀ i, i ∈ t.keys ∨ i ∈ outside c → i ∈ ids) :
    ∃ s', lwpAvlRebalance (places c).tail s = some s' ∧ At s' [] (climbTo c t) ∧ Keeps s s' ids := by
  cases c with
  | nil => exact ⟨s, rfl, hs, .refl⟩
  | cons f c =>
    exact rebalance_at hs.up (Limb.root_fill f t) fun i hi => hids i (mem_of_fill hi)

end RtThread.LwpAvl
