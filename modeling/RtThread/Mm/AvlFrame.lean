import RtThread.Mm.AvlLinks

/-!
# What rebalancing leaves alone

The links of the nodes of a tree lead to nodes of the tree (`At.closed`). A rebalancing follows such links and writes such
links, so it changes none of the other nodes (`Within.rebalance`).
-/

namespace RtThread.UtilAvl

open HeightTree

/-- A link to one of the nodes, or null. -/
def Among (S : List Nat) (x : Option Nat) : Prop := ∀ i, x = some i → i ∈ S

/-- The links of the nodes lead to the nodes. -/
structure Closed (S : List Nat) (s : UtilAvl) : Prop where
  root : Among S s.rootNode
  left : ∀ j ∈ S, Among S (s.node j).avlLeft
  right : ∀ j ∈ S, Among S (s.node j).avlRight
  parent : ∀ j ∈ S, Among S (s.node j).parent

/-- The nodes are closed, and the others are as they were in `s0`. -/
structure Within (S : List Nat) (s0 s : UtilAvl) : Prop where
  closed : Closed S s
  frame : ∀ j, j ∉ S → s.node j = s0.node j

/-- The link in the place is one of a node, or the root. -/
def PlaceAmong (S : List Nat) : NodePlace → Prop
  | .rootNode => True
  | .avlLeft i => i ∈ S
  | .avlRight i => i ∈ S

variable {S : List Nat} {s s0 s' : UtilAvl} {c : List (Limb Nat)} {t : HeightTree Nat} {x y : Option Nat} {place : NodePlace}
  {a b d i j k h n : Nat}

theorem among_some (ha : a ∈ S) : Among S (some a) := by
  intro i hi
  cases hi
  exact ha

/-! ## Writes -/

/-- A node gets links that lead to the nodes. -/
theorem Within.update {g : UtilAvlStruct} (hw : Within S s0 s) (hi : i ∈ S) (hl : Among S g.avlLeft)
    (hr : Among S g.avlRight) (hp : Among S g.parent) : Within S s0 { s with node := Function.update s.node i g } := by
  refine ⟨⟨hw.closed.root, ?_, ?_, ?_⟩, ?_⟩
  · intro j hj
    by_cases he : j = i
    · subst he
      simpa using hl
    · simpa [Function.update_of_ne he] using hw.closed.left j hj
  · intro j hj
    by_cases he : j = i
    · subst he
      simpa using hr
    · simpa [Function.update_of_ne he] using hw.closed.right j hj
  · intro j hj
    by_cases he : j = i
    · subst he
      simpa using hp
    · simpa [Function.update_of_ne he] using hw.closed.parent j hj
  · intro j hj
    have he : j ≠ i := fun e => hj (e ▸ hi)
    exact (Function.update_of_ne he ..).trans (hw.frame j hj)

section

variable (hw : Within S s0 s)

include hw

theorem Within.setLeft (hi : i ∈ S) (hx : Among S x) : Within S s0 (s.setLeft i x) :=
  hw.update hi hx (hw.closed.right i hi) (hw.closed.parent i hi)

theorem Within.setRight (hi : i ∈ S) (hx : Among S x) : Within S s0 (s.setRight i x) :=
  hw.update hi (hw.closed.left i hi) hx (hw.closed.parent i hi)

theorem Within.setParent (hi : i ∈ S) (hx : Among S x) : Within S s0 (s.setParent i x) :=
  hw.update hi (hw.closed.left i hi) (hw.closed.right i hi) hx

theorem Within.setHeight (hi : i ∈ S) : Within S s0 (s.setHeight i h) :=
  hw.update hi (hw.closed.left i hi) (hw.closed.right i hi) (hw.closed.parent i hi)

theorem Within.setParentOf (hy : Among S y) (hx : Among S x) : Within S s0 (s.setParentOf y x) := by
  cases y with
  | none => exact hw
  | some i => exact hw.setParent (hy i rfl) hx

theorem Within.put (hp : PlaceAmong S place) (hx : Among S x) : Within S s0 (s.put place x) := by
  cases place with
  | rootNode => exact ⟨{ hw.closed with root := hx }, hw.frame⟩
  | avlLeft i => exact hw.setLeft hp hx
  | avlRight i => exact hw.setRight hp hx

/-- A node gets the parent of another. -/
theorem Within.copyParent (hi : i ∈ S) (ha : a ∈ S) : Within S s0 (s.setParent i (s.node a).parent) :=
  hw.setParent hi (hw.closed.parent a ha)

theorem Within.adoptLeft (ha : a ∈ S) : Within S s0 (s.setParentOf (s.node a).avlLeft (some a)) :=
  hw.setParentOf (hw.closed.left a ha) (among_some ha)

theorem Within.adoptRight (ha : a ∈ S) : Within S s0 (s.setParentOf (s.node a).avlRight (some a)) :=
  hw.setParentOf (hw.closed.right a ha) (among_some ha)

end

theorem Closed.nodePlace (hs : Closed S s) (ha : a ∈ S) : PlaceAmong S (s.nodePlace a) := by
  unfold UtilAvl.nodePlace
  split
  · trivial
  · rename_i p hp
    split <;> exact hs.parent a ha p hp

/-! ## Rounds -/

section

variable (hw : Within S s0 s) (ha : a ∈ S) (hb : b ∈ S)

include hw ha hb

theorem Within.rotateRight (hx : Among S x) (hp : PlaceAmong S place) :
    Within S s0 (s.rotateRight a b x place k) := by
  apply Within.setParentOf _ hx (among_some ha)
  apply Within.put _ hp (among_some hb)
  apply Within.setParent _ ha (among_some hb)
  apply Within.copyParent _ hb ha
  apply Within.setHeight _ hb
  apply Within.setHeight _ ha
  exact (hw.setLeft ha hx).setRight hb (among_some ha)

theorem Within.rotateLeft (hx : Among S x) (hp : PlaceAmong S place) :
    Within S s0 (s.rotateLeft a b x place k) := by
  apply Within.setParentOf _ hx (among_some ha)
  apply Within.put _ hp (among_some hb)
  apply Within.setParent _ ha (among_some hb)
  apply Within.copyParent _ hb ha
  apply Within.setHeight _ hb
  apply Within.setHeight _ ha
  exact (hw.setRight ha hx).setLeft hb (among_some ha)

theorem Within.midmountRight (hd : d ∈ S) (hp : PlaceAmong S place) :
    Within S s0 (s.midmountRight a b d place k) := by
  have h1 := hw.setRight hb (hw.closed.left d hd)
  have h2 := h1.setLeft ha (h1.closed.right d hd)
  apply Within.put _ hp (among_some hd)
  apply Within.adoptLeft _ ha
  apply Within.adoptRight _ hb
  apply Within.setParent _ ha (among_some hd)
  apply Within.setParent _ hb (among_some hd)
  apply Within.copyParent _ hd ha
  apply Within.setHeight _ ha
  apply Within.setHeight _ hb
  apply Within.setHeight _ hd
  exact (h2.setLeft hd (among_some hb)).setRight hd (among_some ha)

theorem Within.midmountLeft (hd : d ∈ S) (hp : PlaceAmong S place) :
    Within S s0 (s.midmountLeft a b d place k) := by
  have h1 := hw.setLeft hb (hw.closed.right d hd)
  have h2 := h1.setRight ha (h1.closed.left d hd)
  apply Within.put _ hp (among_some hd)
  apply Within.adoptRight _ ha
  apply Within.adoptLeft _ hb
  apply Within.setParent _ ha (among_some hd)
  apply Within.setParent _ hb (among_some hd)
  apply Within.copyParent _ hd ha
  apply Within.setHeight _ ha
  apply Within.setHeight _ hb
  apply Within.setHeight _ hd
  exact (h2.setRight hd (among_some hb)).setLeft hd (among_some ha)

end

/-- One round stays in the nodes. -/
theorem Within.round (hw : Within S s0 s) (ha : a ∈ S) (hr : s.rebalanceRound a = some (.next s' x)) :
    Within S s0 s' ∧ Among S x := by
  have hplace := hw.closed.nodePlace ha
  unfold rebalanceRound at hr
  dsimp only at hr
  split at hr
  · split at hr
    · cases hr
    · rename_i b hb
      have hb := hw.closed.left a ha b hb
      split at hr
      · obtain ⟨rfl, rfl⟩ := Round.next.inj (Option.some.inj hr)
        have h1 := hw.rotateRight (k := s.heightOf (s.node b).avlRight) ha hb (hw.closed.right b hb) hplace
        exact ⟨h1, h1.closed.parent b hb⟩
      · split at hr
        · cases hr
        · rename_i d hd
          have hd := hw.closed.right b hb d hd
          obtain ⟨rfl, rfl⟩ := Round.next.inj (Option.some.inj hr)
          have h1 := hw.midmountRight (k := s.heightOf (s.node b).avlRight) ha hb hd hplace
          exact ⟨h1, h1.closed.parent d hd⟩
  · split at hr
    · split at hr
      · cases hr
      · rename_i b hb
        have hb := hw.closed.right a ha b hb
        split at hr
        · obtain ⟨rfl, rfl⟩ := Round.next.inj (Option.some.inj hr)
          have h1 := hw.rotateLeft (k := s.heightOf (s.node b).avlLeft) ha hb (hw.closed.left b hb) hplace
          exact ⟨h1, h1.closed.parent b hb⟩
        · split at hr
          · cases hr
          · rename_i d hd
            have hd := hw.closed.left b hb d hd
            obtain ⟨rfl, rfl⟩ := Round.next.inj (Option.some.inj hr)
            have h1 := hw.midmountLeft (k := s.heightOf (s.node b).avlLeft) ha hb hd hplace
            exact ⟨h1, h1.closed.parent d hd⟩
    · generalize (if s.heightOf (s.node a).avlLeft < s.heightOf (s.node a).avlRight then s.heightOf (s.node a).avlRight
        else s.heightOf (s.node a).avlLeft) = m at hr
      split at hr
      · cases Option.some.inj hr
      · obtain ⟨rfl, rfl⟩ := Round.next.inj (Option.some.inj hr)
        have h1 := hw.setHeight (h := m + 1) ha
        exact ⟨h1, h1.closed.parent a ha⟩

theorem Within.rebalance (hw : Within S s0 s) (hx : Among S x) (hr : utilAvlRebalance n s x = some s') : Within S s0 s' := by
  induction n generalizing s x with
  | zero =>
    cases x with
    | none =>
      cases hr
      exact hw
    | some a => cases hr
  | succ n ih =>
    cases x with
    | none =>
      cases hr
      exact hw
    | some a =>
      rw [utilAvlRebalance] at hr
      split at hr
      · cases hr
      · cases hr
        exact hw
      · rename_i hround
        obtain ⟨h1, h2⟩ := hw.round (hx a rfl) hround
        exact ih h1 h2 hr

/-! ## Trees -/

theorem owner_mem (ho : owner c = some i) : i ∈ outside c := by
  cases c with
  | nil => cases ho
  | cons f c =>
    cases ho
    exact List.mem_cons_self

/-- The links of a tree lead to its nodes. -/
theorem At.closed (hs : At s [] t) : Closed t.keys s := by
  have hnode : ∀ j ∈ t.keys, Among t.keys (s.node j).avlLeft ∧ Among t.keys (s.node j).avlRight ∧
      Among t.keys (s.node j).parent := by
    intro j hj
    obtain ⟨c, h, l, r, rfl⟩ := exists_plug_of_mem hj
    have hat := at_plug_iff.1 hs
    have hmem := fun i => (keys_plug_perm c (.node h l j r)).mem_iff (a := i)
    rw [hat.below.1]
    refine ⟨?_, ?_, ?_⟩
    · intro i hi
      apply (hmem i).2
      simp [root_mem hi]
    · intro i hi
      apply (hmem i).2
      simp [root_mem hi]
    · intro i hi
      apply (hmem i).2
      exact List.mem_append_right _ (owner_mem hi)
  refine ⟨?_, fun j hj => (hnode j hj).1, fun j hj => (hnode j hj).2.1, fun j hj => (hnode j hj).2.2⟩
  intro i hi
  have hroot : s.rootNode = t.root := hs.above
  rw [hroot] at hi
  exact root_mem hi

theorem At.within (hs : At s c t) : Within (plug c t).keys s s := ⟨(at_plug_iff.2 hs).closed, fun _ _ => rfl⟩

theorem mem_plug : i ∈ (plug c t).keys ↔ i ∈ t.keys ∨ i ∈ outside c := by
  rw [(keys_plug_perm c t).mem_iff, List.mem_append]

theorem owner_among (c : List (Limb Nat)) (t : HeightTree Nat) : Among (plug c t).keys (owner c) :=
  fun _ hi => mem_plug.2 (.inr (owner_mem hi))

end RtThread.UtilAvl
