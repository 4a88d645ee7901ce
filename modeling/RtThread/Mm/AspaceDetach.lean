import RtThread.Mm.AspaceTree

/-!
# Detaching an address space

`rt_aspace_detach` takes a varea out of the tree and then asks it for the next one. The first node of a balanced tree keeps
links that lead there (`next_of_removed_first`), so the loop goes through all vareas, whatever was installed and uninstalled
before (`detach_all`).
-/

namespace RtThread.RtAspace

open HeightTree Runs
open UtilAvl (At Forest)

/-- `rt_free` of a varea: its memory may hold anything then. -/
def free (s : RtAspace) (v : Nat) (junk : UtilAvlStruct × RtVarea) : RtAspace :=
  { s with tree := { s.tree with node := Function.update s.tree.node v junk.1 }, varea := Function.update s.varea v junk.2 }

/-- `while (varea)`, with what freed memory holds: also the vareas that are uninstalled, in this order. -/
def detachLoop (fuel : Nat) (junk : Nat → UtilAvlStruct × RtVarea) : Nat → RtAspace → Option Nat → Option (RtAspace × List Nat)
  | _, s, none => some (s, [])
  | 0, _, some _ => none
  | n + 1, s, some varea => do
    let s ← s.vareaUninstall fuel varea
    let next ← s.tree.utilAvlNext fuel varea
    let s := if MmFlag.test (s.varea varea).flag MmFlag.staticAlloc then s else s.free varea (junk varea)
    let (s, rest) ← detachLoop fuel junk n s next
    some (s, varea :: rest)

def rtAspaceDetach (fuel : Nat) (junk : Nat → UtilAvlStruct × RtVarea) (s : RtAspace) : Option (RtAspace × List Nat) := do
  let varea ← s.tree.utilAvlFirst fuel
  detachLoop fuel junk fuel s varea

/-! ## Trees of vareas -/

inductive TreeOp
  | insert (v start : Nat)
  | remove (v : Nat)

/-- An address space with the vareas that are in its tree. A varea is put there with any start, where one with the same
start keeps it out, or it is taken out. -/
inductive TreeStep : RtAspace × List Nat → TreeOp → RtAspace × List Nat → Prop
  | insert {s s' : RtAspace} {live : List Nat} {v start fuel : Nat} (hv : v ∉ live) (hfuel : live.length ≤ fuel)
      (hne : ∀ w ∈ live, (s.varea w).start ≠ start)
      (hs : (s.setVarea v { s.varea v with start := start }).bstInsert fuel v = some s') :
      TreeStep (s, live) (.insert v start) (s', v :: live)
  | kept {s s' : RtAspace} {live : List Nat} {v w start fuel : Nat} (hv : v ∉ live) (hfuel : live.length ≤ fuel)
      (hw : w ∈ live) (heq : (s.varea w).start = start)
      (hs : (s.setVarea v { s.varea v with start := start }).bstInsert fuel v = some s') :
      TreeStep (s, live) (.insert v start) (s', live)
  | remove {s s' : RtAspace} {live : List Nat} {v fuel : Nat} (hv : v ∈ live) (hfuel : live.length ≤ fuel)
      (hs : s.bstRemove fuel v = some s') : TreeStep (s, live) (.remove v) (s', live.erase v)

/-- The tree is a balanced one of the vareas, in the order of their starts. -/
abbrev TreeInv (x : RtAspace × List Nat) (t : HeightTree Nat) : Prop :=
  Forest.Inv ⟨x.1.tree, fun i => (x.1.varea i).start, x.2⟩ t

variable {s s' : RtAspace} {live : List Nat} {x x' : RtAspace × List Nat} {op : TreeOp} {ops : List TreeOp}
  {t t' : HeightTree Nat} {junk : Nat → UtilAvlStruct × RtVarea} {v fuel n : Nat}

/-- The start of a varea that is not in the tree may be anything. -/
theorem TreeInv.setStart (h : TreeInv (s, live) t) (hv : v ∉ live) (start : Nat) :
    TreeInv (s.setVarea v { s.varea v with start := start }, live) t := by
  refine ⟨h.tree, h.balanced, h.live, h.sorted.imp_of_mem ?_⟩
  intro i j hi hj hij
  have hne : ∀ k ∈ t.keys, k ≠ v := fun k hk e => hv (e ▸ h.live.mem_iff.1 hk)
  simpa only [setVarea, Function.update_of_ne (hne i hi), Function.update_of_ne (hne j hj)] using hij

theorem TreeInv.step (h : TreeInv x t) (hs : TreeStep x op x') : ∃ t', TreeInv x' t' := by
  cases hs with
  | @insert s s' live v start fuel hv hfuel hne hs =>
    have h1 := TreeInv.setStart h hv start
    have hget : (s.setVarea v { s.varea v with start := start }).varea v = { s.varea v with start := start } :=
      Function.update_self ..
    have hkeep : ∀ w ∈ t.keys, ((s.setVarea v { s.varea v with start := start }).varea w).start ≠ start := by
      intro w hw
      have hw := h.live.mem_iff.1 hw
      have hwv : w ≠ v := fun e => hv (e ▸ hw)
      simpa only [setVarea, Function.update_of_ne hwv] using hne w hw
    generalize s.setVarea v { s.varea v with start := start } = s1 at h1 hget hkeep hs
    have hroot : s1.tree.get .rootNode = t.root := h1.tree.above
    obtain ⟨next, current, hplace, hsearch, hleaf⟩ := insertPlace_at (k := start) (n := fuel) h1.tree.below hroot
      (Nat.le_trans (Nat.le_of_eq h1.live.length_eq) hfuel) hkeep .root
    obtain ⟨tree, t', hlink, hinv⟩ := h1.link (n := fuel) hfuel hv hsearch hleaf
    have hstart : (s1.varea v).start = start := by rw [hget]
    simp only [bstInsert, hstart, hplace, Option.bind_eq_bind, Option.bind_some, hlink] at hs
    cases hs
    refine ⟨t', ?_⟩
    have hkey : Function.update (fun i => (s1.varea i).start) v start = fun i => (s1.varea i).start := by
      rw [Function.update_eq_self_iff, hstart]
    rwa [hkey] at hinv
  | @kept s s' live v w start fuel hv hfuel hw heq hs =>
    have h1 := TreeInv.setStart h hv start
    have hstart : ((s.setVarea v { s.varea v with start := start }).varea v).start = start := by
      simp only [setVarea, Function.update_self]
    have hwstart : ((s.setVarea v { s.varea v with start := start }).varea w).start = start := by
      have hwv : w ≠ v := fun e => hv (e ▸ hw)
      simpa only [setVarea, Function.update_of_ne hwv] using heq
    generalize s.setVarea v { s.varea v with start := start } = s1 at h1 hstart hwstart hs
    have hroot : s1.tree.get .rootNode = t.root := h1.tree.above
    have hplace := insertPlace_taken (n := fuel) none h1.tree.below hroot
      (Nat.le_trans (Nat.le_of_eq h1.live.length_eq) hfuel) h1.sorted (h1.live.mem_iff.2 hw) hwstart
    simp only [bstInsert, hstart, hplace, Option.bind_eq_bind, Option.bind_some] at hs
    cases hs
    exact ⟨t, h1⟩
  | remove hv hfuel hs =>
    obtain ⟨tree, t', h1, h2⟩ := h.remove hfuel hv
    rw [bstRemove, h1] at hs
    cases hs
    exact ⟨t', h2⟩

theorem treeInv_create (start size : Nat) : TreeInv (create start size, []) .nil :=
  ⟨⟨trivial, rfl, List.nodup_nil⟩, trivial, .nil, .nil⟩

/-! ## The loop -/

/-- The loop goes through the nodes of the tree from the first, and leaves it empty. -/
theorem detachLoop_spec (junk : Nat → UtilAvlStruct × RtVarea) (hs : At s.tree [] t) (hb : t.Balanced) (hfuel : t.keys.length ≤ fuel) (hn : t.keys.length ≤ n) :
    ∃ s', s.detachLoop fuel junk n t.keys.head? = some (s', t.keys) ∧ s'.tree.rootNode = none := by
  induction n generalizing s t with
  | zero =>
    cases t with
    | nil => exact ⟨s, rfl, hs.above⟩
    | node h l a r => simp at hn
  | succ n ih =>
    cases hkeys : t.keys with
    | nil =>
      cases t with
      | nil => exact ⟨s, rfl, hs.above⟩
      | node h l a r => simp at hkeys
    | cons v rest =>
      obtain ⟨tree, t', hremove, hat, hbal, hrest, hkept⟩ :=
        UtilAvl.remove_balanced (n := fuel) hs hb (a := v) (by rw [hkeys]; exact List.mem_cons_self) hfuel
      rw [hkeys, List.erase_cons_head] at hrest
      have hnext := UtilAvl.next_of_removed_first hs hb hkeys hat hrest hkept hfuel
      have hv : v ∉ t'.keys := by
        have hnd := hs.nodup
        rw [hkeys] at hnd
        rw [hrest]
        exact (List.nodup_cons.1 (List.nodup_append.1 hnd).1).1
      have hlen : rest.length ≤ fuel ∧ rest.length ≤ n := by
        rw [hkeys, List.length_cons] at hfuel hn
        omega
      have hat' : At (if MmFlag.test (s.varea v).flag MmFlag.staticAlloc then { s with tree := tree } else
          free { s with tree := tree } v (junk v)).tree [] t' := by
        split
        · exact hat
        · refine hat.congr rfl ?_
          rintro i (hi | hi)
          · exact Function.update_of_ne (show i ≠ v from fun e => hv (e ▸ hi)) _ _
          · cases hi
      obtain ⟨s', h1, h2⟩ := ih hat' hbal (by rw [hrest]; exact hlen.1) (by rw [hrest]; exact hlen.2)
      rw [hrest] at h1
      refine ⟨s', ?_, h2⟩
      simp only [List.head?_cons, detachLoop, vareaUninstall, bstRemove, hremove, hnext, Option.bind_eq_bind,
        Option.bind_some, h1]

/-- **`rt_aspace_detach` uninstalls every varea once, in the order of their addresses**, and leaves an empty tree. -/
theorem detach_all {start size : Nat} (hrun : Run TreeStep (create start size, []) ops (s, live))
    (hfuel : live.length ≤ fuel) (junk : Nat → UtilAvlStruct × RtVarea) :
    ∃ s' order, s.rtAspaceDetach fuel junk = some (s', order) ∧ order.Perm live ∧ order.Nodup ∧
      order.Pairwise (fun i j => (s.varea i).start < (s.varea j).start) ∧ s'.tree.rootNode = none := by
  obtain ⟨t, ht⟩ : ∃ t, TreeInv (s, live) t :=
    hrun.invariant (I := fun x => ∃ t, TreeInv x t) ⟨.nil, treeInv_create start size⟩ fun x op x' h hs => by
      obtain ⟨t, ht⟩ := h
      exact ht.step hs
  have hlen : t.keys.length ≤ fuel := Nat.le_trans (Nat.le_of_eq ht.live.length_eq) hfuel
  obtain ⟨s', h1, h2⟩ := detachLoop_spec junk ht.tree ht.balanced hlen hlen
  refine ⟨s', t.keys, ?_, ht.live, ?_, ht.sorted, h2⟩
  · simp only [rtAspaceDetach, UtilAvl.first_at ht.tree hlen, Option.bind_eq_bind, Option.bind_some, h1]
  · exact (List.nodup_append.1 ht.tree.nodup).1

/-- Two vareas, and one that is kept out. -/
theorem detach_all_two : ∃ s s' : RtAspace, ∃ order, s.rtAspaceDetach 2 (fun _ => (⟨some 7, some 7, some 7, 7⟩, ⟨7, 7, 7, 7, 7⟩)) =
    some (s', order) ∧ order.Perm [4, 3] ∧ order.Nodup ∧
      order.Pairwise (fun i j => (s.varea i).start < (s.varea j).start) ∧ s'.tree.rootNode = none := by
  have h1 : ∃ s, TreeStep (create 0x1000 0x10000, []) (.insert 3 0x5000) (s, [3]) ∧
      s = ((create 0x1000 0x10000).setVarea 3 ⟨0x5000, 0, 0, 0, 0⟩ |>.bstInsert 2 3).getD (create 0 0) :=
    ⟨_, .insert (by simp) (show [].length ≤ 2 by simp) (by simp) rfl, rfl⟩
  obtain ⟨s1, h1, hs1⟩ := h1
  have h2 : ∃ s, TreeStep (s1, [3]) (.insert 4 0x2000) (s, [4, 3]) ∧
      s = (s1.setVarea 4 ⟨0x2000, 0, 0, 0, 0⟩ |>.bstInsert 2 4).getD (create 0 0) := by
    subst hs1
    exact ⟨_, .insert (by simp) (show [3].length ≤ 2 by simp) (by simp; decide) rfl, rfl⟩
  obtain ⟨s2, h2, hs2⟩ := h2
  have h3 : ∃ s, TreeStep (s2, [4, 3]) (.insert 9 0x5000) (s, [4, 3]) := by
    subst hs2 hs1
    exact ⟨_, .kept (w := 3) (by simp) (show [4, 3].length ≤ 2 by simp) (by simp) rfl rfl⟩
  obtain ⟨s3, h3⟩ := h3
  exact ⟨s3, detach_all (.snoc (.snoc (.snoc .nil h1) h2) h3) (Nat.le_refl 2) _⟩

end RtThread.RtAspace
