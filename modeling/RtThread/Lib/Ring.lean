import Mathlib.Data.List.Chain
import Mathlib.Data.List.Nodup

/-!
# Circular doubly linked lists

A circular list through a head `h`, given by the pointers `nxt` and `prv` of its nodes. `Ring nxt prv h xs`: from the head
on, the nodes are `xs`, and `prv` undoes `nxt`. A node may be linked at any place (`Ring.insert`) and unlinked from it
(`Ring.remove`); pointers of other nodes do not matter (`Ring.congr`).
-/

namespace Rings

variable {nxt prv nxt' prv' : Nat → Nat} {h x u v : Nat} {xs ys zs : List Nat}

/-- The pointers of `a` and `b` link them. -/
def Link (nxt prv : Nat → Nat) (a b : Nat) : Prop := nxt a = b ∧ prv b = a

/-- The nodes of the circle through `h` are `xs`, in this order. -/
structure Ring (nxt prv : Nat → Nat) (h : Nat) (xs : List Nat) : Prop where
  chain : (h :: (xs ++ [h])).IsChain (Link nxt prv)
  nodup : (h :: xs).Nodup

/-- A chain depends on the pointers of its nodes only: `nxt` of all but the last, `prv` of all but the first. -/
theorem chain_congr (hc : (x :: xs).IsChain (Link nxt prv)) (hn : ∀ a ∈ (x :: xs).dropLast, nxt' a = nxt a)
    (hp : ∀ b ∈ xs, prv' b = prv b) : (x :: xs).IsChain (Link nxt' prv') := by
  induction xs generalizing x with
  | nil => exact List.isChain_singleton _
  | cons y ys ih =>
    obtain ⟨⟨h1, h2⟩, hc⟩ := List.isChain_cons_cons.1 hc
    refine List.isChain_cons_cons.2 ⟨⟨?_, ?_⟩, ih hc (fun a ha => hn a ?_) fun b hb => hp b (by simp [hb])⟩
    · rw [hn x (by simp), h1]
    · rw [hp y (by simp), h2]
    · rw [List.dropLast_cons_of_ne_nil (by simp)]; exact List.mem_cons_of_mem _ ha

theorem Ring.congr (hr : Ring nxt prv h xs) (hn : ∀ a ∈ h :: xs, nxt' a = nxt a) (hp : ∀ a ∈ h :: xs, prv' a = prv a) :
    Ring nxt' prv' h xs where
  chain := by
    refine chain_congr hr.chain (fun a ha => hn a ?_) fun b hb => hp b ?_
    · rw [← List.cons_append, List.dropLast_concat] at ha; exact ha
    · rcases List.mem_append.1 hb with hb | hb
      · exact List.mem_cons_of_mem h hb
      · rw [List.mem_singleton.1 hb]; exact List.mem_cons_self
  nodup := hr.nodup

/-- Two chains from one node to one end, on the same pointers, are the same. -/
theorem chain_unique (h1 : (x :: (xs ++ [h])).IsChain (Link nxt prv)) (h2 : (x :: (ys ++ [h])).IsChain (Link nxt prv))
    (hx : h ∉ xs) (hy : h ∉ ys) : xs = ys := by
  induction xs generalizing x ys with
  | nil =>
    cases ys with
    | nil => rfl
    | cons y ys =>
      have e1 := (List.isChain_cons_cons.1 h1).1.1
      have e2 := (List.isChain_cons_cons.1 h2).1.1
      exact absurd (e1.symm.trans e2) fun e => hy (e ▸ List.mem_cons_self)
  | cons a xs ih =>
    obtain ⟨⟨e1, -⟩, h1⟩ := List.isChain_cons_cons.1 h1
    cases ys with
    | nil =>
      have e2 := (List.isChain_cons_cons.1 h2).1.1
      exact absurd (e2.symm.trans e1) fun e => hx (e ▸ List.mem_cons_self)
    | cons b ys =>
      obtain ⟨⟨e2, -⟩, h2⟩ := List.isChain_cons_cons.1 h2
      obtain rfl : a = b := e1.symm.trans e2
      rw [ih h1 h2 (fun hm => hx (List.mem_cons_of_mem a hm)) fun hm => hy (List.mem_cons_of_mem a hm)]

/-- The pointers determine the nodes. -/
theorem Ring.unique (h1 : Ring nxt prv h xs) (h2 : Ring nxt prv h ys) : xs = ys :=
  chain_unique h1.chain h2.chain (List.nodup_cons.1 h1.nodup).1 (List.nodup_cons.1 h2.nodup).1

/-! ## The parts of a ring -/

/-- The chains before and after a place in the list, and the link between them. -/
theorem chain_append : (h :: (ys ++ zs ++ [h])).IsChain (Link nxt prv) ↔
    (h :: ys).IsChain (Link nxt prv) ∧ (zs ++ [h]).IsChain (Link nxt prv) ∧
      ∀ u ∈ (h :: ys).getLast?, ∀ v ∈ (zs ++ [h]).head?, Link nxt prv u v := by
  rw [List.append_assoc, ← List.cons_append]
  exact List.isChain_append

/-- The two nodes around a place in the list. -/
theorem Ring.link (hr : Ring nxt prv h (ys ++ zs)) (hu : (h :: ys).getLast? = some u) (hv : (zs ++ [h]).head? = some v) :
    nxt u = v ∧ prv v = u := (chain_append.1 hr.chain).2.2 u hu v hv

/-- The last node before a place comes once. -/
theorem ne_of_mem_dropLast {l : List Nat} {a : Nat} (hnd : l.Nodup) (hu : l.getLast? = some u) (ha : a ∈ l.dropLast) :
    a ≠ u := by
  obtain ⟨l, rfl⟩ := List.getLast?_eq_some_iff.1 hu
  rw [List.dropLast_concat] at ha
  rintro rfl
  exact (List.nodup_append.1 hnd).2.2 a ha a (by simp) rfl

/-- The chains on both sides of a place keep their links if only the pointers across it change. -/
theorem chains_congr (hnd : (h :: (ys ++ zs)).Nodup) (hu : (h :: ys).getLast? = some u) (hv : (zs ++ [h]).head? = some v)
    (c1 : (h :: ys).IsChain (Link nxt prv)) (c2 : (zs ++ [h]).IsChain (Link nxt prv))
    (hn : ∀ a ∈ h :: (ys ++ zs), a ≠ u → nxt' a = nxt a) (hp : ∀ a ∈ h :: (ys ++ zs), a ≠ v → prv' a = prv a) :
    (h :: ys).IsChain (Link nxt' prv') ∧ (zs ++ [h]).IsChain (Link nxt' prv') := by
  rw [← List.cons_append] at hnd hn hp
  obtain ⟨n1, n2, n12⟩ := List.nodup_append.1 hnd
  constructor
  · refine chain_congr c1 (fun a ha => ?_) fun b hb => ?_
    · exact hn a (List.mem_append_left _ (List.dropLast_subset _ ha)) (ne_of_mem_dropLast n1 hu ha)
    · refine hp b (List.mem_append_left _ (List.mem_cons_of_mem h hb)) ?_
      rintro rfl
      rcases List.mem_append.1 (List.mem_of_mem_head? hv) with hm | hm
      · exact n12 b (List.mem_cons_of_mem h hb) b hm rfl
      · rw [List.mem_singleton.1 hm] at hb
        exact (List.nodup_cons.1 n1).1 hb
  · have hnd2 : (zs ++ [h]).Nodup := by
      refine List.nodup_append.2 ⟨n2, by simp, fun a ha b hb => ?_⟩
      rw [List.mem_singleton.1 hb]
      exact fun e => n12 h (by simp) a ha e.symm
    have hmem {a : Nat} (ha : a ∈ zs ++ [h]) : a ∈ h :: ys ++ zs := by
      rcases List.mem_append.1 ha with hm | hm
      · exact List.mem_append_right _ hm
      · rw [List.mem_singleton.1 hm]; exact List.mem_append_left _ List.mem_cons_self
    cases hz : zs ++ [h] with
    | nil => simp at hz
    | cons w ws =>
      have hws : (w :: ws).dropLast = zs := by rw [← hz, List.dropLast_concat]
      rw [hz] at c2 hv hnd2 hmem
      obtain rfl := Option.some.inj hv
      refine chain_congr c2 (fun a ha => hn a (hmem (List.dropLast_subset _ ha)) ?_) fun b hb => ?_
      · rintro rfl
        rw [hws] at ha
        exact n12 a (List.mem_of_getLast? hu) a ha rfl
      · refine hp b (hmem (List.mem_cons_of_mem w hb)) ?_
        rintro rfl
        exact (List.nodup_cons.1 hnd2).1 hb

/-! ## Linking and unlinking a node -/

/-- The node `x` is linked between `u` and `v`. -/
theorem Ring.insert (hr : Ring nxt prv h (ys ++ zs)) (hx : x ∉ h :: (ys ++ zs)) (hu : (h :: ys).getLast? = some u)
    (hv : (zs ++ [h]).head? = some v) (h1 : nxt' u = x) (h2 : prv' x = u) (h3 : nxt' x = v) (h4 : prv' v = x)
    (hn : ∀ a, a ≠ u → a ≠ x → nxt' a = nxt a) (hp : ∀ a, a ≠ v → a ≠ x → prv' a = prv a) :
    Ring nxt' prv' h (ys ++ x :: zs) where
  chain := by
    obtain ⟨c1, c2, -⟩ := chain_append.1 hr.chain
    obtain ⟨c1', c2'⟩ := chains_congr hr.nodup hu hv c1 c2
      (fun a ha hau => hn a hau fun e => hx (e ▸ ha)) fun a ha hav => hp a hav fun e => hx (e ▸ ha)
    refine chain_append.2 ⟨c1', List.isChain_cons.2 ⟨fun w hw => ?_, c2'⟩, fun w hw y hy => ?_⟩
    · cases hv.symm.trans hw
      exact ⟨h3, h4⟩
    · obtain rfl : x = y := by simpa using hy
      cases hu.symm.trans hw
      exact ⟨h1, h2⟩
  nodup := by
    have hnd : (x :: h :: (ys ++ zs)).Nodup := List.nodup_cons.2 ⟨hx, hr.nodup⟩
    exact ((List.Perm.swap _ _ _).trans (List.perm_middle.symm.cons h)).nodup_iff.1 hnd

/-- The node `x` is unlinked from between `u` and `v`. -/
theorem Ring.remove (hr : Ring nxt prv h (ys ++ x :: zs)) (hu : (h :: ys).getLast? = some u)
    (hv : (zs ++ [h]).head? = some v) (h1 : nxt' u = v) (h2 : prv' v = u)
    (hn : ∀ a, a ≠ u → a ≠ x → nxt' a = nxt a) (hp : ∀ a, a ≠ v → a ≠ x → prv' a = prv a) :
    Ring nxt' prv' h (ys ++ zs) := by
  have hnd : (x :: h :: (ys ++ zs)).Nodup :=
    ((List.perm_middle.cons h).trans (List.Perm.swap _ _ _)).nodup_iff.1 hr.nodup
  obtain ⟨hx, hnd⟩ := List.nodup_cons.1 hnd
  obtain ⟨c1, c2, -⟩ := chain_append.1 hr.chain
  obtain ⟨c1', c2'⟩ := chains_congr hnd hu hv c1 (List.isChain_cons.1 c2).2
    (fun a ha hau => hn a hau fun e => hx (e ▸ ha)) fun a ha hav => hp a hav fun e => hx (e ▸ ha)
  refine ⟨chain_append.2 ⟨c1', c2', fun w hw y hy => ?_⟩, hnd⟩
  cases hu.symm.trans hw
  cases hv.symm.trans hy
  exact ⟨h1, h2⟩

end Rings
