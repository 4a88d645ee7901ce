import RtThread.Lib.Singly

/-!
# Forests of first children and siblings

A node has links to its parent, its first child and its next sibling. `Forest node parent firstChild sibling kids` says
that for every node the links from `firstChild` on lead through its children `kids`, and that these are exactly the nodes
with it as parent. The edits are a new root (`Forest.addRoot`), a new first child (`Forest.adopt`), a first child that
becomes a root (`Forest.orphan`), and the removal of a node without children: a root (`Forest.removeRoot`), the first
child of its parent (`Forest.removeFirst`), or another one (`Forest.removeNext`).
-/

namespace Sibling

open Function (update update_of_ne update_self)

open Singly (Chain)

variable {α : Type} {node node' : α → Prop} {parent firstChild sibling : α → Option α} {kids : α → List α} {a b c p : α}
  {ys zs : List α}

structure Forest (node : α → Prop) (parent firstChild sibling : α → Option α) (kids : α → List α) : Prop where
  chain : ∀ p, node p → Chain sibling (firstChild p) (kids p)
  mem_iff : ∀ p, node p → ∀ c, c ∈ kids p ↔ node c ∧ parent c = some p
  parent : ∀ c p, node c → parent c = some p → node p
  nodup : ∀ p, node p → (kids p).Nodup

namespace Forest

section

variable (h : Forest node parent firstChild sibling kids)

include h

theorem congr (hn : ∀ a, node' a ↔ node a) : Forest node' parent firstChild sibling kids := by
  obtain rfl : node' = node := funext fun a => propext (hn a)
  exact h

/-- The children of other nodes. -/
theorem not_mem_of_ne {q : α} (hp : node p) (hq : node q) (hc : c ∈ kids p)
    (hqp : q ≠ p) : c ∉ kids q := by
  intro hmem
  have h1 := ((h.mem_iff p hp c).1 hc).2
  have h2 := ((h.mem_iff q hq c).1 hmem).2
  exact hqp (Option.some.inj (h2.symm.trans h1))

/-- A node without children is no node's parent. -/
theorem parent_ne (ha : node a) (hnil : kids a = []) (hc : node c) : parent c ≠ some a := by
  intro hca
  have hmem := (h.mem_iff a ha c).2 ⟨hc, hca⟩
  rw [hnil] at hmem
  cases hmem

theorem removeRoot (ha : node a) (hroot : parent a = none)
    (hnil : kids a = []) : Forest (fun x => node x ∧ x ≠ a) parent firstChild sibling kids := by
  refine ⟨fun p hp => h.chain p hp.1, fun p hp c => ?_, fun c p hc hcp => ?_, fun p hp => h.nodup p hp.1⟩
  · rw [h.mem_iff p hp.1]
    constructor
    · rintro ⟨hc, hcp⟩
      refine ⟨⟨hc, ?_⟩, hcp⟩
      rintro rfl
      rw [hroot] at hcp
      cases hcp
    · rintro ⟨⟨hc, -⟩, hcp⟩
      exact ⟨hc, hcp⟩
  · refine ⟨h.parent c p hc.1 hcp, ?_⟩
    rintro rfl
    exact h.parent_ne ha hnil hc.1 hcp

end

variable [DecidableEq α]

section

variable (h : Forest node parent firstChild sibling kids)

include h

theorem addRoot (ha : ¬ node a) (v : Option α) :
    Forest (fun x => node x ∨ x = a) (update parent a none) (update firstChild a none)
      (update sibling a v) (update kids a []) := by
  have hkids : ∀ p, node p → a ∉ kids p := fun p hp hmem => ha ((h.mem_iff p hp a).1 hmem).1
  have hne : ∀ x, node x → x ≠ a := fun x hx e => ha (e ▸ hx)
  refine ⟨fun p hp => ?_, fun p hp c => ?_, fun c p hc hcp => ?_, fun p hp => ?_⟩
  · rcases hp with hp | rfl
    · rw [update_of_ne (hne p hp), update_of_ne (hne p hp)]
      exact (h.chain p hp).update (hkids p hp) v
    · rw [update_self, update_self]
      rfl
  · rcases hp with hp | rfl
    · rw [update_of_ne (hne p hp), h.mem_iff p hp]
      constructor
      · rintro ⟨hc, hcp⟩
        exact ⟨.inl hc, by rwa [update_of_ne (hne c hc)]⟩
      · rintro ⟨hc | rfl, hcp⟩
        · rw [update_of_ne (hne c hc)] at hcp
          exact ⟨hc, hcp⟩
        · rw [update_self] at hcp
          cases hcp
    · rw [update_self]
      refine ⟨fun hc => absurd hc List.not_mem_nil, ?_⟩
      rintro ⟨hc | rfl, hcp⟩
      · rw [update_of_ne (hne c hc)] at hcp
        exact absurd (h.parent c p hc hcp) ha
      · rw [update_self] at hcp
        cases hcp
  · rcases hc with hc | rfl
    · rw [update_of_ne (hne c hc)] at hcp
      exact .inl (h.parent c p hc hcp)
    · rw [update_self] at hcp
      cases hcp
  · rcases hp with hp | rfl
    · rw [update_of_ne (hne p hp)]
      exact h.nodup p hp
    · rw [update_self]
      exact List.nodup_nil

/-- A root becomes the first child of a node. -/
theorem adopt (hp : node p) (hc : node c) (hroot : parent c = none) :
    Forest node (update parent c (some p)) (update firstChild p (some c))
      (update sibling c (firstChild p)) (update kids p (c :: kids p)) := by
  have hkids : ∀ q, node q → c ∉ kids q := by
    intro q hq hmem
    rw [h.mem_iff q hq, hroot] at hmem
    cases hmem.2
  refine ⟨fun q hq => ?_, fun q hq d => ?_, fun d q hd hdq => ?_, fun q hq => ?_⟩
  · by_cases hqp : q = p
    · subst hqp
      rw [update_self, update_self]
      exact (h.chain q hq).cons (hkids q hq)
    · rw [update_of_ne hqp, update_of_ne hqp]
      exact (h.chain q hq).update (hkids q hq) _
  · by_cases hdc : d = c
    · subst hdc
      rw [update_self]
      by_cases hqp : q = p
      · subst hqp
        rw [update_self]
        exact ⟨fun _ => ⟨hc, rfl⟩, fun _ => List.mem_cons_self⟩
      · rw [update_of_ne hqp]
        exact ⟨fun hd => absurd hd (hkids q hq), fun hd => absurd (Option.some.inj hd.2).symm hqp⟩
    · rw [update_of_ne hdc]
      by_cases hqp : q = p
      · subst hqp
        rw [update_self, List.mem_cons, h.mem_iff q hq]
        exact ⟨fun hd => hd.resolve_left hdc, .inr⟩
      · rw [update_of_ne hqp]
        exact h.mem_iff q hq d
  · by_cases hdc : d = c
    · subst hdc
      rw [update_self] at hdq
      exact Option.some.inj hdq ▸ hp
    · rw [update_of_ne hdc] at hdq
      exact h.parent d q hd hdq
  · by_cases hqp : q = p
    · subst hqp
      rw [update_self]
      exact List.nodup_cons.2 ⟨hkids q hq, h.nodup q hq⟩
    · rw [update_of_ne hqp]
      exact h.nodup q hq

/-- The first child of a node becomes a root. -/
theorem orphan (hp : node p) (hkids : kids p = c :: zs) :
    Forest node (update parent c none) (update firstChild p (sibling c))
      (update sibling c none) (update kids p zs) := by
  have hnd := h.nodup p hp
  rw [hkids] at hnd
  have hcz : c ∉ zs := (List.nodup_cons.1 hnd).1
  have hmem : c ∈ kids p := by rw [hkids]; exact List.mem_cons_self
  refine ⟨fun q hq => ?_, fun q hq d => ?_, fun d q hd hdq => ?_, fun q hq => ?_⟩
  · by_cases hqp : q = p
    · subst hqp
      rw [update_self, update_self]
      have hchain := h.chain q hq
      rw [hkids] at hchain
      exact hchain.2.update hcz none
    · rw [update_of_ne hqp, update_of_ne hqp]
      exact (h.chain q hq).update (h.not_mem_of_ne hp hq hmem hqp) none
  · by_cases hdc : d = c
    · subst hdc
      rw [update_self]
      refine ⟨fun hd => ?_, fun hd => by cases hd.2⟩
      by_cases hqp : q = p
      · subst hqp
        rw [update_self] at hd
        exact absurd hd hcz
      · rw [update_of_ne hqp] at hd
        exact absurd hd (h.not_mem_of_ne hp hq hmem hqp)
    · rw [update_of_ne hdc]
      by_cases hqp : q = p
      · subst hqp
        rw [update_self, ← h.mem_iff q hq, hkids, List.mem_cons]
        exact ⟨.inr, fun hd => hd.resolve_left hdc⟩
      · rw [update_of_ne hqp]
        exact h.mem_iff q hq d
  · by_cases hdc : d = c
    · subst hdc
      rw [update_self] at hdq
      cases hdq
    · rw [update_of_ne hdc] at hdq
      exact h.parent d q hd hdq
  · by_cases hqp : q = p
    · subst hqp
      rw [update_self]
      exact (List.nodup_cons.1 hnd).2
    · rw [update_of_ne hqp]
      exact h.nodup q hq

/-- The lists of children without a node. -/
theorem remove_mem (hp : node p) (hkids : kids p = ys ++ c :: zs) {q d : α} (hq : node q) :
    d ∈ update kids p (ys ++ zs) q ↔ (node d ∧ d ≠ c) ∧ parent d = some q := by
  have hnd := h.nodup p hp
  rw [hkids, List.nodup_middle] at hnd
  have hc : c ∉ ys ++ zs := (List.nodup_cons.1 hnd).1
  have hmem : c ∈ kids p := by rw [hkids]; simp
  by_cases hqp : q = p
  · subst hqp
    rw [update_self]
    constructor
    · intro hd
      have hdk : d ∈ kids q := by
        rw [hkids, List.mem_append, List.mem_cons]
        rcases List.mem_append.1 hd with hd | hd
        · exact .inl hd
        · exact .inr (.inr hd)
      obtain ⟨h1, h2⟩ := (h.mem_iff q hq d).1 hdk
      exact ⟨⟨h1, fun e => hc (e ▸ hd)⟩, h2⟩
    · rintro ⟨⟨h1, hne⟩, h2⟩
      have hdk := (h.mem_iff q hq d).2 ⟨h1, h2⟩
      rw [hkids, List.mem_append, List.mem_cons] at hdk
      rw [List.mem_append]
      exact hdk.imp_right fun hd => hd.resolve_left hne
  · rw [update_of_ne hqp, h.mem_iff q hq]
    constructor
    · rintro ⟨h1, h2⟩
      refine ⟨⟨h1, ?_⟩, h2⟩
      rintro rfl
      exact h.not_mem_of_ne hp hq hmem hqp ((h.mem_iff q hq d).2 ⟨h1, h2⟩)
    · rintro ⟨⟨h1, -⟩, h2⟩
      exact ⟨h1, h2⟩

theorem remove_nodup (hp : node p) (hkids : kids p = ys ++ c :: zs)
    {q : α} (hq : node q) : (update kids p (ys ++ zs) q).Nodup := by
  by_cases hqp : q = p
  · subst hqp
    have hnd := h.nodup q hq
    rw [hkids, List.nodup_middle] at hnd
    rw [update_self]
    exact (List.nodup_cons.1 hnd).2
  · rw [update_of_ne hqp]
    exact h.nodup q hq

/-- The first child of a node is removed. -/
theorem removeFirst (hp : node p) (hkids : kids p = c :: zs) (hnil : kids c = []) :
    Forest (fun x => node x ∧ x ≠ c) parent (update firstChild p (sibling c)) sibling
      (update kids p zs) := by
  have hkids' : kids p = [] ++ c :: zs := hkids
  have hmem : c ∈ kids p := by rw [hkids]; exact List.mem_cons_self
  have hc := ((h.mem_iff p hp c).1 hmem).1
  refine ⟨fun q hq => ?_, fun q hq d => h.remove_mem hp hkids' hq.1, fun d q hd hdq => ?_,
    fun q hq => h.remove_nodup hp hkids' hq.1⟩
  · by_cases hqp : q = p
    · subst hqp
      have hchain := h.chain q hq.1
      rw [hkids] at hchain
      rw [update_self, update_self]
      exact hchain.2
    · rw [update_of_ne hqp, update_of_ne hqp]
      exact h.chain q hq.1
  · refine ⟨h.parent d q hd.1 hdq, ?_⟩
    rintro rfl
    exact h.parent_ne hc hnil hd.1 hdq

/-- Another child of a node is removed, the one after `b`. -/
theorem removeNext (hp : node p) (hkids : kids p = ys ++ b :: c :: zs) (hnil : kids c = []) :
    Forest (fun x => node x ∧ x ≠ c) parent firstChild (update sibling b (sibling c))
      (update kids p (ys ++ b :: zs)) := by
  have hkids' : kids p = (ys ++ [b]) ++ c :: zs := by rw [hkids, List.append_assoc]; rfl
  have hres : ys ++ b :: zs = (ys ++ [b]) ++ zs := by rw [List.append_assoc]; rfl
  have hmemc : c ∈ kids p := by rw [hkids]; simp
  have hmemb : b ∈ kids p := by rw [hkids]; simp
  have hc := ((h.mem_iff p hp c).1 hmemc).1
  rw [hres]
  refine ⟨fun q hq => ?_, fun q hq d => h.remove_mem hp hkids' hq.1, fun d q hd hdq => ?_,
    fun q hq => h.remove_nodup hp hkids' hq.1⟩
  · by_cases hqp : q = p
    · subst hqp
      have hchain := h.chain q hq.1
      have hnd := h.nodup q hq.1
      rw [hkids] at hchain hnd
      rw [update_self, ← hres]
      exact hchain.unlink hnd
    · rw [update_of_ne hqp]
      exact (h.chain q hq.1).update (h.not_mem_of_ne hp hq.1 hmemb hqp) _
  · refine ⟨h.parent d q hd.1 hdq, ?_⟩
    rintro rfl
    exact h.parent_ne hc hnil hd.1 hdq

end

end Forest

end Sibling
