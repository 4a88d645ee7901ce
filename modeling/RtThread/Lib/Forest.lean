import Mathlib.Data.List.Nodup
import Mathlib.Logic.Function.Basic

/-!
# Ordered forests, linked by child and sibling

`Forest α` is an ordered forest: a first tree, with the forest of its children, and the trees after it. A structure of
nodes with pointers to the parent, the first child and the next sibling (`Links`) holds a forest of nodes (`Linked`).
From a node, the next one in preorder is its first child or, without one, the sibling of the nearest ancestor that has
one (`Links.next`): on a linked forest this visits the nodes in preorder (`Linked.trail`). A new node is linked behind
the last child of a node (`Links.link`, `Linked.link`).
-/

namespace Forests

/-- An ordered forest: nothing, or the root of the first tree, the forest of its children and the other trees. -/
inductive Forest (α : Type)
  | nil
  | cons (a : α) (children siblings : Forest α)
  deriving DecidableEq, Repr

namespace Forest

variable {α β : Type}

/-- The nodes in preorder. -/
def nodes : Forest α → List α
  | nil => []
  | cons a children siblings => a :: (children.nodes ++ siblings.nodes)

/-- The root of the first tree. -/
def head? : Forest α → Option α
  | nil => none
  | cons a _ _ => some a

/-- The number of levels. -/
def levels : Forest α → Nat
  | nil => 0
  | cons _ children siblings => max (children.levels + 1) siblings.levels

def map (g : α → β) : Forest α → Forest β
  | nil => nil
  | cons a children siblings => cons (g a) (children.map g) (siblings.map g)

/-- The forest with `b` as the last of its trees. -/
def append : Forest α → α → Forest α
  | nil, b => cons b nil nil
  | cons a children siblings, b => cons a children (siblings.append b)

/-- The root of the last tree. -/
def last? : Forest α → Option α
  | nil => none
  | cons a _ siblings => siblings.last?.or (some a)

section DecidableEq

variable [DecidableEq α]

/-- The forest with `b` as the last child of `p`. -/
def appendChild (p b : α) : Forest α → Forest α
  | nil => nil
  | cons a children siblings =>
    if a = p then cons a (children.append b) siblings
    else cons a (children.appendChild p b) (siblings.appendChild p b)

/-- The last child of `p`. -/
def lastChild? (p : α) : Forest α → Option α
  | nil => none
  | cons a children siblings => if a = p then children.last? else (children.lastChild? p).or (siblings.lastChild? p)

end DecidableEq

attribute [grind =] nodes levels map append last? appendChild lastChild?

@[simp] theorem nodes_map (g : α → β) (f : Forest α) : (f.map g).nodes = f.nodes.map g := by
  induction f with
  | nil => rfl
  | cons a children siblings ihc ihs => simp [map, nodes, ihc, ihs]

theorem levels_le (f : Forest α) : f.levels ≤ f.nodes.length := by
  induction f with
  | nil => exact Nat.le_refl 0
  | cons a children siblings ihc ihs =>
    simp only [levels, nodes, List.length_cons, List.length_append]
    omega

variable {f : Forest α} {a : α}

theorem map_congr {g g' : α → β} (h : ∀ a ∈ f.nodes, g a = g' a) : f.map g = f.map g' := by
  induction f with
  | nil => rfl
  | cons a children siblings ihc ihs =>
    rw [map, map, h a List.mem_cons_self, ihc fun b hb => h b (by simp [nodes, hb]),
      ihs fun b hb => h b (by simp [nodes, hb])]

theorem head?_mem (h : f.head? = some a) : a ∈ f.nodes := by
  cases f with
  | nil => cases h
  | cons b children siblings =>
    cases h
    exact List.mem_cons_self

theorem head?_eq (f : Forest α) : f.head? = f.nodes.head? := by cases f <;> rfl

theorem last?_mem (h : f.last? = some a) : a ∈ f.nodes := by
  induction f with
  | nil => cases h
  | cons b children siblings ihc ihs =>
    rcases Option.or_eq_some_iff.1 h with h | ⟨-, h⟩
    · exact List.mem_cons_of_mem _ (List.mem_append_right _ (ihs h))
    · cases h
      exact List.mem_cons_self

theorem nodes_append (f : Forest α) (b : α) : (f.append b).nodes = f.nodes ++ [b] := by
  induction f with
  | nil => rfl
  | cons a children siblings ihc ihs => simp [append, nodes, ihs]

section DecidableEq

variable [DecidableEq α] {f : Forest α} {p b : α}

theorem appendChild_of_not_mem (h : p ∉ f.nodes) : f.appendChild p b = f := by
  induction f with
  | nil => rfl
  | cons a children siblings ihc ihs =>
    simp only [nodes, List.mem_cons, List.mem_append, not_or] at h
    rw [appendChild, if_neg (Ne.symm h.1), ihc h.2.1, ihs h.2.2]

theorem head?_appendChild (f : Forest α) (p b : α) : (f.appendChild p b).head? = f.head? := by
  cases f with
  | nil => rfl
  | cons a children siblings =>
    rw [appendChild]
    split
    · rfl
    · rfl

theorem lastChild?_of_not_mem (h : p ∉ f.nodes) : f.lastChild? p = none := by
  induction f with
  | nil => rfl
  | cons a children siblings ihc ihs =>
    simp only [nodes, List.mem_cons, List.mem_append, not_or] at h
    rw [lastChild?, if_neg (Ne.symm h.1), ihc h.2.1, ihs h.2.2]
    rfl

theorem lastChild?_mem {x : α} (h : f.lastChild? p = some x) : x ∈ f.nodes := by
  induction f with
  | nil => cases h
  | cons a children siblings ihc ihs =>
    simp only [nodes, List.mem_cons, List.mem_append]
    rw [lastChild?] at h
    split at h
    · exact .inr (.inl (last?_mem h))
    · rcases Option.or_eq_some_iff.1 h with h | ⟨-, h⟩
      · exact .inr (.inl (ihc h))
      · exact .inr (.inr (ihs h))

/-- Linking adds one node. -/
theorem nodes_appendChild (hp : p ∈ f.nodes) (hn : f.nodes.Nodup) : (f.appendChild p b).nodes.Perm (b :: f.nodes) := by
  induction f with
  | nil => cases hp
  | cons a children siblings ihc ihs =>
    simp only [nodes, List.nodup_cons, List.mem_append, not_or] at hn
    obtain ⟨hna, hcs⟩ := hn
    obtain ⟨hc, hs, hdisj⟩ := List.nodup_append.1 hcs
    rw [appendChild]
    split
    · rw [nodes, nodes_append, nodes, List.append_assoc]
      exact (List.perm_middle.cons a).trans (.swap b a _)
    · rename_i hne
      simp only [nodes, List.mem_cons, List.mem_append] at hp
      rcases hp with rfl | hp | hp
      · exact absurd rfl hne
      · rw [nodes, nodes, appendChild_of_not_mem (f := siblings) fun h => hdisj p hp p h rfl]
        exact (((ihc hp hc).append_right siblings.nodes).cons a).trans (.swap b a _)
      · rw [nodes, nodes, appendChild_of_not_mem (f := children) fun h => hdisj p h p hp rfl]
        exact ((((ihs hp hs).append_left children.nodes).trans List.perm_middle).cons a).trans (.swap b a _)

end DecidableEq

end Forest

/-- Nodes with pointers to the parent, the first child and the next sibling. -/
structure Links (α : Type) where
  parent : α → Option α
  child : α → Option α
  sibling : α → Option α

variable {α : Type} {l l' : Links α} {p : Option α} {f : Forest α} {a b : α} {k : Option α} {n m : Nat}

/-- The nodes hold the forest, whose trees are the children of `p`. -/
def Linked (l : Links α) (p : Option α) : Forest α → Prop
  | .nil => True
  | .cons a children siblings =>
    l.parent a = p ∧ l.child a = children.head? ∧ l.sibling a = siblings.head? ∧ Linked l (some a) children ∧
      Linked l p siblings

/-- Only the pointers of its nodes matter. -/
theorem Linked.congr (h : Linked l p f)
    (hl : ∀ a ∈ f.nodes, l'.parent a = l.parent a ∧ l'.child a = l.child a ∧ l'.sibling a = l.sibling a) :
    Linked l' p f := by
  induction f generalizing p with
  | nil => exact trivial
  | cons a children siblings ihc ihs =>
    obtain ⟨hp, hc, hs, hchildren, hsiblings⟩ := h
    obtain ⟨hp', hc', hs'⟩ := hl a List.mem_cons_self
    refine ⟨hp'.trans hp, hc'.trans hc, hs'.trans hs, ?_, ?_⟩
    · exact ihc hchildren fun b hb => hl b (by simp [Forest.nodes, hb])
    · exact ihs hsiblings fun b hb => hl b (by simp [Forest.nodes, hb])

namespace Links

/-- The sibling of the nearest node that has one, upwards from `a`; at the root, its own. -/
def climb (l : Links α) : Nat → α → Option (Option α)
  | 0, _ => none
  | n + 1, a =>
    match l.parent a, l.sibling a with
    | some p, none => l.climb n p
    | _, s => some s

/-- The node after `a` in preorder. -/
def next (l : Links α) (n : Nat) (a : α) : Option (Option α) :=
  match l.child a with
  | some c => some (some c)
  | none => l.climb n a

/-- The last sibling of `a`. -/
def lastSibling (l : Links α) : Nat → α → Option α
  | 0, _ => none
  | n + 1, a =>
    match l.sibling a with
    | none => some a
    | some b => l.lastSibling n b

/-- The last child of `a`, if it has children. -/
def lastChild (l : Links α) (n : Nat) (a : α) : Option (Option α) :=
  match l.child a with
  | none => some none
  | some c => (l.lastSibling n c).map some

/-- The new node `b` is a child of `p`, behind the last one, if there is one. -/
def link [DecidableEq α] (l : Links α) (p b : α) : Option α → Links α
  | none => ⟨Function.update l.parent b (some p), Function.update (Function.update l.child b none) p (some b),
      Function.update l.sibling b none⟩
  | some a => ⟨Function.update l.parent b (some p), Function.update l.child b none,
      Function.update (Function.update l.sibling b none) a (some b)⟩

/-- The first node from `a` on that has the property. -/
def find (l : Links α) (n : Nat) (q : α → Bool) : Nat → Option α → Option (Option α)
  | _, none => some none
  | 0, some _ => none
  | m + 1, some a => if q a then some (some a) else (l.next n a).bind (l.find n q m)

end Links

/-- Each node of the list is followed by the next one, and the last by `k`. -/
def Trail (R : α → Option α → Prop) : List α → Option α → Prop
  | [], _ => True
  | a :: as, k => R a (as.head?.or k) ∧ Trail R as k

theorem Trail.append {R : α → Option α → Prop} {as bs : List α} (ha : Trail R as (bs.head?.or k)) (hb : Trail R bs k) :
    Trail R (as ++ bs) k := by
  induction as with
  | nil => exact hb
  | cons a as ih =>
    have hnext : (as ++ bs).head?.or k = as.head?.or (bs.head?.or k) := by cases as <;> simp
    rw [List.cons_append]
    refine ⟨?_, ih ha.2⟩
    rw [hnext]
    exact ha.1

/-- In preorder, each node is followed by the next one, and the last by what follows the parent's subtree. -/
theorem Linked.trail (h : Linked l p f) (hp : ∀ q ∈ p, ∀ n, m ≤ n → l.climb n q = some k) (hk : p = none → k = none)
    (hn : f.levels + m ≤ n) : Trail (fun a b => l.next n a = some b) f.nodes k := by
  induction f generalizing p k m with
  | nil => exact trivial
  | cons a children siblings ihc ihs =>
    obtain ⟨hparent, hchild, hsibling, hchildren, hsiblings⟩ := h
    simp only [Forest.levels] at hn
    have hclimb : ∀ n, m + 1 ≤ n → l.climb n a = some (siblings.head?.or k) := by
      intro n hm
      obtain ⟨n, rfl⟩ : ∃ n', n = n' + 1 := ⟨n - 1, by omega⟩
      rw [Links.climb, hparent, hsibling]
      cases hs : siblings.head? with
      | some b => cases p <;> rfl
      | none =>
        cases p with
        | none => rw [hk rfl]; rfl
        | some q => exact hp q rfl n (by omega)
    have hafter : (siblings.nodes.head?).or k = siblings.head?.or k := by rw [Forest.head?_eq]
    refine ⟨?_, ?_⟩
    · show l.next n a = _
      rw [Links.next, hchild]
      cases children with
      | cons c cs ss => rfl
      | nil =>
        simp only [Forest.head?, Forest.nodes, List.nil_append]
        rw [hafter]
        exact hclimb n (by omega)
    · refine Trail.append ?_ (ihs hsiblings hp hk (by omega))
      rw [hafter]
      exact ihc hchildren (fun q hq => Option.some.inj hq ▸ hclimb) (nofun) (by omega)

theorem Trail.find {as : List α} {q : α → Bool} (h : Trail (fun a b => l.next n a = some b) as none)
    (hm : as.length ≤ m) : l.find n q m as.head? = some (as.find? q) := by
  induction as generalizing m with
  | nil => cases m <;> rfl
  | cons a as ih =>
    obtain ⟨m, rfl⟩ : ∃ m', m = m' + 1 := ⟨m - 1, by simp only [List.length_cons] at hm; omega⟩
    have hnext : l.next n a = some as.head? := by simpa using h.1
    rw [List.head?_cons, Links.find, List.find?_cons, hnext]
    cases hq : q a with
    | true => simp
    | false => simpa using ih h.2 (by simpa using hm)

/-- The walk over the whole of a forest finds the first node in preorder. -/
theorem Linked.find {q : α → Bool} (h : Linked l none f) (hn : f.nodes.length ≤ n) :
    l.find n q n f.head? = some (f.nodes.find? q) := by
  have htrail := h.trail (m := 0) (n := n) (k := none) (fun _ hq => nomatch hq) (fun _ => rfl)
    (Nat.le_trans f.levels_le hn)
  rw [Forest.head?_eq]
  exact htrail.find hn

theorem Linked.lastSibling (h : Linked l p f) (hf : f.head? = some a) (hn : f.nodes.length ≤ n) :
    l.lastSibling n a = f.last? := by
  induction f generalizing a n with
  | nil => cases hf
  | cons b children siblings ihc ihs =>
    cases hf
    obtain ⟨-, -, hsibling, -, hsiblings⟩ := h
    simp only [Forest.nodes, List.length_cons, List.length_append] at hn
    obtain ⟨n, rfl⟩ : ∃ n', n = n' + 1 := ⟨n - 1, by omega⟩
    rw [Links.lastSibling, hsibling, Forest.last?]
    cases siblings with
    | nil => rfl
    | cons c cs ss =>
      have hlast : ((Forest.cons c cs ss).last?.or (some b)) = (Forest.cons c cs ss).last? := by
        cases hl : ss.last? <;> simp [Forest.last?, hl]
      rw [hlast]
      exact ihs hsiblings rfl (by omega)

/-- The walk along the children of a node finds the last one. -/
theorem Linked.lastChild [DecidableEq α] {x : α} (h : Linked l p f) (hx : x ∈ f.nodes) (hnodup : f.nodes.Nodup)
    (hn : f.nodes.length ≤ n) : l.lastChild n x = some (f.lastChild? x) := by
  induction f generalizing p with
  | nil => cases hx
  | cons a children siblings ihc ihs =>
    obtain ⟨-, hchild, -, hchildren, hsiblings⟩ := h
    simp only [Forest.nodes, List.nodup_cons, List.mem_append, not_or] at hnodup
    obtain ⟨-, hcs⟩ := hnodup
    obtain ⟨hc, hs, hdisj⟩ := List.nodup_append.1 hcs
    simp only [Forest.nodes, List.length_cons, List.length_append] at hn
    by_cases heq : a = x
    · subst heq
      rw [Forest.lastChild?, if_pos rfl, Links.lastChild, hchild]
      cases children with
      | nil => rfl
      | cons c cs ss =>
        have hlast := hchildren.lastSibling (a := c) (n := n) rfl (by omega)
        have hsome : (Forest.cons c cs ss).last? ≠ none := by simp [Forest.last?]
        obtain ⟨d, hd⟩ := Option.ne_none_iff_exists'.1 hsome
        simp only [Forest.head?, hlast, hd, Option.map_some]
    · rw [Forest.lastChild?, if_neg heq]
      simp only [Forest.nodes, List.mem_cons, List.mem_append] at hx
      rcases hx with rfl | hx | hx
      · exact absurd rfl heq
      · rw [ihc hchildren hx hc (by omega), Forest.lastChild?_of_not_mem (f := siblings) fun h => hdisj x hx x h rfl,
          Option.or_none]
      · rw [ihs hsiblings hx hs (by omega), Forest.lastChild?_of_not_mem (f := children) fun h => hdisj x h x hx rfl,
          Option.none_or]

section Link

variable [DecidableEq α] {x : α} {last : Option α}

theorem Links.link_other (ha : a ≠ b) (hx : a ≠ x) (hlast : some a ≠ last) :
    (l.link x b last).parent a = l.parent a ∧ (l.link x b last).child a = l.child a ∧
      (l.link x b last).sibling a = l.sibling a := by
  cases last with
  | none => simp [Links.link, ha, hx]
  | some c =>
    have hc : a ≠ c := fun h => hlast (congrArg some h)
    simp [Links.link, ha, hc]

/-- A part of the forest that has neither the parent nor its last child stays as it is. -/
theorem Linked.link_of_not_mem (h : Linked l p f) (hb : b ∉ f.nodes) (hx : x ∉ f.nodes)
    (hlast : ∀ c ∈ last, c ∉ f.nodes) : Linked (l.link x b last) p f := by
  refine h.congr fun a ha => Links.link_other ?_ ?_ ?_
  · exact fun heq => hb (heq ▸ ha)
  · exact fun heq => hx (heq ▸ ha)
  · exact fun heq => hlast a heq.symm ha

theorem Links.link_new (l : Links α) (hxb : x ≠ b) (hlast : some b ≠ last) :
    (l.link x b last).parent b = some x ∧ (l.link x b last).child b = none ∧ (l.link x b last).sibling b = none := by
  cases last with
  | none => simp [Links.link, hxb.symm]
  | some c =>
    have hc : b ≠ c := fun h => hlast (congrArg some h)
    simp [Links.link, hc]

/-- The children of the new node's parent. -/
theorem Linked.link_children (h : Linked l (some x) f) (hb : b ∉ f.nodes) (hx : x ∉ f.nodes) (hxb : x ≠ b)
    (hnodup : f.nodes.Nodup) : Linked (l.link x b f.last?) (some x) (f.append b) := by
  have hnew : some b ≠ f.last? := fun heq => hb (Forest.last?_mem heq.symm)
  induction f with
  | nil =>
    obtain ⟨hp, hc, hs⟩ := Links.link_new l hxb hnew
    exact ⟨hp, hc, hs, trivial, trivial⟩
  | cons a children siblings ihc ihs =>
    obtain ⟨hparent, hchild, hsibling, hchildren, hsiblings⟩ := h
    simp only [Forest.nodes, List.nodup_cons, List.mem_append, not_or] at hnodup
    simp only [Forest.nodes, List.mem_cons, List.mem_append, not_or] at hb hx
    obtain ⟨hna, hcs⟩ := hnodup
    obtain ⟨hc, hs, hdisj⟩ := List.nodup_append.1 hcs
    cases siblings with
    | nil =>
      have hlast : (Forest.cons a children .nil).last? = some a := rfl
      obtain ⟨hp', hc', hs'⟩ := Links.link_new l hxb hnew
      have hpa : (l.link x b (some a)).parent a = l.parent a := by simp [Links.link, Ne.symm hb.1]
      have hca : (l.link x b (some a)).child a = l.child a := by simp [Links.link, Ne.symm hb.1]
      have hsa : (l.link x b (some a)).sibling a = some b := by simp [Links.link]
      refine ⟨hpa.trans hparent, hca.trans hchild, hsa, ?_, hp', hc', hs', trivial, trivial⟩
      refine hchildren.link_of_not_mem hb.2.1 hx.2.1 ?_
      intro c hc
      cases hc
      exact hna.1
    | cons z cs ss =>
      have hlast : (Forest.cons a children (.cons z cs ss)).last? = (Forest.cons z cs ss).last? := by
        cases hl : ss.last? <;> simp [Forest.last?, hl]
      rw [hlast] at hnew ⊢
      obtain ⟨d, hd⟩ : ∃ d, (Forest.cons z cs ss).last? = some d :=
        Option.ne_none_iff_exists'.1 (by simp [Forest.last?])
      have hmem : d ∈ (Forest.cons z cs ss).nodes := Forest.last?_mem hd
      have hda : some a ≠ (Forest.cons z cs ss).last? := by
        rw [hd]
        rintro heq
        cases heq
        exact hna.2 hmem
      obtain ⟨hpa, hca, hsa⟩ := Links.link_other (l := l) (x := x) (Ne.symm hb.1) (Ne.symm hx.1) hda
      refine ⟨hpa.trans hparent, hca.trans hchild, hsa.trans hsibling, ?_, ihs hsiblings hb.2.2 hx.2.2 hs hnew⟩
      refine hchildren.link_of_not_mem hb.2.1 hx.2.1 ?_
      intro c hc
      cases hd.symm.trans hc
      exact fun hin => hdisj d hin d hmem rfl

/-- A new node is linked behind the last child of a node. -/
theorem Linked.link (h : Linked l p f) (hb : b ∉ f.nodes) (hx : x ∈ f.nodes) (hnodup : f.nodes.Nodup) :
    Linked (l.link x b (f.lastChild? x)) p (f.appendChild x b) := by
  have hxb : x ≠ b := fun heq => hb (heq ▸ hx)
  induction f generalizing p with
  | nil => cases hx
  | cons a children siblings ihc ihs =>
    obtain ⟨hparent, hchild, hsibling, hchildren, hsiblings⟩ := h
    simp only [Forest.nodes, List.nodup_cons, List.mem_append, not_or] at hnodup
    simp only [Forest.nodes, List.mem_cons, List.mem_append, not_or] at hb
    obtain ⟨hna, hcs⟩ := hnodup
    obtain ⟨hc, hs, hdisj⟩ := List.nodup_append.1 hcs
    by_cases heq : a = x
    · subst heq
      rw [Forest.lastChild?, if_pos rfl, Forest.appendChild, if_pos rfl]
      have hrest : Linked (l.link a b children.last?) p siblings := by
        refine hsiblings.link_of_not_mem hb.2.2 hna.2 ?_
        intro c hlast hin
        exact hdisj c (Forest.last?_mem hlast) c hin rfl
      have hlinked := hchildren.link_children hb.2.1 hna.1 hxb hc
      refine ⟨?_, ?_, ?_, hlinked, hrest⟩
      · cases children.last? <;> simp [Links.link, hxb, hparent]
      · cases children with
        | nil => simp [Links.link, Forest.last?, Forest.append, Forest.head?]
        | cons z cs ss =>
          obtain ⟨d, hd⟩ : ∃ d, (Forest.cons z cs ss).last? = some d :=
            Option.ne_none_iff_exists'.1 (by simp [Forest.last?])
          rw [hd]
          simp [Links.link, hxb, hchild, Forest.append, Forest.head?]
      · cases hl : children.last? with
        | none => simp [Links.link, hxb, hsibling]
        | some d =>
          have hd : a ≠ d := fun heq => hna.1 (heq ▸ Forest.last?_mem hl)
          simp [Links.link, hxb, hd, hsibling]
    · rw [Forest.lastChild?, if_neg heq, Forest.appendChild, if_neg heq]
      simp only [Forest.nodes, List.mem_cons, List.mem_append] at hx
      rcases hx with rfl | hx | hx
      · exact absurd rfl heq
      · have hout : x ∉ siblings.nodes := fun h => hdisj x hx x h rfl
        rw [Forest.lastChild?_of_not_mem hout, Option.or_none, Forest.appendChild_of_not_mem hout]
        have hlast : some a ≠ children.lastChild? x := fun h => hna.1 (Forest.lastChild?_mem h.symm)
        obtain ⟨hpa, hca, hsa⟩ := Links.link_other (l := l) (Ne.symm hb.1) heq hlast
        refine ⟨hpa.trans hparent, ?_, hsa.trans hsibling, ihc hchildren hb.2.1 hx hc, ?_⟩
        · rw [hca, hchild, Forest.head?_appendChild]
        · refine hsiblings.link_of_not_mem hb.2.2 hout ?_
          intro c hlast hin
          exact hdisj c (Forest.lastChild?_mem hlast) c hin rfl
      · have hout : x ∉ children.nodes := fun h => hdisj x h x hx rfl
        rw [Forest.lastChild?_of_not_mem hout, Option.none_or, Forest.appendChild_of_not_mem hout]
        have hlast : some a ≠ siblings.lastChild? x := fun h => hna.2 (Forest.lastChild?_mem h.symm)
        obtain ⟨hpa, hca, hsa⟩ := Links.link_other (l := l) (Ne.symm hb.1) heq hlast
        refine ⟨hpa.trans hparent, hca.trans hchild, ?_, ?_, ihs hsiblings hb.2.2 hx hs⟩
        · rw [hsa, hsibling, Forest.head?_appendChild]
        · refine hchildren.link_of_not_mem hb.2.1 hout ?_
          intro c hlast hin
          exact hdisj c hin c (Forest.lastChild?_mem hlast) rfl

end Link

end Forests
