import RtThread.Dfs.FdTable
import RtThread.Dfs.Vnode

/-!
# The references of vnodes

A vnode is in the hash table as long as objects are open on it, and its count is their number (`RefCounted`), in the runs
in which `open` does not fail in the open routine of a vnode that is there already, and in which an object of a caller is
closed only when it is the last one of its vnode; and in no others (`vnode_references`). `Books` is the invariant.
-/

namespace RtThread.DfsState

open Function (update update_idem update_of_ne update_self)

/-- The objects that are open, each with its vnode, after an act. -/
def account (os : List (Nat × Nat)) : FileAct → List (Nat × Nat)
  | .opened f v => (f, v) :: os
  | .close f result => if 0 ≤ result then os.filter (fun p => p.1 ≠ f) else os

/-- The objects that are open. -/
def openObjects (acts : List FileAct) : List (Nat × Nat) := acts.foldl account []

/-- How many objects are open on a vnode. -/
def openOn (os : List (Nat × Nat)) (v : Nat) : Nat := os.countP fun p => p.2 = v

/-- The vnodes in the hash table are those with an open object, and they count them; there is one for a path. -/
structure RefCounted (ls : List (DfsEv × DfsRet)) (s : DfsState) : Prop where
  hash : ∀ v, (∃ b, v ∈ s.head b) ↔ s.vnode v ≠ none
  count : ∀ v x, s.vnode v = some x → x.refCount = openOn (openObjects (actsOf ls)) v
  live : ∀ v, s.vnode v ≠ none ↔ 0 < openOn (openObjects (actsOf ls)) v
  unique : ∀ v w x y, s.vnode v = some x → s.vnode w = some y → x.fullpath = y.fullpath → v = w

/-- `open` is not refused by the vnode of an open file, and an object of a caller is closed only as the last of its vnode. -/
def Balanced (c : DfsConfig) (s : DfsState) : DfsEv → Prop
  | .posixOpen file o => ∀ v x, Found c s file o v x → (s.fdNew c o).2 ≠ none → 0 ≤ o.fopsOpen
  | .ownedClose f o => ∀ v x, s.vnodeOf f = some v → s.vnode v = some x → 0 ≤ x.closeResult o → x.refCount = 1
  | _ => True

/-- The calls of the POSIX layer, and `dfs_file_open` and `dfs_file_close` with an object of a caller. -/
def IsFileCall : DfsEv → Prop
  | .posixOpen .. | .posixClose .. | .dup .. | .dup2 .. | .ownedOpen .. | .ownedClose .. => True
  | _ => False

/-- The objects of callers have one reference each. -/
structure OwnedOnce (s : DfsState) : Prop where
  nodup : s.owned.Nodup
  once : ∀ f ∈ s.owned, s.refs f = some 1

structure Books (c : DfsConfig) (os : List (Nat × Nat)) (s : DfsState) : Prop where
  table : Table c s
  hashed : Hashed s
  count : ∀ v x, s.vnode v = some x → x.refCount = openOn os v
  live : ∀ f v, (f, v) ∈ os → s.vnode v ≠ none
  objects : ∀ f v, (f, v) ∈ os ↔ s.vnodeOf f = some v
  bound : ∀ f, s.refs f ≠ none → s.vnodeOf f ≠ none
  nodup : (os.map Prod.fst).Nodup
  owned : OwnedOnce s

variable {c : DfsConfig} {s s' s1 s2 : DfsState} {os : List (Nat × Nat)} {f g v w i n : Nat} {fd : Int} {o : Outside}
  {d : DfsFile} {x : DfsVnode} {acts : List FileAct} {ls : List (DfsEv × DfsRet)}

/-! ## Open objects -/

theorem openOn_pos : 0 < openOn os v ↔ ∃ f, (f, v) ∈ os := by
  rw [openOn, List.countP_pos_iff]
  constructor
  · rintro ⟨⟨f, w⟩, hmem, hw⟩
    obtain rfl : w = v := by simpa using hw
    exact ⟨f, hmem⟩
  · rintro ⟨f, hmem⟩
    exact ⟨(f, v), hmem, by simp⟩

theorem openOn_cons : openOn ((f, w) :: os) v = openOn os v + if w = v then 1 else 0 := by
  simp [openOn, List.countP_cons]

/-- The object `f` is not open any more. -/
theorem openOn_filter (hnodup : (os.map Prod.fst).Nodup) (hmem : (f, w) ∈ os) :
    openOn os v = openOn (os.filter fun p => p.1 ≠ f) v + if w = v then 1 else 0 := by
  induction os with
  | nil => cases hmem
  | cons p os ih =>
    rw [List.map_cons, List.nodup_cons] at hnodup
    obtain ⟨g, u⟩ := p
    rcases List.mem_cons.1 hmem with heq | hmem
    · cases heq
      have hkeep : os.filter (fun p => p.1 ≠ f) = os := by
        rw [List.filter_eq_self]
        intro p hp
        have hne : p.1 ≠ f := by
          rintro rfl
          exact hnodup.1 (List.mem_map.2 ⟨p, hp, rfl⟩)
        simpa using hne
      rw [List.filter_cons_of_neg (by simp), hkeep, openOn_cons]
    · have hne : g ≠ f := by
        rintro rfl
        exact hnodup.1 (List.mem_map.2 ⟨_, hmem, rfl⟩)
      rw [List.filter_cons_of_pos (by simpa using hne), openOn_cons, openOn_cons, ih hnodup.2 hmem]
      omega

variable {y : DfsEv × DfsRet} {e : DfsErrno} {r : DfsRet} {oldfd : Int} {table : List DfsFilesystem}

theorem openObjects_snoc : openObjects (actsOf (ls ++ [y])) = y.2.acts.foldl account (openObjects (actsOf ls)) := by
  rw [openObjects, actsOf, List.flatMap_append, List.flatMap_singleton, List.foldl_append]
  rfl

theorem Books.refCounted (hb : Books c (openObjects (actsOf ls)) s) : RefCounted ls s where
  hash v := by
    constructor
    · rintro ⟨b, hv⟩
      obtain ⟨x, hx, -⟩ := (hb.hashed.linked v b).1 hv
      rw [hx]
      exact Option.some_ne_none x
    · intro hv
      obtain ⟨x, hx⟩ := Option.ne_none_iff_exists'.1 hv
      exact ⟨_, (hb.hashed.linked v _).2 ⟨x, hx, rfl⟩⟩
  count := hb.count
  live v := by
    constructor
    · intro hv
      obtain ⟨x, hx⟩ := Option.ne_none_iff_exists'.1 hv
      have hpos := hb.hashed.positive v x hx
      rw [hb.count v x hx] at hpos
      omega
    · intro hpos
      obtain ⟨f, hmem⟩ := openOn_pos.1 hpos
      exact hb.live f v hmem
  unique := hb.hashed.unique

/-- The vnode of an object that is there. -/
theorem Books.get (hb : Books c os s) (hf : s.refs f ≠ none) :
    ∃ d v x, s.file f = some d ∧ d.vnode = some v ∧ s.vnodeOf f = some v ∧ (f, v) ∈ os ∧ s.vnode v = some x := by
  obtain ⟨v, hv⟩ := Option.ne_none_iff_exists'.1 (hb.bound f hf)
  obtain ⟨d, hd, hdv⟩ := Option.bind_eq_some_iff.1 hv
  have hmem := (hb.objects f v).2 hv
  obtain ⟨x, hx⟩ := Option.ne_none_iff_exists'.1 (hb.live f v hmem)
  exact ⟨d, v, x, hd, hdv, hv, hmem, hx⟩

/-! ## What keeps the books -/

theorem Books.congr (hb : Books c os s) (ht : Table c s') (hsame : SameVnodes s s') (hvof : ∀ f, s'.vnodeOf f = s.vnodeOf f)
    (hrefs : ∀ f, s'.refs f ≠ none → s.refs f ≠ none) (howned : OwnedOnce s') : Books c os s' where
  table := ht
  hashed := hsame.hashed hb.hashed
  count v x := by rw [hsame.vnode]; exact hb.count v x
  live f v := by rw [hsame.vnode]; exact hb.live f v
  objects f v := by rw [hvof]; exact hb.objects f v
  bound f hf := by rw [hvof]; exact hb.bound f (hrefs f hf)
  nodup := hb.nodup
  owned := howned

/-- A new object `f` is open on `v`. -/
theorem Books.opened (hb : Books c os s) (ht : Table c s') (hh : Hashed s') (hf : s.vnodeOf f = none)
    (hvof : s'.vnodeOf = update s.vnodeOf f (some v)) (hv : s'.vnode v = some x)
    (hcount : x.refCount = (openOn os v : Int) + 1) (hothers : ∀ w, w ≠ v → s'.vnode w = s.vnode w)
    (hrefs : ∀ g, s'.refs g ≠ none → g = f ∨ s.refs g ≠ none) (howned : OwnedOnce s') :
    Books c ((f, v) :: os) s' where
  table := ht
  hashed := hh
  count w y hy := by
    rw [openOn_cons]
    by_cases hw : w = v
    · subst hw
      cases hv.symm.trans hy
      rw [hcount, if_pos rfl]
      rfl
    · rw [if_neg (Ne.symm hw), Nat.add_zero]
      rw [hothers w hw] at hy
      exact hb.count w y hy
  live g w hmem := by
    by_cases hw : w = v
    · subst hw
      rw [hv]
      exact Option.some_ne_none x
    · rw [hothers w hw]
      rcases List.mem_cons.1 hmem with heq | hmem
      · exact absurd (Prod.mk.inj heq).2 hw
      · exact hb.live g w hmem
  objects g w := by
    rw [hvof, List.mem_cons, hb.objects]
    by_cases hg : g = f
    · subst hg
      rw [update_self, hf]
      simp [eq_comm]
    · simp [hg]
  bound g hg := by
    rw [hvof]
    by_cases hgf : g = f
    · subst hgf
      rw [update_self]
      exact Option.some_ne_none v
    · rw [update_of_ne hgf]
      exact hb.bound g ((hrefs g hg).resolve_left hgf)
  nodup := by
    rw [List.map_cons, List.nodup_cons]
    refine ⟨?_, hb.nodup⟩
    intro hmem
    obtain ⟨⟨g, w⟩, hp, rfl⟩ := List.mem_map.1 hmem
    rw [hb.objects, hf] at hp
    cases hp
  owned := howned

/-- The object `f` is not open on `v` any more. -/
theorem Books.closed (hb : Books c os s) (ht : Table c s') (hh : Hashed s') (hf : s.vnodeOf f = some v)
    (hvof : s'.vnodeOf = update s.vnodeOf f none)
    (hcount : ∀ x, s'.vnode v = some x → x.refCount = (openOn os v : Int) - 1)
    (hgone : s'.vnode v = none → openOn os v = 1) (hothers : ∀ w, w ≠ v → s'.vnode w = s.vnode w)
    (hrefs : ∀ g, s'.refs g ≠ none → g ≠ f ∧ s.refs g ≠ none) (howned : OwnedOnce s') :
    Books c (os.filter fun p => p.1 ≠ f) s' := by
  have hmem := (hb.objects f v).2 hf
  have hfilter {g w : Nat} : (g, w) ∈ os.filter (fun p => p.1 ≠ f) ↔ (g, w) ∈ os ∧ g ≠ f := by
    simp [List.mem_filter]
  constructor
  · exact ht
  · exact hh
  · intro w y hy
    have hopen := openOn_filter (v := w) hb.nodup hmem
    by_cases hw : w = v
    · subst hw
      rw [hcount y hy, hopen]
      simp
    · rw [if_neg (Ne.symm hw), Nat.add_zero] at hopen
      rw [hothers w hw] at hy
      rw [hb.count w y hy, hopen]
  · intro g w hgw
    have hgw' := hfilter.1 hgw
    by_cases hw : w = v
    · subst hw
      intro hnone
      have hopen := openOn_filter (v := w) hb.nodup hmem
      rw [if_pos rfl, hgone hnone] at hopen
      have hpos := openOn_pos.2 ⟨g, hgw⟩
      omega
    · rw [hothers w hw]
      exact hb.live g w hgw'.1
  · intro g w
    rw [hfilter, hvof, hb.objects]
    by_cases hg : g = f
    · subst hg
      simp
    · simp [hg]
  · intro g hg
    obtain ⟨hgf, halive⟩ := hrefs g hg
    rw [hvof, update_of_ne hgf]
    exact hb.bound g halive
  · exact (hb.nodup.sublist (List.filter_sublist.map _))
  · exact howned

/-! ## Slots -/

theorem Grown.sameVnodes (h : Grown s s') : SameVnodes s s' := by
  obtain ⟨k, rfl⟩ := h
  exact ⟨rfl, rfl, Nat.le_refl _, rfl⟩

theorem Grown.file (h : Grown s s') : s'.file = s.file := by
  obtain ⟨k, rfl⟩ := h
  rfl

theorem Grown.owned (h : Grown s s') : s'.owned = s.owned := by
  obtain ⟨k, rfl⟩ := h
  rfl

theorem Books.grown (hb : Books c os s) (h : Grown s s') (ht : Table c s') : Books c os s' := by
  refine hb.congr ht h.sameVnodes ?_ ?_ ?_
  · intro f
    rw [vnodeOf, vnodeOf, h.file]
  · intro f hf
    rwa [h.refs] at hf
  · refine ⟨by rw [h.owned]; exact hb.owned.nodup, fun f hf => ?_⟩
    rw [h.refs]
    exact hb.owned.once f (by rwa [h.owned] at hf)

/-- The object of a slot is not an object of a caller. -/
theorem Table.ne_owned (ht : Table c s) (hf : some f ∈ s.fds) (hg : g ∈ s.owned) : g ≠ f := by
  rintro rfl
  exact (ht.owned g hg).1 hf

theorem shareSlot_books (hb : Books c os s) (hi : s.fds[i]? = some none) (hmem : some f ∈ s.fds)
    (h : s.shareSlot i f = some s') : Books c os s' := by
  obtain ⟨hshared, halive⟩ := shareSlot_spec h
  have ht := hshared.table hb.table hi hmem
  rw [shareSlot] at h
  split at h
  · cases h
  · rename_i d hfile
    cases h
    refine hb.congr ht ⟨rfl, rfl, Nat.le_refl _, rfl⟩ ?_ ?_ ?_
    · intro g
      rw [vnodeOf_setFile]
      by_cases hg : g = f
      · subst hg
        rw [update_self, vnodeOf, hfile]
        rfl
      · rw [update_of_ne hg]
        rfl
    · intro g hg
      by_cases hgf : g = f
      · rw [hgf]
        exact halive
      · rwa [hshared.others g hgf] at hg
    · refine ⟨hb.owned.nodup, fun g hg => ?_⟩
      rw [hshared.others g (hb.table.ne_owned hmem hg)]
      exact hb.owned.once g hg

section

variable (hslot : s.slot fd = some f) (hfile : s.file f = some d)

include hslot hfile

theorem fdRelease_shared (hd : d.refCount ≠ 1) (h : s.fdRelease fd = some s') :
    s' = (s.setSlot fd.toNat none).setFile f (some { d with refCount := d.refCount - 1 }) := by
  simp only [fdRelease, hslot, hfile] at h
  rw [if_neg (by omega)] at h
  exact (Option.some.inj h).symm

theorem fdRelease_unbound (hd : d.refCount = 1)
    (hv : d.vnode = none) (h : s.fdRelease fd = some s') : s' = (s.setSlot fd.toNat none).setFile f none := by
  simp only [fdRelease, hslot, hfile, hv] at h
  rw [if_pos (by omega)] at h
  exact (Option.some.inj h).symm

theorem fdRelease_bound (hd : d.refCount = 1)
    (hv : d.vnode = some v) (hx : s.vnode v = some x) (h : s.fdRelease fd = some s') :
    s' = ((s.setSlot fd.toNat none).setVnode v
      (if x.refCount = 1 then none else some { x with refCount := x.refCount - 1 })).setFile f none := by
  simp only [fdRelease, hslot, hfile, hv] at h
  rw [if_pos (by omega)] at h
  obtain ⟨s1, hput, rfl⟩ := Option.map_eq_some_iff.1 h
  have hx' : (s.setSlot fd.toNat none).vnode v = some x := hx
  simp only [putVnode, hx'] at hput
  split at hput
  · cases hput
    rw [if_pos (by omega)]
  · cases hput
    rw [if_neg (by omega)]

end

/-- The object of a slot is closed, and the slot is released. -/
theorem release_books (hb : Books c os s) (hslot : s.slot fd = some f)
    (hclose : s.dfsFileClose f o = some (s1, .ok (), acts)) (hrel : s1.fdRelease fd = some s') :
    Books c (acts.foldl account os) s' := by
  obtain ⟨hpos, hi⟩ := slot_eq_some hslot
  have hmem : some f ∈ s.fds := List.mem_of_getElem? hi
  have halive : s.refs f ≠ none := by
    rw [hb.table.counted f hmem]
    exact Option.some_ne_none _
  obtain ⟨d, v, x, hfile, hdv, hvof, hos, hx⟩ := hb.get halive
  have hsame := (dfsFileClose_same hclose).1
  obtain ⟨hreleased, ht'⟩ := close_release hb.table hslot hsame hrel
  have howned : OwnedOnce s' := by
    refine ⟨by rw [hreleased.owned]; exact hb.owned.nodup, fun g hg => ?_⟩
    rw [hreleased.owned] at hg
    rw [hreleased.others g (hb.table.ne_owned hmem hg)]
    exact hb.owned.once g hg
  have hslot1 : s1.slot fd = some f := by
    rw [slot, if_neg (Int.not_lt.2 hpos)]
    exact held_eq_some.2 (by rw [hsame.fds]; exact hi)
  by_cases hone : d.refCount = 1
  · have hrefs1 : s.refs f = some 1 := by rw [refs_of_file hfile, hone]
    have hrefs : ∀ g, s'.refs g ≠ none → g ≠ f ∧ s.refs g ≠ none := by
      intro g hg
      by_cases hgf : g = f
      · subst hgf
        rw [hreleased.refs, if_pos hrefs1] at hg
        exact absurd rfl hg
      · rw [hreleased.others g hgf] at hg
        exact ⟨hgf, hg⟩
    obtain ⟨rfl, ⟨⟨e, hr⟩, -⟩ | ⟨-, hok, ⟨hlast, rfl⟩ | ⟨hmore, rfl⟩⟩⟩ :=
      close_cases hb.hashed hfile hone hdv hx hclose
    · cases hr
    · -- the vnode goes with its last object
      have hacts : [FileAct.close f (x.closeResult o)].foldl account os = os.filter fun p => p.1 ≠ f := if_pos hok
      rw [hacts]
      have hfile1 : ((s.removeVnode v).setFile f (some { d with vnode := none })).file f = some { d with vnode := none } :=
        update_self ..
      obtain rfl := fdRelease_unbound hslot1 hfile1 hone rfl hrel
      have hcount := hb.count v x hx
      have hremoved : SameVnodes (s.removeVnode v) ((((s.removeVnode v).setFile f (some { d with vnode := none })).setSlot
          fd.toNat none).setFile f none) := ⟨rfl, rfl, Nat.le_refl _, rfl⟩
      refine hb.closed ht' (hremoved.hashed hb.hashed.removeVnode) hvof ?_ ?_ ?_ ?_ hrefs howned
      · rw [vnodeOf_setFile]
        change update ((s.removeVnode v).setFile f (some { d with vnode := none })).vnodeOf f none = _
        rw [vnodeOf_setFile, update_idem]
        rfl
      · intro y hy
        change update s.vnode v none v = some y at hy
        rw [update_self] at hy
        cases hy
      · omega
      · intro w hw
        exact update_of_ne hw ..
    · have hacts : [FileAct.close f (x.closeResult o)].foldl account os = os.filter fun p => p.1 ≠ f := if_pos hok
      rw [hacts]
      obtain rfl := fdRelease_bound hslot1 hfile hone hdv hx hrel
      have hcount := hb.count v x hx
      have hposx := hb.hashed.positive v x hx
      rw [if_neg hmore] at ht' hrefs howned ⊢
      have hh : Hashed (((s1.setSlot fd.toNat none).setVnode v (some { x with refCount := x.refCount - 1 })).setFile f none) := by
        have hslots : SameVnodes s1 (s1.setSlot fd.toNat none) := ⟨rfl, rfl, Nat.le_refl _, rfl⟩
        exact ((hslots.hashed hb.hashed).recount (v := v) (x := x) hx (by omega)).setFile
      refine hb.closed ht' hh hvof ?_ ?_ ?_ ?_ hrefs howned
      · rw [vnodeOf_setFile]
        rfl
      · intro y hy
        change update s1.vnode v _ v = some y at hy
        rw [update_self] at hy
        rw [← Option.some.inj hy, ← hcount]
      · intro hnone
        change update s1.vnode v _ v = none at hnone
        rw [update_self] at hnone
        cases hnone
      · intro w hw
        exact update_of_ne hw ..
  · obtain ⟨rfl, -, rfl⟩ := close_shared hfile hone hclose
    obtain rfl := fdRelease_shared hslot hfile hone hrel
    refine hb.congr ht' ⟨rfl, rfl, Nat.le_refl _, rfl⟩ ?_ ?_ howned
    · intro g
      rw [vnodeOf_setFile]
      by_cases hg : g = f
      · subst hg
        rw [update_self, hvof]
        exact hdv
      · rw [update_of_ne hg]
        rfl
    · intro g hg
      by_cases hgf : g = f
      · rw [hgf]
        exact halive
      · rwa [hreleased.others g hgf] at hg

/-! ## Opening -/

/-- The state with a new object `f`, which is open on nothing. -/
structure WithNew (s : DfsState) (f : Nat) (t : DfsState) : Prop where
  same : SameVnodes s t
  file : t.file = update s.file f (some ⟨1, none⟩)
  fresh : s.refs f = none

variable {t t' : DfsState} {path : CString}

theorem WithNew.vnodeOf (h : WithNew s f t) : t.vnodeOf = s.vnodeOf := by
  have hnone : s.file f = none := Option.map_eq_none_iff.1 h.fresh
  funext g
  rw [DfsState.vnodeOf, DfsState.vnodeOf, h.file]
  by_cases hg : g = f
  · subst hg
    rw [update_self, hnone]
    rfl
  · rw [update_of_ne hg]

theorem WithNew.get (h : WithNew s f t) : t.file f = some ⟨1, none⟩ := by
  rw [h.file, update_self]

theorem WithNew.unbound (h : WithNew s f t) : s.vnodeOf f = none := by
  rw [DfsState.vnodeOf, Option.map_eq_none_iff.1 h.fresh]
  rfl

/-- The new object is opened. -/
theorem opened_books (hb : Books c os s) (hnew : WithNew s f t) (hopen : t.dfsFileOpen c f path o = some (t', .ok v))
    (hvnodes : SameVnodes t' s') (hfile : s'.file = t'.file) (ht : Table c s')
    (hrefs : ∀ g, s'.refs g ≠ none → g = f ∨ s.refs g ≠ none) (howned : OwnedOnce s') :
    Books c ((f, v) :: os) s' := by
  have hh := hnew.same.hashed hb.hashed
  have hvof' : s'.vnodeOf = t'.vnodeOf := by
    funext g
    rw [vnodeOf, vnodeOf, hfile]
  rcases open_cases hh hnew.get rfl hopen with ⟨e, hr, -⟩ | ⟨e, v', x, hr, -⟩ | ⟨v', x, hr, hfound, -, rfl⟩ |
    ⟨x, hr, hcreated, rfl⟩
  · cases hr
  · cases hr
  · obtain rfl := Except.ok.inj hr
    have hx : s.vnode v = some x := by
      rw [← hnew.same.vnode]
      exact hfound.vnode
    refine hb.opened (v := v) (x := { x with refCount := x.refCount + 1 }) ht (hvnodes.hashed (hh.referred hfound.vnode))
      hnew.unbound ?_ ?_ ?_ ?_ hrefs howned
    · rw [hvof', referred, vnodeOf_setFile]
      change update t.vnodeOf f (some v) = _
      rw [hnew.vnodeOf]
    · rw [hvnodes.vnode]
      exact update_self ..
    · rw [hb.count v x hx]
    · intro w hw
      rw [hvnodes.vnode, ← hnew.same.vnode]
      exact update_of_ne hw ..
  · obtain rfl := Except.ok.inj hr
    have hlt : s.vnode t.nextVnode = none := by
      rw [← hnew.same.vnode]
      exact hh.fresh _ (Nat.le_refl _)
    have hzero : openOn os t.nextVnode = 0 := by
      by_contra hne
      obtain ⟨g, hg⟩ := openOn_pos.1 (Nat.pos_of_ne_zero hne)
      exact hb.live g _ hg hlt
    have hpos : 0 < x.refCount := by
      rw [hcreated.refCount]
      exact Int.one_pos
    refine hb.opened (x := x) ht (hvnodes.hashed (hh.created hpos hcreated.other)) hnew.unbound ?_ ?_ ?_ ?_ hrefs howned
    · have hcr : (t.created f ⟨1, none⟩ x).vnodeOf = (t.setFile f (some ⟨1, some t.nextVnode⟩)).vnodeOf := rfl
      rw [hvof', hcr, vnodeOf_setFile, hnew.vnodeOf]
      rfl
    · rw [hvnodes.vnode]
      exact update_self ..
    · rw [hcreated.refCount, hzero]
      rfl
    · intro w hw
      rw [hvnodes.vnode, ← hnew.same.vnode]
      exact update_of_ne hw ..

/-- The new object is not opened, and not used any more. -/
theorem refused_books (hb : Books c os s) (hnew : WithNew s f t)
    (hopen : t.dfsFileOpen c f path o = some (t', .error e)) (hvnodes : SameVnodes t' s')
    (hfile : s'.file = update t'.file f none) (ht : Table c s') (hrefs : ∀ g, s'.refs g ≠ none → s.refs g ≠ none)
    (howned : OwnedOnce s') : Books c os s' := by
  have hh := hnew.same.hashed hb.hashed
  have hvof' (hother : ∀ g, g ≠ f → t'.file g = t.file g) (g : Nat) : s'.vnodeOf g = s.vnodeOf g := by
    rw [vnodeOf, hfile]
    by_cases hg : g = f
    · subst hg
      rw [update_self, hnew.unbound]
      rfl
    · rw [update_of_ne hg, hother g hg, hnew.file, update_of_ne hg]
      rfl
  rcases open_cases hh hnew.get rfl hopen with ⟨-, -, -, hsame, heq⟩ | ⟨-, v, x, -, -, -, rfl⟩ | ⟨v, x, hr, -⟩ | ⟨x, hr, -⟩
  · refine hb.congr ht ⟨?_, ?_, ?_, ?_⟩ (hvof' ?_) hrefs howned
    · rw [hvnodes.vnode, hsame.vnode, hnew.same.vnode]
    · rw [hvnodes.head, hsame.head, hnew.same.head]
    · exact Nat.le_trans hnew.same.nextVnode (Nat.le_trans hsame.nextVnode hvnodes.nextVnode)
    · rw [hvnodes.table, hsame.table, hnew.same.table]
    · intro g _
      rw [heq]
  · refine hb.congr ht ⟨?_, ?_, ?_, ?_⟩ (hvof' ?_) hrefs howned
    · rw [hvnodes.vnode]
      exact hnew.same.vnode
    · rw [hvnodes.head]
      exact hnew.same.head
    · exact Nat.le_trans hnew.same.nextVnode hvnodes.nextVnode
    · rw [hvnodes.table]
      exact hnew.same.table
    · intro g hg
      exact update_of_ne hg ..
  · cases hr
  · cases hr

/-! ## Calls -/

theorem posixOpen_books (hb : Books c os s) (hbal : Balanced c s (.posixOpen path o))
    (h : s.posixOpen c path o = some (s', r)) : Books c (r.acts.foldl account os) s' := by
  have ht' := (posixOpen_moves hb.table h).table
  rw [posixOpen] at h
  generalize hfd : s.fdNew c o = y at h
  obtain ⟨t, slot⟩ := y
  obtain ⟨-, ⟨rfl, hg⟩ | ⟨idx, s1, rfl, hfree, hg, hi, rfl⟩⟩ := fdNew_spec hb.table hfd
  · cases h
    exact hb.grown hg ht'
  · have hnew : WithNew s s.nextFile (s1.newFile.setSlot idx (some s.nextFile)) := by
      obtain ⟨k, rfl⟩ := hg
      exact ⟨⟨rfl, rfl, Nat.le_refl _, rfl⟩, rfl, hb.table.fresh _ (Nat.le_refl _)⟩
    have hslot : (s1.newFile.setSlot idx (some s.nextFile)).slot idx = some s.nextFile := by
      refine held_eq_some.2 ?_
      exact List.getElem?_set_self (List.getElem?_eq_some_iff.1 hi).1
    have howned : (s1.newFile.setSlot idx (some s.nextFile)).owned = s.owned := hg.owned
    have hbal' : ∀ v x, Found c s path o v x → 0 ≤ o.fopsOpen := by
      intro v x hfound
      refine hbal v x hfound ?_
      rw [hfd]
      exact Option.some_ne_none _
    generalize s1.newFile.setSlot idx (some s.nextFile) = t at h hnew hslot howned
    have hrefs {g : Nat} (hg : g ≠ s.nextFile) : t.refs g = s.refs g := by
      rw [refs, hnew.file, update_of_ne hg]
      rfl
    have hne {g : Nat} (hg : g ∈ s.owned) : g ≠ s.nextFile := Nat.ne_of_lt (hb.table.owned g hg).2
    dsimp only at h
    cases hopen : t.dfsFileOpen c s.nextFile path o with
    | none => rw [hopen] at h; cases h
    | some z =>
      obtain ⟨t', r1⟩ := z
      have hsame := dfsFileOpen_same hopen
      rw [hopen] at h
      cases r1 with
      | ok v =>
        cases h
        refine opened_books hb hnew hopen ⟨rfl, rfl, Nat.le_refl _, rfl⟩ rfl ht' ?_ ?_
        · intro g hg
          by_cases hgf : g = s.nextFile
          · exact .inl hgf
          · rw [hsame.refs, hrefs hgf] at hg
            exact .inr hg
        · refine ⟨by rw [hsame.owned, howned]; exact hb.owned.nodup, fun g hg => ?_⟩
          rw [hsame.owned, howned] at hg
          rw [hsame.refs, hrefs (hne hg)]
          exact hb.owned.once g hg
      | error e =>
        obtain ⟨s2, hrel, heq⟩ := Option.map_eq_some_iff.1 h
        obtain ⟨rfl, rfl⟩ := Prod.mk.inj heq
        have hunbound : t'.file s.nextFile = some ⟨1, none⟩ := by
          rcases open_cases (hnew.same.hashed hb.hashed) hnew.get rfl hopen with ⟨-, -, -, -, heq⟩ |
            ⟨-, v, x, -, hfound, hneg, -⟩ | ⟨v, x, hr, -⟩ | ⟨x, hr, -⟩
          · rw [heq]
            exact hnew.get
          · have hfound' : Found c s path o v x := by
              obtain ⟨hnormal, hmalloc, hx⟩ := hfound
              rw [hnew.same.vnode] at hx
              exact ⟨hnormal, hmalloc, hx⟩
            exact absurd (hbal' v x hfound') (Int.not_le.2 hneg)
          · cases hr
          · cases hr
        have hslot' : t'.slot idx = some s.nextFile := by
          rw [slot, hsame.fds]
          exact hslot
        have hreleased := fdRelease_spec hslot' hrel
        have hgone : s2.refs s.nextFile = none := by
          rw [hreleased.refs, refs_of_file hunbound]
          rfl
        obtain rfl := fdRelease_unbound hslot' hunbound rfl rfl hrel
        refine refused_books hb hnew hopen ⟨rfl, rfl, Nat.le_refl _, rfl⟩ rfl ht' ?_ ?_
        · intro g hg
          by_cases hgf : g = s.nextFile
          · subst hgf
            exact absurd hgone hg
          · rwa [hreleased.others g hgf, hsame.refs, hrefs hgf] at hg
        · refine ⟨by rw [hreleased.owned, hsame.owned, howned]; exact hb.owned.nodup, fun g hg => ?_⟩
          rw [hreleased.owned, hsame.owned, howned] at hg
          rw [hreleased.others g (hne hg), hsame.refs, hrefs (hne hg)]
          exact hb.owned.once g hg

/-- A close that is refused changes nothing. -/
theorem close_refused (os : List (Nat × Nat)) (h : s.dfsFileClose f o = some (s', .error e, acts)) :
    s' = s ∧ acts.foldl account os = os := by
  obtain ⟨-, ⟨-, rfl, rfl⟩ | ⟨-, result, rfl, ⟨-, hr⟩ | ⟨hneg, -, rfl⟩⟩⟩ := dfsFileClose_same h
  · exact ⟨rfl, rfl⟩
  · cases hr
  · exact ⟨rfl, if_neg (Int.not_le.2 hneg)⟩

theorem posixClose_books (hb : Books c os s) (h : s.posixClose fd o = some (s', r)) :
    Books c (r.acts.foldl account os) s' := by
  rw [posixClose] at h
  cases hslot : s.slot fd with
  | none =>
    rw [hslot] at h
    cases h
    exact hb
  | some f =>
    rw [hslot] at h
    dsimp only at h
    cases hclose : s.dfsFileClose f o with
    | none => rw [hclose] at h; cases h
    | some y =>
      obtain ⟨s1, r1, acts⟩ := y
      rw [hclose] at h
      cases r1 with
      | error e =>
        cases h
        obtain ⟨rfl, hacts⟩ := close_refused os hclose
        rw [hacts]
        exact hb
      | ok _ =>
        obtain ⟨s2, hrel, heq⟩ := Option.map_eq_some_iff.1 h
        cases heq
        exact release_books hb hslot hclose hrel

theorem sysDup_books (hb : Books c os s) (h : s.step c (.dup oldfd o) = some (s', r)) :
    Books c (r.acts.foldl account os) s' := by
  simp only [step, sysDup] at h
  obtain ⟨y, hy, heq⟩ := Option.map_eq_some_iff.1 h
  cases heq
  cases hslot : s.slot oldfd with
  | none =>
    rw [hslot] at hy
    cases hy
    exact hb
  | some f =>
    rw [hslot] at hy
    have hmem : some f ∈ s.fds := List.mem_of_getElem? (slot_eq_some hslot).2
    generalize hx : s.fdSlotAlloc c dfsStdioOffset o = z at hy
    obtain ⟨s1, slot⟩ := z
    obtain ⟨hg, hlen, hnew⟩ := fdSlotAlloc_spec hx
    have hb1 := hb.grown hg (hg.table hb.table (hlen hb.table.length))
    cases slot with
    | none =>
      cases hy
      exact hb1
    | some idx =>
      obtain ⟨s2, hshare, rfl⟩ := Option.map_eq_some_iff.1 hy
      obtain ⟨-, hget, -⟩ := hnew idx rfl
      exact shareSlot_books hb1 hget (hg.mem.2 hmem) hshare

theorem sysDup2_books {newfd : Int} (hb : Books c os s)
    (h : s.step c (.dup2 oldfd newfd o) = some (s', r)) : Books c (r.acts.foldl account os) s' := by
  simp only [step, sysDup2] at h
  obtain ⟨y, hy, heq⟩ := Option.map_eq_some_iff.1 h
  cases heq
  cases hold : s.slot oldfd with
  | none =>
    rw [hold] at hy
    cases hy
    exact hb
  | some f =>
    rw [hold] at hy
    dsimp only at hy
    have hmem : some f ∈ s.fds := List.mem_of_getElem? (slot_eq_some hold).2
    split at hy
    · cases hy
      exact hb
    · rename_i hpos
      have hpos := Int.not_lt.1 hpos
      generalize hx : s.fdSlotExpand c newfd.toNat o = z at hy
      obtain ⟨s1, b⟩ := z
      obtain ⟨hg, hlen, hfits⟩ := fdSlotExpand_spec hx
      have hb1 := hb.grown hg (hg.table hb.table (hlen hb.table.length))
      have hmem1 : some f ∈ s1.fds := hg.mem.2 hmem
      cases b with
      | false =>
        cases hy
        exact hb1
      | true =>
        rw [if_neg (by simp)] at hy
        cases hnew : s1.slot newfd with
        | none =>
          rw [hnew] at hy
          obtain ⟨s2, hshare, rfl⟩ := Option.map_eq_some_iff.1 hy
          have hget : s1.fds[newfd.toNat]? = some none := by
            have hlt := hfits rfl
            rw [slot, if_neg (Int.not_lt.2 hpos), List.getElem?_eq_getElem hlt] at hnew
            rw [List.getElem?_eq_getElem hlt]
            exact congrArg some hnew
          exact shareSlot_books hb1 hget hmem1 hshare
        | some g =>
          rw [hnew] at hy
          dsimp only at hy
          split at hy
          · cases hy
            exact hb1
          · rename_i hne
            cases hclose : s1.dfsFileClose g o with
            | none => rw [hclose] at hy; cases hy
            | some w =>
              obtain ⟨s2, r2, acts⟩ := w
              rw [hclose] at hy
              cases r2 with
              | error err =>
                cases hy
                obtain ⟨rfl, hacts⟩ := close_refused os hclose
                exact hacts.symm ▸ hb1
              | ok _ =>
                obtain ⟨s4, hbind, rfl⟩ := Option.map_eq_some_iff.1 hy
                obtain ⟨s3, hrel, hshare⟩ := Option.bind_eq_some_iff.1 hbind
                obtain ⟨-, hi⟩ := slot_eq_some hnew
                obtain ⟨hreleased, -⟩ := close_release hb1.table hnew (dfsFileClose_same hclose).1 hrel
                have hb3 := release_books hb1 hnew hclose hrel
                refine shareSlot_books hb3 ?_ ?_ hshare
                · rw [hreleased.fds, List.getElem?_set_self (List.getElem?_eq_some_iff.1 hi).1]
                · rw [hreleased.fds]
                  exact (Slots.mem_drop_of_ne hi (Ne.symm hne)).2 hmem1

section

variable (hb : Books c os s)

include hb

theorem ownedOpen_books (h : s.ownedOpen c path o = some (s', r)) :
    Books c (r.acts.foldl account os) s' := by
  have ht' := (ownedOpen_moves hb.table h).table
  simp only [ownedOpen] at h
  have hnew : WithNew s s.nextFile s.newFile :=
    ⟨⟨rfl, rfl, Nat.le_refl _, rfl⟩, rfl, hb.table.fresh _ (Nat.le_refl _)⟩
  have hne {g : Nat} (hg : g ∈ s.owned) : g ≠ s.nextFile := Nat.ne_of_lt (hb.table.owned g hg).2
  cases hopen : s.newFile.dfsFileOpen c s.nextFile path o with
  | none => rw [hopen] at h; cases h
  | some z =>
    obtain ⟨s1, r1⟩ := z
    rw [hopen] at h
    have hsame := dfsFileOpen_same hopen
    have hrefs {g : Nat} (hg : g ≠ s.nextFile) : s1.refs g = s.refs g := by
      rw [hsame.refs, newFile_refs_of_ne hg]
    cases r1 with
    | error err =>
      cases h
      refine refused_books hb hnew hopen ⟨rfl, rfl, Nat.le_refl _, rfl⟩ rfl ht' ?_ ?_
      · intro g hg
        rw [refs_setFile] at hg
        by_cases hgf : g = s.nextFile
        · subst hgf
          rw [update_self] at hg
          exact absurd rfl hg
        · rwa [update_of_ne hgf, hrefs hgf] at hg
      · have heq : (s1.setFile s.nextFile none).owned = s.owned := hsame.owned
        refine ⟨by rw [heq]; exact hb.owned.nodup, fun g hg => ?_⟩
        rw [heq] at hg
        rw [refs_setFile, update_of_ne (hne hg), hrefs (hne hg)]
        exact hb.owned.once g hg
    | ok v =>
      cases h
      refine opened_books hb hnew hopen ⟨rfl, rfl, Nat.le_refl _, rfl⟩ rfl ht' ?_ ?_
      · intro g hg
        by_cases hgf : g = s.nextFile
        · exact .inl hgf
        · change s1.refs g ≠ none at hg
          rw [hrefs hgf] at hg
          exact .inr hg
      · have heq : s1.owned = s.owned := hsame.owned
        constructor
        · rw [heq, List.nodup_cons]
          exact ⟨fun hmem => hne hmem rfl, hb.owned.nodup⟩
        · intro g hg
          change s1.refs g = some 1
          rcases List.mem_cons.1 hg with rfl | hg
          · rw [hsame.refs, newFile_refs]
          · rw [heq] at hg
            rw [hrefs (hne hg)]
            exact hb.owned.once g hg

/-- The object of a caller has one reference, and a vnode. -/
theorem Books.getOwned (hf : f ∈ s.owned) :
    ∃ d v x, s.file f = some d ∧ d.refCount = 1 ∧ d.vnode = some v ∧ s.vnodeOf f = some v ∧ (f, v) ∈ os ∧
      s.vnode v = some x := by
  have hone := hb.owned.once f hf
  obtain ⟨d, v, x, hfile, hdv, hvof, hos, hx⟩ := hb.get (hone ▸ Option.some_ne_none _)
  rw [refs_of_file hfile] at hone
  exact ⟨d, v, x, hfile, Option.some.inj hone, hdv, hvof, hos, hx⟩

theorem ownedClose_books (hbal : Balanced c s (.ownedClose f o))
    (h : s.ownedClose f o = some (s', r)) : Books c (r.acts.foldl account os) s' := by
  have ht' := (ownedClose_moves hb.table h).table
  rw [ownedClose] at h
  obtain ⟨hf, h⟩ := Option.ite_none_right_eq_some.1 h
  cases hclose : s.dfsFileClose f o with
  | none => rw [hclose] at h; cases h
  | some z =>
    obtain ⟨s1, r1, acts⟩ := z
    rw [hclose] at h
    cases r1 with
    | error err =>
      cases h
      obtain ⟨rfl, hacts⟩ := close_refused os hclose
      exact hacts.symm ▸ hb
    | ok _ =>
      cases h
      obtain ⟨d, v, x, hfile, hone, hdv, hvof, hos, hx⟩ := hb.getOwned hf
      obtain ⟨rfl, ⟨⟨e, hr⟩, -⟩ | ⟨-, hok, ⟨hlast, rfl⟩ | ⟨hmore, -⟩⟩⟩ :=
        close_cases hb.hashed hfile hone hdv hx hclose
      · cases hr
      · have hacts : [FileAct.close f (x.closeResult o)].foldl account os = os.filter fun p => p.1 ≠ f := if_pos hok
        have hcount := hb.count v x hx
        have hvof' {t : DfsState} (ht : t.file = update (update s.file f (some { d with vnode := none })) f
            none) : t.vnodeOf = update s.vnodeOf f none := by
          funext g
          rw [vnodeOf, ht, update_idem]
          by_cases hg : g = f
          · subst hg
            rw [update_self, update_self]
            rfl
          · rw [update_of_ne hg, update_of_ne hg]
            rfl
        have hrefs {g : Nat} (hg : g ≠ f) : (((s.removeVnode v).setFile f (some { d with vnode := none })).setFile f
            none).refs g = s.refs g := by
          rw [refs_setFile, update_of_ne hg, refs_setFile, update_of_ne hg]
          rfl
        have hremoved {t : DfsState} (hvnode : t.vnode = (s.removeVnode v).vnode) (hhead : t.head = (s.removeVnode v).head)
            (hnext : t.nextVnode = s.nextVnode) (htable : t.filesystemTable = s.filesystemTable) : Hashed t := by
          have hsame : SameVnodes (s.removeVnode v) t := ⟨hvnode, hhead, Nat.le_of_eq hnext.symm, htable⟩
          exact hsame.hashed hb.hashed.removeVnode
        rw [hacts]
        refine hb.closed ht' (hremoved rfl rfl rfl rfl) hvof (hvof' rfl) ?_ ?_ ?_ ?_ ?_
        · intro y hy
          change update s.vnode v none v = some y at hy
          rw [update_self] at hy
          cases hy
        · omega
        · intro w hw
          exact update_of_ne hw ..
        · intro g hg
          change (((s.removeVnode v).setFile f _).setFile f none).refs g ≠ none at hg
          by_cases hgf : g = f
          · rw [hgf, refs_setFile, update_self] at hg
            exact absurd rfl hg
          · rw [hrefs hgf] at hg
            exact ⟨hgf, hg⟩
        · refine ⟨hb.owned.nodup.erase f, fun g hg => ?_⟩
          change (((s.removeVnode v).setFile f _).setFile f none).refs g = some 1
          obtain ⟨hgf, hgown⟩ := (List.Nodup.mem_erase_iff hb.owned.nodup).1 hg
          rw [hrefs hgf]
          exact hb.owned.once g hgown
      · exact absurd (hbal v x hvof hx hok) hmore

theorem step_books (hs : Step c s y s') (hcall : IsFileCall y.1)
    (hbal : Balanced c s y.1) : Books c (y.2.acts.foldl account os) s' := by
  obtain ⟨e, r⟩ := y
  cases e with
  | fdNew o => exact hcall.elim
  | fdRelease fd => exact hcall.elim
  | dup oldfd o => exact sysDup_books hb hs
  | dup2 oldfd newfd o => exact sysDup2_books hb hs
  | posixOpen file o => exact posixOpen_books hb hbal hs
  | posixClose fd o => exact posixClose_books hb hs
  | ownedOpen path o => exact ownedOpen_books hb hs
  | ownedClose f o => exact ownedClose_books hb hbal hs
  | mount path filesystemtype m => exact hcall.elim
  | unmount specialfile pathMalloc fopsUnmount => exact hcall.elim

/-! ## Where the count is lost -/

/-- The vnode of an open file refuses: the count is one less, and if it was one the vnode is freed. -/
theorem posixOpen_drops (hfound : Found c s path o v x) (hfd : (s.fdNew c o).2 ≠ none)
    (hneg : o.fopsOpen < 0) (h : s.posixOpen c path o = some (s', r)) :
    r.acts = [] ∧ s'.vnode v = if x.refCount = 1 then none else some { x with refCount := x.refCount - 1 } := by
  rw [posixOpen] at h
  generalize hnew : s.fdNew c o = y at h hfd
  obtain ⟨t, slot⟩ := y
  obtain ⟨-, ⟨rfl, -⟩ | ⟨idx, s1, rfl, -, hg, hi, rfl⟩⟩ := fdNew_spec hb.table hnew
  · exact absurd rfl hfd
  · have hwith : WithNew s s.nextFile (s1.newFile.setSlot idx (some s.nextFile)) := by
      obtain ⟨k, rfl⟩ := hg
      exact ⟨⟨rfl, rfl, Nat.le_refl _, rfl⟩, rfl, hb.table.fresh _ (Nat.le_refl _)⟩
    have hslot : (s1.newFile.setSlot idx (some s.nextFile)).slot idx = some s.nextFile := by
      refine held_eq_some.2 ?_
      exact List.getElem?_set_self (List.getElem?_eq_some_iff.1 hi).1
    generalize s1.newFile.setSlot idx (some s.nextFile) = t at h hwith hslot
    have hfound' : Found c t path o v x := by
      obtain ⟨hnormal, hmalloc, hx⟩ := hfound
      rw [← hwith.same.vnode] at hx
      exact ⟨hnormal, hmalloc, hx⟩
    dsimp only at h
    cases hopen : t.dfsFileOpen c s.nextFile path o with
    | none => rw [hopen] at h; cases h
    | some z =>
      obtain ⟨t', r1⟩ := z
      rw [hopen] at h
      have hh := hwith.same.hashed hb.hashed
      rcases open_cases hh hwith.get rfl hopen with ⟨-, -, hnot, -⟩ | ⟨e, w, y, rfl, hfoundw, -, rfl⟩ |
        ⟨w, y, -, -, hok, -⟩ | ⟨y, -, hcreated, -⟩
      · exact absurd hfound' (hnot v x)
      · obtain ⟨s2, hrel, heq⟩ := Option.map_eq_some_iff.1 h
        cases heq
        have hpath : x.fullpath = y.fullpath :=
          Option.some.inj (Option.some.inj (hfound'.normal.symm.trans hfoundw.normal))
        obtain rfl := hh.unique v w x y hfound'.vnode hfoundw.vnode hpath
        cases hfound'.vnode.symm.trans hfoundw.vnode
        have hfile : (t.setFile s.nextFile (some ⟨1, some v⟩)).file s.nextFile = some ⟨1, some v⟩ :=
          update_self ..
        have hslot' : (t.setFile s.nextFile (some ⟨1, some v⟩)).slot idx = some s.nextFile := hslot
        obtain rfl := fdRelease_bound hslot' hfile rfl rfl hfound'.vnode hrel
        exact ⟨rfl, update_self ..⟩
      · exact absurd hok (Int.not_le.2 hneg)
      · have hpath : x.fullpath = y.fullpath :=
          Option.some.inj (Option.some.inj (hfound'.normal.symm.trans hcreated.normal))
        exact absurd hpath (hcreated.other v x hfound'.vnode)

/-- An object of a caller is closed and its vnode has others: the count is as it was. -/
theorem ownedClose_keeps (hvof : s.vnodeOf f = some v) (hx : s.vnode v = some x)
    (hok : 0 ≤ x.closeResult o) (hmore : x.refCount ≠ 1) (h : s.ownedClose f o = some (s', r)) :
    r.acts = [.close f (x.closeResult o)] ∧ s'.vnode v = some x := by
  rw [ownedClose] at h
  split at h
  · rename_i hf
    obtain ⟨d, w, y, hfile, hone, hdv, hvofw, -, hy⟩ := hb.getOwned hf
    cases hvof.symm.trans hvofw
    cases hx.symm.trans hy
    cases hclose : s.dfsFileClose f o with
    | none => rw [hclose] at h; cases h
    | some z =>
      obtain ⟨s1, r1, acts⟩ := z
      rw [hclose] at h
      obtain ⟨rfl, ⟨-, hneg, -⟩ | ⟨rfl, -, ⟨hlast, -⟩ | ⟨-, rfl⟩⟩⟩ := close_cases hb.hashed hfile hone hdv hx hclose
      · exact absurd hok (Int.not_le.2 hneg)
      · exact absurd hlast hmore
      · cases h
        exact ⟨rfl, hx⟩
  · cases h

end

/-- A step after which the vnodes count their objects meets the condition. -/
theorem balanced_of_refCounted (hb : Books c (openObjects (actsOf ls)) s) (hs : Step c s y s')
    (hp : RefCounted (ls ++ [y]) s') : Balanced c s y.1 := by
  obtain ⟨e, r⟩ := y
  cases e with
  | posixOpen file o =>
    intro v x hfound hfd
    by_contra hneg
    obtain ⟨hacts, hv⟩ := posixOpen_drops hb hfound hfd (Int.not_le.1 hneg) hs
    have hopen : openOn (openObjects (actsOf (ls ++ [(DfsEv.posixOpen file o, r)]))) v =
        openOn (openObjects (actsOf ls)) v := by
      rw [openObjects_snoc]
      rw [hacts]
      rfl
    have hcount := hb.count v x hfound.vnode
    split at hv
    · have hlive := hp.live v
      rw [hv, hopen] at hlive
      have : ¬ 0 < openOn (openObjects (actsOf ls)) v := fun hpos => hlive.2 hpos rfl
      omega
    · have hcount' := hp.count v _ hv
      dsimp only at hcount'
      omega
  | ownedClose f o =>
    intro v x hvof hx hok
    by_contra hmore
    obtain ⟨hacts, hv⟩ := ownedClose_keeps hb hvof hx hok hmore hs
    have hopen : openObjects (actsOf (ls ++ [(DfsEv.ownedClose f o, r)])) =
        (openObjects (actsOf ls)).filter fun p => p.1 ≠ f := by
      rw [openObjects_snoc]
      rw [hacts]
      exact if_pos hok
    have hcount := hb.count v x hx
    have hcount' := hp.count v x hv
    have hdrop := openOn_filter (v := v) hb.nodup ((hb.objects f v).2 hvof)
    rw [if_pos rfl] at hdrop
    rw [hopen] at hcount'
    omega
  | fdNew o => exact trivial
  | fdRelease fd => exact trivial
  | dup oldfd o => exact trivial
  | dup2 oldfd newfd o => exact trivial
  | posixClose fd o => exact trivial
  | ownedOpen path o => exact trivial
  | mount path filesystemtype m => exact trivial
  | unmount specialfile pathMalloc fopsUnmount => exact trivial

/-! ## Runs -/

/-- Nothing is open, and the table is that of the mounted filesystems. -/
def mounted (table : List DfsFilesystem) : DfsState := { initial 0 with filesystemTable := table }

theorem hashed_mounted : Hashed (mounted table) where
  sound := ⟨fun _ => List.nodup_nil, fun h => (nomatch h)⟩
  linked v b := by
    constructor
    · intro h
      cases h
    · rintro ⟨x, h, -⟩
      cases h
  unique _ _ _ _ h := nomatch h
  fresh _ _ := rfl
  positive _ _ h := nomatch h

theorem books_mounted : Books c [] (mounted table) where
  table := sameTable_table.table table_initial
  hashed := hashed_mounted
  count _ _ h := nomatch h
  live _ _ h := nomatch h
  objects _ _ := ⟨fun h => (nomatch h), fun h => (nomatch h)⟩
  bound _ h := absurd rfl h
  nodup := List.nodup_nil
  owned := ⟨List.nodup_nil, fun _ h => nomatch h⟩

/-- The runs of file calls in which every vnode counts its objects at every point are those whose steps meet the
condition. -/
theorem vnode_references (table : List DfsFilesystem) (ls : List (DfsEv × DfsRet)) (s : DfsState) :
    Runs.RunWith (fun s x s' => Step c s x s' ∧ IsFileCall x.1) RefCounted (mounted table) ls s ↔
      Runs.Run (fun s x s' => (Step c s x s' ∧ IsFileCall x.1) ∧ Balanced c s x.1) (mounted table) ls s := by
  have hkeep : ∀ ls s x s', Books c (openObjects (actsOf ls)) s → (Step c s x s' ∧ IsFileCall x.1) ∧ Balanced c s x.1 →
      Books c (openObjects (actsOf (ls ++ [x]))) s' := by
    intro ls s x s' hb hs
    rw [openObjects_snoc]
    exact step_books hb hs.1.1 hs.1.2 hs.2
  refine Runs.RunWith.iff_run (I := fun ls s => Books c (openObjects (actsOf ls)) s) books_mounted ?_ hkeep ?_
  · exact (books_mounted (c := c)).refCounted
  · intro ls s x s' hb
    constructor
    · rintro ⟨hs, hp⟩
      exact ⟨hs, balanced_of_refCounted hb hs.1 hp⟩
    · intro hs
      exact ⟨hs.1, (hkeep ls s x s' hb hs).refCounted⟩

/-- A filesystem is mounted on the root. -/
def rootTable : List DfsFilesystem := [⟨none, some rootPath, some dfsTestOps⟩]

/-- Two objects of callers are open on one file, and one is closed. -/
def closedTwin : List (DfsEv × DfsRet) :=
  [(.ownedOpen filePath (testOutside 0 0), ⟨0, none, [.opened 0 0]⟩),
    (.ownedOpen filePath (testOutside 0 0), ⟨0, none, [.opened 1 0]⟩),
    (.ownedClose 0 (testOutside 0 0), ⟨0, none, [.close 0 0]⟩)]

/-- A file is open, and the open routine refuses to open it again. -/
def refusedTwin : List (DfsEv × DfsRet) :=
  [(.posixOpen filePath (testOutside 0 0), ⟨3, none, [.opened 0 0]⟩),
    (.posixOpen filePath (testOutside (-5) 0), ⟨-1, some (.routine (-5)), []⟩)]

/-- The count is two and one object is open; an object is open on a vnode that has been freed, and is in the hash table. -/
theorem vnode_references_lost :
    (∃ s x, Runs.Run (fun s x s' => Step testConfig s x s' ∧ IsFileCall x.1) (mounted rootTable) closedTwin s ∧
      s.vnode 0 = some x ∧ x.refCount = 2 ∧ openOn (openObjects (actsOf closedTwin)) 0 = 1) ∧
    ∃ s, Runs.Run (fun s x s' => Step testConfig s x s' ∧ IsFileCall x.1) (mounted rootTable) refusedTwin s ∧
      s.vnode 0 = none ∧ 0 ∈ s.head (bkdrHash filePath) ∧ openOn (openObjects (actsOf refusedTwin)) 0 = 1 := by
  have hstep : ∀ s e s' r, step testConfig s e = some (s', r) → IsFileCall e → Step testConfig s (e, r) s' ∧ IsFileCall e :=
    fun _ _ _ _ h hcall => ⟨h, hcall⟩
  constructor
  · obtain ⟨s, x, hs, hx, hcount⟩ : ∃ s x,
        Runs.exec (step testConfig) (mounted rootTable) (closedTwin.map Prod.fst) = some (s, closedTwin) ∧
        s.vnode 0 = some x ∧ x.refCount = 2 := ⟨_, _, rfl, rfl, rfl⟩
    refine ⟨s, x, Runs.Run.of_exec hstep hs ?_, hx, hcount, rfl⟩
    simp [closedTwin, IsFileCall]
  · obtain ⟨s, hs, hx, hmem⟩ : ∃ s,
        Runs.exec (step testConfig) (mounted rootTable) (refusedTwin.map Prod.fst) = some (s, refusedTwin) ∧
        s.vnode 0 = none ∧ 0 ∈ s.head (bkdrHash filePath) := ⟨_, rfl, rfl, List.mem_cons_self⟩
    refine ⟨s, Runs.Run.of_exec hstep hs ?_, hx, hmem, rfl⟩
    simp [refusedTwin, IsFileCall]

end RtThread.DfsState
