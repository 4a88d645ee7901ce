import RtThread.Dfs.File

/-!
# What opening a file does to the vnodes

The vnodes that are allocated are those in the hash table, each in the list of its path, one for a path (`Hashed`). Then
`dfs_file_open` finds the vnode of a path if there is one (`Hashed.find`), and does one of five things (`open_cases`).
-/

namespace RtThread.DfsState

open Function (update update_idem update_of_ne update_self)

/-- The vnodes are in the hash table, where their paths are looked for, and no two have the same path. -/
structure Hashed (s : DfsState) : Prop where
  sound : Intrusive.Sound s.head
  linked : ∀ v b, v ∈ s.head b ↔ ∃ x, s.vnode v = some x ∧ b = bkdrHash x.fullpath
  unique : ∀ v w x y, s.vnode v = some x → s.vnode w = some y → x.fullpath = y.fullpath → v = w
  fresh : ∀ v, s.nextVnode ≤ v → s.vnode v = none
  positive : ∀ v x, s.vnode v = some x → 0 < x.refCount

/-- The vnode of an object. -/
def vnodeOf (s : DfsState) (f : Nat) : Option Nat := (s.file f).bind DfsFile.vnode

/-- The vnodes and the objects are the same. -/
structure SameVnodes (s s' : DfsState) : Prop where
  vnode : s'.vnode = s.vnode
  head : s'.head = s.head
  nextVnode : s.nextVnode ≤ s'.nextVnode
  table : s'.filesystemTable = s.filesystemTable

/-- The path is that of the vnode `v`, which has been found. -/
structure Found (c : DfsConfig) (s : DfsState) (path : CString) (o : Outside) (v : Nat) (x : DfsVnode) : Prop where
  normal : normalize c path = some (some x.fullpath)
  pathMalloc : o.pathMalloc = true
  vnode : s.vnode v = some x

/-- The vnode `x` is new, and of the filesystem in which the path is found. -/
structure Created (c : DfsConfig) (s : DfsState) (path : CString) (o : Outside) (x : DfsVnode) : Prop where
  normal : normalize c path = some (some x.fullpath)
  pathMalloc : o.pathMalloc = true
  other : ∀ w y, s.vnode w = some y → y.fullpath ≠ x.fullpath
  fs : dfsFilesystemLookup s.filesystemTable x.fullpath = some x.fs
  refCount : x.refCount = 1

variable {c : DfsConfig} {s s' : DfsState} {path fullpath : CString} {f v w : Nat} {o : Outside} {d : DfsFile} {x : DfsVnode}
  {vs : List Nat} {r : Except DfsErrno Nat}

theorem SameVnodes.hashed (h : SameVnodes s s') (hh : Hashed s) : Hashed s' where
  sound := by rw [h.head]; exact hh.sound
  linked v b := by rw [h.head, h.vnode]; exact hh.linked v b
  unique v w x y := by rw [h.vnode]; exact hh.unique v w x y
  fresh v hv := by rw [h.vnode]; exact hh.fresh v (Nat.le_trans h.nextVnode hv)
  positive v x := by rw [h.vnode]; exact hh.positive v x

/-! ## The hash table -/

theorem vnodeFindFrom_spec (hlive : ∀ v ∈ vs, s.vnode v ≠ none) :
    (s.vnodeFindFrom fullpath vs = some none ∧ ∀ v ∈ vs, ∀ x, s.vnode v = some x → x.fullpath ≠ fullpath) ∨
      ∃ v x, s.vnodeFindFrom fullpath vs = some (some v) ∧ s.vnode v = some x ∧ x.fullpath = fullpath := by
  induction vs with
  | nil => exact .inl ⟨rfl, fun _ hv => nomatch hv⟩
  | cons v vs ih =>
    obtain ⟨x, hx⟩ := Option.ne_none_iff_exists'.1 (hlive v List.mem_cons_self)
    by_cases hpath : fullpath = x.fullpath
    · exact .inr ⟨v, x, by simp only [vnodeFindFrom, hx, if_pos hpath], hx, hpath.symm⟩
    · have heq : s.vnodeFindFrom fullpath (v :: vs) = s.vnodeFindFrom fullpath vs := by
        simp only [vnodeFindFrom, hx, if_neg hpath]
      rw [heq]
      rcases ih fun w hw => hlive w (List.mem_cons_of_mem _ hw) with ⟨hnone, hother⟩ | hfound
      · refine .inl ⟨hnone, ?_⟩
        intro w hw y hy
        rcases List.mem_cons.1 hw with rfl | hw
        · cases hx.symm.trans hy
          exact Ne.symm hpath
        · exact hother w hw y hy
      · exact .inr hfound

/-- The vnode of the path is found. -/
theorem Hashed.find (hh : Hashed s) (fullpath : CString) :
    (s.dfsVnodeFind fullpath = some none ∧ ∀ v x, s.vnode v = some x → x.fullpath ≠ fullpath) ∨
      ∃ v x, s.dfsVnodeFind fullpath = some (some v) ∧ s.vnode v = some x ∧ x.fullpath = fullpath := by
  have hlive : ∀ v ∈ s.head (bkdrHash fullpath), s.vnode v ≠ none := by
    intro v hv
    obtain ⟨x, hx, -⟩ := (hh.linked v _).1 hv
    rw [hx]
    exact Option.some_ne_none x
  rcases (vnodeFindFrom_spec hlive : (s.vnodeFindFrom fullpath _ = _ ∧ _) ∨ _) with ⟨hnone, hother⟩ | hfound
  · refine .inl ⟨hnone, ?_⟩
    intro v x hx hpath
    exact hother v ((hh.linked v _).2 ⟨x, hx, by rw [hpath]⟩) x hx hpath
  · exact .inr hfound

theorem Hashed.ne_nextVnode (hh : Hashed s) (hx : s.vnode v = some x) : v ≠ s.nextVnode := by
  rintro rfl
  rw [hh.fresh _ (Nat.le_refl _)] at hx
  cases hx

/-! ## Opening -/

/-- The open routine is called for a vnode with more than one reference. -/
theorem fopsOpen_cases (hx : s.vnode v = some x) (hone : x.refCount - 1 ≠ 0) (h : s.fopsOpen f v o = some (s', r)) :
    (∃ e, r = .error e ∧ o.fopsOpen < 0 ∧ s' = s.setVnode v (some { x with refCount := x.refCount - 1 })) ∨
      r = .ok v ∧ 0 ≤ o.fopsOpen ∧ s' = s := by
  simp only [fopsOpen, hx] at h
  split at h
  · cases h
  · split at h
    · rename_i hneg
      cases h
      exact .inl ⟨_, rfl, hneg, rfl⟩
    · rename_i hneg
      cases h
      exact .inr ⟨rfl, Int.not_lt.1 hneg, rfl⟩

/-- The open routine is called for a vnode with one reference. -/
theorem fopsOpen_cases_one (hx : s.vnode v = some x) (hone : x.refCount = 1) (h : s.fopsOpen f v o = some (s', r)) :
    (∃ e, r = .error e ∧ o.fopsOpen < 0 ∧
      s' = (s.removeVnode v).setFile f ((s.file f).map fun d => { d with vnode := none })) ∨ r = .ok v ∧ s' = s := by
  simp only [fopsOpen, hx] at h
  split at h
  · cases h
  · split at h
    · rename_i hneg
      rw [if_pos (by omega)] at h
      cases h
      refine .inl ⟨_, rfl, hneg, ?_⟩
      simp only [removeVnode, setVnode, update_idem]
    · cases h
      exact .inr ⟨rfl, rfl⟩

/-- The state after a vnode has got a new reference from the object `f`. -/
def referred (s : DfsState) (f v : Nat) (d : DfsFile) (x : DfsVnode) : DfsState :=
  (s.setVnode v (some { x with refCount := x.refCount + 1 })).setFile f (some { d with vnode := some v })

/-- The state after the vnode `x` has been created for the object `f`. -/
def created (s : DfsState) (f : Nat) (d : DfsFile) (x : DfsVnode) : DfsState :=
  { (s.setVnode s.nextVnode (some x)).setFile f (some { d with vnode := some s.nextVnode }) with
    nextVnode := s.nextVnode + 1
    head := update s.head (bkdrHash x.fullpath) (s.nextVnode :: s.head (bkdrHash x.fullpath)) }

/-- A new vnode is removed again. -/
theorem removeVnode_created (hh : Hashed s) (hfile : s.file f = some d) (hd : d.vnode = none) :
    ((s.created f d x).removeVnode s.nextVnode).setFile f
      (((s.created f d x).file f).map fun d => { d with vnode := none }) = { s with nextVnode := s.nextVnode + 1 } := by
  have hnot : ∀ b, s.nextVnode ∉ s.head b := by
    intro b hb
    obtain ⟨y, hy, -⟩ := (hh.linked _ b).1 hb
    exact hh.ne_nextVnode hy rfl
  have hhead : Intrusive.remove s.nextVnode (s.created f d x).head = s.head := by
    funext b
    change (update s.head (bkdrHash x.fullpath) (s.nextVnode :: s.head (bkdrHash x.fullpath)) b).erase s.nextVnode = _
    by_cases hb : b = bkdrHash x.fullpath
    · subst hb
      rw [update_self, List.erase_cons_head]
    · rw [update_of_ne hb, List.erase_of_not_mem (hnot b)]
  have hvnode : update (s.created f d x).vnode s.nextVnode none = s.vnode := by
    change update (update s.vnode s.nextVnode _) s.nextVnode none = _
    rw [update_idem, ← hh.fresh _ (Nat.le_refl _), Function.update_eq_self]
  have hfile' : update (s.created f d x).file f
      (((s.created f d x).file f).map fun d => { d with vnode := none }) = s.file := by
    change update (update s.file f _) f ((update s.file f _ f).map _) = _
    rw [update_self, update_idem, Option.map_some, ← hd, ← hfile, Function.update_eq_self]
  rw [removeVnode, setFile, hhead, hvnode, hfile']
  rfl

/-- What `dfs_file_open` does for a new object: it is refused, and there is no vnode of its path; or the vnode refuses it and
has the references it had, but is in the object; or it is opened on the vnode of its path, or on a new one. -/
theorem open_cases (hh : Hashed s) (hfile : s.file f = some d) (hd : d.vnode = none)
    (h : s.dfsFileOpen c f path o = some (s', r)) :
    (∃ e, r = .error e ∧ (∀ v x, ¬ Found c s path o v x) ∧ SameVnodes s s' ∧ s' = { s with nextVnode := s'.nextVnode }) ∨
    (∃ e v x, r = .error e ∧ Found c s path o v x ∧ o.fopsOpen < 0 ∧ s' = s.setFile f (some { d with vnode := some v })) ∨
    (∃ v x, r = .ok v ∧ Found c s path o v x ∧ 0 ≤ o.fopsOpen ∧ s' = s.referred f v d x) ∨
    ∃ x, r = .ok s.nextVnode ∧ Created c s path o x ∧ s' = s.created f d x := by
  simp only [dfsFileOpen, hfile] at h
  cases hn : normalize c path with
  | none => rw [hn] at h; cases h
  | some normal =>
    rw [hn] at h
    dsimp only at h
    have hrefused {e : DfsErrno} (hnot : ∀ v x, ¬ Found c s path o v x) (h : some (s, Except.error e) = some (s', r)) :
        ∃ e, r = .error e ∧ (∀ v x, ¬ Found c s path o v x) ∧ SameVnodes s s' ∧
          s' = { s with nextVnode := s'.nextVnode } := by
      cases h
      exact ⟨_, rfl, hnot, ⟨rfl, rfl, Nat.le_refl _, rfl⟩, rfl⟩
    split at h
    · rename_i hfull
      refine .inl (hrefused ?_ h)
      rintro v x ⟨hnormal, hmalloc, -⟩
      rw [if_pos hmalloc] at hfull
      rw [hn, hfull] at hnormal
      cases hnormal
    · rename_i full hfull
      obtain ⟨hmalloc, rfl⟩ : o.pathMalloc = true ∧ normal = some full := by
        split at hfull
        · rename_i hm
          exact ⟨hm, hfull⟩
        · cases hfull
      rcases hh.find full with ⟨hnone, hother⟩ | ⟨v, x, hsome, hx, rfl⟩
      · have hnot : ∀ v x, ¬ Found c s path o v x := by
          rintro v x ⟨hnormal, -, hx⟩
          rw [hn] at hnormal
          exact hother v x hx (Option.some.inj (Option.some.inj hnormal)).symm
        rw [hnone] at h
        dsimp only at h
        cases hlookup : dfsFilesystemLookup s.filesystemTable full with
        | none =>
          rw [hlookup] at h
          exact .inl (hrefused hnot h)
        | some i =>
          rw [hlookup] at h
          dsimp only at h
          split at h
          · exact .inl (hrefused hnot h)
          · split at h
            · rename_i dev mount ops hentry
              split at h
              · exact .inl (hrefused hnot h)
              · have hcreated : Created c s path o (newVnode i mount full ops o) := ⟨hn, hmalloc, hother, hlookup, rfl⟩
                have hget : (s.created f d (newVnode i mount full ops o)).vnode s.nextVnode =
                    some (newVnode i mount full ops o) := update_self ..
                rcases fopsOpen_cases_one hget rfl h with ⟨e, rfl, -, rfl⟩ | ⟨rfl, rfl⟩
                · rw [removeVnode_created hh hfile hd]
                  exact .inl ⟨e, rfl, hnot, ⟨rfl, rfl, Nat.le_succ _, rfl⟩, rfl⟩
                · exact .inr (.inr (.inr ⟨_, rfl, hcreated, rfl⟩))
            · cases h
      · rw [hsome] at h
        dsimp only at h
        have hfound : Found c s path o v x := ⟨hn, hmalloc, hx⟩
        have hpos := hh.positive v x hx
        rw [hx] at h
        have hget : (s.referred f v d x).vnode v = some { x with refCount := x.refCount + 1 } := update_self ..
        rcases fopsOpen_cases hget (by dsimp only; omega) h with ⟨e, rfl, hneg, rfl⟩ | ⟨rfl, hok, rfl⟩
        · refine .inr (.inl ⟨e, v, x, rfl, hfound, hneg, ?_⟩)
          have hback : update (update s.vnode v (some { x with refCount := x.refCount + 1 })) v
              (some { x with refCount := x.refCount + 1 - 1 }) = s.vnode := by
            rw [update_idem, show x.refCount + 1 - 1 = x.refCount by omega, ← hx, Function.update_eq_self]
          simp only [referred, setVnode, setFile, hback]
        · exact .inr (.inr (.inl ⟨v, x, rfl, hfound, hok, rfl⟩))

/-! ## The vnodes afterwards -/

theorem vnodeOf_setFile {d : Option DfsFile} : (s.setFile f d).vnodeOf = update s.vnodeOf f (d.bind DfsFile.vnode) := by
  funext g
  by_cases hg : g = f
  · subst hg
    simp [vnodeOf, setFile]
  · simp [vnodeOf, setFile, hg]

theorem Hashed.congr (hh : Hashed s) (hhead : s'.head = s.head) (hnext : s.nextVnode ≤ s'.nextVnode)
    (hvnode : ∀ v, (s'.vnode v).map DfsVnode.fullpath = (s.vnode v).map DfsVnode.fullpath)
    (hpos : ∀ v x, s'.vnode v = some x → 0 < x.refCount) : Hashed s' := by
  have hback {v : Nat} {x : DfsVnode} (hx : s'.vnode v = some x) : ∃ y, s.vnode v = some y ∧ y.fullpath = x.fullpath := by
    have := hvnode v
    rw [hx] at this
    obtain ⟨y, hy, heq⟩ := Option.map_eq_some_iff.1 this.symm
    exact ⟨y, hy, heq⟩
  constructor
  · rw [hhead]
    exact hh.sound
  · intro v b
    rw [hhead, hh.linked]
    constructor
    · rintro ⟨x, hx, rfl⟩
      have := hvnode v
      rw [hx] at this
      obtain ⟨y, hy, heq⟩ := Option.map_eq_some_iff.1 this
      exact ⟨y, hy, by rw [heq]⟩
    · rintro ⟨x, hx, rfl⟩
      obtain ⟨y, hy, heq⟩ := hback hx
      exact ⟨y, hy, by rw [heq]⟩
  · intro v w x y hx hy hpath
    obtain ⟨x', hx', hxpath⟩ := hback hx
    obtain ⟨y', hy', hypath⟩ := hback hy
    exact hh.unique v w x' y' hx' hy' (by rw [hxpath, hypath, hpath])
  · intro v hv
    have := hvnode v
    rw [hh.fresh v (Nat.le_trans hnext hv)] at this
    exact Option.map_eq_none_iff.1 this
  · exact hpos

/-- The count of a vnode changes. -/
theorem Hashed.recount (hh : Hashed s) (hx : s.vnode v = some x) {n : Int} (hn : 0 < n) :
    Hashed (s.setVnode v (some { x with refCount := n })) := by
  refine hh.congr rfl (Nat.le_refl _) ?_ ?_
  · intro w
    change (update s.vnode v _ w).map _ = _
    by_cases hw : w = v
    · subst hw
      rw [update_self, hx]
      rfl
    · rw [update_of_ne hw]
  · intro w y hy
    change update s.vnode v _ w = _ at hy
    by_cases hw : w = v
    · subst hw
      rw [update_self] at hy
      rw [← Option.some.inj hy]
      exact hn
    · rw [update_of_ne hw] at hy
      exact hh.positive w y hy

theorem Hashed.setFile {d : Option DfsFile} (hh : Hashed s) : Hashed (s.setFile f d) := by
  have h : SameVnodes s (s.setFile f d) := ⟨rfl, rfl, Nat.le_refl _, rfl⟩
  exact h.hashed hh

theorem Hashed.referred (hh : Hashed s) (hx : s.vnode v = some x) : Hashed (s.referred f v d x) := by
  have := hh.positive v x hx
  exact (hh.recount hx (by omega)).setFile

theorem Hashed.created (hh : Hashed s) (hpos : 0 < x.refCount)
    (hother : ∀ w y, s.vnode w = some y → y.fullpath ≠ x.fullpath) : Hashed (s.created f d x) := by
  have hnot : ∀ b, s.nextVnode ∉ s.head b := by
    intro b hb
    obtain ⟨y, hy, -⟩ := (hh.linked _ b).1 hb
    exact hh.ne_nextVnode hy rfl
  have hget {w : Nat} {y : DfsVnode} : (s.created f d x).vnode w = some y ↔
      w = s.nextVnode ∧ y = x ∨ w ≠ s.nextVnode ∧ s.vnode w = some y := by
    change update s.vnode s.nextVnode (some x) w = some y ↔ _
    by_cases hw : w = s.nextVnode
    · subst hw
      simp [eq_comm]
    · simp [hw]
  constructor
  · exact hh.sound.link hnot (List.Perm.refl _)
  · intro w b
    change w ∈ update s.head _ _ b ↔ _
    rw [Intrusive.mem_link (List.Perm.refl _), hh.linked]
    constructor
    · rintro (⟨y, hy, rfl⟩ | ⟨rfl, rfl⟩)
      · exact ⟨y, hget.2 (.inr ⟨hh.ne_nextVnode hy, hy⟩), rfl⟩
      · exact ⟨x, hget.2 (.inl ⟨rfl, rfl⟩), rfl⟩
    · rintro ⟨y, hy, rfl⟩
      rcases hget.1 hy with ⟨rfl, rfl⟩ | ⟨-, hy⟩
      · exact .inr ⟨rfl, rfl⟩
      · exact .inl ⟨y, hy, rfl⟩
  · intro v w y z hy hz hpath
    rcases hget.1 hy with ⟨rfl, rfl⟩ | ⟨-, hy'⟩ <;> rcases hget.1 hz with ⟨rfl, rfl⟩ | ⟨-, hz'⟩
    · rfl
    · exact absurd hpath.symm (hother w z hz')
    · exact absurd hpath (hother v y hy')
    · exact hh.unique v w y z hy' hz' hpath
  · intro v hv
    change s.nextVnode + 1 ≤ v at hv
    change update s.vnode s.nextVnode (some x) v = none
    rw [update_of_ne (by omega)]
    exact hh.fresh v (by omega)
  · intro v y hy
    rcases hget.1 hy with ⟨-, rfl⟩ | ⟨-, hy⟩
    · exact hpos
    · exact hh.positive v y hy

theorem Hashed.removeVnode (hh : Hashed s) : Hashed (s.removeVnode v) := by
  have hget {w : Nat} {y : DfsVnode} : (s.removeVnode v).vnode w = some y ↔ w ≠ v ∧ s.vnode w = some y := by
    change update s.vnode v none w = some y ↔ _
    by_cases hw : w = v
    · subst hw
      simp
    · simp [hw]
  constructor
  · exact hh.sound.remove
  · intro w b
    change w ∈ Intrusive.remove v s.head b ↔ _
    rw [hh.sound.mem_remove, hh.linked]
    constructor
    · rintro ⟨hw, y, hy, rfl⟩
      exact ⟨y, hget.2 ⟨hw, hy⟩, rfl⟩
    · rintro ⟨y, hy, rfl⟩
      exact ⟨(hget.1 hy).1, y, (hget.1 hy).2, rfl⟩
  · intro a b y z hy hz
    exact hh.unique a b y z (hget.1 hy).2 (hget.1 hz).2
  · intro w hw
    change update s.vnode v none w = none
    by_cases hwv : w = v
    · rw [hwv, update_self]
    · rw [update_of_ne hwv]
      exact hh.fresh w hw
  · intro w y hy
    exact hh.positive w y (hget.1 hy).2

/-! ## Closing -/

/-- What `dfs_file_close` does for an object with one reference. -/
theorem close_cases {acts : List FileAct} {r : Except DfsErrno Unit} (hh : Hashed s) (hfile : s.file f = some d)
    (hone : d.refCount = 1) (hd : d.vnode = some v) (hx : s.vnode v = some x)
    (h : s.dfsFileClose f o = some (s', r, acts)) :
    acts = [.close f (x.closeResult o)] ∧
      ((∃ e, r = .error e) ∧ x.closeResult o < 0 ∧ s' = s ∨
      r = .ok () ∧ 0 ≤ x.closeResult o ∧ (x.refCount = 1 ∧ s' = (s.removeVnode v).setFile f (some { d with vnode := none }) ∨
        x.refCount ≠ 1 ∧ s' = s)) := by
  have hpos := hh.positive v x hx
  simp only [dfsFileClose, hfile, if_pos hone, hd, hx, if_neg (Int.not_le.2 hpos)] at h
  split at h
  · rename_i hneg
    obtain ⟨rfl, h'⟩ := Prod.mk.inj (Option.some.inj h)
    cases h'
    exact ⟨rfl, .inl ⟨⟨_, rfl⟩, hneg, rfl⟩⟩
  · rename_i hneg
    split at h
    · rename_i hlast
      obtain ⟨rfl, h'⟩ := Prod.mk.inj (Option.some.inj h)
      cases h'
      exact ⟨rfl, .inr ⟨rfl, Int.not_lt.1 hneg, .inl ⟨hlast, rfl⟩⟩⟩
    · rename_i hmore
      obtain ⟨rfl, h'⟩ := Prod.mk.inj (Option.some.inj h)
      cases h'
      exact ⟨rfl, .inr ⟨rfl, Int.not_lt.1 hneg, .inr ⟨hmore, rfl⟩⟩⟩

theorem close_shared {acts : List FileAct} {r : Except DfsErrno Unit} (hfile : s.file f = some d) (hone : d.refCount ≠ 1)
    (h : s.dfsFileClose f o = some (s', r, acts)) : s' = s ∧ r = .ok () ∧ acts = [] := by
  simp only [dfsFileClose, hfile, if_neg hone] at h
  obtain ⟨rfl, h'⟩ := Prod.mk.inj (Option.some.inj h)
  cases h'
  exact ⟨rfl, rfl, rfl⟩

end RtThread.DfsState
