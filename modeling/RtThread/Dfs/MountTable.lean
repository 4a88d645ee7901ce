import RtThread.Dfs.FdTable
import RtThread.Dfs.MountResolution
import RtThread.Dfs.Normalize
import RtThread.Dfs.Vnode
import Mathlib.Data.List.TakeWhile

/-!
# The mount table and the open files

A vnode is in the filesystem that its path is found in when it is made (`Placed.opened`), and stays there until it is
closed. `dfs_mount` compares the path it is given, not the path it registers, and `dfs_unmount` does not look at the
vnodes: the entries are distinct and the vnodes in them in every run whose calls keep to that (`mount_table`).
-/

namespace RtThread.DfsState

open Function (update update_idem update_of_ne update_self)

open Paths Runs

/-- No two entries are mounted on the same path, every vnode is in an entry that is mounted on a path that the vnode is
within, and the objects that are open have vnodes. -/
structure MountTable (s : DfsState) : Prop where
  unique : ∀ i j m, Active s.filesystemTable i m → Active s.filesystemTable j m → i = j
  placed : ∀ v x, s.vnode v = some x → ∃ m, Active s.filesystemTable x.fs m ∧ Within m x.fullpath
  opened : ∀ f ∈ s.owned, ∃ v x, s.vnodeOf f = some v ∧ s.vnode v = some x

/-- `dfs_mount`, `dfs_unmount`, `dfs_file_open` and `dfs_file_close` -/
def IsMountCall : DfsEv → Prop
  | .mount .. => True
  | .unmount .. => True
  | .ownedOpen .. => True
  | .ownedClose .. => True
  | _ => False

/-- What is mounted on is given as it is registered, unless that is free, and its length fits; what is unmounted has no
vnodes, unless the filesystem refuses. -/
def Careful (c : DfsConfig) (s : DfsState) : DfsEv → Prop
  | .mount path _ _ => ∀ p, normalize c path = some (some p) →
      p.strlen < 2 ^ 32 ∧ (path = p ∨ ∀ i, ¬ Active s.filesystemTable i p)
  | .unmount specialfile _ fopsUnmount => 0 ≤ fopsUnmount → ∀ p i, normalize c specialfile = some (some p) →
      Active s.filesystemTable i p → ∀ v x, s.vnode v = some x → x.fs ≠ i
  | _ => True

def MountStep (c : DfsConfig) (s : DfsState) (y : DfsEv × DfsRet) (s' : DfsState) : Prop := Step c s y s' ∧ IsMountCall y.1

def CarefulStep (c : DfsConfig) (s : DfsState) (y : DfsEv × DfsRet) (s' : DfsState) : Prop :=
  MountStep c s y s' ∧ Careful c s y.1

/-- How many of the objects are open on the vnode. -/
def opensOn (s : DfsState) (os : List Nat) (v : Nat) : Nat := os.countP fun f => s.vnodeOf f = some v

/-- The objects `os` are open, each on a vnode that counts it. -/
structure Objects (os : List Nat) (s : DfsState) : Prop where
  hashed : Hashed s
  nodup : os.Nodup
  fresh : ∀ f, s.nextFile ≤ f → s.file f = none
  bound : ∀ f ∈ os, ∃ v, s.file f = some ⟨1, some v⟩ ∧ s.vnode v ≠ none
  count : ∀ v x, s.vnode v = some x → (opensOn s os v : Int) ≤ x.refCount

/-- The entries have distinct normal paths whose lengths fit, and the vnodes are within them. -/
structure Placed (s : DfsState) : Prop where
  unique : ∀ i j m, Active s.filesystemTable i m → Active s.filesystemTable j m → i = j
  normal : ∀ i m, Active s.filesystemTable i m → Normal '/' '.' m.chars ∧ m.strlen < 2 ^ 32
  placed : ∀ v x, s.vnode v = some x → ∃ m, Active s.filesystemTable x.fs m ∧ Within m x.fullpath

variable {c : DfsConfig} {s t : DfsState} {os : List Nat} {f g v w i j n : Nat} {path p m : CString} {o : Outside}
  {x : DfsVnode} {acts : List FileAct}

/-! ## Paths -/

theorem ofBuffer_eq {q : CString} : CString.ofBuffer q.chars = q := by
  apply CString.ext
  change q.chars.takeWhile (· ≠ nul) = q.chars
  rw [List.takeWhile_eq_self_iff]
  intro a ha
  apply decide_eq_true
  rintro rfl
  exact q.nul_not_mem ha

/-- The working directory is absolute, so the path that is left is normal. -/
theorem normal_of_normalize (h : normalize c path = some (some p)) : Normal '/' '.' p.chars := by
  have hroot : (joinPath c.workingDirectory path).head? = some '/' := by
    rw [joinPath]
    split
    · rw [List.head?_append, c.rooted]
      rfl
    · rename_i hne
      simpa using hne
  rw [normalize, dfsNormalizePath_eq (Nat.lt_succ_self _), decide_eq_true hroot, outcome_rooted] at h
  have hp : CString.ofBuffer (resolved c.workingDirectory path).chars = p := Option.some.inj (Option.some.inj h)
  rw [← hp, ofBuffer_eq]
  exact ⟨_, resolved_valid, rfl⟩

/-! ## Objects -/

theorem opensOn_congr (h : ∀ f ∈ os, t.file f = s.file f) : opensOn t os v = opensOn s os v := by
  refine List.countP_congr fun f hf => ?_
  rw [vnodeOf, vnodeOf, h f hf]

theorem Objects.lt (h : Objects os s) (hf : f ∈ os) : f < s.nextFile := by
  obtain ⟨v, hget, -⟩ := h.bound f hf
  by_contra hle
  rw [h.fresh f (Nat.le_of_not_lt hle)] at hget
  cases hget

theorem Objects.congr (h : Objects os s) (hh : Hashed t) (hvnode : t.vnode = s.vnode) (hfile : ∀ f ∈ os, t.file f = s.file f)
    (hfresh : ∀ f, t.nextFile ≤ f → t.file f = none) : Objects os t where
  hashed := hh
  nodup := h.nodup
  fresh := hfresh
  bound f hf := by
    rw [hfile f hf, hvnode]
    exact h.bound f hf
  count v x hx := by
    rw [opensOn_congr hfile]
    rw [hvnode] at hx
    exact h.count v x hx

/-- A new object is opened on the vnode `v`, which counts it. -/
theorem Objects.insert (h : Objects os s) (hh : Hashed t) (hnext : t.nextFile = s.nextFile + 1)
    (hfile : t.file = update s.file s.nextFile (some ⟨1, some v⟩)) (hx : t.vnode v = some x)
    (hcount : (opensOn s os v : Int) + 1 ≤ x.refCount) (hother : ∀ w, w ≠ v → t.vnode w = s.vnode w) :
    Objects (s.nextFile :: os) t := by
  have hsame : ∀ g, g ≠ s.nextFile → t.file g = s.file g := by
    intro g hg
    rw [hfile, update_of_ne hg]
  have hnew : t.file s.nextFile = some ⟨1, some v⟩ := by rw [hfile, update_self]
  have hold : ∀ g ∈ os, t.file g = s.file g := fun g hg => hsame g (Nat.ne_of_lt (h.lt hg))
  constructor
  · exact hh
  · exact List.nodup_cons.2 ⟨fun hmem => Nat.lt_irrefl _ (h.lt hmem), h.nodup⟩
  · intro g hg
    rw [hsame g (by omega)]
    exact h.fresh g (by omega)
  · intro g hg
    rcases List.mem_cons.1 hg with rfl | hg
    · exact ⟨v, hnew, by rw [hx]; exact Option.some_ne_none x⟩
    · obtain ⟨w, hget, hlive⟩ := h.bound g hg
      refine ⟨w, by rw [hold g hg, hget], ?_⟩
      by_cases hw : w = v
      · rw [hw, hx]
        exact Option.some_ne_none x
      · rwa [hother w hw]
  · intro w y hy
    have hcons : opensOn t (s.nextFile :: os) w = opensOn s os w + if v = w then 1 else 0 := by
      rw [opensOn, List.countP_cons, ← opensOn, opensOn_congr hold, vnodeOf, hnew]
      simp
    by_cases hw : w = v
    · subst hw
      cases hx.symm.trans hy
      rw [hcons, if_pos rfl]
      exact hcount
    · rw [hother w hw] at hy
      rw [hcons, if_neg (Ne.symm hw)]
      exact h.count w y hy

/-- The new object of an open that succeeds. -/
theorem Objects.opened (h : Objects os s) (hopen : s.newFile.dfsFileOpen c s.nextFile path o = some (t, .ok v)) :
    Objects (s.nextFile :: os) t := by
  have hh : Hashed s.newFile := (⟨rfl, rfl, Nat.le_refl _, rfl⟩ : SameVnodes s s.newFile).hashed h.hashed
  have hget : s.newFile.file s.nextFile = some ⟨1, none⟩ := update_self ..
  rcases open_cases hh hget rfl hopen with ⟨e, hr, -⟩ | ⟨e, v', x, hr, -⟩ | ⟨v', x, hr, hfound, -, rfl⟩ |
    ⟨x, hr, hcreated, rfl⟩
  · cases hr
  · cases hr
  · obtain rfl := Except.ok.inj hr
    refine h.insert (v := v) (x := { x with refCount := x.refCount + 1 }) (hh.referred hfound.vnode) rfl ?_ ?_ ?_ ?_
    · exact update_idem ..
    · exact update_self ..
    · have := h.count v x hfound.vnode
      dsimp only
      omega
    · intro w hw
      exact update_of_ne hw ..
  · have hnone : s.vnode s.nextVnode = none := h.hashed.fresh _ (Nat.le_refl _)
    have hzero : opensOn s os s.nextVnode = 0 := by
      refine List.countP_eq_zero.2 fun g hg hvof => ?_
      obtain ⟨w, hget, hlive⟩ := h.bound g hg
      obtain rfl : w = s.nextVnode := by
        rw [vnodeOf, hget] at hvof
        exact Option.some.inj (of_decide_eq_true hvof)
      exact hlive hnone
    refine h.insert (v := s.nextVnode) (x := x) (hh.created (by rw [hcreated.refCount]; exact Int.one_pos) hcreated.other) rfl ?_ ?_ ?_ ?_
    · exact update_idem ..
    · exact update_self ..
    · rw [hzero, hcreated.refCount]
      exact Int.le_refl 1
    · intro w hw
      exact update_of_ne hw ..

/-- The new object of an open that is refused is not used any more. -/
theorem Objects.refused {e : DfsErrno} (h : Objects os s)
    (hopen : s.newFile.dfsFileOpen c s.nextFile path o = some (t, .error e)) : Objects os (t.setFile s.nextFile none) := by
  have hh : Hashed s.newFile := (⟨rfl, rfl, Nat.le_refl _, rfl⟩ : SameVnodes s s.newFile).hashed h.hashed
  have hget : s.newFile.file s.nextFile = some ⟨1, none⟩ := update_self ..
  obtain ⟨hsame, hfile⟩ : SameVnodes s.newFile t ∧ ∀ g, g ≠ s.nextFile → t.file g = s.file g := by
    rcases open_cases hh hget rfl hopen with ⟨-, -, -, hsame, heq⟩ | ⟨-, v, x, -, -, -, rfl⟩ | ⟨v, x, hr, -⟩ | ⟨x, hr, -⟩
    · refine ⟨hsame, fun g hg => ?_⟩
      rw [heq]
      exact update_of_ne hg ..
    · refine ⟨⟨rfl, rfl, Nat.le_refl _, rfl⟩, fun g hg => ?_⟩
      change update (update s.file _ _) _ _ g = _
      rw [update_of_ne hg, update_of_ne hg]
    · cases hr
    · cases hr
  have hnext := (dfsFileOpen_same hopen).nextFile
  refine h.congr (hsame.hashed hh).setFile hsame.vnode ?_ ?_
  · intro g hg
    have hne : g ≠ s.nextFile := Nat.ne_of_lt (h.lt hg)
    change update t.file s.nextFile none g = _
    rw [update_of_ne hne, hfile g hne]
  · intro g hg
    change t.nextFile ≤ g at hg
    rw [hnext] at hg
    change s.nextFile + 1 ≤ g at hg
    have hne : g ≠ s.nextFile := by omega
    change update t.file s.nextFile none g = none
    rw [update_of_ne hne, hfile g hne]
    exact h.fresh g (by omega)

variable {os' : List Nat} {fs : DfsFilesystem} {table : List DfsFilesystem} {r : DfsRet}

theorem Objects.perm (h : Objects os s) (hp : os.Perm os') : Objects os' s where
  hashed := h.hashed
  nodup := hp.nodup_iff.1 h.nodup
  fresh := h.fresh
  bound f hf := h.bound f (hp.mem_iff.2 hf)
  count v x hx := by
    rw [opensOn, ← hp.countP_eq]
    exact h.count v x hx

/-- The object `f` is not used any more. -/
theorem Objects.drop (h : Objects (f :: os) s) : Objects os s where
  hashed := h.hashed
  nodup := (List.nodup_cons.1 h.nodup).2
  fresh := h.fresh
  bound g hg := h.bound g (List.mem_cons_of_mem f hg)
  count v x hx := by
    have := h.count v x hx
    rw [opensOn, List.countP_cons, ← opensOn] at this
    omega

/-- An object is closed, or it is tried: what else is open stays open. -/
theorem Objects.closed {r : Except DfsErrno Unit} (h : Objects (f :: os) s)
    (hclose : s.dfsFileClose f o = some (t, r, acts)) : Objects os t := by
  obtain ⟨v, hfile, hlive⟩ := h.bound f List.mem_cons_self
  obtain ⟨x, hx⟩ := Option.ne_none_iff_exists'.1 hlive
  obtain ⟨-, ⟨-, -, rfl⟩ | ⟨-, -, ⟨hlast, rfl⟩ | ⟨-, rfl⟩⟩⟩ := close_cases h.hashed hfile rfl rfl hx hclose
  · exact h.drop
  · have hf : f ∉ os := (List.nodup_cons.1 h.nodup).1
    -- the vnode has one reference, which is that of the object
    have hzero : opensOn s os v = 0 := by
      have hle := h.count v x hx
      have hvof : s.vnodeOf f = some v := by rw [vnodeOf, hfile]; rfl
      rw [opensOn, List.countP_cons, ← opensOn, hlast, if_pos (decide_eq_true hvof)] at hle
      omega
    have hsame : ∀ g ∈ os, ((s.removeVnode v).setFile f (some ⟨1, none⟩)).file g = s.file g := by
      intro g hg
      have hne : g ≠ f := fun he => hf (he ▸ hg)
      exact update_of_ne hne ..
    have hd := h.drop
    constructor
    · exact h.hashed.removeVnode.setFile
    · exact hd.nodup
    · intro g hg
      have hne : g ≠ f := by
        rintro rfl
        exact Nat.lt_irrefl _ (Nat.lt_of_lt_of_le (h.lt List.mem_cons_self) hg)
      change update s.file f _ g = none
      rw [update_of_ne hne]
      exact h.fresh g hg
    · intro g hg
      obtain ⟨w, hget, hw⟩ := hd.bound g hg
      refine ⟨w, by rw [hsame g hg, hget], ?_⟩
      have hne : w ≠ v := by
        rintro rfl
        refine List.countP_eq_zero.1 hzero g hg (decide_eq_true ?_)
        rw [vnodeOf, hget]
        rfl
      change update s.vnode v none w ≠ none
      rwa [update_of_ne hne]
    · intro w y hy
      rw [opensOn_congr hsame]
      change update s.vnode v none w = some y at hy
      have hne : w ≠ v := by
        rintro rfl
        rw [update_self] at hy
        cases hy
      rw [update_of_ne hne] at hy
      exact hd.count w y hy
  · exact h.drop

/-! ## The table -/

/-- The vnodes are as before, or new ones that are placed. -/
theorem Placed.congr (h : Placed s) (htable : t.filesystemTable = s.filesystemTable)
    (hvnode : ∀ v y, t.vnode v = some y → (∃ x, s.vnode v = some x ∧ x.fs = y.fs ∧ x.fullpath = y.fullpath) ∨
      ∃ m, Active s.filesystemTable y.fs m ∧ Within m y.fullpath) : Placed t where
  unique := by
    rw [htable]
    exact h.unique
  normal := by
    rw [htable]
    exact h.normal
  placed v y hy := by
    rw [htable]
    rcases hvnode v y hy with ⟨x, hx, hfs, hpath⟩ | hnew
    · rw [← hfs, ← hpath]
      exact h.placed v x hx
    · exact hnew

/-- The filesystem that a path is found in is mounted on a path that it is within. -/
theorem Placed.lookup (h : Placed s) (hp : Normal '/' '.' p.chars) (hl : dfsFilesystemLookup s.filesystemTable p = some i) :
    ∃ m, Active s.filesystemTable i m ∧ Within m p := by
  rcases lookup_spec s.filesystemTable p with ⟨hnone, -⟩ | ⟨j, m, hsome, hact, hmatch, -⟩
  · rw [hnone] at hl
    cases hl
  · obtain rfl : j = i := Option.some.inj (hsome.symm.trans hl)
    obtain ⟨hm, hlt⟩ := h.normal j m hact
    exact ⟨m, hact, (matchesPath_within hm hp hlt).1 hmatch⟩

theorem Placed.opened {r : Except DfsErrno Nat} (h : Placed s) (hh : Hashed s)
    (hopen : s.newFile.dfsFileOpen c s.nextFile path o = some (t, r)) : Placed t := by
  have hh' : Hashed s.newFile := (⟨rfl, rfl, Nat.le_refl _, rfl⟩ : SameVnodes s s.newFile).hashed hh
  have hget : s.newFile.file s.nextFile = some ⟨1, none⟩ := update_self ..
  rcases open_cases hh' hget rfl hopen with ⟨-, -, -, hsame, -⟩ | ⟨-, v, x, -, -, -, rfl⟩ | ⟨v, x, -, hfound, -, rfl⟩ |
    ⟨x, -, hcreated, rfl⟩
  · refine h.congr hsame.table fun v y hy => .inl ?_
    rw [hsame.vnode] at hy
    exact ⟨y, hy, rfl, rfl⟩
  · exact h.congr rfl fun v y hy => .inl ⟨y, hy, rfl, rfl⟩
  · refine h.congr rfl fun w y hy => .inl ?_
    change update s.vnode v _ w = some y at hy
    by_cases hw : w = v
    · subst hw
      rw [update_self] at hy
      cases hy
      exact ⟨x, hfound.vnode, rfl, rfl⟩
    · rw [update_of_ne hw] at hy
      exact ⟨y, hy, rfl, rfl⟩
  · refine h.congr rfl fun w y hy => ?_
    change update s.vnode s.nextVnode _ w = some y at hy
    by_cases hw : w = s.nextVnode
    · subst hw
      rw [update_self] at hy
      cases hy
      exact .inr (h.lookup (normal_of_normalize hcreated.normal) hcreated.fs)
    · rw [update_of_ne hw] at hy
      exact .inl ⟨y, hy, rfl, rfl⟩

theorem Placed.closed {r : Except DfsErrno Unit} (h : Placed s) (ho : Objects (f :: os) s)
    (hclose : s.dfsFileClose f o = some (t, r, acts)) : Placed t := by
  obtain ⟨v, hfile, hlive⟩ := ho.bound f List.mem_cons_self
  obtain ⟨x, hx⟩ := Option.ne_none_iff_exists'.1 hlive
  obtain ⟨-, ⟨-, -, rfl⟩ | ⟨-, -, ⟨-, rfl⟩ | ⟨-, rfl⟩⟩⟩ := close_cases ho.hashed hfile rfl rfl hx hclose
  · exact h
  · refine h.congr rfl fun w y hy => .inl ⟨y, ?_, rfl, rfl⟩
    change update s.vnode v none w = some y at hy
    by_cases hw : w = v
    · subst hw
      rw [update_self] at hy
      cases hy
    · rwa [update_of_ne hw] at hy
  · exact h

theorem active_setEntry : Active (s.setEntry i fs).filesystemTable j m ↔
    j = i ∧ i < s.filesystemTable.length ∧ fs.path = some m ∧ fs.ops.isSome ∨ j ≠ i ∧ Active s.filesystemTable j m := by
  change (∃ iter, (s.filesystemTable.set i fs)[j]? = some iter ∧ _) ↔ _
  by_cases hj : j = i
  · subst hj
    by_cases hlt : j < s.filesystemTable.length
    · simp [hlt]
    · simp [hlt]
  · rw [List.getElem?_set_ne (Ne.symm hj)]
    simp [hj, Active]

theorem active_clear : Active (s.setEntry i .clear).filesystemTable j m ↔ j ≠ i ∧ Active s.filesystemTable j m := by
  rw [active_setEntry]
  simp [DfsFilesystem.clear]

/-- An entry without vnodes is cleared. -/
theorem Placed.clear (h : Placed s) (hfree : ∀ v x, s.vnode v = some x → x.fs ≠ i) : Placed (s.setEntry i .clear) where
  unique j k m hj hk := h.unique j k m (active_clear.1 hj).2 (active_clear.1 hk).2
  normal j m hj := h.normal j m (active_clear.1 hj).2
  placed v x hx := by
    obtain ⟨m, hact, hw⟩ := h.placed v x hx
    exact ⟨m, active_clear.2 ⟨hfree v x hx, hact⟩, hw⟩

/-- An entry that is not used has no vnodes. -/
theorem Placed.unused (h : Placed s) (hi : ∀ m, ¬ Active s.filesystemTable i m) {v : Nat} {x : DfsVnode}
    (hx : s.vnode v = some x) : x.fs ≠ i := by
  rintro rfl
  obtain ⟨m, hact, -⟩ := h.placed v x hx
  exact hi m hact

/-- A path that is not mounted gets an entry that is not used. -/
theorem Placed.mount (h : Placed s) (hi : ∀ m, ¬ Active s.filesystemTable i m)
    (hpath : fs.path = some p) (hp : Normal '/' '.' p.chars) (hlt : p.strlen < 2 ^ 32)
    (hnot : ∀ j, ¬ Active s.filesystemTable j p) : Placed (s.setEntry i fs) where
  unique j k m hj hk := by
    rcases active_setEntry.1 hj with ⟨rfl, -, hm, -⟩ | ⟨-, hj'⟩ <;> rcases active_setEntry.1 hk with ⟨rfl, -, hm', -⟩ | ⟨-, hk'⟩
    · rfl
    · obtain rfl : p = m := Option.some.inj (hpath.symm.trans hm)
      exact absurd hk' (hnot k)
    · obtain rfl : p = m := Option.some.inj (hpath.symm.trans hm')
      exact absurd hj' (hnot j)
    · exact h.unique j k m hj' hk'
  normal j m hj := by
    rcases active_setEntry.1 hj with ⟨rfl, -, hm, -⟩ | ⟨-, hj⟩
    · obtain rfl : p = m := Option.some.inj (hpath.symm.trans hm)
      exact ⟨hp, hlt⟩
    · exact h.normal j m hj
  placed v x hx := by
    obtain ⟨m, hact, hw⟩ := h.placed v x hx
    exact ⟨m, active_setEntry.2 (.inr ⟨h.unused hi hx, hact⟩), hw⟩

/-- The loop of `dfs_mount` has compared the path with those that are mounted, and gives an entry that is not used. -/
theorem findEntry_spec {k : Nat} {fs : Option Nat} {r : Option Nat} (h : findEntry path table k fs = some (.ok r)) :
    (∀ j m, Active table j m → m ≠ path) ∧ ∀ i, r = some i → fs = some i ∨ k ≤ i ∧ ∀ m, ¬ Active table (i - k) m := by
  induction table generalizing k fs with
  | nil =>
    obtain rfl := Except.ok.inj (Option.some.inj h)
    refine ⟨?_, fun i hi => .inl hi⟩
    rintro j m ⟨iter, hget, -⟩
    cases hget
  | cons iter rest ih =>
    -- what the rest gives, for an entry after the first
    have hafter {i : Nat} (h : k + 1 ≤ i ∧ ∀ m, ¬ Active rest (i - (k + 1)) m) :
        k ≤ i ∧ ∀ m, ¬ Active (iter :: rest) (i - k) m := by
      refine ⟨by omega, ?_⟩
      rw [show i - k = i - (k + 1) + 1 by omega]
      exact h.2
    rw [findEntry] at h
    split at h
    · rename_i hops
      obtain ⟨hother, hentry⟩ := ih h
      have hfirst : ∀ m, ¬ Active (iter :: rest) 0 m := by
        rintro m ⟨iter', hget, -, hsome⟩
        cases hget
        rw [hops] at hsome
        cases hsome
      constructor
      · intro j m hact
        cases j with
        | zero => exact absurd hact (hfirst m)
        | succ j => exact hother j m hact
      · intro i hi
        rcases hentry i hi with hfs | hi
        · cases fs with
          | none =>
            obtain rfl : k = i := Option.some.inj hfs
            exact .inr ⟨Nat.le_refl k, by rwa [Nat.sub_self]⟩
          | some e => exact .inl hfs
        · exact .inr (hafter hi)
    · rename_i mount hops hp
      split at h
      · cases h
      · rename_i hne
        obtain ⟨hother, hentry⟩ := ih h
        constructor
        · intro j m hact
          cases j with
          | zero =>
            obtain ⟨iter', hget, hpath, -⟩ := hact
            cases hget
            rw [hp] at hpath
            cases hpath
            exact hne
          | succ j => exact hother j m hact
        · intro i hi
          rcases hentry i hi with hfs | hi
          · exact .inl hfs
          · exact .inr (hafter hi)
    · cases h

/-! ## The calls -/

/-- What the calls keep. -/
structure Kept (s : DfsState) : Prop where
  objects : Objects s.owned s
  placed : Placed s

theorem Kept.mountTable (h : Kept s) : MountTable s where
  unique := h.placed.unique
  placed := h.placed.placed
  opened f hf := by
    obtain ⟨v, hget, hlive⟩ := h.objects.bound f hf
    obtain ⟨x, hx⟩ := Option.ne_none_iff_exists'.1 hlive
    exact ⟨v, x, by rw [vnodeOf, hget]; rfl, hx⟩

/-- The table and the list of the objects that are open do not matter to the objects. -/
theorem Objects.same (h : Objects os s) : Objects os { s with filesystemTable := table, owned := os' } where
  hashed := ⟨h.hashed.sound, h.hashed.linked, h.hashed.unique, h.hashed.fresh, h.hashed.positive⟩
  nodup := h.nodup
  fresh := h.fresh
  bound := h.bound
  count := h.count

/-- An object that is not open is not used any more. -/
theorem Objects.discard (h : Objects os s) (hf : f ∉ os) : Objects os (s.setFile f none) := by
  refine h.congr h.hashed.setFile rfl ?_ ?_
  · intro g hg
    have hne : g ≠ f := fun he => hf (he ▸ hg)
    exact update_of_ne hne ..
  · intro g hg
    change update s.file f none g = none
    by_cases hgf : g = f
    · rw [hgf, update_self]
    · rw [update_of_ne hgf]
      exact h.fresh g hg

theorem Placed.same (h : Placed s) (htable : t.filesystemTable = s.filesystemTable) (hvnode : t.vnode = s.vnode) : Placed t := by
  refine h.congr htable fun v y hy => .inl ⟨y, ?_, rfl, rfl⟩
  rwa [hvnode] at hy

theorem open_table {r : Except DfsErrno Nat} (hh : Hashed s)
    (hopen : s.newFile.dfsFileOpen c s.nextFile path o = some (t, r)) : t.filesystemTable = s.filesystemTable := by
  have hh' : Hashed s.newFile := (⟨rfl, rfl, Nat.le_refl _, rfl⟩ : SameVnodes s s.newFile).hashed hh
  have hget : s.newFile.file s.nextFile = some ⟨1, none⟩ := update_self ..
  rcases open_cases hh' hget rfl hopen with ⟨-, -, -, hsame, -⟩ | ⟨-, v, x, -, -, -, rfl⟩ | ⟨v, x, -, -, -, rfl⟩ | ⟨x, -, -, rfl⟩
  · exact hsame.table
  · rfl
  · rfl
  · rfl

theorem close_table {r : Except DfsErrno Unit} (ho : Objects (f :: os) s)
    (hclose : s.dfsFileClose f o = some (t, r, acts)) : t.filesystemTable = s.filesystemTable := by
  obtain ⟨v, hfile, hlive⟩ := ho.bound f List.mem_cons_self
  obtain ⟨x, hx⟩ := Option.ne_none_iff_exists'.1 hlive
  obtain ⟨-, ⟨-, -, rfl⟩ | ⟨-, -, ⟨-, rfl⟩ | ⟨-, rfl⟩⟩⟩ := close_cases ho.hashed hfile rfl rfl hx hclose
  · rfl
  · rfl
  · rfl

theorem ownedOpen_kept (h : Kept s) (hopen : s.ownedOpen c path o = some (t, r)) : Kept t := by
  simp only [ownedOpen] at hopen
  split at hopen
  · cases hopen
  · rename_i t' e heq
    cases hopen
    have hown : t'.owned = s.owned := (dfsFileOpen_same heq).owned
    constructor
    · change Objects t'.owned _
      rw [hown]
      exact h.objects.refused heq
    · exact (h.placed.opened h.objects.hashed heq).same rfl rfl
  · rename_i t' v heq
    cases hopen
    have hown : t'.owned = s.owned := (dfsFileOpen_same heq).owned
    constructor
    · rw [hown]
      exact (h.objects.opened heq).same
    · exact (h.placed.opened h.objects.hashed heq).same rfl rfl

theorem ownedClose_kept (h : Kept s) (hclose : s.ownedClose f o = some (t, r)) : Kept t := by
  simp only [ownedClose] at hclose
  obtain ⟨hmem, hclose⟩ := Option.ite_none_right_eq_some.1 hclose
  have hobj : Objects (f :: s.owned.erase f) s := h.objects.perm (List.perm_cons_erase hmem)
  split at hclose
  · cases hclose
  · rename_i t' e acts heq
    cases hclose
    -- the filesystem refuses, and nothing changes
    obtain ⟨v, hfile, hlive⟩ := hobj.bound f List.mem_cons_self
    obtain ⟨x, hx⟩ := Option.ne_none_iff_exists'.1 hlive
    obtain ⟨-, ⟨-, -, rfl⟩ | ⟨hr, -⟩⟩ := close_cases hobj.hashed hfile rfl rfl hx heq
    · exact h
    · cases hr
  · rename_i t' u acts heq
    cases hclose
    have hown : t'.owned = s.owned := (dfsFileClose_same heq).1.owned
    have hf : f ∉ s.owned.erase f := (List.nodup_cons.1 hobj.nodup).1
    constructor
    · rw [hown]
      exact ((hobj.closed heq).discard hf).same
    · exact (h.placed.closed hobj heq).same rfl rfl

theorem checkDirectory_kept {r : Option DfsErrno} (h : Kept s) (hcheck : s.checkDirectory c p o = some (t, r, acts)) :
    Kept t ∧ t.filesystemTable = s.filesystemTable := by
  simp only [checkDirectory] at hcheck
  split at hcheck
  · cases hcheck
    exact ⟨h, rfl⟩
  · split at hcheck
    · cases hcheck
    · rename_i t' e heq
      cases hcheck
      have hown : t'.owned = s.owned := (dfsFileOpen_same heq).owned
      have htable : t'.filesystemTable = s.filesystemTable := open_table h.objects.hashed heq
      refine ⟨⟨?_, ?_⟩, htable⟩
      · change Objects t'.owned _
        rw [hown]
        exact h.objects.refused heq
      · exact (h.placed.opened h.objects.hashed heq).same rfl rfl
    · rename_i t' v heq
      split at hcheck
      · cases hcheck
      · rename_i t'' r' acts' heq'
        cases hcheck
        have hobj := h.objects.opened heq
        have hf : s.nextFile ∉ s.owned := (List.nodup_cons.1 hobj.nodup).1
        have hown : t''.owned = s.owned := (dfsFileClose_same heq').1.owned.trans (dfsFileOpen_same heq).owned
        have htable : t''.filesystemTable = s.filesystemTable :=
          (close_table hobj heq').trans (open_table h.objects.hashed heq)
        refine ⟨⟨?_, ?_⟩, htable⟩
        · change Objects t''.owned _
          rw [hown]
          exact (hobj.closed heq').discard hf
        · exact ((h.placed.opened h.objects.hashed heq).closed hobj heq').same rfl rfl

theorem dfsMount_kept {filesystemtype : CString} {m : MountOutside} (h : Kept s)
    (hcare : Careful c s (.mount path filesystemtype m)) (hmount : s.dfsMount c path filesystemtype m = some (t, r)) :
    Kept t := by
  have hsame {e : DfsRet} (hret : some (s, e) = some (t, r)) : Kept t := by
    cases hret
    exact h
  simp only [dfsMount] at hmount
  split at hmount
  · exact hsame hmount
  split at hmount
  · exact hsame hmount
  rename_i ops _
  split at hmount
  · exact hsame hmount
  split at hmount
  · cases hmount
  rename_i normal hn
  split at hmount
  · exact hsame hmount
  rename_i fullpath hfull
  split at hmount
  · cases hmount
  · rename_i t' e acts hcheck
    cases hmount
    exact (checkDirectory_kept h hcheck).1
  · rename_i t' acts hcheck
    obtain ⟨hkept, htable⟩ := checkDirectory_kept h hcheck
    split at hmount
    · cases hmount
    · cases hmount
      exact hkept
    · cases hmount
      exact hkept
    · rename_i i hfind
      obtain rfl : (t'.register i fullpath ops m).1 = t := congrArg Prod.fst (Option.some.inj hmount)
      have hnormal : normalize c path = some (some fullpath) := by
        split at hfull
        · rw [hn, hfull]
        · cases hfull
      obtain ⟨hlt, hspelling⟩ := hcare fullpath hnormal
      obtain ⟨hother, hentry⟩ := findEntry_spec hfind
      obtain ⟨-, hunused⟩ := (hentry i rfl).resolve_left (by simp)
      -- the path is not mounted: it has been compared, or it was not mounted before
      have hnot : ∀ j, ¬ Active t'.filesystemTable j fullpath := by
        intro j hact
        rcases hspelling with rfl | hfree
        · exact hother j path hact rfl
        · rw [htable] at hact
          exact hfree j hact
      rw [register]
      split
      · refine ⟨hkept.objects.same, ?_⟩
        have hset : (t'.setEntry i ⟨if m.deviceName then m.device else none, some fullpath, some ops⟩).setEntry i .clear =
            t'.setEntry i .clear := by
          simp only [setEntry, List.set_set]
        rw [hset]
        exact hkept.placed.clear fun v x hx => hkept.placed.unused hunused hx
      · exact ⟨hkept.objects.same, hkept.placed.mount hunused rfl (normal_of_normalize hnormal) hlt hnot⟩

theorem dfsUnmount_kept {specialfile : CString} {pathMalloc : Bool} {fopsUnmount : Int} (h : Kept s)
    (hcare : Careful c s (.unmount specialfile pathMalloc fopsUnmount))
    (hunmount : s.dfsUnmount c specialfile pathMalloc fopsUnmount = some (t, r)) : Kept t := by
  have hsame {e : DfsRet} (hret : some (s, e) = some (t, r)) : Kept t := by
    cases hret
    exact h
  simp only [dfsUnmount] at hunmount
  split at hunmount
  · cases hunmount
  rename_i normal hn
  split at hunmount
  · exact hsame hunmount
  rename_i fullpath hfull
  split at hunmount
  · exact hsame hunmount
  rename_i i hfind
  split at hunmount
  · cases hunmount
  rename_i ops hops
  split at hunmount
  · exact hsame hunmount
  · rename_i hok
    cases hunmount
    have hnormal : normalize c specialfile = some (some fullpath) := by
      split at hfull
      · rw [hn, hfull]
      · cases hfull
    have hact : Active s.filesystemTable i fullpath := by
      obtain ⟨iter, hget, hsome⟩ := Option.bind_eq_some_iff.1 hops
      obtain ⟨hlt, hpath, -⟩ := List.findIdx?_eq_some_iff_getElem.1 hfind
      obtain ⟨hlt', hget'⟩ := List.getElem?_eq_some_iff.1 hget
      rw [hget'] at hpath
      exact ⟨iter, hget, of_decide_eq_true hpath, by rw [hsome]; rfl⟩
    refine ⟨h.objects.same, h.placed.clear ?_⟩
    exact hcare (Int.not_lt.1 fun hneg => hok (.inr hneg)) fullpath i hnormal hact

theorem step_kept {y : DfsEv × DfsRet} (h : Kept s) (hs : CarefulStep c s y t) : Kept t := by
  obtain ⟨e, r⟩ := y
  obtain ⟨⟨hstep, hcall⟩, hcare⟩ := hs
  cases e with
  | ownedOpen path o => exact ownedOpen_kept h hstep
  | ownedClose f o => exact ownedClose_kept h hstep
  | mount path filesystemtype m => exact dfsMount_kept h hcare hstep
  | unmount specialfile pathMalloc fopsUnmount => exact dfsUnmount_kept h hcare hstep
  | _ => exact hcall.elim

theorem not_active_initial : ¬ Active (initial n).filesystemTable i m := by
  rintro ⟨iter, hget, hpath, -⟩
  have hmem : iter ∈ List.replicate n DfsFilesystem.clear := List.mem_of_getElem? hget
  rw [List.eq_of_mem_replicate hmem] at hpath
  cases hpath

theorem kept_initial : Kept (initial n) where
  objects := by
    have hh : Hashed (initial n) := by
      refine ⟨⟨fun _ => List.nodup_nil, nofun⟩, ?_, ?_, ?_, ?_⟩ <;> simp [initial]
    exact ⟨hh, List.nodup_nil, fun _ _ => rfl, (fun _ h => nomatch h), fun _ _ h => nomatch h⟩
  placed := by
    refine ⟨?_, ?_, ?_⟩
    · intro i j m hi
      exact absurd hi not_active_initial
    · intro i m hi
      exact absurd hi not_active_initial
    · intro v x hx
      cases hx

/-- In every run of careful calls the entries are distinct, and what is open is in an entry it is within. -/
theorem mount_table {ls : List (DfsEv × DfsRet)} (hr : Run (CarefulStep c) (initial n) ls s) : MountTable s :=
  (hr.invariant kept_initial fun _ _ _ => step_kept).mountTable

/-- Nothing is refused. -/
def mountOk : MountOutside := ⟨false, none, true, 0, testOutside 0 0⟩

def testType : CString := ⟨['t'], nul_not_mem_t⟩

def mntPath : CString := ⟨['/', 'm', 'n', 't'], nul_not_mem_mnt⟩

/-- The root is mounted, unmounted and mounted again, and a file is opened and closed. -/
def remounted : List (DfsEv × DfsRet) :=
  [mountRoot, (.unmount rootPath true 0, ⟨0, none, []⟩), mountRoot,
    (.ownedOpen filePath (testOutside 0 0), ⟨0, none, [.opened 0 0]⟩),
    (.ownedClose 0 (testOutside 0 0), ⟨0, none, [.close 0 0]⟩)]

theorem mount_table_remounted : ∃ s, Run (CarefulStep testConfig) (initial 4) remounted s ∧ MountTable s := by
  have hroot : normalize testConfig rootPath = some (some rootPath) := by rfl
  -- the root is its own normal path
  have hmount (s : DfsState) : Careful testConfig s mountRoot.1 := by
    intro p hp
    obtain rfl : rootPath = p := Option.some.inj (Option.some.inj (hroot.symm.trans hp))
    exact ⟨by decide, .inl rfl⟩
  obtain ⟨s, hr⟩ : ∃ s, Run (CarefulStep testConfig) (initial 4) remounted s := by
    refine ⟨_, .cons ⟨⟨rfl, trivial⟩, hmount _⟩ (.cons ⟨⟨rfl, trivial⟩, ?_⟩ (.cons ⟨⟨rfl, trivial⟩, hmount _⟩
      (.cons ⟨⟨rfl, trivial⟩, trivial⟩ (.cons ⟨⟨rfl, trivial⟩, trivial⟩ .nil))))⟩
    intro _ p i _ _ v x hx
    cases hx
  exact ⟨s, hr, mount_table hr⟩

/-- `/mnt` is mounted a second time under another name. -/
def mountedTwice : List (DfsEv × DfsRet) :=
  [mountRoot, (.mount mntPath testType mountOk, ⟨0, none, [.opened 0 0, .close 0 0]⟩),
    (.mount ⟨['m', 'n', 't'], by decide⟩ testType mountOk, ⟨0, none, [.opened 1 1, .close 1 0]⟩)]

/-- `/mnt` is unmounted while a file in it is open. -/
def unmountedOpen : List (DfsEv × DfsRet) :=
  [mountRoot, (.mount mntPath testType mountOk, ⟨0, none, [.opened 0 0, .close 0 0]⟩),
    (.ownedOpen ⟨"/mnt/a".toList, by decide⟩ (testOutside 0 0), ⟨0, none, [.opened 1 1]⟩),
    (.unmount mntPath true 0, ⟨0, none, []⟩)]

theorem mount_table_broken :
    (∃ s, Run (MountStep testConfig) (initial 4) mountedTwice s ∧ ¬ MountTable s) ∧
    ∃ s, Run (MountStep testConfig) (initial 4) unmountedOpen s ∧ ¬ MountTable s := by
  constructor
  · obtain ⟨s, hs, h1, h2⟩ : ∃ s, exec (step testConfig) (initial 4) (mountedTwice.map Prod.fst) = some (s, mountedTwice) ∧
        Active s.filesystemTable 1 mntPath ∧ Active s.filesystemTable 2 mntPath :=
      ⟨_, rfl, ⟨_, rfl, rfl, rfl⟩, ⟨_, rfl, rfl, rfl⟩⟩
    refine ⟨s, .of_exec (fun _ _ _ _ h (hok : IsMountCall _) => ⟨h, hok⟩) hs ?_, ?_⟩
    · simp [mountedTwice, mountRoot, IsMountCall]
    · intro h
      exact absurd (h.unique 1 2 mntPath h1 h2) (by decide)
  · obtain ⟨s, x, hs, hx, hentry⟩ : ∃ s x, exec (step testConfig) (initial 4) (unmountedOpen.map Prod.fst) =
        some (s, unmountedOpen) ∧ s.vnode 1 = some x ∧ s.filesystemTable[x.fs]? = some .clear :=
      ⟨_, _, rfl, rfl, rfl⟩
    refine ⟨s, .of_exec (fun _ _ _ _ h (hok : IsMountCall _) => ⟨h, hok⟩) hs ?_, ?_⟩
    · simp [unmountedOpen, mountRoot, IsMountCall]
    · intro h
      obtain ⟨m, ⟨iter, hget, hpath, -⟩, -⟩ := h.placed 1 x hx
      rw [hentry] at hget
      cases hget
      cases hpath

end RtThread.DfsState
