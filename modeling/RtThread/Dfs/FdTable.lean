import RtThread.Dfs.File
import RtThread.Lib.Runs
import RtThread.Lib.Slots

/-!
# The table of file descriptors

The slots hold live objects that are counted as often as they are held (`Table`). `fd_new` and `dup` take the lowest free slot
from `DFS_STDIO_OFFSET` on, and an object is closed once, by the `close` or `dup2` that takes its last slot (`fd_table`);
`fd_release` takes slots and closes nothing, and an object whose filesystem refuses keeps its slot.
-/

namespace RtThread.DfsState

open Function (update update_of_ne update_self)

/-- The counts of the objects. -/
def refs (s : DfsState) (f : Nat) : Option Int := (s.file f).map DfsFile.refCount

/-- What is in the slot `i`. -/
def held (s : DfsState) (i : Nat) : Option Nat := (s.fds[i]?).join

/-- How often the object is closed. -/
def closed (f : Nat) (acts : List FileAct) : Nat :=
  acts.countP fun act => match act with
    | .close g result => g = f ∧ 0 ≤ result
    | .opened _ _ => false

structure Table (c : DfsConfig) (s : DfsState) : Prop where
  length : s.fds.length ≤ c.dfsFdMax
  counted : Slots.Counted s.fds s.refs
  fresh : ∀ f, s.nextFile ≤ f → s.refs f = none
  owned : ∀ f ∈ s.owned, some f ∉ s.fds ∧ f < s.nextFile

/-- What `fd_new` and `dup` return: the lowest free slot, where the object `f` is then, or -1. -/
def Lowest (s : DfsState) (code : Int) (s' : DfsState) (f : Nat) : Prop :=
  code = -1 ∧ (∀ i, s'.held i = s.held i) ∨
    ∃ idx : Nat, code = idx ∧ dfsStdioOffset ≤ idx ∧ s.held idx = none ∧
      (∀ j, dfsStdioOffset ≤ j → j < idx → s.held j ≠ none) ∧ s'.held idx = some f ∧
      ∀ i, i ≠ idx → s'.held i = s.held i

/-- An object in a slot is closed, once, by the call that takes its last slot, unless that is `fd_release`, and by no other;
its filesystem is asked then only, and if it refuses the slots stay. -/
structure ClosesLast (s : DfsState) (x : DfsEv × DfsRet) (s' : DfsState) : Prop where
  closed : ∀ f, some f ∈ s.fds → (∀ fd, x.1 ≠ .fdRelease fd) → closed f x.2.acts = if some f ∈ s'.fds then 0 else 1
  released : ∀ fd, x.1 = .fdRelease fd → x.2.acts = []
  last : ∀ f result, .close f result ∈ x.2.acts → some f ∈ s.fds → s.fds.count (some f) = 1 ∧
    (result < 0 → s'.fds = s.fds)

/-- The slots, the counts and the objects of callers are the same. -/
structure SameTable (s s' : DfsState) : Prop where
  fds : s'.fds = s.fds
  refs : ∀ f, s'.refs f = s.refs f
  nextFile : s'.nextFile = s.nextFile
  owned : s'.owned = s.owned

/-- There may be more slots, which are empty. -/
def Grown (s s' : DfsState) : Prop := ∃ k, s' = { s with fds := s.fds ++ List.replicate k none }

variable {c : DfsConfig} {s s' s1 s2 : DfsState} {f g v i k n : Nat} {fd : Int} {o : Outside} {d : Option DfsFile}
  {x : DfsEv × DfsRet} {acts : List FileAct}

/-! ## Objects -/

theorem SameTable.refl : SameTable s s := ⟨rfl, fun _ => rfl, rfl, rfl⟩

theorem SameTable.trans (h : SameTable s s1) (h' : SameTable s1 s2) : SameTable s s2 where
  fds := h'.fds.trans h.fds
  refs f := (h'.refs f).trans (h.refs f)
  nextFile := h'.nextFile.trans h.nextFile
  owned := h'.owned.trans h.owned

@[simp] theorem refs_setFile : (s.setFile f d).refs = update s.refs f (d.map DfsFile.refCount) := by
  funext g
  by_cases hg : g = f
  · subst hg
    simp [refs, setFile]
  · simp [refs, setFile, hg]

/-- An object changes, but its count does not. -/
theorem sameTable_setFile {d : DfsFile} (h : s.refs f = some d.refCount) : SameTable s (s.setFile f (some d)) where
  fds := rfl
  refs g := by
    rw [refs_setFile]
    by_cases hg : g = f
    · subst hg
      rw [update_self, h]
      rfl
    · rw [update_of_ne hg]
  nextFile := rfl
  owned := rfl

variable {vnode : Nat → Option DfsVnode} {path fullpath : CString} {fds : List (Option Nat)} {start j : Nat} {e : DfsEv}
  {code oldfd newfd : Int} {errno : Option DfsErrno} {r : DfsRet} {m : MountOutside}

theorem sameTable_vnodes {head : Nat → List Nat} {nextVnode : Nat} :
    SameTable s { s with vnode := vnode, head := head, nextVnode := nextVnode } := ⟨rfl, fun _ => rfl, rfl, rfl⟩

theorem sameTable_table {table : List DfsFilesystem} : SameTable s { s with filesystemTable := table } :=
  ⟨rfl, fun _ => rfl, rfl, rfl⟩

theorem refs_of_file {d : DfsFile} (h : s.file f = some d) : s.refs f = some d.refCount := by rw [refs, h]; rfl

theorem fopsOpen_same {r : Except DfsErrno Nat} (h : s.fopsOpen f v o = some (s', r)) : SameTable s s' := by
  simp only [fopsOpen] at h
  split at h
  · cases h
  · obtain ⟨-, h⟩ := Option.ite_none_left_eq_some.1 h
    split at h
    · split at h
      · cases h
        refine ⟨rfl, fun g => ?_, rfl, rfl⟩
        rw [refs_setFile]
        by_cases hg : g = f
        · subst hg
          rw [update_self, Option.map_map]
          rfl
        · rw [update_of_ne hg]
          rfl
      · cases h
        exact sameTable_vnodes
    · cases h
      exact SameTable.refl

theorem dfsFileOpen_same {r : Except DfsErrno Nat} (h : s.dfsFileOpen c f path o = some (s', r)) : SameTable s s' := by
  rw [dfsFileOpen] at h
  split at h
  · cases h
  · cases h
  · rename_i d normal hfile hnormal
    have hrefs := refs_of_file hfile
    split at h
    · cases h
      exact SameTable.refl
    · split at h
      · cases h
      · rename_i v hv
        refine SameTable.trans ?_ (fopsOpen_same h)
        exact sameTable_vnodes.trans (sameTable_setFile hrefs)
      · split at h
        · cases h
          exact SameTable.refl
        · split at h
          · cases h
            exact SameTable.refl
          · split at h
            · split at h
              · cases h
                exact SameTable.refl
              · refine SameTable.trans ?_ (fopsOpen_same h)
                exact sameTable_vnodes.trans (sameTable_setFile hrefs)
            · cases h

/-- Only an object with one reference is closed, and its filesystem may refuse. -/
theorem dfsFileClose_same {r : Except DfsErrno Unit} (h : s.dfsFileClose f o = some (s', r, acts)) :
    SameTable s s' ∧
      ((s.refs f ≠ some 1 ∧ r = .ok () ∨ s.refs f = some 1 ∧ r ≠ .ok ()) ∧ acts = [] ∧ s' = s ∨
      s.refs f = some 1 ∧ ∃ result, acts = [.close f result] ∧
        (0 ≤ result ∧ r = .ok () ∨ result < 0 ∧ r ≠ .ok () ∧ s' = s)) := by
  rw [dfsFileClose] at h
  split at h
  · cases h
  · rename_i d hfile
    have hrefs := refs_of_file hfile
    split at h
    · rename_i hone
      rw [hone] at hrefs
      split at h
      · cases h
      · split at h
        · cases h
        · rename_i x hx
          split at h
          · obtain ⟨rfl, h'⟩ := Prod.mk.inj (Option.some.inj h)
            cases h'
            exact ⟨SameTable.refl, .inl ⟨.inr ⟨hrefs, by simp⟩, rfl, rfl⟩⟩
          · split at h
            · rename_i hneg
              obtain ⟨rfl, h'⟩ := Prod.mk.inj (Option.some.inj h)
              cases h'
              exact ⟨SameTable.refl, .inr ⟨hrefs, _, rfl, .inr ⟨hneg, by simp, rfl⟩⟩⟩
            · rename_i hneg
              split at h
              · obtain ⟨rfl, h'⟩ := Prod.mk.inj (Option.some.inj h)
                cases h'
                refine ⟨?_, .inr ⟨hrefs, _, rfl, .inl ⟨Int.not_lt.1 hneg, rfl⟩⟩⟩
                refine sameTable_vnodes.trans (sameTable_setFile ?_)
                exact hrefs.trans (by rw [hone])
              · obtain ⟨rfl, h'⟩ := Prod.mk.inj (Option.some.inj h)
                cases h'
                exact ⟨SameTable.refl, .inr ⟨hrefs, _, rfl, .inl ⟨Int.not_lt.1 hneg, rfl⟩⟩⟩
    · rename_i hone
      obtain ⟨rfl, h'⟩ := Prod.mk.inj (Option.some.inj h)
      cases h'
      refine ⟨SameTable.refl, .inl ⟨.inl ⟨?_, rfl⟩, rfl, rfl⟩⟩
      rw [hrefs]
      exact fun heq => hone (Option.some.inj heq)

/-! ## Slots -/

theorem held_eq_some : s.held i = some f ↔ s.fds[i]? = some (some f) := by
  rw [held]
  cases h : s.fds[i]? with
  | none => simp
  | some a => simp

theorem slot_eq_some (h : s.slot fd = some f) : 0 ≤ fd ∧ s.fds[fd.toNat]? = some (some f) := by
  rw [slot] at h
  obtain ⟨hneg, h⟩ := Option.ite_none_left_eq_some.1 h
  exact ⟨Int.not_lt.1 hneg, held_eq_some.1 h⟩

theorem Grown.refl : Grown s s := ⟨0, by simp⟩

theorem Grown.held (h : Grown s s') : s'.held i = s.held i := by
  obtain ⟨k, rfl⟩ := h
  simp only [DfsState.held, List.getElem?_append]
  split
  · rfl
  · rename_i hi
    rw [List.getElem?_eq_none (Nat.le_of_not_lt hi), List.getElem?_replicate]
    split <;> rfl

theorem Grown.mem (h : Grown s s') : some f ∈ s'.fds ↔ some f ∈ s.fds := by
  obtain ⟨k, rfl⟩ := h
  exact Slots.mem_grow

theorem Grown.slot (h : Grown s s') : s'.slot fd = s.slot fd := by
  rw [DfsState.slot, DfsState.slot]
  split
  · rfl
  · exact h.held

theorem Grown.table (h : Grown s s') (ht : Table c s) (hlen : s'.fds.length ≤ c.dfsFdMax) : Table c s' := by
  obtain ⟨k, rfl⟩ := h
  exact ⟨hlen, ht.counted.grow, ht.fresh, fun f hf => ⟨fun hm => (ht.owned f hf).1 (Slots.mem_grow.1 hm), (ht.owned f hf).2⟩⟩

theorem fdSlotExpand_spec {b : Bool} (h : s.fdSlotExpand c i o = (s', b)) :
    Grown s s' ∧ (s.fds.length ≤ c.dfsFdMax → s'.fds.length ≤ c.dfsFdMax) ∧ (b = true → i < s'.fds.length) := by
  simp only [fdSlotExpand] at h
  split at h
  · rename_i hlt
    cases h
    exact ⟨Grown.refl, id, fun _ => hlt⟩
  · rename_i hge
    split at h
    · cases h
      exact ⟨Grown.refl, id, nofun⟩
    · rename_i hmax
      split at h
      · cases h
        exact ⟨Grown.refl, id, nofun⟩
      · cases h
        refine ⟨⟨_, rfl⟩, ?_, ?_⟩
        · intro hlen
          simp only [List.length_append, List.length_replicate]
          omega
        · simp only [List.length_append, List.length_replicate]
          omega

theorem findSlot_eq_some {idx : Nat} (h : findSlot fds start = some idx) :
    start ≤ idx ∧ fds[idx]? = some none ∧ ∀ j, start ≤ j → j < idx → fds[j]? ≠ some none := by
  obtain ⟨hp, hmem, hbefore⟩ := List.find?_range'_eq_some.1 h
  refine ⟨(List.mem_range'_1.1 hmem).1, by simpa using hp, ?_⟩
  intro j hj hlt
  simpa using hbefore j hj hlt

theorem findSlot_eq_none (h : findSlot fds start = none) : ∀ j, start ≤ j → j < fds.length → fds[j]? ≠ some none := by
  intro j hj hlt
  have := List.find?_eq_none.1 h j (List.mem_range'_1.2 ⟨hj, by omega⟩)
  simpa using this

/-- The slot is empty, and those before it are not. -/
theorem fdSlotAlloc_spec {r : Option Nat} (h : s.fdSlotAlloc c start o = (s', r)) :
    Grown s s' ∧ (s.fds.length ≤ c.dfsFdMax → s'.fds.length ≤ c.dfsFdMax) ∧
      ∀ idx, r = some idx → start ≤ idx ∧ s'.fds[idx]? = some none ∧ s.held idx = none ∧
        ∀ j, start ≤ j → j < idx → s.held j ≠ none := by
  have hsome {j : Nat} (hlt : j < s.fds.length) (hne : s.fds[j]? ≠ some none) : s.held j ≠ none := by
    rw [DfsState.held, List.getElem?_eq_getElem hlt]
    rw [List.getElem?_eq_getElem hlt] at hne
    intro hj
    exact hne (congrArg some hj)
  rw [fdSlotAlloc] at h
  cases hfind : findSlot s.fds start with
  | some idx =>
    rw [hfind] at h
    cases h
    obtain ⟨hle, hget, hbefore⟩ := findSlot_eq_some hfind
    refine ⟨Grown.refl, id, ?_⟩
    rintro idx' hidx
    cases hidx
    refine ⟨hle, hget, by rw [DfsState.held, hget]; rfl, ?_⟩
    intro j hj hlt
    have hlen := (List.getElem?_eq_some_iff.1 hget).1
    exact hsome (Nat.lt_trans hlt hlen) (hbefore j hj hlt)
  | none =>
    rw [hfind] at h
    dsimp only at h
    generalize hx : s.fdSlotExpand c (max s.fds.length start) o = x at h
    obtain ⟨s1, b⟩ := x
    obtain ⟨hg, hlen, hb⟩ := fdSlotExpand_spec hx
    obtain ⟨rfl, hr⟩ := Prod.mk.inj h
    refine ⟨hg, hlen, ?_⟩
    rintro idx rfl
    cases b with
    | false => cases hr
    | true =>
      obtain rfl : max s.fds.length start = idx := Option.some.inj hr
      have hnone : s.held (max s.fds.length start) = none := by
        rw [DfsState.held, List.getElem?_eq_none (Nat.le_max_left ..)]
        rfl
      refine ⟨Nat.le_max_right .., ?_, hnone, ?_⟩
      · have hlt := hb rfl
        have hheld := hg.held (i := max s.fds.length start)
        rw [hnone, DfsState.held, List.getElem?_eq_getElem hlt] at hheld
        rw [List.getElem?_eq_getElem hlt]
        exact congrArg some hheld
      · intro j hj hlt
        have hlt' : j < s.fds.length := by omega
        exact hsome hlt' (findSlot_eq_none hfind j hj hlt')

theorem SameTable.table (h : SameTable s s') (ht : Table c s) : Table c s' where
  length := by rw [h.fds]; exact ht.length
  counted := by rw [h.fds]; exact ht.counted.congr fun f _ => h.refs f
  fresh f hf := by
    rw [h.refs]
    exact ht.fresh f (by rwa [h.nextFile] at hf)
  owned f hf := by
    rw [h.fds, h.nextFile]
    exact ht.owned f (by rwa [h.owned] at hf)

theorem Table.lt (ht : Table c s) (hf : some f ∈ s.fds) : f < s.nextFile := by
  by_contra hge
  have hnone := ht.fresh f (Nat.le_of_not_lt hge)
  rw [ht.counted f hf] at hnone
  cases hnone

theorem Table.refs_ne (ht : Table c s) (hf : some f ∈ s.fds) : s.refs f ≠ none := by
  rw [ht.counted f hf]
  exact Option.some_ne_none _

theorem Table.next_not_mem (ht : Table c s) : some s.nextFile ∉ s.fds := fun hm => Nat.lt_irrefl _ (ht.lt hm)

/-- An object gets one more slot. -/
structure Shared (s : DfsState) (i f : Nat) (s' : DfsState) : Prop where
  fds : s'.fds = s.fds.set i (some f)
  refs : s'.refs f = (s.refs f).map (· + 1)
  others : ∀ g, g ≠ f → s'.refs g = s.refs g
  nextFile : s'.nextFile = s.nextFile
  owned : s'.owned = s.owned

theorem shareSlot_spec (h : s.shareSlot i f = some s') : Shared s i f s' ∧ s.refs f ≠ none := by
  rw [shareSlot] at h
  split at h
  · cases h
  · rename_i d hfile
    cases h
    have hrefs := refs_of_file hfile
    refine ⟨⟨rfl, ?_, ?_, rfl, rfl⟩, by simp [hrefs]⟩
    · rw [refs_setFile, update_self, hrefs]
      rfl
    · intro g hg
      rw [refs_setFile, update_of_ne hg]
      rfl

theorem Shared.table (h : Shared s i f s') (ht : Table c s) (hi : s.fds[i]? = some none) (hf : some f ∈ s.fds) :
    Table c s' where
  length := by
    rw [h.fds, List.length_set]
    exact ht.length
  counted := by
    rw [h.fds]
    refine ht.counted.share hi h.others ?_
    rw [h.refs, ht.counted f hf]
    rfl
  fresh g hg := by
    rw [h.nextFile] at hg
    by_cases hgf : g = f
    · subst hgf
      exact absurd (ht.lt hf) (Nat.not_lt.2 hg)
    · rw [h.others g hgf]
      exact ht.fresh g hg
  owned g hg := by
    rw [h.owned] at hg
    rw [h.fds, h.nextFile, Slots.mem_share hi]
    obtain ⟨hnot, hlt⟩ := ht.owned g hg
    refine ⟨?_, hlt⟩
    rintro (hm | rfl)
    · exact hnot hm
    · exact hnot hf

/-- A slot of the object `f` is emptied. -/
structure Released (s : DfsState) (i f : Nat) (s' : DfsState) : Prop where
  fds : s'.fds = s.fds.set i none
  refs : s'.refs f = if s.refs f = some 1 then none else (s.refs f).map (· - 1)
  others : ∀ g, g ≠ f → s'.refs g = s.refs g
  nextFile : s'.nextFile = s.nextFile
  owned : s'.owned = s.owned

theorem putVnode_eq (h : s.putVnode v = some s') : ∃ vnode, s' = { s with vnode := vnode } := by
  rw [putVnode] at h
  split at h
  · cases h
  · split at h
    · exact ⟨_, (Option.some.inj h).symm⟩
    · exact ⟨_, (Option.some.inj h).symm⟩

theorem released_of_setFile {d : Option DfsFile}
    (hd : d.map DfsFile.refCount = if s.refs f = some 1 then none else (s.refs f).map (· - 1)) :
    Released s i f ({ s.setSlot i none with vnode := vnode }.setFile f d) where
  fds := rfl
  refs := by rw [refs_setFile, update_self, hd]
  others g hg := by
    rw [refs_setFile, update_of_ne hg]
    rfl
  nextFile := rfl
  owned := rfl

theorem fdRelease_spec (hslot : s.slot fd = some f) (h : s.fdRelease fd = some s') : Released s fd.toNat f s' := by
  rw [fdRelease, hslot] at h
  dsimp only at h
  cases hfile : s.file f with
  | none => rw [hfile] at h; cases h
  | some d =>
    rw [hfile] at h
    dsimp only at h
    have hrefs := refs_of_file hfile
    split at h
    · rename_i hlast
      have hone : s.refs f = some 1 := by rw [hrefs]; congr 1; omega
      cases hv : d.vnode with
      | none =>
        rw [hv] at h
        cases h
        exact released_of_setFile (by rw [if_pos hone]; rfl)
      | some v =>
        rw [hv] at h
        obtain ⟨s1, hput, rfl⟩ := Option.map_eq_some_iff.1 h
        obtain ⟨vnode, rfl⟩ := putVnode_eq hput
        exact released_of_setFile (by rw [if_pos hone]; rfl)
    · rename_i hlast
      cases h
      refine released_of_setFile ?_
      rw [if_neg, hrefs]
      · rfl
      · rw [hrefs]
        intro heq
        have := Option.some.inj heq
        omega

theorem Released.table (h : Released s i f s') (ht : Table c s) (hi : s.fds[i]? = some (some f)) : Table c s' where
  length := by
    rw [h.fds, List.length_set]
    exact ht.length
  counted := by
    rw [h.fds]
    refine ht.counted.drop hi h.others ?_
    intro hmore
    have hrefs := ht.counted f (List.mem_of_getElem? hi)
    rw [h.refs, hrefs, if_neg]
    · rfl
    · intro heq
      have := Option.some.inj heq
      omega
  fresh g hg := by
    rw [h.nextFile] at hg
    by_cases hgf : g = f
    · subst hgf
      exact absurd (ht.lt (List.mem_of_getElem? hi)) (Nat.not_lt.2 hg)
    · rw [h.others g hgf]
      exact ht.fresh g hg
  owned g hg := by
    rw [h.owned] at hg
    obtain ⟨hnot, hlt⟩ := ht.owned g hg
    rw [h.fds, h.nextFile]
    refine ⟨?_, hlt⟩
    intro hm
    rcases List.mem_or_eq_of_mem_set hm with hm | hm
    · exact hnot hm
    · cases hm

/-- A new object. -/
theorem newFile_table (ht : Table c s) : Table c s.newFile where
  length := ht.length
  counted := by
    refine ht.counted.congr fun f hf => ?_
    change (s.setFile s.nextFile _).refs f = _
    rw [refs_setFile, update_of_ne (Nat.ne_of_lt (ht.lt hf))]
  fresh f hf := by
    change s.nextFile + 1 ≤ f at hf
    change (s.setFile s.nextFile _).refs f = _
    rw [refs_setFile, update_of_ne (by omega)]
    exact ht.fresh f (by omega)
  owned f hf := by
    obtain ⟨hnot, hlt⟩ := ht.owned f hf
    exact ⟨hnot, Nat.lt_succ_of_lt hlt⟩

theorem newFile_refs : s.newFile.refs s.nextFile = some 1 := by
  change (s.setFile s.nextFile _).refs s.nextFile = _
  rw [refs_setFile, update_self]
  rfl

theorem newFile_refs_of_ne (hf : f ≠ s.nextFile) : s.newFile.refs f = s.refs f := by
  change (s.setFile s.nextFile _).refs f = _
  rw [refs_setFile, update_of_ne hf]

/-- An object in no slot is not used any more. -/
theorem dropFile_table (ht : Table c s) (hf : some f ∉ s.fds) : Table c (s.setFile f none) where
  length := ht.length
  counted := by
    refine ht.counted.congr fun g hg => ?_
    rw [refs_setFile, update_of_ne]
    rintro rfl
    exact hf hg
  fresh g hg := by
    rw [refs_setFile]
    by_cases hgf : g = f
    · subst hgf
      rw [update_self]
      rfl
    · rw [update_of_ne hgf]
      exact ht.fresh g hg
  owned := ht.owned

/-! ## Calls -/

/-- What a call keeps, and what it closes. -/
structure Moves (c : DfsConfig) (s : DfsState) (x : DfsEv × DfsRet) (s' : DfsState) : Prop where
  table : Table c s'
  next : s.nextFile ≤ s'.nextFile
  dead : ∀ f, f < s.nextFile → s.refs f = none → s'.refs f = none
  closes : ClosesLast s x s'
  once : ∀ f, closed f x.2.acts = 0 ∨
    closed f x.2.acts = 1 ∧ f < s'.nextFile ∧ s'.refs f = none ∧ (f < s.nextFile → s.refs f ≠ none)

@[simp] theorem closed_nil : closed f [] = 0 := rfl

@[simp] theorem closed_opened : closed f (.opened g v :: acts) = closed f acts := by simp [closed]

theorem closed_close {result : Int} : closed f [.close g result] = if g = f ∧ 0 ≤ result then 1 else 0 := by
  by_cases h : g = f ∧ 0 ≤ result
  · simp [closed, h]
  · simp only [closed, List.countP_singleton, decide_eq_true_eq, if_neg h]

/-- A call that closes nothing. -/
theorem moves_quiet {v : Nat} (ht : Table c s')
    (hacts : acts = [] ∨ acts = [.opened f v]) (hnext : s.nextFile ≤ s'.nextFile)
    (hdead : ∀ g, g < s.nextFile → s.refs g = none → s'.refs g = none)
    (hfds : ∀ g, some g ∈ s.fds → some g ∈ s'.fds) (he : ∀ fd, e ≠ .fdRelease fd) :
    Moves c s (e, ⟨code, errno, acts⟩) s' := by
  have hclosed : ∀ g, closed g acts = 0 := by
    intro g
    rcases hacts with rfl | rfl <;> simp
  refine ⟨ht, hnext, hdead, ⟨?_, fun fd h => absurd h (he fd), ?_⟩, fun g => .inl (hclosed g)⟩
  · intro g hg _
    rw [if_pos (hfds g hg)]
    exact hclosed g
  · intro g result hmem
    rcases hacts with rfl | rfl <;> simp at hmem

theorem moves_same (ht : Table c s) (h : SameTable s s')
    (he : ∀ fd, e ≠ .fdRelease fd) : Moves c s (e, ⟨code, errno, []⟩) s' :=
  moves_quiet (f := 0) (v := 0) (h.table ht) (.inl rfl) (Nat.le_of_eq h.nextFile.symm) (fun g _ hg => (h.refs g).trans hg)
    (fun _ hg => h.fds ▸ hg) he

theorem Grown.refs (h : Grown s s') : s'.refs = s.refs := by
  obtain ⟨k, rfl⟩ := h
  rfl

theorem Grown.nextFile (h : Grown s s') : s'.nextFile = s.nextFile := by
  obtain ⟨k, rfl⟩ := h
  rfl

theorem moves_grown (ht : Table c s') (hg : Grown s s') (he : ∀ fd, e ≠ .fdRelease fd) :
    Moves c s (e, ⟨code, errno, []⟩) s' :=
  moves_quiet (f := 0) (v := 0) ht (.inl rfl) (Nat.le_of_eq hg.nextFile.symm) (fun _ _ h => hg.refs ▸ h) (fun _ => hg.mem.2) he

/-- A slot is asked to be closed: it stays, or its object is closed if this is its last slot. -/
theorem close_slot {r : Except DfsErrno Unit} (ht : Table c s) (hslot : s.slot fd = some f)
    (h : s.dfsFileClose f o = some (s', r, acts)) :
    (∀ g result, .close g result ∈ acts → g = f ∧ s.fds.count (some f) = 1 ∧ (r = .ok () → 0 ≤ result)) ∧
      (r ≠ .ok () ∧ s' = s ∧ (∀ g, closed g acts = 0) ∨
      r = .ok () ∧ SameTable s s' ∧ ∀ g, closed g acts = if g = f ∧ s.refs f = some 1 then 1 else 0) := by
  obtain ⟨-, hi⟩ := slot_eq_some hslot
  have hcount : s.refs f = some 1 → s.fds.count (some f) = 1 := by
    intro hone
    rw [ht.counted f (List.mem_of_getElem? hi)] at hone
    have := Option.some.inj hone
    omega
  obtain ⟨hsame, ⟨hr, rfl, rfl⟩ | ⟨hone, result, rfl, hr⟩⟩ := dfsFileClose_same h
  · refine ⟨(fun _ _ hmem => nomatch hmem), ?_⟩
    rcases hr with ⟨hone, rfl⟩ | ⟨-, hr⟩
    · exact .inr ⟨rfl, hsame, fun g => by rw [if_neg (fun hg => hone hg.2)]; rfl⟩
    · exact .inl ⟨hr, rfl, fun g => rfl⟩
  · constructor
    · intro g result' hmem
      obtain ⟨rfl, rfl⟩ := FileAct.close.inj (List.mem_singleton.1 hmem)
      refine ⟨rfl, hcount hone, ?_⟩
      intro hok
      rcases hr with ⟨hpos, -⟩ | ⟨-, hr, -⟩
      · exact hpos
      · exact absurd hok hr
    · rcases hr with ⟨hpos, rfl⟩ | ⟨hneg, hr, rfl⟩
      · refine .inr ⟨rfl, hsame, fun g => ?_⟩
        rw [closed_close]
        simp only [hpos, hone, and_true, eq_comm]
      · refine .inl ⟨hr, rfl, fun g => ?_⟩
        rw [closed_close, if_neg]
        exact fun hg => absurd hg.2 (Int.not_le.2 hneg)

/-- After `dfs_file_close` the slot is released. -/
theorem close_release (ht : Table c s) (hslot : s.slot fd = some f) (hsame : SameTable s s1)
    (h : s1.fdRelease fd = some s') : Released s fd.toNat f s' ∧ Table c s' := by
  obtain ⟨hpos, hi⟩ := slot_eq_some hslot
  have hslot1 : s1.slot fd = some f := by
    rw [slot, if_neg (Int.not_lt.2 hpos)]
    exact held_eq_some.2 (by rw [hsame.fds]; exact hi)
  have hrel := fdRelease_spec hslot1 h
  refine ⟨⟨?_, ?_, ?_, hrel.nextFile.trans hsame.nextFile, hrel.owned.trans hsame.owned⟩, ?_⟩
  · rw [hrel.fds, hsame.fds]
  · rw [hrel.refs, hsame.refs]
  · intro g hg
    rw [hrel.others g hg, hsame.refs]
  · exact hrel.table (hsame.table ht) (by rw [hsame.fds]; exact hi)

theorem Released.dead (h : Released s i f s') (hf : s.refs f ≠ none) (hg : s.refs g = none) : s'.refs g = none := by
  rw [h.others g, hg]
  rintro rfl
  exact hf hg

/-- The calls that close the object of a slot: what they do apart from that does not matter. -/
theorem moves_close (ht : Table c s) (ht' : Table c s')
    (hslot : s.slot fd = some f) (he : ∀ fd, e ≠ .fdRelease fd) (hnext : s'.nextFile = s.nextFile)
    (hdead : ∀ g, s.refs g = none → s'.refs g = none)
    (hlast : ∀ g result, .close g result ∈ acts → g = f ∧ s.fds.count (some f) = 1 ∧ (result < 0 → s'.fds = s.fds))
    (hclosed : ∀ g, closed g acts = if g = f ∧ some f ∉ s'.fds then 1 else 0)
    (hfds : ∀ g, g ≠ f → some g ∈ s.fds → some g ∈ s'.fds) (hgone : some f ∉ s'.fds → s'.refs f = none) :
    Moves c s (e, ⟨code, errno, acts⟩) s' := by
  obtain ⟨-, hi⟩ := slot_eq_some hslot
  have hmem : some f ∈ s.fds := List.mem_of_getElem? hi
  refine ⟨ht', Nat.le_of_eq hnext.symm, fun g _ => hdead g, ⟨?_, fun fd h => absurd h (he fd), ?_⟩, ?_⟩
  · intro g hg _
    rw [hclosed]
    by_cases hgf : g = f
    · subst hgf
      by_cases hin : some g ∈ s'.fds
      · rw [if_neg (fun h => h.2 hin), if_pos hin]
      · rw [if_pos ⟨rfl, hin⟩, if_neg hin]
    · rw [if_neg (fun h => hgf h.1), if_pos (hfds g hgf hg)]
  · intro g result hact _
    obtain ⟨rfl, hcount, hneg⟩ := hlast g result hact
    exact ⟨hcount, hneg⟩
  · intro g
    rw [hclosed]
    by_cases hg : g = f ∧ some f ∉ s'.fds
    · obtain ⟨rfl, hnot⟩ := hg
      refine .inr ⟨if_pos ⟨rfl, hnot⟩, ?_, hgone hnot, fun _ => ht.refs_ne hmem⟩
      rw [hnext]
      exact ht.lt hmem
    · exact .inl (if_neg hg)

/-- The object is not closed. -/
theorem refuse_moves (ht : Table c s) (hslot : s.slot fd = some f) (he : ∀ fd, e ≠ .fdRelease fd) {err : DfsErrno}
    (h : s.dfsFileClose f o = some (s', .error err, acts)) : Moves c s (e, ⟨code, errno, acts⟩) s' := by
  have hmem : some f ∈ s.fds := List.mem_of_getElem? (slot_eq_some hslot).2
  obtain ⟨hlast, ⟨-, rfl, hclosed⟩ | ⟨hok, -⟩⟩ := close_slot ht hslot h
  · refine moves_close ht ht hslot he rfl (fun _ h => h) ?_ ?_ (fun _ _ h => h) (fun h => absurd hmem h)
    · intro g result hact
      exact ⟨(hlast g result hact).1, (hlast g result hact).2.1, fun _ => rfl⟩
    · intro g
      rw [hclosed, if_neg (fun h => h.2 hmem)]
  · cases hok

theorem posixClose_moves (ht : Table c s) (h : s.posixClose fd o = some (s', r)) : Moves c s (.posixClose fd o, r) s' := by
  rw [posixClose] at h
  cases hslot : s.slot fd with
  | none =>
    rw [hslot] at h
    cases h
    exact moves_same ht SameTable.refl (by simp)
  | some f =>
    rw [hslot] at h
    dsimp only at h
    obtain ⟨hpos, hi⟩ := slot_eq_some hslot
    have hmem : some f ∈ s.fds := List.mem_of_getElem? hi
    cases hclose : s.dfsFileClose f o with
    | none => rw [hclose] at h; cases h
    | some y =>
      obtain ⟨s1, r1, acts⟩ := y
      rw [hclose] at h
      obtain ⟨hlast, hcases⟩ := close_slot ht hslot hclose
      cases r1 with
      | error e =>
        cases h
        exact refuse_moves ht hslot (by simp) hclose
      | ok _ =>
        obtain ⟨s2, hrel, heq⟩ := Option.map_eq_some_iff.1 h
        cases heq
        obtain ⟨hr, -⟩ | ⟨-, hsame, hclosed⟩ := hcases
        · exact absurd rfl hr
        · obtain ⟨hreleased, ht'⟩ := close_release ht hslot hsame hrel
          have hone := ht.counted.eq_one_iff hi
          rw [← hreleased.fds] at hone
          refine moves_close ht ht' hslot (by simp) hreleased.nextFile ?_ ?_ ?_ ?_ ?_
          · exact fun g => hreleased.dead (ht.refs_ne hmem)
          · intro g result hact
            obtain ⟨rfl, hcount, hge⟩ := hlast g result hact
            exact ⟨rfl, hcount, fun hneg => absurd (hge rfl) (Int.not_le.2 hneg)⟩
          · intro g
            simp only [hclosed, hone]
          · intro g hg hin
            rw [hreleased.fds]
            exact (Slots.mem_drop_of_ne hi hg).2 hin
          · intro hnot
            rw [hreleased.refs, if_pos (hone.2 hnot)]

theorem held_setSlot (hi : s.fds[i]? = some none) {a : Option Nat} :
    (s.setSlot i a).held j = if j = i then a else s.held j := by
  rw [held, setSlot, List.getElem?_set]
  by_cases hj : i = j
  · rw [if_pos hj, if_pos hj.symm, if_pos (List.getElem?_eq_some_iff.1 hi).1]
    rfl
  · rw [if_neg hj, if_neg (Ne.symm hj)]
    rfl

/-- The table with a new object in an empty slot. -/
theorem newFile_setSlot_table (ht : Table c s) (hi : s.fds[i]? = some none) :
    Table c (s.newFile.setSlot i (some s.nextFile)) where
  length := by
    change (s.fds.set i _).length ≤ _
    rw [List.length_set]
    exact ht.length
  counted := by
    have hnot := ht.next_not_mem
    refine ht.counted.share hi (fun g hg => newFile_refs_of_ne hg) ?_
    rw [List.count_eq_zero.2 hnot]
    exact newFile_refs
  fresh := (newFile_table ht).fresh
  owned f hf := by
    obtain ⟨hnot, hlt⟩ := ht.owned f hf
    refine ⟨?_, Nat.lt_succ_of_lt hlt⟩
    change some f ∉ s.fds.set i _
    rw [Slots.mem_share hi]
    rintro (hm | rfl)
    · exact hnot hm
    · exact Nat.lt_irrefl _ hlt

/-- A slot that is free, and the lowest one. -/
structure Free (s : DfsState) (idx : Nat) : Prop where
  stdio : dfsStdioOffset ≤ idx
  free : s.held idx = none
  lower : ∀ j, dfsStdioOffset ≤ j → j < idx → s.held j ≠ none

theorem fdNew_spec {r : Option (Nat × Nat)} (ht : Table c s) (h : s.fdNew c o = (s', r)) :
    Table c s' ∧ (r = none ∧ Grown s s' ∨ ∃ idx s1, r = some (idx, s.nextFile) ∧ Free s idx ∧ Grown s s1 ∧
      s1.fds[idx]? = some none ∧ s' = s1.newFile.setSlot idx (some s.nextFile)) := by
  simp only [fdNew] at h
  generalize hx : s.fdSlotAlloc c dfsStdioOffset o = y at h
  obtain ⟨s1, slot⟩ := y
  obtain ⟨hg, hlen, hslot⟩ := fdSlotAlloc_spec hx
  have ht1 := hg.table ht (hlen ht.length)
  cases slot with
  | none =>
    cases h
    exact ⟨ht1, .inl ⟨rfl, hg⟩⟩
  | some idx =>
    obtain ⟨hle, hget, hnone, hbefore⟩ := hslot idx rfl
    dsimp only at h
    split at h
    · cases h
      exact ⟨ht1, .inl ⟨rfl, hg⟩⟩
    · cases h
      refine ⟨newFile_setSlot_table ht1 hget, .inr ⟨idx, s1, ?_, ⟨hle, hnone, hbefore⟩, hg, hget, ?_⟩⟩
      · rw [hg.nextFile]
      · rw [hg.nextFile]

/-- What is kept when an object is put into a slot of a grown table. -/
theorem mem_newFile_setSlot (hg : Grown s s1) (hi : s1.fds[i]? = some none) (hm : some g ∈ s.fds) :
    some g ∈ (s1.newFile.setSlot i (some f)).fds :=
  (Slots.mem_share hi).2 (.inl (hg.mem.2 hm))

theorem newFile_dead (hf : f < s.nextFile) (h : s.refs f = none) : s.newFile.refs f = none := by
  rw [newFile_refs_of_ne (Nat.ne_of_lt hf), h]

theorem fdNew_moves (ht : Table c s) (h : s.step c (.fdNew o) = some (s', r)) :
    Moves c s (.fdNew o, r) s' ∧ ∃ f, Lowest s r.code s' f := by
  simp only [step] at h
  generalize hx : s.fdNew c o = y at h
  obtain ⟨s2, slot⟩ := y
  obtain ⟨ht', ⟨rfl, hg⟩ | ⟨idx, s1, rfl, hfree, hg, hget, rfl⟩⟩ := fdNew_spec ht hx
  · cases h
    exact ⟨moves_grown ht' hg (by simp), 0, .inl ⟨rfl, fun i => hg.held⟩⟩
  · cases h
    have hget' : s1.newFile.fds[idx]? = some none := hget
    refine ⟨moves_quiet (f := 0) (v := 0) ht' (.inl rfl) ?_ ?_ ?_ (by simp), s.nextFile, .inr ⟨idx, rfl, hfree.stdio, hfree.free, hfree.lower, ?_, ?_⟩⟩
    · change s.nextFile ≤ s1.nextFile + 1
      rw [hg.nextFile]
      exact Nat.le_succ _
    · intro g hlt hnone
      exact newFile_dead (by rwa [hg.nextFile]) (by rw [hg.refs, hnone])
    · intro g hm
      exact mem_newFile_setSlot hg hget hm
    · rw [held_setSlot hget', if_pos rfl]
    · intro i hi
      rw [held_setSlot hget', if_neg hi]
      exact hg.held

theorem held_shared (h : Shared s i f s') (hi : s.fds[i]? = some none) :
    s'.held j = if j = i then some f else s.held j := by
  rw [← held_setSlot hi, held, held, h.fds]
  rfl

theorem Shared.dead (h : Shared s i f s') (hg : s.refs g = none) (hf : s.refs f ≠ none) : s'.refs g = none := by
  rw [h.others g, hg]
  rintro rfl
  exact hf hg

theorem sysDup_moves (ht : Table c s) (h : s.step c (.dup oldfd o) = some (s', r)) :
    Moves c s (.dup oldfd o, r) s' ∧ ∃ f, Lowest s r.code s' f := by
  simp only [step, sysDup] at h
  obtain ⟨y, hy, heq⟩ := Option.map_eq_some_iff.1 h
  cases heq
  cases hslot : s.slot oldfd with
  | none =>
    rw [hslot] at hy
    cases hy
    exact ⟨moves_same ht SameTable.refl (by simp), 0, .inl ⟨rfl, fun _ => rfl⟩⟩
  | some f =>
    rw [hslot] at hy
    obtain ⟨-, hi⟩ := slot_eq_some hslot
    have hmem : some f ∈ s.fds := List.mem_of_getElem? hi
    generalize hx : s.fdSlotAlloc c dfsStdioOffset o = z at hy
    obtain ⟨s1, slot⟩ := z
    obtain ⟨hg, hlen, hnew⟩ := fdSlotAlloc_spec hx
    have ht1 := hg.table ht (hlen ht.length)
    cases slot with
    | none =>
      cases hy
      exact ⟨moves_grown ht1 hg (by simp), 0, .inl ⟨rfl, fun i => hg.held⟩⟩
    | some idx =>
      obtain ⟨s2, hshare, rfl⟩ := Option.map_eq_some_iff.1 hy
      obtain ⟨hle, hget, hnone, hbefore⟩ := hnew idx rfl
      obtain ⟨hshared, halive⟩ := shareSlot_spec hshare
      have hmem1 : some f ∈ s1.fds := hg.mem.2 hmem
      refine ⟨moves_quiet (f := 0) (v := 0) (hshared.table ht1 hget hmem1) (.inl rfl) ?_ ?_ ?_ (by simp), f,
        .inr ⟨idx, rfl, hle, hnone, hbefore, ?_, ?_⟩⟩
      · exact Nat.le_of_eq (hshared.nextFile.trans hg.nextFile).symm
      · intro g _ hdead
        exact hshared.dead (by rw [hg.refs, hdead]) halive
      · intro g hm
        rw [hshared.fds]
        exact (Slots.mem_share hget).2 (.inl (hg.mem.2 hm))
      · rw [held_shared hshared hget, if_pos rfl]
      · intro i hi
        rw [held_shared hshared hget, if_neg hi]
        exact hg.held

theorem fdSlotExpand_of_lt (hi : i < s.fds.length) : s.fdSlotExpand c i o = (s, true) := by
  rw [fdSlotExpand, if_pos hi]

/-- The object of the slot `newfd` gives way to `f`. -/
theorem replace_moves (ht : Table c s) (hmem : some f ∈ s.fds)
    (hslot : s.slot newfd = some g) (hne : g ≠ f) (hclose : s.dfsFileClose g o = some (s1, .ok (), acts))
    (hrel : s1.fdRelease newfd = some s2) (hshare : s2.shareSlot newfd.toNat f = some s')
    (he : ∀ fd, e ≠ .fdRelease fd) : Moves c s (e, ⟨code, none, acts⟩) s' := by
  obtain ⟨hpos, hi⟩ := slot_eq_some hslot
  have hmemg : some g ∈ s.fds := List.mem_of_getElem? hi
  obtain ⟨hlast, ⟨hr, -⟩ | ⟨-, hsame, hclosed⟩⟩ := close_slot ht hslot hclose
  · exact absurd rfl hr
  · obtain ⟨hreleased, ht2⟩ := close_release ht hslot hsame hrel
    obtain ⟨hshared, halive⟩ := shareSlot_spec hshare
    have hone := ht.counted.eq_one_iff hi
    have hlt : newfd.toNat < s.fds.length := (List.getElem?_eq_some_iff.1 hi).1
    have hget2 : s2.fds[newfd.toNat]? = some none := by
      rw [hreleased.fds, List.getElem?_set_self hlt]
    have hmem2 : some f ∈ s2.fds := by
      rw [hreleased.fds]
      exact (Slots.mem_drop_of_ne hi (Ne.symm hne)).2 hmem
    have hfds {b : Nat} : some b ∈ s'.fds ↔ some b ∈ s2.fds := by
      rw [hshared.fds, Slots.mem_share hget2]
      constructor
      · rintro (hb | rfl)
        · exact hb
        · exact hmem2
      · exact .inl
    refine moves_close ht (hshared.table ht2 hget2 hmem2) hslot he (hshared.nextFile.trans hreleased.nextFile) ?_ ?_ ?_ ?_ ?_
    · intro b hb
      exact hshared.dead (hreleased.dead (ht.refs_ne hmemg) hb) halive
    · intro b result hact
      obtain ⟨rfl, hcount, hge⟩ := hlast b result hact
      exact ⟨rfl, hcount, fun hneg => absurd (hge rfl) (Int.not_le.2 hneg)⟩
    · intro b
      rw [← hreleased.fds] at hone
      simp only [hclosed, hone, hfds]
    · intro b hb hin
      rw [hfds, hreleased.fds]
      exact (Slots.mem_drop_of_ne hi hb).2 hin
    · intro hnot
      rw [hfds, hreleased.fds] at hnot
      rw [hshared.others g hne, hreleased.refs, if_pos (hone.2 hnot)]

theorem sysDup2_moves (ht : Table c s)
    (h : s.step c (.dup2 oldfd newfd o) = some (s', r)) : Moves c s (.dup2 oldfd newfd o, r) s' := by
  simp only [step, sysDup2] at h
  obtain ⟨y, hy, heq⟩ := Option.map_eq_some_iff.1 h
  cases heq
  cases hold : s.slot oldfd with
  | none =>
    rw [hold] at hy
    cases hy
    exact moves_same ht SameTable.refl (by simp)
  | some f =>
    rw [hold] at hy
    dsimp only at hy
    obtain ⟨-, hi⟩ := slot_eq_some hold
    have hmem : some f ∈ s.fds := List.mem_of_getElem? hi
    split at hy
    · cases hy
      exact moves_same ht SameTable.refl (by simp)
    · rename_i hpos
      have hpos := Int.not_lt.1 hpos
      generalize hx : s.fdSlotExpand c newfd.toNat o = z at hy
      obtain ⟨s1, b⟩ := z
      obtain ⟨hg, hlen, hb⟩ := fdSlotExpand_spec hx
      have ht1 := hg.table ht (hlen ht.length)
      cases b with
      | false =>
        cases hy
        exact moves_grown ht1 hg (by simp)
      | true =>
        rw [if_neg (by simp)] at hy
        have hmem1 : some f ∈ s1.fds := hg.mem.2 hmem
        cases hnew : s1.slot newfd with
        | none =>
          rw [hnew] at hy
          obtain ⟨s2, hshare, rfl⟩ := Option.map_eq_some_iff.1 hy
          obtain ⟨hshared, halive⟩ := shareSlot_spec hshare
          have hget : s1.fds[newfd.toNat]? = some none := by
            have hlt := hb rfl
            rw [slot, if_neg (Int.not_lt.2 hpos), List.getElem?_eq_getElem hlt] at hnew
            rw [List.getElem?_eq_getElem hlt]
            exact congrArg some hnew
          refine moves_quiet (f := 0) (v := 0) (hshared.table ht1 hget hmem1) (.inl rfl) ?_ ?_ ?_ (by simp)
          · exact Nat.le_of_eq (hshared.nextFile.trans hg.nextFile).symm
          · intro g _ hdead
            exact hshared.dead (by rw [hg.refs, hdead]) halive
          · intro g hm
            rw [hshared.fds]
            exact (Slots.mem_share hget).2 (.inl (hg.mem.2 hm))
        | some g =>
          rw [hnew] at hy
          dsimp only at hy
          -- the slot is there already
          have hslot : s.slot newfd = some g := by rw [← hg.slot, hnew]
          obtain ⟨-, hget⟩ := slot_eq_some hslot
          obtain rfl : s = s1 := by
            rw [fdSlotExpand_of_lt (List.getElem?_eq_some_iff.1 hget).1] at hx
            exact (Prod.mk.inj hx).1
          split at hy
          · cases hy
            exact moves_same ht SameTable.refl (by simp)
          · rename_i hne
            cases hclose : s.dfsFileClose g o with
            | none => rw [hclose] at hy; cases hy
            | some w =>
              obtain ⟨s2, r2, acts⟩ := w
              rw [hclose] at hy
              cases r2 with
              | error err =>
                cases hy
                exact refuse_moves ht hslot (by simp) hclose
              | ok _ =>
                obtain ⟨s4, hbind, rfl⟩ := Option.map_eq_some_iff.1 hy
                obtain ⟨s3, hrel, hshare⟩ := Option.bind_eq_some_iff.1 hbind
                exact replace_moves ht hmem hslot hne hclose hrel hshare (by simp)

theorem posixOpen_moves {file : CString} (ht : Table c s) (h : s.posixOpen c file o = some (s', r)) :
    Moves c s (.posixOpen file o, r) s' := by
  rw [posixOpen] at h
  generalize hx : s.fdNew c o = y at h
  obtain ⟨s1, slot⟩ := y
  obtain ⟨ht1, ⟨rfl, hg⟩ | ⟨idx, s0, rfl, -, hg, hget, rfl⟩⟩ := fdNew_spec ht hx
  · cases h
    exact moves_grown ht1 hg (by simp)
  · dsimp only at h
    have hfds {g : Nat} (hm : some g ∈ s.fds) := mem_newFile_setSlot (f := s.nextFile) hg hget hm
    have hdead {g : Nat} (hlt : g < s.nextFile) (hnone : s.refs g = none) : s0.newFile.refs g = none :=
      newFile_dead (by rwa [hg.nextFile]) (by rw [hg.refs, hnone])
    have hnext : s.nextFile ≤ s0.nextFile + 1 := by
      rw [hg.nextFile]
      exact Nat.le_succ _
    cases hopen : (s0.newFile.setSlot idx (some s.nextFile)).dfsFileOpen c s.nextFile file o with
    | none => rw [hopen] at h; cases h
    | some z =>
      obtain ⟨s2, r2⟩ := z
      rw [hopen] at h
      have hsame := dfsFileOpen_same hopen
      have ht2 := hsame.table ht1
      cases r2 with
      | ok v =>
        cases h
        refine moves_quiet ht2 (.inr rfl) ?_ ?_ ?_ (by simp)
        · rw [hsame.nextFile]
          exact hnext
        · intro g hlt hnone
          rw [hsame.refs]
          exact hdead hlt hnone
        · intro g hm
          rw [hsame.fds]
          exact hfds hm
      | error err =>
        obtain ⟨s3, hrel, heq⟩ := Option.map_eq_some_iff.1 h
        cases heq
        have hidx : (s0.newFile.setSlot idx (some s.nextFile)).fds[idx]? = some (some s.nextFile) :=
          List.getElem?_set_self (List.getElem?_eq_some_iff.1 hget).1
        have hslot : s2.slot idx = some s.nextFile := by
          exact held_eq_some.2 (by rw [hsame.fds]; exact hidx)
        have hrel := fdRelease_spec hslot hrel
        have hget2 : s2.fds[(idx : Int).toNat]? = some (some s.nextFile) := (slot_eq_some hslot).2
        refine moves_quiet (f := 0) (v := 0) (hrel.table ht2 hget2) (.inl rfl) ?_ ?_ ?_ (by simp)
        · rw [hrel.nextFile, hsame.nextFile]
          exact hnext
        · intro g hlt hnone
          rw [hrel.others g (Nat.ne_of_lt hlt), hsame.refs]
          exact hdead hlt hnone
        · intro g hm
          rw [hrel.fds]
          refine (Slots.mem_drop_of_ne hget2 (Nat.ne_of_lt (ht.lt hm))).2 ?_
          rw [hsame.fds]
          exact hfds hm

theorem fdRelease_moves (ht : Table c s) (h : s.step c (.fdRelease fd) = some (s', r)) :
    Moves c s (.fdRelease fd, r) s' := by
  obtain ⟨s1, hrel, heq⟩ := Option.map_eq_some_iff.1 h
  cases heq
  have hcloses {t : DfsState} : ClosesLast s (.fdRelease fd, ⟨0, none, []⟩) t :=
    ⟨fun f _ hnot => absurd rfl (hnot fd), fun _ _ => rfl, fun _ _ hact => nomatch hact⟩
  cases hslot : s.slot fd with
  | none =>
    rw [fdRelease, hslot] at hrel
    cases hrel
    exact ⟨ht, Nat.le_refl _, fun _ _ h => h, hcloses, fun _ => .inl rfl⟩
  | some f =>
    obtain ⟨-, hi⟩ := slot_eq_some hslot
    have hrel := fdRelease_spec hslot hrel
    refine ⟨hrel.table ht hi, Nat.le_of_eq hrel.nextFile.symm, ?_, hcloses, fun _ => .inl rfl⟩
    exact fun g _ => hrel.dead (ht.refs_ne (List.mem_of_getElem? hi))

/-! ### Objects of callers -/

/-- A call that uses a new object, which is in no slot and not used afterwards. -/
theorem temporary_moves (ht : Table c s) (hsame : SameTable s.newFile s1)
    (hfds : s'.fds = s1.fds) (hrefs : s'.refs = update s1.refs s.nextFile none)
    (hnext : s'.nextFile = s1.nextFile) (howned : s'.owned = s1.owned)
    (hlast : ∀ g result, .close g result ∈ acts → g = s.nextFile)
    (hclosed : ∀ g, closed g acts = 0 ∨ closed g acts = 1 ∧ g = s.nextFile) (he : ∀ fd, e ≠ .fdRelease fd) :
    Moves c s (e, ⟨code, errno, acts⟩) s' := by
  have hnot := ht.next_not_mem
  have hfds' : s'.fds = s.fds := hfds.trans hsame.fds
  have hdrop := dropFile_table (hsame.table (newFile_table ht)) (f := s.nextFile) (by rw [hsame.fds]; exact hnot)
  refine ⟨?_, ?_, ?_, ⟨?_, fun fd h => absurd h (he fd), ?_⟩, ?_⟩
  · have heq : SameTable (s1.setFile s.nextFile none) s' := by
      refine ⟨hfds, fun f => ?_, hnext, howned⟩
      rw [hrefs, refs_setFile]
      rfl
    exact heq.table hdrop
  · rw [hnext, hsame.nextFile]
    exact Nat.le_succ _
  · intro f hlt hnone
    rw [hrefs, update_of_ne (Nat.ne_of_lt hlt), hsame.refs]
    exact newFile_dead hlt hnone
  · intro f hf _
    rw [hfds', if_pos hf]
    rcases hclosed f with h | ⟨-, rfl⟩
    · exact h
    · exact absurd hf hnot
  · intro g result hact hg
    obtain rfl := hlast g result hact
    exact absurd hg hnot
  · intro g
    rcases hclosed g with h | ⟨h, rfl⟩
    · exact .inl h
    · refine .inr ⟨h, ?_, ?_, fun hlt => absurd hlt (Nat.lt_irrefl _)⟩
      · rw [hnext, hsame.nextFile]
        exact Nat.lt_succ_self _
      · rw [hrefs, update_self]

theorem ownedOpen_moves (ht : Table c s) (h : s.ownedOpen c path o = some (s', r)) :
    Moves c s (.ownedOpen path o, r) s' := by
  simp only [ownedOpen] at h
  cases hopen : s.newFile.dfsFileOpen c s.nextFile path o with
  | none => rw [hopen] at h; cases h
  | some z =>
    obtain ⟨s1, r1⟩ := z
    rw [hopen] at h
    have hsame := dfsFileOpen_same hopen
    cases r1 with
    | error err =>
      cases h
      exact temporary_moves ht hsame rfl refs_setFile rfl rfl (fun _ _ hact => nomatch hact) (fun _ => .inl rfl) (by simp)
    | ok v =>
      cases h
      have ht1 := hsame.table (newFile_table ht)
      have hnot := ht.next_not_mem
      refine moves_quiet ⟨ht1.length, ht1.counted, ht1.fresh, ?_⟩ (.inr rfl) ?_ ?_ ?_ (by simp)
      · intro f hf
        rcases List.mem_cons.1 hf with rfl | hf
        · refine ⟨?_, ?_⟩
          · rw [hsame.fds]
            exact hnot
          · rw [hsame.nextFile]
            exact Nat.lt_succ_self _
        · exact ht1.owned f hf
      · rw [hsame.nextFile]
        exact Nat.le_succ _
      · intro f hlt hnone
        change s1.refs f = none
        rw [hsame.refs]
        exact newFile_dead hlt hnone
      · intro f hf
        rw [hsame.fds]
        exact hf

theorem ownedClose_moves (ht : Table c s) (h : s.ownedClose f o = some (s', r)) : Moves c s (.ownedClose f o, r) s' := by
  rw [ownedClose] at h
  obtain ⟨hf, h⟩ := Option.ite_none_right_eq_some.1 h
  obtain ⟨hnot, hlt⟩ := ht.owned f hf
  cases hclose : s.dfsFileClose f o with
  | none => rw [hclose] at h; cases h
  | some z =>
    obtain ⟨s1, r1, acts⟩ := z
    rw [hclose] at h
    obtain ⟨hsame, hcases⟩ := dfsFileClose_same hclose
    have hclosed : ∀ g, closed g acts = 0 ∨ closed g acts = 1 ∧ g = f ∧ s.refs f ≠ none ∧ r1 = .ok () := by
      intro g
      rcases hcases with ⟨-, rfl, -⟩ | ⟨hone, result, rfl, hr⟩
      · exact .inl rfl
      · rw [closed_close]
        split
        · rename_i hg
          refine .inr ⟨rfl, hg.1.symm, by rw [hone]; exact Option.some_ne_none _, ?_⟩
          rcases hr with ⟨-, hr⟩ | ⟨hneg, -⟩
          · exact hr
          · exact absurd hg.2 (Int.not_le.2 hneg)
        · exact .inl rfl
    have hlast : ∀ g result, .close g result ∈ acts → g = f := by
      intro g result hact
      rcases hcases with ⟨-, rfl, -⟩ | ⟨-, result', rfl, -⟩
      · cases hact
      · exact (FileAct.close.inj (List.mem_singleton.1 hact)).1
    have hzero : ∀ g, some g ∈ s.fds → closed g acts = 0 := by
      intro g hg
      rcases hclosed g with h | ⟨-, rfl, -⟩
      · exact h
      · exact absurd hg hnot
    cases r1 with
    | error err =>
      cases h
      refine ⟨hsame.table ht, Nat.le_of_eq hsame.nextFile.symm, ?_, ⟨?_, (fun fd h => nomatch h), ?_⟩, ?_⟩
      · intro g _ hnone
        rw [hsame.refs, hnone]
      · intro g hg _
        rw [hsame.fds, if_pos hg]
        exact hzero g hg
      · intro g result hact hg
        obtain rfl := hlast g result hact
        exact absurd hg hnot
      · intro g
        rcases hclosed g with h | ⟨-, -, -, hok⟩
        · exact .inl h
        · cases hok
    | ok _ =>
      cases h
      have hdrop := dropFile_table (hsame.table ht) (f := f) (by rw [hsame.fds]; exact hnot)
      have hrefs {g : Nat} : DfsState.refs { s1.setFile f none with owned := s1.owned.erase f } g =
          update s1.refs f none g := by
        change (s1.setFile f none).refs g = _
        rw [refs_setFile]
        rfl
      refine ⟨⟨hdrop.length, hdrop.counted, hdrop.fresh, ?_⟩, Nat.le_of_eq hsame.nextFile.symm, ?_,
        ⟨?_, (fun fd h => nomatch h), ?_⟩, ?_⟩
      · intro g hg
        exact hdrop.owned g (List.mem_of_mem_erase hg)
      · intro g _ hnone
        rw [hrefs]
        by_cases hg : g = f
        · rw [hg, update_self]
        · rw [update_of_ne hg, hsame.refs, hnone]
      · intro g hg _
        have hin : some g ∈ s1.fds := by rw [hsame.fds]; exact hg
        exact (hzero g hg).trans (if_pos hin).symm
      · intro g result hact hg
        obtain rfl := hlast g result hact
        exact absurd hg hnot
      · intro g
        rcases hclosed g with hnot' | ⟨hcount, rfl, halive, -⟩
        · exact .inl hnot'
        · refine .inr ⟨hcount, ?_, ?_, fun _ => halive⟩
          · rw [show DfsState.nextFile { s1.setFile g none with owned := s1.owned.erase g } = s.nextFile from hsame.nextFile]
            exact hlt
          · rw [hrefs, update_self]

/-- `dfs_mount` opens and closes an object of its own. -/
theorem checkDirectory_moves {err : Option DfsErrno} (ht : Table c s)
    (h : s.checkDirectory c fullpath o = some (s1, err, acts)) (hsame : SameTable s1 s') (he : ∀ fd, e ≠ .fdRelease fd) :
    Moves c s (e, ⟨code, errno, acts⟩) s' := by
  simp only [checkDirectory] at h
  split at h
  · obtain ⟨rfl, h'⟩ := Prod.mk.inj (Option.some.inj h)
    cases h'
    exact moves_same ht hsame he
  · cases hopen : s.newFile.dfsFileOpen c s.nextFile fullpath o with
    | none => rw [hopen] at h; cases h
    | some z =>
      obtain ⟨s2, r2⟩ := z
      rw [hopen] at h
      have hsame2 := dfsFileOpen_same hopen
      cases r2 with
      | error _ =>
        obtain ⟨rfl, h'⟩ := Prod.mk.inj (Option.some.inj h)
        cases h'
        refine temporary_moves ht hsame2 hsame.fds ?_ hsame.nextFile hsame.owned (fun _ _ hact => nomatch hact)
          (fun _ => .inl rfl) he
        funext g
        rw [hsame.refs, refs_setFile]
        rfl
      | ok v =>
        dsimp only at h
        cases hclose : s2.dfsFileClose s.nextFile o with
        | none => rw [hclose] at h; cases h
        | some w =>
          obtain ⟨s3, r3, acts3⟩ := w
          rw [hclose] at h
          obtain ⟨rfl, h'⟩ := Prod.mk.inj (Option.some.inj h)
          cases h'
          obtain ⟨hsame3, hcases⟩ := dfsFileClose_same hclose
          refine temporary_moves ht (hsame2.trans hsame3) hsame.fds ?_ hsame.nextFile hsame.owned ?_ ?_ he
          · funext g
            rw [hsame.refs, refs_setFile]
            rfl
          · intro g result hact
            rcases List.mem_cons.1 hact with hact | hact
            · cases hact
            · rcases hcases with ⟨-, rfl, -⟩ | ⟨-, result', rfl, -⟩
              · cases hact
              · exact (FileAct.close.inj (List.mem_singleton.1 hact)).1
          · intro g
            rw [closed_opened]
            rcases hcases with ⟨-, rfl, -⟩ | ⟨-, result', rfl, -⟩
            · exact .inl rfl
            · rw [closed_close]
              split
              · rename_i hg
                exact .inr ⟨rfl, hg.1.symm⟩
              · exact .inl rfl

theorem register_same {ops : DfsFilesystemOps} : SameTable s (s.register i fullpath ops m).1 := by
  simp only [register]
  split
  · exact ⟨rfl, fun _ => rfl, rfl, rfl⟩
  · exact ⟨rfl, fun _ => rfl, rfl, rfl⟩

theorem dfsMount_moves {filesystemtype : CString} (ht : Table c s)
    (h : s.dfsMount c path filesystemtype m = some (s', r)) : Moves c s (.mount path filesystemtype m, r) s' := by
  rw [dfsMount] at h
  split at h
  · cases h
    exact moves_same ht SameTable.refl (by simp)
  · split at h
    · cases h
      exact moves_same ht SameTable.refl (by simp)
    · split at h
      · cases h
        exact moves_same ht SameTable.refl (by simp)
      · split at h
        · cases h
        · split at h
          · cases h
            exact moves_same ht SameTable.refl (by simp)
          · split at h
            · cases h
            · rename_i hcheck
              cases h
              exact checkDirectory_moves ht hcheck SameTable.refl (by simp)
            · rename_i hcheck
              split at h
              · cases h
              · cases h
                exact checkDirectory_moves ht hcheck SameTable.refl (by simp)
              · cases h
                exact checkDirectory_moves ht hcheck SameTable.refl (by simp)
              · cases h
                exact checkDirectory_moves ht hcheck register_same (by simp)

theorem dfsUnmount_moves {specialfile : CString} {pathMalloc : Bool} {fopsUnmount : Int} (ht : Table c s)
    (h : s.dfsUnmount c specialfile pathMalloc fopsUnmount = some (s', r)) :
    Moves c s (.unmount specialfile pathMalloc fopsUnmount, r) s' := by
  rw [dfsUnmount] at h
  split at h
  · cases h
  · split at h
    · cases h
      exact moves_same ht SameTable.refl (by simp)
    · split at h
      · cases h
        exact moves_same ht SameTable.refl (by simp)
      · split at h
        · cases h
        · split at h
          · cases h
            exact moves_same ht SameTable.refl (by simp)
          · cases h
            exact moves_same ht ⟨rfl, fun _ => rfl, rfl, rfl⟩ (by simp)

/-! ## Runs -/

theorem step_moves (ht : Table c s) (h : Step c s x s') : Moves c s x s' := by
  obtain ⟨e, r⟩ := x
  cases e with
  | fdNew o => exact (fdNew_moves ht h).1
  | fdRelease fd => exact fdRelease_moves ht h
  | dup oldfd o => exact (sysDup_moves ht h).1
  | dup2 oldfd newfd o => exact sysDup2_moves ht h
  | posixOpen file o => exact posixOpen_moves ht h
  | posixClose fd o => exact posixClose_moves ht h
  | ownedOpen path o => exact ownedOpen_moves ht h
  | ownedClose f o => exact ownedClose_moves ht h
  | mount path filesystemtype m => exact dfsMount_moves ht h
  | unmount specialfile pathMalloc fopsUnmount => exact dfsUnmount_moves ht h

theorem table_initial : Table c (initial n) where
  length := Nat.zero_le _
  counted _ hf := nomatch hf
  fresh _ _ := rfl
  owned _ hf := nomatch hf

/-- What has been done to objects in a run. -/
def actsOf (ls : List (DfsEv × DfsRet)) : List FileAct := ls.flatMap fun x => x.2.acts

theorem closed_append {acts' : List FileAct} : closed f (acts ++ acts') = closed f acts + closed f acts' :=
  List.countP_append

/-- An object that has been closed has been closed once, and is not used any more. -/
def ClosedOnce (ls : List (DfsEv × DfsRet)) (s : DfsState) : Prop :=
  ∀ f, closed f (actsOf ls) = 0 ∨ closed f (actsOf ls) = 1 ∧ f < s.nextFile ∧ s.refs f = none

theorem closedOnce_step {ls : List (DfsEv × DfsRet)} (hls : ClosedOnce ls s) (h : Moves c s x s') :
    ClosedOnce (ls ++ [x]) s' := by
  intro f
  have happ : closed f (actsOf (ls ++ [x])) = closed f (actsOf ls) + closed f x.2.acts := by
    rw [actsOf, List.flatMap_append, closed_append, List.flatMap_singleton]
    rfl
  rw [happ]
  rcases hls f with hzero | ⟨hone, hlt, hdead⟩
  · rw [hzero, Nat.zero_add]
    rcases h.once f with hx | ⟨hx, hlt, hdead, -⟩
    · exact .inl hx
    · exact .inr ⟨hx, hlt, hdead⟩
  · rcases h.once f with hx | ⟨-, -, -, halive⟩
    · exact .inr ⟨by rw [hone, hx], Nat.lt_of_lt_of_le hlt h.next, h.dead f hlt hdead⟩
    · exact absurd hdead (halive hlt)

/-- In every run the table has `DFS_FD_MAX` slots at most, and the objects in them are live and counted. The next call of
`fd_new` or `dup` takes the lowest free slot or changes no slot, and the next call of any kind closes the objects whose last
slot it takes, unless it is `fd_release`, and no others that have slots; each object has been closed once at most, and is in
no slot then. -/
theorem fd_table {ls : List (DfsEv × DfsRet)} (hr : Runs.Run (Step c) (initial n) ls s) :
    s.fds.length ≤ c.dfsFdMax ∧
    (∀ i f : Nat, s.fds[i]? = some (some f) → ∃ d, s.file f = some d ∧ d.refCount = s.fds.count (some f)) ∧
    (∀ x s', Step c s x s' → (∀ o oldfd, x.1 = .fdNew o ∨ x.1 = .dup oldfd o → ∃ f, Lowest s x.2.code s' f) ∧
      ClosesLast s x s') ∧
    ∀ f, closed f (actsOf ls) ≤ 1 ∧ (closed f (actsOf ls) = 1 → some f ∉ s.fds) := by
  obtain ⟨ht, honce⟩ : Table c s ∧ ClosedOnce ls s := by
    refine hr.history (I := fun ls s => Table c s ∧ ClosedOnce ls s) ⟨table_initial, fun _ => .inl rfl⟩ ?_
    rintro ls s x s' ⟨ht, hls⟩ hs
    have hm := step_moves ht hs
    exact ⟨hm.table, closedOnce_step hls hm⟩
  refine ⟨ht.length, ?_, ?_, ?_⟩
  · intro i f hi
    have hrefs := ht.counted f (List.mem_of_getElem? hi)
    obtain ⟨d, hd, hcount⟩ := Option.map_eq_some_iff.1 hrefs
    exact ⟨d, hd, hcount⟩
  · intro x s' hs
    refine ⟨?_, (step_moves ht hs).closes⟩
    obtain ⟨e, r⟩ := x
    rintro o oldfd (he | he)
    · obtain rfl : e = .fdNew o := he
      exact (fdNew_moves ht hs).2
    · obtain rfl : e = .dup oldfd o := he
      exact (sysDup_moves ht hs).2
  · intro f
    rcases honce f with hzero | ⟨hone, -, hdead⟩
    · rw [hzero]
      exact ⟨Nat.zero_le _, nofun⟩
    · refine ⟨Nat.le_of_eq hone, fun _ hm => ?_⟩
      rw [ht.counted f hm] at hdead
      cases hdead

/-- A configuration with one kind of filesystem. -/
def testConfig : DfsConfig where
  dfsFdMax := 16
  filesystemOperationTable := [some dfsTestOps]
  workingDirectory := ⟨['/'], nul_not_mem_root⟩
  rooted := rfl

/-- Memory is given, and the open and close routines return these results. -/
def testOutside (fopsOpen fopsClose : Int) : Outside := ⟨true, true, true, true, true, fopsOpen, fopsClose⟩

def rootPath : CString := ⟨['/'], nul_not_mem_root⟩

def filePath : CString := ⟨['/', 'a'], by decide⟩

/-- The root is mounted. -/
def mountRoot : DfsEv × DfsRet :=
  (.mount rootPath ⟨['t'], nul_not_mem_t⟩ ⟨false, none, true, 0, testOutside 0 0⟩, ⟨0, none, []⟩)

/-- A file is opened, and the first `close` is refused. -/
def refusedClose : List (DfsEv × DfsRet) :=
  [mountRoot, (.posixOpen filePath (testOutside 0 0), ⟨3, none, [.opened 0 0]⟩),
    (.posixClose 3 (testOutside 0 (-5)), ⟨-1, some (.routine (-5)), [.close 0 (-5)]⟩),
    (.posixClose 3 (testOutside 0 0), ⟨0, none, [.close 0 0]⟩)]

/-- A file is opened, and its slot is released. -/
def releasedOpen : List (DfsEv × DfsRet) :=
  [mountRoot, (.posixOpen filePath (testOutside 0 0), ⟨3, none, [.opened 0 0]⟩), (.fdRelease 3, ⟨0, none, []⟩)]

theorem fd_table_refused : ∃ s, Runs.Run (Step testConfig) (initial 4) refusedClose s ∧ s.fds.length ≤ 16 ∧
    closed 0 (actsOf refusedClose) ≤ 1 := by
  obtain ⟨s, hs⟩ : ∃ s, Runs.exec (step testConfig) (initial 4) (refusedClose.map Prod.fst) = some (s, refusedClose) :=
    ⟨_, rfl⟩
  have hr : Runs.Run (Step testConfig) (initial 4) refusedClose s :=
    Runs.Run.of_exec (fun _ _ _ _ h (_ : True) => h) hs fun _ _ => trivial
  exact ⟨s, hr, (fd_table hr).1, ((fd_table hr).2.2.2 0).1⟩

/-- The close routine is called for an object once more than it is closed, and not at all when `fd_release` takes its last
slot. -/
theorem fd_close_counts :
    (∃ s, Runs.Run (Step testConfig) (initial 4) refusedClose s ∧
      (actsOf refusedClose).filter (fun act => act matches .close 0 _) = [.close 0 (-5), .close 0 0]) ∧
    ∃ s s', Runs.Run (Step testConfig) (initial 4) (releasedOpen.take 2) s ∧ some 0 ∈ s.fds ∧
      Step testConfig s (.fdRelease 3, ⟨0, none, []⟩) s' ∧ some 0 ∉ s'.fds ∧ actsOf releasedOpen = [.opened 0 0] := by
  constructor
  · obtain ⟨s, hs⟩ : ∃ s, Runs.exec (step testConfig) (initial 4) (refusedClose.map Prod.fst) = some (s, refusedClose) :=
      ⟨_, rfl⟩
    exact ⟨s, Runs.Run.of_exec (fun _ _ _ _ h (_ : True) => h) hs fun _ _ => trivial, rfl⟩
  · obtain ⟨s, s', hs, hmem, hstep, hnot⟩ : ∃ s s',
        Runs.exec (step testConfig) (initial 4) ((releasedOpen.take 2).map Prod.fst) = some (s, releasedOpen.take 2) ∧
        some 0 ∈ s.fds ∧ Step testConfig s (.fdRelease 3, ⟨0, none, []⟩) s' ∧ some 0 ∉ s'.fds := by
      refine ⟨_, _, rfl, ?_, rfl, ?_⟩ <;> decide
    exact ⟨s, s', Runs.Run.of_exec (fun _ _ _ _ h (_ : True) => h) hs fun _ _ => trivial, hmem, hstep, hnot, rfl⟩

end RtThread.DfsState
