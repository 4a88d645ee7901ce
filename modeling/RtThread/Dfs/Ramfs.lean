import RtThread.Dfs.Path
import RtThread.Lib.Runs
import Mathlib.Data.List.Nodup
import Mathlib.Logic.Function.Basic

/-!
# The names of a ramfs

`dfs_ramfs_lookup`, `dfs_ramfs_open`, `dfs_ramfs_close`, `dfs_ramfs_unlink` and `dfs_ramfs_rename` of `dfs_ramfs.c`, as the
functions of `dfs_file.c` call them, for the files in the root directory. The lookup is a map from names to files in the runs
in which no new name is too long and no file is renamed, and a file can be opened again while it is open if it existed when
it was opened; in no other runs (`ramfs_namespace`).
-/

namespace RtThread

open Function (update update_apply update_of_ne update_self)

/-- `RAMFS_NAME_MAX` -/
def ramfsNameMax : Nat := 32

/-- A name of a file, of any length; its path is `/` and the name. -/
@[ext] structure RamName where
  chars : List Char
  ne_nil : chars ≠ []
  slash_not_mem : '/' ∉ chars
  nul_not_mem : nul ∉ chars

instance : DecidableEq RamName := fun _ _ => decidable_of_iff _ RamName.ext_iff.symm

def RamName.path (name : RamName) : List Char := '/' :: name.chars

/-- `struct ramfs_dirent`: the entry, and its `name`, which is an array. -/
structure RamDirent where
  file : Nat
  name : List Char
deriving DecidableEq, Repr

/-- The vnode of an open path; `directory` is the type `FT_DIRECTORY`, else it is `FT_REGULAR`. -/
structure RamVnode where
  refCount : Nat
  directory : Bool
  data : Nat
deriving DecidableEq, Repr

/-- The entries of the root directory, the number of the next entry that is allocated, and the vnodes of the open paths. -/
structure RamfsState where
  dirents : List RamDirent
  next : Nat
  vnode : RamName → Option RamVnode

/-- The flags `O_DIRECTORY`, `O_CREAT` and `O_WRONLY` of an open. -/
structure RamFlags where
  directory : Bool
  creat : Bool
  wronly : Bool
deriving DecidableEq, Repr

inductive RamErrno
  | enoent
  | enospc
  | enomem
  | ebusy
  | eexist
deriving DecidableEq, Repr

inductive RamfsEv
  | open (name : RamName) (flags : RamFlags) (alloc : Bool)
  | close (name : RamName)
  | unlink (name : RamName)
  | rename (oldname newname : RamName)
deriving DecidableEq

/-- The result of a call, and for an open the entry that is opened. -/
inductive RamfsRet
  | error (errno : RamErrno)
  | opened (file : Nat)
  | ok
deriving DecidableEq, Repr

/-- `rt_strcmp` of an array with a string, to its end or to the first difference: nothing if it leaves the array. -/
def strcmpArray : List Char → List Char → Option Bool
  | [], _ => none
  | c :: cs, ds =>
    match ds with
    | [] => some (decide (c = nul))
    | d :: ds => if c = d then strcmpArray cs ds else some false

/-- `strncpy` into an array of `n` characters. -/
def strncpyArray (n : Nat) (chars : List Char) : List Char := (chars ++ List.replicate n nul).take n

/-- The loop of `dfs_ramfs_lookup` over the entries. -/
def lookupDirent (subpath : List Char) : List RamDirent → Option (Option Nat)
  | [] => some none
  | dirent :: dirents =>
    match strcmpArray dirent.name subpath with
    | none => none
    | some true => some (some dirent.file)
    | some false => lookupDirent subpath dirents

namespace RamfsState

/-- `dfs_ramfs_lookup`, for a path that is not the root directory. -/
def dfsRamfsLookup (s : RamfsState) (path : List Char) : Option (Option Nat) :=
  lookupDirent (path.dropWhile (· = '/')) s.dirents

def setVnode (s : RamfsState) (name : RamName) (v : Option RamVnode) : RamfsState :=
  { s with vnode := update s.vnode name v }

/-- A new entry, which is put at the head of the list. -/
def newDirent (s : RamfsState) (path : List Char) : RamfsState :=
  { s with
    dirents := ⟨s.next, strncpyArray ramfsNameMax (path.dropWhile (· = '/'))⟩ :: s.dirents
    next := s.next + 1 }

/-- `dfs_ramfs_open`, for a path that is not open. -/
def openFirst (s : RamfsState) (name : RamName) (flags : RamFlags) (alloc : Bool) : Option (RamfsState × RamfsRet) :=
  if flags.directory ∧ flags.creat then some (s, .error .enospc)
  else
    match s.dfsRamfsLookup name.path with
    | none => none
    | some (some f) => some (s.setVnode name (some ⟨1, flags.directory, f⟩), .opened f)
    | some none =>
      if flags.directory = true ∨ flags.creat = false ∧ flags.wronly = false then some (s, .error .enoent)
      else if alloc = false then some (s, .error .enomem)
      -- the type of the vnode of a new file
      else some ((s.newDirent name.path).setVnode name (some ⟨1, true, s.next⟩), .opened s.next)

/-- `dfs_ramfs_open`, and the end of `dfs_file_open`. -/
def dfsRamfsOpen (s : RamfsState) (name : RamName) (flags : RamFlags) (alloc : Bool) : Option (RamfsState × RamfsRet) :=
  match s.vnode name with
  | some v =>
    if v.directory = true ∧ flags.directory = false then some (s, .error .enoent)
    else some (s.setVnode name (some ⟨v.refCount + 1, v.directory || flags.directory, v.data⟩), .opened v.data)
  | none => s.openFirst name flags alloc

/-- `dfs_ramfs_close`, and the end of `dfs_file_close`. -/
def dfsRamfsClose (s : RamfsState) (name : RamName) : Option (RamfsState × RamfsRet) :=
  match s.vnode name with
  | none => none
  | some v =>
    some (s.setVnode name (if v.refCount = 1 then none else some { v with refCount := v.refCount - 1 }), .ok)

/-- `rt_list_remove(&(dirent->list));`, and the entry is freed. -/
def removeDirent (s : RamfsState) (f : Nat) : RamfsState :=
  { s with dirents := s.dirents.eraseP fun dirent => dirent.file = f }

/-- `dfs_file_unlink`, with `dfs_ramfs_unlink`. -/
def dfsRamfsUnlink (s : RamfsState) (name : RamName) : Option (RamfsState × RamfsRet) :=
  if (s.vnode name).isSome then some (s, .error .ebusy)
  else
    match s.dfsRamfsLookup name.path with
    | none => none
    | some none => some (s, .error .enoent)
    | some (some f) => some (s.removeDirent f, .ok)

/-- `strncpy(dirent->name, newpath, RAMFS_NAME_MAX);` -/
def renameDirent (s : RamfsState) (f : Nat) (path : List Char) : RamfsState :=
  { s with dirents := s.dirents.map fun dirent =>
      if dirent.file = f then { dirent with name := strncpyArray ramfsNameMax path } else dirent }

/-- `dfs_file_rename`, with `dfs_ramfs_rename`. -/
def dfsRamfsRename (s : RamfsState) (oldname newname : RamName) : Option (RamfsState × RamfsRet) :=
  if (s.vnode oldname).isSome then some (s, .error .ebusy)
  else
    match s.dfsRamfsLookup newname.path, s.dfsRamfsLookup oldname.path with
    | none, _ => none
    | some (some _), _ => some (s, .error .eexist)
    | some none, none => none
    | some none, some none => some (s, .error .enoent)
    | some none, some (some f) => some (s.renameDirent f newname.path, .ok)

def step (s : RamfsState) : RamfsEv → Option (RamfsState × RamfsRet)
  | .open name flags alloc => s.dfsRamfsOpen name flags alloc
  | .close name => s.dfsRamfsClose name
  | .unlink name => s.dfsRamfsUnlink name
  | .rename oldname newname => s.dfsRamfsRename oldname newname

/-- After `dfs_ramfs_create`. -/
def initial : RamfsState := ⟨[], 0, fun _ => none⟩

def Step (s : RamfsState) (x : RamfsEv × RamfsRet) (s' : RamfsState) : Prop := s.step x.1 = some (s', x.2)

/-! ## The map from names to files -/

/-- What a call does to the map. -/
def renamed (m : RamName → Option Nat) : RamfsEv × RamfsRet → RamName → Option Nat
  | (.open name _ _, .opened f) => update m name (some f)
  | (.unlink name, .ok) => update m name none
  | (.rename oldname newname, .ok) => update (update m newname (m oldname)) oldname none
  | _ => m

/-- The files that have been created or found under a name, and not been unlinked or renamed since. -/
def namespaceOf (ls : List (RamfsEv × RamfsRet)) : RamName → Option Nat := ls.foldl renamed fun _ => none

/-- How often a path is open. -/
def counted (n : RamName → Nat) : RamfsEv × RamfsRet → RamName → Nat
  | (.open name _ _, .opened _) => update n name (n name + 1)
  | (.close name, .ok) => update n name (n name - 1)
  | _ => n

def openCount (ls : List (RamfsEv × RamfsRet)) : RamName → Nat := ls.foldl counted fun _ => 0

/-- If the last call opens a path that is open, without `O_DIRECTORY`, it does so. -/
def Reopens (ls : List (RamfsEv × RamfsRet)) : Prop :=
  ∀ pre name flags alloc r, ls = pre ++ [(.open name flags alloc, r)] → flags.directory = false → 0 < openCount pre name →
    ∃ f, r = .opened f

/-- The lookup is the map, no two entries have the same name, and files are opened again. -/
structure Mapped (ls : List (RamfsEv × RamfsRet)) (s : RamfsState) : Prop where
  lookup : ∀ name : RamName, s.dfsRamfsLookup name.path = some (namespaceOf ls name)
  distinct : (s.dirents.map RamDirent.name).Nodup
  reopens : Reopens ls

/-- A new file has a name that fits with its end, an open path is opened again without `O_DIRECTORY` if no open of it since it
was not open has created the file or had `O_DIRECTORY`, and no file is renamed. -/
def Fitting (s : RamfsState) : RamfsEv → Prop
  | .open name flags alloc =>
    (s.vnode name = none → s.dfsRamfsLookup name.path = some none → flags.directory = false →
      (flags.creat = true ∨ flags.wronly = true) → alloc = true → name.chars.length < ramfsNameMax) ∧
    ∀ v, s.vnode name = some v → flags.directory = false → v.directory = false
  | .rename oldname newname =>
    s.vnode oldname = none → s.dfsRamfsLookup newname.path = some none → s.dfsRamfsLookup oldname.path = some none
  | _ => True

variable {s s' : RamfsState} {ls : List (RamfsEv × RamfsRet)} {x : RamfsEv × RamfsRet} {name name' oldname newname : RamName}
  {chars text : List Char} {dirents : List RamDirent} {dirent : RamDirent} {f n : Nat} {flags : RamFlags} {alloc : Bool}
  {r : RamfsRet} {v : RamVnode}

/-! ### Names in arrays -/

theorem strncpyArray_of_lt (h : text.length ≤ n) : strncpyArray n text = text ++ List.replicate (n - text.length) nul := by
  rw [strncpyArray, List.take_append, List.take_of_length_le h, List.take_replicate, Nat.min_eq_left (by omega)]

theorem strncpyArray_of_le (h : n ≤ text.length) : strncpyArray n text = text.take n := by
  rw [strncpyArray, List.take_append_of_le_length h]

/-- A name that ends in its array. -/
theorem strcmpArray_append (htext : nul ∉ text) (hchars : nul ∉ chars) :
    strcmpArray (text ++ List.replicate (n + 1) nul) chars = some (decide (text = chars)) := by
  induction text generalizing chars with
  | nil =>
    cases chars with
    | nil => rfl
    | cons d ds =>
      have hd : nul ≠ d := fun h => hchars (h ▸ List.mem_cons_self)
      simp only [List.nil_append, List.replicate_succ, strcmpArray, if_neg hd]
      rfl
  | cons c cs ih =>
    rw [List.mem_cons, not_or] at htext
    cases chars with
    | nil =>
      simp only [List.cons_append, strcmpArray, Ne.symm htext.1]
      rfl
    | cons d ds =>
      rw [List.mem_cons, not_or] at hchars
      simp only [List.cons_append, strcmpArray]
      by_cases hcd : c = d
      · rw [if_pos hcd, ih htext.2 hchars.2]
        simp [hcd]
      · simp [hcd]

/-- The comparison leaves the array. -/
theorem strcmpArray_take (h : n ≤ chars.length) : strcmpArray (chars.take n) chars = none := by
  induction chars generalizing n with
  | nil =>
    obtain rfl : n = 0 := Nat.le_zero.1 h
    rfl
  | cons c cs ih =>
    cases n with
    | zero => rfl
    | succ n =>
      rw [List.take_succ_cons, strcmpArray, if_pos rfl]
      exact ih (Nat.succ_le_succ_iff.1 h)

/-- The entry has the name, which ends in the array. -/
def Has (dirent : RamDirent) (chars : List Char) : Prop :=
  dirent.name = strncpyArray ramfsNameMax chars ∧ chars.length < ramfsNameMax

/-- The name of the entry ends in its array. -/
def Named (dirent : RamDirent) : Prop := ∃ text, nul ∉ text ∧ Has dirent text

theorem strncpyArray_inj (htext : nul ∉ text) (hchars : nul ∉ chars) (hlt : text.length < n) (hlt' : chars.length < n)
    (h : strncpyArray n text = strncpyArray n chars) : text = chars := by
  have heq := strcmpArray_append (n := n - text.length - 1) htext hchars
  have heq' := strcmpArray_append (n := n - chars.length - 1) hchars hchars
  rw [show n - text.length - 1 + 1 = n - text.length by omega, ← strncpyArray_of_lt (Nat.le_of_lt hlt)] at heq
  rw [show n - chars.length - 1 + 1 = n - chars.length by omega, ← strncpyArray_of_lt (Nat.le_of_lt hlt'), ← h, heq] at heq'
  simpa using heq'

theorem Named.strcmp (h : Named dirent) (hchars : nul ∉ chars) :
    ∃ b, strcmpArray dirent.name chars = some b ∧ (b = true ↔ Has dirent chars) := by
  obtain ⟨text, htext, hname, hlt⟩ := h
  have hcmp := strcmpArray_append (n := ramfsNameMax - text.length - 1) htext hchars
  rw [show ramfsNameMax - text.length - 1 + 1 = ramfsNameMax - text.length by omega,
    ← strncpyArray_of_lt (Nat.le_of_lt hlt), ← hname] at hcmp
  refine ⟨_, hcmp, ?_⟩
  rw [decide_eq_true_iff]
  constructor
  · rintro rfl
    exact ⟨hname, hlt⟩
  · rintro ⟨hname', hlt'⟩
    exact strncpyArray_inj htext hchars hlt hlt' (hname.symm.trans hname')

/-- What the loop of the lookup finds. -/
theorem lookupDirent_cases (hnamed : ∀ dirent ∈ dirents, Named dirent) (hchars : nul ∉ chars) :
    (lookupDirent chars dirents = some none ∧ ∀ dirent ∈ dirents, ¬Has dirent chars) ∨
      ∃ dirent ∈ dirents, lookupDirent chars dirents = some (some dirent.file) ∧ Has dirent chars := by
  induction dirents with
  | nil => exact .inl ⟨rfl, fun _ h => nomatch h⟩
  | cons dirent dirents ih =>
    obtain ⟨b, hcmp, hb⟩ := (hnamed dirent List.mem_cons_self).strcmp hchars
    cases b with
    | true => exact .inr ⟨dirent, List.mem_cons_self, by simp only [lookupDirent, hcmp], hb.1 rfl⟩
    | false =>
      have heq : lookupDirent chars (dirent :: dirents) = lookupDirent chars dirents := by simp only [lookupDirent, hcmp]
      rw [heq]
      rcases ih fun d hd => hnamed d (List.mem_cons_of_mem _ hd) with ⟨hnone, hnot⟩ | ⟨d, hd, hsome, hhas⟩
      · refine .inl ⟨hnone, ?_⟩
        intro d hd
        rcases List.mem_cons.1 hd with rfl | hd
        · exact fun h => nomatch hb.2 h
        · exact hnot d hd
      · exact .inr ⟨d, List.mem_cons_of_mem _ hd, hsome, hhas⟩

theorem lookupDirent_eq_some (h : lookupDirent chars dirents = some (some f)) :
    ∃ dirent ∈ dirents, dirent.file = f ∧ strcmpArray dirent.name chars = some true := by
  induction dirents with
  | nil => cases h
  | cons dirent dirents ih =>
    rw [lookupDirent] at h
    split at h
    · cases h
    · rename_i hcmp
      exact ⟨dirent, List.mem_cons_self, Option.some.inj (Option.some.inj h), hcmp⟩
    · obtain ⟨d, hd, hfile, hcmp⟩ := ih h
      exact ⟨d, List.mem_cons_of_mem _ hd, hfile, hcmp⟩

theorem dropWhile_path : name.path.dropWhile (fun c => decide (c = '/')) = name.chars := by
  obtain ⟨c, cs, hcs⟩ := List.exists_cons_of_ne_nil name.ne_nil
  have hc : c ≠ '/' := by
    rintro rfl
    exact name.slash_not_mem (hcs ▸ List.mem_cons_self)
  rw [RamName.path, List.dropWhile_cons, if_pos (by simp), hcs, List.dropWhile_cons, if_neg (by simpa using hc)]

/-! ### The invariant -/

/-- The entries are the map `m`, and the vnodes are open as often as `n` says, on the files of their paths. -/
structure Sound (m : RamName → Option Nat) (n : RamName → Nat) (s : RamfsState) : Prop where
  named : ∀ dirent ∈ s.dirents, Named dirent
  files : (s.dirents.map RamDirent.file).Nodup
  fresh : ∀ dirent ∈ s.dirents, dirent.file < s.next
  distinct : (s.dirents.map RamDirent.name).Nodup
  maps : ∀ name : RamName, ∀ f, m name = some f ↔ ∃ dirent ∈ s.dirents, dirent.file = f ∧ Has dirent name.chars
  count : ∀ name v, s.vnode name = some v → n name = v.refCount ∧ 0 < v.refCount
  closed : ∀ name, s.vnode name = none → n name = 0
  data : ∀ name v, s.vnode name = some v → m name = some v.data

variable {m : RamName → Option Nat} {c : RamName → Nat}

theorem Sound.lookup (h : Sound m c s) (name : RamName) : s.dfsRamfsLookup name.path = some (m name) := by
  rw [dfsRamfsLookup, dropWhile_path]
  rcases lookupDirent_cases h.named name.nul_not_mem with ⟨hnone, hnot⟩ | ⟨dirent, hmem, hsome, hhas⟩
  · rw [hnone]
    congr 1
    symm
    rw [Option.eq_none_iff_forall_ne_some]
    intro f hf
    obtain ⟨dirent, hmem, -, hhas⟩ := (h.maps name f).1 hf
    exact hnot dirent hmem hhas
  · rw [hsome]
    congr 1
    exact ((h.maps name dirent.file).2 ⟨dirent, hmem, rfl, hhas⟩).symm

/-- A path is opened, on the file that it has. -/
theorem Sound.opened (h : Sound m c s) {v' : RamVnode} (hf : m name = some v'.data) (hcount : v'.refCount = c name + 1) :
    Sound m (update c name (c name + 1)) (s.setVnode name (some v')) := by
  have hget {name' : RamName} {v : Option RamVnode} : (s.setVnode name v).vnode name' = if name' = name then v else s.vnode name' := by
    exact update_apply ..
  refine ⟨h.named, h.files, h.fresh, h.distinct, h.maps, ?_, ?_, ?_⟩
  · intro name' v hv
    rw [hget] at hv
    by_cases hn : name' = name
    · subst hn
      rw [if_pos rfl] at hv
      cases hv
      rw [update_self]
      exact ⟨hcount.symm, by omega⟩
    · rw [if_neg hn] at hv
      rw [update_of_ne hn]
      exact h.count name' v hv
  · intro name' hv
    rw [hget] at hv
    by_cases hn : name' = name
    · rw [if_pos hn] at hv
      cases hv
    · rw [if_neg hn] at hv
      rw [update_of_ne hn]
      exact h.closed name' hv
  · intro name' v hv
    rw [hget] at hv
    by_cases hn : name' = name
    · subst hn
      rw [if_pos rfl] at hv
      cases hv
      exact hf
    · rw [if_neg hn] at hv
      exact h.data name' v hv

/-- A path is closed. -/
theorem Sound.close (h : Sound m c s) (hv : s.vnode name = some v) :
    Sound m (update c name (c name - 1))
      (s.setVnode name (if v.refCount = 1 then none else some { v with refCount := v.refCount - 1 })) := by
  obtain ⟨hcount, hpos⟩ := h.count name v hv
  have hget {name' : RamName} {v : Option RamVnode} : (s.setVnode name v).vnode name' = if name' = name then v else s.vnode name' := by
    exact update_apply ..
  refine ⟨h.named, h.files, h.fresh, h.distinct, h.maps, ?_, ?_, ?_⟩
  · intro name' v' hv'
    rw [hget] at hv'
    by_cases hn : name' = name
    · subst hn
      rw [if_pos rfl] at hv'
      rw [update_self]
      split at hv'
      · cases hv'
      · cases hv'
        exact ⟨by dsimp only; omega, by dsimp only; omega⟩
    · rw [if_neg hn] at hv'
      rw [update_of_ne hn]
      exact h.count name' v' hv'
  · intro name' hv'
    rw [hget] at hv'
    by_cases hn : name' = name
    · subst hn
      rw [if_pos rfl] at hv'
      rw [update_self]
      split at hv'
      · omega
      · cases hv'
    · rw [if_neg hn] at hv'
      rw [update_of_ne hn]
      exact h.closed name' hv'
  · intro name' v' hv'
    rw [hget] at hv'
    by_cases hn : name' = name
    · subst hn
      rw [if_pos rfl] at hv'
      split at hv'
      · cases hv'
      · cases hv'
        exact h.data name' v hv
    · rw [if_neg hn] at hv'
      exact h.data name' v' hv'

/-- A file is created, with a name that fits. -/
theorem Sound.newDirent (h : Sound m c s) (hnone : m name = none) (hclosed : s.vnode name = none)
    (hshort : name.chars.length < ramfsNameMax) :
    Sound (update m name (some s.next)) c (s.newDirent name.path) := by
  have hdirents : (s.newDirent name.path).dirents = ⟨s.next, strncpyArray ramfsNameMax name.chars⟩ :: s.dirents := by
    rw [RamfsState.newDirent, dropWhile_path]
  have hnot : ∀ dirent ∈ s.dirents, ¬Has dirent name.chars := by
    intro dirent hmem hhas
    have := (h.maps name dirent.file).2 ⟨dirent, hmem, rfl, hhas⟩
    rw [hnone] at this
    cases this
  refine ⟨?_, ?_, ?_, ?_, ?_, h.count, h.closed, ?_⟩
  · rw [hdirents]
    intro dirent hmem
    rcases List.mem_cons.1 hmem with rfl | hmem
    · exact ⟨name.chars, name.nul_not_mem, rfl, hshort⟩
    · exact h.named dirent hmem
  · rw [hdirents, List.map_cons, List.nodup_cons]
    refine ⟨?_, h.files⟩
    intro hmem
    obtain ⟨dirent, hd, heq⟩ := List.mem_map.1 hmem
    exact absurd heq (Nat.ne_of_lt (h.fresh dirent hd))
  · intro dirent hmem
    rcases List.mem_cons.1 hmem with rfl | hmem
    · exact Nat.lt_succ_self _
    · exact Nat.lt_succ_of_lt (h.fresh dirent hmem)
  · rw [hdirents, List.map_cons, List.nodup_cons]
    refine ⟨?_, h.distinct⟩
    intro hmem
    obtain ⟨dirent, hd, heq⟩ := List.mem_map.1 hmem
    exact hnot dirent hd ⟨heq, hshort⟩
  · intro name' f
    rw [hdirents]
    by_cases hn : name' = name
    · subst hn
      rw [update_self]
      constructor
      · intro hf
        cases hf
        exact ⟨_, List.mem_cons_self, rfl, rfl, hshort⟩
      · rintro ⟨dirent, hmem, rfl, hhas⟩
        rcases List.mem_cons.1 hmem with rfl | hmem
        · rfl
        · exact absurd hhas (hnot dirent hmem)
    · rw [update_of_ne hn, h.maps]
      constructor
      · rintro ⟨dirent, hmem, hfile, hhas⟩
        exact ⟨dirent, List.mem_cons_of_mem _ hmem, hfile, hhas⟩
      · rintro ⟨dirent, hmem, hfile, hhas⟩
        rcases List.mem_cons.1 hmem with rfl | hmem
        · have heq := strncpyArray_inj name.nul_not_mem name'.nul_not_mem hshort hhas.2 hhas.1
          exact absurd (RamName.ext heq.symm) hn
        · exact ⟨dirent, hmem, hfile, hhas⟩
  · intro name' v hv
    have hn : name' ≠ name := by
      rintro rfl
      rw [RamfsState.newDirent] at hv
      rw [hclosed] at hv
      cases hv
    rw [update_of_ne hn]
    exact h.data name' v hv

theorem mem_eraseP_file (h : (dirents.map RamDirent.file).Nodup) :
    dirent ∈ dirents.eraseP (fun dirent => dirent.file = f) ↔ dirent ∈ dirents ∧ dirent.file ≠ f := by
  induction dirents with
  | nil => simp
  | cons d dirents ih =>
    rw [List.map_cons, List.nodup_cons] at h
    by_cases hd : d.file = f
    · rw [List.eraseP_cons_of_pos (by simpa using hd)]
      constructor
      · intro hmem
        refine ⟨List.mem_cons_of_mem _ hmem, ?_⟩
        intro hfile
        exact h.1 (List.mem_map.2 ⟨dirent, hmem, hfile.trans hd.symm⟩)
      · rintro ⟨hmem, hne⟩
        rcases List.mem_cons.1 hmem with rfl | hmem
        · exact absurd hd hne
        · exact hmem
    · rw [List.eraseP_cons_of_neg (by simpa using hd), List.mem_cons, List.mem_cons, ih h.2]
      constructor
      · rintro (rfl | ⟨hmem, hne⟩)
        · exact ⟨.inl rfl, hd⟩
        · exact ⟨.inr hmem, hne⟩
      · rintro ⟨rfl | hmem, hne⟩
        · exact .inl rfl
        · exact .inr ⟨hmem, hne⟩

/-- A file that is not open is removed. -/
theorem Sound.removeDirent (h : Sound m c s) (hf : m name = some f) (hclosed : s.vnode name = none) :
    Sound (update m name none) c (s.removeDirent f) := by
  have hmem {d : RamDirent} : d ∈ s.dirents.eraseP (fun d => d.file = f) ↔ d ∈ s.dirents ∧ d.file ≠ f :=
    mem_eraseP_file h.files
  obtain ⟨d, hd, rfl, hhas⟩ := (h.maps name f).1 hf
  have hsub := List.eraseP_sublist (p := fun dirent : RamDirent => decide (dirent.file = d.file)) (l := s.dirents)
  refine ⟨?_, h.files.sublist (hsub.map _), ?_, h.distinct.sublist (hsub.map _), ?_, h.count, h.closed, ?_⟩
  · intro dirent hdirent
    exact h.named dirent (hmem.1 hdirent).1
  · intro dirent hdirent
    exact h.fresh dirent (hmem.1 hdirent).1
  · intro name' f'
    by_cases hn : name' = name
    · subst hn
      rw [update_self]
      constructor
      · intro hnone
        cases hnone
      · rintro ⟨dirent, hdirent, rfl, hhas'⟩
        obtain ⟨hdirent, hne⟩ := hmem.1 hdirent
        have := (h.maps name' dirent.file).2 ⟨dirent, hdirent, rfl, hhas'⟩
        rw [hf] at this
        exact absurd (Option.some.inj this).symm hne
    · rw [update_of_ne hn, h.maps]
      constructor
      · rintro ⟨dirent, hdirent, hfile, hhas'⟩
        refine ⟨dirent, hmem.2 ⟨hdirent, ?_⟩, hfile, hhas'⟩
        intro hsame
        obtain rfl := List.inj_on_of_nodup_map h.files hdirent hd hsame
        exact hn (RamName.ext (strncpyArray_inj name'.nul_not_mem name.nul_not_mem hhas'.2 hhas.2 (hhas'.1.symm.trans hhas.1)))
      · rintro ⟨dirent, hdirent, hfile, hhas'⟩
        exact ⟨dirent, (hmem.1 hdirent).1, hfile, hhas'⟩
  · intro name' v hv
    have hn : name' ≠ name := by
      rintro rfl
      rw [RamfsState.removeDirent] at hv
      rw [hclosed] at hv
      cases hv
    rw [update_of_ne hn]
    exact h.data name' v hv

/-! ### Calls -/

theorem namespaceOf_snoc : namespaceOf (ls ++ [x]) = renamed (namespaceOf ls) x := by
  rw [namespaceOf, List.foldl_append]
  rfl

theorem openCount_snoc : openCount (ls ++ [x]) = counted (openCount ls) x := by
  rw [openCount, List.foldl_append]
  rfl

/-- What the calls so far have made of the names. -/
def Keeps (ls : List (RamfsEv × RamfsRet)) (s : RamfsState) : Prop := Sound (namespaceOf ls) (openCount ls) s ∧ Mapped ls s

/-- The last call does not open a path, or the path is not open, or it is opened. -/
theorem keeps_snoc (h : Sound (renamed (namespaceOf ls) x) (counted (openCount ls) x) s)
    (hre : ∀ name flags alloc, x.1 = .open name flags alloc → flags.directory = false → 0 < openCount ls name →
      ∃ f, x.2 = .opened f) : Keeps (ls ++ [x]) s := by
  rw [Keeps, namespaceOf_snoc, openCount_snoc]
  refine ⟨h, ?_, h.distinct, ?_⟩
  · rw [namespaceOf_snoc]
    exact h.lookup
  · rintro pre name flags alloc r heq hflags hopen
    obtain ⟨rfl, hx⟩ := List.append_inj' heq rfl
    obtain rfl := List.singleton_inj.1 hx
    exact hre name flags alloc rfl hflags hopen

/-- A call that is refused. -/
theorem keeps_refused (h : Keeps ls s) {e : RamfsEv} {errno : RamErrno}
    (hopen : ∀ name flags alloc, e = .open name flags alloc → s.vnode name = none) : Keeps (ls ++ [(e, .error errno)]) s := by
  have hname : renamed (namespaceOf ls) (e, .error errno) = namespaceOf ls := by cases e <;> rfl
  have hcount : counted (openCount ls) (e, .error errno) = openCount ls := by cases e <;> rfl
  refine keeps_snoc (by rw [hname, hcount]; exact h.1) ?_
  intro name flags alloc he _ hpos
  rw [h.1.closed name (hopen name flags alloc he)] at hpos
  exact absurd hpos (Nat.lt_irrefl 0)

theorem openFirst_keeps (h : Keeps ls s) (hv : s.vnode name = none) (hs : s.openFirst name flags alloc = some (s', r)) :
    (Mapped (ls ++ [(.open name flags alloc, r)]) s' → Fitting s (.open name flags alloc)) ∧
      (Fitting s (.open name flags alloc) → Keeps (ls ++ [(.open name flags alloc, r)]) s') := by
  have hlookup := h.1.lookup name
  have hzero := h.1.closed name hv
  have hrefused {errno : RamErrno} (heq : some (s, RamfsRet.error errno) = some (s', r)) :
      Keeps (ls ++ [(.open name flags alloc, r)]) s' := by
    cases heq
    refine keeps_refused h ?_
    rintro name' flags' alloc' he
    obtain ⟨rfl, -, -⟩ := RamfsEv.open.inj he
    exact hv
  have hfit (hshort : s.dfsRamfsLookup name.path = some none → flags.directory = false →
      (flags.creat = true ∨ flags.wronly = true) → alloc = true → name.chars.length < ramfsNameMax) :
      Fitting s (.open name flags alloc) := by
    refine ⟨fun _ => hshort, ?_⟩
    intro v hv'
    rw [hv] at hv'
    cases hv'
  rw [openFirst] at hs
  split at hs
  · rename_i hdir
    refine ⟨fun _ => hfit ?_, fun _ => hrefused hs⟩
    intro _ hflags
    rw [hdir.1] at hflags
    cases hflags
  · split at hs
    · cases hs
    · rename_i f hfound
      cases hs
      have hf : namespaceOf ls name = some f := Option.some.inj (hlookup.symm.trans hfound)
      refine ⟨fun _ => hfit ?_, fun _ => keeps_snoc ?_ fun _ _ _ _ _ _ => ⟨f, rfl⟩⟩
      · intro hnone
        rw [hfound] at hnone
        cases hnone
      · have hname : update (namespaceOf ls) name (some f) = namespaceOf ls := by rw [← hf, Function.update_eq_self]
        change Sound (update _ _ _) (update _ _ _) _
        rw [hname]
        exact h.1.opened hf (by rw [hzero])
    · rename_i hfound
      have hnone : namespaceOf ls name = none := Option.some.inj (hlookup.symm.trans hfound)
      split at hs
      · rename_i hnocreat
        refine ⟨fun _ => hfit ?_, fun _ => hrefused hs⟩
        rintro - hflags hcreat
        rcases hnocreat with hdir | ⟨hc, hw⟩
        · rw [hdir] at hflags
          cases hflags
        · rw [hc, hw] at hcreat
          simp at hcreat
      · rename_i hcreat
        rw [not_or] at hcreat
        have hflags : flags.directory = false := by simpa using hcreat.1
        have hcw : flags.creat = true ∨ flags.wronly = true := by
          by_contra hno
          rw [not_or] at hno
          exact hcreat.2 ⟨by simpa using hno.1, by simpa using hno.2⟩
        split at hs
        · rename_i halloc
          refine ⟨fun _ => hfit ?_, fun _ => hrefused hs⟩
          intro _ _ _ hal
          rw [halloc] at hal
          cases hal
        · rename_i halloc
          have hal : alloc = true := by simpa using halloc
          cases hs
          constructor
          · intro hm
            refine hfit fun _ _ _ _ => ?_
            by_contra hlong
            have hlong := Nat.le_of_not_lt hlong
            -- the comparison with the new entry leaves its array
            have hlook := hm.lookup name
            rw [dfsRamfsLookup, dropWhile_path] at hlook
            change lookupDirent name.chars (⟨s.next, strncpyArray ramfsNameMax (name.path.dropWhile _)⟩ :: s.dirents) = _
              at hlook
            rw [dropWhile_path, strncpyArray_of_le hlong, lookupDirent, strcmpArray_take hlong] at hlook
            cases hlook
          · intro hfits
            have hnew := h.1.newDirent hnone hv (hfits.1 hv hfound hflags hcw hal)
            refine keeps_snoc ?_ fun _ _ _ _ _ _ => ⟨_, rfl⟩
            exact hnew.opened (update_self ..) (by rw [hzero])

theorem dfsRamfsOpen_keeps (h : Keeps ls s) (hs : s.dfsRamfsOpen name flags alloc = some (s', r)) :
    (Mapped (ls ++ [(.open name flags alloc, r)]) s' → Fitting s (.open name flags alloc)) ∧
      (Fitting s (.open name flags alloc) → Keeps (ls ++ [(.open name flags alloc, r)]) s') := by
  rw [dfsRamfsOpen] at hs
  split at hs
  · rename_i v hv
    obtain ⟨hcount, hpos⟩ := h.1.count name v hv
    split at hs
    · rename_i hdir
      cases hs
      constructor
      · intro hm
        obtain ⟨f, hf⟩ := hm.reopens ls name flags alloc _ rfl hdir.2 (by omega)
        cases hf
      · intro hfit
        have hreg := hfit.2 v hv hdir.2
        rw [hdir.1] at hreg
        cases hreg
    · rename_i hdir
      cases hs
      constructor
      · refine fun _ => ⟨fun hnone => ?_, ?_⟩
        · rw [hv] at hnone
          cases hnone
        · intro v' hv' hflags
          cases hv.symm.trans hv'
          by_contra hd
          exact hdir ⟨by simpa using hd, hflags⟩
      · intro _
        have hdata := h.1.data name v hv
        refine keeps_snoc ?_ fun _ _ _ _ _ _ => ⟨_, rfl⟩
        have hname : update (namespaceOf ls) name (some v.data) = namespaceOf ls := by
          rw [← hdata, Function.update_eq_self]
        change Sound (update _ _ _) (update _ _ _) _
        rw [hname]
        exact h.1.opened hdata (by rw [hcount])
  · rename_i hv
    exact openFirst_keeps h hv hs

theorem dfsRamfsUnlink_keeps (h : Keeps ls s) (hs : s.dfsRamfsUnlink name = some (s', r)) :
    Keeps (ls ++ [(.unlink name, r)]) s' := by
  rw [dfsRamfsUnlink] at hs
  split at hs
  · cases hs
    exact keeps_refused h (by simp)
  · rename_i hv
    split at hs
    · cases hs
    · cases hs
      exact keeps_refused h (by simp)
    · rename_i f hfound
      cases hs
      have hf : namespaceOf ls name = some f := Option.some.inj ((h.1.lookup name).symm.trans hfound)
      exact keeps_snoc (h.1.removeDirent hf (by simpa using hv)) (by simp)

/-- A file that is renamed is not found under its new name. -/
theorem lookup_renameDirent (h : Sound m c s) (hnone : m newname = none) :
    (s.renameDirent f newname.path).dfsRamfsLookup newname.path ≠ some (some f) := by
  intro hlook
  rw [dfsRamfsLookup, dropWhile_path] at hlook
  obtain ⟨d, hd, hfile, hcmp⟩ := lookupDirent_eq_some hlook
  obtain ⟨d', hd', rfl⟩ := List.mem_map.1 hd
  split at hcmp
  · obtain ⟨a, as, has⟩ := List.exists_cons_of_ne_nil newname.ne_nil
    have ha : ('/' : Char) ≠ a := by
      rintro rfl
      exact newname.slash_not_mem (has ▸ List.mem_cons_self)
    have hname : strncpyArray ramfsNameMax newname.path = '/' :: strncpyArray (ramfsNameMax - 1) (newname.chars ++ [nul]) := by
      rw [strncpyArray, strncpyArray, List.append_assoc]
      rfl
    rw [hname, has, strcmpArray] at hcmp
    simp only [if_neg ha] at hcmp
    cases hcmp
  · obtain ⟨b, hb, hhas⟩ := (h.named d' hd').strcmp newname.nul_not_mem
    cases hb.symm.trans hcmp
    have := (h.maps newname d'.file).2 ⟨d', hd', rfl, hhas.1 rfl⟩
    rw [hnone] at this
    cases this

theorem dfsRamfsRename_keeps (h : Keeps ls s) (hs : s.dfsRamfsRename oldname newname = some (s', r)) :
    (Mapped (ls ++ [(.rename oldname newname, r)]) s' → Fitting s (.rename oldname newname)) ∧
      (Fitting s (.rename oldname newname) → Keeps (ls ++ [(.rename oldname newname, r)]) s') := by
  have hrefused {errno : RamErrno} (heq : some (s, RamfsRet.error errno) = some (s', r)) :
      Keeps (ls ++ [(.rename oldname newname, r)]) s' := by
    cases heq
    exact keeps_refused h (by simp)
  rw [dfsRamfsRename] at hs
  split at hs
  · rename_i hv
    refine ⟨fun _ hnone => ?_, fun _ => hrefused hs⟩
    rw [hnone] at hv
    cases hv
  · rename_i hv
    split at hs
    · cases hs
    · rename_i hnew
      refine ⟨fun _ _ hnone => ?_, fun _ => hrefused hs⟩
      rw [hnew] at hnone
      cases hnone
    · cases hs
    · rename_i hnew hold
      exact ⟨fun _ _ _ => hold, fun _ => hrefused hs⟩
    · rename_i f hnew hold
      cases hs
      have hf : namespaceOf ls oldname = some f := Option.some.inj ((h.1.lookup oldname).symm.trans hold)
      have hnone : namespaceOf ls newname = none := Option.some.inj ((h.1.lookup newname).symm.trans hnew)
      have hne : newname ≠ oldname := by
        rintro rfl
        rw [hf] at hnone
        cases hnone
      constructor
      · intro hm
        have hlook := hm.lookup newname
        have hto : namespaceOf (ls ++ [(.rename oldname newname, .ok)]) newname = some f := by
          rw [namespaceOf_snoc]
          change update (update _ _ _) _ _ _ = _
          rw [update_of_ne hne, update_self, hf]
        rw [hto] at hlook
        exact absurd hlook (lookup_renameDirent h.1 hnone)
      · intro hfit
        rw [hfit (by simpa using hv) hnew] at hold
        cases hold

theorem dfsRamfsClose_keeps (h : Keeps ls s) (hs : s.dfsRamfsClose name = some (s', r)) :
    Keeps (ls ++ [(.close name, r)]) s' := by
  rw [dfsRamfsClose] at hs
  split at hs
  · cases hs
  · rename_i v hv
    cases hs
    exact keeps_snoc (h.1.close hv) (by simp)

/-! ### Runs -/

/-- A step keeps the names if and only if it meets the condition. -/
theorem step_keeps (h : Keeps ls s) (hs : Step s x s') :
    (Mapped (ls ++ [x]) s' → Fitting s x.1) ∧ (Fitting s x.1 → Keeps (ls ++ [x]) s') := by
  obtain ⟨e, r⟩ := x
  cases e with
  | «open» name flags alloc => exact dfsRamfsOpen_keeps h hs
  | close name => exact ⟨fun _ => trivial, fun _ => dfsRamfsClose_keeps h hs⟩
  | unlink name => exact ⟨fun _ => trivial, fun _ => dfsRamfsUnlink_keeps h hs⟩
  | rename oldname newname => exact dfsRamfsRename_keeps h hs

theorem keeps_initial : Keeps [] initial := by
  have hs : Sound (namespaceOf []) (openCount []) initial := by
    refine ⟨fun _ h => (nomatch h), List.nodup_nil, fun _ h => (nomatch h), List.nodup_nil, ?_, fun _ _ h => (nomatch h),
      fun _ _ => rfl, fun _ _ h => (nomatch h)⟩
    intro name f
    constructor
    · intro h
      cases h
    · rintro ⟨dirent, h, -⟩
      cases h
  refine ⟨hs, hs.lookup, hs.distinct, ?_⟩
  rintro pre name flags alloc r heq
  simp at heq

/-- The runs in which the names are a map at every point are those whose steps meet the condition. -/
theorem ramfs_namespace (ls : List (RamfsEv × RamfsRet)) (s : RamfsState) :
    Runs.RunWith Step Mapped initial ls s ↔ Runs.Run (fun s x s' => Step s x s' ∧ Fitting s x.1) initial ls s := by
  refine Runs.RunWith.iff_run (I := Keeps) keeps_initial keeps_initial.2 ?_ ?_
  · rintro ls s x s' h ⟨hs, hfit⟩
    exact (step_keeps h hs).2 hfit
  · rintro ls s x s' h
    constructor
    · rintro ⟨hs, hm⟩
      exact ⟨hs, (step_keeps h hs).1 hm⟩
    · rintro ⟨hs, hfit⟩
      exact ⟨hs, ((step_keeps h hs).2 hfit).2⟩

def nameA : RamName := ⟨['a'], by decide, by decide, by decide⟩

def nameB : RamName := ⟨['b'], by decide, by decide, by decide⟩

def creatFlags : RamFlags := ⟨false, true, false⟩

/-- A file is created, and opened again while it is open. -/
def createdOpen : List (RamfsEv × RamfsRet) :=
  [(.open nameA creatFlags true, .opened 0), (.open nameA creatFlags true, .error .enoent)]

/-- A file is renamed. -/
def createdRenamed : List (RamfsEv × RamfsRet) :=
  [(.open nameA creatFlags true, .opened 0), (.close nameA, .ok), (.rename nameA nameB, .ok)]

/-- A name of 32 characters. -/
def longName : RamName := ⟨List.replicate 32 'a', by decide, by decide, by decide⟩

/-- The file cannot be opened again; under its new name it is not found; and the lookup of a long name leaves the array. -/
theorem ramfs_names_lost :
    (∃ s, Runs.Run Step initial createdOpen s ∧ ¬Mapped createdOpen s) ∧
    (∃ s, Runs.Run Step initial createdRenamed s ∧ s.dfsRamfsLookup nameB.path = some none ∧ ¬Mapped createdRenamed s) ∧
    ∃ s, Runs.Run Step initial [(.open longName creatFlags true, .opened 0)] s ∧ s.dfsRamfsLookup longName.path = none := by
  refine ⟨?_, ?_, Runs.Run.of_computed _ (by decide)⟩
  · obtain ⟨s, hr, -⟩ := Runs.Run.of_computed (f := step) (s := initial) createdOpen (P := fun _ => True)
      (by decide)
    refine ⟨s, hr, ?_⟩
    intro hm
    obtain ⟨f, hf⟩ := hm.reopens (createdOpen.take 1) nameA creatFlags true _ rfl rfl (by decide)
    cases hf
  · obtain ⟨s, hr, hlook⟩ := Runs.Run.of_computed (f := step) (s := initial) createdRenamed
      (P := fun s => s.dfsRamfsLookup nameB.path = some none) (by decide)
    refine ⟨s, hr, hlook, ?_⟩
    intro hm
    have hto := hm.lookup nameB
    rw [hlook] at hto
    exact absurd (Option.some.inj hto) (by decide)

end RamfsState

end RtThread
