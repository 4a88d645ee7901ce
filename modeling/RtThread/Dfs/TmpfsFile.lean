import Mathlib.Algebra.Group.Int.Defs
import Mathlib.Algebra.Group.Nat.Defs
import Mathlib.Data.List.Basic
import RtThread.Lib.Runs

/-!
# The content of a tmpfs file

`dfs_tmpfs_open`, `dfs_tmpfs_read`, `dfs_tmpfs_write`, `dfs_tmpfs_lseek` and `dfs_tmpfs_close` of `dfs_tmpfs.c`, for the file
of one path and any number of descriptors, which share a vnode. A file is a sequence of bytes with a position for every
descriptor (`ByteFile`) in the runs in which `O_TRUNC` and `O_APPEND` are only given for a file that is not open or that is
empty, in which no position is set in a file of half of the address space, and in which no call has a result that is no `int`;
and in no others (`tmpfs_content`).
-/

namespace RtThread

abbrev Byte := BitVec 8

/-- The flags `O_CREAT`, `O_TRUNC` and `O_APPEND` of an open. -/
structure OpenFlags where
  creat : Bool
  trunc : Bool
  append : Bool
deriving DecidableEq, Repr

/-- The data and the size of a `struct tmpfs_file`. -/
structure TmpfsData where
  data : List Byte
  size : Nat
deriving DecidableEq, Repr

/-- The reference count and the size of the vnode of a file. -/
structure TmpfsVnode where
  refCount : Nat
  size : Nat
deriving DecidableEq, Repr

/-- The file that `dfs_tmpfs_lookup` finds, its vnode while it is open, and the descriptors with their positions. -/
structure TmpfsContent where
  file : Option TmpfsData
  vnode : Option TmpfsVnode
  files : List (Nat × Nat)
deriving DecidableEq, Repr

inductive TmpfsErrno
  | enoent
  | enomem
  | eio
deriving DecidableEq, Repr

/-- The calls; what the memory allocator gives and whether there is a parent directory are part of them. -/
inductive ContentEv
  | open (fd : Nat) (flags : OpenFlags) (parent calloc : Bool)
  | close (fd : Nat)
  | read (fd count : Nat)
  | write (fd : Nat) (buf : List Byte) (realloc : Option Byte)
  | lseek (fd offset : Nat)
deriving DecidableEq, Repr

/-- The result of a call, and the bytes that are read. -/
inductive ContentRet
  | error (errno : TmpfsErrno)
  | count (count : Int)
  | bytes (count : Int) (buf : List Byte)
deriving DecidableEq, Repr

/-- The position of a descriptor. -/
def posOf (files : List (Nat × Nat)) (fd : Nat) : Option Nat := files.lookup fd

/-- `file->pos = pos;` -/
def setPos (files : List (Nat × Nat)) (fd pos : Nat) : List (Nat × Nat) :=
  files.map fun x => if x.1 = fd then (fd, pos) else x

/-- `rt_realloc`: the bytes that are new have any value. -/
def reallocData (data : List Byte) (n : Nat) (fill : Byte) : List Byte :=
  data.take n ++ List.replicate (n - data.length) fill

/-- `memcpy` into the data at a position. -/
def putBytes (data : List Byte) (pos : Nat) (buf : List Byte) : List Byte :=
  data.take pos ++ buf ++ data.drop (pos + buf.length)

/-- The value of a `size_t` of `w` bits as an `off_t`. -/
def toOff (w size : Nat) : Int := if 2 * size < 2 ^ w then size else (size : Int) - 2 ^ w

/-- The value of a `size_t` or an `off_t` as an `int`. -/
def toInt (n : Nat) : Int := (n : Int).bmod (2 ^ 32)

namespace TmpfsContent

/-- `dfs_tmpfs_open`, after the lookup and the creation of the file. -/
def openFile (s : TmpfsContent) (fd : Nat) (flags : OpenFlags) (d : TmpfsData) : TmpfsContent × ContentRet :=
  let d := if flags.trunc then ⟨[], 0⟩ else d
  (⟨some d, some ⟨1, d.size⟩, (fd, if flags.append then d.size else 0) :: s.files⟩, .count 0)

/-- `dfs_tmpfs_open`, after `dfs_file_open` has counted the reference. -/
def dfsTmpfsOpen (s : TmpfsContent) (fd : Nat) (flags : OpenFlags) (parent calloc : Bool) : TmpfsContent × ContentRet :=
  match s.vnode with
  | some v => ({ s with vnode := some { v with refCount := v.refCount + 1 }, files := (fd, 0) :: s.files }, .count 0)
  | none =>
    match s.file with
    | some d => s.openFile fd flags d
    | none =>
      if flags.creat = false then (s, .error .enoent)
      else if parent = false then (s, .error .enoent)
      else if calloc = false then (s, .error .enomem)
      else s.openFile fd flags ⟨[], 0⟩

/-- `dfs_tmpfs_close`, and the end of `dfs_file_close`. -/
def dfsTmpfsClose (s : TmpfsContent) (fd : Nat) : Option (TmpfsContent × ContentRet) :=
  match posOf s.files fd, s.vnode with
  | some _, some v =>
    let files := s.files.eraseP fun x => x.1 = fd
    if v.refCount = 1 then some ({ s with vnode := none, files := files }, .count 0)
    else some ({ s with vnode := some { v with refCount := v.refCount - 1 }, files := files }, .count 0)
  | _, _ => none

/-- `dfs_tmpfs_read` -/
def dfsTmpfsRead (w : Nat) (s : TmpfsContent) (fd count : Nat) : Option (TmpfsContent × ContentRet) :=
  match posOf s.files fd, s.vnode, s.file with
  | some pos, some v, some d =>
    let rest := (v.size + 2 ^ w - pos) % 2 ^ w
    let length := if count < rest then count else rest
    if 0 < length ∧ d.data.length < pos + length then none
    else
      some ({ s with files := setPos s.files fd (pos + length) }, .bytes (toInt length) ((d.data.drop pos).take length))
  | _, _, _ => none

/-- `dfs_tmpfs_write` -/
def dfsTmpfsWrite (w : Nat) (s : TmpfsContent) (fd : Nat) (buf : List Byte) (realloc : Option Byte) :
    Option (TmpfsContent × ContentRet) :=
  match posOf s.files fd, s.vnode, s.file with
  | some pos, some v, some d =>
    let n := (buf.length + pos) % 2 ^ w
    let put (v : TmpfsVnode) (d : TmpfsData) : Option (TmpfsContent × ContentRet) :=
      if 0 < buf.length ∧ d.data.length < pos + buf.length then none
      else
        some (⟨some { d with data := putBytes d.data pos buf }, some v, setPos s.files fd ((pos + buf.length) % 2 ^ w)⟩,
          .count (toInt buf.length))
    if v.size < n then
      match realloc with
      | none => some (s, .count 0)
      | some fill => put { v with size := n } ⟨reallocData d.data n fill, n⟩
    else put v d
  | _, _, _ => none

/-- `dfs_tmpfs_lseek` -/
def dfsTmpfsLseek (w : Nat) (s : TmpfsContent) (fd offset : Nat) : Option (TmpfsContent × ContentRet) :=
  match posOf s.files fd, s.vnode with
  | some _, some v =>
    if offset ≤ toOff w v.size then some ({ s with files := setPos s.files fd offset }, .count (toInt offset))
    else some (s, .error .eio)
  | _, _ => none

/-- `dfs_file_lseek`, which takes the result for the position. -/
def dfsFileLseek (w : Nat) (s : TmpfsContent) (fd offset : Nat) : Option (TmpfsContent × ContentRet) :=
  (s.dfsTmpfsLseek w fd offset).map fun x =>
    match x.2 with
    | .count result => if 0 ≤ result then ({ x.1 with files := setPos x.1.files fd result.toNat }, x.2) else x
    | _ => x

def step (w : Nat) (s : TmpfsContent) : ContentEv → Option (TmpfsContent × ContentRet)
  | .open fd flags parent calloc =>
    if (posOf s.files fd).isSome then none else some (s.dfsTmpfsOpen fd flags parent calloc)
  | .close fd => s.dfsTmpfsClose fd
  | .read fd count => s.dfsTmpfsRead w fd count
  | .write fd buf realloc => s.dfsTmpfsWrite w fd buf realloc
  | .lseek fd offset => s.dfsFileLseek w fd offset

/-- The file does not exist. -/
def initial : TmpfsContent := ⟨none, none, []⟩

def Step (w : Nat) (s : TmpfsContent) (x : ContentEv × ContentRet) (s' : TmpfsContent) : Prop := s.step w x.1 = some (s', x.2)

end TmpfsContent

/-! ## The file as a sequence of bytes -/

/-- A sequence of bytes, if the file exists, and the descriptors with their positions. -/
structure ByteFile where
  content : Option (List Byte)
  files : List (Nat × Nat)
deriving DecidableEq, Repr

namespace ByteFile

def openContent (b : ByteFile) (fd : Nat) (flags : OpenFlags) (content : List Byte) : ByteFile × ContentRet :=
  let content := if flags.trunc then [] else content
  (⟨some content, (fd, if flags.append then content.length else 0) :: b.files⟩, .count 0)

/-- What a call does to the sequence and to the positions. -/
def spec (b : ByteFile) : ContentEv → ByteFile × ContentRet
  | .open fd flags parent calloc =>
    match b.content with
    | some content => b.openContent fd flags content
    | none =>
      if flags.creat = false ∨ parent = false then (b, .error .enoent)
      else if calloc = false then (b, .error .enomem)
      else b.openContent fd flags []
  | .close fd => ({ b with files := b.files.eraseP fun x => x.1 = fd }, .count 0)
  | .read fd count =>
    let pos := (posOf b.files fd).getD 0
    let buf := ((b.content.getD []).drop pos).take count
    ({ b with files := setPos b.files fd (pos + buf.length) }, .bytes buf.length buf)
  | .write fd buf realloc =>
    let pos := (posOf b.files fd).getD 0
    let content := b.content.getD []
    if content.length < pos + buf.length ∧ realloc = none then (b, .count 0)
    else (⟨some (putBytes content pos buf), setPos b.files fd (pos + buf.length)⟩, .count buf.length)
  | .lseek fd offset =>
    if offset ≤ (b.content.getD []).length then ({ b with files := setPos b.files fd offset }, .count offset)
    else (b, .error .eio)

/-- The calls of a run, one after the other, with their results. -/
def specRun (b : ByteFile) : List ContentEv → ByteFile × List (ContentEv × ContentRet)
  | [] => (b, [])
  | e :: es => let y := (b.spec e).1.specRun es; (y.1, (e, (b.spec e).2) :: y.2)

end ByteFile

namespace TmpfsContent

/-- The state stands for the sequence and the positions; the size of the vnode is that of the file. -/
structure Agrees (b : ByteFile) (s : TmpfsContent) : Prop where
  content : b.content = s.file.map TmpfsData.data
  files : b.files = s.files
  size : ∀ d, s.file = some d → d.size = d.data.length
  vnode : ∀ v, s.vnode = some v → ∃ d, s.file = some d ∧ v.size = d.size

/-- The results of the run are those of the sequence of bytes, and so is what is left. -/
def Refines (ls : List (ContentEv × ContentRet)) (s : TmpfsContent) : Prop :=
  ((ByteFile.mk none []).specRun (ls.map Prod.fst)).2 = ls ∧ Agrees ((ByteFile.mk none []).specRun (ls.map Prod.fst)).1 s

/-- A file that is open is opened again with `O_TRUNC` or `O_APPEND` only if it is empty; its size is an `off_t` if a position in
it is set; and what is read and written, and the positions that are set, are `int`s. -/
def Plain (w : Nat) (s : TmpfsContent) : ContentEv → Prop
  | .open _ flags _ _ => ∀ d, s.vnode ≠ none → s.file = some d → (flags.trunc = true ∨ flags.append = true) → d.size = 0
  | .read fd count => ∀ d pos, s.file = some d → posOf s.files fd = some pos → min count (d.size - pos) < 2 ^ 31
  | .write fd buf realloc => ∀ d pos, s.file = some d → posOf s.files fd = some pos →
    buf.length < 2 ^ 31 ∨ d.size < pos + buf.length ∧ realloc = none
  | .lseek _ offset => ∀ d, s.file = some d → offset ≤ d.size → 2 * d.size < 2 ^ w ∧ offset < 2 ^ 31
  | .close _ => True

/-- The sizes and the references, whatever the flags are. -/
structure Sized (w : Nat) (s : TmpfsContent) : Prop where
  file : ∀ d, s.file = some d → d.size = d.data.length ∧ d.size < 2 ^ w
  vnode : ∀ v, s.vnode = some v → v.refCount = s.files.length ∧ ∃ d, s.file = some d ∧ v.size = d.size
  closed : s.vnode = none → s.files = []
  pos : ∀ x ∈ s.files, ∀ d, s.file = some d → x.2 ≤ d.size

variable {w fd pos count offset : Nat} {s s' : TmpfsContent} {b : ByteFile} {ls : List (ContentEv × ContentRet)}
  {x : ContentEv × ContentRet} {r : ContentRet} {files : List (Nat × Nat)} {buf data : List Byte} {d : TmpfsData}
  {v : TmpfsVnode} {flags : OpenFlags} {parent calloc : Bool} {realloc : Option Byte} {fill : Byte} {n : Nat}

/-! ## Positions and bytes -/

theorem mem_of_posOf (h : posOf files fd = some pos) : (fd, pos) ∈ files := by
  induction files with
  | nil => cases h
  | cons y files ih =>
    rw [posOf, List.lookup_cons] at h
    split at h
    · rename_i heq
      cases h
      obtain rfl : fd = y.1 := by simpa using heq
      exact List.mem_cons_self
    · exact List.mem_cons_of_mem _ (ih h)

theorem mem_setPos {y : Nat × Nat} (h : y ∈ setPos files fd pos) : y ∈ files ∨ y = (fd, pos) := by
  obtain ⟨z, hz, rfl⟩ := List.mem_map.1 h
  split
  · exact .inr rfl
  · exact .inl hz

@[simp] theorem length_setPos : (setPos files fd pos).length = files.length := List.length_map ..

theorem setPos_eq_nil : setPos files fd pos = [] ↔ files = [] := List.map_eq_nil_iff

theorem length_putBytes (h : pos + buf.length ≤ data.length) : (putBytes data pos buf).length = data.length := by
  simp [putBytes]
  omega

theorem length_reallocData (fill : Byte) (h : data.length ≤ n) : (reallocData data n fill).length = n := by
  simp [reallocData]
  omega

/-- The bytes that are new are written at once. -/
theorem putBytes_reallocData (hpos : pos ≤ data.length) (hn : pos + buf.length = n) (hlt : data.length < n) :
    putBytes (reallocData data n fill) pos buf = putBytes data pos buf := by
  have htake : (reallocData data n fill).take pos = data.take pos := by
    rw [reallocData, List.take_of_length_le (Nat.le_of_lt hlt), List.take_append_of_le_length hpos]
  have hdrop : (reallocData data n fill).drop (pos + buf.length) = data.drop (pos + buf.length) := by
    have hlen := length_reallocData fill (Nat.le_of_lt hlt)
    rw [List.drop_of_length_le (by omega), List.drop_of_length_le (by omega)]
  rw [putBytes, putBytes, htake, hdrop]

/-- The remaining length is computed modulo the size of the address space. -/
theorem rest_eq {size : Nat} (hpos : pos ≤ size) (hsize : size < 2 ^ w) : (size + 2 ^ w - pos) % 2 ^ w = size - pos := by
  rw [show size + 2 ^ w - pos = size - pos + 2 ^ w by omega, Nat.add_mod_right, Nat.mod_eq_of_lt (by omega)]

theorem toInt_lt : toInt n < 2 ^ 31 := Int.bmod_lt (by decide)

theorem toInt_eq_iff : toInt n = n ↔ n < 2 ^ 31 := by
  constructor
  · intro h
    have hlt := h ▸ toInt_lt (n := n)
    omega
  · exact fun h => Int.bmod_eq_of_le (by omega) (by omega)

@[simp] theorem setPos_setPos {p : Nat} : setPos (setPos files fd p) fd pos = setPos files fd pos := by
  rw [setPos, setPos, List.map_map]
  refine List.map_congr_left fun x _ => ?_
  by_cases h : x.1 = fd <;> simp [h]

/-! ## Calls -/

theorem Sized.get (h : Sized w s) (hv : s.vnode = some v) (hpos : posOf s.files fd = some pos) :
    ∃ d, s.file = some d ∧ v.size = d.size ∧ d.size = d.data.length ∧ d.size < 2 ^ w ∧ pos ≤ d.size := by
  obtain ⟨-, d, hd, hsize⟩ := h.vnode v hv
  obtain ⟨hlen, hlt⟩ := h.file d hd
  exact ⟨d, hd, hsize, hlen, hlt, h.pos _ (mem_of_posOf hpos) d hd⟩

/-- What the sequence of bytes and the state agree on, given the sizes. -/
theorem agrees_iff (h : Sized w s) : Agrees b s ↔ b.content = s.file.map TmpfsData.data ∧ b.files = s.files := by
  constructor
  · rintro ⟨hcontent, hfiles, -⟩
    exact ⟨hcontent, hfiles⟩
  · rintro ⟨hcontent, hfiles⟩
    exact ⟨hcontent, hfiles, fun d hd => (h.file d hd).1, fun v hv => (h.vnode v hv).2⟩

/-- The result of a step is that of the sequence of bytes, and the two agree afterwards. -/
def Matches (b : ByteFile) (x : ContentEv × ContentRet) (s' : TmpfsContent) : Prop :=
  (b.spec x.1).2 = x.2 ∧ Agrees (b.spec x.1).1 s'

/-- The file is opened for the first descriptor. -/
theorem openFile_matches (hfiles : s.files = []) (hlen : d.size = d.data.length)
    (hlt : d.size < 2 ^ w) (h : s.openFile fd flags d = (s', r)) :
    Sized w s' ∧ s'.file.map TmpfsData.data = some (if flags.trunc then [] else d.data) ∧
      s'.files = [(fd, if flags.append then (if flags.trunc then [] else d.data).length else 0)] ∧ r = .count 0 := by
  cases h
  have hd : (if flags.trunc then (⟨[], 0⟩ : TmpfsData) else d).size = (if flags.trunc then [] else d.data).length ∧
      (if flags.trunc then (⟨[], 0⟩ : TmpfsData) else d).data = (if flags.trunc then [] else d.data) ∧
      (if flags.trunc then (⟨[], 0⟩ : TmpfsData) else d).size < 2 ^ w := by
    split
    · exact ⟨rfl, rfl, Nat.two_pow_pos w⟩
    · exact ⟨hlen, rfl, hlt⟩
  generalize (if flags.trunc then (⟨[], 0⟩ : TmpfsData) else d) = d' at hd ⊢
  obtain ⟨hsize, hdata, hsmall⟩ := hd
  refine ⟨⟨?_, ?_, (nofun), ?_⟩, ?_, ?_, rfl⟩
  · intro e he
    cases he
    exact ⟨by rw [hsize, hdata], hsmall⟩
  · intro v hv
    cases hv
    exact ⟨by simp [hfiles], d', rfl, rfl⟩
  · intro y hy e he
    cases he
    rw [hfiles] at hy
    obtain rfl := List.mem_singleton.1 hy
    split
    · exact Nat.le_refl _
    · exact Nat.zero_le _
  · exact congrArg some hdata
  · rw [hfiles, hsize]

theorem dfsTmpfsOpen_matches (hs : Sized w s) (hb : Agrees b s) (h : s.dfsTmpfsOpen fd flags parent calloc = (s', r)) :
    Sized w s' ∧ (Matches b (.open fd flags parent calloc, r) s' ↔ Plain w s (.open fd flags parent calloc)) := by
  obtain ⟨hcontent, hfiles⟩ := (agrees_iff hs).1 hb
  rw [dfsTmpfsOpen] at h
  split at h
  · rename_i v hv
    obtain ⟨hcount, d, hd, hsize⟩ := hs.vnode v hv
    obtain ⟨hlen, hlt⟩ := hs.file d hd
    cases h
    have hs' : Sized w { s with vnode := some { v with refCount := v.refCount + 1 }, files := (fd, 0) :: s.files } := by
      refine ⟨hs.file, ?_, (nofun), ?_⟩
      · intro v' hv'
        cases hv'
        exact ⟨by simp [hcount], d, hd, hsize⟩
      · intro y hy e he
        rcases List.mem_cons.1 hy with rfl | hy
        · exact Nat.zero_le _
        · exact hs.pos y hy e he
    refine ⟨hs', ?_⟩
    have hspec : b.spec (.open fd flags parent calloc) = b.openContent fd flags d.data := by
      simp only [ByteFile.spec, hcontent, hd, Option.map_some]
    rw [Matches, hspec, agrees_iff hs']
    constructor
    · rintro ⟨-, hc, hf⟩ e - he hflags
      cases hd.symm.trans he
      rw [hd] at hc
      have hdata : (if flags.trunc then [] else d.data) = d.data := Option.some.inj hc
      have hpos : (if flags.append then (if flags.trunc then [] else d.data).length else 0) = 0 :=
        (Prod.mk.inj (List.cons.inj hf).1).2
      rw [hlen]
      rcases hflags with htrunc | happend
      · rw [if_pos htrunc] at hdata
        rw [← hdata]
        rfl
      · rw [if_pos happend, hdata] at hpos
        exact hpos
    · intro hplain
      have hzero := hplain d (by rw [hv]; exact Option.some_ne_none _) hd
      have hdata : (if flags.trunc then [] else d.data) = d.data := by
        split
        · rename_i htrunc
          exact (List.length_eq_zero_iff.1 (hlen.symm.trans (hzero (.inl htrunc)))).symm
        · rfl
      have hpos : (if flags.append then d.data.length else 0) = 0 := by
        split
        · rename_i happend
          exact hlen.symm.trans (hzero (.inr happend))
        · rfl
      refine ⟨rfl, ?_, ?_⟩
      · change some (if flags.trunc then [] else d.data) = _
        rw [hdata, hd]
        rfl
      · change (fd, if flags.append then (if flags.trunc then [] else d.data).length else 0) :: b.files = _
        rw [hdata, hpos, hfiles]
  · rename_i hv
    have hnil := hs.closed hv
    have hplain : Plain w s (.open fd flags parent calloc) := fun d hopen _ _ => absurd hv hopen
    have hopened {d : TmpfsData} (hlen : d.size = d.data.length) (hlt : d.size < 2 ^ w)
        (hspec : b.spec (.open fd flags parent calloc) = b.openContent fd flags d.data)
        (h : s.openFile fd flags d = (s', r)) :
        Sized w s' ∧ (Matches b (.open fd flags parent calloc, r) s' ↔ Plain w s (.open fd flags parent calloc)) := by
      obtain ⟨hs', hc, hf, rfl⟩ := openFile_matches hnil hlen hlt h
      refine ⟨hs', fun _ => hplain, fun _ => ?_⟩
      rw [Matches, hspec, agrees_iff hs', hc, hf]
      refine ⟨rfl, rfl, ?_⟩
      rw [ByteFile.openContent, hfiles, hnil]
    have hrefused {e : TmpfsErrno} (hspec : b.spec (.open fd flags parent calloc) = (b, .error e))
        (h : (s, ContentRet.error e) = (s', r)) :
        Sized w s' ∧ (Matches b (.open fd flags parent calloc, r) s' ↔ Plain w s (.open fd flags parent calloc)) := by
      cases h
      refine ⟨hs, fun _ => hplain, fun _ => ?_⟩
      rw [Matches, hspec]
      exact ⟨rfl, hb⟩
    split at h
    · rename_i d hd
      obtain ⟨hlen, hlt⟩ := hs.file d hd
      refine hopened hlen hlt ?_ h
      simp only [ByteFile.spec, hcontent, hd, Option.map_some]
    · rename_i hd
      have hnone : b.content = none := by rw [hcontent, hd]; rfl
      split at h
      · rename_i hcreat
        refine hrefused ?_ h
        simp only [ByteFile.spec, hnone, if_pos (Or.inl hcreat)]
      · rename_i hcreat
        split at h
        · rename_i hparent
          refine hrefused ?_ h
          simp only [ByteFile.spec, hnone, if_pos (Or.inr hparent)]
        · rename_i hparent
          have hor : ¬(flags.creat = false ∨ parent = false) := not_or.2 ⟨hcreat, hparent⟩
          split at h
          · rename_i hcalloc
            refine hrefused ?_ h
            simp only [ByteFile.spec, hnone]
            rw [if_neg hor, if_pos hcalloc]
          · rename_i hcalloc
            refine hopened rfl (Nat.two_pow_pos w) ?_ h
            simp only [ByteFile.spec, hnone]
            rw [if_neg hor, if_neg hcalloc]

theorem dfsTmpfsClose_matches (hs : Sized w s) (hb : Agrees b s) (h : s.dfsTmpfsClose fd = some (s', r)) :
    Sized w s' ∧ Matches b (.close fd, r) s' := by
  obtain ⟨hcontent, hfiles⟩ := (agrees_iff hs).1 hb
  rw [dfsTmpfsClose] at h
  split at h
  · rename_i pos v hpos hv
    obtain ⟨hcount, d, hd, hsize⟩ := hs.vnode v hv
    have hmem : (fd, pos) ∈ s.files := mem_of_posOf hpos
    have hlen : (s.files.eraseP fun x => x.1 = fd).length + 1 = s.files.length := by
      rw [List.length_eraseP_of_mem hmem (by simp)]
      exact Nat.succ_pred_eq_of_pos (List.length_pos_of_mem hmem)
    have hsub {y : Nat × Nat} (hy : y ∈ s.files.eraseP fun x => x.1 = fd) : y ∈ s.files := List.mem_of_mem_eraseP hy
    split at h
    · rename_i hone
      cases h
      have hs' : Sized w { s with vnode := none, files := s.files.eraseP fun x => x.1 = fd } := by
        refine ⟨hs.file, (fun _ h => nomatch h), ?_, fun y hy => hs.pos y (hsub hy)⟩
        intro _
        exact List.length_eq_zero_iff.1 (by dsimp only; omega)
      refine ⟨hs', rfl, (agrees_iff hs').2 ⟨hcontent, ?_⟩⟩
      exact congrArg (List.eraseP fun x => x.1 = fd) hfiles
    · rename_i hmore
      cases h
      have hs' : Sized w ⟨s.file, some ⟨v.refCount - 1, v.size⟩, s.files.eraseP fun x => x.1 = fd⟩ := by
        refine ⟨hs.file, ?_, (nofun), fun y hy => hs.pos y (hsub hy)⟩
        intro v' hv'
        cases hv'
        exact ⟨by dsimp only; omega, d, hd, hsize⟩
      refine ⟨hs', rfl, (agrees_iff hs').2 ⟨hcontent, ?_⟩⟩
      exact congrArg (List.eraseP fun x => x.1 = fd) hfiles
  · cases h

/-- A position is set. -/
theorem sized_setPos (hs : Sized w s) (hpos : ∀ d, s.file = some d → pos ≤ d.size) :
    Sized w { s with files := setPos s.files fd pos } := by
  refine ⟨hs.file, ?_, ?_, ?_⟩
  · intro v hv
    obtain ⟨hcount, hd⟩ := hs.vnode v hv
    exact ⟨by simpa using hcount, hd⟩
  · intro hv
    exact setPos_eq_nil.2 (hs.closed hv)
  · intro y hy d hd
    rcases mem_setPos hy with hy | rfl
    · exact hs.pos y hy d hd
    · exact hpos d hd

theorem dfsTmpfsRead_matches (hs : Sized w s) (hb : Agrees b s) (h : s.dfsTmpfsRead w fd count = some (s', r)) :
    Sized w s' ∧ (Matches b (.read fd count, r) s' ↔ Plain w s (.read fd count)) := by
  obtain ⟨hcontent, hfiles⟩ := (agrees_iff hs).1 hb
  rw [dfsTmpfsRead] at h
  split at h
  · rename_i pos v d hpos hv hd
    obtain ⟨d', hd', hsize, hlen, hlt, hle⟩ := hs.get hv hpos
    cases hd.symm.trans hd'
    have hrest : (v.size + 2 ^ w - pos) % 2 ^ w = d.data.length - pos := by
      rw [hsize, rest_eq hle hlt, hlen]
    rw [hrest] at h
    dsimp only at h
    have hmin : (if count < d.data.length - pos then count else d.data.length - pos) = min count (d.data.length - pos) := by
      split <;> omega
    rw [hmin] at h
    obtain ⟨-, h⟩ := Option.ite_none_left_eq_some.1 h
    cases h
    have hs' : Sized w { s with files := setPos s.files fd (pos + min count (d.data.length - pos)) } := by
      refine sized_setPos hs fun e he => ?_
      cases hd.symm.trans he
      omega
    have hbuf : (d.data.drop pos).take count = (d.data.drop pos).take (min count (d.data.length - pos)) := by
      rw [← List.take_take, List.take_of_length_le (i := d.data.length - pos) (by simp)]
    have hspec : b.spec (.read fd count) =
        ({ b with files := setPos b.files fd (pos + min count (d.data.length - pos)) },
          .bytes (min count (d.data.length - pos) : Nat) ((d.data.drop pos).take (min count (d.data.length - pos)))) := by
      simp only [ByteFile.spec, hfiles, hpos, hcontent, hd, Option.map_some, Option.getD_some, hbuf, List.length_take,
        List.length_drop, Nat.min_assoc, Nat.min_self]
    refine ⟨hs', ?_⟩
    rw [Matches, hspec]
    constructor
    · rintro ⟨hret, -⟩ e pos' he hpos'
      cases hd.symm.trans he
      cases hpos.symm.trans hpos'
      rw [hlen]
      exact toInt_eq_iff.1 (ContentRet.bytes.inj hret).1.symm
    · intro hplain
      have hint := hplain d pos hd hpos
      rw [hlen] at hint
      exact ⟨by rw [toInt_eq_iff.2 hint], (agrees_iff hs').2 ⟨hcontent, congrArg (setPos · fd _) hfiles⟩⟩
  · cases h

theorem dfsFileLseek_matches (hs : Sized w s) (hb : Agrees b s) (h : s.dfsFileLseek w fd offset = some (s', r)) :
    Sized w s' ∧ (Matches b (.lseek fd offset, r) s' ↔ Plain w s (.lseek fd offset)) := by
  obtain ⟨hcontent, hfiles⟩ := (agrees_iff hs).1 hb
  obtain ⟨x, hx, hxe⟩ := Option.map_eq_some_iff.1 h
  rw [dfsTmpfsLseek] at hx
  split at hx
  · rename_i pos v hpos hv
    obtain ⟨d, hd, hsize, hlen, hlt, -⟩ := hs.get hv hpos
    have hspec : b.spec (.lseek fd offset) =
        if offset ≤ d.data.length then ({ b with files := setPos b.files fd offset }, .count offset) else (b, .error .eio) := by
      simp only [ByteFile.spec, hcontent, hd, Option.map_some, Option.getD_some]
    rw [hsize, toOff] at hx
    by_cases hsmall : 2 * d.size < 2 ^ w
    · rw [if_pos hsmall] at hx
      split at hx
      · rename_i hle
        have hle' : offset ≤ d.size := Int.ofNat_le.1 hle
        have hplain : Plain w s (.lseek fd offset) ↔ offset < 2 ^ 31 := by
          refine ⟨fun h => (h d hd hle').2, fun hint e he _ => ?_⟩
          cases hd.symm.trans he
          exact ⟨hsmall, hint⟩
        cases hx
        rw [hplain, ← toInt_eq_iff, Matches, hspec, if_pos (by omega)]
        dsimp only at hxe
        split_ifs at hxe with hnonneg
        · cases hxe
          have hle'' : (toInt offset).toNat ≤ d.size := by
            by_cases hint : offset < 2 ^ 31
            · rw [toInt_eq_iff.2 hint]
              exact hle'
            · have := toInt_lt (n := offset)
              omega
          have hs' : Sized w { s with files := setPos s.files fd (toInt offset).toNat } := by
            refine sized_setPos hs fun e he => ?_
            cases hd.symm.trans he
            exact hle''
          rw [setPos_setPos]
          refine ⟨hs', fun h => (ContentRet.count.inj h.1).symm, fun hint => ⟨by rw [hint], (agrees_iff hs').2 ⟨hcontent, ?_⟩⟩⟩
          rw [hint]
          exact congrArg (setPos · fd _) hfiles
        · cases hxe
          have hs' : Sized w { s with files := setPos s.files fd offset } := by
            refine sized_setPos hs fun e he => ?_
            cases hd.symm.trans he
            exact hle'
          exact ⟨hs', fun h => (ContentRet.count.inj h.1).symm, fun hint => absurd (by omega) hnonneg⟩
      · rename_i hgt
        cases hx
        cases hxe
        rw [Matches, hspec, if_neg (by omega)]
        refine ⟨hs, fun _ e he hle => ?_, fun _ => ⟨rfl, hb⟩⟩
        cases hd.symm.trans he
        exact absurd (Int.ofNat_le.2 hle) hgt
    · -- the size is negative as an `off_t`
      have hlt' : (d.size : Int) < 2 ^ w := by exact_mod_cast hlt
      rw [if_neg hsmall, if_neg (by omega)] at hx
      cases hx
      cases hxe
      refine ⟨hs, ?_, ?_⟩
      · rintro ⟨hret, -⟩ e he hle
        cases hd.symm.trans he
        rw [hspec, if_pos (by omega)] at hret
        cases hret
      · intro hplain
        have hgt : ¬offset ≤ d.data.length := by
          intro hle
          exact hsmall (hplain d hd (by omega)).1
        rw [Matches, hspec, if_neg hgt]
        exact ⟨rfl, hb⟩
  · cases hx

/-- The bytes are put into the file, which has room for them. -/
theorem put_matches (pos n : Nat) (v : TmpfsVnode) (hs : Sized w s) (hfiles : b.files = s.files) (hv : s.vnode = some v) (hold : ∀ e, s.file = some e → e.size ≤ d.size)
    (hlen : d.size = d.data.length) (hlt : d.size < 2 ^ w) (hroom : pos + buf.length ≤ d.size)
    (hspec : b.spec (.write fd buf realloc) =
      (⟨some (putBytes d.data pos buf), setPos b.files fd (pos + buf.length)⟩, .count buf.length))
    (hsize : n = d.size) (heq : s' = ⟨some { d with data := putBytes d.data pos buf }, some { v with size := n },
      setPos s.files fd ((pos + buf.length) % 2 ^ w)⟩) :
    Sized w s' ∧ (Matches b (.write fd buf realloc, .count (toInt buf.length)) s' ↔ buf.length < 2 ^ 31) := by
  have hput : (putBytes d.data pos buf).length = d.data.length := length_putBytes (by omega)
  have hmod : (pos + buf.length) % 2 ^ w = pos + buf.length := Nat.mod_eq_of_lt (by omega)
  subst heq
  rw [hmod]
  have hs' : Sized w ⟨some { d with data := putBytes d.data pos buf }, some { v with size := n },
      setPos s.files fd (pos + buf.length)⟩ := by
    obtain ⟨hcount, e, he, -⟩ := hs.vnode v hv
    refine ⟨?_, ?_, (nofun), ?_⟩
    · intro e he
      cases he
      exact ⟨hlen.trans hput.symm, hlt⟩
    · intro v' hv'
      cases hv'
      exact ⟨by simpa using hcount, _, rfl, hsize⟩
    · intro y hy e' he'
      cases he'
      rcases mem_setPos hy with hy | rfl
      · exact Nat.le_trans (hs.pos y hy e he) (hold e he)
      · exact hroom
  refine ⟨hs', ?_⟩
  rw [Matches, hspec, agrees_iff hs', hfiles, ← toInt_eq_iff]
  exact ⟨fun h => (ContentRet.count.inj h.1).symm, fun h => ⟨congrArg _ h.symm, rfl, rfl⟩⟩

theorem dfsTmpfsWrite_matches (hs : Sized w s) (hb : Agrees b s) (h : s.dfsTmpfsWrite w fd buf realloc = some (s', r)) :
    Sized w s' ∧ (Matches b (.write fd buf realloc, r) s' ↔ Plain w s (.write fd buf realloc)) := by
  obtain ⟨hcontent, hfiles⟩ := (agrees_iff hs).1 hb
  rw [dfsTmpfsWrite] at h
  split at h
  · rename_i pos v d hpos hv hd
    obtain ⟨d', hd', hsize, hlen, hlt, hle⟩ := hs.get hv hpos
    cases hd.symm.trans hd'
    have hspec : b.spec (.write fd buf realloc) = if d.data.length < pos + buf.length ∧ realloc = none then (b, .count 0)
        else (⟨some (putBytes d.data pos buf), setPos b.files fd (pos + buf.length)⟩, .count buf.length) := by
      simp only [ByteFile.spec, hfiles, hpos, hcontent, hd, Option.map_some, Option.getD_some]
    have hplain (hput : ¬(d.size < pos + buf.length ∧ realloc = none)) :
        buf.length < 2 ^ 31 ↔ Plain w s (.write fd buf realloc) := by
      constructor
      · exact fun hlt _ _ _ _ => .inl hlt
      · exact fun hp => (hp d pos hd hpos).resolve_right hput
    have hmodlt := Nat.mod_lt (buf.length + pos) (Nat.two_pow_pos w)
    have hmodle := Nat.mod_le (buf.length + pos) (2 ^ w)
    dsimp only at h
    split at h
    · rename_i hgrow
      cases realloc with
      | none =>
        cases h
        refine ⟨hs, fun _ e p he hp => ?_, fun _ => ?_⟩
        · cases hd.symm.trans he
          cases hpos.symm.trans hp
          exact .inr ⟨by omega, rfl⟩
        · rw [Matches, hspec, if_pos ⟨by omega, rfl⟩]
          exact ⟨rfl, hb⟩
      | some fill =>
        dsimp only at h
        obtain ⟨hroom, h⟩ := Option.ite_none_left_eq_some.1 h
        have hlen' : (reallocData d.data ((buf.length + pos) % 2 ^ w) fill).length = (buf.length + pos) % 2 ^ w :=
          length_reallocData _ (by omega)
        have hn : pos + buf.length = (buf.length + pos) % 2 ^ w := by
          omega
        have hput : putBytes (reallocData d.data ((buf.length + pos) % 2 ^ w) fill) pos buf = putBytes d.data pos buf :=
          putBytes_reallocData (by omega) hn (by omega)
        cases h
        rw [← hplain fun h => nomatch h.2]
        refine put_matches pos ((buf.length + pos) % 2 ^ w) v
          (d := ⟨reallocData d.data ((buf.length + pos) % 2 ^ w) fill, (buf.length + pos) % 2 ^ w⟩) hs hfiles hv ?_ hlen'.symm
          hmodlt (Nat.le_of_eq hn) ?_ rfl rfl
        · intro e he
          cases hd.symm.trans he
          dsimp only
          omega
        · rw [hspec, if_neg (fun h => nomatch h.2), hput]
    · rename_i hfit
      obtain ⟨hroom, h⟩ := Option.ite_none_left_eq_some.1 h
      have hfits : pos + buf.length ≤ d.size := by
        by_cases hzero : buf.length = 0
        · omega
        · omega
      cases h
      rw [← hplain (by omega)]
      refine put_matches pos v.size v hs hfiles hv ?_ hlen hlt hfits ?_ hsize rfl
      · intro e he
        cases hd.symm.trans he
        exact Nat.le_refl _
      · rw [hspec, if_neg (by omega)]
  · cases h

/-! ## Runs -/

theorem specRun_snoc {es : List ContentEv} {e : ContentEv} :
    b.specRun (es ++ [e]) = (((b.specRun es).1.spec e).1, (b.specRun es).2 ++ [(e, ((b.specRun es).1.spec e).2)]) := by
  induction es generalizing b with
  | nil => rfl
  | cons e' es ih => simp only [List.cons_append, ByteFile.specRun, ih]

theorem refines_snoc (h : Refines ls s) : Refines (ls ++ [x]) s' ↔
    Matches ((ByteFile.mk none []).specRun (ls.map Prod.fst)).1 x s' := by
  rw [Refines, List.map_append, List.map_singleton, specRun_snoc, h.1, Matches]
  constructor
  · rintro ⟨hret, hagrees⟩
    exact ⟨(Prod.mk.inj (List.singleton_inj.1 (List.append_cancel_left hret))).2, hagrees⟩
  · rintro ⟨hret, hagrees⟩
    exact ⟨by rw [hret], hagrees⟩

/-- A step does what the sequence of bytes does if and only if it meets the condition. -/
theorem step_matches (hs : Sized w s) (hb : Agrees b s) (h : Step w s x s') :
    Sized w s' ∧ (Matches b x s' ↔ Plain w s x.1) := by
  obtain ⟨e, r⟩ := x
  change s.step w e = some (s', r) at h
  cases e with
  | «open» fd flags parent calloc =>
    rw [step] at h
    split at h
    · cases h
    · exact dfsTmpfsOpen_matches hs hb (Option.some.inj h)
  | close fd =>
    obtain ⟨hs', hm⟩ := dfsTmpfsClose_matches hs hb h
    exact ⟨hs', fun _ => trivial, fun _ => hm⟩
  | read fd count => exact dfsTmpfsRead_matches hs hb h
  | write fd buf realloc => exact dfsTmpfsWrite_matches hs hb h
  | lseek fd offset => exact dfsFileLseek_matches hs hb h

theorem sized_initial : Sized w initial :=
  ⟨fun _ h => (nomatch h), fun _ h => (nomatch h), fun _ => rfl, fun _ h => (nomatch h)⟩

theorem refines_initial : Refines [] initial :=
  ⟨rfl, rfl, rfl, fun _ h => (nomatch h), fun _ h => (nomatch h)⟩

/-- A file of one byte is open, and opened again with `O_TRUNC`. -/
def openedTwice (flags : OpenFlags) : List (ContentEv × ContentRet) :=
  [(.open 0 ⟨true, false, false⟩ true true, .count 0), (.write 0 [7] (some 0), .count 1), (.open 1 flags true true, .count 0)]

end TmpfsContent

end RtThread
