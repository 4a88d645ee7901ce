import RtThread.Dfs.Filesystem
import RtThread.Lib.Intrusive

/-!
# Open files

The vnodes of `dfs_file.c` with their hash table, the table of file descriptors of `dfs.c`, `open` and `close` of
`dfs_posix.c`, and `dfs_mount` and `dfs_unmount` of `dfs_fs.c`. A call is one step; it gives nothing where the code uses a
vnode or an object that has been freed, or no vnode at all. What the filesystems, the devices and the allocator do
during a call is part of its label (`Outside`).
-/

namespace RtThread

/-- The characters before the one that ends the string. -/
def CString.ofBuffer (buf : List Char) : CString where
  chars := buf.takeWhile (· ≠ nul)
  nul_not_mem := by
    intro h
    simpa using List.all_eq_true.1 List.all_takeWhile _ h

/-- `struct dfs_vnode`, with the index of its filesystem in the table. -/
structure DfsVnode where
  path : Option CString
  fullpath : CString
  refCount : Int
  fs : Nat
  fops : DfsFilesystemOps
deriving DecidableEq

/-- `struct dfs_file` -/
structure DfsFile where
  refCount : Int
  vnode : Option Nat
deriving DecidableEq

/-- The vnodes and the objects that are allocated, the hash table `dfs_fm` of the vnodes, the file descriptors, and the
objects that callers of `dfs_file_open` own and have not closed. -/
structure DfsState where
  filesystemTable : List DfsFilesystem
  vnode : Nat → Option DfsVnode
  nextVnode : Nat
  head : Nat → List Nat
  file : Nat → Option DfsFile
  nextFile : Nat
  fds : List (Option Nat)
  owned : List Nat

/-- `DFS_FD_MAX`, the registered filesystems, and `working_directory`, which is absolute. -/
structure DfsConfig where
  dfsFdMax : Nat
  filesystemOperationTable : List (Option DfsFilesystemOps)
  workingDirectory : CString
  rooted : workingDirectory.chars.head? = some '/'

/-- What is not the code's own: whether memory is given, and the results of the routines of the filesystem. -/
structure Outside where
  fdsRealloc : Bool
  fileCalloc : Bool
  pathMalloc : Bool
  vnodeCalloc : Bool
  pathStrdup : Bool
  fopsOpen : Int
  fopsClose : Int
deriving DecidableEq

/-- The result of the close routine, if there is one. -/
def DfsVnode.closeResult (x : DfsVnode) (o : Outside) : Int := if x.fops.hasClose then o.fopsClose else 0

/-- The errors, and the results of the routines of a filesystem. -/
inductive DfsErrno
  | enoent
  | enxio
  | ebadf
  | enomem
  | enodev
  | enotdir
  | einval
  | enospc
  | enosys
  | routine (result : Int)
deriving DecidableEq, Repr

/-- What is done to an object: it is opened on a vnode, or closed, with the result of the close routine if there is one. -/
inductive FileAct
  | opened (file vnode : Nat)
  | close (file : Nat) (result : Int)
deriving DecidableEq, Repr

/-- What a call returns, the error it sets, and what it does to objects. -/
structure DfsRet where
  code : Int
  errno : Option DfsErrno
  acts : List FileAct
deriving DecidableEq, Repr

namespace DfsState

def setVnode (s : DfsState) (v : Nat) (x : Option DfsVnode) : DfsState :=
  { s with vnode := Function.update s.vnode v x }

def setFile (s : DfsState) (f : Nat) (d : Option DfsFile) : DfsState :=
  { s with file := Function.update s.file f d }

/-- `dfs_normalize_path(NULL, path)`: nothing if it leaves its buffer. -/
def normalize (c : DfsConfig) (path : CString) : Option (Option CString) :=
  match dfsNormalizePath ((joinPath c.workingDirectory path).length + 3) c.workingDirectory path with
  | .ok r => some (r.map CString.ofBuffer)
  | .error _ => none

/-! ## `dfs_file.c` -/

/-- `DFS_VNODE_HASH_NR` -/
def dfsVnodeHashNr : Nat := 128

/-- `bkdr_hash` -/
def bkdrHash (str : CString) : Nat := str.chars.foldl (fun hash c => (hash * 131 + c.toNat) % 2 ^ 32) 0 % dfsVnodeHashNr

/-- The loop of `dfs_vnode_find`. -/
def vnodeFindFrom (s : DfsState) (path : CString) : List Nat → Option (Option Nat)
  | [] => some none
  | v :: vs =>
    match s.vnode v with
    | none => none
    | some x => if path = x.fullpath then some (some v) else vnodeFindFrom s path vs

def dfsVnodeFind (s : DfsState) (path : CString) : Option (Option Nat) :=
  s.vnodeFindFrom path (s.head (bkdrHash path))

/-- `rt_list_remove(&vnode->list);` and `rt_free(vnode);` -/
def removeVnode (s : DfsState) (v : Nat) : DfsState :=
  { s with head := Intrusive.remove v s.head, vnode := Function.update s.vnode v none }

/-- The rest of `dfs_file_open`, from the call of the open routine on. -/
def fopsOpen (s : DfsState) (f v : Nat) (o : Outside) : Option (DfsState × Except DfsErrno Nat) :=
  match s.vnode v with
  | none => none
  | some x =>
    if x.fops.hasOpen = false then none
    else if o.fopsOpen < 0 then
      let s := s.setVnode v (some { x with refCount := x.refCount - 1 })
      if x.refCount - 1 = 0 then
        some ((s.removeVnode v).setFile f ((s.file f).map fun d => { d with vnode := none }), .error (.routine o.fopsOpen))
      else some (s, .error (.routine o.fopsOpen))
    else some (s, .ok v)

/-- The new vnode of `dfs_file_open`. -/
def newVnode (i : Nat) (mount fullpath : CString) (ops : DfsFilesystemOps) (o : Outside) : DfsVnode where
  path := if ops.flagFullpath then some fullpath
    else if o.pathStrdup then some (((dfsSubdir mount fullpath).map CString.ofBuffer).getD ⟨['/'], nul_not_mem_root⟩) else none
  fullpath := fullpath
  refCount := 1
  fs := i
  fops := ops

/-- `dfs_file_open`: the vnode that the object `f` is opened on. -/
def dfsFileOpen (c : DfsConfig) (s : DfsState) (f : Nat) (path : CString) (o : Outside) :
    Option (DfsState × Except DfsErrno Nat) :=
  match s.file f, normalize c path with
  | none, _ => none
  | _, none => none
  | some d, some normal =>
    match if o.pathMalloc then normal else none with
    | none => some (s, .error .enomem)
    | some fullpath =>
      match s.dfsVnodeFind fullpath with
      | none => none
      | some (some v) =>
        let s := s.setVnode v ((s.vnode v).map fun x => { x with refCount := x.refCount + 1 })
        (s.setFile f (some { d with vnode := some v })).fopsOpen f v o
      | some none =>
        match dfsFilesystemLookup s.filesystemTable fullpath with
        | none => some (s, .error .enoent)
        | some i =>
          if o.vnodeCalloc = false then some (s, .error .enomem)
          else
            match s.filesystemTable[i]? with
            | some ⟨_, some mount, some ops⟩ =>
              if ops.hasOpen = false then some (s, .error .enosys)
              else
                let v := s.nextVnode
                let s := { s.setVnode v (some (newVnode i mount fullpath ops o)) with nextVnode := v + 1 }
                let s := { s with head := Function.update s.head (bkdrHash fullpath) (v :: s.head (bkdrHash fullpath)) }
                (s.setFile f (some { d with vnode := some v })).fopsOpen f v o
            | _ => none

/-- `dfs_file_close`, and what it asks the filesystem. -/
def dfsFileClose (s : DfsState) (f : Nat) (o : Outside) : Option (DfsState × Except DfsErrno Unit × List FileAct) :=
  match s.file f with
  | none => none
  | some d =>
    if d.refCount = 1 then
      match d.vnode with
      | none => none
      | some v =>
        match s.vnode v with
        | none => none
        | some x =>
          if x.refCount ≤ 0 then some (s, .error .enxio, [])
          else
            if x.closeResult o < 0 then
              some (s, .error (.routine (x.closeResult o)), [.close f (x.closeResult o)])
            else if x.refCount = 1 then
              some ((s.removeVnode v).setFile f (some { d with vnode := none }), .ok (), [.close f (x.closeResult o)])
            else some (s, .ok (), [.close f (x.closeResult o)])
    else some (s, .ok (), [])

/-! ## `dfs.c` -/

/-- `fd_slot_expand`: whether there is a slot `fd`. -/
def fdSlotExpand (c : DfsConfig) (s : DfsState) (fd : Nat) (o : Outside) : DfsState × Bool :=
  if fd < s.fds.length then (s, true)
  else if c.dfsFdMax ≤ fd then (s, false)
  else
    let nr := min ((fd + 4) / 4 * 4) c.dfsFdMax
    if o.fdsRealloc = false then (s, false)
    else ({ s with fds := s.fds ++ List.replicate (nr - s.fds.length) none }, true)

/-- `DFS_STDIO_OFFSET` -/
def dfsStdioOffset : Nat := 3

/-- The loop of `fd_slot_alloc`. -/
def findSlot (fds : List (Option Nat)) (startfd : Nat) : Option Nat :=
  (List.range' startfd (fds.length - startfd)).find? fun idx => fds[idx]? == some none

/-- `fd_slot_alloc` -/
def fdSlotAlloc (c : DfsConfig) (s : DfsState) (startfd : Nat) (o : Outside) : DfsState × Option Nat :=
  match findSlot s.fds startfd with
  | some idx => (s, some idx)
  | none =>
    let idx := max s.fds.length startfd
    let x := s.fdSlotExpand c idx o
    (x.1, if x.2 then some idx else none)

/-- `fdt->fds[idx] = fd;` -/
def setSlot (s : DfsState) (idx : Nat) (f : Option Nat) : DfsState := { s with fds := s.fds.set idx f }

/-- A new object, as `fd_alloc` and `fd_init` set it up. -/
def newFile (s : DfsState) : DfsState :=
  { s.setFile s.nextFile (some ⟨1, none⟩) with nextFile := s.nextFile + 1 }

/-- `fd_new`, with `fd_alloc`: the slot, and the object in it. -/
def fdNew (c : DfsConfig) (s : DfsState) (o : Outside) : DfsState × Option (Nat × Nat) :=
  let x := s.fdSlotAlloc c dfsStdioOffset o
  match x.2 with
  | none => (x.1, none)
  | some idx =>
    if o.fileCalloc = false then (x.1, none)
    else (x.1.newFile.setSlot idx (some x.1.nextFile), some (idx, x.1.nextFile))

/-- The object in a slot, for the numbers that are file descriptors. -/
def slot (s : DfsState) (fd : Int) : Option Nat := if fd < 0 then none else (s.fds[fd.toNat]?).join

/-- The vnode of an object that `fdt_fd_release` frees. -/
def putVnode (s : DfsState) (v : Nat) : Option DfsState :=
  match s.vnode v with
  | none => none
  | some x =>
    if x.refCount - 1 = 0 then some (s.setVnode v none)
    else some (s.setVnode v (some { x with refCount := x.refCount - 1 }))

/-- `fdt_fd_release` -/
def fdRelease (s : DfsState) (fd : Int) : Option DfsState :=
  match s.slot fd with
  | none => some s
  | some f =>
    match s.file f with
    | none => none
    | some d =>
      let s := s.setSlot fd.toNat none
      if d.refCount - 1 = 0 then
        match d.vnode with
        | none => some (s.setFile f none)
        | some v => (s.putVnode v).map fun s => s.setFile f none
      else some (s.setFile f (some { d with refCount := d.refCount - 1 }))

/-- One more slot for an object. -/
def shareSlot (s : DfsState) (fd f : Nat) : Option DfsState :=
  match s.file f with
  | none => none
  | some d => some ((s.setSlot fd (some f)).setFile f (some { d with refCount := d.refCount + 1 }))

/-- `sys_dup` -/
def sysDup (c : DfsConfig) (s : DfsState) (oldfd : Int) (o : Outside) : Option (DfsState × Int) :=
  match s.slot oldfd with
  | none => some (s, -1)
  | some f =>
    let x := s.fdSlotAlloc c dfsStdioOffset o
    match x.2 with
    | none => some (x.1, -1)
    | some newfd => (x.1.shareSlot newfd f).map fun s => (s, (newfd : Int))

/-- `sys_dup2`, and what it asks the filesystem. -/
def sysDup2 (c : DfsConfig) (s : DfsState) (oldfd newfd : Int) (o : Outside) : Option (DfsState × Int × List FileAct) :=
  match s.slot oldfd with
  | none => some (s, -1, [])
  | some f =>
    if newfd < 0 then some (s, -1, [])
    else
      let x := s.fdSlotExpand c newfd.toNat o
      if x.2 = false then some (x.1, -1, [])
      else
        let s := x.1
        match s.slot newfd with
        | none => (s.shareSlot newfd.toNat f).map fun s => (s, newfd, [])
        | some g =>
          if g = f then some (s, newfd, [])
          else
            match s.dfsFileClose g o with
            | none => none
            | some (s, .error _, acts) => some (s, -1, acts)
            | some (s, .ok _, acts) =>
              ((s.fdRelease newfd).bind fun s => s.shareSlot newfd.toNat f).map fun s => (s, newfd, acts)

/-! ## `dfs_posix.c` -/

/-- `open` -/
def posixOpen (c : DfsConfig) (s : DfsState) (file : CString) (o : Outside) : Option (DfsState × DfsRet) :=
  match s.fdNew c o with
  | (s, none) => some (s, ⟨-1, some .enomem, []⟩)
  | (s, some (fd, f)) =>
    match s.dfsFileOpen c f file o with
    | none => none
    | some (s, .error e) => (s.fdRelease fd).map fun s => (s, ⟨-1, some e, []⟩)
    | some (s, .ok v) => some (s, ⟨fd, none, [.opened f v]⟩)

/-- `close` -/
def posixClose (s : DfsState) (fd : Int) (o : Outside) : Option (DfsState × DfsRet) :=
  match s.slot fd with
  | none => some (s, ⟨-1, some .ebadf, []⟩)
  | some f =>
    match s.dfsFileClose f o with
    | none => none
    | some (s, .error e, acts) => some (s, ⟨-1, some e, acts⟩)
    | some (s, .ok _, acts) => (s.fdRelease fd).map fun s => (s, ⟨0, none, acts⟩)

/-! ## Objects of callers -/

/-- `fd_init(&fd);` and `dfs_file_open(&fd, path, flags)`: an object that is not opened is not used any more. -/
def ownedOpen (c : DfsConfig) (s : DfsState) (path : CString) (o : Outside) : Option (DfsState × DfsRet) :=
  let f := s.nextFile
  match s.newFile.dfsFileOpen c f path o with
  | none => none
  | some (s, .error e) => some (s.setFile f none, ⟨-1, some e, []⟩)
  | some (s, .ok v) => some ({ s with owned := f :: s.owned }, ⟨0, none, [.opened f v]⟩)

/-- `dfs_file_close(&fd)` of an object that has been opened: when it is closed it is not used any more. -/
def ownedClose (s : DfsState) (f : Nat) (o : Outside) : Option (DfsState × DfsRet) :=
  if f ∈ s.owned then
    match s.dfsFileClose f o with
    | none => none
    | some (s, .error e, acts) => some (s, ⟨-1, some e, acts⟩)
    | some (s, .ok _, acts) => some ({ s.setFile f none with owned := s.owned.erase f }, ⟨0, none, acts⟩)
  else none

/-! ## `dfs_fs.c` -/

/-- What `dfs_mount` is given and gets from outside: the device that `rt_device_find` gives, if a name is given, and the
results of `rt_device_open` and of the mount routine. -/
structure MountOutside where
  deviceName : Bool
  device : Option Nat
  deviceOpen : Bool
  fopsMount : Int
  file : Outside
deriving DecidableEq

/-- The first filesystem whose name is the start of `filesystemtype`. -/
def findOps (table : List (Option DfsFilesystemOps)) (filesystemtype : CString) : Option DfsFilesystemOps :=
  table.findSome? fun ops => ops.filter fun ops => strncmpEq ops.name filesystemtype ops.name.strlen

/-- Opens the directory that is to be mounted on, and closes it. -/
def checkDirectory (c : DfsConfig) (s : DfsState) (fullpath : CString) (o : Outside) :
    Option (DfsState × Option DfsErrno × List FileAct) :=
  if fullpath.chars = "/".toList ∨ fullpath.chars = "/dev".toList then some (s, none, [])
  else
    let f := s.nextFile
    match s.newFile.dfsFileOpen c f fullpath o with
    | none => none
    | some (s, .error _) => some (s.setFile f none, some .enotdir, [])
    | some (s, .ok v) =>
      match s.dfsFileClose f o with
      | none => none
      -- the result is not looked at
      | some (s, _, acts) => some (s.setFile f none, none, .opened f v :: acts)

/-- The loop over the table: an error if the path is mounted, else the first empty entry from the index `i` on. -/
def findEntry (path : CString) : List DfsFilesystem → Nat → Option Nat → Option (Except DfsErrno (Option Nat))
  | [], _, fs => some (.ok fs)
  | iter :: rest, i, fs =>
    match iter.ops, iter.path with
    | none, _ => findEntry path rest (i + 1) (fs.or (some i))
    | some _, some mount => if mount = path then some (.error .einval) else findEntry path rest (i + 1) fs
    | some _, none => none

def setEntry (s : DfsState) (i : Nat) (fs : DfsFilesystem) : DfsState :=
  { s with filesystemTable := s.filesystemTable.set i fs }

/-- The entry is registered, and cleared again if the device or the filesystem refuses. -/
def register (s : DfsState) (i : Nat) (fullpath : CString) (ops : DfsFilesystemOps) (o : MountOutside) : DfsState × Int :=
  let t := s.setEntry i ⟨if o.deviceName then o.device else none, some fullpath, some ops⟩
  if o.deviceName ∧ o.deviceOpen = false ∨ o.fopsMount < 0 then (t.setEntry i .clear, -1) else (t, 0)

/-- `dfs_mount` -/
def dfsMount (c : DfsConfig) (s : DfsState) (path filesystemtype : CString) (o : MountOutside) :
    Option (DfsState × DfsRet) :=
  if o.deviceName ∧ o.device = none then some (s, ⟨-1, some .enodev, []⟩)
  else
    match findOps c.filesystemOperationTable filesystemtype with
    | none => some (s, ⟨-1, some .enodev, []⟩)
    | some ops =>
      if ops.hasMount = false then some (s, ⟨-1, some .enosys, []⟩)
      else
        match normalize c path with
        | none => none
        | some normal =>
          match if o.file.pathMalloc then normal else none with
          | none => some (s, ⟨-1, some .enotdir, []⟩)
          | some fullpath =>
            match s.checkDirectory c fullpath o.file with
            | none => none
            | some (s, some e, acts) => some (s, ⟨-1, some e, acts⟩)
            | some (s, none, acts) =>
              -- the path is compared as it has been given
              match findEntry path s.filesystemTable 0 none with
              | none => none
              | some (.error e) => some (s, ⟨-1, some e, acts⟩)
              | some (.ok none) => some (s, ⟨-1, some .enospc, acts⟩)
              | some (.ok (some i)) =>
                let x := s.register i fullpath ops o
                some (x.1, ⟨x.2, none, acts⟩)

/-- The first entry with the path. -/
def findMounted (table : List DfsFilesystem) (fullpath : CString) : Option Nat :=
  table.findIdx? fun iter => iter.path = some fullpath

/-- `dfs_unmount`, with the result of the unmount routine. -/
def dfsUnmount (c : DfsConfig) (s : DfsState) (specialfile : CString) (pathMalloc : Bool) (fopsUnmount : Int) :
    Option (DfsState × DfsRet) :=
  match normalize c specialfile with
  | none => none
  | some normal =>
    match if pathMalloc then normal else none with
    | none => some (s, ⟨-1, some .enotdir, []⟩)
    | some fullpath =>
      match findMounted s.filesystemTable fullpath with
      | none => some (s, ⟨-1, none, []⟩)
      | some i =>
        match (s.filesystemTable[i]?).bind DfsFilesystem.ops with
        | none => none
        | some ops =>
          if ops.hasUnmount = false ∨ fopsUnmount < 0 then some (s, ⟨-1, none, []⟩)
          else some (s.setEntry i .clear, ⟨0, none, []⟩)

end DfsState

/-- The calls. -/
inductive DfsEv
  | fdNew (o : Outside)
  | fdRelease (fd : Int)
  | dup (oldfd : Int) (o : Outside)
  | dup2 (oldfd newfd : Int) (o : Outside)
  | posixOpen (file : CString) (o : Outside)
  | posixClose (fd : Int) (o : Outside)
  | ownedOpen (path : CString) (o : Outside)
  | ownedClose (file : Nat) (o : Outside)
  | mount (path filesystemtype : CString) (o : DfsState.MountOutside)
  | unmount (specialfile : CString) (pathMalloc : Bool) (fopsUnmount : Int)
deriving DecidableEq

namespace DfsState

def step (c : DfsConfig) (s : DfsState) : DfsEv → Option (DfsState × DfsRet)
  | .fdNew o =>
    match s.fdNew c o with
    | (s, none) => some (s, ⟨-1, none, []⟩)
    | (s, some (fd, _)) => some (s, ⟨fd, none, []⟩)
  | .fdRelease fd => (s.fdRelease fd).map fun s => (s, ⟨0, none, []⟩)
  | .dup oldfd o => (s.sysDup c oldfd o).map fun x => (x.1, ⟨x.2, none, []⟩)
  | .dup2 oldfd newfd o => (s.sysDup2 c oldfd newfd o).map fun x => (x.1, ⟨x.2.1, none, x.2.2⟩)
  | .posixOpen file o => s.posixOpen c file o
  | .posixClose fd o => s.posixClose fd o
  | .ownedOpen path o => s.ownedOpen c path o
  | .ownedClose f o => s.ownedClose f o
  | .mount path filesystemtype o => s.dfsMount c path filesystemtype o
  | .unmount specialfile pathMalloc fopsUnmount => s.dfsUnmount c specialfile pathMalloc fopsUnmount

/-- After `dfs_init`, with a table of `n` entries. -/
def initial (n : Nat) : DfsState where
  filesystemTable := List.replicate n .clear
  vnode _ := none
  nextVnode := 0
  head _ := []
  file _ := none
  nextFile := 0
  fds := []
  owned := []

def Step (c : DfsConfig) (s : DfsState) (x : DfsEv × DfsRet) (s' : DfsState) : Prop := s.step c x.1 = some (s', x.2)

end DfsState

end RtThread
