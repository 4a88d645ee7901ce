import Mathlib.Algebra.Group.Nat.Defs
import RtThread.Dfs.Path

/-!
# The table of the mounted filesystems

`dfs_filesystem_lookup` of `dfs_fs.c` and `dfs_subdir` of `dfs.c`.
-/

namespace RtThread

deriving instance DecidableEq for CString

/-- `struct dfs_filesystem_ops`, with the operations of its files that may be missing. -/
structure DfsFilesystemOps where
  name : CString
  flagFullpath : Bool
  hasMount : Bool
  hasUnmount : Bool
  hasOpen : Bool
  hasClose : Bool
deriving DecidableEq

/-- A filesystem with all routines. -/
def dfsTestOps : DfsFilesystemOps where
  name := ⟨['t'], nul_not_mem_t⟩
  flagFullpath := false
  hasMount := true
  hasUnmount := true
  hasOpen := true
  hasClose := true

/-- `struct dfs_filesystem` -/
structure DfsFilesystem where
  devId : Option Nat
  path : Option CString
  ops : Option DfsFilesystemOps
deriving DecidableEq

/-- An entry that `rt_memset` has cleared. -/
def DfsFilesystem.clear : DfsFilesystem where
  devId := none
  path := none
  ops := none

def CString.strlen (s : CString) : Nat := s.chars.length

/-- `strncmp(a, b, n) == 0` -/
def strncmpEq (a b : CString) (n : Nat) : Bool := (a.chars ++ [nul]).take n == (b.chars ++ [nul]).take n

/-- `fspath`, a `uint32_t`. -/
def fspath (mount : CString) : Nat := mount.strlen % 2 ^ 32

/-- The tests of `dfs_filesystem_lookup` that do not depend on the other entries. -/
def matchesPath (mount path : CString) : Bool :=
  strncmpEq mount path (fspath mount) &&
    !(decide (fspath mount > 1) && decide (path.strlen > fspath mount) && path.chars[fspath mount]? != some '/')

/-- The loop of `dfs_filesystem_lookup`, from the entry `i` on. -/
def lookupFrom (path : CString) : List DfsFilesystem → Nat → Option Nat → Nat → Option Nat
  | [], _, fs, _ => fs
  | iter :: rest, i, fs, prefixlen =>
    match iter.path, iter.ops with
    | some mount, some _ =>
      if fspath mount < prefixlen ∨ matchesPath mount path = false then lookupFrom path rest (i + 1) fs prefixlen
      else lookupFrom path rest (i + 1) (some i) (fspath mount)
    | _, _ => lookupFrom path rest (i + 1) fs prefixlen

/-- `dfs_filesystem_lookup`: the index of the entry. -/
def dfsFilesystemLookup (table : List DfsFilesystem) (path : CString) : Option Nat := lookupFrom path table 0 none 0

/-- `dfs_subdir`: where the result points to in `filename`. -/
def dfsSubdir (directory filename : CString) : Option (List Char) :=
  if directory.strlen = filename.strlen then none
  else
    let dir := directory.strlen
    if filename.chars[dir]? ≠ some '/' ∧ dir ≠ 0 then some (filename.chars.drop (dir - 1))
    else some (filename.chars.drop dir)

end RtThread
