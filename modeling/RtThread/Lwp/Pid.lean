import RtThread.Lib.Arena
import RtThread.Lwp.AvlRun

/-!
# Process identifiers

`lwp_pid.c`, 24–130 and 552–566: an array of tree nodes, of which some are in the tree of the pids in use, and the others
in a free list through `avl_right`, or never used. `RT_ASSERT` that fails has no result. A `pid_t` argument becomes a key
of type `size_t`.
-/

namespace RtThread

/-- `RT_LWP_MAX_NR` with its compile-time assertions, and the width of `size_t`. -/
structure PidConfig where
  maxNr : Nat
  sizeBits : Nat
  one_lt : 1 < maxNr
  lt_max : maxNr < 10000
  bits : 32 ≤ sizeBits

/-- `pid_t` -/
abbrev PidT := { pid : Int // -2 ^ 31 ≤ pid ∧ pid < 2 ^ 31 }

structure LwpPid where
  avl : LwpAvl
  freeHead : Option Nat
  aryAlloced : Nat
  currentPid : Nat

namespace LwpPid

def pidMax : Nat := 10000

/-- `(avl_key_t)pid` -/
def key (c : PidConfig) (pid : PidT) : Nat := (pid.1 % 2 ^ c.sizeBits).toNat

/-- `lwp_avl_find(pid, lwp_pid_root)` -/
def find (fuel : Nat) (s : LwpPid) (key : Nat) : Option (Option Nat) := s.avl.lwpAvlFind key fuel s.avl.ptree

/-- `for (; pid < limit; pid++) if (!lwp_avl_find(pid, lwp_pid_root)) break;` with `count` rounds to go: the flag
`found_noused`, and the variable `pid`. -/
def searchLoop (fuel : Nat) (s : LwpPid) : Nat → Nat → Option (Bool × Nat)
  | pid, 0 => some (false, pid)
  | pid, count + 1 =>
    match find fuel s pid with
    | none => none
    | some none => some (true, pid)
    | some (some _) => searchLoop fuel s (pid + 1) count

/-- The node that a new pid gets. -/
def takeNode (c : PidConfig) (s : LwpPid) : Option Nat × LwpPid :=
  match s.freeHead with
  | some p => (some p, { s with freeHead := (s.avl.node p).avlRight })
  | none =>
    if s.aryAlloced < c.maxNr then (some s.aryAlloced, { s with aryAlloced := s.aryAlloced + 1 }) else (none, s)

def lwpPidGet (c : PidConfig) (fuel : Nat) (s : LwpPid) : Option (Nat × LwpPid) :=
  match s.takeNode c with
  | (none, s) => some (0, s)
  | (some p, s) =>
    -- `RT_ASSERT(p->data == RT_NULL)`
    if (s.avl.node p).data ≠ none then
      none
    else
      match searchLoop fuel s (s.currentPid + 1) (pidMax - (s.currentPid + 1)) with
      | none => none
      | some (foundNoused, pid) =>
        match if foundNoused then some (true, pid) else searchLoop fuel s 1 s.currentPid with
        | none => none
        | some (_, pid) =>
          match (s.avl.setKey p pid).lwpAvlInsert p with
          | none => none
          | some avl => some (pid, { s with avl := avl, currentPid := pid })

def lwpPidPut (c : PidConfig) (fuel : Nat) (s : LwpPid) (pid : PidT) : Option LwpPid :=
  match find fuel s (key c pid) with
  | none => none
  | some none => some s
  | some (some p) =>
    match (s.avl.setData p none).lwpAvlRemove p with
    | none => none
    | some avl => some { s with avl := avl.setRight p s.freeHead, freeHead := some p }

def lwpPidSetLwp (c : PidConfig) (fuel : Nat) (s : LwpPid) (pid : PidT) (lwp : Option Nat) : Option LwpPid :=
  match find fuel s (key c pid) with
  | none => none
  | some none => some s
  | some (some p) => some { s with avl := s.avl.setData p lwp }

def lwpFromPid (c : PidConfig) (fuel : Nat) (s : LwpPid) (pid : PidT) : Option (Option Nat) :=
  match find fuel s (key c pid) with
  | none => none
  | some none => some none
  | some (some p) => some (s.avl.node p).data

end LwpPid

end RtThread
