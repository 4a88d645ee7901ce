import Mathlib.Data.List.Basic

/-!
# Path normalisation

`dfs_normalize_path` of `dfs.c`: the joined path is rewritten in its buffer, from the position `src` to the position `dst`.
Every read and write says whether it is inside the buffer.
-/

namespace RtThread

/-- The character that ends a string. -/
def nul : Char := '\x00'

/-- A string of C, without the character that ends it. -/
structure CString where
  chars : List Char
  nul_not_mem : nul ∉ chars

theorem nul_not_mem_root : nul ∉ ['/'] := by decide

theorem nul_not_mem_mnt : nul ∉ ['/', 'm', 'n', 't'] := by decide

theorem nul_not_mem_t : nul ∉ ['t'] := by decide

/-- What goes wrong: a read or a write outside of the buffer, or a loop that is not done. -/
inductive PathFault
  | outOfBounds
  | outOfFuel
deriving DecidableEq, Repr

abbrev PathM := Except PathFault

/-- `buf[i]` -/
def load (buf : List Char) (i : Nat) : PathM Char :=
  match buf[i]? with
  | some c => .ok c
  | none => .error .outOfBounds

/-- `buf[i] = c` -/
def store (buf : List Char) (i : Nat) (c : Char) : PathM (List Char) :=
  if i < buf.length then .ok (buf.set i c) else .error .outOfBounds

/-- The path before normalisation: `filename` if it is absolute, else the two joined. -/
def joinPath (directory filename : CString) : List Char :=
  if filename.chars.head? ≠ some '/' then directory.chars ++ '/' :: filename.chars else filename.chars

/-- `while ((*src == '/') && (*src != '\0')) src++;` -/
def skipSlashes : Nat → List Char → Nat → PathM Nat
  | 0, _, _ => .error .outOfFuel
  | n + 1, buf, src => do
    let c ← load buf src
    if c = '/' then skipSlashes n buf (src + 1) else .ok src

/-- `while ((c = *src++) != '\0' && c != '/') *dst++ = c;` -/
def copyName : Nat → List Char → Nat → Nat → PathM (List Char × Nat × Nat × Char)
  | 0, _, _, _ => .error .outOfFuel
  | n + 1, buf, src, dst => do
    let c ← load buf src
    if c ≠ nul ∧ c ≠ '/' then
      let buf ← store buf dst c
      copyName n buf (src + 1) (dst + 1)
    else .ok (buf, src + 1, dst, c)

/-- `while (c == '/') c = *src++;` and `src--;` -/
def eraseSlashes : Nat → List Char → Nat → Char → PathM Nat
  | 0, _, _, _ => .error .outOfFuel
  | n + 1, buf, src, c =>
    if c = '/' then do
      let c ← load buf src
      eraseSlashes n buf (src + 1) c
    else .ok (src - 1)

/-- `while (dst0 < dst && dst[-1] != '/') dst--;` -/
def backUp (buf : List Char) : Nat → PathM Nat
  | 0 => .ok 0
  | dst + 1 => do
    let c ← load buf dst
    if c ≠ '/' then backUp buf dst else .ok (dst + 1)

/-- How a turn of the loop ends. -/
inductive PathTurn
  | next (buf : List Char) (src dst : Nat)
  | done (buf : List Char) (dst : Nat)
  | null

/-- `dst - dst0 == 1 && dst[-1] == '/'` -/
def atRoot (buf : List Char) (dst : Nat) : PathM Bool :=
  if dst = 1 then do
    let c ← load buf 0
    .ok (decide (c = '/'))
  else .ok false

/-- `up_one`: the last directory is left, and there is none if `dst` would be before the buffer. -/
def upOne (buf : List Char) (src dst : Nat) : PathM PathTurn := do
  let top ← atRoot buf dst
  if top = false ∧ dst = 0 then .ok .null
  else
    let dst ← backUp buf (if top then dst else dst - 1)
    .ok (.next buf src dst)

/-- Copy up to the next `/`, and erase all of them but one. -/
def copyUp (n : Nat) (buf : List Char) (src dst : Nat) : PathM PathTurn := do
  let (buf, src, dst, c) ← copyName n buf src dst
  if c = '/' then
    let buf ← store buf dst '/'
    let src ← eraseSlashes n buf src c
    .ok (.next buf src (dst + 1))
  else .ok (.done buf dst)

/-- One turn of the loop. -/
def pathTurn (n : Nat) (buf : List Char) (src dst : Nat) : PathM PathTurn := do
  let c ← load buf src
  if c = '.' then
    let c1 ← load buf (src + 1)
    if c1 = nul then copyUp n buf (src + 1) dst
    else if c1 = '/' then
      let src ← skipSlashes n buf (src + 2)
      .ok (.next buf src dst)
    else if c1 = '.' then
      let c2 ← load buf (src + 2)
      if c2 = nul then upOne buf (src + 2) dst
      else if c2 = '/' then
        let src ← skipSlashes n buf (src + 3)
        upOne buf src dst
      else copyUp n buf src dst
    else copyUp n buf src dst
  else copyUp n buf src dst

/-- `if ((dst != fullpath) && (*dst == '/')) *dst = '\0';` -/
def cutSlash (buf : List Char) (dst : Nat) : PathM (List Char) :=
  if dst = 0 then .ok buf
  else do
    let c ← load buf dst
    if c = '/' then store buf dst nul else .ok buf

/-- An empty path becomes `/`. -/
def fillEmpty (buf : List Char) : PathM (List Char) := do
  let c ← load buf 0
  if c = nul then
    let buf ← store buf 0 '/'
    store buf 1 nul
  else .ok buf

/-- What follows the loop: the end of the string, without a `/` at its end. -/
def finishPath (buf : List Char) (dst : Nat) : PathM (List Char) := do
  let buf ← store buf dst nul
  -- `dst--` leaves the buffer, and `*dst` is read
  if dst = 0 then .error .outOfBounds
  else
    let buf ← cutSlash buf (dst - 1)
    let buf ← fillEmpty buf
    .ok (buf.takeWhile (· ≠ nul))

/-- The loop, with the turns `n` bounded, as are the loops in it. -/
def pathLoop (n : Nat) : Nat → List Char → Nat → Nat → PathM (Option (List Char))
  | 0, _, _, _ => .error .outOfFuel
  | k + 1, buf, src, dst => do
    match ← pathTurn n buf src dst with
    | .null => .ok none
    | .done buf dst => do
      let path ← finishPath buf dst
      .ok (some path)
    | .next buf src dst => pathLoop n k buf src dst

/-- `dfs_normalize_path`, in a buffer that `rt_malloc` gives. -/
def dfsNormalizePath (n : Nat) (directory filename : CString) : PathM (Option (List Char)) :=
  pathLoop n n (joinPath directory filename ++ [nul]) 0 0

end RtThread
