import Mathlib.Logic.Function.Basic
import RtThread.Mem.Memory

/-!
# The ring buffer

`ringbuffer.c`: bytes are put in a pool at `write_index` and got from `read_index`. Both wrap at the end of the pool, and
a mirror bit that is flipped at each wrap tells a full buffer from an empty one.
-/

namespace RtThread

/-- `enum rt_ringbuffer_state`. -/
inductive RingbufferState
  | empty
  | full
  | halffull
  deriving DecidableEq, Repr

/-- `struct rt_ringbuffer`. The bytes behind `buffer_ptr` are read by their offset. -/
structure RtRingbuffer where
  bufferPtr : Nat → BitVec 8
  readMirror : Bool
  readIndex : Nat
  writeMirror : Bool
  writeIndex : Nat
  bufferSize : Nat

/-- What a bit-field of 31 bits keeps. -/
def index31 (n : Nat) : Nat := n % 2 ^ 31

/-- `rt_memcpy(&dst[d], &src[s], n)`. -/
def rtMemcpy (dst : Nat → BitVec 8) (d : Nat) (src : Nat → BitVec 8) (s n : Nat) : Nat → BitVec 8 :=
  fun i => if d ≤ i ∧ i < d + n then src (s + (i - d)) else dst i

def rtRingbufferStatus (rb : RtRingbuffer) : RingbufferState :=
  if rb.readIndex = rb.writeIndex then
    if rb.readMirror = rb.writeMirror then .empty else .full
  else .halffull

def rtRingbufferInit (w : Word) (pool : Nat → BitVec 8) (size : Nat) : RtRingbuffer where
  bufferPtr := pool
  readMirror := false
  readIndex := 0
  writeMirror := false
  writeIndex := 0
  bufferSize := w.rtAlignDown size

def rtRingbufferDataLen (rb : RtRingbuffer) : Nat :=
  match rtRingbufferStatus rb with
  | .empty => 0
  | .full => rb.bufferSize
  | .halffull =>
    let wi := rb.writeIndex
    let ri := rb.readIndex
    if wi > ri then wi - ri else rb.bufferSize - (ri - wi)

def rtRingbufferSpaceLen (rb : RtRingbuffer) : Nat := rb.bufferSize - rtRingbufferDataLen rb

/-- The two copies around the end of the pool. -/
def RtRingbuffer.wrapCopy (rb : RtRingbuffer) (ptr : Nat → BitVec 8) (length : Nat) : Nat → BitVec 8 :=
  rtMemcpy (rtMemcpy rb.bufferPtr rb.writeIndex ptr 0 (rb.bufferSize - rb.writeIndex)) 0 ptr
    (rb.bufferSize - rb.writeIndex) (length - (rb.bufferSize - rb.writeIndex))

def rtRingbufferPut (rb : RtRingbuffer) (ptr : Nat → BitVec 8) (length : Nat) : Nat × RtRingbuffer :=
  let size := rtRingbufferSpaceLen rb
  if size = 0 then (0, rb)
  else
    let length := if size < length then size else length
    if rb.bufferSize - rb.writeIndex > length then
      (length, { rb with
        bufferPtr := rtMemcpy rb.bufferPtr rb.writeIndex ptr 0 length
        writeIndex := index31 (rb.writeIndex + length) })
    else
      (length, { rb with
        bufferPtr := rb.wrapCopy ptr length
        writeMirror := !rb.writeMirror
        writeIndex := index31 (length - (rb.bufferSize - rb.writeIndex)) })

def rtRingbufferPutForce (rb : RtRingbuffer) (ptr : Nat → BitVec 8) (length : Nat) : Nat × RtRingbuffer :=
  let spaceLength := rtRingbufferSpaceLen rb
  let src := if length > rb.bufferSize then fun i => ptr (length - rb.bufferSize + i) else ptr
  let length := if length > rb.bufferSize then rb.bufferSize else length
  if rb.bufferSize - rb.writeIndex > length then
    let rb1 := { rb with
      bufferPtr := rtMemcpy rb.bufferPtr rb.writeIndex src 0 length
      writeIndex := index31 (rb.writeIndex + length) }
    (length, if length > spaceLength then { rb1 with readIndex := rb1.writeIndex } else rb1)
  else
    let rb1 := { rb with
      bufferPtr := rb.wrapCopy src length
      writeMirror := !rb.writeMirror
      writeIndex := index31 (length - (rb.bufferSize - rb.writeIndex)) }
    (length,
      if length > spaceLength then
        { rb1 with
          readMirror := if rb1.writeIndex ≤ rb1.readIndex then !rb1.readMirror else rb1.readMirror
          readIndex := rb1.writeIndex }
      else rb1)

/-- The bytes are written to the caller's buffer `ptr`. -/
def rtRingbufferGet (rb : RtRingbuffer) (ptr : Nat → BitVec 8) (length : Nat) :
    Nat × (Nat → BitVec 8) × RtRingbuffer :=
  let size := rtRingbufferDataLen rb
  if size = 0 then (0, ptr, rb)
  else
    let length := if size < length then size else length
    if rb.bufferSize - rb.readIndex > length then
      (length, rtMemcpy ptr 0 rb.bufferPtr rb.readIndex length,
        { rb with readIndex := index31 (rb.readIndex + length) })
    else
      let ptr1 := rtMemcpy ptr 0 rb.bufferPtr rb.readIndex (rb.bufferSize - rb.readIndex)
      (length,
        rtMemcpy ptr1 (rb.bufferSize - rb.readIndex) rb.bufferPtr 0 (length - (rb.bufferSize - rb.readIndex)),
        { rb with
          readMirror := !rb.readMirror
          readIndex := index31 (length - (rb.bufferSize - rb.readIndex)) })

/-- The size, and what `*ptr` points to: an offset in the pool, or `RT_NULL`. -/
def rtRingbufferPeek (rb : RtRingbuffer) : Nat × Option Nat × RtRingbuffer :=
  let size := rtRingbufferDataLen rb
  if size = 0 then (0, none, rb)
  else if rb.bufferSize - rb.readIndex > size then
    (size, some rb.readIndex, { rb with readIndex := index31 (rb.readIndex + size) })
  else
    (rb.bufferSize - rb.readIndex, some rb.readIndex, { rb with readMirror := !rb.readMirror, readIndex := 0 })

def rtRingbufferPutchar (rb : RtRingbuffer) (ch : BitVec 8) : Nat × RtRingbuffer :=
  if rtRingbufferSpaceLen rb = 0 then (0, rb)
  else
    let rb1 := { rb with bufferPtr := Function.update rb.bufferPtr rb.writeIndex ch }
    if rb1.writeIndex = rb1.bufferSize - 1 then
      (1, { rb1 with writeMirror := !rb1.writeMirror, writeIndex := 0 })
    else
      (1, { rb1 with writeIndex := index31 (rb1.writeIndex + 1) })

def rtRingbufferPutcharForce (rb : RtRingbuffer) (ch : BitVec 8) : Nat × RtRingbuffer :=
  let oldState := rtRingbufferStatus rb
  let rb1 := { rb with bufferPtr := Function.update rb.bufferPtr rb.writeIndex ch }
  if rb1.writeIndex = rb1.bufferSize - 1 then
    let rb2 := { rb1 with writeMirror := !rb1.writeMirror, writeIndex := 0 }
    (1, if oldState = .full then { rb2 with readMirror := !rb2.readMirror, readIndex := rb2.writeIndex } else rb2)
  else
    let rb2 := { rb1 with writeIndex := index31 (rb1.writeIndex + 1) }
    (1, if oldState = .full then { rb2 with readIndex := rb2.writeIndex } else rb2)

/-- The byte is written to the caller's `*ch`. -/
def rtRingbufferGetchar (rb : RtRingbuffer) (ch : BitVec 8) : Nat × BitVec 8 × RtRingbuffer :=
  if rtRingbufferDataLen rb = 0 then (0, ch, rb)
  else
    let ch := rb.bufferPtr rb.readIndex
    if rb.readIndex = rb.bufferSize - 1 then
      (1, ch, { rb with readMirror := !rb.readMirror, readIndex := 0 })
    else
      (1, ch, { rb with readIndex := index31 (rb.readIndex + 1) })

namespace RtRingbuffer

/-- `n` bytes from `ptr` on. -/
def bytes (ptr : Nat → BitVec 8) (n : Nat) : List (BitVec 8) := (List.range n).map ptr

/-- A call on a ring buffer, with what its pointer arguments point to. -/
inductive Op
  | put (ptr : Nat → BitVec 8) (length : Nat)
  | putForce (ptr : Nat → BitVec 8) (length : Nat)
  | putchar (ch : BitVec 8)
  | putcharForce (ch : BitVec 8)
  | get (ptr : Nat → BitVec 8) (length : Nat)
  | getchar (ch : BitVec 8)
  | peek

/-- What a call returns, and what its pointer arguments point to then. -/
inductive Ret
  | size (n : Nat)
  | got (n : Nat) (ptr : Nat → BitVec 8)
  | char (n : Nat) (ch : BitVec 8)
  | peeked (bytes : List (BitVec 8))

/-- One call. The caller of `rt_ringbuffer_peek` reads the bytes it got the pointer and the size of. -/
def call (rb : RtRingbuffer) : Op → Ret × RtRingbuffer
  | .put ptr length => let (n, rb1) := rtRingbufferPut rb ptr length; (.size n, rb1)
  | .putForce ptr length => let (n, rb1) := rtRingbufferPutForce rb ptr length; (.size n, rb1)
  | .putchar ch => let (n, rb1) := rtRingbufferPutchar rb ch; (.size n, rb1)
  | .putcharForce ch => let (n, rb1) := rtRingbufferPutcharForce rb ch; (.size n, rb1)
  | .get ptr length => let (n, ptr1, rb1) := rtRingbufferGet rb ptr length; (.got n ptr1, rb1)
  | .getchar ch => let (n, ch1, rb1) := rtRingbufferGetchar rb ch; (.char n ch1, rb1)
  | .peek =>
    let (n, p, rb1) := rtRingbufferPeek rb
    (.peeked (match p with | none => [] | some p => bytes (fun i => rb1.bufferPtr (p + i)) n), rb1)

/-- The calls of a list, with what they return. -/
def calls (rb : RtRingbuffer) : List Op → List Ret × RtRingbuffer
  | [] => ([], rb)
  | op :: ops =>
    let (ret, rb1) := rb.call op
    let (rets, rb2) := rb1.calls ops
    (ret :: rets, rb2)

end RtRingbuffer

end RtThread
