import Mathlib.Data.Nat.Digits.Defs
import Mathlib.Algebra.Group.Nat.Defs

/-!
# Formatted printing

`print_number`, `rt_vsnprintf` and `rt_kprintf` (`kservice.c`), with `RT_PRINTF_PRECISION` and `RT_PRINTF_SPECIAL` as the
file defines them. Every place that emits a character tests `str < end` before it writes and then advances `str`; the
functions that emit take that pair of actions as the parameter `put`, on any state. `int` wraps modulo 2^32. The
arguments are machine words; a word taken as `char *` stands for the string it points to.
-/

namespace RtThread

/-- The width of `long` and of pointers, and whether `RT_KPRINTF_USING_LONGLONG` is configured. -/
structure PrintfConfig where
  bits : Nat
  longlong : Bool
  bits_ge : 32 ≤ bits

/-- The size of `tmp` in `print_number`. -/
def PrintfConfig.tmpSize (c : PrintfConfig) : Nat := if c.longlong then 64 else 32

/-- The width of `num`. -/
def PrintfConfig.numBits (c : PrintfConfig) : Nat := if c.longlong then 64 else c.bits

/-- A result of `int` arithmetic. -/
def wrapInt (x : Int) : Int := x.bmod (2 ^ 32)

/-- A character constant. -/
def chr (c : Char) : BitVec 8 := BitVec.ofNat 8 c.toNat

/-- The arguments: the words, and the strings that words point to, without their NUL. -/
structure VaList where
  word : Nat → BitVec 64
  string : BitVec 64 → List (BitVec 8)
  no_nul : ∀ p, 0 ∉ string p

/-- `va_arg(args, int)`. -/
def VaList.int (args : VaList) (i : Nat) : Int := ((args.word i).setWidth 32).toInt

/-- `ZEROPAD` to `LARGE`. -/
structure PrintFlags where
  zeropad : Bool := false
  sign : Bool := false
  plus : Bool := false
  space : Bool := false
  left : Bool := false
  special : Bool := false
  large : Bool := false
  deriving DecidableEq, Repr

section Put

variable {σ : Type} (put : BitVec 8 → σ → σ)

/-- The character, so many times. -/
def putN (c : BitVec 8) : Nat → σ → σ
  | 0, st => st
  | n + 1, st => putN c n (put c st)

/-- The characters, in order. -/
def putAll : List (BitVec 8) → σ → σ
  | [], st => st
  | c :: cs, st => putAll cs (put c st)

/-- `size` behind `while (size-- > 0)`. -/
def countdown (size : Int) : Int := wrapInt ((if 0 < size then 0 else size) - 1)

/-- The sign, and the number without it. -/
def getSign (c : PrintfConfig) (num : Nat) (qualifier : Option Char) (type : PrintFlags) : Option (BitVec 8) × Nat :=
  if type.sign then
    let width :=
      match qualifier with
      | some 'h' => 16
      | some 'L' => c.bits
      | some 'l' => c.bits
      | _ => 32
    if 2 ^ (width - 1) ≤ num % 2 ^ width then (some (chr '-'), (2 ^ width - num % 2 ^ width) % 2 ^ width)
    else if type.plus then (some (chr '+'), num)
    else if type.space then (some (chr ' '), num)
    else (none, num)
  else (none, num)

/-- `small_digits`, or `large_digits`. -/
def digitChar (large : Bool) (d : Nat) : BitVec 8 :=
  ((if large then "0123456789ABCDEF" else "0123456789abcdef").toList[d]?.map chr).getD 0

/-- What goes into `tmp`, the last digit first. -/
def tmpDigits (base num : Nat) (large : Bool) : List (BitVec 8) :=
  if num = 0 then [chr '0'] else (Nat.digits base num).map (digitChar large)

/-- The characters that the prefix of `#` takes from the width. -/
def specialWidth (base : Nat) : Int := if base = 2 ∨ base = 16 then 2 else if base = 8 then 1 else 0

/-- The prefix of `#`. -/
def specialPrefix (base : Nat) (large : Bool) : List (BitVec 8) :=
  if base = 2 then [chr '0', chr 'b']
  else if base = 8 then [chr '0']
  else if base = 16 then [chr '0', if large then chr 'X' else chr 'x']
  else []

/-- The blanks before a number that is padded with them on the left, and what is left of the width. -/
def blanksBefore (type : PrintFlags) (sign : Option (BitVec 8)) (size : Int) (st : σ) : Int × σ :=
  if type.zeropad = false ∧ type.left = false then
    let size := if sign.isSome ∧ 0 < size then size - 1 else size
    (countdown size, putN put (chr ' ') size.toNat st)
  else (size, st)

/-- The sign. -/
def putSign (sign : Option (BitVec 8)) (size : Int) (st : σ) : Int × σ :=
  match sign with
  | some sign => (wrapInt (size - 1), put sign st)
  | none => (size, st)

/-- The padding of a number that is not aligned to the left. -/
def padBefore (type : PrintFlags) (pad : BitVec 8) (size : Int) (st : σ) : Int × σ :=
  if type.left = false then (countdown size, putN put pad size.toNat st) else (size, st)

/-- `print_number`. More digits than `tmp` has room for are written behind it. -/
def printNumber (c : PrintfConfig) (num base : Nat) (qualifier : Option Char) (s precision : Int) (type : PrintFlags)
    (st : σ) : Option σ :=
  let type := if type.left then { type with zeropad := false } else type
  let pad := if type.zeropad then chr '0' else chr ' '
  let (sign, num) := getSign c num qualifier type
  let size := if type.special then wrapInt (s - specialWidth base) else s
  let tmp := tmpDigits base num type.large
  if c.tmpSize < tmp.length then none
  else
    let i : Int := tmp.length
    let precisionBak := precision
    let precision := max precision i
    let size := wrapInt (size - precision)
    let (size, st) := blanksBefore put type sign size st
    let (size, st) := putSign put sign size st
    let st := putAll put (if type.special then specialPrefix base type.large else []) st
    let (size, st) := padBefore put type pad size st
    let st := putN put (chr '0') (precision - i).toNat st
    let st := putAll put (if precisionBak ≠ 0 then tmp.reverse else []) st
    some (putN put (chr ' ') size.toNat st)

/-- What a round of the loop of `rt_vsnprintf` emits: a character of the format, `%c`, `%s`, a number, `%%`, or the
characters of a conversion that is none. -/
inductive Conversion
  | lit (c : BitVec 8)
  | char (left : Bool) (width : Int) (c : BitVec 8)
  | str (left : Bool) (width precision : Int) (s : List (BitVec 8))
  | number (num base : Nat) (qualifier : Option Char) (width precision : Int) (flags : PrintFlags)
  | other (cs : List (BitVec 8))
  deriving DecidableEq

/-- What is emitted. -/
def Conversion.emit (c : PrintfConfig) (st : σ) : Conversion → Option σ
  | .lit c => some (put c st)
  | .char left width ch =>
    -- each `while (--field_width > 0)` leaves 0, or the width less one
    let (width, st) :=
      if left then (width, st)
      else (min (wrapInt (width - 1)) 0, putN put (chr ' ') (wrapInt (width - 1)).toNat st)
    let st := put ch st
    some (putN put (chr ' ') (wrapInt (width - 1)).toNat st)
  | .str left width precision s =>
    -- `len` is an `int`, which the loop to the end of the string overflows
    if width < 0 ∧ 2 ^ 31 ≤ s.length then none
    else
      let len : Nat := if 0 ≤ width then min width.toNat s.length else s.length
      let len : Nat := if 0 < precision ∧ precision < len then precision.toNat else len
      let (width, st) :=
        if left then (width, st)
        else (wrapInt (min width len - 1), putN put (chr ' ') (width - len).toNat st)
      let st := putAll put (s.take len) st
      some (putN put (chr ' ') (width - len).toNat st)
  | .number num base qualifier width precision flags => printNumber put c num base qualifier width precision flags st
  | .other cs => some (putAll put cs st)

end Put

/-! ## Reading the format -/

/-- The flags behind a `%`. -/
def parseFlags (flags : PrintFlags) : List (BitVec 8) → PrintFlags × List (BitVec 8)
  | [] => (flags, [])
  | c :: fmt =>
    if c = chr '-' then parseFlags { flags with left := true } fmt
    else if c = chr '+' then parseFlags { flags with plus := true } fmt
    else if c = chr ' ' then parseFlags { flags with space := true } fmt
    else if c = chr '#' then parseFlags { flags with special := true } fmt
    else if c = chr '0' then parseFlags { flags with zeropad := true } fmt
    else (flags, c :: fmt)

/-- `_ISDIGIT`. -/
def isDigit (c : BitVec 8) : Bool := 48 ≤ c.toNat && c.toNat < 58

/-- `skip_atoi`. -/
def skipAtoi (i : Int) : List (BitVec 8) → Int × List (BitVec 8)
  | [] => (i, [])
  | c :: fmt => if isDigit c then skipAtoi (wrapInt (wrapInt (i * 10) + c.toNat - 48)) fmt else (i, c :: fmt)

/-- The field width, with the index of the next argument. -/
def parseWidth (args : VaList) (i : Nat) (flags : PrintFlags) (fmt : List (BitVec 8)) :
    Int × PrintFlags × List (BitVec 8) × Nat :=
  match fmt with
  | [] => (-1, flags, [], i)
  | c :: rest =>
    if isDigit c then
      let (width, fmt) := skipAtoi 0 fmt
      (width, flags, fmt, i)
    else if c = chr '*' then
      if args.int i < 0 then (wrapInt (-args.int i), { flags with left := true }, rest, i + 1)
      else (args.int i, flags, rest, i + 1)
    else (-1, flags, fmt, i)

/-- The precision, with the index of the next argument. -/
def parsePrecision (args : VaList) (i : Nat) (fmt : List (BitVec 8)) : Int × List (BitVec 8) × Nat :=
  match fmt with
  | [] => (-1, [], i)
  | c :: rest =>
    if c = chr '.' then
      match rest with
      | [] => (0, [], i)
      | d :: rest' =>
        if isDigit d then
          let (precision, fmt) := skipAtoi 0 rest
          (max precision 0, fmt, i)
        else if d = chr '*' then (max (args.int i) 0, rest', i + 1)
        else (0, rest, i)
    else (-1, fmt, i)

/-- The qualifier. -/
def parseQualifier (c : PrintfConfig) (fmt : List (BitVec 8)) : Option Char × List (BitVec 8) :=
  match fmt with
  | [] => (none, [])
  | q :: rest =>
    if q = chr 'h' then (some 'h', rest)
    else if q = chr 'l' then
      match rest with
      | l :: rest' => if c.longlong && l == chr 'l' then (some 'L', rest') else (some 'l', rest)
      | [] => (some 'l', [])
    else if q = chr 'L' ∧ c.longlong = true then (some 'L', rest)
    else (none, fmt)

/-- The argument of an integer conversion. -/
def numArg (c : PrintfConfig) (args : VaList) (i : Nat) (qualifier : Option Char) (sign : Bool) : Nat :=
  match qualifier with
  | some 'L' => (args.word i).toNat
  | some 'l' => (args.word i).toNat % 2 ^ c.bits
  | some 'h' =>
    let num := (args.word i).toNat % 2 ^ 16
    if sign && 2 ^ 15 ≤ num then num + (2 ^ c.numBits - 2 ^ 16) else num
  | _ => (args.word i).toNat % 2 ^ 32

/-- The conversion behind the qualifier. At the end of the format, a lone `%` is emitted. -/
def parseConversion (c : PrintfConfig) (args : VaList) (i : Nat) (flags : PrintFlags) (width precision : Int)
    (qualifier : Option Char) (fmt : List (BitVec 8)) : Conversion × List (BitVec 8) × Nat :=
  match fmt with
  | [] => (.other [chr '%'], [], i)
  | conv :: rest =>
    let number (base : Nat) (flags : PrintFlags) : Conversion × List (BitVec 8) × Nat :=
      (.number (numArg c args i qualifier flags.sign) base qualifier width precision flags, rest, i + 1)
    if conv = chr 'c' then (.char flags.left width ((args.word i).setWidth 8), rest, i + 1)
    else if conv = chr 's' then
      let p := (args.word i).setWidth c.bits
      let s := if p = 0 then "(NULL)".toList.map chr else args.string (p.setWidth 64)
      (.str flags.left width precision s, rest, i + 1)
    else if conv = chr 'p' then
      let num := (args.word i).toNat % 2 ^ c.bits
      if width = -1 then
        (.number num 16 qualifier (c.bits / 8 * 2 + 2) precision { flags with special := true, zeropad := true }, rest, i + 1)
      else (.number num 16 qualifier width precision flags, rest, i + 1)
    else if conv = chr '%' then (.other [chr '%'], rest, i)
    else if conv = chr 'b' then number 2 flags
    else if conv = chr 'o' then number 8 flags
    else if conv = chr 'X' then number 16 { flags with large := true }
    else if conv = chr 'x' then number 16 flags
    else if conv = chr 'd' ∨ conv = chr 'i' then number 10 { flags with sign := true }
    else if conv = chr 'u' then number 10 flags
    else (.other [chr '%', conv], rest, i)

/-- A round of the loop of `rt_vsnprintf`: what is emitted, the rest of the format, the next argument. -/
def nextConversion (c : PrintfConfig) (args : VaList) (i : Nat) (ch : BitVec 8) (fmt : List (BitVec 8)) :
    Conversion × List (BitVec 8) × Nat :=
  if ch = chr '%' then
    let (flags, fmt) := parseFlags {} fmt
    let (width, flags, fmt, i) := parseWidth args i flags fmt
    let (precision, fmt, i) := parsePrecision args i fmt
    let (qualifier, fmt) := parseQualifier c fmt
    parseConversion c args i flags width precision qualifier fmt
  else (.lit ch, fmt, i)

/-- The loop of `rt_vsnprintf`. Every round reads a character, so the length of the format is enough fuel. -/
def formatLoop {σ : Type} (put : BitVec 8 → σ → σ) (c : PrintfConfig) (args : VaList) :
    Nat → List (BitVec 8) → Nat → σ → Option σ
  | _, [], _, st => some st
  | 0, _ :: _, _, _ => none
  | fuel + 1, ch :: fmt, i, st =>
    let (conv, fmt, i) := nextConversion c args i ch fmt
    (conv.emit put c st).bind (formatLoop put c args fuel fmt i)

/-- Memory, and `str`. -/
structure PrintState where
  str : Nat
  mem : Nat → BitVec 8

/-- `if (str < end) *str = c; ++str`. -/
def putStr (bits stop : Nat) (c : BitVec 8) (st : PrintState) : PrintState where
  str := (st.str + 1) % 2 ^ bits
  mem := if st.str < stop then Function.update st.mem st.str c else st.mem

/-- `rt_vsnprintf`: the value returned and the memory, unless `tmp` overruns. -/
def rtVsnprintf (c : PrintfConfig) (buf size : Nat) (fmt : List (BitVec 8)) (args : VaList) (mem : Nat → BitVec 8) :
    Option (Int × (Nat → BitVec 8)) :=
  let stop := (buf + size) % 2 ^ c.bits
  let (stop, size) := if stop < buf then (2 ^ c.bits - 1, 2 ^ c.bits - 1 - buf) else (stop, size)
  (formatLoop (putStr c.bits stop) c args fmt.length fmt 0 ⟨buf, mem⟩).map fun st =>
    let mem :=
      if 0 < size then
        if st.str < stop then Function.update st.mem st.str 0 else Function.update st.mem (stop - 1) 0
      else st.mem
    (wrapInt ((st.str : Int) - buf), mem)

/-- `rt_kprintf` with its buffer of `consolebufSize` bytes at `buf`: what is sent to the console device, or, without one,
what `rt_hw_console_output` prints up to the first NUL. -/
def rtKprintf (c : PrintfConfig) (consolebufSize : Nat) (device : Bool) (buf : Nat) (fmt : List (BitVec 8)) (args : VaList)
    (mem : Nat → BitVec 8) : Option (List (BitVec 8)) :=
  (rtVsnprintf c buf (consolebufSize - 1) fmt args mem).map fun x =>
    let length := (x.1 % 2 ^ c.bits).toNat
    let length := min length (consolebufSize - 1)
    if device then (List.range length).map fun k => x.2 (buf + k)
    else ((List.range consolebufSize).map fun k => x.2 (buf + k)).takeWhile (· ≠ 0)

end RtThread
