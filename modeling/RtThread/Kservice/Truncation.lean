import RtThread.Kservice.Printf

/-!
# The truncation law of formatted printing

Emitting commutes with every map between states that commutes with `put` (`formatLoop_map`), so what a format emits is a
text that depends on the format and the arguments only, put character by character (`formatLoop_eq`). In memory, putting
a text writes its part below `end` (`putAll_mem`). From there the law of `rt_vsnprintf` and what `rt_kprintf` sends.
-/

namespace RtThread

open Function (update update_of_ne update_self)

section Map

variable {σ τ : Type} {put : BitVec 8 → σ → σ} {put' : BitVec 8 → τ → τ} {h : σ → τ} {c : PrintfConfig}

section

variable (hh : ∀ ch st, h (put ch st) = put' ch (h st))

include hh

theorem putN_map (ch : BitVec 8) (n : Nat) (st : σ) :
    h (putN put ch n st) = putN put' ch n (h st) := by
  induction n generalizing st with
  | zero => rfl
  | succ n ih => rw [putN, putN, ih, hh]

theorem putAll_map (cs : List (BitVec 8)) (st : σ) : h (putAll put cs st) = putAll put' cs (h st) := by
  induction cs generalizing st with
  | nil => rfl
  | cons ch cs ih => rw [putAll, putAll, ih, hh]

theorem blanksBefore_map (type : PrintFlags) (sign : Option (BitVec 8)) (size : Int) (st : σ) :
    blanksBefore put' type sign size (h st) = Prod.map id h (blanksBefore put type sign size st) := by
  unfold blanksBefore
  split
  · exact Prod.ext rfl (putN_map hh _ _ _).symm
  · rfl

theorem putSign_map (sign : Option (BitVec 8)) (size : Int) (st : σ) :
    putSign put' sign size (h st) = Prod.map id h (putSign put sign size st) := by
  cases sign with
  | none => rfl
  | some sign => exact Prod.ext rfl (hh sign st).symm

theorem padBefore_map (type : PrintFlags) (pad : BitVec 8) (size : Int)
    (st : σ) : padBefore put' type pad size (h st) = Prod.map id h (padBefore put type pad size st) := by
  unfold padBefore
  split
  · exact Prod.ext rfl (putN_map hh _ _ _).symm
  · rfl

theorem printNumber_map (num base : Nat) (qualifier : Option Char)
    (s precision : Int) (type : PrintFlags) (st : σ) :
    printNumber put' c num base qualifier s precision type (h st) =
      (printNumber put c num base qualifier s precision type st).map h := by
  unfold printNumber
  generalize (if type.left then { type with zeropad := false } else type) = type
  dsimp only
  split
  · rfl
  · simp only [Option.map_some, blanksBefore_map hh, putSign_map hh, padBefore_map hh, Prod.map_fst, Prod.map_snd, id,
      ← putN_map hh, ← putAll_map hh]

theorem Conversion.emit_map (conv : Conversion) (st : σ) :
    conv.emit put' c (h st) = (conv.emit put c st).map h := by
  cases conv with
  | lit ch => exact congrArg some (hh ch st).symm
  | char left width ch =>
    cases left with
    | true => exact congrArg some (by simp only [putN_map hh, hh])
    | false => exact congrArg some (by simp only [putN_map hh, hh])
  | str left width precision s =>
    by_cases hlen : width < 0 ∧ 2 ^ 31 ≤ s.length
    · simp only [Conversion.emit, if_pos hlen, Option.map_none]
    · simp only [Conversion.emit, if_neg hlen, Option.map_some, putN_map hh, putAll_map hh]
      cases left with
      | true => rfl
      | false => simp only [Bool.false_eq_true, if_false, putN_map hh]
  | number num base qualifier width precision flags => exact printNumber_map hh num base qualifier width precision flags st
  | other cs => exact congrArg some (putAll_map hh cs st).symm

theorem formatLoop_map (args : VaList) (fuel : Nat) (fmt : List (BitVec 8)) (i : Nat) (st : σ) :
    formatLoop put' c args fuel fmt i (h st) = (formatLoop put c args fuel fmt i st).map h := by
  induction fuel generalizing fmt i st with
  | zero => cases fmt <;> rfl
  | succ fuel ih =>
    cases fmt with
    | nil => rfl
    | cons ch fmt =>
      rw [formatLoop, formatLoop]
      obtain ⟨conv, fmt, i⟩ := nextConversion c args i ch fmt
      dsimp only
      rw [Conversion.emit_map hh]
      cases conv.emit put c st with
      | none => rfl
      | some st => exact ih _ _ _

end

end Map

/-! ## The text of a format -/

variable {σ : Type}

@[simp]
theorem putAll_append (put : BitVec 8 → σ → σ) (as bs : List (BitVec 8)) (st : σ) :
    putAll put (as ++ bs) st = putAll put bs (putAll put as st) := by
  induction as generalizing st with
  | nil => rfl
  | cons a as ih => exact ih _

/-- What a format with its arguments stands for: all the characters emitted, in order, unless `tmp` overruns. -/
def fullText (c : PrintfConfig) (fmt : List (BitVec 8)) (args : VaList) : Option (List (BitVec 8)) :=
  formatLoop (fun ch text => text ++ [ch]) c args fmt.length fmt 0 []

/-- Whatever the state, the loop puts the text of the format. -/
theorem formatLoop_eq (put : BitVec 8 → σ → σ) (c : PrintfConfig) (fmt : List (BitVec 8)) (args : VaList) (st : σ) :
    formatLoop put c args fmt.length fmt 0 st = (fullText c fmt args).map fun text => putAll put text st :=
  formatLoop_map (h := fun text => putAll put text st) (fun ch text => putAll_append put text [ch] st) args _ _ _ []

/-! ## Digits that fit -/

/-- The digits of a number conversion fit `tmp`, and `int` counts a string that is gone through to its end. -/
def Conversion.Fits (c : PrintfConfig) : Conversion → Prop
  | .number num base qualifier _ _ flags =>
    (tmpDigits base (getSign c num qualifier flags).2 flags.large).length ≤ c.tmpSize
  | .str _ width _ s => ¬ (width < 0 ∧ 2 ^ 31 ≤ s.length)
  | _ => True

theorem Conversion.emit_isSome (put : BitVec 8 → σ → σ) (c : PrintfConfig) (conv : Conversion) (st : σ) :
    (conv.emit put c st).isSome ↔ conv.Fits c := by
  cases conv with
  | number num base qualifier width precision flags =>
    have hdigits : tmpDigits base (getSign c num qualifier (if flags.left then { flags with zeropad := false } else flags)).2
        (if flags.left then { flags with zeropad := false } else flags).large =
        tmpDigits base (getSign c num qualifier flags).2 flags.large := by
      split <;> rfl
    simp only [Conversion.emit, Conversion.Fits, printNumber, hdigits]
    by_cases h : c.tmpSize < (tmpDigits base (getSign c num qualifier flags).2 flags.large).length
    · rw [if_pos h]
      exact iff_of_false (nofun) (Nat.not_le.2 h)
    · rw [if_neg h]
      exact iff_of_true rfl (Nat.not_lt.1 h)
  | str left width precision s =>
    simp only [Conversion.emit, Conversion.Fits]
    split
    · rename_i h
      exact iff_of_false (nofun) (not_not.2 h)
    · rename_i h
      exact iff_of_true rfl h
  | _ => exact iff_of_true rfl trivial

/-- The conversions that the loop goes through. -/
def conversionsFrom (c : PrintfConfig) (args : VaList) : Nat → List (BitVec 8) → Nat → List Conversion
  | 0, _, _ => []
  | _, [], _ => []
  | fuel + 1, ch :: fmt, i =>
    let (conv, fmt, i) := nextConversion c args i ch fmt
    conv :: conversionsFrom c args fuel fmt i

/-- The conversions of a format. -/
def conversions (c : PrintfConfig) (args : VaList) (fmt : List (BitVec 8)) : List Conversion :=
  conversionsFrom c args fmt.length fmt 0

theorem parseFlags_length (flags : PrintFlags) (fmt : List (BitVec 8)) :
    (parseFlags flags fmt).2.length ≤ fmt.length := by
  induction fmt generalizing flags with
  | nil => exact Nat.le_refl _
  | cons ch fmt ih =>
    unfold parseFlags
    split_ifs
    all_goals first | exact Nat.le_succ_of_le (ih _) | exact Nat.le_refl _

theorem skipAtoi_length (i : Int) (fmt : List (BitVec 8)) : (skipAtoi i fmt).2.length ≤ fmt.length := by
  induction fmt generalizing i with
  | nil => exact Nat.le_refl _
  | cons ch fmt ih =>
    unfold skipAtoi
    split_ifs
    · exact Nat.le_succ_of_le (ih _)
    · exact Nat.le_refl _

theorem parseWidth_length (args : VaList) (i : Nat) (flags : PrintFlags) (fmt : List (BitVec 8)) :
    (parseWidth args i flags fmt).2.2.1.length ≤ fmt.length := by
  unfold parseWidth
  cases fmt with
  | nil => exact Nat.le_refl _
  | cons ch fmt =>
    dsimp only
    split_ifs
    · exact skipAtoi_length 0 (ch :: fmt)
    all_goals simp

theorem parsePrecision_length (args : VaList) (i : Nat) (fmt : List (BitVec 8)) :
    (parsePrecision args i fmt).2.1.length ≤ fmt.length := by
  unfold parsePrecision
  rcases fmt with _ | ⟨ch, _ | ⟨d, fmt⟩⟩
  · exact Nat.le_refl _
  · dsimp only
    split_ifs <;> simp
  · dsimp only
    split_ifs
    · exact Nat.le_succ_of_le (skipAtoi_length 0 (d :: fmt))
    all_goals simp only [List.length_cons]
    all_goals omega

theorem parseQualifier_length (c : PrintfConfig) (fmt : List (BitVec 8)) :
    (parseQualifier c fmt).2.length ≤ fmt.length := by
  unfold parseQualifier
  rcases fmt with _ | ⟨ch, _ | ⟨d, fmt⟩⟩
  · exact Nat.le_refl _
  · dsimp only
    split_ifs <;> simp
  · dsimp only
    split_ifs <;> simp only [List.length_cons] <;> omega

theorem parseConversion_length (c : PrintfConfig) (args : VaList) (i : Nat) (flags : PrintFlags) (width precision : Int)
    (qualifier : Option Char) (fmt : List (BitVec 8)) :
    (parseConversion c args i flags width precision qualifier fmt).2.1.length ≤ fmt.length := by
  unfold parseConversion
  cases fmt with
  | nil => exact Nat.le_refl _
  | cons ch fmt =>
    dsimp only
    split_ifs <;> exact Nat.le_succ _

/-- A round reads a character at least. -/
theorem nextConversion_length (c : PrintfConfig) (args : VaList) (i : Nat) (ch : BitVec 8) (fmt : List (BitVec 8)) :
    (nextConversion c args i ch fmt).2.1.length ≤ fmt.length := by
  unfold nextConversion
  split
  · dsimp only
    calc _ ≤ _ := parseConversion_length c args _ _ _ _ _ _
      _ ≤ _ := parseQualifier_length c _
      _ ≤ _ := parsePrecision_length args _ _
      _ ≤ _ := parseWidth_length args _ _ _
      _ ≤ fmt.length := parseFlags_length _ fmt
  · exact Nat.le_refl _

theorem formatLoop_isSome (put : BitVec 8 → σ → σ) (c : PrintfConfig) (args : VaList) (fuel : Nat)
    (fmt : List (BitVec 8)) (i : Nat) (st : σ) (hfuel : fmt.length ≤ fuel) :
    (formatLoop put c args fuel fmt i st).isSome ↔ ∀ conv ∈ conversionsFrom c args fuel fmt i, conv.Fits c := by
  induction fuel generalizing fmt i st with
  | zero =>
    cases fmt with
    | nil => exact iff_of_true rfl (by simp [conversionsFrom])
    | cons ch fmt => exact absurd hfuel (by simp)
  | succ fuel ih =>
    cases fmt with
    | nil => exact iff_of_true rfl (by simp [conversionsFrom])
    | cons ch fmt =>
      have hlen := nextConversion_length c args i ch fmt
      rw [formatLoop, conversionsFrom]
      generalize nextConversion c args i ch fmt = next at hlen
      obtain ⟨conv, fmt', i'⟩ := next
      simp only [List.length_cons] at hfuel hlen
      have hfits := conv.emit_isSome put c st
      simp only [List.forall_mem_cons, ← hfits]
      cases conv.emit put c st with
      | none => simp
      | some st => simpa using ih fmt' i' st (by omega)

/-- The text exists when the digits of each number fit `tmp` and `int` counts each string. -/
theorem fullText_isSome (c : PrintfConfig) (fmt : List (BitVec 8)) (args : VaList) :
    (fullText c fmt args).isSome ↔ ∀ conv ∈ conversions c args fmt, conv.Fits c :=
  formatLoop_isSome _ c args _ fmt 0 [] (Nat.le_refl _)

/-! ## The text in memory -/

section Memory

variable (bits stop : Nat)

section

variable (text : List (BitVec 8)) (st : PrintState) (hstr : st.str < 2 ^ bits)

include hstr

theorem putAll_str : (putAll (putStr bits stop) text st).str = (st.str + text.length) % 2 ^ bits := by
  induction text generalizing st with
  | nil => exact (Nat.mod_eq_of_lt hstr).symm
  | cons ch text ih =>
    rw [putAll, ih _ (Nat.mod_lt _ (Nat.two_pow_pos bits)), putStr, Nat.mod_add_mod, List.length_cons]
    congr 1
    omega

/-- An address that `str` does not come to, or behind `end`, is not written. -/
theorem putAll_other {a : Nat} (ha : ∀ k < text.length, (st.str + k) % 2 ^ bits ≠ a ∨ stop ≤ a) :
    (putAll (putStr bits stop) text st).mem a = st.mem a := by
  induction text generalizing st with
  | nil => rfl
  | cons ch text ih =>
    rw [putAll, ih]
    · have hzero := ha 0 (by simp)
      rw [Nat.add_zero, Nat.mod_eq_of_lt hstr] at hzero
      simp only [putStr]
      split
      · exact update_of_ne (by omega) _ _
      · rfl
    · exact Nat.mod_lt _ (Nat.two_pow_pos bits)
    · intro k hk
      have hsucc := ha (k + 1) (by simpa using hk)
      rwa [putStr, Nat.mod_add_mod, Nat.add_assoc, Nat.add_comm 1 k]

/-- Every character below `end` is at its place: `str` does not come back. -/
theorem putAll_at (hlen : text.length ≤ 2 ^ bits)
    {k : Nat} (hk : k < text.length) (hstop : (st.str + k) % 2 ^ bits < stop) :
    (putAll (putStr bits stop) text st).mem ((st.str + k) % 2 ^ bits) = text[k] := by
  induction text generalizing st k with
  | nil => exact absurd hk (by simp)
  | cons ch text ih =>
    have hnext : (st.str + 1) % 2 ^ bits < 2 ^ bits := Nat.mod_lt _ (Nat.two_pow_pos bits)
    cases k with
    | zero =>
      rw [Nat.add_zero, Nat.mod_eq_of_lt hstr] at hstop ⊢
      rw [putAll, putAll_other]
      · simp only [putStr, if_pos hstop, update_self, List.getElem_cons_zero]
      · exact hnext
      · intro j hj
        refine Or.inl fun heq => ?_
        rw [putStr, Nat.mod_add_mod] at heq
        rw [List.length_cons] at hlen
        by_cases hlt : st.str + 1 + j < 2 ^ bits
        · rw [Nat.mod_eq_of_lt hlt] at heq
          omega
        · rw [Nat.mod_eq_sub_mod (by omega), Nat.mod_eq_of_lt (by omega)] at heq
          omega
    | succ k =>
      have hsame : ((st.str + 1) % 2 ^ bits + k) % 2 ^ bits = (st.str + (k + 1)) % 2 ^ bits := by
        rw [Nat.mod_add_mod, Nat.add_assoc, Nat.add_comm 1 k]
      have hmem := ih (putStr bits stop ch st) hnext (by rw [List.length_cons] at hlen; omega) (by simpa using hk)
        (hsame.trans_lt hstop)
      simp only [putStr, hsame] at hmem
      exact hmem

end

end Memory

/-! ## `end` -/

theorem wrapInt_lt (x : Int) : wrapInt x < 2 ^ 31 := by
  rw [wrapInt, Int.bmod_def]
  split <;> omega

/-- `str - buf`, as an `int`. -/
theorem wrapInt_sub {bits len : Nat} (buf : Nat) (hbits : 32 ≤ bits) (hlen : len < 2 ^ 31) :
    wrapInt (((buf + len) % 2 ^ bits : Nat) - (buf : Int)) = len := by
  obtain ⟨m, hm⟩ := Nat.pow_dvd_pow 2 hbits
  have hdiv := Nat.div_add_mod (buf + len) (2 ^ bits)
  have heq : (((buf + len) % 2 ^ bits : Nat) : Int) - buf = len - (2 ^ 32 : Nat) * (m * ((buf + len) / 2 ^ bits) : Nat) := by
    have hprod : 2 ^ bits * ((buf + len) / 2 ^ bits) = 2 ^ 32 * (m * ((buf + len) / 2 ^ bits)) := by rw [hm, Nat.mul_assoc]
    generalize (buf + len) / 2 ^ bits = q at *
    generalize (buf + len) % 2 ^ bits = r at *
    generalize 2 ^ bits * q = x at *
    generalize m * q = y at *
    omega
  rw [wrapInt, heq]
  generalize (m * ((buf + len) / 2 ^ bits) : Nat) = y
  rw [Int.bmod_def]
  split <;> omega

/-- `rt_vsnprintf` behind `fmt`'s loop. -/
def endText (buf stop size : Nat) (st : PrintState) : Int × (Nat → BitVec 8) :=
  (wrapInt ((st.str : Int) - buf),
    if 0 < size then
      if st.str < stop then update st.mem st.str 0 else update st.mem (stop - 1) 0
    else st.mem)

variable {c : PrintfConfig} {buf n : Nat}

/-- The buffer ends in the address space. -/
theorem rtVsnprintf_inside (hend : buf + n < 2 ^ c.bits) (fmt : List (BitVec 8))
    (args : VaList) (mem : Nat → BitVec 8) : rtVsnprintf c buf n fmt args mem =
      (fullText c fmt args).map fun text => endText buf (buf + n) n (putAll (putStr c.bits (buf + n)) text ⟨buf, mem⟩) := by
  have hstop : ¬ buf + n < buf := by omega
  simp only [rtVsnprintf, Nat.mod_eq_of_lt hend, if_neg hstop, formatLoop_eq, Option.map_map]
  rfl

/-- It does not: `end` is the last address. -/
theorem rtVsnprintf_clamped (hbuf : buf < 2 ^ c.bits) (hn : n < 2 ^ c.bits)
    (hend : 2 ^ c.bits ≤ buf + n) (fmt : List (BitVec 8)) (args : VaList) (mem : Nat → BitVec 8) :
    rtVsnprintf c buf n fmt args mem = (fullText c fmt args).map fun text =>
        endText buf (2 ^ c.bits - 1) (2 ^ c.bits - 1 - buf) (putAll (putStr c.bits (2 ^ c.bits - 1)) text ⟨buf, mem⟩) := by
  have hmod : (buf + n) % 2 ^ c.bits = buf + n - 2 ^ c.bits := by
    rw [Nat.mod_eq_sub_mod hend, Nat.mod_eq_of_lt (by omega)]
  have hstop : buf + n - 2 ^ c.bits < buf := by omega
  simp only [rtVsnprintf, hmod, if_pos hstop, formatLoop_eq, Option.map_map]
  rfl

/-! ## The law -/

/-- A call with `n` bytes at `buf` that returns `r` and leaves `mem'`: the returned value is the number of characters of the
text, nothing is written outside of the buffer, the buffer holds the prefix of the text that fits and, behind it, a NUL. -/
structure Truncates (buf n : Nat) (text : List (BitVec 8)) (mem : Nat → BitVec 8) (r : Int) (mem' : Nat → BitVec 8) :
    Prop where
  returned : r = text.length
  outside : ∀ a, ¬ (buf ≤ a ∧ a < buf + n) → mem' a = mem a
  chars : ∀ (k : Nat) (h : k < text.length), k + 1 < n → mem' (buf + k) = text[k]
  nul : 0 < n → mem' (buf + min text.length (n - 1)) = 0

section Law

variable {c : PrintfConfig} {fmt : List (BitVec 8)} {args : VaList} {text : List (BitVec 8)}

theorem endText_truncates (c : PrintfConfig) (buf size : Nat) (mem : Nat → BitVec 8) (hlen : text.length < 2 ^ 31)
    (hwrap : buf + text.length < 2 ^ c.bits) :
    Truncates buf size text mem
      (endText buf (buf + size) size (putAll (putStr c.bits (buf + size)) text ⟨buf, mem⟩)).1
      (endText buf (buf + size) size (putAll (putStr c.bits (buf + size)) text ⟨buf, mem⟩)).2 := by
  have hbuf : buf < 2 ^ c.bits := by omega
  have hstr : (putAll (putStr c.bits (buf + size)) text ⟨buf, mem⟩).str = buf + text.length := by
    rw [putAll_str _ _ text _ hbuf, Nat.mod_eq_of_lt hwrap]
  have hother : ∀ a, ¬ (buf ≤ a ∧ a < buf + size) →
      (putAll (putStr c.bits (buf + size)) text ⟨buf, mem⟩).mem a = mem a := by
    intro a ha
    refine putAll_other _ _ text _ hbuf fun k hk => ?_
    rw [Nat.mod_eq_of_lt (show buf + k < 2 ^ c.bits by omega)]
    omega
  have hat : ∀ (k : Nat) (hk : k < text.length), k < size →
      (putAll (putStr c.bits (buf + size)) text ⟨buf, mem⟩).mem (buf + k) = text[k] := by
    intro k hk hsize
    have hmod : (buf + k) % 2 ^ c.bits = buf + k := Nat.mod_eq_of_lt (by omega)
    have hmem := putAll_at _ (buf + size) text ⟨buf, mem⟩ hbuf (by omega) hk (by rw [hmod]; omega)
    rwa [hmod] at hmem
  have hret : wrapInt (((buf + text.length : Nat) : Int) - buf) = text.length := by
    have h := wrapInt_sub buf c.bits_ge hlen
    rwa [Nat.mod_eq_of_lt hwrap] at h
  generalize putAll (putStr c.bits (buf + size)) text ⟨buf, mem⟩ = st at hstr hother hat
  obtain ⟨str, mem'⟩ := st
  subst hstr
  refine ⟨hret, fun a ha => ?_, fun k hk hsize => ?_, fun hpos => ?_⟩
  · simp only [endText]
    split_ifs
    · rw [update_of_ne (by omega)]
      exact hother a ha
    · rw [update_of_ne (by omega)]
      exact hother a ha
    · exact hother a ha
  · simp only [endText]
    split_ifs
    · rw [update_of_ne (by omega)]
      exact hat k hk (by omega)
    · rw [update_of_ne (by omega)]
      exact hat k hk (by omega)
    · exact hat k hk (by omega)
  · simp only [endText, if_pos hpos]
    split
    · rw [Nat.min_eq_left (by omega), update_self]
    · rw [Nat.min_eq_right (by omega), show buf + (size - 1) = buf + size - 1 by omega, update_self]

variable {buf size consolebufSize logBuf : Nat} {mem : Nat → BitVec 8}

/-- A size beyond the address space is as good as all that is behind `buf`, when the text fits in there. -/
theorem Truncates.grow {n : Nat} {mem' : Nat → BitVec 8} {r : Int} (h : Truncates buf size text mem r mem')
    (hlen : text.length < size) (hn : size ≤ n) : Truncates buf n text mem r mem' where
  returned := h.returned
  outside a ha := h.outside a (by omega)
  chars k hk _ := h.chars k hk (by omega)
  nul _ := by
    have hnul := h.nul (by omega)
    rw [Nat.min_eq_left (by omega)] at hnul ⊢
    exact hnul

/-- The law at one address holds for the texts that `int` counts and that fit behind the address. -/
theorem truncates_iff (hbuf : buf < 2 ^ c.bits) (htext : fullText c fmt args = some text) :
    (∀ n mem, n < 2 ^ c.bits → ∃ r mem', rtVsnprintf c buf n fmt args mem = some (r, mem') ∧
      Truncates buf n text mem r mem') ↔ text.length < 2 ^ 31 ∧ (buf = 0 ∨ buf + text.length + 1 < 2 ^ c.bits) := by
  have hbits : 2 ^ 32 ≤ 2 ^ c.bits := Nat.pow_le_pow_right (by omega) c.bits_ge
  constructor
  · intro hlaw
    obtain ⟨r, mem', hcall, htr⟩ := hlaw (2 ^ c.bits - 1) (fun _ => 1) (by omega)
    have hlen : text.length < 2 ^ 31 := by
      have hr : ∃ x, r = wrapInt x := by
        by_cases hend : buf + (2 ^ c.bits - 1) < 2 ^ c.bits
        · rw [rtVsnprintf_inside hend, htext, Option.map_some, Option.some.injEq] at hcall
          exact ⟨_, (congrArg Prod.fst hcall).symm⟩
        · rw [rtVsnprintf_clamped hbuf (by omega) (by omega), htext, Option.map_some, Option.some.injEq] at hcall
          exact ⟨_, (congrArg Prod.fst hcall).symm⟩
      obtain ⟨x, hr⟩ := hr
      have hlt := wrapInt_lt x
      rw [← hr, htr.returned] at hlt
      omega
    refine ⟨hlen, ?_⟩
    by_contra hnot
    -- the byte behind the text is the last address, or none: it keeps what it had
    rw [rtVsnprintf_clamped hbuf (by omega) (by omega), htext, Option.map_some, Option.some.injEq] at hcall
    have hnul := htr.nul (by omega)
    obtain ⟨-, hmem⟩ := Prod.mk.inj hcall
    rw [Nat.min_eq_left (by omega), ← hmem] at hnul
    have hother := putAll_other c.bits (2 ^ c.bits - 1) text ⟨buf, fun _ => 1⟩ hbuf (a := buf + text.length)
      (fun _ _ => Or.inr (by omega))
    split_ifs at hnul with hpos hstr
    · rw [update_of_ne (by omega), hother] at hnul
      exact absurd hnul (show ¬ (1 : BitVec 8) = 0 by decide)
    · rw [update_of_ne (by omega), hother] at hnul
      exact absurd hnul (show ¬ (1 : BitVec 8) = 0 by decide)
    · rw [hother] at hnul
      exact absurd hnul (show ¬ (1 : BitVec 8) = 0 by decide)
  · rintro ⟨hlen, hfit⟩ n mem hn
    by_cases hend : buf + n < 2 ^ c.bits
    · rw [rtVsnprintf_inside hend, htext]
      exact ⟨_, _, rfl, endText_truncates c buf n mem hlen (by omega)⟩
    · rw [rtVsnprintf_clamped hbuf hn (by omega), htext]
      refine ⟨_, _, rfl, ?_⟩
      have htr := endText_truncates c buf (2 ^ c.bits - 1 - buf) mem hlen (by omega)
      rw [show buf + (2 ^ c.bits - 1 - buf) = 2 ^ c.bits - 1 by omega] at htr
      exact htr.grow (by omega) (by omega)

/-! ## The console -/

theorem takeWhile_prefix_of_zero (l rest : List (BitVec 8)) :
    (l ++ 0 :: rest).takeWhile (· ≠ 0) <+: l ∧ 0 ∉ (l ++ 0 :: rest).takeWhile (· ≠ 0) := by
  refine ⟨?_, fun hmem => by simpa using List.all_eq_true.1 List.all_takeWhile _ hmem⟩
  induction l with
  | nil => simp
  | cons a l ih =>
    rw [List.cons_append, List.takeWhile_cons]
    split
    · exact List.cons_prefix_cons.2 ⟨rfl, ih⟩
    · exact List.nil_prefix

/-- A buffer that holds a part of the text and a NUL. -/
theorem prefix_of_nul {m : Nat} (hm : m < size) (hlen : m ≤ text.length)
    (hchars : ∀ (k : Nat) (h : k < text.length), k < m → mem (buf + k) = text[k]) (hnul : mem (buf + m) = 0) :
    ((List.range size).map fun k => mem (buf + k)).takeWhile (· ≠ 0) <+: text ∧
      0 ∉ ((List.range size).map fun k => mem (buf + k)).takeWhile (· ≠ 0) := by
  have hsplit : ((List.range size).map fun k => mem (buf + k)) =
      text.take m ++ 0 :: (List.range (size - m - 1)).map fun k => mem (buf + (m + 1 + k)) := by
    apply List.ext_getElem
    · simp
      omega
    · intro k h₁ h₂
      rw [List.getElem_map, List.getElem_range]
      rcases Nat.lt_trichotomy k m with hk | rfl | hk
      · rw [List.getElem_append_left (by simp; omega), List.getElem_take]
        exact hchars k (by omega) hk
      · simpa [Nat.min_eq_left hlen] using hnul
      · rw [List.getElem_append_right (by simp; omega), List.getElem_cons]
        simp only [List.length_take, Nat.min_eq_left hlen]
        rw [dif_neg (by omega), List.getElem_map, List.getElem_range]
        congr 1
        omega
  rw [hsplit]
  obtain ⟨hpre, hzero⟩ := takeWhile_prefix_of_zero (text.take m)
    ((List.range (size - m - 1)).map fun k => mem (buf + (m + 1 + k)))
  exact ⟨hpre.trans (List.take_prefix m text), hzero⟩

/-- What `rt_kprintf` hands to the device: a length clipped to the buffer, not to the text in it. -/
theorem rtKprintf_device (htext : fullText c fmt args = some text)
    (hlen : text.length < 2 ^ 31) (hend : logBuf + (consolebufSize - 1) < 2 ^ c.bits) :
    rtKprintf c consolebufSize true logBuf fmt args mem =
      some ((List.range (min text.length (consolebufSize - 1))).map fun k =>
        (endText logBuf (logBuf + (consolebufSize - 1)) (consolebufSize - 1)
          (putAll (putStr c.bits (logBuf + (consolebufSize - 1))) text ⟨logBuf, mem⟩)).2 (logBuf + k)) := by
  have hbits : 2 ^ 32 ≤ 2 ^ c.bits := Nat.pow_le_pow_right (by omega) c.bits_ge
  have hret : (endText logBuf (logBuf + (consolebufSize - 1)) (consolebufSize - 1)
      (putAll (putStr c.bits (logBuf + (consolebufSize - 1))) text ⟨logBuf, mem⟩)).1 = text.length := by
    rw [endText, putAll_str _ _ _ _ (show logBuf < 2 ^ c.bits by omega)]
    exact wrapInt_sub logBuf c.bits_ge hlen
  have hmod : (((text.length : Int)) % 2 ^ c.bits).toNat = text.length := by
    rw [Int.emod_eq_of_lt (by omega) (by exact_mod_cast (show text.length < 2 ^ c.bits by omega))]
    rfl
  simp only [rtKprintf, rtVsnprintf_inside hend, htext, Option.map_some, hret, hmod, if_true]

/-- Without a device the console gets a part of the text up to a NUL, wherever the buffer is. -/
theorem rtKprintf_output (htext : fullText c fmt args = some text)
    (hlen : text.length < 2 ^ 31) (hpos : 0 < consolebufSize) (hend : logBuf + (consolebufSize - 1) < 2 ^ c.bits)
    (hmem : mem (logBuf + consolebufSize - 1) = 0) :
    ∃ out, rtKprintf c consolebufSize false logBuf fmt args mem = some out ∧ out <+: text ∧ 0 ∉ out := by
  have hbits : 2 ^ 32 ≤ 2 ^ c.bits := Nat.pow_le_pow_right (by omega) c.bits_ge
  simp only [rtKprintf, rtVsnprintf_inside hend, htext, Option.map_some]
  refine ⟨_, rfl, ?_⟩
  by_cases hfit : text.length < consolebufSize
  · have htr := endText_truncates c logBuf (consolebufSize - 1) mem hlen (by omega)
    by_cases hone : consolebufSize = 1
    · subst hone
      refine prefix_of_nul Nat.zero_lt_one (Nat.zero_le _) (fun k _ hk => absurd hk (Nat.not_lt_zero k)) ?_
      rw [htr.outside (logBuf + 0) (by omega)]
      simpa using hmem
    · refine prefix_of_nul (m := min text.length (consolebufSize - 1 - 1)) (by omega) (by omega) ?_ (htr.nul (by omega))
      exact fun k hk hlt => htr.chars k hk (by omega)
  · -- the text covers the buffer up to its last byte, which stays, and `str` may come round to address 0
    have hmod : ∀ k < consolebufSize, (logBuf + k) % 2 ^ c.bits = logBuf + k := fun k hk => Nat.mod_eq_of_lt (by omega)
    have hat : ∀ (k : Nat) (hk : k < text.length), k < consolebufSize - 1 →
        (putAll (putStr c.bits (logBuf + (consolebufSize - 1))) text ⟨logBuf, mem⟩).mem (logBuf + k) = text[k] := by
      intro k hk hsize
      have h := putAll_at c.bits (logBuf + (consolebufSize - 1)) text ⟨logBuf, mem⟩
        (show logBuf < 2 ^ c.bits by omega) (by omega) hk (by rw [hmod k (by omega)]; omega)
      rwa [hmod k (by omega)] at h
    have hlast : (putAll (putStr c.bits (logBuf + (consolebufSize - 1))) text ⟨logBuf, mem⟩).mem
        (logBuf + (consolebufSize - 1)) = 0 := by
      rw [putAll_other _ _ text _ (show logBuf < 2 ^ c.bits by omega) (fun _ _ => Or.inr (Nat.le_refl _))]
      rwa [show logBuf + (consolebufSize - 1) = logBuf + consolebufSize - 1 by omega]
    have hstr := putAll_str c.bits (logBuf + (consolebufSize - 1)) text ⟨logBuf, mem⟩
      (show logBuf < 2 ^ c.bits by omega)
    generalize putAll (putStr c.bits (logBuf + (consolebufSize - 1))) text ⟨logBuf, mem⟩ = st at hat hlast hstr
    obtain ⟨str, mem'⟩ := st
    simp only at hat hlast hstr
    by_cases hwrap : str < logBuf + (consolebufSize - 1)
    · have hlow : str < logBuf := by
        by_cases hlt : logBuf + text.length < 2 ^ c.bits
        · rw [Nat.mod_eq_of_lt hlt] at hstr
          omega
        · rw [Nat.mod_eq_sub_mod (by omega), Nat.mod_eq_of_lt (by omega)] at hstr
          omega
      refine prefix_of_nul (m := consolebufSize - 1) (by omega) (by omega) ?_ ?_
      · intro k hk hlt
        simp only [endText, if_pos hwrap, if_pos (show 0 < consolebufSize - 1 by omega)]
        rw [update_of_ne (by omega)]
        exact hat k hk hlt
      · simp only [endText, if_pos hwrap]
        split
        · rwa [update_of_ne (by omega)]
        · exact hlast
    · by_cases hone : consolebufSize = 1
      · subst hone
        exact prefix_of_nul Nat.zero_lt_one (Nat.zero_le _) (fun k _ hk => absurd hk (Nat.not_lt_zero k)) hlast
      · refine prefix_of_nul (m := consolebufSize - 1 - 1) (by omega) (by omega) ?_ ?_
        · intro k hk hlt
          simp only [endText, if_neg hwrap, if_pos (show 0 < consolebufSize - 1 by omega)]
          rw [update_of_ne (by omega)]
          exact hat k hk (by omega)
        · simp only [endText, if_neg hwrap, if_pos (show 0 < consolebufSize - 1 by omega)]
          rw [show logBuf + (consolebufSize - 1) - 1 = logBuf + (consolebufSize - 1 - 1) by omega, update_self]

/-- What `rt_kprintf` sends is a prefix of the text without a NUL when there is no device, nothing to send, or a text without
a NUL that leaves the last byte but one of the buffer free. -/
theorem kprintf_iff {device : Bool} (htext : fullText c fmt args = some text)
    (hlen : text.length < 2 ^ 31) (hpos : 0 < consolebufSize) (hsize : consolebufSize ≤ 2 ^ c.bits) :
    (∀ logBuf mem, logBuf + consolebufSize ≤ 2 ^ c.bits → mem (logBuf + consolebufSize - 1) = 0 →
      ∃ out, rtKprintf c consolebufSize device logBuf fmt args mem = some out ∧ out <+: text ∧ 0 ∉ out) ↔
      device = false ∨ consolebufSize = 1 ∨ (text.length + 1 < consolebufSize ∧ 0 ∉ text) := by
  have hbits : 2 ^ 32 ≤ 2 ^ c.bits := Nat.pow_le_pow_right (by omega) c.bits_ge
  -- a text that fits is sent as it is
  have hfits : ∀ logBuf mem, logBuf + consolebufSize ≤ 2 ^ c.bits → text.length + 1 < consolebufSize →
      rtKprintf c consolebufSize true logBuf fmt args mem = some text := by
    intro logBuf mem hend hfit
    have htr := endText_truncates c logBuf (consolebufSize - 1) mem hlen (by omega)
    rw [rtKprintf_device htext hlen (by omega), Nat.min_eq_left (by omega)]
    refine congrArg some (List.ext_getElem (by simp) fun k h₁ h₂ => ?_)
    rw [List.getElem_map, List.getElem_range]
    exact htr.chars k h₂ (by omega)
  constructor
  · intro hlaw
    by_contra hnot
    simp only [not_or, Bool.not_eq_false] at hnot
    obtain ⟨rfl, hone, hbad⟩ := hnot
    obtain ⟨out, hout, -, hzero⟩ := hlaw 0 (fun _ => 0) (by omega) rfl
    by_cases hfit : text.length + 1 < consolebufSize
    · rw [hfits 0 _ (by omega) hfit, Option.some.injEq] at hout
      subst hout
      exact hbad ⟨hfit, hzero⟩
    · -- the NUL behind the cut text is in the part that is sent
      have htr := endText_truncates c 0 (consolebufSize - 1) (fun _ => 0) hlen (by omega)
      rw [rtKprintf_device htext hlen (by omega), Option.some.injEq, Nat.min_eq_right (by omega)] at hout
      subst hout
      refine hzero (List.mem_map.2 ⟨consolebufSize - 2, List.mem_range.2 (by omega), ?_⟩)
      have hnul := htr.nul (by omega)
      rwa [Nat.min_eq_right (by omega), Nat.sub_sub] at hnul
  · intro hcond logBuf mem hend hmem
    cases device with
    | false => exact rtKprintf_output htext hlen hpos (by omega) hmem
    | true =>
      rcases hcond with hfalse | rfl | ⟨hfit, hzero⟩
      · cases hfalse
      · exact ⟨[], by rw [rtKprintf_device htext hlen (by omega), Nat.sub_self, Nat.min_zero]; rfl, List.nil_prefix, by simp⟩
      · exact ⟨text, hfits logBuf mem hend hfit, List.prefix_rfl, hzero⟩

end Law

/-- The law of a format with its arguments: `rt_vsnprintf` truncates the full text to every size at `buf`, and `rt_kprintf`,
wherever its buffer is, sends a prefix of the full text without a NUL. The last byte of that buffer, which is static, is
never written and is 0. -/
def TruncationLaw (c : PrintfConfig) (buf consolebufSize : Nat) (device : Bool) (fmt : List (BitVec 8)) (args : VaList) :
    Prop :=
  ∃ text, fullText c fmt args = some text ∧
    (∀ n mem, n < 2 ^ c.bits → ∃ r mem', rtVsnprintf c buf n fmt args mem = some (r, mem') ∧
      Truncates buf n text mem r mem') ∧
    ∀ logBuf mem, logBuf + consolebufSize ≤ 2 ^ c.bits → mem (logBuf + consolebufSize - 1) = 0 →
      ∃ out, rtKprintf c consolebufSize device logBuf fmt args mem = some out ∧ out <+: text ∧ 0 ∉ out

/-- The law holds exactly when each number has room in `tmp`, `int` counts each string and the text, the text fits behind
`buf`, and the text is without a NUL and leaves a byte of the part of the console's buffer that `rt_vsnprintf` is given (or
there is no device, or no such part). -/
theorem rt_vsnprintf_truncation (c : PrintfConfig) (buf consolebufSize : Nat) (device : Bool) (fmt : List (BitVec 8))
    (args : VaList) (hbuf : buf < 2 ^ c.bits) (hpos : 0 < consolebufSize) (hsize : consolebufSize ≤ 2 ^ c.bits) :
    TruncationLaw c buf consolebufSize device fmt args ↔
      (∀ conv ∈ conversions c args fmt, conv.Fits c) ∧
      ∀ text, fullText c fmt args = some text →
        text.length < 2 ^ 31 ∧ (buf = 0 ∨ buf + text.length + 1 < 2 ^ c.bits) ∧
        (device = false ∨ consolebufSize = 1 ∨ (text.length + 1 < consolebufSize ∧ 0 ∉ text)) := by
  rw [← fullText_isSome]
  constructor
  · rintro ⟨text, htext, hlaw, hconsole⟩
    refine ⟨by rw [htext]; rfl, fun text' htext' => ?_⟩
    obtain rfl : text = text' := Option.some.inj (htext.symm.trans htext')
    obtain ⟨hlen, hfit⟩ := (truncates_iff hbuf htext).1 hlaw
    exact ⟨hlen, hfit, (kprintf_iff htext hlen hpos hsize).1 hconsole⟩
  · rintro ⟨hsome, hcond⟩
    obtain ⟨text, htext⟩ := Option.isSome_iff_exists.1 hsome
    obtain ⟨hlen, hfit, hdevice⟩ := hcond text htext
    exact ⟨text, htext, (truncates_iff hbuf htext).2 ⟨hlen, hfit⟩, (kprintf_iff htext hlen hpos hsize).2 hdevice⟩

/-- No arguments. -/
def VaList.none : VaList where
  word _ := 0
  string _ := []
  no_nul _ := List.not_mem_nil

/-- `rt_kprintf("ok")`. -/
theorem rt_vsnprintf_truncation_ok :
    TruncationLaw ⟨32, false, by decide⟩ 4096 128 true [chr 'o', chr 'k'] VaList.none ↔
      (∀ conv ∈ conversions ⟨32, false, by decide⟩ VaList.none [chr 'o', chr 'k'], conv.Fits ⟨32, false, by decide⟩) ∧
      ∀ text, fullText ⟨32, false, by decide⟩ [chr 'o', chr 'k'] VaList.none = some text →
        text.length < 2 ^ 31 ∧ (4096 = 0 ∨ 4096 + text.length + 1 < 2 ^ 32) ∧
        (true = false ∨ 128 = 1 ∨ (text.length + 1 < 128 ∧ 0 ∉ text)) :=
  rt_vsnprintf_truncation ⟨32, false, by decide⟩ 4096 128 true _ VaList.none (by decide) (by decide) (by decide)

/-- A text of 127 characters with a device and the default buffer of 128 bytes: 126 of them are sent, and a NUL. -/
theorem kprintf_sends_nul :
    rtKprintf ⟨32, false, by decide⟩ 128 true 4096 (List.replicate 127 (chr 'a')) VaList.none (fun _ => 0) =
        some (List.replicate 126 (chr 'a') ++ [0]) ∧
      ¬ TruncationLaw ⟨32, false, by decide⟩ 4096 128 true (List.replicate 127 (chr 'a')) VaList.none := by
  have hsent : rtKprintf ⟨32, false, by decide⟩ 128 true 4096 (List.replicate 127 (chr 'a')) VaList.none (fun _ => 0) =
      some (List.replicate 126 (chr 'a') ++ [0]) := by decide +kernel
  refine ⟨hsent, ?_⟩
  rintro ⟨text, -, -, hconsole⟩
  obtain ⟨out, hout, -, hzero⟩ := hconsole 4096 (fun _ => 0) (by decide) rfl
  rw [hsent, Option.some.injEq] at hout
  subst hout
  exact hzero (by simp)

end RtThread
