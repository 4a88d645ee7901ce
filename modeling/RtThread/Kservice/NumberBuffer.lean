import Mathlib.Data.BitVec
import Mathlib.Data.Nat.Digits.Lemmas
import RtThread.Kservice.Printf

/-!
# The digits of a number

`print_number` takes the sign off its number and stores the digits in `tmp`. Their count depends on the base and on the
number that the parser hands over (`nextConversion_bounded`).
-/

namespace RtThread

variable {c : PrintfConfig} {base num n : Nat} {large : Bool}

/-! ## Digits -/

theorem tmpDigits_length_le (hb : 1 < base) (hn : 0 < n) : (tmpDigits base num large).length ≤ n ↔ num < base ^ n := by
  unfold tmpDigits
  split
  · rename_i h0
    rw [h0]
    exact iff_of_true hn (Nat.pow_pos (by omega))
  · rw [List.length_map, Nat.digits_length_le_iff hb]

/-! ## The buffer of the digits -/

/-- The indices of `tmp` that `print_number` stores to. -/
def Conversion.tmpIndices (c : PrintfConfig) : Conversion → List Nat
  | .number num base qualifier _ _ flags =>
    List.range (tmpDigits base (getSign c num qualifier flags).2 flags.large).length
  | _ => []

/-- `%lb` of an argument with more than 32 binary digits. -/
def Conversion.LongBinary : Conversion → Prop
  | .number num base qualifier _ _ _ => base = 2 ∧ qualifier = some 'l' ∧ 2 ^ 32 ≤ num
  | _ => False

/-- A 64-bit target without `RT_KPRINTF_USING_LONGLONG`. -/
def PrintfConfig.lp64 : PrintfConfig := ⟨64, false, by decide⟩

/-- What `print_number` is called with on that target. -/
def Conversion.Bounded : Conversion → Prop
  | .number num base qualifier _ _ flags =>
    (base = 10 ∨ flags.sign = false ∧ (base = 8 ∨ base = 16 ∨ base = 2 ∧ (qualifier ≠ some 'l' → num < 2 ^ 32))) ∧
      num < 2 ^ 64
  | _ => True

theorem parseFlags_sign (flags : PrintFlags) (fmt : List (BitVec 8)) :
    (parseFlags flags fmt).1.sign = flags.sign := by
  induction fmt generalizing flags with
  | nil => rfl
  | cons ch fmt ih =>
    unfold parseFlags
    split_ifs
    all_goals first | apply ih | rfl

theorem parseWidth_sign (args : VaList) (i : Nat) (flags : PrintFlags) (fmt : List (BitVec 8)) :
    (parseWidth args i flags fmt).2.1.sign = flags.sign := by
  unfold parseWidth
  cases fmt with
  | nil => rfl
  | cons ch fmt =>
    dsimp only
    split_ifs <;> rfl

theorem parseQualifier_lp64 (fmt : List (BitVec 8)) : (parseQualifier .lp64 fmt).1 ≠ some 'L' := by
  unfold parseQualifier
  rcases fmt with _ | ⟨q, _ | ⟨l, fmt⟩⟩
  · simp
  all_goals
    dsimp only [PrintfConfig.lp64]
    split_ifs <;> simp_all

theorem numArg_lt (args : VaList) (i : Nat) (qualifier : Option Char) (sign : Bool) :
    numArg .lp64 args i qualifier sign < 2 ^ 64 := by
  unfold numArg PrintfConfig.numBits PrintfConfig.lp64
  have hword := (args.word i).isLt
  split
  · exact hword
  · exact Nat.mod_lt _ (by decide)
  · have hwide : (if false = true then 64 else 64) = 64 := rfl
    rw [hwide]
    dsimp only
    split <;> omega
  · omega

variable {qualifier : Option Char} {flags : PrintFlags}

/-- A number with no more than 32 bits, without the qualifier `l`. -/
theorem numArg_short (args : VaList) (i : Nat) (hl : qualifier ≠ some 'l')
    (hL : qualifier ≠ some 'L') : numArg .lp64 args i qualifier false < 2 ^ 32 := by
  unfold numArg
  split
  · exact absurd rfl hL
  · exact absurd rfl hl
  · dsimp only
    rw [if_neg (by simp)]
    omega
  · exact Nat.mod_lt _ (by decide)

theorem parseConversion_bounded (args : VaList) (i : Nat) (width precision : Int)
    (fmt : List (BitVec 8)) (hflags : flags.sign = false) (hL : qualifier ≠ some 'L') :
    (parseConversion .lp64 args i flags width precision qualifier fmt).1.Bounded := by
  cases fmt with
  | nil => trivial
  | cons conv rest =>
    have hlt (sign : Bool) := numArg_lt args i qualifier sign
    have hp : (args.word i).toNat % 2 ^ PrintfConfig.lp64.bits < 2 ^ 64 := Nat.mod_lt _ (by decide)
    unfold parseConversion
    dsimp only
    split_ifs
    all_goals first
      | trivial
      | exact ⟨.inl rfl, hlt _⟩
      | exact ⟨.inr ⟨hflags, .inl rfl⟩, hlt _⟩
      | exact ⟨.inr ⟨hflags, .inr (.inl rfl)⟩, hlt _⟩
      | exact ⟨.inr ⟨hflags, .inr (.inl rfl)⟩, hp⟩
      | exact ⟨.inr ⟨hflags, .inr (.inr ⟨rfl, fun h => hflags ▸ numArg_short args i h hL⟩)⟩, hlt _⟩

theorem nextConversion_bounded (args : VaList) (i : Nat) (ch : BitVec 8) (fmt : List (BitVec 8)) :
    (nextConversion .lp64 args i ch fmt).1.Bounded := by
  unfold nextConversion
  split
  · have hflags : (parseWidth args i (parseFlags {} fmt).1 (parseFlags {} fmt).2).2.1.sign = false := by
      rw [parseWidth_sign, parseFlags_sign]
    exact parseConversion_bounded args _ _ _ _ hflags (parseQualifier_lp64 _)
  · trivial

/-- The width of the cast behind the test of the sign. -/
def signWidth (c : PrintfConfig) : Option Char → Nat
  | some 'h' => 16
  | some 'L' => c.bits
  | some 'l' => c.bits
  | _ => 32

/-- The sign of a number that is not negative. -/
def plusSign (flags : PrintFlags) : Option (BitVec 8) :=
  if flags.plus then some (chr '+') else if flags.space then some (chr ' ') else none

theorem getSign_signed (c : PrintfConfig) (num : Nat) (qualifier : Option Char) (h : flags.sign = true) :
    getSign c num qualifier flags = if 2 ^ (signWidth c qualifier - 1) ≤ num % 2 ^ signWidth c qualifier then
        (some (chr '-'), (2 ^ signWidth c qualifier - num % 2 ^ signWidth c qualifier) % 2 ^ signWidth c qualifier)
      else (plusSign flags, num) := by
  have hsign : getSign c num qualifier flags =
      if 2 ^ (signWidth c qualifier - 1) ≤ num % 2 ^ signWidth c qualifier then
        (some (chr '-'), (2 ^ signWidth c qualifier - num % 2 ^ signWidth c qualifier) % 2 ^ signWidth c qualifier)
      else if flags.plus then (some (chr '+'), num)
      else if flags.space then (some (chr ' '), num)
      else (none, num) := by
    unfold getSign
    rw [if_pos h]
    rfl
  rw [hsign]
  unfold plusSign
  split_ifs <;> rfl

theorem getSign_unsigned (c : PrintfConfig) (num : Nat) (qualifier : Option Char)
    (h : flags.sign = false) : getSign c num qualifier flags = (none, num) := by
  unfold getSign
  rw [if_neg (by simp [h])]

/-- The number without its sign, on a 64-bit target. -/
theorem getSign_lt (qualifier : Option Char) (flags : PrintFlags) (hnum : num < 2 ^ 64) :
    (getSign .lp64 num qualifier flags).2 < 2 ^ 64 := by
  by_cases h : flags.sign = true
  · rw [getSign_signed _ _ _ h]
    split
    · have hwidth : signWidth .lp64 qualifier ≤ 64 := by
        unfold signWidth
        split <;> decide
      exact (Nat.mod_lt _ (Nat.two_pow_pos _)).trans_le (Nat.pow_le_pow_right (by decide) hwidth)
    · exact hnum
  · rw [getSign_unsigned _ _ _ (Bool.not_eq_true _ ▸ h)]
    exact hnum

/-- The digits of a directive are stored inside `tmp`, unless it is `%lb` of a number with more than 32 bits. -/
theorem tmp_stores_inside (args : VaList) (i : Nat) (ch : BitVec 8) (fmt : List (BitVec 8)) :
    (∀ k ∈ (nextConversion .lp64 args i ch fmt).1.tmpIndices .lp64, k < PrintfConfig.lp64.tmpSize) ↔
      ¬ (nextConversion .lp64 args i ch fmt).1.LongBinary := by
  have hbounded := nextConversion_bounded args i ch fmt
  generalize (nextConversion .lp64 args i ch fmt).1 = conv at hbounded
  cases conv with
  | number num base qualifier width precision flags =>
    obtain ⟨hbase, hnum⟩ := hbounded
    have hrange (m : Nat) : (∀ k ∈ List.range m, k < 32) ↔ m ≤ 32 := by
      constructor
      · intro h
        by_contra hlt
        have := h 32 (List.mem_range.2 (by omega))
        omega
      · intro h k hk
        exact (List.mem_range.1 hk).trans_le h
    change (∀ k ∈ List.range _, k < 32) ↔ ¬ (base = 2 ∧ qualifier = some 'l' ∧ 2 ^ 32 ≤ num)
    rw [hrange]
    rcases hbase with rfl | ⟨hflags, hbase⟩
    · rw [tmpDigits_length_le (by decide) (by decide)]
      exact iff_of_true ((getSign_lt qualifier flags hnum).trans (by decide)) (by simp)
    · rw [getSign_unsigned _ _ _ hflags]
      rcases hbase with rfl | rfl | ⟨rfl, hshort⟩
      · rw [tmpDigits_length_le (by decide) (by decide)]
        exact iff_of_true (hnum.trans (by decide)) (by simp)
      · rw [tmpDigits_length_le (by decide) (by decide)]
        exact iff_of_true (hnum.trans (by decide)) (by simp)
      · rw [tmpDigits_length_le (by decide) (by decide)]
        by_cases hl : qualifier = some 'l'
        · simp [hl]
        · exact iff_of_true (hshort hl) fun h => hl h.2.1
  | lit | char | str | other => simp [Conversion.tmpIndices, Conversion.LongBinary]

/-- One argument. -/
def VaList.one (word : BitVec 64) (string : List (BitVec 8)) (h : 0 ∉ string) : VaList where
  word _ := word
  string _ := string
  no_nul _ := h

/-- `%lb` of 2^32 has 33 digits. -/
theorem tmp_stores_outside :
    ¬ ∀ k ∈ (nextConversion .lp64 (.one (2 ^ 32) [] (by decide)) 0 (chr '%') [chr 'l', chr 'b']).1.tmpIndices .lp64,
      k < PrintfConfig.lp64.tmpSize := by
  decide

end RtThread
