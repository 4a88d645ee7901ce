import RtThread.Lib.Segments

/-!
# The tokeniser

`rt_strtok_r` (`kservice.c`) keeps in `*context` where the next call goes on. A call that finds no token leaves `*context` as it
was, so for a string without one the next call follows whatever pointer was there before.
-/

namespace RtThread

open Segments

/-- The cells of the string from the address `base` on, and `*context`. -/
structure Strtok where
  cells : List (BitVec 8)
  context : Nat
deriving DecidableEq

namespace Strtok

/-- The loop of `rt_strspn` and `rt_strcspn`: `none` when it reads behind the last cell. -/
def segment (p : BitVec 8 → Bool) : List (BitVec 8) → Option Nat
  | [] => none
  | c :: cs => if c ≠ 0 ∧ p c then (segment p cs).map (· + 1) else some 0

def rtStrspn (accept s : List (BitVec 8)) : Option Nat := segment (· ∈ accept) s

def rtStrcspn (reject s : List (BitVec 8)) : Option Nat := segment (· ∉ reject) s

variable (base : Nat) (delim : List (BitVec 8))

/-- `rt_strtok_r`: the token, or NULL, which is 0. -/
def rtStrtokR (s : Nat) (st : Strtok) : Option (Nat × Strtok) := do
  let s := if s = 0 then st.context else s
  if s < base then none
  let i := s - base
  let i := i + (← rtStrspn delim (st.cells.drop i))
  if (← st.cells[i]?) ≠ 0 then
    let e := i + (← rtStrcspn delim (st.cells.drop i))
    if (← st.cells[e]?) ≠ 0 then some (base + i, ⟨st.cells.set e 0, base + e + 1⟩)
    else some (base + i, ⟨st.cells, base + e⟩)
  else some (0, st)

/-- What `n` calls return, the first with `s` and the others with NULL: the strings, and `none` for NULL. -/
def calls : Nat → Nat → Strtok → Option (List (Option (List (BitVec 8))))
  | 0, _, _ => some []
  | n + 1, s, st => do
    let (p, st) ← rtStrtokR base delim s st
    let rest ← calls n 0 st
    some ((if p = 0 then none else some ((st.cells.drop (p - base)).takeWhile (· ≠ 0))) :: rest)

/-- The calls return the tokens of `s` in order, and NULL from then on. -/
def Tokenises (s : List (BitVec 8)) (context : Nat) : Prop :=
  ∀ n, calls base delim n base ⟨s ++ [0], context⟩ = some (((tokens delim s).map some ++ List.replicate n none).take n)

variable {base delim} {p : BitVec 8 → Bool} {s pre rest t : List (BitVec 8)} {a context n : Nat}

theorem segment_append {c : BitVec 8} (ht : ∀ c ∈ t, c ≠ 0 ∧ p c) (hc : ¬ (c ≠ 0 ∧ p c)) :
    segment p (t ++ c :: rest) = some t.length := by
  induction t with
  | nil => rw [List.nil_append, segment, if_neg hc, List.length_nil]
  | cons d t ih =>
    rw [List.cons_append, segment, if_pos (ht d List.mem_cons_self),
      ih fun c hc => ht c (List.mem_cons_of_mem d hc), Option.map_some, List.length_cons]

/-- Without a token nothing changes, `*context` included. -/
theorem step_none (pre : List (BitVec 8)) (ha : (if a = 0 then context else a) = base + pre.length) (h0 : 0 ∉ rest) (hrest : ∀ c ∈ rest, c ∈ delim) :
    rtStrtokR base delim a ⟨pre ++ rest ++ [0], context⟩ = some (0, ⟨pre ++ rest ++ [0], context⟩) := by
  have hspan : rtStrspn delim (rest ++ [0]) = some rest.length :=
    segment_append (fun c hc => ⟨fun h => h0 (h ▸ hc), decide_eq_true (hrest c hc)⟩) fun h => h.1 rfl
  have hdrop : (pre ++ rest ++ [0]).drop pre.length = rest ++ [0] := by rw [List.append_assoc, List.drop_left]
  have hget : (pre ++ rest ++ [0])[pre.length + rest.length]? = some 0 := by
    rw [← List.length_append, List.getElem?_concat_length]
  unfold rtStrtokR
  simp only [ha, if_neg (Nat.not_lt_of_le (Nat.le_add_right base _)), Nat.add_sub_cancel_left, hdrop, hspan, hget,
    Option.bind_eq_bind, Option.bind_some, ne_eq, not_true_eq_false, if_false]

/-- A token ends at a delimiter or at the NUL, which are both 0 afterwards. -/
theorem step_token {ds : List (BitVec 8)} {d e : BitVec 8} (tail : List (BitVec 8))
    (ha : (if a = 0 then context else a) = base + pre.length)
    (hds : ∀ c ∈ ds, c ≠ 0 ∧ c ∈ delim) (ht : ∀ c ∈ d :: t, c ≠ 0 ∧ c ∉ delim) (he : e ≠ 0 → e ∈ delim) :
    rtStrtokR base delim a ⟨pre ++ ds ++ d :: t ++ e :: tail, context⟩ =
      some (base + (pre ++ ds).length, if e ≠ 0
        then ⟨pre ++ ds ++ d :: t ++ 0 :: tail, base + (pre ++ ds ++ d :: t).length + 1⟩
        else ⟨pre ++ ds ++ d :: t ++ e :: tail, base + (pre ++ ds ++ d :: t).length⟩) := by
  have hspan : rtStrspn delim (ds ++ d :: (t ++ e :: tail)) = some ds.length :=
    segment_append (fun c hc => (hds c hc).imp id decide_eq_true) fun h =>
      (ht d List.mem_cons_self).2 (of_decide_eq_true h.2)
  have hcspan : rtStrcspn delim (d :: t ++ e :: tail) = some (d :: t).length :=
    segment_append (fun c hc => (ht c hc).imp id decide_eq_true) fun h => of_decide_eq_true h.2 (he h.1)
  have hdrop : (pre ++ ds ++ d :: t ++ e :: tail).drop pre.length = ds ++ d :: (t ++ e :: tail) := by
    simp only [List.append_assoc, List.drop_left, List.cons_append]
  have hdrop' : (pre ++ ds ++ d :: t ++ e :: tail).drop (pre ++ ds).length = d :: t ++ e :: tail := by
    rw [List.append_assoc, List.drop_left]
  have hget : (pre ++ ds ++ d :: t ++ e :: tail)[(pre ++ ds).length]? = some d := by
    rw [← Nat.add_zero (pre ++ ds).length, ← List.getElem?_drop, hdrop']
    rfl
  have hget' : (pre ++ ds ++ d :: t ++ e :: tail)[(pre ++ ds ++ d :: t).length]? = some e := by
    rw [List.getElem?_append_right (Nat.le_refl _), Nat.sub_self, List.getElem?_cons_zero]
  unfold rtStrtokR
  simp only [ha, if_neg (Nat.not_lt_of_le (Nat.le_add_right base _)), Nat.add_sub_cancel_left, hdrop, hspan,
    Option.bind_eq_bind, Option.bind_some, ← List.length_append, hget, hdrop', hcspan, hget']
  rw [if_pos (ht d List.mem_cons_self).1]
  split
  · rw [List.set_append_right _ _ (Nat.le_refl _), Nat.sub_self, List.set_cons_zero]
  · rfl

/-- With a token, the call cuts it off and leaves `*context` behind it. -/
theorem step_some (ha : (if a = 0 then context else a) = base + pre.length) (h0 : 0 ∉ rest) (hrest : ∃ c ∈ rest, c ∉ delim) :
    ∃ p t pre' rest', rtStrtokR base delim a ⟨pre ++ rest ++ [0], context⟩ =
        some (base + p, ⟨pre' ++ rest' ++ [0], base + pre'.length⟩) ∧
      ((pre' ++ rest' ++ [0]).drop p).takeWhile (· ≠ 0) = t ∧ tokens delim rest = t :: tokens delim rest' ∧ 0 ∉ rest' := by
  obtain ⟨ds, s, rfl, hds, hs⟩ := exists_segment (· ∈ delim) rest
  obtain ⟨t, post, rfl, ht, hpost⟩ := exists_segment (· ∉ delim) s
  simp only [decide_eq_true_eq, Decidable.not_not, decide_not, Bool.not_eq_true', decide_eq_false_iff_not] at hds hs ht hpost
  obtain ⟨c, hc, hcd⟩ := hrest
  cases t with
  | nil =>
    cases post with
    | nil => exact absurd (hds c (by simpa using hc)) hcd
    | cons d post => exact absurd (hpost d rfl) (hs d rfl)
  | cons d t =>
    have hne : ∀ c ∈ ds ++ (d :: t ++ post), c ≠ 0 := fun c hc h => h0 (h ▸ hc)
    simp only [List.mem_append] at hne
    have hds' : ∀ c ∈ ds, c ≠ 0 ∧ c ∈ delim := fun c hc => ⟨hne c (.inl hc), hds c hc⟩
    have ht' : ∀ c ∈ d :: t, c ≠ 0 ∧ c ∉ delim := fun c hc => ⟨hne c (.inr (.inl hc)), ht c hc⟩
    have htext (tail : List (BitVec 8)) :
        ((pre ++ ds ++ d :: t ++ 0 :: tail).drop (pre ++ ds).length).takeWhile (· ≠ 0) = d :: t := by
      rw [List.append_assoc, List.drop_left, List.takeWhile_append_of_pos fun c hc => decide_eq_true (ht' c hc).1]
      simp
    have htok : tokens delim (ds ++ (d :: t ++ post)) = (d :: t) :: tokens delim post.tail := by
      rw [tokens_delim hds, tokens_token ht (List.cons_ne_nil d t) hpost]
    refine ⟨(pre ++ ds).length, d :: t, ?_⟩
    cases post with
    | nil =>
      have hcall := step_token (e := 0) [] ha hds' ht' fun h => absurd rfl h
      refine ⟨pre ++ ds ++ d :: t, [], ?_, ?_, htok, List.not_mem_nil⟩
      · rw [List.append_nil, List.append_nil, ← List.append_assoc, hcall, if_neg fun h => h rfl]
      · rw [List.append_nil, htext]
    | cons e post =>
      have he : e ≠ 0 := hne e (.inr (.inr List.mem_cons_self))
      have hcall := step_token (post ++ [0]) ha hds' ht' fun _ => hpost e rfl
      refine ⟨pre ++ ds ++ d :: t ++ [0], post, ?_, ?_, htok, fun h => ?_⟩
      · simp only [List.append_assoc, List.cons_append, List.nil_append] at hcall ⊢
        rw [hcall, if_pos he]
        simp [Nat.add_assoc]
      · rw [List.append_assoc, List.append_assoc, List.singleton_append, htext]
      · exact hne 0 (.inr (.inr (List.mem_cons_of_mem e h))) rfl

/-- A call, and then `n` calls that go on where it stopped. -/
theorem calls_step (pre : List (BitVec 8)) (hbase : 0 < base) (ha : (if a = 0 then context else a) = base + pre.length) (h0 : 0 ∉ rest)
    (hnext : ∀ pre rest, 0 ∉ rest → calls base delim n 0 ⟨pre ++ rest ++ [0], base + pre.length⟩ =
      some (((tokens delim rest).map some ++ List.replicate n none).take n))
    (hcontext : (∀ c ∈ rest, c ∈ delim) →
      ∃ pre' rest', pre ++ rest = pre' ++ rest' ∧ context = base + pre'.length ∧ rest' ⊆ rest) :
    calls base delim (n + 1) a ⟨pre ++ rest ++ [0], context⟩ =
      some (((tokens delim rest).map some ++ List.replicate (n + 1) none).take (n + 1)) := by
  by_cases htok : ∃ c ∈ rest, c ∉ delim
  · obtain ⟨p, t, pre', rest', hcall, htext, heq, h0'⟩ := step_some ha h0 htok
    rw [calls, hcall, heq]
    simp only [Option.bind_eq_bind, Option.bind_some, hnext pre' rest' h0', Nat.add_sub_cancel_left, htext,
      if_neg (show ¬ base + p = 0 by omega), List.map_cons, List.cons_append, List.take_succ_cons, List.replicate_succ']
    have hlen : n ≤ ((tokens delim rest').map some ++ List.replicate n none).length := by simp
    rw [← List.append_assoc, List.take_append_of_le_length hlen]
  · have hrest : ∀ c ∈ rest, c ∈ delim := by simpa using htok
    obtain ⟨pre', rest', heq, rfl, hsub⟩ := hcontext hrest
    have hnext := hnext pre' rest' fun h => h0 (hsub h)
    rw [tokens_none fun c hc => hrest c (hsub hc)] at hnext
    rw [calls, step_none pre ha h0 hrest, heq, tokens_none hrest]
    simp only [Option.bind_eq_bind, Option.bind_some, hnext, if_true]
    simp [List.replicate_succ]

/-- The calls return the tokens from `*context` on. -/
theorem calls_next (hbase : 0 < base) (n : Nat) (pre rest : List (BitVec 8)) (h0 : 0 ∉ rest) :
    calls base delim n 0 ⟨pre ++ rest ++ [0], base + pre.length⟩ =
      some (((tokens delim rest).map some ++ List.replicate n none).take n) := by
  induction n generalizing pre rest with
  | zero => rfl
  | succ n ih => exact calls_step pre hbase rfl h0 ih fun _ => ⟨pre, rest, rfl, rfl, List.Subset.refl rest⟩

theorem tokeniser_law (hbase : 0 < base) (hs : 0 ∉ s) :
    Tokenises base delim s context ↔ (∃ c ∈ s, c ∉ delim) ∨ base ≤ context ∧ context ≤ base + s.length := by
  have ha : (if base = 0 then context else base) = base + ([] : List (BitVec 8)).length := if_neg (by omega)
  constructor
  · intro h
    by_contra hno
    rw [not_or] at hno
    have hrest : ∀ c ∈ s, c ∈ delim := by simpa using hno.1
    have hfirst := step_none [] ha hs hrest
    rw [List.nil_append] at hfirst
    -- the second call reads in front of the string or behind it
    have hsecond : rtStrtokR base delim 0 ⟨s ++ [0], context⟩ = none := by
      unfold rtStrtokR
      rw [if_pos rfl]
      by_cases hlow : context < base
      · rw [if_pos hlow]
        rfl
      · have hdrop : (s ++ [0]).drop (context - base) = [] := by
          rw [List.drop_eq_nil_iff, List.length_append, List.length_singleton]
          omega
        simp only [if_neg hlow, hdrop]
        rfl
    have hbad := h 2
    simp only [calls, hfirst, Option.bind_eq_bind, Option.bind_some, hsecond, Option.bind_none] at hbad
    cases hbad
  · intro h n
    cases n with
    | zero => rfl
    | succ n =>
      refine calls_step [] hbase ha hs (calls_next hbase n) fun hrest => ?_
      obtain ⟨c, hc, hcd⟩ | hin := h
      · exact absurd (hrest c hc) hcd
      · refine ⟨s.take (context - base), s.drop (context - base), by simp, ?_, List.drop_subset _ _⟩
        rw [List.length_take]
        omega

/-- With `*context` NULL, the second call for an empty string reads from NULL. -/
theorem empty_string_follows_context : ¬ Tokenises 0x1000 [32] [] 0 :=
  fun h => absurd (h 2) (by decide)

theorem tokeniser_law_words : Tokenises 0x1000 [32] [97, 32, 98] 0 ↔
    (∃ c ∈ [97, 32, 98], c ∉ [(32 : BitVec 8)]) ∨ 0x1000 ≤ 0 ∧ 0 ≤ 0x1000 + [97, 32, (98 : BitVec 8)].length :=
  tokeniser_law (by decide) (by decide)

end Strtok

end RtThread
