import RtThread.Dfs.Path
import RtThread.Lib.Paths

/-!
# What path normalisation computes

`dfs_normalize_path` resolves the joined path lexically (`dfsNormalizePath_eq`): as it should if the path is absolute, and
for a relative one outside of its buffer if nothing is left of it (`normalize_path`).
-/

namespace RtThread

open Paths

/-- The buffer in the loop: `out` is written before `dst`, and `rest` is to be read from `src` on. -/
structure Rewriting (buf : List Char) (src dst : Nat) (rest out : List Char) : Prop where
  unread : buf.drop src = rest ++ [nul]
  written : buf.take dst = out
  length_eq : out.length = dst
  le : dst ≤ src

variable {buf rest out w r pre : List Char} {src dst n : Nat} {c : Char} {st vs : List (List Char)} {rooted : Bool}

@[simp] theorem ok_bind {α β : Type} {a : α} {f : α → PathM β} : (Except.ok a >>= f) = f a := rfl

theorem load_of_get {i : Nat} (h : buf[i]? = some c) : load buf i = .ok c := by
  rw [load, h]

namespace Rewriting

theorem lt (h : Rewriting buf src dst rest out) : src < buf.length := by
  have hlen := congrArg List.length h.unread
  rw [List.length_drop, List.length_append, List.length_singleton] at hlen
  omega

theorem read (h : Rewriting buf src dst rest out) {i : Nat} (hi : (rest ++ [nul])[i]? = some c) :
    load buf (src + i) = .ok c := by
  apply load_of_get
  rw [← List.getElem?_drop, h.unread, hi]

/-- What has been passed. -/
theorem pass (h : Rewriting buf src dst (w ++ rest) out) : Rewriting buf (src + w.length) dst rest out where
  unread := by rw [← List.drop_drop, h.unread, List.append_assoc, List.drop_left]
  written := h.written
  length_eq := h.length_eq
  le := Nat.le_trans h.le (Nat.le_add_right _ _)

/-- A character is written where one has been read. -/
theorem write (h : Rewriting buf src dst (c :: rest) out) (d : Char) :
    store buf dst d = .ok (buf.set dst d) ∧ Rewriting (buf.set dst d) (src + 1) (dst + 1) rest (out ++ [d]) := by
  have hlt : dst < buf.length := Nat.lt_of_le_of_lt h.le h.lt
  refine ⟨if_pos hlt, ?_⟩
  constructor
  · rw [List.drop_set_of_lt (Nat.lt_succ_of_le h.le), Nat.succ_eq_add_one, ← List.drop_drop, h.unread]
    rfl
  · rw [List.take_add_one, List.take_set_of_le (Nat.le_refl dst), h.written, List.getElem?_set_self hlt]
    rfl
  · rw [List.length_append, List.length_singleton, h.length_eq]
  · exact Nat.succ_le_succ h.le

end Rewriting

/-! ## The inner loops -/

theorem skipSlashes_eq (h : Rewriting buf src dst rest out) (hn : rest.length < n) :
    ∃ src', skipSlashes n buf src = .ok src' ∧ Rewriting buf src' dst (rest.dropWhile (· = '/')) out := by
  induction rest generalizing src n with
  | nil =>
    obtain ⟨n, rfl⟩ := Nat.exists_eq_succ_of_ne_zero (Nat.ne_of_gt hn)
    refine ⟨src, ?_, h⟩
    have hread : load buf src = .ok nul := h.read (i := 0) rfl
    rw [skipSlashes, hread]
    rfl
  | cons c rest ih =>
    obtain ⟨n, rfl⟩ := Nat.exists_eq_succ_of_ne_zero (Nat.ne_of_gt (Nat.lt_of_le_of_lt (Nat.zero_le _) hn))
    have hread : load buf src = .ok c := h.read (i := 0) rfl
    rw [skipSlashes, hread, ok_bind]
    by_cases hc : c = '/'
    · subst hc
      exact ih (h.pass (w := ['/'])) (Nat.lt_of_succ_lt_succ hn)
    · rw [if_neg hc, List.dropWhile_cons_of_neg (by simpa using hc)]
      exact ⟨src, rfl, h⟩

/-- The loop that erases slashes is one character ahead. -/
theorem eraseSlashes_eq (h : Rewriting buf src dst rest out) (hn : rest.length + 1 < n) :
    ∃ src', eraseSlashes n buf src '/' = .ok src' ∧ Rewriting buf src' dst (rest.dropWhile (· = '/')) out := by
  have hstop : ∀ {m : Nat} {c : Char}, c ≠ '/' → eraseSlashes (m + 1) buf (src + 1) c = .ok src := by
    intro m c hc
    rw [eraseSlashes, if_neg hc, Nat.add_sub_cancel]
  induction rest generalizing src n with
  | nil =>
    obtain ⟨n, rfl⟩ := Nat.exists_eq_add_of_le' (show 2 ≤ n from hn)
    refine ⟨src, ?_, h⟩
    have hread : load buf src = .ok nul := h.read (i := 0) rfl
    rw [eraseSlashes, if_pos rfl, hread, ok_bind, hstop (by decide)]
  | cons c rest ih =>
    obtain ⟨n, rfl⟩ := Nat.exists_eq_add_of_le' (show 2 ≤ n from Nat.le_of_lt (Nat.lt_of_le_of_lt (by simp) hn))
    have hread : load buf src = .ok c := h.read (i := 0) rfl
    rw [eraseSlashes, if_pos rfl, hread, ok_bind]
    by_cases hc : c = '/'
    · subst hc
      refine ih (h.pass (w := ['/'])) (Nat.lt_of_succ_lt_succ hn) ?_
      intro m c hc
      rw [eraseSlashes, if_neg hc, Nat.add_sub_cancel]
    · rw [hstop hc, List.dropWhile_cons_of_neg (by simpa using hc)]
      exact ⟨src, rfl, h⟩

/-- A name is copied up to the `/` or the end of the string. -/
theorem copyName_eq (h : Rewriting buf src dst (w ++ r) out) (hw : ∀ c ∈ w, c ≠ nul ∧ c ≠ '/') (hn : w.length < n)
    (hc : (r ++ [nul]).head? = some c) (hstop : ¬ (c ≠ nul ∧ c ≠ '/')) :
    ∃ buf', copyName n buf src dst = .ok (buf', src + w.length + 1, dst + w.length, c) ∧
      Rewriting buf' (src + w.length) (dst + w.length) r (out ++ w) := by
  induction w generalizing buf src dst out n with
  | nil =>
    obtain ⟨n, rfl⟩ := Nat.exists_eq_succ_of_ne_zero (Nat.ne_of_gt hn)
    refine ⟨buf, ?_, by simpa using h⟩
    have hread : load buf src = .ok c := h.read (i := 0) (by rw [← List.head?_eq_getElem?]; exact hc)
    rw [copyName, hread, ok_bind, if_neg hstop]
    rfl
  | cons d w ih =>
    obtain ⟨n, rfl⟩ := Nat.exists_eq_succ_of_ne_zero (Nat.ne_of_gt (Nat.lt_of_le_of_lt (Nat.zero_le _) hn))
    have hread : load buf src = .ok d := h.read (i := 0) rfl
    obtain ⟨hstore, h'⟩ := h.write d
    obtain ⟨buf', heq, hbuf'⟩ := ih h' (fun c hc => hw c (List.mem_cons_of_mem _ hc)) (Nat.lt_of_succ_lt_succ hn)
    refine ⟨buf', ?_, ?_⟩
    · rw [copyName, hread, ok_bind, if_pos (hw d List.mem_cons_self), hstore, ok_bind, heq, List.length_cons,
        Nat.add_right_comm src 1, Nat.add_assoc dst 1, Nat.add_comm 1]
      rfl
    · rw [List.append_assoc] at hbuf'
      rw [List.length_cons, ← Nat.add_assoc, ← Nat.add_assoc, Nat.add_right_comm src, Nat.add_right_comm dst]
      exact hbuf'

theorem backUp_eq (ht : buf.take dst = pre ++ w) (hlen : (pre ++ w).length = dst) (hw : '/' ∉ w)
    (hpre : pre = [] ∨ pre.getLast? = some '/') : backUp buf dst = .ok pre.length := by
  induction dst generalizing w with
  | zero =>
    obtain ⟨rfl, -⟩ := List.append_eq_nil_iff.1 (List.length_eq_zero_iff.1 hlen)
    rfl
  | succ dst ih =>
    have hread : buf[dst]? = (pre ++ w)[dst]? := by
      rw [← ht, List.getElem?_take_of_lt (Nat.lt_succ_self dst)]
    rcases List.eq_nil_or_concat' w with rfl | ⟨v, d, rfl⟩
    · rw [List.append_nil] at ht hlen hread
      rcases hpre with rfl | hlast
      · cases hlen
      · rw [List.getLast?_eq_getElem?, hlen] at hlast
        rw [backUp, load_of_get (hread.trans hlast), hlen]
        rfl
    · have hd : buf[dst]? = some d := by
        rw [hread, ← List.append_assoc, List.getElem?_append_right (by simp at hlen ⊢; omega)]
        simp at hlen
        simp [show dst - (pre.length + v.length) = 0 by omega]
      have hne : d ≠ '/' := by
        rintro rfl
        exact hw (by simp)
      rw [backUp, load_of_get hd, ok_bind, if_pos hne]
      refine ih (w := v) ?_ (by simp at hlen ⊢; omega) (fun h => hw (by simp [h]))
      have htake : buf.take dst = (buf.take (dst + 1)).take dst := by
        rw [List.take_take, Nat.min_eq_left (Nat.le_succ dst)]
      rw [htake, ht, ← List.append_assoc, List.take_left' (by simp at hlen ⊢; omega)]

/-! ## Directories -/

/-- What is written for the directory `st`, below the root or below the start of a relative path. -/
def shown (rooted : Bool) (st : List (List Char)) : List Char := (if rooted then ['/'] else []) ++ closed '/' st

/-- One component further. -/
def stepInto (rooted : Bool) (st : List (List Char)) (w : List Char) : Option (List (List Char)) :=
  if rooted then some (push '.' st w) else descend '.' st w

theorem shown_append : shown rooted (st ++ [w]) = shown rooted st ++ w ++ ['/'] := by
  rw [shown, closed_append, shown]
  simp

theorem shown_last : shown rooted st = [] ∨ (shown rooted st).getLast? = some '/' := by
  rcases List.eq_nil_or_concat' st with rfl | ⟨vs, v, rfl⟩
  · cases rooted
    · exact .inl rfl
    · exact .inr rfl
  · right
    rw [shown_append]
    simp

theorem nul_not_mem_shown (hst : ∀ v ∈ st, nul ∉ v) : nul ∉ shown rooted st := by
  intro h
  rcases List.mem_append.1 h with h | h
  · cases rooted <;> simp [nul] at h
  · obtain ⟨v, hv, hmem⟩ := List.mem_flatMap.1 h
    rcases List.mem_append.1 hmem with hmem | hmem
    · exact hst v hv hmem
    · exact absurd (List.mem_singleton.1 hmem) (by decide)

theorem stepInto_up : stepInto rooted st ['.', '.'] =
    if st = [] then (if rooted then some [] else none) else some st.dropLast := by
  have hpush : ∀ st, push '.' st ['.', '.'] = st.dropLast := by simp [push]
  cases rooted
  · by_cases h : st = [] <;> simp [stepInto, descend, hpush, h]
  · by_cases h : st = [] <;> simp [stepInto, hpush, h]

theorem stepInto_skip (h : w = [] ∨ w = ['.']) : stepInto rooted st w = some st := by
  have hpush : push '.' st w = st := if_pos h
  have hne : w ≠ ['.', '.'] := by rintro rfl; simp at h
  cases rooted <;> simp [stepInto, descend, hpush, hne]

theorem stepInto_name (h : Valid '/' '.' w) : stepInto rooted st w = some (st ++ [w]) := by
  cases rooted <;> simp [stepInto, descend, push_valid h, h.ne_up]

/-- `up_one` leaves the last directory. -/
theorem upOne_eq (h : Rewriting buf src dst rest (shown rooted st)) (hst : ∀ v ∈ st, Valid '/' '.' v) :
    (stepInto rooted st ['.', '.'] = none ∧ upOne buf src dst = .ok .null) ∨
    ∃ st' dst', stepInto rooted st ['.', '.'] = some st' ∧ upOne buf src dst = .ok (.next buf src dst') ∧
      Rewriting buf src dst' rest (shown rooted st') := by
  have hlen := h.length_eq
  rw [stepInto_up]
  rcases List.eq_nil_or_concat' st with rfl | ⟨vs, v, rfl⟩
  · cases rooted with
    | false =>
      obtain rfl : dst = 0 := hlen.symm
      exact .inl ⟨rfl, rfl⟩
    | true =>
      obtain rfl : dst = 1 := hlen.symm
      refine .inr ⟨[], 1, rfl, ?_, h⟩
      have hread : buf[0]? = some '/' := by
        have ht := congrArg (fun l => l[0]?) h.written
        simpa [List.getElem?_take, shown, closed] using ht
      have htop : atRoot buf 1 = .ok true := by
        rw [atRoot, if_pos rfl, load_of_get hread]
        rfl
      have hback : backUp buf 1 = .ok 1 := by
        rw [backUp, load_of_get hread]
        rfl
      rw [upOne, htop, ok_bind, if_neg (by simp), if_pos rfl, hback]
      rfl
  · have hv := hst v (by simp)
    have hpos : 0 < v.length := List.length_pos_iff.2 hv.ne_nil
    rw [if_neg (by simp), List.dropLast_concat]
    rw [shown_append] at h hlen
    rw [List.length_append, List.length_append, List.length_singleton] at hlen
    obtain ⟨d, rfl⟩ := Nat.exists_eq_succ_of_ne_zero (show dst ≠ 0 by omega)
    have hback : backUp buf d = .ok (shown rooted vs).length := by
      refine backUp_eq (w := v) ?_ (by rw [List.length_append]; omega) hv.sep_not_mem shown_last
      have htake : buf.take d = (buf.take (d + 1)).take d := by
        rw [List.take_take, Nat.min_eq_left (Nat.le_succ d)]
      rw [htake, h.written, List.take_left' (by rw [List.length_append]; omega)]
    refine .inr ⟨vs, (shown rooted vs).length, rfl, ?_, ?_⟩
    · have htop : atRoot buf (d + 1) = .ok false := if_neg (by omega)
      rw [upOne, htop, ok_bind, if_neg (by simp), if_neg (by simp), Nat.succ_sub_one, hback]
      rfl
    · constructor
      · exact h.unread
      · have htake : buf.take (shown rooted vs).length = (buf.take (d + 1)).take (shown rooted vs).length := by
          rw [List.take_take, Nat.min_eq_left (by omega)]
        rw [htake, h.written, List.append_assoc, List.take_left]
      · rfl
      · exact Nat.le_trans (by omega) h.le

/-! ## The end -/

theorem takeWhile_set_nul (hlt : dst < buf.length) (hnul : nul ∉ buf.take dst) :
    (buf.set dst nul).takeWhile (· ≠ nul) = buf.take dst := by
  have hsplit : buf.set dst nul = buf.take dst ++ nul :: buf.drop (dst + 1) := by
    rw [List.set_eq_take_append_cons_drop, if_pos hlt]
  rw [hsplit, List.takeWhile_append_of_pos, List.takeWhile_cons_of_neg (by simp), List.append_nil]
  intro c hc
  simp only [decide_eq_true_eq, ne_eq]
  rintro rfl
  exact hnul hc

theorem fillEmpty_eq {d : Nat} (ht : buf.take d = out) (hne : out ≠ []) (hnul : nul ∉ out) : fillEmpty buf = .ok buf := by
  obtain ⟨c, l, rfl⟩ := List.exists_cons_of_ne_nil hne
  have hd : 0 < d := by
    rcases Nat.eq_zero_or_pos d with rfl | h0
    · cases ht
    · exact h0
  have hread : buf[0]? = some c := by
    have h := congrArg (fun l => l[0]?) ht
    simpa [List.getElem?_take, hd] using h
  have hc : c ≠ nul := by
    rintro rfl
    exact hnul List.mem_cons_self
  rw [fillEmpty, load_of_get hread, ok_bind, if_neg hc]

/-- A path that is not empty ends at `dst`, or before the `/` there. -/
theorem finishPath_eq (ht : buf.take dst = out) (hlen : out.length = dst) (hlt : dst < buf.length) (hnul : nul ∉ out)
    (hne : out ≠ []) : finishPath buf dst =
      .ok (if out ≠ ['/'] ∧ out.getLast? = some '/' then out.dropLast else out) := by
  obtain ⟨init, last, rfl⟩ := (List.eq_nil_or_concat' out).resolve_left hne
  obtain ⟨d, rfl⟩ := Nat.exists_eq_succ_of_ne_zero (show dst ≠ 0 by simp at hlen; omega)
  have hd : init.length = d := by simpa using hlen
  have hstore : store buf (d + 1) nul = .ok (buf.set (d + 1) nul) := if_pos hlt
  have hwhole : (buf.set (d + 1) nul).take (d + 1) = init ++ [last] := by
    rw [List.take_set_of_le (Nat.le_refl _), ht]
  have htake : (buf.set (d + 1) nul).takeWhile (· ≠ nul) = init ++ [last] := by
    rw [takeWhile_set_nul hlt (by rw [ht]; exact hnul), ht]
  have hlast : (buf.set (d + 1) nul)[d]? = some last := by
    have h := congrArg (fun l => l[d]?) hwhole
    simpa [List.getElem?_take, ← hd] using h
  rw [finishPath, hstore, ok_bind, if_neg (Nat.succ_ne_zero d), Nat.succ_sub_one]
  by_cases hcut : d ≠ 0 ∧ last = '/'
  · obtain ⟨h0, rfl⟩ := hcut
    have hinit : init ≠ [] := by
      rintro rfl
      exact h0 hd.symm
    have hlt' : d < (buf.set (d + 1) nul).length := by
      rw [List.length_set]
      omega
    have hpre : (buf.set (d + 1) nul).take d = init := by
      have h : (buf.set (d + 1) nul).take d = ((buf.set (d + 1) nul).take (d + 1)).take d := by
        rw [List.take_take, Nat.min_eq_left (Nat.le_succ d)]
      rw [h, hwhole, List.take_left' hd]
    have hno : nul ∉ init := fun h => hnul (List.mem_append_left _ h)
    have hcut : cutSlash (buf.set (d + 1) nul) d = .ok ((buf.set (d + 1) nul).set d nul) := by
      rw [cutSlash, if_neg h0, load_of_get hlast, ok_bind, if_pos rfl]
      exact if_pos hlt'
    have hfill : fillEmpty ((buf.set (d + 1) nul).set d nul) = .ok ((buf.set (d + 1) nul).set d nul) :=
      fillEmpty_eq (by rw [List.take_set_of_le (Nat.le_refl _), hpre]) hinit hno
    rw [hcut, ok_bind, hfill, ok_bind, takeWhile_set_nul hlt' (by rw [hpre]; exact hno), hpre,
      if_pos ⟨by simp [hinit], by simp⟩, List.dropLast_concat]
  · have hkeep : cutSlash (buf.set (d + 1) nul) d = .ok (buf.set (d + 1) nul) := by
      rw [cutSlash]
      split
      · rfl
      · rename_i h0
        rw [load_of_get hlast, ok_bind, if_neg fun h => hcut ⟨h0, h⟩]
    have hcond : ¬ (init ++ [last] ≠ ['/'] ∧ (init ++ [last]).getLast? = some '/') := by
      rintro ⟨h1, h2⟩
      rw [List.getLast?_concat, Option.some.injEq] at h2
      subst h2
      apply hcut
      refine ⟨?_, rfl⟩
      rintro rfl
      exact h1 (by rw [List.length_eq_zero_iff.1 hd]; rfl)
    rw [hkeep, ok_bind, fillEmpty_eq hwhole hne hnul, ok_bind, htake, if_neg hcond]

/-! ## One turn -/

/-- A name with a `/` after it is copied, with one `/`. -/
theorem copyUp_next (h : Rewriting buf src dst (w ++ '/' :: r) out) (hw : ∀ c ∈ w, c ≠ nul ∧ c ≠ '/')
    (hn : (w ++ '/' :: r).length + 1 < n) :
    ∃ buf' src', copyUp n buf src dst = .ok (.next buf' src' (dst + w.length + 1)) ∧
      Rewriting buf' src' (dst + w.length + 1) (r.dropWhile (· = '/')) (out ++ w ++ ['/']) := by
  rw [List.length_append, List.length_cons] at hn
  obtain ⟨buf1, hcopy, h1⟩ := copyName_eq h hw (Nat.lt_of_le_of_lt (Nat.le_add_right _ _) (Nat.lt_of_succ_lt hn)) (c := '/') rfl (by simp)
  obtain ⟨hstore, h2⟩ := h1.write '/'
  obtain ⟨src', herase, h3⟩ := eraseSlashes_eq h2 (n := n) (by omega)
  refine ⟨buf1.set (dst + w.length) '/', src', ?_, h3⟩
  rw [copyUp, hcopy, ok_bind]
  dsimp only
  rw [if_pos rfl, hstore, ok_bind, herase, ok_bind]

/-- A name at the end is copied, and the loop ends. -/
theorem copyUp_done (h : Rewriting buf src dst w out) (hw : ∀ c ∈ w, c ≠ nul ∧ c ≠ '/') (hn : w.length < n) :
    ∃ buf', copyUp n buf src dst = .ok (.done buf' (dst + w.length)) ∧ buf'.take (dst + w.length) = out ++ w ∧
      (out ++ w).length = dst + w.length ∧ dst + w.length < buf'.length := by
  have h' : Rewriting buf src dst (w ++ []) out := by rwa [List.append_nil]
  obtain ⟨buf1, hcopy, h1⟩ := copyName_eq h' hw hn (c := nul) rfl (by simp)
  refine ⟨buf1, ?_, h1.written, h1.length_eq, Nat.lt_of_le_of_lt h1.le h1.lt⟩
  rw [copyUp, hcopy, ok_bind]
  dsimp only
  rw [if_neg (by decide)]

/-- A component that is not made of one or two dots is copied. -/
theorem pathTurn_name (h : Rewriting buf src dst (w ++ r) out) (hw : ∀ c ∈ w, c ≠ nul ∧ c ≠ '/')
    (hr : w = [] → r.head? ≠ some '.') (hdot : w ≠ ['.']) (hup : w ≠ ['.', '.']) :
    pathTurn n buf src dst = copyUp n buf src dst := by
  match w, hw, hdot, hup, h with
  | [], _, _, _, h =>
    have hread : ∃ c, load buf src = .ok c ∧ c ≠ '.' := by
      cases r with
      | nil => exact ⟨nul, h.read (i := 0) rfl, by decide⟩
      | cons c r => exact ⟨c, h.read (i := 0) rfl, fun hc => hr rfl (by rw [hc]; rfl)⟩
    obtain ⟨c, hc, hne⟩ := hread
    rw [pathTurn, hc, ok_bind, if_neg hne]
  | c :: w, hw, hdot, hup, h =>
    have hc : load buf src = .ok c := h.read (i := 0) rfl
    rw [pathTurn, hc, ok_bind]
    split
    · rename_i heq
      subst heq
      match w, hw, hdot, hup, h with
      | [], _, hdot, _, _ => exact absurd rfl hdot
      | c1 :: w, hw, _, hup, h =>
        have hc1 : load buf (src + 1) = .ok c1 := h.read (i := 1) rfl
        obtain ⟨hn1, hs1⟩ := hw c1 (by simp)
        rw [hc1, ok_bind, if_neg hn1, if_neg hs1]
        split
        · rename_i heq
          subst heq
          match w, hw, hup, h with
          | [], _, hup, _ => exact absurd rfl hup
          | c2 :: w, hw, _, h =>
            have hc2 : load buf (src + 2) = .ok c2 := h.read (i := 2) rfl
            obtain ⟨hn2, hs2⟩ := hw c2 (by simp)
            rw [hc2, ok_bind, if_neg hn2, if_neg hs2]
        · rfl
    · rfl

/-- What the last component leaves. -/
def lastName (w : List Char) : List Char := if w = ['.'] then [] else w

/-- The last component is at the end of the string, or it is two dots. -/
theorem pathTurn_last (h : Rewriting buf src dst w (shown rooted st)) (hw : ∀ c ∈ w, c ≠ nul ∧ c ≠ '/') (hn : w.length < n) :
    (w = ['.', '.'] ∧ ∃ src', pathTurn n buf src dst = upOne buf src' dst ∧ Rewriting buf src' dst [] (shown rooted st)) ∨
    w ≠ ['.', '.'] ∧ ∃ buf' dst', pathTurn n buf src dst = .ok (.done buf' dst') ∧
      buf'.take dst' = shown rooted st ++ lastName w ∧ (shown rooted st ++ lastName w).length = dst' ∧
      dst' < buf'.length := by
  by_cases hup : w = ['.', '.']
  · subst hup
    refine .inl ⟨rfl, src + 2, ?_, ?_⟩
    · have hc : load buf src = .ok '.' := h.read (i := 0) rfl
      have hc1 : load buf (src + 1) = .ok '.' := h.read (i := 1) rfl
      have hc2 : load buf (src + 2) = .ok nul := h.read (i := 2) rfl
      rw [pathTurn, hc, ok_bind, if_pos rfl, hc1, ok_bind, if_neg (by decide), if_neg (by decide), if_pos rfl, hc2, ok_bind,
        if_pos rfl]
    · have hp : Rewriting buf src dst (['.', '.'] ++ []) (shown rooted st) := h
      exact hp.pass
  · refine .inr ⟨hup, ?_⟩
    by_cases hdot : w = ['.']
    · subst hdot
      have hp : Rewriting buf src dst (['.'] ++ []) (shown rooted st) := h
      obtain ⟨buf', hcopy, h1, h2, h3⟩ := copyUp_done (n := n) hp.pass (by simp) (Nat.lt_of_le_of_lt (Nat.zero_le _) hn)
      refine ⟨buf', _, ?_, h1, h2, h3⟩
      have hc : load buf src = .ok '.' := h.read (i := 0) rfl
      have hc1 : load buf (src + 1) = .ok nul := h.read (i := 1) rfl
      rw [pathTurn, hc, ok_bind, if_pos rfl, hc1, ok_bind, if_pos rfl]
      exact hcopy
    · obtain ⟨buf', hcopy, h1, h2, h3⟩ := copyUp_done h hw hn
      rw [lastName, if_neg hdot]
      refine ⟨buf', _, ?_, h1, h2, h3⟩
      have hp : Rewriting buf src dst (w ++ []) (shown rooted st) := by rwa [List.append_nil]
      rw [pathTurn_name hp hw (by simp) hdot hup, hcopy]

/-- A component with a `/` after it. -/
theorem pathTurn_component (h : Rewriting buf src dst (w ++ '/' :: r) (shown rooted st))
    (hst : ∀ v ∈ st, Valid '/' '.' v) (hw : ∀ c ∈ w, c ≠ nul ∧ c ≠ '/') (hne : w ≠ [])
    (hn : (w ++ '/' :: r).length + 1 < n) :
    (stepInto rooted st w = none ∧ pathTurn n buf src dst = .ok .null) ∨
    ∃ buf' src' dst' st', stepInto rooted st w = some st' ∧ pathTurn n buf src dst = .ok (.next buf' src' dst') ∧
      Rewriting buf' src' dst' (r.dropWhile (· = '/')) (shown rooted st') := by
  by_cases hdot : w = ['.']
  · subst hdot
    have hc : load buf src = .ok '.' := h.read (i := 0) rfl
    have hc1 : load buf (src + 1) = .ok '/' := h.read (i := 1) rfl
    have hp : Rewriting buf src dst (['.', '/'] ++ r) (shown rooted st) := h
    obtain ⟨src', hskip, h'⟩ := skipSlashes_eq hp.pass (n := n) (by simp at hn; omega)
    refine .inr ⟨buf, src', dst, st, stepInto_skip (.inr rfl), ?_, h'⟩
    rw [pathTurn, hc, ok_bind, if_pos rfl, hc1, ok_bind, if_neg (by decide), if_pos rfl,
      show skipSlashes n buf (src + 2) = .ok src' from hskip, ok_bind]
  · by_cases hup : w = ['.', '.']
    · subst hup
      have hc : load buf src = .ok '.' := h.read (i := 0) rfl
      have hc1 : load buf (src + 1) = .ok '.' := h.read (i := 1) rfl
      have hc2 : load buf (src + 2) = .ok '/' := h.read (i := 2) rfl
      have hp : Rewriting buf src dst (['.', '.', '/'] ++ r) (shown rooted st) := h
      obtain ⟨src', hskip, h'⟩ := skipSlashes_eq hp.pass (n := n) (by simp at hn; omega)
      have hturn : pathTurn n buf src dst = upOne buf src' dst := by
        rw [pathTurn, hc, ok_bind, if_pos rfl, hc1, ok_bind, if_neg (by decide), if_neg (by decide), if_pos rfl, hc2,
          ok_bind, if_neg (by decide), if_pos rfl, show skipSlashes n buf (src + 3) = .ok src' from hskip, ok_bind]
      rw [hturn]
      rcases upOne_eq h' hst with h1 | ⟨st', dst', h1, h2, h3⟩
      · exact .inl h1
      · exact .inr ⟨buf, src', dst', st', h1, h2, h3⟩
    · obtain ⟨buf', src', hcopy, h'⟩ := copyUp_next h hw hn
      have hvalid : Valid '/' '.' w := ⟨hne, fun h => (hw _ h).2 rfl, hdot, hup⟩
      refine .inr ⟨buf', src', dst + w.length + 1, st ++ [w], stepInto_name hvalid, ?_, ?_⟩
      · rw [pathTurn_name h hw (fun h => absurd h hne) hdot hup, hcopy]
      · rw [shown_append]
        exact h'

/-! ## The whole path -/

/-- What is returned for the directory `st`: a relative path of which nothing is left is read before its buffer. -/
def leaves (rooted : Bool) (st : List (List Char)) : PathM (Option (List Char)) :=
  if rooted then .ok (some (absolute '/' st))
  else if st = [] then .error .outOfBounds
  else .ok (some (['/'].intercalate st))

/-- What is returned for the components `ws` from the directory `st`. -/
def outcome (rooted : Bool) (st ws : List (List Char)) : PathM (Option (List Char)) :=
  match ws.foldlM (stepInto rooted) st with
  | none => .ok none
  | some st' => leaves rooted st'

theorem outcome_cons {ws : List (List Char)} : outcome rooted st (w :: ws) =
    match stepInto rooted st w with
    | none => .ok none
    | some st' => outcome rooted st' ws := by
  rw [outcome, List.foldlM_cons]
  cases h : stepInto rooted st w <;> rfl

/-- Empty components count for nothing. -/
theorem outcome_dropWhile : outcome rooted st ((r.dropWhile (· = '/')).splitOn '/') = outcome rooted st (r.splitOn '/') := by
  induction r with
  | nil => rfl
  | cons c r ih =>
    by_cases hc : c = '/'
    · subst hc
      have hsplit := @List.splitOn_append_cons_self_of_not_mem Char [] _ _ '/' List.not_mem_nil r
      rw [List.nil_append] at hsplit
      rw [List.dropWhile_cons_of_pos (by simp), ih, hsplit, outcome_cons, stepInto_skip (.inl rfl)]
    · rw [List.dropWhile_cons_of_neg (by simpa using hc)]

theorem leaves_concat : leaves rooted (st ++ [w]) = .ok (some (shown rooted st ++ w)) := by
  cases rooted
  · change (if st ++ [w] = [] then _ else _) = Except.ok (some (closed '/' st ++ w))
    rw [if_neg (by simp), closed_append_eq]
  · change Except.ok (some (absolute '/' (st ++ [w]))) = Except.ok (some ('/' :: (closed '/' st ++ w)))
    rw [closed_append_eq]
    rfl

theorem shown_concat (hst : ∀ v ∈ st, Valid '/' '.' v) (hne : rooted = true ∨ st ≠ []) (hnul : ∀ v ∈ st, nul ∉ v)
    (ht : buf.take dst = shown rooted st) (hlen : (shown rooted st).length = dst) (hlt : dst < buf.length) :
    (finishPath buf dst >>= fun path => .ok (some path)) = leaves rooted st := by
  have hout : shown rooted st ≠ [] := by
    intro h
    rcases hne with rfl | hne
    · cases h
    · obtain ⟨vs, v, rfl⟩ := (List.eq_nil_or_concat' st).resolve_left hne
      rw [shown_append] at h
      simp at h
  rw [finishPath_eq ht hlen hlt (nul_not_mem_shown hnul) hout, ok_bind]
  rcases List.eq_nil_or_concat' st with rfl | ⟨vs, v, rfl⟩
  · obtain rfl : rooted = true := hne.resolve_right fun h => h rfl
    rfl
  · have hv := hst v (by simp)
    have hlong : shown rooted (vs ++ [v]) ≠ ['/'] := by
      rw [shown_append]
      intro h
      have hl := congrArg List.length h
      have hpos := List.length_pos_iff.2 hv.ne_nil
      simp at hl
      omega
    rw [if_pos ⟨hlong, (shown_last.resolve_left hout)⟩, shown_append, List.dropLast_concat, leaves_concat]

theorem shown_name (hv : Valid '/' '.' w) (hnul : ∀ v ∈ st ++ [w], nul ∉ v)
    (ht : buf.take dst = shown rooted st ++ w) (hlen : (shown rooted st ++ w).length = dst) (hlt : dst < buf.length) :
    (finishPath buf dst >>= fun path => .ok (some path)) = leaves rooted (st ++ [w]) := by
  have hno : nul ∉ shown rooted st ++ w := by
    intro h
    rcases List.mem_append.1 h with h | h
    · exact nul_not_mem_shown (fun v hv => hnul v (by simp [hv])) h
    · exact hnul w (by simp) h
  have hlast : (shown rooted st ++ w).getLast? ≠ some '/' := by
    obtain ⟨u, d, rfl⟩ := (List.eq_nil_or_concat' w).resolve_left hv.ne_nil
    rw [← List.append_assoc, List.getLast?_concat]
    intro h
    exact hv.sep_not_mem (by simp [Option.some.inj h])
  rw [finishPath_eq ht hlen hlt hno (by simp [hv.ne_nil]), ok_bind, if_neg fun h => hlast h.2, leaves_concat]

/-- The end of the loop. -/
theorem finish_eq (hst : ∀ v ∈ st, Valid '/' '.' v) (hnul : ∀ v ∈ st ++ [w], nul ∉ v) (hsep : '/' ∉ w)
    (hup : w ≠ ['.', '.']) (ht : buf.take dst = shown rooted st ++ lastName w)
    (hlen : (shown rooted st ++ lastName w).length = dst) (hlt : dst < buf.length) :
    (finishPath buf dst >>= fun path => .ok (some path)) = outcome rooted st [w] := by
  rw [outcome_cons]
  by_cases hskip : w = [] ∨ w = ['.']
  · have hempty : lastName w = [] := by
      rcases hskip with rfl | rfl <;> rfl
    rw [hempty, List.append_nil] at ht hlen
    rw [stepInto_skip hskip]
    by_cases hne : rooted = true ∨ st ≠ []
    · exact shown_concat hst hne (fun v hv => hnul v (by simp [hv])) ht hlen hlt
    · obtain ⟨h1, h2⟩ := not_or.1 hne
      obtain rfl := not_not.1 h2
      obtain rfl := Bool.not_eq_true _ ▸ h1
      obtain rfl : dst = 0 := hlen.symm
      rw [finishPath, show store buf 0 nul = .ok (buf.set 0 nul) from if_pos hlt, ok_bind, if_pos rfl]
      rfl
  · obtain ⟨h1, h2⟩ := not_or.1 hskip
    have hv : Valid '/' '.' w := ⟨h1, hsep, h2, hup⟩
    rw [lastName, if_neg h2] at ht hlen
    rw [stepInto_name hv]
    exact shown_name hv hnul ht hlen hlt

variable {k : Nat} {ws : List (List Char)}

theorem pathLoop_next {src' dst' : Nat} {buf' : List Char} (h : pathTurn n buf src dst = .ok (.next buf' src' dst')) :
    pathLoop n (k + 1) buf src dst = pathLoop n k buf' src' dst' := by
  rw [pathLoop, h]
  rfl

theorem pathLoop_null (h : pathTurn n buf src dst = .ok .null) : pathLoop n (k + 1) buf src dst = .ok none := by
  rw [pathLoop, h]
  rfl

theorem pathLoop_eq (h : Rewriting buf src dst rest (shown rooted st)) (hst : ∀ v ∈ st, Valid '/' '.' v)
    (hnul : nul ∉ rest) (hnst : ∀ v ∈ st, nul ∉ v) (hstart : rest.head? ≠ some '/') (hn : rest.length + 1 < n)
    (hk : rest.length < k) : pathLoop n k buf src dst = outcome rooted st (rest.splitOn '/') := by
  induction k generalizing buf src dst rest st with
  | zero => exact absurd hk (Nat.not_lt_zero _)
  | succ k ih =>
    -- the first component, and what is after it
    obtain ⟨w, tail, rfl, hsep, htail⟩ : ∃ w tail, rest = w ++ tail ∧ '/' ∉ w ∧ (tail = [] ∨ ∃ r, tail = '/' :: r) := by
      refine ⟨rest.takeWhile (· ≠ '/'), rest.dropWhile (· ≠ '/'), (List.takeWhile_append_dropWhile).symm, ?_, ?_⟩
      · intro hmem
        have hall := List.all_eq_true.1 (List.all_takeWhile (p := fun c : Char => decide (c ≠ '/')) (l := rest)) _ hmem
        simp at hall
      · cases hd : rest.dropWhile (· ≠ '/') with
        | nil => exact .inl rfl
        | cons c r =>
          have hc := List.head?_dropWhile_not (fun c : Char => decide (c ≠ '/')) rest
          rw [hd] at hc
          right
          refine ⟨r, ?_⟩
          simpa using hc
    have hw : ∀ c ∈ w, c ≠ nul ∧ c ≠ '/' := by
      intro c hc
      exact ⟨fun he => hnul (by simp [← he, hc]), fun he => hsep (by rw [← he]; exact hc)⟩
    have hnw : ∀ v ∈ st ++ [w], nul ∉ v := by
      intro v hv
      rcases List.mem_append.1 hv with hv | hv
      · exact hnst v hv
      · obtain rfl := List.mem_singleton.1 hv
        exact fun hm => (hw _ hm).1 rfl
    have hvalid : ∀ {st' : List (List Char)}, stepInto rooted st w = some st' →
        (∀ v ∈ st', Valid '/' '.' v) ∧ ∀ v ∈ st', nul ∉ v := by
      intro st' hs
      have hpush : st' = push '.' st w := by
        cases rooted
        · simp only [stepInto, Bool.false_eq_true, if_false, descend] at hs
          split at hs
          · cases hs
          · exact (Option.some.inj hs).symm
        · exact (Option.some.inj hs).symm
      subst hpush
      refine ⟨push_mem hsep hst, fun v hv => hnw v ?_⟩
      rw [push] at hv
      split at hv
      · simp [hv]
      · split at hv
        · simp [List.mem_of_mem_dropLast hv]
        · exact hv
    rcases htail with rfl | ⟨r, rfl⟩
    · rw [List.append_nil] at h hn hk ⊢
      rw [List.splitOn_eq_singleton hsep]
      rcases pathTurn_last h hw (Nat.lt_of_succ_lt hn) with ⟨rfl, src', hturn, h'⟩ | ⟨hup, buf', dst', hturn, ht, hlen, hlt⟩
      · rw [outcome_cons]
        rcases upOne_eq h' hst with ⟨hs, hup⟩ | ⟨st', dst', hs, hup, h''⟩
        · rw [pathLoop_null (hturn.trans hup), hs]
        · obtain ⟨h1, h2⟩ := hvalid hs
          have hrest := ih h'' h1 (by simp) h2 (by simp) (by simp at hn ⊢; omega) (by simp at hk ⊢; omega)
          rw [List.splitOn_nil, outcome_cons, stepInto_skip (.inl rfl)] at hrest
          rw [pathLoop_next (hturn.trans hup), hs]
          exact hrest
      · rw [pathLoop, hturn, ok_bind]
        exact finish_eq hst hnw hsep hup ht hlen hlt
    · have hne : w ≠ [] := by
        rintro rfl
        exact hstart rfl
      rw [List.splitOn_append_cons_self_of_not_mem hsep, outcome_cons]
      rcases pathTurn_component h hst hw hne hn with ⟨hs, hturn⟩ | ⟨buf', src', dst', st', hs, hturn, h'⟩
      · rw [pathLoop_null hturn, hs]
      · rw [pathLoop_next hturn, hs]
        change _ = outcome rooted st' (r.splitOn '/')
        rw [← outcome_dropWhile]
        obtain ⟨h1, h2⟩ := hvalid hs
        have hlen := (List.dropWhile_sublist (l := r) (fun c => decide (c = '/'))).length_le
        rw [List.length_append, List.length_cons] at hn hk
        refine ih h' h1 ?_ h2 ?_ (by omega) (by omega)
        · intro hmem
          exact hnul (List.mem_append_right _ (List.mem_cons_of_mem _ ((List.dropWhile_sublist _).mem hmem)))
        · have hd := List.head?_dropWhile_not (fun c : Char => decide (c = '/')) r
          cases hd' : r.dropWhile (· = '/') with
          | nil => simp
          | cons c l =>
            rw [hd'] at hd
            simpa using hd

/-- The first `/` of an absolute path is written as it is read. -/
theorem pathLoop_rooted (hnul : nul ∉ rest) (hn : rest.length + 3 < n) :
    pathLoop n n ('/' :: rest ++ [nul]) 0 0 = outcome true [] (('/' :: rest).splitOn '/') := by
  obtain ⟨k, rfl⟩ := Nat.exists_eq_succ_of_ne_zero (show n ≠ 0 by omega)
  have h : Rewriting ('/' :: rest ++ [nul]) 0 0 ([] ++ '/' :: rest) [] := ⟨rfl, rfl, rfl, Nat.le_refl 0⟩
  obtain ⟨buf', src', hcopy, h'⟩ := copyUp_next (n := k + 1) h (by simp) (by simp; omega)
  have hturn := (pathTurn_name (n := k + 1) h (by simp) (by simp) (by simp) (by simp)).trans hcopy
  have hsplit := @List.splitOn_append_cons_self_of_not_mem Char [] _ _ '/' List.not_mem_nil rest
  rw [List.nil_append] at hsplit
  rw [pathLoop_next hturn, hsplit, outcome_cons, stepInto_skip (.inl rfl)]
  change _ = outcome true [] (rest.splitOn '/')
  rw [← outcome_dropWhile]
  have hlen := (List.dropWhile_sublist (l := rest) (fun c => decide (c = '/'))).length_le
  have h0 : Rewriting buf' src' 1 (rest.dropWhile (· = '/')) (shown true []) := h'
  refine pathLoop_eq h0 (by simp) ?_ (by simp) ?_ (by omega) (by omega)
  · exact fun hmem => hnul ((List.dropWhile_sublist _).mem hmem)
  · have hd := List.head?_dropWhile_not (fun c : Char => decide (c = '/')) rest
    cases hd' : rest.dropWhile (· = '/') with
    | nil => simp
    | cons c l =>
      rw [hd'] at hd
      simpa using hd

variable {directory filename : CString}

theorem nul_not_mem_joinPath : nul ∉ joinPath directory filename := by
  rw [joinPath]
  split
  · intro h
    rcases List.mem_append.1 h with h | h
    · exact directory.nul_not_mem h
    · rcases List.mem_cons.1 h with h | h
      · exact absurd h (by decide)
      · exact filename.nul_not_mem h
  · exact filename.nul_not_mem

/-- `dfs_normalize_path` resolves the path lexically. -/
theorem dfsNormalizePath_eq (hn : (joinPath directory filename).length + 2 < n) :
    dfsNormalizePath n directory filename = outcome ((joinPath directory filename).head? = some '/') []
      ((joinPath directory filename).splitOn '/') := by
  have hnul : nul ∉ joinPath directory filename := nul_not_mem_joinPath
  rw [dfsNormalizePath]
  generalize joinPath directory filename = path at hn hnul ⊢
  by_cases hroot : path.head? = some '/'
  · obtain ⟨rest, rfl⟩ : ∃ rest, path = '/' :: rest := by
      cases path with
      | nil => cases hroot
      | cons c rest => exact ⟨rest, by rw [Option.some.inj hroot]⟩
    exact pathLoop_rooted (fun h => hnul (List.mem_cons_of_mem _ h)) hn
  · rw [decide_eq_false hroot]
    have h0 : Rewriting (path ++ [nul]) 0 0 path (shown false []) := ⟨rfl, rfl, rfl, Nat.le_refl 0⟩
    exact pathLoop_eq h0 (by simp) hnul (by simp) hroot (by omega) (by omega)

/-! ## What it should compute -/

/-- From the root there is always a directory. -/
theorem foldlM_rooted : ws.foldlM (stepInto true) st = some (ws.foldl (push '.') st) := by
  induction ws generalizing st with
  | nil => rfl
  | cons w ws ih =>
    exact ih

theorem outcome_rooted : outcome true [] ws = .ok (some (absolute '/' (resolve '.' ws))) := by
  rw [outcome, foldlM_rooted]
  rfl

theorem outcome_relative : (∃ r, outcome false [] ws = .ok r) ↔ ws.foldlM (descend '.') [] ≠ some [] := by
  have hstep : stepInto false = descend '.' := rfl
  rw [outcome, hstep]
  cases h : ws.foldlM (descend '.') [] with
  | none => simp
  | some st' =>
    change (∃ r, (if st' = [] then Except.error PathFault.outOfBounds else .ok (some (['/'].intercalate st'))) = Except.ok r) ↔ _
    by_cases he : st' = [] <;> simp [he]

/-- The path that is left of an absolute one. -/
def resolved (directory filename : CString) : CString where
  chars := absolute '/' (resolve '.' ((joinPath directory filename).splitOn '/'))
  nul_not_mem := by
    intro h
    rcases mem_absolute h with h | ⟨w, hw, hc⟩
    · exact absurd h (by decide)
    · exact nul_not_mem_joinPath ((mem_splitOn (resolve_subset w hw)).2 _ hc)

theorem resolved_valid : ∀ w ∈ resolve '.' ((joinPath directory filename).splitOn '/'), Valid '/' '.' w :=
  resolve_valid fun _ hw => (mem_splitOn hw).1

/-- A normal path stays. -/
theorem normalize_normal {d p : CString} (h : Normal '/' '.' p.chars) {m : Nat} (hm : p.chars.length + 2 < m) :
    dfsNormalizePath m d p = .ok (some p.chars) := by
  obtain ⟨ws, hv, heq⟩ := h
  have hhead : p.chars.head? = some '/' := by rw [heq]; rfl
  have hjoin : joinPath d p = p.chars := by rw [joinPath, if_neg (by simp [hhead])]
  rw [dfsNormalizePath_eq (by rwa [hjoin]), hjoin, decide_eq_true hhead, outcome_rooted, heq, resolve_absolute hv]

/-- `dfs_normalize_path` stays in its buffer and ends, and an absolute path is resolved: the result has no `/` at its end
and no `/` after a `/`, and it is its own result. -/
def Normalizes (directory filename : CString) : Prop :=
  ∀ n, (joinPath directory filename).length + 2 < n → ∃ r, dfsNormalizePath n directory filename = .ok r ∧
    ((joinPath directory filename).head? = some '/' → ∃ p : CString, r = some p.chars ∧
      p.chars = absolute '/' (resolve '.' ((joinPath directory filename).splitOn '/')) ∧
      (p.chars ≠ ['/'] → p.chars.getLast? ≠ some '/') ∧ ¬ ['/', '/'] <:+: p.chars ∧
      ∀ d m, p.chars.length + 2 < m → dfsNormalizePath m d p = .ok (some p.chars))

end RtThread
