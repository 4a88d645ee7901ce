import Mathlib.Data.List.Infix

/-!
# Paths and their components

A path is a list of symbols, its components stand between separators. Lexical resolution drops the empty components and
those of one dot, and takes a component of two dots for the way up: at the root it stays there (`resolve`), from a
directory that is not known it fails (`descend`). A normal path is a separator before each of its components
(`absolute`); resolution gives its components back (`resolve_absolute`).
-/

namespace Paths

variable {α : Type}

/-- A component of a normal path. -/
structure Valid (sep dot : α) (w : List α) : Prop where
  ne_nil : w ≠ []
  sep_not_mem : sep ∉ w
  ne_dot : w ≠ [dot]
  ne_up : w ≠ [dot, dot]

/-- The path of the components `ws` from the root. -/
def absolute (sep : α) (ws : List (List α)) : List α := sep :: [sep].intercalate ws

/-- A path that is as resolution makes it. -/
def Normal (sep dot : α) (p : List α) : Prop := ∃ ws, (∀ w ∈ ws, Valid sep dot w) ∧ p = absolute sep ws

/-- One component further from the directory `st` below the root. -/
def push [DecidableEq α] (dot : α) (st : List (List α)) (w : List α) : List (List α) :=
  if w = [] ∨ w = [dot] then st
  else if w = [dot, dot] then st.dropLast
  else st ++ [w]

/-- The components left of a path from the root. -/
def resolve [DecidableEq α] (dot : α) (ws : List (List α)) : List (List α) := ws.foldl (push dot) []

/-- One component further, but not above the start. -/
def descend [DecidableEq α] (dot : α) (st : List (List α)) (w : List α) : Option (List (List α)) :=
  if w = [dot, dot] ∧ st = [] then none else some (push dot st w)

variable {sep dot : α} {w : List α} {ws st vs : List (List α)}

/-! ## Joining -/

/-- Each component with a separator after it. -/
def closed (sep : α) (ws : List (List α)) : List α := ws.flatMap (· ++ [sep])

theorem closed_append : closed sep (ws ++ [w]) = closed sep ws ++ w ++ [sep] := by
  simp [closed]

theorem closed_append_eq : closed sep ws ++ w = [sep].intercalate (ws ++ [w]) := by
  induction ws with
  | nil => simp [closed]
  | cons v ws ih =>
    rw [List.cons_append, List.intercalate_cons_of_ne_nil (by simp), ← ih]
    simp [closed]

theorem closed_eq (h : ws ≠ []) : closed sep ws = [sep].intercalate ws ++ [sep] := by
  obtain ⟨vs, v, rfl⟩ : ∃ vs v, ws = vs ++ [v] := ⟨_, _, (List.dropLast_append_getLast h).symm⟩
  rw [closed_append, closed_append_eq]

/-- Longer paths have a separator and the rest. -/
theorem absolute_append (h : vs ≠ []) : absolute sep (ws ++ vs) = sep :: closed sep ws ++ [sep].intercalate vs := by
  induction ws with
  | nil => rfl
  | cons w ws ih =>
    rw [absolute, List.cons_append] at ih ⊢
    rw [List.intercalate_cons_of_ne_nil (by simp [h]), (List.cons.inj ih).2]
    simp [closed]

/-- A path below another one starts with it and a separator. -/
theorem absolute_append_eq (hw : ws ≠ []) (h : vs ≠ []) :
    absolute sep (ws ++ vs) = absolute sep ws ++ absolute sep vs := by
  rw [absolute_append h, closed_eq hw]
  simp [absolute]

theorem ne_nil_of_intercalate (hv : ∀ w ∈ ws, w ≠ []) (h : [sep].intercalate ws = []) : ws = [] := by
  cases ws with
  | nil => rfl
  | cons w ws =>
    exfalso
    cases ws with
    | nil =>
      rw [List.intercalate_singleton] at h
      exact hv w List.mem_cons_self h
    | cons v ws =>
      simp at h

theorem intercalate_getLast (h : ws ≠ []) (hv : ∀ w ∈ ws, w ≠ [] ∧ sep ∉ w) :
    ∃ init last, [sep].intercalate ws = init ++ [last] ∧ last ≠ sep := by
  obtain ⟨us, u, rfl⟩ : ∃ us u, ws = us ++ [u] := ⟨_, _, (List.dropLast_append_getLast h).symm⟩
  obtain ⟨hne, hsep⟩ := hv u (by simp)
  refine ⟨closed sep us ++ u.dropLast, u.getLast hne, ?_, ?_⟩
  · rw [← closed_append_eq, List.append_assoc, List.dropLast_append_getLast]
  · rintro rfl
    exact hsep (List.getLast_mem hne)

/-- A normal path that is not the root does not end with a separator. -/
theorem Normal.getLast (h : Normal sep dot w) (hne : w ≠ [sep]) : w.getLast? ≠ some sep := by
  obtain ⟨ws, hv, rfl⟩ := h
  have hws : ws ≠ [] := by
    rintro rfl
    exact hne rfl
  obtain ⟨init, last, heq, hlast⟩ := intercalate_getLast hws fun w hw => ⟨(hv w hw).ne_nil, (hv w hw).sep_not_mem⟩
  rw [absolute, heq, ← List.cons_append, List.getLast?_append]
  simpa using hlast

variable [DecidableEq α]

/-- The components of a path. -/
theorem splitOn_absolute (hv : ∀ w ∈ ws, sep ∉ w) (h : ws ≠ []) : (absolute sep ws).splitOn sep = [] :: ws := by
  have hsplit := @List.splitOn_append_cons_self_of_not_mem α [] _ _ sep List.not_mem_nil ([sep].intercalate ws)
  rw [List.nil_append] at hsplit
  rw [absolute, hsplit, List.splitOn_intercalate sep hv h]

/-- The components are made of the other symbols of the path. -/
theorem mem_splitOn {p : List α} (h : w ∈ p.splitOn sep) : sep ∉ w ∧ ∀ c ∈ w, c ∈ p := by
  induction p generalizing w with
  | nil =>
    rw [List.splitOn_nil, List.mem_singleton] at h
    simp [h]
  | cons c p ih =>
    rw [List.splitOn_cons_eq_if_modifyHead] at h
    split at h
    · rcases List.mem_cons.1 h with rfl | h
      · simp
      · obtain ⟨h1, h2⟩ := ih h
        exact ⟨h1, fun d hd => List.mem_cons_of_mem _ (h2 d hd)⟩
    · rename_i hc
      obtain ⟨v, vs, hv⟩ := List.exists_cons_of_ne_nil (List.splitOn_ne_nil sep p)
      rw [hv, List.modifyHead_cons] at h
      rcases List.mem_cons.1 h with rfl | h
      · obtain ⟨h1, h2⟩ := ih (w := v) (by simp [hv])
        refine ⟨?_, ?_⟩
        · simp only [List.mem_cons, not_or]
          exact ⟨fun hs => hc (by simp [hs]), h1⟩
        · intro d hd
          rcases List.mem_cons.1 hd with rfl | hd
          · exact List.mem_cons_self
          · exact List.mem_cons_of_mem _ (h2 d hd)
      · obtain ⟨h1, h2⟩ := ih (w := w) (by simp [hv, h])
        exact ⟨h1, fun d hd => List.mem_cons_of_mem _ (h2 d hd)⟩

omit [DecidableEq α] in
/-- A path is made of its components and separators. -/
theorem mem_absolute {c : α} (h : c ∈ absolute sep ws) : c = sep ∨ ∃ w ∈ ws, c ∈ w := by
  rcases List.mem_cons.1 h with rfl | h
  · exact .inl rfl
  · by_cases hw : ws = []
    · subst hw
      simp at h
    · have hc : c ∈ closed sep ws := by
        rw [closed_eq hw]
        exact List.mem_append_left _ h
      obtain ⟨w, hmem, hc⟩ := List.mem_flatMap.1 hc
      rcases List.mem_append.1 hc with hc | hc
      · exact .inr ⟨w, hmem, hc⟩
      · exact .inl (List.mem_singleton.1 hc)

theorem absolute_injective (hv : ∀ w ∈ ws, Valid sep dot w) (hv' : ∀ w ∈ vs, Valid sep dot w)
    (h : absolute sep ws = absolute sep vs) : ws = vs := by
  by_cases hw : ws = []
  · subst hw
    exact (ne_nil_of_intercalate (fun w hw => (hv' w hw).ne_nil) (List.cons.inj h).2.symm).symm
  · have hvs : vs ≠ [] := by
      rintro rfl
      exact hw (ne_nil_of_intercalate (fun w hw => (hv w hw).ne_nil) (List.cons.inj h).2)
    have h1 := splitOn_absolute (fun w hw => (hv w hw).sep_not_mem) hw
    have h2 := splitOn_absolute (fun w hw => (hv' w hw).sep_not_mem) hvs
    rw [h, h2] at h1
    exact (List.cons.inj h1).2.symm

/-! ## Resolution -/

theorem push_valid (hw : Valid sep dot w) : push dot st w = st ++ [w] := by
  rw [push, if_neg (by simp [hw.ne_nil, hw.ne_dot]), if_neg hw.ne_up]

theorem foldl_push_valid (hv : ∀ w ∈ ws, Valid sep dot w) : ws.foldl (push dot) st = st ++ ws := by
  induction ws generalizing st with
  | nil => simp
  | cons w ws ih =>
    rw [List.foldl_cons, push_valid (hv w List.mem_cons_self), ih fun v hv' => hv v (List.mem_cons_of_mem _ hv')]
    simp

/-- Resolution gives the components of a normal path back. -/
theorem resolve_absolute (hv : ∀ w ∈ ws, Valid sep dot w) : resolve dot ((absolute sep ws).splitOn sep) = ws := by
  by_cases h : ws = []
  · subst h
    have hsplit := @List.splitOn_append_cons_self_of_not_mem α [] _ _ sep List.not_mem_nil []
    rw [List.nil_append] at hsplit
    rw [absolute, List.intercalate_nil, hsplit, List.splitOn_nil]
    simp [resolve, push]
  · rw [splitOn_absolute (fun w hw => (hv w hw).sep_not_mem) h, resolve, List.foldl_cons, push, if_pos (.inl rfl),
      foldl_push_valid hv, List.nil_append]

theorem push_mem (hw : sep ∉ w) (hst : ∀ v ∈ st, Valid sep dot v) : ∀ v ∈ push dot st w, Valid sep dot v := by
  intro v hv
  rw [push] at hv
  split at hv
  · exact hst v hv
  · split at hv
    · exact hst v (List.mem_of_mem_dropLast hv)
    · rename_i h1 h2
      rcases List.mem_append.1 hv with hv | hv
      · exact hst v hv
      · obtain rfl := List.mem_singleton.1 hv
        exact ⟨fun h => h1 (.inl h), hw, fun h => h1 (.inr h), h2⟩

/-- What resolution leaves was there. -/
theorem resolve_subset : ∀ w ∈ resolve dot ws, w ∈ ws := by
  have hfold : ∀ (ws st : List (List α)), ∀ w ∈ ws.foldl (push dot) st, w ∈ st ∨ w ∈ ws := by
    intro ws
    induction ws with
    | nil => exact fun st w h => .inl h
    | cons u ws ih =>
      intro st w h
      rcases ih _ w h with h | h
      · rw [push] at h
        split at h
        · exact .inl h
        · split at h
          · exact .inl (List.mem_of_mem_dropLast h)
          · rcases List.mem_append.1 h with h | h
            · exact .inl h
            · exact .inr (by simp [List.mem_singleton.1 h])
      · exact .inr (List.mem_cons_of_mem _ h)
  exact fun w h => (hfold ws [] w h).resolve_left (by simp)

/-- What resolution leaves are components of a normal path. -/
theorem resolve_valid (hv : ∀ w ∈ ws, sep ∉ w) : ∀ w ∈ resolve dot ws, Valid sep dot w := by
  have hfold : ∀ (ws st : List (List α)), (∀ w ∈ ws, sep ∉ w) → (∀ v ∈ st, Valid sep dot v) →
      ∀ v ∈ ws.foldl (push dot) st, Valid sep dot v := by
    intro ws
    induction ws with
    | nil => exact fun _ _ hst => hst
    | cons w ws ih =>
      intro st hv hst
      exact ih _ (fun v h => hv v (List.mem_cons_of_mem _ h)) (push_mem (hv w List.mem_cons_self) hst)
  exact hfold ws [] hv (by simp)

/-! ## Normal paths -/

/-- A normal path has no separator after a separator. -/
theorem Normal.single (h : Normal sep dot w) : ¬ [sep, sep] <:+: w := by
  obtain ⟨ws, hv, rfl⟩ := h
  rintro ⟨a, b, heq⟩
  have hsplit : ((absolute sep ws).splitOn sep).tail = ws ∨ ws = [] := by
    by_cases h : ws = []
    · exact .inr h
    · rw [splitOn_absolute (fun w hw => (hv w hw).sep_not_mem) h]
      exact .inl rfl
  rw [← heq, List.append_assoc, List.cons_append, List.splitOn_append_cons_self, List.cons_append, List.nil_append] at hsplit
  rcases hsplit with hsplit | rfl
  · have hmem : [] ∈ ws := by
      rw [← hsplit, List.tail_append_of_ne_nil (List.splitOn_ne_nil _ _)]
      have hb := @List.splitOn_append_cons_self_of_not_mem α [] _ _ sep List.not_mem_nil b
      rw [List.nil_append] at hb
      rw [hb]
      simp
    exact (hv [] hmem).ne_nil rfl
  · have hlen := congrArg List.length heq
    simp [absolute] at hlen
    omega

/-! ## One path within another -/

/-- The components that are not empty. -/
def names (sep : α) (p : List α) : List (List α) := (p.splitOn sep).filter (· ≠ [])

theorem names_absolute (hv : ∀ w ∈ ws, Valid sep dot w) : names sep (absolute sep ws) = ws := by
  by_cases h : ws = []
  · subst h
    have hsplit := @List.splitOn_append_cons_self_of_not_mem α [] _ _ sep List.not_mem_nil []
    rw [List.nil_append] at hsplit
    rw [names, absolute, List.intercalate_nil, hsplit, List.splitOn_nil]
    rfl
  · rw [names, splitOn_absolute (fun w hw => (hv w hw).sep_not_mem) h, List.filter_cons_of_neg (by simp)]
    exact List.filter_eq_self.2 fun w hw => by simpa using (hv w hw).ne_nil

/-- A path is within another one if its components are the first of it: the paths are the same, the other one is the
root, or there is a separator after it. -/
theorem names_prefix {m p : List α} (hm : Normal sep dot m) (hp : Normal sep dot p) :
    names sep m <+: names sep p ↔ p = m ∨ m = [sep] ∨ ∃ r, p = m ++ sep :: r := by
  obtain ⟨ws, hws, rfl⟩ := hm
  obtain ⟨us, hus, rfl⟩ := hp
  rw [names_absolute hws, names_absolute hus]
  constructor
  · rintro ⟨vs, rfl⟩
    by_cases hv : vs = []
    · subst hv
      exact .inl (by rw [List.append_nil])
    · by_cases hw : ws = []
      · subst hw
        exact .inr (.inl rfl)
      · exact .inr (.inr ⟨_, absolute_append_eq hw hv⟩)
  · rintro (h | h | ⟨r, h⟩)
    · rw [absolute_injective hus hws h]
    · have hnil : ws = [] := absolute_injective hws (by simp) h
      rw [hnil]
      exact List.nil_prefix
    · by_cases hw : ws = []
      · rw [hw]
        exact List.nil_prefix
      · have hu : us ≠ [] := by
          rintro rfl
          have hlen := congrArg List.length h
          simp [absolute] at hlen
        have hsplit := congrArg (List.splitOn sep) h
        rw [splitOn_absolute (fun w hw => (hus w hw).sep_not_mem) hu, List.splitOn_append_cons_self,
          splitOn_absolute (fun w hw => (hws w hw).sep_not_mem) hw, List.cons_append] at hsplit
        exact ⟨r.splitOn sep, (List.cons.inj hsplit).2.symm⟩

omit [DecidableEq α] in
theorem Normal.head (h : Normal sep dot w) : ∃ r, w = sep :: r := by
  obtain ⟨ws, -, rfl⟩ := h
  exact ⟨_, rfl⟩

/-- What is before a separator of a normal path is one. -/
theorem Normal.before {a r : List α} (h : Normal sep dot (a ++ sep :: r)) (ha : a ≠ []) : Normal sep dot a := by
  obtain ⟨ws, hv, heq⟩ := h
  have hw : ws ≠ [] := by
    rintro rfl
    have hlen := congrArg List.length heq
    have hpos := List.length_pos_iff.2 ha
    simp [absolute] at hlen
    omega
  have hsplit := congrArg (List.splitOn sep) heq
  rw [splitOn_absolute (fun w hw => (hv w hw).sep_not_mem) hw, List.splitOn_append_cons_self] at hsplit
  obtain ⟨u, us, hus⟩ := List.exists_cons_of_ne_nil (List.splitOn_ne_nil sep a)
  rw [hus, List.cons_append] at hsplit
  obtain ⟨rfl, rfl⟩ := List.cons.inj hsplit
  have hjoin : [sep].intercalate (a.splitOn sep) = a := List.intercalate_splitOn sep
  rw [hus] at hjoin
  have hne : us ≠ [] := by
    rintro rfl
    exact ha hjoin.symm
  refine ⟨us, fun w h => hv w (List.mem_append_left _ h), ?_⟩
  rw [List.intercalate_cons_of_ne_nil hne] at hjoin
  exact hjoin.symm

end Paths
