import Mathlib.Data.Option.Basic
import Mathlib.Logic.Function.Iterate

/-!
# Runs of a transition relation

`Run Step s ls s'`: a run from `s` to `s'` whose steps have the labels `ls`, in order. A property of the state, or of
the labels so far and the state, that holds at the start and is kept by every step holds at the end (`Run.invariant`,
`Run.history`). `exec` computes the run of a partial step function on a list of inputs. `Reaches` is for a machine
without inputs.
-/

namespace Runs

variable {S L E R : Type}

/-- The runs from `s`: the labels of the steps, and the state after them. -/
inductive Run (Step : S → L → S → Prop) (s : S) : List L → S → Prop
  | nil : Run Step s [] s
  | snoc {ls : List L} {l : L} {s' s'' : S} (hr : Run Step s ls s') (hs : Step s' l s'') : Run Step s (ls ++ [l]) s''

variable {Step Step' : S → L → S → Prop} {s s' s'' : S} {ls : List L} {l : L}

variable {I : List L → S → Prop} {f : S → E → Option (S × R)} {P : S → Prop}

/-- What every step keeps, given the labels before it, holds of the labels and the last state of every run. -/
theorem Run.history (h0 : I [] s)
    (hstep : ∀ ls s l s', I ls s → Step s l s' → I (ls ++ [l]) s') (hr : Run Step s ls s') : I ls s' := by
  induction hr with
  | nil => exact h0
  | snoc _ hs ih => exact hstep _ _ _ _ ih hs

/-- What every step keeps holds in every state reached. -/
theorem Run.invariant {I : S → Prop} (h0 : I s) (hstep : ∀ s l s', I s → Step s l s' → I s')
    (hr : Run Step s ls s') : I s' :=
  hr.history (I := fun _ s => I s) h0 fun _ s l s' => hstep s l s'

theorem Run.mono (h : ∀ s l s', Step s l s' → Step' s l s') (hr : Run Step s ls s') : Run Step' s ls s' := by
  induction hr with
  | nil => exact .nil
  | snoc _ hs ih => exact .snoc ih (h _ _ _ hs)

theorem Run.cons (hs : Step s l s') (hr : Run Step s' ls s'') : Run Step s (l :: ls) s'' := by
  induction hr with
  | nil => exact .snoc .nil hs
  | snoc _ hs' ih => exact .snoc ih hs'

/-- Steps that are the same where an invariant holds. -/
theorem Run.iff_of_invariant {I : S → Prop} (h0 : I s) (hkeep : ∀ s l s', I s → Step' s l s' → I s')
    (h : ∀ s l s', I s → (Step s l s' ↔ Step' s l s')) : Run Step s ls s' ↔ Run Step' s ls s' := by
  constructor
  · intro hr
    induction hr with
    | nil => exact .nil
    | snoc _ hs ih => exact .snoc ih ((h _ _ _ (ih.invariant h0 hkeep)).1 hs)
  · intro hr
    induction hr with
    | nil => exact .nil
    | snoc hr hs ih => exact .snoc ih ((h _ _ _ (hr.invariant h0 hkeep)).2 hs)

/-- The runs that have a property, of the labels so far and the state, from the start to the end. -/
inductive RunWith (Step : S → L → S → Prop) (P : List L → S → Prop) (s : S) : List L → S → Prop
  | nil (hp : P [] s) : RunWith Step P s [] s
  | snoc {ls : List L} {l : L} {s' s'' : S} (hr : RunWith Step P s ls s') (hs : Step s' l s'') (hp : P (ls ++ [l]) s'') :
      RunWith Step P s (ls ++ [l]) s''

/-- Where the property is kept by the steps of `Step'` and by no others. -/
theorem RunWith.iff_run {P : List L → S → Prop} (h0 : I [] s) (hp : P [] s)
    (hkeep : ∀ ls s l s', I ls s → Step' s l s' → I (ls ++ [l]) s')
    (h : ∀ ls s l s', I ls s → (Step s l s' ∧ P (ls ++ [l]) s' ↔ Step' s l s')) :
    RunWith Step P s ls s' ↔ Run Step' s ls s' := by
  constructor
  · intro hr
    induction hr with
    | nil => exact .nil
    | snoc _ hs hp ih => exact .snoc ih ((h _ _ _ _ (ih.history h0 hkeep)).1 ⟨hs, hp⟩)
  · intro hr
    induction hr with
    | nil => exact .nil hp
    | snoc hr hs ih =>
      obtain ⟨hstep, hp'⟩ := (h _ _ _ _ (hr.history h0 hkeep)).2 hs
      exact .snoc ih hstep hp'

/-- A run that ends with a step, before it. -/
theorem Run.last (hr : Run Step s (ls ++ [l]) s'') : ∃ s', Run Step s ls s' ∧ Step s' l s'' := by
  generalize hls : ls ++ [l] = ks at hr
  cases hr with
  | nil => simp at hls
  | snoc hr hs =>
    obtain ⟨rfl, rfl⟩ := List.append_inj' hls rfl |>.imp id List.singleton_inj.1
    exact ⟨_, hr, hs⟩

/-- The run of a partial step function on a list of inputs, with its outputs. -/
def exec (f : S → E → Option (S × R)) : S → List E → Option (S × List (E × R))
  | s, [] => some (s, [])
  | s, e :: es =>
    match f s e with
    | none => none
    | some (s', r) => (exec f s' es).map fun x => (x.1, (e, r) :: x.2)

/-- A computed run is a run, under a guard that holds of all its inputs. -/
theorem Run.of_exec {Step : S → E × R → S → Prop} {ok : E → Prop}
    (hstep : ∀ s e s' r, f s e = some (s', r) → ok e → Step s (e, r) s') {es : List E} {ls : List (E × R)}
    (h : exec f s es = some (s', ls)) (hok : ∀ e ∈ es, ok e) : Run Step s ls s' := by
  induction es generalizing s ls with
  | nil =>
    cases h
    exact .nil
  | cons e es ih =>
    simp only [exec] at h
    split at h
    · cases h
    · rename_i s1 r hf
      obtain ⟨⟨s2, ls2⟩, he, heq⟩ := Option.map_eq_some_iff.1 h
      cases heq
      exact .cons (hstep _ _ _ _ hf (hok e (by simp))) (ih he fun e' he' => hok e' (by simp [he']))

/-- A run that is computed, and a property of its last state that is decided. -/
theorem Run.of_computed [DecidableEq E] [DecidableEq R] [DecidablePred P]
    (ls : List (E × R)) (h : (exec f s (ls.map Prod.fst)).any (fun y => decide (y.2 = ls ∧ P y.1)) = true) :
    ∃ s', Run (fun s x s' => f s x.1 = some (s', x.2)) s ls s' ∧ P s' := by
  obtain ⟨⟨s', ls'⟩, hs, hdec⟩ := (Option.any_eq_true _ _).1 h
  obtain ⟨hls, hp⟩ : ls' = ls ∧ P s' := of_decide_eq_true hdec
  subst hls
  exact ⟨s', .of_exec (fun _ _ _ _ h (_ : True) => h) hs fun _ _ => trivial, hp⟩

/-- The run that a partial function computes. -/
theorem Run.of_foldlM {f : S → L → Option S} [DecidablePred P] (ls : List L)
    (h : (ls.foldlM f s).any (fun s' => decide (P s')) = true) :
    ∃ s', Run (fun s l s' => f s l = some s') s ls s' ∧ P s' := by
  obtain ⟨s', hs, hdec⟩ := (Option.any_eq_true _ _).1 h
  refine ⟨s', ?_, of_decide_eq_true hdec⟩
  clear h hdec
  induction ls generalizing s with
  | nil =>
    cases hs
    exact .nil
  | cons l ls ih =>
    obtain ⟨s1, h1, hrest⟩ := Option.bind_eq_some_iff.1 hs
    exact Run.cons h1 (ih hrest)

/-- A machine gets from one state to the other. -/
def Reaches (f : S → S) (s s' : S) : Prop := ∃ n, f^[n] s = s'

namespace Reaches

variable {f : S → S}

theorem refl (s : S) : Reaches f s s := ⟨0, rfl⟩

theorem head (h : Reaches f (f s) s') : Reaches f s s' := by
  obtain ⟨n, hn⟩ := h
  exact ⟨n + 1, hn⟩

theorem trans (h : Reaches f s s') (h' : Reaches f s' s'') : Reaches f s s'' := by
  obtain ⟨n, rfl⟩ := h
  obtain ⟨m, rfl⟩ := h'
  exact ⟨m + n, Function.iterate_add_apply f m n s⟩

theorem fixed (h : Reaches f s s') (hs : f s = s) : s' = s := by
  obtain ⟨n, rfl⟩ := h
  exact Function.iterate_fixed hs n

/-- A machine stops in one state only. -/
theorem stop_unique (h : Reaches f s s') (h' : Reaches f s s'') (hs : f s' = s') (hs' : f s'' = s'') : s' = s'' := by
  obtain ⟨n, hn⟩ := h
  obtain ⟨m, hm⟩ := h'
  rcases Nat.le_total n m with hle | hle
  · obtain ⟨k, rfl⟩ := Nat.exists_eq_add_of_le' hle
    rw [Function.iterate_add_apply, hn] at hm
    exact (fixed ⟨k, hm⟩ hs).symm
  · obtain ⟨k, rfl⟩ := Nat.exists_eq_add_of_le' hle
    rw [Function.iterate_add_apply, hm] at hn
    exact fixed ⟨k, hn⟩ hs'

end Reaches

end Runs
