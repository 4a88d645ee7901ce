import Mathlib.Algebra.Group.Nat.Defs
import Mathlib.Data.List.Nodup

/-!
# Numbers of CPU nodes

`rt_ofw_get_next_cpu_node` and `rt_ofw_get_cpu_id` of `base.c`. The first skips the children of `/cpus` that are not a cpu, and
the second asks this of the node that it looks for: a child that is not a cpu takes a number too.
-/

namespace RtThread

/-- What is read of a child of `/cpus`. -/
structure CpuNode where
  fullName : List Char
  deviceType : Option (List Char)
  status : Option (List Char)
  cpuid : Option Nat

def rtFdtNodeName (fullName : List Char) : List Char := (fullName.reverse.takeWhile (· ≠ '/')).reverse

def rtOfwNodeTagEqu (np : CpuNode) (tag : List Char) : Bool :=
  let nodeName := rtFdtNodeName np.fullName
  let tagLen := (nodeName.takeWhile (· ≠ '@')).length
  tag.length == tagLen && nodeName.take tagLen == tag.take tagLen

def rtOfwNodeIsType (np : CpuNode) (type : List Char) : Bool := np.deviceType == some type

/-- The test that both loops make. -/
def isCpu (np : CpuNode) : Bool := rtOfwNodeTagEqu np ['c', 'p', 'u'] || rtOfwNodeIsType np ['c', 'p', 'u']

def ofwNodeIsFail (np : CpuNode) : Bool :=
  np.status.any fun status => status == ['f', 'a', 'i', 'l'] || status.take 5 == ['f', 'a', 'i', 'l', '-']

/-- A child that `rt_ofw_get_next_cpu_node` stops at. -/
def CpuNode.stops (np : CpuNode) : Bool := !ofwNodeIsFail np && isCpu np

variable {α : Type} [DecidableEq α] (node : α → CpuNode) (children : List α)

/-- `rt_ofw_get_next_cpu_node`, on the sibling list of the children of `/cpus`. -/
def rtOfwGetNextCpuNode (prev : Option α) : Option α :=
  let from_ := match prev with
    | some prev => (children.dropWhile (· ≠ prev)).tail
    | none => children
  from_.find? fun np => (node np).stops

/-- The nodes that `rt_ofw_foreach_cpu_node` visits from `cpu_np` on; `none` if it takes more than `n` steps. -/
def rtOfwForeachCpuNode : Nat → Option α → Option (List α)
  | _, none => some []
  | 0, some _ => none
  | n + 1, some np => (rtOfwForeachCpuNode n (rtOfwGetNextCpuNode node children (some np))).map (np :: ·)

/-- The loop of `rt_ofw_get_cpu_id`: the test is on `cpu_np`. -/
def cpuIndex (cpuNp : α) : List α → Nat → Option Nat
  | [], _ => none
  | np :: rest, idx =>
    if !isCpu (node cpuNp) then cpuIndex cpuNp rest idx
    else if cpuNp = np then some idx
    else cpuIndex cpuNp rest (idx + 1)

/-- `rt_ofw_get_cpu_id`. A list in memory has fewer than `2 ^ 63` nodes: a place in it is not negative. -/
def rtOfwGetCpuId : Option α → Nat
  | none => 2 ^ 64 - 1
  | some cpuNp => ((cpuIndex node cpuNp children 0).or (node cpuNp).cpuid).getD (2 ^ 64 - 1)

variable {node children} {xs ys : List α} {a : α}

/-- The loop from a place in the list on visits the cpus behind it. -/
theorem rtOfwForeachCpuNode_eq (hn : (xs ++ ys).Nodup) {n : Nat} (hlen : ys.length < n) :
    rtOfwForeachCpuNode node (xs ++ ys) n (ys.find? fun np => (node np).stops) =
      some (ys.filter fun np => (node np).stops) := by
  induction ys generalizing xs n with
  | nil => cases n <;> rfl
  | cons np ys ih =>
    have happ : xs ++ np :: ys = (xs ++ [np]) ++ ys := by simp
    rw [happ] at hn ⊢
    rw [List.length_cons] at hlen
    cases hp : (node np).stops with
    | false =>
      rw [List.find?_cons_of_neg (by simp [hp]), List.filter_cons_of_neg (by simp [hp])]
      exact ih hn (by omega)
    | true =>
      rw [List.find?_cons_of_pos (by simp [hp]), List.filter_cons_of_pos (by simp [hp])]
      obtain ⟨n, rfl⟩ : ∃ m, n = m + 1 := ⟨n - 1, by omega⟩
      have hdrop : ((xs ++ [np] ++ ys).dropWhile (· ≠ np)).tail = ys := by
        have hxs : ∀ x ∈ xs, decide (x ≠ np) = true := by
          intro x hx
          have := (List.nodup_append.mp (List.nodup_append.mp hn).1).2.2 x hx np (by simp)
          exact decide_eq_true this
        rw [List.append_assoc, List.dropWhile_append_of_pos hxs]
        simp
      rw [rtOfwForeachCpuNode, rtOfwGetNextCpuNode, hdrop, ih hn (by omega)]
      rfl

/-- The number of a cpu is its place among all the children. -/
theorem cpuIndex_eq (hcpu : isCpu (node a) = true) (ha : a ∈ ys) (idx : Nat) :
    cpuIndex node a ys idx = some (idx + ys.idxOf a) := by
  induction ys generalizing idx with
  | nil => cases ha
  | cons np ys ih =>
    rw [cpuIndex, if_neg (by simp [hcpu])]
    by_cases h : a = np
    · simp [h]
    · rw [if_neg h, ih ((List.mem_cons.mp ha).resolve_left h), List.idxOf_cons_ne ys (Ne.symm h)]
      congr 1
      omega

/-- The places of the elements with `p` are `0`, `1`, ... if and only if all others stand behind them. -/
theorem map_idxOf_filter (p : α → Bool) (hn : ys.Nodup) :
    (ys.filter p).map ys.idxOf = List.range (ys.filter p).length ↔ ys.Pairwise fun a b => p b → p a := by
  induction ys with
  | nil => simp
  | cons np ys ih =>
    obtain ⟨hnp, hn⟩ := List.nodup_cons.mp hn
    have hplace : (ys.filter p).map (np :: ys).idxOf = ((ys.filter p).map ys.idxOf).map Nat.succ := by
      rw [List.map_map]
      refine List.map_congr_left fun b hb => ?_
      exact List.idxOf_cons_ne ys fun h => hnp (h ▸ (List.mem_filter.mp hb).1)
    rw [List.pairwise_cons]
    cases hp : p np with
    | true =>
      rw [List.filter_cons_of_pos hp, List.map_cons, hplace, List.length_cons, List.range_succ_eq_map, List.cons.injEq,
        List.map_inj_right fun _ _ => Nat.succ.inj, ih hn]
      simp
    | false =>
      rw [List.filter_cons_of_neg (by simp [hp]), hplace]
      constructor
      · intro h
        have hnil : ys.filter p = [] := by
          cases hf : ys.filter p with
          | nil => rfl
          | cons b bs => simp [hf, List.range_succ_eq_map] at h
        have hno : ∀ b ∈ ys, ¬ p b := List.filter_eq_nil_iff.mp hnil
        exact ⟨fun b hb hpb => absurd hpb (hno b hb), List.pairwise_of_forall_mem_list fun _ _ b hb hpb => absurd hpb (hno b hb)⟩
      · rintro ⟨h, -⟩
        have : ys.filter p = [] := List.filter_eq_nil_iff.mpr fun b hb hpb => by simpa using h b hb hpb
        simp [this]

/-- The loop ends and visits the cpus, and their numbers are `0`, `1`, ... in its order if and only if no other child stands
before a cpu. -/
theorem cpu_numbering (node : α → CpuNode) (children : List α) (hn : children.Nodup)
    (hfail : ∀ a ∈ children, isCpu (node a) → ¬ ofwNodeIsFail (node a)) :
    ∃ cpus, rtOfwForeachCpuNode node children (children.length + 1) (rtOfwGetNextCpuNode node children none) = some cpus ∧
      (∀ a, a ∈ cpus ↔ a ∈ children ∧ isCpu (node a)) ∧
      (cpus.map (fun a => rtOfwGetCpuId node children (some a)) = List.range cpus.length ↔
        children.Pairwise fun a b => isCpu (node b) → isCpu (node a)) := by
  have hcpus : (children.filter fun np => (node np).stops) =
      children.filter fun np => isCpu (node np) := by
    refine List.filter_congr fun a ha => ?_
    cases hcpu : isCpu (node a) with
    | false => simp [CpuNode.stops, hcpu]
    | true => simp [CpuNode.stops, hcpu, hfail a ha hcpu]
  refine ⟨children.filter fun np => isCpu (node np), ?_, fun a => List.mem_filter, ?_⟩
  · rw [← hcpus]
    exact rtOfwForeachCpuNode_eq (show ([] ++ children).Nodup from hn) (Nat.lt_succ_self _)
  · rw [← map_idxOf_filter (fun np => isCpu (node np)) hn]
    have hid : (children.filter fun np => isCpu (node np)).map (fun a => rtOfwGetCpuId node children (some a)) =
        (children.filter fun np => isCpu (node np)).map children.idxOf := by
      refine List.map_congr_left fun a ha => ?_
      obtain ⟨ha, hcpu⟩ := List.mem_filter.mp ha
      simp [rtOfwGetCpuId, cpuIndex_eq hcpu ha]
    rw [hid]

/-- `/cpus` with `cpu-map`, which is no cpu, and two cpus. -/
def cpusWithMap : Fin 3 → CpuNode
  | 0 => ⟨['c', 'p', 'u', '-', 'm', 'a', 'p'], none, none, none⟩
  | 1 => ⟨['c', 'p', 'u', '@', '0'], some ['c', 'p', 'u'], none, none⟩
  | 2 => ⟨['c', 'p', 'u', '@', '1'], some ['c', 'p', 'u'], none, none⟩

/-- `cpu-map` behind the cpus. -/
theorem cpu_numbering_map_last : rtOfwGetCpuId cpusWithMap [1, 2, 0] (some 1) = 0 ∧
    ∃ cpus, rtOfwForeachCpuNode cpusWithMap [1, 2, 0] 4 (rtOfwGetNextCpuNode cpusWithMap [1, 2, 0] none) = some cpus ∧
      (∀ a, a ∈ cpus ↔ a ∈ [1, 2, 0] ∧ isCpu (cpusWithMap a)) ∧
      (cpus.map (fun a => rtOfwGetCpuId cpusWithMap [1, 2, 0] (some a)) = List.range cpus.length ↔
        List.Pairwise (fun a b => isCpu (cpusWithMap b) → isCpu (cpusWithMap a)) [1, 2, 0]) :=
  ⟨by decide, cpu_numbering cpusWithMap [1, 2, 0] (by decide) (by decide)⟩

/-- With `cpu-map` first, the first cpu has the number 1. -/
theorem cpu_map_counted : rtOfwGetNextCpuNode cpusWithMap [0, 1, 2] none = some 1 ∧
    rtOfwGetCpuId cpusWithMap [0, 1, 2] (some 1) = 1 := by
  decide

end RtThread
