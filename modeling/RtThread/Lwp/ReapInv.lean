import Mathlib.Data.List.Perm.Subperm
import RtThread.Lib.SiblingForest
import RtThread.Lwp.Reap

/-!
# The invariant of the end of processes

- where every structure is in its life (`Life`), the forest of the processes (`Family`), the pids (`Pids`), the threads of
  each process (`Members`), who waits for whom (`Waits`), and what has been freed and returned (`Logs`);
- what `unlink` and the loop over the children do to the forest (`unlink_spec`, `childrenLoop_spec`).
-/

namespace RtThread.LwpWorld

open Function (update)
open Sibling (Forest)
open Singly (Chain)

variable {s s' : LwpWorld} {kids members : Nat → List Nat} {evs : List LwpEv} {l p t fuel : Nat} {ys zs : List Nat}

/-- A structure that is not going to be freed at once: it is in the list of its parent and has its pid. -/
def Linked (s : LwpWorld) (l : Nat) : Prop := s.allocated l = true ∧ s.freePc l ≠ some .free

/-- A finished structure that is left to a waiting thread. -/
def Handed (s : LwpWorld) (l : Nat) : Prop := s.allocated l = true ∧ s.freePc l = none ∧ s.finish l = true

structure Life (s : LwpWorld) : Prop where
  lt : ∀ l, s.allocated l = true → l < s.nextLwp
  pc : ∀ l pc, s.freePc l = some pc → s.allocated l = true ∧ s.ref l = 0 ∧ (s.finish l = true ↔ pc ≠ .finish) ∧
    ∀ c, pc ≠ .freeChild c
  idle : ∀ l, s.allocated l = true → s.freePc l = none →
    s.finish l = false ∧ 0 < s.ref l ∨ s.finish l = true ∧ s.ref l = 0

structure Family (s : LwpWorld) (kids : Nat → List Nat) : Prop where
  forest : Forest s.Linked s.parent s.firstChild s.sibling kids
  nil : ∀ l, s.Linked l → s.finish l = true → s.freePc l ≠ some .release → s.freePc l ≠ some .children → kids l = []
  free : ∀ l, s.freePc l = some .free → s.firstChild l = none

structure Pids (s : LwpWorld) : Prop where
  owner : ∀ pid l, s.pidOwner pid = some l ↔ s.Linked l ∧ s.pid l = pid

structure Members (s : LwpWorld) (members : Nat → List Nat) : Prop where
  ref : ∀ l, s.allocated l = true → s.ref l = (members l).length
  nodup : ∀ l, (members l).Nodup
  mem_iff : ∀ l, s.allocated l = true → ∀ t, t ∈ members l ↔ ∃ error pc, s.thread t = some ⟨l, error, pc⟩
  thread : ∀ t self error pc, s.thread t = some ⟨self, error, pc⟩ → s.allocated self = true ∧ t < s.nextThread

structure Waits (s : LwpWorld) : Prop where
  wait : ∀ t self error pid l, s.thread t = some ⟨self, error, .wait pid l⟩ →
    s.Linked l ∧ s.parent l = some self ∧ s.pid l = pid ∧ s.waitList l = [t]
  list : ∀ l, s.Linked l → s.waitList l = [] ∨
    ∃ t self error pid, s.waitList l = [t] ∧ s.thread t = some ⟨self, error, .wait pid l⟩
  resumed : ∀ t self pid l, s.thread t = some ⟨self, RT_EOK, .resumed pid l⟩ →
    s.Handed l ∧ s.parent l = some self ∧ s.pid l = pid
  unique : ∀ t t' self self' pid pid' l, s.thread t = some ⟨self, RT_EOK, .resumed pid l⟩ →
    s.thread t' = some ⟨self', RT_EOK, .resumed pid' l⟩ → t = t'
  handed : ∀ l, s.Handed l → s.waitList l = [] ∧ ∃ t self pid, s.thread t = some ⟨self, RT_EOK, .resumed pid l⟩

/-- The value that a process returns: the last one that was set. -/
def lastRet (evs : List LwpEv) (l : Nat) : Int :=
  evs.foldl (fun v ev => match ev with
    | .setRet _ lwp value => if lwp = l then value else v
    | _ => v) 0

structure Logs (evs : List LwpEv) (s : LwpWorld) : Prop where
  free_iff : ∀ l, l ∈ s.frees ↔ l < s.nextLwp ∧ ¬ s.allocated l = true
  free_nodup : s.frees.Nodup
  put_iff : ∀ l, l ∈ s.puts ↔ l < s.nextLwp ∧ ¬ s.Linked l
  put_nodup : s.puts.Nodup
  returned : ∀ pid l v, (pid, l, v) ∈ s.returned → l ∈ s.frees ∧ s.pid l = pid ∧ v = s.lwpRet l
  returned_nodup : (s.returned.map fun r => r.2.1).Nodup
  ret : ∀ l, lastRet evs l = if l < s.nextLwp then s.lwpRet l else 0

structure Inv (evs : List LwpEv) (s : LwpWorld) (kids members : Nat → List Nat) : Prop where
  life : Life s
  family : Family s kids
  pids : Pids s
  members : Members s members
  waits : Waits s
  logs : Logs evs s

namespace Inv

theorem lt (h : Inv evs s kids members) (hl : s.Linked l) : l < s.nextLwp := h.life.lt l hl.1

variable {error : Int} {pc : WaitPc}

/-- A process that is being freed has no thread. -/
theorem no_thread (h : Inv evs s kids members) {fpc : FreePc} (hpc : s.freePc l = some fpc) :
    s.thread t ≠ some ⟨l, error, pc⟩ := by
  intro ht
  obtain ⟨ha, href, -⟩ := h.life.pc l fpc hpc
  have hmem := (h.members.mem_iff l ha t).2 ⟨error, pc, ht⟩
  have hlen := h.members.ref l ha
  rw [href] at hlen
  exact absurd hlen (Nat.ne_of_lt (List.length_pos_of_mem hmem))

/-- A process with a thread is not being freed. -/
theorem idle_of_thread (h : Inv evs s kids members) (ht : s.thread t = some ⟨l, error, pc⟩) :
    s.allocated l = true ∧ s.freePc l = none ∧ s.finish l = false ∧ 0 < s.ref l := by
  have ha := (h.members.thread t l error pc ht).1
  cases hpc : s.freePc l with
  | some fpc => exact absurd ht (h.no_thread hpc)
  | none =>
    have hmem := (h.members.mem_iff l ha t).2 ⟨error, pc, ht⟩
    have hlen := h.members.ref l ha
    have hpos : 0 < s.ref l := by
      rw [hlen]
      exact List.length_pos_of_mem hmem
    rcases h.life.idle l ha hpc with ⟨hfin, -⟩ | ⟨-, href⟩
    · exact ⟨ha, rfl, hfin, hpos⟩
    · exact absurd href (Nat.ne_of_gt hpos)

theorem linked_of_thread (h : Inv evs s kids members) (ht : s.thread t = some ⟨l, error, pc⟩) : s.Linked l := by
  obtain ⟨ha, hpc, -⟩ := h.idle_of_thread ht
  exact ⟨ha, by rw [hpc]; exact nofun⟩

end Inv

/-! ## The list of children -/

/-- The place that links the last of the nodes, or the first place. -/
def lastPlace (it : LwpPlace) (ys : List Nat) : LwpPlace := ys.getLast?.elim it .sibling

variable {x : Option Nat} {xs : List Nat}

theorem unlinkLoop_spec {it : LwpPlace} (hget : s.get it = some x)
    (hc : Chain s.sibling x (ys ++ l :: zs)) (ha : ∀ i ∈ ys ++ [l], s.allocated i = true) (hl : l ∉ ys)
    (hfuel : ys.length < fuel) : s.unlinkLoop l fuel it = some (s.put (lastPlace it ys) (s.sibling l)) := by
  induction ys generalizing it x fuel with
  | nil =>
    obtain ⟨fuel, rfl⟩ := Nat.exists_eq_succ_of_ne_zero (Nat.ne_of_gt hfuel)
    obtain ⟨rfl, -⟩ := hc
    rw [unlinkLoop, hget]
    dsimp only
    rw [if_pos rfl, if_pos (ha l (by simp))]
    rfl
  | cons y ys ih =>
    obtain ⟨fuel, rfl⟩ := Nat.exists_eq_succ_of_ne_zero (Nat.ne_of_gt (Nat.lt_of_le_of_lt (Nat.zero_le _) hfuel))
    obtain ⟨rfl, hc⟩ := hc
    rw [List.mem_cons, not_or] at hl
    have hy : s.get (.sibling y) = some (s.sibling y) := by
      exact if_pos (ha y (by simp))
    rw [unlinkLoop, hget]
    dsimp only
    rw [if_neg (Ne.symm hl.1), ih hy hc (fun i hi => ha i (List.mem_cons_of_mem y hi)) hl.2 (by simpa using hfuel)]
    cases ys <;> rfl

/-- The children of a process are structures. -/
theorem Inv.kids_length_le (h : Inv evs s kids members) (hp : s.Linked p) : (kids p).length ≤ s.nextLwp := by
  have hsub : kids p ⊆ List.range s.nextLwp := by
    intro c hc
    exact List.mem_range.2 (h.lt ((h.family.forest.mem_iff p hp c).1 hc).1)
  have hnd := h.family.forest.nodup p hp
  have hle := (hnd.subperm hsub).length_le
  rwa [List.length_range] at hle

/-- A process is found in the list of its parent. -/
theorem unlink_eq (h : Inv evs s kids members) (hl : s.Linked l) (hp : s.parent l = some p) :
    s.Linked p ∧ ∃ ys zs, kids p = ys ++ l :: zs ∧
      s.unlink p l = some (s.put (lastPlace (.firstChild p) ys) (s.sibling l)) := by
  have hforest := h.family.forest
  have hpl := hforest.parent l p hl hp
  have hmem := (hforest.mem_iff p hpl l).2 ⟨hl, hp⟩
  obtain ⟨ys, zs, hkids⟩ := List.append_of_mem hmem
  have hnd := hforest.nodup p hpl
  have hchain := hforest.chain p hpl
  have hle := h.kids_length_le hpl
  rw [hkids] at hnd hchain hle
  have hlinked : ∀ i ∈ ys ++ l :: zs, s.Linked i := fun i hi => ((hforest.mem_iff p hpl i).1 (by rw [hkids]; exact hi)).1
  have hly : l ∉ ys := fun hi => (List.nodup_append.1 hnd).2.2 l hi l List.mem_cons_self rfl
  have hget : s.get (.firstChild p) = some (s.firstChild p) := by
    exact if_pos hpl.1
  have halloc : ∀ i ∈ ys ++ [l], s.allocated i = true := by
    intro i hi
    refine (hlinked i ?_).1
    rw [List.mem_append, List.mem_singleton] at hi
    rcases hi with hi | rfl
    · simp [hi]
    · simp
  have hlen : ys.length < s.nextLwp + 1 := by
    rw [List.length_append] at hle
    omega
  exact ⟨hpl, ys, zs, hkids, unlinkLoop_spec hget hchain halloc hly hlen⟩

/-- A process without children is taken out of the list of its parent. -/
theorem unlink_spec (h : Inv evs s kids members) (hl : s.Linked l) (hp : s.parent l = some p) (hnil : kids l = []) :
    ∃ firstChild sibling kids', s.unlink p l = some { s with firstChild := firstChild, sibling := sibling } ∧
      Forest (fun x => s.Linked x ∧ x ≠ l) s.parent firstChild sibling kids' ∧ (∀ q, kids q = [] → kids' q = []) ∧
      ∀ q, q ≠ p → firstChild q = s.firstChild q := by
  obtain ⟨hpl, ys, zs, hkids, hunlink⟩ := unlink_eq h hl hp
  have hforest := h.family.forest
  rw [hunlink]
  -- the first child, or one after another
  rcases List.eq_nil_or_concat ys with rfl | ⟨ys, b, rfl⟩
  · refine ⟨_, _, _, rfl, hforest.removeFirst hpl hkids hnil, fun q hq => ?_, fun q hq => Function.update_of_ne hq _ _⟩
    have hqp : q ≠ p := by
      rintro rfl
      rw [hkids] at hq
      cases hq
    rw [Function.update_of_ne hqp]
    exact hq
  · rw [List.concat_eq_append] at hkids ⊢
    rw [List.append_assoc] at hkids
    have hlast : lastPlace (.firstChild p) (ys ++ [b]) = .sibling b := by simp [lastPlace]
    rw [hlast]
    refine ⟨_, _, _, rfl, hforest.removeNext hpl hkids hnil, fun q hq => ?_, fun _ _ => rfl⟩
    have hqp : q ≠ p := by
      rintro rfl
      rw [hkids] at hq
      simp at hq
    rw [Function.update_of_ne hqp]
    exact hq

/-- The children of a process, from a link on. -/
inductive InList (s : LwpWorld) : Option Nat → Nat → Prop
  | head (c : Nat) : InList s (some c) c
  | next {b c : Nat} (h : InList s (s.sibling b) c) : InList s (some b) c

theorem inList_of_chain (hc : Chain s.sibling x xs) {c : Nat} : InList s x c ↔ c ∈ xs := by
  induction xs generalizing x with
  | nil =>
    obtain rfl : x = none := hc
    exact ⟨fun h => (nomatch h), fun h => absurd h List.not_mem_nil⟩
  | cons y xs ih =>
    obtain ⟨rfl, hc⟩ := hc
    rw [List.mem_cons, ← ih hc]
    constructor
    · rintro (_ | h)
      · exact .inl rfl
      · exact .inr h
    · rintro (rfl | h)
      · exact .head c
      · exact .next h

/-- The loop over children of which none is finished: all become roots. -/
theorem childrenLoop_spec (hforest : Forest s.Linked s.parent s.firstChild s.sibling kids) (hl : s.Linked l)
    (hkids : kids l = xs) (hfin : ∀ c ∈ xs, s.finish c = false) (hfuel : xs.length < fuel) :
    ∃ parent firstChild sibling kids', childrenLoop l fuel s = some { s with
          parent := parent, firstChild := firstChild, sibling := sibling, freePc := update s.freePc l (some .terminal) } ∧
      Forest s.Linked parent firstChild sibling kids' ∧ kids' l = [] ∧ (∀ q, q ≠ l → kids' q = kids q) ∧
      (∀ q, q ≠ l → firstChild q = s.firstChild q) ∧ ∀ c, c ∉ xs → parent c = s.parent c := by
  induction xs generalizing s kids fuel with
  | nil =>
    obtain ⟨fuel, rfl⟩ := Nat.exists_eq_succ_of_ne_zero (Nat.ne_of_gt hfuel)
    have hfirst : s.firstChild l = none := by
      have hchain := hforest.chain l hl
      rw [hkids] at hchain
      exact hchain
    refine ⟨s.parent, s.firstChild, s.sibling, kids, ?_, hforest, hkids, fun _ _ => rfl, fun _ _ => rfl, fun _ _ => rfl⟩
    rw [childrenLoop, hfirst]
  | cons c xs ih =>
    obtain ⟨fuel, rfl⟩ := Nat.exists_eq_succ_of_ne_zero (Nat.ne_of_gt (Nat.lt_of_le_of_lt (Nat.zero_le _) hfuel))
    have hchain := hforest.chain l hl
    have hnd := hforest.nodup l hl
    rw [hkids] at hchain hnd
    have hc : s.Linked c := ((hforest.mem_iff l hl c).1 (by rw [hkids]; exact List.mem_cons_self)).1
    let s1 : LwpWorld := { s with
      parent := update s.parent c none, firstChild := update s.firstChild l (s.sibling c),
      sibling := update s.sibling c none }
    obtain ⟨parent, firstChild, sibling, kids', hr, hforest', hnil, hother, hfirst, hsame⟩ :=
      @ih s1 (update kids l xs) fuel (hforest.orphan hl hkids) hl (Function.update_self _ _ _)
        (fun d hd => hfin d (List.mem_cons_of_mem c hd)) (by simpa using hfuel)
    refine ⟨parent, firstChild, sibling, kids', ?_, hforest', hnil, fun q hq => ?_, fun d hd => ?_, fun d hd => ?_⟩
    · rw [childrenLoop, hchain.1]
      dsimp only
      rw [if_pos hc.1, if_neg (by rw [hfin c List.mem_cons_self]; exact Bool.false_ne_true)]
      exact hr
    · rw [hother q hq, Function.update_of_ne hq]
    · rw [hfirst d hd]
      exact Function.update_of_ne hd _ _
    · rw [List.mem_cons, not_or] at hd
      rw [hsame d hd.2]
      exact Function.update_of_ne hd.1 _ _

/-- The loop has a result, whether it comes to a finished child or not. -/
theorem childrenLoop_ne_none (hc : Chain s.sibling (s.firstChild l) xs) (hnd : xs.Nodup)
    (ha : ∀ c ∈ xs, s.allocated c = true) (hfuel : xs.length < fuel) : childrenLoop l fuel s ≠ none := by
  induction xs generalizing s fuel with
  | nil =>
    obtain ⟨fuel, rfl⟩ := Nat.exists_eq_succ_of_ne_zero (Nat.ne_of_gt hfuel)
    rw [childrenLoop, show s.firstChild l = none from hc]
    exact Option.some_ne_none _
  | cons c xs ih =>
    obtain ⟨fuel, rfl⟩ := Nat.exists_eq_succ_of_ne_zero (Nat.ne_of_gt (Nat.lt_of_le_of_lt (Nat.zero_le _) hfuel))
    obtain ⟨hfirst, hc⟩ := hc
    rw [childrenLoop, hfirst]
    dsimp only
    rw [if_pos (ha c List.mem_cons_self)]
    split
    · exact Option.some_ne_none _
    · apply ih
      · dsimp only
        rw [Function.update_self]
        exact hc.update (List.nodup_cons.1 hnd).1 none
      · exact (List.nodup_cons.1 hnd).2
      · exact fun d hd => ha d (List.mem_cons_of_mem c hd)
      · simpa using hfuel

end RtThread.LwpWorld
