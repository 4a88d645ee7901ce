import RtThread.Lwp.Pid

/-!
# The table of process identifiers

- every slot that has been used is either free, without data, or in the tree of the pids in use (`LwpPid.Inv`);
- what each function does to that (`get_spec`, `put_spec`, `set_spec`, `from_spec`);
- over every run, `lwp_pid_get` gives a pid that is not in use unless all slots are taken, and `lwp_from_pid` gives what
  was set last since the pid was allocated (`owner`).
-/

namespace RtThread.LwpPid

open LwpAvl (Tree Keeps)

variable {c : PidConfig} {s s' : LwpPid} {t t' : HeightTree Nat} {live free : List Nat} {fuel i p pid : Nat}

structure Inv (c : PidConfig) (s : LwpPid) (t : HeightTree Nat) (live free : List Nat) : Prop where
  tree : Tree s.avl live t
  arena : Singly.Arena c.maxNr s.aryAlloced (fun i => (s.avl.node i).avlRight) s.freeHead free live
  data : ∀ i, i ∉ live → (s.avl.node i).data = none
  keys : ∀ i ∈ live, 0 < (s.avl.node i).avlKey ∧ (s.avl.node i).avlKey < pidMax
  current : s.currentPid < pidMax

/-- The pid has a node in the tree. -/
def InUse (s : LwpPid) (live : List Nat) (pid : Nat) : Prop := ∃ i ∈ live, (s.avl.node i).avlKey = pid

/-- A search reads the tree only. -/
theorem searchLoop_congr (s s' : LwpPid) (havl : s'.avl = s.avl) (pid count : Nat) :
    searchLoop fuel s' pid count = searchLoop fuel s pid count := by
  induction count generalizing pid with
  | zero => rfl
  | succ count ih =>
    rw [searchLoop, searchLoop, find, find, havl]
    split
    · rfl
    · rfl
    · exact ih (pid + 1)

/-- There are as many pids as slots, or more. -/
theorem exists_unused (s : LwpPid) (hroom : live.length < c.maxNr) : ∃ q, 0 < q ∧ q < pidMax ∧ ¬ InUse s live q := by
  by_contra hall
  have hsub : List.range' 1 (pidMax - 1) ⊆ live.map fun i => (s.avl.node i).avlKey := by
    intro q hq
    rw [List.mem_range'_1] at hq
    by_contra hmem
    refine hall ⟨q, by omega, by omega, ?_⟩
    rintro ⟨i, hi, rfl⟩
    exact hmem (List.mem_map_of_mem hi)
  have hlen := ((List.nodup_range' 1 Nat.one_pos).subperm hsub).length_le
  rw [List.length_map, List.length_range'] at hlen
  have := c.lt_max
  rw [pidMax] at hlen
  omega

namespace Inv

section

variable (h : Inv c s t live free)

include h

theorem length_lt : t.keys.length < 2 ^ 20 := by
  have := h.arena.busy_length_le
  have := c.lt_max
  rw [h.tree.live.length_eq]
  omega

theorem ht_le : t.ht ≤ LwpAvl.avlMaxheight :=
  LwpAvl.ht_le_maxheight h.tree.balanced h.length_lt

/-- The node with a key, or none. -/
theorem find_cases (hfuel : c.maxNr ≤ fuel) (k : Nat) :
    (∃ p ∈ live, find fuel s k = some (some p) ∧ (s.avl.node p).avlKey = k) ∨
      find fuel s k = some none ∧ ∀ p ∈ live, (s.avl.node p).avlKey ≠ k :=
  h.tree.find_cases (Nat.le_trans h.arena.busy_length_le hfuel) k

/-- The search finds a pid that is not in use, or all that it looks at are. -/
theorem searchLoop_spec (hfuel : c.maxNr ≤ fuel) (pid count : Nat) :
    (∃ q, searchLoop fuel s pid count = some (true, q) ∧ pid ≤ q ∧ q < pid + count ∧ ¬ InUse s live q) ∨
      searchLoop fuel s pid count = some (false, pid + count) ∧ ∀ q, pid ≤ q → q < pid + count → InUse s live q := by
  induction count generalizing pid with
  | zero => exact .inr ⟨rfl, fun q h1 h2 => absurd h2 (by omega)⟩
  | succ count ih =>
    rw [searchLoop]
    rcases h.find_cases hfuel pid with ⟨i, hi, hfind, rfl⟩ | ⟨hfind, huse⟩
    · rw [hfind]
      rcases ih ((s.avl.node i).avlKey + 1) with ⟨q, hq, h1, h2, h3⟩ | ⟨hq, hall⟩
      · exact .inl ⟨q, hq, by omega, by omega, h3⟩
      · refine .inr ⟨?_, fun q h1 h2 => ?_⟩
        · dsimp only
          rw [hq]
          congr 2
          omega
        · rcases Nat.lt_or_eq_of_le h1 with hlt | rfl
          · exact hall q hlt (by omega)
          · exact ⟨i, hi, rfl⟩
    · rw [hfind]
      exact .inl ⟨pid, rfl, Nat.le_refl _, by omega, fun ⟨i, hi, heq⟩ => huse i hi heq⟩

/-- A node is taken, or none is left. -/
theorem takeNode_spec : (s.takeNode c = (none, s) ∧ live.length = c.maxNr) ∨
      ∃ p alloced head free', s.takeNode c = (some p, { s with aryAlloced := alloced, freeHead := head }) ∧
        live.length < c.maxNr ∧
        Singly.Arena c.maxNr alloced (fun i => (s.avl.node i).avlRight) head free' (p :: live) := by
  have harena := h.arena
  unfold takeNode
  cases hhead : s.freeHead with
  | some p =>
    rw [hhead] at harena
    obtain ⟨free', rfl, hpop⟩ := harena.pop
    exact .inr ⟨p, s.aryAlloced, _, free', rfl, harena.busy_lt (.inl (by simp)), hpop⟩
  | none =>
    rw [hhead] at harena
    by_cases hlt : s.aryAlloced < c.maxNr
    · obtain ⟨rfl, hgrow⟩ := harena.grow hlt
      refine .inr ⟨s.aryAlloced, s.aryAlloced + 1, none, [], ?_, harena.busy_lt (.inr hlt), hgrow⟩
      dsimp only
      rw [if_pos hlt, ← hhead]
    · dsimp only
      rw [if_neg hlt]
      exact .inl ⟨rfl, (harena.full (Nat.le_of_not_lt hlt)).2⟩

/-- Both loops together find a pid that is not in use. -/
theorem search_spec (hfuel : c.maxNr ≤ fuel) (hroom : live.length < c.maxNr) :
    ∃ flag q b pid, searchLoop fuel s (s.currentPid + 1) (pidMax - (s.currentPid + 1)) = some (flag, q) ∧
      (if flag then some (true, q) else searchLoop fuel s 1 s.currentPid) = some (b, pid) ∧
      0 < pid ∧ pid < pidMax ∧ ¬ InUse s live pid := by
  have hcurrent := h.current
  rcases h.searchLoop_spec hfuel (s.currentPid + 1) (pidMax - (s.currentPid + 1)) with ⟨q, hq, h1, h2, h3⟩ | ⟨hq, hall⟩
  · exact ⟨true, q, true, q, hq, rfl, by omega, by omega, h3⟩
  · rcases h.searchLoop_spec hfuel 1 s.currentPid with ⟨q', hq', h1, h2, h3⟩ | ⟨-, hall'⟩
    · exact ⟨false, _, true, q', hq, hq', h1, by omega, h3⟩
    · obtain ⟨q', h1, h2, h3⟩ := exists_unused s hroom
      rcases Nat.lt_or_ge q' (s.currentPid + 1) with hlt | hge
      · exact absurd (hall' q' h1 (by omega)) h3
      · exact absurd (hall q' hge (by omega)) h3

/-- `lwp_pid_get` gives zero and changes nothing if all slots are taken, and else a pid that was not in use. -/
theorem get_spec (hfuel : c.maxNr ≤ fuel) :
    (lwpPidGet c fuel s = some (0, s) ∧ live.length = c.maxNr) ∨
      ∃ pid s' t' p free', lwpPidGet c fuel s = some (pid, s') ∧ live.length < c.maxNr ∧ 0 < pid ∧ pid < pidMax ∧
        ¬ InUse s live pid ∧ Inv c s' t' (p :: live) free' ∧ (s'.avl.node p).avlKey = pid ∧
        (s'.avl.node p).data = none ∧ ∀ i ∈ live, (s'.avl.node i).avlKey = (s.avl.node i).avlKey ∧
          (s'.avl.node i).data = (s.avl.node i).data := by
  unfold lwpPidGet
  rcases h.takeNode_spec with ⟨htake, hfull⟩ | ⟨p, alloced, head, free', htake, hroom, harena⟩
  · rw [htake]
    exact .inl ⟨rfl, hfull⟩
  · right
    have hp : p ∉ live := (List.nodup_cons.1 (List.nodup_append.1 harena.nodup).2.1).1
    obtain ⟨flag, q, b, pid, hs1, hs2, hpos, hlt, hnew⟩ := h.search_spec hfuel hroom
    -- the node is written, which the tree does not see
    have hself : ((s.avl.setKey p pid).node p).avlKey = pid := by simp [LwpAvl.setKey]
    have hother : ∀ i, i ≠ p → (s.avl.setKey p pid).node i = s.avl.node i := fun i hi => Function.update_of_ne hi _ _
    have hlive : ∀ i ∈ live, (s.avl.setKey p pid).node i = s.avl.node i := fun i hi =>
      hother i (ne_of_mem_of_not_mem hi hp)
    have hdata : ∀ i, ((s.avl.setKey p pid).node i).data = (s.avl.node i).data := by
      intro i
      by_cases hi : i = p
      · subst hi
        simp [LwpAvl.setKey]
      · rw [hother i hi]
    have hkeys : ∀ i ∈ live, ((s.avl.setKey p pid).node i).avlKey ≠ ((s.avl.setKey p pid).node p).avlKey := by
      intro i hi heq
      rw [hlive i hi, hself] at heq
      exact hnew ⟨i, hi, heq⟩
    have hset : Tree (s.avl.setKey p pid) live t := h.tree.setKey hp
    rcases hset.insert hp hkeys with ⟨avl, t', hr, htree, hkeep⟩ | ⟨hhigh, -⟩
    · refine ⟨pid, ⟨avl, head, alloced, pid⟩, t', p, free', ?_, hroom, hpos, hlt, hnew, ⟨htree, ?_, ?_, ?_, hlt⟩, ?_, ?_, ?_⟩
      · rw [htake]
        dsimp only
        rw [if_neg (not_not_intro (h.data p hp)), searchLoop_congr s ⟨s.avl, head, alloced, s.currentPid⟩ rfl, hs1]
        dsimp only
        rw [searchLoop_congr s ⟨s.avl, head, alloced, s.currentPid⟩ rfl, hs2]
        dsimp only
        rw [hr]
      · refine harena.congr fun j hj => ?_
        have hjl : j ∉ p :: live := fun hmem => harena.not_free hmem hj
        rw [hkeep.node j hjl, hother j fun e => hjl (e ▸ List.mem_cons_self)]
      · intro i hi
        rw [hkeep.data i, hdata i]
        exact h.data i fun hmem => hi (List.mem_cons_of_mem _ hmem)
      · intro i hi
        rw [hkeep.key i]
        rcases List.mem_cons.1 hi with rfl | hi
        · rw [hself]
          exact ⟨hpos, hlt⟩
        · rw [hlive i hi]
          exact h.keys i hi
      · exact (hkeep.key p).trans hself
      · exact ((hkeep.data p).trans (hdata p)).trans (h.data p hp)
      · intro i hi
        exact ⟨(hkeep.key i).trans (by rw [hlive i hi]), (hkeep.data i).trans (hdata i)⟩
    · exact absurd hhigh (Nat.not_lt.2 h.ht_le)

/-! ## Put, set and look up -/

/-- `lwp_pid_put` takes the pid out of use, and changes nothing if it is not in use. -/
theorem put_spec (hfuel : c.maxNr ≤ fuel) (pid : PidT) :
    (lwpPidPut c fuel s pid = some s ∧ ¬ InUse s live (key c pid)) ∨
      ∃ p s' t', p ∈ live ∧ (s.avl.node p).avlKey = key c pid ∧ lwpPidPut c fuel s pid = some s' ∧
        Inv c s' t' (live.erase p) (p :: free) ∧ ∀ i ∈ live.erase p, (s'.avl.node i).avlKey = (s.avl.node i).avlKey ∧
          (s'.avl.node i).data = (s.avl.node i).data := by
  unfold lwpPidPut
  rcases h.find_cases hfuel (key c pid) with ⟨p, hp, hfind, hkey⟩ | ⟨hfind, huse⟩
  · rw [hfind]
    right
    have hnd := (List.nodup_append.1 h.arena.nodup).2.1
    have hself : ∀ i ∈ live.erase p, i ≠ p := fun i hi => ((hnd.mem_erase_iff).1 hi).1
    rcases (h.tree.setData p none).remove hp with ⟨avl, t', hr, htree, hkeep⟩ | ⟨hhigh, -⟩
    · have hother : ∀ i, i ≠ p → (avl.setRight p s.freeHead).node i = avl.node i := fun i hi => Function.update_of_ne hi _ _
      have hkey' : ∀ i ∈ live.erase p, ((avl.setRight p s.freeHead).node i).avlKey = (s.avl.node i).avlKey := by
        intro i hi
        rw [hother i (hself i hi), hkeep.key i]
        simp [LwpAvl.setData, hself i hi]
      have hdata' : ∀ i, i ≠ p → ((avl.setRight p s.freeHead).node i).data = (s.avl.node i).data := by
        intro i hi
        rw [hother i hi, hkeep.data i]
        simp [LwpAvl.setData, hi]
      refine ⟨p, ⟨avl.setRight p s.freeHead, some p, s.aryAlloced, s.currentPid⟩, t', hp, hkey, ?_,
        ⟨?_, ?_, ?_, ?_, h.current⟩, fun i hi => ⟨hkey' i hi, hdata' i (hself i hi)⟩⟩
      · dsimp only
        rw [hr]
      · exact htree.congr rfl fun i hi => hother i (hself i hi)
      · refine h.arena.push hp ?_ fun j hj => ?_
        · simp [LwpAvl.setRight]
        · have hjl : j ∉ live := fun hmem => h.arena.not_free hmem hj
          have hjp : j ≠ p := fun e => hjl (e ▸ hp)
          rw [hother j hjp, hkeep.node j hjl]
          simp [LwpAvl.setData, hjp]
      · intro i hi
        by_cases hip : i = p
        · subst hip
          have hd := hkeep.data i
          simpa [LwpAvl.setRight, LwpAvl.setData] using hd
        · exact (hdata' i hip).trans (h.data i fun hmem => hi ((hnd.mem_erase_iff).2 ⟨hip, hmem⟩))
      · intro i hi
        rw [hkey' i hi]
        exact h.keys i (List.mem_of_mem_erase hi)
    · exact absurd hhigh (Nat.not_lt.2 h.ht_le)
  · rw [hfind]
    refine .inl ⟨rfl, ?_⟩
    rintro ⟨i, hi, heq⟩
    exact huse i hi heq

theorem set_spec (hfuel : c.maxNr ≤ fuel) (pid : PidT) (lwp : Option Nat) :
    (lwpPidSetLwp c fuel s pid lwp = some s ∧ ¬ InUse s live (key c pid)) ∨
      ∃ p ∈ live, (s.avl.node p).avlKey = key c pid ∧
        lwpPidSetLwp c fuel s pid lwp = some { s with avl := s.avl.setData p lwp } ∧
        Inv c { s with avl := s.avl.setData p lwp } t live free := by
  unfold lwpPidSetLwp
  rcases h.find_cases hfuel (key c pid) with ⟨p, hp, hfind, hkey⟩ | ⟨hfind, huse⟩
  · rw [hfind]
    right
    refine ⟨p, hp, hkey, rfl, h.tree.setData p lwp, h.arena.congr fun j hj => ?_, fun i hi => ?_, fun i hi => ?_, h.current⟩
    · have hjp : j ≠ p := fun e => h.arena.not_free hp (e ▸ hj)
      simp [LwpAvl.setData, hjp]
    · have hip : i ≠ p := fun e => hi (e ▸ hp)
      simpa [LwpAvl.setData, hip] using h.data i hi
    · have hkeys := h.keys i hi
      by_cases hip : i = p
      · subst hip
        simpa [LwpAvl.setData] using hkeys
      · simpa [LwpAvl.setData, hip] using hkeys
  · rw [hfind]
    refine .inl ⟨rfl, ?_⟩
    rintro ⟨i, hi, heq⟩
    exact huse i hi heq

theorem from_spec (hfuel : c.maxNr ≤ fuel) (pid : PidT) :
    (lwpFromPid c fuel s pid = some none ∧ ¬ InUse s live (key c pid)) ∨
      ∃ p ∈ live, (s.avl.node p).avlKey = key c pid ∧ lwpFromPid c fuel s pid = some (s.avl.node p).data := by
  unfold lwpFromPid
  rcases h.find_cases hfuel (key c pid) with ⟨p, hp, hfind, hkey⟩ | ⟨hfind, huse⟩
  · rw [hfind]
    exact .inr ⟨p, hp, hkey, rfl⟩
  · rw [hfind]
    refine .inl ⟨rfl, ?_⟩
    rintro ⟨i, hi, heq⟩
    exact huse i hi heq

end

end Inv

/-! ## Runs -/

def init : LwpPid := ⟨⟨none, fun _ => ⟨none, none, 0, 0, none⟩⟩, none, 0, 0⟩

inductive PidOp
  | get (ret : Nat)
  | setLwp (pid : PidT) (lwp : Option Nat)
  | put (pid : PidT)

inductive Step (c : PidConfig) (fuel : Nat) : LwpPid → PidOp → LwpPid → Prop
  | get {s s' : LwpPid} {ret : Nat} (hr : lwpPidGet c fuel s = some (ret, s')) : Step c fuel s (.get ret) s'
  | setLwp {s s' : LwpPid} {pid : PidT} {lwp : Option Nat} (hr : lwpPidSetLwp c fuel s pid lwp = some s') :
      Step c fuel s (.setLwp pid lwp) s'
  | put {s s' : LwpPid} {pid : PidT} (hr : lwpPidPut c fuel s pid = some s') : Step c fuel s (.put pid) s'

/-- What an operation does to the pids in use, and the process of each. -/
def record (owner : Int → Option (Option Nat)) : PidOp → Int → Option (Option Nat)
  | .get ret => if ret = 0 then owner else Function.update owner ret (some none)
  | .setLwp pid lwp => if owner pid.1 = none then owner else Function.update owner pid.1 (some lwp)
  | .put pid => Function.update owner pid.1 none

/-- The process that was set last since the pid was allocated, after the operations; none if the pid is not in use. -/
def owner (ops : List PidOp) : Int → Option (Option Nat) := ops.foldl record fun _ => none

theorem owner_append (ops : List PidOp) (op : PidOp) : owner (ops ++ [op]) = record (owner ops) op := by
  rw [owner, owner, List.foldl_append]
  rfl

/-- A pid that is a key of the table. -/
theorem key_eq_iff (pid : PidT) {k : Nat} (hk : k < pidMax) : key c pid = k ↔ pid.1 = k := by
  obtain ⟨pid, hlo, hhi⟩ := pid
  have hbits : (2 : Int) ^ 32 ≤ 2 ^ c.sizeBits := by
    exact_mod_cast Nat.pow_le_pow_right (Nat.zero_lt_two) c.bits
  rw [pidMax] at hk
  dsimp only [key]
  rcases lt_or_ge pid 0 with hneg | hpos
  · rw [← Int.add_emod_right, Int.emod_eq_of_lt (by omega) (by omega)]
    omega
  · rw [Int.emod_eq_of_lt hpos (by omega)]
    omega

/-- The table holds what was recorded. -/
structure Records (s : LwpPid) (live : List Nat) (o : Int → Option (Option Nat)) : Prop where
  node : ∀ i ∈ live, o (s.avl.node i).avlKey = some (s.avl.node i).data
  other : ∀ k, o k ≠ none → ∃ i ∈ live, ((s.avl.node i).avlKey : Int) = k

section Steps

variable {o : Int → Option (Option Nat)} {op : PidOp} {pid : PidT}

theorem Records.inUse_iff (h : Records s live o) (k : Nat) : InUse s live k ↔ o k ≠ none := by
  constructor
  · rintro ⟨i, hi, rfl⟩
    rw [h.node i hi]
    exact Option.some_ne_none _
  · intro hk
    obtain ⟨i, hi, heq⟩ := h.other k hk
    exact ⟨i, hi, Int.ofNat_inj.1 heq⟩

/-- A pid argument without a node has no record. -/
theorem Records.eq_none (h : Records s live o) (hinv : Inv c s t live free) (hnot : ¬ InUse s live (key c pid)) :
    o pid.1 = none := by
  by_contra hne
  obtain ⟨i, hi, heq⟩ := h.other _ hne
  exact hnot ⟨i, hi, ((key_eq_iff pid (hinv.keys i hi).2).2 heq.symm).symm⟩

theorem Inv.pid_eq (h : Inv c s t live free) (hp : p ∈ live) (hkey : (s.avl.node p).avlKey = key c pid) :
    pid.1 = (s.avl.node p).avlKey :=
  (key_eq_iff pid (h.keys p hp).2).1 hkey.symm

theorem step_inv (hfuel : c.maxNr ≤ fuel) (h : Inv c s t live free) (hrec : Records s live o)
    (hs : Step c fuel s op s') : ∃ t' live' free', Inv c s' t' live' free' ∧ Records s' live' (record o op) := by
  cases hs with
  | @get _ ret hr =>
    rcases h.get_spec hfuel with ⟨hr', -⟩ | ⟨pid, s1, t', p, free', hr', -, hpos, -, hnew, hinv, hkey, hdata, hkeep⟩
    · cases hr.symm.trans hr'
      exact ⟨t, live, free, h, hrec⟩
    · cases hr.symm.trans hr'
      refine ⟨t', p :: live, free', hinv, ?_⟩
      rw [record, if_neg (Nat.ne_of_gt hpos)]
      constructor
      · intro i hi
        rcases List.mem_cons.1 hi with rfl | hi
        · rw [hkey, hdata, Function.update_self]
        · obtain ⟨hk, hd⟩ := hkeep i hi
          have hne : ((s.avl.node i).avlKey : Int) ≠ ret := fun e => hnew ⟨i, hi, Int.ofNat_inj.1 e⟩
          rw [hk, hd, Function.update_of_ne hne]
          exact hrec.node i hi
      · intro k hk
        by_cases hkr : k = ret
        · subst hkr
          exact ⟨p, List.mem_cons_self, by rw [hkey]⟩
        · rw [Function.update_of_ne hkr] at hk
          obtain ⟨i, hi, heq⟩ := hrec.other k hk
          exact ⟨i, List.mem_cons_of_mem _ hi, by rw [(hkeep i hi).1, heq]⟩
  | @setLwp _ pid lwp hr =>
    rcases h.set_spec hfuel pid lwp with ⟨hr', hnot⟩ | ⟨p, hp, hkey, hr', hinv⟩
    · cases hr.symm.trans hr'
      refine ⟨t, live, free, h, ?_⟩
      rw [record, if_pos (hrec.eq_none h hnot)]
      exact hrec
    · cases hr.symm.trans hr'
      refine ⟨t, live, free, hinv, ?_⟩
      have hpid := h.pid_eq hp hkey
      rw [record, hpid, if_neg (by rw [hrec.node p hp]; exact Option.some_ne_none _)]
      constructor
      · intro i hi
        by_cases hip : i = p
        · subst hip
          simp [LwpAvl.setData]
        · have hne : ((s.avl.node i).avlKey : Int) ≠ (s.avl.node p).avlKey := fun e =>
            h.tree.key_ne hi hp hip (Int.ofNat_inj.1 e)
          simpa [LwpAvl.setData, hip, hne] using hrec.node i hi
      · intro k hk
        by_cases hkp : k = (s.avl.node p).avlKey
        · subst hkp
          exact ⟨p, hp, by simp [LwpAvl.setData]⟩
        · rw [Function.update_of_ne hkp] at hk
          obtain ⟨i, hi, rfl⟩ := hrec.other k hk
          have hip : i ≠ p := fun e => hkp (by rw [e])
          exact ⟨i, hi, by simp [LwpAvl.setData, hip]⟩
  | @put _ pid hr =>
    rcases h.put_spec hfuel pid with ⟨hr', hnot⟩ | ⟨p, s1, t', hp, hkey, hr', hinv, hkeep⟩
    · cases hr.symm.trans hr'
      refine ⟨t, live, free, h, ?_⟩
      rw [record, ← hrec.eq_none h hnot, Function.update_eq_self]
      exact hrec
    · cases hr.symm.trans hr'
      refine ⟨t', live.erase p, p :: free, hinv, ?_⟩
      have hpid := h.pid_eq hp hkey
      have hnd := (List.nodup_append.1 h.arena.nodup).2.1
      rw [record, hpid]
      constructor
      · intro i hi
        obtain ⟨hip, hil⟩ := hnd.mem_erase_iff.1 hi
        have hne : ((s.avl.node i).avlKey : Int) ≠ (s.avl.node p).avlKey := fun e =>
          h.tree.key_ne hil hp hip (Int.ofNat_inj.1 e)
        rw [(hkeep i hi).1, (hkeep i hi).2, Function.update_of_ne hne]
        exact hrec.node i hil
      · intro k hk
        have hkp : k ≠ (s.avl.node p).avlKey := by
          rintro rfl
          exact hk (Function.update_self _ _ _)
        rw [Function.update_of_ne hkp] at hk
        obtain ⟨i, hi, rfl⟩ := hrec.other k hk
        have hip : i ≠ p := fun e => hkp (by rw [e])
        have hmem := hnd.mem_erase_iff.2 ⟨hip, hi⟩
        exact ⟨i, hmem, by rw [(hkeep i hmem).1]⟩

end Steps

/-- The slots are partitioned into the free chain and the tree, and the functions do what the record of the operations
says. -/
structure Table (c : PidConfig) (fuel : Nat) (ops : List PidOp) (s : LwpPid) (free live : List Nat) : Prop where
  slots : Singly.Arena c.maxNr s.aryAlloced (fun i => (s.avl.node i).avlRight) s.freeHead free live
  data : ∀ i ∈ free, (s.avl.node i).data = none
  tree : LwpAvl.Avl ⟨s.avl, live⟩
  distinct : live.Pairwise fun i j => (s.avl.node i).avlKey ≠ (s.avl.node j).avlKey
  keys : ∀ i ∈ live, 0 < (s.avl.node i).avlKey ∧ (s.avl.node i).avlKey < pidMax
  inUse : ∀ pid, InUse s live pid ↔ owner ops pid ≠ none
  get : ∃ pid s', lwpPidGet c fuel s = some (pid, s') ∧ (pid = 0 ↔ live.length = c.maxNr) ∧ (pid = 0 → s' = s) ∧
    ¬ InUse s live pid
  fromPid : ∀ pid, lwpFromPid c fuel s pid = some (owner ops pid.1).join
  set : ∀ pid lwp, ∃ s', lwpPidSetLwp c fuel s pid lwp = some s'
  put : ∀ pid, ∃ s', lwpPidPut c fuel s pid = some s'

theorem Inv.table {ops : List PidOp} (hfuel : c.maxNr ≤ fuel) (h : Inv c s t live free)
    (hrec : Records s live (owner ops)) : Table c fuel ops s free live where
  slots := h.arena
  data i hi := h.data i fun hl => h.arena.not_free hl hi
  tree := h.tree.avl
  distinct := h.tree.keys_ne
  keys := h.keys
  inUse pid := hrec.inUse_iff pid
  get := by
    rcases h.get_spec hfuel with ⟨hr, hfull⟩ | ⟨pid, s', -, -, -, hr, hroom, hpos, -, hnew, -⟩
    · refine ⟨0, s, hr, ⟨fun _ => hfull, fun _ => rfl⟩, fun _ => rfl, ?_⟩
      rintro ⟨i, hi, heq⟩
      exact Nat.ne_of_gt (h.keys i hi).1 heq
    · exact ⟨pid, s', hr, by omega, by omega, hnew⟩
  fromPid pid := by
    rcases h.from_spec hfuel pid with ⟨hr, hnot⟩ | ⟨p, hp, hkey, hr⟩
    · rw [hr, hrec.eq_none h hnot]
      rfl
    · rw [hr, h.pid_eq hp hkey, hrec.node p hp]
      rfl
  set pid lwp := by
    rcases h.set_spec hfuel pid lwp with ⟨hr, -⟩ | ⟨p, -, -, hr, -⟩
    · exact ⟨_, hr⟩
    · exact ⟨_, hr⟩
  put pid := by
    rcases h.put_spec hfuel pid with ⟨hr, -⟩ | ⟨p, s', t', -, -, hr, -⟩
    · exact ⟨_, hr⟩
    · exact ⟨_, hr⟩

theorem lwp_pid_run {ops : List PidOp} (hfuel : c.maxNr ≤ fuel) (hr : Runs.Run (Step c fuel) init ops s) :
    ∃ free live, Table c fuel ops s free live := by
  have hinv : ∃ t live free, Inv c s t live free ∧ Records s live (owner ops) := by
    refine hr.history (I := fun ops s => ∃ t live free, Inv c s t live free ∧ Records s live (owner ops)) ?_ ?_
    · refine ⟨.nil, [], [], ⟨⟨⟨trivial, rfl, List.nodup_nil⟩, trivial, .nil, .nil⟩, .empty _ _, fun _ _ => rfl, ?_, ?_⟩,
        ?_, ?_⟩
      · exact fun i hi => absurd hi List.not_mem_nil
      · exact Nat.zero_lt_succ _
      · exact fun i hi => absurd hi List.not_mem_nil
      · exact fun k hk => absurd rfl hk
    · rintro ops s op s' ⟨t, live, free, h, hrec⟩ hs
      obtain ⟨t', live', free', h', hrec'⟩ := step_inv hfuel h hrec hs
      exact ⟨t', live', free', h', by rwa [owner_append]⟩
  obtain ⟨t, live, free, h, hrec⟩ := hinv
  exact ⟨free, live, h.table hfuel hrec⟩

/-- Two slots: the third pid is refused, and one that was given back is not given again at once. -/
theorem lwp_pid_run_two :
    ∃ s, Runs.Run (Step ⟨2, 64, by decide, by decide, by decide⟩ 2) init
        ([] ++ [.get 1] ++ [.setLwp ⟨1, by decide⟩ (some 7)] ++ [.get 2] ++ [.get 0] ++ [.put ⟨1, by decide⟩] ++ [.get 3]) s ∧
      ∃ free live, Table ⟨2, 64, by decide, by decide, by decide⟩ 2
        [.get 1, .setLwp ⟨1, by decide⟩ (some 7), .get 2, .get 0, .put ⟨1, by decide⟩, .get 3] s free live := by
  let c : PidConfig := ⟨2, 64, by decide, by decide, by decide⟩
  have h1 : Runs.Run (Step c 2) init ([] ++ [.get 1]) _ := .snoc .nil (.get rfl)
  have h2 : Runs.Run (Step c 2) _ (_ ++ [.setLwp ⟨1, by decide⟩ (some 7)]) _ := h1.snoc (.setLwp rfl)
  have h3 : Runs.Run (Step c 2) _ (_ ++ [.get 2]) _ := h2.snoc (.get rfl)
  have h4 : Runs.Run (Step c 2) _ (_ ++ [.get 0]) _ := h3.snoc (.get rfl)
  have h5 : Runs.Run (Step c 2) _ (_ ++ [.put ⟨1, by decide⟩]) _ := h4.snoc (.put rfl)
  have h6 : Runs.Run (Step c 2) _ (_ ++ [.get 3]) _ := h5.snoc (.get rfl)
  exact ⟨_, h6, lwp_pid_run (Nat.le_refl 2) h6⟩

end RtThread.LwpPid
