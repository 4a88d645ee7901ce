import RtThread.Dfs.Filesystem
import RtThread.Lib.Paths

/-!
# Which filesystem a path is in

`dfs_filesystem_lookup` takes the last of the entries that match with the longest path (`lookupFrom_spec`). That is the
filesystem the path is in, for every path, if and only if the lengths of the mounted paths fit a `uint32_t`
(`mount_resolution`).
-/

namespace RtThread

open Paths

/-- The entry `i` is a filesystem mounted on `mount`. -/
def Active (table : List DfsFilesystem) (i : Nat) (mount : CString) : Prop :=
  ∃ iter, table[i]? = some iter ∧ iter.path = some mount ∧ iter.ops.isSome

/-- `path` is `mount` or below it. -/
def Within (mount path : CString) : Prop := names '/' mount.chars <+: names '/' path.chars

/-- What `dfs_subdir` should give: nothing for the mounted path itself, else what is to be appended to it. -/
def SubdirOk (mount path : CString) : Prop :=
  (dfsSubdir mount path = none ↔ path = mount) ∧
    ∀ s, dfsSubdir mount path = some s → s.head? = some '/' ∧
      path.chars = if mount.chars = ['/'] then s else mount.chars ++ s

/-- The entry with the longest path that `path` is within, if there is one. -/
structure Resolves (table : List DfsFilesystem) (path : CString) : Prop where
  none_iff : dfsFilesystemLookup table path = none ↔ ∀ i mount, Active table i mount → ¬ Within mount path
  longest : ∀ i, dfsFilesystemLookup table path = some i → ∃ mount, Active table i mount ∧ Within mount path ∧
    (∀ j mount', Active table j mount' → Within mount' path → mount'.strlen ≤ mount.strlen) ∧ SubdirOk mount path

variable {table : List DfsFilesystem} {mount path m p : CString} {i j : Nat} {fs : Option Nat} {prefixlen : Nat}

theorem CString.ext {a b : CString} (h : a.chars = b.chars) : a = b := by
  cases a
  cases b
  cases h
  rfl

/-! ## The loop -/

theorem active_cons {iter : DfsFilesystem} : Active (iter :: table) (i + 1) m ↔ Active table i m := Iff.rfl

/-- Of the entries that match, the last one with the longest path is taken, if it is as long as what was found before. -/
theorem lookupFrom_spec (path : CString) (table : List DfsFilesystem) (i : Nat) (fs : Option Nat) (prefixlen : Nat) :
    (lookupFrom path table i fs prefixlen = fs ∧
      ∀ j m, Active table j m → matchesPath m path = true → fspath m < prefixlen) ∨
    ∃ j m, Active table j m ∧ matchesPath m path = true ∧ lookupFrom path table i fs prefixlen = some (i + j) ∧
      prefixlen ≤ fspath m ∧ ∀ j' m', Active table j' m' → matchesPath m' path = true →
        fspath m' ≤ fspath m ∧ (fspath m' = fspath m → j' ≤ j) := by
  induction table generalizing i fs prefixlen with
  | nil =>
    left
    refine ⟨rfl, ?_⟩
    rintro j m ⟨iter, h, -⟩ -
    simp at h
  | cons iter rest ih =>
    -- the entries but the first, when the first one is passed over
    have hskip : (∀ m, Active (iter :: rest) 0 m → matchesPath m path = true → fspath m < prefixlen) →
        lookupFrom path (iter :: rest) i fs prefixlen = lookupFrom path rest (i + 1) fs prefixlen →
        (lookupFrom path (iter :: rest) i fs prefixlen = fs ∧
          ∀ j m, Active (iter :: rest) j m → matchesPath m path = true → fspath m < prefixlen) ∨
        ∃ j m, Active (iter :: rest) j m ∧ matchesPath m path = true ∧
          lookupFrom path (iter :: rest) i fs prefixlen = some (i + j) ∧ prefixlen ≤ fspath m ∧
          ∀ j' m', Active (iter :: rest) j' m' → matchesPath m' path = true →
            fspath m' ≤ fspath m ∧ (fspath m' = fspath m → j' ≤ j) := by
      intro h0 heq
      rw [heq]
      rcases ih (i + 1) fs prefixlen with ⟨h1, h2⟩ | ⟨j, m, h1, h2, h3, h4, h5⟩
      · left
        refine ⟨h1, ?_⟩
        intro j m hj hm
        cases j with
        | zero => exact h0 m hj hm
        | succ j => exact h2 j m (active_cons.1 hj) hm
      · right
        refine ⟨j + 1, m, active_cons.2 h1, h2, by rw [h3, Nat.add_assoc, Nat.add_comm 1], h4, ?_⟩
        intro j' m' hj hm
        cases j' with
        | zero =>
          have := h0 m' hj hm
          exact ⟨by omega, fun _ => Nat.zero_le _⟩
        | succ j' =>
          obtain ⟨h6, h7⟩ := h5 j' m' (active_cons.1 hj) hm
          exact ⟨h6, fun he => Nat.succ_le_succ (h7 he)⟩
    cases hp : iter.path with
    | none =>
      refine hskip ?_ (by simp only [lookupFrom, hp])
      rintro m ⟨iter', h, h', -⟩ -
      cases h
      rw [hp] at h'
      cases h'
    | some mount =>
      cases ho : iter.ops with
      | none =>
        refine hskip ?_ (by simp only [lookupFrom, hp, ho])
        rintro m ⟨iter', h, -, h'⟩ -
        cases h
        rw [ho] at h'
        cases h'
      | some ops =>
        have hfirst : ∀ m, Active (iter :: rest) 0 m → m = mount := by
          rintro m ⟨iter', h, h', -⟩
          cases h
          rw [hp] at h'
          exact (Option.some.inj h').symm
        by_cases hc : fspath mount < prefixlen ∨ matchesPath mount path = false
        · refine hskip ?_ (by simp only [lookupFrom, hp, ho, if_pos hc])
          intro m hm hmatch
          obtain rfl := hfirst m hm
          rcases hc with hc | hc
          · exact hc
          · rw [hc] at hmatch
            cases hmatch
        · obtain ⟨hle, hmatch⟩ := not_or.1 hc
          have hmatch : matchesPath mount path = true := by simpa using hmatch
          have heq : lookupFrom path (iter :: rest) i fs prefixlen = lookupFrom path rest (i + 1) (some i) (fspath mount) := by
            simp only [lookupFrom, hp, ho, if_neg hc]
          have hact : Active (iter :: rest) 0 mount := ⟨iter, rfl, hp, by rw [ho]; rfl⟩
          right
          rw [heq]
          rcases ih (i + 1) (some i) (fspath mount) with ⟨h1, h2⟩ | ⟨j, m, h1, h2, h3, h4, h5⟩
          · refine ⟨0, mount, hact, hmatch, h1, Nat.le_of_not_lt hle, ?_⟩
            intro j' m' hj hm
            cases j' with
            | zero =>
              obtain rfl := hfirst m' hj
              exact ⟨Nat.le_refl _, fun _ => Nat.le_refl _⟩
            | succ j' =>
              have := h2 j' m' (active_cons.1 hj) hm
              exact ⟨Nat.le_of_lt this, fun he => absurd he (Nat.ne_of_lt this)⟩
          · refine ⟨j + 1, m, active_cons.2 h1, h2, by rw [h3, Nat.add_assoc, Nat.add_comm 1], by omega, ?_⟩
            intro j' m' hj hm
            cases j' with
            | zero =>
              obtain rfl := hfirst m' hj
              exact ⟨h4, fun _ => Nat.zero_le _⟩
            | succ j' =>
              obtain ⟨h6, h7⟩ := h5 j' m' (active_cons.1 hj) hm
              exact ⟨h6, fun he => Nat.succ_le_succ (h7 he)⟩

theorem lookup_spec (table : List DfsFilesystem) (path : CString) :
    (dfsFilesystemLookup table path = none ∧ ∀ j m, Active table j m → matchesPath m path = false) ∨
    ∃ j m, dfsFilesystemLookup table path = some j ∧ Active table j m ∧ matchesPath m path = true ∧
      ∀ j' m', Active table j' m' → matchesPath m' path = true →
        fspath m' ≤ fspath m ∧ (fspath m' = fspath m → j' ≤ j) := by
  rcases lookupFrom_spec path table 0 none 0 with
    ⟨h1, h2⟩ | ⟨j, m, h1, h2, h3, -, h5⟩
  · left
    refine ⟨h1, ?_⟩
    intro j m hj
    rw [← Bool.not_eq_true]
    exact fun hm => absurd (h2 j m hj hm) (Nat.not_lt_zero _)
  · right
    rw [Nat.zero_add] at h3
    exact ⟨j, m, h3, h1, h2, h5⟩

/-! ## A match -/

theorem fspath_le : fspath m ≤ m.strlen := Nat.mod_le _ _

theorem fspath_of_lt (h : m.strlen < 2 ^ 32) : fspath m = m.strlen := Nat.mod_eq_of_lt h

theorem strncmpEq_iff {n : Nat} (hn : n ≤ m.strlen) : strncmpEq m p n = true ↔ m.chars.take n <+: p.chars := by
  have hm : (m.chars ++ [nul]).take n = m.chars.take n := List.take_append_of_le_length hn
  rw [strncmpEq, beq_iff_eq, hm]
  constructor
  · intro h
    have hlen : n ≤ p.chars.length := by
      by_contra hlt
      have hall : (p.chars ++ [nul]).take n = p.chars ++ [nul] := by
        apply List.take_of_length_le
        rw [List.length_append, List.length_singleton]
        omega
      have hmem : nul ∈ m.chars.take n := by
        rw [h, hall]
        exact List.mem_append_right _ List.mem_cons_self
      exact m.nul_not_mem (List.mem_of_mem_take hmem)
    rw [List.take_append_of_le_length hlen] at h
    rw [h]
    exact List.take_prefix n _
  · intro h
    have hlen : n ≤ p.chars.length := by
      have := h.length_le
      rw [List.length_take] at this
      have : n ≤ m.chars.length := hn
      omega
    rw [List.take_append_of_le_length hlen]
    obtain ⟨t, ht⟩ := h
    rw [← ht, List.take_append_of_le_length (by rw [List.length_take]; exact Nat.le_min.2 ⟨Nat.le_refl n, hn⟩), List.take_take,
      Nat.min_self]

theorem matchesPath_iff : matchesPath m p = true ↔ m.chars.take (fspath m) <+: p.chars ∧
    (fspath m ≤ 1 ∨ p.strlen ≤ fspath m ∨ p.chars[fspath m]? = some '/') := by
  rw [matchesPath, Bool.and_eq_true, strncmpEq_iff fspath_le]
  apply and_congr Iff.rfl
  simp only [Bool.not_eq_true', Bool.and_eq_false_iff, decide_eq_false_iff_not, bne_eq_false_iff_eq, Nat.not_lt, gt_iff_lt,
    or_assoc]

theorem within_iff (hm : Normal '/' '.' m.chars) (hp : Normal '/' '.' p.chars) :
    Within m p ↔ p = m ∨ m.chars = ['/'] ∨ ∃ r, p.chars = m.chars ++ '/' :: r := by
  rw [Within, names_prefix hm hp]
  exact or_congr ⟨CString.ext, fun h => by rw [h]⟩ Iff.rfl

theorem Within.initial (hm : Normal '/' '.' m.chars) (hp : Normal '/' '.' p.chars) (h : Within m p) :
    m.chars <+: p.chars := by
  rcases (within_iff hm hp).1 h with rfl | h | ⟨r, h⟩
  · exact List.prefix_refl _
  · obtain ⟨r, hr⟩ := hp.head
    rw [h, hr]
    exact ⟨r, rfl⟩
  · rw [h]
    exact List.prefix_append _ _

theorem within_self : Within m m := List.prefix_refl _

section

variable (hm : Normal '/' '.' m.chars) (hp : Normal '/' '.' p.chars)

include hm hp

theorem eq_of_within (h : Within m p) (hlen : p.strlen ≤ m.strlen) : m = p :=
  CString.ext ((h.initial hm hp).eq_of_length_le hlen)

/-- A mounted path whose length fits matches the paths that are within it. -/
theorem matchesPath_within (hlt : m.strlen < 2 ^ 32) : matchesPath m p = true ↔ Within m p := by
  rw [matchesPath_iff, fspath_of_lt hlt, within_iff hm hp, show m.chars.take m.strlen = m.chars from List.take_length]
  constructor
  · rintro ⟨⟨t, ht⟩, h⟩
    rcases h with h | h | h
    · obtain ⟨r, hr⟩ := hm.head
      have hlen : (m.chars).length ≤ 1 := h
      rw [hr, List.length_cons] at hlen
      right
      left
      rw [hr, List.length_eq_zero_iff.1 (by omega : r.length = 0)]
    · left
      have hlen : p.chars.length ≤ m.chars.length := h
      rw [← ht, List.length_append] at hlen
      have hnil : t = [] := List.length_eq_zero_iff.1 (by omega)
      rw [hnil, List.append_nil] at ht
      exact CString.ext ht.symm
    · right
      right
      rw [← ht, show m.strlen = m.chars.length from rfl, List.getElem?_append_right (Nat.le_refl _), Nat.sub_self] at h
      cases t with
      | nil => cases h
      | cons c r =>
        obtain rfl : c = '/' := Option.some.inj h
        exact ⟨r, ht.symm⟩
  · intro h
    refine ⟨((within_iff hm hp).2 h).initial hm hp, ?_⟩
    rcases h with rfl | h | ⟨r, h⟩
    · exact .inr (.inl (Nat.le_refl _))
    · exact .inl (by rw [CString.strlen, h]; exact Nat.le_refl 1)
    · refine .inr (.inr ?_)
      rw [h, show m.strlen = m.chars.length from rfl, List.getElem?_append_right (Nat.le_refl _), Nat.sub_self]
      rfl

/-- `dfs_subdir` of a path and the path it is within. -/
theorem subdir_ok (h : Within m p) : SubdirOk m p := by
  have hnone : dfsSubdir m p = none ↔ p = m := by
    rw [dfsSubdir]
    constructor
    · intro hs
      split at hs
      · exact (eq_of_within hm hp h (Nat.le_of_eq ‹m.strlen = p.strlen›.symm)).symm
      · dsimp only at hs
        split at hs <;> cases hs
    · rintro rfl
      rw [if_pos rfl]
  refine ⟨hnone, ?_⟩
  intro s hs
  have hne : p ≠ m := fun he => by rw [hnone.2 he] at hs; cases hs
  rw [dfsSubdir] at hs
  obtain ⟨-, hs⟩ := Option.ite_none_left_eq_some.1 hs
  dsimp only at hs
  rcases (within_iff hm hp).1 h with he | hroot | ⟨r, hr⟩
  · exact absurd he hne
  · obtain ⟨r, hr⟩ := hp.head
    have hlen : m.strlen = 1 := by rw [CString.strlen, hroot]; rfl
    -- the character after the first `/` is not one
    have hnext : p.chars[m.strlen]? ≠ some '/' := by
      intro hc
      rw [hlen, hr, List.getElem?_cons_succ] at hc
      cases r with
      | nil => cases hc
      | cons c r =>
        obtain rfl : c = '/' := Option.some.inj hc
        exact hp.single ⟨[], r, by rw [hr]; rfl⟩
    rw [if_pos ⟨hnext, by omega⟩, hlen, Nat.sub_self, List.drop_zero] at hs
    cases hs
    rw [if_pos hroot]
    exact ⟨by rw [hr]; rfl, rfl⟩
  · have hlen : m.strlen = m.chars.length := rfl
    have hnext : p.chars[m.strlen]? = some '/' := by
      rw [hr, hlen, List.getElem?_append_right (Nat.le_refl _), Nat.sub_self]
      rfl
    rw [if_neg fun hc => hc.1 hnext, hr, hlen, List.drop_left] at hs
    cases hs
    refine ⟨rfl, ?_⟩
    rw [if_neg, hr]
    intro hroot
    rw [hroot] at hr
    exact hp.single ⟨[], r, by rw [hr]; rfl⟩

end

/-! ## The filesystem of a path -/

theorem Active.unique (h : Active table i m) (h' : Active table i p) : m = p := by
  obtain ⟨iter, h1, h2, -⟩ := h
  obtain ⟨iter', h1', h2', -⟩ := h'
  rw [h1] at h1'
  cases h1'
  rw [h2] at h2'
  exact Option.some.inj h2'

theorem resolves_of_lt (hn : ∀ i m, Active table i m → Normal '/' '.' m.chars)
    (hlt : ∀ i m, Active table i m → m.strlen < 2 ^ 32) (hp : Normal '/' '.' p.chars) : Resolves table p := by
  have hmatch : ∀ {j m}, Active table j m → (matchesPath m p = true ↔ Within m p) :=
    fun hj => matchesPath_within (hn _ _ hj) hp (hlt _ _ hj)
  rcases lookup_spec table p with ⟨h1, h2⟩ | ⟨k, m, h1, h2, h3, h4⟩
  · constructor
    · rw [h1]
      refine ⟨fun _ j m hj hw => ?_, fun _ => rfl⟩
      have := h2 j m hj
      rw [(hmatch hj).2 hw] at this
      cases this
    · intro i hi
      rw [h1] at hi
      cases hi
  · have hw := (hmatch h2).1 h3
    constructor
    · rw [h1]
      exact ⟨(nofun), fun h => absurd hw (h k m h2)⟩
    · intro i hi
      rw [h1] at hi
      cases hi
      refine ⟨m, h2, hw, ?_, subdir_ok (hn _ _ h2) hp hw⟩
      intro j m' hj hw'
      have hle := (h4 j m' hj ((hmatch hj).2 hw')).1
      rwa [fspath_of_lt (hlt _ _ hj), fspath_of_lt (hlt _ _ h2)] at hle

/-- A mounted path whose length does not fit is not the filesystem of itself, or it is the filesystem of what is before
the `/` at its truncated length. -/
theorem lt_of_resolves (hn : ∀ i m, Active table i m → Normal '/' '.' m.chars)
    (hd : ∀ i j m, Active table i m → Active table j m → i = j)
    (h : ∀ p : CString, Normal '/' '.' p.chars → Resolves table p) (hi : Active table i m) : m.strlen < 2 ^ 32 := by
  by_contra hge
  have hm := hn i m hi
  have hL : fspath m < 2 ^ 32 := Nat.mod_lt _ (Nat.two_pow_pos 32)
  obtain ⟨hself, hlast⟩ : matchesPath m m = true ∧ ∀ j' m', Active table j' m' → matchesPath m' m = true →
      fspath m' ≤ fspath m ∧ (fspath m' = fspath m → j' ≤ i) := by
    rcases lookup_spec table m with ⟨h1, -⟩ | ⟨k, m', h1, h2, h3, h4⟩
    · exact absurd within_self ((h m hm).none_iff.1 h1 i m hi)
    · obtain ⟨m'', h5, h6, h7, -⟩ := (h m hm).longest k h1
      obtain rfl := h2.unique h5
      obtain rfl := eq_of_within (hn _ _ h5) hm h6 (h7 i m hi within_self)
      obtain rfl := hd _ _ _ hi h2
      exact ⟨h3, h4⟩
  obtain ⟨-, hsep⟩ := matchesPath_iff.1 hself
  -- the path that the truncated length leaves
  obtain ⟨p, hp, hpm, hplen, hwithin⟩ : ∃ p : CString, Normal '/' '.' p.chars ∧ matchesPath m p = true ∧
      p.strlen < 2 ^ 32 ∧ Within p m := by
    by_cases h1 : fspath m ≤ 1
    · have hroot : Normal '/' '.' ['/'] := ⟨[], by simp, rfl⟩
      refine ⟨⟨['/'], by decide⟩, hroot, matchesPath_iff.2 ⟨?_, .inl h1⟩, by decide, (within_iff hroot hm).2 (.inr (.inl rfl))⟩
      obtain ⟨r, hr⟩ := hm.head
      rw [hr]
      rcases Nat.le_one_iff_eq_zero_or_eq_one.1 h1 with h0 | h0 <;> rw [h0]
      · exact List.nil_prefix
      · exact List.prefix_refl _
    · have hslash : m.chars[fspath m]? = some '/' := by
        rcases hsep with h2 | h2 | h2
        · exact absurd h2 h1
        · exact absurd (Nat.lt_of_le_of_lt h2 hL) hge
        · exact h2
      obtain ⟨hlt, hget⟩ := List.getElem?_eq_some_iff.1 hslash
      have hsplit : m.chars = m.chars.take (fspath m) ++ '/' :: m.chars.drop (fspath m + 1) := by
        rw [← hget, List.cons_getElem_drop_succ, List.take_append_drop]
      have hlen : (m.chars.take (fspath m)).length = fspath m := by
        rw [List.length_take, Nat.min_eq_left (Nat.le_of_lt hlt)]
      have hnormal : Normal '/' '.' (m.chars.take (fspath m)) := by
        rw [hsplit] at hm
        refine hm.before fun hnil => ?_
        rw [hnil] at hlen
        exact h1 (by rw [← hlen]; exact Nat.zero_le 1)
      refine ⟨⟨m.chars.take (fspath m), fun hc => m.nul_not_mem (List.mem_of_mem_take hc)⟩, hnormal,
        matchesPath_iff.2 ⟨List.prefix_refl _, .inr (.inl (Nat.le_of_eq hlen))⟩, ?_,
        (within_iff hnormal hm).2 (.inr (.inr ⟨_, hsplit⟩))⟩
      change (m.chars.take (fspath m)).length < 2 ^ 32
      rw [hlen]
      exact hL
  rcases lookup_spec table p with ⟨-, h2⟩ | ⟨k, m', h1, h2, -, h4⟩
  · rw [h2 i m hi] at hpm
    cases hpm
  · obtain ⟨m'', h5, h6, -, -⟩ := (h p hp).longest k h1
    obtain rfl := h2.unique h5
    have hm' := hn _ _ h2
    have hlen' : m'.strlen < 2 ^ 32 := Nat.lt_of_le_of_lt (h6.initial hm' hp).length_le hplen
    have hwm : Within m' m := List.IsPrefix.trans h6 hwithin
    obtain ⟨h7, h8⟩ := h4 i m hi hpm
    obtain ⟨h9, h10⟩ := hlast k m' h2 ((matchesPath_within hm' hm hlen').2 hwm)
    have heq : fspath m = fspath m' := Nat.le_antisymm h7 h9
    obtain rfl : k = i := Nat.le_antisymm (h10 heq.symm) (h8 heq)
    obtain rfl := hi.unique h2
    exact hge hlen'

/-- Every path is found in the filesystem it is in if and only if the lengths of the mounted paths fit. -/
theorem mount_resolution (table : List DfsFilesystem) (hn : ∀ i m, Active table i m → Normal '/' '.' m.chars)
    (hd : ∀ i j m, Active table i m → Active table j m → i = j) :
    (∀ p : CString, Normal '/' '.' p.chars → Resolves table p) ↔ ∀ i m, Active table i m → m.strlen < 2 ^ 32 := by
  constructor
  · intro h i m hi
    exact lt_of_resolves hn hd h hi
  · intro h p hp
    exact resolves_of_lt hn h hp

/-- `/` and `/mnt`, with an entry between them that is not used. -/
def twoMounts : List DfsFilesystem :=
  [⟨none, some ⟨['/'], nul_not_mem_root⟩, some dfsTestOps⟩, DfsFilesystem.clear,
    ⟨none, some ⟨['/', 'm', 'n', 't'], nul_not_mem_mnt⟩, some dfsTestOps⟩]

theorem active_twoMounts (h : Active twoMounts i m) :
    i = 0 ∧ m.chars = ['/'] ∨ i = 2 ∧ m.chars = ['/', 'm', 'n', 't'] := by
  obtain ⟨iter, h1, h2, h3⟩ := h
  match i, h1 with
  | 0, h1 =>
    cases h1
    exact .inl ⟨rfl, by rw [← Option.some.inj h2]⟩
  | 1, h1 =>
    cases h1
    cases h2
  | 2, h1 =>
    cases h1
    exact .inr ⟨rfl, by rw [← Option.some.inj h2]⟩

theorem mount_resolution_two : Resolves twoMounts ⟨['/', 'm', 'n', 't', '/', 'f'], by decide⟩ := by
  refine (mount_resolution twoMounts ?_ ?_).2 ?_ _ ⟨[['m', 'n', 't'], ['f']], ?_, rfl⟩
  · intro i m h
    rcases active_twoMounts h with ⟨-, h⟩ | ⟨-, h⟩ <;> rw [h]
    · exact ⟨[], by simp, rfl⟩
    · refine ⟨[['m', 'n', 't']], ?_, rfl⟩
      intro w hw
      obtain rfl := List.mem_singleton.1 hw
      exact ⟨by decide, by decide, by decide, by decide⟩
  · intro i j m hi hj
    rcases active_twoMounts hi with ⟨rfl, h⟩ | ⟨rfl, h⟩ <;> rcases active_twoMounts hj with ⟨rfl, h'⟩ | ⟨rfl, h'⟩
    · rfl
    · rw [h] at h'
      cases h'
    · rw [h] at h'
      cases h'
    · rfl
  · intro i m h
    rcases active_twoMounts h with ⟨-, h⟩ | ⟨-, h⟩ <;> rw [CString.strlen, h] <;> decide
  · intro w hw
    rcases List.mem_cons.1 hw with rfl | hw
    · exact ⟨by decide, by decide, by decide, by decide⟩
    · obtain rfl := List.mem_singleton.1 hw
      exact ⟨by decide, by decide, by decide, by decide⟩

/-- `/a` with `n` times the last character. -/
def longPath (n : Nat) : CString where
  chars := '/' :: List.replicate n 'a'
  nul_not_mem := by
    intro h
    rcases List.mem_cons.1 h with h | h
    · exact absurd h (by decide)
    · exact absurd (List.eq_of_mem_replicate h) (by decide)

theorem lookup_longPath {n : Nat} (hn : (n + 1) % 2 ^ 32 = 1) (ops : DfsFilesystemOps) :
    dfsFilesystemLookup [⟨none, some (longPath n), some ops⟩] ⟨['/', 'b'], by decide⟩ = some 0 := by
  have hL : fspath (longPath n) = 1 := by
    rw [fspath, CString.strlen, longPath, List.length_cons, List.length_replicate, hn]
  have hmatch : matchesPath (longPath n) ⟨['/', 'b'], by decide⟩ = true := by
    rw [matchesPath_iff, hL]
    exact ⟨⟨['b'], rfl⟩, .inl (Nat.le_refl 1)⟩
  rw [dfsFilesystemLookup, lookupFrom]
  dsimp only
  rw [hL, if_neg (by simp [hmatch])]
  rfl

theorem not_resolves_longPath {n : Nat} (hn : (n + 1) % 2 ^ 32 = 1) (hlong : 2 < n) (ops : DfsFilesystemOps) :
    ¬ Resolves [⟨none, some (longPath n), some ops⟩] ⟨['/', 'b'], by decide⟩ := by
  intro h
  obtain ⟨m, ⟨iter, h1, h2, -⟩, hw, -⟩ := h.longest 0 (lookup_longPath hn ops)
  cases h1
  cases h2
  have hnormal : Normal '/' '.' (longPath n).chars := by
    refine ⟨[List.replicate n 'a'], ?_, by rw [absolute, List.intercalate_singleton, longPath]⟩
    intro w hw
    obtain rfl := List.mem_singleton.1 hw
    have hlen : ∀ l : List Char, l.length ≤ 2 → List.replicate n 'a' ≠ l := by
      rintro l hl rfl
      rw [List.length_replicate] at hl
      omega
    refine ⟨hlen _ (by decide), fun h => ?_, hlen _ (by decide), hlen _ (by decide)⟩
    exact absurd (List.eq_of_mem_replicate h) (by decide)
  have hb : Normal '/' '.' ['/', 'b'] := by
    refine ⟨[['b']], ?_, rfl⟩
    intro w hw
    obtain rfl := List.mem_singleton.1 hw
    exact ⟨by decide, by decide, by decide, by decide⟩
  have hle := (hw.initial hnormal hb).length_le
  rw [longPath, List.length_cons, List.length_replicate] at hle
  change n + 1 ≤ 2 at hle
  omega

/-- A path of `2 ^ 32 + 1` characters is mounted, and `/b` is found in it. -/
theorem long_mount_misroutes :
    dfsFilesystemLookup [⟨none, some (longPath (2 ^ 32)), some dfsTestOps⟩] ⟨['/', 'b'], by decide⟩ = some 0 ∧
    ¬ Resolves [⟨none, some (longPath (2 ^ 32)), some dfsTestOps⟩] ⟨['/', 'b'], by decide⟩ := by
  constructor
  · exact lookup_longPath (by decide) dfsTestOps
  · exact not_resolves_longPath (by decide) (by decide) dfsTestOps

end RtThread
