import Mathlib.Algebra.Group.Nat.Defs
import RtThread.Lib.Forest
import RtThread.Lib.Segments

/-!
# Lookup in romfs

`dfs_romfs_lookup` (`dfs_romfs.c`). The entries of the image are a forest: the trees of a directory's forest are its entries. The
lookup goes on to the next component before it looks at the type of the entry it has found.
-/

namespace RtThread

open Forests Segments

def romfsDirentFile : Nat := 0
def romfsDirentDir : Nat := 1

/-- `struct romfs_dirent`; the size of a directory is the number of its entries. -/
structure RomfsDirent where
  type : Nat
  name : List Char
  size : Nat
deriving DecidableEq

/-- `check_dirent` passes. -/
def RomfsDirent.Ok (d : RomfsDirent) : Prop :=
  ¬ ((d.type ≠ romfsDirentFile ∧ d.type ≠ romfsDirentDir) ∨ d.size = 2 ^ 32 - 1)

instance (d : RomfsDirent) : Decidable d.Ok := inferInstanceAs (Decidable (¬ _))

/-- An image: what is at each address, and the root directory's address and entries. -/
structure Romfs where
  dirent : Nat → RomfsDirent
  root : Nat
  entries : Forest Nat

/-- The skip of slashes, and the name behind them: from `subpath` up to `subpath_end`, and what follows. -/
def romfsNext (path : List Char) : List Char × List Char :=
  let subpath := path.dropWhile (· = '/')
  (subpath.takeWhile (· ≠ '/'), subpath.dropWhile (· ≠ '/'))

namespace Romfs

variable (im : Romfs)

/-- The loops of `dfs_romfs_lookup`: the entry, and the size, if it is set. -/
def lookupLoop : Forest Nat → List Char → List Char → Option (Nat × Option Nat)
  | .nil, _, _ => none
  | .cons a children siblings, subpath, rest =>
    if ¬ (im.dirent a).Ok then none
    else if (im.dirent a).name = subpath then
      let (subpath, rest) := romfsNext rest
      if subpath = [] then some (a, some (im.dirent a).size)
      else if (im.dirent a).type = romfsDirentDir then lookupLoop children subpath rest
      else some (a, none)
    else lookupLoop siblings subpath rest

def dfsRomfsLookup (path : List Char) : Option (Nat × Option Nat) :=
  if ¬ (im.dirent im.root).Ok then none
  else if path = ['/'] then some (im.root, some (im.dirent im.root).size)
  else im.lookupLoop im.entries (romfsNext path).1 (romfsNext path).2

/-- The first entry with the name, and its own entries. -/
def child (name : List Char) : Forest Nat → Option (Nat × Forest Nat)
  | .nil => none
  | .cons a children siblings => if (im.dirent a).name = name then some (a, children) else child name siblings

/-- The names are followed from an entry through directories only. -/
def resolve : Nat × Forest Nat → List (List Char) → Option Nat
  | x, [] => some x.1
  | x, w :: ws => if (im.dirent x.1).type = romfsDirentDir then (im.child w x.2).bind fun y => resolve y ws else none

/-- The lookup finds the entry that the components of the path lead to, and sets its size. -/
def LookupLaw (path : List Char) : Prop :=
  match im.dfsRomfsLookup path with
  | none => im.resolve (im.root, im.entries) (tokens ['/'] path) = none
  | some (a, size) =>
    im.resolve (im.root, im.entries) (tokens ['/'] path) = some a ∧ size = some (im.dirent a).size

/-- No component but the last leads to a file. -/
def Through (f : Forest Nat) : List (List Char) → Prop
  | w :: v :: ws => ∀ x, im.child w f = some x → (im.dirent x.1).type = romfsDirentDir ∧ Through x.2 (v :: ws)
  | _ => True

variable {im} {f : Forest Nat} {path w rest : List Char} {x : Nat × Forest Nat}

theorem child_mem (h : im.child w f = some x) : x.1 ∈ f.nodes := by
  induction f with
  | nil => cases h
  | cons a children siblings _ ihs =>
    rw [child] at h
    split at h
    · cases h
      exact List.mem_cons_self
    · exact List.mem_cons_of_mem a (List.mem_append_right _ (ihs h))

theorem romfsNext_nil (h : (romfsNext path).1 = []) : (romfsNext path).2 = [] := by
  rw [romfsNext] at h ⊢
  have hhead := List.head?_dropWhile_not (· = '/') path
  cases hs : path.dropWhile (· = '/') with
  | nil => rfl
  | cons c cs =>
    rw [hs] at h hhead
    simp [List.takeWhile_cons] at h hhead
    exact absurd h hhead

/-- The next name is the first component of the path, if it has any. -/
theorem romfsNext_eq (path : List Char) :
    tokens ['/'] path = if (romfsNext path).1 = [] then []
      else (romfsNext path).1 :: tokens ['/'] (romfsNext path).2 := by
  have hskip : tokens ['/'] path = tokens ['/'] ((romfsNext path).1 ++ (romfsNext path).2) := by
    have hsplit : (romfsNext path).1 ++ (romfsNext path).2 = path.dropWhile (· = '/') := List.takeWhile_append_dropWhile
    conv_lhs => rw [← List.takeWhile_append_dropWhile (p := (· = '/')) (l := path)]
    rw [hsplit]
    exact tokens_delim fun c hc => List.mem_singleton.2 (of_decide_eq_true (List.mem_takeWhile_imp (p := (· = '/')) hc))
  rw [hskip]
  split
  · rename_i hnil
    rw [hnil, romfsNext_nil hnil]
    rfl
  · rename_i hne
    have hhead : ∀ c ∈ (romfsNext path).2.head?, c ∈ ['/'] := by
      intro c hc
      have := List.head?_dropWhile_not (· ≠ '/') (path.dropWhile (· = '/'))
      rw [Option.mem_def, romfsNext] at hc
      rw [hc] at this
      simpa using this
    rw [tokens_token (fun c hc => by simpa using List.mem_takeWhile_imp hc) hne hhead]
    congr 1
    cases hrest : (romfsNext path).2 with
    | nil => rfl
    | cons c cs => exact (tokens_delim (s := [c]) (by simpa [hrest] using hhead)).symm

theorem lookupLoop_spec (hok : ∀ a ∈ f.nodes, (im.dirent a).Ok) (w rest : List Char) :
    (im.Through f (w :: tokens ['/'] rest) → im.lookupLoop f w rest =
      ((im.child w f).bind fun y => im.resolve y (tokens ['/'] rest)).map fun a => (a, some (im.dirent a).size)) ∧
    (¬ im.Through f (w :: tokens ['/'] rest) → ∃ a, im.lookupLoop f w rest = some (a, none)) := by
  induction f generalizing w rest with
  | nil =>
    refine ⟨fun _ => rfl, fun h => absurd ?_ h⟩
    cases tokens ['/'] rest with
    | nil => trivial
    | cons v vs => exact fun x hx => by cases hx
  | cons a children siblings ihc ihs =>
    have hoka := hok a List.mem_cons_self
    rw [lookupLoop, if_neg (not_not.2 hoka)]
    by_cases hname : (im.dirent a).name = w
    · have hchild : im.child w (.cons a children siblings) = some (a, children) := if_pos hname
      rw [if_pos hname, hchild, romfsNext_eq rest]
      dsimp only
      by_cases hnil : (romfsNext rest).1 = []
      · rw [if_pos hnil, if_pos hnil]
        exact ⟨fun _ => rfl, fun h => absurd trivial h⟩
      · have hthrough : im.Through (.cons a children siblings)
            (w :: (romfsNext rest).1 :: tokens ['/'] (romfsNext rest).2) ↔ (im.dirent a).type = romfsDirentDir ∧
              im.Through children ((romfsNext rest).1 :: tokens ['/'] (romfsNext rest).2) := by
          rw [Through, hchild]
          simp
        rw [if_neg hnil, if_neg hnil, hthrough, Option.bind_some, resolve]
        by_cases hdir : (im.dirent a).type = romfsDirentDir
        · rw [if_pos hdir, if_pos hdir, and_iff_right hdir]
          exact ihc (fun b hb => hok b (List.mem_cons_of_mem a (List.mem_append_left _ hb))) _ _
        · rw [if_neg hdir]
          exact ⟨fun h => absurd h.1 hdir, fun _ => ⟨a, rfl⟩⟩
    · have hchild : im.child w (.cons a children siblings) = im.child w siblings := if_neg hname
      have hthrough : im.Through (.cons a children siblings) (w :: tokens ['/'] rest) ↔
          im.Through siblings (w :: tokens ['/'] rest) := by
        cases tokens ['/'] rest with
        | nil => rfl
        | cons v vs => rw [Through, Through, hchild]
      rw [if_neg hname, hchild, hthrough]
      exact ihs (fun b hb => hok b (List.mem_cons_of_mem a (List.mem_append_right _ hb))) w rest

/-- The path is that of the root directory, or it has a component and those before the last lead through directories. -/
theorem romfs_lookup (hok : ∀ a ∈ im.root :: im.entries.nodes, (im.dirent a).Ok)
    (hdir : (im.dirent im.root).type = romfsDirentDir) (hroot : im.root ∉ im.entries.nodes) :
    im.LookupLaw path ↔
      path = ['/'] ∨ tokens ['/'] path ≠ [] ∧ im.Through im.entries (tokens ['/'] path) := by
  have hspec := lookupLoop_spec (fun a ha => hok a (List.mem_cons_of_mem _ ha)) (romfsNext path).1 (romfsNext path).2
  unfold LookupLaw dfsRomfsLookup
  rw [if_neg (not_not.2 (hok _ List.mem_cons_self))]
  by_cases hslash : path = ['/']
  · subst hslash
    exact iff_of_true ⟨rfl, rfl⟩ (.inl rfl)
  · rw [if_neg hslash, or_iff_right hslash, romfsNext_eq path]
    by_cases hnil : (romfsNext path).1 = []
    · rw [if_pos hnil]
      refine iff_of_false (fun hlaw => ?_) fun h => h.1 rfl
      rw [hspec.1 (by rw [romfsNext_nil hnil]; trivial)] at hlaw
      cases hchild : im.child (romfsNext path).1 im.entries with
      | none =>
        rw [hchild] at hlaw
        cases hlaw
      | some x =>
        rw [hchild, romfsNext_nil hnil] at hlaw
        exact hroot ((show im.root = x.1 from Option.some.inj hlaw.1) ▸ child_mem hchild)
    · rw [if_neg hnil, resolve, if_pos hdir, and_iff_right (List.cons_ne_nil _ _)]
      by_cases hthrough : im.Through im.entries ((romfsNext path).1 :: tokens ['/'] (romfsNext path).2)
      · rw [hspec.1 hthrough]
        refine iff_of_true ?_ hthrough
        cases (im.child (romfsNext path).1 im.entries).bind fun y => im.resolve y (tokens ['/'] (romfsNext path).2) with
        | none => rfl
        | some a => exact ⟨rfl, rfl⟩
      · obtain ⟨a, ha⟩ := hspec.2 hthrough
        rw [ha]
        exact iff_of_false (fun hlaw => by cases hlaw.2) hthrough

/-- `/bin/ls`, and `/readme`. -/
def sample : Romfs where
  dirent a := [⟨1, "/".toList, 2⟩, ⟨1, "bin".toList, 1⟩, ⟨0, "ls".toList, 300⟩, ⟨0, "readme".toList, 20⟩].getD a ⟨0, [], 0⟩
  root := 0
  entries := .cons 1 (.cons 2 .nil .nil) (.cons 3 .nil .nil)

theorem romfs_lookup_sample : sample.LookupLaw "/bin//ls/".toList ↔ "/bin//ls/".toList = ['/'] ∨
    tokens ['/'] "/bin//ls/".toList ≠ [] ∧ sample.Through sample.entries (tokens ['/'] "/bin//ls/".toList) :=
  romfs_lookup (by decide) rfl (by decide)

/-- Below a file its own entry is found. -/
theorem file_below_file : ¬ sample.LookupLaw "/readme/x".toList := by
  have hlookup : sample.dfsRomfsLookup "/readme/x".toList = some (3, none) := by decide
  exact fun h => absurd h.2 (by decide)

end Romfs

end RtThread
