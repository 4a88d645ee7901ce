import RtThread.Dfs.MountResolution

/-!
# Aliases

`ofw_alias_scan` and the lookups of `base.c`. An alias keeps its tag as a pointer into the property's name and a length, and a
lookup compares only so many characters of the tag that it is asked for: it takes an alias for every tag that begins with the
alias's own.
-/

namespace RtThread

/-- A property of `/aliases`. -/
structure AliasProp where
  name : CString
  value : List (BitVec 8)

/-- `struct alias_info`. -/
structure AliasInfo where
  id : BitVec 32
  tag : CString
  tagLen : Nat
  np : Nat

/-- `while (*end && (*end >= '0' && *end <= '9') && end > name) --end;` -/
def aliasEnd (name : List Char) : Nat → Nat
  | 0 => 0
  | i + 1 => if name[i + 1]?.any Char.isDigit then aliasEnd name i else i + 1

/-- The loop of `id *= 10;` and `id += (*ch - '0');`. -/
def aliasId (ch : List Char) : BitVec 32 := ch.foldl (fun id ch => id * 10 + BitVec.ofNat 32 (ch.toNat - '0'.toNat)) 0

variable (find : List (BitVec 8) → Option Nat)

/-- `ofw_alias_scan`, with memory for `room` aliases, and `rt_ofw_find_node_by_path`: the list, and the error. -/
def ofwAliasScan : Nat → List AliasProp → List AliasInfo → List AliasInfo × Int
  | _, [], aliases => (aliases, 0)
  | room, prop :: props, aliases =>
    let name := prop.name.chars
    if name = "name".toList ∨ name = "phandle".toList then ofwAliasScan room props aliases
    else
      match find prop.value with
      | none => ofwAliasScan room props aliases
      | some tmp =>
        let last := aliasEnd name (name.length - 1) + 1
        match room with
        | 0 => (aliases, -5)
        | room + 1 => ofwAliasScan room props (⟨aliasId (name.drop last), prop.name, last, tmp⟩ :: aliases)

/-- `!rt_strncmp(info->tag, tag, info->tag_len)` -/
def AliasInfo.hasTag (info : AliasInfo) (tag : CString) : Bool := strncmpEq info.tag tag info.tagLen

def rtOfwGetAliasNode (aliases : List AliasInfo) (tag : Option CString) (id : BitVec 32) : Option Nat :=
  tag.bind fun tag =>
    if 0 ≤ id.toInt then (aliases.find? fun info => info.hasTag tag && info.id = id).map (·.np) else none

def rtOfwGetAliasId (aliases : List AliasInfo) : Option Nat → Option CString → Int
  | some np, some tag => ((aliases.find? fun info => info.hasTag tag && info.np = np).map (·.id.toInt)).getD (-1)
  | _, _ => -10

def rtOfwGetAliasLastId (aliases : List AliasInfo) : Option CString → Int
  | some tag => aliases.foldl (fun id info => if info.hasTag tag && id < info.id.toInt then info.id.toInt else id) (-1)
  | none => -10

/-- A property that resolves to a node, with its name read as a tag and a number. -/
structure NumberedAlias where
  prop : AliasProp
  tag : List Char
  digits : List Char
  node : Nat
  name_eq : prop.name.chars = tag ++ digits
  digits_ne : digits ≠ []
  digits_isDigit : ∀ c ∈ digits, c.isDigit
  tag_last : ∀ c ∈ tag.getLast?, ¬ c.isDigit
  resolves : find prop.value = some node

/-- Of the elements that are looked at, every one that is not right is in front of one that is. -/
def Behind {α : Type} (looked : α → Bool) (right : α → Prop) (l : List α) : Prop :=
  ∀ xs a ys, l = xs ++ a :: ys → looked a → ¬ right a → ∃ b ∈ ys, looked b ∧ right b

/-- So the last one that is looked at is right. -/
theorem behind_iff {α : Type} {looked : α → Bool} {right : α → Prop} {l : List α} :
    (∀ a, l.reverse.find? looked = some a → right a) ↔ Behind looked right l := by
  constructor
  · rintro h xs a ys rfl ha hwrong
    rw [List.reverse_append, List.reverse_cons, List.append_assoc, List.find?_append] at h
    cases hys : ys.reverse.find? looked with
    | some b =>
      rw [hys] at h
      exact ⟨b, List.mem_reverse.1 (List.mem_of_find?_eq_some hys), List.find?_some hys, h b rfl⟩
    | none =>
      rw [hys] at h
      exact absurd (h a (List.find?_cons_of_pos ha)) hwrong
  · intro h a ha
    obtain ⟨hlook, xs, ys, hl, hxs⟩ := List.find?_eq_some_iff_append.1 ha
    by_contra hwrong
    have hsplit : l = ys.reverse ++ a :: xs.reverse := by
      rw [← List.reverse_reverse l, hl]
      simp
    obtain ⟨b, hb, hlook', -⟩ := h _ a _ hsplit hlook hwrong
    have := hxs b (List.mem_reverse.1 hb)
    simp [hlook'] at this

namespace NumberedAlias

variable {find}

def value (digits : List Char) : Nat := digits.foldl (fun n ch => n * 10 + (ch.toNat - '0'.toNat)) 0

def number (a : NumberedAlias find) : Nat := value a.digits

/-- The tag as it is kept: in a name of digits alone, the first digit. -/
def storedTag (a : NumberedAlias find) : List Char := if a.tag = [] then a.digits.take 1 else a.tag

def storedDigits (a : NumberedAlias find) : List Char := if a.tag = [] then a.digits.drop 1 else a.digits

/-- The number as it is kept, in an `int`. -/
def storedId (a : NumberedAlias find) : BitVec 32 := BitVec.ofNat 32 (value a.storedDigits)

def stored (a : NumberedAlias find) : AliasInfo := ⟨a.storedId, a.prop.name, a.storedTag.length, a.node⟩

variable (as : List (NumberedAlias find)) (aliases : List AliasInfo) (tag : CString)

/-- The alias has exactly the tag. -/
def Tagged (a : NumberedAlias find) : Prop := a ∈ as ∧ a.tag = tag.chars

def NodeLaw (id : BitVec 32) : Prop :=
  match rtOfwGetAliasNode aliases (some tag) id with
  | some np => ∃ a, Tagged as tag a ∧ (a.number : Int) = id.toInt ∧ a.node = np
  | none => ∀ a, Tagged as tag a → (a.number : Int) ≠ id.toInt

def IdLaw (np : Nat) : Prop :=
  (rtOfwGetAliasId aliases (some np) (some tag) = -1 ∧ ∀ a, Tagged as tag a → a.node ≠ np) ∨
    ∃ a, Tagged as tag a ∧ a.node = np ∧ (a.number : Int) = rtOfwGetAliasId aliases (some np) (some tag)

def LastLaw : Prop :=
  (rtOfwGetAliasLastId aliases (some tag) = -1 ∧ ∀ a, ¬ Tagged as tag a) ∨
    ∃ a, Tagged as tag a ∧ (a.number : Int) = rtOfwGetAliasLastId aliases (some tag) ∧
      ∀ b, Tagged as tag b → b.number ≤ a.number

/-- The aliases that a lookup takes for the tag, the last property first. -/
def taken : List (NumberedAlias find) := as.reverse.filter fun a => a.storedTag <+: tag.chars

/-- An alias with a prefix of the tag and with the number leads to the node of one with exactly the tag, or is in front of one
that does. -/
def NodeFits (id : BitVec 32) : Prop :=
  (0 ≤ id.toInt → Behind (fun a => decide (a.storedTag <+: tag.chars) && decide (a.storedId = id))
    (fun a => ∃ b, Tagged as tag b ∧ (b.number : Int) = id.toInt ∧ b.node = a.node) as) ∧
  (tag.chars = [] → ∀ b, Tagged as tag b → (b.number : Int) ≠ id.toInt)

/-- An alias with a prefix of the tag and with the node has the number of one with exactly the tag, or is in front of one that
has. -/
def IdFits (np : Nat) : Prop :=
  Behind (fun a => decide (a.storedTag <+: tag.chars) && decide (a.node = np))
    (fun a => (a.storedId.toInt = -1 ∧ ∀ b, Tagged as tag b → b.node ≠ np) ∨
      ∃ b, Tagged as tag b ∧ b.node = np ∧ (b.number : Int) = a.storedId.toInt) as ∧
  (tag.chars = [] → ∀ b, Tagged as tag b → b.node ≠ np)

/-- No alias taken has a larger number than all with the tag. -/
def LastFits : Prop :=
  ((∀ a, ¬ Tagged as tag a) ∧ ∀ a ∈ taken as tag, a.storedId.toInt < 0) ∨
    ∃ b, Tagged as tag b ∧ tag.chars ≠ [] ∧ b.number < 2 ^ 31 ∧ (∀ a, Tagged as tag a → a.number ≤ b.number) ∧
      ∀ a ∈ taken as tag, a.storedId.toInt ≤ b.number

variable {as aliases tag} {a : NumberedAlias find} {room : Nat} {id : BitVec 32} {np : Nat}

/-! ## The scan -/

theorem aliasEnd_append {g ds : List Char} {c : Char} (hc : g = [] ∨ ¬ c.isDigit) (hds : ∀ c ∈ ds, c.isDigit) {k : Nat}
    (hk : k ≤ ds.length) : aliasEnd (g ++ c :: ds) (g.length + k) = g.length := by
  induction k with
  | zero =>
    cases hlen : g.length with
    | zero => rfl
    | succ n =>
      have hc := hc.resolve_left (by rintro rfl; cases hlen)
      rw [Nat.add_zero, aliasEnd, ← hlen, List.getElem?_append_right (Nat.le_refl _), Nat.sub_self, List.getElem?_cons_zero,
        Option.any_some, if_neg hc]
  | succ k ih =>
    rw [← Nat.add_assoc, aliasEnd, if_pos, ih (by omega)]
    rw [List.getElem?_append_right (by omega), show g.length + k + 1 - g.length = k + 1 by omega, List.getElem?_cons_succ,
      List.getElem?_eq_getElem (by omega)]
    exact hds _ (List.getElem_mem _)

theorem stored_spec (a : NumberedAlias find) :
    ∃ g c, a.storedTag = g ++ [c] ∧ (g = [] ∨ ¬ c.isDigit) ∧ a.prop.name.chars = g ++ c :: a.storedDigits ∧
      ∀ c ∈ a.storedDigits, c.isDigit := by
  unfold storedTag storedDigits
  rw [a.name_eq]
  by_cases htag : a.tag = []
  · obtain ⟨d, ds, hd⟩ := List.exists_cons_of_ne_nil a.digits_ne
    rw [if_pos htag, if_pos htag, htag, hd]
    exact ⟨[], d, rfl, .inl rfl, rfl, fun c hc => a.digits_isDigit c (hd ▸ List.mem_cons_of_mem d hc)⟩
  · have hlast : a.tag.dropLast ++ [a.tag.getLast htag] = a.tag := List.dropLast_append_getLast htag
    rw [if_neg htag, if_neg htag]
    refine ⟨a.tag.dropLast, a.tag.getLast htag, hlast.symm, .inr ?_, ?_, a.digits_isDigit⟩
    · exact a.tag_last _ (List.getLast?_eq_some_getLast htag)
    · conv_lhs => rw [← hlast]
      rw [List.append_assoc, List.singleton_append]

theorem aliasId_eq (ds : List Char) : aliasId ds = BitVec.ofNat 32 (value ds) := by
  have hfold : ∀ n : Nat, ds.foldl (fun id ch => id * 10 + BitVec.ofNat 32 (ch.toNat - '0'.toNat)) (BitVec.ofNat 32 n) =
      BitVec.ofNat 32 (ds.foldl (fun n ch => n * 10 + (ch.toNat - '0'.toNat)) n) := by
    induction ds with
    | nil => exact fun _ => rfl
    | cons d ds ih =>
      intro n
      rw [List.foldl_cons, List.foldl_cons, ← ih, BitVec.ofNat_add, BitVec.ofNat_mul]
      rfl
  exact hfold 0

/-- A tag and a number are kept as they are stored. -/
theorem stored_eq (a : NumberedAlias find) :
    (⟨aliasId (a.prop.name.chars.drop (aliasEnd a.prop.name.chars (a.prop.name.chars.length - 1) + 1)), a.prop.name,
      aliasEnd a.prop.name.chars (a.prop.name.chars.length - 1) + 1, a.node⟩ : AliasInfo) = a.stored := by
  obtain ⟨g, c, htag, hc, hname, hds⟩ := a.stored_spec
  have hlast : aliasEnd a.prop.name.chars (a.prop.name.chars.length - 1) = g.length := by
    rw [hname]
    simpa using aliasEnd_append hc hds (Nat.le_refl _)
  have hdrop : a.prop.name.chars.drop (g.length + 1) = a.storedDigits := by simp [hname]
  simp only [hlast, hdrop, aliasId_eq, stored, storedId, htag, List.length_append, List.length_singleton]

theorem ofwAliasScan_eq {l : List AliasInfo} (h : ofwAliasScan find room (as.map prop) l = (aliases, 0)) :
    aliases = as.reverse.map stored ++ l := by
  induction as generalizing room l with
  | nil =>
    cases h
    rfl
  | cons a as ih =>
    have hskip : ¬ (a.prop.name.chars = "name".toList ∨ a.prop.name.chars = "phandle".toList) := by
      have hmem := a.digits_isDigit _ (List.getLast_mem a.digits_ne)
      have hlast : a.prop.name.chars.getLast? = some (a.digits.getLast a.digits_ne) := by
        rw [a.name_eq, List.getLast?_append, List.getLast?_eq_some_getLast a.digits_ne, Option.some_or]
      rintro (heq | heq)
      · rw [heq] at hlast
        exact absurd (Option.some.inj hlast ▸ hmem) (by decide)
      · rw [heq] at hlast
        exact absurd (Option.some.inj hlast ▸ hmem) (by decide)
    rw [List.map_cons, ofwAliasScan] at h
    simp only [if_neg hskip, a.resolves] at h
    cases room with
    | zero => cases h
    | succ room =>
      simp only [a.stored_eq] at h
      rw [ih h, List.reverse_cons, List.map_append, List.append_assoc, List.map_singleton, List.singleton_append]

/-! ## The lookups -/

theorem hasTag_stored : a.stored.hasTag tag = decide (a.storedTag <+: tag.chars) := by
  obtain ⟨g, c, htag, -, hname, -⟩ := a.stored_spec
  have hname' : a.prop.name.chars = a.storedTag ++ a.storedDigits := by rw [hname, htag]; simp
  have htake : a.prop.name.chars.take a.storedTag.length = a.storedTag := by rw [hname', List.take_left]
  have hlen : a.storedTag.length ≤ a.prop.name.strlen := by
    show _ ≤ a.prop.name.chars.length
    rw [hname', List.length_append]
    omega
  rw [Bool.eq_iff_iff, decide_eq_true_iff, ← htake]
  exact strncmpEq_iff hlen

theorem find_stored (p : AliasInfo → Bool) :
    (as.reverse.map stored).find? (fun info => info.hasTag tag && p info) =
      (as.reverse.find? fun a => decide (a.storedTag <+: tag.chars) && p a.stored).map stored := by
  rw [List.find?_map]
  congr 2
  funext a
  rw [Function.comp, hasTag_stored]

/-- No stored tag is empty. -/
theorem tag_ne_nil (h : a.storedTag <+: tag.chars) : tag.chars ≠ [] := by
  intro htag
  obtain ⟨g, c, hstored, -⟩ := a.stored_spec
  rw [htag, List.prefix_nil, hstored] at h
  simp at h

/-- An alias is taken for its own tag. -/
theorem Tagged.mem_taken (h : Tagged as tag a) (htag : tag.chars ≠ []) :
    a ∈ taken as tag ∧ a.storedId = BitVec.ofNat 32 a.number := by
  have hne : a.tag ≠ [] := fun e => htag (h.2 ▸ e)
  refine ⟨List.mem_filter.2 ⟨List.mem_reverse.2 h.1, ?_⟩, ?_⟩
  · rw [storedTag, if_neg hne, h.2]
    exact decide_eq_true (List.prefix_refl _)
  · rw [storedId, storedDigits, if_neg hne, number]

theorem nodeLaw_iff (h : aliases = as.reverse.map stored) : NodeLaw as aliases tag id ↔ NodeFits as tag id := by
  have hcall : rtOfwGetAliasNode aliases (some tag) id =
      if 0 ≤ id.toInt then (as.reverse.find? fun a => decide (a.storedTag <+: tag.chars) && decide (a.storedId = id)).map node
      else none := by
    rw [rtOfwGetAliasNode, h, Option.bind_some, find_stored (fun info => info.id = id), Option.map_map]
    rfl
  unfold NodeLaw NodeFits
  rw [hcall]
  by_cases hid : 0 ≤ id.toInt
  · rw [if_pos hid]
    rw [← behind_iff]
    cases hfound : as.reverse.find? fun a => decide (a.storedTag <+: tag.chars) && decide (a.storedId = id) with
    | some a =>
      have hlooked := List.find?_some hfound
      rw [Bool.and_eq_true, decide_eq_true_iff] at hlooked
      dsimp only [Option.map_some]
      constructor
      · intro hlaw
        exact ⟨fun _ b hb => Option.some.inj hb ▸ hlaw, fun e => absurd e (tag_ne_nil hlooked.1)⟩
      · exact fun hfits => hfits.1 hid a rfl
    | none =>
      dsimp only [Option.map_none]
      constructor
      · exact fun hlaw => ⟨fun _ b hb => (by cases hb), fun _ => hlaw⟩
      · intro hfits b hb hnum
        by_cases htag : tag.chars = []
        · exact hfits.2 htag b hb hnum
        · obtain ⟨hmem, hstored⟩ := hb.mem_taken htag
          obtain ⟨hmem, hpre⟩ := List.mem_filter.1 hmem
          refine List.find?_eq_none.1 hfound b hmem (Bool.and_eq_true_iff.2 ⟨hpre, decide_eq_true ?_⟩)
          rw [hstored, ← BitVec.ofInt_natCast, hnum, BitVec.ofInt_toInt]
  · rw [if_neg hid]
    exact iff_of_true (fun b _ => by omega) ⟨fun h => absurd h hid, fun _ b _ => by omega⟩

theorem idLaw_iff (h : aliases = as.reverse.map stored) : IdLaw as aliases tag np ↔ IdFits as tag np := by
  have hcall : rtOfwGetAliasId aliases (some np) (some tag) =
      ((as.reverse.find? fun a => decide (a.storedTag <+: tag.chars) && decide (a.node = np)).map
        (·.storedId.toInt)).getD (-1) := by
    rw [rtOfwGetAliasId, h, find_stored (fun info => info.np = np), Option.map_map]
    rfl
  unfold IdLaw IdFits
  rw [hcall]
  rw [← behind_iff]
  cases hfound : as.reverse.find? fun a => decide (a.storedTag <+: tag.chars) && decide (a.node = np) with
  | some a =>
    have hlooked := List.find?_some hfound
    rw [Bool.and_eq_true, decide_eq_true_iff] at hlooked
    dsimp only [Option.map_some, Option.getD_some]
    constructor
    · intro hlaw
      exact ⟨fun b hb => Option.some.inj hb ▸ hlaw, fun e => absurd e (tag_ne_nil hlooked.1)⟩
    · exact fun hfits => hfits.1 a rfl
  | none =>
    dsimp only [Option.map_none, Option.getD_none]
    constructor
    · rintro (⟨-, hlaw⟩ | ⟨b, -, -, hneg⟩)
      · exact ⟨fun b hb => (by cases hb), fun _ => hlaw⟩
      · omega
    · intro hfits
      refine .inl ⟨rfl, fun b hb hnp => ?_⟩
      by_cases htag : tag.chars = []
      · exact hfits.2 htag b hb hnp
      · obtain ⟨hmem, hpre⟩ := List.mem_filter.1 (hb.mem_taken htag).1
        exact List.find?_eq_none.1 hfound b hmem (Bool.and_eq_true_iff.2 ⟨hpre, decide_eq_true hnp⟩)

/-- The loop ends with the largest number that it took. -/
theorem lastId_spec (l : List AliasInfo) (m : Int) {r : Int}
    (hr : l.foldl (fun id info => if info.hasTag tag && id < info.id.toInt then info.id.toInt else id) m = r) :
    m ≤ r ∧ (∀ info ∈ l, info.hasTag tag → info.id.toInt ≤ r) ∧ (r = m ∨ ∃ info ∈ l, info.hasTag tag ∧ info.id.toInt = r) := by
  induction l generalizing m with
  | nil => exact ⟨Int.le_of_eq hr, fun info hinfo => absurd hinfo List.not_mem_nil, .inl hr.symm⟩
  | cons info l ih =>
    rw [List.foldl_cons] at hr
    by_cases htake : info.hasTag tag && m < info.id.toInt
    · rw [if_pos htake] at hr
      rw [Bool.and_eq_true, decide_eq_true_iff] at htake
      obtain ⟨hle, hall, hr⟩ := ih info.id.toInt hr
      refine ⟨by omega, List.forall_mem_cons.2 ⟨fun _ => hle, hall⟩, .inr ?_⟩
      rcases hr with hr | ⟨x, hx, hr⟩
      · exact ⟨info, List.mem_cons_self, htake.1, hr.symm⟩
      · exact ⟨x, List.mem_cons_of_mem _ hx, hr⟩
    · rw [if_neg htake] at hr
      rw [Bool.and_eq_true, decide_eq_true_iff] at htake
      obtain ⟨hle, hall, hr⟩ := ih m hr
      refine ⟨hle, List.forall_mem_cons.2 ⟨fun htag => ?_, hall⟩, hr.imp id ?_⟩
      · have hnot : ¬ m < info.id.toInt := fun hlt => htake ⟨htag, hlt⟩
        omega
      · rintro ⟨x, hx, hr⟩
        exact ⟨x, List.mem_cons_of_mem _ hx, hr⟩

theorem lastLaw_iff (h : aliases = as.reverse.map stored) : LastLaw as aliases tag ↔ LastFits as tag := by
  obtain ⟨hle, hall, hr⟩ := lastId_spec aliases (-1) (show _ = rtOfwGetAliasLastId aliases (some tag) from rfl)
  have hmem (p : AliasInfo → Prop) : (∃ info ∈ aliases, info.hasTag tag ∧ p info) ↔ ∃ a ∈ taken as tag, p a.stored := by
    simp only [h, List.mem_map, taken, List.mem_filter, exists_exists_and_eq_and, hasTag_stored, and_assoc]
  unfold LastLaw LastFits
  generalize rtOfwGetAliasLastId aliases (some tag) = r at *
  have hall' : ∀ a ∈ taken as tag, a.storedId.toInt ≤ r := by
    intro a ha
    obtain ⟨info, hinfo, htag, rfl⟩ := (hmem (· = a.stored)).2 ⟨a, ha, rfl⟩
    exact hall _ hinfo htag
  have hr' : r = -1 ∨ ∃ a ∈ taken as tag, a.storedId.toInt = r := hr.imp id (hmem (·.id.toInt = r)).1
  constructor
  · rintro (⟨rfl, hnone⟩ | ⟨b, hb, rfl, hmax⟩)
    · exact .inl ⟨hnone, fun a ha => by have := hall' a ha; omega⟩
    · obtain ⟨a, ha, heq⟩ := hr'.resolve_left (by omega)
      have htag : tag.chars ≠ [] := tag_ne_nil (of_decide_eq_true (List.mem_filter.1 ha).2)
      have hlt := a.storedId.toInt_lt
      exact .inr ⟨b, hb, htag, by omega, hmax, hall'⟩
  · rintro (⟨hnone, hneg⟩ | ⟨b, hb, htag, hlt, hmax, hle'⟩)
    · refine .inl ⟨?_, hnone⟩
      rcases hr' with hr' | ⟨a, ha, heq⟩
      · exact hr'
      · have := hneg a ha
        omega
    · obtain ⟨hb', hstored⟩ := hb.mem_taken htag
      have hge := hall' b hb'
      have hnum : b.storedId.toInt = b.number := by
        have hmod : (BitVec.ofNat 32 b.number).toNat = b.number := Nat.mod_eq_of_lt (by omega)
        rw [hstored, BitVec.toInt_eq_toNat_of_lt (by omega), hmod]
      refine .inr ⟨b, hb, ?_, hmax⟩
      rcases hr' with rfl | ⟨a, ha, heq⟩
      · omega
      · have := hle' a ha
        omega

/-- Each lookup does what its name says if and only if the aliases that it takes for the tag do no harm. -/
theorem alias_lookups (h : ofwAliasScan find room (as.map prop) [] = (aliases, 0)) :
    (NodeLaw as aliases tag id ↔ NodeFits as tag id) ∧ (IdLaw as aliases tag np ↔ IdFits as tag np) ∧
      (LastLaw as aliases tag ↔ LastFits as tag) := by
  have haliases := ofwAliasScan_eq h
  rw [List.append_nil] at haliases
  exact ⟨nodeLaw_iff haliases, idLaw_iff haliases, lastLaw_iff haliases⟩

/-- `serial0`, which resolves to the node that its value has the number of. -/
def serial0 : NumberedAlias fun v => v.head?.map BitVec.toNat where
  prop := ⟨⟨"serial0".toList, by decide⟩, [7]⟩
  tag := "serial".toList
  digits := ['0']
  node := 7
  name_eq := rfl
  digits_ne := List.cons_ne_nil _ _
  digits_isDigit := by simp [Char.isDigit]
  tag_last := by simp
  resolves := rfl

theorem alias_lookups_serial :
    (NodeLaw [serial0] [stored serial0] ⟨"serial".toList, by decide⟩ 0 ↔ NodeFits [serial0] ⟨"serial".toList, by decide⟩ 0) ∧
    (IdLaw [serial0] [stored serial0] ⟨"serial".toList, by decide⟩ 7 ↔ IdFits [serial0] ⟨"serial".toList, by decide⟩ 7) ∧
    (LastLaw [serial0] [stored serial0] ⟨"serial".toList, by decide⟩ ↔ LastFits [serial0] ⟨"serial".toList, by decide⟩) :=
  alias_lookups (show ofwAliasScan _ 1 ([serial0].map prop) [] = ([stored serial0], 0) from rfl)

/-- Without an alias of the tag `serialx`, number 0 of it is `serial0`. -/
theorem prefix_tag_found : ∃ aliases, ofwAliasScan (fun v => v.head?.map BitVec.toNat) 1 [serial0.prop] [] = (aliases, 0) ∧
    ¬ NodeLaw [serial0] aliases ⟨"serialx".toList, by decide⟩ 0 := by
  refine ⟨[stored serial0], rfl, fun h => ?_⟩
  obtain ⟨a, ⟨hmem, htag⟩, -⟩ := h
  obtain rfl := List.mem_singleton.1 hmem
  exact absurd htag (by decide)

end NumberedAlias

end RtThread
