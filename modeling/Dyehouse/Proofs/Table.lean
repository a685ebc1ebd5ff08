import Dyehouse.Table

/-!
# More laws of tables

The laws that the invariants of registries and sheets rest on.  A table in which no name
stands twice holds exactly its entries; tables get into that shape because they are only
ever written through `alter`, which keeps it.
-/

namespace Dyehouse.Table

variable {α : Type}

/-! ### Entries and values -/

theorem mem_of_lookup_eq_some {name : Text} {value : α} {entries : List (Text × α)}
    (h : entries.lookup name = some value) : (name, value) ∈ entries := by
  obtain ⟨before, after, rfl, -⟩ := List.lookup_eq_some_iff.mp h
  simp

theorem lookup_eq_some_of_mem {name : Text} {value : α} {entries : List (Text × α)}
    (hnodup : (entries.map Prod.fst).Nodup) (h : (name, value) ∈ entries) :
    entries.lookup name = some value := by
  induction entries with
  | nil => cases h
  | cons entry rest ih =>
    rw [List.map_cons, List.nodup_cons] at hnodup
    rcases List.mem_cons.mp h with rfl | hrest
    · exact List.lookup_cons_self
    · have hne : entry.1 ≠ name := by
        intro he
        exact hnodup.1 (he ▸ List.mem_map_of_mem hrest)
      rw [lookup_cons, if_neg hne]
      exact ih hnodup.2 hrest

theorem get?_eq_some_iff {t : Table α} (hnodup : t.names.Nodup) {name : Text} {value : α} :
    t.get? name = some value ↔ (name, value) ∈ t.entries := by
  rw [get?_eq_lookup]
  exact ⟨mem_of_lookup_eq_some, lookup_eq_some_of_mem hnodup⟩

theorem mem_of_get?_eq_some {t : Table α} {name : Text} {value : α}
    (h : t.get? name = some value) : (name, value) ∈ t.entries :=
  mem_of_lookup_eq_some (get?_eq_lookup t name ▸ h)

theorem mem_names_iff {t : Table α} {name : Text} :
    name ∈ t.names ↔ ∃ value, t.get? name = some value := by
  rw [← Option.isSome_iff_exists, Option.isSome_iff_ne_none, Ne, get?_eq_none_iff, Classical.not_not]

/-- A table in which no name stands twice agrees with itself. -/
theorem agrees_self [DecidableEq α] {t : Table α} (hnodup : t.names.Nodup) :
    t.agrees t = true := by
  rw [agrees, Bool.and_eq_true]
  refine ⟨by simp, ?_⟩
  rw [Array.all_eq_true_iff_forall_mem]
  intro entry hentry
  have hget : t.get? entry.1 = some entry.2 :=
    (get?_eq_some_iff hnodup).mpr (Array.mem_toList_iff.mpr hentry)
  simp [hget]

/-! ### What a write does to a property of all entries -/

theorem forall_mem_revise {P : α → Prop} {f : Option α → α} {name : Text}
    {entries : List (Text × α)} (h : ∀ entry ∈ entries, P entry.2) (hnew : P (f none))
    (hold : ∀ value, P value → P (f (some value))) :
    ∀ entry ∈ revise name f entries, P entry.2 := by
  induction entries with
  | nil =>
    intro entry hentry
    obtain rfl := List.mem_singleton.mp hentry
    exact hnew
  | cons first rest ih =>
    have hfirst := h first List.mem_cons_self
    have hrest : ∀ entry ∈ rest, P entry.2 := fun entry he =>
      h entry (List.mem_cons_of_mem _ he)
    intro entry hentry
    by_cases hname : first.1 = name
    · rw [revise, if_pos hname] at hentry
      rcases List.mem_cons.mp hentry with rfl | he
      · exact hold _ hfirst
      · exact hrest entry he
    · rw [revise, if_neg hname] at hentry
      rcases List.mem_cons.mp hentry with rfl | he
      · exact hfirst
      · exact ih hrest entry he

/-- A property that all values have, and that a write gives or keeps, all values still have
    after the write. -/
theorem forall_mem_alter {P : α → Prop} {t : Table α} {f : Option α → α} {name : Text}
    (h : ∀ entry ∈ t.entries, P entry.2) (hnew : P (f none))
    (hold : ∀ value, P value → P (f (some value))) :
    ∀ entry ∈ (t.alter name f).entries, P entry.2 := by
  rw [entries_alter]
  exact forall_mem_revise h hnew hold

theorem entries_alter_ne_nil (t : Table α) (name : Text) (f : Option α → α) :
    (t.alter name f).entries ≠ [] := by
  rw [entries_alter]
  cases t.entries with
  | nil => simp [revise]
  | cons entry rest =>
    by_cases h : entry.1 = name
    · simp [revise, h]
    · simp [revise, h]

/-! ### Tables whose names have a property -/

/-- A table in which no name stands twice and every name has the property `P`. -/
structure Keyed (P : Text → Prop) (t : Table α) : Prop where
  nodup : t.names.Nodup
  names : ∀ name ∈ t.names, P name

theorem keyed_empty {P : Text → Prop} : Keyed P (∅ : Table α) where
  nodup := List.nodup_nil
  names := by
    intro name hname
    cases hname

theorem Keyed.alter {P : Text → Prop} {t : Table α} (h : t.Keyed P) {name : Text} (hname : P name)
    (f : Option α → α) : (t.alter name f).Keyed P where
  nodup := nodup_names_alter h.nodup name f
  names := by
    intro other hother
    rw [names_alter] at hother
    split at hother
    · exact h.names other hother
    · rcases List.mem_append.mp hother with hold | hnew
      · exact h.names other hold
      · rwa [List.mem_singleton.mp hnew]

/-! ### Tables with the same names and values -/

theorem entries_eq_of_lookup {entries others : List (Text × α)}
    (hnodup : (entries.map Prod.fst).Nodup)
    (hnames : entries.map Prod.fst = others.map Prod.fst)
    (hlookup : ∀ name, entries.lookup name = others.lookup name) : entries = others := by
  induction entries generalizing others with
  | nil => exact (List.map_eq_nil_iff.mp hnames.symm).symm
  | cons entry rest ih =>
    cases others with
    | nil => cases hnames
    | cons other more =>
      rw [List.map_cons, List.map_cons, List.cons.injEq] at hnames
      rw [List.map_cons, List.nodup_cons] at hnodup
      have hfirst := hlookup entry.1
      rw [lookup_cons, if_pos rfl, lookup_cons, if_pos hnames.1.symm] at hfirst
      have hentry : entry = other := Prod.ext hnames.1 (Option.some.inj hfirst)
      subst hentry
      refine congrArg (entry :: ·) (ih hnodup.2 hnames.2 ?_)
      intro name
      by_cases hname : entry.1 = name
      · -- the name stands in front already, and so in neither rest
        have hrest : ∀ {list : List (Text × α)}, list.map Prod.fst = rest.map Prod.fst →
            list.lookup name = none := by
          intro list hlist
          cases hvalue : list.lookup name with
          | none => rfl
          | some value =>
            have hmem := List.mem_map_of_mem (f := Prod.fst) (mem_of_lookup_eq_some hvalue)
            rw [hlist, ← hname] at hmem
            exact absurd hmem hnodup.1
        rw [hrest rfl, hrest hnames.2.symm]
      · have hlater := hlookup name
        rwa [lookup_cons, if_neg hname, lookup_cons, if_neg hname] at hlater

/-- Two tables in which no name stands twice are the same if they have the same names in the
    same order and the same values under them. -/
theorem ext_get? {t u : Table α} (hnodup : t.names.Nodup) (hnames : t.names = u.names)
    (hget : ∀ name, t.get? name = u.get? name) : t = u := by
  refine ext (entries_eq_of_lookup hnodup hnames ?_)
  intro name
  rw [← get?_eq_lookup, ← get?_eq_lookup]
  exact hget name

/-! ### Single writes -/

/-- A write under a new name adds an entry at the end. -/
theorem entries_alter_of_not_mem {t : Table α} {name : Text} (h : name ∉ t.names)
    (f : Option α → α) : (t.alter name f).entries = t.entries ++ [(name, f none)] := by
  rw [entries_alter, revise_of_idxOf?_eq_none]
  exact List.idxOf?_eq_none_iff.mpr h

theorem revise_eq_revise_lookup (name : Text) (f : Option α → α) (entries : List (Text × α)) :
    revise name f entries = revise name (fun _ => f (entries.lookup name)) entries := by
  induction entries with
  | nil => rfl
  | cons entry rest ih =>
    by_cases h : entry.1 = name
    · simp [revise, lookup_cons, h]
    · simp only [revise, lookup_cons, h, if_false]
      rw [ih]

theorem alter_eq_insert (t : Table α) (name : Text) (f : Option α → α) :
    t.alter name f = t.insert name (f (t.get? name)) := by
  refine ext ?_
  rw [insert, entries_alter, entries_alter, get?_eq_lookup]
  exact revise_eq_revise_lookup name f t.entries

theorem revise_eq_self {name : Text} {value : α} {entries : List (Text × α)}
    (h : entries.lookup name = some value) : revise name (fun _ => value) entries = entries := by
  induction entries with
  | nil => cases h
  | cons entry rest ih =>
    by_cases he : entry.1 = name
    · rw [lookup_cons, if_pos he] at h
      cases h
      rw [revise, if_pos he]
    · rw [lookup_cons, if_neg he] at h
      rw [revise, if_neg he, ih h]

/-- Putting in what is there already makes no difference. -/
theorem insert_eq_self {t : Table α} {name : Text} {value : α} (h : t.get? name = some value) :
    t.insert name value = t := by
  refine ext ?_
  rw [insert, entries_alter]
  exact revise_eq_self (get?_eq_lookup t name ▸ h)

/-! ### Several writes -/

theorem revise_revise (name : Text) (f g : Option α → α) (entries : List (Text × α)) :
    revise name g (revise name f entries) = revise name (fun x => g (some (f x))) entries := by
  induction entries with
  | nil => simp [revise]
  | cons entry rest ih =>
    by_cases h : entry.1 = name
    · simp [revise, h]
    · simp [revise, h, ih]

theorem alter_alter (t : Table α) (name : Text) (f g : Option α → α) :
    (t.alter name f).alter name g = t.alter name fun x => g (some (f x)) := by
  refine ext ?_
  simp only [entries_alter, revise_revise]

/-- The same write under every one of some names, one after the other. -/
def alterEach (t : Table α) (names : List Text) (f : Option α → α) : Table α :=
  names.foldl (fun t name => t.alter name f) t

theorem alterEach_cons (t : Table α) (name : Text) (rest : List Text) (f : Option α → α) :
    t.alterEach (name :: rest) f = (t.alter name f).alterEach rest f := rfl

theorem nodup_names_alterEach {t : Table α} (h : t.names.Nodup) (names : List Text)
    (f : Option α → α) : (t.alterEach names f).names.Nodup := by
  induction names generalizing t with
  | nil => exact h
  | cons name rest ih => exact ih (nodup_names_alter h name f)

theorem names_alterEach_congr {t u : Table α} (h : t.names = u.names) (names : List Text)
    (f g : Option α → α) : (t.alterEach names f).names = (u.alterEach names g).names := by
  induction names generalizing t u with
  | nil => exact h
  | cons name rest ih =>
    refine ih ?_
    rw [names_alter, names_alter, h]

theorem names_alterEach_of_subset {t : Table α} {names : List Text} (h : names ⊆ t.names)
    (f : Option α → α) : (t.alterEach names f).names = t.names := by
  induction names generalizing t with
  | nil => rfl
  | cons name rest ih =>
    rw [List.cons_subset] at h
    have hkeep : (t.alter name f).names = t.names := by rw [names_alter, if_pos h.1]
    rw [alterEach_cons, ih (hkeep ▸ h.2), hkeep]

/-- Writing the same twice under one name makes no difference if it makes none to the value;
    so however often a name comes, it counts once. -/
theorem get?_alterEach {f : Option α → α} (hf : ∀ x, f (some (f x)) = f x) (t : Table α)
    (names : List Text) (name : Text) :
    (t.alterEach names f).get? name =
      if name ∈ names then some (f (t.get? name)) else t.get? name := by
  induction names generalizing t with
  | nil => rfl
  | cons first rest ih =>
    rw [alterEach_cons, ih, get?_alter]
    by_cases hfirst : name = first
    · subst hfirst
      simp [hf]
    · simp [hfirst]

theorem subset_names_alterEach (t : Table α) (names : List Text) (f : Option α → α) :
    t.names ⊆ (t.alterEach names f).names ∧ names ⊆ (t.alterEach names f).names := by
  induction names generalizing t with
  | nil => exact ⟨List.Subset.refl _, List.nil_subset _⟩
  | cons first rest ih =>
    obtain ⟨hold, hrest⟩ := ih (t.alter first f)
    have hfirst : first ∈ (t.alter first f).names := by
      rw [mem_names_iff, get?_alter_self]
      exact ⟨_, rfl⟩
    have hkeep : t.names ⊆ (t.alter first f).names := by
      rw [names_alter]
      split
      · exact List.Subset.refl _
      · exact List.subset_append_left _ _
    exact ⟨List.Subset.trans hkeep hold, List.cons_subset.mpr ⟨hold hfirst, hrest⟩⟩

/-- Two rounds of writes under the same names are one round of the two writes together. -/
theorem alterEach_alterEach {t : Table α} (hnodup : t.names.Nodup) {f g h : Option α → α}
    (hf : ∀ x, f (some (f x)) = f x) (hg : ∀ x, g (some (g x)) = g x)
    (hh : ∀ x, h (some (h x)) = h x) (hgf : ∀ x, g (some (f x)) = h x) (names : List Text) :
    (t.alterEach names f).alterEach names g = t.alterEach names h := by
  refine ext_get? (nodup_names_alterEach (nodup_names_alterEach hnodup names f) names g) ?_ ?_
  · rw [names_alterEach_of_subset (subset_names_alterEach t names f).2]
    exact names_alterEach_congr rfl names f h
  · intro name
    rw [get?_alterEach hg, get?_alterEach hf, get?_alterEach hh]
    by_cases hname : name ∈ names
    · simp [hname, hgf]
    · simp [hname]

/-! ### Writes under names of their own -/

/-- Writes one after the other, each with the name that it is made under. -/
def alterAll (t : Table α) (writes : List (Text × (Option α → α))) : Table α :=
  writes.foldl (fun t write => t.alter write.1 write.2) t

theorem alterAll_cons (t : Table α) (write : Text × (Option α → α))
    (rest : List (Text × (Option α → α))) :
    t.alterAll (write :: rest) = (t.alter write.1 write.2).alterAll rest := rfl

theorem alterAll_append (t : Table α) (writes more : List (Text × (Option α → α))) :
    t.alterAll (writes ++ more) = (t.alterAll writes).alterAll more :=
  List.foldl_append

theorem alterEach_eq_alterAll (t : Table α) (names : List Text) (f : Option α → α) :
    t.alterEach names f = t.alterAll (names.map fun name => (name, f)) := by
  rw [alterAll, List.foldl_map]
  rfl

theorem map_fst_map_pair (names : List Text) (f : Option α → α) :
    (names.map fun name => (name, f)).map Prod.fst = names := by
  simp [Function.comp_def]

theorem get?_alterAll_of_not_mem {writes : List (Text × (Option α → α))} {name : Text}
    (h : name ∉ writes.map Prod.fst) (t : Table α) :
    (t.alterAll writes).get? name = t.get? name := by
  induction writes generalizing t with
  | nil => rfl
  | cons write rest ih =>
    rw [List.map_cons, List.mem_cons, not_or] at h
    rw [alterAll_cons, ih h.2, get?_alter_of_ne _ h.1]

theorem get?_alterAll_of_mem {writes : List (Text × (Option α → α))}
    (hnodup : (writes.map Prod.fst).Nodup) {name : Text} {f : Option α → α}
    (h : (name, f) ∈ writes) (t : Table α) :
    (t.alterAll writes).get? name = some (f (t.get? name)) := by
  induction writes generalizing t with
  | nil => cases h
  | cons write rest ih =>
    rw [List.map_cons, List.nodup_cons] at hnodup
    rw [alterAll_cons]
    rcases List.mem_cons.mp h with rfl | hrest
    · rw [get?_alterAll_of_not_mem hnodup.1, get?_alter_self]
    · have hne : name ≠ write.1 := fun heq => hnodup.1 (heq ▸ List.mem_map_of_mem hrest)
      rw [ih hnodup.2 hrest, get?_alter_of_ne _ hne]

/-- Names that come once each are added in their order, those that are there already apart. -/
theorem names_alterAll {writes : List (Text × (Option α → α))}
    (hnodup : (writes.map Prod.fst).Nodup) (t : Table α) :
    (t.alterAll writes).names =
      t.names ++ (writes.map Prod.fst).filter fun name => name ∉ t.names := by
  induction writes generalizing t with
  | nil => exact (List.append_nil _).symm
  | cons write rest ih =>
    rw [List.map_cons, List.nodup_cons] at hnodup
    rw [alterAll_cons, ih hnodup.2, names_alter, List.map_cons]
    by_cases hmem : write.1 ∈ t.names
    · simp [hmem]
    · have hrest : ((rest.map Prod.fst).filter fun name => name ∉ t.names ++ [write.1]) =
          (rest.map Prod.fst).filter fun name => name ∉ t.names := by
        refine List.filter_congr ?_
        intro name hname
        have hne : name ≠ write.1 := fun heq => hnodup.1 (heq ▸ hname)
        simp [hne]
      rw [if_neg hmem, hrest, List.filter_cons_of_pos (by simpa using hmem), List.append_assoc]
      rfl

/-- The table holds already what each of the writes would leave. -/
def Absorbs (t : Table α) (writes : List (Text × (Option α → α))) : Prop :=
  ∀ write ∈ writes, ∃ value, t.get? write.1 = some value ∧ write.2 (some value) = value

theorem Absorbs.alter_eq {t : Table α} {writes : List (Text × (Option α → α))}
    (h : t.Absorbs writes) {write : Text × (Option α → α)} (hwrite : write ∈ writes) :
    t.alter write.1 write.2 = t := by
  obtain ⟨value, hvalue, hsame⟩ := h write hwrite
  rw [alter_eq_insert, hvalue, hsame]
  exact insert_eq_self hvalue

theorem Absorbs.alterAll_eq {t : Table α} {writes : List (Text × (Option α → α))}
    (h : t.Absorbs writes) : t.alterAll writes = t := by
  induction writes with
  | nil => rfl
  | cons write rest ih =>
    rw [alterAll_cons, h.alter_eq List.mem_cons_self]
    exact ih fun later hlater => h later (List.mem_cons_of_mem _ hlater)

/-- Writes that are the same when made twice are absorbed once they are made. -/
theorem absorbs_alterAll {writes : List (Text × (Option α → α))}
    (hnodup : (writes.map Prod.fst).Nodup)
    (hwrites : ∀ write ∈ writes, ∀ x, write.2 (some (write.2 x)) = write.2 x) (t : Table α) :
    (t.alterAll writes).Absorbs writes := by
  intro write hwrite
  exact ⟨_, get?_alterAll_of_mem hnodup hwrite t, hwrites write hwrite _⟩

theorem get?_alterEach_of_not_mem {names : List Text} {name : Text} (h : name ∉ names)
    (t : Table α) (f : Option α → α) : (t.alterEach names f).get? name = t.get? name := by
  rw [alterEach_eq_alterAll]
  exact get?_alterAll_of_not_mem ((map_fst_map_pair names f).symm ▸ h) t

/-- A write under some names counts once under each of them if each comes once, or if making it
    twice is making it once. -/
theorem get?_alterEach_of_mem {names : List Text} {f : Option α → α}
    (hf : names.Nodup ∨ ∀ x, f (some (f x)) = f x) {name : Text} (h : name ∈ names)
    (t : Table α) : (t.alterEach names f).get? name = some (f (t.get? name)) := by
  rcases hf with hnodup | hf
  · rw [alterEach_eq_alterAll]
    exact get?_alterAll_of_mem ((map_fst_map_pair names f).symm ▸ hnodup)
      (List.mem_map.mpr ⟨name, h, rfl⟩) t
  · rw [get?_alterEach hf, if_pos h]

theorem names_alterEach_of_nodup {names : List Text} (hnodup : names.Nodup) (t : Table α)
    (f : Option α → α) :
    (t.alterEach names f).names = t.names ++ names.filter fun name => name ∉ t.names := by
  rw [alterEach_eq_alterAll, names_alterAll ((map_fst_map_pair names f).symm ▸ hnodup),
    map_fst_map_pair]

/-! ### Writes in each of some tables -/

/-- Writes in each of the tables under some names.  A write is made in all of them before the
    next one, and a table that is not there counts as empty. -/
def alterInEach (t : Table (Table α)) (names : List Text)
    (writes : List (Text × (Option α → α))) : Table (Table α) :=
  writes.foldl (fun t write =>
    t.alterEach names fun inner => (inner.getD ∅).alter write.1 write.2) t

theorem alterInEach_cons (t : Table (Table α)) (names : List Text) (write : Text × (Option α → α))
    (rest : List (Text × (Option α → α))) :
    t.alterInEach names (write :: rest) =
      (t.alterEach names fun inner => (inner.getD ∅).alter write.1 write.2).alterInEach names
        rest := rfl

theorem get?_alterInEach_of_not_mem {names : List Text} {name : Text} (h : name ∉ names)
    (t : Table (Table α)) (writes : List (Text × (Option α → α))) :
    (t.alterInEach names writes).get? name = t.get? name := by
  induction writes generalizing t with
  | nil => rfl
  | cons write rest ih => rw [alterInEach_cons, ih, get?_alterEach_of_not_mem h]

/-- In the end all writes have been made in each of the tables. -/
theorem get?_alterInEach_of_mem {names : List Text} {writes : List (Text × (Option α → α))}
    (hwrites : names.Nodup ∨ ∀ write ∈ writes, ∀ x, write.2 (some (write.2 x)) = write.2 x)
    (hne : writes ≠ []) {name : Text} (h : name ∈ names) (t : Table (Table α)) :
    (t.alterInEach names writes).get? name = some (((t.get? name).getD ∅).alterAll writes) := by
  induction writes generalizing t with
  | nil => exact absurd rfl hne
  | cons write rest ih =>
    have honce : names.Nodup ∨ ∀ inner : Option (Table α),
        ((some ((inner.getD ∅).alter write.1 write.2)).getD ∅).alter write.1 write.2 =
          (inner.getD ∅).alter write.1 write.2 := by
      refine hwrites.imp_right fun hall inner => ?_
      rw [Option.getD_some, alter_alter]
      congr 1
      funext x
      exact hall write List.mem_cons_self x
    rw [alterInEach_cons, alterAll_cons]
    by_cases hlast : rest = []
    · subst hlast
      exact get?_alterEach_of_mem honce h t
    · have hrest := hwrites.imp_right fun hall w hw => hall w (List.mem_cons_of_mem _ hw)
      rw [ih hrest hlast, get?_alterEach_of_mem honce h]
      rfl

theorem names_alterInEach_of_subset {names : List Text} {t : Table (Table α)}
    (h : names ⊆ t.names) (writes : List (Text × (Option α → α))) :
    (t.alterInEach names writes).names = t.names := by
  induction writes generalizing t with
  | nil => rfl
  | cons write rest ih =>
    have hkeep := names_alterEach_of_subset h fun inner : Option (Table α) =>
      (inner.getD ∅).alter write.1 write.2
    rw [alterInEach_cons, ih (hkeep.symm ▸ h), hkeep]

/-- The first round brings all names, and the later ones find them there. -/
theorem names_alterInEach {names : List Text} (hnodup : names.Nodup) (t : Table (Table α))
    {writes : List (Text × (Option α → α))} (hne : writes ≠ []) :
    (t.alterInEach names writes).names =
      t.names ++ names.filter fun name => name ∉ t.names := by
  obtain ⟨write, rest, rfl⟩ := List.exists_cons_of_ne_nil hne
  rw [alterInEach_cons, names_alterInEach_of_subset (subset_names_alterEach _ _ _).2,
    names_alterEach_of_nodup hnodup]

theorem alterInEach_eq_self {names : List Text} {t : Table (Table α)}
    {writes : List (Text × (Option α → α))}
    (h : ∀ name ∈ names, ∃ inner, t.get? name = some inner ∧ inner.Absorbs writes) :
    t.alterInEach names writes = t := by
  induction writes with
  | nil => rfl
  | cons write rest ih =>
    have hfirst : (t.alterEach names fun inner => (inner.getD ∅).alter write.1 write.2) = t := by
      rw [alterEach_eq_alterAll]
      apply Absorbs.alterAll_eq
      intro w hw
      obtain ⟨name, hname, rfl⟩ := List.mem_map.mp hw
      obtain ⟨inner, hinner, habsorbs⟩ := h name hname
      exact ⟨inner, hinner, habsorbs.alter_eq List.mem_cons_self⟩
    rw [alterInEach_cons, hfirst]
    refine ih ?_
    intro name hname
    obtain ⟨inner, hinner, habsorbs⟩ := h name hname
    exact ⟨inner, hinner, fun w hw => habsorbs w (List.mem_cons_of_mem _ hw)⟩

/-! ### Leaving a name out -/

/-- The table without what stands under a name. -/
def erase (t : Table α) (name : Text) : Table α where
  rows := (t.entries.filter fun entry => entry.1 ≠ name).toArray
  places := Places.ofNames ((t.entries.filter fun entry => entry.1 ≠ name).map Prod.fst)
  places_eq := rfl

theorem entries_erase (t : Table α) (name : Text) :
    (t.erase name).entries = t.entries.filter fun entry => entry.1 ≠ name := rfl

@[simp] theorem erase_empty (name : Text) : (∅ : Table α).erase name = ∅ :=
  ext (by simp [entries_erase])

@[simp] theorem erase_erase (t : Table α) (name : Text) :
    (t.erase name).erase name = t.erase name :=
  ext (by simp [entries_erase])

theorem nodup_names_erase {t : Table α} (h : t.names.Nodup) (name : Text) :
    (t.erase name).names.Nodup := by
  rw [names, entries_erase]
  exact h.sublist (List.filter_sublist.map Prod.fst)

theorem lookup_filter {name other : Text} (h : other ≠ name) (entries : List (Text × α)) :
    (entries.filter fun entry => entry.1 ≠ name).lookup other = entries.lookup other := by
  induction entries with
  | nil => rfl
  | cons entry rest ih =>
    by_cases hname : entry.1 = name
    · have hother : entry.1 ≠ other := fun heq => h (heq.symm.trans hname)
      rw [List.filter_cons_of_neg (by simpa using hname), ih, lookup_cons, if_neg hother]
    · rw [List.filter_cons_of_pos (by simpa using hname), lookup_cons, lookup_cons, ih]

theorem get?_erase_of_ne (t : Table α) {name other : Text} (h : other ≠ name) :
    (t.erase name).get? other = t.get? other := by
  rw [get?_eq_lookup, get?_eq_lookup, entries_erase, lookup_filter h]

theorem filter_revise_self (name : Text) (f : Option α → α) (entries : List (Text × α)) :
    (revise name f entries).filter (fun entry => entry.1 ≠ name) =
      entries.filter fun entry => entry.1 ≠ name := by
  induction entries with
  | nil => simp [revise]
  | cons entry rest ih =>
    by_cases h : entry.1 = name
    · simp [revise, h]
    · rw [revise, if_neg h, List.filter_cons, List.filter_cons, ih]

theorem filter_revise_of_ne {name other : Text} (h : other ≠ name) (f : Option α → α)
    (entries : List (Text × α)) :
    (revise other f entries).filter (fun entry => entry.1 ≠ name) =
      revise other f (entries.filter fun entry => entry.1 ≠ name) := by
  induction entries with
  | nil => simp [revise, h]
  | cons entry rest ih =>
    by_cases hother : entry.1 = other
    · simp [revise, hother, h]
    · by_cases hname : entry.1 = name
      · rw [revise, if_neg hother, List.filter_cons_of_neg (by simpa using hname),
          List.filter_cons_of_neg (by simpa using hname), ih]
      · rw [revise, if_neg hother, List.filter_cons_of_pos (by simpa using hname),
          List.filter_cons_of_pos (by simpa using hname), revise, if_neg hother, ih]

/-- A write under the name that is left out does not show. -/
theorem erase_alter_self (t : Table α) (name : Text) (f : Option α → α) :
    (t.alter name f).erase name = t.erase name := by
  refine ext ?_
  rw [entries_erase, entries_erase, entries_alter, filter_revise_self]

theorem erase_alter_of_ne (t : Table α) {name other : Text} (h : other ≠ name)
    (f : Option α → α) : (t.alter other f).erase name = (t.erase name).alter other f := by
  refine ext ?_
  rw [entries_erase, entries_alter, entries_alter, entries_erase, filter_revise_of_ne h]

/-! ### The values, one by one -/

variable {β : Type}

/-- The table with every value replaced by `f` of it. -/
def map (f : α → β) (t : Table α) : Table β where
  rows := t.rows.map fun entry => (entry.1, f entry.2)
  places := t.places
  places_eq := by simp [t.places_eq, Function.comp_def]

@[simp] theorem entries_map (f : α → β) (t : Table α) :
    (t.map f).entries = t.entries.map fun entry => (entry.1, f entry.2) := by
  simp [entries, map]

@[simp] theorem names_map (f : α → β) (t : Table α) : (t.map f).names = t.names := by
  simp [names, Function.comp_def]

@[simp] theorem map_empty (f : α → β) : (∅ : Table α).map f = ∅ :=
  ext (by simp)

theorem lookup_map (f : α → β) (name : Text) (entries : List (Text × α)) :
    (entries.map fun entry => (entry.1, f entry.2)).lookup name = (entries.lookup name).map f := by
  induction entries with
  | nil => rfl
  | cons entry rest ih =>
    by_cases h : entry.1 = name
    · simp [lookup_cons, h]
    · simp [lookup_cons, h, ih]

theorem get?_map (f : α → β) (t : Table α) (name : Text) :
    (t.map f).get? name = (t.get? name).map f := by
  rw [get?_eq_lookup, get?_eq_lookup, entries_map, lookup_map]

theorem isEmpty_map (f : α → β) (t : Table α) : (t.map f).isEmpty = t.isEmpty := by
  simp [isEmpty_eq]

theorem map_revise {f : α → β} {g : Option α → α} {g' : Option β → β}
    (h : ∀ x, f (g x) = g' (x.map f)) (name : Text) (entries : List (Text × α)) :
    (revise name g entries).map (fun entry => (entry.1, f entry.2)) =
      revise name g' (entries.map fun entry => (entry.1, f entry.2)) := by
  induction entries with
  | nil => simp [revise, h]
  | cons entry rest ih =>
    by_cases hname : entry.1 = name
    · simp [revise, hname, h]
    · simp [revise, hname, ih]

/-- A write to a table becomes a write to the table of the replaced values. -/
theorem map_alter {f : α → β} {g : Option α → α} {g' : Option β → β}
    (h : ∀ x, f (g x) = g' (x.map f)) (t : Table α) (name : Text) :
    (t.alter name g).map f = (t.map f).alter name g' := by
  refine ext ?_
  rw [entries_map, entries_alter, entries_alter, entries_map, map_revise h]

end Dyehouse.Table
