import Dyehouse.Text.Basic
import Std.Data.TreeMap

/-!
# Tables

A table holds values under names, in the order in which the names first came.  Writing to
a name that is already there keeps its place.  Every write goes through `alter`, and
`entries` and `get?` are the views that the laws below speak of: a table is what its entries
are, and a write revises them as it would revise a plain list of pairs.

Beside its rows a table keeps the place of each name, so that finding a name takes no walk
through the rows.  The places follow from the rows and say nothing of their own.
-/

namespace Dyehouse

/-- The place of each name in a row of names. -/
abbrev Places := Std.TreeMap Text Nat

namespace Places

/-- The places of names that come after the ones at places below `next`.  A name that comes
    again keeps its place. -/
def extend (places : Places) (next : Nat) : List Text → Places
  | [] => places
  | name :: rest =>
    extend (if name ∈ places then places else places.insert name next) (next + 1) rest

/-- The places of names. -/
def ofNames (names : List Text) : Places :=
  extend ∅ 0 names

theorem extend_append (places : Places) (next : Nat) (names more : List Text) :
    places.extend next (names ++ more) =
      (places.extend next names).extend (next + names.length) more := by
  induction names generalizing places next with
  | nil => rfl
  | cons name rest ih =>
    simp only [List.cons_append, extend, ih, List.length_cons]
    congr 1
    omega

/-- A new name comes last. -/
theorem ofNames_append_singleton {names : List Text} {name : Text}
    (h : (ofNames names)[name]? = none) :
    ofNames (names ++ [name]) = (ofNames names).insert name names.length := by
  have hm : name ∉ extend ∅ 0 names := fun hm => by
    simp [ofNames, Std.TreeMap.getElem?_eq_some_getElem hm] at h
  simp [ofNames, extend_append, extend, hm]

theorem getElem?_extend (places : Places) (next : Nat) (names : List Text) (name : Text) :
    (places.extend next names)[name]? =
      (places[name]?).or ((names.idxOf? name).map (next + ·)) := by
  induction names generalizing places next with
  | nil => simp [extend]
  | cons first rest ih =>
    have hadd : (next + ·) ∘ (· + 1) = (next + 1 + ·) := by
      funext i
      simp only [Function.comp]
      omega
    rw [extend, ih, List.idxOf?_cons]
    by_cases h : first = name
    · subst h
      by_cases hm : first ∈ places
      · simp [hm]
      · simp [hm]
    · have hc : compare first name ≠ .eq := fun e => h (Std.LawfulEqOrd.eq_of_compare e)
      by_cases hm : first ∈ places
      · simp [hm, h, hadd]
      · simp [hm, h, hadd, hc, Std.TreeMap.getElem?_insert]

/-- The place of a name is where it first came. -/
theorem getElem?_ofNames (names : List Text) (name : Text) :
    (ofNames names)[name]? = names.idxOf? name := by
  simp [ofNames, getElem?_extend]

end Places

/-- Values under names, in the order in which the names first came. -/
structure Table (α : Type) where
  /-- The names with their values. -/
  rows : Array (Text × α)
  /-- Where in the rows each name is. -/
  places : Places
  places_eq : places = Places.ofNames (rows.toList.map Prod.fst)

namespace Table

variable {α : Type}

/-- The names with their values, in the order in which the names first came. -/
def entries (t : Table α) : List (Text × α) :=
  t.rows.toList

/-- The names, in the order in which they first came. -/
def names (t : Table α) : List Text :=
  t.entries.map Prod.fst

/-- A table is what its entries are. -/
theorem ext {t u : Table α} (h : t.entries = u.entries) : t = u := by
  obtain ⟨rows, places, ht⟩ := t
  obtain ⟨rows', places', hu⟩ := u
  obtain rfl : rows = rows' := Array.toList_inj.mp h
  simp [ht, hu]

theorem ext_iff {t u : Table α} : t = u ↔ t.entries = u.entries :=
  ⟨fun h => h ▸ rfl, ext⟩

instance [DecidableEq α] : DecidableEq (Table α) := fun _ _ =>
  decidable_of_iff _ ext_iff.symm

instance [Repr α] : Repr (Table α) := ⟨fun t n => reprPrec t.entries n⟩

instance : EmptyCollection (Table α) := ⟨⟨#[], ∅, rfl⟩⟩

instance : Inhabited (Table α) := ⟨∅⟩

def size (t : Table α) : Nat :=
  t.rows.size

def isEmpty (t : Table α) : Bool :=
  t.rows.isEmpty

def get? (t : Table α) (name : Text) : Option α :=
  match t.places[name]? with
  | some i => (t.rows[i]?).map Prod.snd
  | none => none

def contains (t : Table α) (name : Text) : Bool :=
  t.places.contains name

/-! ### Lists of entries -/

/-- The entries with the value under a name replaced by `f` of what stood there; a new
    name comes last. -/
def revise (name : Text) (f : Option α → α) : List (Text × α) → List (Text × α)
  | [] => [(name, f none)]
  | entry :: rest =>
    if entry.1 = name then (entry.1, f (some entry.2)) :: rest
    else entry :: revise name f rest

/-- An entry with its value replaced by `f` of it. -/
def amend (f : Option α → α) (entry : Text × α) : Text × α :=
  (entry.1, f (some entry.2))

theorem lookup_cons (name : Text) (entry : Text × α) (rest : List (Text × α)) :
    (entry :: rest).lookup name = if entry.1 = name then some entry.2 else rest.lookup name := by
  rw [List.lookup_cons]
  by_cases h : entry.1 = name
  · simp [h]
  · simp [h, beq_false_of_ne (Ne.symm h)]

theorem lookup_eq_of_idxOf? (name : Text) (entries : List (Text × α)) :
    entries.lookup name =
      ((entries.map Prod.fst).idxOf? name).bind fun i => (entries[i]?).map Prod.snd := by
  induction entries with
  | nil => rfl
  | cons entry rest ih =>
    rw [lookup_cons, List.map_cons, List.idxOf?_cons]
    by_cases h : entry.1 = name
    · rw [if_pos h, if_pos (beq_iff_eq.mpr h)]
      rfl
    · rw [if_neg h, if_neg (by simpa using h), ih]
      cases (rest.map Prod.fst).idxOf? name <;> rfl

theorem map_fst_modify_amend (f : Option α → α) (entries : List (Text × α)) (i : Nat) :
    (entries.modify i (amend f)).map Prod.fst = entries.map Prod.fst := by
  induction entries generalizing i with
  | nil => simp
  | cons entry rest ih => cases i <;> simp [amend, ih]

theorem revise_of_idxOf?_eq_some {name : Text} (f : Option α → α) {entries : List (Text × α)}
    {i : Nat} (h : (entries.map Prod.fst).idxOf? name = some i) :
    revise name f entries = entries.modify i (amend f) := by
  induction entries generalizing i with
  | nil => simp at h
  | cons entry rest ih =>
    rw [List.map_cons, List.idxOf?_cons] at h
    by_cases he : entry.1 = name
    · obtain rfl : 0 = i := by simpa [he] using h
      simp [revise, he, amend]
    · obtain ⟨j, hj, rfl⟩ : ∃ j, (rest.map Prod.fst).idxOf? name = some j ∧ j + 1 = i := by
        simpa [he] using h
      simp [revise, he, ih hj]

theorem revise_of_idxOf?_eq_none {name : Text} (f : Option α → α) {entries : List (Text × α)}
    (h : (entries.map Prod.fst).idxOf? name = none) :
    revise name f entries = entries ++ [(name, f none)] := by
  induction entries with
  | nil => rfl
  | cons entry rest ih =>
    rw [List.map_cons, List.idxOf?_cons] at h
    by_cases he : entry.1 = name
    · simp [he] at h
    · simp [revise, he, ih (by simpa [he] using h)]

/-! ### Writing -/

/-- Replace the value under a name by `f` of what stood there. -/
def alter (t : Table α) (name : Text) (f : Option α → α) : Table α :=
  match t with
  | ⟨rows, places, h⟩ =>
    match hp : places[name]? with
    | some i => ⟨rows.modify i (amend f), places, by simp [h, map_fst_modify_amend]⟩
    | none =>
      let places' := places.insert name rows.size
      ⟨rows.push (name, f none), places', by
        subst h
        simp [places', Places.ofNames_append_singleton hp]⟩

def insert (t : Table α) (name : Text) (value : α) : Table α :=
  t.alter name fun _ => value

/-- The table that comes of putting the pairs in one after the other. -/
def ofList (pairs : List (Text × α)) : Table α :=
  pairs.foldl (fun t pair => t.insert pair.1 pair.2) ∅

/-- Whether two tables hold the same values under the same names, in whatever order. -/
def agrees [DecidableEq α] (t u : Table α) : Bool :=
  t.size == u.size && t.rows.all fun entry => u.get? entry.1 == some entry.2

/-! ### The laws of the views -/

@[simp] theorem entries_empty : (∅ : Table α).entries = [] := rfl

theorem getElem?_places (t : Table α) (name : Text) :
    t.places[name]? = t.names.idxOf? name := by
  rw [t.places_eq, Places.getElem?_ofNames]
  rfl

theorem get?_eq_lookup (t : Table α) (name : Text) : t.get? name = t.entries.lookup name := by
  rw [lookup_eq_of_idxOf?, get?, getElem?_places]
  change _ = Option.bind (t.names.idxOf? name) _
  cases t.names.idxOf? name <;> simp [entries]

theorem contains_eq (t : Table α) (name : Text) : t.contains name = (t.get? name).isSome := by
  rw [get?_eq_lookup, contains, Std.TreeMap.contains_eq_isSome_getElem?, getElem?_places, names]
  generalize t.entries = entries
  induction entries with
  | nil => rfl
  | cons entry rest ih =>
    by_cases h : entry.1 = name
    · simp [lookup_cons, List.idxOf?_cons, h]
    · simp [lookup_cons, List.idxOf?_cons, h, ih]

theorem size_eq (t : Table α) : t.size = t.entries.length := by
  simp [size, entries]

theorem isEmpty_eq (t : Table α) : t.isEmpty = t.entries.isEmpty := by
  simp [isEmpty, entries]

/-- A write revises the entries. -/
theorem entries_alter (t : Table α) (name : Text) (f : Option α → α) :
    (t.alter name f).entries = revise name f t.entries := by
  have hp := t.getElem?_places name
  obtain ⟨rows, places, h⟩ := t
  simp only [alter]
  split
  · next i hi =>
    rw [revise_of_idxOf?_eq_some f (hp.symm.trans hi)]
    simp [entries]
  · next hn =>
    rw [revise_of_idxOf?_eq_none f (hp.symm.trans hn)]
    simp [entries]

@[simp] theorem get?_empty (name : Text) : (∅ : Table α).get? name = none := by
  simp [get?_eq_lookup]

theorem lookup_revise (entries : List (Text × α)) (name other : Text) (f : Option α → α) :
    (revise name f entries).lookup other =
      if other = name then some (f (entries.lookup name)) else entries.lookup other := by
  induction entries with
  | nil =>
    by_cases h : other = name
    · simp [revise, h]
    · simp [revise, lookup_cons, h, Ne.symm h]
  | cons entry rest ih =>
    by_cases he : entry.1 = name
    · by_cases h : other = name
      · simp [revise, lookup_cons, he, h]
      · simp [revise, lookup_cons, he, h, Ne.symm h]
    · by_cases h : entry.1 = other
      · have : ¬ other = name := fun ho => he (h.trans ho)
        simp [revise, lookup_cons, h, this]
      · simp [revise, lookup_cons, he, h, ih]

theorem get?_alter (t : Table α) (name other : Text) (f : Option α → α) :
    (t.alter name f).get? other = if other = name then some (f (t.get? name)) else t.get? other := by
  simp only [get?_eq_lookup, entries_alter, lookup_revise]

@[simp] theorem get?_alter_self (t : Table α) (name : Text) (f : Option α → α) :
    (t.alter name f).get? name = some (f (t.get? name)) := by
  simp [get?_alter]

theorem get?_alter_of_ne {t : Table α} {name other : Text} (f : Option α → α)
    (h : other ≠ name) : (t.alter name f).get? other = t.get? other := by
  simp [get?_alter, h]

theorem get?_insert (t : Table α) (name other : Text) (value : α) :
    (t.insert name value).get? other = if other = name then some value else t.get? other :=
  get?_alter t name other _

theorem get?_eq_none_iff {t : Table α} {name : Text} : t.get? name = none ↔ name ∉ t.names := by
  rw [get?_eq_lookup, names, List.lookup_eq_none_iff, List.mem_map]
  constructor
  · rintro h ⟨entry, hentry, rfl⟩
    simpa using h entry hentry
  · intro h entry hentry
    exact bne_iff_ne.mpr fun heq => h ⟨entry, hentry, heq.symm⟩

theorem map_fst_revise (entries : List (Text × α)) (name : Text) (f : Option α → α) :
    (revise name f entries).map Prod.fst =
      if name ∈ entries.map Prod.fst then entries.map Prod.fst
      else entries.map Prod.fst ++ [name] := by
  induction entries with
  | nil => simp [revise]
  | cons entry rest ih =>
    by_cases h : entry.1 = name
    · simp [revise, h]
    · have h' : ¬ name = entry.1 := fun e => h e.symm
      by_cases hm : name ∈ rest.map Prod.fst
      · simp only [revise, h, if_false, List.map_cons, ih, hm, if_true, List.mem_cons, or_true]
      · simp only [revise, h, if_false, List.map_cons, ih, hm, List.mem_cons, h', or_self,
          List.cons_append]

/-- A write keeps the names and their order, and adds a new name at the end. -/
theorem names_alter (t : Table α) (name : Text) (f : Option α → α) :
    (t.alter name f).names = if name ∈ t.names then t.names else t.names ++ [name] := by
  simp only [names, entries_alter]
  exact map_fst_revise t.entries name f

/-- A write never makes a name stand twice. -/
theorem nodup_names_alter {t : Table α} (h : t.names.Nodup) (name : Text) (f : Option α → α) :
    (t.alter name f).names.Nodup := by
  rw [names_alter]
  split
  · exact h
  · next hn =>
    rw [List.nodup_append]
    refine ⟨h, by simp, ?_⟩
    intro a ha b hb
    obtain rfl := List.mem_singleton.mp hb
    exact fun e => hn (e ▸ ha)

end Table

end Dyehouse
