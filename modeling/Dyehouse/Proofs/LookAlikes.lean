import Mathlib.Data.List.Perm.Subperm
import Dyehouse.Proofs.Lookup
import Dyehouse.Shelf

/-!
# Look-alikes

Collections on a shelf are told apart by position, and several may hold the same.  Whether one is
loaded already is asked by comparing what it holds with what the loaded ones hold, at the moment
of asking, while all of them may change afterwards.  So a load can be *refused* in favour of a
look-alike, and the two can differ later on.

Two such comparisons are made.  The one for the root is made at every lookup, and does not show:
what is left out holds the same as something that stays.  The one for a load is made once and for
all.  A lookup still finds what it would find by going through every collection ever asked for,
as long as no refused collection and the one kept in its place differ about the name that is
looked up (`Shelf.findSome?_chain_run`).  Once they may differ there is no such law: nothing that
is written to a refused collection is ever found (`Shelf.get?_update_of_unreached`).
-/

namespace Dyehouse

/-! ### Holding the same -/

/-- Tables that agree have the same value under every name. -/
theorem Table.get?_eq_of_agrees {α : Type} [DecidableEq α] {t u : Table α}
    (hnodup : t.names.Nodup) (h : t.agrees u = true) (name : Text) : t.get? name = u.get? name := by
  rw [agrees, Bool.and_eq_true, beq_iff_eq, Array.all_eq_true_iff_forall_mem] at h
  obtain ⟨hsize, hall⟩ := h
  have hfound : ∀ entry ∈ t.entries, u.get? entry.1 = some entry.2 := by
    intro entry hentry
    exact beq_iff_eq.mp (hall entry (Array.mem_toList_iff.mp hentry))
  cases ht : t.get? name with
  | some value => exact (hfound (name, value) (mem_of_get?_eq_some ht)).symm
  | none =>
    -- the names of `t` are among those of `u`, and there are as many, so `u` has no other
    have hsubset : t.names ⊆ u.names := by
      intro other hother
      obtain ⟨value, hvalue⟩ := mem_names_iff.mp hother
      exact mem_names_iff.mpr ⟨value, hfound _ (mem_of_get?_eq_some hvalue)⟩
    have hlength : u.names.length ≤ t.names.length := by
      rw [names, names, List.length_map, List.length_map, ← size_eq, ← size_eq]
      exact Nat.le_of_eq hsize.symm
    have hperm := (hnodup.subperm hsubset).perm_of_length_le hlength
    rw [get?_eq_none_iff] at ht
    exact (get?_eq_none_iff.mpr fun hmem => ht (hperm.mem_iff.mpr hmem)).symm

/-- Two collections that give a variable the same value and the same default. -/
def Collection.BindAlike (key : Text) (c d : Collection) : Prop :=
  c.explicit? key = d.explicit? key ∧ c.default? key = d.default? key

instance (key : Text) (c d : Collection) : Decidable (c.BindAlike key d) :=
  inferInstanceAs (Decidable (_ ∧ _))

theorem Collection.Sound.bindAlike {name : Text} {c d : Collection} (hc : c.Sound name)
    (h : c.agrees d = true) (key : Text) : c.BindAlike key d := by
  simp only [agrees, Bool.and_eq_true] at h
  exact ⟨Table.get?_eq_of_agrees hc.nodup_values h.1.1.2 key,
    Table.get?_eq_of_agrees hc.nodup_defaults h.1.2 key⟩

namespace Scope

variable {ι : Type} [DecidableEq ι] {content content' : ι → Collection} {s : Scope ι}

/-- The chain depends on what the loaded collections and the root hold. -/
theorem chain_congr (hloaded : ∀ j ∈ s.loaded, content j = content' j)
    (hroot : ∀ r ∈ s.root, content r = content' r) : s.chain content = s.chain content' := by
  rw [chain, chain, ancestors, ancestors]
  cases hr : s.root with
  | none => rfl
  | some r =>
    have hseen : s.hasLoaded content r = s.hasLoaded content' r := by
      rw [hasLoaded, hasLoaded, hroot r hr, Bool.eq_iff_iff, List.any_eq_true, List.any_eq_true]
      exact exists_congr fun j => and_congr_right fun hj => by rw [hloaded j hj]
    simp only [hseen]

theorem mem_chain {k : ι} (h : k ∈ s.chain content) :
    k = s.active ∨ k ∈ s.loaded ∨ k ∈ s.root := by
  rw [chain, List.mem_cons, List.mem_append] at h
  refine h.imp_right (Or.imp_right fun hmem => ?_)
  rw [ancestors] at hmem
  split at hmem
  · cases hmem
  · next r hr =>
    split at hmem
    · cases hmem
    · rwa [List.mem_singleton.mp hmem]

end Scope

namespace Shelf

/-! ### What can happen to a shelf -/

inductive Step where
  /-- Load the collection at a position beneath the active one. -/
  | load (i : Nat)
  /-- Change the collection at a position. -/
  | write (i : Nat) (w : Collection.Write)
  deriving DecidableEq, Repr

def take (s : Shelf) : Step → Shelf
  | .load i => s.load i
  | .write i w => s.update i fun c => c.write w

def run (s : Shelf) (steps : List Step) : Shelf :=
  steps.foldl take s

/-- The first explicit value in some order of collections, else the first default. -/
def lookup? (s : Shelf) (order : List Nat) (key : Text) : Option Text :=
  (order.findSome? fun i => (s.content i).explicit? key).or
    (order.findSome? fun i => (s.content i).default? key)

/-- Everything that has been asked to be loaded, in the order of the first requests. -/
def note (loads : List Nat) : Step → List Nat
  | .load i => if i ∈ loads then loads else loads ++ [i]
  | .write _ _ => loads

def firstLoads (steps : List Step) : List Nat :=
  steps.foldl note []

/-- The load that a step asks for in vain, because another loaded collection holds the same: the
    collection asked for, and the first one that is taken for it. -/
def refused? (s : Shelf) : Step → Option (Nat × Nat)
  | .load i =>
    if i = s.scope.active ∨ i ∈ s.scope.loaded then none
    else (s.scope.loaded.find? fun j => (s.content j).agrees (s.content i)).map fun j => (i, j)
  | .write _ _ => none

/-- The loads that are asked for in vain along a run. -/
def refusals (s : Shelf) : List Step → List (Nat × Nat)
  | [] => []
  | step :: rest => (s.refused? step).toList ++ refusals (s.take step) rest

/-- No collection binds a variable twice. -/
def Sound (s : Shelf) : Prop :=
  ∀ i, (s.content i).Sound (s.content i).name

theorem content_update (s : Shelf) (i k : Nat) (f : Collection → Collection) :
    (s.update i f).content k =
      if k = i ∧ i < s.collections.size then f (s.content i) else s.content k := by
  rw [content, content, content, update, Array.getElem?_modify]
  by_cases hk : i = k
  · subst hk
    by_cases hlt : i < s.collections.size
    · rw [if_pos rfl, if_pos ⟨rfl, hlt⟩, Array.getElem?_eq_getElem hlt]
      rfl
    · rw [if_pos rfl, if_neg fun h => hlt h.2, Array.getElem?_eq_none (Nat.le_of_not_lt hlt)]
      rfl
  · rw [if_neg hk, if_neg fun h => hk h.1.symm]

namespace Sound

variable {s : Shelf}

theorem take (h : s.Sound) (step : Step) : (s.take step).Sound := by
  cases step with
  | load i => exact h
  | write i w =>
    intro k
    have hwritten := (h i).write w
    rw [Shelf.take, content_update]
    split
    · rw [hwritten.name_eq]
      exact hwritten
    · exact h k

theorem run (h : s.Sound) (steps : List Step) : (s.run steps).Sound := by
  induction steps generalizing s with
  | nil => exact h
  | cons step rest ih => exact ih (h.take step)

end Sound

/-- What no step changes: which collection is active and which one is the root, and how many there
    are. -/
structure SameFrame (s t : Shelf) : Prop where
  active_eq : t.scope.active = s.scope.active
  root_eq : t.scope.root = s.scope.root
  size_eq : t.collections.size = s.collections.size

theorem sameFrame_take (s : Shelf) (step : Step) : s.SameFrame (s.take step) := by
  cases step with
  | load i =>
    obtain ⟨loaded, hload⟩ : ∃ loaded, (s.take (.load i)).scope = { s.scope with loaded } := by
      change ∃ loaded, Scope.load s.content s.scope i = { s.scope with loaded }
      rw [Scope.load]
      split
      · exact ⟨_, rfl⟩
      · exact ⟨_, rfl⟩
    exact ⟨by rw [hload], by rw [hload], rfl⟩
  | write i w => exact ⟨rfl, rfl, Array.size_modify⟩

theorem sameFrame_run (s : Shelf) (steps : List Step) : s.SameFrame (s.run steps) := by
  induction steps generalizing s with
  | nil => exact ⟨rfl, rfl, rfl⟩
  | cons step rest ih =>
    have hfirst := sameFrame_take s step
    have hrest := ih (s.take step)
    exact ⟨hrest.active_eq.trans hfirst.active_eq, hrest.root_eq.trans hfirst.root_eq,
      hrest.size_eq.trans hfirst.size_eq⟩

/-! ### What is loaded -/

/-- A collection is loaded, or it is among those that are looked in already, or it is refused for
    one of them. -/
theorem load_cases {s : Shelf} (hsound : s.Sound) (i : Nat) :
    (s.load i).scope = s.scope ∧
        (i ∈ s.scope.active :: s.scope.loaded ∨
          ∃ j ∈ s.scope.loaded, s.refused? (.load i) = some (i, j)) ∨
      (s.load i).scope = { s.scope with loaded := s.scope.loaded ++ [i] } := by
  have hload : (s.load i).scope = if i = s.scope.active ∨ s.scope.hasLoaded s.content i = true
      then s.scope else { s.scope with loaded := s.scope.loaded ++ [i] } := rfl
  by_cases hseen : i = s.scope.active ∨ i ∈ s.scope.loaded
  · have hloaded : i = s.scope.active ∨ s.scope.hasLoaded s.content i = true := by
      refine hseen.imp_right fun hmem => ?_
      rw [Scope.hasLoaded, List.any_eq_true]
      exact ⟨i, hmem, (hsound i).agrees_self⟩
    rw [if_pos hloaded] at hload
    exact .inl ⟨hload, .inl (List.mem_cons.mpr hseen)⟩
  · cases hfind : s.scope.loaded.find? fun j => (s.content j).agrees (s.content i) with
    | some j =>
      have hmem := List.mem_of_find?_eq_some hfind
      have hagrees := List.find?_some hfind
      have hloaded : s.scope.hasLoaded s.content i = true := by
        rw [Scope.hasLoaded, List.any_eq_true]
        exact ⟨j, hmem, hagrees⟩
      rw [if_pos (.inr hloaded)] at hload
      refine .inl ⟨hload, .inr ⟨j, hmem, ?_⟩⟩
      rw [refused?, if_neg hseen, hfind, Option.map_some]
    | none =>
      have hloaded : ¬ s.scope.hasLoaded s.content i = true := by
        rw [Scope.hasLoaded, List.any_eq_true]
        rintro ⟨j, hmem, hagrees⟩
        exact List.find?_eq_none.mp hfind j hmem hagrees
      rw [if_neg fun h => h.elim (fun hactive => hseen (.inl hactive)) hloaded] at hload
      exact .inr hload

/-- What is loaded finds what the given collections find. -/
def Follows (s : Shelf) (loads : List Nat) (f : Nat → Option Text) : Prop :=
  (s.scope.active :: s.scope.loaded).findSome? f = (s.scope.active :: loads).findSome? f

namespace Follows

variable {s : Shelf} {loads : List Nat} {f : Nat → Option Text}

theorem load (h : s.Follows loads f) (hsound : s.Sound) {i : Nat}
    (hrefused : ∀ refusal ∈ s.refused? (.load i), f refusal.1 = f refusal.2) :
    (s.load i).Follows (note loads (.load i)) f := by
  have hloaded : ((s.load i).scope.active :: (s.load i).scope.loaded).findSome? f =
      ((s.scope.active :: s.scope.loaded).findSome? f).or (f i) := by
    rw [← findSome?_concat]
    rcases load_cases hsound i with ⟨hscope, hmem | ⟨j, hj, hrefusal⟩⟩ | hscope
    · rw [hscope, findSome?_append_of_mem hmem]
    · have hij : f i = f j := hrefused (i, j) hrefusal
      rw [hscope, findSome?_concat_of_alike ⟨j, List.mem_cons_of_mem _ hj, hij.symm⟩]
    · rw [hscope]
      rfl
  have hnoted : (s.scope.active :: note loads (.load i)).findSome? f =
      ((s.scope.active :: loads).findSome? f).or (f i) := by
    rw [note, ← findSome?_concat]
    split
    · next hmem => rw [findSome?_append_of_mem (List.mem_cons_of_mem _ hmem)]
    · rfl
  rw [Follows, hloaded, h, ← hnoted]
  exact congrArg (fun first => (first :: note loads (.load i)).findSome? f)
    (sameFrame_take s (.load i)).active_eq.symm

theorem take (h : s.Follows loads f) (hsound : s.Sound) {step : Step}
    (hrefused : ∀ refusal ∈ s.refused? step, f refusal.1 = f refusal.2) :
    (s.take step).Follows (note loads step) f := by
  cases step with
  | load i => exact h.load hsound hrefused
  | write i w => exact h

theorem run (h : s.Follows loads f) (hsound : s.Sound) {steps : List Step}
    (hrefused : ∀ refusal ∈ s.refusals steps, f refusal.1 = f refusal.2) :
    (s.run steps).Follows (steps.foldl note loads) f := by
  induction steps generalizing s loads with
  | nil => exact h
  | cons step rest ih =>
    rw [refusals, List.forall_mem_append] at hrefused
    have hfirst : ∀ refusal ∈ s.refused? step, f refusal.1 = f refusal.2 := fun refusal hmem =>
      hrefused.1 refusal (Option.mem_toList.mpr hmem)
    exact ih (h.take hsound hfirst) (hsound.take step) hrefused.2

end Follows

/-! ### What is looked in -/

/-- Leaving the root out for a look-alike does not show. -/
theorem findSome?_chain {s : Shelf} {f : Nat → Option Text}
    (hf : ∀ i j, (s.content i).agrees (s.content j) = true → f i = f j) :
    s.chain.findSome? f =
      ((s.scope.active :: s.scope.loaded) ++ s.scope.root.toList).findSome? f := by
  rw [chain, Scope.chain, ← List.cons_append, Scope.ancestors]
  cases s.scope.root with
  | none => rfl
  | some r =>
    dsimp only
    split
    · next hseen =>
      have hsame : ∃ j ∈ s.scope.active :: s.scope.loaded, f j = f r := by
        rcases hseen with hactive | hloaded
        · exact ⟨s.scope.active, List.mem_cons_self, by rw [hactive]⟩
        · rw [Scope.hasLoaded, List.any_eq_true] at hloaded
          obtain ⟨j, hj, hagrees⟩ := hloaded
          exact ⟨j, List.mem_cons_of_mem _ hj, hf j r hagrees⟩
      rw [List.append_nil, Option.toList_some, findSome?_concat_of_alike hsame]
    · rfl

/-- **A lookup follows the loads.**  Along the chain the first hit is the one along everything
    asked for, if the function searched with cannot tell a refused collection from the one kept in
    its place. -/
theorem findSome?_chain_run {s : Shelf} (hsound : s.Sound) (hloaded : s.scope.loaded = [])
    {steps : List Step} {f : Nat → Option Text}
    (hf : ∀ i j, ((s.run steps).content i).agrees ((s.run steps).content j) = true → f i = f j)
    (hrefused : ∀ refusal ∈ s.refusals steps, f refusal.1 = f refusal.2) :
    (s.run steps).chain.findSome? f =
      (s.scope.active :: (firstLoads steps ++ s.scope.root.toList)).findSome? f := by
  have hstart : s.Follows [] f := by rw [Follows, hloaded]
  have hrun := hstart.run hsound hrefused
  have hframe := sameFrame_run s steps
  rw [Follows, hframe.active_eq] at hrun
  rw [findSome?_chain hf, hframe.active_eq, hframe.root_eq, ← List.cons_append,
    List.findSome?_append, hrun, ← List.findSome?_append]
  rfl

theorem get?_run {s : Shelf} (hsound : s.Sound) (hloaded : s.scope.loaded = [])
    {steps : List Step} {key : Text}
    (hrefused : ∀ refusal ∈ s.refusals steps,
      ((s.run steps).content refusal.1).BindAlike key ((s.run steps).content refusal.2)) :
    (s.run steps).get? key =
      (s.run steps).lookup? (s.scope.active :: (firstLoads steps ++ s.scope.root.toList)) key := by
  have halike : ∀ i j, ((s.run steps).content i).agrees ((s.run steps).content j) = true →
      ((s.run steps).content i).BindAlike key ((s.run steps).content j) := fun i j hagrees =>
    (hsound.run steps i).bindAlike hagrees key
  have hexplicit := findSome?_chain_run hsound hloaded (fun i j h => (halike i j h).1)
    fun refusal hrefusal => (hrefused refusal hrefusal).1
  have hdefault := findSome?_chain_run hsound hloaded (fun i j h => (halike i j h).2)
    fun refusal hrefusal => (hrefused refusal hrefusal).2
  rw [lookup?, ← hexplicit, ← hdefault]
  rfl

/-! ### What is lost -/

/-- A lookup depends on what is held along the order, and on nothing else. -/
theorem lookup?_congr {s t : Shelf} {order : List Nat}
    (h : order.map s.content = order.map t.content) (key : Text) :
    s.lookup? order key = t.lookup? order key := by
  have hmap : ∀ (u : Shelf) (g : Collection → Option Text),
      order.findSome? (fun i => g (u.content i)) = (order.map u.content).findSome? g :=
    fun _ _ => List.findSome?_map.symm
  rw [lookup?, lookup?, hmap s (·.explicit? key), hmap s (·.default? key),
    hmap t (·.explicit? key), hmap t (·.default? key), h]

/-- What is written to a collection that is neither active nor loaded nor the root is not
    found. -/
theorem get?_update_of_unreached {s : Shelf} {i : Nat} (hactive : i ≠ s.scope.active)
    (hloaded : i ∉ s.scope.loaded) (hroot : i ∉ s.scope.root) (f : Collection → Collection)
    (key : Text) : (s.update i f).get? key = s.get? key := by
  have hcontent : ∀ k, k ≠ i → (s.update i f).content k = s.content k := by
    intro k hk
    rw [content_update, if_neg fun h => hk h.1]
  have hchain : (s.update i f).chain = s.chain := by
    refine Scope.chain_congr (fun j hj => ?_) fun r hr => ?_
    · exact hcontent j fun hji => hloaded (hji ▸ hj)
    · exact hcontent r fun hri => hroot (hri ▸ hr)
  have hmap : s.chain.map (s.update i f).content = s.chain.map s.content := by
    apply List.map_congr_left
    intro k hk
    apply hcontent
    rcases Scope.mem_chain hk with rfl | hmem | hmem
    · exact Ne.symm hactive
    · exact fun hki => hloaded (hki ▸ hmem)
    · exact fun hki => hroot (hki ▸ hmem)
  change (s.update i f).lookup? (s.update i f).chain key = s.lookup? s.chain key
  rw [hchain]
  exact lookup?_congr hmap key

theorem mem_foldl_note {steps : List Step} {loads : List Nat} {i : Nat} :
    i ∈ steps.foldl note loads ↔ i ∈ loads ∨ .load i ∈ steps := by
  induction steps generalizing loads with
  | nil => simp
  | cons step rest ih =>
    rw [List.foldl_cons, ih, List.mem_cons]
    cases step with
    | write k w => simp [note]
    | load k =>
      rw [note]
      by_cases hk : k ∈ loads
      · rw [if_pos hk]
        constructor
        · rintro (h | h)
          · exact .inl h
          · exact .inr (.inr h)
        · rintro (h | ⟨⟨⟩⟩ | h)
          · exact .inl h
          · exact .inl hk
          · exact .inr h
      · rw [if_neg hk, List.mem_append, List.mem_singleton, Step.load.injEq, or_assoc]

theorem load_mem_of_mem_refusals {s : Shelf} {steps : List Step} {refusal : Nat × Nat}
    (h : refusal ∈ s.refusals steps) : .load refusal.1 ∈ steps ∧ refusal.1 ≠ s.scope.active := by
  induction steps generalizing s with
  | nil => cases h
  | cons step rest ih =>
    rw [refusals, List.mem_append, Option.mem_toList] at h
    rcases h with hfirst | hlater
    · cases step with
      | write k w => cases hfirst
      | load k =>
        rw [refused?] at hfirst
        split at hfirst
        · cases hfirst
        · next hseen =>
          obtain ⟨j, -, rfl⟩ := Option.map_eq_some_iff.mp hfirst
          exact ⟨List.mem_cons_self, fun hactive => hseen (.inl hactive)⟩
    · obtain ⟨hmem, hactive⟩ := ih hlater
      rw [(sameFrame_take s step).active_eq] at hactive
      exact ⟨List.mem_cons_of_mem _ hmem, hactive⟩

/-- What is found if there is one thing to be found. -/
theorem findSome?_eq_some_of_unique {α β : Type} {items : List α} {item : α} {value : β}
    {f : α → Option β} (hmem : item ∈ items) (hitem : f item = some value)
    (hother : ∀ other ∈ items, other ≠ item → f other = none) :
    items.findSome? f = some value := by
  cases hfound : items.findSome? f with
  | none =>
    rw [List.findSome?_eq_none_iff.mp hfound item hmem] at hitem
    cases hitem
  | some found =>
    obtain ⟨other, hin, hvalue⟩ := List.exists_of_findSome?_eq_some hfound
    by_cases hne : other = item
    · rw [← hvalue, hne, hitem]
    · rw [hother other hin hne] at hvalue
      cases hvalue

theorem lookup?_update_self {s : Shelf} {order : List Nat} {i : Nat} (hmem : i ∈ order)
    (hlt : i < s.collections.size) {key : Text} (hnone : ∀ k, (s.content k).explicit? key = none)
    (value : Text) : (s.update i fun c => c.assign key value).lookup? order key = some value := by
  have hself : ((s.update i fun c => c.assign key value).content i).explicit? key =
      some value := by
    rw [content_update, if_pos ⟨rfl, hlt⟩]
    exact (Table.get?_insert _ key key value).trans (if_pos rfl)
  have hother : ∀ k, k ≠ i →
      ((s.update i fun c => c.assign key value).content k).explicit? key = none := by
    intro k hk
    rw [content_update, if_neg fun h => hk h.1]
    exact hnone k
  rw [lookup?, findSome?_eq_some_of_unique hmem hself fun k _ hk => hother k hk, Option.some_or]

/-- **A lookup follows the loads, as long as look-alikes stay alike.**  After any loads and writes
    on a shelf, with any active collection and with a root or without, a name has the first
    explicit value, else the first default, along the active collection, every collection ever
    asked to be loaded in the order of the first requests, and the root; provided that no
    collection whose load was refused and the one kept in its place give the name different values
    by now.  In particular this holds of every name if no load was refused.

    The condition is not idle.  What is written to a collection that was refused, and is neither
    loaded later nor the root, shows in that order and is not found. -/
theorem lookup_follows_loads (collections : Array Collection)
    (hsound : ∀ c ∈ collections, c.Sound c.name) (active : Nat) (root : Option Nat)
    (steps : List Step) :
    let start : Shelf := { collections, scope := { active, root } }
    let s := start.run steps
    let order := active :: (firstLoads steps ++ root.toList)
    (∀ key : Text,
      (∀ refusal ∈ start.refusals steps,
        (s.content refusal.1).BindAlike key (s.content refusal.2)) →
      s.get? key = s.lookup? order key) ∧
    ∀ refusal ∈ start.refusals steps, refusal.1 < collections.size →
      refusal.1 ∉ s.scope.loaded → refusal.1 ∉ root →
      ∀ key value : Text, (∀ c ∈ s.collections, c.explicit? key = none) →
        let t := start.run (steps ++ [.write refusal.1 (.value key value)])
        t.get? key = s.get? key ∧ t.lookup? order key = some value := by
  intro start s order
  have hstart : start.Sound := by
    intro i
    rw [content]
    cases hi : start.collections[i]? with
    | none => exact Collection.sound_named []
    | some c => exact hsound c (Array.mem_of_getElem? hi)
  constructor
  · intro key halike
    exact get?_run hstart rfl halike
  · intro refusal hrefusal hlt hloaded hroot key value hnone t
    obtain ⟨hload, hactive⟩ := load_mem_of_mem_refusals hrefusal
    have ht : t = s.update refusal.1 fun c => c.assign key value := List.foldl_concat ..
    have hmem : refusal.1 ∈ order :=
      List.mem_cons_of_mem _ (List.mem_append_left _ (mem_foldl_note.mpr (.inr hload)))
    have hframe := sameFrame_run start steps
    rw [ht]
    constructor
    · apply get?_update_of_unreached _ hloaded
      · rwa [hframe.root_eq]
      · rwa [hframe.active_eq]
    · refine lookup?_update_self hmem (by rwa [hframe.size_eq]) ?_ value
      intro i
      rw [content]
      cases hi : s.collections[i]? with
      | none => rfl
      | some c => exact hnone c (Array.mem_of_getElem? hi)

/-- The collection at 2 is refused for the one at 1; later the two differ in their tag and agree
    about one variable, and the root is left out of the chain for the one at 1 as well. -/
theorem lookup_follows_loads_tagged :
    let t : Collection := .named "t".toList
    let collections : Array Collection := #[.named "page".toList, t, t, t]
    let key : Text := "gap".toList
    let other : Text := "side".toList
    let value : Text := "4px".toList
    let start : Shelf := { collections, scope := { active := 0, root := some 3 } }
    let steps : List Step :=
      [.load 1, .load 2, .load 1, .write 2 (.value key value), .write 2 (.tag "style".toList),
       .write 1 (.value key value), .write 3 (.value key value)]
    (start.refusals steps = [(2, 1)] ∧ firstLoads steps = [1, 2] ∧
      (start.run steps).chain = [0, 1]) ∧
    (start.run steps).lookup? [0, 1, 2, 3] key = (start.run steps).get? key ∧
    (start.run (steps ++ [.write 2 (.value other value)])).get? other =
      (start.run steps).get? other ∧
    (start.run (steps ++ [.write 2 (.value other value)])).lookup? [0, 1, 2, 3] other =
      some value := by
  intro t collections key other value start steps
  have hsound : ∀ c ∈ collections, c.Sound c.name := by
    intro c hc
    simp only [collections, List.mem_toArray, List.mem_cons, List.not_mem_nil, or_false] at hc
    rcases hc with rfl | rfl | rfl | rfl
    all_goals exact Collection.sound_named _
  have hrefusals : start.refusals steps = [(2, 1)] := by decide +kernel
  have hloads : firstLoads steps = [1, 2] := by decide +kernel
  obtain ⟨hfollows, hlost⟩ := lookup_follows_loads collections hsound 0 (some 3) steps
  have halike : ((start.run steps).content 2).BindAlike key ((start.run steps).content 1) := by
    decide +kernel
  have hlookup := hfollows key (by rw [hrefusals]; exact List.forall_mem_singleton.mpr halike)
  have hwrite := hlost (2, 1) (by rw [hrefusals]; exact List.mem_singleton.mpr rfl) (by decide)
    (by decide +kernel) (by decide) other value (by decide +kernel)
  rw [hloads] at hlookup hwrite
  exact ⟨⟨hrefusals, hloads, by decide +kernel⟩, hlookup.symm, hwrite⟩

/-- Two empty collections of one name are loaded, and the second is then given a value: it was
    taken for the first, so the value is not found. -/
theorem load_lost_to_look_alike :
    let t : Collection := .named "t".toList
    let key : Text := "gap".toList
    let start : Shelf :=
      { collections := #[.named "page".toList, t, t], scope := { active := 0 } }
    let steps : List Step := [.load 1, .load 2, .write 2 (.value key "4px".toList)]
    let s := start.run steps
    let order := 0 :: (firstLoads steps ++ start.scope.root.toList)
    order = [0, 1, 2] ∧ s.lookup? order key = some "4px".toList ∧ s.get? key = none := by
  decide +kernel

end Shelf

end Dyehouse
