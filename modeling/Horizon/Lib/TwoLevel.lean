import Mathlib.Data.Set.Insert
import Mathlib.Logic.Function.Basic

/-!
# Two-level tables in a store

Roots and tables are nodes of one store, and every node is an array of entries. An entry of a root
refers to a table, and an entry of a table to the value that is looked up. Values are nodes too,
but nothing is known about them: they may well be roots or tables.

As long as no node serves twice, as two tables or as a root and a table (`Apart`), the store
represents one map for each root, and writing an entry changes the map of one root at one place.
-/

namespace TwoLevel

variable {N I E : Type*}

variable (target : E → Option N) (U : Set I)

/-- What the root `d` maps the pair of indices to. -/
def lookup (s : N → I → E) (d : N) (i j : I) : Option N :=
  (target (s d i)).bind fun t => target (s t j)

/-- No node serves twice. Only the entries of a root in `U` count. -/
structure Apart (s : N → I → E) (D : Set N) : Prop where
  notMem : ∀ {d i t}, d ∈ D → i ∈ U → target (s d i) = some t → t ∉ D
  inj : ∀ {d d' i i' t}, d ∈ D → d' ∈ D → i ∈ U → i' ∈ U → target (s d i) = some t →
    target (s d' i') = some t → d = d' ∧ i = i'

/-- Is the node a root or a table? -/
def InUse (s : N → I → E) (D : Set N) (n : N) : Prop :=
  n ∈ D ∨ ∃ d ∈ D, ∃ i ∈ U, target (s d i) = some n

variable {target U} {s s' : N → I → E} {D : Set N} {d d' n t : N} {i i' j j' : I} {e : E}

theorem Apart.congr (h : Apart target U s D)
    (hroots : ∀ d ∈ D, ∀ i ∈ U, target (s' d i) = target (s d i)) : Apart target U s' D where
  notMem hd hi ht := h.notMem hd hi (hroots _ hd _ hi ▸ ht)
  inj hd hd' hi hi' ht ht' :=
    h.inj hd hd' hi hi' (hroots _ hd _ hi ▸ ht) (hroots _ hd' _ hi' ▸ ht')

theorem InUse.congr (h : InUse target U s' D n)
    (hroots : ∀ d ∈ D, ∀ i ∈ U, target (s' d i) = target (s d i)) : InUse target U s D n := by
  obtain hn | ⟨d, hd, i, hi, ht⟩ := h
  · exact Or.inl hn
  · exact Or.inr ⟨d, hd, i, hi, hroots d hd i hi ▸ ht⟩

theorem lookup_congr (hroot : target (s' d i) = target (s d i))
    (htable : ∀ t, target (s d i) = some t → target (s' t j) = target (s t j)) :
    lookup target s' d i j = lookup target s d i j := by
  rw [lookup, lookup, hroot]
  cases ht : target (s d i) with
  | none => rfl
  | some t => exact htable t ht

variable [DecidableEq N] [DecidableEq I]

/-- Overwrite one entry of a node. -/
def write (s : N → I → E) (n : N) (i : I) (e : E) : N → I → E :=
  Function.update s n (Function.update (s n) i e)

theorem write_of_ne (h : d ≠ n) : write s n i e d = s d := Function.update_of_ne h _ _

theorem write_self : write s n i e n j = if j = i then e else s n j := by
  rw [write, Function.update_self, Function.update_apply]

/-! ## Writing an entry of a table -/

section Table

variable (h : Apart target U s D) (hd : d ∈ D) (hi : i ∈ U) (ht : target (s d i) = some t)
include h hd hi ht

theorem root_write_table (hd' : d' ∈ D) : write s t j e d' = s d' := by
  refine write_of_ne ?_
  rintro rfl
  exact h.notMem hd hi ht hd'

theorem apart_write_table : Apart target U (write s t j e) D :=
  h.congr fun d' hd' i' _ => by rw [root_write_table h hd hi ht hd']

theorem inUse_write_table (hn : InUse target U (write s t j e) D n) : InUse target U s D n :=
  hn.congr fun d' hd' i' _ => by rw [root_write_table h hd hi ht hd']

theorem lookup_write_table (hd' : d' ∈ D) (hi' : i' ∈ U) : lookup target (write s t j e) d' i' j' =
      if d' = d ∧ i' = i ∧ j' = j then target e else lookup target s d' i' j' := by
  rw [lookup, root_write_table h hd hi ht hd']
  by_cases hsame : d' = d ∧ i' = i
  · obtain ⟨rfl, rfl⟩ := hsame
    rw [lookup, ht, Option.bind_some, Option.bind_some, write_self]
    by_cases hj : j' = j
    · rw [if_pos hj, if_pos ⟨rfl, rfl, hj⟩]
    · rw [if_neg hj, if_neg fun hall => hj hall.2.2]
  · -- Another table, which is another node.
    rw [if_neg fun hall => hsame ⟨hall.1, hall.2.1⟩, lookup]
    cases ht' : target (s d' i') with
    | none => rfl
    | some t' =>
      have hne : t' ≠ t := by
        rintro rfl
        exact hsame (h.inj hd' hd hi' hi ht' ht)
      rw [Option.bind_some, Option.bind_some, write_of_ne hne]

end Table

/-! ## Writing an entry of a root -/

/-- The entry may change, if it still refers to the same table. -/
theorem target_write_root (he : target e = target (s d i)) :
    target (write s d i e d' i') = target (s d' i') := by
  by_cases hd' : d' = d
  · subst hd'
    rw [write_self]
    split
    · next hi => rw [he, hi]
    · rfl
  · rw [write_of_ne hd']

theorem apart_write_root (h : Apart target U s D) (he : target e = target (s d i)) :
    Apart target U (write s d i e) D :=
  h.congr fun _ _ _ _ => target_write_root he

theorem lookup_write_root (he : target e = target (s d i)) :
    lookup target (write s d i e) d' i' j' = lookup target s d' i' j' :=
  lookup_congr (target_write_root he) fun _ _ => target_write_root he

/-! ## New tables and roots -/

section AddTable

variable {empty : E} (hfresh : ¬InUse target U s D t) (he : target e = some t)
include hfresh he

theorem target_add_table (hd' : d' ∈ D) :
    target (Function.update (write s d i e) t (fun _ => empty) d' i') =
      if d' = d ∧ i' = i then some t else target (s d' i') := by
  have hne : d' ≠ t := by
    rintro rfl
    exact hfresh (Or.inl hd')
  rw [Function.update_of_ne hne]
  by_cases hsame : d' = d
  · subst hsame
    rw [write_self]
    by_cases hi' : i' = i
    · rw [if_pos hi', if_pos ⟨rfl, hi'⟩, he]
    · rw [if_neg hi', if_neg fun hall => hi' hall.2]
  · rw [write_of_ne hsame, if_neg fun hall => hsame hall.1]

theorem apart_add_table (h : Apart target U s D) :
    Apart target U (Function.update (write s d i e) t fun _ => empty) D where
  notMem {d' i' t'} hd' hi' ht' := by
    rw [target_add_table hfresh he hd'] at ht'
    split at ht'
    · cases ht'
      exact fun hmem => hfresh (Or.inl hmem)
    · exact h.notMem hd' hi' ht'
  inj {d₁ d₂ i₁ i₂ t'} hd₁ hd₂ hi₁ hi₂ ht₁ ht₂ := by
    rw [target_add_table hfresh he hd₁] at ht₁
    rw [target_add_table hfresh he hd₂] at ht₂
    split at ht₁ <;> split at ht₂
    · next h₁ h₂ => exact ⟨h₁.1.trans h₂.1.symm, h₁.2.trans h₂.2.symm⟩
    · cases ht₁
      exact absurd (Or.inr ⟨d₂, hd₂, i₂, hi₂, ht₂⟩) hfresh
    · cases ht₂
      exact absurd (Or.inr ⟨d₁, hd₁, i₁, hi₁, ht₁⟩) hfresh
    · exact h.inj hd₁ hd₂ hi₁ hi₂ ht₁ ht₂

theorem inUse_add_table
    (hn : InUse target U (Function.update (write s d i e) t fun _ => empty) D n) :
    n = t ∨ InUse target U s D n := by
  obtain hn | ⟨d', hd', i', hi', ht'⟩ := hn
  · exact Or.inr (Or.inl hn)
  · rw [target_add_table hfresh he hd'] at ht'
    split at ht'
    · cases ht'
      exact Or.inl rfl
    · exact Or.inr (Or.inr ⟨d', hd', i', hi', ht'⟩)

/-- A table without entries adds nothing. -/
theorem lookup_add_table (h : Apart target U s D) (hd : d ∈ D) (hnone : target (s d i) = none)
    (hempty : target empty = none) (hd' : d' ∈ D) (hi' : i' ∈ U) :
    lookup target (Function.update (write s d i e) t fun _ => empty) d' i' j' =
      lookup target s d' i' j' := by
  rw [lookup, target_add_table hfresh he hd']
  by_cases hsame : d' = d ∧ i' = i
  · obtain ⟨rfl, rfl⟩ := hsame
    rw [if_pos ⟨rfl, rfl⟩, lookup, hnone, Option.bind_some, Function.update_self, hempty]
    rfl
  · rw [if_neg hsame, lookup]
    cases ht' : target (s d' i') with
    | none => rfl
    | some t' =>
      have hne : t' ≠ t := by
        rintro rfl
        exact hfresh (Or.inr ⟨d', hd', i', hi', ht'⟩)
      have hroot : t' ≠ d := by
        rintro rfl
        exact h.notMem hd' hi' ht' hd
      rw [Option.bind_some, Option.bind_some, Function.update_of_ne hne, write_of_ne hroot]

/-- The same for a node that is linked in with the entries it has. -/
theorem target_link_table (hd' : d' ∈ D) : target (write s d i e d' i') =
    if d' = d ∧ i' = i then some t else target (s d' i') := by
  have hne : d' ≠ t := by
    rintro rfl
    exact hfresh (Or.inl hd')
  have hadd : target (Function.update (write s d i e) t (fun _ => e) d' i') =
      if d' = d ∧ i' = i then some t else target (s d' i') := target_add_table hfresh he hd'
  rwa [Function.update_of_ne hne] at hadd

theorem apart_link_table (h : Apart target U s D) : Apart target U (write s d i e) D := by
  have hadd : Apart target U (Function.update (write s d i e) t fun _ => e) D :=
    apart_add_table hfresh he h
  refine hadd.congr fun d' hd' i' _ => ?_
  rw [target_link_table hfresh he hd', target_add_table hfresh he hd']

theorem inUse_link_table (hn : InUse target U (write s d i e) D n) :
    n = t ∨ InUse target U s D n := by
  have hadd : InUse target U (Function.update (write s d i e) t fun _ => e) D n := by
    refine hn.congr fun d' hd' i' _ => ?_
    rw [target_link_table hfresh he hd', target_add_table hfresh he hd']
  exact inUse_add_table hfresh he hadd

end AddTable

section AddRoot

variable {es : I → E} (hes : ∀ i ∈ U, target (es i) = none)
include hes

omit [DecidableEq I] in
theorem target_add_root (hd : d ∈ insert n D) (hi : i ∈ U)
    (ht : target (Function.update s n es d i) = some t) : d ∈ D ∧ target (s d i) = some t := by
  have hne : d ≠ n := by
    rintro rfl
    rw [Function.update_self, hes i hi] at ht
    cases ht
  rw [Function.update_of_ne hne] at ht
  exact ⟨hd.resolve_left hne, ht⟩

omit [DecidableEq I] in
theorem apart_add_root (h : Apart target U s D) (hfresh : ¬InUse target U s D n) :
    Apart target U (Function.update s n es) (insert n D) where
  notMem hd hi ht hmem := by
    obtain ⟨hd, ht⟩ := target_add_root hes hd hi ht
    rcases hmem with hn | hmem
    · exact hfresh (Or.inr ⟨_, hd, _, hi, hn ▸ ht⟩)
    · exact h.notMem hd hi ht hmem
  inj hd hd' hi hi' ht ht' := by
    obtain ⟨hd, ht⟩ := target_add_root hes hd hi ht
    obtain ⟨hd', ht'⟩ := target_add_root hes hd' hi' ht'
    exact h.inj hd hd' hi hi' ht ht'

omit [DecidableEq I] in
theorem inUse_add_root {m : N} (hm : InUse target U (Function.update s n es) (insert n D) m) :
    m = n ∨ InUse target U s D m := by
  obtain (rfl | hm) | ⟨d', hd', i', hi', ht'⟩ := hm
  · exact Or.inl rfl
  · exact Or.inr (Or.inl hm)
  · obtain ⟨hd', ht'⟩ := target_add_root hes hd' hi' ht'
    exact Or.inr (Or.inr ⟨d', hd', i', hi', ht'⟩)

omit [DecidableEq I] in
theorem lookup_add_root (hfresh : ¬InUse target U s D n) (hd : d ∈ insert n D) (hi : i ∈ U) :
    lookup target (Function.update s n es) d i j =
      if d = n then none else lookup target s d i j := by
  by_cases hne : d = n
  · rw [if_pos hne, lookup, hne, Function.update_self, hes i hi]
    rfl
  · rw [if_neg hne]
    refine lookup_congr (by rw [Function.update_of_ne hne]) fun t ht => ?_
    have htable : t ≠ n := by
      rintro rfl
      exact hfresh (Or.inr ⟨d, hd.resolve_left hne, i, hi, ht⟩)
    rw [Function.update_of_ne htable]

end AddRoot

end TwoLevel
