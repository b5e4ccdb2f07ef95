import Mathlib.Data.List.Rotate
import Mathlib.Data.List.Nodup
import Mathlib.Logic.Function.Iterate
import Mathlib.Tactic.Common

/-!
# Doubly linked rings

A cell is an element of `ι`, with a successor and a predecessor given by `next` and `prev`.
`Ring next prev l` says that the cells of `l` form a ring in this order: following `next` from
the first cell visits the list and arrives at the first cell again, and `prev` leads back.

The edits are those of a scheduler queue:

* `Ring.snoc`: linking a fresh cell behind the last one;
* `Ring.erase`: unlinking a cell of a ring with others;
* `Ring.rotate`: reading the ring from the next cell on.
-/

namespace LinkedRing

variable {ι : Type} {next prev next' prev' : ι → ι} {x y u : ι} {l l₁ l₂ : List ι}

/-- From `x` through the cells of `l` to `y`, linked both ways. -/
def Path (next prev : ι → ι) : ι → List ι → ι → Prop
  | x, [], y => next x = y ∧ prev y = x
  | x, z :: l, y => next x = z ∧ prev z = x ∧ Path next prev z l y

theorem path_append :
    Path next prev x (l₁ ++ u :: l₂) y ↔ Path next prev x l₁ u ∧ Path next prev u l₂ y := by
  induction l₁ generalizing x with
  | nil => exact and_assoc.symm
  | cons z l₁ ih =>
    rw [List.cons_append, Path, Path, ih, and_assoc, and_assoc]

/-- A path reads the successors of its cells but the last, and the predecessors of its cells
but the first. -/
theorem Path.frame (h : Path next prev x l y) (hnext : ∀ i ∈ x :: l, next' i = next i)
    (hprev : ∀ i ∈ l ++ [y], prev' i = prev i) : Path next' prev' x l y := by
  induction l generalizing x with
  | nil => exact ⟨(hnext x (by simp)).trans h.1, (hprev y (by simp)).trans h.2⟩
  | cons z l ih =>
    refine ⟨(hnext x (by simp)).trans h.1, (hprev z (by simp)).trans h.2.1, ih h.2.2 ?_ ?_⟩
    · exact fun i hi => hnext i (List.mem_cons_of_mem x hi)
    · exact fun i hi => hprev i (List.mem_cons_of_mem z hi)

theorem Path.prev_mem (h : Path next prev x l y) : prev y ∈ x :: l := by
  induction l generalizing x with
  | nil => rw [h.2]; exact List.mem_cons_self
  | cons z l ih => exact List.mem_cons_of_mem x (ih h.2.2)

theorem Path.next_mem (h : Path next prev x l y) : next x ∈ l ++ [y] := by
  cases l with
  | nil => rw [h.1]; exact List.mem_cons_self
  | cons z l => rw [h.1]; exact List.mem_cons_self

/-- The cells of `l` are linked into a ring, in this order. -/
def Ring (next prev : ι → ι) : List ι → Prop
  | [] => True
  | x :: l => (x :: l).Nodup ∧ Path next prev x l x

theorem Ring.nodup (h : Ring next prev l) : l.Nodup := by
  cases l with
  | nil => exact List.nodup_nil
  | cons x l => exact h.1

theorem Ring.frame (h : Ring next prev l) (hnext : ∀ i ∈ l, next' i = next i)
    (hprev : ∀ i ∈ l, prev' i = prev i) : Ring next' prev' l := by
  cases l with
  | nil => trivial
  | cons x l =>
    refine ⟨h.1, h.2.frame hnext fun i hi => hprev i ?_⟩
    rw [List.mem_append, List.mem_singleton] at hi
    exact List.mem_cons.mpr hi.symm

theorem ring_singleton : Ring next prev [x] ↔ next x = x ∧ prev x = x := by
  simp [Ring, Path]

theorem Ring.rotate (h : Ring next prev (x :: l)) : Ring next prev (l ++ [x]) := by
  cases l with
  | nil => exact h
  | cons z l =>
    obtain ⟨hnodup, hnext, hprev, hpath⟩ := h
    refine ⟨?_, path_append.mpr ⟨hpath, hnext, hprev⟩⟩
    exact (List.perm_append_singleton x (z :: l)).nodup_iff.mpr hnodup

theorem Ring.rotate_to (h : Ring next prev (l₁ ++ l₂)) : Ring next prev (l₂ ++ l₁) := by
  induction l₁ generalizing l₂ with
  | nil => rwa [List.append_nil]
  | cons x l₁ ih =>
    have hrotate : Ring next prev (l₁ ++ (l₂ ++ [x])) := by
      rw [← List.append_assoc]
      exact h.rotate
    have hrest := ih hrotate
    rwa [List.append_assoc, List.singleton_append] at hrest

theorem Ring.next_eq (h : Ring next prev (x :: l)) : next x = (l ++ [x]).head (by simp) := by
  cases l with
  | nil => exact h.2.1
  | cons z l => exact h.2.1

/-- Following `next` from the first cell reads the list. -/
theorem Ring.iterate (h : Ring next prev (x :: l)) (n : ℕ) :
    ((x :: l).rotate n).head? = some (next^[n] x) := by
  induction n generalizing x l with
  | zero => rfl
  | succ n ih =>
    rw [List.rotate_cons_succ, Function.iterate_succ_apply]
    cases l with
    | nil => rw [(ring_singleton.mp h).1, List.nil_append, ih h]
    | cons z l =>
      rw [h.2.1]
      exact ih h.rotate

/-- A cell is its own successor only if it is alone. -/
theorem Ring.next_eq_self (h : Ring next prev l) (hu : u ∈ l) : next u = u ↔ l = [u] := by
  obtain ⟨l₁, l₂, rfl⟩ := List.append_of_mem hu
  have hring : Ring next prev (u :: (l₂ ++ l₁)) := h.rotate_to
  cases hl : l₂ ++ l₁ with
  | nil =>
    rw [List.append_eq_nil_iff] at hl
    rw [hl.1, hl.2] at hring ⊢
    exact iff_of_true hring.2.1 rfl
  | cons z l =>
    rw [hl] at hring
    have hne : next u ≠ u := by
      rw [hring.2.1]
      rintro rfl
      exact (List.nodup_cons.mp hring.1).1 List.mem_cons_self
    refine iff_of_false hne fun heq => ?_
    have hlen := congrArg List.length heq
    have hlen' := congrArg List.length hl
    simp only [List.length_append, List.length_cons, List.length_nil] at hlen hlen'
    omega

theorem Ring.next_mem (h : Ring next prev l) (hu : u ∈ l) : next u ∈ l := by
  obtain ⟨l₁, l₂, rfl⟩ := List.append_of_mem hu
  have hring : Ring next prev (u :: (l₂ ++ l₁)) := h.rotate_to
  have hmem := hring.2.next_mem
  simp only [List.mem_append, List.mem_cons] at hmem ⊢
  tauto

theorem Ring.prev_mem (h : Ring next prev l) (hu : u ∈ l) : prev u ∈ l := by
  obtain ⟨l₁, l₂, rfl⟩ := List.append_of_mem hu
  have hring : Ring next prev (u :: (l₂ ++ l₁)) := h.rotate_to
  have hmem := hring.2.prev_mem
  simp only [List.mem_append, List.mem_cons] at hmem ⊢
  tauto

theorem Ring.prev_next (h : Ring next prev l) (hu : u ∈ l) : prev (next u) = u := by
  obtain ⟨l₁, l₂, rfl⟩ := List.append_of_mem hu
  have hring : Ring next prev (u :: (l₂ ++ l₁)) := h.rotate_to
  cases hl : l₂ ++ l₁ with
  | nil =>
    rw [hl] at hring
    rw [hring.2.1, hring.2.2]
  | cons z l =>
    rw [hl] at hring
    rw [hring.2.1, hring.2.2.1]

section Update

variable [DecidableEq ι]

/-- Let a path end at a fresh cell. -/
theorem Path.redirect (h : Path next prev x l y) (hnodup : (x :: l).Nodup) (hu : u ∉ l) :
    Path (Function.update next (prev y) u) (Function.update prev u (prev y)) x l u := by
  induction l generalizing x with
  | nil =>
    rw [h.2]
    exact ⟨Function.update_self .., Function.update_self ..⟩
  | cons z l ih =>
    obtain ⟨hnext, hprev, hpath⟩ := h
    obtain ⟨hx, hnodup⟩ := List.nodup_cons.mp hnodup
    have hxy : x ≠ prev y := fun heq => hx (heq ▸ hpath.prev_mem)
    have hzu : z ≠ u := fun heq => hu (heq ▸ List.mem_cons_self)
    refine ⟨?_, ?_, ih hpath hnodup fun hmem => hu (List.mem_cons_of_mem z hmem)⟩
    · rw [Function.update_of_ne hxy, hnext]
    · rw [Function.update_of_ne hzu, hprev]

theorem Ring.snoc (h : Ring next prev (x :: l)) (hu : u ∉ x :: l) :
    Ring (Function.update (Function.update next u x) (prev x) u)
      (Function.update (Function.update prev u (prev x)) x u) (x :: l ++ [u]) := by
  obtain ⟨hnodup, hpath⟩ := h
  have hxl := (List.nodup_cons.mp hnodup).1
  have hxu : x ≠ u := fun heq => hu (heq ▸ List.mem_cons_self)
  have hlast : prev x ≠ u := fun heq => hu (heq ▸ hpath.prev_mem)
  refine ⟨(List.perm_append_singleton u (x :: l)).nodup_iff.mpr (List.nodup_cons.mpr ⟨hu, hnodup⟩),
    path_append.mpr ⟨?_, ?_, Function.update_self ..⟩⟩
  · have hnext : ∀ i ∈ x :: l, Function.update next u x i = next i := fun i hi =>
      Function.update_of_ne (fun heq : i = u => hu (heq ▸ hi)) _ _
    have hredirect := (hpath.frame hnext fun _ _ => rfl).redirect hnodup
      fun hmem => hu (List.mem_cons_of_mem x hmem)
    refine hredirect.frame (fun _ _ => rfl) fun i hi => Function.update_of_ne ?_ _ _
    rintro rfl
    rw [List.mem_append, List.mem_singleton] at hi
    exact hi.elim hxl hxu
  · rw [Function.update_of_ne hlast.symm, Function.update_self]

/-- Unlink a cell from between two others. -/
theorem Path.bypass (h₁ : Path next prev x l₁ u) (h₂ : Path next prev u l₂ y)
    (hnodup : (x :: (l₁ ++ u :: l₂)).Nodup) (hy : y ∉ l₁ ++ u :: l₂) :
    Path (Function.update next (prev u) (next u)) (Function.update prev (next u) (prev u))
      x (l₁ ++ l₂) y := by
  induction l₁ generalizing x with
  | nil =>
    obtain ⟨-, rfl⟩ := h₁
    cases l₂ with
    | nil =>
      obtain ⟨rfl, -⟩ := h₂
      exact ⟨Function.update_self .., Function.update_self ..⟩
    | cons z l₂ =>
      obtain ⟨rfl, -, hpath⟩ := h₂
      refine ⟨Function.update_self .., Function.update_self .., hpath.frame ?_ ?_⟩
      · intro i hi
        refine Function.update_of_ne ?_ _ _
        rintro rfl
        exact (List.nodup_cons.mp hnodup).1 (List.mem_cons_of_mem u hi)
      · intro i hi
        refine Function.update_of_ne ?_ _ _
        rintro rfl
        rw [List.mem_append, List.mem_singleton] at hi
        simp only [List.nil_append, List.nodup_cons, List.mem_cons, not_or] at hnodup hy
        exact hi.elim hnodup.2.2.1 (Ne.symm hy.2.1)
  | cons w l₁ ih =>
    obtain ⟨hnext, hprev, hpath⟩ := h₁
    obtain ⟨hx, hnodup'⟩ := List.nodup_cons.mp hnodup
    have hxu : x ≠ prev u := by
      intro heq
      have hmem := heq ▸ hpath.prev_mem
      exact hx (List.mem_append_left (u :: l₂) hmem)
    have hwu : w ≠ next u := by
      intro heq
      have hmem : w ∈ l₂ ++ [y] := heq ▸ h₂.next_mem
      rw [List.mem_append, List.mem_singleton] at hmem
      rcases hmem with hmem | rfl
      · exact (List.nodup_cons.mp hnodup').1
          (List.mem_append_right l₁ (List.mem_cons_of_mem u hmem))
      · exact hy List.mem_cons_self
    refine ⟨?_, ?_, ih hpath hnodup' fun hmem => hy (List.mem_cons_of_mem w hmem)⟩
    · rw [Function.update_of_ne hxu, hnext]
    · rw [Function.update_of_ne hwu, hprev]

theorem Ring.erase (h : Ring next prev l) (hu : u ∈ l) (hl : l ≠ [u]) :
    Ring (Function.update next (prev u) (next u)) (Function.update prev (next u) (prev u))
      (l.erase u) := by
  obtain ⟨l₁, l₂, -, rfl, herase⟩ := List.exists_erase_eq hu
  rw [herase]
  cases l₁ with
  | nil =>
    cases l₂ with
    | nil => exact absurd rfl hl
    | cons x l₂ =>
      -- Read from the second cell on, the first one is the last one.
      have hring : Ring next prev (x :: (l₂ ++ [u])) := h.rotate
      obtain ⟨h₁, h₂⟩ := path_append.mp hring.2
      have hbypass := h₁.bypass h₂ hring.1 (List.nodup_cons.mp hring.1).1
      rw [List.append_nil] at hbypass
      exact ⟨(List.nodup_cons.mp h.1).2, hbypass⟩
  | cons x l₁ =>
    obtain ⟨h₁, h₂⟩ := path_append.mp h.2
    refine ⟨?_, h₁.bypass h₂ h.1 (List.nodup_cons.mp h.1).1⟩
    exact h.1.sublist (List.Sublist.append_left (List.sublist_cons_self u l₂) (x :: l₁))

end Update

end LinkedRing
