import Mathlib.Algebra.BigOperators.Group.List.Basic
import Mathlib.Algebra.GroupWithZero.Nat
import Mathlib.Tactic.Common

/-!
# Tilings of an interval

Pieces laid out one after the other. `place size a l` has the pieces of `l` with the positions they
start at, the first one at `a`. Two pieces of a tiling are the same or do not overlap, and a part of
it can be replaced by pieces of the same total size without moving the others (`mem_place_parts`).
-/

namespace Tiling

variable {α : Type} {size : α → ℕ} {a x y : ℕ} {b c : α} {l xs ys zs : List α}

/-- The sizes of all pieces together. -/
def total (size : α → ℕ) (l : List α) : ℕ := (l.map size).sum

/-- The pieces and the positions they start at. -/
def place (size : α → ℕ) : ℕ → List α → List (ℕ × α)
  | _, [] => []
  | a, b :: l => (a, b) :: place size (a + size b) l

@[simp] theorem total_nil : total size [] = 0 := rfl

@[simp] theorem total_cons : total size (b :: l) = size b + total size l := List.sum_cons

@[simp] theorem total_append : total size (xs ++ ys) = total size xs + total size ys := by
  rw [total, List.map_append, List.sum_append]
  rfl

theorem place_append :
    place size a (xs ++ ys) = place size a xs ++ place size (a + total size xs) ys := by
  induction xs generalizing a with
  | nil => rfl
  | cons b xs ih => rw [List.cons_append, place, place, ih, total_cons, Nat.add_assoc, List.cons_append]

/-- The pieces before a placed one end where it starts. -/
theorem mem_place : (x, b) ∈ place size a l ↔
    ∃ xs ys, l = xs ++ b :: ys ∧ x = a + total size xs := by
  constructor
  · intro h
    induction l generalizing a with
    | nil => exact absurd h List.not_mem_nil
    | cons c l ih =>
      obtain h | h := List.mem_cons.mp h
      · obtain ⟨rfl, rfl⟩ := Prod.mk.inj h
        exact ⟨[], l, rfl, rfl⟩
      · obtain ⟨xs, ys, rfl, rfl⟩ := ih h
        exact ⟨c :: xs, ys, rfl, by rw [total_cons, Nat.add_assoc]⟩
  · rintro ⟨xs, ys, rfl, rfl⟩
    rw [place_append]
    exact List.mem_append_right _ List.mem_cons_self

theorem map_snd_place : (place size a l).map Prod.snd = l := by
  induction l generalizing a with
  | nil => rfl
  | cons b l ih => rw [place, List.map_cons, ih]

theorem mem_of_place (h : (x, b) ∈ place size a l) : b ∈ l := by
  obtain ⟨xs, ys, rfl, -⟩ := mem_place.mp h
  exact List.mem_append_right _ List.mem_cons_self

theorem bounds_of_mem (h : (x, b) ∈ place size a l) : a ≤ x ∧ x + size b ≤ a + total size l := by
  obtain ⟨xs, ys, rfl, rfl⟩ := mem_place.mp h
  rw [total_append, total_cons]
  omega

theorem eq_or_apart (hx : (x, b) ∈ place size a l) (hy : (y, c) ∈ place size a l) :
    (x, b) = (y, c) ∨ x + size b ≤ y ∨ y + size c ≤ x := by
  induction l generalizing a with
  | nil => exact absurd hx List.not_mem_nil
  | cons d l ih =>
    obtain hx | hx := List.mem_cons.mp hx
    · obtain ⟨rfl, rfl⟩ := Prod.mk.inj hx
      obtain hy | hy := List.mem_cons.mp hy
      · exact .inl hy.symm
      · exact .inr (.inl (bounds_of_mem hy).1)
    · obtain hy | hy := List.mem_cons.mp hy
      · obtain ⟨rfl, rfl⟩ := Prod.mk.inj hy
        exact .inr (.inr (bounds_of_mem hx).1)
      · exact ih hx hy

/-- The pieces before a part, in it and behind it. -/
theorem mem_place_parts : (x, b) ∈ place size a (xs ++ zs ++ ys) ↔
    (x, b) ∈ place size a xs ∨ (x, b) ∈ place size (a + total size xs) zs ∨
      (x, b) ∈ place size (a + total size xs + total size zs) ys := by
  rw [place_append, place_append, List.mem_append, List.mem_append, total_append, ← Nat.add_assoc,
    or_assoc]

theorem length_le_total (hpos : ∀ b ∈ l, 0 < size b) : l.length ≤ total size l := by
  induction l with
  | nil => exact Nat.le_refl 0
  | cons b l ih =>
    have hb := hpos b List.mem_cons_self
    have hl := ih fun c hc => hpos c (List.mem_cons_of_mem b hc)
    rw [List.length_cons, total_cons]
    omega

end Tiling
