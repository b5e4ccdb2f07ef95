import Mathlib.Logic.Function.Basic
import Mathlib.Data.List.Basic
import Mathlib.Data.List.Nodup
import Mathlib.Tactic.Common

/-!
# Intrusive singly linked lists

A cell is an index, and `next : ι → Option ι` is the successor field of every cell. `Seg`
is the usual list segment: starting at `start` and following `next` visits exactly the
cells of a list and then stands at `stop`. A queue is a segment that stops at `none`.

The update lemmas are the four edits a queue with a head and a tail pointer makes:

* `Seg.frame`: a write outside the segment is invisible;
* `Seg.push`: linking a fresh cell in front;
* `Seg.snoc`: linking a fresh cell behind the last one;
* `Seg.toFront`: unlinking an inner cell and linking it in front.

A segment that stops at `none` never meets a cell twice (`Seg.nodup`), so nothing has to be
assumed about that.
-/

namespace LinkedCells

variable {ι : Type} {next next' : ι → Option ι} {start stop mid : Option ι} {l l₁ l₂ : List ι}

/-- Following `next` from `start` visits exactly the cells `l`, then stands at `stop`. -/
def Seg (next : ι → Option ι) : Option ι → List ι → Option ι → Prop
  | start, [], stop => start = stop
  | start, i :: l, stop => start = some i ∧ Seg next (next i) l stop

@[simp] theorem seg_nil : Seg next start [] stop ↔ start = stop := Iff.rfl

@[simp] theorem seg_cons {i : ι} :
    Seg next start (i :: l) stop ↔ start = some i ∧ Seg next (next i) l stop := Iff.rfl

theorem seg_append :
    Seg next start (l₁ ++ l₂) stop ↔ ∃ mid, Seg next start l₁ mid ∧ Seg next mid l₂ stop := by
  induction l₁ generalizing start with
  | nil => simp
  | cons i l₁ ih =>
    simp only [List.cons_append, seg_cons, ih]
    constructor
    · rintro ⟨hstart, mid, h₁, h₂⟩
      exact ⟨mid, ⟨hstart, h₁⟩, h₂⟩
    · rintro ⟨mid, ⟨hstart, h₁⟩, h₂⟩
      exact ⟨hstart, mid, h₁, h₂⟩

theorem Seg.frame (h : Seg next start l stop) (heq : ∀ i ∈ l, next' i = next i) :
    Seg next' start l stop := by
  induction l generalizing start with
  | nil => exact h
  | cons i l ih =>
    refine ⟨h.1, ?_⟩
    rw [heq i List.mem_cons_self]
    exact ih h.2 fun j hj => heq j (List.mem_cons_of_mem i hj)

theorem Seg.unique (h₁ : Seg next start l₁ none) (h₂ : Seg next start l₂ none) : l₁ = l₂ := by
  induction l₁ generalizing start l₂ with
  | nil =>
    cases l₂ with
    | nil => rfl
    | cons j l₂ =>
      rw [seg_nil] at h₁
      exact absurd (h₁.symm.trans h₂.1) nofun
  | cons i l₁ ih =>
    cases l₂ with
    | nil =>
      rw [seg_nil] at h₂
      exact absurd (h₂.symm.trans h₁.1) nofun
    | cons j l₂ =>
      have hij : i = j := Option.some.inj (h₁.1.symm.trans h₂.1)
      subst hij
      rw [ih h₁.2 h₂.2]

/-- A terminated segment has no repeated cell: the part after either occurrence of a cell
would be one and the same list. -/
theorem Seg.nodup (h : Seg next start l none) : l.Nodup := by
  induction l generalizing start with
  | nil => exact List.nodup_nil
  | cons i l ih =>
    refine List.nodup_cons.mpr ⟨fun hi => ?_, ih h.2⟩
    obtain ⟨l₁, l₂, rfl⟩ := List.append_of_mem hi
    obtain ⟨mid, -, hmid, hrest⟩ := seg_append.mp h.2
    have hlen := congrArg List.length (Seg.unique h.2 hrest)
    simp only [List.length_append, List.length_cons] at hlen
    omega

/-- The cell before the end of a terminated segment has no successor. -/
theorem Seg.next_last {t : ι} (h : Seg next start (l ++ [t]) none) : next t = none := by
  obtain ⟨mid, -, -, hlast⟩ := seg_append.mp h
  exact hlast

section Update

variable [DecidableEq ι]

/-- Link the cell `i` in front of a segment that does not hold it. -/
theorem Seg.push {i : ι} (h : Seg next start l stop) (hi : i ∉ l) :
    Seg (Function.update next i start) (some i) (i :: l) stop := by
  refine ⟨rfl, ?_⟩
  rw [Function.update_self]
  refine h.frame fun j hj => Function.update_of_ne ?_ _ _
  rintro rfl
  exact hi hj

/-- Link the cell `j` behind the last cell `t` of a queue that does not hold it. -/
theorem Seg.snoc {t j : ι} (h : Seg next start (l ++ [t]) none) (hj : j ∉ l ++ [t]) :
    Seg (Function.update (Function.update next t (some j)) j none) start
      (l ++ [t] ++ [j]) none := by
  have htj : t ≠ j := by
    rintro rfl
    exact hj (by simp)
  have htl : t ∉ l := by
    have hnodup := h.nodup
    rw [List.nodup_append] at hnodup
    exact fun ht => hnodup.2.2 t ht t (by simp) rfl
  have hjl : j ∉ l := fun hmem => hj (List.mem_append_left _ hmem)
  obtain ⟨mid, hl, rfl, -⟩ := seg_append.mp h
  rw [List.append_assoc, seg_append]
  refine ⟨some t, hl.frame fun i hi => ?_, rfl, ?_, ?_⟩
  · have hij : i ≠ j := fun hij => hjl (hij ▸ hi)
    have hit : i ≠ t := fun hit => htl (hit ▸ hi)
    rw [Function.update_of_ne hij, Function.update_of_ne hit]
  · rw [Function.update_of_ne htj, Function.update_self]
  · rw [seg_nil, Function.update_self]

/-- Unlink the cell `c` behind `p` and link it in front of the queue. -/
theorem Seg.toFront {p c : ι} (h : Seg next start (l₁ ++ p :: c :: l₂) none) :
    Seg (Function.update (Function.update next p (next c)) c start) (some c)
      (c :: (l₁ ++ p :: l₂)) none := by
  have hnodup := h.nodup
  simp only [List.nodup_append, List.nodup_cons, List.mem_cons, not_or] at hnodup
  obtain ⟨-, ⟨⟨hpc, hpl₂⟩, hcl₂, -⟩, hdisj⟩ := hnodup
  obtain ⟨mid, hl₁, rfl, hp, hl₂⟩ := seg_append.mp h
  have hother : ∀ i, i ≠ p → i ≠ c →
      Function.update (Function.update next p (next c)) c start i = next i := by
    intro i hip hic
    rw [Function.update_of_ne hic, Function.update_of_ne hip]
  refine ⟨rfl, ?_⟩
  rw [Function.update_self, seg_append]
  refine ⟨some p, hl₁.frame fun i hi => ?_, rfl, ?_⟩
  · exact hother i (fun hip => hdisj i hi p (Or.inl rfl) hip)
      (fun hic => hdisj i hi c (Or.inr (Or.inl rfl)) hic)
  · rw [Function.update_of_ne hpc, Function.update_self]
    refine hl₂.frame fun i hi => hother i ?_ ?_
    · rintro rfl
      exact hpl₂ hi
    · rintro rfl
      exact hcl₂ hi

end Update

/-! ## Reading a segment -/

/-- The first `n` cells met from `start`, fewer if the chain stops earlier. -/
def walk (next : ι → Option ι) : Nat → Option ι → List ι
  | 0, _ => []
  | _ + 1, none => []
  | n + 1, some i => i :: walk next n (next i)

theorem Seg.walk_eq (h : Seg next start l none) : walk next l.length start = l := by
  induction l generalizing start with
  | nil => rfl
  | cons i l ih =>
    obtain ⟨rfl, hrest⟩ := h
    rw [List.length_cons, walk, ih hrest]

end LinkedCells
