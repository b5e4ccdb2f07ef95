import Mathlib.Data.List.Nodup
import Mathlib.Logic.Function.Basic
import Mathlib.Tactic.Common

/-!
# Round robin

A queue of runnable tasks whose first one runs, each with the ticks it has left of a common
quantum. A tick that uses up the quantum of the running task turns the queue.

A task at distance `d` runs after at most `d` quanta, whatever else happens to the queue, as
long as it stays in it: `Queue.wait` bounds the ticks until then. It never grows while the task
waits, and every tick lowers it (`Queue.wait_apply`).
-/

namespace RoundRobin

variable {α : Type} [DecidableEq α] {quantum : ℕ} {a : α}

/-- The runnable tasks, the running one first, and the ticks they have left. -/
structure Queue (α : Type) where
  tasks : List α
  slice : α → ℕ

inductive Op (α : Type) where
  | enqueue (a : α)
  /-- The others are removed. -/
  | keep (alive : α → Bool)
  | turn
  | tick
  /-- Something that does not concern the queue. -/
  | idle

def Op.isTick : Op α → Bool
  | .tick => true
  | _ => false

namespace Queue

variable {q : Queue α} {op : Op α}

/-- The running task starts a new quantum, at the end of the queue. -/
def turn (quantum : ℕ) (q : Queue α) : Queue α :=
  match q.tasks with
  | [] => q
  | a :: l => ⟨l ++ [a], Function.update q.slice a quantum⟩

/-- The running task has used a tick, perhaps its last one. -/
def tick (quantum : ℕ) (q : Queue α) : Queue α :=
  match q.tasks with
  | [] => q
  | a :: l =>
      if q.slice a = 1 then q.turn quantum
      else ⟨a :: l, Function.update q.slice a (q.slice a - 1)⟩

def apply (quantum : ℕ) (q : Queue α) : Op α → Queue α
  | .enqueue a => ⟨q.tasks ++ [a], Function.update q.slice a quantum⟩
  | .keep alive => ⟨q.tasks.filter alive, q.slice⟩
  | .turn => q.turn quantum
  | .tick => q.tick quantum
  | .idle => q

/-- No task is queued twice. -/
def Allows (q : Queue α) : Op α → Prop
  | .enqueue a => a ∉ q.tasks
  | _ => True

/-- Every task has a part of its quantum left. -/
structure Fair (quantum : ℕ) (q : Queue α) : Prop where
  nodup : q.tasks.Nodup
  slice : ∀ a ∈ q.tasks, 1 ≤ q.slice a ∧ q.slice a ≤ quantum

/-- An operation that gives only one task a new slice. -/
theorem Fair.update {l : List α} {n : ℕ} (h : q.Fair quantum) (hnodup : l.Nodup)
    (hl : ∀ b ∈ l, b = a ∨ b ∈ q.tasks) (hn : 1 ≤ n ∧ n ≤ quantum) :
    Fair quantum ⟨l, Function.update q.slice a n⟩ := by
  refine ⟨hnodup, fun b hb => ?_⟩
  show 1 ≤ Function.update q.slice a n b ∧ Function.update q.slice a n b ≤ quantum
  by_cases hba : b = a
  · rw [hba, Function.update_self]
    exact hn
  · rw [Function.update_of_ne hba]
    exact h.slice b ((hl b hb).resolve_left hba)

theorem Fair.turn (hquantum : 1 ≤ quantum) (h : q.Fair quantum) : (q.turn quantum).Fair quantum := by
  unfold Queue.turn
  split
  · exact h
  · next a l htasks =>
    have hnodup := h.nodup
    rw [htasks] at hnodup
    refine h.update ((List.perm_append_singleton a l).nodup_iff.mpr hnodup) (fun b hb => ?_)
      ⟨hquantum, Nat.le_refl quantum⟩
    rw [htasks]
    exact Or.inr ((List.perm_append_singleton a l).mem_iff.mp hb)

theorem Fair.tick (hquantum : 1 ≤ quantum) (h : q.Fair quantum) : (q.tick quantum).Fair quantum := by
  unfold Queue.tick
  split
  · exact h
  · next a l htasks =>
    have hslice := h.slice a (by rw [htasks]; exact List.mem_cons_self)
    split
    · exact h.turn hquantum
    · refine h.update (htasks ▸ h.nodup) (fun b hb => Or.inr ?_) (by omega)
      rw [htasks]
      exact hb

theorem Fair.apply (hquantum : 1 ≤ quantum) (h : q.Fair quantum) (hop : q.Allows op) :
    (q.apply quantum op).Fair quantum := by
  cases op with
  | enqueue a =>
    have hnodup : (q.tasks ++ [a]).Nodup :=
      (List.perm_append_singleton a q.tasks).nodup_iff.mpr (List.nodup_cons.mpr ⟨hop, h.nodup⟩)
    refine h.update hnodup (fun b hb => ?_) ⟨hquantum, Nat.le_refl quantum⟩
    rw [List.mem_append, List.mem_singleton] at hb
    exact hb.symm
  | keep alive =>
    exact ⟨h.nodup.filter _, fun b hb => h.slice b (List.mem_filter.mp hb).1⟩
  | turn => exact h.turn hquantum
  | tick => exact h.tick hquantum
  | idle => exact h

/-! ## Waiting -/

/-- How many tasks run before `a`. -/
def distance (q : Queue α) (a : α) : ℕ := q.tasks.idxOf a

/-- A bound on the ticks before `a` runs. -/
def wait (quantum : ℕ) (q : Queue α) (a : α) : ℕ :=
  match q.tasks with
  | [] => 0
  | b :: l => if b = a then 0 else q.slice b + quantum * l.idxOf a

theorem wait_cons {b : α} {l : List α} {slice : α → ℕ} (hne : b ≠ a) :
    wait quantum ⟨b :: l, slice⟩ a = slice b + quantum * l.idxOf a := if_neg hne

theorem distance_cons {b : α} {l : List α} {slice : α → ℕ} (hne : b ≠ a) :
    distance ⟨b :: l, slice⟩ a = l.idxOf a + 1 := List.idxOf_cons_ne l hne

theorem wait_le (h : q.Fair quantum) : q.wait quantum a ≤ quantum * q.distance a := by
  obtain ⟨tasks, slice⟩ := q
  cases tasks with
  | nil => exact Nat.zero_le _
  | cons b l =>
    by_cases hba : b = a
    · have hzero : wait quantum ⟨b :: l, slice⟩ a = 0 := if_pos hba
      rw [hzero]
      exact Nat.zero_le _
    · have hslice := (h.slice b List.mem_cons_self).2
      rw [wait_cons hba, distance_cons hba, Nat.mul_succ, Nat.add_comm]
      exact Nat.add_le_add_left hslice _

theorem head_of_wait_eq_zero (h : q.Fair quantum) (ha : a ∈ q.tasks)
    (hwait : q.wait quantum a = 0) : q.tasks.head? = some a := by
  obtain ⟨tasks, slice⟩ := q
  cases tasks with
  | nil => cases ha
  | cons b l =>
    by_cases hba : b = a
    · exact congrArg some hba
    · have hslice : 1 ≤ slice b := (h.slice b List.mem_cons_self).1
      rw [wait_cons hba] at hwait
      omega

/-- Removing other tasks does not move `a` back. -/
theorem idxOf_filter_le {p : α → Bool} {l : List α} (hp : p a = true) :
    (l.filter p).idxOf a ≤ l.idxOf a := by
  induction l with
  | nil => exact Nat.le_refl 0
  | cons b l ih =>
    by_cases hba : b = a
    · subst hba
      rw [List.filter_cons_of_pos hp, List.idxOf_cons_self]
      exact Nat.zero_le _
    · rw [List.idxOf_cons_ne l hba]
      by_cases hb : p b = true
      · rw [List.filter_cons_of_pos hb, List.idxOf_cons_ne _ hba]
        exact Nat.succ_le_succ ih
      · rw [List.filter_cons_of_neg hb]
        exact Nat.le_succ_of_le ih

/-! ## A waiting task

The queue is `b :: l`, and `a` is in `l`. -/

section Waiting

variable {b : α} {l : List α} {slice : α → ℕ}

theorem tick_last (hlast : slice b = 1) :
    tick quantum ⟨b :: l, slice⟩ = turn quantum ⟨b :: l, slice⟩ := if_pos hlast

theorem tick_more (hmore : slice b ≠ 1) :
    tick quantum ⟨b :: l, slice⟩ = ⟨b :: l, Function.update slice b (slice b - 1)⟩ := if_neg hmore

/-- A turn brings `a` one place closer. -/
theorem distance_turn (hne : b ≠ a) (ha : a ∈ l) :
    (turn quantum ⟨b :: l, slice⟩).distance a + 1 = distance ⟨b :: l, slice⟩ a := by
  rw [distance_cons hne]
  exact congrArg (· + 1) (List.idxOf_append_of_mem ha)

/-- The distance never grows while `a` waits. -/
theorem distance_apply (hne : b ≠ a) (ha : a ∈ l)
    (ha' : a ∈ (apply quantum ⟨b :: l, slice⟩ op).tasks) :
    (apply quantum ⟨b :: l, slice⟩ op).distance a ≤ distance ⟨b :: l, slice⟩ a := by
  cases op with
  | enqueue c => exact Nat.le_of_eq (List.idxOf_append_of_mem (List.mem_cons_of_mem b ha))
  | keep alive => exact idxOf_filter_le (List.mem_filter.mp ha').2
  | turn => exact Nat.le_of_lt (Nat.le_of_eq (distance_turn hne ha))
  | tick =>
    by_cases hlast : slice b = 1
    · rw [apply, tick_last hlast]
      exact Nat.le_of_lt (Nat.le_of_eq (distance_turn hne ha))
    · rw [apply, tick_more hlast]
      exact Nat.le_refl _
  | idle => exact Nat.le_refl _

theorem wait_turn (hquantum : 1 ≤ quantum) (h : Fair quantum ⟨b :: l, slice⟩) (hne : b ≠ a)
    (ha : a ∈ l) :
    (turn quantum ⟨b :: l, slice⟩).wait quantum a + 1 ≤ wait quantum ⟨b :: l, slice⟩ a := by
  have hslice : 1 ≤ slice b := (h.slice b List.mem_cons_self).1
  have hle := wait_le (a := a) (h.turn hquantum)
  have hidx : (turn quantum ⟨b :: l, slice⟩).distance a = l.idxOf a :=
    List.idxOf_append_of_mem ha
  rw [hidx] at hle
  rw [wait_cons hne]
  omega

/-- What `a` has to wait does not get longer, and every tick makes it shorter. -/
theorem wait_apply (hquantum : 1 ≤ quantum) (h : Fair quantum ⟨b :: l, slice⟩)
    (hop : Allows ⟨b :: l, slice⟩ op) (hne : b ≠ a) (ha : a ∈ l)
    (ha' : a ∈ (apply quantum ⟨b :: l, slice⟩ op).tasks) :
    (apply quantum ⟨b :: l, slice⟩ op).wait quantum a + op.isTick.toNat ≤
      wait quantum ⟨b :: l, slice⟩ a := by
  have hslice : 1 ≤ slice b := (h.slice b List.mem_cons_self).1
  cases op with
  | enqueue c =>
    have hbc : b ≠ c := fun hbc => hop (hbc ▸ List.mem_cons_self)
    have hwait : (apply quantum ⟨b :: l, slice⟩ (.enqueue c)).wait quantum a =
        Function.update slice c quantum b + quantum * (l ++ [c]).idxOf a := wait_cons hne
    rw [hwait, wait_cons hne, Function.update_of_ne hbc, List.idxOf_append_of_mem ha]
    exact Nat.le_refl _
  | keep alive =>
    have halive := (List.mem_filter.mp ha').2
    have hidx : (l.filter alive).idxOf a ≤ l.idxOf a := idxOf_filter_le halive
    have hmul := Nat.mul_le_mul_left quantum hidx
    rw [wait_cons hne]
    by_cases hb : alive b = true
    · have hwait : (apply quantum ⟨b :: l, slice⟩ (.keep alive)).wait quantum a =
          slice b + quantum * (l.filter alive).idxOf a := by
        rw [apply, List.filter_cons_of_pos hb]
        exact wait_cons hne
      rw [hwait]
      exact Nat.add_le_add_left hmul _
    · -- The successor runs, with at most a whole quantum.
      have hle := wait_le (a := a) (h.apply hquantum hop)
      have hdistance : (apply quantum ⟨b :: l, slice⟩ (.keep alive)).distance a =
          (l.filter alive).idxOf a := by
        rw [distance, apply, List.filter_cons_of_neg hb]
      rw [hdistance] at hle
      exact Nat.le_trans (Nat.le_trans hle hmul) (Nat.le_add_left _ _)
  | turn => exact Nat.le_of_lt (wait_turn hquantum h hne ha)
  | tick =>
    by_cases hlast : slice b = 1
    · rw [apply, tick_last hlast]
      exact wait_turn hquantum h hne ha
    · have hwait : wait quantum ⟨b :: l, Function.update slice b (slice b - 1)⟩ a =
          slice b - 1 + quantum * l.idxOf a := by
        rw [wait_cons hne, Function.update_self]
      rw [apply, tick_more hlast, hwait, wait_cons hne]
      show _ + 1 ≤ _
      omega
  | idle => exact Nat.le_refl _

end Waiting

end Queue

end RoundRobin
