import Horizon.Lib.StateError
import Mathlib.Data.BitVec

/-!
# Slots with generation counters

A slot is handed out again and again. A counter of `w` bits goes up by one each time, and the
occupant carries the value it had then, its generation. Someone who remembers the generation of
an occupant can tell it from its successors, until the counter has come round: for fewer than
`2 ^ w` successors (`Runs.stale`).
-/

namespace Generation

open StateError

variable {w : Nat}

@[ext] structure Slot (w : Nat) where
  /-- The generation of the occupant, if there is one. -/
  occupant : Option (BitVec w)
  counter : BitVec w

inductive Op where
  | alloc
  | free
  deriving DecidableEq

namespace Slot

/-- Only an empty slot is handed out. Freeing an empty slot changes nothing. -/
def step (s : Slot w) : Op → Option (Slot w)
  | .alloc =>
      if s.occupant = none then some ⟨some (s.counter + 1), s.counter + 1⟩ else none
  | .free => some { s with occupant := none }

/-- The occupant is the last one the slot was handed out to. -/
def Coherent (s : Slot w) : Prop := ∀ v, s.occupant = some v → v = s.counter

end Slot

/-- A history of one slot. -/
abbrev Runs (s : Slot w) (ops : List Op) (s' : Slot w) : Prop :=
  Steps Slot.step (fun _ _ _ => True) s ops s'

variable {s s' : Slot w} {ops : List Op} {v : BitVec w}

theorem Slot.step_alloc (h : s.step .alloc = some s') :
    s.occupant = none ∧ s' = ⟨some (s.counter + 1), s.counter + 1⟩ := by
  obtain ⟨hnone, heq⟩ := Option.ite_none_right_eq_some.mp h
  exact ⟨hnone, (Option.some.inj heq).symm⟩

theorem Slot.step_free (h : s.step .free = some s') : s' = { s with occupant := none } :=
  (Option.some.inj h).symm

namespace Runs

theorem one {op : Op} (h : s.step op = some s') : Runs s [op] s' := .cons h trivial (.nil _)

theorem counter (hrun : Runs s ops s') :
    s'.counter = s.counter + BitVec.ofNat w (ops.count .alloc) := by
  induction hrun with
  | nil s => simp
  | @cons s t s' op ops hstep _ _ ih =>
    cases op with
    | alloc =>
      obtain ⟨-, rfl⟩ := Slot.step_alloc hstep
      rw [ih, List.count_cons_self, BitVec.ofNat_add, ← BitVec.add_assoc]
      exact add_right_comm _ _ _
    | free =>
      obtain rfl := Slot.step_free hstep
      rw [ih, List.count_cons_of_ne (by decide)]

/-- An occupant stays until its slot is freed, and the slot is not handed out meanwhile. -/
theorem eq_nil (hrun : Runs s ops s') (hs : s.occupant = some v) (hfree : .free ∉ ops) :
    ops = [] := by
  cases hrun with
  | nil _ => rfl
  | @cons _ _ _ op ops hstep _ _ =>
    cases op with
    | alloc =>
      obtain ⟨hnone, -⟩ := Slot.step_alloc hstep
      rw [hnone] at hs
      cases hs
    | free => exact absurd List.mem_cons_self hfree

theorem eq_of_occupied (hrun : Runs s ops s') (hs : s.occupant = some v) (hfree : .free ∉ ops) :
    s' = s := by
  rw [hrun.eq_nil hs hfree] at hrun
  cases hrun
  rfl

/-- In a slot that was empty there is an occupant only if it has been handed out. -/
theorem count_pos (hrun : Runs s ops s') (hs : s.occupant = none) (hs' : s'.occupant = some v) :
    0 < ops.count .alloc := by
  induction hrun with
  | nil s =>
    rw [hs] at hs'
    cases hs'
  | @cons s t s' op ops hstep _ _ ih =>
    cases op with
    | alloc =>
      rw [List.count_cons_self]
      exact Nat.succ_pos _
    | free =>
      obtain rfl := Slot.step_free hstep
      rw [List.count_cons_of_ne (by decide)]
      exact ih rfl hs'

/-- Until the counter has come round, a slot that was handed out again has a new generation. -/
theorem counter_ne (hrun : Runs s ops s') (hpos : 0 < ops.count .alloc)
    (hcount : ops.count .alloc < 2 ^ w) : s'.counter ≠ s.counter := by
  intro hsame
  have hzero := BitVec.self_eq_add_right.mp (hsame.symm.trans hrun.counter)
  have hmod := congrArg BitVec.toNat hzero
  rw [BitVec.toNat_ofNat, Nat.mod_eq_of_lt hcount, BitVec.toNat_zero] at hmod
  exact Nat.ne_of_gt hpos hmod

/-- A generation that is gone does not come back before the counter has come round. -/
theorem stale (hrun : Runs { s with occupant := none } ops s') (hs' : s'.Coherent)
    (hcount : ops.count .alloc < 2 ^ w) : s'.occupant ≠ some s.counter := fun hoccupant =>
  hrun.counter_ne (hrun.count_pos rfl hoccupant) hcount (hs' _ hoccupant).symm

end Runs

/-! ## Generations of the past -/

/-- A generation that has gone: an older one, or the last one if it has left the slot. -/
def Slot.Past (s : Slot w) (v : BitVec w) : Prop :=
  v.toNat < s.counter.toNat ∨ v = s.counter ∧ s.occupant = none

theorem Slot.Past.ne_occupant (h : s.Past v) (hs : s.Coherent) : s.occupant ≠ some v := by
  intro hv
  rcases h with hlt | ⟨-, hnone⟩
  · rw [hs v hv] at hlt
    exact Nat.lt_irrefl _ hlt
  · rw [hnone] at hv
    cases hv

/-- While the counter is not used up, what has gone stays gone. -/
theorem Slot.Past.runs (h : s.Past v) (hrun : Runs s ops s')
    (hcount : s.counter.toNat + ops.count .alloc < 2 ^ w) : s'.Past v := by
  induction hrun with
  | nil s => exact h
  | @cons s t s' op ops hstep _ _ ih =>
    cases op with
    | alloc =>
      obtain ⟨-, rfl⟩ := Slot.step_alloc hstep
      rw [List.count_cons_self] at hcount
      have hnext : (s.counter + 1).toNat = s.counter.toNat + 1 := by
        have hlt : 1 < 2 ^ w := by omega
        have hone : (1 : BitVec w).toNat = 1 := Nat.mod_eq_of_lt hlt
        rw [BitVec.toNat_add, hone, Nat.mod_eq_of_lt (by omega)]
      refine ih (Or.inl ?_) ?_
      · rw [hnext]
        rcases h with hlt | ⟨rfl, -⟩
        · exact Nat.lt_succ_of_lt hlt
        · exact Nat.lt_succ_self _
      · rw [hnext]
        omega
    | free =>
      obtain rfl := Slot.step_free hstep
      rw [List.count_cons_of_ne (by decide)] at hcount
      exact ih (h.imp_right fun hlast => ⟨hlast.1, rfl⟩) hcount

end Generation
