import Mathlib.Data.Set.Card
import Horizon.Lib.StateError

/-!
# Frames that are mapped and counted

An allocator hands out frames `φ`, which are mapped at slots `κ` or pinned for a purpose of their
own, and counts the references to each. A mapping is made in one of three ways (`Op`): a fresh
frame is mapped, a mapped frame is mapped once more, or a frame is mapped without a reference
being taken; with each of them another frame may be pinned, for a page table, say.

`Consistent` says that the counts are right and that free frames are not in use. It survives
everything but a mapping without a reference. Under it pinned frames stay out of reach (`Guarded`),
and groups of slots that share nothing stay apart (`Apart`).
-/

namespace FramePool

open Function

structure Mapping (φ : Type) where
  frame : φ
  writable : Bool

structure Pool (κ φ : Type) where
  map : κ → Option (Mapping φ)
  count : φ → ℕ
  pinned : Set φ
  free : Set φ

inductive Op (κ φ : Type) where
  | fresh (x : κ) (m : Mapping φ) (table : Option φ)
  /-- The frame that is mapped at `y` is mapped at `x` as well. -/
  | share (x y : κ) (m : Mapping φ) (table : Option φ)
  | place (x : κ) (m : Mapping φ) (table : Option φ)
  | drop (x : κ) (m : Mapping φ)

variable {κ φ π : Type}

namespace Op

/-- Does the operation take the references it makes? -/
def counts : Op κ φ → Bool
  | place .. => false
  | _ => true

/-- The operation maps the frame at the slot. -/
def Maps : Op κ φ → κ → φ → Prop
  | fresh x m _, z, f | share x _ m _, z, f | place x m _, z, f => z = x ∧ m.frame = f
  | drop .., _, _ => False

/-- The frame an operation pins. -/
def table : Op κ φ → Option φ
  | fresh _ _ t | share _ _ _ t | place _ _ t => t
  | drop .. => none

end Op

namespace Pool

/-- The slots at which a frame is mapped. -/
def users (P : Pool κ φ) (f : φ) : Set κ := {x | ∃ m, P.map x = some m ∧ m.frame = f}

open scoped Classical in
noncomputable def pins (P : Pool κ φ) (f : φ) : ℕ := if f ∈ P.pinned then 1 else 0

variable {P : Pool κ φ} {x y : κ} {f g : φ} {m : Mapping φ} {table : Option φ} {op : Op κ φ}

theorem notMem_users (hx : P.map x = none) : x ∉ P.users f := by
  rintro ⟨m, hm, -⟩
  rw [hx] at hm
  cases hm

theorem pins_of_notMem (h : f ∉ P.pinned) : P.pins f = 0 := if_neg h

theorem pins_of_mem (h : f ∈ P.pinned) : P.pins f = 1 := if_pos h

/-- The count of a frame is right, and it is not in use if it is free. -/
structure Exact (P : Pool κ φ) (f : φ) : Prop where
  counted : P.count f ≠ 0 → P.count f = (P.users f).ncard + P.pins f
  free : f ∈ P.free → P.count f = 0 ∧ P.users f = ∅ ∧ f ∉ P.pinned

/-- Every count is the number of references, and no free frame is in use. -/
def Consistent (P : Pool κ φ) : Prop := ∀ f, P.Exact f

theorem Consistent.notMem_free (h : P.Consistent) (hx : x ∈ P.users f) : f ∉ P.free := fun hf => by
  rw [((h f).free hf).2.1] at hx
  exact hx

theorem Exact.congr {P' : Pool κ φ} (h : P.Exact f) (hcount : P'.count f = P.count f)
    (husers : P'.users f = P.users f) (hpinned : f ∈ P'.pinned ↔ f ∈ P.pinned)
    (hfree : f ∈ P'.free → f ∈ P.free) : P'.Exact f := by
  classical
  have hpins : P'.pins f = P.pins f := if_congr hpinned rfl rfl
  refine ⟨fun hne => ?_, fun hf => ?_⟩
  · rw [hcount, husers, hpins]
    exact h.counted (hcount ▸ hne)
  · rw [hcount, husers, hpinned]
    exact h.free (hfree hf)

variable [DecidableEq φ]

/-- The allocator hands out a frame, with one reference. -/
def take (P : Pool κ φ) (f : φ) : Pool κ φ :=
  { P with count := update P.count f 1, free := P.free \ {f} }

def pin (P : Pool κ φ) : Option φ → Pool κ φ
  | none => P
  | some t => { P.take t with pinned := insert t P.pinned }

/-- A frame that has no reference is not counted. -/
def retain (P : Pool κ φ) (f : φ) : Pool κ φ :=
  if P.count f = 0 then P else { P with count := update P.count f (P.count f + 1) }

/-- With its last reference a frame is free again. -/
def release (P : Pool κ φ) (f : φ) : Pool κ φ :=
  if P.count f = 0 then P
  else if P.count f = 1 then { P with count := update P.count f 0, free := insert f P.free }
  else { P with count := update P.count f (P.count f - 1) }

@[simp] theorem map_take : (P.take f).map = P.map := rfl

@[simp] theorem map_pin : (P.pin table).map = P.map := by cases table <;> rfl

theorem mem_pinned_pin (h : f ∈ (P.pin table).pinned) : f ∈ P.pinned ∨ f ∈ table := by
  cases table with
  | none => exact Or.inl h
  | some t => exact (Set.mem_insert_iff.mp h).symm.imp_right fun hf => congrArg some hf.symm

@[simp] theorem map_retain : (P.retain f).map = P.map := by
  unfold retain
  split <;> rfl

@[simp] theorem free_retain : (P.retain f).free = P.free := by
  unfold retain
  split <;> rfl

@[simp] theorem pinned_retain : (P.retain f).pinned = P.pinned := by
  unfold retain
  split <;> rfl

@[simp] theorem map_release : (P.release f).map = P.map := by
  unfold release
  split
  · rfl
  · split <;> rfl

@[simp] theorem pinned_release : (P.release f).pinned = P.pinned := by
  unfold release
  split
  · rfl
  · split <;> rfl

theorem count_release : (P.release f).count g = P.count g - if g = f then 1 else 0 := by
  unfold release
  by_cases hg : g = f
  · subst hg
    split
    · next hzero => rw [hzero, Nat.zero_sub]
    · split
      · next hone => simp [hone]
      · simp
  · split
    · simp
    · split <;> simp [hg]

theorem Consistent.pin (h : P.Consistent) (htable : ∀ t ∈ table, t ∈ P.free) :
    (P.pin table).Consistent := by
  cases table with
  | none => exact h
  | some t =>
    intro f
    by_cases hf : f = t
    · subst hf
      have husers : (P.pin (some f)).users f = ∅ := ((h f).free (htable f rfl)).2.1
      have hpins : (P.pin (some f)).pins f = 1 := pins_of_mem (Set.mem_insert f P.pinned)
      refine ⟨fun _ => ?_, fun hfree => absurd rfl hfree.2⟩
      rw [husers, hpins, Set.ncard_empty]
      exact update_self ..
    · have hpinned : f ∈ insert t P.pinned ↔ f ∈ P.pinned := by simp [hf]
      exact (h f).congr (update_of_ne hf _ _) rfl hpinned And.left

/-! ## Operations -/

variable [DecidableEq κ]

def put (P : Pool κ φ) (x : κ) (m : Option (Mapping φ)) : Pool κ φ :=
  { P with map := update P.map x m }

/-- What an operation does, whether or not it is valid. -/
def apply (P : Pool κ φ) : Op κ φ → Pool κ φ
  | .fresh x m table => ((P.take m.frame).pin table).put x (some m)
  | .share x _ m table => ((P.retain m.frame).pin table).put x (some m)
  | .place x m table => (P.pin table).put x (some m)
  | .drop x m => (P.release m.frame).put x none

/-- What has been checked when an operation is carried out. -/
def Valid (P : Pool κ φ) : Op κ φ → Prop
  | .fresh x m table => P.map x = none ∧ m.frame ∈ P.free ∧ ∀ t ∈ table, t ∈ P.free ∧ t ≠ m.frame
  | .share x y m table => P.map x = none ∧ y ∈ P.users m.frame ∧ ∀ t ∈ table, t ∈ P.free
  | .place x _ table => P.map x = none ∧ ∀ t ∈ table, t ∈ P.free
  | .drop x m => P.map x = some m

def step (P : Pool κ φ) (op : Op κ φ) : Option (Pool κ φ) := some (P.apply op)

/-- Runs of valid operations, each of them `allowed`. -/
abbrev Runs (allowed : Op κ φ → Prop) : Pool κ φ → List (Op κ φ) → Pool κ φ → Prop :=
  StateError.Steps step fun P op _ => P.Valid op ∧ allowed op

theorem users_put_some (hx : P.map x = none) :
    (P.put x (some m)).users f = if f = m.frame then insert x (P.users f) else P.users f := by
  ext y
  by_cases hy : y = x
  · subst hy
    split
    · next hf => simp [users, put, hf]
    · next hf =>
      have hne : m.frame ≠ f := fun h => hf h.symm
      simp [users, put, hne, hx]
  · split <;> simp [users, put, hy]

theorem users_put_none (hx : P.map x = some m) :
    (P.put x none).users f = if f = m.frame then P.users f \ {x} else P.users f := by
  ext y
  by_cases hy : y = x
  · subst hy
    split
    · simp [users, put]
    · next hf =>
      have hne : m.frame ≠ f := fun h => hf h.symm
      simp [users, put, hne, hx]
  · split <;> simp [users, put, hy]

theorem mem_users_apply (h : y ∈ (P.apply op).users f) : y ∈ P.users f ∨ op.Maps y f := by
  obtain ⟨n, hn, hf⟩ := h
  cases op with
  | fresh | share | place =>
    simp only [apply, put, map_pin, map_take, map_retain, update_apply] at hn
    split at hn
    · next hy =>
      cases hn
      exact Or.inr ⟨hy, hf⟩
    · exact Or.inl ⟨n, hn, hf⟩
  | drop =>
    simp only [apply, put, map_release, update_apply] at hn
    split at hn
    · cases hn
    · exact Or.inl ⟨n, hn, hf⟩

theorem mem_pinned_apply (h : f ∈ (P.apply op).pinned) : f ∈ P.pinned ∨ f ∈ op.table := by
  cases op with
  | fresh => exact mem_pinned_pin (P := P.take _) h
  | share _ _ m => exact (mem_pinned_pin h).imp_left fun hf => pinned_retain (f := m.frame) ▸ hf
  | place => exact mem_pinned_pin h
  | drop _ m => exact Or.inl (pinned_release (f := m.frame) ▸ h)

/-! ## What can be reached -/

/-- A pinned frame is not mapped. -/
def Guarded (P : Pool κ φ) : Prop := ∀ f ∈ P.pinned, ∀ x, x ∉ P.users f

/-- No frame is mapped both in `S` and outside. -/
def Apart (S : Set κ) (P : Pool κ φ) : Prop :=
  ∀ f x y, x ∈ P.users f → y ∈ P.users f → (x ∈ S ↔ y ∈ S)

theorem Guarded.apply (h : P.Guarded) (hP : P.Consistent) (hvalid : P.Valid op)
    (hcounts : op.counts = true) : (P.apply op).Guarded := by
  intro f hf z hz
  have hpinned := mem_pinned_apply hf
  rcases mem_users_apply hz with hz | hmaps
  · refine hpinned.elim (fun hf => h f hf z hz) fun ht => hP.notMem_free hz ?_
    cases op with
    | fresh x m table => exact (hvalid.2.2 f ht).1
    | share x y m table => exact hvalid.2.2 f ht
    | place x m table => cases hcounts
    | drop x m => cases ht
  · cases op with
    | fresh x m table =>
      obtain ⟨-, rfl⟩ := hmaps
      obtain ⟨-, hfree, htable⟩ := hvalid
      exact hpinned.elim ((hP _).free hfree).2.2 fun ht => (htable _ ht).2 rfl
    | share x y m table =>
      obtain ⟨-, rfl⟩ := hmaps
      obtain ⟨-, hy, htable⟩ := hvalid
      exact hpinned.elim (fun hf => h _ hf y hy) fun ht => hP.notMem_free hy (htable _ ht)
    | place x m table => cases hcounts
    | drop x m => exact hmaps

/-- Only sharing across the border puts a frame on both sides of it. -/
theorem Apart.apply {S : Set κ} (h : P.Apart S) (hP : P.Consistent) (hvalid : P.Valid op)
    (hcounts : op.counts = true)
    (hshare : ∀ x y m table, op = .share x y m table → (x ∈ S ↔ y ∈ S)) : (P.apply op).Apart S := by
  intro f z z' hz hz'
  -- A new mapping of a frame that was mapped before comes from a share.
  have hnew : ∀ {a b}, op.Maps a f → b ∈ P.users f → (a ∈ S ↔ b ∈ S) := by
    intro a b ha hb
    cases op with
    | fresh x m table =>
      obtain ⟨-, rfl⟩ := ha
      exact absurd hvalid.2.1 (hP.notMem_free hb)
    | share x y m table =>
      obtain ⟨rfl, rfl⟩ := ha
      exact (hshare a y m table rfl).trans (h _ y b hvalid.2.1 hb)
    | place x m table => cases hcounts
    | drop x m => exact ha.elim
  rcases mem_users_apply hz with hz | hz <;> rcases mem_users_apply hz' with hz' | hz'
  · exact h f z z' hz hz'
  · exact (hnew hz' hz).symm
  · exact hnew hz hz'
  · have heq : z = z' := by
      cases op with
      | drop x m => exact hz.elim
      | _ => exact hz.1.trans hz'.1.symm
    rw [heq]

/-! ## Counting -/

theorem Consistent.take_put (h : P.Consistent) (hx : P.map x = none) (hfree : m.frame ∈ P.free) :
    ((P.take m.frame).put x (some m)).Consistent := by
  intro f
  have husers : ((P.take m.frame).put x (some m)).users f = _ := users_put_some (P := P) hx
  by_cases hf : f = m.frame
  · subst hf
    obtain ⟨-, hnone, hpinned⟩ := (h m.frame).free hfree
    have hpins : ((P.take m.frame).put x (some m)).pins m.frame = 0 := pins_of_notMem hpinned
    refine ⟨fun _ => (update_self ..).trans ?_, fun hfree => absurd rfl hfree.2⟩
    rw [husers, if_pos rfl, hpins, hnone, insert_empty_eq, Set.ncard_singleton]
  · exact (h f).congr (update_of_ne hf _ _) (husers.trans (if_neg hf)) Iff.rfl And.left

variable [Finite κ]

theorem Consistent.retain_put (h : P.Consistent) (hx : P.map x = none) (hfree : m.frame ∉ P.free) :
    ((P.retain m.frame).put x (some m)).Consistent := by
  intro f
  have husers : (P.put x (some m)).users f = _ := users_put_some hx
  unfold retain
  by_cases hf : f = m.frame
  · subst hf
    rw [if_pos rfl] at husers
    have hcard := Set.ncard_insert_of_notMem (notMem_users (f := m.frame) hx) (Set.toFinite _)
    split
    · next hzero => exact ⟨fun hne => absurd hzero hne, fun hf => absurd hf hfree⟩
    · next hcount =>
      refine ⟨fun _ => (update_self ..).trans ?_, fun hf => absurd hf hfree⟩
      rw [(h _).counted hcount, add_right_comm, ← hcard, ← husers]
      rfl
  · rw [if_neg hf] at husers
    split
    · exact (h f).congr rfl husers Iff.rfl id
    · exact (h f).congr (update_of_ne hf _ _) husers Iff.rfl id

theorem Consistent.release_put (h : P.Consistent) (hx : P.map x = some m) :
    ((P.release m.frame).put x none).Consistent := by
  intro f
  have husers : (P.put x none).users f = _ := users_put_none hx
  unfold release
  by_cases hf : f = m.frame
  · subst hf
    rw [if_pos rfl] at husers
    have hmem : x ∈ P.users m.frame := ⟨m, hx, rfl⟩
    have hcard := Set.ncard_sdiff_singleton_add_one hmem (Set.toFinite _)
    rw [← husers] at hcard
    split
    · next hzero => exact ⟨fun hne => absurd hzero hne, fun hf => absurd hf (h.notMem_free hmem)⟩
    · next hcount =>
      have hcounted := (h _).counted hcount
      split
      · next hone =>
        have hnone := (Set.ncard_eq_zero (Set.toFinite ((P.put x none).users m.frame))).mp
          (by omega)
        have hpinned : m.frame ∉ P.pinned := fun hmem => by
          have hpins := pins_of_mem hmem
          omega
        exact ⟨fun hne => absurd (update_self ..) hne, fun _ => ⟨update_self .., hnone, hpinned⟩⟩
      · refine ⟨fun _ => (update_self ..).trans ?_, fun hf => absurd hf (h.notMem_free hmem)⟩
        show P.count m.frame - 1 = ((P.put x none).users m.frame).ncard + P.pins m.frame
        omega
  · rw [if_neg hf] at husers
    split
    · exact (h f).congr rfl husers Iff.rfl id
    · split
      · exact (h f).congr (update_of_ne hf _ _) husers Iff.rfl fun hfree => hfree.resolve_left hf
      · exact (h f).congr (update_of_ne hf _ _) husers Iff.rfl id

/-- An operation that takes the references it makes keeps the counts right. -/
theorem Consistent.apply (h : P.Consistent) (hvalid : P.Valid op) (hcounts : op.counts = true) :
    (P.apply op).Consistent := by
  have hpin : ∀ {P : Pool κ φ} {table x m}, (P.pin table).put x m = (P.put x m).pin table := by
    rintro P (_ | t) x m <;> rfl
  cases op with
  | fresh x m table =>
    obtain ⟨hx, hfree, htable⟩ := hvalid
    rw [Pool.apply, hpin]
    exact (h.take_put hx hfree).pin htable
  | share x y m table =>
    obtain ⟨hx, hy, htable⟩ := hvalid
    rw [Pool.apply, hpin]
    exact (h.retain_put hx (h.notMem_free hy)).pin fun t ht =>
      (free_retain (P := P)).symm ▸ htable t ht
  | place x m table => cases hcounts
  | drop x m => exact h.release_put hvalid

end Pool

end FramePool
