import Horizon.Multitask.Process

/-!
# Horizon — searching a bitmap

`bitmap_find_and_set` tests its bound only after it has read a word, so in a full bitmap it goes
on to the word behind it. Unless that word happens to be full as well, the caller gets an index
that is not below `items`, and a bit of somebody else's memory is set.
-/

namespace Horizon

variable {bm : Nat → Word} {items index : Nat}

/-- What `bitmap_find_and_set` returns: the index as a `long`, or `-1`. -/
def bitmapReturn (found : Option Nat) : Int :=
  found.elim (-1) fun index => (BitVec.ofNat 32 index).toInt

/-- What `bitmap_find_and_set` is for, on a bitmap at the start of the memory `bm`. -/
structure FindsAndSets (bm : Nat → Word) (items : Nat) : Prop where
  /-- The least index whose bit is clear is returned, and its bit is all that is set. -/
  least : ∀ index < items, bitmapTest bm index = false → (∀ j < index, bitmapTest bm j = true) →
    bitmapReturn (bitmapFindAndSet bm items).1 = index ∧
    (bitmapFindAndSet bm items).2 = bitmapSet bm index
  /-- Nothing is found in a full bitmap, and nothing is set. -/
  full : (∀ index < items, bitmapTest bm index = true) →
    bitmapReturn (bitmapFindAndSet bm items).1 = -1 ∧ (bitmapFindAndSet bm items).2 = bm
  /-- With other memory behind the bitmap the result is the same, and that memory stays. -/
  behind : ∀ words : Nat → Word, (∀ i < bitmapLength items, words i = bm i) →
    bitmapReturn (bitmapFindAndSet words items).1 = bitmapReturn (bitmapFindAndSet bm items).1 ∧
    (∀ i < bitmapLength items,
      (bitmapFindAndSet words items).2 i = (bitmapFindAndSet bm items).2 i) ∧
    ∀ i, bitmapLength items ≤ i → (bitmapFindAndSet words items).2 i = words i

theorem bitmapReturn_some (h : index < 2 ^ 31) : bitmapReturn (some index) = index :=
  BitVec.toInt_eq_toNat_of_lt (by simp only [BitVec.toNat_ofNat]; omega) |>.trans
    (congrArg Nat.cast (Nat.mod_eq_of_lt (by omega)))

theorem bitmapReturn_lt (found : Option Nat) : bitmapReturn found < 2 ^ 31 := by
  cases found with
  | none => decide
  | some index => exact BitVec.toInt_lt

/-- The search yields the least clear bit of the words it reads: those of the bitmap and one
more. -/
theorem bitmapFindAndSet_of_least (hlt : index < (bitmapLength items + 1) * bitmapBits)
    (hclear : bitmapTest bm index = false) (hset : ∀ j < index, bitmapTest bm j = true) :
    bitmapFindAndSet bm items = (some index, bitmapSet bm index) := by
  obtain ⟨found, bm', hfound, hle⟩ := bitmapFindAndSet_isSome hlt hclear
  obtain ⟨hfree, rfl⟩ := bitmapFindAndSet_eq_some hfound
  rcases Nat.eq_or_lt_of_le hle with rfl | hbelow
  · exact hfound
  · rw [hset found hbelow] at hfree
    cases hfree

theorem exists_least_clear (hclear : bitmapTest bm index = false) :
    ∃ j ≤ index, bitmapTest bm j = false ∧ ∀ i < j, bitmapTest bm i = true := by
  have h : ∃ j, bitmapTest bm j = false := ⟨index, hclear⟩
  refine ⟨Nat.find h, Nat.find_min' h hclear, Nat.find_spec h, fun i hi => ?_⟩
  simpa using Nat.find_min h hi

/-- A clear bit whose index fits a `long` is all that the search needs. -/
theorem findsAndSets_of_clear (hitems : items % bitmapBits = 0) (hlt : index < items)
    (hlong : index < 2 ^ 31) (hclear : bitmapTest bm index = false) : FindsAndSets bm items := by
  simp only [bitmapBits] at hitems
  obtain ⟨least, hle, hfree, hset⟩ := exists_least_clear hclear
  have hword : ∀ j < items, j / 32 < bitmapLength items := by
    intro j hj
    simp only [bitmapLength, bitmapBits]
    omega
  have hread : ∀ j < items, j < (bitmapLength items + 1) * bitmapBits := by
    intro j hj
    have := hword j hj
    simp only [bitmapBits]
    omega
  have hleast := lt_of_le_of_lt hle hlt
  have hfound := bitmapFindAndSet_of_least (hread least hleast) hfree hset
  refine ⟨fun j hj hjclear hjset => ?_, fun hfull => ?_, fun words hsame => ?_⟩
  · have hj := bitmapFindAndSet_of_least (hread j hj) hjclear hjset
    rw [hfound] at hj ⊢
    cases (Prod.mk.inj hj).1
    exact ⟨bitmapReturn_some (lt_of_le_of_lt hle hlong), rfl⟩
  · rw [hfull index hlt] at hclear
    cases hclear
  · have hbits : ∀ j ≤ least, bitmapTest words j = bitmapTest bm j := fun j hj =>
      bitmapTest_of_agree hsame (hword j (lt_of_le_of_lt hj hleast))
    have hwords : bitmapFindAndSet words items = (some least, bitmapSet words least) :=
      bitmapFindAndSet_of_least (hread least hleast) ((hbits least le_rfl).trans hfree)
        fun j hj => (hbits j hj.le).trans (hset j hj)
    rw [hfound, hwords]
    refine ⟨rfl, fun i hi => ?_, fun i hi => ?_⟩
    · rw [← bitmapSet_of_agree hsame (hword least hleast)]
      exact (if_pos hi).symm
    · have hne : i ≠ least / bitmapBits := by
        have := hword least hleast
        simp only [bitmapBits]
        omega
      exact Function.update_of_ne hne _ _

/-- A full bitmap in front of a word that is clear: the search sets a bit of that word. -/
theorem not_findsAndSets_of_full (hitems : items % bitmapBits = 0)
    (hfull : ∀ index < items, bitmapTest bm index = true) : ¬ FindsAndSets bm items := by
  simp only [bitmapBits] at hitems
  intro h
  have hdiv : items / 32 = bitmapLength items := rfl
  let words := Function.update bm (bitmapLength items) 0
  have hsame : ∀ i < bitmapLength items, words i = bm i := fun i hi =>
    Function.update_of_ne hi.ne _ _
  have hset : ∀ j < items, bitmapTest words j = true := fun j hj =>
    (bitmapTest_of_agree hsame (by omega)).trans (hfull j hj)
  have hclear : bitmapTest words items = false := by
    rw [bitmapTest_eq, hdiv, show words (bitmapLength items) = 0 from Function.update_self ..]
    exact BitVec.getLsbD_zero
  have hfound : bitmapFindAndSet words items = (some items, bitmapSet words items) :=
    bitmapFindAndSet_of_least (by simp only [bitmapBits]; omega) hclear hset
  have hkept : bitmapSet words items (bitmapLength items) = words (bitmapLength items) :=
    (congrFun (congrArg Prod.snd hfound) _).symm.trans ((h.behind words hsame).2.2 _ le_rfl)
  have htest := bitmapTest_bitmapSet words items items
  rw [bitmapTest_eq, hdiv, hkept, ← hdiv, ← bitmapTest_eq, hclear] at htest
  simp at htest

/-- `bitmap_find_and_set` does what it is for exactly if the bitmap has a clear bit, with an index
that a `long` can hold. -/
theorem findsAndSets_iff (bm : Nat → Word) (hitems : items % bitmapBits = 0) :
    FindsAndSets bm items ↔ ∃ index < items, index < 2 ^ 31 ∧ bitmapTest bm index = false := by
  constructor
  · intro h
    by_contra hnone
    push Not at hnone
    obtain ⟨index, hlt, hclear⟩ : ∃ index < items, bitmapTest bm index = false := by
      by_contra hfull
      push Not at hfull
      exact not_findsAndSets_of_full hitems (fun j hj => by simpa using hfull j hj) h
    obtain ⟨least, hle, hfree, hset⟩ := exists_least_clear hclear
    have hleast := lt_of_le_of_lt hle hlt
    have hreturn := (h.least least hleast hfree hset).1
    refine hnone least hleast ?_ hfree
    have := bitmapReturn_lt (bitmapFindAndSet bm items).1
    omega
  · rintro ⟨index, hlt, hlong, hclear⟩
    exact findsAndSets_of_clear hitems hlt hlong hclear

theorem findsAndSets_empty_bitmap :
    processThreadMax % bitmapBits = 0 ∧ FindsAndSets (fun _ => 0) processThreadMax :=
  ⟨by decide, (findsAndSets_iff _ (by decide)).mpr ⟨0, by decide, by decide, by decide⟩⟩

/-- A process all of whose 64 threads are live, each the first in its slot: the search goes on in
the version numbers and yields index 65, which names thread 1 in a TID field. -/
theorem full_process_yields_alias : ∃ p : Process,
    (∀ i < processThreadMax, bitmapTest p.threadWords i = true ∧ p.threadInfo.versions i = 1) ∧
    bitmapReturn (bitmapFindAndSet p.threadWords processThreadMax).1 = 65 ∧
    (BitVec.ofNat 6 65 : Tid) = 1 ∧ ¬ FindsAndSets p.threadWords processThreadMax := by
  refine ⟨{ threadInfo := { bitmap := fun _ => ~~~0, versions := fun _ => 1 } }, by decide,
    by decide, by decide, fun h => ?_⟩
  have hfull := (h.full (by decide)).1
  exact absurd hfull (by decide)

end Horizon
