import Mathlib.Logic.Function.Basic
import Mathlib.Tactic.Common
import Mathlib.Data.BitVec

/-!
# Horizon — the kernel's utility layer (`util/addr.h`, `util/bitmap.c`, `util/bmstack.c`)

Machine words, page alignment, plain bitmaps and the bitmap stack. A bitmap is the word
memory starting at its base address: `bitmapFindAndSet` reads one word past the end of a
full bitmap, exactly where the source does, so the memory behind the bitmap is part of the
argument.

Entries of a bitmap stack are named by their index; the `next` and `head` pointers of the
source become optional indices.
-/

namespace Horizon

/-- `uintptr_t`, `size_t`, `uint32_t` on i586. -/
abbrev Word := BitVec 32

/-- `ARCH_PGSIZE`. -/
def archPgsize : Word := 4096

/-- `KERNEL_VIRT_BASE`. -/
def kernelVirtBase : Word := 0xC0000000

/-- Align down an address to the given boundary (a power of two). -/
def addrAlign (addr bound : Word) : Word := addr &&& ~~~(bound - 1)

theorem and_shiftLeft_allOnes (w : Word) {k : ℕ} (hk : k ≤ 32) :
    (w &&& BitVec.allOnes 32 <<< k).toNat = w.toNat / 2 ^ k * 2 ^ k := by
  have hshift : w &&& BitVec.allOnes 32 <<< k = w >>> k <<< k := by
    refine BitVec.eq_of_getLsbD_eq fun i hi => ?_
    rw [BitVec.getLsbD_and, BitVec.getLsbD_shiftLeft, BitVec.getLsbD_shiftLeft,
      BitVec.getLsbD_ushiftRight, BitVec.getLsbD_allOnes]
    by_cases hlow : i < k
    · simp [hlow]
    · have hback : k + (i - k) = i := by omega
      have hbit : i - k < 32 := by omega
      simp only [hlow, hi, hback, hbit, decide_true, decide_false, Bool.not_false, Bool.and_true,
        Bool.true_and]
  rw [hshift, BitVec.toNat_shiftLeft, BitVec.toNat_ushiftRight, Nat.shiftRight_eq_div_pow,
    Nat.shiftLeft_eq, Nat.mod_eq_of_lt]
  exact (Nat.div_mul_le_self _ _).trans_lt w.isLt

theorem getLsbD_bytes (b3 b2 b1 b0 : BitVec 8) (i : Nat) :
    (show Word from b3 ++ b2 ++ b1 ++ b0).getLsbD i =
      if i < 8 then b0.getLsbD i else if i < 16 then b1.getLsbD (i - 8)
      else if i < 24 then b2.getLsbD (i - 16) else b3.getLsbD (i - 24) := by
  show BitVec.getLsbD (w := 8 + 8 + 8 + 8) (b3 ++ b2 ++ b1 ++ b0) i = _
  simp only [BitVec.getLsbD_append]
  grind

theorem word_of_bytes (val : Word) :
    (show Word from (val >>> 24).setWidth 8 ++ (val >>> 16).setWidth 8 ++ (val >>> 8).setWidth 8 ++
      val.setWidth 8) = val := by
  ext i hi
  rw [← BitVec.getLsbD_eq_getElem, getLsbD_bytes]
  simp
  grind

/-! ## Bitmaps -/

/-- `BITMAP_BITS`. -/
abbrev bitmapBits : Nat := 32

/-- `BITMAP_LENGTH`: the words needed for `x` bits, rounded down. -/
def bitmapLength (x : Nat) : Nat := x / bitmapBits

def bitmapSet (bm : Nat → Word) (index : Nat) : Nat → Word :=
  let i := index / bitmapBits
  let bit := index % bitmapBits
  Function.update bm i (bm i ||| (1#32 <<< bit))

def bitmapClear (bm : Nat → Word) (index : Nat) : Nat → Word :=
  let i := index / bitmapBits
  let bit := index % bitmapBits
  Function.update bm i (bm i &&& ~~~(1#32 <<< bit))

def bitmapTest (bm : Nat → Word) (index : Nat) : Bool :=
  let i := index / bitmapBits
  let bit := index % bitmapBits
  (bm i &&& (1#32 <<< bit)) != 0

/-- `__builtin_ffsl`: one more than the index of the least set bit, 0 for the zero word. -/
def ffsl (w : Word) : Nat :=
  match (List.range bitmapBits).find? (fun i => w.getLsbD i) with
  | some i => i + 1
  | none => 0

/-- The loop of `bitmap_find_and_set`: the first word that is not all ones. The bound is
tested only after a word has been read, so the word at `length` is read too. -/
def bitmapScan (bm : Nat → Word) (length : Nat) : Nat → Nat → Option Nat
  | 0, _ => none
  | fuel + 1, i =>
      if ~~~(bm i) = 0 then
        if i ≥ length then none else bitmapScan bm length fuel (i + 1)
      else some i

/-- Find the first clear bit, set it, and return the index (`none` for `-1`). -/
def bitmapFindAndSet (bm : Nat → Word) (items : Nat) : Option Nat × (Nat → Word) :=
  match bitmapScan bm (bitmapLength items) (bitmapLength items + 1) 0 with
  | none => (none, bm)
  | some i =>
      let bit := ffsl (~~~(bm i)) - 1
      (some (i * bitmapBits + bit), Function.update bm i (bm i ||| (1#32 <<< bit)))

/-! ## Bitmap stacks -/

structure BmstackEntry where
  next : Option Nat := none
  bitmap : Word := 0

/-- `bmstack_t`: bitmaps of 32 items, those with a free bit in a list from `head` on. -/
structure Bmstack where
  entries : Nat → BmstackEntry := fun _ => {}
  head : Option Nat := none

namespace Bmstack

def setEntry (bms : Bmstack) (i : Nat) (e : BmstackEntry) : Bmstack :=
  { bms with entries := Function.update bms.entries i e }

/-- The loop of `bmstack_link`, from entry `i` on with `n` entries left. -/
def linkLoop : Nat → Nat → Option Nat → Bmstack → Bmstack
  | 0, _, _, bms => bms
  | n + 1, i, prev, bms =>
      let bms := bms.setEntry i { bms.entries i with next := none }
      if ~~~(bms.entries i).bitmap = 0 then linkLoop n (i + 1) prev bms
      else
        match prev with
        | none => linkLoop n (i + 1) (some i) { bms with head := some i }
        | some p =>
            linkLoop n (i + 1) (some i) (bms.setEntry p { bms.entries p with next := some i })

/-- Link each entry with a free bit together for use in `findAndSet`. -/
def link (bms : Bmstack) (items : Nat) : Bmstack :=
  linkLoop (bitmapLength items) 0 none bms

/-- `bmstack_set`. -/
def set (bms : Bmstack) (index : Nat) : Bmstack :=
  let i := index / bitmapBits
  let bit := index % bitmapBits
  let entry := { bms.entries i with bitmap := (bms.entries i).bitmap ||| (1#32 <<< bit) }
  let bms := bms.setEntry i entry
  -- If the list has been linked and this bitmap is now full, it leaves the list.
  if bms.head = some i ∧ ~~~entry.bitmap = 0 then { bms with head := entry.next } else bms

/-- `bmstack_clear`. An empty list stays empty, as before `bmstack_link`. -/
def clear (bms : Bmstack) (index : Nat) : Bmstack :=
  let i := index / bitmapBits
  let bit := index % bitmapBits
  let wasFull := ~~~(bms.entries i).bitmap = 0
  let entry := { bms.entries i with bitmap := (bms.entries i).bitmap &&& ~~~(1#32 <<< bit) }
  match bms.head with
  | some h =>
      if wasFull then { (bms.setEntry i { entry with next := some h }) with head := some i }
      else bms.setEntry i entry
  | none => bms.setEntry i entry

/-- `bmstack_test`. -/
def test (bms : Bmstack) (index : Nat) : Bool :=
  let i := index / bitmapBits
  let bit := index % bitmapBits
  ((bms.entries i).bitmap &&& (1#32 <<< bit)) != 0

/-- Take the least clear bit of the head entry. `none` is the failed assertion on an empty
list, or the `-1` of a full head entry, which every caller asserts away. -/
def findAndSet (bms : Bmstack) : Option (Nat × Bmstack) :=
  match bms.head with
  | none => none
  | some i =>
      match ffsl (~~~(bms.entries i).bitmap) with
      | 0 => none
      | bit + 1 =>
          let index := i * bitmapBits + bit
          some (index, bms.set index)

end Bmstack

/-! ## Bits of a bitmap -/

theorem getLsbD_one_shiftLeft {bit j : Nat} (hj : j < 32) :
    (1#32 <<< bit).getLsbD j = decide (j = bit) := by
  rw [BitVec.getLsbD_shiftLeft, BitVec.getLsbD_one]
  by_cases h : j = bit
  · subst h
    simp [hj]
  · simp only [h, decide_false]
    rcases Nat.lt_or_ge j bit with hlt | hge
    · simp [hlt]
    · have hne : j - bit ≠ 0 := by omega
      simp [hne]

theorem and_one_shiftLeft_bne_zero (w : Word) {bit : Nat} (hbit : bit < 32) :
    ((w &&& (1#32 <<< bit)) != 0) = w.getLsbD bit := by
  have hiff : (w &&& (1#32 <<< bit)) = 0 ↔ w.getLsbD bit = false := by
    constructor
    · intro h
      have hbitval := congrArg (fun v : Word => v.getLsbD bit) h
      simpa [BitVec.getLsbD_and, getLsbD_one_shiftLeft hbit] using hbitval
    · intro h
      apply BitVec.eq_of_getLsbD_eq
      intro j hj
      rw [BitVec.getLsbD_and, getLsbD_one_shiftLeft hj]
      by_cases hjb : j = bit
      · subst hjb
        simp [h]
      · simp [hjb]
  cases h : w.getLsbD bit
  · rw [hiff.mpr h]
    rfl
  · have hne : (w &&& (1#32 <<< bit)) ≠ 0 := fun h0 => by simp [hiff.mp h0] at h
    simpa using hne

theorem bitmapTest_eq (bm : Nat → Word) (index : Nat) :
    bitmapTest bm index = (bm (index / 32)).getLsbD (index % 32) :=
  and_one_shiftLeft_bne_zero _ (Nat.mod_lt _ (by decide))

theorem bitmapTest_bitmapSet (bm : Nat → Word) (index j : Nat) :
    bitmapTest (bitmapSet bm index) j = (decide (j = index) || bitmapTest bm j) := by
  simp only [bitmapTest_eq, bitmapSet]
  have hj := Nat.mod_lt j (show 0 < 32 by decide)
  by_cases hword : j / 32 = index / 32
  · rw [hword, Function.update_self, BitVec.getLsbD_or, getLsbD_one_shiftLeft hj, Bool.or_comm]
    have hiff : j % 32 = index % 32 ↔ j = index := by omega
    simp [hiff]
  · have hne : j ≠ index := fun h => hword (by rw [h])
    rw [Function.update_of_ne hword]
    simp [hne]

theorem bitmapTest_bitmapClear (bm : Nat → Word) (index j : Nat) :
    bitmapTest (bitmapClear bm index) j = (!decide (j = index) && bitmapTest bm j) := by
  simp only [bitmapTest_eq, bitmapClear]
  have hj := Nat.mod_lt j (show 0 < 32 by decide)
  by_cases hword : j / 32 = index / 32
  · rw [hword, Function.update_self, BitVec.getLsbD_and, BitVec.getLsbD_not,
      getLsbD_one_shiftLeft hj, Bool.and_comm]
    have hiff : j % 32 = index % 32 ↔ j = index := by omega
    simp [hiff, hj]
  · have hne : j ≠ index := fun h => hword (by rw [h])
    rw [Function.update_of_ne hword]
    simp [hne]

/-- Words that agree with a bitmap up to a length: the bits of those words are the same, and
setting one of them is setting it in the bitmap. -/
theorem bitmapTest_of_agree {bm words : Nat → Word} {length index : Nat}
    (h : ∀ i < length, words i = bm i) (hindex : index / 32 < length) :
    bitmapTest words index = bitmapTest bm index := by
  rw [bitmapTest_eq, bitmapTest_eq, h _ hindex]

theorem bitmapSet_of_agree {bm words : Nat → Word} {length index : Nat}
    (h : ∀ i < length, words i = bm i) (hindex : index / 32 < length) :
    (fun i => if i < length then bitmapSet words index i else bm i) = bitmapSet bm index := by
  funext i
  simp only [bitmapSet]
  by_cases hi : i = index / 32
  · subst hi
    rw [if_pos hindex, Function.update_self, Function.update_self, h _ hindex]
  · rw [Function.update_of_ne hi, Function.update_of_ne hi]
    split
    · next hlt => exact h i hlt
    · rfl

/-! ## Finding a clear bit -/

theorem ffsl_eq_succ {w : Word} {bit : Nat} (h : ffsl w = bit + 1) :
    bit < 32 ∧ w.getLsbD bit = true ∧ ∀ j < bit, w.getLsbD j = false := by
  unfold ffsl at h
  split at h
  · next i hfind =>
    obtain rfl : i = bit := by omega
    obtain ⟨hi, hget, hleast⟩ := List.find?_range_eq_some.mp hfind
    exact ⟨by simpa using hget, hi, fun j hj => by simpa using hleast j hj⟩
  · omega

theorem ffsl_pos {w : Word} (h : w ≠ 0) : ∃ bit, ffsl w = bit + 1 := by
  unfold ffsl
  split
  · next i _ => exact ⟨i, rfl⟩
  · next hnone =>
    refine absurd (BitVec.eq_of_getLsbD_eq fun j hj => ?_) h
    have hall := List.find?_eq_none.mp hnone j (List.mem_range.mpr hj)
    simpa using hall

theorem bitmapScan_eq_some {bm : Nat → Word} {length fuel i k : Nat}
    (h : bitmapScan bm length fuel i = some k) : ~~~(bm k) ≠ 0 ∧ i ≤ k := by
  induction fuel generalizing i with
  | zero => cases h
  | succ fuel ih =>
    simp only [bitmapScan] at h
    split at h
    · split at h
      · cases h
      · obtain ⟨hk, hle⟩ := ih h
        exact ⟨hk, by omega⟩
    · next hne =>
      cases h
      exact ⟨hne, le_refl _⟩

/-- The words before the one where the scan stops are full, and no word after the end is read
but one. -/
theorem bitmapScan_first {bm : Nat → Word} {length fuel i k : Nat}
    (h : bitmapScan bm length fuel i = some k) (hi : i ≤ length) :
    k ≤ length ∧ ∀ j, i ≤ j → j < k → bm j = ~~~0 := by
  induction fuel generalizing i with
  | zero => cases h
  | succ fuel ih =>
    simp only [bitmapScan] at h
    split at h
    · next hfull =>
      split at h
      · cases h
      · next hlt =>
        obtain ⟨hk, hbefore⟩ := ih h (by omega)
        refine ⟨hk, fun j hij hjk => ?_⟩
        rcases Nat.eq_or_lt_of_le hij with rfl | hlt'
        · rw [← hfull, BitVec.not_not]
        · exact hbefore j hlt' hjk
    · cases h
      exact ⟨hi, fun j hij hjk => absurd hjk (Nat.not_lt_of_le hij)⟩

/-- The scan stops if a word that it can reach has a clear bit. -/
theorem bitmapScan_isSome {bm : Nat → Word} {length fuel i k : Nat} (hk : ~~~(bm k) ≠ 0)
    (hik : i ≤ k) (hlen : k ≤ length) (hfuel : k < i + fuel) :
    ∃ k', bitmapScan bm length fuel i = some k' := by
  induction fuel generalizing i with
  | zero => omega
  | succ fuel ih =>
    simp only [bitmapScan]
    split
    · next hfull =>
      have hne : i ≠ k := by
        rintro rfl
        exact hk hfull
      rw [if_neg (by omega)]
      exact ih (by omega) (by omega)
    · exact ⟨i, rfl⟩

/-- Whatever index is returned, its bit was clear and is the only one that changes. -/
theorem bitmapFindAndSet_eq_some {bm bm' : Nat → Word} {items index : Nat}
    (h : bitmapFindAndSet bm items = (some index, bm')) :
    bitmapTest bm index = false ∧ bm' = bitmapSet bm index := by
  unfold bitmapFindAndSet at h
  split at h
  · cases h
  · next i hscan =>
    obtain ⟨hclear, -⟩ := bitmapScan_eq_some hscan
    obtain ⟨bit, hbit⟩ := ffsl_pos hclear
    obtain ⟨hlt, hget, -⟩ := ffsl_eq_succ hbit
    simp only [hbit, Nat.add_sub_cancel, Prod.mk.injEq, Option.some.injEq] at h
    obtain ⟨rfl, rfl⟩ := h
    have hdiv : (i * bitmapBits + bit) / 32 = i := by simp only [bitmapBits]; omega
    have hmod : (i * bitmapBits + bit) % 32 = bit := by simp only [bitmapBits]; omega
    refine ⟨?_, ?_⟩
    · rw [bitmapTest_eq, hdiv, hmod]
      simpa [BitVec.getLsbD_not, hlt] using hget
    · simp only [bitmapSet, hdiv, hmod]

theorem bitmapFindAndSet_least {bm bm' : Nat → Word} {items index j : Nat}
    (h : bitmapFindAndSet bm items = (some index, bm')) (hj : j < index) :
    bitmapTest bm j = true := by
  unfold bitmapFindAndSet at h
  split at h
  · cases h
  · next i hscan =>
    obtain ⟨bit, hbit⟩ := ffsl_pos (bitmapScan_eq_some hscan).1
    obtain ⟨hlt, -, hleast⟩ := ffsl_eq_succ hbit
    simp only [hbit, Nat.add_sub_cancel, Prod.mk.injEq, Option.some.injEq, bitmapBits] at h
    obtain ⟨rfl, -⟩ := h
    have hmod : j % 32 < 32 := Nat.mod_lt _ (by decide)
    rw [bitmapTest_eq]
    rcases Nat.lt_or_ge (j / 32) i with hword | hword
    · rw [(bitmapScan_first hscan (Nat.zero_le _)).2 _ (Nat.zero_le _) hword,
        BitVec.getLsbD_not]
      simp [hmod]
    · have hdiv : j / 32 = i := by omega
      have hclear := hleast (j % 32) (by omega)
      rw [BitVec.getLsbD_not, decide_eq_true hmod, Bool.true_and] at hclear
      rw [hdiv]
      simpa using hclear

/-- The index that is returned is at most in the word behind the bitmap. -/
theorem bitmapFindAndSet_lt {bm bm' : Nat → Word} {items index : Nat}
    (h : bitmapFindAndSet bm items = (some index, bm')) :
    index < (bitmapLength items + 1) * bitmapBits := by
  unfold bitmapFindAndSet at h
  split at h
  · cases h
  · next i hscan =>
    obtain ⟨bit, hbit⟩ := ffsl_pos (bitmapScan_eq_some hscan).1
    have hlt := (ffsl_eq_succ hbit).1
    have hi := (bitmapScan_first hscan (Nat.zero_le _)).1
    simp only [hbit, Nat.add_sub_cancel, Prod.mk.injEq, Option.some.injEq, bitmapBits] at h ⊢
    omega

/-- With a clear bit in the words that are read an index is found, and it is not above that. -/
theorem bitmapFindAndSet_isSome {bm : Nat → Word} {items j : Nat}
    (hj : j < (bitmapLength items + 1) * bitmapBits) (hclear : bitmapTest bm j = false) :
    ∃ index bm', bitmapFindAndSet bm items = (some index, bm') ∧ index ≤ j := by
  have hword : j / 32 ≤ bitmapLength items := by simp only [bitmapBits] at hj; omega
  have hne : ~~~(bm (j / 32)) ≠ 0 := by
    intro hfull
    have hbit : (~~~(bm (j / 32))).getLsbD (j % 32) = (0 : Word).getLsbD (j % 32) := by
      rw [hfull]
    have hmod : j % 32 < 32 := Nat.mod_lt _ (by decide)
    rw [bitmapTest_eq] at hclear
    rw [BitVec.getLsbD_not, hclear] at hbit
    simp [hmod] at hbit
  obtain ⟨k, hscan⟩ := bitmapScan_isSome hne (Nat.zero_le _) hword
    (show j / 32 < 0 + (bitmapLength items + 1) by omega)
  obtain ⟨index, bm', hfound⟩ : ∃ index bm', bitmapFindAndSet bm items = (some index, bm') := by
    unfold bitmapFindAndSet
    rw [hscan]
    exact ⟨_, _, rfl⟩
  refine ⟨index, bm', hfound, ?_⟩
  by_contra hlt
  rw [bitmapFindAndSet_least hfound (Nat.lt_of_not_le hlt)] at hclear
  cases hclear

/-! ## Bits of a bitmap stack -/

namespace Bmstack

theorem test_eq (bms : Bmstack) (index : Nat) :
    bms.test index = bitmapTest (fun i => (bms.entries i).bitmap) index := rfl

theorem bitmap_setEntry (bms : Bmstack) (i : Nat) (e : BmstackEntry) :
    (fun j => ((bms.setEntry i e).entries j).bitmap) =
      Function.update (fun j => (bms.entries j).bitmap) i e.bitmap := by
  funext j
  by_cases hj : j = i
  · subst hj
    simp [setEntry]
  · simp [setEntry, hj]

theorem test_set (bms : Bmstack) (index j : Nat) :
    (bms.set index).test j = (decide (j = index) || bms.test j) := by
  rw [test_eq, test_eq, ← bitmapTest_bitmapSet]
  refine congrFun (congrArg bitmapTest ?_) j
  rw [bitmapSet, ← bitmap_setEntry _ _ { bms.entries (index / bitmapBits) with
    bitmap := (bms.entries (index / bitmapBits)).bitmap ||| (1#32 <<< (index % bitmapBits)) }]
  unfold set
  dsimp only
  split <;> rfl

theorem test_clear (bms : Bmstack) (index j : Nat) :
    (bms.clear index).test j = (!decide (j = index) && bms.test j) := by
  rw [test_eq, test_eq, ← bitmapTest_bitmapClear]
  refine congrFun (congrArg bitmapTest ?_) j
  unfold clear bitmapClear
  dsimp only
  split
  · split <;> exact bitmap_setEntry _ _ _
  · exact bitmap_setEntry _ _ _

theorem test_setEntry_next (bms : Bmstack) (i j : Nat) (next : Option Nat) :
    (bms.setEntry i { bms.entries i with next := next }).test j = bms.test j := by
  rw [test_eq, bitmap_setEntry, Function.update_eq_self, ← test_eq]

theorem test_linkLoop (n i : Nat) (prev : Option Nat) (bms : Bmstack) (j : Nat) :
    (linkLoop n i prev bms).test j = bms.test j := by
  induction n generalizing i prev bms with
  | zero =>
    unfold linkLoop
    rfl
  | succ n ih =>
    unfold linkLoop
    dsimp only
    split
    · rw [ih, test_setEntry_next]
    · cases prev with
      | none =>
        rw [ih]
        exact test_setEntry_next bms i j none
      | some p => rw [ih, test_setEntry_next, test_setEntry_next]

theorem test_link (bms : Bmstack) (items j : Nat) : (bms.link items).test j = bms.test j :=
  test_linkLoop ..

theorem findAndSet_eq_some {bms bms' : Bmstack} {index : Nat}
    (h : bms.findAndSet = some (index, bms')) : bms.test index = false ∧ bms' = bms.set index := by
  unfold findAndSet at h
  split at h
  · cases h
  · next i _ =>
    split at h
    · cases h
    · next bit hbit =>
      cases h
      obtain ⟨hlt, hget, -⟩ := ffsl_eq_succ hbit
      refine ⟨?_, rfl⟩
      have hdiv : (i * bitmapBits + bit) / 32 = i := by simp only [bitmapBits]; omega
      have hmod : (i * bitmapBits + bit) % 32 = bit := by simp only [bitmapBits]; omega
      rw [test_eq, bitmapTest_eq, hdiv, hmod]
      simpa [BitVec.getLsbD_not, hlt] using hget

end Bmstack

end Horizon
