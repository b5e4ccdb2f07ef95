import Horizon.Util
import Horizon.Lib.Chain
import Horizon.Lib.StateError

/-!
# Horizon — the free list of a bitmap stack

`bmstack_link` threads the entries that have a clear bit into a list, `bmstack_find_and_set`
takes its bits from the head entry and unlinks it when it is full, and `bmstack_clear` links an
entry again when it was full. `FreeList` is what they maintain: the list from `head` holds
exactly the entries with a clear bit.

`bmstack_clear` takes an empty list for a stack that has not been linked yet. So the list is
kept along every run in which no bit is cleared while all of them are set (`freeList_of_run`),
and lost in a run that exhausts the stack (`exhausted_stack_stays_empty`).
-/

namespace Horizon

open StateError LinkedCells

namespace Bmstack

variable {bms bms' : Bmstack} {length items index i : Nat} {l : List Nat}

def next (bms : Bmstack) (i : Nat) : Option Nat := (bms.entries i).next

/-- All bits of the entry are set. -/
def Full (bms : Bmstack) (i : Nat) : Prop := ~~~(bms.entries i).bitmap = 0

/-- The list from `head` is `l`, and consists of the entries that are not full. -/
structure FreeList (bms : Bmstack) (length : Nat) (l : List Nat) : Prop where
  seg : Seg bms.next bms.head l none
  mem : ∀ i, i ∈ l ↔ i < length ∧ ¬bms.Full i

/-- A bit of the first `items` is clear. -/
def HasClear (items : Nat) (bms : Bmstack) : Prop :=
  ∃ index < bitmapLength items * bitmapBits, bms.test index = false

instance : Decidable (bms.HasClear items) := by unfold HasClear; infer_instance

/-! ## Full entries -/

theorem full_iff : bms.Full i ↔ ∀ bit < 32, bms.test (i * 32 + bit) = true := by
  have htest : ∀ bit < 32, bms.test (i * 32 + bit) = (bms.entries i).bitmap.getLsbD bit := by
    intro bit hbit
    rw [test_eq, bitmapTest_eq, show (i * 32 + bit) / 32 = i by omega,
      show (i * 32 + bit) % 32 = bit by omega]
  unfold Full
  constructor
  · intro hfull bit hbit
    have hget := congrArg (fun w : Word => w.getLsbD bit) hfull
    rw [htest bit hbit]
    simpa [BitVec.getLsbD_not, hbit] using hget
  · intro hall
    refine BitVec.eq_of_getLsbD_eq fun bit hbit => ?_
    rw [BitVec.getLsbD_not, ← htest bit hbit, hall bit hbit]
    simp

theorem not_full_of_test (h : bms.test index = false) : ¬bms.Full (index / 32) := by
  intro hfull
  have := full_iff.mp hfull (index % 32) (Nat.mod_lt _ (by decide))
  rw [show index / 32 * 32 + index % 32 = index by omega, h] at this
  cases this

theorem full_congr (h : ∀ bit < 32, bms'.test (i * 32 + bit) = bms.test (i * 32 + bit)) :
    bms'.Full i ↔ bms.Full i := by
  rw [full_iff, full_iff]
  exact forall₂_congr fun bit hbit => by rw [h bit hbit]

theorem FreeList.head_isSome (h : FreeList bms (bitmapLength items) l) (hclear : bms.HasClear items) :
    ∃ i, bms.head = some i ∧ ¬bms.Full i := by
  obtain ⟨index, hindex, htest⟩ := hclear
  have hmem : index / 32 ∈ l :=
    (h.mem _).mpr ⟨by simp only [bitmapBits] at hindex; omega, not_full_of_test htest⟩
  cases l with
  | nil => cases hmem
  | cons i l => exact ⟨i, h.seg.1, ((h.mem i).mp List.mem_cons_self).2⟩

theorem FreeList.findAndSet_isSome (h : FreeList bms (bitmapLength items) l)
    (hclear : bms.HasClear items) : bms.findAndSet.isSome = true := by
  obtain ⟨i, hhead, hfree⟩ := h.head_isSome hclear
  obtain ⟨bit, hbit⟩ := ffsl_pos hfree
  unfold findAndSet
  rw [hhead]
  simp only [hbit]
  rfl

/-! ## Linking -/

theorem next_setEntry (bms : Bmstack) (i : Nat) (e : BmstackEntry) :
    (bms.setEntry i e).next = Function.update bms.next i e.next := by
  funext j
  by_cases hj : j = i
  · subst hj
    simp [setEntry, next]
  · simp [setEntry, next, hj]

/-- The list has been linked up to entry `i`, and `prev` is its last entry. -/
theorem linkLoop_freeList {n : Nat} {prev : Option Nat} (h : FreeList bms i l)
    (hprev : l.getLast? = prev) : ∃ l', FreeList (linkLoop n i prev bms) (i + n) l' := by
  induction n generalizing bms i prev l with
  | zero => exact ⟨l, by unfold linkLoop; exact h⟩
  | succ n ih =>
    have hi : i ∉ l := fun hi => Nat.lt_irrefl i ((h.mem i).mp hi).1
    let bms₁ := bms.setEntry i { bms.entries i with next := none }
    have hfull₁ : ∀ j, bms₁.Full j ↔ bms.Full j := fun j =>
      full_congr fun bit _ => test_setEntry_next bms i _ none
    have hnext₁ : bms₁.next = Function.update bms.next i none := next_setEntry ..
    have hseg₁ : Seg bms₁.next bms.head l none := by
      rw [hnext₁]
      exact h.seg.frame fun j hj => Function.update_of_ne (fun hji : j = i => hi (hji ▸ hj)) _ _
    unfold linkLoop
    rw [show i + (n + 1) = i + 1 + n by omega]
    dsimp only
    split
    · next hfull =>
      refine ih (l := l) ⟨hseg₁, fun j => ?_⟩ hprev
      rw [h.mem, hfull₁]
      constructor
      · rintro ⟨hj, hfree⟩
        exact ⟨by omega, hfree⟩
      · rintro ⟨hj, hfree⟩
        have hne : j ≠ i := fun hji => hfree (hji ▸ (hfull₁ i).mp hfull)
        exact ⟨by omega, hfree⟩
    · next hfree =>
      -- The entries up to `i` that are not full are those so far and `i` itself.
      have hmem : ∀ j, j ∈ l ++ [i] ↔ j < i + 1 ∧ ¬bms.Full j := by
        intro j
        rw [List.mem_append, List.mem_singleton, h.mem]
        constructor
        · rintro (⟨hj, hfree⟩ | rfl)
          · exact ⟨by omega, hfree⟩
          · exact ⟨by omega, fun hfull => hfree ((hfull₁ j).mpr hfull)⟩
        · rintro ⟨hj, hfree⟩
          rcases Nat.lt_or_eq_of_le (Nat.le_of_lt_succ hj) with hlt | heq
          · exact Or.inl ⟨hlt, hfree⟩
          · exact Or.inr heq
      cases prev with
      | none =>
        have hl : l = [] := List.getLast?_eq_none_iff.mp hprev
        subst hl
        refine ih (l := [i]) ⟨?_, fun j => ?_⟩ rfl
        · refine ⟨rfl, ?_⟩
          show bms₁.next i = none
          rw [hnext₁, Function.update_self]
        · rw [show ([i] : List Nat) = [] ++ [i] from rfl, hmem]
          exact and_congr_right fun _ => not_congr (hfull₁ j).symm
      | some p =>
        obtain ⟨l₀, rfl⟩ := List.getLast?_eq_some_iff.mp hprev
        have hpi : p ≠ i := fun hpi => hi (by simp [hpi])
        refine ih (l := l₀ ++ [p] ++ [i]) ⟨?_, fun j => ?_⟩ (by simp)
        · rw [next_setEntry]
          show Seg (Function.update bms₁.next p (some i)) bms.head _ none
          rw [hnext₁, Function.update_comm hpi.symm]
          exact h.seg.snoc hi
        · rw [hmem, ← hfull₁]
          refine and_congr_right fun _ => not_congr (full_congr fun bit _ => ?_)
          exact (test_setEntry_next bms₁ p _ (some i)).symm

theorem link_freeList (entries : Nat → BmstackEntry) (items : Nat) :
    ∃ l, FreeList (link { entries, head := none } items) (bitmapLength items) l := by
  have hstart : FreeList { entries, head := none } 0 [] := ⟨rfl, fun i => by simp⟩
  have := linkLoop_freeList (n := bitmapLength items) hstart rfl
  rwa [Nat.zero_add] at this

/-! ## Taking and giving back a bit -/

theorem next_set : (bms.set index).next = bms.next := by
  have hset : (bms.setEntry (index / 32) { bms.entries (index / 32) with
      bitmap := (bms.entries (index / 32)).bitmap ||| (1#32 <<< (index % 32)) }).next = bms.next := by
    rw [next_setEntry]
    exact Function.update_eq_self _ _
  unfold set
  dsimp only
  split <;> exact hset

/-- The head entry leaves the list when its last bit is taken. -/
theorem FreeList.set {bit : Nat} (h : FreeList bms length (i :: l)) (hbit : bit < 32) :
    ∃ l', FreeList (bms.set (i * 32 + bit)) length l' := by
  have hdiv : (i * 32 + bit) / 32 = i := by omega
  have hfull : ∀ j, j ≠ i → ((bms.set (i * 32 + bit)).Full j ↔ bms.Full j) := fun j hj =>
    full_congr fun b hb => by rw [test_set, decide_eq_false (by omega), Bool.false_or]
  have hil : i ∉ l := (List.nodup_cons.mp h.seg.nodup).1
  have hmem : ∀ j, j ≠ i → (j ∈ l ↔ j < length ∧ ¬(bms.set (i * 32 + bit)).Full j) := fun j hj => by
    rw [hfull j hj, ← h.mem j, List.mem_cons, or_iff_right hj]
  have hstart : (bms.setEntry i { bms.entries i with
      bitmap := (bms.entries i).bitmap ||| (1#32 <<< ((i * 32 + bit) % 32)) }).head = some i :=
    h.seg.1
  have hentry : (bms.set (i * 32 + bit)).Full i ↔
      ~~~((bms.entries i).bitmap ||| (1#32 <<< ((i * 32 + bit) % 32))) = 0 := by
    unfold Full Bmstack.set
    simp only [bitmapBits, hdiv]
    split <;> simp [setEntry]
  by_cases hnow : (bms.set (i * 32 + bit)).Full i
  · have hhead : (bms.set (i * 32 + bit)).head = bms.next i := by
      unfold Bmstack.set
      simp only [bitmapBits, hdiv]
      rw [if_pos ⟨hstart, hentry.mp hnow⟩]
      rfl
    refine ⟨l, by rw [next_set, hhead]; exact h.seg.2, fun j => ?_⟩
    by_cases hj : j = i
    · subst hj
      exact iff_of_false hil fun hfree => hfree.2 hnow
    · exact hmem j hj
  · have hhead : (bms.set (i * 32 + bit)).head = some i := by
      unfold Bmstack.set
      simp only [bitmapBits, hdiv]
      rw [if_neg fun hboth => hnow (hentry.mpr hboth.2)]
      exact hstart
    refine ⟨i :: l, by rw [next_set, hhead]; exact ⟨rfl, h.seg.2⟩, fun j => ?_⟩
    by_cases hj : j = i
    · subst hj
      exact iff_of_true List.mem_cons_self ⟨((h.mem j).mp List.mem_cons_self).1, hnow⟩
    · rw [List.mem_cons, or_iff_right hj]
      exact hmem j hj

theorem FreeList.findAndSet (h : FreeList bms length l)
    (hfind : bms.findAndSet = some (index, bms')) :
    index / 32 < length ∧ ∃ l', FreeList bms' length l' := by
  unfold Bmstack.findAndSet at hfind
  split at hfind
  · cases hfind
  · next i hhead =>
    split at hfind
    · cases hfind
    · next bit hbit =>
      cases hfind
      have hlt := (ffsl_eq_succ hbit).1
      cases l with
      | nil => exact absurd (hhead.symm.trans h.seg) nofun
      | cons i' l =>
        cases hhead.symm.trans h.seg.1
        refine ⟨?_, h.set hlt⟩
        have := ((h.mem i).mp List.mem_cons_self).1
        simp only [bitmapBits]
        omega

/-- An entry that was full joins the list, if the list is not empty. -/
theorem FreeList.clear (h : FreeList bms length l) (hindex : index / 32 < length)
    (hhead : bms.head ≠ none) : ∃ l', FreeList (bms.clear index) length l' := by
  obtain ⟨first, hfirst⟩ := Option.ne_none_iff_exists'.mp hhead
  have hfull : ∀ j, j ≠ index / 32 → ((bms.clear index).Full j ↔ bms.Full j) := fun j hj =>
    full_congr fun b hb => by
      rw [test_clear, decide_eq_false (by omega), Bool.not_false, Bool.true_and]
  have hfree : ¬(bms.clear index).Full (index / 32) := by
    refine not_full_of_test ?_
    rw [test_clear, decide_eq_true rfl]
    rfl
  -- The source puts an entry in front exactly if it was full.
  by_cases hwas : bms.Full (index / 32)
  · have hnot : index / 32 ∉ l := fun hmem => ((h.mem _).mp hmem).2 hwas
    have hclear : bms.clear index = { (bms.setEntry (index / 32)
        { next := some first, bitmap := (bms.entries (index / 32)).bitmap &&&
          ~~~(1#32 <<< (index % 32)) }) with head := some (index / 32) } := by
      unfold Bmstack.clear
      simp only [hfirst]
      exact if_pos hwas
    refine ⟨index / 32 :: l, ?_, fun j => ?_⟩
    · rw [hclear]
      show Seg (Bmstack.next (bms.setEntry _ _)) _ _ none
      rw [next_setEntry]
      have hpush := h.seg.push hnot
      rwa [hfirst] at hpush
    · by_cases hj : j = index / 32
      · subst hj
        exact iff_of_true List.mem_cons_self ⟨hindex, hfree⟩
      · rw [List.mem_cons, or_iff_right hj, h.mem, hfull j hj]
  · have hclear : bms.clear index = bms.setEntry (index / 32)
        { bms.entries (index / 32) with bitmap := (bms.entries (index / 32)).bitmap &&&
          ~~~(1#32 <<< (index % 32)) } := by
      unfold Bmstack.clear
      simp only [hfirst]
      exact if_neg hwas
    refine ⟨l, ?_, fun j => ?_⟩
    · have hnext : (bms.clear index).next = bms.next := by
        rw [hclear, next_setEntry]
        exact Function.update_eq_self _ _
      rw [hnext, hclear]
      exact h.seg
    · rw [h.mem]
      by_cases hj : j = index / 32
      · subst hj
        exact iff_of_true ⟨hindex, hwas⟩ ⟨hindex, hfree⟩
      · rw [hfull j hj]

theorem head_clear_of_none (h : bms.head = none) : (bms.clear index).head = none := by
  unfold Bmstack.clear
  simp only [h]
  exact h

/-! ## Runs -/

inductive Op where
  | findAndSet
  | clear (index : Nat)

def apply (bms : Bmstack) : Op → Option Bmstack
  | .findAndSet => bms.findAndSet.map Prod.snd
  | .clear index => some (bms.clear index)

/-- A bit is taken while one is clear, and given back when it has been taken. -/
def Legal (items : Nat) (bms : Bmstack) : Op → Prop
  | .findAndSet => bms.HasClear items
  | .clear index => index < bitmapLength items * bitmapBits ∧ bms.test index = true

theorem FreeList.step {op : Op} (h : FreeList bms (bitmapLength items) l)
    (hstep : bms.apply op = some bms') (hlegal : bms.Legal items op)
    (hclear : bms.HasClear items) : ∃ l', FreeList bms' (bitmapLength items) l' := by
  obtain ⟨i, hhead, -⟩ := h.head_isSome hclear
  cases op with
  | clear index =>
    cases hstep
    refine h.clear ?_ (by rw [hhead]; exact nofun)
    have := hlegal.1
    simp only [bitmapBits] at this
    omega
  | findAndSet =>
    obtain ⟨⟨index, bms₁⟩, hfind, rfl⟩ := Option.map_eq_some_iff.mp hstep
    exact (h.findAndSet hfind).2

/-- Along every run in which no bit is given back while all of them are taken, the list holds
exactly the entries with a clear bit, each once, and a clear bit can be taken. -/
theorem freeList_of_run {entries : Nat → BmstackEntry} {ops : List Op}
    (hrun : Steps apply (fun bms op _ => bms.Legal items op ∧ bms.HasClear items)
      (link { entries, head := none } items) ops bms) :
    (∃ l, Seg bms.next bms.head l none ∧ l.Nodup ∧
      ∀ i, i ∈ l ↔ i < bitmapLength items ∧ (bms.entries i).bitmap ≠ BitVec.allOnes 32) ∧
    (bms.HasClear items → bms.head ≠ none ∧ bms.findAndSet.isSome = true) := by
  obtain ⟨l, hl⟩ : ∃ l, FreeList bms (bitmapLength items) l :=
    hrun.invariant (I := fun bms => ∃ l, FreeList bms (bitmapLength items) l)
      (fun _ _ _ ⟨_, hl⟩ hstep hguard => hl.step hstep hguard.1 hguard.2) (link_freeList ..)
  refine ⟨⟨l, hl.seg, hl.seg.nodup, fun i => ?_⟩, fun hclear => ⟨?_, hl.findAndSet_isSome hclear⟩⟩
  · rw [hl.mem, Full, show (0 : Word) = ~~~(BitVec.allOnes 32) by decide, BitVec.not_inj]
  · obtain ⟨i, hhead, -⟩ := hl.head_isSome hclear
    rw [hhead]
    exact nofun

instance {op : Op} : Decidable (bms.Legal items op) := by
  cases op <;> (unfold Legal; infer_instance)

/-- Two bits are taken and the first of them is given back. -/
theorem link_take_give_back :
    ∃ bms, Steps apply (fun bms op _ => bms.Legal 32 op ∧ bms.HasClear 32)
        (link { entries := fun _ => {}, head := none } 32)
        [.findAndSet, .findAndSet, .clear 0] bms ∧
      bms.test 0 = false ∧ bms.test 1 = true ∧ bms.findAndSet.isSome = true := by
  have hany : (runEvents (checked apply fun bms op _ => bms.Legal 32 op ∧ bms.HasClear 32)
      (link { entries := fun _ => {}, head := none } 32) [.findAndSet, .findAndSet, .clear 0]).any
      (fun bms => bms.test 0 = false ∧ bms.test 1 = true ∧ bms.HasClear 32) = true := by
    decide +kernel
  obtain ⟨bms, hrun, hp⟩ := exists_steps_of_any (fun _ _ _ => of_decide_eq_true) hany
  obtain ⟨hzero, hone, hclear⟩ := of_decide_eq_true hp
  exact ⟨bms, hrun, hzero, hone, ((freeList_of_run hrun).2 hclear).2⟩

/-- All bits of a stack of 32 are taken and one of them is given back: the list is empty, and
the bit that is clear cannot be taken. -/
theorem exhausted_stack_stays_empty :
    ∃ bms, Steps apply (fun bms op _ => bms.Legal 32 op)
        (link { entries := fun _ => {}, head := none } 32)
        (List.replicate 32 .findAndSet ++ [.clear 0]) bms ∧
      bms.HasClear 32 ∧ bms.head = none ∧ bms.findAndSet.isSome = false := by
  have hany : (runEvents (checked apply fun bms op _ => bms.Legal 32 op)
      (link { entries := fun _ => {}, head := none } 32)
      (List.replicate 32 .findAndSet ++ [.clear 0])).any
      (fun bms => bms.HasClear 32 ∧ bms.head = none ∧ bms.findAndSet.isSome = false) = true := by
    decide +kernel
  obtain ⟨bms, hrun, hp⟩ := exists_steps_of_any (fun _ _ _ => of_decide_eq_true) hany
  exact ⟨bms, hrun, of_decide_eq_true hp⟩

end Bmstack

end Horizon
