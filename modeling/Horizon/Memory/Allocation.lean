import Horizon.Memory.Directory
import Horizon.Memory.Extent

/-!
# Horizon — allocating the pages of a range (`virtual_alloc`)

What `virtual_alloc` does to one address space, page by page: `AllocState` follows the loop. The
pages of the range that were not mapped get frames of their own, the others keep theirs, and every
page is cleared from the start of the range to the *end of the page*.

The allocator has to hand out a block for each page that is not mapped and for each page table that
is missing (`Vm.blocksFor`); `Bmstack.supplies` says that it can.
-/

namespace Horizon

open StateError Vm

variable {vm vm' vm₁ v : Vm} {d f t : Frame} {virt size : Word} {flags : PagingFlags}
  {m n first : ℕ}

/-! ## The allocator -/

/-- Can that many blocks be handed out? -/
def Bmstack.supplies (items : ℕ) : ℕ → Bmstack → Bool
  | 0, _ => true
  | n + 1, map =>
      match map.findAndSet with
      | some (index, map') => index < items && supplies items n map'
      | none => false

def Vm.supplies (vm : Vm) (n : ℕ) : Bool := vm.allocMap.supplies vm.blockCount n

/-- The index that is handed out after some others. -/
def Bmstack.nthIndex : ℕ → Bmstack → Option ℕ
  | 0, map => map.findAndSet.map (·.1)
  | n + 1, map => map.findAndSet.bind fun r => nthIndex n r.2

/-- The block that is handed out after some others. -/
def Vm.nthBlock (vm : Vm) (n : ℕ) : Option Frame :=
  (vm.allocMap.nthIndex n).map fun index => physicalUsableBase + BitVec.ofNat 20 index

theorem Bmstack.supplies_mono {items : ℕ} {map : Bmstack} (h : map.supplies items n = true)
    (hle : m ≤ n) : map.supplies items m = true := by
  induction n generalizing m map with
  | zero =>
    obtain rfl := Nat.le_zero.mp hle
    rfl
  | succ n ih =>
    cases m with
    | zero => rfl
    | succ m =>
      unfold supplies at h ⊢
      cases hfind : map.findAndSet with
      | none =>
        rw [hfind] at h
        cases h
      | some r =>
        rw [hfind] at h
        simp only [Bool.and_eq_true] at h ⊢
        exact ⟨h.1, ih h.2 (Nat.le_of_succ_le_succ hle)⟩

/-- Some allocations have been made, and nothing else has happened but to page structures. -/
structure Vm.Took (n : ℕ) (vm vm' : Vm) : Prop where
  supplies : ∀ m, vm'.supplies m = vm.supplies (n + m)
  nthBlock : ∀ m, vm'.nthBlock m = vm.nthBlock (n + m)
  free : ∀ f, vm'.Free f → vm.Free f
  blockCount : vm'.blockCount = vm.blockCount
  ram : vm'.ram = vm.ram
  cr3 : vm'.cr3 = vm.cr3
  kernelDir : vm'.kernelDir = vm.kernelDir

theorem Vm.Took.of_pages (h : vm' = { vm with pages := vm'.pages }) : vm.Took 0 vm' := by
  rw [h]
  exact ⟨fun m => by rw [Nat.zero_add]; rfl, fun m => by rw [Nat.zero_add]; rfl, fun _ hf => hf,
    rfl, rfl, rfl, rfl⟩

theorem Vm.Took.trans {vm'' : Vm} (h : vm.Took n vm') (h' : vm'.Took m vm'') :
    vm.Took (n + m) vm'' where
  supplies i := by rw [h'.supplies, h.supplies, Nat.add_assoc]
  nthBlock i := by rw [h'.nthBlock, h.nthBlock, Nat.add_assoc]
  free f hf := h.free f (h'.free f hf)
  blockCount := h'.blockCount.trans h.blockCount
  ram := h'.ram.trans h.ram
  cr3 := h'.cr3.trans h.cr3
  kernelDir := h'.kernelDir.trans h.kernelDir

theorem physicalAlloc_took (hsized : vm.blockCount ≤ 2 ^ 20) (h : physicalAlloc vm = .ok f vm') :
    vm.Took 1 vm' ∧ vm.Free f ∧ ¬vm'.Free f ∧ vm'.pages = vm.pages := by
  obtain ⟨hfree, hsame, hpool⟩ := physicalAlloc_pool (fun _ => none) hsized h
  have hfree' : ∀ g, vm'.Free g ↔ vm.Free g ∧ g ≠ f := by
    intro g
    show g ∈ (vm'.pool fun _ => none).free ↔ _
    rw [hpool]
    exact Iff.rfl
  refine ⟨⟨fun m => ?_, fun m => ?_, fun g hg => ((hfree' g).mp hg).1, hsame.blockCount, ?_, ?_,
    hsame.kernelDir⟩, hfree, fun hf => ((hfree' f).mp hf).2 rfl, hsame.pages⟩
  · obtain ⟨index, map, hfind, hlt, -, rfl⟩ := physicalAlloc_eq_ok.mp h
    rw [Nat.add_comm, Vm.supplies, Vm.supplies, Bmstack.supplies, hfind]
    simp only [hlt, decide_true, Bool.true_and]
    rfl
  · obtain ⟨index, map, hfind, -, -, rfl⟩ := physicalAlloc_eq_ok.mp h
    rw [Nat.add_comm, Vm.nthBlock, Vm.nthBlock, Bmstack.nthIndex, hfind]
    rfl
  all_goals
    obtain ⟨index, map, -, -, -, rfl⟩ := physicalAlloc_eq_ok.mp h
    rfl

theorem nthBlock_zero (h : physicalAlloc vm = .ok f vm') : vm.nthBlock 0 = some f := by
  obtain ⟨index, map, hfind, -, rfl, -⟩ := physicalAlloc_eq_ok.mp h
  rw [Vm.nthBlock, Bmstack.nthIndex, hfind]
  rfl

theorem physicalAlloc_of_supplies (h : vm.supplies 1 = true) :
    ∃ f vm', physicalAlloc vm = .ok f vm' := by
  rw [Vm.supplies, Bmstack.supplies] at h
  cases hfind : vm.allocMap.findAndSet with
  | none =>
    rw [hfind] at h
    cases h
  | some r =>
    rw [hfind] at h
    simp only [Bool.and_eq_true, decide_eq_true_eq] at h
    exact ⟨_, _, physicalAlloc_eq_ok.mpr ⟨r.1, r.2, hfind, h.1, rfl, rfl⟩⟩

/-! ## One address space -/

/-- The directory entries of an address space, apart from the recursive mapping. -/
def ownIndices : Set (BitVec 10) := {i | i ≠ recursiveIndex}

/-- The directory and its tables are frames of their own, and the allocator has them in use. -/
structure Vm.Intact (vm : Vm) (d : Frame) : Prop where
  apart : vm.ApartOn ownIndices {d}
  held : ∀ f, vm.UsedOn ownIndices {d} f → ¬vm.Free f
  sized : vm.blockCount ≤ 2 ^ 20

/-- Only what has been handed out since may be in use in addition. -/
theorem Vm.Intact.congr (h : vm.Intact d) (hpages : vm'.pages = vm.pages)
    (hfree : ∀ f, vm'.Free f → vm.Free f) (hcount : vm'.blockCount = vm.blockCount) :
    vm'.Intact d where
  apart := by
    rw [Vm.ApartOn, hpages]
    exact h.apart
  held f hf hfree' := by
    rw [Vm.UsedOn, hpages] at hf
    exact h.held f hf (hfree f hfree')
  sized := hcount.le.trans h.sized

theorem Vm.Intact.fresh (h : vm.Intact d) : ∀ f ∈ vm.nextFrame, ¬vm.UsedOn ownIndices {d} f := by
  rintro f ⟨vm', halloc⟩ hused
  exact h.held f hused (physicalAlloc_took h.sized halloc).2.1

theorem Vm.Tidy.holder_target {dirs : Pid → Option Frame} {p : Pid} {i : BitVec 10}
    (h : vm.Tidy dirs) (hd : dirs p = some d) (hi : i ∈ ownIndices)
    (ht : (vm.pages d i).target = some t) :
    vm.holder dirs (if i < userTop then .table p i else .kernelTable i) = some t := by
  rw [PageEntry.target, Option.ite_none_right_eq_some] at ht
  split
  · next hlow => rw [holder_table hd, if_pos ⟨hlow, ht.1⟩, ht.2]
  · next hhigh =>
    have hle := BitVec.not_lt.mp hhigh
    rw [h.upper hd hle hi] at ht
    rw [holder, if_pos ⟨hle, hi, ht.1⟩, ht.2]

theorem Vm.Tidy.intact {dirs : Pid → Option Frame} {p : Pid} (h : vm.Tidy dirs)
    (hd : dirs p = some d) : vm.Intact d where
  apart := by
    refine ⟨?_, ?_⟩
    · rintro _ i t rfl hi ht (rfl : t = _)
      have huse := h.inj (h.holder_target hd hi ht) (holder_dir.trans hd)
      split at huse <;> cases huse
    · rintro _ _ i i' t rfl rfl hi hi' ht ht'
      have huse := h.inj (h.holder_target hd hi ht) (h.holder_target hd hi' ht')
      refine ⟨rfl, ?_⟩
      split at huse <;> split at huse <;> cases huse <;> rfl
  held f hf := by
    rcases hf with rfl | ⟨_, rfl, i, hi, ht⟩
    · exact h.held (holder_dir.trans hd)
    · exact h.held (h.holder_target hd hi ht)
  sized := h.sized

/-- A page has been mapped with some flags, and the table allows what they allow. -/
structure Vm.MadeWith (flags : PagingFlags) (vm : Vm) (d : Frame) (i j : BitVec 10) (f : Frame) :
    Prop where
  present : (vm.pages d i).present = true
  entry : vm.pages (vm.pages d i).frame j = flags.entry f
  write : flags.write = true → (vm.pages d i).writable = true
  user : flags.user = true → (vm.pages d i).user = true

theorem Vm.MadeWith.target {i j : BitVec 10} (h : vm.MadeWith flags d i j f) :
    (vm.pages d i).target = some (vm.pages d i).frame := if_pos h.present

theorem Vm.MadeWith.lookup {i j : BitVec 10} (h : vm.MadeWith flags d i j f) :
    vm.lookup d i j = some f := by
  rw [Vm.lookup, TwoLevel.lookup, h.target, Option.bind_some, h.entry, target_entry]

theorem Vm.MadeWith.congr {i j : BitVec 10} (h : vm.MadeWith flags d i j f)
    (hpages : vm'.pages = vm.pages) : vm'.MadeWith flags d i j f := by
  obtain ⟨hpresent, hentry, hwrite, huser⟩ := h
  rw [← hpages] at hpresent hentry hwrite huser
  exact ⟨hpresent, hentry, hwrite, huser⟩

section Map

variable {i j : BitVec 10} {done : Bool}

/-- The table for an address is the one that is there, with more rights on its entry, or a new block. -/
theorem tableFor_intact (h : vm.Intact d) (hrun : tableFor d virt flags vm = .ok t vm') :
    vm'.Intact d ∧ vm.Took (if (vm.pages d (dirIndex virt)).target.isSome then 0 else 1) vm' ∧
      (∀ i ∈ ownIndices, (vm'.pages d i).target =
        if i = dirIndex virt then some t else (vm.pages d i).target) ∧
      (flags.write = true → (vm'.pages d (dirIndex virt)).writable = true) ∧
      (flags.user = true → (vm'.pages d (dirIndex virt)).user = true) ∧
      ∀ i ∈ ownIndices, ∀ {j f}, vm.MadeWith flags d i j f → vm'.MadeWith flags d i j f := by
  have hd : d ∈ ({d} : Set Frame) := rfl
  have hapart := (tableFor_maps h.apart h.fresh hd hrun).1
  obtain ⟨htarget, rfl⟩ | ⟨hnone, vm₁, halloc, rfl⟩ := tableFor_eq_ok.mp hrun
  · -- The table is there: only the flags of its entry can change.
    have hroot : ∀ i, (vm.setEntry d (dirIndex virt)
        ((vm.pages d (dirIndex virt)).widen flags)).pages d i =
        if i = dirIndex virt then (vm.pages d (dirIndex virt)).widen flags else vm.pages d i := by
      intro i
      rw [Vm.pages_setEntry]
      simp
    refine ⟨⟨hapart, fun g hg => h.held g ?_, h.sized⟩, ?_, fun i _ => ?_, fun hw => ?_,
      fun hu => ?_, fun i hi' j g hmade => ?_⟩
    · exact hg.congr fun _ _ _ _ => TwoLevel.target_write_root target_widen
    · rw [htarget]
      exact .of_pages rfl
    · rw [hroot]
      split
      · rw [target_widen, htarget]
      · rfl
    · rw [hroot, if_pos rfl, PageEntry.widen, hw, Bool.or_true]
    · rw [hroot, if_pos rfl, PageEntry.widen, hu, Bool.or_true]
    · have hframe : (vm.pages d i).frame ≠ d := fun heq =>
        h.apart.notMem hd hi' hmade.target heq
      constructor
      · rw [hroot]
        split
        · next heq => exact heq ▸ hmade.present
        · exact hmade.present
      · rw [hroot]
        have hsame : (if i = dirIndex virt then (vm.pages d (dirIndex virt)).widen flags
            else vm.pages d i).frame = (vm.pages d i).frame := by
          split
          · next heq => rw [heq]; rfl
          · rfl
        rw [hsame, Vm.pages_setEntry_of_ne hframe, hmade.entry]
      · intro hw
        rw [hroot]
        split
        · rw [PageEntry.widen, hw, Bool.or_true]
        · exact hmade.write hw
      · intro hu
        rw [hroot]
        split
        · rw [PageEntry.widen, hu, Bool.or_true]
        · exact hmade.user hu
  · -- The table is a block that was free, so nothing of the address space is in it.
    obtain ⟨htook, hfree, hnotFree, hpages⟩ := physicalAlloc_took h.sized halloc
    have hnew := h.fresh t ⟨_, halloc⟩
    have hne : d ≠ t := by
      rintro rfl
      exact hnew (Or.inl hd)
    have hroot : ∀ i, ((vm₁.setEntry d (dirIndex virt) (flags.entry t)).setPage t
        fun _ => {}).pages d i = if i = dirIndex virt then flags.entry t else vm.pages d i := by
      intro i
      rw [Window.pages_setPage_of_ne hne, Vm.pages_setEntry, hpages]
      simp
    refine ⟨⟨hapart, fun g hg hfree' => ?_, htook.blockCount.le.trans h.sized⟩, ?_, fun i _ => ?_,
      fun hw => ?_, fun hu => ?_, fun i hi' j g hmade => ?_⟩
    · rw [Vm.UsedOn, ← hpages] at hnew
      rcases TwoLevel.inUse_add_table hnew target_entry hg with rfl | hused
      · exact hnotFree hfree'
      · rw [hpages] at hused
        exact h.held g hused (htook.free g hfree')
    · rw [hnone]
      exact htook.trans (.of_pages rfl)
    · rw [hroot]
      split
      · exact target_entry
      · rfl
    · rw [hroot, if_pos rfl]
      exact hw
    · rw [hroot, if_pos rfl]
      exact hu
    · have hother : i ≠ dirIndex virt := by
        rintro rfl
        rw [hmade.target] at hnone
        cases hnone
      have hroot' := (hroot i).trans (if_neg hother)
      have hframe : (vm.pages d i).frame ≠ d := fun heq =>
        h.apart.notMem hd hi' hmade.target heq
      have htable : (vm.pages d i).frame ≠ t := by
        rintro heq
        exact hnew (Or.inr ⟨d, hd, i, hi', heq ▸ hmade.target⟩)
      refine ⟨hroot' ▸ hmade.present, ?_, hroot' ▸ hmade.write, hroot' ▸ hmade.user⟩
      rw [hroot', Window.pages_setPage_of_ne htable, Vm.pages_setEntry_of_ne hframe, hpages,
        hmade.entry]

theorem pagingMap_eq_ok (hforce : flags.force = false) :
    pagingMap d virt f flags vm = .ok done vm' ↔ ∃ t vm₁, tableFor d virt flags vm = .ok t vm₁ ∧
      ((vm₁.pages t (tblIndex virt)).present = true ∧ done = false ∧ vm' = vm₁ ∨
        (vm₁.pages t (tblIndex virt)).present = false ∧ done = true ∧
          vm' = vm₁.setEntry t (tblIndex virt) (flags.entry f)) := by
  rw [pagingMap, bind_eq_ok]
  refine exists_congr fun t => exists_congr fun vm₁ => and_congr_right fun _ => ?_
  rw [get_bind_apply, hforce, Bool.or_false]
  cases (vm₁.pages t (tblIndex virt)).present with
  | true =>
    simp only [Bool.not_true, Bool.false_eq_true, if_false, pure_eq_ok, true_and, false_and,
      or_false, reduceCtorEq]
    exact and_congr eq_comm eq_comm
  | false =>
    simp only [Bool.not_false, if_true, bind_eq_ok, modify_eq_ok, pure_eq_ok, true_and,
      false_and, false_or, Bool.false_eq_true]
    constructor
    · rintro ⟨_, _, rfl, rfl, rfl⟩
      exact ⟨rfl, rfl⟩
    · rintro ⟨rfl, rfl⟩
      exact ⟨(), _, rfl, rfl, rfl⟩

theorem Vm.Intact.setEntry {e : PageEntry} (h : vm.Intact d) (hi : i ∈ ownIndices)
    (ht : (vm.pages d i).target = some t) :
    (vm.setEntry t j e).Intact d ∧ (vm.setEntry t j e).pages d = vm.pages d :=
  ⟨⟨TwoLevel.apart_write_table h.apart rfl hi ht,
      fun g hg => h.held g (TwoLevel.inUse_write_table h.apart rfl hi ht hg), h.sized⟩,
    TwoLevel.root_write_table h.apart rfl hi ht rfl⟩

theorem pagingMap_intact (h : vm.Intact d) (hi : dirIndex virt ∈ ownIndices)
    (hforce : flags.force = false) (hrun : pagingMap d virt f flags vm = .ok done vm') :
    vm'.Intact d ∧ vm.Took (if (vm.pages d (dirIndex virt)).target.isSome then 0 else 1) vm' ∧
      ∀ i ∈ ownIndices, (vm'.pages d i).target.isSome =
        ((vm.pages d i).target.isSome || decide (i = dirIndex virt)) := by
  obtain ⟨t, vm₁, htable, hwritten⟩ := (pagingMap_eq_ok hforce).mp hrun
  obtain ⟨hintact, htook, htarget, -⟩ := tableFor_intact h htable
  have htables : ∀ i ∈ ownIndices, (vm₁.pages d i).target.isSome =
      ((vm.pages d i).target.isSome || decide (i = dirIndex virt)) := by
    intro i hi'
    rw [htarget i hi']
    split
    · next heq => simp [heq]
    · next hne => simp [hne]
  rcases hwritten with ⟨-, -, rfl⟩ | ⟨-, -, rfl⟩
  · exact ⟨hintact, htook, htables⟩
  · have ht := (htarget _ hi).trans (if_pos rfl)
    obtain ⟨hintact', hroot⟩ := hintact.setEntry (e := flags.entry f) (j := tblIndex virt) hi ht
    have hlast : vm₁.Took 0 (vm₁.setEntry t (tblIndex virt) (flags.entry f)) := .of_pages rfl
    refine ⟨hintact', htook.trans hlast, fun i hi' => ?_⟩
    rw [hroot]
    exact htables i hi'

/-- A page that is not mapped is filled, and the pages made before stay as they are. -/
theorem pagingMap_made (h : vm.Intact d) (hi : dirIndex virt ∈ ownIndices)
    (hforce : flags.force = false) (hnone : vm.lookup d (dirIndex virt) (tblIndex virt) = none)
    (hrun : pagingMap d virt f flags vm = .ok done vm') :
    vm'.MadeWith flags d (dirIndex virt) (tblIndex virt) f ∧
      ∀ i ∈ ownIndices, ∀ {j g}, vm.MadeWith flags d i j g → vm'.MadeWith flags d i j g := by
  have hd : d ∈ ({d} : Set Frame) := rfl
  obtain ⟨t, vm₁, htable, hwritten⟩ := (pagingMap_eq_ok hforce).mp hrun
  obtain ⟨-, -, hsame⟩ := tableFor_maps h.apart h.fresh hd htable
  obtain ⟨hintact, -, htarget, hwrite, huser, hmade⟩ := tableFor_intact h htable
  have ht := (htarget _ hi).trans (if_pos rfl)
  obtain ⟨hpresent, hframe⟩ : (vm₁.pages d (dirIndex virt)).present = true ∧
      (vm₁.pages d (dirIndex virt)).frame = t := by
    rw [PageEntry.target, Option.ite_none_right_eq_some] at ht
    exact ⟨ht.1, Option.some.inj ht.2⟩
  rcases hwritten with ⟨hold, -, -⟩ | ⟨-, -, rfl⟩
  · rw [← hsame d hd _ hi, Vm.lookup, TwoLevel.lookup, ht, Option.bind_some, PageEntry.target,
      if_pos hold] at hnone
    cases hnone
  · have hroot := (hintact.setEntry (e := flags.entry f) (j := tblIndex virt) hi ht).2
    refine ⟨⟨?_, ?_, fun hw => ?_, fun hu => ?_⟩, fun i hi' j g hold => ?_⟩
    · rw [hroot]
      exact hpresent
    · rw [hroot, hframe, Vm.pages_setEntry, if_pos ⟨rfl, rfl⟩]
    · rw [hroot]
      exact hwrite hw
    · rw [hroot]
      exact huser hu
    · have hmade₁ := hmade i hi' hold
      have hentry : (vm₁.setEntry t (tblIndex virt) (flags.entry f)).pages
          (vm₁.pages d i).frame j = vm₁.pages (vm₁.pages d i).frame j := by
        rw [Vm.pages_setEntry, if_neg]
        rintro ⟨htable', rfl⟩
        -- The page would be the one that was not mapped.
        obtain rfl : i = dirIndex virt :=
          (hintact.apart.inj hd hd hi' hi hmade₁.target (htable' ▸ ht)).2
        rw [hold.lookup] at hnone
        cases hnone
      obtain ⟨hpresent, hent, hw, hu⟩ := hmade₁
      rw [← hroot] at hpresent hw hu
      refine ⟨hpresent, ?_, hw, hu⟩
      rw [hroot, hentry, hent]

end Map

theorem pagingMap_of_supplies
    (h : (vm.pages d (dirIndex virt)).target.isSome = true ∨ vm.supplies 1 = true) :
    ∃ done vm', pagingMap d virt f flags vm = .ok done vm' := by
  have htable : ∃ t vm₁, tableFor d virt flags vm = .ok t vm₁ := by
    cases htarget : (vm.pages d (dirIndex virt)).target with
    | some t => exact ⟨t, _, tableFor_eq_ok.mpr (Or.inl ⟨htarget, rfl⟩)⟩
    | none =>
      rw [htarget] at h
      obtain ⟨t, vm₁, halloc⟩ := physicalAlloc_of_supplies (h.resolve_left Bool.false_ne_true)
      exact ⟨t, _, tableFor_eq_ok.mpr (Or.inr ⟨htarget, vm₁, halloc, rfl⟩)⟩
  obtain ⟨t, vm₁, htable⟩ := htable
  rw [pagingMap, bind_apply_of_ok htable, get_bind_apply]
  split
  · exact ⟨true, _, rfl⟩
  · exact ⟨false, _, rfl⟩

/-! ## Pages by number -/

/-- The first page of the recursive mapping. -/
def recursivePage : ℕ := 0xFFC00

/-- The frame of a page. -/
def Vm.pageFrame (vm : Vm) (d : Frame) (n : ℕ) : Option Frame := vm.pagingMappingGet d (pageNo n)

theorem pageFrame_eq_lookup : vm.pageFrame d n =
    vm.lookup d (dirIndex (pageNo n)) (tblIndex (pageNo n)) := pagingMappingGet_eq_lookup

theorem pagingIsMapped_pageNo : vm.pagingIsMapped d (pageNo n) = (vm.pageFrame d n).isSome :=
  pagingIsMapped_eq_isSome

theorem toNat_dirIndex_pageNo (hn : n < 2 ^ 20) : (dirIndex (pageNo n)).toNat = n / 1024 := by
  rw [toNat_dirIndex, toNat_pageNo hn]
  omega

theorem toNat_tblIndex_pageNo (hn : n < 2 ^ 20) : (tblIndex (pageNo n)).toNat = n % 1024 := by
  rw [toNat_tblIndex, toNat_pageNo hn]
  omega

theorem dirIndex_pageNo_mem (hn : n < recursivePage) : dirIndex (pageNo n) ∈ ownIndices := by
  unfold recursivePage at hn
  intro heq
  have htoNat := toNat_dirIndex_pageNo (n := n) (by omega)
  rw [heq] at htoNat
  have hrec : recursiveIndex.toNat = 1023 := rfl
  omega

theorem pageNo_indices (hn : n < recursivePage) (hm : m < recursivePage) :
    dirIndex (pageNo m) = dirIndex (pageNo n) ∧ tblIndex (pageNo m) = tblIndex (pageNo n) ↔
      m = n := by
  unfold recursivePage at hn hm
  constructor
  · rintro ⟨hi, hj⟩
    have hi' := congrArg BitVec.toNat hi
    have hj' := congrArg BitVec.toNat hj
    rw [toNat_dirIndex_pageNo (by omega), toNat_dirIndex_pageNo (by omega)] at hi'
    rw [toNat_tblIndex_pageNo (by omega), toNat_tblIndex_pageNo (by omega)] at hj'
    omega
  · rintro rfl
    exact ⟨rfl, rfl⟩

theorem pagingMappingGet_addr {addr : Word} :
    vm.pagingMappingGet d addr = vm.pageFrame d (addr.toNat / 4096) := by
  have haddr := addr.isLt
  have hpage : addr.toNat / 4096 < 2 ^ 20 := by omega
  have hi : dirIndex addr = dirIndex (pageNo (addr.toNat / 4096)) := by
    apply BitVec.eq_of_toNat_eq
    rw [toNat_dirIndex, toNat_dirIndex_pageNo hpage]
    omega
  have hj : tblIndex addr = tblIndex (pageNo (addr.toNat / 4096)) := by
    apply BitVec.eq_of_toNat_eq
    rw [toNat_tblIndex, toNat_tblIndex_pageNo hpage]
  rw [pageFrame_eq_lookup, pagingMappingGet_eq_lookup, hi, hj]

/-- The processor finds a byte at its offset in the frame of its page. -/
theorem translate_eq_some {addr phys : Word} : vm.translate d addr = some phys ↔
    vm.pageFrame d (addr.toNat / 4096) = some (entryFrame phys) ∧
      phys.toNat % 4096 = addr.toNat % 4096 := by
  have haddr := addr.isLt
  have hbyte : ∀ g : Frame, g ++ addr.setWidth 12 = phys ↔
      g = entryFrame phys ∧ phys.toNat % 4096 = addr.toNat % 4096 := by
    intro g
    have hg := g.isLt
    have hphys := phys.isLt
    have happend : (g ++ addr.setWidth 12).toNat = g.toNat * 4096 + addr.toNat % 4096 := by
      rw [BitVec.toNat_append, BitVec.toNat_setWidth, ← Nat.shiftLeft_add_eq_or_of_lt (by omega),
        Nat.shiftLeft_eq]
    have hframe : (entryFrame phys).toNat = phys.toNat / 4096 := by
      rw [entryFrame, BitVec.toNat_setWidth, BitVec.toNat_ushiftRight, Nat.shiftRight_eq_div_pow]
      omega
    rw [← BitVec.toNat_inj, ← BitVec.toNat_inj, happend, hframe]
    omega
  rw [Vm.translate, pagingMappingGet_addr, Option.map_eq_some_iff]
  constructor
  · rintro ⟨g, hg, heq⟩
    obtain ⟨rfl, hoffset⟩ := (hbyte g).mp heq
    exact ⟨hg, hoffset⟩
  · rintro ⟨hg, hoffset⟩
    exact ⟨_, hg, (hbyte _).mpr ⟨rfl, hoffset⟩⟩

theorem exists_translate {addr : Word} (h : vm.pageFrame d (addr.toNat / 4096) = some f) :
    ∃ phys, vm.translate d addr = some phys := by
  rw [← Option.isSome_iff_exists, Vm.translate, Option.isSome_map, pagingMappingGet_addr, h]
  rfl

/-- The pages of a process are not changed by what happens to the page structures of others. -/
theorem Vm.Within.pageFrame {dirs : Pid → Option Frame} {A : Set Pid} {p : Pid}
    (h : Within dirs A vm vm') (ht : vm.Tidy dirs) (hd : dirs p = some d) (hp : p ∉ A)
    (hn : n < recursivePage) : vm'.pageFrame d n = vm.pageFrame d n := by
  have hdir : vm'.pages d = vm.pages d := h.pages (.dir p) d hp (holder_dir.trans hd)
  rw [pageFrame_eq_lookup, pageFrame_eq_lookup, Vm.lookup, Vm.lookup, TwoLevel.lookup,
    TwoLevel.lookup, hdir]
  cases htable : (vm.pages d (dirIndex (pageNo n))).target with
  | none => rfl
  | some t =>
    have hholder := ht.holder_target hd (dirIndex_pageNo_mem hn) htable
    have hsame : vm'.pages t = vm.pages t := by
      refine h.pages _ t ?_ hholder
      split
      · exact hp
      · exact not_false
    rw [Option.bind_some, Option.bind_some, hsame]

/-! ## The loop -/

/-- The blocks that allocating a page takes, if the range begins with the page `first`. A table that
is missing is made for the first page of the range in it. -/
def Vm.blocksFor (vm : Vm) (d : Frame) (first n : ℕ) : ℕ :=
  (if (vm.pageFrame d n).isSome then 0 else 1) +
    if (vm.pages d (dirIndex (pageNo n))).target.isSome then 0
    else if n = first ∨ n % 1024 = 0 then 1 else 0

/-- The blocks that allocating the first pages of a range takes. -/
def Vm.blocksUpTo (vm : Vm) (d : Frame) (first : ℕ) : ℕ → ℕ
  | 0 => 0
  | n + 1 => vm.blocksUpTo d first n + vm.blocksFor d first (first + n)

/-- The pages of the range that the loop has been through. -/
def Passed (first n m : ℕ) : Prop := first ≤ m ∧ m < first + n

theorem passed_succ : Passed first (n + 1) m ↔ Passed first n m ∨ m = first + n := by
  unfold Passed
  omega

/-- The page tables after some rounds of the loop. -/
structure Vm.Filled (vm : Vm) (d : Frame) (flags : PagingFlags) (first n : ℕ) (v : Vm) : Prop where
  intact : v.Intact d
  supplies : ∀ m, v.supplies m = vm.supplies (vm.blocksUpTo d first n + m)
  free : ∀ f, v.Free f → vm.Free f
  /-- Which tables there are. -/
  tables : ∀ i ∈ ownIndices, (v.pages d i).target.isSome = true ↔
    (vm.pages d i).target.isSome = true ∨ ∃ m, Passed first n m ∧ dirIndex (pageNo m) = i
  others : ∀ m < recursivePage, ¬Passed first n m → v.pageFrame d m = vm.pageFrame d m
  kept : ∀ m < recursivePage, ∀ f, vm.pageFrame d m = some f → v.pageFrame d m = some f
  made : ∀ m, Passed first n m → vm.pageFrame d m = none → ∃ f, vm.Free f ∧ ¬v.Free f ∧
    v.MadeWith flags d (dirIndex (pageNo m)) (tblIndex (pageNo m)) f
  inj : ∀ m m', Passed first n m → Passed first n m' → vm.pageFrame d m = none →
    vm.pageFrame d m' = none → v.pageFrame d m = v.pageFrame d m' → m = m'

namespace Vm.Filled

theorem start (h : vm.Intact d) : vm.Filled d flags first 0 vm where
  intact := h
  supplies m := by rw [blocksUpTo, Nat.zero_add]
  free _ hf := hf
  tables i _ := by
    simp only [Passed]
    refine ⟨Or.inl, fun h => h.resolve_right ?_⟩
    rintro ⟨m, hm, -⟩
    omega
  others _ _ _ := rfl
  kept _ _ _ hf := hf
  made m hm := absurd hm (by unfold Passed; omega)
  inj m m' hm := absurd hm (by unfold Passed; omega)

theorem zeroFrom {diff : Word} (h : vm.Filled d flags first n v) :
    vm.Filled d flags first n (v.zeroFrom f diff) :=
  ⟨h.intact.congr rfl (fun _ hf => hf) rfl, h.supplies, h.free, h.tables, h.others, h.kept,
    fun m hm hnone =>
      let ⟨g, hg, hg', hmade⟩ := h.made m hm hnone
      ⟨g, hg, hg', hmade.congr rfl⟩,
    h.inj⟩

theorem isSome_of_passed (h : vm.Filled d flags first n v) (hm : Passed first n m)
    (hlt : m < recursivePage) : (v.pageFrame d m).isSome = true := by
  cases hframe : vm.pageFrame d m with
  | none =>
    obtain ⟨f, -, -, hmade⟩ := h.made m hm hframe
    rw [pageFrame_eq_lookup, hmade.lookup]
    rfl
  | some f =>
    rw [h.kept m hlt f hframe]
    rfl

theorem pageFrame_eq (h : vm.Filled d flags first n v) (hlt : first + n < recursivePage) :
    v.pageFrame d (first + n) = vm.pageFrame d (first + n) :=
  h.others _ hlt (by unfold Passed; omega)

theorem table_iff (h : vm.Filled d flags first n v) (hlt : first + n < recursivePage) :
    (v.pages d (dirIndex (pageNo (first + n)))).target.isSome = true ↔
      (vm.pages d (dirIndex (pageNo (first + n)))).target.isSome = true ∨
        ¬(first + n = first ∨ (first + n) % 1024 = 0) := by
  rw [h.tables _ (dirIndex_pageNo_mem hlt)]
  unfold recursivePage at hlt
  refine or_congr_right ⟨?_, fun hne => ?_⟩
  · rintro ⟨m, hm, hi⟩
    unfold Passed at hm
    have hi' := congrArg BitVec.toNat hi
    rw [toNat_dirIndex_pageNo (by omega), toNat_dirIndex_pageNo (by omega)] at hi'
    omega
  · refine ⟨first + n - 1, by unfold Passed; omega, BitVec.eq_of_toNat_eq ?_⟩
    rw [toNat_dirIndex_pageNo (by omega), toNat_dirIndex_pageNo (by omega)]
    omega

theorem succ_of_mapped (h : vm.Filled d flags first n v) (hlt : first + n < recursivePage)
    (hmapped : (v.pageFrame d (first + n)).isSome = true) : vm.Filled d flags first (n + 1) v := by
  have hold : (vm.pageFrame d (first + n)).isSome = true := h.pageFrame_eq hlt ▸ hmapped
  have htable : (vm.pages d (dirIndex (pageNo (first + n)))).target.isSome = true := by
    rw [pageFrame_eq_lookup, Vm.lookup, TwoLevel.lookup, Option.isSome_iff_exists] at hold
    obtain ⟨f, hf⟩ := hold
    obtain ⟨t, ht, -⟩ := Option.bind_eq_some_iff.mp hf
    rw [ht]
    rfl
  -- Of the pages that were not mapped at the start, this round passes none.
  have hnone : ∀ m, Passed first (n + 1) m → vm.pageFrame d m = none → Passed first n m := by
    intro m hm hnone
    refine (passed_succ.mp hm).resolve_right ?_
    rintro rfl
    rw [hnone] at hold
    cases hold
  refine ⟨h.intact, fun m => ?_, h.free, fun i hi => ?_, fun m hm hpassed => ?_, h.kept,
    fun m hm hframe => h.made m (hnone m hm hframe) hframe,
    fun m m' hm hm' hframe hframe' => h.inj m m' (hnone m hm hframe) (hnone m' hm' hframe') hframe
      hframe'⟩
  · rw [h.supplies, blocksUpTo, blocksFor, if_pos hold, if_pos htable]
    rfl
  · rw [h.tables i hi]
    constructor
    · rintro (htarget | ⟨m, hm, rfl⟩)
      · exact Or.inl htarget
      · exact Or.inr ⟨m, passed_succ.mpr (Or.inl hm), rfl⟩
    · rintro (htarget | ⟨m, hm, rfl⟩)
      · exact Or.inl htarget
      · rcases passed_succ.mp hm with hm | rfl
        · exact Or.inr ⟨m, hm, rfl⟩
        · exact Or.inl htable
  · exact h.others m hm fun hp => hpassed (passed_succ.mpr (Or.inl hp))

/-- A round on an unmapped page gives it a block, and keeps the loop invariant. -/
theorem succ_of_unmapped {done : Bool} (h : vm.Filled d flags first n v)
    (hlt : first + n < recursivePage) (hforce : flags.force = false)
    (hunmapped : v.pageFrame d (first + n) = none) (halloc : physicalAlloc v = .ok f vm₁)
    (hmap : pagingMap d (pageNo (first + n)) f flags vm₁ = .ok done vm') :
    vm.Filled d flags first (n + 1) vm' ∧ vm'.ram = v.ram ∧
      ∀ m, Passed first n m → vm'.pageFrame d m = v.pageFrame d m := by
  obtain ⟨htook₁, hfree, hnotFree, hpages⟩ := physicalAlloc_took h.intact.sized halloc
  have hintact₁ := h.intact.congr hpages htook₁.free htook₁.blockCount
  have hframe₁ : ∀ m, vm₁.pageFrame d m = v.pageFrame d m := by
    intro m
    rw [pageFrame_eq_lookup, pageFrame_eq_lookup, Vm.lookup, Vm.lookup, hpages]
  have hi := dirIndex_pageNo_mem hlt
  -- Taking the block has changed no page, so the slot for it is still empty.
  have hnone₁ : vm₁.lookup d (dirIndex (pageNo (first + n))) (tblIndex (pageNo (first + n))) =
      none := by
    rw [← pageFrame_eq_lookup, hframe₁, hunmapped]
  obtain ⟨hintact', htook₂, htables⟩ := pagingMap_intact hintact₁ hi hforce hmap
  obtain ⟨hnew, hmade⟩ := pagingMap_made hintact₁ hi hforce hnone₁ hmap
  have hlookup := (pagingMap_lookup hintact₁.apart hintact₁.fresh rfl hi hforce hmap).2.2 d rfl
  rw [hpages] at htook₂ htables
  have hold : vm.pageFrame d (first + n) = none := h.pageFrame_eq hlt ▸ hunmapped
  -- After the round only this page shows something else.
  have hframe : ∀ m < recursivePage, vm'.pageFrame d m =
      if m = first + n then some f else v.pageFrame d m := by
    intro m hm
    rw [pageFrame_eq_lookup, hlookup _ (dirIndex_pageNo_mem hm)]
    simp only [true_and, pageNo_indices hlt hm, ← pageFrame_eq_lookup, hframe₁]
    split
    · next heq => rw [heq, hunmapped, Option.none_or]
    · rfl
  have hpassed : ∀ m, Passed first n m → m < recursivePage ∧ m ≠ first + n := by
    intro m hm
    unfold Passed at hm
    omega
  refine ⟨⟨hintact', fun m => ?_, fun g hg => h.free g (htook₁.free g (htook₂.free g hg)),
    fun i hi' => ?_, fun m hm hnot => ?_, fun m hm g hg => ?_, fun m hm hnone => ?_,
    fun m m' hm hm' hnone hnone' heq => ?_⟩, htook₂.ram.trans htook₁.ram, fun m hm => ?_⟩
  · -- One block for the page, and one for the table if it is missing.
    rw [htook₂.supplies, htook₁.supplies, h.supplies, blocksUpTo, blocksFor, hold]
    congr 1
    have htable := h.table_iff hlt
    by_cases hthere : (v.pages d (dirIndex (pageNo (first + n)))).target.isSome = true
    · rw [if_pos hthere]
      rcases htable.mp hthere with hbefore | hlater
      · simp only [hbefore, Option.isSome_none, Bool.false_eq_true, if_false, if_true]
        omega
      · simp only [hlater, Option.isSome_none, Bool.false_eq_true, if_false, ite_self]
        omega
    · have hmissing := mt htable.mpr hthere
      rw [not_or, not_not] at hmissing
      rw [if_neg hthere, if_neg hmissing.1, if_pos hmissing.2]
      simp only [Option.isSome_none, Bool.false_eq_true, if_false]
      omega
  · -- The tables: those there at the start and those of the pages passed.
    rw [htables i hi', Bool.or_eq_true, decide_eq_true_eq, h.tables i hi']
    constructor
    · rintro ((htarget | ⟨m, hm, rfl⟩) | rfl)
      · exact Or.inl htarget
      · exact Or.inr ⟨m, passed_succ.mpr (Or.inl hm), rfl⟩
      · exact Or.inr ⟨_, passed_succ.mpr (Or.inr rfl), rfl⟩
    · rintro (htarget | ⟨m, hm, rfl⟩)
      · exact Or.inl (Or.inl htarget)
      · rcases passed_succ.mp hm with hm | rfl
        · exact Or.inl (Or.inr ⟨m, hm, rfl⟩)
        · exact Or.inr rfl
  · rw [passed_succ, not_or] at hnot
    rw [hframe m hm, if_neg hnot.2, h.others m hm hnot.1]
  · rw [hframe m hm, if_neg, h.kept m hm g hg]
    rintro rfl
    rw [hold] at hg
    cases hg
  · rcases passed_succ.mp hm with hm | rfl
    · obtain ⟨g, hg, hg', hentry⟩ := h.made m hm hnone
      exact ⟨g, hg, fun hg'' => hg' (htook₁.free g (htook₂.free g hg'')),
        hmade _ (dirIndex_pageNo_mem (hpassed m hm).1) (hentry.congr hpages)⟩
    · exact ⟨f, h.free f hfree, fun hf => hnotFree (htook₂.free f hf), hnew⟩
  · -- The new block was free, the blocks of the pages before it were not.
    have hother : ∀ m, Passed first n m → vm.pageFrame d m = none → v.pageFrame d m ≠ some f := by
      intro m hm hnone hsome
      obtain ⟨g, -, hg, hentry⟩ := h.made m hm hnone
      rw [pageFrame_eq_lookup, hentry.lookup, Option.some_inj] at hsome
      exact hg (hsome ▸ hfree)
    rcases passed_succ.mp hm with hm | rfl
    · rw [hframe m (hpassed m hm).1, if_neg (hpassed m hm).2] at heq
      rcases passed_succ.mp hm' with hm' | rfl
      · rw [hframe m' (hpassed m' hm').1, if_neg (hpassed m' hm').2] at heq
        exact h.inj m m' hm hm' hnone hnone' heq
      · rw [hframe _ hlt, if_pos rfl] at heq
        exact absurd heq (hother m hm hnone)
    · rw [hframe _ hlt, if_pos rfl] at heq
      rcases passed_succ.mp hm' with hm' | rfl
      · rw [hframe m' (hpassed m' hm').1, if_neg (hpassed m' hm').2] at heq
        exact absurd heq.symm (hother m' hm' hnone')
      · rfl
  · rw [hframe m (hpassed m hm).1, if_neg (hpassed m hm).2]

end Vm.Filled

/-! ## The bytes -/

/-- The bytes the loop has cleared: those of the pages it has been through, from the start of the
range on. -/
def Vm.Cleared (v : Vm) (d : Frame) (virt : Word) (first n : ℕ) (phys : Word) : Prop :=
  ∃ m, Passed first n m ∧ v.pageFrame d m = some (entryFrame phys) ∧
    virt.toNat ≤ 4096 * m + phys.toNat % 4096

/-- Memory after some rounds of the loop. -/
structure Vm.AllocState (vm : Vm) (d : Frame) (flags : PagingFlags) (virt : Word) (n : ℕ)
    (v : Vm) : Prop extends vm.Filled d flags (virt.toNat / 4096) n v where
  zero : ∀ phys, v.Cleared d virt (virt.toNat / 4096) n phys → v.ram phys = 0
  same : ∀ phys, ¬v.Cleared d virt (virt.toNat / 4096) n phys → v.ram phys = vm.ram phys

theorem Vm.ram_zeroFrom {diff phys : Word} : (v.zeroFrom f diff).ram phys =
    if entryFrame phys = f ∧ diff ≤ phys &&& 0xFFF then 0 else v.ram phys := rfl

theorem zeroStart_le {phys : Word} (hlt : m < 2 ^ 20) :
    (if virt < pageNo m then pageNo m else virt) - pageNo m ≤ phys &&& 0xFFF ↔
      virt.toNat ≤ 4096 * m + phys.toNat % 4096 := by
  have hmask : (phys &&& 0xFFF).toNat = phys.toNat % 4096 := by
    rw [BitVec.toNat_and]
    exact Nat.and_two_pow_sub_one_eq_mod _ 12
  rw [BitVec.le_def, hmask]
  split
  · next hbelow =>
    rw [BitVec.lt_def, toNat_pageNo hlt] at hbelow
    rw [BitVec.sub_self]
    exact iff_of_true (Nat.zero_le _) (by omega)
  · next hfirst =>
    rw [BitVec.lt_def, toNat_pageNo hlt, Nat.not_lt] at hfirst
    have hsub : (virt - pageNo m).toNat = virt.toNat - 4096 * m := by
      rw [BitVec.toNat_sub_of_le (BitVec.le_def.mpr (by rwa [toNat_pageNo hlt])),
        toNat_pageNo hlt]
    rw [hsub]
    omega

theorem allocPage_state (hforce : flags.force = false)
    (hlt : virt.toNat / 4096 + n < recursivePage) (h : vm.AllocState d flags virt n v)
    (hrun : allocPage d flags virt (pageNo (virt.toNat / 4096 + n)) v = .ok () vm') :
    vm.AllocState d flags virt (n + 1) vm' := by
  simp only [allocPage, get_bind_apply, bind_eq_ok, runIf_eq_ok, modify_eq_ok,
    pagingIsMapped_pageNo] at hrun
  obtain ⟨_, v₁, hmap, rfl⟩ := hrun
  have hfilled : vm.Filled d flags (virt.toNat / 4096) (n + 1) v₁ ∧ v₁.ram = v.ram ∧
      ∀ m, Passed (virt.toNat / 4096) n m → v₁.pageFrame d m = v.pageFrame d m := by
    rcases hmap with ⟨hunmapped, f, v₂, halloc, _, v₃, hpaging, hret⟩ | ⟨hmapped, rfl⟩
    · obtain ⟨-, rfl⟩ := pure_eq_ok.mp hret
      exact h.succ_of_unmapped hlt hforce (by simpa using hunmapped) halloc hpaging
    · exact ⟨h.succ_of_mapped hlt (Option.isSome_iff_ne_none.mpr (by simpa using hmapped)), rfl,
        fun _ _ => rfl⟩
  obtain ⟨hfilled, hram, hsame⟩ := hfilled
  obtain ⟨g, hg⟩ := Option.isSome_iff_exists.mp
    (hfilled.isSome_of_passed (passed_succ.mpr (Or.inr rfl)) hlt)
  have hget : (v₁.pagingMappingGet d (pageNo (virt.toNat / 4096 + n))).getD 0 = g := by
    rw [pageFrame] at hg
    rw [hg]
    rfl
  rw [hget]
  -- The bytes cleared so far, and those this round clears.
  have hcleared : ∀ phys, v₁.Cleared d virt (virt.toNat / 4096) (n + 1) phys ↔
      v.Cleared d virt (virt.toNat / 4096) n phys ∨ entryFrame phys = g ∧
        virt.toNat ≤ 4096 * (virt.toNat / 4096 + n) + phys.toNat % 4096 := by
    intro phys
    constructor
    · rintro ⟨m, hm, hframe, hle⟩
      rcases passed_succ.mp hm with hm | rfl
      · exact Or.inl ⟨m, hm, hsame m hm ▸ hframe, hle⟩
      · rw [hg, Option.some_inj] at hframe
        exact Or.inr ⟨hframe.symm, hle⟩
    · rintro (⟨m, hm, hframe, hle⟩ | ⟨rfl, hle⟩)
      · exact ⟨m, passed_succ.mpr (Or.inl hm), (hsame m hm).trans hframe, hle⟩
      · exact ⟨_, passed_succ.mpr (Or.inr rfl), hg, hle⟩
  unfold recursivePage at hlt
  have hpage : virt.toNat / 4096 + n < 2 ^ 20 := by omega
  refine ⟨hfilled.zeroFrom, fun phys hphys => ?_, fun phys hphys => ?_⟩
  · simp only [Vm.ram_zeroFrom, zeroStart_le hpage]
    split
    · rfl
    · next hround =>
      rw [hram]
      exact h.zero phys (((hcleared phys).mp hphys).resolve_right hround)
  · have hnot := mt (hcleared phys).mpr hphys
    rw [not_or] at hnot
    simp only [Vm.ram_zeroFrom, zeroStart_le hpage, hnot.2, if_false, hram]
    exact h.same phys hnot.1

variable (virt) in
/-- A round returns if the allocator can hand out the blocks for it. -/
theorem allocPage_of_supplies (h : vm.Filled d flags first n v) (hlt : first + n < recursivePage)
    (hsupplies : vm.supplies (vm.blocksUpTo d first (n + 1)) = true) :
    ∃ vm', allocPage d flags virt (pageNo (first + n)) v = .ok () vm' := by
  have hold := h.pageFrame_eq hlt
  have hround : ∃ vm', runIf (!v.pagingIsMapped d (pageNo (first + n))) (do
      let block ← physicalAlloc
      let _ ← pagingMap d (pageNo (first + n)) block flags) v = .ok () vm' := by
    rw [pagingIsMapped_pageNo]
    cases hmapped : (v.pageFrame d (first + n)).isSome with
    | true => exact ⟨v, rfl⟩
    | false =>
      rw [hold] at hmapped
      rw [blocksUpTo, blocksFor, hmapped, ← h.supplies] at hsupplies
      simp only [Bool.false_eq_true, if_false] at hsupplies
      -- The first block is for the page; what is left is for its table.
      have hone : v.supplies 1 = true :=
        Bmstack.supplies_mono hsupplies (Nat.le_add_right _ _)
      obtain ⟨f, v₁, halloc⟩ := physicalAlloc_of_supplies hone
      obtain ⟨htook, -, -, hpages⟩ := physicalAlloc_took h.intact.sized halloc
      have htable : (v₁.pages d (dirIndex (pageNo (first + n)))).target.isSome = true ∨
          v₁.supplies 1 = true := by
        rw [hpages, h.table_iff hlt, htook.supplies]
        by_cases hthere : (vm.pages d (dirIndex (pageNo (first + n)))).target.isSome = true
        · exact Or.inl (Or.inl hthere)
        · by_cases hfirst : first + n = first ∨ (first + n) % 1024 = 0
          · rw [if_neg hthere, if_pos hfirst] at hsupplies
            exact Or.inr hsupplies
          · exact Or.inl (Or.inr hfirst)
      have hreturns : ∃ done vm', pagingMap d (pageNo (first + n)) f flags v₁ = .ok done vm' :=
        pagingMap_of_supplies htable
      obtain ⟨done, vm', hmap⟩ := hreturns
      refine ⟨vm', ?_⟩
      show (physicalAlloc >>= fun block =>
        pagingMap d (pageNo (first + n)) block flags >>= fun _ => pure ()) v = _
      rw [bind_apply_of_ok halloc, bind_apply_of_ok hmap]
      rfl
  obtain ⟨vm', hround⟩ := hround
  rw [allocPage, get_bind_apply, bind_apply_of_ok hround]
  exact ⟨_, rfl⟩

/-! ## The whole range -/

/-- The blocks that allocating a range takes. -/
def Vm.blocksNeeded (vm : Vm) (d : Frame) (virt size : Word) : ℕ :=
  vm.blocksUpTo d (virt.toNat / 4096) (pageCount (addrAlign virt archPgsize) (virt + size))

section Range

variable (virt size)

/-- The loop of `virtual_alloc`. -/
def allocLoop (d : Frame) (flags : PagingFlags) : VmM Unit :=
  pageLoop (fun curr _ => allocPage d flags virt curr) (virt + size) pageFuel
    (addrAlign virt archPgsize) 0

variable {virt size}

theorem allocLoop_eq (hend : virt.toNat + size.toNat ≤ 0xFFC00000) : allocLoop virt size d flags =
      (List.range (pageCount (addrAlign virt archPgsize) (virt + size))).forM fun n =>
        allocPage d flags virt (pageNo (virt.toNat / 4096 + n)) := by
  have hfinish : virt + size ≤ lastPage := by
    rw [BitVec.le_def, toNat_add_of_lt (by omega)]
    exact hend.trans (by decide)
  rw [allocLoop, pageLoop_eq_forM hfinish (pageCount_lt hfinish)]
  simp only [addrAlign_eq_pageNo, pageAt_pageNo]

theorem lt_recursivePage (hend : virt.toNat + size.toNat ≤ 0xFFC00000)
    (hn : n < pageCount (addrAlign virt archPgsize) (virt + size)) :
    virt.toNat / 4096 + n < recursivePage := by
  have hoverlaps := (lt_pageCount_iff (m := virt.toNat / 4096 + n) (by omega)
    (Nat.le_add_right _ _)).mp (Nat.add_lt_add_left hn _)
  unfold Overlaps overlaps at hoverlaps
  unfold recursivePage
  omega

variable (virt flags) in
theorem Vm.AllocState.start (h : vm.Intact d) : vm.AllocState d flags virt 0 vm where
  toFilled := .start h
  zero phys := by
    rintro ⟨m, hm, -⟩
    unfold Passed at hm
    omega
  same _ _ := rfl

theorem allocLoop_state (h : vm.Intact d) (hforce : flags.force = false)
    (hend : virt.toNat + size.toNat ≤ 0xFFC00000)
    (hrun : allocLoop virt size d flags vm = .ok () vm') :
    vm.AllocState d flags virt (pageCount (addrAlign virt archPgsize) (virt + size)) vm' := by
  rw [allocLoop_eq hend] at hrun
  exact forM_range_partial (I := fun n v => vm.AllocState d flags virt n v)
    (fun n hn v v' hstate hround =>
      allocPage_state hforce (lt_recursivePage hend hn) hstate hround) hrun (.start virt flags h)

theorem blocksUpTo_mono (h : m ≤ n) : vm.blocksUpTo d first m ≤ vm.blocksUpTo d first n := by
  induction h with
  | refl => exact le_rfl
  | step _ ih => exact ih.trans (Nat.le_add_right _ _)

theorem allocLoop_of_supplies (h : vm.Intact d) (hforce : flags.force = false)
    (hend : virt.toNat + size.toNat ≤ 0xFFC00000)
    (hsupplies : vm.supplies (vm.blocksNeeded d virt size) = true) :
    ∃ vm', allocLoop virt size d flags vm = .ok () vm' := by
  rw [allocLoop_eq hend]
  obtain ⟨vm', hrun, -⟩ := forM_range_total (I := fun n v => vm.AllocState d flags virt n v)
    (fun n hn v hstate => by
      have hlt := lt_recursivePage hend hn
      obtain ⟨v', hround⟩ := allocPage_of_supplies virt hstate.toFilled hlt
        (Bmstack.supplies_mono hsupplies (blocksUpTo_mono hn))
      exact ⟨v', hround, allocPage_state hforce hlt hstate hround⟩)
    (.start virt flags h)
  exact ⟨vm', hrun⟩

end Range

end Horizon
