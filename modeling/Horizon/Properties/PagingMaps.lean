import Horizon.Memory.Directory
import Horizon.System.Boot

/-!
# Horizon — page directories are independent maps

The directories that `paging_dir_create` makes, with their page tables, are two-level tables in
the store of frames (`Lib.TwoLevel`). If the allocator hands out only frames that are not in use
as a directory or table, every directory is a map of its own from user pages to frames, and what
`paging_mapping_get` finds can be read off the history: it is the frame of the first `paging_map`
since the page was last unmapped, or the directory created (`firstMap`).

The results about the direct functions (`pagingMap_maps`, …) carry over to the functions that go
through the temporary window (`Window.Sound.map_after`, …), and these are the operations of a run.
-/

namespace Horizon

open StateError Vm

variable {vm vm' vm₀ vm₁ : Vm} {d d' f t : Frame} {virt v : Word} {flags : PagingFlags}
  {dirs : List Frame} {D A : Set Frame}

/-- The directory entries below the kernel's. -/
def userIndices : Set (BitVec 10) := {i | i < userTop}

/-- No frame serves twice, as a directory or a table of a directory. -/
abbrev Vm.Apart (vm : Vm) (D : Set Frame) : Prop :=
  TwoLevel.Apart PageEntry.target userIndices vm.pages D

/-- Is a frame a directory or a table of one? -/
abbrev Vm.InUse (vm : Vm) (D : Set Frame) (f : Frame) : Prop :=
  TwoLevel.InUse PageEntry.target userIndices vm.pages D f

/-! ## The functions -/

/-- What an operation leaves alone: the kernel's half of every directory, and any frame that is
neither in use nor among those it allocates. -/
structure Vm.Spares (D A : Set Frame) (vm vm' : Vm) : Prop where
  cr3 : vm'.cr3 = vm.cr3
  kernelDir : vm'.kernelDir = vm.kernelDir
  upper : ∀ d ∈ D, ∀ i, userTop ≤ i → vm'.pages d i = vm.pages d i
  other : ∀ f, ¬vm.InUse D f → f ∉ A → vm'.pages f = vm.pages f ∧ ¬vm'.InUse D f

/-- What `physical_alloc` hands out is not in use as a directory or table. -/
def Vm.AllocFresh (vm : Vm) (D : Set Frame) : Prop := ∀ f ∈ vm.nextFrame, ¬vm.InUse D f

/-- A new directory has an empty user half. -/
theorem pagingDirCreate_cases (h : pagingDirCreate vm = .ok d vm') :
    ∃ vm₁ es, physicalAlloc vm = .ok d vm₁ ∧ vm' = vm₁.setPage d es ∧
      (es recursiveIndex).target = some d ∧
      (∀ i, userTop ≤ i → i ≠ recursiveIndex → es i = vm.pages vm.kernelDir i) ∧
      ∀ i ∈ userIndices, (es i).target = none := by
  obtain ⟨_, vm₁, halloc, h⟩ := bind_eq_ok.mp h
  rw [modify_bind_apply, pure_eq_ok] at h
  obtain ⟨rfl, rfl⟩ := h
  obtain ⟨hpages, -, hkernel⟩ := Window.physicalAlloc_frame halloc
  refine ⟨vm₁, _, halloc, rfl, rfl, fun i hi hrec => ?_, fun i hi => ?_⟩
  · have hupper : dirIndex kernelVirtBase ≤ i := hi
    rw [if_neg hrec, if_pos hupper, hpages, hkernel]
  · have hupper : ¬dirIndex kernelVirtBase ≤ i := BitVec.not_le.mpr hi
    have hrec : i ≠ recursiveIndex := by
      rintro rfl
      exact absurd hi (by decide : ¬recursiveIndex < userTop)
    rw [if_neg hrec, if_neg hupper]
    rfl

theorem pagingDirCreate_maps (hapart : vm.Apart D) (hfresh : vm.AllocFresh D)
    (h : pagingDirCreate vm = .ok d vm') :
    vm'.Apart (insert d D) ∧ (∀ f, vm'.InUse (insert d D) f → f = d ∨ vm.InUse D f) ∧
      ∀ d' ∈ insert d D, ∀ i ∈ userIndices, ∀ j,
        vm'.lookup d' i j = if d' = d then none else vm.lookup d' i j := by
  obtain ⟨vm₁, es, halloc, rfl, -, -, hempty⟩ := pagingDirCreate_cases h
  obtain ⟨hpages, -, -⟩ := Window.physicalAlloc_frame halloc
  have hnew := hfresh _ ⟨_, halloc⟩
  simp only [Vm.Apart, Vm.InUse, Vm.lookup, ← hpages] at hapart hnew ⊢
  exact ⟨TwoLevel.apart_add_root hempty hapart hnew,
    fun f hf => TwoLevel.inUse_add_root hempty hf,
    fun d' hd' i hi j => TwoLevel.lookup_add_root hempty hnew hd' hi⟩

theorem tableFor_spares (hfresh : vm.AllocFresh D) (hd : d ∈ D) (hi : dirIndex virt < userTop)
    (h : tableFor d virt flags vm = .ok t vm') : vm.Spares D vm.nextFrame vm' := by
  have hupper : ∀ {i : BitVec 10}, userTop ≤ i → i ≠ dirIndex virt := by
    rintro _ hle rfl
    exact absurd hle (BitVec.not_le.mpr hi)
  obtain ⟨-, rfl⟩ | ⟨-, vm₁, halloc, rfl⟩ := tableFor_eq_ok.mp h
  · refine ⟨rfl, rfl, fun d' _ i hle => ?_, fun f hf _ => ⟨?_, fun hused => hf ?_⟩⟩
    · rw [Vm.pages_setEntry, if_neg fun hsame => hupper hle hsame.2]
    · refine Vm.pages_setEntry_of_ne ?_
      rintro rfl
      exact hf (Or.inl hd)
    · exact hused.congr fun _ _ _ _ => TwoLevel.target_write_root target_widen
  · obtain ⟨hpages, hcr3, hkernel⟩ := Window.physicalAlloc_frame halloc
    have hnew := hfresh _ ⟨_, halloc⟩
    refine ⟨hcr3, hkernel, fun d' hd' i hle => ?_, fun f hf hother => ?_⟩
    · have hne : d' ≠ t := by
        rintro rfl
        exact hnew (Or.inl hd')
      rw [Window.pages_setPage_of_ne hne, Vm.pages_setEntry,
        if_neg fun hsame => hupper hle hsame.2, hpages]
    · have hne : f ≠ t := by
        rintro rfl
        exact hother ⟨_, halloc⟩
      have hroot : f ≠ d := by
        rintro rfl
        exact hf (Or.inl hd)
      rw [Window.pages_setPage_of_ne hne, Vm.pages_setEntry_of_ne hroot, hpages]
      simp only [Vm.InUse, ← hpages] at hf hnew
      exact ⟨rfl, fun hused => (TwoLevel.inUse_add_table hnew target_entry hused).elim hne hf⟩

theorem Vm.Spares.write_table {j : BitVec 10} {e : PageEntry} (h : vm.Spares D A vm₁)
    (hapart : vm₁.Apart D) (hd : d ∈ D) (hi : dirIndex virt ∈ userIndices)
    (ht : (vm₁.pages d (dirIndex virt)).target = some t) : vm.Spares D A (vm₁.setEntry t j e) where
  cr3 := h.cr3
  kernelDir := h.kernelDir
  upper d' hd' i hle := by
    have hroot : (vm₁.setEntry t j e).pages d' = vm₁.pages d' :=
      TwoLevel.root_write_table hapart hd hi ht hd'
    rw [hroot, h.upper d' hd' i hle]
  other f hf hother := by
    obtain ⟨hpages, hunused⟩ := h.other f hf hother
    have hne : f ≠ t := by
      rintro rfl
      exact hunused (Or.inr ⟨d, hd, _, hi, ht⟩)
    rw [Vm.pages_setEntry_of_ne hne]
    exact ⟨hpages, fun hused => hunused (TwoLevel.inUse_write_table hapart hd hi ht hused)⟩

theorem pagingMap_maps {done : Bool} (hapart : vm.Apart D) (hfresh : vm.AllocFresh D) (hd : d ∈ D)
    (hi : dirIndex virt ∈ userIndices) (hforce : flags.force = false)
    (h : pagingMap d virt f flags vm = .ok done vm') : vm'.Apart D ∧ vm.Spares D vm.nextFrame vm' ∧
      done = (vm.lookup d (dirIndex virt) (tblIndex virt)).isNone ∧
      ∀ d' ∈ D, ∀ i ∈ userIndices, ∀ j, vm'.lookup d' i j =
        if d' = d ∧ i = dirIndex virt ∧ j = tblIndex virt then
          (vm.lookup d' i j).or (some f)
        else vm.lookup d' i j := by
  obtain ⟨hapart', hdone, hlookup⟩ := pagingMap_lookup hapart hfresh hd hi hforce h
  refine ⟨hapart', ?_, hdone, hlookup⟩
  obtain ⟨t, vm₁, htable, h⟩ := bind_eq_ok.mp h
  obtain ⟨hapart₁, ht, -⟩ := tableFor_maps hapart hfresh hd htable
  have hspares := tableFor_spares hfresh hd hi htable
  rw [get_bind_apply, ite_eq_ok] at h
  obtain ⟨-, h⟩ | ⟨-, h⟩ := h
  · simp only [bind_eq_ok, modify_eq_ok, pure_eq_ok] at h
    obtain ⟨_, _, rfl, -, rfl⟩ := h
    exact hspares.write_table hapart₁ hd hi ht
  · obtain ⟨-, rfl⟩ := pure_eq_ok.mp h
    exact hspares

theorem pagingMap_eq_error {e : Fault} (h : pagingMap d virt f flags vm = .error e vm') :
    ∃ vm₁, physicalAlloc vm = .error e vm₁ := by
  obtain h | ⟨t, vm₁, -, h⟩ := bind_eq_error.mp h
  · rw [tableFor, get_bind_apply] at h
    split at h
    · cases h
    · obtain h | ⟨t, vm₁, -, h⟩ := bind_eq_error.mp h
      · exact ⟨vm', h⟩
      · cases h
  · rw [get_bind_apply] at h
    split at h <;> cases h

theorem pagingUnmap_cases (h : pagingUnmap d virt vm = .ok () vm') :
    (vm.lookup d (dirIndex virt) (tblIndex virt) = none ∧ vm' = vm) ∨
    ∃ t freed vm₁ e, (vm.pages d (dirIndex virt)).target = some t ∧
      (∃ f, physicalRelease f vm = .ok freed vm₁) ∧ PageEntry.target e = none ∧
      vm' = vm₁.setEntry t (tblIndex virt) e := by
  rw [← pagingMappingGet_eq_lookup, pagingMappingGet]
  simp only [pagingUnmap, get_bind_apply] at h
  cases hte : vm.tblentGet d virt with
  | none =>
    rw [hte] at h
    exact Or.inl ⟨rfl, (pure_eq_ok.mp h).2.symm⟩
  | some te =>
    rw [hte] at h
    cases hpresent : te.present with
    | false =>
      simp only [hpresent, Bool.not_false, if_true, pure_eq_ok] at h
      exact Or.inl ⟨by simp [hpresent], h.2.symm⟩
    | true =>
      simp only [hpresent, Bool.not_true, Bool.false_eq_true, if_false, bind_eq_ok,
        modify_eq_ok] at h
      obtain ⟨freed, vm₁, hrelease, rfl⟩ := h
      rw [tblentGet, Option.ite_none_right_eq_some] at hte
      rw [(Window.physicalRelease_frame hrelease).1]
      exact Or.inr ⟨_, freed, vm₁, _, if_pos hte.1, ⟨te.frame, hrelease⟩, rfl, rfl⟩

theorem pagingUnmap_maps (hapart : vm.Apart D) (hd : d ∈ D) (hi : dirIndex virt ∈ userIndices)
    (h : pagingUnmap d virt vm = .ok () vm') :
    vm'.Apart D ∧ vm.Spares D ∅ vm' ∧ ∀ d' ∈ D, ∀ i ∈ userIndices, ∀ j, vm'.lookup d' i j =
      if d' = d ∧ i = dirIndex virt ∧ j = tblIndex virt then none else vm.lookup d' i j := by
  obtain ⟨hnone, rfl⟩ | ⟨t, freed, vm₁, e, ht, ⟨f, hrelease⟩, he, rfl⟩ := pagingUnmap_cases h
  · refine ⟨hapart, ⟨rfl, rfl, fun _ _ _ _ => rfl, fun _ hf _ => ⟨rfl, hf⟩⟩,
      fun d' _ i _ j => ?_⟩
    split
    · next hpage =>
      obtain ⟨rfl, rfl, rfl⟩ := hpage
      exact hnone
    · rfl
  · obtain ⟨hpages, hcr3, hkernel⟩ := Window.physicalRelease_frame hrelease
    have hspares : vm.Spares D ∅ vm₁ := by
      refine ⟨hcr3, hkernel, fun _ _ _ _ => by rw [hpages], fun g hg _ => ?_⟩
      rw [Vm.InUse, hpages]
      exact ⟨rfl, hg⟩
    simp only [Vm.Apart, Vm.lookup, ← hpages] at hapart ht ⊢
    refine ⟨TwoLevel.apart_write_table hapart hd hi ht, hspares.write_table hapart hd hi ht,
      fun d' hd' i hi' j => ?_⟩
    rw [← he]
    exact TwoLevel.lookup_write_table hapart hd hi ht hd' hi'

/-! ## Any sequence of operations -/

/-- A page of user memory. -/
def UserPage (virt : Word) : Prop :=
  addrAlign virt archPgsize = virt ∧ virt < kernelVirtBase

namespace Window

variable {w : Window}

/-- The state of paging with some directories: their tables are apart from each other, the window
is in place in all of them, and its own tables are used for nothing else. -/
structure Sound (w : Window) (vm : Vm) (D : Set Frame) : Prop where
  apart : vm.Apart D
  mapped : ∀ d ∈ D, w.MappedBy vm d
  low : (vm.pages w.low (tblIndex w.addr)).present = true
  high : (vm.pages w.high (tblIndex (w.addr + archPgsize))).present = true
  unused : ∀ f, w.IsTable f → ¬vm.InUse D f
  active : vm.cr3 ∈ D
  kernel : vm.kernelDir ∈ D
  nonnull : 0 ∉ D

/-- What `physical_alloc` hands out is not in use, and in particular no table of the window. Frame 0
is mapped at `KERNEL_VIRT_BASE`. -/
def Fresh (w : Window) (vm : Vm) (D : Set Frame) : Prop :=
  ∀ f ∈ vm.nextFrame, f ≠ 0 ∧ ¬w.IsTable f ∧ ¬vm.InUse D f

namespace Sound

variable (h : w.Sound vm D)
include h

theorem not_isTable (hd : d ∈ D) : ¬w.IsTable d := fun ht => h.unused d ht (Or.inl hd)

theorem inPlace : w.InPlace vm :=
  ⟨h.mapped _ h.active, h.low, h.high, h.not_isTable h.active⟩

theorem shows (hd : d ∈ D) (hvirt : UserPage virt) : w.Shows vm d virt where
  place := h.inPlace
  dir := h.not_isTable hd
  table t ht htable := h.unused t htable (Or.inr ⟨d, hd, _, dirIndex_lt hvirt.2, ht⟩)
  nonnull := by
    rintro rfl
    exact h.nonnull hd
  aligned := hvirt.1

theorem point : w.Sound (w.point f vm) D where
  apart := h.apart.congr fun d hd _ _ => by rw [pages_point (h.not_isTable hd)]
  mapped d hd := by
    have hpages : (w.point f vm).pages d = vm.pages d := pages_point (h.not_isTable hd)
    exact ⟨hpages ▸ (h.mapped d hd).self, hpages ▸ (h.mapped d hd).low,
      hpages ▸ (h.mapped d hd).high⟩
  low := by rw [present_point, h.low]
  high := by rw [present_point, h.high]
  unused g hg hused := h.unused g hg <| hused.congr fun d hd _ _ => by
    rw [pages_point (h.not_isTable hd)]
  active := h.active
  kernel := h.kernel
  nonnull := h.nonnull

theorem inUse_point (hused : (w.point f vm).InUse D d) : vm.InUse D d :=
  hused.congr fun d hd _ _ => by rw [pages_point (h.not_isTable hd)]

theorem lookup_point {i j : BitVec 10} (hd : d ∈ D) (hi : i ∈ userIndices) :
    (w.point f vm).lookup d i j = vm.lookup d i j := by
  refine TwoLevel.lookup_congr (by rw [pages_point (h.not_isTable hd)]) fun t ht => ?_
  have hother : ¬w.IsTable t := fun htable => h.unused t htable (Or.inr ⟨d, hd, i, hi, ht⟩)
  rw [pages_point hother]

theorem keep (hapart : vm'.Apart D) (hspares : vm.Spares D A vm')
    (hfresh : ∀ f ∈ A, ¬w.IsTable f) : w.Sound vm' D := by
  have htable : ∀ f, w.IsTable f → vm'.pages f = vm.pages f ∧ ¬vm'.InUse D f := fun f hf =>
    hspares.other f (h.unused f hf) fun hmem => hfresh f hmem hf
  refine ⟨hapart, fun d hd => (h.mapped d hd).congr (hspares.upper d hd), ?_, ?_,
    fun f hf => (htable f hf).2, ?_, ?_, h.nonnull⟩
  · rw [(htable _ (Or.inl rfl)).1, h.low]
  · rw [(htable _ (Or.inr rfl)).1, h.high]
  · rw [hspares.cr3]
    exact h.active
  · rw [hspares.kernelDir]
    exact h.kernel

theorem create (hfresh : w.Fresh vm D) (hd : pagingDirCreate vm = .ok d vm') :
    w.Sound vm' (insert d D) := by
  have hmaps := pagingDirCreate_maps h.apart (fun f hf => (hfresh f hf).2.2) hd
  obtain ⟨vm₁, es, halloc, rfl, hself, hupper, -⟩ := pagingDirCreate_cases hd
  obtain ⟨hpages, hcr3, hkernel⟩ := physicalAlloc_frame halloc
  obtain ⟨hnull, htable, hnew⟩ := hfresh d ⟨_, halloc⟩
  have hlow : w.low ≠ d := fun heq => htable (Or.inl heq.symm)
  have hhigh : w.high ≠ d := fun heq => htable (Or.inr heq.symm)
  have hes : (vm₁.setPage d es).pages d = es := Function.update_self _ _ _
  refine ⟨hmaps.1, ?_, ?_, ?_, fun f hf hused => ?_, ?_, ?_, ?_⟩
  · rintro d' (rfl | hd')
    · have hmapped := h.mapped _ h.kernel
      refine ⟨?_, ?_, ?_⟩
      · rw [hes, hself]
      · rw [hes, hupper _ index_low.1 index_low.2, hmapped.low]
      · rw [hes, hupper _ index_high.1 index_high.2, hmapped.high]
    · have hne : d' ≠ d := by
        rintro rfl
        exact hnew (Or.inl hd')
      exact (h.mapped d' hd').congr fun i _ => by rw [pages_setPage_of_ne hne, hpages]
  · rw [pages_setPage_of_ne hlow, hpages, h.low]
  · rw [pages_setPage_of_ne hhigh, hpages, h.high]
  · obtain rfl | hused := hmaps.2.1 f hused
    · exact htable hf
    · exact h.unused f hf hused
  · exact Or.inr (hcr3 ▸ h.active)
  · exact Or.inr (hkernel ▸ h.kernel)
  · rintro (hzero | hmem)
    · exact hnull hzero.symm
    · exact h.nonnull hmem

end Sound

end Window

/-- The operations of the paging code, with their results, and loading a directory. -/
inductive PagingOp where
  | create (dir : Frame)
  | load (dir : Frame)
  | map (dir : Frame) (virt phys : Word) (flags : PagingFlags) (done : Bool)
  | unmap (dir : Frame) (virt : Word)
  | isMapped (dir : Frame) (virt : Word) (mapped : Bool)
  | mappingGet (dir : Frame) (virt phys : Word)

/-- One operation; the second component are the directories so far. -/
def pagingStep (tempmap : Word) (s : Vm × List Frame) : PagingOp → Option (Vm × List Frame)
  | .create dir =>
      (returned (Windowed.pagingDirCreate tempmap s.1) (entryAddr dir)).map (·, dir :: s.2)
  | .load dir => some ({ s.1 with cr3 := dir }, s.2)
  | .map dir virt phys flags done =>
      (returned (Windowed.pagingMap tempmap (entryAddr dir) virt phys flags s.1) done).map (·, s.2)
  | .unmap dir virt =>
      (returned (Windowed.pagingUnmap tempmap (entryAddr dir) virt s.1) ()).map (·, s.2)
  | .isMapped dir virt mapped =>
      (returned (Windowed.pagingIsMapped tempmap (entryAddr dir) virt s.1) mapped).map (·, s.2)
  | .mappingGet dir virt phys =>
      (returned (Windowed.pagingMappingGet tempmap (entryAddr dir) virt s.1) phys).map (·, s.2)

/-- Operations on user pages of the directories so far, without `PAGING_FLAG_FORCE`, and with an
allocator that hands out fresh frames. -/
def Window.Allows (w : Window) (s : Vm × List Frame) (op : PagingOp) (_ : Vm × List Frame) : Prop :=
  match op with
  | .create _ => w.Fresh s.1 {d | d ∈ s.2}
  | .load dir => dir ∈ s.2
  | .map dir virt _ flags _ =>
      dir ∈ s.2 ∧ virt < kernelVirtBase ∧ flags.force = false ∧ w.Fresh s.1 {d | d ∈ s.2}
  | .unmap dir virt | .isMapped dir virt _ | .mappingGet dir virt _ =>
      dir ∈ s.2 ∧ virt < kernelVirtBase

namespace PagingOp

/-- Does the operation make the page unmapped? -/
def clears (d : Frame) (v : Word) : PagingOp → Bool
  | .create dir => d = dir
  | .unmap dir virt => d = dir ∧ v = virt
  | _ => false

/-- The frame that the operation asks the page to be mapped to. -/
def maps (d : Frame) (v : Word) : PagingOp → Option Frame
  | .map dir virt phys _ _ => if d = dir ∧ v = virt then some (entryFrame phys) else none
  | _ => none

/-- What the page is mapped to after the operation. -/
def after (d : Frame) (v : Word) (op : PagingOp) (old : Option Frame) : Option Frame :=
  if op.clears d v then none else old.or (op.maps d v)

theorem after_create {old : Option Frame} : (create d).after d v old = none := by
  simp [after, clears]

end PagingOp

/-- The frame of the first `paging_map` of a page since it was last unmapped, or since its
directory was created. -/
def firstMap (d : Frame) (v : Word) (ops : List PagingOp) : Option Frame :=
  (ops.reverse.takeWhile fun op => !op.clears d v).reverse.findSome? (·.maps d v)

theorem firstMap_concat {op : PagingOp} {ops : List PagingOp} :
    firstMap d v (ops ++ [op]) = op.after d v (firstMap d v ops) := by
  rw [firstMap, firstMap, PagingOp.after, List.reverse_concat, List.takeWhile_cons]
  cases op.clears d v with
  | true => rfl
  | false =>
    rw [Bool.not_false, if_pos rfl, if_neg Bool.false_ne_true, List.reverse_cons,
      List.findSome?_append]
    simp

theorem UserPage.eq_iff {v' : Word} (h : UserPage v) (h' : UserPage v') :
    dirIndex v = dirIndex v' ∧ tblIndex v = tblIndex v' ↔ v = v' := by
  refine ⟨fun heq => BitVec.eq_of_toNat_eq ?_, fun heq => heq ▸ ⟨rfl, rfl⟩⟩
  have hdir := congrArg BitVec.toNat heq.1
  have htbl := congrArg BitVec.toNat heq.2
  have halign := congrArg BitVec.toNat h.1
  have halign' := congrArg BitVec.toNat h'.1
  rw [toNat_dirIndex, toNat_dirIndex] at hdir
  rw [toNat_tblIndex, toNat_tblIndex] at htbl
  rw [toNat_addrAlign] at halign halign'
  omega

theorem aligned_of_ok {α : Type} {x : VmM α} {a : α}
    (h : (failIf (addrAlign virt archPgsize ≠ virt) .assertion >>= fun _ => x) vm = .ok a vm') :
    addrAlign virt archPgsize = virt := by
  obtain ⟨_, _, hok, -⟩ := bind_eq_ok.mp h
  exact not_not.mp (failIf_eq_ok.mp hok).1

namespace Window.Sound

variable {w : Window} (h : w.Sound vm D)
include h

theorem point_after (hd : d ∈ D) (hv : UserPage v) :
    (w.point f vm).pagingMappingGet d v = vm.pagingMappingGet d v := by
  rw [pagingMappingGet_eq_lookup, pagingMappingGet_eq_lookup, h.lookup_point hd (dirIndex_lt hv.2)]

theorem allocSpares (hfresh : w.Fresh vm D) : w.AllocSpares vm := by
  intro f vm' halloc
  obtain ⟨-, htable, hnew⟩ := hfresh f ⟨vm', halloc⟩
  refine ⟨htable, ?_⟩
  rintro rfl
  exact hnew (Or.inl h.active)

theorem create_agree (hfresh : w.Fresh vm D) :
    Agree (fun p s d t => p = entryAddr d ∧ s = w.point d t)
      (Windowed.pagingDirCreate w.addr vm) (pagingDirCreate vm) := by
  have hother : ∀ f vm', physicalAlloc vm = .ok f vm' → vm.kernelDir ≠ f := by
    rintro f vm' halloc rfl
    exact (hfresh _ ⟨vm', halloc⟩).2.2 (Or.inl h.kernel)
  have hnull : vm.kernelDir ≠ 0 := fun hzero => h.nonnull (hzero ▸ h.kernel)
  exact pagingDirCreate_agree h.inPlace (h.allocSpares hfresh) (h.not_isTable h.kernel) hnull hother

theorem map_agree {phys : Word} (hd : d ∈ D) (hv : UserPage virt) (hfresh : w.Fresh vm D)
    (hphys : addrAlign phys archPgsize = phys) :
    Agree (fun b s b' t => b = b' ∧ ∃ f, s = w.point f t)
      (Windowed.pagingMap w.addr (entryAddr d) virt phys flags vm)
      (pagingMap d virt (entryFrame phys) flags vm) :=
  pagingMap_agree (h.shows hd hv) (dirIndex_lt hv.2) (h.allocSpares hfresh) hphys

theorem create_after {p : Word} (hfresh : w.Fresh vm D)
    (hret : Windowed.pagingDirCreate w.addr vm = .ok p vm') :
    ∃ d, p = entryAddr d ∧ w.Sound vm' (insert d D) ∧ ∀ d' ∈ insert d D, ∀ v, UserPage v →
      vm'.pagingMappingGet d' v = if d' = d then none else vm.pagingMappingGet d' v := by
  obtain ⟨d, vm₁, hdirect, rfl, rfl⟩ := (h.create_agree hfresh).of_ok hret
  have hsound := h.create hfresh hdirect
  obtain ⟨-, -, hlookup⟩ := pagingDirCreate_maps h.apart (fun f hf => (hfresh f hf).2.2) hdirect
  refine ⟨d, rfl, hsound.point, fun d' hd' v hv => ?_⟩
  rw [hsound.point_after hd' hv, pagingMappingGet_eq_lookup, pagingMappingGet_eq_lookup,
    hlookup d' hd' _ (dirIndex_lt hv.2)]

theorem map_after {phys : Word} {done : Bool} (hd : d ∈ D) (hlow : virt < kernelVirtBase)
    (hforce : flags.force = false) (hfresh : w.Fresh vm D)
    (hret : Windowed.pagingMap w.addr (entryAddr d) virt phys flags vm = .ok done vm') :
    w.Sound vm' D ∧ done = (vm.pagingMappingGet d virt).isNone ∧ ∀ d' ∈ D, ∀ v, UserPage v →
      vm'.pagingMappingGet d' v = if d' = d ∧ v = virt then
        (vm.pagingMappingGet d' v).or (some (entryFrame phys)) else vm.pagingMappingGet d' v := by
  have hvirt : UserPage virt := ⟨aligned_of_ok hret, hlow⟩
  have hphys : addrAlign phys archPgsize = phys := by
    obtain ⟨_, _, -, hrest⟩ := bind_eq_ok.mp hret
    exact aligned_of_ok hrest
  obtain ⟨_, vm₁, hdirect, rfl, g, rfl⟩ := (h.map_agree hd hvirt hfresh hphys).of_ok hret
  obtain ⟨hapart, hspares, hdone, hlookup⟩ := pagingMap_maps h.apart
    (fun f hf => (hfresh f hf).2.2) hd (dirIndex_lt hlow) hforce hdirect
  have hsound := h.keep hapart hspares fun f hf => (hfresh f hf).2.1
  refine ⟨hsound.point, by rw [hdone, pagingMappingGet_eq_lookup], fun d' hd' v hv => ?_⟩
  rw [hsound.point_after hd' hv, pagingMappingGet_eq_lookup, pagingMappingGet_eq_lookup,
    hlookup d' hd' _ (dirIndex_lt hv.2)]
  simp only [hv.eq_iff hvirt]

theorem unmap_after (hd : d ∈ D) (hlow : virt < kernelVirtBase)
    (hret : Windowed.pagingUnmap w.addr (entryAddr d) virt vm = .ok () vm') :
    w.Sound vm' D ∧ ∀ d' ∈ D, ∀ v, UserPage v →
      vm'.pagingMappingGet d' v = if d' = d ∧ v = virt then none
        else vm.pagingMappingGet d' v := by
  have hvirt : UserPage virt := ⟨aligned_of_ok hret, hlow⟩
  obtain ⟨_, vm₁, hdirect, g, rfl⟩ := (pagingUnmap_agree (h.shows hd hvirt)).of_ok hret
  obtain ⟨hapart, hspares, hlookup⟩ := pagingUnmap_maps h.apart hd (dirIndex_lt hlow) hdirect
  have hsound := h.keep hapart hspares fun f hf => absurd hf (Set.notMem_empty f)
  refine ⟨hsound.point, fun d' hd' v hv => ?_⟩
  rw [hsound.point_after hd' hv, pagingMappingGet_eq_lookup, pagingMappingGet_eq_lookup,
    hlookup d' hd' _ (dirIndex_lt hv.2)]
  simp only [hv.eq_iff hvirt]

theorem read_after {α : Type} {x : VmM α} {a b : α} (heq : ∃ f, x vm = .ok b (w.point f vm))
    (hret : x vm = .ok a vm') : w.Sound vm' D ∧ ∀ d' ∈ D, ∀ v, UserPage v →
      vm'.pagingMappingGet d' v = (vm.pagingMappingGet d' v).or none := by
  obtain ⟨f, heq⟩ := heq
  obtain ⟨-, rfl⟩ := EStateM.Result.ok.inj (heq.symm.trans hret)
  exact ⟨h.point, fun d' hd' v hv => (h.point_after hd' hv).trans Option.or_none.symm⟩

theorem load_after (hd : d ∈ D) : w.Sound { vm with cr3 := d } D :=
  ⟨h.apart, fun d' hd' => (h.mapped d' hd').congr fun _ _ => rfl, h.low, h.high, h.unused, hd,
    h.kernel, h.nonnull⟩

end Window.Sound

section Runs

variable {w : Window} {s s' : Vm × List Frame} {op : PagingOp} {ops : List PagingOp}

theorem pagingStep_after (h : w.Sound s.1 {d | d ∈ s.2}) (hstep : pagingStep w.addr s op = some s')
    (hallows : w.Allows s op s') : w.Sound s'.1 {d | d ∈ s'.2} ∧
      ∀ d ∈ s'.2, ∀ v, UserPage v →
        s'.1.pagingMappingGet d v = op.after d v (s.1.pagingMappingGet d v) := by
  obtain ⟨vm, dirs⟩ := s
  cases op with
  | create dir =>
    obtain ⟨vm₁, hret, rfl⟩ := Option.map_eq_some_iff.mp hstep
    obtain ⟨d, heq, hsound, hafter⟩ := h.create_after hallows (returned_eq_some.mp hret)
    obtain rfl := entryAddr_inj.mp heq
    have hset : {d | d ∈ dir :: dirs} = insert dir {d | d ∈ dirs} := by
      ext d
      exact List.mem_cons
    refine ⟨hset ▸ hsound, fun d hd v hv => (hafter d (List.mem_cons.mp hd) v hv).trans ?_⟩
    by_cases hnew : d = dir <;> simp [PagingOp.after, PagingOp.clears, PagingOp.maps, hnew]
  | load dir =>
    obtain rfl := Option.some.inj hstep
    exact ⟨h.load_after hallows, fun d _ v _ => Option.or_none.symm⟩
  | map dir virt phys flags done =>
    obtain ⟨vm₁, hret, rfl⟩ := Option.map_eq_some_iff.mp hstep
    obtain ⟨hdir, hlow, hforce, hfresh⟩ := hallows
    obtain ⟨hsound, -, hafter⟩ :=
      h.map_after hdir hlow hforce hfresh (returned_eq_some.mp hret)
    refine ⟨hsound, fun d hd v hv => (hafter d hd v hv).trans ?_⟩
    by_cases hpage : d = dir ∧ v = virt <;>
      simp [PagingOp.after, PagingOp.clears, PagingOp.maps, hpage]
  | unmap dir virt =>
    obtain ⟨vm₁, hret, rfl⟩ := Option.map_eq_some_iff.mp hstep
    obtain ⟨hsound, hafter⟩ := h.unmap_after hallows.1 hallows.2 (returned_eq_some.mp hret)
    refine ⟨hsound, fun d hd v hv => (hafter d hd v hv).trans ?_⟩
    by_cases hpage : d = dir ∧ v = virt <;>
      simp [PagingOp.after, PagingOp.clears, PagingOp.maps, hpage]
  | isMapped dir virt mapped =>
    obtain ⟨vm₁, hret, rfl⟩ := Option.map_eq_some_iff.mp hstep
    rw [returned_eq_some] at hret
    exact h.read_after
      (Window.pagingIsMapped_eq (h.shows hallows.1 ⟨aligned_of_ok hret, hallows.2⟩)) hret
  | mappingGet dir virt phys =>
    obtain ⟨vm₁, hret, rfl⟩ := Option.map_eq_some_iff.mp hstep
    rw [returned_eq_some] at hret
    exact h.read_after
      (Window.pagingMappingGet_eq (h.shows hallows.1 ⟨aligned_of_ok hret, hallows.2⟩)) hret

theorem mem_of_pagingStep {tempmap : Word} (hstep : pagingStep tempmap s op = some s')
    (hd : d ∈ s'.2) : d ∈ s.2 ∨ op = .create d := by
  cases op with
  | create dir =>
    obtain ⟨vm₁, -, rfl⟩ := Option.map_eq_some_iff.mp hstep
    obtain rfl | hd := List.mem_cons.mp hd
    · exact Or.inr rfl
    · exact Or.inl hd
  | load dir =>
    obtain rfl := Option.some.inj hstep
    exact Or.inl hd
  | map | unmap | isMapped | mappingGet =>
    obtain ⟨vm₁, -, rfl⟩ := Option.map_eq_some_iff.mp hstep
    exact Or.inl hd

theorem mem_pagingStep {tempmap : Word} (hstep : pagingStep tempmap s op = some s')
    (hd : d ∈ s.2) : d ∈ s'.2 := by
  cases op with
  | create dir =>
    obtain ⟨vm₁, -, rfl⟩ := Option.map_eq_some_iff.mp hstep
    exact List.mem_cons_of_mem _ hd
  | load dir =>
    obtain rfl := Option.some.inj hstep
    exact hd
  | map | unmap | isMapped | mappingGet =>
    obtain ⟨vm₁, -, rfl⟩ := Option.map_eq_some_iff.mp hstep
    exact hd

/-- Paging as `paging_init` leaves it: with the kernel's directory only, which maps no user page. -/
structure Window.Ready (w : Window) (vm : Vm) : Prop where
  sound : w.Sound vm {d | d ∈ [vm.kernelDir]}
  empty : ∀ v, UserPage v → vm.pagingMappingGet vm.kernelDir v = none

/-- In every run, the maps can be read off the history. -/
theorem pagingSteps_after (hready : w.Ready vm₀)
    (hrun : Steps (pagingStep w.addr) w.Allows (vm₀, [vm₀.kernelDir]) ops s) :
    w.Sound s.1 {d | d ∈ s.2} ∧
      ∀ d ∈ s.2, ∀ v, UserPage v → s.1.pagingMappingGet d v = firstMap d v ops := by
  refine hrun.invariant_history (I := fun ops s => w.Sound s.1 {d | d ∈ s.2} ∧
    ∀ d ∈ s.2, ∀ v, UserPage v → s.1.pagingMappingGet d v = firstMap d v ops) ?_ ?_
  · intro ops s op s' h hstep hallows
    obtain ⟨hsound, hafter⟩ := pagingStep_after h.1 hstep hallows
    refine ⟨hsound, fun d hd v hv => ?_⟩
    rw [hafter d hd v hv, firstMap_concat]
    obtain hold | rfl := mem_of_pagingStep hstep hd
    · rw [h.2 d hold v hv]
    · rw [PagingOp.after_create, PagingOp.after_create]
  · refine ⟨hready.sound, fun d hd v hv => ?_⟩
    rw [List.mem_singleton.mp hd]
    exact hready.empty v hv

/-- Every directory is a map of its own. -/
theorem directories_are_maps (hready : w.Ready vm₀)
    (hrun : Steps (pagingStep w.addr) w.Allows (vm₀, [vm₀.kernelDir]) ops (vm, dirs))
    (hd : d ∈ dirs) (hv : UserPage v) :
    (∃ vm', Windowed.pagingMappingGet w.addr (entryAddr d) v vm =
      .ok ((firstMap d v ops).elim 0 entryAddr) vm') ∧
    (∃ vm', Windowed.pagingIsMapped w.addr (entryAddr d) v vm =
      .ok (firstMap d v ops).isSome vm') ∧
    (∀ phys flags, addrAlign phys archPgsize = phys → flags.force = false →
      w.Fresh vm {d | d ∈ dirs} →
      match Windowed.pagingMap w.addr (entryAddr d) v phys flags vm with
      | .ok done _ => done = true ↔ firstMap d v ops = none
      | .error e _ => ∃ vm', physicalAlloc vm = .error e vm') ∧
    ∀ op s', pagingStep w.addr (vm, dirs) op = some s' → w.Allows (vm, dirs) op s' →
      op.clears d v = false → op.maps d v = none → ∃ vm', Windowed.pagingMappingGet w.addr
        (entryAddr d) v s'.1 = .ok ((firstMap d v ops).elim 0 entryAddr) vm' := by
  obtain ⟨hsound, hmaps⟩ := pagingSteps_after hready hrun
  have hget := hmaps d hd v hv
  have hshows := hsound.shows hd hv
  refine ⟨?_, ?_, fun phys flags hphys hforce hfresh => ?_,
    fun op s' hstep hallows hclears hnone => ?_⟩
  · obtain ⟨f, hret⟩ := Window.pagingMappingGet_eq hshows
    exact ⟨_, hget ▸ hret⟩
  · obtain ⟨f, hret⟩ := Window.pagingIsMapped_eq hshows
    rw [pagingIsMapped_eq_isSome, hget] at hret
    exact ⟨_, hret⟩
  · split
    · next hret =>
      obtain ⟨-, hdone, -⟩ := hsound.map_after hd hv.2 hforce hfresh hret
      rw [hdone, hget, Option.isNone_iff_eq_none]
    · next hret =>
      obtain ⟨vm', hdirect⟩ := (hsound.map_agree hd hv hfresh hphys).of_error hret
      exact pagingMap_eq_error hdirect
  · obtain ⟨hsound', hafter⟩ := pagingStep_after hsound hstep hallows
    have hd' : d ∈ s'.2 := mem_pagingStep hstep hd
    obtain ⟨f, hret⟩ := Window.pagingMappingGet_eq (hsound'.shows hd' hv)
    rw [hafter d hd' v hv, hget, PagingOp.after, hclears, hnone, Option.or_none] at hret
    exact ⟨_, hret⟩

end Runs

/-! ## A small machine -/

/-- The window on the small machine, in the first two pages of kernel space. -/
def smallWindow : Window where
  addr := 0xC0000000
  low := 0x800
  high := 0x800
  aligned := by decide
  above := by decide
  below := by decide

/-- The small machine, with a kernel page table. -/
def windowVm : Vm :=
  { smallVm fun _ => 0 with
    pages := fun t i => if t = 0x800 then { present := true } else (smallVm fun _ => 0).pages t i }

theorem target_windowVm {i : BitVec 10} (hi : i ∈ userIndices) :
    (windowVm.pages 0x400 i).target = none := by
  have hupper : ¬dirIndex kernelVirtBase ≤ i := BitVec.not_le.mpr hi
  have hrec : i ≠ recursiveIndex := by
    rintro rfl
    exact absurd hi (by decide : ¬recursiveIndex < userTop)
  simp [windowVm, smallVm, hrec, hupper, PageEntry.target]

theorem windowVm_inUse (h : windowVm.InUse {d | d ∈ [windowVm.kernelDir]} f) : f = 0x400 := by
  obtain h | ⟨d, hd, i, hi, ht⟩ := h
  · exact List.mem_singleton.mp h
  · obtain rfl := List.mem_singleton.mp hd
    cases (target_windowVm hi).symm.trans ht

theorem windowVm_ready : smallWindow.Ready windowVm where
  sound := by
    refine ⟨⟨fun hd hi ht => ?_, fun hd _ hi _ ht => ?_⟩, fun d hd => ?_, rfl, rfl,
      fun f hf hused => ?_, List.mem_singleton_self _, List.mem_singleton_self _, ?_⟩
    · obtain rfl := List.mem_singleton.mp hd
      cases (target_windowVm hi).symm.trans ht
    · obtain rfl := List.mem_singleton.mp hd
      cases (target_windowVm hi).symm.trans ht
    · obtain rfl := List.mem_singleton.mp hd
      exact ⟨by decide, by decide, by decide⟩
    · rw [windowVm_inUse hused] at hf
      exact absurd hf (by unfold Window.IsTable; decide)
    · exact fun hzero => absurd (List.mem_singleton.mp hzero) (by decide)
  empty v hv := by
    rw [pagingMappingGet_eq_bind]
    exact Option.bind_eq_none_iff.mpr fun t ht =>
      nomatch (target_windowVm (dirIndex_lt hv.2)).symm.trans ht

theorem eq_of_mem_nextFrame {g : Frame} (h : valueOf (physicalAlloc vm) = some f)
    (hg : g ∈ vm.nextFrame) : g = f := by
  obtain ⟨vm', hg⟩ := hg
  rw [hg] at h
  exact Option.some.inj h

theorem pagingStep_create {tempmap : Word}
    (h : Windowed.pagingDirCreate tempmap vm = .ok (entryAddr d) vm') :
    pagingStep tempmap (vm, dirs) (.create d) = some (vm', d :: dirs) := by
  rw [pagingStep, returned_eq_some.mpr h, Option.map_some]

theorem pagingStep_map {tempmap phys : Word} {done : Bool}
    (h : Windowed.pagingMap tempmap (entryAddr d) virt phys flags vm = .ok done vm') :
    pagingStep tempmap (vm, dirs) (.map d virt phys flags done) = some (vm', dirs) := by
  rw [pagingStep, returned_eq_some.mpr h, Option.map_some]

/-- A directory is created and a page mapped in it, by calls through the window on a small machine. -/
theorem exists_first_directory : ∃ vm, Steps (pagingStep smallWindow.addr) smallWindow.Allows
    (windowVm, [windowVm.kernelDir])
    [.create 0x1000, .map 0x1000 0x2000 0x5000 {} true] (vm, [0x1000, windowVm.kernelDir]) := by
  have hsound := windowVm_ready.sound
  have hfresh : smallWindow.Fresh windowVm {d | d ∈ [windowVm.kernelDir]} := by
    intro f hf
    obtain rfl := eq_of_mem_nextFrame (f := 0x1000) (by decide +kernel) hf
    refine ⟨by decide, by unfold Window.IsTable; decide, fun hused => ?_⟩
    exact absurd (windowVm_inUse hused) (by decide)
  -- The direct model is evaluated, and its result holds through the window too.
  have hdirect : pagingDirCreate windowVm = .ok 0x1000 (final (pagingDirCreate windowVm)) :=
    eq_ok_of_valueOf (by decide +kernel)
  generalize hfinal : final (pagingDirCreate windowVm) = vm' at hdirect
  obtain ⟨_, vm₁, hcreate, rfl, hpoint⟩ := (hsound.create_agree hfresh).to_ok hdirect
  obtain ⟨-, hinUse, -⟩ :=
    pagingDirCreate_maps hsound.apart (fun f hf => (hfresh f hf).2.2) hdirect
  have hsound₁ := hsound.create hfresh hdirect
  have hset : {d | d ∈ [0x1000, windowVm.kernelDir]} =
      insert 0x1000 {d | d ∈ [windowVm.kernelDir]} := by
    ext d
    exact List.mem_cons
  have hfresh₁ : smallWindow.Fresh vm₁ {d | d ∈ [0x1000, windowVm.kernelDir]} := by
    intro f hf
    rw [hpoint, ← hfinal] at hf
    obtain rfl := eq_of_mem_nextFrame (f := 0x1001) (by decide +kernel) hf
    refine ⟨by decide, by unfold Window.IsTable; decide, fun hused => ?_⟩
    rw [hset, hpoint] at hused
    obtain hnew | hold := hinUse _ (hsound₁.inUse_point hused)
    · exact absurd hnew (by decide)
    · exact absurd (windowVm_inUse hold) (by decide)
  have hdirect₁ : valueOf (pagingMap 0x1000 0x2000 (entryFrame 0x5000) {} vm₁) = some true := by
    rw [hpoint, ← hfinal]
    decide +kernel
  have hmem : 0x1000 ∈ {d | d ∈ [(0x1000 : Frame), windowVm.kernelDir]} :=
    List.mem_cons_self
  have hsound₂ : smallWindow.Sound vm₁ {d | d ∈ [0x1000, windowVm.kernelDir]} := by
    rw [hset, hpoint]
    exact hsound₁.point
  obtain ⟨_, vm₂, hmap, rfl, -⟩ := (hsound₂.map_agree hmem ⟨by decide, by decide⟩ hfresh₁
    (by decide)).to_ok (eq_ok_of_valueOf hdirect₁)
  refine ⟨vm₂, .cons (pagingStep_create hcreate) hfresh (.cons ?_ ?_ (.nil _))⟩
  · exact pagingStep_map hmap
  · exact ⟨List.mem_cons_self, by decide, rfl, hfresh₁⟩

theorem first_directory_is_a_map : ∃ vm vm', Steps (pagingStep smallWindow.addr) smallWindow.Allows
    (windowVm, [windowVm.kernelDir])
    [.create 0x1000, .map 0x1000 0x2000 0x5000 {} true] (vm, [0x1000, windowVm.kernelDir]) ∧
    Windowed.pagingMappingGet smallWindow.addr (entryAddr 0x1000) 0x2000 vm = .ok 0x5000 vm' := by
  obtain ⟨vm, hrun⟩ := exists_first_directory
  obtain ⟨⟨vm', hget⟩, -⟩ := directories_are_maps windowVm_ready hrun
    (List.mem_cons_self : (0x1000 : Frame) ∈ [0x1000, windowVm.kernelDir])
    (⟨by decide, by decide⟩ : UserPage 0x2000)
  exact ⟨vm, vm', hrun, hget⟩

end Horizon
