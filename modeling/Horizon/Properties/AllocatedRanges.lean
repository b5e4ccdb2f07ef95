import Horizon.Memory.Allocation
import Horizon.System.Directories
import Horizon.System.Boot
import Horizon.System.Mapping

/-!
# Horizon — what `virtual_alloc` does to a range

`Vm.Allocates` is what the function is for: every page of the range is mapped and every byte of it
is zero, while the pages that were mapped keep their frames and their bytes outside the range.

`virtual_alloc` works out how much of the last page belongs to the range, and then clears the page
to its end. So the bytes behind the range survive only if they are zero, or if their page is not
mapped before (`Vm.Survives`). It also needs the blocks it takes from the allocator, and a range
that ends where the cursor can get to.

The pages of the recursive mapping show the page tables themselves and are left out.
-/

namespace Horizon

open StateError Vm

variable {k k' : Kernel} {vm vm' : Vm} {d : Frame} {virt size addr phys : Word} {pid : Pid} {n : ℕ}

/-- Does an address belong to the range? -/
def Spans (virt size addr : Word) : Prop :=
  virt.toNat ≤ addr.toNat ∧ addr.toNat < virt.toNat + size.toNat

/-- The range has been allocated in an address space. -/
structure Vm.Allocates (d : Frame) (virt size : Word) (vm vm' : Vm) : Prop where
  mapped : ∀ n, Overlaps virt size n → vm'.HasPage d n
  zero : ∀ addr, Spans virt size addr → ∃ phys, vm'.translate d addr = some phys ∧
    vm'.ram phys = 0
  kept : ∀ n < recursivePage, ∀ f, vm.pageFrame d n = some f → vm'.pageFrame d n = some f
  unchanged : ∀ addr < recursiveBase, ¬Spans virt size addr → ∀ phys,
    vm.translate d addr = some phys → vm'.ram phys = vm.ram phys

/-- No page shows a free block, or a frame of the page tables. Blocks that are freed while a page
still shows them, as a process that dies leaves them to those it shared them with, break this. -/
def Vm.Conceals (vm : Vm) (d : Frame) : Prop :=
  ∀ n < recursivePage, ∀ f, vm.pageFrame d n = some f →
    ¬vm.Free f ∧ ¬vm.UsedOn ownIndices {d} f

/-- The bytes of the pages of the range that are mapped already, from the start of the range to the
end of the page. -/
def Vm.Clears (vm : Vm) (d : Frame) (virt size phys : Word) : Prop :=
  ∃ n, Overlaps virt size n ∧ vm.pageFrame d n = some (entryFrame phys) ∧
    virt.toNat ≤ 4096 * n + phys.toNat % 4096

/-- Those of them that an address outside the range shows are zero. -/
def Vm.Survives (vm : Vm) (d : Frame) (virt size : Word) : Prop :=
  ∀ addr < recursiveBase, ¬Spans virt size addr → ∀ phys, vm.translate d addr = some phys →
    vm.Clears d virt size phys → vm.ram phys = 0

/-! ## The state of the loop at its end -/

section Loop

variable {flags : PagingFlags}

theorem passed_iff_overlaps (hend : virt.toNat + size.toNat ≤ 0xFFC00000) :
    Passed (virt.toNat / 4096) (pageCount (addrAlign virt archPgsize) (virt + size)) n ↔
      Overlaps virt size n := by
  constructor
  · rintro ⟨hfirst, hlt⟩
    exact (lt_pageCount_iff (by omega) hfirst).mp hlt
  · intro hn
    exact ⟨hn.first_le, (lt_pageCount_iff (by omega) hn.first_le).mpr hn⟩

theorem Overlaps.lt_recursivePage (hend : virt.toNat + size.toNat ≤ 0xFFC00000)
    (h : Overlaps virt size n) : n < recursivePage := by
  unfold Overlaps overlaps at h
  unfold recursivePage
  omega

theorem toNat_div_lt_recursivePage (h : addr < recursiveBase) :
    addr.toNat / 4096 < recursivePage := by
  have hlt : addr.toNat < 0xFFC00000 := BitVec.lt_def.mp h
  unfold recursivePage
  omega

theorem allocates_of_state (hconceals : vm.Conceals d) (hend : virt.toNat + size.toNat ≤ 0xFFC00000)
    (h : vm.AllocState d flags virt (pageCount (addrAlign virt archPgsize) (virt + size)) vm')
    (hsurvives : vm.Survives d virt size) : vm.Allocates d virt size vm' where
  mapped n hn := by
    have hlt := hn.lt_recursivePage hend
    refine ⟨hlt.trans (by decide), ?_⟩
    rw [pagingIsMapped_pageNo]
    exact h.isSome_of_passed ((passed_iff_overlaps hend).mpr hn) hlt
  zero addr haddr := by
    have hpage : Overlaps virt size (addr.toNat / 4096) := by
      unfold Spans at haddr
      unfold Overlaps overlaps
      omega
    have hpassed := (passed_iff_overlaps hend).mpr hpage
    obtain ⟨g, hg⟩ := Option.isSome_iff_exists.mp
      (h.isSome_of_passed hpassed (hpage.lt_recursivePage hend))
    obtain ⟨phys, hphys⟩ := exists_translate hg
    obtain ⟨hframe, hoffset⟩ := translate_eq_some.mp hphys
    refine ⟨phys, hphys, h.zero phys ⟨_, hpassed, hframe, ?_⟩⟩
    have hle := haddr.1
    omega
  kept := h.kept
  unchanged addr haddr hout phys hphys := by
    obtain ⟨hframe, -⟩ := translate_eq_some.mp hphys
    by_cases hcleared : vm'.Cleared d virt (virt.toNat / 4096)
        (pageCount (addrAlign virt archPgsize) (virt + size)) phys
    · rw [h.zero phys hcleared]
      obtain ⟨n, hn, hnew, hle⟩ := hcleared
      have hpage := (passed_iff_overlaps hend).mp hn
      cases hold : vm.pageFrame d n with
      | some g =>
        have hsame := h.kept n (hpage.lt_recursivePage hend) g hold
        rw [hnew] at hsame
        exact (hsurvives addr haddr hout phys hphys ⟨n, hpage, hsame ▸ hold, hle⟩).symm
      | none =>
        -- A new page has a block that was free, and no page showed it.
        obtain ⟨g, hfree, -, hmade⟩ := h.made n hn hold
        rw [pageFrame_eq_lookup, hmade.lookup, Option.some_inj] at hnew
        have hshown := hconceals _ (toNat_div_lt_recursivePage haddr) _ hframe
        exact absurd (hnew ▸ hfree) hshown.1
    · exact h.same phys hcleared

theorem survives_of_allocates (hend : virt.toNat + size.toNat ≤ 0xFFC00000)
    (h : vm.AllocState d flags virt (pageCount (addrAlign virt archPgsize) (virt + size)) vm')
    (hallocates : vm.Allocates d virt size vm') : vm.Survives d virt size := by
  rintro addr haddr hout phys hphys ⟨n, hn, hframe, hle⟩
  rw [← hallocates.unchanged addr haddr hout phys hphys]
  exact h.zero phys ⟨n, (passed_iff_overlaps hend).mpr hn,
    h.kept n (hn.lt_recursivePage hend) _ hframe, hle⟩

end Loop

/-! ## The function -/

theorem virtualAlloc_eq_ok (hpid : pid = 0 ∨ k.liveProcess pid = true) (hsize : size ≠ 0) :
    virtualAlloc pid virt size k = .ok () k' ↔ ∃ vm',
      allocLoop virt size (k.dirOf pid) (dirFlags pid) k.vm = .ok () vm' ∧
        k' = { k with vm := vm' } := by
  rw [virtualAlloc, dassert, if_pos hsize, pure_bind, bind_apply_of_ok (getDir_eq hpid)]
  exact liftVm_eq_ok

/-- Below the recursive mapping, `virtual_alloc` does what it is for only if the allocator has the
blocks and no byte behind the range gets lost, and this is enough as long as no page shows a free
block. A range that ends in the last page is never finished, and one that ends with the address
space is ignored. -/
theorem virtualAlloc_right_iff (hpid : pid = 0 ∨ k.liveProcess pid = true) (hsize : size ≠ 0)
    (hintact : k.vm.Intact (k.dirOf pid)) :
    (virt.toNat + size.toNat ≤ 0xFFC00000 →
      ((∃ k', virtualAlloc pid virt size k = .ok () k' ∧
          Vm.Allocates (k.dirOf pid) virt size k.vm k'.vm) →
        k.vm.supplies (k.vm.blocksNeeded (k.dirOf pid) virt size) = true ∧
          k.vm.Survives (k.dirOf pid) virt size) ∧
      (k.vm.supplies (k.vm.blocksNeeded (k.dirOf pid) virt size) = true →
        k.vm.Survives (k.dirOf pid) virt size → k.vm.Conceals (k.dirOf pid) →
        ∃ k', virtualAlloc pid virt size k = .ok () k' ∧
          Vm.Allocates (k.dirOf pid) virt size k.vm k'.vm)) ∧
    (0xFFFFF000 < virt.toNat + size.toNat → virt.toNat + size.toNat < 2 ^ 32 →
      ∀ k', virtualAlloc pid virt size k ≠ .ok () k') ∧
    (virt.toNat + size.toNat = 2 ^ 32 → virtualAlloc pid virt size k = .ok () k) := by
  have hforce : (dirFlags pid).force = false := rfl
  refine ⟨fun hend => ⟨?_, ?_⟩, fun hlast hlt k' h => ?_, fun hwhole => ?_⟩
  · rintro ⟨k', hrun, hallocates⟩
    obtain ⟨vm', hloop, rfl⟩ := (virtualAlloc_eq_ok hpid hsize).mp hrun
    have hstate := allocLoop_state hintact hforce hend hloop
    have hsupplies := hstate.supplies 0
    rw [Nat.add_zero] at hsupplies
    exact ⟨hsupplies.symm, survives_of_allocates hend hstate hallocates⟩
  · intro hsupplies hsurvives hconceals
    obtain ⟨vm', hloop⟩ := allocLoop_of_supplies hintact hforce hend hsupplies
    exact ⟨_, (virtualAlloc_eq_ok hpid hsize).mpr ⟨vm', hloop, rfl⟩,
      allocates_of_state hconceals hend (allocLoop_state hintact hforce hend hloop) hsurvives⟩
  · obtain ⟨vm', hloop, -⟩ := (virtualAlloc_eq_ok hpid hsize).mp h
    rw [allocLoop, addrAlign_eq_pageNo] at hloop
    refine pageLoop_endless ?_ hloop
    rw [BitVec.lt_def, toNat_add_of_lt hlt]
    exact hlast
  · have hzero : virt + size = 0 := by
      apply BitVec.eq_of_toNat_eq
      rw [toNat_add_of_le hwhole.ge, hwhole]
      rfl
    refine (virtualAlloc_eq_ok hpid hsize).mpr ⟨k.vm, ?_, rfl⟩
    rw [allocLoop, hzero, pageFuel, pageLoop_done]
    · rfl
    · rw [BitVec.lt_def]
      exact Nat.not_lt_zero _

theorem pageFrame_bareVm (hd : d ∈ [0x400, 0x401, 0x402]) (hn : n < recursivePage) :
    bareVm.pageFrame d n = none := by
  rw [pageFrame_eq_lookup, Vm.lookup, TwoLevel.lookup, pages_bareVm hd,
    if_neg (dirIndex_pageNo_mem hn)]
  split
  · next hhigh =>
    have htable : bareVm.holder bareDirs (.kernelTable (dirIndex (pageNo n))) =
        some (0x500 + (dirIndex (pageNo n)).setWidth 20) := by
      rw [holder, pages_bareVm (by decide), if_neg (dirIndex_pageNo_mem hn), if_pos hhigh,
        if_pos ⟨hhigh, dirIndex_pageNo_mem hn, rfl⟩]
    exact congrArg PageEntry.target (if_pos (holder_kernelTable_bareVm htable).2.1)
  · rfl

/-- The first page of a process. -/
theorem first_page_allocated : ∃ k', virtualAlloc 2 0x1000 0x1000 bareKernel = .ok () k' ∧
    Vm.Allocates 0x401 0x1000 0x1000 bareKernel.vm k'.vm := by
  have hd : (0x401 : Frame) ∈ [0x400, 0x401, 0x402] := by decide
  have hconceals : bareKernel.vm.Conceals (bareKernel.dirOf 2) := by
    intro n hn f hf
    rw [show bareKernel.dirOf 2 = 0x401 from rfl] at hf
    rw [show bareKernel.vm = bareVm from rfl, pageFrame_bareVm hd hn] at hf
    cases hf
  refine ((virtualAlloc_right_iff (Or.inr (by decide)) (by decide)
    (bareVm_tidy.intact (p := 2) rfl)).1 (by decide)).2 (by decide +kernel)
    (fun addr haddr hout phys hphys => ?_) hconceals
  have hframe := (translate_eq_some.mp hphys).1
  rw [show bareKernel.dirOf 2 = 0x401 from rfl, show bareKernel.vm = bareVm from rfl,
    pageFrame_bareVm hd (toNat_div_lt_recursivePage haddr)] at hframe
  cases hframe

/-- Sixteen bytes at the start of a page that is mapped: the byte behind them is lost. -/
theorem byte_behind_range_cleared : ∃ k k', Booted k ∧ k.liveProcess 2 = true ∧
    virtualAlloc 2 0x1000 0x10 k = .ok () k' ∧
    k.vm.translate (k.dirOf 2) 0x1010 = some 0x2010 ∧ ¬Spans 0x1000 0x10 0x1010 ∧
    k.vm.ram 0x2010 = 0xAA ∧ k'.vm.ram 0x2010 = 0 := by
  have hany : (runPages (fun _ => 0xAA) [0x2000] []).any (fun k =>
      decide (k.liveProcess 2 = true ∧ valueOf (virtualAlloc 2 0x1000 0x10 k) = some () ∧
        k.vm.translate (k.dirOf 2) 0x1010 = some 0x2010 ∧ k.vm.ram 0x2010 = 0xAA ∧
        (final (virtualAlloc 2 0x1000 0x10 k)).vm.ram 0x2010 = 0)) = true := by decide +kernel
  obtain ⟨k, _, hboot, hrun, hk⟩ := exists_run_of_any hany
  cases hrun
  obtain ⟨hlive, hcall, htranslate, hbefore, hafter⟩ := of_decide_eq_true hk
  exact ⟨k, _, hboot, hlive, eq_ok_of_valueOf hcall, htranslate, by unfold Spans; decide, hbefore,
    hafter⟩

end Horizon
