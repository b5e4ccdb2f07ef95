import Horizon.Memory.PagingInit
import Horizon.System.Mapping

/-!
# Horizon — what `paging_init` maps

After `paging_init` the kernel expects its half of the address space to be mapped up to the address
where the identity-mapped regions end, and to be free from there to the recursive mapping
(`Vm.KernelMapped`). The page tables are blocks from the allocator, and nobody clears them. The
expectation is met exactly if what they held before happens to agree with it.
-/

namespace Horizon

open StateError Vm

variable {vm vm' : Vm} {idmapEnd : Word} {n : ℕ}

/-- A page of the kernel's half shows the frame at its distance from `KERNEL_VIRT_BASE`, if it
begins before the end, and is reported as not mapped otherwise. -/
def Vm.KernelMapped (vm : Vm) (idmapEnd : Word) : Prop :=
  ∀ n, 0xC0000 ≤ n → n < recursivePage →
    (4096 * n < idmapEnd.toNat → vm.pageFrame vm.kernelDir n = some (BitVec.ofNat 20 (n - 0xC0000))) ∧
    (idmapEnd.toNat ≤ 4096 * n → vm.pagingIsMapped vm.kernelDir (pageNo n) = false)

/-- The entries that are present in the blocks for the page tables are those that the pages get
anyway. -/
def Vm.LeftoverFits (vm : Vm) (idmapEnd : Word) : Prop :=
  ∀ n f, 0xC0000 ≤ n → n < recursivePage → vm.leftover n = some f →
    4096 * n < idmapEnd.toNat ∧ f = BitVec.ofNat 20 (n - 0xC0000)

theorem kernelMapped_iff (h : ∀ n, 0xC0000 ≤ n → n < recursivePage →
      vm'.pageFrame vm'.kernelDir n = (vm.leftover n).or
        (if 4096 * n < idmapEnd.toNat then some (BitVec.ofNat 20 (n - 0xC0000)) else none)) :
    vm'.KernelMapped idmapEnd ↔ vm.LeftoverFits idmapEnd := by
  constructor
  · intro hmapped n f hle hlt hold
    obtain ⟨hbefore, hafter⟩ := hmapped n hle hlt
    have hframe := h n hle hlt
    rw [hold, Option.some_or] at hframe
    by_cases hn : 4096 * n < idmapEnd.toNat
    · rw [hbefore hn, Option.some_inj] at hframe
      exact ⟨hn, hframe.symm⟩
    · have hunmapped := hafter (Nat.le_of_not_lt hn)
      rw [pagingIsMapped_pageNo, hframe] at hunmapped
      cases hunmapped
  · intro hfits n hle hlt
    have hframe := h n hle hlt
    cases hold : vm.leftover n with
    | none =>
      rw [hold, Option.none_or] at hframe
      refine ⟨fun hn => hframe.trans (if_pos hn), fun hn => ?_⟩
      rw [pagingIsMapped_pageNo, hframe, if_neg (Nat.not_lt.mpr hn)]
      rfl
    | some f =>
      obtain ⟨hn, rfl⟩ := hfits n f hle hlt hold
      rw [hold, Option.some_or] at hframe
      exact ⟨fun _ => hframe, fun hge => absurd hn (Nat.not_lt.mpr hge)⟩

/-- `paging_init` returns and leaves the kernel's half as expected exactly if there are blocks for the
directory and the tables, and the tables hold nothing else. -/
theorem pagingInit_right_iff (hsized : vm.blockCount ≤ 2 ^ 20)
    (hstart : 0xC0100000 ≤ idmapEnd.toNat) (hend : idmapEnd.toNat ≤ 0xFFC00000) :
    (∃ vm', pagingInit idmapEnd vm = .ok () vm' ∧ vm'.KernelMapped idmapEnd) ↔
      vm.supplies 256 = true ∧ vm.LeftoverFits idmapEnd := by
  constructor
  · rintro ⟨vm', hrun, hmapped⟩
    obtain ⟨hsupplies, hframes⟩ := pagingInit_state hsized hstart hend hrun
    exact ⟨hsupplies, (kernelMapped_iff hframes).mp hmapped⟩
  · rintro ⟨hsupplies, hfits⟩
    obtain ⟨vm', hrun⟩ := pagingInit_of_supplies hsized hstart hend hsupplies
    exact ⟨vm', hrun, (kernelMapped_iff (pagingInit_state hsized hstart hend hrun).2).mpr hfits⟩

/-- A machine whose memory was clear, apart from the word in the third block that is handed out. -/
def dirtyVm (e : PageEntry) : Vm :=
  { bareVm with pages := fun f i => if f = 0x1002 ∧ i = 0 then e else {} }

/-- Without that word all is well. -/
theorem clean_memory_mapped :
    ∃ vm', pagingInit 0xC0400000 (dirtyVm {}) = .ok () vm' ∧ vm'.KernelMapped 0xC0400000 := by
  refine (pagingInit_right_iff (by decide) (by decide) (by decide)).mpr
    ⟨by decide +kernel, fun n f hle hlt hold => ?_⟩
  obtain ⟨t, -, ht⟩ := Option.bind_eq_some_iff.mp hold
  have hnone : (((dirtyVm {}).pages t (tblIndex (pageNo n))).target) = none := by
    show (ite _ _ _ : PageEntry).target = none
    rw [ite_self]
    rfl
  rw [hnone] at ht
  cases ht

/-- A present entry stays, and the first page after the end of the identity mapping is mapped. -/
theorem leftover_page_mapped : ∃ vm',
    pagingInit 0xC0400000 (dirtyVm { present := true, frame := 0x77 }) = .ok () vm' ∧
    vm'.pagingIsMapped vm'.kernelDir 0xC0400000 = true ∧
    vm'.pagingMappingGet vm'.kernelDir 0xC0400000 = some 0x77 := by
  obtain ⟨vm', hrun⟩ := pagingInit_of_supplies
    (show (dirtyVm { present := true, frame := 0x77 }).blockCount ≤ 2 ^ 20 by decide)
    (show 0xC0100000 ≤ (0xC0400000 : Word).toNat by decide) (by decide) (by decide +kernel)
  have hframe := (pagingInit_state (by decide) (by decide) (by decide) hrun).2 0xC0400 (by decide)
    (by decide)
  have hold : (dirtyVm { present := true, frame := 0x77 }).leftover 0xC0400 = some 0x77 := by
    decide +kernel
  rw [hold, Option.some_or] at hframe
  refine ⟨vm', hrun, ?_, hframe⟩
  rw [pagingIsMapped_eq_isSome]
  show (vm'.pageFrame vm'.kernelDir 0xC0400).isSome = true
  rw [hframe]
  rfl

end Horizon
