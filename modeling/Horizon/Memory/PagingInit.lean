import Horizon.Memory.Allocation

/-!
# Horizon — the kernel's page directory (`paging_init`)

`paging_init` makes the directory of the kernel, allocates all page tables of the kernel's half, so
that later directories can share them, and maps low memory and the kernel. It does not clear the
tables. They keep the entries that the blocks happen to hold, and `paging_map` leaves an entry that
is present alone.
-/

namespace Horizon

open StateError Vm

/-- `KERNEL_VIRT_ADDR`. -/
def kernelVirtAddr : Word := 0xC0100000

/-- `KERNEL_PHYS_ADDR`. -/
def kernelPhysAddr : Word := 0x100000

/-- `paging_dir_create`, while there is no kernel directory to copy from. -/
def firstDirCreate : VmM Frame := do
  let dir ← physicalAlloc
  modify fun vm => vm.setPage dir fun i =>
    if i = recursiveIndex then { present := true, writable := true, frame := dir } else {}
  return dir

/-- Allocate all page tables from `KERNEL_VIRT_BASE` on besides the last, which is the recursive
mapping. -/
def kernelTablesAlloc (dir : Frame) : VmM Unit :=
  (List.range 255).forM fun n => do
    let tbl ← physicalAlloc
    modify fun vm => vm.setEntry dir (dirIndex kernelVirtBase + BitVec.ofNat 10 n)
      { present := true, writable := true, frame := tbl }

/-- `while (virt < finish)`: map a page and go on to the next. -/
def mapUpTo (dir : Frame) (finish virt phys : Word) : VmM Unit :=
  pageLoop (fun virt phys => do let _ ← pagingMap dir virt (entryFrame phys) { write := true })
    finish pageFuel virt phys

/-- Create the main kernel page directory and map important regions to it. `idmapEnd` is the address
that `region_idmap_end_get` returns. -/
def pagingInit (idmapEnd : Word) : VmM Unit := do
  let dir ← firstDirCreate
  modify fun vm => { vm with kernelDir := dir }
  kernelTablesAlloc dir
  -- Low memory goes into the space before the kernel.
  mapUpTo dir kernelVirtAddr kernelVirtBase 0
  mapUpTo dir idmapEnd kernelVirtAddr kernelPhysAddr
  modify fun vm => { vm with cr3 := dir }

variable {vm vm' v v' : Vm} {d f t : Frame} {finish : Word} {m n : ℕ}

/-! ## The tables -/

/-- What the block for the table of a page holds before it is handed out. The directory is the first
block that is taken. -/
def Vm.leftover (vm : Vm) (n : ℕ) : Option Frame :=
  (vm.nthBlock (n / 1024 - 768 + 1)).bind fun t => (vm.pages t (tblIndex (pageNo n))).target

/-- The directory after some tables have been allocated. -/
structure Vm.TablesState (vm : Vm) (d : Frame) (n : ℕ) (v : Vm) : Prop where
  intact : v.Intact d
  kernelDir : v.kernelDir = d
  supplies : ∀ m, v.supplies m = vm.supplies (n + 1 + m)
  nthBlock : ∀ m, v.nthBlock m = vm.nthBlock (n + 1 + m)
  linked : ∀ m < n, (vm.nthBlock (m + 1)).isSome = true
  pages : ∀ f, f ≠ d → v.pages f = vm.pages f
  entries : ∀ i ∈ ownIndices, (v.pages d i).target =
    if 768 ≤ i.toNat ∧ i.toNat < 768 + n then vm.nthBlock (i.toNat - 768 + 1) else none

theorem firstDirCreate_state (hsized : vm.blockCount ≤ 2 ^ 20)
    (h : firstDirCreate vm = .ok d vm') : vm.TablesState d 0 { vm' with kernelDir := d } := by
  simp only [firstDirCreate, bind_eq_ok, modify_eq_ok, pure_eq_ok] at h
  obtain ⟨f, vm₁, halloc, _, _, rfl, rfl, rfl⟩ := h
  obtain ⟨htook, hfree, hnotFree, hpages⟩ := physicalAlloc_took hsized halloc
  have hempty : ∀ i ∈ ownIndices, ((vm₁.setPage f fun i =>
      if i = recursiveIndex then { present := true, writable := true, frame := f }
      else {}).pages f i).target = none := by
    intro i hi
    rw [Vm.setPage]
    simp only [Function.update_self, if_neg hi]
    rfl
  refine ⟨⟨⟨?_, ?_⟩, fun g hg => ?_, htook.blockCount.le.trans hsized⟩, rfl, htook.supplies,
    htook.nthBlock, fun m hm => absurd hm (Nat.not_lt_zero m), fun g hg => ?_, fun i hi => ?_⟩
  · rintro _ i t rfl hi ht
    cases (hempty i hi).symm.trans ht
  · rintro _ _ i i' t rfl rfl hi hi' ht ht'
    cases (hempty i hi).symm.trans ht
  · rcases hg with rfl | ⟨_, rfl, i, hi, ht⟩
    · exact hnotFree
    · cases (hempty i hi).symm.trans ht
  · show (vm₁.setPage f _).pages g = vm.pages g
    rw [Window.pages_setPage_of_ne hg, hpages]
  · rw [if_neg (by omega)]
    exact hempty i hi

theorem toNat_kernelIndex (hn : n < 255) :
    (dirIndex kernelVirtBase + BitVec.ofNat 10 n).toNat = 768 + n := by
  have htop : (dirIndex kernelVirtBase).toNat = 768 := by decide
  rw [BitVec.toNat_add, BitVec.toNat_ofNat, htop]
  omega

/-- The entry of a table. -/
def tableEntry (t : Frame) : PageEntry := { present := true, writable := true, frame := t }

theorem Vm.TablesState.succ (h : vm.TablesState d n v) (hn : n < 255) {v₁ : Vm}
    (halloc : physicalAlloc v = .ok t v₁) : vm.TablesState d (n + 1)
      (v₁.setEntry d (dirIndex kernelVirtBase + BitVec.ofNat 10 n) (tableEntry t)) := by
  obtain ⟨htook, -, hnotFree, hpages⟩ := physicalAlloc_took h.intact.sized halloc
  have hnew : ¬v₁.UsedOn ownIndices {d} t := by
    rw [Vm.UsedOn, hpages]
    exact h.intact.fresh t ⟨v₁, halloc⟩
  have hintact₁ := h.intact.congr hpages htook.free htook.blockCount
  have htarget : (tableEntry t).target = some t := rfl
  have hnext : vm.nthBlock (n + 1) = some t := (h.nthBlock 0).symm.trans (nthBlock_zero halloc)
  refine ⟨⟨TwoLevel.apart_link_table hnew htarget hintact₁.apart, fun g hg => ?_, hintact₁.sized⟩,
    htook.kernelDir.trans h.kernelDir, fun m => ?_, fun m => ?_, fun m hm => ?_, fun g hg => ?_,
    fun i hi => ?_⟩
  · rcases TwoLevel.inUse_link_table hnew htarget hg with rfl | hused
    · exact hnotFree
    · exact hintact₁.held g hused
  · show v₁.supplies m = _
    rw [htook.supplies, h.supplies, ← Nat.add_assoc]
  · show v₁.nthBlock m = _
    rw [htook.nthBlock, h.nthBlock, ← Nat.add_assoc]
  · rcases Nat.lt_succ_iff_lt_or_eq.mp hm with hm | rfl
    · exact h.linked m hm
    · rw [hnext]
      rfl
  · rw [Vm.pages_setEntry_of_ne hg, hpages]
    exact h.pages g hg
  · refine (TwoLevel.target_link_table hnew htarget (Set.mem_singleton d)).trans ?_
    have hindex := toNat_kernelIndex hn
    simp only [true_and, ← BitVec.toNat_inj, hindex]
    split
    · next heq => rw [if_pos (by omega), heq, Nat.add_sub_cancel_left, hnext]
    · next hne =>
      rw [hpages, h.entries i hi]
      have hiff : (768 ≤ i.toNat ∧ i.toNat < 768 + n) ↔
          (768 ≤ i.toNat ∧ i.toNat < 768 + (n + 1)) := by omega
      simp only [hiff]

theorem kernelTablesAlloc_state (h : vm.TablesState d 0 v)
    (hrun : kernelTablesAlloc d v = .ok () v') : vm.TablesState d 255 v' := by
  refine forM_range_partial (I := fun n v => vm.TablesState d n v)
    (fun n hn v v' hstate hround => ?_) hrun h
  simp only [bind_eq_ok, modify_eq_ok] at hround
  obtain ⟨t, v₁, halloc, rfl⟩ := hround
  exact hstate.succ hn halloc

theorem kernelTablesAlloc_of_supplies (h : vm.TablesState d 0 v)
    (hsupplies : vm.supplies 256 = true) :
    ∃ v', kernelTablesAlloc d v = .ok () v' ∧ vm.TablesState d 255 v' := by
  refine forM_range_total (I := fun n v => vm.TablesState d n v) (fun n hn v hstate => ?_) h
  have hone : v.supplies 1 = true := by
    rw [hstate.supplies]
    exact Bmstack.supplies_mono hsupplies (by omega)
  obtain ⟨t, v₁, halloc⟩ := physicalAlloc_of_supplies hone
  refine ⟨_, ?_, hstate.succ hn halloc⟩
  rw [bind_apply_of_ok halloc]
  rfl

/-! ## The mappings -/

/-- The kernel's half after the pages before page `n` have been mapped. -/
structure Vm.KernelState (vm : Vm) (d : Frame) (n : ℕ) (v : Vm) : Prop where
  intact : v.Intact d
  kernelDir : v.kernelDir = d
  tables : ∀ m, 0xC0000 ≤ m → m < recursivePage →
    (v.pages d (dirIndex (pageNo m))).target.isSome = true
  frames : ∀ m, 0xC0000 ≤ m → m < recursivePage → v.pageFrame d m =
    (vm.leftover m).or (if m < n then some (BitVec.ofNat 20 (m - 0xC0000)) else none)

theorem Vm.TablesState.kernelState (h : vm.TablesState d 255 v) : vm.KernelState d 0xC0000 v := by
  have hentry : ∀ m, 0xC0000 ≤ m → m < recursivePage →
      (v.pages d (dirIndex (pageNo m))).target = vm.nthBlock (m / 1024 - 768 + 1) := by
    intro m hle hlt
    rw [h.entries _ (dirIndex_pageNo_mem hlt)]
    unfold recursivePage at hlt
    rw [toNat_dirIndex_pageNo (by omega), if_pos (by omega)]
  refine ⟨h.intact, h.kernelDir, fun m hle hlt => ?_, fun m hle hlt => ?_⟩
  · rw [hentry m hle hlt]
    unfold recursivePage at hlt
    exact h.linked _ (by omega)
  · rw [pageFrame_eq_lookup, Vm.lookup, TwoLevel.lookup, hentry m hle hlt,
      if_neg (Nat.not_lt.mpr hle), Option.or_none, leftover]
    cases hblock : vm.nthBlock (m / 1024 - 768 + 1) with
    | none => rfl
    | some t =>
      have hne : t ≠ d := h.intact.apart.notMem (Set.mem_singleton d)
        (dirIndex_pageNo_mem hlt) ((hentry m hle hlt).trans hblock)
      rw [Option.bind_some, Option.bind_some, h.pages t hne]

theorem Vm.KernelState.succ {done : Bool} (h : vm.KernelState d n v) (hle : 0xC0000 ≤ n)
    (hlt : n < recursivePage)
    (hrun : pagingMap d (pageNo n) (BitVec.ofNat 20 (n - 0xC0000)) { write := true } v =
      .ok done v') : vm.KernelState d (n + 1) v' := by
  have hi := dirIndex_pageNo_mem hlt
  obtain ⟨hintact, htook, htables⟩ := pagingMap_intact h.intact hi rfl hrun
  have hlookup := (pagingMap_lookup h.intact.apart h.intact.fresh rfl hi rfl hrun).2.2 d rfl
  refine ⟨hintact, htook.kernelDir.trans h.kernelDir, fun m hle' hlt' => ?_,
    fun m hle' hlt' => ?_⟩
  · rw [htables _ (dirIndex_pageNo_mem hlt'), h.tables m hle' hlt', Bool.true_or]
  · rw [pageFrame_eq_lookup, hlookup _ (dirIndex_pageNo_mem hlt')]
    simp only [true_and, pageNo_indices hlt hlt', ← pageFrame_eq_lookup]
    rw [h.frames m hle' hlt']
    split
    · next heq =>
      subst heq
      rw [if_neg (Nat.lt_irrefl m), if_pos m.lt_succ_self, Option.or_none]
    · next hne =>
      have hiff : m < n ↔ m < n + 1 := by omega
      simp only [hiff]

theorem Vm.KernelState.pagingMap_returns (h : vm.KernelState d n v) (hle : 0xC0000 ≤ n)
    (hlt : n < recursivePage) :
    ∃ done v', pagingMap d (pageNo n) f { write := true } v = .ok done v' :=
  pagingMap_of_supplies (Or.inl (h.tables n hle hlt))

theorem entryFrame_pageNo (hn : n < 2 ^ 20) : entryFrame (pageNo n) = BitVec.ofNat 20 n := by
  apply BitVec.eq_of_toNat_eq
  rw [entryFrame, BitVec.toNat_setWidth, BitVec.toNat_ushiftRight, toNat_pageNo hn,
    Nat.shiftRight_eq_div_pow, BitVec.toNat_ofNat]
  omega

theorem mapUpTo_state (h : vm.KernelState d n v) (hle : 0xC0000 ≤ n)
    (hstart : 4096 * n ≤ finish.toNat) (hend : finish.toNat ≤ 0xFFC00000) :
    ∃ v', mapUpTo d finish (pageNo n) (pageNo (n - 0xC0000)) v = .ok () v' ∧
      vm.KernelState d ((finish.toNat + 4095) / 4096) v' := by
  have hlast : finish ≤ lastPage := BitVec.le_def.mpr (hend.trans (by decide))
  have hcount : n + pageCount (pageNo n) finish = (finish.toNat + 4095) / 4096 := by
    rw [pageCount, toNat_pageNo (by omega)]
    omega
  have hround : ∀ r < pageCount (pageNo n) finish, n + r < recursivePage := by
    intro r hr
    unfold recursivePage
    omega
  rw [mapUpTo, pageLoop_eq_forM hlast (pageCount_lt hlast), ← hcount]
  refine forM_range_total (I := fun r v => vm.KernelState d (n + r) v)
    (fun r hr v hv => ?_) h
  have hlt := hround r hr
  have hframe : entryFrame (pageNo (n - 0xC0000 + r)) = BitVec.ofNat 20 (n + r - 0xC0000) := by
    unfold recursivePage at hlt
    have hsub : n - 0xC0000 + r = n + r - 0xC0000 := by omega
    rw [entryFrame_pageNo (by omega), hsub]
  rw [pageAt_pageNo, pageAt_pageNo, hframe]
  obtain ⟨done, v', hmap⟩ :=
    hv.pagingMap_returns (f := BitVec.ofNat 20 (n + r - 0xC0000)) (by omega) hlt
  refine ⟨v', ?_, hv.succ (by omega) hlt hmap⟩
  rw [bind_apply_of_ok hmap]
  rfl

/-! ## The whole function -/

theorem mapLow_state (h : vm.KernelState d 0xC0000 v) :
    ∃ v', mapUpTo d kernelVirtAddr kernelVirtBase 0 v = .ok () v' ∧ vm.KernelState d 0xC0100 v' :=
  mapUpTo_state h le_rfl (by decide) (by decide)

theorem mapKernel_state {idmapEnd : Word} (h : vm.KernelState d 0xC0100 v)
    (hstart : 0xC0100000 ≤ idmapEnd.toNat) (hend : idmapEnd.toNat ≤ 0xFFC00000) :
    ∃ v', mapUpTo d idmapEnd kernelVirtAddr kernelPhysAddr v = .ok () v' ∧
      vm.KernelState d ((idmapEnd.toNat + 4095) / 4096) v' :=
  mapUpTo_state h (by decide) hstart hend

section Init

variable {idmapEnd : Word} (hsized : vm.blockCount ≤ 2 ^ 20)
  (hstart : 0xC0100000 ≤ idmapEnd.toNat) (hend : idmapEnd.toNat ≤ 0xFFC00000)

include hsized hstart hend

/-- A page of the kernel's half shows what its table held before, or else the frame at its distance
from `KERNEL_VIRT_BASE`, if the page begins before the end. -/
theorem pagingInit_state (h : pagingInit idmapEnd vm = .ok () vm') :
    vm.supplies 256 = true ∧ ∀ n, 0xC0000 ≤ n → n < recursivePage →
      vm'.pageFrame vm'.kernelDir n = (vm.leftover n).or
        (if 4096 * n < idmapEnd.toNat then some (BitVec.ofNat 20 (n - 0xC0000)) else none) := by
  simp only [pagingInit, bind_eq_ok, modify_eq_ok] at h
  obtain ⟨d, v₀, hcreate, _, _, rfl, _, v₁, htables, _, v₂, hlow, _, v₃, hkernel, rfl⟩ := h
  have hstate₁ := kernelTablesAlloc_state (firstDirCreate_state hsized hcreate) htables
  obtain ⟨w, hw, hstate₂⟩ := mapLow_state hstate₁.kernelState
  cases hlow.symm.trans hw
  obtain ⟨w, hw, hstate₃⟩ := mapKernel_state hstate₂ hstart hend
  cases hkernel.symm.trans hw
  refine ⟨(hstate₁.supplies 0).symm, fun n hle hlt => ?_⟩
  have hiff : n < (idmapEnd.toNat + 4095) / 4096 ↔ 4096 * n < idmapEnd.toNat := by omega
  have hframe := hstate₃.frames n hle hlt
  simp only [hiff] at hframe
  rw [← hframe]
  show v₃.pageFrame v₃.kernelDir n = v₃.pageFrame d n
  rw [hstate₃.kernelDir]

theorem pagingInit_of_supplies (hsupplies : vm.supplies 256 = true) :
    ∃ vm', pagingInit idmapEnd vm = .ok () vm' := by
  obtain ⟨d, v, halloc⟩ := physicalAlloc_of_supplies
    (Bmstack.supplies_mono hsupplies (show 1 ≤ 256 by decide))
  obtain ⟨v₀, hcreate⟩ : ∃ v₀, firstDirCreate vm = .ok d v₀ := by
    rw [firstDirCreate, bind_apply_of_ok halloc]
    exact ⟨_, rfl⟩
  obtain ⟨v₁, htables, hstate₁⟩ :=
    kernelTablesAlloc_of_supplies (firstDirCreate_state hsized hcreate) hsupplies
  obtain ⟨v₂, hlow, hstate₂⟩ := mapLow_state hstate₁.kernelState
  obtain ⟨v₃, hkernel, -⟩ := mapKernel_state hstate₂ hstart hend
  rw [pagingInit, bind_apply_of_ok hcreate, modify_bind_apply, bind_apply_of_ok htables,
    bind_apply_of_ok hlow, bind_apply_of_ok hkernel]
  exact ⟨_, rfl⟩

end Init

end Horizon
