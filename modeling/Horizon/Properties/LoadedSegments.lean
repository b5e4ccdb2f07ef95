import Horizon.Memory.Sharing
import Horizon.System.Loading
import Horizon.System.RegistryTrace
import Horizon.Properties.ProgramHeaders

/-!
# Horizon — the segments of a startup process

`startp_load` aligns the address and the place in the file of a segment to pages, but not its sizes:
the pages that are mapped are counted from the start of the first page, and so are the bytes that
are cleared behind the file data. A segment that begins inside of a page may lose its last page, and
bytes of its data (`SegmentFits`). The header table has to be read right in the first place.
-/

namespace Horizon

open StateError Vm

variable {k k' : Kernel} {pid : Pid} {vm vm' v v' : Vm} {d : Frame} {virt size phys start : Word}
  {n : ℕ}

/-! ## The new process -/

/-- What `startp_load` finds: the page tables of the kernel are in order, the control blocks lie
below the recursive mapping, and the PIDs of the kernel are taken. -/
structure Kernel.Ready (k : Kernel) : Prop where
  intact : k.vm.Intact k.vm.kernelDir
  room : k.vm.blocksBase.toNat + 1024 * blockDataSize.toNat ≤ 0xFFC00000
  reserved : k.Reserved

/-- A frame that is not handed out and that the kernel does not use. -/
def Kernel.SetAside (k : Kernel) (f : Frame) : Prop :=
  ¬k.vm.Free f ∧ ∀ n < recursivePage, k.vm.pageFrame k.vm.kernelDir n ≠ some f

theorem allocPage_kernelDir {flags : PagingFlags} {curr : Word} (hforce : flags.force = false)
    (h : allocPage d flags virt curr v = .ok () v') : v'.kernelDir = v.kernelDir := by
  simp only [allocPage, get_bind_apply, bind_eq_ok, runIf_eq_ok, modify_eq_ok] at h
  obtain ⟨_, v₁, ⟨-, f, v₂, halloc, done, v₃, hmap, hret⟩ | ⟨-, rfl⟩, rfl⟩ := h
  · obtain ⟨-, rfl⟩ := pure_eq_ok.mp hret
    obtain ⟨t, v₄, htable, hentry⟩ := (pagingMap_eq_ok hforce).mp hmap
    have hdir : v₄.kernelDir = v₂.kernelDir := by
      obtain ⟨-, rfl⟩ | ⟨-, v₅, halloc', rfl⟩ := tableFor_eq_ok.mp htable
      · rfl
      · exact (Window.physicalAlloc_frame halloc').2.2
    rw [← (Window.physicalAlloc_frame halloc).2.2, ← hdir]
    rcases hentry with ⟨-, -, rfl⟩ | ⟨-, -, rfl⟩
    · rfl
    · rfl
  · rfl

theorem allocLoop_kernelDir {flags : PagingFlags} (hforce : flags.force = false)
    (hend : virt.toNat + size.toNat ≤ 0xFFC00000)
    (h : allocLoop virt size d flags vm = .ok () vm') : vm'.kernelDir = vm.kernelDir := by
  rw [allocLoop_eq hend] at h
  exact forM_invariant (I := fun v => v.kernelDir = vm.kernelDir)
    (fun _ _ _ hround hv => (allocPage_kernelDir hforce hround).trans hv) h rfl

/-- Allocating memory for the kernel leaves the frames alone that are set aside. -/
theorem allocLoop_setAside {flags : PagingFlags} (hend : virt.toNat + size.toNat ≤ 0xFFC00000)
    (h : vm.AllocState d flags virt (pageCount (addrAlign virt archPgsize) (virt + size)) vm')
    (hfree : ¬vm.Free (entryFrame phys))
    (hshown : ∀ n < recursivePage, vm.pageFrame d n ≠ some (entryFrame phys)) :
    vm'.ram phys = vm.ram phys := by
  refine h.same phys ?_
  rintro ⟨m, hm, hframe, -⟩
  have hlt := ((passed_iff_overlaps hend).mp hm).lt_recursivePage hend
  cases hold : vm.pageFrame d m with
  | some g =>
    have hkept := h.kept m hlt g hold
    rw [hframe] at hkept
    exact hshown m hlt (hkept ▸ hold)
  | none =>
    obtain ⟨g, hg, -, hmade⟩ := h.made m hm hold
    rw [pageFrame_eq_lookup, hmade.lookup, Option.some_inj] at hframe
    exact hfree (hframe ▸ hg)

/-- A new directory shares the kernel's tables, and nothing is mapped for the user. -/
theorem pagingDirCreate_space (h : vm.Intact vm.kernelDir)
    (hcreate : pagingDirCreate vm = .ok d vm') :
    vm'.Intact d ∧ (∀ n < 0xC0000, vm'.pageFrame d n = none) ∧ (∀ f, vm'.Free f → vm.Free f) ∧
      vm'.ram = vm.ram := by
  obtain ⟨vm₁, es, halloc, rfl, -, hupper, hlower⟩ := pagingDirCreate_cases hcreate
  obtain ⟨htook, hfree, hheld, hpages⟩ := physicalAlloc_took h.sized halloc
  have hpage : ∀ i, (vm₁.setPage d es).pages d i = es i := by
    intro i
    show Function.update vm₁.pages d es d i = es i
    rw [Function.update_self]
  -- The tables are those of the kernel, and the directory was free.
  have htarget : ∀ {i t}, i ∈ ownIndices → ((vm₁.setPage d es).pages d i).target = some t →
      (vm.pages vm.kernelDir i).target = some t := by
    intro i t hi ht
    rw [hpage] at ht
    by_cases hlow : i < userTop
    · rw [hlower i hlow] at ht
      cases ht
    · rwa [hupper i (BitVec.not_lt.mp hlow) hi] at ht
  have hused : ∀ {i t}, i ∈ ownIndices → ((vm₁.setPage d es).pages d i).target = some t →
      ¬vm.Free t := fun hi ht => h.held _ (Or.inr ⟨_, rfl, _, hi, htarget hi ht⟩)
  refine ⟨⟨⟨?_, ?_⟩, ?_, htook.blockCount.le.trans h.sized⟩, fun n hn => ?_, htook.free, htook.ram⟩
  · rintro _ i t rfl hi ht (rfl : t = _)
    exact hused hi ht hfree
  · rintro _ _ i i' t rfl rfl hi hi' ht ht'
    exact ⟨rfl, (h.apart.inj rfl rfl hi hi' (htarget hi ht) (htarget hi' ht')).2⟩
  · rintro f (rfl | ⟨_, rfl, i, hi, ht⟩) hf
    · exact hheld hf
    · exact hused hi ht (htook.free f hf)
  · rw [pageFrame_eq_lookup, Vm.lookup, TwoLevel.lookup, hpage,
      hlower _ (dirIndex_pageNo_lt hn), Option.bind_none]

theorem processNew_vm {ppid : Pid} {entry : Word} (h : processNew ppid entry k = .ok pid k') :
    ∃ vm₁, allocLoop (k.blockAddr pid) (BitVec.ofNat 32 processSize) k.vm.kernelDir (dirFlags 0)
      k.vm = .ok () vm₁ ∧ pagingDirCreate vm₁ = .ok (k'.blocks pid).process.addrSpace k'.vm := by
  simp only [processNew, get_bind_apply, modify_bind_apply, bind_eq_ok, dassertSome,
    orThrow_eq_ok, failIf_eq_ok, pure_eq_ok, modifyProcess, liftVm_eq_ok] at h
  obtain ⟨⟨index, map⟩, _, ⟨-, rfl⟩, _, _, ⟨-, rfl⟩, _, k₁, halloc, dir, _, ⟨vm₂, hdir, rfl⟩, rfl,
    rfl⟩ := h
  obtain ⟨vm₁, hloop, rfl⟩ := (virtualAlloc_eq_ok (Or.inl rfl) (by decide)).mp halloc
  refine ⟨vm₁, hloop, ?_⟩
  rw [Kernel.blocks_setBlock, if_pos rfl]
  exact hdir

theorem Kernel.Ready.blockAddr_le (hk : k.Ready) :
    (k.blockAddr pid).toNat + (BitVec.ofNat 32 processSize).toNat ≤ 0xFFC00000 := by
  have hroom := hk.room
  have hdata : blockDataSize.toNat = 0x9000 := rfl
  have hproc : (BitVec.ofNat 32 processSize).toNat = 236 := rfl
  have hpid := pid.isLt
  have hmul : pid.toNat * 0x9000 % 2 ^ 32 = pid.toNat * 0x9000 := Nat.mod_eq_of_lt (by omega)
  rw [hproc, Kernel.blockAddr, BitVec.toNat_add, BitVec.toNat_mul, BitVec.toNat_ofNat, hdata,
    Nat.mod_eq_of_lt (by omega : pid.toNat < 2 ^ 32), hmul, Nat.mod_eq_of_lt (by omega)]
  omega

theorem processNew_space {ppid : Pid} {entry : Word} (hk : k.Ready)
    (h : processNew ppid entry k = .ok pid k') :
    k'.liveProcess pid = true ∧ k'.vm.Intact (k'.dirOf pid) ∧
      (∀ n < 0xC0000, k'.vm.pageFrame (k'.dirOf pid) n = none) ∧
      (∀ f, k'.vm.Free f → k.vm.Free f) ∧
      ∀ phys, k.SetAside (entryFrame phys) → k'.vm.ram phys = k.vm.ram phys := by
  obtain ⟨hmap, dir, hmem⟩ := processNew_exact h
  have htwo := Kernel.two_le_of_reserved hk.reserved hmap
  have hlive : k'.liveProcess pid = true := by
    rw [hmem.eq]
    exact (Kernel.liveProcess_claim htwo).trans (by simp)
  have hdirOf : k'.dirOf pid = (k'.blocks pid).process.addrSpace := by
    refine if_neg ?_
    rintro rfl
    exact absurd htwo (by decide)
  obtain ⟨vm₁, hloop, hcreate⟩ := processNew_vm h
  have hforce : (dirFlags 0).force = false := rfl
  have hstate := allocLoop_state hk.intact hforce hk.blockAddr_le hloop
  have hkernel := allocLoop_kernelDir hforce hk.blockAddr_le hloop
  obtain ⟨hintact, hempty, hfree, hram⟩ :=
    pagingDirCreate_space (hkernel.symm ▸ hstate.intact) hcreate
  rw [hdirOf]
  refine ⟨hlive, hintact, hempty, fun f hf => hstate.free f (hfree f hf), fun phys haside => ?_⟩
  rw [hram]
  exact allocLoop_setAside hk.blockAddr_le hstate haside.1 haside.2

/-! ## The sections -/

theorem virtualMap_eq_ok (hpid : pid = 0 ∨ k.liveProcess pid = true) (hsize : size ≠ 0) :
    virtualMap pid virt phys size k = .ok () k' ↔ ∃ vm',
      mapLoop virt phys size (k.dirOf pid) (dirFlags pid) k.vm = .ok () vm' ∧
        k' = { k with vm := vm' } := by
  rw [virtualMap, dassert, if_pos hsize, pure_bind, bind_apply_of_ok (getDir_eq hpid)]
  exact liftVm_eq_ok

theorem loadSection_skip {s : ElfSection} (h : s.phys = 0) : loadSection pid s k = .ok () k := by
  rw [loadSection, if_pos h]
  rfl

theorem dirOf_vm (hlive : k.liveProcess pid = true) (vm : Vm) :
    Kernel.dirOf { k with vm := vm } pid = k.dirOf pid := by
  have hne := ne_zero_of_liveProcess hlive
  rw [Kernel.dirOf, Kernel.dirOf, if_neg hne, if_neg hne]

theorem loadSection_adds {s : ElfSection} (hs : s.Fits) (hlive : k.liveProcess pid = true)
    (hintact : k.vm.Intact (k.dirOf pid))
    (hunmapped : ∀ i < s.pages, k.vm.pageFrame (k.dirOf pid) (s.first + i) = none)
    (h : loadSection pid s k = .ok () k') :
    k' = { k with vm := k'.vm } ∧ AddsSection (k.dirOf pid) s k.vm k'.vm := by
  have hforce : (dirFlags pid).force = false := rfl
  rw [loadSection, if_neg hs.phys] at h
  simp only [bind_eq_ok, dassert_eq_ok, addrAlign_eq_pageNo] at h
  obtain ⟨_, _, ⟨-, rfl⟩, _, k₁, hmap, hrest⟩ := h
  obtain ⟨v₁, hloop, rfl⟩ := (virtualMap_eq_ok (Or.inr hlive) hs.size).mp hmap
  have hfile := mapLoop_file hs hintact hforce hloop
  rcases ite_eq_ok.mp hrest with ⟨hne, halloc⟩ | ⟨heq, hret⟩
  · have hlive₁ : Kernel.liveProcess { k with vm := v₁ } pid = true := hlive
    obtain ⟨v₂, hloop', rfl⟩ := (virtualAlloc_eq_ok (Or.inr hlive₁) hne).mp halloc
    rw [dirOf_vm hlive] at hloop'
    have hsize : s.size ≠ s.reserve := fun heq => hne (by rw [heq]; exact BitVec.sub_self _)
    exact ⟨rfl, addsSection_of_alloc hs hsize hunmapped hfile hforce hloop'⟩
  · obtain ⟨-, rfl⟩ := pure_eq_ok.mp hret
    have hsize : s.size = s.reserve := by
      have hsub := congrArg BitVec.toNat (not_not.mp heq)
      have hzero : (0 : Word).toNat = 0 := rfl
      have hle := BitVec.le_def.mp hs.le
      rw [BitVec.toNat_sub_of_le hs.le, hzero] at hsub
      exact BitVec.eq_of_toNat_eq (by omega)
    exact ⟨rfl, addsSection_of_eq hsize hunmapped hfile⟩

/-! ## Modules -/

namespace Elf

section Module

variable (ram : Word → BitVec 8) (start : Word)

/-- A loadable segment of the module. -/
def Segment (i : ℕ) : Prop := i < pheaderCount ram start ∧ Loads ram start i

/-- Where the data of a segment begins in the file. -/
def fileOffset (i : ℕ) : Word := ramWord ram (pheaderAt ram start i + 4)

/-- A module as a linker makes it: the segments have data, lie below the kernel, are at the same
offset in their pages in memory and in the file, and have no page in common. -/
structure WellFormed : Prop where
  aligned : start.toNat % 4096 = 0
  count : pheaderCount ram start ≤ elfSectionMax
  size : ∀ i, Segment ram start i → (headerSection ram start i).size ≠ 0
  le : ∀ i, Segment ram start i →
    (headerSection ram start i).size ≤ (headerSection ram start i).reserve
  congr : ∀ i, Segment ram start i →
    (fileOffset ram start i).toNat % 4096 = (headerSection ram start i).virt.toNat % 4096
  below : ∀ i, Segment ram start i → (headerSection ram start i).virt.toNat +
    (headerSection ram start i).reserve.toNat ≤ kernelVirtBase.toNat
  inMemory : ∀ i, Segment ram start i → start.toNat + (fileOffset ram start i).toNat +
    (headerSection ram start i).size.toNat ≤ 2 ^ 32
  virtApart : ∀ i j, Segment ram start i → Segment ram start j → i ≠ j → ∀ n,
    Overlaps (headerSection ram start i).virt (headerSection ram start i).reserve n →
      ¬Overlaps (headerSection ram start j).virt (headerSection ram start j).reserve n
  fileApart : ∀ i j, Segment ram start i → Segment ram start j → i ≠ j → ∀ n,
    Overlaps (fileOffset ram start i) (headerSection ram start i).size n →
      ¬Overlaps (fileOffset ram start j) (headerSection ram start j).size n

/-- The frames of the file that hold segments are set aside. -/
def FramesAside (k : Kernel) : Prop :=
  ∀ i, Segment ram start i → ∀ a < (headerSection ram start i).filePages,
    k.SetAside ((headerSection ram start i).fileFrame a)

/-- The process reads every segment as the file has it, and zero behind the file data. -/
def SegmentsIn (k : Kernel) (pid : Pid) : Prop :=
  ∀ i, Segment ram start i → ∀ j < (headerSection ram start i).reserve.toNat, ∃ phys,
    k.vm.translate (k.dirOf pid) ((headerSection ram start i).virt + BitVec.ofNat 32 j) =
        some phys ∧
      k.vm.ram phys = if j < (headerSection ram start i).size.toNat then
        ram (start + fileOffset ram start i + BitVec.ofNat 32 j) else 0

/-- The condition on a segment: it is not at address zero of physical memory, its offset in the
first page does not make it reach a page more, and the file data that lies beyond the file size,
counted from the start of the page, is zero or is not cleared. -/
structure SegmentFits (i : ℕ) : Prop where
  phys : (headerSection ram start i).phys ≠ 0
  pages : ((headerSection ram start i).virt.toNat % 4096 +
      (headerSection ram start i).reserve.toNat + 4095) / 4096 ≤ (headerSection ram start i).pages
  data : (headerSection ram start i).size ≠ (headerSection ram start i).reserve →
    ∀ j < (headerSection ram start i).size.toNat,
      (headerSection ram start i).size.toNat ≤ (headerSection ram start i).virt.toNat % 4096 + j →
      ram (start + fileOffset ram start i + BitVec.ofNat 32 j) = 0

/-- The condition on a module: the loadable headers that are read are those of the table, and the
segments fit. -/
def Loadable : Prop :=
  (∃ k, StopsAt ram start k ∧
    ∀ i < elfSectionMax, Loads ram start i → (i < k ↔ i < pheaderCount ram start)) ∧
    ∀ i, Segment ram start i → SegmentFits ram start i

/-- The section that is loaded for header `i` if the loop ends after `k` rounds. -/
def loadedSection (k i : ℕ) : ElfSection := if i < k then sectionAt ram start i else noSection

/-- The segments that are loaded. -/
def reached (k : ℕ) : Set ℕ :=
  {i | Segment ram start i ∧ i < k ∧ (headerSection ram start i).phys ≠ 0}

end Module

variable {ram : Word → BitVec 8} {i j : ℕ}

theorem StopsAt.unique {m n : ℕ} (hm : StopsAt ram start m) (hn : StopsAt ram start n) : m = n := by
  rcases lt_trichotomy m n with hlt | heq | hlt
  · exact absurd hm.2.2 (hn.2.1 m hlt).1
  · exact heq
  · exact absurd hn.2.2 (hm.2.1 n hlt).1

theorem loadedSection_eq (hi : i ∈ reached ram start n) :
    loadedSection ram start n i = headerSection ram start i := by
  rw [loadedSection, if_pos hi.2.1, sectionAt, if_pos hi.1.2]

theorem overlaps_page {a : ℕ} (ha : a < (headerSection ram start i).pages) :
    Overlaps (headerSection ram start i).virt (headerSection ram start i).reserve
      ((headerSection ram start i).first + a) := by
  unfold ElfSection.pages at ha
  unfold Overlaps overlaps ElfSection.first
  omega

namespace WellFormed

variable (h : WellFormed ram start)

include h

theorem toNat_phys (hi : Segment ram start i) : (headerSection ram start i).phys.toNat =
    start.toNat + (fileOffset ram start i).toNat := by
  have hmem := h.inMemory i hi
  have hpos : (headerSection ram start i).size.toNat ≠ 0 := fun hzero =>
    h.size i hi (BitVec.eq_of_toNat_eq hzero)
  have hphys : (headerSection ram start i).phys = start + fileOffset ram start i := rfl
  rw [hphys, toNat_add_of_lt (by omega)]

theorem fits (hi : Segment ram start i) (hphys : (headerSection ram start i).phys ≠ 0) :
    (headerSection ram start i).Fits where
  phys := hphys
  size := h.size i hi
  le := h.le i hi
  below := by
    have hbelow := h.below i hi
    have hbase : kernelVirtBase.toNat = 0xC0000000 := rfl
    unfold ElfSection.first
    omega
  inMemory := by
    have hmem := h.inMemory i hi
    rw [ElfSection.base, h.toNat_phys hi, ElfSection.filePages]
    omega

theorem overlaps_file {a : ℕ} (hi : Segment ram start i)
    (ha : a < (headerSection ram start i).filePages) :
    start.toNat / 4096 ≤ (headerSection ram start i).base + a ∧
      Overlaps (fileOffset ram start i) (headerSection ram start i).size
        ((headerSection ram start i).base + a - start.toNat / 4096) := by
  have haligned := h.aligned
  unfold ElfSection.filePages at ha
  unfold Overlaps overlaps
  rw [ElfSection.base, h.toNat_phys hi]
  omega

theorem sections (k : ℕ) : Sections (loadedSection ram start k) (reached ram start k) where
  fits i hi := by
    rw [loadedSection_eq hi]
    exact h.fits hi.1 hi.2.2
  pagesApart i hi j hj hne a ha b hb heq := by
    rw [loadedSection_eq hi] at ha heq
    rw [loadedSection_eq hj] at hb heq
    have hpage := overlaps_page hb
    rw [← heq] at hpage
    exact h.virtApart i j hi.1 hj.1 hne _ (overlaps_page ha) hpage
  filesApart i hi j hj hne a ha b hb heq := by
    rw [loadedSection_eq hi] at ha heq
    rw [loadedSection_eq hj] at hb heq
    have hpage := (h.overlaps_file hj.1 hb).2
    rw [← heq] at hpage
    exact h.fileApart i j hi.1 hj.1 hne _ (h.overlaps_file hi.1 ha).2 hpage

end WellFormed

/-- The loop over the table puts the reached sections into the address space, one a round. -/
theorem forM_loading (h : WellFormed ram start) (hlive : k.liveProcess pid = true)
    (hstart : k.vm.Loading ram (k.dirOf pid) (loadedSection ram start n) (reached ram start n) 0)
    (hno : ∀ i < elfSectionMax, Loads ram start i → i < n → i < pheaderCount ram start)
    (hrun : (parsed ram start n).forM (loadSection pid) k = .ok () k') :
    k' = { k with vm := k'.vm } ∧ k'.vm.Loading ram (k.dirOf pid) (loadedSection ram start n)
      (reached ram start n) elfSectionMax := by
  have hsecs := h.sections n
  have hmap : (parsed ram start n).forM (loadSection pid) = (List.range elfSectionMax).forM
      fun i => loadSection pid (loadedSection ram start n i) := rfl
  rw [hmap] at hrun
  refine forM_range_partial (I := fun i k₁ => k₁ = { k with vm := k₁.vm } ∧ k₁.vm.Loading ram
    (k.dirOf pid) (loadedSection ram start n) (reached ram start n) i)
    (fun i hi k₁ k₂ hk₁ hround => ?_) hrun ⟨rfl, hstart⟩
  obtain ⟨heq, hloading⟩ := hk₁
  by_cases hin : i ∈ reached ram start n
  · have hfits := hsecs.fits i hin
    rw [heq] at hround
    -- The pages of different sections are apart, so these are still free.
    have hunmapped : ∀ a < (loadedSection ram start n i).pages,
        k₁.vm.pageFrame (k.dirOf pid) ((loadedSection ram start n i).first + a) = none :=
      fun a ha => hloading.unmapped _ (hfits.lt_user ha) fun j hj hlt b hb =>
        hsecs.pagesApart i hin j hj (by omega) a ha b hb
    have hdir := dirOf_vm hlive k₁.vm
    obtain ⟨hvm, hadds⟩ := loadSection_adds (k := { k with vm := k₁.vm }) hfits hlive
      (hdir ▸ hloading.intact) (hdir ▸ hunmapped) hround
    exact ⟨hvm, hloading.step hsecs hin (hdir ▸ hadds)⟩
  · -- An entry that was not filled has no frame, and the round skips it.
    have hphys : (loadedSection ram start n i).phys = 0 := by
      rw [loadedSection]
      split
      · next hlt =>
        rw [sectionAt]
        split
        · next hload =>
          by_contra hne
          exact hin ⟨⟨hno i hi hload hlt, hload⟩, hlt, hne⟩
        · rfl
      · rfl
    rw [loadSection_skip hphys] at hround
    cases hround
    exact ⟨heq, hloading.skip hin⟩

theorem liftElf_eq_ok {α : Type} {x : ElfM α} {a : α} :
    liftElf x k = .ok a k' ↔ valueOf (x 0) = some a ∧ k = k' := by
  rw [liftElf]
  cases x 0 with
  | ok b page => exact pure_eq_ok.trans (and_congr_left fun _ => Option.some_inj.symm)
  | error e page => exact throw_eq_ok.trans ⟨False.elim, fun h => nomatch h.1⟩

theorem startpLoad_eq_ok (hvalid : valueOf (elfModuleValidate k.vm.ram start 0) = some true)
    (hload : startpLoad start k = .ok pid k') : ∃ n entry k₁, StopsAt k.vm.ram start n ∧
      processNew 0 entry k = .ok pid k₁ ∧
      (parsed k.vm.ram start n).forM (loadSection pid) k₁ = .ok () k' := by
  rw [startpLoad, get_bind_apply] at hload
  obtain ⟨valid, _, hvalidate, hload⟩ := bind_eq_ok.mp hload
  rw [liftElf_eq_ok, hvalid] at hvalidate
  obtain ⟨hvalidate, rfl⟩ := hvalidate
  obtain rfl := Option.some.inj hvalidate
  rw [if_neg (by decide)] at hload
  obtain ⟨binary, _, hparse, hload⟩ := bind_eq_ok.mp hload
  rw [liftElf_eq_ok] at hparse
  obtain ⟨hparse, rfl⟩ := hparse
  obtain ⟨-, n, hstops, hsections⟩ :=
    exists_stop_of_parse (eq_ok_of_valueOf hvalid) (eq_ok_of_valueOf hparse)
  obtain ⟨pid', k₁, hnew, hload⟩ := bind_eq_ok.mp hload
  obtain ⟨_, k₂, hsecs, hret⟩ := bind_eq_ok.mp hload
  obtain ⟨rfl, rfl⟩ := pure_eq_ok.mp hret
  exact ⟨n, _, k₁, hstops, hnew, hsections ▸ hsecs⟩

/-- What `startp_load` leaves behind, if nothing behind the table is taken for a header. -/
theorem startpLoad_loading (hk : k.Ready)
    (hvalid : valueOf (elfModuleValidate k.vm.ram start 0) = some true)
    (hmodule : WellFormed k.vm.ram start) (haside : FramesAside k.vm.ram start k)
    (hload : startpLoad start k = .ok pid k') : ∃ n, StopsAt k.vm.ram start n ∧
      ((∀ i < elfSectionMax, Loads k.vm.ram start i → i < n → i < pheaderCount k.vm.ram start) →
        k'.vm.Loading k.vm.ram (k'.dirOf pid) (loadedSection k.vm.ram start n)
          (reached k.vm.ram start n) elfSectionMax) := by
  obtain ⟨n, entry, k₁, hstops, hnew, hrun⟩ := startpLoad_eq_ok hvalid hload
  obtain ⟨hlive, hintact, hempty, hfree, hram⟩ := processNew_space hk hnew
  refine ⟨n, hstops, fun hno => ?_⟩
  have hstart : k₁.vm.Loading k.vm.ram (k₁.dirOf pid) (loadedSection k.vm.ram start n)
      (reached k.vm.ram start n) 0 := by
    refine ⟨hintact, fun i hi a ha hf => ?_, fun i _ hlt => absurd hlt i.not_lt_zero,
      fun i hi _ a ha phys hphys => ?_, fun m hm _ => hempty m hm⟩
    · rw [loadedSection_eq hi] at ha hf
      exact (haside i hi.1 a ha).1 (hfree _ hf)
    · rw [loadedSection_eq hi] at ha hphys
      exact hram phys (hphys ▸ haside i hi.1 a ha)
  obtain ⟨heq, hloading⟩ := forM_loading hmodule hlive hstart hno hrun
  rw [heq, dirOf_vm hlive]
  exact hloading

/-! ## Bytes -/

section Bytes

variable (h : WellFormed ram start) (hi : Segment ram start i)

include h hi

theorem virt_add (hj : j < (headerSection ram start i).reserve.toNat) :
    (headerSection ram start i).virt + BitVec.ofNat 32 j =
      pageNo (headerSection ram start i).first +
        BitVec.ofNat 32 ((headerSection ram start i).virt.toNat % 4096 + j) := by
  have hbelow := h.below i hi
  have hbase : kernelVirtBase.toNat = 0xC0000000 := rfl
  apply BitVec.eq_of_toNat_eq
  rw [BitVec.toNat_add, BitVec.toNat_ofNat, BitVec.toNat_add, BitVec.toNat_ofNat, ElfSection.first,
    toNat_pageNo (by omega)]
  omega

theorem phys_add : start + fileOffset ram start i + BitVec.ofNat 32 j =
    pageNo (headerSection ram start i).base +
      BitVec.ofNat 32 ((headerSection ram start i).virt.toNat % 4096 + j) := by
  have haligned := h.aligned
  have hcongr := h.congr i hi
  have hphys := h.toNat_phys hi
  have hlt := (headerSection ram start i).phys.isLt
  have hsum : start + fileOffset ram start i = (headerSection ram start i).phys := rfl
  apply BitVec.eq_of_toNat_eq
  rw [hsum, BitVec.toNat_add, BitVec.toNat_ofNat, BitVec.toNat_add, BitVec.toNat_ofNat,
    ElfSection.base, toNat_pageNo (by omega)]
  omega

end Bytes

theorem byte_of_loading (h : WellFormed ram start)
    (hloading : vm.Loading ram d (loadedSection ram start n) (reached ram start n) elfSectionMax)
    (hi : i ∈ reached ram start n) (hj : j < (headerSection ram start i).reserve.toNat)
    (hpage : (headerSection ram start i).virt.toNat % 4096 + j <
      4096 * (headerSection ram start i).pages) : ∃ phys,
      vm.translate d ((headerSection ram start i).virt + BitVec.ofNat 32 j) = some phys ∧
        vm.ram phys = if (headerSection ram start i).size ≠ (headerSection ram start i).reserve ∧
            (headerSection ram start i).size.toNat ≤
              (headerSection ram start i).virt.toNat % 4096 + j then 0
          else ram (start + fileOffset ram start i + BitVec.ofNat 32 j) := by
  have hplaced := hloading.placed i hi (hi.1.1.trans_le h.count)
  rw [Vm.Placed, loadedSection_eq hi] at hplaced
  obtain ⟨phys, hphys, hram, -⟩ := hplaced _ hpage
  rw [virt_add h hi.1 hj, phys_add h hi.1]
  exact ⟨phys, hphys, hram⟩

/-- A page of a segment that is not mapped by the loader. -/
theorem unmapped_of_loading (h : WellFormed ram start)
    (hloading : vm.Loading ram d (loadedSection ram start n) (reached ram start n) elfSectionMax)
    (hi : Segment ram start i) (hj : j < (headerSection ram start i).reserve.toNat)
    (hout : i ∈ reached ram start n → 4096 * (headerSection ram start i).pages ≤
      (headerSection ram start i).virt.toNat % 4096 + j) :
    vm.translate d ((headerSection ram start i).virt + BitVec.ofNat 32 j) = none := by
  have hbelow := h.below i hi
  have hbase : kernelVirtBase.toNat = 0xC0000000 := rfl
  have hnum : ((headerSection ram start i).virt + BitVec.ofNat 32 j).toNat =
      (headerSection ram start i).virt.toNat + j := by
    rw [BitVec.toNat_add, BitVec.toNat_ofNat]
    omega
  rw [Vm.translate, pagingMappingGet_addr, hloading.unmapped _ (by omega), Option.map_none]
  intro m hm _ a ha heq
  rw [loadedSection_eq hm] at ha heq
  by_cases him : i = m
  · subst him
    have hge := hout hm
    unfold ElfSection.first at heq
    omega
  · refine h.virtApart i m hi hm.1 him _ ?_ (heq ▸ overlaps_page ha)
    unfold Overlaps overlaps
    omega

/-- `startp_load` makes a process that reads its segments as the file has them if the module meets
the condition, and only then if no header behind the table can be taken for one of it. -/
theorem startpLoad_right_iff (hk : k.Ready)
    (hvalid : valueOf (elfModuleValidate k.vm.ram start 0) = some true)
    (hmodule : WellFormed k.vm.ram start) (haside : FramesAside k.vm.ram start k)
    (hload : startpLoad start k = .ok pid k') :
    (Loadable k.vm.ram start → SegmentsIn k.vm.ram start k' pid) ∧
      ((∀ i < elfSectionMax, pheaderCount k.vm.ram start ≤ i → ¬Loads k.vm.ram start i) →
        SegmentsIn k.vm.ram start k' pid → Loadable k.vm.ram start) := by
  obtain ⟨n, hstops, hloading⟩ := startpLoad_loading hk hvalid hmodule haside hload
  refine ⟨?_, fun hclean hin => ?_⟩
  · rintro ⟨⟨m, hm, hsame⟩, hfits⟩ i hi j hj
    obtain rfl := hm.unique hstops
    have hreached : i ∈ reached k.vm.ram start m :=
      ⟨hi, (hsame i (hi.1.trans_le hmodule.count) hi.2).mpr hi.1, (hfits i hi).phys⟩
    have hpage : (headerSection k.vm.ram start i).virt.toNat % 4096 + j <
        4096 * (headerSection k.vm.ram start i).pages := by
      have hpages := (hfits i hi).pages
      omega
    obtain ⟨phys, hphys, hram⟩ := byte_of_loading hmodule
      (hloading fun i hi hl => (hsame i hi hl).mp) hreached hj hpage
    refine ⟨phys, hphys, hram.trans ?_⟩
    by_cases hfile : j < (headerSection k.vm.ram start i).size.toNat
    · rw [if_pos hfile]
      split
      · next hzero => exact ((hfits i hi).data hzero.1 j hfile hzero.2).symm
      · rfl
    · -- Behind the file data there is more reserved, and it is cleared.
      have hne : (headerSection k.vm.ram start i).size ≠ (headerSection k.vm.ram start i).reserve :=
        fun heq => hfile (heq ▸ hj)
      rw [if_neg hfile, if_pos ⟨hne, by omega⟩]
  · -- A byte that is read is mapped, so its header was reached and its page is one of the copied.
    have hno : ∀ i < elfSectionMax, Loads k.vm.ram start i → i < n →
        i < pheaderCount k.vm.ram start := fun i hi hl _ =>
      Nat.lt_of_not_le fun hle => hclean i hi hle hl
    have hstate := hloading hno
    have hmapped : ∀ i, Segment k.vm.ram start i →
        ∀ j < (headerSection k.vm.ram start i).reserve.toNat,
          ¬(i ∈ reached k.vm.ram start n → 4096 * (headerSection k.vm.ram start i).pages ≤
            (headerSection k.vm.ram start i).virt.toNat % 4096 + j) := by
      intro i hi j hj hout
      obtain ⟨phys, hphys, -⟩ := hin i hi j hj
      rw [unmapped_of_loading hmodule hstate hi hj hout] at hphys
      cases hphys
    -- Every segment has a first byte, which is enough to have reached it.
    have hpos : ∀ i, Segment k.vm.ram start i →
        0 < (headerSection k.vm.ram start i).reserve.toNat := by
      intro i hi
      have hle := BitVec.le_def.mp (hmodule.le i hi)
      have hne : (headerSection k.vm.ram start i).size.toNat ≠ 0 := fun hzero =>
        hmodule.size i hi (BitVec.eq_of_toNat_eq hzero)
      omega
    have hreached : ∀ i, Segment k.vm.ram start i → i ∈ reached k.vm.ram start n := fun i hi =>
      (Classical.not_imp.mp (hmapped i hi 0 (hpos i hi))).1
    have hpage : ∀ i, Segment k.vm.ram start i →
        ∀ j < (headerSection k.vm.ram start i).reserve.toNat,
          (headerSection k.vm.ram start i).virt.toNat % 4096 + j <
            4096 * (headerSection k.vm.ram start i).pages := fun i hi j hj =>
      Nat.lt_of_not_le (Classical.not_imp.mp (hmapped i hi j hj)).2
    refine ⟨⟨n, hstops, fun i hi hl => ⟨hno i hi hl, fun hlt => (hreached i ⟨hlt, hl⟩).2.1⟩⟩,
      fun i hi => ⟨(hreached i hi).2.2, ?_, fun hne j hj hle => ?_⟩⟩
    · have hlast := hpage i hi ((headerSection k.vm.ram start i).reserve.toNat - 1)
        (Nat.sub_lt (hpos i hi) Nat.one_pos)
      have hreserve := hpos i hi
      omega
    · have hj' := hj.trans_le (BitVec.le_def.mp (hmodule.le i hi))
      obtain ⟨phys, hphys, hram⟩ := byte_of_loading hmodule hstate (hreached i hi) hj'
        (hpage i hi j hj')
      obtain ⟨phys', hphys', hread⟩ := hin i hi j hj'
      obtain rfl := Option.some.inj (hphys.symm.trans hphys')
      rw [hram, if_pos ⟨hne, hle⟩, if_pos hj] at hread
      exact hread.symm

/-! ## A module with one segment -/

theorem WellFormed.of_one (hcount : pheaderCount ram start = 1) (haligned : start.toNat % 4096 = 0)
    (hsize : (headerSection ram start 0).size ≠ 0 ∧
      (headerSection ram start 0).size ≤ (headerSection ram start 0).reserve)
    (hcongr : (fileOffset ram start 0).toNat % 4096 =
      (headerSection ram start 0).virt.toNat % 4096)
    (hbelow : (headerSection ram start 0).virt.toNat +
      (headerSection ram start 0).reserve.toNat ≤ kernelVirtBase.toNat)
    (hmem : start.toNat + (fileOffset ram start 0).toNat +
      (headerSection ram start 0).size.toNat ≤ 2 ^ 32) : WellFormed ram start := by
  have hone : ∀ {i}, Segment ram start i → i = 0 := fun hi => by
    have hlt := hi.1
    omega
  refine ⟨haligned, hcount.le.trans (by decide), ?_, ?_, ?_, ?_, ?_, ?_, ?_⟩
  · intro i hi
    exact hone hi ▸ hsize.1
  · intro i hi
    exact hone hi ▸ hsize.2
  · intro i hi
    exact hone hi ▸ hcongr
  · intro i hi
    exact hone hi ▸ hbelow
  · intro i hi
    exact hone hi ▸ hmem
  · intro i j hi hj hne
    exact absurd ((hone hi).trans (hone hj).symm) hne
  · intro i j hi hj hne
    exact absurd ((hone hi).trans (hone hj).symm) hne

/-- A module at 2 MB with sixteen bytes of data at `offset`, where the segment begins, and as many
that are reserved behind them. -/
def dataModule (offset : Word) : Word → BitVec 8 := fun addr =>
  if 0x200000 + offset ≤ addr ∧ addr < 0x200010 + offset then 0xAA
  else wordsAt 0x200000 (moduleWords 1 52 0
    [1, offset, 0x8000000 + offset % 0x1000, 0, 0x10, 0x20, 6, 0x1000]) addr

/-- The machine without user memory, with a module. -/
def moduleKernel (offset : Word) : Kernel :=
  { bareKernel with vm := { bareVm with ram := dataModule offset } }

theorem bareVm_intact : bareVm.Intact 0x400 := by
  have hdir : (0x400 : Frame) ∈ [0x400, 0x401, 0x402] := by decide
  have htarget : ∀ {i t}, i ∈ ownIndices → (bareVm.pages 0x400 i).target = some t →
      Use.kernelTable i = bareUse t ∧ t ∉ [0x400, 0x401, (0x402 : Frame)] ∧ t.toNat < 0x1000 := by
    intro i t hi ht
    rw [pages_bareVm hdir, if_neg hi] at ht
    split at ht
    · next hhigh =>
      obtain rfl := Option.some.inj ht
      exact bareUse_kernelTable i hhigh hi
    · cases ht
  refine ⟨⟨?_, ?_⟩, ?_, by decide⟩
  · rintro _ i t rfl hi ht (rfl : t = _)
    exact (htarget hi ht).2.1 hdir
  · rintro _ _ i i' t rfl rfl hi hi' ht ht'
    have huse := (htarget hi ht).1.trans (htarget hi' ht').1.symm
    cases huse
    exact ⟨rfl, rfl⟩
  · rintro f (rfl | ⟨_, rfl, i, hi, ht⟩)
    · exact not_free_bareVm (by decide)
    · exact not_free_bareVm (htarget hi ht).2.2

theorem moduleKernel_ready (offset : Word) : (moduleKernel offset).Ready where
  intact := bareVm_intact.congr rfl (fun _ hf => hf) rfl
  room := by
    show (0xC4000000 : Word).toNat + _ ≤ _
    decide
  reserved := by
    show bareKernel.Reserved
    rw [Kernel.Reserved]
    decide +kernel

theorem moduleKernel_setAside (offset : Word) {f : Frame} (hf : f.toNat < 0x1000) :
    (moduleKernel offset).SetAside f := by
  refine ⟨not_free_bareVm hf, fun n hn h => ?_⟩
  have hnone := pageFrame_bareVm (d := 0x400) (by decide) hn
  rw [pageFrame_eq_lookup] at h hnone
  exact absurd (hnone.symm.trans h) nofun

theorem moduleKernel_framesAside {offset : Word}
    (hcount : pheaderCount (dataModule offset) 0x200000 = 1)
    (hpages : (headerSection (dataModule offset) 0x200000 0).filePages = 1)
    (hframe : ((headerSection (dataModule offset) 0x200000 0).fileFrame 0).toNat < 0x1000) :
    FramesAside (dataModule offset) 0x200000 (moduleKernel offset) := by
  intro i hi a ha
  obtain rfl : i = 0 := by
    have hlt := hi.1
    omega
  obtain rfl : a = 0 := by omega
  exact moduleKernel_setAside offset hframe

/-- A segment that begins with its page is loaded. -/
theorem aligned_segment_loaded :
    valueOf (startpLoad 0x200000 (moduleKernel 0x1000)) = some 4 ∧
      SegmentsIn (dataModule 0x1000) 0x200000
        (final (startpLoad 0x200000 (moduleKernel 0x1000))) 4 := by
  have hload : valueOf (startpLoad 0x200000 (moduleKernel 0x1000)) = some 4 := by decide +kernel
  have hcount : pheaderCount (dataModule 0x1000) 0x200000 = 1 := by decide +kernel
  refine ⟨hload, (startpLoad_right_iff (moduleKernel_ready _) (by decide +kernel)
    (.of_one hcount (by decide) (by decide +kernel) (by decide +kernel) (by decide +kernel)
      (by decide +kernel))
    (moduleKernel_framesAside hcount (by decide +kernel) (by decide +kernel))
    (eq_ok_of_valueOf hload)).1 ⟨⟨1, ⟨by decide, ?_, by decide +kernel⟩, ?_⟩, ?_⟩⟩
  · intro i hi
    obtain rfl : i = 0 := by omega
    exact ⟨by decide +kernel, fun _ => by decide⟩
  · intro i _ _
    rw [show (moduleKernel 0x1000).vm.ram = dataModule 0x1000 from rfl, hcount]
  · intro i hi
    obtain rfl : i = 0 := by
      have hlt : i < pheaderCount (dataModule 0x1000) 0x200000 := hi.1
      omega
    have hoffset : (headerSection (dataModule 0x1000) 0x200000 0).virt.toNat % 4096 = 0 := by
      decide +kernel
    refine ⟨by decide +kernel, by decide +kernel, fun _ j hj hle => ?_⟩
    rw [show (moduleKernel 0x1000).vm.ram = dataModule 0x1000 from rfl] at hj hle
    omega

/-- A segment that begins inside of its page loses its data to the bytes behind it. -/
theorem unaligned_data_cleared :
    (moduleKernel 0x1100).Ready ∧
      valueOf (elfModuleValidate (dataModule 0x1100) 0x200000 0) = some true ∧
      WellFormed (dataModule 0x1100) 0x200000 ∧
      FramesAside (dataModule 0x1100) 0x200000 (moduleKernel 0x1100) ∧
      valueOf (startpLoad 0x200000 (moduleKernel 0x1100)) = some 4 ∧
      ¬SegmentsIn (dataModule 0x1100) 0x200000
        (final (startpLoad 0x200000 (moduleKernel 0x1100))) 4 := by
  have hcount : pheaderCount (dataModule 0x1100) 0x200000 = 1 := by decide +kernel
  have hread : ((final (startpLoad 0x200000 (moduleKernel 0x1100))).vm.translate
      ((final (startpLoad 0x200000 (moduleKernel 0x1100))).dirOf 4) 0x8000100).map
      (final (startpLoad 0x200000 (moduleKernel 0x1100))).vm.ram = some 0 := by decide +kernel
  refine ⟨moduleKernel_ready _, by decide +kernel,
    .of_one hcount (by decide) (by decide +kernel) (by decide +kernel) (by decide +kernel)
      (by decide +kernel),
    moduleKernel_framesAside hcount (by decide +kernel) (by decide +kernel), by decide +kernel,
    fun hin => ?_⟩
  have hsize : 0 < (headerSection (dataModule 0x1100) 0x200000 0).size.toNat := by decide +kernel
  have hbyte : dataModule 0x1100 (0x200000 + fileOffset (dataModule 0x1100) 0x200000 0 +
      BitVec.ofNat 32 0) = 0xAA := by decide +kernel
  obtain ⟨phys, hphys, hram⟩ := hin 0 ⟨by decide +kernel, by decide +kernel⟩ 0 (by decide +kernel)
  have haddr : (headerSection (dataModule 0x1100) 0x200000 0).virt + BitVec.ofNat 32 0 =
      0x8000100 := by decide +kernel
  rw [haddr] at hphys
  rw [hphys, Option.map_some, hram, if_pos hsize, hbyte] at hread
  cases hread

end Elf

end Horizon
