import Horizon.Properties.AllocatedRanges

/-!
# Horizon — what `vmap` and `unmap` report

A process that gets its address back from `vmap` takes every page of the range for its own: below
the kernel's half, not mapped before, and now mapped to a frame of zeros that nobody else has
(`Kernel.Granted`). After `unmap` it takes every page of the range to be gone.

The calls add address and size in 32 bits. If the sum wraps below `KERNEL_VIRT_BASE` the range
passes all checks, the loops over its pages end before they begin, and the calls report success
without having done anything. Two error codes, besides, can be mistaken for an address.
-/

namespace Horizon

open StateError Vm

variable {k k' : Kernel} {vm vm' : Vm} {d : Frame} {dest addr size virt : Word} {p : Pid} {n m : ℕ}

/-! ## Unmapping -/

/-- Entries may have become not present, and nothing else has changed. -/
def Vm.Fades (vm vm' : Vm) : Prop :=
  ∀ f j, vm'.pages f j = vm.pages f j ∨ vm'.pages f j = { vm.pages f j with present := false }

namespace Vm.Fades

theorem refl (vm : Vm) : Fades vm vm := fun _ _ => Or.inl rfl

theorem eq_of_present {f : Frame} {j : BitVec 10} (h : Fades vm vm')
    (hpresent : (vm'.pages f j).present = true) : vm'.pages f j = vm.pages f j := by
  refine (h f j).resolve_right fun heq => ?_
  rw [heq] at hpresent
  cases hpresent

theorem isMapped (h : Fades vm vm') (hmapped : vm'.pagingIsMapped d virt = true) :
    vm.pagingIsMapped d virt = true := by
  rw [pagingIsMapped, tblentGet] at hmapped ⊢
  split at hmapped
  · next te hte =>
    rw [Option.ite_none_right_eq_some, Option.some_inj] at hte
    obtain ⟨hde, rfl⟩ := hte
    have hdir := h.eq_of_present hde
    have htable := h.eq_of_present hmapped
    rw [hdir] at hde htable hmapped
    rw [if_pos hde]
    show (vm.pages _ _).present = true
    rw [← htable]
    exact hmapped
  · cases hmapped

end Vm.Fades

theorem pagingUnmap_fades (h : pagingUnmap d virt vm = .ok () vm') :
    Vm.Fades vm vm' ∧ vm'.pagingIsMapped d virt = false := by
  rw [pagingUnmap, get_bind_apply] at h
  cases hte : vm.tblentGet d virt with
  | some te =>
    simp only [hte] at h
    rw [ite_eq_ok] at h
    rcases h with ⟨habsent, h⟩ | ⟨-, h⟩
    · obtain ⟨-, rfl⟩ := pure_eq_ok.mp h
      refine ⟨.refl _, ?_⟩
      rw [pagingIsMapped, hte]
      simpa using habsent
    · obtain ⟨released, vm₁, hrelease, h⟩ := bind_eq_ok.mp h
      have hpages : vm₁.pages = vm.pages := (physicalRelease_pool (fun _ => none) hrelease).1.pages
      obtain rfl := modify_eq_ok.mp h
      rw [tblentGet, Option.ite_none_right_eq_some, Option.some_inj] at hte
      obtain ⟨hde, rfl⟩ := hte
      rw [hpages]
      have hentry : ∀ f j, (vm₁.setEntry (vm.pages d (dirIndex virt)).frame (tblIndex virt)
          { vm.pages (vm.pages d (dirIndex virt)).frame (tblIndex virt) with
            present := false }).pages f j =
          if f = (vm.pages d (dirIndex virt)).frame ∧ j = tblIndex virt then
            { vm.pages f j with present := false } else vm.pages f j := by
        intro f j
        rw [Vm.pages_setEntry, hpages]
        split
        · next heq => rw [heq.1, heq.2]
        · rfl
      refine ⟨fun f j => ?_, ?_⟩
      · rw [hentry]
        split
        · exact Or.inr rfl
        · exact Or.inl rfl
      · rw [pagingIsMapped, tblentGet]
        simp only [hentry]
        split
        · next te hte =>
          rw [Option.ite_none_right_eq_some, Option.some_inj] at hte
          obtain ⟨hpresent, rfl⟩ := hte
          -- The entry of the directory is still there, so it points to the same table.
          split at hpresent
          · cases hpresent
          · next hne => simp only [hne, if_false, and_self, if_true]
        · rfl
  | none =>
    simp only [hte] at h
    obtain ⟨-, rfl⟩ := pure_eq_ok.mp h
    refine ⟨.refl _, ?_⟩
    rw [pagingIsMapped, hte]

theorem unmapLoop_isMapped (hlow : lowRange virt size)
    (h : pageLoop (fun curr _ => pagingUnmap d curr) (virt + size) pageFuel
      (addrAlign virt archPgsize) 0 vm = .ok () vm') (hn : Overlaps virt size n) :
    ¬vm'.HasPage d n := by
  have hlt : virt.toNat + size.toNat < 2 ^ 32 := hlow.trans_lt (by decide)
  have hfinish := le_lastPage hlow.le
  rw [pageLoop_eq_forM hfinish (pageCount_lt hfinish)] at h
  simp only [addrAlign_eq_pageNo, pageAt_pageNo] at h
  have hall := forM_range_partial
    (I := fun r v => ∀ m < r, v.pagingIsMapped d (pageNo (virt.toNat / 4096 + m)) = false)
    (fun r _ v v' hv hround m hm => by
      obtain ⟨hfades, hlast⟩ := pagingUnmap_fades hround
      rcases Nat.lt_succ_iff_lt_or_eq.mp hm with hm | rfl
      · cases hmapped : v'.pagingIsMapped d (pageNo (virt.toNat / 4096 + m)) with
        | false => rfl
        | true => rw [← hfades.isMapped hmapped, hv m hm]
      · exact hlast) h (fun m hm => absurd hm (Nat.not_lt_zero m))
  rintro ⟨-, hmapped⟩
  have hfirst := hn.first_le
  have hcount := (lt_pageCount_iff hlt hfirst).mpr hn
  rw [addrAlign_eq_pageNo] at hcount
  have hgone := hall (n - virt.toNat / 4096) (by omega)
  rw [Nat.add_sub_cancel' hfirst, hmapped] at hgone
  cases hgone

/-! ## Mapping -/

/-- The program may write to the page. -/
def Vm.UserWritable (vm : Vm) (d : Frame) (n : ℕ) : Prop :=
  let de := vm.pages d (dirIndex (pageNo n))
  let te := vm.pages de.frame (tblIndex (pageNo n))
  de.present ∧ de.writable ∧ de.user ∧ te.present ∧ te.writable ∧ te.user

/-- A page that a process has been given: one it did not have, with a frame of zeros that no other
page of any process shows. -/
structure Kernel.Granted (p : Pid) (n : ℕ) (k k' : Kernel) : Prop where
  low : n < 0xC0000
  unmapped : ¬k.vm.HasPage (k.dirOf p) n
  writable : k'.vm.UserWritable (k.dirOf p) n
  zero : ∃ f, k'.vm.pageFrame (k.dirOf p) n = some f ∧
    (∀ phys, entryFrame phys = f → k'.vm.ram phys = 0) ∧
    ∀ q e, k'.dirs q = some e → ∀ m < recursivePage, k'.vm.pageFrame e m = some f →
      q = p ∧ m = n

/-- Processes have their own control blocks and page structures, and show no free block. -/
structure Kernel.Orderly (k : Kernel) : Prop where
  named : k.Named
  tidy : k.vm.Tidy k.dirs
  shown : ∀ p d, k.dirs p = some d → ∀ n < recursivePage, ∀ f, k.vm.pageFrame d n = some f →
    ¬k.vm.Free f

theorem dirs_eq_dirOf (h : k.liveProcess p = true) : k.dirs p = some (k.dirOf p) := by
  rw [Kernel.dirs_eq_some h, Kernel.dirOf, if_neg (ne_zero_of_liveProcess h)]

/-- The pages of a range that has been allocated for a process, and in which nothing was mapped. -/
theorem granted_of_virtualAlloc (hk : k.Orderly) (hp : k.liveProcess p = true)
    (hlow : lowRange dest size) (hsize : size ≠ 0) (haligned : pageAligned dest = true)
    (hfree : ∀ n, Overlaps dest size n → ¬k.vm.HasPage (k.dirOf p) n)
    (h : virtualAlloc p dest size k = .ok () k') (hn : Overlaps dest size n) :
    Kernel.Granted p n k k' := by
  have hend : dest.toNat + size.toNat ≤ 0xFFC00000 := hlow.trans (by decide)
  have hpage : n < 0xC0000 := by
    unfold lowRange at hlow
    unfold Overlaps overlaps at hn
    omega
  have hlt : n < recursivePage := hn.lt_recursivePage hend
  have hd := dirs_eq_dirOf hp
  obtain ⟨heq, hremaps⟩ := virtualAlloc_remaps (ne_zero_of_liveProcess hp) hlow.le h
  have hwithin : Within k.dirs {p} k.vm k'.vm := (hremaps hk.tidy).2.1
  obtain ⟨vm', hloop, rfl⟩ := (virtualAlloc_eq_ok (Or.inr hp) hsize).mp h
  have hstate := allocLoop_state (hk.tidy.intact hd) rfl hend hloop
  have hpassed := (passed_iff_overlaps hend).mpr hn
  have hnone : ∀ m, Overlaps dest size m → k.vm.pageFrame (k.dirOf p) m = none := by
    intro m hm
    have hunmapped := hfree m hm
    have hlt := (hm.lt_recursivePage hend).trans (show recursivePage < 2 ^ 20 by decide)
    rw [hasPage_iff hlt, pagingIsMapped_pageNo, Option.not_isSome_iff_eq_none] at hunmapped
    exact hunmapped
  obtain ⟨f, hfreeBlock, -, hmade⟩ := hstate.made n hpassed (hnone n hn)
  have hframe : vm'.pageFrame (k.dirOf p) n = some f := pageFrame_eq_lookup.trans hmade.lookup
  have huser : (dirFlags p).user = true := decide_eq_true (ne_zero_of_liveProcess hp)
  refine ⟨hpage, hfree n hn, ?_, f, hframe, fun phys hphys => ?_, fun q e he m hm hshown => ?_⟩
  · refine ⟨hmade.present, hmade.write rfl, hmade.user huser, ?_⟩
    show (vm'.pages _ _).present ∧ (vm'.pages _ _).writable ∧ (vm'.pages _ _).user
    rw [hmade.entry]
    exact ⟨rfl, rfl, huser⟩
  · refine hstate.zero phys ⟨n, hpassed, hphys ▸ hframe, ?_⟩
    -- The range begins with a page, so that all of its pages are cleared from their start.
    have hstart : (addrAlign dest archPgsize).toNat = dest.toNat :=
      congrArg BitVec.toNat (of_decide_eq_true haligned)
    rw [toNat_addrAlign] at hstart
    have hfirst := hn.first_le
    omega
  · by_cases hqp : q = p
    · subst hqp
      obtain rfl := Option.some.inj (hd.symm.trans he)
      refine ⟨rfl, ?_⟩
      by_cases hin : Overlaps dest size m
      · exact hstate.inj m n ((passed_iff_overlaps hend).mpr hin) hpassed (hnone m hin)
          (hnone n hn) (hshown.trans hframe.symm)
      · have hold := hstate.others m hm (mt (passed_iff_overlaps hend).mp hin)
        exact absurd hfreeBlock (hk.shown q _ hd m hm f (hold.symm.trans hshown))
    · have hold := hwithin.pageFrame hk.tidy he hqp hm
      exact absurd hfreeBlock (hk.shown q e he m hm f (hold.symm.trans hshown))

/-! ## The calls -/

/-- Whole pages whose end wraps below the kernel's half. -/
structure WrapsLow (addr size : Word) : Prop where
  nonempty : size ≠ 0
  aligned : pageAligned addr = true
  whole : size % archPgsize = 0
  wraps : 2 ^ 32 ≤ addr.toNat + size.toNat
  low : addr + size ≤ kernelVirtBase

/-- The calls of `vmap` that give the address back without having mapped the range. -/
inductive Kernel.VmapMisleads (k : Kernel) (dest size : Word) : Prop
  /-- The address is an error code, and the code is returned. -/
  | addr (hdest : dest = eADDR) (hsize : size ≠ 0) (h : kernelVirtBase < dest + size)
  | align (hdest : dest = eALIGN) (hsize : size ≠ 0) (h : dest + size ≤ kernelVirtBase)
  | wraps (h : WrapsLow dest size)
      (hfree : k.vm.rangeMapped (k.dirOf k.schedulerCurr.pid) dest size = some 0)

theorem WrapsLow.not_lt (h : WrapsLow addr size) : ¬addrAlign addr archPgsize < addr + size := by
  rw [of_decide_eq_true h.aligned, BitVec.lt_def, toNat_add_of_le h.wraps]
  have hsize := size.isLt
  omega

/-- The last page of the address space belongs to such a range. -/
theorem WrapsLow.overlaps_last (h : WrapsLow addr size) : Overlaps addr size 0xFFFFF := by
  have hwraps := h.wraps
  have haddr := addr.isLt
  unfold Overlaps overlaps
  omega

theorem syscallVmap_returned (hnamed : k.Named) (h : syscallVmap dest size k = .ok () k')
    (heax : k'.frame.eax = dest) (hsize : size ≠ 0) :
    k.VmapMisleads dest size ∨ lowRange dest size ∧ pageAligned dest = true ∧
      k.vm.rangeMapped (k.dirOf k.schedulerCurr.pid) dest size = some 0 ∧
      ∃ k₁, virtualAlloc k.schedulerCurr.pid dest size k = .ok () k₁ ∧ k₁.vm = k'.vm ∧
        k₁.dirs = k'.dirs := by
  simp only [syscallVmap, ite_eq_ok, bind_eq_ok, get_bind_apply, derefProcess_eq_ok,
    syscallReturnSet, modify_eq_ok] at h
  rcases h with ⟨hrange, rfl⟩ | ⟨hrange, ⟨hzero, -⟩ | ⟨-, ⟨-, rfl⟩ | ⟨haligned, h⟩⟩⟩
  · exact Or.inl (.addr heax.symm hsize hrange)
  · exact absurd hzero hsize
  · exact Or.inl (.align heax.symm hsize (BitVec.not_lt.mp hrange))
  · have haligned : pageAligned dest = true := by simpa using haligned
    have hrange := BitVec.not_lt.mp hrange
    -- The other two codes are not aligned.
    rcases h with ⟨-, rfl⟩ | ⟨hwhole, _, _, ⟨hlive, rfl, rfl⟩, r, k₁, hmapped, h⟩
    · obtain rfl : eSIZE = dest := heax
      exact absurd haligned (by decide)
    · rw [hnamed _ hlive] at hmapped h
      obtain ⟨rfl, hanswer⟩ := virtualIsMapped_rangeMapped hmapped
      rcases h with ⟨-, rfl⟩ | ⟨hr, _, k₂, halloc, rfl⟩
      · obtain rfl : eNOTAVAIL = dest := heax
        exact absurd haligned (by decide)
      · rw [not_not] at hwhole hr
        subst hr
        by_cases hlow : lowRange dest size
        · exact Or.inr ⟨hlow, haligned, hanswer, k₂, halloc, rfl, rfl⟩
        · refine Or.inl (.wraps ⟨hsize, haligned, hwhole, Nat.le_of_not_lt fun hlt => ?_, hrange⟩
            hanswer)
          rw [BitVec.le_def, toNat_add_of_lt hlt] at hrange
          exact hlow hrange

theorem syscallUnmap_returned (hnamed : k.Named) (h : syscallUnmap addr size k = .ok () k')
    (heax : k'.frame.eax = eNONE) : WrapsLow addr size ∧
        k.vm.rangeMapped (k.dirOf k.schedulerCurr.pid) addr size = some 1 ∨
      lowRange addr size ∧ ∃ k₁, virtualUnmap k.schedulerCurr.pid addr size k = .ok () k₁ ∧
        k₁.vm = k'.vm := by
  simp only [syscallUnmap, ite_eq_ok, bind_eq_ok, get_bind_apply, derefProcess_eq_ok,
    syscallReturnSet, modify_eq_ok] at h
  have hcode : ∀ {code : Word}, code ≠ eNONE →
      ∀ {t : Kernel}, { t with frame := { t.frame with eax := code } } ≠ k' := by
    rintro code hcode t rfl
    exact hcode heax
  rcases h with ⟨-, h⟩ | ⟨hrange, ⟨-, h⟩ | ⟨hsize, ⟨-, h⟩ | ⟨haligned, h⟩⟩⟩
  · exact absurd h.symm (hcode (by decide))
  · exact absurd h.symm (hcode (by decide))
  · exact absurd h.symm (hcode (by decide))
  · rcases h with ⟨-, h⟩ | ⟨hwhole, _, _, ⟨hlive, rfl, rfl⟩, r, k₁, hmapped, h⟩
    · exact absurd h.symm (hcode (by decide))
    · rw [hnamed _ hlive] at hmapped h
      obtain ⟨rfl, hanswer⟩ := virtualIsMapped_rangeMapped hmapped
      rcases h with ⟨-, h⟩ | ⟨hr, _, k₂, hunmap, rfl⟩
      · exact absurd h.symm (hcode (by decide))
      · rw [not_not] at hwhole hr
        subst hr
        have hrange := BitVec.not_lt.mp hrange
        by_cases hlow : lowRange addr size
        · exact Or.inr ⟨hlow, k₂, hunmap, rfl⟩
        · refine Or.inl ⟨⟨hsize, by simpa using haligned, hwhole,
            Nat.le_of_not_lt fun hlt => ?_, hrange⟩, hanswer⟩
          rw [BitVec.le_def, toNat_add_of_lt hlt] at hrange
          exact hlow hrange

section Wrapped

variable (hnamed : k.Named) (hlive : k.liveProcess k.schedulerCurr.pid = true)

include hnamed hlive

/-- Nothing is mapped, and the address is returned. -/
theorem syscallVmap_wraps (h : WrapsLow dest size)
    (hfree : k.vm.rangeMapped (k.dirOf k.schedulerCurr.pid) dest size = some 0) :
    syscallVmap dest size k = .ok () { k with frame := { k.frame with eax := dest } } := by
  have halloc : virtualAlloc k.schedulerCurr.pid dest size k = .ok () k := by
    refine (virtualAlloc_eq_ok (Or.inr hlive) h.nonempty).mpr ⟨k.vm, ?_, rfl⟩
    rw [allocLoop, pageFuel, pageLoop_done h.not_lt]
    rfl
  have hmapped := virtualIsMapped_of_rangeMapped (Or.inr hlive) h.nonempty hfree
  rw [syscallVmap, if_neg (BitVec.not_lt.mpr h.low), if_neg h.nonempty, h.aligned, h.whole]
  simp only [Bool.not_true, Bool.false_eq_true, if_false, ne_eq, not_true_eq_false, get_bind_apply]
  rw [bind_apply_of_ok (derefProcess_eq_ok.mpr ⟨hlive, rfl, rfl⟩), hnamed _ hlive,
    bind_apply_of_ok hmapped, if_neg (by decide), bind_apply_of_ok halloc]
  rfl

/-- Nothing is unmapped, and success is reported. -/
theorem syscallUnmap_wraps (h : WrapsLow addr size)
    (hthere : k.vm.rangeMapped (k.dirOf k.schedulerCurr.pid) addr size = some 1) :
    syscallUnmap addr size k = .ok () { k with frame := { k.frame with eax := eNONE } } := by
  have hunmap : virtualUnmap k.schedulerCurr.pid addr size k = .ok () k := by
    rw [virtualUnmap, dassert, if_pos h.nonempty, pure_bind,
      bind_apply_of_ok (getDir_eq (Or.inr hlive))]
    refine liftVm_eq_ok.mpr ⟨k.vm, ?_, rfl⟩
    rw [pageFuel, pageLoop_done h.not_lt]
    rfl
  have hmapped := virtualIsMapped_of_rangeMapped (Or.inr hlive) h.nonempty hthere
  rw [syscallUnmap, if_neg (BitVec.not_lt.mpr h.low), if_neg h.nonempty, h.aligned, h.whole]
  simp only [Bool.not_true, Bool.false_eq_true, if_false, ne_eq, not_true_eq_false, get_bind_apply]
  rw [bind_apply_of_ok (derefProcess_eq_ok.mpr ⟨hlive, rfl, rfl⟩), hnamed _ hlive,
    bind_apply_of_ok hmapped, if_neg (by decide), bind_apply_of_ok hunmap]
  rfl

end Wrapped

theorem rangeMapped_unmapped (hlow : lowRange dest size)
    (h : k.vm.rangeMapped d dest size = some 0) (hn : Overlaps dest size n) :
    ¬k.vm.HasPage d n := by
  have hlt : dest.toNat + size.toNat < 2 ^ 32 := hlow.trans_lt (by decide)
  have hfirst := hn.first_le
  have hcount := (lt_pageCount_iff hlt hfirst).mpr hn
  have hpage := rangeMapped_eq_some hlow.le h (by decide) (n - dest.toNat / 4096) (by omega)
  rw [addrAlign_eq_pageNo, pageAt_pageNo, Nat.add_sub_cancel' hfirst] at hpage
  rintro ⟨-, hmapped⟩
  rw [hmapped] at hpage
  cases hpage

theorem isMappedLoop_eq_one {state : Bool} {fuel : ℕ} {finish curr : Word}
    (h : vm.isMappedLoop d state finish fuel curr = some 1) : state = true := by
  induction fuel generalizing curr with
  | zero => cases h
  | succ fuel ih =>
    rw [isMappedLoop] at h
    split at h
    · split at h
      · cases h
      · exact ih h
    · cases state with
      | true => rfl
      | false => cases h

theorem rangeMapped_first (h : k.vm.rangeMapped d addr size = some 1) :
    k.vm.HasPage d (addr.toNat / 4096) := by
  have haddr := addr.isLt
  refine ⟨by omega, ?_⟩
  rw [← addrAlign_eq_pageNo]
  exact isMappedLoop_eq_one h

variable (addr) in
/-- A process that gets its address back from `vmap` has been given every page of the range only if
the call is none of those above, and if the address spaces are in order this is enough. Every page
of a range is gone after `unmap` has reported so, unless the end of the range wraps. -/
theorem vmap_unmap_right_iff (hnamed : k.Named)
    (hlive : k.liveProcess k.schedulerCurr.pid = true) :
    ((∀ k', syscallVmap dest size k = .ok () k' → k'.frame.eax = dest → size ≠ 0 →
        ∀ n, Overlaps dest size n → Kernel.Granted k.schedulerCurr.pid n k k') →
      ¬k.VmapMisleads dest size) ∧
    (k.Orderly → ¬k.VmapMisleads dest size →
      ∀ k', syscallVmap dest size k = .ok () k' → k'.frame.eax = dest → size ≠ 0 →
        ∀ n, Overlaps dest size n → Kernel.Granted k.schedulerCurr.pid n k k') ∧
    ((∀ k', syscallUnmap addr size k = .ok () k' → k'.frame.eax = eNONE →
        ∀ n, Overlaps addr size n → ¬k'.vm.HasPage (k.dirOf k.schedulerCurr.pid) n) ↔
      ¬(WrapsLow addr size ∧
        k.vm.rangeMapped (k.dirOf k.schedulerCurr.pid) addr size = some 1)) := by
  refine ⟨fun hall hbad => ?_, fun hk hgood k' h heax hsize n hn => ?_,
    ⟨fun hall hbad => ?_, fun hgood k' h heax n hn => ?_⟩⟩
  · -- Each kind of call returns its address without the page that `hall` asks for.
    cases hbad with
    | addr hdest hsize hrange =>
      subst hdest
      have hrun : syscallVmap eADDR size k =
          .ok () { k with frame := { k.frame with eax := eADDR } } := by
        rw [syscallVmap, if_pos hrange]
        rfl
      have hlow := (hall _ hrun rfl hsize _ (overlaps_first _ hsize)).low
      exact absurd hlow (by decide)
    | align hdest hsize hrange =>
      subst hdest
      have hrun : syscallVmap eALIGN size k =
          .ok () { k with frame := { k.frame with eax := eALIGN } } := by
        rw [syscallVmap, if_neg (BitVec.not_lt.mpr hrange), if_neg hsize, if_pos (by decide)]
        rfl
      have hlow := (hall _ hrun rfl hsize _ (overlaps_first _ hsize)).low
      exact absurd hlow (by decide)
    | wraps hwraps hfree =>
      have hrun := syscallVmap_wraps hnamed hlive hwraps hfree
      have hlow := (hall _ hrun rfl hwraps.nonempty _ hwraps.overlaps_last).low
      exact absurd hlow (by decide)
  · rcases syscallVmap_returned hnamed h heax hsize with hbad | ⟨hlow, haligned, hfree, k₁,
      halloc, hvm, hdirs⟩
    · exact absurd hbad hgood
    · have hgranted := granted_of_virtualAlloc hk hlive hlow hsize haligned
        (fun n hn => rangeMapped_unmapped hlow hfree hn) halloc hn
      obtain ⟨hpage, hunmapped, hwritable, hzero⟩ := hgranted
      rw [hvm] at hwritable hzero
      rw [hdirs] at hzero
      exact ⟨hpage, hunmapped, hwritable, hzero⟩
  · -- The loop of the wrapped range has no round, so its first page is still there.
    obtain ⟨hwraps, hthere⟩ := hbad
    have hrun := syscallUnmap_wraps hnamed hlive hwraps hthere
    exact hall _ hrun rfl _ (overlaps_first addr hwraps.nonempty) (rangeMapped_first hthere)
  · rcases syscallUnmap_returned hnamed h heax with hbad | ⟨hlow, k₁, hunmap, hvm⟩
    · exact absurd hbad hgood
    · simp only [virtualUnmap, bind_eq_ok, dassert_eq_ok, liftVm_eq_ok] at hunmap
      obtain ⟨_, _, ⟨-, rfl⟩, _, _, hdir, vm', hloop, rfl⟩ := hunmap
      rw [getDir_eq (Or.inr hlive)] at hdir
      cases hdir
      rw [← hvm]
      exact unmapLoop_isMapped hlow hloop hn

theorem bareKernel_orderly : bareKernel.Orderly where
  named := bareKernel_named
  tidy := dirs_bareKernel ▸ bareVm_tidy
  shown p d hd n hn f hf := by
    rw [dirs_bareKernel] at hd
    rw [show bareKernel.vm = bareVm from rfl, pageFrame_bareVm (mem_of_bareDirs hd).1 hn] at hf
    cases hf

/-- A process gets its first page. -/
theorem first_page_granted : ∃ k', syscallVmap 0x1000 0x1000 bareKernel = .ok () k' ∧
    Kernel.Granted 2 1 bareKernel k' := by
  have hany : ((Syscall.vmap 0x1000 0x1000).outcome bareKernel).any
      (fun k' => k'.frame.eax = 0x1000) = true := by decide +kernel
  obtain ⟨k', hcall, heax⟩ := (Option.any_eq_true _ _).mp hany
  have hrun : syscallVmap 0x1000 0x1000 bareKernel = .ok () k' := Syscall.run_of_outcome hcall
  have hgood : ¬bareKernel.VmapMisleads 0x1000 0x1000 := by
    intro hbad
    cases hbad with
    | addr hdest => exact absurd hdest (by decide)
    | align hdest => exact absurd hdest (by decide)
    | wraps h => exact absurd h.wraps (by decide)
  exact ⟨k', hrun, (vmap_unmap_right_iff 0 bareKernel_named (by decide)).2.1 bareKernel_orderly hgood
    k' hrun (of_decide_eq_true heax) (by decide) 1 (by decide)⟩

/-- `vmap` of the upper half of the address space gives the address back, and `unmap` from the first
page to the end of the address space reports success. Neither does anything. -/
theorem wrapped_ranges_reported_done : ∃ k k₁ k₂, Booted k ∧ k.liveProcess 2 = true ∧
    k.schedulerCurr.pid = 2 ∧
    syscallVmap 0x80000000 0x80000000 k = .ok () k₁ ∧ k₁.frame.eax = 0x80000000 ∧
    Overlaps 0x80000000 0x80000000 0x80000 ∧ ¬k₁.vm.HasPage (k.dirOf 2) 0x80000 ∧
    syscallUnmap 0x1000 0xFFFFF000 k = .ok () k₂ ∧ k₂.frame.eax = eNONE ∧
    Overlaps 0x1000 0xFFFFF000 1 ∧ k₂.vm.HasPage (k.dirOf 2) 1 := by
  have hany : (runPages (fun _ => 0) [0x2000] []).any (fun k => k.liveProcess 2 &&
      decide (k.schedulerCurr.pid = 2) &&
      ((Syscall.vmap 0x80000000 0x80000000).outcome k).any (fun k₁ =>
        decide (k₁.frame.eax = 0x80000000 ∧ ¬k₁.vm.HasPage (k.dirOf 2) 0x80000)) &&
      ((Syscall.unmap 0x1000 0xFFFFF000).outcome k).any (fun k₂ =>
        decide (k₂.frame.eax = eNONE ∧ k₂.vm.HasPage (k.dirOf 2) 1))) = true := by
    decide +kernel
  obtain ⟨k, _, hboot, hrun, hk⟩ := exists_run_of_any hany
  cases hrun
  simp only [Bool.and_eq_true, Option.any_eq_true, decide_eq_true_eq] at hk
  obtain ⟨⟨⟨hlive, hcurr⟩, k₁, hvmap, heax, hpage⟩, k₂, hunmap, heax', hpage'⟩ := hk
  exact ⟨k, k₁, k₂, hboot, hlive, hcurr, Syscall.run_of_outcome hvmap, heax, by decide, hpage,
    Syscall.run_of_outcome hunmap, heax', by decide, hpage'⟩

end Horizon
