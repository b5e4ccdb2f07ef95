import Horizon.System.Mapping

/-!
# Horizon — memory calls and the kernel's half

All address spaces share the kernel's page tables, so a call that changed one of them would change
it for everyone. `vmap`, `pmap` and `unmap` change nothing above `KERNEL_VIRT_BASE`, and nothing in
other processes, except that a new page table shows up in the recursive mapping of the caller.
`grant` and `accept` do not check their ranges, and can map or unmap anything.
-/

namespace Horizon

open StateError FramePool Vm

variable {k k' : Kernel} {vm vm' : Vm} {dirs : Pid → Option Frame} {A : Set Pid} {p : Pid}
  {d f : Frame} {virt : Word}

/-- The entries that make up the mapping of a page, in the directory and in the page table. -/
def Vm.entries (vm : Vm) (dir : Frame) (virt : Word) : PageEntry × Option PageEntry :=
  (vm.pages dir (dirIndex virt), vm.tblentGet dir virt)

theorem Vm.entries_congr (hdir : vm'.pages d (dirIndex virt) = vm.pages d (dirIndex virt))
    (htable : (vm.pages d (dirIndex virt)).present = true →
      vm'.pages (vm.pages d (dirIndex virt)).frame = vm.pages (vm.pages d (dirIndex virt)).frame) :
    vm'.entries d virt = vm.entries d virt := by
  rw [entries, entries, tblentGet, tblentGet, hdir]
  by_cases hpresent : (vm.pages d (dirIndex virt)).present = true
  · rw [if_pos hpresent, if_pos hpresent, htable hpresent]
  · rw [if_neg hpresent, if_neg hpresent]

/-- A directory that may be loaded: that of a process, or the kernel's own. -/
def Vm.IsDir (vm : Vm) (dirs : Pid → Option Frame) (d : Frame) : Prop :=
  d = vm.kernelDir ∨ ∃ p, dirs p = some d

/-- All directories agree on the kernel's page tables. -/
theorem Vm.Separate.upper_of_isDir {i : BitVec 10} (h : vm.Separate dirs) (hd : vm.IsDir dirs d)
    (hi : userTop ≤ i) (hne : i ≠ recursiveIndex) : vm.pages d i = vm.pages vm.kernelDir i := by
  obtain rfl | ⟨p, hp⟩ := hd
  · rfl
  · exact h.upper hp hi hne

theorem Vm.Within.upper_of_isDir {i : BitVec 10} (h : Within dirs A vm vm') (hd : vm.IsDir dirs d)
    (hi : userTop ≤ i) : vm'.pages d i = vm.pages d i := by
  obtain rfl | ⟨p, hp⟩ := hd
  · exact congrFun (h.pages .kernelDir _ (fun hof => hof) rfl) i
  · exact h.upper p d i hp hi

theorem Vm.Within.entries_kernel (h : Within dirs A vm vm') (hsep : vm.Separate dirs)
    (hd : vm.IsDir dirs d) (hvirt : kernelVirtBase ≤ virt) (hrec : virt < recursiveBase) :
    vm'.entries d virt = vm.entries d virt := by
  have hi := userTop_le_dirIndex hvirt
  have hne := dirIndex_ne_recursive hrec
  have hshared := hsep.upper_of_isDir hd hi hne
  refine entries_congr (h.upper_of_isDir hd hi) fun hpresent => ?_
  refine h.pages (.kernelTable (dirIndex virt)) _ (fun hof => hof) ?_
  rw [hshared] at hpresent ⊢
  exact if_pos ⟨hi, hne, hpresent⟩

/-- The pages of a process that is not in `A`, all of them. -/
theorem Vm.Within.entries_other (h : Within dirs A vm vm') (hsep : vm.Separate dirs)
    (hd : dirs p = some d) (hp : p ∉ A) : vm'.entries d virt = vm.entries d virt := by
  have hpages : vm'.pages d = vm.pages d := h.pages (.dir p) d hp hd
  refine entries_congr (congrFun hpages _) fun hpresent => ?_
  by_cases huser : dirIndex virt < userTop
  · refine h.pages (.table p (dirIndex virt)) _ hp ?_
    rw [holder_table hd, if_pos ⟨huser, hpresent⟩]
  · by_cases hrec : dirIndex virt = recursiveIndex
    · rw [hrec, hsep.window hd, hpages]
    · have hi := BitVec.not_lt.mp huser
      have hshared := hsep.upper hd hi hrec
      refine h.pages (.kernelTable (dirIndex virt)) _ (fun hof => hof) ?_
      rw [hshared] at hpresent ⊢
      exact if_pos ⟨hi, hrec, hpresent⟩

theorem Remapped.within {allowed : Op Slot Frame → Prop} (h : Remapped A allowed k k')
    (htidy : k.vm.Tidy k.dirs) : Within k.dirs A k.vm k'.vm := by
  obtain ⟨vm, hmade, hdropped⟩ := h.remaps
  obtain ⟨htidy', hwithin, -⟩ := hmade htidy
  obtain ⟨-, hwithin', -⟩ := hdropped htidy'.toSeparate
  exact hwithin.trans hwithin'

/-- The calls that work on the caller's own address space. -/
def Syscall.own : Syscall → Bool
  | .vmap .. | .pmap .. | .unmap .. => true
  | _ => false

theorem Syscall.memory_of_own {call : Syscall} (h : call.own = true) : call.memory = true := by
  cases call <;> first | rfl | cases h

/-- These calls look at the range themselves. -/
theorem Syscall.transfer_of_own {call : Syscall} (h : call.own = true) :
    call.transfer k p = none := by
  cases call <;> first | rfl | cases h

/-- From a state with tidy page structures, these calls change no page of the kernel's half but
those of the recursive mapping, and no page at all of another process. -/
theorem own_call_keeps_other_pages {call : Syscall} {input : Word} (hown : call.own = true)
    (hnamed : k.Named) (htidy : k.vm.Tidy k.dirs) (h : call.run input k = .ok () k') :
    k'.dirs = k.dirs ∧ k'.vm.kernelDir = k.vm.kernelDir ∧
    (∀ d virt, k.vm.IsDir k.dirs d → kernelVirtBase ≤ virt → virt < recursiveBase →
      k'.vm.entries d virt = k.vm.entries d virt) ∧
    ∀ p d virt, p ≠ k.schedulerCurr.pid → k.dirs p = some d →
      k'.vm.entries d virt = k.vm.entries d virt := by
  have hnone : ∀ t, t ∉ call.transfer k k.schedulerCurr.pid := by
    rw [Syscall.transfer_of_own hown]
    nofun
  have hcall := Syscall.run_remapped (Syscall.memory_of_own hown)
    (fun t ht => absurd ht (hnone t)) hnamed h
  have hwithin := hcall.within htidy
  refine ⟨hcall.dirs, hwithin.kernelDir,
    fun d virt hd hvirt hrec => hwithin.entries_kernel htidy.toSeparate hd hvirt hrec,
    fun p d virt hp hd => hwithin.entries_other htidy.toSeparate hd ?_⟩
  rintro (rfl | ⟨t, ht, -⟩)
  · exact hp rfl
  · exact hnone t ht

/-- A page that the caller maps is none of the other process. -/
theorem vmap_keeps_other_process : ∃ k, (Syscall.vmap 0x400000 0x1000).run 0 bareKernel = .ok () k ∧
    k.frame.eax = 0x400000 ∧
      k.vm.entries 0x402 0x400000 = bareKernel.vm.entries 0x402 0x400000 := by
  have hany : ((Syscall.vmap 0x400000 0x1000).outcome bareKernel).any
      (fun k => k.frame.eax = 0x400000) = true := by decide +kernel
  obtain ⟨k, hcall, heax⟩ := (Option.any_eq_true _ _).mp hany
  have hrun := Syscall.run_of_outcome hcall
  refine ⟨k, hrun, of_decide_eq_true heax, ?_⟩
  have hkeeps := own_call_keeps_other_pages rfl bareKernel_named
    (dirs_bareKernel ▸ bareVm_tidy) hrun
  refine hkeeps.2.2.2 3 0x402 0x400000 (by decide) ?_
  rw [dirs_bareKernel]
  rfl

/-- A new page table shows up in the recursive mapping, a page of the kernel's half. -/
theorem vmap_changes_recursive_mapping : ∃ k₀ k d, Booted k₀ ∧
    (Syscall.vmap 0x400000 0x1000).run 0 k₀ = .ok () k ∧ k₀.dirs k₀.schedulerCurr.pid = some d ∧
    kernelVirtBase ≤ (0xFFC01000 : Word) ∧
    k.vm.entries d 0xFFC01000 ≠ k₀.vm.entries d 0xFFC01000 := by
  have hany : (runPages (fun _ => 0) [0x2000] []).any (fun k₀ =>
      ((Syscall.vmap 0x400000 0x1000).outcome k₀).any (fun k =>
        (k₀.dirs k₀.schedulerCurr.pid).any fun d =>
          k.vm.entries d 0xFFC01000 ≠ k₀.vm.entries d 0xFFC01000)) = true := by decide +kernel
  obtain ⟨k₀, _, k, hboot, hrun, hcall, hchange⟩ := exists_call_of_any hany
  cases hrun
  obtain ⟨d, hd, hne⟩ := (Option.any_eq_true _ _).mp hchange
  exact ⟨k₀, k, d, hboot, hcall, hd, by decide, of_decide_eq_true hne⟩

/-- A driver has mapped the directory and a page table of process 3 as device memory and unmapped
them again, which releases them. Its next page and page table are made of them. -/
theorem vmap_reuses_page_table : ∃ k₀ k₁ k d, Booted k₀ ∧
    runEvents Kernel.step k₀ [callEvent 8 0x2000 0x1006000 0x2000, callEvent 9 0x2000 0x2000 0] =
      some k₁ ∧
    (Syscall.vmap 0x400000 0x1000).run 0 k₁ = .ok () k ∧ k₁.schedulerCurr.pid = 2 ∧
    k₁.dirs 3 = some d ∧ k.vm.entries d 0x1000 ≠ k₁.vm.entries d 0x1000 := by
  have hany : (runPages (fun _ => 0) [0x2000, 0x3000] [callEvent 8 0x2000 0x1006000 0x2000,
      callEvent 9 0x2000 0x2000 0]).any (fun k₁ =>
      ((Syscall.vmap 0x400000 0x1000).outcome k₁).any (fun k =>
        k₁.schedulerCurr.pid = 2 && (k₁.dirs 3).any fun d =>
          k.vm.entries d 0x1000 ≠ k₁.vm.entries d 0x1000)) = true := by decide +kernel
  obtain ⟨k₀, k₁, k, hboot, hrun, hcall, hchange⟩ := exists_call_of_any hany
  rw [Bool.and_eq_true, decide_eq_true_eq] at hchange
  obtain ⟨d, hd, hne⟩ := (Option.any_eq_true _ _).mp hchange.2
  exact ⟨k₀, k₁, k, d, hboot, hrun, hcall, hchange.1, hd, of_decide_eq_true hne⟩

/-- The machine with the PID of process 3 in all control blocks. -/
def misnamedKernel : Kernel :=
  { bareKernel with blocks := fun pid =>
      { bareKernel.blocks pid with
        process := { (bareKernel.blocks pid).process with pid := 3 } } }

theorem vmap_serves_named_process : ∃ k, (Syscall.vmap 0x400000 0x1000).run 0 misnamedKernel =
      .ok () k ∧ misnamedKernel.schedulerCurr.pid = 2 ∧ misnamedKernel.dirs 3 = some 0x402 ∧
    k.vm.entries 0x402 0x400000 ≠ misnamedKernel.vm.entries 0x402 0x400000 := by
  have hany : ((Syscall.vmap 0x400000 0x1000).outcome misnamedKernel).any (fun k =>
      k.vm.entries 0x402 0x400000 ≠ misnamedKernel.vm.entries 0x402 0x400000) = true := by
    decide +kernel
  obtain ⟨k, hcall, hne⟩ := (Option.any_eq_true _ _).mp hany
  exact ⟨k, Syscall.run_of_outcome hcall, rfl, by decide +kernel, of_decide_eq_true hne⟩

/-- What the calls do change: the recursive mapping, and in a state in which the page structures are
not tidy or a control block has a wrong PID also other processes. -/
theorem vmap_changes_other_pages :
    (∃ k₀ k d, Booted k₀ ∧
      (Syscall.vmap 0x400000 0x1000).run 0 k₀ = .ok () k ∧ k₀.dirs k₀.schedulerCurr.pid = some d ∧
      kernelVirtBase ≤ (0xFFC01000 : Word) ∧
      k.vm.entries d 0xFFC01000 ≠ k₀.vm.entries d 0xFFC01000) ∧
    (∃ k₀ k₁ k d, Booted k₀ ∧
      runEvents Kernel.step k₀ [callEvent 8 0x2000 0x1006000 0x2000, callEvent 9 0x2000 0x2000 0] =
        some k₁ ∧
      (Syscall.vmap 0x400000 0x1000).run 0 k₁ = .ok () k ∧ k₁.schedulerCurr.pid = 2 ∧
      k₁.dirs 3 = some d ∧ k.vm.entries d 0x1000 ≠ k₁.vm.entries d 0x1000) ∧
    ∃ k, (Syscall.vmap 0x400000 0x1000).run 0 misnamedKernel = .ok () k ∧
      misnamedKernel.schedulerCurr.pid = 2 ∧ misnamedKernel.dirs 3 = some 0x402 ∧
      k.vm.entries 0x402 0x400000 ≠ misnamedKernel.vm.entries 0x402 0x400000 :=
  ⟨vmap_changes_recursive_mapping, vmap_reuses_page_table, vmap_serves_named_process⟩

end Horizon
