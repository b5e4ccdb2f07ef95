import Horizon.Memory.AddressSpace

/-!
# Horizon — ranges of user pages

The page loops, over a range that ends before the last page of the address space, are loops over
the list of its pages (`pageLoop_eq_forM`). Each round is at most one operation on the pool, so a
loop over user pages that returns is a run of operations on the pages of the range (`Remaps`).
-/

namespace Horizon

open StateError FramePool Vm

/-- The `n`-th page from `start` on. -/
def pageAt (start : Word) (n : Nat) : Word := start + BitVec.ofNat 32 (4096 * n)

/-- The last page of the address space. A loop that ends beyond its beginning never ends. -/
def lastPage : Word := 0xFFFFF000

/-- The number of pages a loop from `start` to `finish` visits. -/
def pageCount (start finish : Word) : Nat := (finish.toNat - start.toNat + 4095) / 4096

theorem toNat_addrAlign (addr : Word) :
    (addrAlign addr archPgsize).toNat = addr.toNat / 4096 * 4096 := by
  have hmask : ~~~(archPgsize - 1) = BitVec.allOnes 32 <<< 12 := by decide
  rw [addrAlign, hmask]
  exact and_shiftLeft_allOnes addr (by decide)

variable {start finish : Word} {n : Nat}

theorem le_lastPage (hfinish : finish ≤ kernelVirtBase) : finish ≤ lastPage :=
  BitVec.le_def.mpr ((BitVec.le_def.mp hfinish).trans (by decide))

theorem toNat_pageAt (hfinish : finish ≤ lastPage) (hn : n < pageCount start finish) :
    (pageAt start n).toNat = start.toNat + 4096 * n ∧ start.toNat + 4096 * n < finish.toNat := by
  have hfin : finish.toNat ≤ 0xFFFFF000 := BitVec.le_def.mp hfinish
  have hlt : start.toNat + 4096 * n < finish.toNat := by
    unfold pageCount at hn
    omega
  refine ⟨?_, hlt⟩
  rw [pageAt, BitVec.toNat_add, BitVec.toNat_ofNat, Nat.add_mod_mod, Nat.mod_eq_of_lt (by omega)]

theorem pageAt_lt (hfinish : finish ≤ lastPage) (hn : n < pageCount start finish) :
    pageAt start n < finish := by
  obtain ⟨htoNat, hlt⟩ := toNat_pageAt hfinish hn
  exact BitVec.lt_def.mpr (htoNat ▸ hlt)

theorem pageAt_zero : pageAt start 0 = start := by
  simp [pageAt]

theorem pageAt_succ : pageAt start (n + 1) = pageAt (start + archPgsize) n := by
  have hpage : archPgsize = BitVec.ofNat 32 4096 := rfl
  rw [pageAt, pageAt, hpage, BitVec.add_assoc, ← BitVec.ofNat_add, Nat.mul_succ, Nat.add_comm]

theorem pageCount_succ (hfinish : finish ≤ lastPage) (hlt : start < finish) :
    pageCount start finish = pageCount (start + archPgsize) finish + 1 := by
  have hfin : finish.toNat ≤ 0xFFFFF000 := BitVec.le_def.mp hfinish
  have hlt' : start.toNat < finish.toNat := BitVec.lt_def.mp hlt
  have hnext : (start + archPgsize).toNat = start.toNat + 4096 := by
    have hpage : archPgsize.toNat = 4096 := rfl
    rw [BitVec.toNat_add, hpage, Nat.mod_eq_of_lt (by omega)]
  unfold pageCount
  rw [hnext]
  omega

theorem pageCount_eq_zero (h : ¬start < finish) : pageCount start finish = 0 := by
  have hle : finish.toNat ≤ start.toNat := Nat.le_of_not_lt fun hlt => h (BitVec.lt_def.mpr hlt)
  unfold pageCount
  omega

theorem pageCount_lt (hfinish : finish ≤ lastPage) : pageCount start finish < pageFuel := by
  have hfin : finish.toNat ≤ 0xFFFFF000 := BitVec.le_def.mp hfinish
  unfold pageCount pageFuel
  omega

theorem pageLoop_eq_forM {body : Word → Word → VmM Unit} {fuel : Nat} {other : Word}
    (hfinish : finish ≤ lastPage) (hfuel : pageCount start finish < fuel) :
    pageLoop body finish fuel start other =
      (List.range (pageCount start finish)).forM fun n =>
        body (pageAt start n) (pageAt other n) := by
  induction fuel generalizing start other with
  | zero => exact absurd hfuel (Nat.not_lt_zero _)
  | succ fuel ih =>
    rw [pageLoop]
    by_cases hlt : start < finish
    · have hcount := pageCount_succ hfinish hlt
      rw [if_pos hlt, ih (by omega), hcount, List.range_succ_eq_map]
      simp only [List.forM_eq_forM, List.forM_cons, List.forM_map, pageAt_zero, pageAt_succ,
        Nat.succ_eq_add_one]
    · rw [if_neg hlt, pageCount_eq_zero hlt]
      rfl

section Indices

variable {virt : Word}

theorem toNat_dirIndex : (dirIndex virt).toNat = virt.toNat / 0x400000 := by
  have hvirt := virt.isLt
  rw [dirIndex, BitVec.toNat_setWidth, BitVec.toNat_ushiftRight, Nat.shiftRight_eq_div_pow]
  omega

theorem toNat_tblIndex : (tblIndex virt).toNat = virt.toNat / 4096 % 1024 := by
  rw [tblIndex, BitVec.toNat_setWidth, BitVec.toNat_ushiftRight, Nat.shiftRight_eq_div_pow]

theorem toNat_userTop : userTop.toNat = 768 := by decide

theorem dirIndex_lt (h : virt < kernelVirtBase) : dirIndex virt < userTop := by
  have hlt : virt.toNat < 0xC0000000 := BitVec.lt_def.mp h
  rw [BitVec.lt_def, toNat_userTop, toNat_dirIndex]
  omega

theorem userTop_le_dirIndex (h : kernelVirtBase ≤ virt) : userTop ≤ dirIndex virt := by
  have hle : 0xC0000000 ≤ virt.toNat := BitVec.le_def.mp h
  rw [BitVec.le_def, toNat_userTop, toNat_dirIndex]
  omega

/-- `0xFFC00000`, where the recursive mapping begins. -/
def recursiveBase : Word := 0xFFC00000

theorem dirIndex_ne_recursive (h : virt < recursiveBase) : dirIndex virt ≠ recursiveIndex := by
  have hlt : virt.toNat < 0xFFC00000 := BitVec.lt_def.mp h
  have hrec : recursiveIndex.toNat = 1023 := rfl
  intro heq
  have htoNat := congrArg BitVec.toNat heq
  rw [hrec, toNat_dirIndex] at htoNat
  omega

end Indices

theorem dirIndex_pageAt (hfinish : finish ≤ kernelVirtBase) (hn : n < pageCount start finish) :
    dirIndex (pageAt start n) < userTop :=
  dirIndex_lt (BitVec.lt_def.mpr
    (Nat.lt_of_lt_of_le (BitVec.lt_def.mp (pageAt_lt (le_lastPage hfinish) hn))
      (BitVec.le_def.mp hfinish)))

/-! ## Ranges that are mapped, or not -/

variable {vm vm' : Vm} {d : Frame}

/-- The loop compares every page of its range with the first one. -/
theorem isMappedLoop_eq {state : Bool} {fuel : Nat} (hfinish : finish ≤ lastPage)
    (hfuel : pageCount start finish < fuel) : vm.isMappedLoop d state finish fuel start = some
      (if ∀ n < pageCount start finish, vm.pagingIsMapped d (pageAt start n) = state then
        if state then 1 else 0
      else -1) := by
  induction fuel generalizing start with
  | zero => exact absurd hfuel (Nat.not_lt_zero _)
  | succ fuel ih =>
    rw [isMappedLoop]
    by_cases hlt : start < finish
    · have hcount := pageCount_succ hfinish hlt
      have hall : (∀ n < pageCount start finish, vm.pagingIsMapped d (pageAt start n) = state) ↔
          vm.pagingIsMapped d start = state ∧ ∀ n < pageCount (start + archPgsize) finish,
            vm.pagingIsMapped d (pageAt (start + archPgsize) n) = state := by
        rw [hcount, Nat.forall_lt_succ_left]
        simp only [pageAt_zero, pageAt_succ]
      rw [if_pos hlt, ih (by omega)]
      simp only [hall]
      by_cases hstate : vm.pagingIsMapped d start = state
      · simp only [hstate, ne_eq, not_true_eq_false, if_false, true_and]
      · simp only [hstate, ne_eq, not_false_eq_true, if_true, false_and, if_false]
    · have hnone : ∀ n < pageCount start finish, vm.pagingIsMapped d (pageAt start n) = state := by
        rw [pageCount_eq_zero hlt]
        exact fun n hn => absurd hn (Nat.not_lt_zero n)
      rw [if_neg hlt, if_pos hnone]

theorem rangeMapped_eq_some {virt size : Word} {r : Int}
    (hfinish : virt + size ≤ kernelVirtBase) (h : vm.rangeMapped d virt size = some r)
    (hr : r ≠ -1) : ∀ n < pageCount (addrAlign virt archPgsize) (virt + size),
      vm.pagingIsMapped d (pageAt (addrAlign virt archPgsize) n) = decide (r = 1) := by
  have hlast := le_lastPage hfinish
  rw [rangeMapped, isMappedLoop_eq hlast (pageCount_lt hlast), Option.some_inj] at h
  split at h
  · next hrest =>
    have hstate : vm.pagingIsMapped d (addrAlign virt archPgsize) = decide (r = 1) := by
      rw [← h]
      cases vm.pagingIsMapped d (addrAlign virt archPgsize) <;> rfl
    intro n hn
    cases n with
    | zero => rwa [pageAt_zero]
    | succ n =>
      by_cases hlt : addrAlign virt archPgsize < virt + size
      · rw [pageCount_succ hlast hlt] at hn
        rw [pageAt_succ, hrest n (by omega), hstate]
      · rw [pageCount_eq_zero hlt] at hn
        exact absurd hn (Nat.not_lt_zero _)
  · exact absurd h.symm hr

/-! ## Runs of operations -/

/-- From a state that has the property `I`: a run of allowed operations, within the page
structures of `A`, to a state that has it again. -/
def Remaps (I : Vm → Prop) (dirs : Pid → Option Frame) (A : Set Pid)
    (allowed : Op Slot Frame → Prop) (vm vm' : Vm) : Prop :=
  I vm → I vm' ∧ Within dirs A vm vm' ∧
    ∃ ops, Pool.Runs allowed (vm.pool dirs) ops (vm'.pool dirs)

variable {I : Vm → Prop} {dirs : Pid → Option Frame} {A : Set Pid}
  {allowed : Op Slot Frame → Prop}

namespace Remaps

theorem refl (vm : Vm) : Remaps I dirs A allowed vm vm :=
  fun h => ⟨h, SamePages.within ⟨rfl, rfl, rfl⟩, [], .nil _⟩

theorem trans {vm'' : Vm} (h₁ : Remaps I dirs A allowed vm vm')
    (h₂ : Remaps I dirs A allowed vm' vm'') : Remaps I dirs A allowed vm vm'' := by
  intro h
  obtain ⟨h', hwithin, ops, hops⟩ := h₁ h
  obtain ⟨h'', hwithin', ops', hops'⟩ := h₂ h'
  exact ⟨h'', hwithin.trans hwithin', ops ++ ops', Steps.append hops hops'⟩

theorem mono {allowed' : Op Slot Frame → Prop} (h : Remaps I dirs A allowed vm vm')
    (hallowed : ∀ op, allowed op → allowed' op) : Remaps I dirs A allowed' vm vm' := by
  intro hI
  obtain ⟨hI', hwithin, ops, hops⟩ := h hI
  exact ⟨hI', hwithin, ops, Steps.mono (fun _ op _ _ hop => ⟨hop.1, hallowed op hop.2⟩) hops⟩

theorem widen {B : Set Pid} (h : Remaps I dirs A allowed vm vm') (hAB : A ⊆ B) :
    Remaps I dirs B allowed vm vm' := by
  intro hI
  obtain ⟨hI', hwithin, hops⟩ := h hI
  exact ⟨hI', hwithin.mono hAB, hops⟩

theorem of_apply (op : Op Slot Frame) (hI : I vm') (hwithin : Within dirs A vm vm')
    (hvalid : (vm.pool dirs).Valid op) (hallowed : allowed op)
    (hpool : vm'.pool dirs = (vm.pool dirs).apply op) : I vm' ∧ Within dirs A vm vm' ∧
      ∃ ops, Pool.Runs allowed (vm.pool dirs) ops (vm'.pool dirs) :=
  ⟨hI, hwithin, [op], .cons (congrArg some hpool.symm) ⟨hvalid, hallowed⟩ (.nil _)⟩

/-- A page loop, if each of its rounds is a run. -/
theorem pageLoop {body : Word → Word → VmM Unit} {other : Word} (hfinish : finish ≤ kernelVirtBase)
    (hbody : ∀ n < pageCount start finish, ∀ vm vm',
      body (pageAt start n) (pageAt other n) vm = .ok () vm' → Remaps I dirs A allowed vm vm')
    (h : Horizon.pageLoop body finish pageFuel start other vm = .ok () vm') :
    Remaps I dirs A allowed vm vm' := by
  rw [pageLoop_eq_forM (le_lastPage hfinish) (pageCount_lt (le_lastPage hfinish))] at h
  have hlist : ∀ l : List Nat, (∀ n ∈ l, n < pageCount start finish) → ∀ vm,
      l.forM (fun n => body (pageAt start n) (pageAt other n)) vm = .ok ⟨⟩ vm' →
        Remaps I dirs A allowed vm vm' := by
    intro l
    induction l with
    | nil =>
      intro _ vm h
      obtain ⟨-, rfl⟩ := pure_eq_ok.mp h
      exact refl _
    | cons n l ih =>
      intro hl vm h
      obtain ⟨_, vm₁, hfirst, hrest⟩ := bind_eq_ok.mp h
      exact (hbody n (hl n List.mem_cons_self) vm vm₁ hfirst).trans
        (ih (fun n hn => hl n (List.mem_cons_of_mem _ hn)) vm₁ hrest)
  exact hlist _ (fun n hn => List.mem_range.mp hn) vm h

end Remaps

/-! ## The rounds -/

variable {p q : Pid} {src : Frame} {flags : PagingFlags} {virt curr target : Word}

/-- The page structures are the same, and nothing has become free. -/
theorem Vm.SamePages.tidy (h : SamePages vm vm') (ht : vm.Tidy dirs)
    (hfree : (vm'.pool dirs).free ⊆ (vm.pool dirs).free) : vm'.Tidy dirs where
  toSeparate := h.separate ht.toSeparate
  held hu hf := ht.held (h.holder ▸ hu) (hfree hf)
  sized := h.blockCount.le.trans ht.sized

theorem Remaps.of_same (h : SamePages vm vm') (hpool : vm'.pool dirs = vm.pool dirs) :
    Remaps (Tidy dirs) dirs A allowed vm vm' :=
  fun ht => ⟨h.tidy ht (hpool ▸ subset_rfl), h.within, [], hpool ▸ .nil _⟩

theorem allocPage_remaps (hd : dirs p = some d) (hi : dirIndex curr < userTop)
    (h : allocPage d flags virt curr vm = .ok () vm') : Remaps (Tidy dirs) dirs {p}
      (fun op => ∃ m table, op = .fresh (slotOf p curr) m table ∧ m.writable = flags.write)
      vm vm' := by
  simp only [allocPage, get_bind_apply, bind_eq_ok, runIf_eq_ok, modify_eq_ok] at h
  obtain ⟨_, vm₃, hmap, hzero⟩ := h
  have hsame₃ : SamePages vm₃ vm' := hzero ▸ ⟨rfl, rfl, rfl⟩
  have hpool₃ : vm'.pool dirs = vm₃.pool dirs := by
    rw [hzero]
    rfl
  refine Remaps.trans (fun htidy => ?_) (Remaps.of_same hsame₃ hpool₃)
  rcases hmap with ⟨hunmapped, f, vm₁, halloc, _, vm₂, hpaging, hret⟩ | ⟨-, rfl⟩
  · obtain ⟨-, rfl⟩ := pure_eq_ok.mp hret
    obtain ⟨hfree, hsame, htake⟩ := physicalAlloc_pool dirs htidy.sized halloc
    have hslot : vm.slot dirs (slotOf p curr) = none := by
      rw [pagingIsMapped_slot hd hi] at hunmapped
      simpa using hunmapped
    have htidy₁ : vm₁.Tidy dirs := hsame.tidy htidy (htake ▸ Set.sdiff_subset)
    obtain ⟨htidy₂, hwithin, table, htable, hpool⟩ :=
      pagingMap_pool htidy₁ hd hi (hsame.slot ▸ hslot) hpaging
    rw [htake] at hpool
    refine Remaps.of_apply (.fresh (slotOf p curr) ⟨f, flags.write⟩ table) htidy₂
      (hsame.within.trans hwithin) ⟨hslot, hfree, fun t ht => ?_⟩ ⟨_, _, rfl, rfl⟩ hpool
    have htfree : t ∈ (vm₁.pool dirs).free := htable t ht
    rwa [htake] at htfree
  · exact Remaps.refl vm htidy

/-- A round of `virtual_share` maps a page that is mapped in the source and not in the target, and
does nothing otherwise. -/
theorem sharePage_pool (htidy : vm.Tidy dirs) (hd : dirs p = some d) (hsrc : dirs q = some src)
    (hcurr : dirIndex curr < userTop) (htarget : dirIndex target < userTop)
    (h : sharePage d src flags curr target vm = .ok () vm') :
    vm' = vm ∧ (vm.slot dirs (slotOf q curr) = none ∨
      (vm.slot dirs (slotOf p target)).isSome = true) ∨
    vm'.Tidy dirs ∧ Within dirs {p} vm vm' ∧ ∃ m table,
      vm.slot dirs (slotOf q curr) = some m ∧ vm.slot dirs (slotOf p target) = none ∧
      (∀ t ∈ table, t ∈ (vm.pool dirs).free) ∧ vm'.pool dirs = (vm.pool dirs).apply
        (.share (slotOf p target) (slotOf q curr) ⟨m.frame, flags.write⟩ table) := by
  simp only [sharePage, get_bind_apply, ite_eq_ok, bind_eq_ok, pure_eq_ok] at h
  rw [pagingIsMapped_slot hsrc hcurr, pagingIsMapped_slot hd htarget] at h
  rcases h with ⟨hunmapped, -, rfl⟩ | ⟨hmapped, ⟨hpresent, -, rfl⟩ |
    ⟨hunmapped, _, vm₁, hretain, _, _, hpaging, -, rfl⟩⟩
  · exact Or.inl ⟨rfl, Or.inl (by simpa using hunmapped)⟩
  · exact Or.inl ⟨rfl, Or.inr hpresent⟩
  · have hslot : vm.slot dirs (slotOf p target) = none := by simpa using hunmapped
    obtain ⟨m, hm⟩ : ∃ m, vm.slot dirs (slotOf q curr) = some m :=
      Option.ne_none_iff_exists'.mp (by simpa using hmapped)
    rw [pagingMappingGet_slot hsrc hcurr, hm] at hretain hpaging
    obtain ⟨hsame, hretained⟩ := physicalRetain_pool dirs hretain
    have hfree : (vm₁.pool dirs).free = (vm.pool dirs).free := by
      rw [hretained, Pool.free_retain]
    obtain ⟨htidy₂, hwithin, table, htable, hpool⟩ :=
      pagingMap_pool (hsame.tidy htidy hfree.subset) hd htarget (hsame.slot ▸ hslot) hpaging
    rw [hretained] at hpool
    exact Or.inr ⟨htidy₂, hsame.within.trans hwithin, m, table, hm, hslot,
      fun t ht => hfree ▸ (htable t ht : t ∈ (vm₁.pool dirs).free), hpool⟩

theorem sharePage_remaps (hd : dirs p = some d) (hsrc : dirs q = some src)
    (hcurr : dirIndex curr < userTop) (htarget : dirIndex target < userTop)
    (h : sharePage d src flags curr target vm = .ok () vm') : Remaps (Tidy dirs) dirs {p}
      (fun op => ∃ m table, op = .share (slotOf p target) (slotOf q curr) m table ∧
        m.writable = flags.write) vm vm' := by
  intro htidy
  rcases sharePage_pool htidy hd hsrc hcurr htarget h with ⟨rfl, -⟩ |
    ⟨htidy', hwithin, m, table, hm, hslot, htable, hpool⟩
  · exact Remaps.refl _ htidy
  · exact Remaps.of_apply (.share (slotOf p target) (slotOf q curr) ⟨m.frame, flags.write⟩ table)
      htidy' hwithin ⟨hslot, ⟨m, hm, rfl⟩, htable⟩ ⟨_, _, rfl, rfl⟩ hpool

theorem pagingMap_remaps {f : Frame} {mapped : Bool} (hd : dirs p = some d)
    (hi : dirIndex curr < userTop) (hforce : flags.force = false)
    (h : pagingMap d curr f flags vm = .ok mapped vm') : Remaps (Tidy dirs) dirs {p}
      (fun op => ∃ table, op = .place (slotOf p curr) ⟨f, flags.write⟩ table) vm vm' := by
  intro htidy
  cases hslot : vm.slot dirs (slotOf p curr) with
  | none =>
    obtain ⟨htidy', hwithin, table, htable, hpool⟩ := pagingMap_pool htidy hd hi hslot h
    exact Remaps.of_apply (.place (slotOf p curr) ⟨f, flags.write⟩ table) htidy' hwithin
      ⟨hslot, htable⟩ ⟨table, rfl⟩ hpool
  | some m =>
    obtain ⟨htidy', hwithin, hpool⟩ := pagingMap_mapped htidy hd hi hforce hslot h
    exact ⟨htidy', hwithin, [], hpool ▸ .nil _⟩

theorem pagingUnmap_remaps (hd : dirs p = some d) (hi : dirIndex curr < userTop)
    (h : pagingUnmap d curr vm = .ok () vm') :
    Remaps (Separate dirs) dirs {p} (fun op => ∃ m, op = .drop (slotOf p curr) m) vm vm' := by
  intro hsep
  obtain ⟨-, rfl⟩ | ⟨m, hslot, hsep', hwithin, hpool⟩ := pagingUnmap_pool hsep hd hi h
  · exact Remaps.refl _ hsep
  · exact Remaps.of_apply (.drop (slotOf p curr) m) hsep' hwithin hslot ⟨m, rfl⟩ hpool

end Horizon
