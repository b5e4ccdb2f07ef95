import Horizon.System.Elf
import Horizon.Properties.AllocatedRanges
import Horizon.Properties.PagingMaps

/-!
# Horizon — loading the sections of a module (`startp_load`)

A section is mapped from the page of its address on: first the pages of the file, as many as the
size of the file data fills, then new pages up to the size that is reserved, and the bytes behind
the file data are cleared (`Vm.AddsSection`). The offset of the section in its first page is not
part of either size.

Sections whose pages are apart do not disturb each other (`Vm.Loading`).
-/

namespace Horizon

open StateError Vm

variable {vm vm' v v' : Vm} {d f : Frame} {virt size phys : Word} {n m : ℕ}

/-! ## Frames and offsets -/

theorem toNat_entryFrame (phys : Word) : (entryFrame phys).toNat = phys.toNat / 4096 := by
  have hphys := phys.isLt
  rw [entryFrame, BitVec.toNat_setWidth, BitVec.toNat_ushiftRight, Nat.shiftRight_eq_div_pow]
  omega

theorem entryFrame_pageNo_inj (hn : n < 2 ^ 20) (hm : m < 2 ^ 20) :
    entryFrame (pageNo n) = entryFrame (pageNo m) ↔ n = m := by
  rw [← BitVec.toNat_inj, toNat_entryFrame, toNat_entryFrame, toNat_pageNo hn, toNat_pageNo hm]
  omega

theorem eq_of_entryFrame (hn : n < 2 ^ 20) (hframe : entryFrame phys = entryFrame (pageNo n)) :
    phys.toNat = 4096 * n + phys.toNat % 4096 := by
  have hnum := congrArg BitVec.toNat hframe
  rw [toNat_entryFrame, toNat_entryFrame, toNat_pageNo hn] at hnum
  omega

theorem translate_congr {addr : Word}
    (h : v'.pageFrame d (addr.toNat / 4096) = v.pageFrame d (addr.toNat / 4096)) :
    v'.translate d addr = v.translate d addr := by
  rw [Vm.translate, Vm.translate, pagingMappingGet_addr, pagingMappingGet_addr, h]

/-! ## The loop of `virtual_map` -/

/-- An address space after some rounds, from page `first` and frame number `base` on. -/
structure Vm.MapState (vm : Vm) (d : Frame) (first base n : ℕ) (v : Vm) : Prop where
  intact : v.Intact d
  free : ∀ f, v.Free f → vm.Free f
  ram : v.ram = vm.ram
  mapped : ∀ i < n, v.pageFrame d (first + i) =
    (vm.pageFrame d (first + i)).or (some (entryFrame (pageNo (base + i))))
  others : ∀ m < recursivePage, (∀ i < n, m ≠ first + i) → v.pageFrame d m = vm.pageFrame d m

theorem Vm.MapState.succ {first base : ℕ} {flags : PagingFlags} {done : Bool}
    (h : vm.MapState d first base n v) (hforce : flags.force = false)
    (hlt : first + n < recursivePage)
    (hrun : pagingMap d (pageNo (first + n)) (entryFrame (pageNo (base + n))) flags v =
      .ok done v') : vm.MapState d first base (n + 1) v' := by
  have hi := dirIndex_pageNo_mem hlt
  obtain ⟨hintact, htook, -⟩ := pagingMap_intact h.intact hi hforce hrun
  have hlookup := (pagingMap_lookup h.intact.apart h.intact.fresh rfl hi hforce hrun).2.2 d rfl
  have hframe : ∀ m < recursivePage, v'.pageFrame d m =
      if m = first + n then (v.pageFrame d m).or (some (entryFrame (pageNo (base + n))))
      else v.pageFrame d m := by
    intro m hm
    rw [pageFrame_eq_lookup, pageFrame_eq_lookup, hlookup _ (dirIndex_pageNo_mem hm)]
    simp only [true_and, pageNo_indices hlt hm]
  refine ⟨hintact, fun f hf => h.free f (htook.free f hf), htook.ram.trans h.ram, fun i hi' => ?_,
    fun m hm hout => ?_⟩
  · rcases Nat.lt_succ_iff_lt_or_eq.mp hi' with hlt' | rfl
    · rw [hframe _ (by omega), if_neg (by omega), h.mapped i hlt']
    · rw [hframe _ hlt, if_pos rfl, h.others _ hlt fun j hj => by omega]
  · rw [hframe m hm, if_neg (hout n n.lt_succ_self)]
    exact h.others m hm fun i hi' => hout i (Nat.lt_succ_of_lt hi')

/-- The loop of `virtual_map`. -/
def mapLoop (virt phys size : Word) (d : Frame) (flags : PagingFlags) : VmM Unit :=
  pageLoop (fun curr phys => do
      let _ ← pagingMap d curr (entryFrame phys) flags) (virt + size) pageFuel
    (addrAlign virt archPgsize) (addrAlign phys archPgsize)

theorem mapLoop_state {flags : PagingFlags} (h : vm.Intact d) (hforce : flags.force = false)
    (hend : virt.toNat + size.toNat ≤ 0xFFC00000)
    (hrun : mapLoop virt phys size d flags vm = .ok () vm') :
    vm.MapState d (virt.toNat / 4096) (phys.toNat / 4096)
      (pageCount (addrAlign virt archPgsize) (virt + size)) vm' := by
  have hfinish : virt + size ≤ lastPage := by
    rw [BitVec.le_def, toNat_add_of_lt (by omega)]
    exact hend.trans (by decide)
  rw [mapLoop, pageLoop_eq_forM hfinish (pageCount_lt hfinish)] at hrun
  refine forM_range_partial (I := fun n v =>
    vm.MapState d (virt.toNat / 4096) (phys.toNat / 4096) n v) (fun i hi v v' hv hround => ?_) hrun
    ⟨h, fun _ hf => hf, rfl, fun i hi => absurd hi i.not_lt_zero, fun _ _ _ => rfl⟩
  rw [addrAlign_eq_pageNo, addrAlign_eq_pageNo, pageAt_pageNo, pageAt_pageNo] at hround
  obtain ⟨done, v₁, hmap, hret⟩ := bind_eq_ok.mp hround
  obtain ⟨-, rfl⟩ := pure_eq_ok.mp hret
  exact hv.succ hforce (lt_recursivePage hend hi) hmap

/-! ## One section -/

namespace ElfSection

variable (s : ElfSection)

/-- The first page of a section. -/
def first : ℕ := s.virt.toNat / 4096

/-- The frame number of its first page in the file. -/
def base : ℕ := s.phys.toNat / 4096

/-- How many pages of the file are mapped. -/
def filePages : ℕ := (s.size.toNat + 4095) / 4096

/-- How many pages are mapped in all. -/
def pages : ℕ := (s.reserve.toNat + 4095) / 4096

/-- Frame number `i` of the file. -/
def fileFrame (i : ℕ) : Frame := entryFrame (pageNo (s.base + i))

/-- A section that can be loaded: it has file data, no more than is reserved for it, and lies below
the kernel. -/
structure Fits : Prop where
  phys : s.phys ≠ 0
  size : s.size ≠ 0
  le : s.size ≤ s.reserve
  below : 4096 * s.first + s.reserve.toNat ≤ 0xC0000000
  inMemory : s.base + s.filePages ≤ 2 ^ 20

variable {s}

theorem Fits.filePages_le (h : s.Fits) : s.filePages ≤ s.pages := by
  have hle := BitVec.le_def.mp h.le
  unfold filePages pages
  omega

theorem Fits.lt_user (h : s.Fits) (hn : n < s.pages) : s.first + n < 0xC0000 := by
  have hbelow := h.below
  unfold pages at hn
  omega

theorem Fits.fileFrame_inj (h : s.Fits) (hn : n < s.filePages) (hm : m < s.filePages) :
    s.fileFrame n = s.fileFrame m ↔ n = m := by
  have hmem := h.inMemory
  rw [fileFrame, fileFrame, entryFrame_pageNo_inj (by omega) (by omega)]
  omega

end ElfSection

/-- What loading a section does to an address space in which its pages are not mapped. -/
structure Vm.AddsSection (d : Frame) (s : ElfSection) (v v' : Vm) : Prop where
  intact : v'.Intact d
  free : ∀ f, v'.Free f → v.Free f
  file : ∀ i < s.filePages, v'.pageFrame d (s.first + i) = some (s.fileFrame i)
  new : ∀ i < s.pages, s.filePages ≤ i →
    ∃ f, v'.pageFrame d (s.first + i) = some f ∧ v.Free f ∧ ¬v'.Free f
  others : ∀ m < recursivePage, (∀ i < s.pages, m ≠ s.first + i) →
    v'.pageFrame d m = v.pageFrame d m
  zero : s.size ≠ s.reserve → ∀ i < s.pages, ∀ phys,
    v'.pageFrame d (s.first + i) = some (entryFrame phys) →
      s.size.toNat ≤ 4096 * i + phys.toNat % 4096 → v'.ram phys = 0
  same : ∀ phys, (s.size ≠ s.reserve → ∀ i < s.pages,
    v'.pageFrame d (s.first + i) = some (entryFrame phys) →
      4096 * i + phys.toNat % 4096 < s.size.toNat) → v'.ram phys = v.ram phys

section Section

variable {s : ElfSection} {flags : PagingFlags}

theorem pageCount_aligned (hfirst : n < 2 ^ 20) (hlt : 4096 * n + size.toNat < 2 ^ 32) :
    pageCount (addrAlign (pageNo n) archPgsize) (pageNo n + size) = (size.toNat + 4095) / 4096 := by
  rw [pageCount, toNat_addrAlign, toNat_add_of_lt (by rwa [toNat_pageNo hfirst]),
    toNat_pageNo hfirst]
  omega

theorem mapLoop_file (hs : s.Fits) (h : v.Intact d) (hforce : flags.force = false)
    (hrun : mapLoop (pageNo s.first) (pageNo s.base) s.size d flags v = .ok () v') :
    v.MapState d s.first s.base s.filePages v' := by
  have hle := BitVec.le_def.mp hs.le
  have hbelow := hs.below
  have hmem := hs.inMemory
  have hpos : s.size.toNat ≠ 0 := fun hzero => hs.size (BitVec.eq_of_toNat_eq hzero)
  have hfirst : s.first < 2 ^ 20 := by omega
  have hbase : s.base < 2 ^ 20 := by
    unfold ElfSection.filePages at hmem
    omega
  have hstate := mapLoop_state h hforce (by rw [toNat_pageNo hfirst]; omega) hrun
  rw [pageCount_aligned hfirst (by omega), toNat_pageNo hfirst, toNat_pageNo hbase] at hstate
  have hdiv : ∀ n : ℕ, 4096 * n / 4096 = n := fun n => by omega
  rwa [hdiv, hdiv] at hstate

/-- Nothing but the pages of the file is mapped if no more is reserved. -/
theorem addsSection_of_eq (heq : s.size = s.reserve)
    (hunmapped : ∀ i < s.pages, v.pageFrame d (s.first + i) = none)
    (h : v.MapState d s.first s.base s.filePages v') : AddsSection d s v v' := by
  have hpages : s.pages = s.filePages := by
    rw [ElfSection.pages, ← heq]
    rfl
  refine ⟨h.intact, h.free, fun i hi => ?_, fun i hi hle => by omega, fun m hm hout => ?_,
    fun hne => absurd heq hne, fun phys _ => by rw [h.ram]⟩
  · rw [h.mapped i hi, hunmapped i (hpages ▸ hi), Option.none_or]
    rfl
  · exact h.others m hm (hpages ▸ hout)

/-- The rest is allocated behind the file data. -/
theorem addsSection_of_alloc {v₁ : Vm} (hs : s.Fits) (hne : s.size ≠ s.reserve)
    (hunmapped : ∀ i < s.pages, v.pageFrame d (s.first + i) = none)
    (h : v.MapState d s.first s.base s.filePages v₁) (hforce : flags.force = false)
    (hrun : allocLoop (pageNo s.first + s.size) (s.reserve - s.size) d flags v₁ = .ok () v') :
    AddsSection d s v v' := by
  have hle := BitVec.le_def.mp hs.le
  have hbelow := hs.below
  have hfirst : s.first < 2 ^ 20 := by omega
  have hne' : s.size.toNat ≠ s.reserve.toNat := fun heq => hne (BitVec.eq_of_toNat_eq heq)
  have hstart : (pageNo s.first + s.size).toNat = 4096 * s.first + s.size.toNat := by
    rw [toNat_add_of_lt (by rw [toNat_pageNo hfirst]; omega), toNat_pageNo hfirst]
  have hrest : (s.reserve - s.size).toNat = s.reserve.toNat - s.size.toNat :=
    BitVec.toNat_sub_of_le hs.le
  have hend : (pageNo s.first + s.size).toNat + (s.reserve - s.size).toNat ≤ 0xFFC00000 := by
    rw [hstart, hrest]
    omega
  have hstate := allocLoop_state h.intact hforce hend hrun
  -- The pages that the second loop goes through.
  have hpassed : ∀ i, Passed ((pageNo s.first + s.size).toNat / 4096)
      (pageCount (addrAlign (pageNo s.first + s.size) archPgsize)
        (pageNo s.first + s.size + (s.reserve - s.size))) (s.first + i) ↔
      s.size.toNat / 4096 ≤ i ∧ i < s.pages := by
    intro i
    rw [passed_iff_overlaps hend, Overlaps, overlaps, hstart, hrest, ElfSection.pages]
    omega
  have hlow : ∀ {i}, i < s.pages → s.first + i < recursivePage := fun hi =>
    (hs.lt_user hi).trans (by decide)
  have hnew : ∀ i < s.pages, s.filePages ≤ i → v₁.pageFrame d (s.first + i) = none := by
    intro i hi hge
    rw [h.others _ (hlow hi) fun j hj => by omega, hunmapped i hi]
  have hfile : ∀ i < s.filePages, v'.pageFrame d (s.first + i) = some (s.fileFrame i) := by
    intro i hi
    have hi' := hi.trans_le hs.filePages_le
    refine hstate.kept _ (hlow hi') _ ?_
    rw [h.mapped i hi, hunmapped i hi', Option.none_or]
    rfl
  have hcleared : ∀ phys, v'.Cleared d (pageNo s.first + s.size)
      ((pageNo s.first + s.size).toNat / 4096)
      (pageCount (addrAlign (pageNo s.first + s.size) archPgsize)
        (pageNo s.first + s.size + (s.reserve - s.size))) phys ↔
      ∃ i < s.pages, v'.pageFrame d (s.first + i) = some (entryFrame phys) ∧
        s.size.toNat ≤ 4096 * i + phys.toNat % 4096 := by
    intro phys
    rw [Vm.Cleared]
    constructor
    · rintro ⟨m, hm, hframe, hge⟩
      obtain ⟨i, rfl⟩ : ∃ i, m = s.first + i :=
        ⟨m - s.first, by have := hm.1; rw [hstart] at this; omega⟩
      exact ⟨i, ((hpassed i).mp hm).2, hframe, by rw [hstart] at hge; omega⟩
    · rintro ⟨i, hi, hframe, hge⟩
      exact ⟨s.first + i, (hpassed i).mpr ⟨by omega, hi⟩, hframe, by rw [hstart]; omega⟩
  refine ⟨hstate.intact, fun f hf => h.free f (hstate.free f hf), hfile, fun i hi hge => ?_,
    fun m hm hout => ?_, fun _ i hi phys hframe hge => ?_, fun phys hin => ?_⟩
  · have hpass := (hpassed i).mpr ⟨by unfold ElfSection.filePages at hge; omega, hi⟩
    obtain ⟨f, hfree, hheld, hmade⟩ := hstate.made _ hpass (hnew i hi hge)
    exact ⟨f, by rw [pageFrame_eq_lookup, hmade.lookup], h.free f hfree, hheld⟩
  · have hnot : ¬Passed ((pageNo s.first + s.size).toNat / 4096)
        (pageCount (addrAlign (pageNo s.first + s.size) archPgsize)
          (pageNo s.first + s.size + (s.reserve - s.size))) m := by
      intro hm'
      obtain ⟨i, rfl⟩ : ∃ i, m = s.first + i :=
        ⟨m - s.first, by have := hm'.1; rw [hstart] at this; omega⟩
      exact hout i ((hpassed i).mp hm').2 rfl
    rw [hstate.others m hm hnot, h.others m hm fun i hi => hout i (hi.trans_le hs.filePages_le)]
  · exact hstate.zero phys ((hcleared phys).mpr ⟨i, hi, hframe, hge⟩)
  · rw [← h.ram]
    refine hstate.same phys fun hclear => ?_
    obtain ⟨i, hi, hframe, hge⟩ := (hcleared phys).mp hclear
    have hlt := hin hne i hi hframe
    omega

end Section

/-! ## Several sections -/

/-- The sections with an index in `A` can be loaded, and have no page of the address space and none
of the file in common. -/
structure Sections (secs : ℕ → ElfSection) (A : Set ℕ) : Prop where
  fits : ∀ i ∈ A, (secs i).Fits
  pagesApart : ∀ i ∈ A, ∀ j ∈ A, i ≠ j → ∀ a < (secs i).pages, ∀ b < (secs j).pages,
    (secs i).first + a ≠ (secs j).first + b
  filesApart : ∀ i ∈ A, ∀ j ∈ A, i ≠ j → ∀ a < (secs i).filePages, ∀ b < (secs j).filePages,
    (secs i).base + a ≠ (secs j).base + b

/-- Byte `y` of a section, from its first page on, in terms of the memory before. -/
def ElfSection.byteAt (ram : Word → BitVec 8) (s : ElfSection) (y : ℕ) : BitVec 8 :=
  if s.size ≠ s.reserve ∧ s.size.toNat ≤ y then 0 else ram (pageNo s.base + BitVec.ofNat 32 y)

/-- Section `i` can be read in the address space, and its frames are its own. -/
def Vm.Placed (ram : Word → BitVec 8) (d : Frame) (secs : ℕ → ElfSection) (A : Set ℕ) (i : ℕ)
    (v : Vm) : Prop :=
  ∀ y < 4096 * (secs i).pages, ∃ phys,
    v.translate d (pageNo (secs i).first + BitVec.ofNat 32 y) = some phys ∧
      v.ram phys = (secs i).byteAt ram y ∧ ¬v.Free (entryFrame phys) ∧
      ∀ j ∈ A, j ≠ i → ∀ b < (secs j).filePages, entryFrame phys ≠ (secs j).fileFrame b

/-- The address space when the first `n` sections have been loaded. -/
structure Vm.Loading (ram : Word → BitVec 8) (d : Frame) (secs : ℕ → ElfSection) (A : Set ℕ)
    (n : ℕ) (v : Vm) : Prop where
  intact : v.Intact d
  held : ∀ i ∈ A, ∀ a < (secs i).filePages, ¬v.Free ((secs i).fileFrame a)
  placed : ∀ i ∈ A, i < n → v.Placed ram d secs A i
  file : ∀ i ∈ A, n ≤ i → ∀ a < (secs i).filePages, ∀ phys,
    entryFrame phys = (secs i).fileFrame a → v.ram phys = ram phys
  unmapped : ∀ m < 0xC0000, (∀ i ∈ A, i < n → ∀ a < (secs i).pages, m ≠ (secs i).first + a) →
    v.pageFrame d m = none

namespace Vm.Loading

variable {ram : Word → BitVec 8} {secs : ℕ → ElfSection} {A : Set ℕ}

theorem skip (h : v.Loading ram d secs A n) (hn : n ∉ A) : v.Loading ram d secs A (n + 1) := by
  have hlt : ∀ i ∈ A, i < n + 1 → i < n := by
    intro i hi hle
    have hne : i ≠ n := fun heq => hn (heq ▸ hi)
    omega
  exact ⟨h.intact, h.held, fun i hi hle => h.placed i hi (hlt i hi hle),
    fun i hi hle => h.file i hi (by omega),
    fun m hm hout => h.unmapped m hm fun i hi hi' => hout i hi (by omega)⟩

/-- The frames of the new section are frames of the file or were free, so a byte elsewhere stays as
it is. -/
theorem ram_eq (hs : AddsSection d (secs n) v v') {phys : Word}
    (hfile : ∀ b < (secs n).filePages, entryFrame phys ≠ (secs n).fileFrame b)
    (hheld : ¬v.Free (entryFrame phys)) : v'.ram phys = v.ram phys := by
  refine hs.same phys fun _ i hi hframe => ?_
  by_cases hi' : i < (secs n).filePages
  · rw [hs.file i hi', Option.some_inj] at hframe
    exact absurd hframe.symm (hfile i hi')
  · obtain ⟨f, hnew, hfree, -⟩ := hs.new i hi (Nat.le_of_not_lt hi')
    rw [hframe, Option.some_inj] at hnew
    exact absurd (hnew ▸ hfree) hheld

theorem fileFrame_ne (hsecs : Sections secs A) {i j a b : ℕ} (hi : i ∈ A) (hj : j ∈ A) (hne : i ≠ j)
    (ha : a < (secs i).filePages) (hb : b < (secs j).filePages) :
    (secs i).fileFrame a ≠ (secs j).fileFrame b := by
  have hmem := (hsecs.fits i hi).inMemory
  have hmem' := (hsecs.fits j hj).inMemory
  intro heq
  rw [ElfSection.fileFrame, ElfSection.fileFrame,
    entryFrame_pageNo_inj (by omega) (by omega)] at heq
  exact hsecs.filesApart i hi j hj hne a ha b hb heq

theorem toNat_byte (hfits : (secs n).Fits) {y : ℕ} (hy : y < 4096 * (secs n).pages) :
    (pageNo (secs n).first + BitVec.ofNat 32 y).toNat = 4096 * (secs n).first + y := by
  have hbelow := hfits.below
  unfold ElfSection.pages at hy
  rw [BitVec.toNat_add, toNat_pageNo (by omega), BitVec.toNat_ofNat]
  omega

/-- The section of this round is placed: its file pages show the file, the others zeros. -/
theorem placed_new (h : v.Loading ram d secs A n) (hsecs : Sections secs A) (hn : n ∈ A)
    (hs : AddsSection d (secs n) v v') : v'.Placed ram d secs A n := by
  intro y hy
  have hfits := hsecs.fits n hn
  have hmem := hfits.inMemory
  have hpage : y / 4096 < (secs n).pages := by omega
  have haddr := toNat_byte hfits hy
  have hdiv : (pageNo (secs n).first + BitVec.ofNat 32 y).toNat / 4096 =
      (secs n).first + y / 4096 := by
    rw [haddr]
    omega
  by_cases hfile : y / 4096 < (secs n).filePages
  · have hframe := hs.file _ hfile
    obtain ⟨phys, hphys⟩ := exists_translate (hdiv ▸ hframe)
    obtain ⟨hframe', hoffset⟩ := translate_eq_some.mp hphys
    rw [hdiv, hframe, Option.some_inj] at hframe'
    rw [haddr] at hoffset
    refine ⟨phys, hphys, ?_, ?_, fun j hj hne b hb heq => ?_⟩
    · rw [ElfSection.byteAt]
      split
      · next hzero =>
        exact hs.zero hzero.1 _ hpage phys (hframe'.symm ▸ hframe) (by omega)
      · next hdata =>
        have hnum := eq_of_entryFrame (by omega) hframe'.symm
        -- The clearing starts behind the file data, and new frames were free before.
        have hsame : v'.ram phys = v.ram phys := by
          refine hs.same phys fun hne i hi hother => ?_
          by_cases hi' : i < (secs n).filePages
          · rw [hs.file i hi', Option.some_inj, ← hframe', hfits.fileFrame_inj hi' hfile] at hother
            have hlt : ¬(secs n).size.toNat ≤ y := fun hle => hdata ⟨hne, hle⟩
            omega
          · obtain ⟨f, hnew, hfree, -⟩ := hs.new i hi (Nat.le_of_not_lt hi')
            rw [hother, Option.some_inj] at hnew
            exact absurd (hnew ▸ hfree) (hframe' ▸ h.held n hn _ hfile)
        have hbyte : phys = pageNo (secs n).base + BitVec.ofNat 32 y := by
          apply BitVec.eq_of_toNat_eq
          rw [BitVec.toNat_add, toNat_pageNo (by omega), BitVec.toNat_ofNat, hnum]
          omega
        rw [hsame, h.file n hn le_rfl _ hfile phys hframe'.symm, ← hbyte]
    · exact fun hfree => h.held n hn _ hfile (hframe' ▸ hs.free _ hfree)
    · exact fileFrame_ne hsecs hn hj hne.symm hfile hb (hframe'.trans heq)
  · -- A page without file data lies in a new frame, which has been cleared.
    obtain ⟨f, hframe, hfree, hheld⟩ := hs.new _ hpage (Nat.le_of_not_lt hfile)
    obtain ⟨phys, hphys⟩ := exists_translate (hdiv ▸ hframe)
    obtain ⟨hframe', hoffset⟩ := translate_eq_some.mp hphys
    rw [hdiv, hframe, Option.some_inj] at hframe'
    rw [haddr] at hoffset
    subst hframe'
    have hsize : (secs n).size.toNat ≤ y := by
      unfold ElfSection.filePages at hfile
      omega
    have hne : (secs n).size ≠ (secs n).reserve := by
      intro heq
      rw [ElfSection.pages, ← heq] at hpage
      exact hfile hpage
    refine ⟨phys, hphys, ?_, hheld, fun j hj _ b hb heq => h.held j hj b hb (heq ▸ hfree)⟩
    rw [ElfSection.byteAt, if_pos ⟨hne, hsize⟩]
    exact hs.zero hne _ hpage phys hframe (by omega)

theorem placed_old (hsecs : Sections secs A) {i : ℕ} (hi : i ∈ A) (hn : n ∈ A)
    (hne : i ≠ n) (hplaced : v.Placed ram d secs A i) (hs : AddsSection d (secs n) v v') :
    v'.Placed ram d secs A i := by
  intro y hy
  obtain ⟨phys, hphys, hram, hheld, hother⟩ := hplaced y hy
  have hfits := hsecs.fits i hi
  have hdiv : (pageNo (secs i).first + BitVec.ofNat 32 y).toNat / 4096 =
      (secs i).first + y / 4096 := by
    rw [toNat_byte hfits hy]
    omega
  have hpage : y / 4096 < (secs i).pages := by omega
  refine ⟨phys, ?_, ?_, fun hfree => hheld (hs.free _ hfree), hother⟩
  · rw [← hphys]
    refine translate_congr ?_
    rw [hdiv]
    exact hs.others _ ((hfits.lt_user hpage).trans (by decide)) fun b hb =>
      hsecs.pagesApart i hi n hn hne _ hpage b hb
  · rw [ram_eq hs (hother n hn hne.symm) hheld, hram]

theorem step (h : v.Loading ram d secs A n) (hsecs : Sections secs A) (hn : n ∈ A)
    (hs : AddsSection d (secs n) v v') : v'.Loading ram d secs A (n + 1) where
  intact := hs.intact
  held i hi a ha hfree := h.held i hi a ha (hs.free _ hfree)
  placed i hi hle := by
    by_cases heq : i = n
    · subst heq
      exact h.placed_new hsecs hi hs
    · exact placed_old hsecs hi hn heq (h.placed i hi (by omega)) hs
  file i hi hle a ha phys hphys := by
    have hne : i ≠ n := by omega
    rw [← h.file i hi (by omega) a ha phys hphys]
    refine ram_eq hs (fun b hb heq => ?_) (hphys ▸ h.held i hi a ha)
    exact fileFrame_ne hsecs hi hn hne ha hb (hphys ▸ heq)
  unmapped m hm hout := by
    rw [hs.others m (hm.trans (by decide)) (hout n hn n.lt_succ_self)]
    exact h.unmapped m hm fun i hi hlt => hout i hi (Nat.lt_succ_of_lt hlt)

end Vm.Loading

end Horizon
