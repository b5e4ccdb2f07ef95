import Horizon.Memory.Meminfo
import Horizon.Properties.FreeList
import Mathlib.Data.Finset.Card

/-!
# Horizon — the frames that `physical_init` makes available

`physical_init` steps through each range page by page, from its first byte on, and clears the bit of
the page that each step is in. So a range that does not begin at a page boundary makes the page
available that it begins in. The number of bits is rounded down to whole words, and a range below
`PHYSICAL_USABLE_BASE` gives indices that wrap.
-/

namespace Horizon

open StateError

/-! ## Ranges -/

namespace MeminfoMmap

/-- The frame that the range begins in. -/
def first (r : MeminfoMmap) : ℕ := r.start.toNat / 4096

/-- The number of steps. -/
def count (r : MeminfoMmap) : ℕ := (r.stop.toNat - r.start.toNat) / 4096

/-- The address behind the last step does not wrap. -/
def Ends (r : MeminfoMmap) : Prop := r.start.toNat + 4096 * (r.count + 1) < 2 ^ 32

/-- The frame lies in the range as a whole. -/
def Covers (r : MeminfoMmap) (f : ℕ) : Prop :=
  r.start.toNat ≤ 4096 * f ∧ 4096 * (f + 1) ≤ r.stop.toNat

instance (r : MeminfoMmap) : Decidable r.Ends := by unfold Ends; infer_instance

instance (r : MeminfoMmap) (f : ℕ) : Decidable (r.Covers f) := by unfold Covers; infer_instance

end MeminfoMmap

/-- The frame behind the last one that has a bit. -/
def Meminfo.frameLimit (m : Meminfo) : ℕ :=
  physicalUsableBase.toNat + bitmapLength m.blocks * bitmapBits

/-- The frame of the step with number `k`. -/
def stepIndex (start : Word) (k : ℕ) : ℕ :=
  (addrToIndex physicalUsableAddr archPgsize (start + BitVec.ofNat 32 (4096 * k))).toNat

variable {m : Meminfo} {r : MeminfoMmap} {s s' : PhysicalState} {start stop : Word} {k n fuel : ℕ}

theorem toNat_addrToIndex (addr : Word) : (addrToIndex physicalUsableAddr archPgsize addr).toNat =
      (addr.toNat + (2 ^ 32 - 0x1000000)) % 2 ^ 32 / 4096 := by
  have hbase : physicalUsableAddr.toNat = 0x1000000 := rfl
  have hsize : archPgsize.toNat = 4096 := rfl
  rw [addrToIndex, BitVec.toNat_udiv, BitVec.toNat_sub, hbase, hsize]
  omega

/-! ## The steps through a range -/

/-- The state after some of the steps. -/
def PhysicalState.clearSteps (s : PhysicalState) (start : Word) (k : ℕ) : PhysicalState :=
  { s with
    allocMap := ((List.range k).map (stepIndex start)).foldl Bmstack.clear s.allocMap
    cleared := s.cleared ++ (List.range k).map (stepIndex start) }

theorem PhysicalState.clearSteps_succ : s.clearSteps start (k + 1) = { s.clearSteps start k with
      allocMap := (s.clearSteps start k).allocMap.clear (stepIndex start k)
      cleared := (s.clearSteps start k).cleared ++ [stepIndex start k] } := by
  simp only [PhysicalState.clearSteps, List.range_succ, List.map_append, List.foldl_append,
    List.map_cons, List.map_nil, List.foldl_cons, List.foldl_nil, List.append_assoc]

theorem PhysicalState.clearSteps_zero : s.clearSteps start 0 = s := by
  simp only [PhysicalState.clearSteps, List.range_zero, List.map_nil, List.foldl_nil,
    List.append_nil]

/-- As long as there is a page left, the loop goes on. -/
theorem clearRange_steps (hsteps : ∀ j < k,
      start + BitVec.ofNat 32 (4096 * j) + archPgsize ≤ stop) : clearRange stop (fuel + k) start s =
      clearRange stop fuel (start + BitVec.ofNat 32 (4096 * k)) (s.clearSteps start k) := by
  induction k generalizing fuel with
  | zero => rw [Nat.mul_zero, BitVec.add_zero, PhysicalState.clearSteps_zero, Nat.add_zero]
  | succ k ih =>
    have hnext : start + BitVec.ofNat 32 (4096 * k) + archPgsize =
        start + BitVec.ofNat 32 (4096 * (k + 1)) := by
      rw [BitVec.add_assoc, Nat.mul_succ, BitVec.ofNat_add]
      rfl
    have hround : fuel + (k + 1) = fuel + 1 + k := by omega
    rw [hround, ih fun j hj => hsteps j (Nat.lt_succ_of_lt hj), clearRange,
      if_pos (hsteps k k.lt_succ_self), hnext, PhysicalState.clearSteps_succ]
    rfl

variable (start k) in
theorem toNat_step : (start + BitVec.ofNat 32 (4096 * k) + archPgsize).toNat =
    (start.toNat + 4096 * (k + 1)) % 2 ^ 32 := by
  have hsize : archPgsize.toNat = 4096 := rfl
  rw [BitVec.toNat_add, BitVec.toNat_add, BitVec.toNat_ofNat, hsize]
  omega

theorem MeminfoMmap.count_bounds (horder : r.start ≤ r.stop) :
    r.start.toNat + 4096 * r.count ≤ r.stop.toNat ∧
      r.stop.toNat < r.start.toNat + 4096 * (r.count + 1) ∧ r.count < 0x100000 := by
  have hle := BitVec.le_def.mp horder
  have hlt := r.stop.isLt
  rw [MeminfoMmap.count]
  omega

/-- A range whose last step does not wrap is stepped through once. -/
theorem clearRange_of_ends (horder : r.start ≤ r.stop) (hends : r.Ends) :
    clearRange r.stop 0x100001 r.start s = .ok () (s.clearSteps r.start r.count) := by
  obtain ⟨hlast, hnext, hcount⟩ := r.count_bounds horder
  rw [MeminfoMmap.Ends] at hends
  have hsteps (j : ℕ) (hj : j < r.count) :
      r.start + BitVec.ofNat 32 (4096 * j) + archPgsize ≤ r.stop := by
    rw [BitVec.le_def, toNat_step]
    omega
  have hstop : ¬r.start + BitVec.ofNat 32 (4096 * r.count) + archPgsize ≤ r.stop := by
    rw [BitVec.le_def, toNat_step]
    omega
  have hfuel : 0x100001 = 0x100000 - r.count + 1 + r.count := by omega
  rw [hfuel, clearRange_steps hsteps, clearRange, if_neg hstop]
  rfl

/-- Otherwise the steps go on from the start of memory, and never end. -/
theorem clearRange_of_not_ends (horder : r.start ≤ r.stop) (hends : ¬r.Ends) :
    clearRange r.stop 0x100001 r.start s = .error .hang (s.clearSteps r.start 0x100001) := by
  obtain ⟨hlast, hnext, hcount⟩ := r.count_bounds horder
  rw [MeminfoMmap.Ends] at hends
  have hsteps (j : ℕ) (_ : j < 0x100001) :
      r.start + BitVec.ofNat 32 (4096 * j) + archPgsize ≤ r.stop := by
    rw [BitVec.le_def, toNat_step]
    omega
  have hfuel : 0x100001 = 0 + 0x100001 := rfl
  rw [hfuel, clearRange_steps hsteps]
  rfl

/-! ## All ranges -/

/-- The state after all ranges. -/
def PhysicalState.clearRanges (s : PhysicalState) (l : List MeminfoMmap) : PhysicalState :=
  l.foldl (fun s r => s.clearSteps r.start r.count) s

/-- The indices of a range. -/
def MeminfoMmap.indices (r : MeminfoMmap) : List ℕ := (List.range r.count).map (stepIndex r.start)

theorem PhysicalState.cleared_clearRanges (l : List MeminfoMmap) :
    (s.clearRanges l).cleared = s.cleared ++ l.flatMap MeminfoMmap.indices := by
  induction l generalizing s with
  | nil => exact (List.append_nil _).symm
  | cons r l ih =>
    rw [PhysicalState.clearRanges, List.foldl_cons, ← PhysicalState.clearRanges, ih,
      List.flatMap_cons, ← List.append_assoc]
    rfl

theorem PhysicalState.allocMap_clearRanges (l : List MeminfoMmap) : (s.clearRanges l).allocMap =
      (l.flatMap MeminfoMmap.indices).foldl Bmstack.clear s.allocMap := by
  induction l generalizing s with
  | nil => rfl
  | cons r l ih =>
    rw [PhysicalState.clearRanges, List.foldl_cons, ← PhysicalState.clearRanges, ih,
      List.flatMap_cons, List.foldl_append]
    rfl

theorem forM_clearRange_of_ends {l : List MeminfoMmap} (horder : ∀ r ∈ l, r.start ≤ r.stop)
    (hends : ∀ r ∈ l, r.Ends) :
    (l.forM fun r => clearRange r.stop 0x100001 r.start) s = .ok () (s.clearRanges l) := by
  induction l generalizing s with
  | nil => rfl
  | cons r l ih =>
    have hfirst := clearRange_of_ends (s := s) (horder r List.mem_cons_self)
      (hends r List.mem_cons_self)
    refine (bind_apply_of_ok hfirst).trans ?_
    exact ih (fun r hr => horder r (List.mem_cons_of_mem _ hr))
      fun r hr => hends r (List.mem_cons_of_mem _ hr)

theorem forM_clearRange_of_not_ends {l : List MeminfoMmap} (horder : ∀ r ∈ l, r.start ≤ r.stop)
    (hends : ¬∀ r ∈ l, r.Ends) : ∃ r ∈ l, ¬r.Ends ∧ ∃ s',
      (l.forM fun r => clearRange r.stop 0x100001 r.start) s = .error .hang s' ∧
        stepIndex r.start r.count ∈ s'.cleared := by
  induction l generalizing s with
  | nil => exact absurd (fun r hr => absurd hr List.not_mem_nil) hends
  | cons r l ih =>
    have hr := horder r List.mem_cons_self
    by_cases hfirst : r.Ends
    · have hrest : ¬∀ r ∈ l, r.Ends := fun hall => hends (List.forall_mem_cons.mpr ⟨hfirst, hall⟩)
      have horder' : ∀ d ∈ l, d.start ≤ d.stop := fun d hd => horder d (List.mem_cons_of_mem _ hd)
      obtain ⟨d, hd, hnot, s', hloop, hmem⟩ :=
        ih (s := s.clearSteps r.start r.count) horder' hrest
      refine ⟨d, List.mem_cons_of_mem _ hd, hnot, s', ?_, hmem⟩
      exact (bind_apply_of_ok (clearRange_of_ends hr hfirst)).trans hloop
    · refine ⟨r, List.mem_cons_self, hfirst, s.clearSteps r.start 0x100001,
        bind_apply_of_error (clearRange_of_not_ends hr hfirst), ?_⟩
      have hcount := (r.count_bounds hr).2.2
      exact List.mem_append_right _ (List.mem_map_of_mem (List.mem_range.mpr (by omega)))

/-- The state before the ranges. -/
def PhysicalState.marked (s : PhysicalState) (blocks : ℕ) : PhysicalState :=
  { s with allocMap := ({ s.allocMap with head := none }).setAll blocks }

theorem physicalInit_of_ends (hm : m.Valid) (hends : ∀ r ∈ m.mmaps, r.Ends) :
    physicalInit m s = .ok ()
      { (s.marked m.blocks).clearRanges m.mmaps with
        allocMap := ((s.marked m.blocks).clearRanges m.mmaps).allocMap.link m.blocks
        refCounts := fun i => if i < m.blocks then 0
          else ((s.marked m.blocks).clearRanges m.mmaps).refCounts i
        blockCount := m.blocks } := by
  have hloop := forM_clearRange_of_ends (s := s.marked m.blocks) hm.order hends
  rw [physicalInit, modify_bind_apply]
  exact bind_apply_of_ok hloop

theorem cleared_physicalInit (hm : m.Valid) (hends : ∀ r ∈ m.mmaps, r.Ends) {allocMap : Bmstack}
    {refCounts : ℕ → BitVec 8} {blockCount : ℕ} :
    (final (physicalInit m { allocMap, refCounts, blockCount })).cleared =
      m.mmaps.flatMap MeminfoMmap.indices := by
  rw [physicalInit_of_ends hm hends]
  exact (PhysicalState.cleared_clearRanges _).trans (List.nil_append _)

theorem physicalInit_of_not_ends (hm : m.Valid) (hends : ¬∀ r ∈ m.mmaps, r.Ends) :
    ∃ r ∈ m.mmaps, ¬r.Ends ∧ ∃ s', physicalInit m s = .error .hang s' ∧
      stepIndex r.start r.count ∈ s'.cleared := by
  obtain ⟨r, hr, hnot, s', hloop, hmem⟩ :=
    forM_clearRange_of_not_ends (s := s.marked m.blocks) hm.order hends
  refine ⟨r, hr, hnot, s', ?_, hmem⟩
  rw [physicalInit, modify_bind_apply]
  exact bind_apply_of_error hloop

/-! ## Indices -/

theorem stepIndex_eq (hbase : physicalUsableAddr ≤ start) (hlt : start.toNat + 4096 * k < 2 ^ 32) :
    stepIndex start k + 0x1000 = start.toNat / 4096 + k := by
  have hbase : 0x1000000 ≤ start.toNat := BitVec.le_def.mp hbase
  rw [stepIndex, toNat_addrToIndex, BitVec.toNat_add, BitVec.toNat_ofNat]
  omega

theorem stepIndex_of_lt (hbase : ¬physicalUsableAddr ≤ start) : 0xFF000 ≤ stepIndex start 0 := by
  have hbase : ¬0x1000000 ≤ start.toNat := fun hle => hbase (BitVec.le_def.mpr hle)
  rw [stepIndex, toNat_addrToIndex, Nat.mul_zero, BitVec.add_zero]
  omega

theorem stepIndex_of_not_ends (horder : r.start ≤ r.stop) (hends : ¬r.Ends) :
    stepIndex r.start r.count = 0xFEFFF := by
  obtain ⟨hlast, hnext, hcount⟩ := r.count_bounds horder
  have hlt := r.stop.isLt
  rw [MeminfoMmap.Ends] at hends
  rw [stepIndex, toNat_addrToIndex, BitVec.toNat_add, BitVec.toNat_ofNat]
  omega

theorem Meminfo.blocks_le (hlimit : physicalUsableAddr ≤ m.memLimit) :
    m.blocks = m.memLimit.toNat / 4096 - 0x1000 ∧ m.blocks ≤ 0xFEFFF := by
  have hlimit : 0x1000000 ≤ m.memLimit.toNat := BitVec.le_def.mp hlimit
  have hlt := m.memLimit.isLt
  rw [Meminfo.blocks, toNat_addrToIndex]
  omega

theorem Meminfo.frameLimit_eq : m.frameLimit = 0x1000 + m.blocks / 32 * 32 := rfl

/-- Every index that `bmstack_clear` is called with has a bit of its own exactly if no range begins
below `PHYSICAL_USABLE_BASE`, and none reaches into the frames behind the last whole word or to the
end of memory; ranges of less than a page do not count. -/
theorem cleared_lt_iff (hm : m.Valid) (hlimit : physicalUsableAddr < m.memLimit)
    (allocMap : Bmstack) (refCounts : ℕ → BitVec 8) (blockCount : ℕ) :
    (∀ index ∈ (final (physicalInit m { allocMap, refCounts, blockCount })).cleared,
      index < bitmapLength m.blocks * bitmapBits) ↔
    ∀ r ∈ m.mmaps, r.Ends ∧ (0 < r.count →
      physicalUsableAddr ≤ r.start ∧ r.first + r.count ≤ m.frameLimit) := by
  have hblocks := Meminfo.blocks_le (BitVec.le_of_lt hlimit)
  have hlength : bitmapLength m.blocks * bitmapBits = m.blocks / 32 * 32 := rfl
  have hframes := Meminfo.frameLimit_eq (m := m)
  by_cases hends : ∀ r ∈ m.mmaps, r.Ends
  · rw [cleared_physicalInit hm hends]
    constructor
    · intro hlt r hr
      refine ⟨hends r hr, fun hpos => ?_⟩
      have hindex (k : ℕ) (hk : k < r.count) : stepIndex r.start k < m.blocks / 32 * 32 :=
        hlt _ (List.mem_flatMap.mpr ⟨r, hr, List.mem_map_of_mem (List.mem_range.mpr hk)⟩)
      have hbase : physicalUsableAddr ≤ r.start := by
        by_contra hbase
        have hfirst := stepIndex_of_lt hbase
        have := hindex 0 hpos
        omega
      obtain ⟨hlast, -, -⟩ := r.count_bounds (hm.order r hr)
      have hstop := r.stop.isLt
      have heq := stepIndex_eq (k := r.count - 1) hbase (by omega)
      have := hindex (r.count - 1) (by omega)
      refine ⟨hbase, ?_⟩
      rw [MeminfoMmap.first]
      omega
    · intro hfits index hindex
      obtain ⟨r, hr, hmem⟩ := List.mem_flatMap.mp hindex
      obtain ⟨k, hk, rfl⟩ := List.mem_map.mp hmem
      have hk := List.mem_range.mp hk
      obtain ⟨hbase, hlast⟩ := (hfits r hr).2 (by omega)
      obtain ⟨hbounds, -, -⟩ := r.count_bounds (hm.order r hr)
      have hstop := r.stop.isLt
      have heq := stepIndex_eq (k := k) hbase (by omega)
      rw [MeminfoMmap.first] at hlast
      omega
  · -- The steps through such a range do not stop, and clear a bit behind the map.
    refine iff_of_false (fun hlt => ?_) fun hfits => hends fun r hr => (hfits r hr).1
    obtain ⟨r, hr, hnot, s', hinit, hmem⟩ :=
      physicalInit_of_not_ends (s := { allocMap, refCounts, blockCount }) hm hends
    rw [hinit] at hlt
    have := hlt _ hmem
    rw [stepIndex_of_not_ends (hm.order r hr) hnot] at this
    omega

/-- Two whole words of frames, from `PHYSICAL_USABLE_BASE` on. -/
def alignedInfo : Meminfo := { memLimit := 0x1040000, mmaps := [⟨0x1000000, 0x1040000⟩] }

/-- Conventional memory, and extended memory up to 32 MB. -/
def pcInfo : Meminfo :=
  { memLimit := 0x2000000, mmaps := [⟨0, 0x9FC00⟩, ⟨0x100000, 0x2000000⟩] }

theorem alignedInfo_valid : alignedInfo.Valid :=
  ⟨by decide, by decide, .inr ⟨_, List.mem_cons_self, rfl⟩⟩

theorem pcInfo_valid : pcInfo.Valid :=
  ⟨by decide, by decide, .inr ⟨_, List.mem_cons_of_mem _ List.mem_cons_self, rfl⟩⟩

theorem aligned_indices_lt : alignedInfo.Valid ∧
    ∀ index ∈ (final (physicalInit alignedInfo ⟨{}, fun _ => 0, 0, []⟩)).cleared, index < 64 :=
  ⟨alignedInfo_valid,
    (cleared_lt_iff alignedInfo_valid (by decide) {} (fun _ => 0) 0).mpr (by decide)⟩

/-- The first page of conventional memory has the index `0xFF000`, in a bitmap for `0x1000`. -/
theorem low_page_out_of_bitmap :
    0xFF000 ∈ (final (physicalInit pcInfo ⟨{}, fun _ => 0, 0, []⟩)).cleared ∧
      bitmapLength pcInfo.blocks * bitmapBits = 0x1000 := by
  have hends : ∀ r ∈ pcInfo.mmaps, r.Ends := by decide
  refine ⟨?_, by decide⟩
  have hfirst : 0xFF000 = stepIndex 0 0 := by decide
  rw [cleared_physicalInit pcInfo_valid hends, hfirst]
  refine List.mem_flatMap.mpr ⟨⟨0, 0x9FC00⟩, List.mem_cons_self, ?_⟩
  exact List.mem_map_of_mem (List.mem_range.mpr (by decide))

/-! ## Allocation -/

/-- The frame is returned by some sequence of calls. -/
inductive Allocates : Vm → Frame → Prop where
  | now {vm vm' : Vm} {f : Frame} (halloc : physicalAlloc vm = .ok f vm') : Allocates vm f
  | later {vm vm' : Vm} {f g : Frame} (halloc : physicalAlloc vm = .ok g vm')
      (hrest : Allocates vm' f) : Allocates vm f

section Allocates

variable {vm vm' : Vm} {f : Frame} {l : List ℕ} {items index : ℕ}

theorem physicalAlloc_clear (hfree : vm.allocMap.FreeList (bitmapLength items) l)
    (halloc : physicalAlloc vm = .ok f vm') :
    ∃ index < bitmapLength items * bitmapBits, vm.allocMap.test index = false ∧
      f = physicalUsableBase + BitVec.ofNat 20 index ∧ vm'.blockCount = vm.blockCount ∧
      vm'.allocMap = vm.allocMap.set index ∧
      ∃ l', vm'.allocMap.FreeList (bitmapLength items) l' := by
  obtain ⟨index, map, hfind, -, rfl, rfl⟩ := physicalAlloc_eq_ok.mp halloc
  obtain ⟨htest, hmap⟩ := Bmstack.findAndSet_eq_some hfind
  obtain ⟨hindex, hfree'⟩ := hfree.findAndSet hfind
  refine ⟨index, ?_, htest, rfl, rfl, hmap, hfree'⟩
  simp only [bitmapBits]
  omega

theorem Allocates.clear (h : Allocates vm f) (hfree : vm.allocMap.FreeList (bitmapLength items) l) :
    ∃ index < bitmapLength items * bitmapBits, vm.allocMap.test index = false ∧
      f = physicalUsableBase + BitVec.ofNat 20 index := by
  induction h generalizing l with
  | now halloc =>
    obtain ⟨index, hlt, htest, hf, -⟩ := physicalAlloc_clear hfree halloc
    exact ⟨index, hlt, htest, hf⟩
  | later halloc _ ih =>
    obtain ⟨index, -, -, -, -, hmap, l', hfree'⟩ := physicalAlloc_clear hfree halloc
    obtain ⟨j, hlt, htest, hf⟩ := ih hfree'
    rw [hmap, Bmstack.test_set, Bool.or_eq_false_iff] at htest
    exact ⟨j, hlt, htest.2, hf⟩

/-- The bits that are clear. -/
def Bmstack.clearBits (bms : Bmstack) (n : ℕ) : Finset ℕ :=
  (Finset.range n).filter fun i => bms.test i = false

theorem Bmstack.card_clearBits_set {bms : Bmstack} (hindex : index < n)
    (htest : bms.test index = false) :
    ((bms.set index).clearBits n).card < (bms.clearBits n).card := by
  refine Finset.card_lt_card (Finset.ssubset_iff_of_subset (fun i hi => ?_) |>.mpr ⟨index, ?_, ?_⟩)
  · obtain ⟨hlt, hi⟩ := Finset.mem_filter.mp hi
    rw [Bmstack.test_set, Bool.or_eq_false_iff] at hi
    exact Finset.mem_filter.mpr ⟨hlt, hi.2⟩
  · exact Finset.mem_filter.mpr ⟨Finset.mem_range.mpr hindex, htest⟩
  · intro hmem
    have hset := (Finset.mem_filter.mp hmem).2
    rw [Bmstack.test_set, decide_eq_true rfl, Bool.true_or] at hset
    cases hset

theorem allocates_of_clear (hfree : vm.allocMap.FreeList (bitmapLength items) l)
    (hcount : bitmapLength items * bitmapBits ≤ vm.blockCount)
    (hindex : index < bitmapLength items * bitmapBits) (htest : vm.allocMap.test index = false) :
    Allocates vm (physicalUsableBase + BitVec.ofNat 20 index) := by
  -- By induction on the number of clear bits.
  induction hn : (vm.allocMap.clearBits (bitmapLength items * bitmapBits)).card
    using Nat.strong_induction_on generalizing vm l with
  | _ n ih =>
    obtain ⟨⟨j, map⟩, hfind⟩ := Option.isSome_iff_exists.mp
      (hfree.findAndSet_isSome ⟨index, hindex, htest⟩)
    have hj : j < bitmapLength items * bitmapBits := by
      have := (hfree.findAndSet hfind).1
      simp only [bitmapBits]
      omega
    have halloc : physicalAlloc vm = .ok (physicalUsableBase + BitVec.ofNat 20 j)
        { vm.setCount j 1 with allocMap := map } :=
      physicalAlloc_eq_ok.mpr ⟨j, map, hfind, by omega, rfl, rfl⟩
    by_cases hsame : j = index
    · subst hsame
      exact .now halloc
    · obtain ⟨hjtest, rfl⟩ := Bmstack.findAndSet_eq_some hfind
      obtain ⟨l', hfree'⟩ := (hfree.findAndSet hfind).2
      refine .later halloc (ih _ ?_ hfree' hcount ?_ rfl)
      · rw [← hn]
        exact Bmstack.card_clearBits_set hj hjtest
      · show (vm.allocMap.set j).test index = false
        rw [Bmstack.test_set, htest, decide_eq_false (Ne.symm hsame), Bool.or_false]

end Allocates

/-! ## The frames that can be allocated -/

theorem Bmstack.test_foldl_clear {bms : Bmstack} (l : List ℕ) (i : ℕ) :
    (l.foldl Bmstack.clear bms).test i = (!decide (i ∈ l) && bms.test i) := by
  induction l generalizing bms with
  | nil => simp
  | cons j l ih =>
    rw [List.foldl_cons, ih, Bmstack.test_clear]
    by_cases hij : i = j
    · simp [hij]
    · simp [hij]

theorem Bmstack.head_foldl_clear {bms : Bmstack} (l : List ℕ) (hhead : bms.head = none) :
    (l.foldl Bmstack.clear bms).head = none := by
  induction l generalizing bms with
  | nil => exact hhead
  | cons j l ih => exact ih (Bmstack.head_clear_of_none hhead)

theorem Bmstack.test_setAll {bms : Bmstack} {items i : ℕ}
    (hi : i < bitmapLength items * bitmapBits) : (bms.setAll items).test i = true := by
  have hword : i / 32 < bitmapLength items := by
    simp only [bitmapBits] at hi
    omega
  rw [Bmstack.test_eq, bitmapTest_eq, Bmstack.setAll]
  simp only [if_pos hword]
  rw [BitVec.getLsbD_allOnes]
  exact decide_eq_true (Nat.mod_lt _ (by decide))

/-- The bits that are clear after `physical_init` are the ones that have been cleared. -/
theorem allocates_physicalInit (hm : m.Valid) (hends : ∀ r ∈ m.mmaps, r.Ends) (vm : Vm) {f : Frame}
    (hinit : physicalInit m s = .ok () s') : Allocates (s'.vm vm) f ↔
      ∃ index < bitmapLength m.blocks * bitmapBits, index ∈ m.mmaps.flatMap MeminfoMmap.indices ∧
        f = physicalUsableBase + BitVec.ofNat 20 index := by
  rw [physicalInit_of_ends hm hends] at hinit
  obtain ⟨-, rfl⟩ := EStateM.Result.ok.inj hinit
  let bms := ((s.marked m.blocks).clearRanges m.mmaps).allocMap
  have hbms : bms = (m.mmaps.flatMap MeminfoMmap.indices).foldl Bmstack.clear
      (s.marked m.blocks).allocMap := PhysicalState.allocMap_clearRanges _
  have hhead : bms.head = none := by
    rw [hbms]
    exact Bmstack.head_foldl_clear _ rfl
  have htest (i : ℕ) (hi : i < bitmapLength m.blocks * bitmapBits) :
      (bms.link m.blocks).test i = false ↔ i ∈ m.mmaps.flatMap MeminfoMmap.indices := by
    have hset : (s.marked m.blocks).allocMap.test i = true := Bmstack.test_setAll hi
    rw [Bmstack.test_link, hbms, Bmstack.test_foldl_clear, hset, Bool.and_true]
    simp
  have hfree : ∃ l, (bms.link m.blocks).FreeList (bitmapLength m.blocks) l := by
    have heta : bms = { entries := bms.entries, head := none } := by rw [← hhead]
    rw [heta]
    exact Bmstack.link_freeList bms.entries m.blocks
  obtain ⟨l, hfree⟩ := hfree
  constructor
  · intro hallocates
    obtain ⟨index, hlt, hclear, hf⟩ := hallocates.clear hfree
    exact ⟨index, hlt, (htest index hlt).mp hclear, hf⟩
  · rintro ⟨index, hlt, hmem, rfl⟩
    refine allocates_of_clear hfree ?_ hlt ((htest index hlt).mpr hmem)
    exact Nat.div_mul_le_self _ _

/-- The frames that can be allocated, if no range begins below `PHYSICAL_USABLE_BASE`. -/
theorem allocates_iff (hm : m.Valid) (hends : ∀ r ∈ m.mmaps, r.Ends)
    (hbase : ∀ r ∈ m.mmaps, physicalUsableAddr ≤ r.start) (vm : Vm) {f : Frame}
    (hinit : physicalInit m s = .ok () s') : Allocates (s'.vm vm) f ↔
      f.toNat < m.frameLimit ∧ ∃ r ∈ m.mmaps, r.first ≤ f.toNat ∧ f.toNat < r.first + r.count := by
  have husable : physicalUsableBase.toNat = 0x1000 := rfl
  have hframes := Meminfo.frameLimit_eq (m := m)
  have hlength : bitmapLength m.blocks * bitmapBits = m.blocks / 32 * 32 := rfl
  -- A step of a range, and the frame it is in.
  have hstep (r : MeminfoMmap) (hr : r ∈ m.mmaps) (k : ℕ) (hk : k < r.count) :
      stepIndex r.start k + 0x1000 = r.first + k ∧ r.first + k < 2 ^ 20 := by
    obtain ⟨hlast, -, -⟩ := r.count_bounds (hm.order r hr)
    have hstop := r.stop.isLt
    refine ⟨stepIndex_eq (hbase r hr) (by omega), ?_⟩
    rw [MeminfoMmap.first]
    omega
  rw [allocates_physicalInit hm hends vm hinit]
  constructor
  · rintro ⟨index, hlt, hindex, rfl⟩
    obtain ⟨r, hr, hmem⟩ := List.mem_flatMap.mp hindex
    obtain ⟨k, hk, rfl⟩ := List.mem_map.mp hmem
    have hk := List.mem_range.mp hk
    obtain ⟨heq, hsmall⟩ := hstep r hr k hk
    have hf : (physicalUsableBase + BitVec.ofNat 20 (stepIndex r.start k)).toNat = r.first + k := by
      rw [BitVec.toNat_add, BitVec.toNat_ofNat, husable]
      omega
    exact ⟨by omega, r, hr, by omega, by omega⟩
  · rintro ⟨hlt, r, hr, hfirst, hlast⟩
    obtain ⟨heq, hsmall⟩ := hstep r hr (f.toNat - r.first) (by omega)
    refine ⟨stepIndex r.start (f.toNat - r.first), by omega, List.mem_flatMap.mpr ⟨r, hr,
      List.mem_map_of_mem (List.mem_range.mpr (by omega))⟩, ?_⟩
    rw [← BitVec.toNat_inj, BitVec.toNat_add, BitVec.toNat_ofNat, husable]
    omega

/-! ## Whole frames -/

/-- After `physical_init` the frames that lie in a range as a whole can be allocated, and no
others. -/
def UsableFrames (m : Meminfo) (s : PhysicalState) (vm : Vm) : Prop :=
  ∃ s', physicalInit m s = .ok () s' ∧
    ∀ f, Allocates (s'.vm vm) f ↔ ∃ r ∈ m.mmaps, r.Covers f.toNat

/-- The steps through a range count its whole frames. -/
structure Meminfo.Counts (m : Meminfo) (r : MeminfoMmap) : Prop where
  /-- The last step does not wrap. -/
  ends : r.Ends
  /-- The frame of the first step lies in a range, or behind the last whole word. -/
  start : 0 < r.count → r.first < m.frameLimit → ∃ d ∈ m.mmaps, d.Covers r.first
  /-- The last frame of the range is the frame of a step. -/
  stop : r.Covers (r.first + r.count) →
    ∃ d ∈ m.mmaps, d.first ≤ r.first + r.count ∧ r.first + r.count < d.first + d.count
  /-- There is no frame behind the last whole word. -/
  word : ∀ f, r.Covers f → f < m.frameLimit

/-- A frame of a range is the frame of a step, or the last one. -/
theorem MeminfoMmap.Covers.step {f : ℕ} (h : r.Covers f) : r.first ≤ f ∧ f ≤ r.first + r.count := by
  rw [MeminfoMmap.Covers] at h
  rw [MeminfoMmap.first, MeminfoMmap.count]
  omega

/-- The frame of a step lies in the range, unless it is the first one. -/
theorem MeminfoMmap.covers_of_step {f : ℕ} (horder : r.start ≤ r.stop) (hfirst : r.first < f)
    (hlast : f < r.first + r.count) : r.Covers f := by
  have hle := BitVec.le_def.mp horder
  rw [MeminfoMmap.first] at hfirst hlast
  rw [MeminfoMmap.count] at hlast
  rw [MeminfoMmap.Covers]
  omega

theorem MeminfoMmap.Covers.lt {f : ℕ} (h : r.Covers f) : f < 2 ^ 20 := by
  have hlt := r.stop.isLt
  rw [MeminfoMmap.Covers] at h
  omega

/-- Exactly the whole frames of the ranges can be allocated if the steps through each range count
them. -/
theorem usableFrames_iff (hm : m.Valid) (hbase : ∀ r ∈ m.mmaps, physicalUsableAddr ≤ r.start)
    (s : PhysicalState) (vm : Vm) : UsableFrames m s vm ↔ ∀ r ∈ m.mmaps, m.Counts r := by
  constructor
  · rintro ⟨s', hinit, husable⟩
    have hends : ∀ r ∈ m.mmaps, r.Ends := by
      by_contra hends
      obtain ⟨r, -, -, t, hhang, -⟩ := physicalInit_of_not_ends (s := s) hm hends
      exact nomatch hinit.symm.trans hhang
    have hiff (f : ℕ) (hf : f < 2 ^ 20) : (f < m.frameLimit ∧
        ∃ r ∈ m.mmaps, r.first ≤ f ∧ f < r.first + r.count) ↔ ∃ r ∈ m.mmaps, r.Covers f := by
      have hnat : (BitVec.ofNat 20 f).toNat = f := by
        rw [BitVec.toNat_ofNat, Nat.mod_eq_of_lt hf]
      have := (allocates_iff hm hends hbase vm hinit).symm.trans (husable (BitVec.ofNat 20 f))
      rwa [hnat] at this
    intro r hr
    refine ⟨hends r hr, fun hpos hlt => ?_, fun hcovers => ?_, fun f hcovers => ?_⟩
    · have hstart := r.start.isLt
      have hsmall : r.first < 2 ^ 20 := by
        rw [MeminfoMmap.first]
        omega
      exact (hiff _ hsmall).mp ⟨hlt, r, hr, le_rfl, by omega⟩
    · exact ((hiff _ hcovers.lt).mpr ⟨r, hr, hcovers⟩).2
    · exact ((hiff f hcovers.lt).mpr ⟨r, hr, hcovers⟩).1
  · intro hcounts
    have hends : ∀ r ∈ m.mmaps, r.Ends := fun r hr => (hcounts r hr).ends
    have hinit := physicalInit_of_ends (s := s) hm hends
    refine ⟨_, hinit, fun f => (allocates_iff hm hends hbase vm hinit).trans ⟨?_, ?_⟩⟩
    · rintro ⟨hlt, r, hr, hfirst, hlast⟩
      obtain heq | hne := Nat.eq_or_lt_of_le hfirst
      · rw [← heq] at hlt ⊢
        exact (hcounts r hr).start (by omega) hlt
      · exact ⟨r, hr, MeminfoMmap.covers_of_step (hm.order r hr) hne hlast⟩
    · rintro ⟨r, hr, hcovers⟩
      refine ⟨(hcounts r hr).word _ hcovers, ?_⟩
      obtain ⟨hfirst, hlast⟩ := hcovers.step
      obtain heq | hlt := Nat.eq_or_lt_of_le hlast
      · rw [heq] at hcovers ⊢
        exact (hcounts r hr).stop hcovers
      · exact ⟨r, hr, hfirst, hlt⟩

/-- Memory before anything has been set up. -/
def blankVm : Vm where
  pages := fun _ _ => {}
  kernelDir := 0
  cr3 := 0
  allocMap := {}
  refCounts := fun _ => 0
  blockCount := 0
  ram := fun _ => 0
  blocksBase := 0

theorem aligned_frames_usable : UsableFrames alignedInfo ⟨{}, fun _ => 0, 0, []⟩ blankVm := by
  refine (usableFrames_iff alignedInfo_valid (by decide) _ _).mpr fun r hr => ?_
  rw [List.mem_singleton.mp hr]
  refine ⟨by decide, fun _ _ => ⟨_, List.mem_cons_self, by decide⟩, fun hcovers => ?_,
    fun f hcovers => ?_⟩
  · exact absurd hcovers (by decide)
  · have hstop : 4096 * (f + 1) ≤ 0x1040000 := hcovers.2
    have hlimit : alignedInfo.frameLimit = 0x1040 := by decide
    omega

/-- One range that begins in the middle of a page. -/
def unalignedInfo : Meminfo := { memLimit := 0x1021000, mmaps := [⟨0x1000800, 0x1021000⟩] }

/-- The frame that the range begins in is given out, although half of it is not in the range. -/
theorem partial_frame_allocated :
    unalignedInfo.Valid ∧ (∀ r ∈ unalignedInfo.mmaps, physicalUsableAddr ≤ r.start) ∧
    ∃ s', physicalInit unalignedInfo ⟨{}, fun _ => 0, 0, []⟩ = .ok () s' ∧
      Allocates (s'.vm blankVm) 0x1000 ∧ ¬∃ r ∈ unalignedInfo.mmaps, r.Covers 0x1000 := by
  have hvalid : unalignedInfo.Valid :=
    ⟨by decide, by decide, .inr ⟨_, List.mem_cons_self, rfl⟩⟩
  have hends : ∀ r ∈ unalignedInfo.mmaps, r.Ends := by decide
  have hbase : ∀ r ∈ unalignedInfo.mmaps, physicalUsableAddr ≤ r.start := by decide
  have hinit := physicalInit_of_ends (s := ⟨{}, fun _ => 0, 0, []⟩) hvalid hends
  refine ⟨hvalid, hbase, _, hinit, (allocates_iff hvalid hends hbase blankVm hinit).mpr ?_, ?_⟩
  · exact ⟨by decide, _, List.mem_cons_self, by decide, by decide⟩
  · rintro ⟨r, hr, hcovers⟩
    rw [List.mem_singleton.mp hr] at hcovers
    exact absurd hcovers (by decide)

end Horizon
