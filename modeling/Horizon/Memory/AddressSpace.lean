import Horizon.Lib.FramePool
import Horizon.Memory.Virtual

/-!
# Horizon — address spaces as maps

The page directories and tables of all processes, seen as one map from slots (a process, a
directory index and a table index) to frames, together with the allocator: `Vm.pool`. The paging
functions act on it as the operations of a frame pool do, provided that no frame holds two
directories or tables (`Vm.Separate`) and that the allocator does not hand out one that does
(`Vm.Tidy`).

`Vm.Within A` is what such an operation leaves alone: the directories and tables of processes
outside of `A`, and the kernel's half of every directory.
-/

namespace Horizon

open StateError FramePool

/-- The directory entries from this one on are the kernel's. -/
def userTop : BitVec 10 := dirIndex kernelVirtBase

/-- What the paging code uses a frame for. -/
inductive Use where
  | dir (p : Pid)
  | table (p : Pid) (i : BitVec 10)
  | kernelDir
  | kernelTable (i : BitVec 10)
  deriving DecidableEq

/-- Is it one of the directories and tables of some processes? -/
def Use.of (A : Set Pid) : Use → Prop
  | .dir p | .table p _ => p ∈ A
  | .kernelDir | .kernelTable _ => False

theorem Use.of_mono {A B : Set Pid} {u : Use} (h : A ⊆ B) (hu : u.of A) : u.of B := by
  cases u with
  | dir p => exact h hu
  | table p i => exact h hu
  | kernelDir => exact hu
  | kernelTable i => exact hu

/-- The page directories of the live processes. -/
def Kernel.dirs (k : Kernel) (p : Pid) : Option Frame :=
  if k.liveProcess p then some (k.blocks p).process.addrSpace else none

/-- A user page of a process: its directory and its table index. -/
abbrev Slot := Pid × BitVec 10 × BitVec 10

/-- The mapping a page table entry makes. -/
def PageEntry.mapping (te : PageEntry) : Option (Mapping Frame) :=
  if te.present then some { frame := te.frame, writable := te.writable } else none

namespace Vm

/-- Can the allocator hand out the frame? -/
def Free (vm : Vm) (f : Frame) : Prop :=
  blockIndex f < vm.blockCount ∧ vm.allocMap.test (blockIndex f) = false

/-- The reference count of a frame that the allocator manages. -/
def count (vm : Vm) (f : Frame) : ℕ :=
  if blockIndex f < vm.blockCount then (vm.refCounts (blockIndex f)).toNat else 0

variable (dirs : Pid → Option Frame)

/-- The frame in use for a purpose, if any. -/
def holder (vm : Vm) : Use → Option Frame
  | .dir p => dirs p
  | .table p i => (dirs p).bind fun d =>
      if i < userTop ∧ (vm.pages d i).present then some (vm.pages d i).frame else none
  | .kernelDir => some vm.kernelDir
  | .kernelTable i =>
      if userTop ≤ i ∧ i ≠ recursiveIndex ∧ (vm.pages vm.kernelDir i).present then
        some (vm.pages vm.kernelDir i).frame
      else none

/-- The mapping of a user page. -/
def slot (vm : Vm) (x : Slot) : Option (Mapping Frame) :=
  (vm.holder dirs (.table x.1 x.2.1)).bind fun t => (vm.pages t x.2.2).mapping

/-- Does a page of the kernel's half map the frame? -/
def KernelMaps (vm : Vm) (f : Frame) : Prop :=
  ∃ i t j, vm.holder dirs (.kernelTable i) = some t ∧
    ∃ m, (vm.pages t j).mapping = some m ∧ m.frame = f

/-- The frames with their users: page structures and kernel pages are pinned. -/
def pool (vm : Vm) : Pool Slot Frame where
  map := vm.slot dirs
  count := vm.count
  pinned := {f | (∃ u, vm.holder dirs u = some f) ∨ vm.KernelMaps dirs f}
  free := {f | vm.Free f}

/-- No frame holds two directories or tables, and all directories have the kernel's half. -/
structure Separate (vm : Vm) : Prop where
  inj : ∀ {u v f}, vm.holder dirs u = some f → vm.holder dirs v = some f → u = v
  upper : ∀ {p d i}, dirs p = some d → userTop ≤ i → i ≠ recursiveIndex →
    vm.pages d i = vm.pages vm.kernelDir i
  window : ∀ {p d}, dirs p = some d → (vm.pages d recursiveIndex).frame = d

/-- Besides, no frame that holds a directory or table is free. -/
structure Tidy (vm : Vm) : Prop extends Separate dirs vm where
  held : ∀ {u f}, vm.holder dirs u = some f → ¬vm.Free f
  sized : vm.blockCount ≤ 2 ^ 20

/-- Only directories and tables of processes in `A` have changed, and frames that were free. -/
structure Within (A : Set Pid) (vm vm' : Vm) : Prop where
  kernelDir : vm'.kernelDir = vm.kernelDir
  blockCount : vm'.blockCount = vm.blockCount
  pages : ∀ u f, ¬u.of A → vm.holder dirs u = some f → vm'.pages f = vm.pages f
  upper : ∀ p d i, dirs p = some d → userTop ≤ i → vm'.pages d i = vm.pages d i

/-- The page structures have not changed. -/
structure SamePages (vm vm' : Vm) : Prop where
  pages : vm'.pages = vm.pages
  kernelDir : vm'.kernelDir = vm.kernelDir
  blockCount : vm'.blockCount = vm.blockCount

variable {dirs} {vm vm' vm'' : Vm} {p : Pid} {d f t : Frame} {i j : BitVec 10} {e : PageEntry}
  {A B : Set Pid} {u : Use}

theorem holder_dir : vm.holder dirs (.dir p) = dirs p := rfl

theorem holder_table (hd : dirs p = some d) : vm.holder dirs (.table p i) =
    if i < userTop ∧ (vm.pages d i).present then some (vm.pages d i).frame else none := by
  rw [holder, hd]
  rfl

theorem holder_congr (hkernel : vm'.kernelDir = vm.kernelDir)
    (hdirs : ∀ q d i, dirs q = some d → i < userTop →
      (vm'.pages d i).present = (vm.pages d i).present ∧
      (vm'.pages d i).frame = (vm.pages d i).frame)
    (hupper : ∀ i, userTop ≤ i → vm'.pages vm.kernelDir i = vm.pages vm.kernelDir i) :
    vm'.holder dirs = vm.holder dirs := by
  funext u
  cases u with
  | dir q => rfl
  | table q i =>
    cases hq : dirs q with
    | none => rw [holder, holder, hq]; rfl
    | some d =>
      rw [holder_table hq, holder_table hq]
      by_cases hi : i < userTop
      · rw [(hdirs q d i hq hi).1, (hdirs q d i hq hi).2]
      · rw [if_neg fun h => hi h.1, if_neg fun h => hi h.1]
  | kernelDir => rw [holder, holder, hkernel]
  | kernelTable i =>
    rw [holder, holder, hkernel]
    by_cases hi : userTop ≤ i
    · rw [hupper i hi]
    · rw [if_neg fun h => hi h.1, if_neg fun h => hi h.1]

theorem pages_setEntry {x y : Frame} {k : BitVec 10} :
    (vm.setEntry x i e).pages y k = if y = x ∧ k = i then e else vm.pages y k := by
  rw [setEntry]
  by_cases hy : y = x
  · subst hy
    by_cases hk : k = i
    · subst hk
      simp
    · simp [hk]
  · simp [hy]

theorem pages_setEntry_of_ne {x y : Frame} (h : y ≠ x) :
    (vm.setEntry x i e).pages y = vm.pages y := Function.update_of_ne h _ _

theorem kernelDir_setEntry {x : Frame} : (vm.setEntry x i e).kernelDir = vm.kernelDir := rfl

/-! ## The allocator -/

namespace SamePages

theorem holder (h : SamePages vm vm') : vm'.holder dirs = vm.holder dirs := by
  refine holder_congr h.kernelDir (fun _ _ _ _ _ => ?_) fun _ _ => ?_
  · rw [h.pages]
    exact ⟨rfl, rfl⟩
  · rw [h.pages]

theorem slot (h : SamePages vm vm') : vm'.slot dirs = vm.slot dirs := by
  funext x
  rw [Vm.slot, Vm.slot, h.holder, h.pages]

theorem pinned (h : SamePages vm vm') : (vm'.pool dirs).pinned = (vm.pool dirs).pinned := by
  show {f | _ ∨ _} = {f | _ ∨ _}
  rw [h.holder]
  simp only [KernelMaps, h.holder, h.pages]

theorem separate (h : SamePages vm vm') (hs : vm.Separate dirs) : vm'.Separate dirs where
  inj hu hv := hs.inj (h.holder ▸ hu) (h.holder ▸ hv)
  upper hp hi hw := by
    rw [h.pages, h.kernelDir]
    exact hs.upper hp hi hw
  window hp := by
    rw [h.pages]
    exact hs.window hp

theorem within (h : SamePages vm vm') : Within dirs A vm vm' where
  kernelDir := h.kernelDir
  blockCount := h.blockCount
  pages _ f _ _ := by rw [h.pages]
  upper _ d i _ _ := by rw [h.pages]

end SamePages

theorem pool_ext {P : Pool Slot Frame} (hmap : vm.slot dirs = P.map)
    (hcount : ∀ f, vm.count f = P.count f)
    (hpinned : (vm.pool dirs).pinned = P.pinned) (hfree : ∀ f, vm.Free f ↔ f ∈ P.free) :
    vm.pool dirs = P := by
  have hfree' : (vm.pool dirs).free = P.free := Set.ext hfree
  obtain ⟨map, count, pinned, free⟩ := P
  obtain rfl : vm.slot dirs = map := hmap
  obtain rfl : vm.count = count := funext hcount
  obtain rfl : (vm.pool dirs).pinned = pinned := hpinned
  obtain rfl : (vm.pool dirs).free = free := hfree'
  rfl

end Vm

open Vm

variable {dirs : Pid → Option Frame} {vm vm' : Vm} {p : Pid} {d f t : Frame} {i j : BitVec 10}
  {e : PageEntry} {A : Set Pid}

variable (dirs) in
theorem physicalAlloc_pool (hsized : vm.blockCount ≤ 2 ^ 20) (h : physicalAlloc vm = .ok f vm') :
    vm.Free f ∧ SamePages vm vm' ∧ vm'.pool dirs = (vm.pool dirs).take f := by
  obtain ⟨index, map, hfind, hlt, rfl, rfl⟩ := physicalAlloc_eq_ok.mp h
  obtain ⟨htest, rfl⟩ := Bmstack.findAndSet_eq_some hfind
  have hindex := blockIndex_add (Nat.lt_of_lt_of_le hlt hsized)
  have hsame : SamePages vm { vm.setCount index 1 with allocMap := vm.allocMap.set index } :=
    ⟨rfl, rfl, rfl⟩
  have hne : ∀ g, g ≠ physicalUsableBase + BitVec.ofNat 20 index ↔ blockIndex g ≠ index := by
    intro g
    rw [ne_eq, ne_eq, not_iff_not, ← hindex, blockIndex_inj, hindex]
  refine ⟨⟨hindex.symm ▸ hlt, hindex.symm ▸ htest⟩, hsame, pool_ext hsame.slot (fun g => ?_)
    hsame.pinned fun g => ?_⟩
  · by_cases hg : g = physicalUsableBase + BitVec.ofNat 20 index
    · subst hg
      simp [Pool.take, count, setCount, hindex, hlt]
    · have hg' := (hne g).mp hg
      simp [Pool.take, count, setCount, pool, hg, hg']
  · show _ ∧ Bmstack.test (vm.allocMap.set index) _ = false ↔ g ∈ (vm.pool dirs).free ∧ g ∉ _
    rw [Bmstack.test_set, Bool.or_eq_false_iff, decide_eq_false_iff_not, Set.mem_singleton_iff,
      ← ne_eq, ← ne_eq, hne g]
    show _ ↔ (_ ∧ _) ∧ _
    tauto

variable (dirs) in
theorem pool_count (hlt : blockIndex f < vm.blockCount) :
    (vm.pool dirs).count f = (vm.refCounts (blockIndex f)).toNat := if_pos hlt

theorem pool_setCount {n : BitVec 8} (hlt : blockIndex f < vm.blockCount) :
    (vm.setCount (blockIndex f) n).pool dirs =
      { vm.pool dirs with count := Function.update (vm.pool dirs).count f n.toNat } := by
  have hsame : SamePages vm (vm.setCount (blockIndex f) n) := ⟨rfl, rfl, rfl⟩
  refine pool_ext hsame.slot (fun g => ?_) hsame.pinned fun g => Iff.rfl
  show _ = Function.update (vm.pool dirs).count f n.toNat g
  by_cases hg : g = f
  · subst hg
    rw [Function.update_self, count, blockCount_setCount, if_pos hlt, refCounts_setCount,
      Function.update_self]
  · have hindex : blockIndex g ≠ blockIndex f := fun h => hg (blockIndex_inj.mp h)
    rw [Function.update_of_ne hg, count, refCounts_setCount, Function.update_of_ne hindex]
    rfl

/-- Frames outside the allocator have no count in the pool, whatever `ref_counts` holds behind
its end. -/
theorem pool_count_of_ge (hlt : ¬blockIndex f < vm.blockCount) : (vm.pool dirs).count f = 0 :=
  if_neg hlt

theorem pool_setCount_of_ge {n : BitVec 8} (hlt : ¬blockIndex f < vm.blockCount) :
    (vm.setCount (blockIndex f) n).pool dirs = vm.pool dirs := by
  have hsame : SamePages vm (vm.setCount (blockIndex f) n) := ⟨rfl, rfl, rfl⟩
  refine pool_ext hsame.slot (fun g => ?_) hsame.pinned fun g => Iff.rfl
  show count _ g = count vm g
  by_cases hg : blockIndex g < vm.blockCount
  · have hindex : blockIndex g ≠ blockIndex f := fun h => hlt (h ▸ hg)
    rw [count, count, refCounts_setCount, Function.update_of_ne hindex]
    rfl
  · rw [count, count, blockCount_setCount, if_neg hg, if_neg hg]

variable (dirs) in
theorem physicalRetain_pool (h : physicalRetain f vm = .ok () vm') :
    SamePages vm vm' ∧ vm'.pool dirs = (vm.pool dirs).retain f := by
  obtain ⟨hzero, rfl⟩ | ⟨hne, hmax, rfl⟩ := physicalRetain_eq_ok.mp h
  · refine ⟨⟨rfl, rfl, rfl⟩, ?_⟩
    rw [Pool.retain, if_pos (by simp only [pool, count, hzero]; split <;> rfl)]
  · refine ⟨⟨rfl, rfl, rfl⟩, ?_⟩
    by_cases hlt : blockIndex f < vm.blockCount
    · have hcount : (vm.pool dirs).count f ≠ 0 := fun h0 =>
        hne (BitVec.eq_of_toNat_eq ((pool_count dirs hlt).symm.trans h0))
      have hnat : (vm.refCounts (blockIndex f) + 1).toNat = (vm.pool dirs).count f + 1 := by
        have hwidth := (vm.refCounts (blockIndex f)).isLt
        have hmax' : (vm.refCounts (blockIndex f)).toNat ≠ 255 := fun h255 =>
          hmax (BitVec.eq_of_toNat_eq h255)
        have hone : (1 : BitVec 8).toNat = 1 := rfl
        rw [BitVec.toNat_add, pool_count dirs hlt, hone]
        exact Nat.mod_eq_of_lt (by omega)
      rw [pool_setCount hlt, Pool.retain, if_neg hcount, hnat]
    · rw [pool_setCount_of_ge hlt, Pool.retain, if_pos (pool_count_of_ge hlt)]

variable (dirs) in
theorem physicalRelease_pool {freed : Bool} (h : physicalRelease f vm = .ok freed vm') :
    SamePages vm vm' ∧ vm'.pool dirs = (vm.pool dirs).release f := by
  obtain ⟨hzero, -, rfl⟩ | ⟨hne, hmore, -, rfl⟩ | ⟨hone, htest, -, rfl⟩ :=
    physicalRelease_eq_ok.mp h
  · refine ⟨⟨rfl, rfl, rfl⟩, ?_⟩
    rw [Pool.release, if_pos (by simp only [pool, count, hzero]; split <;> rfl)]
  · refine ⟨⟨rfl, rfl, rfl⟩, ?_⟩
    by_cases hlt : blockIndex f < vm.blockCount
    · have hcount : (vm.pool dirs).count f ≠ 0 := fun h0 =>
        hne (BitVec.eq_of_toNat_eq ((pool_count dirs hlt).symm.trans h0))
      have hcount' : (vm.pool dirs).count f ≠ 1 := fun h1 =>
        hmore (BitVec.eq_of_toNat_eq ((pool_count dirs hlt).symm.trans h1))
      have hnat : (vm.refCounts (blockIndex f) - 1).toNat = (vm.pool dirs).count f - 1 := by
        have hle : (1 : BitVec 8) ≤ vm.refCounts (blockIndex f) :=
          BitVec.le_def.mpr (pool_count dirs hlt ▸ Nat.one_le_iff_ne_zero.mpr hcount)
        rw [BitVec.toNat_sub_of_le hle, pool_count dirs hlt]
        rfl
      rw [pool_setCount hlt, Pool.release, if_neg hcount, if_neg hcount', hnat]
    · rw [pool_setCount_of_ge hlt, Pool.release, if_pos (pool_count_of_ge hlt)]
  · have hsame : SamePages vm { vm.setCount (blockIndex f) 0 with
      allocMap := vm.allocMap.clear (blockIndex f) } := ⟨rfl, rfl, rfl⟩
    refine ⟨hsame, ?_⟩
    by_cases hlt : blockIndex f < vm.blockCount
    · have hcount : (vm.pool dirs).count f = 1 := by
        rw [pool_count dirs hlt, hone]
        rfl
      rw [Pool.release, if_neg (by rw [hcount]; decide), if_pos hcount]
      refine pool_ext hsame.slot (fun g => ?_) hsame.pinned fun g => ?_
      · exact congrFun (congrArg Pool.count (pool_setCount hlt)) g
      · show _ ∧ Bmstack.test (vm.allocMap.clear _) _ = false ↔ g = f ∨ vm.Free g
        rw [Bmstack.test_clear, Bool.and_eq_false_iff, Bool.not_eq_false', decide_eq_true_eq,
          blockIndex_inj]
        constructor
        · rintro ⟨hg, rfl | htest'⟩
          · exact Or.inl rfl
          · exact Or.inr ⟨hg, htest'⟩
        · rintro (rfl | ⟨hg, htest'⟩)
          · exact ⟨hlt, Or.inl rfl⟩
          · exact ⟨hg, Or.inr htest'⟩
    · -- The bit that is cleared lies behind the map, where no frame is free.
      rw [Pool.release, if_pos (pool_count_of_ge hlt)]
      refine pool_ext hsame.slot (fun g => ?_) hsame.pinned fun g => ?_
      · exact congrFun (congrArg Pool.count (pool_setCount_of_ge hlt)) g
      · show _ ∧ Bmstack.test (vm.allocMap.clear _) _ = false ↔ vm.Free g
        refine and_congr_right fun hg => ?_
        have hindex : blockIndex g ≠ blockIndex f := fun h => hlt (h ▸ hg)
        rw [Bmstack.test_clear, decide_eq_false hindex]
        rfl

/-! ## Writing a page table -/

namespace Vm

theorem Separate.ne {u v : Use} (h : vm.Separate dirs) (hu : vm.holder dirs u = some f)
    (hv : vm.holder dirs v = some t) (huv : u ≠ v) : f ≠ t := fun hft => huv (h.inj hu (hft ▸ hv))

section Table

variable {u : Use}

theorem pages_setTable (h : vm.Separate dirs) (ht : vm.holder dirs (.table p i) = some t)
    (hu : vm.holder dirs u = some f) (hne : u ≠ .table p i) :
    (vm.setEntry t j e).pages f = vm.pages f := pages_setEntry_of_ne (h.ne hu ht hne)

theorem holder_setTable (h : vm.Separate dirs) (ht : vm.holder dirs (.table p i) = some t) :
    (vm.setEntry t j e).holder dirs = vm.holder dirs := by
  refine holder_congr rfl (fun q d i hq _ => ?_) fun i _ => ?_
  · rw [pages_setTable h ht (u := .dir q) hq nofun]
    exact ⟨rfl, rfl⟩
  · rw [pages_setTable h ht (u := .kernelDir) rfl nofun]

theorem slot_setTable (h : vm.Separate dirs) (ht : vm.holder dirs (.table p i) = some t) :
    (vm.setEntry t j e).slot dirs = Function.update (vm.slot dirs) (p, i, j) e.mapping := by
  funext ⟨q, i', j'⟩
  rw [slot, holder_setTable h ht]
  by_cases hqi : Use.table q i' = Use.table p i
  · cases hqi
    rw [ht, Option.bind_some, pages_setEntry]
    by_cases hj : j' = j
    · subst hj
      rw [if_pos ⟨rfl, rfl⟩, Function.update_self]
    · rw [if_neg fun h => hj h.2, Function.update_of_ne fun h => hj (by cases h; rfl), slot, ht]
      rfl
  · rw [Function.update_of_ne fun h => hqi (by cases h; rfl), slot]
    cases ht' : vm.holder dirs (.table q i') with
    | none => rfl
    | some t' => rw [Option.bind_some, Option.bind_some, pages_setTable h ht ht' hqi]

theorem kernelMaps_setTable (h : vm.Separate dirs) (ht : vm.holder dirs (.table p i) = some t) :
    (vm.setEntry t j e).KernelMaps dirs f ↔ vm.KernelMaps dirs f := by
  unfold KernelMaps
  rw [holder_setTable h ht]
  constructor
  · rintro ⟨i', t', j', ht', hm⟩
    rw [pages_setTable h ht ht' nofun] at hm
    exact ⟨i', t', j', ht', hm⟩
  · rintro ⟨i', t', j', ht', hm⟩
    refine ⟨i', t', j', ht', ?_⟩
    rwa [pages_setTable h ht ht' nofun]

theorem pool_setTable (h : vm.Separate dirs) (ht : vm.holder dirs (.table p i) = some t) :
    (vm.setEntry t j e).pool dirs = (vm.pool dirs).put (p, i, j) e.mapping := by
  refine pool_ext (slot_setTable h ht) (fun _ => rfl) (Set.ext fun f => ?_) fun _ => Iff.rfl
  show (_ ∨ _) ↔ (_ ∨ _)
  rw [holder_setTable h ht, kernelMaps_setTable h ht]

theorem separate_setTable (h : vm.Separate dirs) (ht : vm.holder dirs (.table p i) = some t) :
    (vm.setEntry t j e).Separate dirs where
  inj hu hv := by
    rw [holder_setTable h ht] at hu hv
    exact h.inj hu hv
  upper {q _ _} hq hi hw := by
    rw [pages_setTable h ht (u := .dir q) hq nofun, kernelDir_setEntry,
      pages_setTable h ht (u := .kernelDir) rfl nofun]
    exact h.upper hq hi hw
  window {q _} hq := by
    rw [pages_setTable h ht (u := .dir q) hq nofun]
    exact h.window hq

theorem tidy_setTable (h : vm.Tidy dirs) (ht : vm.holder dirs (.table p i) = some t) :
    (vm.setEntry t j e).Tidy dirs where
  toSeparate := separate_setTable h.toSeparate ht
  held hu := by
    rw [holder_setTable h.toSeparate ht] at hu
    exact h.held hu
  sized := h.sized

theorem within_setTable (h : vm.Separate dirs) (ht : vm.holder dirs (.table p i) = some t) :
    Within dirs {p} vm (vm.setEntry t j e) where
  kernelDir := rfl
  blockCount := rfl
  pages _ _ hu hf := pages_setTable h ht hf fun heq => hu (heq ▸ rfl)
  upper q d i hq _ := by rw [pages_setTable h ht (u := .dir q) hq nofun]

end Table

/-! ## Changing the flags of a directory entry -/

section Dir

variable {u : Use}

theorem pages_setDir (h : vm.Separate dirs) (hd : dirs p = some d)
    (hu : vm.holder dirs u = some f) (hne : u ≠ .dir p) :
    (vm.setEntry d i e).pages f = vm.pages f := pages_setEntry_of_ne (h.ne (v := .dir p) hu hd hne)

theorem upper_setDir (hi : i < userTop) (hj : userTop ≤ j) :
    (vm.setEntry d i e).pages f j = vm.pages f j := by
  rw [pages_setEntry, if_neg]
  rintro ⟨-, rfl⟩
  exact absurd hj (BitVec.not_le.mpr hi)

theorem holder_setDir (hi : i < userTop) (hpresent : e.present = (vm.pages d i).present)
    (hframe : e.frame = (vm.pages d i).frame) :
    (vm.setEntry d i e).holder dirs = vm.holder dirs := by
  refine holder_congr rfl (fun q d' j _ _ => ?_) fun j hj => upper_setDir hi hj
  rw [pages_setEntry]
  split
  · next heq =>
    rw [heq.1, heq.2]
    exact ⟨hpresent, hframe⟩
  · exact ⟨rfl, rfl⟩

theorem pool_setDir (h : vm.Separate dirs) (hd : dirs p = some d) (hi : i < userTop)
    (hpresent : e.present = (vm.pages d i).present) (hframe : e.frame = (vm.pages d i).frame) :
    (vm.setEntry d i e).pool dirs = vm.pool dirs := by
  have hholder : (vm.setEntry d i e).holder dirs = vm.holder dirs :=
    holder_setDir hi hpresent hframe
  refine pool_ext (funext fun x => ?_) (fun _ => rfl) (Set.ext fun f => ?_) fun _ => Iff.rfl
  · show (Vm.holder _ _ _).bind _ = (Vm.holder _ _ _).bind _
    rw [hholder]
    cases ht : vm.holder dirs (.table x.1 x.2.1) with
    | none => rfl
    | some t => rw [Option.bind_some, Option.bind_some, pages_setDir h hd ht nofun]
  · show (_ ∨ _) ↔ (_ ∨ _)
    unfold KernelMaps
    rw [hholder]
    refine or_congr Iff.rfl ⟨?_, ?_⟩
    · rintro ⟨i', t, j, ht, hm⟩
      rw [pages_setDir h hd ht nofun] at hm
      exact ⟨i', t, j, ht, hm⟩
    · rintro ⟨i', t, j, ht, hm⟩
      refine ⟨i', t, j, ht, ?_⟩
      rwa [pages_setDir h hd ht nofun]

theorem tidy_setDir (h : vm.Tidy dirs) (hi : i < userTop)
    (hpresent : e.present = (vm.pages d i).present) (hframe : e.frame = (vm.pages d i).frame) :
    (vm.setEntry d i e).Tidy dirs where
  inj hu hv := by
    rw [holder_setDir hi hpresent hframe] at hu hv
    exact h.inj hu hv
  upper {q d' j} hq hj hw := by
    rw [upper_setDir hi hj, upper_setDir hi hj]
    exact h.upper hq hj hw
  window hq := by
    rw [upper_setDir hi (by decide)]
    exact h.window hq
  held hu := by
    rw [holder_setDir hi hpresent hframe] at hu
    exact h.held hu
  sized := h.sized

theorem within_setDir (h : vm.Separate dirs) (hd : dirs p = some d) (hi : i < userTop) :
    Within dirs {p} vm (vm.setEntry d i e) where
  kernelDir := rfl
  blockCount := rfl
  pages _ _ hu hf := pages_setDir h hd hf fun heq => hu (heq ▸ rfl)
  upper _ _ _ _ hj := upper_setDir hi hj

end Dir

/-! ## Adding a page table -/

/-- The empty table `t` is entered into a directory. -/
def addTable (vm : Vm) (d : Frame) (i : BitVec 10) (e : PageEntry) : Vm :=
  { vm.setEntry d i e with
    pages := Function.update (vm.setEntry d i e).pages e.frame fun _ => {} }

section AddTable

variable {u : Use}

theorem kernelDir_addTable : (vm.addTable d i e).kernelDir = vm.kernelDir := rfl

theorem pages_addTable (h : vm.Separate dirs) (hd : dirs p = some d)
    (hfresh : ∀ u, vm.holder dirs u ≠ some e.frame) (hu : vm.holder dirs u = some f)
    (hne : u ≠ .dir p) : (vm.addTable d i e).pages f = vm.pages f := by
  have hf : f ≠ e.frame := fun heq => hfresh u (heq ▸ hu)
  exact (Function.update_of_ne hf _ _).trans (pages_setDir h hd hu hne)

theorem upper_addTable (hfresh : ∀ u, vm.holder dirs u ≠ some e.frame) (hi : i < userTop)
    (hu : vm.holder dirs u = some f) (hj : userTop ≤ j) :
    (vm.addTable d i e).pages f j = vm.pages f j := by
  have hf : f ≠ e.frame := fun heq => hfresh u (heq ▸ hu)
  exact (congrFun (Function.update_of_ne hf _ _) j).trans (upper_setDir hi hj)

theorem pages_addTable_dir (hd : dirs p = some d) (hfresh : ∀ u, vm.holder dirs u ≠ some e.frame) :
    (vm.addTable d i e).pages d j = if j = i then e else vm.pages d j := by
  have hf : d ≠ e.frame := fun heq => hfresh (.dir p) (heq ▸ hd)
  refine (congrFun (Function.update_of_ne hf _ _) j).trans ?_
  rw [pages_setEntry]
  simp

/-- A new table is the only structure that changes its frame. -/
theorem holder_addTable (h : vm.Separate dirs) (hd : dirs p = some d) (hi : i < userTop)
    (hfresh : ∀ u, vm.holder dirs u ≠ some e.frame) (hpresent : e.present = true) :
    (vm.addTable d i e).holder dirs u =
      if u = .table p i then some e.frame else vm.holder dirs u := by
  cases u with
  | dir q => rfl
  | table q j =>
    cases hq : dirs q with
    | none =>
      have hne : Use.table q j ≠ .table p i := by
        rintro ⟨⟩
        rw [hd] at hq
        cases hq
      rw [if_neg hne, holder, holder, hq]
      rfl
    | some d' =>
      rw [holder_table hq, holder_table hq]
      by_cases hqp : q = p
      · subst hqp
        obtain rfl : d' = d := Option.some.inj (hq.symm.trans hd)
        rw [pages_addTable_dir hd hfresh]
        by_cases hj : j = i
        · subst hj
          rw [if_pos rfl, if_pos ⟨hi, hpresent⟩, if_pos rfl]
        · have hne : Use.table q j ≠ .table q i := fun heq => hj (by cases heq; rfl)
          rw [if_neg hj, if_neg hne]
      · have hne : Use.table q j ≠ .table p i := fun heq => hqp (by cases heq; rfl)
        have hdir : Use.dir q ≠ .dir p := fun heq => hqp (by cases heq; rfl)
        rw [pages_addTable h hd hfresh (u := .dir q) hq hdir, if_neg hne]
  | kernelDir => rfl
  | kernelTable j =>
    rw [if_neg nofun, holder, holder, kernelDir_addTable,
      pages_addTable h hd hfresh (u := .kernelDir) rfl nofun]

theorem slot_addTable (h : vm.Separate dirs) (hd : dirs p = some d) (hi : i < userTop)
    (hfresh : ∀ u, vm.holder dirs u ≠ some e.frame) (hpresent : e.present = true)
    (hnone : vm.holder dirs (.table p i) = none) :
    (vm.addTable d i e).slot dirs = vm.slot dirs := by
  funext ⟨q, i', j⟩
  rw [slot, slot, holder_addTable h hd hi hfresh hpresent]
  by_cases hqi : Use.table q i' = .table p i
  · rw [if_pos hqi, hqi, hnone]
    have hempty : (vm.addTable d i e).pages e.frame = fun _ => {} := Function.update_self ..
    rw [Option.bind_some, hempty]
    rfl
  · rw [if_neg hqi]
    cases ht : vm.holder dirs (.table q i') with
    | none => rfl
    | some t => rw [Option.bind_some, Option.bind_some, pages_addTable h hd hfresh ht nofun]

theorem kernelMaps_addTable (h : vm.Separate dirs) (hd : dirs p = some d) (hi : i < userTop)
    (hfresh : ∀ u, vm.holder dirs u ≠ some e.frame) (hpresent : e.present = true) :
    (vm.addTable d i e).KernelMaps dirs f ↔ vm.KernelMaps dirs f := by
  have hholder : ∀ j, (vm.addTable d i e).holder dirs (.kernelTable j) =
      vm.holder dirs (.kernelTable j) := fun j => by
    rw [holder_addTable h hd hi hfresh hpresent, if_neg nofun]
  constructor
  · rintro ⟨j, t, k, ht, hm⟩
    rw [hholder] at ht
    rw [pages_addTable h hd hfresh ht nofun] at hm
    exact ⟨j, t, k, ht, hm⟩
  · rintro ⟨j, t, k, ht, hm⟩
    refine ⟨j, t, k, (hholder j).trans ht, ?_⟩
    rwa [pages_addTable h hd hfresh ht nofun]

theorem pool_addTable (h : vm.Separate dirs) (hd : dirs p = some d) (hi : i < userTop)
    (hfresh : ∀ u, vm.holder dirs u ≠ some e.frame) (hpresent : e.present = true)
    (hnone : vm.holder dirs (.table p i) = none) : (vm.addTable d i e).pool dirs =
      { vm.pool dirs with pinned := insert e.frame (vm.pool dirs).pinned } := by
  refine pool_ext (slot_addTable h hd hi hfresh hpresent hnone) (fun _ => rfl)
    (Set.ext fun f => ?_) fun _ => Iff.rfl
  show (∃ u, _) ∨ _ ↔ f = e.frame ∨ (∃ u, _) ∨ _
  rw [kernelMaps_addTable h hd hi hfresh hpresent]
  constructor
  · rintro (⟨u, hu⟩ | hmaps)
    · rw [holder_addTable h hd hi hfresh hpresent] at hu
      split at hu
      · exact Or.inl (Option.some.inj hu).symm
      · exact Or.inr (Or.inl ⟨u, hu⟩)
    · exact Or.inr (Or.inr hmaps)
  · rintro (rfl | ⟨u, hu⟩ | hmaps)
    · exact Or.inl ⟨.table p i, by rw [holder_addTable h hd hi hfresh hpresent, if_pos rfl]⟩
    · refine Or.inl ⟨u, ?_⟩
      rw [holder_addTable h hd hi hfresh hpresent, if_neg]
      · exact hu
      · rintro rfl
        rw [hnone] at hu
        cases hu
    · exact Or.inr hmaps

theorem separate_addTable (h : vm.Separate dirs) (hd : dirs p = some d) (hi : i < userTop)
    (hfresh : ∀ u, vm.holder dirs u ≠ some e.frame) (hpresent : e.present = true) :
    (vm.addTable d i e).Separate dirs where
  inj {u v f} hu hv := by
    rw [holder_addTable h hd hi hfresh hpresent] at hu hv
    split at hu <;> split at hv
    · next hu' hv' => rw [hu', hv']
    · exact absurd (hv.trans hu.symm) (hfresh v)
    · exact absurd (hu.trans hv.symm) (hfresh u)
    · exact h.inj hu hv
  upper {q _ _} hq hj hw := by
    have hkernel := upper_addTable (d := d) hfresh hi (u := .kernelDir) rfl hj
    rw [upper_addTable hfresh hi (u := .dir q) hq hj]
    exact (h.upper hq hj hw).trans hkernel.symm
  window {q _} hq := by
    rw [upper_addTable hfresh hi (u := .dir q) hq (by decide)]
    exact h.window hq

theorem within_addTable (h : vm.Separate dirs) (hd : dirs p = some d) (hi : i < userTop)
    (hfresh : ∀ u, vm.holder dirs u ≠ some e.frame) : Within dirs {p} vm (vm.addTable d i e) where
  kernelDir := rfl
  blockCount := rfl
  pages _ _ hu hf := pages_addTable h hd hfresh hf fun heq => hu (heq ▸ rfl)
  upper q _ _ hq hj := upper_addTable hfresh hi (u := .dir q) hq hj

end AddTable

/-! ## Composition -/

theorem Within.holder {u : Use} (h : Within dirs A vm vm') (hu : ¬u.of A) :
    vm'.holder dirs u = vm.holder dirs u := by
  cases u with
  | dir q => rfl
  | table q j =>
    cases hq : dirs q with
    | none =>
      rw [Vm.holder, Vm.holder, hq]
      rfl
    | some d =>
      have hpages : vm'.pages d = vm.pages d := h.pages (.dir q) d hu hq
      rw [holder_table hq, holder_table hq, hpages]
  | kernelDir => exact congrArg some h.kernelDir
  | kernelTable j =>
    have hpages : vm'.pages vm.kernelDir = vm.pages vm.kernelDir :=
      h.pages .kernelDir vm.kernelDir id rfl
    rw [Vm.holder, Vm.holder, h.kernelDir, hpages]

theorem Within.trans {vm'' : Vm} (h₁ : Within dirs A vm vm') (h₂ : Within dirs A vm' vm'') :
    Within dirs A vm vm'' where
  kernelDir := h₂.kernelDir.trans h₁.kernelDir
  blockCount := h₂.blockCount.trans h₁.blockCount
  pages u f hu hf :=
    (h₂.pages u f hu ((h₁.holder hu).trans hf)).trans (h₁.pages u f hu hf)
  upper q d i hq hi := (h₂.upper q d i hq hi).trans (h₁.upper q d i hq hi)

theorem Within.mono {B : Set Pid} (h : Within dirs A vm vm') (hAB : A ⊆ B) :
    Within dirs B vm vm' where
  kernelDir := h.kernelDir
  blockCount := h.blockCount
  pages u f hu := h.pages u f fun hA => hu (Use.of_mono hAB hA)
  upper := h.upper

end Vm

/-! ## The paging functions -/

/-- A table is created if there is none, in a frame that was free. -/
theorem tableFor_pool {virt : Word} {flags : PagingFlags} (h : vm.Tidy dirs)
    (hd : dirs p = some d) (hi : dirIndex virt < userTop)
    (hrun : tableFor d virt flags vm = .ok t vm') : vm'.Tidy dirs ∧ Within dirs {p} vm vm' ∧
      vm'.holder dirs (.table p (dirIndex virt)) = some t ∧
      ∃ table, (∀ t ∈ table, vm.Free t ∧ vm.holder dirs (.table p (dirIndex virt)) = none) ∧
        vm'.pool dirs = (vm.pool dirs).pin table := by
  simp only [tableFor, get_bind_apply, ite_eq_ok, bind_eq_ok, modify_eq_ok, pure_eq_ok] at hrun
  obtain ⟨hpresent, _, _, rfl, rfl, rfl⟩ | ⟨hpresent, t, vm₁, halloc, _, _, rfl, _, _, rfl, rfl, rfl⟩ :=
    hrun
  · refine ⟨tidy_setDir h hi rfl rfl, within_setDir h.toSeparate hd hi, ?_, none,
      fun t ht => absurd ht (Option.not_mem_none t), pool_setDir h.toSeparate hd hi rfl rfl⟩
    have hholder : vm.holder dirs (.table p (dirIndex virt)) =
        some (vm.pages d (dirIndex virt)).frame := by
      rw [holder_table hd, if_pos ⟨hi, hpresent⟩]
    rw [← hholder]
    exact congrFun (holder_setDir hi (by rfl) (by rfl)) _
  · obtain ⟨hfree, hsame, hpool⟩ := physicalAlloc_pool dirs h.sized halloc
    have hsep := hsame.separate h.toSeparate
    have hfresh : ∀ u, vm₁.holder dirs u ≠ some t := by
      intro u hu
      rw [hsame.holder] at hu
      exact h.held hu hfree
    have hnone : vm₁.holder dirs (.table p (dirIndex virt)) = none := by
      rw [hsame.holder, holder_table hd, if_neg fun hi => hpresent hi.2]
    have hfree₁ : ∀ f, vm₁.Free f ↔ vm.Free f ∧ f ≠ t := by
      intro f
      show f ∈ (vm₁.pool dirs).free ↔ _
      rw [hpool]
      exact Iff.rfl
    -- The frame of the new table is not free any more, the others were not before.
    have hheld : ∀ u f, (if u = .table p (dirIndex virt) then some t else vm₁.holder dirs u) =
        some f → ¬vm₁.Free f := by
      intro u f hu hf
      split at hu
      · cases hu
        exact ((hfree₁ t).mp hf).2 rfl
      · rw [hsame.holder] at hu
        exact h.held hu ((hfree₁ f).mp hf).1
    have hholder : ∀ {e : PageEntry} u, e.frame = t → e.present = true →
        (vm₁.addTable d (dirIndex virt) e).holder dirs u =
          if u = .table p (dirIndex virt) then some t else vm₁.holder dirs u := by
      rintro e u rfl hepresent
      exact holder_addTable hsep hd hi hfresh hepresent
    refine ⟨⟨separate_addTable hsep hd hi hfresh rfl, fun {u f} hu => ?_, ?_⟩,
      hsame.within.trans (within_addTable hsep hd hi hfresh), ?_, some t, ?_, ?_⟩
    · exact hheld u f ((hholder u rfl rfl).symm.trans hu)
    · exact hsame.blockCount.le.trans h.sized
    · exact (hholder _ rfl rfl).trans (if_pos rfl)
    · intro t' ht'
      exact ⟨Option.some.inj ht' ▸ hfree, hsame.holder ▸ hnone⟩
    · refine (pool_addTable hsep hd hi hfresh rfl hnone).trans ?_
      rw [hpool]
      rfl

/-- The slot of a user page. -/
def slotOf (p : Pid) (virt : Word) : Slot := (p, dirIndex virt, tblIndex virt)

variable {virt : Word}

theorem tblentGet_mapping (hd : dirs p = some d) (hi : dirIndex virt < userTop) :
    (vm.tblentGet d virt).bind PageEntry.mapping = vm.slot dirs (slotOf p virt) := by
  show _ = (vm.holder dirs (.table p (dirIndex virt))).bind _
  rw [holder_table hd, tblentGet]
  by_cases hpresent : (vm.pages d (dirIndex virt)).present = true
  · rw [if_pos hpresent, if_pos ⟨hi, hpresent⟩]
    rfl
  · rw [if_neg hpresent, if_neg fun h => hpresent h.2]
    rfl

theorem pagingMappingGet_slot (hd : dirs p = some d) (hi : dirIndex virt < userTop) :
    vm.pagingMappingGet d virt = (vm.slot dirs (slotOf p virt)).map (·.frame) := by
  rw [← tblentGet_mapping hd hi, pagingMappingGet]
  cases vm.tblentGet d virt with
  | none => rfl
  | some te => cases hpresent : te.present <;> simp [PageEntry.mapping, hpresent]

theorem pagingIsMapped_slot (hd : dirs p = some d) (hi : dirIndex virt < userTop) :
    vm.pagingIsMapped d virt = (vm.slot dirs (slotOf p virt)).isSome := by
  rw [← tblentGet_mapping hd hi, pagingIsMapped]
  cases vm.tblentGet d virt with
  | none => rfl
  | some te => cases hpresent : te.present <;> simp [PageEntry.mapping, hpresent]

theorem pagingMap_pool {flags : PagingFlags} {mapped : Bool} (h : vm.Tidy dirs)
    (hd : dirs p = some d) (hi : dirIndex virt < userTop)
    (hslot : vm.slot dirs (slotOf p virt) = none)
    (hrun : pagingMap d virt f flags vm = .ok mapped vm') :
    vm'.Tidy dirs ∧ Within dirs {p} vm vm' ∧ ∃ table, (∀ t ∈ table, vm.Free t) ∧
      vm'.pool dirs = ((vm.pool dirs).pin table).put (slotOf p virt) (some ⟨f, flags.write⟩) := by
  obtain ⟨t, vm₁, htable, hrun⟩ := bind_eq_ok.mp hrun
  obtain ⟨htidy, hwithin, hholder, table, hfree, hpool⟩ := tableFor_pool h hd hi htable
  have hmapping : (vm₁.pages t (tblIndex virt)).mapping = none := by
    have hslot₁ : vm₁.slot dirs (slotOf p virt) = none := by
      show (vm₁.pool dirs).map _ = none
      rw [hpool, Pool.map_pin]
      exact hslot
    rwa [slot, slotOf, hholder] at hslot₁
  have habsent : (vm₁.pages t (tblIndex virt)).present = false := by
    cases hpresent : (vm₁.pages t (tblIndex virt)).present with
    | false => rfl
    | true => simp [PageEntry.mapping, hpresent] at hmapping
  simp only [get_bind_apply, habsent, Bool.not_false, Bool.true_or, if_true, bind_eq_ok,
    modify_eq_ok, pure_eq_ok] at hrun
  obtain ⟨_, _, rfl, -, rfl⟩ := hrun
  refine ⟨tidy_setTable htidy hholder, hwithin.trans (within_setTable htidy.toSeparate hholder),
    table, fun t ht => (hfree t ht).1, ?_⟩
  rw [← hpool]
  exact pool_setTable htidy.toSeparate hholder

theorem pagingMap_mapped {flags : PagingFlags} {mapped : Bool} {m : Mapping Frame}
    (h : vm.Tidy dirs) (hd : dirs p = some d) (hi : dirIndex virt < userTop)
    (hforce : flags.force = false) (hslot : vm.slot dirs (slotOf p virt) = some m)
    (hrun : pagingMap d virt f flags vm = .ok mapped vm') :
    vm'.Tidy dirs ∧ Within dirs {p} vm vm' ∧ vm'.pool dirs = vm.pool dirs := by
  obtain ⟨t, vm₁, htable, hrun⟩ := bind_eq_ok.mp hrun
  obtain ⟨htidy, hwithin, hholder, table, hfree, hpool⟩ := tableFor_pool h hd hi htable
  have hnone : table = none := by
    rw [Option.eq_none_iff_forall_not_mem]
    intro t ht
    rw [slot, slotOf, (hfree t ht).2] at hslot
    cases hslot
  subst hnone
  have hmapping : (vm₁.pages t (tblIndex virt)).mapping = some m := by
    have hslot₁ : vm₁.slot dirs (slotOf p virt) = some m := by
      show (vm₁.pool dirs).map _ = some m
      rw [hpool]
      exact hslot
    rwa [slot, slotOf, hholder] at hslot₁
  rw [PageEntry.mapping, Option.ite_none_right_eq_some] at hmapping
  simp only [get_bind_apply, hmapping.1, hforce, Bool.not_true, Bool.or_self, Bool.false_eq_true,
    if_false, pure_eq_ok] at hrun
  obtain ⟨-, rfl⟩ := hrun
  exact ⟨htidy, hwithin, hpool⟩

/-- Unmapping a page clears its slot and gives one reference to its frame back. -/
theorem pagingUnmap_pool (h : vm.Separate dirs) (hd : dirs p = some d)
    (hi : dirIndex virt < userTop) (hrun : pagingUnmap d virt vm = .ok () vm') :
    vm.slot dirs (slotOf p virt) = none ∧ vm' = vm ∨
    ∃ m, vm.slot dirs (slotOf p virt) = some m ∧ vm'.Separate dirs ∧ Within dirs {p} vm vm' ∧
      vm'.pool dirs = ((vm.pool dirs).release m.frame).put (slotOf p virt) none := by
  rw [← tblentGet_mapping hd hi]
  simp only [pagingUnmap, get_bind_apply] at hrun
  cases hte : vm.tblentGet d virt with
  | none =>
    rw [hte] at hrun
    exact Or.inl ⟨rfl, (pure_eq_ok.mp hrun).2.symm⟩
  | some te =>
    rw [hte] at hrun
    cases hpresent : te.present with
    | false =>
      simp only [hpresent, Bool.not_false, if_true, pure_eq_ok] at hrun
      exact Or.inl ⟨by simp [PageEntry.mapping, hpresent], hrun.2.symm⟩
    | true =>
      simp only [hpresent, Bool.not_true, Bool.false_eq_true, if_false, bind_eq_ok,
        modify_eq_ok] at hrun
      obtain ⟨freed, vm₁, hrelease, rfl⟩ := hrun
      obtain ⟨hsame, hpool⟩ := physicalRelease_pool dirs hrelease
      rw [tblentGet, Option.ite_none_right_eq_some] at hte
      have hholder : vm₁.holder dirs (.table p (dirIndex virt)) =
          some (vm₁.pages d (dirIndex virt)).frame := by
        rw [hsame.holder, hsame.pages, holder_table hd, if_pos ⟨hi, hte.1⟩]
      have hsep := hsame.separate h
      refine Or.inr ⟨⟨te.frame, te.writable⟩, by simp [PageEntry.mapping, hpresent],
        separate_setTable hsep hholder, hsame.within.trans (within_setTable hsep hholder), ?_⟩
      rw [← hpool]
      exact pool_setTable hsep hholder

end Horizon
