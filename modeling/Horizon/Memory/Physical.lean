import Horizon.Util
import Horizon.Lib.StateError

/-!
# Horizon — memory state and the physical allocator (`core/memory/physical.c`)

`Vm` is the memory half of the kernel state. Page directories and page tables are kept as
arrays of decoded entries, indexed by the frame that holds them; every other byte of
physical memory is in `ram`. The paging functions are the only ones that write page
structures, so the two halves are stored apart.

A program of this layer is an `EStateM` program: it returns, or it stops with a `Fault`.
`dassert` is compiled in (`_DEBUG` is always defined by the kernel's Makefile), so a failed
assertion stops the machine.
-/

namespace Horizon

open StateError

/-- The ways a kernel path ends without returning to its caller. -/
inductive Fault where
  /-- A failed `dassert` or a `dpanic`: the kernel spins forever. -/
  | assertion
  /-- A field of a control block is reached through a `NULL` pointer. -/
  | nullDeref
  /-- A page fault inside the kernel. -/
  | pageFault
  /-- An array is accessed past its end. -/
  | outOfBounds
  /-- A loop of the kernel never exits. -/
  | hang
  /-- A write through a user-supplied pointer lands in the kernel's own memory. -/
  | kernelWrite
  deriving DecidableEq, Repr

/-- A physical page frame number: the `frame` field of a page entry. -/
abbrev Frame := BitVec 20

/-- A page directory or page table entry. -/
structure PageEntry where
  present : Bool := false
  writable : Bool := false
  user : Bool := false
  frame : Frame := 0
  deriving DecidableEq, Repr

/-- Memory: page structures, the active directory, the allocator and the bytes. -/
structure Vm where
  /-- The entries of the directory or table held by a frame. -/
  pages : Frame → BitVec 10 → PageEntry
  kernelDir : Frame
  /-- The directory in `CR3`. -/
  cr3 : Frame
  allocMap : Bmstack
  refCounts : Nat → BitVec 8
  /-- The number of blocks the two arrays above were sized for. -/
  blockCount : Nat
  ram : Word → BitVec 8
  /-- `blocks`: where the process control blocks start in kernel space. -/
  blocksBase : Word

/-- Programs over the memory state. -/
abbrev VmM := EStateM Fault Vm

/-- `PHYSICAL_USABLE_BASE`, as a frame number. -/
def physicalUsableBase : Frame := 0x1000

/-- `addr_to_index(PHYSICAL_USABLE_BASE, ARCH_PGSIZE, block)`, in wrapping arithmetic. -/
def blockIndex (block : Frame) : Nat := (block - physicalUsableBase).toNat

/-- Allocate a new block of memory. -/
def physicalAlloc : VmM Frame := do
  let vm ← get
  let (index, allocMap) ← orThrow .assertion vm.allocMap.findAndSet
  failIf (index ≥ vm.blockCount) .outOfBounds
  modify fun vm =>
    { vm with allocMap := allocMap, refCounts := Function.update vm.refCounts index 1 }
  return physicalUsableBase + BitVec.ofNat 20 index

/-- Increment the retain count of a block; a block that is not allocated is ignored. -/
def physicalRetain (block : Frame) : VmM Unit := do
  let vm ← get
  let index := blockIndex block
  if vm.refCounts index = 0 then return
  failIf (vm.refCounts index = 255) .assertion
  modify fun vm =>
    { vm with refCounts := Function.update vm.refCounts index (vm.refCounts index + 1) }

/-- Decrement the retain count of a block and free it when the count reaches zero. -/
def physicalRelease (block : Frame) : VmM Bool := do
  let vm ← get
  let index := blockIndex block
  if vm.refCounts index = 0 then return false
  modify fun vm =>
    { vm with refCounts := Function.update vm.refCounts index (vm.refCounts index - 1) }
  if vm.refCounts index ≠ 1 then return false
  failIf (!vm.allocMap.test index) .assertion
  modify fun vm => { vm with allocMap := vm.allocMap.clear index }
  return true

/-! ## What the three operations do -/

section Results

variable {vm vm' : Vm} {block : Frame} {index : Nat}

def Vm.setCount (vm : Vm) (index : Nat) (count : BitVec 8) : Vm :=
  { vm with refCounts := Function.update vm.refCounts index count }

@[simp] theorem Vm.refCounts_setCount (count : BitVec 8) :
    (vm.setCount index count).refCounts = Function.update vm.refCounts index count := rfl

@[simp] theorem Vm.blockCount_setCount (count : BitVec 8) :
    (vm.setCount index count).blockCount = vm.blockCount := rfl

theorem blockIndex_inj {b₁ b₂ : Frame} : blockIndex b₁ = blockIndex b₂ ↔ b₁ = b₂ := by
  rw [blockIndex, blockIndex, BitVec.toNat_inj, BitVec.sub_left_inj]

theorem blockIndex_add (h : index < 2 ^ 20) :
    blockIndex (physicalUsableBase + BitVec.ofNat 20 index) = index := by
  rw [blockIndex, BitVec.add_comm, BitVec.add_sub_cancel, BitVec.toNat_ofNat, Nat.mod_eq_of_lt h]

theorem physicalAlloc_eq_ok : physicalAlloc vm = .ok block vm' ↔
    ∃ index map, vm.allocMap.findAndSet = some (index, map) ∧ index < vm.blockCount ∧
      block = physicalUsableBase + BitVec.ofNat 20 index ∧
      vm' = { vm.setCount index 1 with allocMap := map } := by
  simp only [physicalAlloc, get_bind_apply, bind_eq_ok, orThrow_eq_ok, failIf_eq_ok, modify_eq_ok,
    pure_eq_ok, Vm.setCount]
  constructor
  · rintro ⟨⟨index, map⟩, _, ⟨hfind, rfl⟩, _, _, ⟨hlt, rfl⟩, _, _, rfl, rfl, rfl⟩
    exact ⟨index, map, hfind, Nat.lt_of_not_le hlt, rfl, rfl⟩
  · rintro ⟨index, map, hfind, hlt, rfl, rfl⟩
    exact ⟨(index, map), _, ⟨hfind, rfl⟩, (), _, ⟨Nat.not_le_of_lt hlt, rfl⟩, (), _, rfl, rfl, rfl⟩

theorem physicalRetain_eq_ok : physicalRetain block vm = .ok () vm' ↔
    vm.refCounts (blockIndex block) = 0 ∧ vm' = vm ∨
      vm.refCounts (blockIndex block) ≠ 0 ∧ vm.refCounts (blockIndex block) ≠ 255 ∧
        vm' = vm.setCount (blockIndex block) (vm.refCounts (blockIndex block) + 1) := by
  simp only [physicalRetain, get_bind_apply, bind_eq_ok, failIf_eq_ok, ite_eq_ok, pure_eq_ok,
    modify_eq_ok]
  constructor
  · rintro (⟨hzero, -, rfl⟩ | ⟨hne, _, _, ⟨hmax, rfl⟩, rfl⟩)
    · exact Or.inl ⟨hzero, rfl⟩
    · exact Or.inr ⟨hne, hmax, rfl⟩
  · rintro (⟨hzero, rfl⟩ | ⟨hne, hmax, rfl⟩)
    · exact Or.inl ⟨hzero, trivial, rfl⟩
    · exact Or.inr ⟨hne, (), _, ⟨hmax, rfl⟩, rfl⟩

/-- A release ignores a block without references, gives up one of several references, or frees
the block with its last one. -/
theorem physicalRelease_eq_ok {freed : Bool} : physicalRelease block vm = .ok freed vm' ↔
    vm.refCounts (blockIndex block) = 0 ∧ freed = false ∧ vm' = vm ∨
      vm.refCounts (blockIndex block) ≠ 0 ∧ vm.refCounts (blockIndex block) ≠ 1 ∧
        freed = false ∧
        vm' = vm.setCount (blockIndex block) (vm.refCounts (blockIndex block) - 1) ∨
      vm.refCounts (blockIndex block) = 1 ∧ vm.allocMap.test (blockIndex block) = true ∧
        freed = true ∧
        vm' = { vm.setCount (blockIndex block) 0 with
          allocMap := vm.allocMap.clear (blockIndex block) } := by
  simp only [physicalRelease, get_bind_apply, bind_eq_ok, failIf_eq_ok, ite_eq_ok, pure_eq_ok,
    modify_eq_ok]
  constructor
  · rintro (⟨hzero, rfl, rfl⟩ |
      ⟨hne, _, _, rfl, ⟨hmore, rfl, rfl⟩ | ⟨hone, _, _, ⟨htest, rfl⟩, _, _, rfl, rfl, rfl⟩⟩)
    · exact Or.inl ⟨hzero, rfl, rfl⟩
    · exact Or.inr (Or.inl ⟨hne, hmore, rfl, rfl⟩)
    · rw [not_not] at hone
      refine Or.inr (Or.inr ⟨hone, by simpa using htest, rfl, ?_⟩)
      rw [hone]
      rfl
  · rintro (⟨hzero, rfl, rfl⟩ | ⟨hne, hmore, rfl, rfl⟩ | ⟨hone, htest, rfl, rfl⟩)
    · exact Or.inl ⟨hzero, rfl, rfl⟩
    · exact Or.inr ⟨hne, (), _, rfl, Or.inl ⟨hmore, rfl, rfl⟩⟩
    · refine Or.inr ⟨by rw [hone]; decide, (), _, rfl, Or.inr ⟨not_not.mpr hone,
        (), _, ⟨by simp [htest], rfl⟩, (), _, rfl, rfl, ?_⟩⟩
      rw [hone]
      rfl

end Results

end Horizon
