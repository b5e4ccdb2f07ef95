import Horizon.Memory.Physical

/-!
# Horizon — two-level paging (`arch/i586/sw/paging.c`)

Directories and tables are frames of 1024 entries. The last entry of every directory points
back at the directory itself, so the top 4 MiB of an address space show its own page tables
(the recursive mapping), and the entries from 3 GiB up to there are shared with the
kernel's directory.

The source reaches a directory or table through the temporary mapping window
(`paging_map_temp`). That window is scratch space: the functions below access the mapped
frame directly, and the two page entries of the window are not tracked. `Memory.Window` has the
functions with the window, and compares the two.
-/

namespace Horizon

open StateError

/-- `DIR_INDEX`. -/
def dirIndex (virt : Word) : BitVec 10 := (virt >>> 22).setWidth 10

/-- `TBL_INDEX`. -/
def tblIndex (virt : Word) : BitVec 10 := (virt >>> 12).setWidth 10

/-- `PAGING_DIR_TBL_MAX - 1`, the slot of the recursive mapping. -/
def recursiveIndex : BitVec 10 := 1023

/-- `enum paging_flags`. -/
structure PagingFlags where
  write : Bool := false
  user : Bool := false
  force : Bool := false

namespace Vm

/-- Overwrite one entry of a page structure. -/
def setEntry (vm : Vm) (frame : Frame) (index : BitVec 10) (entry : PageEntry) : Vm :=
  { vm with
    pages := Function.update vm.pages frame (Function.update (vm.pages frame) index entry) }

/-- `tblent_get`: the page table entry of a page, `none` when it has no page table. -/
def tblentGet (vm : Vm) (dir : Frame) (virt : Word) : Option PageEntry :=
  let de := vm.pages dir (dirIndex virt)
  if de.present then some (vm.pages de.frame (tblIndex virt)) else none

/-- Check if a page is present. -/
def pagingIsMapped (vm : Vm) (dir : Frame) (virt : Word) : Bool :=
  match vm.tblentGet dir virt with
  | some te => te.present
  | none => false

/-- Get the frame a page is mapped to; `none` stands for `NULL`. -/
def pagingMappingGet (vm : Vm) (dir : Frame) (virt : Word) : Option Frame :=
  match vm.tblentGet dir virt with
  | some te => if te.present then some te.frame else none
  | none => none

/-- The physical address the processor uses for `virt` under directory `dir`. -/
def translate (vm : Vm) (dir : Frame) (virt : Word) : Option Word :=
  (vm.pagingMappingGet dir virt).map fun frame => frame ++ virt.setWidth 12

end Vm

/-- Create a new page directory, and map kernel space into it. -/
def pagingDirCreate : VmM Frame := do
  let dir ← physicalAlloc
  modify fun vm =>
    let kdir := vm.pages vm.kernelDir
    let first := dirIndex kernelVirtBase
    let vdir := fun i =>
      if i = recursiveIndex then { present := true, writable := true, frame := dir }
      else if first ≤ i then kdir i
      else {}
    { vm with pages := Function.update vm.pages dir vdir }
  return dir

/-- The inner loop of `paging_dir_destroy`. Every round looks at entry `i`, the index of the
table in its directory. -/
def destroyTable (tbl : Frame) (i : BitVec 10) : Nat → VmM Unit
  | 0 => return
  | n + 1 => do
      let te := (← get).pages tbl i
      runIf te.present do
        let _ ← physicalRelease te.frame
      destroyTable tbl i n

/-- The outer loop of `paging_dir_destroy` over the directory entries `i, i + 1, …`. -/
def destroyTables (dir : Frame) : Nat → BitVec 10 → VmM Unit
  | 0, _ => return
  | n + 1, i => do
      let de := (← get).pages dir i
      runIf de.present do
        destroyTable de.frame i 1024
        let _ ← physicalRelease de.frame
      destroyTables dir n (i + 1)

/-- Destroy a page directory, returning all used memory to the physical allocator. -/
def pagingDirDestroy (dir : Frame) : VmM Unit := do
  failIf (dir = 0 ∨ dir = (← get).kernelDir) .assertion
  destroyTables dir (dirIndex kernelVirtBase).toNat 0
  let _ ← physicalRelease dir

/-- The page table that covers `virt`, created if it does not exist yet. -/
def tableFor (dir : Frame) (virt : Word) (flags : PagingFlags) : VmM Frame := do
  let de := (← get).pages dir (dirIndex virt)
  if de.present then
    -- Update the flags in case this mapping needs different privileges.
    modify fun vm => vm.setEntry dir (dirIndex virt)
      { de with writable := de.writable || flags.write, user := de.user || flags.user }
    return de.frame
  else
    let tbl ← physicalAlloc
    modify fun vm => vm.setEntry dir (dirIndex virt)
      { present := true, writable := flags.write, user := flags.user, frame := tbl }
    modify fun vm => { vm with pages := Function.update vm.pages tbl fun _ => {} }
    return tbl

/-- Map a page to a frame with the given flags; false if the page was mapped already. -/
def pagingMap (dir : Frame) (virt : Word) (phys : Frame) (flags : PagingFlags) : VmM Bool := do
  let tbl ← tableFor dir virt flags
  let te := (← get).pages tbl (tblIndex virt)
  if !te.present || flags.force then
    modify fun vm => vm.setEntry tbl (tblIndex virt)
      { present := true, writable := flags.write, user := flags.user, frame := phys }
    return true
  else
    return false

/-- Set a page as not present and release its frame. -/
def pagingUnmap (dir : Frame) (virt : Word) : VmM Unit := do
  let vm ← get
  let some te := vm.tblentGet dir virt | return
  if !te.present then return
  let _ ← physicalRelease te.frame
  modify fun vm => vm.setEntry (vm.pages dir (dirIndex virt)).frame (tblIndex virt)
    { te with present := false }

end Horizon
