import Horizon.State

/-!
# Horizon — address spaces (`core/memory/virtual.c`) and access to user memory

The page loops run on wrapping 32-bit cursors, `for (curr = align(virt); curr < end; …)`.
After `2 ^ 20` rounds the cursor is back where it started and the loop condition, which no
body changes, still holds: `pageFuel` therefore decides termination, and running out of it
is a genuine endless loop.

User memory is reached the way the processor reaches it, through the directory in `CR3`.
The bytes of the kernel's own data are not in the model: a read above `KERNEL_VIRT_BASE`
yields whatever `ram` holds, and a write there ends the path (`Fault.kernelWrite`), because
what it destroys depends on the layout of the kernel.
-/

namespace Horizon

open StateError

def pageFuel : Nat := 2 ^ 20 + 1

/-- `for (; curr < end; curr += ARCH_PGSIZE, other += ARCH_PGSIZE) body`. -/
def pageLoop (body : Word → Word → VmM Unit) (finish : Word) : Nat → Word → Word → VmM Unit
  | 0, _, _ => throw .hang
  | fuel + 1, curr, other =>
      if curr < finish then do
        body curr other
        pageLoop body finish fuel (curr + archPgsize) (other + archPgsize)
      else return

/-- Does page `n` have a byte in common with the `size` bytes at `offset`? -/
def overlaps (offset size n : ℕ) : Prop := 4096 * n < offset + size ∧ offset < 4096 * (n + 1)

/-- `ENTRY_FRAME`. -/
def entryFrame (phys : Word) : Frame := (phys >>> 12).setWidth 20

/-- The directory of a process and the flags of its mappings; PID 0 is the kernel. -/
def getDir (pid : Pid) : KernelM (Frame × PagingFlags) := do
  let k ← get
  if pid = 0 then return (k.vm.kernelDir, { write := true })
  let proc ← dassertSome (k.processGet pid)
  return (proc.addrSpace, { write := true, user := true })

/-- Map a range of memory to a corresponding region of physical memory. -/
def virtualMap (pid : Pid) (virt phys size : Word) : KernelM Unit := do
  dassert (size ≠ 0)
  let (dir, flags) ← getDir pid
  let body := fun curr phys => do
    let _ ← pagingMap dir curr (entryFrame phys) flags
  -- `virt + size` and not `curr + size`: the range may extend an extra page over that.
  liftVm (pageLoop body (virt + size) pageFuel (addrAlign virt archPgsize)
    (addrAlign phys archPgsize))

/-- Remove a range of memory from the address space. -/
def virtualUnmap (pid : Pid) (virt size : Word) : KernelM Unit := do
  dassert (size ≠ 0)
  let (dir, _) ← getDir pid
  liftVm (pageLoop (fun curr _ => pagingUnmap dir curr) (virt + size) pageFuel
    (addrAlign virt archPgsize) 0)

/-- The loop of `virtual_is_mapped`; `none` when it does not end. -/
def Vm.isMappedLoop (vm : Vm) (dir : Frame) (state : Bool) (finish : Word) :
    Nat → Word → Option Int
  | 0, _ => none
  | fuel + 1, curr =>
      if curr < finish then
        if vm.pagingIsMapped dir curr ≠ state then some (-1)
        else vm.isMappedLoop dir state finish fuel (curr + archPgsize)
      else some (if state then 1 else 0)

/-- 0 if a region is not mapped, 1 if it is mapped, -1 if it is mixed. -/
def Vm.rangeMapped (vm : Vm) (dir : Frame) (virt size : Word) : Option Int :=
  let curr := addrAlign virt archPgsize
  -- The first page is the basis to check for mixed mappings.
  let state := vm.pagingIsMapped dir curr
  vm.isMappedLoop dir state (virt + size) pageFuel (curr + archPgsize)

/-- Check if a region is completely or partially mapped. -/
def virtualIsMapped (pid : Pid) (virt size : Word) : KernelM Int := do
  dassert (size ≠ 0)
  let (dir, _) ← getDir pid
  orThrow .hang ((← get).vm.rangeMapped dir virt size)

/-- Zero the bytes of a frame from offset `diff` on, as `memset` over the temporary mapping
does. -/
def Vm.zeroFrom (vm : Vm) (frame : Frame) (diff : Word) : Vm :=
  { vm with ram := fun phys =>
      if entryFrame phys = frame ∧ diff ≤ phys &&& 0xFFF then 0 else vm.ram phys }

/-- One round of `virtual_alloc`: map a new block unless the page is mapped, then clear the
page from `virt` (or its start) to its end. -/
def allocPage (dir : Frame) (flags : PagingFlags) (virt curr : Word) : VmM Unit := do
  runIf (!(← get).pagingIsMapped dir curr) do
    let block ← physicalAlloc
    let _ ← pagingMap dir curr block flags
  let zeroStart := if virt < curr then curr else virt
  modify fun vm => vm.zeroFrom ((vm.pagingMappingGet dir curr).getD 0) (zeroStart - curr)

/-- Map a region with newly allocated physical memory. -/
def virtualAlloc (pid : Pid) (virt size : Word) : KernelM Unit := do
  dassert (size ≠ 0)
  let (dir, flags) ← getDir pid
  liftVm (pageLoop (fun curr _ => allocPage dir flags virt curr) (virt + size) pageFuel
    (addrAlign virt archPgsize) 0)

/-- One round of `virtual_share`. -/
def sharePage (pasDest pasSrc : Frame) (flags : PagingFlags) (curr target : Word) :
    VmM Unit := do
  let vm ← get
  -- Ignore pages that do not exist in the source, or are mapped in the destination.
  if !vm.pagingIsMapped pasSrc curr then return
  if vm.pagingIsMapped pasDest target then return
  let block := (vm.pagingMappingGet pasSrc curr).getD 0
  physicalRetain block
  let _ ← pagingMap pasDest target block flags

/-- Point virtual memory to the same physical region that is mapped in another process. -/
def virtualShare (dest src : Pid) (addrTo addrFrom size : Word) (mode : BitVec 8) :
    KernelM Unit := do
  let pdest ← dassertSome ((← get).processGet dest)
  let psrc ← dassertSome ((← get).processGet src)
  dassert (size ≠ 0)
  -- `SPROT_WRITE` is bit 0 of the mode.
  let flags := { user := true, write := mode.getLsbD 0 }
  liftVm (pageLoop (sharePage pdest.addrSpace psrc.addrSpace flags) (addrFrom + size) pageFuel
    (addrAlign addrFrom archPgsize) (addrAlign addrTo archPgsize))

/-! ## User memory -/

def touch (kind : AccessKind) (addr : Word) : KernelM Unit :=
  modify fun k => { k with touched := k.touched ++ [{ kind, addr }] }

def userByte (addr : Word) : KernelM (BitVec 8) := do
  touch .read addr
  let vm := (← get).vm
  let phys ← orThrow .pageFault (vm.translate vm.cr3 addr)
  return vm.ram phys

def userWord (addr : Word) : KernelM Word := do
  let b0 ← userByte addr
  let b1 ← userByte (addr + 1)
  let b2 ← userByte (addr + 2)
  let b3 ← userByte (addr + 3)
  return b3 ++ b2 ++ b1 ++ b0

def userByteSet (addr : Word) (byte : BitVec 8) : KernelM Unit := do
  touch .write addr
  failIf (kernelVirtBase ≤ addr) .kernelWrite
  let vm := (← get).vm
  let phys ← orThrow .pageFault (vm.translate vm.cr3 addr)
  modify fun k => { k with vm := { k.vm with ram := Function.update k.vm.ram phys byte } }

def userWordSet (addr val : Word) : KernelM Unit := do
  userByteSet addr (val.setWidth 8)
  userByteSet (addr + 1) ((val >>> 8).setWidth 8)
  userByteSet (addr + 2) ((val >>> 16).setWidth 8)
  userByteSet (addr + 3) ((val >>> 24).setWidth 8)

end Horizon
