import Horizon.User.Vfsd

/-!
# Horizon — the heap of user programs (`lib/libh/src/malloc`)

The heap is a row of blocks from `heap_base` to `heap_top`, each with a header of eight bytes in
front. The header has the size of the block, header included, and the flag `MALLOC_USED` in its
lowest bit; its second word is not used. The headers lie in the same memory as the data, so the
memory is kept byte by byte.

The memory that `vmap` finds is part of the environment. The system call refuses an empty range and
one that ends above `KERNEL_VIRT_BASE`, where the end is a sum of words that may wrap.
-/

namespace Horizon.Libh

open StateError

/-- The heap lies in `[heapBase, heapTop)`. -/
structure Heap where
  mem : Word → Byte
  heapBase : Word
  heapTop : Word
  /-- Does the next `vmap` find enough memory? -/
  grant : Bool := false

abbrev HeapM := EStateM UserFault Heap

/-! ## Memory -/

def loadWord (mem : Word → Byte) (addr : Word) : Word :=
  mem (addr + 3) ++ mem (addr + 2) ++ mem (addr + 1) ++ mem addr

def storeWord (mem : Word → Byte) (addr value : Word) : Word → Byte := fun x =>
  if x = addr then value.setWidth 8
  else if x = addr + 1 then (value >>> 8).setWidth 8
  else if x = addr + 2 then (value >>> 16).setWidth 8
  else if x = addr + 3 then (value >>> 24).setWidth 8
  else mem x

/-- Copy one element of an array. It is loaded as a whole before it is stored. -/
def copyElement (width : ℕ) (dst src : Word) (mem : Word → Byte) : Word → Byte := fun x =>
  if (x - dst).toNat < width then mem (src + (x - dst)) else mem x

/-- `d[i] = s[i]` for each of the elements. -/
def copyElements (width : ℕ) : ℕ → Word → Word → (Word → Byte) → Word → Byte
  | 0, _, _, mem => mem
  | n + 1, dst, src, mem =>
      copyElements width n (dst + BitVec.ofNat 32 width) (src + BitVec.ofNat 32 width)
        (copyElement width dst src mem)

def memcpy (dst src len : Word) (mem : Word → Byte) : Word → Byte :=
  if dst % 4 = 0 ∧ src % 4 = 0 ∧ len % 4 = 0 then copyElements 4 (len / 4).toNat dst src mem
  else copyElements 1 len.toNat dst src mem

/-- The loop of `memmove` for a source below the destination, from the end down. -/
def moveDown : ℕ → Word → Word → (Word → Byte) → Word → Byte
  | 0, _, _, mem => mem
  | len + 1, pd, ps, mem => moveDown len (pd - 1) (ps - 1) (copyElement 1 (pd - 1) (ps - 1) mem)

def memmove (dst src len : Word) (mem : Word → Byte) : Word × (Word → Byte) :=
  if src < dst then (dst, moveDown len.toNat (dst + len) (src + len) mem)
  else (dst, copyElements 1 len.toNat dst src mem)

/-! ## The heap -/

/-- `MALLOC_USED`. -/
def mallocUsed : Word := 1

/-- `sizeof(struct malloc_header)`. -/
def headerSize : Word := 8

/-- `MALLOC_ALIGNMENT`. -/
def mallocAlignment : Word := 8

/-- `__malloc_align`. -/
def mallocAlign (x : Word) : Word := (x + mallocAlignment - 1) &&& ~~~(mallocAlignment - 1)

def mallocInitialize (mem : Word → Byte) (base : Word) : Heap where
  mem := mem
  heapBase := base
  heapTop := base

def loadSize (header : Word) : HeapM Word := do return loadWord (← get).mem header

def storeSize (header size : Word) : HeapM Unit :=
  modify fun h => { h with mem := storeWord h.mem header size }

def vmap (dest size : Word) : HeapM Bool := do
  return (← get).grant && decide (size ≠ 0 ∧ dest + size ≤ kernelVirtBase)

/-- A size rounded up to whole pages. -/
def pageRound (minSize : Word) : Word := (minSize + archPgsize - 1) &&& ~~~(archPgsize - 1)

def mallocHeapExpand (minSize : Word) : HeapM Word := do
  let size := pageRound minSize
  let next := (← get).heapTop
  if ← vmap next size then
    storeSize next size
    modify fun h => { h with heapTop := h.heapTop + size }
    return next
  else return 0

/-- A block has at least one byte unless its header is damaged, so the rounds are at most as many as
the heap has bytes. -/
def findFitLoop (size : Word) : ℕ → Word → HeapM Word
  | 0, _ => throw .hang
  | fuel + 1, header => do
      if header < (← get).heapTop then
        let word ← loadSize header
        if size ≤ word ∧ word &&& mallocUsed = 0 then return header
        findFitLoop size fuel (header + (word &&& ~~~mallocUsed))
      else return 0

def findFit (size : Word) : HeapM Word := do
  let h ← get
  findFitLoop size ((h.heapTop - h.heapBase).toNat + 1) h.heapBase

/-- The part of `malloc` after a block has been found. -/
def takeBlock (header blockSize : Word) : HeapM Word := do
  let remaining := (← loadSize header) - blockSize
  if mallocAlignment * 2 ≤ remaining then
    storeSize (header + blockSize) remaining
    storeSize header blockSize
  storeSize header ((← loadSize header) ||| mallocUsed)
  return header + headerSize

def malloc (size : Word) : HeapM Word := do
  let blockSize := mallocAlign (size + headerSize)
  let header ← findFit blockSize
  if header ≠ 0 then return ← takeBlock header blockSize
  let header ← mallocHeapExpand blockSize
  if header = 0 then return 0
  takeBlock header blockSize

def free (ptr : Word) : HeapM Unit := do
  let header := ptr - headerSize
  storeSize header ((← loadSize header) &&& ~~~mallocUsed)
  let next := header + (← loadSize header)
  if next < (← get).heapTop then
    let nextSize ← loadSize next
    if nextSize &&& mallocUsed = 0 then
      storeSize header ((← loadSize header) + nextSize)

def realloc (ptr size : Word) : HeapM Word := do
  let oldSize := (← loadSize (ptr - headerSize)) &&& ~~~mallocUsed
  let newSize := mallocAlign (size + headerSize)
  if newSize ≤ oldSize then return ptr
  let newPtr ← malloc size
  -- Nothing is mapped at `NULL`.
  failIf (newPtr = 0 ∧ oldSize ≠ headerSize) .nullDeref
  modify fun h => { h with mem := memcpy newPtr ptr (oldSize - headerSize) h.mem }
  free ptr
  return newPtr

end Horizon.Libh
