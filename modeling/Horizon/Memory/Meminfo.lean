import Horizon.Memory.Physical

/-!
# Horizon — memory at boot (`boot/meminfo.c`, `spec/multiboot/mmap.c`, `physical_init`)

The bootloader leaves a list of memory ranges. `meminfo_init` keeps the ones that can be used, and
`physical_init` makes their pages available for `physical_alloc`.

Pointers into the list are plain words here, with 0 for `NULL`. Where the arrays of `physical_init`
are put is left out; the entries of the bitmap stack are indexed beyond the ones that are reserved,
since `bmstack_clear` does not look at its index.
-/

namespace Horizon

open StateError

/-! ## The memory map -/

/-- The fields of `multiboot_info_t` that are read here. -/
structure MultibootInfo where
  flags : Word
  memUpper : Word
  mmapLength : Word
  mmapAddr : Word

/-- `MULTIBOOT_INFO_MEMORY`. -/
def multibootInfoMemory : Word := 0x1

/-- `MULTIBOOT_INFO_MEM_MAP`. -/
def multibootInfoMemMap : Word := 0x40

/-- `MULTIBOOT_MEMORY_AVAILABLE`. -/
def multibootMemoryAvailable : Word := 1

/-- Four bytes of memory, as the processor reads them. -/
def ramWord (ram : Word → BitVec 8) (addr : Word) : Word :=
  ram (addr + 3) ++ ram (addr + 2) ++ ram (addr + 1) ++ ram addr

def multibootMemSizeGet (mbi : MultibootInfo) : Word :=
  if mbi.flags &&& multibootInfoMemory = 0 then 0 else (mbi.memUpper + 1024) * 1024

/-- The first entry if `prev` is `NULL`. -/
def multibootMmapGet (mbi : MultibootInfo) (ram : Word → BitVec 8) (prev : Word) : Word :=
  if prev = 0 then
    if mbi.flags &&& multibootInfoMemMap = 0 then 0 else mbi.mmapAddr
  else
    let next := prev + ramWord ram prev + 4
    if mbi.mmapAddr + mbi.mmapLength ≤ next then 0 else next

/-- `meminfo_mmap_t`: the range from `start` up to `stop` (`end` in the source). -/
structure MeminfoMmap where
  start : Word
  stop : Word
  deriving DecidableEq, Repr

structure Meminfo where
  memTotal : Word := 0
  memUsable : Word := 0
  memLimit : Word := 0
  mmaps : List MeminfoMmap := []
  /-- The entries that the ranges have been read from. -/
  recorded : List Word := []

abbrev MeminfoM := EStateM Fault Meminfo

/-- `MEMINFO_MMAP_MAX`. -/
def meminfoMmapMax : ℕ := 8

/-- One round of the loop of `meminfo_init`. The fields of an entry have 64 bits, of which the
structure of the kernel names the lower halves. -/
def meminfoEntry (ram : Word → BitVec 8) (entry : Word) : MeminfoM Unit := do
  let addr := ramWord ram (entry + 4)
  let length := ramWord ram (entry + 12)
  let type := ramWord ram (entry + 20)
  -- Check for overflow - undefined region if so (for 32-bit at least).
  if BitVec.allOnes 32 - length < addr then return
  let stop := addr + length
  -- Otherwise this memory is reserved or damaged.
  if type ≠ multibootMemoryAvailable then return
  modify fun s =>
    { s with
      memUsable := s.memUsable + length
      memLimit := if s.memLimit > stop then s.memLimit else stop }
  failIf (meminfoMmapMax ≤ (← get).mmaps.length) .assertion
  modify fun s =>
    { s with mmaps := s.mmaps ++ [⟨addr, stop⟩], recorded := s.recorded ++ [entry] }

/-- An entry that comes up again comes up forever, so the rounds are at most as many as there are
addresses. -/
def meminfoLoop (mbi : MultibootInfo) (ram : Word → BitVec 8) : ℕ → Word → MeminfoM Unit
  | 0, _ => throw .hang
  | fuel + 1, entry => do
      if entry = 0 then return
      meminfoEntry ram entry
      meminfoLoop mbi ram fuel (multibootMmapGet mbi ram entry)

/-- Read the memory and mmap information from the multiboot structure. -/
def meminfoInit (mbi : MultibootInfo) (ram : Word → BitVec 8) : MeminfoM Unit := do
  modify fun s => { s with memTotal := multibootMemSizeGet mbi }
  failIf (multibootMemSizeGet mbi = 0) .assertion
  meminfoLoop mbi ram 0x100000000 (multibootMmapGet mbi ram 0)

/-- What `meminfo_init` leaves: no range ends before it begins, and the limit is the highest end. -/
structure Meminfo.Valid (m : Meminfo) : Prop where
  order : ∀ r ∈ m.mmaps, r.start ≤ r.stop
  limit : ∀ r ∈ m.mmaps, r.stop ≤ m.memLimit
  reached : m.memLimit = 0 ∨ ∃ r ∈ m.mmaps, r.stop = m.memLimit

/-! ## The allocator -/

/-- `PHYSICAL_USABLE_BASE`, as an address. -/
def physicalUsableAddr : Word := 0x1000000

/-- Convert a physical address to an index based on the given offset and element size. -/
def addrToIndex (base blocksize addr : Word) : Word := (addr - base) / blocksize

/-- What `physical_init` sets up. -/
structure PhysicalState where
  allocMap : Bmstack
  refCounts : ℕ → BitVec 8
  blockCount : ℕ
  /-- The indices that `bmstack_clear` has been called with so far. -/
  cleared : List ℕ := []

abbrev PhysicalM := EStateM Fault PhysicalState

/-- Set `items` bits to 1 in the bmstack. The links are set too, but nothing follows them before
`bmstack_link` sets them again. -/
def Bmstack.setAll (bms : Bmstack) (items : ℕ) : Bmstack :=
  { bms with
    entries := fun i =>
      if i < bitmapLength items then { next := none, bitmap := BitVec.allOnes 32 }
      else bms.entries i }

def bmstackClear (index : ℕ) : PhysicalM Unit :=
  modify fun s => { s with allocMap := s.allocMap.clear index, cleared := s.cleared ++ [index] }

/-- The pages of one range. An address that comes up again comes up forever, so the rounds are at
most as many as there are pages. -/
def clearRange (stop : Word) : ℕ → Word → PhysicalM Unit
  | 0, _ => throw .hang
  | fuel + 1, curr => do
      if curr + archPgsize ≤ stop then
        bmstackClear (addrToIndex physicalUsableAddr archPgsize curr).toNat
        clearRange stop fuel (curr + archPgsize)

/-- The number of blocks that the allocator is set up for. -/
def Meminfo.blocks (m : Meminfo) : ℕ :=
  (addrToIndex physicalUsableAddr archPgsize m.memLimit).toNat

/-- Set up the bitmap stack as well as reference counting. -/
def physicalInit (m : Meminfo) : PhysicalM Unit := do
  let blocks := m.blocks
  -- Mark everything as used first.
  modify fun s => { s with allocMap := ({ s.allocMap with head := none }).setAll blocks }
  -- Unmark any available memory.
  m.mmaps.forM fun mmap => clearRange mmap.stop 0x100001 mmap.start
  -- Create the linked list from the entries just unset.
  modify fun s => { s with allocMap := s.allocMap.link blocks }
  modify fun s =>
    { s with refCounts := fun i => if i < blocks then 0 else s.refCounts i, blockCount := blocks }

/-- The memory state with the arrays that have been set up. -/
def PhysicalState.vm (s : PhysicalState) (vm : Vm) : Vm :=
  { vm with allocMap := s.allocMap, refCounts := s.refCounts, blockCount := s.blockCount }

end Horizon
