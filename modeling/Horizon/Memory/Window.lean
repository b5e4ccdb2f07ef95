import Horizon.Memory.Ranges

/-!
# Horizon — paging through the temporary window (`arch/i586/sw/paging.c`)

`Memory.Paging` accesses directories and tables directly. Here are the same functions as the
source has them: a pointer to an entry is a virtual address, which the processor translates like
any other, and the only way to get one is to point the temporary window at the frame
(`paging_map_temp`). The window is moved by writing its own page table entries, which are found
through the recursive mapping, and it moves several times within one function.

As long as the active directory has the window in place (`Window.InPlace`), and none of the frames
involved is a table that the window itself needs, each function returns what the direct one
returns, and leaves the same state but for where the window points (`Window.Agree`).
-/

namespace Horizon

open StateError

/-- `ENTRY_ADDR`. -/
def entryAddr (f : Frame) : Word := f.setWidth 32 <<< 12

/-- `&(structure->entries[i])`. -/
def entryPtr (ptr : Word) (i : BitVec 10) : Word := ptr + 4 * i.setWidth 32

/-- The pointer to a page table entry in the recursive mapping. -/
def tblentFind (addr : Word) : Word := recursiveBase + (addr >>> 12) * 4#32

/-- Overwrite a page structure. -/
def Vm.setPage (vm : Vm) (frame : Frame) (entries : BitVec 10 → PageEntry) : Vm :=
  { vm with pages := Function.update vm.pages frame entries }

/-- The frame that an entry of a directory or table refers to. -/
def PageEntry.target (e : PageEntry) : Option Frame := if e.present then some e.frame else none

/-- The frame and the index of the entry that a pointer leads to. -/
def Vm.entryAt (vm : Vm) (ptr : Word) : Option (Frame × BitVec 10) :=
  (vm.pagingMappingGet vm.cr3 ptr).map fun frame => (frame, (ptr >>> 2).setWidth 10)

def loadEntry (ptr : Word) : VmM PageEntry := do
  let vm ← get
  let (frame, i) ← orThrow .pageFault (vm.entryAt ptr)
  return vm.pages frame i

def storeEntry (ptr : Word) (entry : PageEntry) : VmM Unit := do
  let vm ← get
  let (frame, i) ← orThrow .pageFault (vm.entryAt ptr)
  set (vm.setEntry frame i entry)

namespace Windowed

/-! ## The functions, with `tempmap` for `tempmap_addr` -/

variable (tempmap : Word)

/-- Map physical memory to a predetermined volatile address in the current directory. -/
def pagingMapTemp (phys : Word) : VmM Word := do
  failIf (tempmap = 0) .assertion
  let low ← loadEntry (tblentFind tempmap)
  storeEntry (tblentFind tempmap) { low with frame := entryFrame phys }
  -- The second half of the window is for structures that are not aligned.
  let high ← loadEntry (tblentFind (tempmap + archPgsize))
  storeEntry (tblentFind (tempmap + archPgsize))
    { high with frame := entryFrame (phys + archPgsize) }
  return tempmap + phys % archPgsize

/-- `memset` to zero of the first `n` entries of a structure. -/
def clearEntries (ptr : Word) : Nat → VmM Unit
  | 0 => return
  | n + 1 => do
      clearEntries ptr n
      storeEntry (entryPtr ptr (BitVec.ofNat 10 n)) {}

/-- The loop of `paging_dir_create`, over the first `n` entries of the kernel's half. -/
def copyEntries (dir : Word) : Nat → VmM Unit
  | 0 => return
  | n + 1 => do
      copyEntries dir n
      let i := dirIndex kernelVirtBase + BitVec.ofNat 10 n
      -- Both directories need the window, so the entry is copied to the stack in between.
      let kdir ← pagingMapTemp tempmap (entryAddr (← get).kernelDir)
      let kde ← loadEntry (entryPtr kdir i)
      let tdir ← pagingMapTemp tempmap dir
      storeEntry (entryPtr tdir i) kde

def pagingDirCreate : VmM Word := do
  let dir := entryAddr (← physicalAlloc)
  let vdir ← pagingMapTemp tempmap dir
  clearEntries vdir 1024
  storeEntry (entryPtr vdir recursiveIndex)
    { present := true, writable := true, frame := entryFrame dir }
  runIf (entryAddr (← get).kernelDir ≠ 0) (copyEntries tempmap dir 255)
  return dir

def direntGet (dir virt : Word) : VmM Word := do
  let vdir ← pagingMapTemp tempmap dir
  return entryPtr vdir (dirIndex virt)

def tblentGet (dir virt : Word) : VmM (Option Word) := do
  let de ← loadEntry (← direntGet tempmap dir virt)
  if !de.present then return none
  let vtbl ← pagingMapTemp tempmap (entryAddr de.frame)
  return some (entryPtr vtbl (tblIndex virt))

/-- Pass `NULL` to use the kernel page directory. -/
def dirOrKernel (dir : Word) : VmM Word := do
  let kernelDir := entryAddr (← get).kernelDir
  let dir := if dir = 0 then kernelDir else dir
  failIf (dir = 0) .assertion
  return dir

/-- The first half of `paging_map`: the window on the page table. -/
def tableFor (dir virt : Word) (flags : PagingFlags) : VmM Word := do
  let ptr ← direntGet tempmap dir virt
  let de ← loadEntry ptr
  if de.present then
    storeEntry ptr { de with
      writable := de.writable || flags.write, user := de.user || flags.user }
    pagingMapTemp tempmap (entryAddr (← loadEntry ptr).frame)
  else
    storeEntry ptr { present := true, writable := flags.write, user := flags.user }
    let tbl := entryAddr (← physicalAlloc)
    let de ← loadEntry ptr
    storeEntry ptr { de with frame := entryFrame tbl }
    let vtbl ← pagingMapTemp tempmap tbl
    clearEntries vtbl 1024
    return vtbl

def pagingMap (dir virt phys : Word) (flags : PagingFlags) : VmM Bool := do
  failIf (addrAlign virt archPgsize ≠ virt) .assertion
  failIf (addrAlign phys archPgsize ≠ phys) .assertion
  let dir ← dirOrKernel dir
  let vtbl ← tableFor tempmap dir virt flags
  let te ← loadEntry (entryPtr vtbl (tblIndex virt))
  if !te.present || flags.force then
    storeEntry (entryPtr vtbl (tblIndex virt))
      { present := true, writable := flags.write, user := flags.user, frame := entryFrame phys }
    return true
  else
    return false

def pagingUnmap (dir virt : Word) : VmM Unit := do
  failIf (addrAlign virt archPgsize ≠ virt) .assertion
  let dir ← dirOrKernel dir
  let some ptr ← tblentGet tempmap dir virt | return
  let te ← loadEntry ptr
  if !te.present then return
  let _ ← physicalRelease te.frame
  let te ← loadEntry ptr
  storeEntry ptr { te with present := false }

def pagingIsMapped (dir virt : Word) : VmM Bool := do
  failIf (addrAlign virt archPgsize ≠ virt) .assertion
  let dir ← dirOrKernel dir
  let some ptr ← tblentGet tempmap dir virt | return false
  return (← loadEntry ptr).present

/-- The address of the frame, or `NULL`. -/
def pagingMappingGet (dir virt : Word) : VmM Word := do
  failIf (addrAlign virt archPgsize ≠ virt) .assertion
  let dir ← dirOrKernel dir
  let some ptr ← tblentGet tempmap dir virt | return 0
  let te ← loadEntry ptr
  if !te.present then return 0
  return entryAddr te.frame

end Windowed

/-! ## Pointers -/

theorem pagingMappingGet_eq_bind {vm : Vm} {d : Frame} {virt : Word} :
    vm.pagingMappingGet d virt = (vm.pages d (dirIndex virt)).target.bind fun t =>
      (vm.pages t (tblIndex virt)).target := by
  rw [Vm.pagingMappingGet, Vm.tblentGet, PageEntry.target]
  by_cases hpresent : (vm.pages d (dirIndex virt)).present = true
  · rw [if_pos hpresent, if_pos hpresent]
    rfl
  · rw [if_neg hpresent, if_neg hpresent]
    rfl

section Pointers

variable {f : Frame} {addr : Word} {i : BitVec 10}

theorem toNat_entryAddr : (entryAddr f).toNat = f.toNat * 4096 := by
  have hf := f.isLt
  rw [entryAddr, BitVec.toNat_shiftLeft, BitVec.toNat_setWidth, Nat.shiftLeft_eq]
  omega

@[simp] theorem entryFrame_entryAddr : entryFrame (entryAddr f) = f := by
  have hf := f.isLt
  refine BitVec.eq_of_toNat_eq ?_
  rw [entryFrame, BitVec.toNat_setWidth, BitVec.toNat_ushiftRight, toNat_entryAddr,
    Nat.shiftRight_eq_div_pow]
  omega

theorem entryAddr_inj {g : Frame} : entryAddr f = entryAddr g ↔ f = g := by
  refine ⟨fun h => ?_, fun h => by rw [h]⟩
  rw [← entryFrame_entryAddr (f := f), h, entryFrame_entryAddr]

theorem entryAddr_eq_zero : entryAddr f = 0 ↔ f = 0 := by
  rw [← entryAddr_inj (f := f) (g := 0)]
  rfl

@[simp] theorem entryAddr_mod : entryAddr f % archPgsize = 0 := by
  have hpage : archPgsize.toNat = 4096 := rfl
  refine BitVec.eq_of_toNat_eq ?_
  rw [BitVec.toNat_umod, toNat_entryAddr, hpage, Nat.mul_mod_left]
  rfl

theorem entryFrame_next : entryFrame (entryAddr f + archPgsize) = f + 1 := by
  have hf := f.isLt
  have hpage : archPgsize.toNat = 4096 := rfl
  refine BitVec.eq_of_toNat_eq ?_
  rw [entryFrame, BitVec.toNat_setWidth, BitVec.toNat_ushiftRight, BitVec.toNat_add,
    toNat_entryAddr, hpage, Nat.shiftRight_eq_div_pow, BitVec.toNat_add]
  change _ = (_ + 1) % _
  omega

theorem toNat_tblentFind : (tblentFind addr).toNat = 0xFFC00000 + addr.toNat / 4096 * 4 := by
  have haddr := addr.isLt
  have hbase : recursiveBase.toNat = 0xFFC00000 := rfl
  rw [tblentFind, BitVec.toNat_add, BitVec.toNat_mul, BitVec.toNat_ushiftRight,
    Nat.shiftRight_eq_div_pow, hbase, BitVec.toNat_ofNat]
  omega

/-- The recursive mapping: the directory serves as its own page table. -/
theorem dirIndex_tblentFind : dirIndex (tblentFind addr) = recursiveIndex := by
  have haddr := addr.isLt
  have hrec : recursiveIndex.toNat = 1023 := rfl
  refine BitVec.eq_of_toNat_eq ?_
  rw [toNat_dirIndex, toNat_tblentFind, hrec]
  omega

theorem tblIndex_tblentFind : tblIndex (tblentFind addr) = dirIndex addr := by
  have haddr := addr.isLt
  refine BitVec.eq_of_toNat_eq ?_
  rw [toNat_tblIndex, toNat_tblentFind, toNat_dirIndex]
  omega

theorem offset_tblentFind : (tblentFind addr >>> 2).setWidth 10 = tblIndex addr := by
  have haddr := addr.isLt
  refine BitVec.eq_of_toNat_eq ?_
  rw [BitVec.toNat_setWidth, BitVec.toNat_ushiftRight, Nat.shiftRight_eq_div_pow, toNat_tblentFind,
    toNat_tblIndex]
  omega

end Pointers

/-! ## The window -/

/-- The temporary window: its address, and the tables with the entries of its two pages. -/
structure Window where
  addr : Word
  low : Frame
  high : Frame
  aligned : addr.toNat % 4096 = 0
  above : kernelVirtBase ≤ addr
  below : addr.toNat + 8192 ≤ recursiveBase.toNat

namespace Window

variable {w : Window} {vm vm' : Vm} {d f g t : Frame} {i j : BitVec 10} {e : PageEntry}
  {es : BitVec 10 → PageEntry} {virt : Word}

theorem toNat_next : (w.addr + archPgsize).toNat = w.addr.toNat + 4096 := by
  have hpage : archPgsize.toNat = 4096 := rfl
  have hbelow : _ ≤ 0xFFC00000 := w.below
  rw [BitVec.toNat_add, hpage]
  omega

theorem toNat_entryPtr : (entryPtr w.addr i).toNat = w.addr.toNat + 4 * i.toNat := by
  have hbelow : _ ≤ 0xFFC00000 := w.below
  have hi := i.isLt
  rw [entryPtr, BitVec.toNat_add, BitVec.toNat_mul, BitVec.toNat_setWidth]
  change (_ + 4 * _ % _) % _ = _
  omega

theorem dirIndex_entryPtr : dirIndex (entryPtr w.addr i) = dirIndex w.addr := by
  have haligned := w.aligned
  have hi := i.isLt
  refine BitVec.eq_of_toNat_eq ?_
  rw [toNat_dirIndex, toNat_dirIndex, toNat_entryPtr]
  omega

theorem tblIndex_entryPtr : tblIndex (entryPtr w.addr i) = tblIndex w.addr := by
  have haligned := w.aligned
  have hi := i.isLt
  refine BitVec.eq_of_toNat_eq ?_
  rw [toNat_tblIndex, toNat_tblIndex, toNat_entryPtr]
  omega

theorem offset_entryPtr : (entryPtr w.addr i >>> 2).setWidth 10 = i := by
  have haligned := w.aligned
  have hi := i.isLt
  refine BitVec.eq_of_toNat_eq ?_
  rw [BitVec.toNat_setWidth, BitVec.toNat_ushiftRight, Nat.shiftRight_eq_div_pow, toNat_entryPtr]
  omega

theorem tblIndex_next_ne : tblIndex (w.addr + archPgsize) ≠ tblIndex w.addr := by
  intro h
  have hnat := congrArg BitVec.toNat h
  rw [toNat_tblIndex, toNat_tblIndex, toNat_next] at hnat
  omega

/-- Both pages of the window are in the kernel's half, below the recursive mapping. -/
theorem index_low : userTop ≤ dirIndex w.addr ∧ dirIndex w.addr ≠ recursiveIndex := by
  have hbelow := w.below
  exact ⟨userTop_le_dirIndex w.above, dirIndex_ne_recursive (BitVec.lt_def.mpr (by omega))⟩

theorem index_high : userTop ≤ dirIndex (w.addr + archPgsize) ∧
    dirIndex (w.addr + archPgsize) ≠ recursiveIndex := by
  have habove := BitVec.le_def.mp w.above
  have hbelow := w.below
  refine ⟨userTop_le_dirIndex (BitVec.le_def.mpr ?_), dirIndex_ne_recursive (BitVec.lt_def.mpr ?_)⟩
  · rw [toNat_next]
    omega
  · rw [toNat_next]
    omega

/-- Is the frame one of the tables that the window itself needs? -/
def IsTable (w : Window) (f : Frame) : Prop := f = w.low ∨ f = w.high

/-- A directory that has the window in place. -/
structure MappedBy (w : Window) (vm : Vm) (d : Frame) : Prop where
  self : (vm.pages d recursiveIndex).target = some d
  low : (vm.pages d (dirIndex w.addr)).target = some w.low
  high : (vm.pages d (dirIndex (w.addr + archPgsize))).target = some w.high

/-- The window can be used. -/
structure InPlace (w : Window) (vm : Vm) : Prop where
  mapped : w.MappedBy vm vm.cr3
  low : (vm.pages w.low (tblIndex w.addr)).present = true
  high : (vm.pages w.high (tblIndex (w.addr + archPgsize))).present = true
  other : ¬w.IsTable vm.cr3

/-- The store with the window pointed at a frame, and its second page at the next one. -/
def pointed (w : Window) (f : Frame) (s : Frame → BitVec 10 → PageEntry) (t : Frame)
    (j : BitVec 10) : PageEntry :=
  if t = w.low ∧ j = tblIndex w.addr then { s t j with frame := f }
  else if t = w.high ∧ j = tblIndex (w.addr + archPgsize) then { s t j with frame := f + 1 }
  else s t j

def point (w : Window) (f : Frame) (vm : Vm) : Vm := { vm with pages := w.pointed f vm.pages }

theorem setEntry_setEntry_eq_point :
    let vm₁ := vm.setEntry w.low (tblIndex w.addr)
      { vm.pages w.low (tblIndex w.addr) with frame := f }
    vm₁.setEntry w.high (tblIndex (w.addr + archPgsize))
      { vm₁.pages w.high (tblIndex (w.addr + archPgsize)) with frame := f + 1 } =
      w.point f vm := by
  have hlow : ¬(w.high = w.low ∧ tblIndex (w.addr + archPgsize) = tblIndex w.addr) :=
    fun h => tblIndex_next_ne h.2
  refine congrArg (fun s => { vm with pages := s }) ?_
  funext t j
  refine Vm.pages_setEntry.trans ?_
  rw [Vm.pages_setEntry, Vm.pages_setEntry, if_neg hlow, pointed]
  by_cases hhigh : t = w.high ∧ j = tblIndex (w.addr + archPgsize)
  · obtain ⟨rfl, rfl⟩ := hhigh
    rw [if_pos ⟨rfl, rfl⟩, if_neg hlow, if_pos ⟨rfl, rfl⟩]
  · rw [if_neg hhigh, if_neg hhigh]
    split
    · next h => rw [h.1, h.2]
    · rfl

theorem addr_ne_zero : w.addr ≠ 0 := by
  intro h
  have habove := w.above
  rw [h] at habove
  exact absurd habove (by decide)

theorem pointed_of_ne {s : Frame → BitVec 10 → PageEntry} (ht : ¬w.IsTable t) :
    w.pointed f s t = s t := by
  funext j
  rw [pointed, if_neg fun h => ht (Or.inl h.1), if_neg fun h => ht (Or.inr h.1)]

theorem pages_point (ht : ¬w.IsTable t) : (w.point f vm).pages t = vm.pages t := pointed_of_ne ht

theorem present_point : ((w.point f vm).pages t j).present = (vm.pages t j).present := by
  change (w.pointed f vm.pages t j).present = _
  rw [pointed]
  split
  · rfl
  · split <;> rfl

theorem point_point : w.point g (w.point f vm) = w.point g vm := by
  refine congrArg (fun s => { vm with pages := s }) ?_
  funext t j
  change w.pointed g (w.pointed f vm.pages) t j = w.pointed g vm.pages t j
  rw [pointed, pointed, pointed]
  split
  · rfl
  · split <;> rfl

theorem setEntry_point (ht : ¬w.IsTable t) :
    (w.point f vm).setEntry t i e = w.point f (vm.setEntry t i e) := by
  refine congrArg (fun s => { vm with pages := s }) ?_
  funext t' j
  refine Vm.pages_setEntry.trans ?_
  by_cases hsame : t' = t
  · rw [hsame, pages_point ht, pointed_of_ne ht, Vm.pages_setEntry]
  · rw [if_neg fun h => hsame h.1, pointed, Vm.pages_setEntry_of_ne hsame]
    rfl

/-- The entries that lead to the window are all in the kernel's half. -/
theorem MappedBy.congr (h : w.MappedBy vm d)
    (hupper : ∀ i, userTop ≤ i → vm'.pages d i = vm.pages d i) : w.MappedBy vm' d where
  self := by rw [hupper _ (by decide), h.self]
  low := by rw [hupper _ index_low.1, h.low]
  high := by rw [hupper _ index_high.1, h.high]

namespace InPlace

theorem congr (h : w.InPlace vm) (hcr3 : vm'.cr3 = vm.cr3)
    (hupper : ∀ i, userTop ≤ i → vm'.pages vm.cr3 i = vm.pages vm.cr3 i)
    (htable : ∀ t, w.IsTable t → ∀ j, (vm.pages t j).present = true →
      (vm'.pages t j).present = true) : w.InPlace vm' where
  mapped := hcr3 ▸ h.mapped.congr hupper
  low := htable _ (Or.inl rfl) _ h.low
  high := htable _ (Or.inr rfl) _ h.high
  other := hcr3 ▸ h.other

theorem setEntry (h : w.InPlace vm) (hroot : t = vm.cr3 → i < userTop)
    (htable : w.IsTable t → e.present = true) : w.InPlace (vm.setEntry t i e) := by
  refine h.congr rfl (fun j hj => ?_) (fun t' ht' j hpresent => ?_)
  · refine Vm.pages_setEntry.trans (if_neg fun hsame => ?_)
    exact absurd hj (BitVec.not_le.mpr (hsame.2 ▸ hroot hsame.1.symm))
  · rw [Vm.pages_setEntry]
    split
    · next hsame => exact htable (hsame.1 ▸ ht')
    · exact hpresent

theorem point (h : w.InPlace vm) : w.InPlace (w.point f vm) :=
  h.congr rfl (fun _ _ => by rw [pages_point h.other]) fun _ _ _ hpresent => by
    rw [present_point, hpresent]

theorem entryAt_tblentFind {addr : Word} (h : w.InPlace vm)
    (ht : (vm.pages vm.cr3 (dirIndex addr)).target = some t) :
    vm.entryAt (tblentFind addr) = some (t, tblIndex addr) := by
  rw [Vm.entryAt, pagingMappingGet_eq_bind, dirIndex_tblentFind, tblIndex_tblentFind,
    h.mapped.self, Option.bind_some, ht, offset_tblentFind]
  rfl

theorem entryAt_entryPtr (h : w.InPlace vm) :
    (w.point f vm).entryAt (entryPtr w.addr i) = some (f, i) := by
  have hlow : ((w.point f vm).pages w.low (tblIndex w.addr)).target = some f := by
    change (w.pointed f vm.pages _ _).target = _
    rw [pointed, if_pos ⟨rfl, rfl⟩, PageEntry.target, if_pos h.low]
  rw [Vm.entryAt, pagingMappingGet_eq_bind, dirIndex_entryPtr, tblIndex_entryPtr,
    h.point.mapped.low, Option.bind_some, hlow, offset_entryPtr]
  rfl

end InPlace

theorem loadEntry_of {ptr : Word} (h : vm.entryAt ptr = some (t, i)) :
    loadEntry ptr vm = .ok (vm.pages t i) vm := by
  rw [loadEntry, get_bind_apply, h]
  rfl

theorem storeEntry_of {ptr : Word} (h : vm.entryAt ptr = some (t, i)) :
    storeEntry ptr e vm = .ok () (vm.setEntry t i e) := by
  rw [storeEntry, get_bind_apply, h]
  rfl

theorem pagingMapTemp_eq (h : w.InPlace vm) :
    Windowed.pagingMapTemp w.addr (entryAddr f) vm = .ok w.addr (w.point f vm) := by
  have hoffset : w.addr + entryAddr f % archPgsize = w.addr := by
    rw [entryAddr_mod]
    exact BitVec.add_zero _
  have hlow := h.entryAt_tblentFind h.mapped.low
  have h₁ : w.InPlace (vm.setEntry w.low (tblIndex w.addr)
      { vm.pages w.low (tblIndex w.addr) with frame := f }) :=
    h.setEntry (fun hcr3 => absurd (Or.inl hcr3.symm) h.other) fun _ => h.low
  have hhigh := h₁.entryAt_tblentFind h₁.mapped.high
  rw [Windowed.pagingMapTemp, bind_apply_of_ok (failIf_neg addr_ne_zero),
    bind_apply_of_ok (loadEntry_of hlow), entryFrame_entryAddr,
    bind_apply_of_ok (storeEntry_of hlow), bind_apply_of_ok (loadEntry_of hhigh),
    bind_apply_of_ok (storeEntry_of hhigh), hoffset, pure_apply, entryFrame_next]
  exact congrArg (EStateM.Result.ok w.addr) setEntry_setEntry_eq_point

theorem pagingMapTemp_point (h : w.InPlace vm) :
    Windowed.pagingMapTemp w.addr (entryAddr g) (w.point f vm) = .ok w.addr (w.point g vm) := by
  rw [pagingMapTemp_eq h.point, point_point]

theorem load_point (h : w.InPlace vm) (hf : ¬w.IsTable f) :
    loadEntry (entryPtr w.addr i) (w.point f vm) = .ok (vm.pages f i) (w.point f vm) := by
  rw [loadEntry_of h.entryAt_entryPtr, pages_point hf]

theorem store_point (h : w.InPlace vm) (hf : ¬w.IsTable f) :
    storeEntry (entryPtr w.addr i) e (w.point f vm) = .ok () (w.point f (vm.setEntry f i e)) := by
  rw [storeEntry_of h.entryAt_entryPtr, setEntry_point hf]

/-! ## Whole structures -/

theorem setEntry_setPage :
    (vm.setPage f es).setEntry f i e = vm.setPage f (Function.update es i e) := by
  simp only [Vm.setEntry, Vm.setPage, Function.update_self, Function.update_idem]

theorem setPage_eq_self (hes : ∀ i, es i = vm.pages f i) : vm.setPage f es = vm := by
  rw [Vm.setPage, funext hes, Function.update_eq_self]

theorem pages_setPage_of_ne (h : t ≠ f) : (vm.setPage f es).pages t = vm.pages t :=
  Function.update_of_ne h _ _

theorem InPlace.setPage (h : w.InPlace vm) (hf : ¬w.IsTable f) (hcr3 : f ≠ vm.cr3) :
    w.InPlace (vm.setPage f es) := by
  refine h.congr rfl (fun i _ => ?_) (fun t ht j hpresent => ?_)
  · rw [pages_setPage_of_ne hcr3.symm]
  · have hne : t ≠ f := by
      rintro rfl
      exact hf ht
    rw [pages_setPage_of_ne hne]
    exact hpresent

theorem eq_ofNat_iff {n : Nat} (hn : n < 1024) : i = BitVec.ofNat 10 n ↔ i.toNat = n := by
  rw [← BitVec.toNat_inj, BitVec.toNat_ofNat, Nat.mod_eq_of_lt hn]

theorem eq_kernelIndex_iff {n : Nat} (hn : n < 255) :
    i = dirIndex kernelVirtBase + BitVec.ofNat 10 n ↔ i.toNat = 768 + n := by
  have htop : dirIndex kernelVirtBase = BitVec.ofNat 10 768 := by decide
  rw [htop, ← BitVec.ofNat_add, eq_ofNat_iff (by omega)]

section Fresh

variable {n : Nat} (h : w.InPlace vm) (hf : ¬w.IsTable f) (hcr3 : f ≠ vm.cr3)
include h hf hcr3

theorem clearEntries_eq (hn : n ≤ 1024) : Windowed.clearEntries w.addr n (w.point f vm) =
    .ok () (w.point f (vm.setPage f fun i => if i.toNat < n then {} else vm.pages f i)) := by
  induction n with
  | zero =>
    rw [setPage_eq_self fun i => if_neg (Nat.not_lt_zero _)]
    rfl
  | succ n ih =>
    rw [Windowed.clearEntries, bind_apply_of_ok (ih (Nat.le_of_succ_le hn)),
      store_point (h.setPage hf hcr3) hf, setEntry_setPage]
    congr 3
    funext i
    simp only [Function.update_apply, eq_ofNat_iff hn, Nat.lt_succ_iff_lt_or_eq]
    by_cases hlt : i.toNat < n
    · rw [if_pos hlt, if_pos (Or.inl hlt), ite_self]
    · simp only [hlt, if_false, false_or]

theorem clearEntries_all :
    Windowed.clearEntries w.addr 1024 (w.point f vm) =
      .ok () (w.point f (vm.setPage f fun _ => {})) := by
  rw [clearEntries_eq h hf hcr3 (Nat.le_refl _)]
  congr 3
  funext i
  rw [if_pos i.isLt]

theorem copyEntries_eq (hkernel : ¬w.IsTable vm.kernelDir) (hne : vm.kernelDir ≠ f)
    (hn : n ≤ 255) : Windowed.copyEntries w.addr (entryAddr f) n (w.point f vm) =
      .ok () (w.point f (vm.setPage f fun i =>
        if userTop ≤ i ∧ i.toNat < 768 + n then vm.pages vm.kernelDir i else vm.pages f i)) := by
  induction n with
  | zero =>
    rw [setPage_eq_self fun i => if_neg fun hi => ?_]
    · rfl
    · have hle := BitVec.le_def.mp hi.1
      rw [toNat_userTop] at hle
      omega
  | succ n ih =>
    have hplace : w.InPlace (vm.setPage f fun i => if userTop ≤ i ∧ i.toNat < 768 + n then
        vm.pages vm.kernelDir i else vm.pages f i) := h.setPage hf hcr3
    have hkernelDir : ∀ es, (w.point f (vm.setPage f es)).kernelDir = vm.kernelDir :=
      fun _ => rfl
    rw [Windowed.copyEntries, bind_apply_of_ok (ih (Nat.le_of_succ_le hn)), get_bind_apply,
      hkernelDir, bind_apply_of_ok (pagingMapTemp_point hplace),
      bind_apply_of_ok (load_point hplace hkernel), pages_setPage_of_ne hne,
      bind_apply_of_ok (pagingMapTemp_point hplace), store_point hplace hf, setEntry_setPage]
    congr 3
    funext i
    rw [Function.update_apply]
    have hindex := eq_kernelIndex_iff (i := i) hn
    by_cases hlast : i = dirIndex kernelVirtBase + BitVec.ofNat 10 n
    · have hupper : userTop ≤ i ∧ i.toNat < 768 + (n + 1) := by
        rw [BitVec.le_def, toNat_userTop, hindex.mp hlast]
        omega
      rw [if_pos hlast, if_pos hupper, hlast]
    · have hne : i.toNat ≠ 768 + n := fun heq => hlast (hindex.mpr heq)
      have hlt : i.toNat < 768 + (n + 1) ↔ i.toNat < 768 + n := by omega
      simp only [if_neg hlast, hlt]

end Fresh

/-! ## The functions -/

theorem physicalAlloc_frame (halloc : physicalAlloc vm = .ok f vm') :
    vm'.pages = vm.pages ∧ vm'.cr3 = vm.cr3 ∧ vm'.kernelDir = vm.kernelDir := by
  obtain ⟨index, map, -, -, -, rfl⟩ := physicalAlloc_eq_ok.mp halloc
  exact ⟨rfl, rfl, rfl⟩

theorem physicalAlloc_inPlace (h : w.InPlace vm) (halloc : physicalAlloc vm = .ok f vm') :
    w.InPlace vm' := by
  obtain ⟨hpages, hcr3, -⟩ := physicalAlloc_frame halloc
  exact h.congr hcr3 (fun _ _ => by rw [hpages]) fun _ _ _ hpresent => by rwa [hpages]

/-- The allocator does not look at page structures. -/
theorem physicalAlloc_agree (vm : Vm) (pages : Frame → BitVec 10 → PageEntry) :
    Agree (fun f s g t => f = g ∧ s = { t with pages }) (physicalAlloc { vm with pages })
      (physicalAlloc vm) := by
  rw [physicalAlloc, get_bind_apply, get_bind_apply]
  cases vm.allocMap.findAndSet with
  | none => exact .error
  | some r =>
    rw [orThrow, pure_bind]
    refine Agree.bind Agree.failIf fun _ s _ t _ _ heq => ?_
    obtain ⟨rfl, rfl⟩ := heq
    exact .ok ⟨rfl, rfl⟩

theorem physicalRelease_agree (vm : Vm) (pages : Frame → BitVec 10 → PageEntry) :
    Agree (fun b s b' t => b = b' ∧ s = { t with pages }) (physicalRelease f { vm with pages })
      (physicalRelease f vm) := by
  rw [physicalRelease, get_bind_apply, get_bind_apply]
  split
  · exact .ok ⟨rfl, rfl⟩
  · rw [modify_bind_apply, modify_bind_apply]
    split
    · exact .ok ⟨rfl, rfl⟩
    · refine Agree.bind Agree.failIf fun _ s _ t _ _ heq => ?_
      obtain ⟨rfl, rfl⟩ := heq
      exact .ok ⟨rfl, rfl⟩

theorem physicalRelease_frame {freed : Bool} (h : physicalRelease f vm = .ok freed vm') :
    vm'.pages = vm.pages ∧ vm'.cr3 = vm.cr3 ∧ vm'.kernelDir = vm.kernelDir := by
  obtain ⟨-, -, rfl⟩ | ⟨-, -, -, rfl⟩ | ⟨-, -, -, rfl⟩ := physicalRelease_eq_ok.mp h
  · exact ⟨rfl, rfl, rfl⟩
  · exact ⟨rfl, rfl, rfl⟩
  · exact ⟨rfl, rfl, rfl⟩

theorem setEntry_setEntry {e' : PageEntry} :
    (vm.setEntry t i e).setEntry t i e' = vm.setEntry t i e' := by
  simp only [Vm.setEntry, Function.update_self, Function.update_idem]

theorem setPage_setPage {es' : BitVec 10 → PageEntry} :
    (vm.setPage f es).setPage f es' = vm.setPage f es' := by
  simp only [Vm.setPage, Function.update_idem]

/-- The frame that the allocator hands out is not part of the window. -/
def AllocSpares (w : Window) (vm : Vm) : Prop :=
  ∀ f vm', physicalAlloc vm = .ok f vm' → ¬w.IsTable f ∧ f ≠ vm.cr3

theorem newDir_eq (hne : vm.kernelDir ≠ d) :
    ((vm.setPage d fun _ => {}).setEntry d recursiveIndex e).setPage d (fun i =>
      if userTop ≤ i ∧ i.toNat < 768 + 255 then
        ((vm.setPage d fun _ => {}).setEntry d recursiveIndex e).pages vm.kernelDir i
      else ((vm.setPage d fun _ => {}).setEntry d recursiveIndex e).pages d i) =
    vm.setPage d fun i => if i = recursiveIndex then e
      else if dirIndex kernelVirtBase ≤ i then vm.pages vm.kernelDir i else {} := by
  rw [setEntry_setPage, setPage_setPage, pages_setPage_of_ne hne]
  congr 1
  funext i
  have hself : ∀ es, (vm.setPage d es).pages d = es := fun es => Function.update_self _ _ _
  have hi := i.isLt
  have hrec : i = recursiveIndex ↔ i.toNat = 1023 := BitVec.toNat_inj.symm
  rw [hself, Function.update_apply]
  by_cases hlast : i = recursiveIndex
  · have hle : ¬(userTop ≤ i ∧ i.toNat < 768 + 255) := fun h => by
      rw [hrec.mp hlast] at h
      exact absurd h.2 (Nat.lt_irrefl _)
    rw [if_neg hle, if_pos hlast, if_pos hlast]
  · have hlt : i.toNat < 768 + 255 := by
      rw [hrec] at hlast
      omega
    rw [if_neg hlast, if_neg hlast]
    simp only [hlt, and_true]
    rfl

theorem pagingDirCreate_agree (h : w.InPlace vm) (halloc : w.AllocSpares vm)
    (hkernel : ¬w.IsTable vm.kernelDir) (hnull : vm.kernelDir ≠ 0)
    (hother : ∀ f vm', physicalAlloc vm = .ok f vm' → vm.kernelDir ≠ f) :
    Agree (fun p s d t => p = entryAddr d ∧ s = w.point d t)
      (Windowed.pagingDirCreate w.addr vm) (pagingDirCreate vm) := by
  refine Agree.bind (Agree.refl _) fun d vm₁ _ _ hd _ heq => ?_
  obtain ⟨rfl, rfl⟩ := heq
  have hplace := physicalAlloc_inPlace h hd
  obtain ⟨hspare, hcr3⟩ := halloc d vm₁ hd
  have hne := hother d vm₁ hd
  obtain ⟨-, hsame, hkernelDir⟩ := physicalAlloc_frame hd
  rw [← hsame] at hcr3
  rw [← hkernelDir] at hkernel hnull hne
  have hclear : w.InPlace (vm₁.setPage d fun _ => {}) := hplace.setPage hspare hcr3
  have hset : w.InPlace ((vm₁.setPage d fun _ => {}).setEntry d recursiveIndex
      { present := true, writable := true, frame := d }) :=
    hclear.setEntry (fun heq => absurd heq hcr3) fun _ => rfl
  have hcopy : (w.point d ((vm₁.setPage d fun _ => {}).setEntry d recursiveIndex
      { present := true, writable := true, frame := d })).kernelDir = vm₁.kernelDir := rfl
  rw [bind_apply_of_ok (pagingMapTemp_eq hplace),
    bind_apply_of_ok (clearEntries_all hplace hspare hcr3), entryFrame_entryAddr,
    bind_apply_of_ok (store_point hclear hspare), get_bind_apply, hcopy, runIf,
    if_pos (mt entryAddr_eq_zero.mp hnull),
    bind_apply_of_ok (copyEntries_eq hset hspare hcr3 hkernel hne (Nat.le_refl _))]
  exact .ok ⟨rfl, congrArg (w.point d) (newDir_eq hne)⟩

section Map

variable (h : w.InPlace vm) (hd : ¬w.IsTable d) (hi : dirIndex virt < userTop)
include h hd hi

theorem tableFor_agree {flags : PagingFlags} (halloc : w.AllocSpares vm)
    (htable : ∀ t, (vm.pages d (dirIndex virt)).target = some t → ¬w.IsTable t) :
    Agree (fun p s t s' => p = w.addr ∧ s = w.point t s' ∧ w.InPlace s' ∧ ¬w.IsTable t)
      (Windowed.tableFor w.addr (entryAddr d) virt flags vm) (tableFor d virt flags vm) := by
  rw [Windowed.tableFor, Windowed.direntGet, bind_assoc,
    bind_apply_of_ok (pagingMapTemp_eq h), pure_bind, bind_apply_of_ok (load_point h hd), tableFor,
    get_bind_apply]
  by_cases hpresent : (vm.pages d (dirIndex virt)).present = true
  · have hset : w.InPlace (vm.setEntry d (dirIndex virt) { vm.pages d (dirIndex virt) with
        writable := (vm.pages d (dirIndex virt)).writable || flags.write
        user := (vm.pages d (dirIndex virt)).user || flags.user }) :=
      h.setEntry (fun _ => hi) fun _ => hpresent
    rw [if_pos hpresent, if_pos hpresent, bind_apply_of_ok (store_point h hd),
      bind_apply_of_ok (load_point hset hd), pagingMapTemp_point hset]
    refine .ok ⟨rfl, ?_, hset, htable _ (if_pos hpresent)⟩
    rw [Vm.pages_setEntry, if_pos ⟨rfl, rfl⟩]
  · rw [if_neg hpresent, if_neg hpresent, bind_apply_of_ok (store_point h hd)]
    refine Agree.bind (physicalAlloc_agree vm _) fun t s _ vm₁ _ ht heq => ?_
    obtain ⟨rfl, hs⟩ := heq
    obtain ⟨hpages, hcr3, -⟩ := physicalAlloc_frame ht
    obtain ⟨hspare, hne⟩ := halloc t vm₁ ht
    rw [← hcr3] at hne
    have hplace := physicalAlloc_inPlace h ht
    have hset : ∀ f, w.InPlace (vm₁.setEntry d (dirIndex virt)
        { present := true, writable := flags.write, user := flags.user, frame := f }) :=
      fun f => hplace.setEntry (fun _ => hi) fun _ => rfl
    -- The entry was written before the table was allocated, and is completed now.
    have hstate : s = w.point d (vm₁.setEntry d (dirIndex virt)
        { present := true, writable := flags.write, user := flags.user }) := by
      simp only [hs, point, Vm.setEntry, hpages]
    rw [hstate, bind_apply_of_ok (load_point (hset 0) hd), entryFrame_entryAddr,
      bind_apply_of_ok (store_point (hset 0) hd), setEntry_setEntry, Vm.pages_setEntry,
      if_pos ⟨rfl, rfl⟩, bind_apply_of_ok (pagingMapTemp_point (hset t)),
      bind_apply_of_ok (clearEntries_all (hset t) hspare hne)]
    exact .ok ⟨rfl, rfl, (hset t).setPage hspare hne, hspare⟩

end Map

theorem dirOrKernel_eq (hnull : d ≠ 0) :
    Windowed.dirOrKernel (entryAddr d) vm = .ok (entryAddr d) vm := by
  have hne : entryAddr d ≠ 0 := mt entryAddr_eq_zero.mp hnull
  rw [Windowed.dirOrKernel, get_bind_apply, if_neg hne, bind_apply_of_ok (failIf_neg hne)]
  rfl

/-- A page whose directory and table the window can show. -/
structure Shows (w : Window) (vm : Vm) (d : Frame) (virt : Word) : Prop where
  place : w.InPlace vm
  dir : ¬w.IsTable d
  table : ∀ t, (vm.pages d (dirIndex virt)).target = some t → ¬w.IsTable t
  nonnull : d ≠ 0
  aligned : addrAlign virt archPgsize = virt

theorem pagingMap_agree {phys : Word} {flags : PagingFlags} (h : w.Shows vm d virt)
    (hi : dirIndex virt < userTop) (halloc : w.AllocSpares vm)
    (hphys : addrAlign phys archPgsize = phys) :
    Agree (fun b s b' t => b = b' ∧ ∃ f, s = w.point f t)
      (Windowed.pagingMap w.addr (entryAddr d) virt phys flags vm)
      (pagingMap d virt (entryFrame phys) flags vm) := by
  rw [Windowed.pagingMap, bind_apply_of_ok (failIf_neg (not_not.mpr h.aligned)),
    bind_apply_of_ok (failIf_neg (not_not.mpr hphys)), bind_apply_of_ok (dirOrKernel_eq h.nonnull)]
  refine Agree.bind (tableFor_agree h.place h.dir hi halloc h.table) fun p s t vm₁ _ _ heq => ?_
  obtain ⟨rfl, rfl, hplace, ht⟩ := heq
  rw [bind_apply_of_ok (load_point hplace ht), get_bind_apply]
  split
  · rw [bind_apply_of_ok (store_point hplace ht)]
    exact .ok ⟨rfl, t, rfl⟩
  · exact .ok ⟨rfl, t, rfl⟩

theorem tblentGet_none (h : w.Shows vm d virt)
    (hnone : (vm.pages d (dirIndex virt)).present = false) :
    Windowed.tblentGet w.addr (entryAddr d) virt vm = .ok none (w.point d vm) := by
  rw [Windowed.tblentGet, Windowed.direntGet, bind_assoc,
    bind_apply_of_ok (pagingMapTemp_eq h.place), pure_bind,
    bind_apply_of_ok (load_point h.place h.dir), hnone]
  rfl

theorem tblentGet_some (h : w.Shows vm d virt)
    (hpresent : (vm.pages d (dirIndex virt)).present = true) :
    Windowed.tblentGet w.addr (entryAddr d) virt vm = .ok (some (entryPtr w.addr (tblIndex virt)))
      (w.point (vm.pages d (dirIndex virt)).frame vm) := by
  rw [Windowed.tblentGet, Windowed.direntGet, bind_assoc,
    bind_apply_of_ok (pagingMapTemp_eq h.place), pure_bind,
    bind_apply_of_ok (load_point h.place h.dir), hpresent, Bool.not_true, if_neg Bool.false_ne_true,
    bind_apply_of_ok (pagingMapTemp_point h.place)]
  rfl

theorem pagingUnmap_agree (h : w.Shows vm d virt) : Agree (fun _ s _ t => ∃ f, s = w.point f t)
      (Windowed.pagingUnmap w.addr (entryAddr d) virt vm) (pagingUnmap d virt vm) := by
  rw [Windowed.pagingUnmap, bind_apply_of_ok (failIf_neg (not_not.mpr h.aligned)),
    bind_apply_of_ok (dirOrKernel_eq h.nonnull), pagingUnmap, get_bind_apply, Vm.tblentGet]
  cases hpresent : (vm.pages d (dirIndex virt)).present with
  | false =>
    rw [bind_apply_of_ok (tblentGet_none h hpresent), if_neg Bool.false_ne_true]
    exact .ok ⟨d, rfl⟩
  | true =>
    have ht := h.table _ (if_pos hpresent)
    rw [bind_apply_of_ok (tblentGet_some h hpresent), if_pos rfl]
    change Agree _ ((loadEntry _ >>= _) _) ((ite _ _ _ : VmM Unit) _)
    rw [bind_apply_of_ok (load_point h.place ht)]
    split
    · exact .ok ⟨_, rfl⟩
    · refine Agree.bind (physicalRelease_agree vm _) fun _ s _ vm₁ _ hrelease heq => ?_
      obtain ⟨hpages, hcr3, -⟩ := physicalRelease_frame hrelease
      have hstate : s = w.point (vm.pages d (dirIndex virt)).frame vm₁ := by
        simp only [heq.2, point, hpages]
      have hplace : w.InPlace vm₁ := h.place.congr hcr3 (fun _ _ => by rw [hpages])
        fun _ _ _ hp => by rwa [hpages]
      rw [hstate, bind_apply_of_ok (load_point hplace ht), store_point hplace ht, hpages]
      refine .ok ⟨(vm.pages d (dirIndex virt)).frame, ?_⟩
      simp only [hpages]

theorem pagingMappingGet_eq (h : w.Shows vm d virt) : ∃ f,
    Windowed.pagingMappingGet w.addr (entryAddr d) virt vm =
      .ok ((vm.pagingMappingGet d virt).elim 0 entryAddr) (w.point f vm) := by
  rw [Windowed.pagingMappingGet, bind_apply_of_ok (failIf_neg (not_not.mpr h.aligned)),
    bind_apply_of_ok (dirOrKernel_eq h.nonnull), Vm.pagingMappingGet, Vm.tblentGet]
  cases hpresent : (vm.pages d (dirIndex virt)).present with
  | false =>
    rw [bind_apply_of_ok (tblentGet_none h hpresent), if_neg Bool.false_ne_true]
    exact ⟨d, rfl⟩
  | true =>
    have ht := h.table _ (if_pos hpresent)
    refine ⟨(vm.pages d (dirIndex virt)).frame, ?_⟩
    rw [bind_apply_of_ok (tblentGet_some h hpresent), if_pos rfl]
    change (loadEntry _ >>= _) _ = _
    rw [bind_apply_of_ok (load_point h.place ht)]
    cases hte : (vm.pages (vm.pages d (dirIndex virt)).frame (tblIndex virt)).present with
    | false =>
      simp only [hte]
      rfl
    | true =>
      simp only [hte]
      rfl

theorem pagingIsMapped_eq (h : w.Shows vm d virt) : ∃ f,
    Windowed.pagingIsMapped w.addr (entryAddr d) virt vm =
      .ok (vm.pagingIsMapped d virt) (w.point f vm) := by
  rw [Windowed.pagingIsMapped, bind_apply_of_ok (failIf_neg (not_not.mpr h.aligned)),
    bind_apply_of_ok (dirOrKernel_eq h.nonnull), Vm.pagingIsMapped, Vm.tblentGet]
  cases hpresent : (vm.pages d (dirIndex virt)).present with
  | false =>
    rw [bind_apply_of_ok (tblentGet_none h hpresent), if_neg Bool.false_ne_true]
    exact ⟨d, rfl⟩
  | true =>
    have ht := h.table _ (if_pos hpresent)
    refine ⟨(vm.pages d (dirIndex virt)).frame, ?_⟩
    rw [bind_apply_of_ok (tblentGet_some h hpresent), if_pos rfl]
    change (loadEntry _ >>= _) _ = _
    rw [bind_apply_of_ok (load_point h.place ht)]
    rfl

end Window

end Horizon
