import Horizon.System.Step
import Horizon.Memory.Meminfo

/-!
# Horizon — ELF modules (`spec/elf/module.c`)

Modules are not mapped to virtual memory, so they are read through the temporary window. What
`paging_map_temp` does to the page tables is in `Memory.Window`; here the state is the physical
address of the first of the two pages that the window shows, and a pointer into the window is an
offset. A pointer stays where it is when the window is moved, and then leads to other memory.
-/

namespace Horizon

open StateError

/-- Programs that read modules. -/
abbrev ElfM := EStateM Fault Word

/-- Show the page of an address and the one behind it. -/
def elfMapTemp (phys : Word) : ElfM Word := do
  set (addrAlign phys archPgsize)
  return phys % archPgsize

/-- Two bytes of memory. -/
def ramHalf (ram : Word → BitVec 8) (addr : Word) : BitVec 16 := ram (addr + 1) ++ ram addr

/-- `ELF_SECTION_MAX`. -/
def elfSectionMax : ℕ := 8

/-- `ELF_CLASS_32`. -/
def elfClass32 : BitVec 8 := 1

/-- `ELF_ARCH_386`. -/
def elfArch386 : BitVec 16 := 3

/-- `ELF_PTYPE_LOAD`. -/
def elfPtypeLoad : Word := 1

/-- `sizeof(elf_program_header_t)`. -/
def elfProgramHeaderSize : Word := 32

/-- Read the potential elf header to determine if a module is valid. -/
def elfModuleValidate (ram : Word → BitVec 8) (start : Word) : ElfM Bool := do
  let fheader ← elfMapTemp start
  let base := (← get) + fheader
  if (ram base, ram (base + 1), ram (base + 2), ram (base + 3)) ≠ (0x7F, 0x45, 0x4C, 0x46) then
    return false
  -- A 64-bit binary is refused like an unknown class.
  if ram (base + 4) ≠ elfClass32 then return false
  return ramHalf ram (base + 18) = elfArch386

/-- The loop over the program headers. The number of headers is read through the window in each
round. -/
def elfParseLoop (ram : Word → BitVec 8) (start fheader pheaderStart : Word) :
    ℕ → Word → List ElfSection → ElfM (List ElfSection)
  | 0, _, _ => throw .hang
  | fuel + 1, i, sections => do
      if i = (ramHalf ram ((← get) + fheader + 44)).setWidth 32 then return sections
      let pheader ← elfMapTemp (pheaderStart + i * elfProgramHeaderSize)
      let base := (← get) + pheader
      if ramWord ram base ≠ elfPtypeLoad then
        elfParseLoop ram start fheader pheaderStart fuel (i + 1) sections
      else
        failIf (elfSectionMax ≤ i.toNat) .outOfBounds
        elfParseLoop ram start fheader pheaderStart fuel (i + 1) (sections.set i.toNat
          { phys := start + ramWord ram (base + 4)
            virt := ramWord ram (base + 8)
            size := ramWord ram (base + 16)
            reserve := ramWord ram (base + 20)
            flags := ramWord ram (base + 24) })

/-- Parse the relevant file and program header info of an .ELF. The sections are zero at first. An
index that comes up again comes up forever, so the rounds are at most one more than there are
words. -/
def elfModuleParse (ram : Word → BitVec 8) (start : Word) : ElfM ElfBinary := do
  failIf (!(← elfModuleValidate ram start)) .assertion
  let fheader ← elfMapTemp start
  let base := (← get) + fheader
  let entry := ramWord ram (base + 24)
  let pheaderOffset := ramWord ram (base + 28)
  failIf (pheaderOffset = 0) .assertion
  let sections ← elfParseLoop ram start fheader (start + pheaderOffset) 0x100000001 0
    (List.replicate elfSectionMax { phys := 0, virt := 0, size := 0, reserve := 0 })
  return { entry, sections }

/-- Modules are read by the kernel, and only the window is moved for it. -/
def liftElf {α : Type} (x : ElfM α) : KernelM α :=
  match x 0 with
  | .ok a _ => pure a
  | .error e _ => throw e

/-- Load a startup process and return its PID. -/
def startpLoad (start : Word) : KernelM Pid := do
  let ram := (← get).vm.ram
  if !(← liftElf (elfModuleValidate ram start)) then return 0
  let binary ← liftElf (elfModuleParse ram start)
  let pid ← processNew 0 binary.entry
  binary.sections.forM (loadSection pid)
  return pid

end Horizon
