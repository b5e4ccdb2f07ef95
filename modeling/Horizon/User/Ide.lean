import Horizon.Lib.StateError
import Horizon.Util

/-!
# Horizon — the disk driver (`user/idehdd-i586`)

A block is selected by writing its address to the registers of the controller, one byte each, before
the command is written. Both disks of a controller listen to the same registers: a bit of the head
register says which of them is meant, and another one how the address is to be read.

The controller is the environment: an `AtaBus` has the values that reads of the status and the data
register will give, and what the driver has written.
-/

namespace Horizon

open StateError

/-- The fields of `ide_device_t` that the driver uses. -/
structure IdeDevice where
  present : Bool := false
  lba : Bool := false
  cylinders : Word := 0
  heads : Word := 0
  sectors : Word := 0

structure AtaGeometry where
  sector : BitVec 8
  head : BitVec 8
  cylinderLow : BitVec 8
  cylinderHigh : BitVec 8
  deriving DecidableEq, Repr

structure IdeController where
  /-- The master and the slave. -/
  devices : Bool → IdeDevice

/-- What the driver does not survive. -/
inductive IdeFault where
  /-- A division by zero. -/
  | divideError
  deriving DecidableEq, Repr

def ataRegCount : ℕ := 2
def ataRegSector : ℕ := 3
def ataRegLcyl : ℕ := 4
def ataRegHcyl : ℕ := 5
def ataRegHead : ℕ := 6
def ataRegCommand : ℕ := 7

def ataCmdRead : BitVec 8 := 0x20
def ataCmdWrite : BitVec 8 := 0x30

structure AtaBus where
  status : ℕ → BitVec 8
  data : ℕ → BitVec 16
  /-- The registers written, each with its value. -/
  written : List (ℕ × BitVec 8) := []
  /-- The words written to the data register. -/
  stored : List (BitVec 16) := []

abbrev IdeM := EStateM IdeFault AtaBus

/-! ## Addresses (`idedev.c`) -/

/-- The bits that are added to the head: the disk and the kind of address. -/
def AtaGeometry.mark (geom : AtaGeometry) (pos lba : Bool) : AtaGeometry :=
  { geom with
    head := geom.head ||| (BitVec.ofBool pos).setWidth 8 <<< 4 |||
      (BitVec.ofBool lba).setWidth 8 <<< 6 }

/-- The values for the registers, none if it divides by zero. -/
def idedevGetGeometry (dev : IdeDevice) (pos : Bool) (start : Word) : Option AtaGeometry :=
  if dev.lba then
    let geom : AtaGeometry :=
      { sector := (start &&& 0xFF).setWidth 8
        cylinderLow := ((start >>> 8) &&& 0xFF).setWidth 8
        cylinderHigh := ((start >>> 16) &&& 0xFF).setWidth 8
        head := ((start >>> 24) &&& 0xF).setWidth 8 }
    some (geom.mark pos dev.lba)
  else if dev.heads * dev.sectors = 0 ∨ dev.sectors = 0 then none
  else
    let cylinder := start / (dev.heads * dev.sectors)
    let offset := start % (dev.heads * dev.sectors)
    let geom : AtaGeometry :=
      { sector := (offset % dev.sectors + 1).setWidth 8
        cylinderLow := (cylinder &&& 0xFF).setWidth 8
        cylinderHigh := ((cylinder >>> 8) &&& 0xFF).setWidth 8
        head := (offset / dev.sectors).setWidth 8 }
    some (geom.mark pos dev.lba)

/-! ## Transfers (`idectl.c`) -/

def idectlWrite (reg : ℕ) (val : BitVec 8) : IdeM Unit :=
  modify fun bus => { bus with written := bus.written ++ [(reg, val)] }

/-- Read the status register. -/
def idectlStatus : IdeM (BitVec 8) := do
  let bus ← get
  modify fun bus => { bus with status := fun n => bus.status (n + 1) }
  return bus.status 0

def idectlReadWord : IdeM (BitVec 16) := do
  let bus ← get
  modify fun bus => { bus with data := fun n => bus.data (n + 1) }
  return bus.data 0

def idectlWriteWord (val : BitVec 16) : IdeM Unit :=
  modify fun bus => { bus with stored := bus.stored ++ [val] }

/-- `BSY` or `DRQ`. -/
def ataBusy (status : BitVec 8) : Bool := status.getLsbD 7 || status.getLsbD 3

def idectlSelect (pos : Bool) : IdeM Bool := do
  if ataBusy (← idectlStatus) then return false
  idectlWrite ataRegHead (0xA0 ||| (BitVec.ofBool pos).setWidth 8 <<< 4)
  return !ataBusy (← idectlStatus)

/-- The loop of `idectl_wait`, with the value of `elapsed` before it is counted down. -/
def idectlWaitLoop (mask val : BitVec 8) : ℕ → IdeM Bool
  | 0 => return false
  | elapsed + 1 => do
      if elapsed = 0 then return false
      if (← idectlStatus) &&& mask = val then return true
      idectlWaitLoop mask val elapsed

def idectlWait (mask val : BitVec 8) : IdeM Bool := idectlWaitLoop mask val 10000

/-- `IDE_READ` or `IDE_WRITE`, with the words in the buffer. -/
inductive IdeMode where
  | read
  | write (src : ℕ → BitVec 16)

def IdeMode.command : IdeMode → BitVec 8
  | .read => ataCmdRead
  | .write _ => ataCmdWrite

/-- Write the address of a block and the command for it. -/
def idectlCommand (geom : AtaGeometry) (mode : IdeMode) (count : Word) : IdeM Unit := do
  idectlWrite ataRegCount (count.setWidth 8)
  idectlWrite ataRegSector geom.sector
  idectlWrite ataRegLcyl geom.cylinderLow
  idectlWrite ataRegHcyl geom.cylinderHigh
  idectlWrite ataRegHead geom.head
  idectlWrite ataRegCommand mode.command

/-- Move the data, whether the disk is ready or not. -/
def idectlTransfer (mode : IdeMode) (count : Word) : IdeM (List (BitVec 16)) := do
  let _ ← idectlWait 0x88 0x08
  match mode with
  | .write src => do
      (List.range (count * 256).toNat).forM fun i => idectlWriteWord (src i)
      return []
  | .read => (List.range (count * 256).toNat).mapM fun _ => idectlReadWord

/-- The words read, none of them unless the disk is there and can be selected. -/
def idectlBlockIo (ctl : IdeController) (pos : Bool) (mode : IdeMode) (start count : Word) :
    IdeM (List (BitVec 16)) := do
  let dev := ctl.devices pos
  if dev.present = false then return []
  if (← idectlSelect pos) = false then return []
  let geom ← orThrow .divideError (idedevGetGeometry dev pos start)
  idectlCommand geom mode count
  idectlTransfer mode count

end Horizon
