import Horizon.User.Vfsd

/-!
# Horizon — the FAT file system (`user/fatfs-all/fat.c`)

The driver reads a FAT16 volume sector by sector. `fat_read`, `next_cluster` and `read_dirent` each
keep the sector they read last in a static buffer, under its number cut to 16 bits. The three caches
are the state of the driver; what the device holds never changes.
-/

namespace Horizon

open StateError

/-- The contents of a sector. Only the first 512 bytes are used. -/
abbrev Sector := ℕ → Byte

/-- The fields of `fat_boot_record_t` that the driver uses. -/
structure FatBootRecord where
  sectorBytes : BitVec 16
  clusterSectors : BitVec 8
  reservedSectors : BitVec 16
  fatCount : BitVec 8
  direntCount : BitVec 16
  fatSectors : BitVec 16

/-- `fat_volume_t`, and what the device holds. -/
structure FatVolume where
  device : Word
  disk : Word
  media : ℕ → Sector
  bootRecord : FatBootRecord

/-- A file as the driver hands it out. -/
structure FatFile where
  /-- The string in `name`. -/
  name : List Byte := []
  type : Word := 0
  cluster : Word
  size : Word

/-- The last sector a function has read, `last_sector` and `buffer`. -/
structure SectorCache where
  lastSector : BitVec 16 := -1
  buffer : Sector := fun _ => 0

/-- The static variables of `fat_read`, `next_cluster` and `read_dirent`. -/
structure FatCaches where
  read : SectorCache := {}
  fat : SectorCache := {}
  dirent : SectorCache := {}

abbrev FatM := EStateM UserFault FatCaches

/-! ## Sectors -/

def halfAt (buffer : Sector) (i : ℕ) : BitVec 16 := buffer (i + 1) ++ buffer i

namespace FatVolume

/-- The request of `read_sector`. The device is asked for a byte offset. -/
def sectorCommand (vol : FatVolume) (sector : Word) : FsCommand :=
  { dest := vol.device, code := vfsFsRead, arg0 := vol.disk, arg1 := 512, arg2 := sector * 512 }

/-- The device returns the sector that it is asked for. -/
def readSector (vol : FatVolume) (sector : Word) : Sector :=
  vol.media ((vol.sectorCommand sector).arg2.toNat / 512)

def clusterSize (vol : FatVolume) : Word := 512 * vol.bootRecord.clusterSectors.setWidth 32

def getClusterSector (vol : FatVolume) (cluster : BitVec 16) : Word :=
  let br := vol.bootRecord
  let firstSector := br.reservedSectors.setWidth 32 +
    br.fatCount.setWidth 32 * br.fatSectors.setWidth 32
  if cluster = 0 then firstSector
  else
    let sectorBytes : Word := br.sectorBytes.setWidth 32
    let rootSectors := (br.direntCount.setWidth 32 * 32 + sectorBytes - 1) / sectorBytes
    let clusterStart := (cluster.setWidth 32 - 2) * br.clusterSectors.setWidth 32
    firstSector + rootSectors + clusterStart

end FatVolume

def fatInit (device disk : Word) (media : ℕ → Sector) : FatVolume where
  device := device
  disk := disk
  media := media
  bootRecord :=
    { sectorBytes := halfAt (media 0) 11
      clusterSectors := media 0 13
      reservedSectors := halfAt (media 0) 14
      fatCount := media 0 16
      direntCount := halfAt (media 0) 17
      fatSectors := halfAt (media 0) 22 }

/-- Read a sector unless it is the last one. The number is compared with its 16 bits that have been
kept. -/
def SectorCache.fetch (vol : FatVolume) (sector : Word) (cache : SectorCache) : SectorCache :=
  if sector ≠ cache.lastSector.setWidth 32 then
    { lastSector := sector.setWidth 16, buffer := vol.readSector sector }
  else cache

/-! ## Clusters -/

def nextCluster (vol : FatVolume) (cluster : BitVec 16) : FatM (BitVec 16) := do
  let offset : Word := cluster.setWidth 32 * 2
  let sector := vol.bootRecord.reservedSectors.setWidth 32 + offset / 512
  modify fun s => { s with fat := s.fat.fetch vol sector }
  let value := halfAt (← get).fat.buffer (offset % 512).toNat
  return if 0xFFF8 ≤ value then -1 else value

/-- The cluster and the offset in it. The unsigned cluster is compared with -1 after promotion to
`int`. -/
def findClusterLoop (vol : FatVolume) : ℕ → BitVec 16 → Word → FatM (BitVec 16 × Word)
  | 0, _, _ => throw .hang
  | fuel + 1, cluster, offset => do
      if vol.clusterSize ≤ offset then
        let cluster ← nextCluster vol cluster
        if (cluster.toNat : Int) = -1 then return (0, offset)
        findClusterLoop vol fuel cluster (offset - vol.clusterSize)
      else return (cluster, offset)

/-- Each round makes the offset smaller, if clusters have a size. -/
def findCluster (vol : FatVolume) (cluster : BitVec 16) (offset : Word) :
    FatM (BitVec 16 × Word) :=
  findClusterLoop vol (offset.toNat + 1) cluster offset

/-- The first sector of a cluster. Except for the root directory, it takes a division by the size of
a sector. -/
def clusterSector (vol : FatVolume) (cluster : BitVec 16) : FatM Word := do
  failIf (cluster ≠ 0 ∧ vol.bootRecord.sectorBytes = 0) .divideError
  return vol.getClusterSector cluster

/-! ## Files -/

/-- The loop of `fat_read`. The bytes are those stored in `ret_buffer` so far. -/
def fatReadLoop (vol : FatVolume) (length : Word) :
    ℕ → BitVec 16 → Word → Word → List Byte → FatM (List Byte)
  | 0, _, _, _, _ => throw .hang
  | fuel + 1, cluster, offset, currPos, bytes => do
      if currPos < length then
        let (cluster, offset) ← findCluster vol cluster offset
        let targetSector := (← clusterSector vol cluster) + offset / 512
        modify fun s => { s with read := s.read.fetch vol targetSector }
        let buffer := (← get).read.buffer
        let sectorOffset := offset % 512
        let sectorLength := 512 - sectorOffset
        let toRead := if sectorLength < length - currPos then sectorLength else length - currPos
        let chunk := (List.range toRead.toNat).map fun i => buffer (sectorOffset.toNat + i)
        fatReadLoop vol length fuel cluster (offset + toRead) (currPos + toRead) (bytes ++ chunk)
      else return bytes

/-- The length of what is read. -/
def FatFile.clamp (file : FatFile) (offset length : Word) : Word :=
  if file.size < offset + length then file.size - offset else length

/-- The result and what is stored in `ret_buffer`. Each round reads at least one byte. -/
def fatRead (vol : FatVolume) (file : FatFile) (offset length : Word) :
    FatM (Word × List Byte) := do
  if file.size ≤ offset then return (0, [])
  let length := file.clamp offset length
  let bytes ← fatReadLoop vol length (length.toNat + 1) (file.cluster.setWidth 16) offset 0 []
  return (length, bytes)

/-! ## Directories -/

def fatUnused : Byte := 0xE5
def fatDirend : Byte := 0

/-- `_toupper` of `ctype.h`. -/
def toUpper (c : Byte) : Byte := c ||| 0x20

/-- Read a field of the entry at an offset into the buffer. -/
def direntByte (start i : ℕ) : FatM Byte := do
  failIf (512 ≤ start + i) .overflow
  return (← get).dirent.buffer (start + i)

def direntHalf (start i : ℕ) : FatM (BitVec 16) := do
  let low ← direntByte start i
  let high ← direntByte start (i + 1)
  return high ++ low

/-- The places of the characters in an entry of a long name: `name_low`, `name_middle` and
`name_high`. -/
def longNamePlaces : List ℕ := [1, 3, 5, 7, 9, 14, 16, 18, 20, 22, 24, 28, 30]

/-- Copy the part of a long name to its place in the buffer of 256 bytes. -/
def copyLongName (start : ℕ) (longName : Sector) : FatM Sector := do
  let pos := ((← direntByte start 0) &&& 0x3F).toNat
  failIf (pos = 0 ∨ 256 < pos * 13) .overflow
  let chars ← longNamePlaces.mapM (direntByte start)
  return fun i =>
    if (pos - 1) * 13 ≤ i ∧ i < pos * 13 then chars.getD (i - (pos - 1) * 13) 0 else longName i

/-- The name of a file. `strncpy` copies 32 bytes, the last of which is then cleared. -/
def fileName (start : ℕ) (longName : Sector) (directory : Bool) : FatM (List Byte) := do
  if longName 0 ≠ 0 then return ((List.range 31).map longName).takeWhile (· ≠ 0)
  let stem ← (List.range 8).mapM (direntByte start)
  let stem := (stem.takeWhile (· ≠ 0x20)).map toUpper
  if directory then return stem
  let extension ← (List.range 3).mapM fun i => direntByte start (8 + i)
  return stem ++ 0x2E :: extension.map toUpper

/-- Find the sector of an entry and read it: the cluster and the offset in it. -/
def seekDirent (vol : FatVolume) (cluster : BitVec 16) (offset : Word) :
    FatM (BitVec 16 × Word) := do
  let (cluster, offset) ← findCluster vol cluster offset
  let targetSector := (← clusterSector vol cluster) + offset / 512
  modify fun s => { s with dirent := s.dirent.fetch vol targetSector }
  return (cluster, offset)

/-- The file of an entry. -/
def direntFile (start : ℕ) (longName : Sector) (attributes : Byte) : FatM FatFile := do
  let directory := attributes.getLsbD 4
  let name ← fileName start longName directory
  let clusterLow ← direntHalf start 26
  let sizeLow ← direntHalf start 28
  let sizeHigh ← direntHalf start 30
  return { name, type := if directory then 1 else 0, cluster := clusterLow.setWidth 32
           size := sizeHigh ++ sizeLow }

/-- The offset behind the entry that has been found and the file, or none at the end of the
directory. A directory without an end may keep it busy forever. -/
def readDirentLoop (vol : FatVolume) :
    ℕ → BitVec 16 → Word → Word → Sector → FatM (Option (Word × FatFile))
  | 0, _, _, _, _ => throw .hang
  | fuel + 1, cluster, offset, totalOff, longName => do
      let (cluster, offset) ← seekDirent vol cluster offset
      let start := (offset % 512).toNat
      let first ← direntByte start 0
      if first = fatDirend then return none
      if first = fatUnused then
        return ← readDirentLoop vol fuel cluster (offset + 32) (totalOff + 32) longName
      let attributes ← direntByte start 11
      if attributes &&& 0x0F = 0x0F then
        let longName ← copyLongName start longName
        return ← readDirentLoop vol fuel cluster (offset + 32) (totalOff + 32) longName
      -- The label of the volume.
      if attributes.getLsbD 3 then
        return ← readDirentLoop vol fuel cluster (offset + 32) (totalOff + 32) longName
      return some (totalOff + 32, ← direntFile start longName attributes)

/-- The next index and the file, or none for -1. -/
def fatEnumerate (vol : FatVolume) (fuel : ℕ) (parent : Option FatFile) (index : Word) :
    FatM (Option (Word × FatFile)) := do
  let first := match parent with
    | some file => file.cluster.setWidth 16
    | none => 0
  let (cluster, offset) ← findCluster vol first index
  let found ← readDirentLoop vol fuel cluster offset 0 fun _ => 0
  return found.map fun (increment, file) => (index + increment, file)

/-! ## Searching (`main.c`) -/

/-- The reply to a request, and the `fat_file_t` that stays allocated after it. -/
structure FindReply where
  code : Word := -1
  arg0 : Word := 0
  kept : Option FatFile := none

/-- Go through a directory up to a name: the last result of `fat_enumerate` and what is left in
`file`. -/
def searchLoop (vol : FatVolume) (fuel : ℕ) (parent : Option FatFile) (name : List Byte) :
    ℕ → Word → FatFile → FatM (Word × FatFile)
  | 0, _, _ => throw .hang
  | rounds + 1, iter, file => do
      let some (iter, file) ← fatEnumerate vol fuel parent iter | return (-1, file)
      if file.name = name then return (iter, file)
      searchLoop vol fuel parent name rounds iter file

/-- `VFS_FSFIND`. `malloc` returns the address of `file`, with anything in it. -/
def handleFind (vol : FatVolume) (fuel rounds : ℕ) (parent : Option FatFile) (name : List Byte)
    (address : Word) (file : FatFile) : FatM FindReply := do
  let (iter, file) ← searchLoop vol fuel parent name rounds 0 file
  -- The test for -1. The index is unsigned.
  if 0 ≤ (iter.toNat : Int) then
    return { code := address, arg0 := file.type, kept := some file }
  else return {}

end Horizon
