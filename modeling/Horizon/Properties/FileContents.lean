import Horizon.User.Fat

/-!
# Horizon — what `fat_read` returns

`FatVolume.contents` is the concatenation of the clusters of a file, over numbers and past all
caches. `fat_read` returns a part of it, whatever has been read before, as long as all sectors have
numbers below 0xFFFF (`FatCall.InReach`).

The caches keep the number of a sector in 16 bits. A sector from 0x10000 on leaves the number of
another one behind, whose place it takes in the next call. The initial number 0xFFFF stands for a
sector of zeros.
-/

namespace Horizon

open StateError

variable {vol : FatVolume} {file : FatFile} {cache : SectorCache} {s s' : FatCaches}
  {cluster : BitVec 16} {sector offset length currPos : Word} {n pos : ℕ}

/-! ## Files as sequences of clusters -/

namespace FatVolume

/-- The entry of a cluster in the FAT. -/
def fatEntry (vol : FatVolume) (cluster : ℕ) : ℕ :=
  (halfAt (vol.media (vol.bootRecord.reservedSectors.toNat + cluster * 2 / 512))
    (cluster * 2 % 512)).toNat

/-- The clusters of a file. -/
def chain (vol : FatVolume) (file : FatFile) : ℕ → ℕ
  | 0 => file.cluster.toNat
  | n + 1 => vol.fatEntry (chain vol file n)

/-- The bytes of a cluster. -/
def clusterBytes (vol : FatVolume) : ℕ := 512 * vol.bootRecord.clusterSectors.toNat

/-- The sector of the first cluster, which is cluster 2. -/
def dataStart (vol : FatVolume) : ℕ :=
  let br := vol.bootRecord
  br.reservedSectors.toNat + br.fatCount.toNat * br.fatSectors.toNat +
    (br.direntCount.toNat * 32 + 511) / 512

def clusterByte (vol : FatVolume) (cluster pos : ℕ) : Byte :=
  vol.media (vol.dataStart + (cluster - 2) * vol.bootRecord.clusterSectors.toNat + pos / 512)
    (pos % 512)

/-- The bytes of all clusters of a file, one after the other. -/
def contents (vol : FatVolume) (file : FatFile) (pos : ℕ) : Byte :=
  vol.clusterByte (vol.chain file (pos / vol.clusterBytes)) (pos % vol.clusterBytes)

/-- Sectors have 512 bytes, and clusters at least one of them. -/
structure Valid (vol : FatVolume) : Prop where
  sectorBytes : vol.bootRecord.sectorBytes = 512
  clusterSectors : vol.bootRecord.clusterSectors ≠ 0

/-- The chain of a file is long enough for its size. -/
def Complete (vol : FatVolume) (file : FatFile) : Prop :=
  ∀ n, n * vol.clusterBytes < file.size.toNat → 2 ≤ vol.chain file n ∧ vol.chain file n < 0xFFF8

/-! ## The driver without its caches -/

/-- The sector of the FAT with the entry of a cluster. -/
def fatSector (vol : FatVolume) (cluster : BitVec 16) : Word :=
  vol.bootRecord.reservedSectors.setWidth 32 + cluster.setWidth 32 * 2 / 512

/-- The result of `next_cluster`. -/
def nextOf (vol : FatVolume) (cluster : BitVec 16) : BitVec 16 :=
  let offset : Word := cluster.setWidth 32 * 2
  let sector := vol.bootRecord.reservedSectors.setWidth 32 + offset / 512
  let value := halfAt (vol.readSector sector) (offset % 512).toNat
  if 0xFFF8 ≤ value then -1 else value

/-- The sector from which the driver takes a byte of a file. -/
def sectorOf (vol : FatVolume) (file : FatFile) (pos : ℕ) : Word :=
  vol.getClusterSector (vol.nextOf^[pos / vol.clusterBytes] (file.cluster.setWidth 16)) +
    BitVec.ofNat 32 (pos % vol.clusterBytes / 512)

end FatVolume

inductive FatCall where
  | read (file : FatFile) (offset length : Word)
  | enumerate (parent : Option FatFile) (index : Word) (fuel : ℕ)

/-- The caches after a call that returns. -/
def FatVolume.step (vol : FatVolume) (s : FatCaches) : FatCall → Option FatCaches
  | .read file offset length =>
      match fatRead vol file offset length s with
      | .ok _ s' => some s'
      | .error _ _ => none
  | .enumerate parent index fuel =>
      match fatEnumerate vol fuel parent index s with
      | .ok _ s' => some s'
      | .error _ _ => none

/-- The sectors of the FAT have numbers below 0xFFFF. -/
def FatVolume.FatInReach (vol : FatVolume) : Prop :=
  vol.bootRecord.reservedSectors.toNat + 256 ≤ 0xFFFF

/-- The sectors that `fat_read` takes bytes from have numbers below 0xFFFF. -/
def FatCall.InReach (vol : FatVolume) : FatCall → Prop
  | .read file offset length => offset < file.size →
      ∀ i < (file.clamp offset length).toNat, vol.sectorOf file (offset.toNat + i) < 0xFFFF
  | .enumerate _ _ _ => True

/-! ## Caches -/

/-- The buffer has the sector of the number, unless that is the initial one. -/
def SectorCache.Clean (vol : FatVolume) (cache : SectorCache) : Prop :=
  cache.lastSector ≠ -1 → cache.buffer = vol.readSector (cache.lastSector.setWidth 32)

theorem SectorCache.Clean.fetch (hclean : cache.Clean vol) (hsector : sector < 0xFFFF) :
    (cache.fetch vol sector).buffer = vol.readSector sector ∧
      (cache.fetch vol sector).Clean vol := by
  have hlt : sector.toNat < 0xFFFF := BitVec.lt_def.mp hsector
  rw [SectorCache.fetch]
  split
  · have hwide : (sector.setWidth 16).setWidth 32 = sector := by
      rw [← BitVec.toNat_inj, BitVec.toNat_setWidth, BitVec.toNat_setWidth]
      omega
    refine ⟨rfl, fun _ => ?_⟩
    rw [hwide]
  · next heq =>
    have heq : sector = cache.lastSector.setWidth 32 := not_not.mp heq
    have hkey : cache.lastSector ≠ -1 := by
      intro hkey
      rw [heq, hkey] at hlt
      exact absurd hlt (by decide)
    exact ⟨heq ▸ hclean hkey, hclean⟩

/-- A sector is read, or it is what the buffer holds. -/
def SectorCache.Serves (vol : FatVolume) (cache : SectorCache) (sector : Word) : Prop :=
  sector = cache.lastSector.setWidth 32 → cache.buffer = vol.readSector sector

theorem SectorCache.Serves.fetch (h : cache.Serves vol sector) :
    (cache.fetch vol sector).lastSector = sector.setWidth 16 ∧
      (cache.fetch vol sector).buffer = vol.readSector sector := by
  rw [SectorCache.fetch]
  split
  · exact ⟨rfl, rfl⟩
  · next heq =>
    have heq : sector = cache.lastSector.setWidth 32 := not_not.mp heq
    refine ⟨?_, h heq⟩
    rw [heq, BitVec.setWidth_setWidth_of_le _ (by decide), BitVec.setWidth_eq]

/-- The next sector is served too, if it is not taken for this one. -/
theorem SectorCache.Serves.next {sector' : Word} (h : cache.Serves vol sector)
    (hapart : sector' = (sector.setWidth 16).setWidth 32 → sector' = sector) :
    (cache.fetch vol sector).Serves vol sector' := by
  obtain ⟨hkey, hbuffer⟩ := h.fetch
  intro heq
  rw [hkey] at heq
  rw [hbuffer, hapart heq]

/-- The cache of `next_cluster` serves all sectors of the FAT. -/
def SectorCache.ServesFat (vol : FatVolume) (cache : SectorCache) : Prop :=
  ∀ cluster, cache.Serves vol (vol.fatSector cluster)

theorem toNat_fatSector : (vol.fatSector cluster).toNat =
    vol.bootRecord.reservedSectors.toNat + cluster.toNat * 2 / 512 := by
  have hcluster := cluster.isLt
  have hreserved := vol.bootRecord.reservedSectors.isLt
  have h2 : (2 : Word).toNat = 2 := rfl
  have h512 : (512 : Word).toNat = 512 := rfl
  rw [FatVolume.fatSector, BitVec.toNat_add, BitVec.toNat_udiv, BitVec.toNat_mul,
    BitVec.toNat_setWidth, BitVec.toNat_setWidth, h2, h512]
  omega

/-- The FAT has 256 sectors, none of which is taken for another one. -/
theorem SectorCache.Serves.servesFat (h : cache.Serves vol (vol.fatSector cluster)) :
    (cache.fetch vol (vol.fatSector cluster)).ServesFat vol := by
  refine fun cluster' => h.next fun heq => ?_
  have hcluster := cluster.isLt
  have hcluster' := cluster'.isLt
  have hreserved := vol.bootRecord.reservedSectors.isLt
  rw [← BitVec.toNat_inj, BitVec.toNat_setWidth, BitVec.toNat_setWidth, toNat_fatSector,
    toNat_fatSector] at heq
  rw [← BitVec.toNat_inj, toNat_fatSector, toNat_fatSector]
  omega

/-! ## Clusters -/

theorem toNat_clusterSize : vol.clusterSize.toNat = vol.clusterBytes := by
  have hlt := vol.bootRecord.clusterSectors.isLt
  have h512 : (512 : Word).toNat = 512 := rfl
  rw [FatVolume.clusterSize, BitVec.toNat_mul, BitVec.toNat_setWidth, FatVolume.clusterBytes, h512]
  omega

theorem clusterBytes_pos (hsize : vol.bootRecord.clusterSectors ≠ 0) : 0 < vol.clusterBytes := by
  rw [ne_eq, ← BitVec.toNat_inj] at hsize
  have hzero : (0 : BitVec 8).toNat = 0 := rfl
  rw [FatVolume.clusterBytes]
  omega

theorem FatVolume.Valid.clusterBytes_pos (hvalid : vol.Valid) : 0 < vol.clusterBytes :=
  Horizon.clusterBytes_pos hvalid.clusterSectors

theorem nextCluster_eq (hserves : s.fat.Serves vol (vol.fatSector cluster)) :
    ∃ cache : SectorCache, cache.ServesFat vol ∧
      nextCluster vol cluster s = .ok (vol.nextOf cluster) { s with fat := cache } := by
  refine ⟨_, hserves.servesFat, ?_⟩
  have hbuffer := hserves.fetch.2
  rw [FatVolume.fatSector] at hbuffer
  simp only [nextCluster, modify_bind_apply, get_bind_apply, hbuffer]
  rfl

variable (cluster) in
theorem findClusterLoop_eq (hvalid : vol.Valid) {fuel : ℕ} (hfuel : offset.toNat < fuel)
    (hserves : vol.clusterBytes ≤ offset.toNat → s.fat.Serves vol (vol.fatSector cluster)) :
    ∃ cache : SectorCache, (offset.toNat < vol.clusterBytes ∧ cache = s.fat ∨
        cache.ServesFat vol) ∧
      findClusterLoop vol fuel cluster offset s =
        .ok (vol.nextOf^[offset.toNat / vol.clusterBytes] cluster,
          BitVec.ofNat 32 (offset.toNat % vol.clusterBytes)) { s with fat := cache } := by
  have hpos := hvalid.clusterBytes_pos
  induction fuel generalizing cluster offset s with
  | zero => exact absurd hfuel (Nat.not_lt_zero _)
  | succ fuel ih =>
    rw [findClusterLoop]
    by_cases hle : vol.clusterSize ≤ offset
    · have hle' : vol.clusterBytes ≤ offset.toNat := by
        rw [← toNat_clusterSize]
        exact BitVec.le_def.mp hle
      have hsub : (offset - vol.clusterSize).toNat = offset.toNat - vol.clusterBytes := by
        rw [BitVec.toNat_sub_of_le hle, toNat_clusterSize]
      obtain ⟨cache, hcache, hnext⟩ := nextCluster_eq (hserves hle')
      -- The test for the end of the chain never succeeds.
      have hend : ¬((vol.nextOf cluster).toNat : Int) = -1 := by omega
      have hfuel' : (offset - vol.clusterSize).toNat < fuel := by omega
      obtain ⟨cache', hcache', hloop⟩ :=
        ih (s := { s with fat := cache }) (vol.nextOf cluster) hfuel' fun _ => hcache _
      refine ⟨cache', .inr (hcache'.elim (fun h => h.2 ▸ hcache) id), ?_⟩
      rw [if_pos hle, bind_apply_of_ok hnext, if_neg hend, hloop, hsub,
        ← Nat.mod_eq_sub_mod hle', Nat.div_eq_sub_div hpos hle', Function.iterate_succ_apply]
    · have hlt : offset.toNat < vol.clusterBytes := by
        rw [← toNat_clusterSize]
        exact Nat.not_le.mp fun h => hle (BitVec.le_def.mpr h)
      refine ⟨s.fat, .inl ⟨hlt, rfl⟩, ?_⟩
      rw [if_neg hle, Nat.div_eq_of_lt hlt, Nat.mod_eq_of_lt hlt, BitVec.ofNat_toNat,
        BitVec.setWidth_eq]
      rfl

theorem clusterSector_returns (hbytes : vol.bootRecord.sectorBytes ≠ 0) :
    clusterSector vol cluster s = .ok (vol.getClusterSector cluster) s := by
  rw [clusterSector, bind_apply_of_ok (failIf_neg fun h => hbytes h.2)]
  rfl

theorem FatVolume.Valid.sectorBytes_ne (hvalid : vol.Valid) : vol.bootRecord.sectorBytes ≠ 0 := by
  rw [hvalid.sectorBytes]
  decide

/-! ## Positions -/

/-- The cluster and the offset in it stand for a position in the file. -/
def FatVolume.At (vol : FatVolume) (file : FatFile) (cluster : BitVec 16) (offset : Word)
    (pos : ℕ) : Prop :=
  ∃ m, offset.toNat + m * vol.clusterBytes = pos ∧
    cluster = vol.nextOf^[m] (file.cluster.setWidth 16)

/-- The offset is inside of the cluster. -/
structure FatVolume.Found (vol : FatVolume) (file : FatFile) (cluster : BitVec 16) (offset : Word)
    (pos : ℕ) : Prop where
  cluster : cluster = vol.nextOf^[pos / vol.clusterBytes] (file.cluster.setWidth 16)
  offset : offset.toNat = pos % vol.clusterBytes

/-- The walk follows no link, or leaves a cache that serves the whole FAT. -/
theorem FatVolume.At.findCluster (hvalid : vol.Valid)
    (hserves : vol.clusterBytes ≤ offset.toNat → s.fat.Serves vol (vol.fatSector cluster))
    (hat : vol.At file cluster offset pos) :
    ∃ cluster' offset' cache, (cluster' = cluster ∧ cache = s.fat ∨
        SectorCache.ServesFat vol cache) ∧
      vol.Found file cluster' offset' pos ∧
      findCluster vol cluster offset s = .ok (cluster', offset') { s with fat := cache } := by
  obtain ⟨m, rfl, rfl⟩ := hat
  have hcb := hvalid.clusterBytes_pos
  obtain ⟨cache, hcache, hfind⟩ := findClusterLoop_eq (vol.nextOf^[m] (file.cluster.setWidth 16))
    hvalid (Nat.lt_succ_self offset.toNat) hserves
  refine ⟨_, _, cache, hcache.imp_left fun h => ⟨?_, h.2⟩, ⟨?_, ?_⟩, hfind⟩
  · rw [Nat.div_eq_of_lt h.1, Function.iterate_zero, id_eq]
  · rw [← Function.iterate_add_apply, Nat.add_mul_div_right _ _ hcb]
  · have hlt := offset.isLt
    have hmod : offset.toNat % vol.clusterBytes ≤ offset.toNat := Nat.mod_le _ _
    rw [Nat.add_mul_mod_self_right, BitVec.toNat_ofNat, Nat.mod_eq_of_lt (by omega)]

theorem FatVolume.Found.offset_lt (hvalid : vol.Valid) (h : vol.Found file cluster offset pos) :
    offset.toNat < 512 * 256 := by
  have hlt := vol.bootRecord.clusterSectors.isLt
  have hmod := Nat.mod_lt pos hvalid.clusterBytes_pos
  rw [h.offset]
  rw [FatVolume.clusterBytes] at hmod ⊢
  omega

theorem FatVolume.Found.low (h : vol.Found file cluster offset pos) :
    offset.toNat % 512 = pos % 512 := by
  rw [h.offset]
  exact Nat.mod_mul_right_mod ..

/-- The sector `fat_read` takes in a round. -/
theorem FatVolume.Found.sector_eq (h : vol.Found file cluster offset pos) :
    vol.getClusterSector cluster + offset / 512 = vol.sectorOf file pos := by
  have hdiv : offset / 512 = BitVec.ofNat 32 (pos % vol.clusterBytes / 512) := by
    have hlt := offset.isLt
    have h512 : (512 : Word).toNat = 512 := rfl
    rw [← BitVec.toNat_inj, BitVec.toNat_udiv, BitVec.toNat_ofNat, ← h.offset, h512]
    omega
  rw [FatVolume.sectorOf, h.cluster, hdiv]

theorem FatVolume.Found.advance (hvalid : vol.Valid) (h : vol.Found file cluster offset pos)
    {count : Word} (hcount : count.toNat ≤ 512) :
    vol.At file cluster (offset + count) (pos + count.toNat) := by
  have hlt := h.offset_lt hvalid
  refine ⟨pos / vol.clusterBytes, ?_, h.cluster⟩
  rw [BitVec.toNat_add, Nat.mod_eq_of_lt (by omega), h.offset, Nat.mul_comm]
  have := Nat.div_add_mod pos vol.clusterBytes
  omega

/-! ## Files -/

variable (file pos) in
theorem sectorOf_add (hvalid : vol.Valid) {i : ℕ} (hi : pos % 512 + i < 512) :
    vol.sectorOf file (pos + i) = vol.sectorOf file pos ∧ (pos + i) % 512 = pos % 512 + i := by
  have hpos := hvalid.clusterBytes_pos
  have hlow : pos % vol.clusterBytes % 512 = pos % 512 := Nat.mod_mul_right_mod ..
  have hdiv : pos % vol.clusterBytes / 512 < vol.bootRecord.clusterSectors.toNat :=
    Nat.div_lt_of_lt_mul (Nat.mod_lt _ hpos)
  have hlt : pos % vol.clusterBytes + i < vol.clusterBytes := by
    rw [FatVolume.clusterBytes] at hlow hdiv ⊢
    omega
  have hsplit :
      pos + i = pos % vol.clusterBytes + i + vol.clusterBytes * (pos / vol.clusterBytes) := by
    have := Nat.div_add_mod pos vol.clusterBytes
    omega
  have hquot : (pos + i) / vol.clusterBytes = pos / vol.clusterBytes := by
    rw [hsplit, Nat.add_mul_div_left _ _ hpos, Nat.div_eq_of_lt hlt, Nat.zero_add]
  have hrem : (pos + i) % vol.clusterBytes = pos % vol.clusterBytes + i := by
    rw [hsplit, Nat.add_mul_mod_self_left, Nat.mod_eq_of_lt hlt]
  have hsame : (pos % vol.clusterBytes + i) / 512 = pos % vol.clusterBytes / 512 := by omega
  refine ⟨?_, by omega⟩
  rw [FatVolume.sectorOf, FatVolume.sectorOf, hquot, hrem, hsame]

/-- The byte the driver takes for a position of a file. -/
def FatVolume.driverByte (vol : FatVolume) (file : FatFile) (pos : ℕ) : Byte :=
  vol.readSector (vol.sectorOf file pos) (pos % 512)

def FatCaches.Clean (vol : FatVolume) (s : FatCaches) : Prop :=
  s.read.Clean vol ∧ s.fat.ServesFat vol

/-- The rest of the bytes that are wanted. -/
def FatVolume.rest (vol : FatVolume) (file : FatFile) (pos n : ℕ) : List Byte :=
  (List.range n).map fun i => vol.driverByte file (pos + i)

theorem FatVolume.rest_add {m : ℕ} :
    vol.rest file pos (m + n) = vol.rest file pos m ++ vol.rest file (pos + m) n := by
  simp only [FatVolume.rest, List.range_add, List.map_append, List.map_map, Function.comp_def,
    Nat.add_assoc]

theorem chunk_eq (hvalid : vol.Valid) (hn : pos % 512 + n ≤ 512) :
    (List.range n).map (fun i => vol.readSector (vol.sectorOf file pos) (pos % 512 + i)) =
      vol.rest file pos n := by
  refine List.map_congr_left fun i hi => ?_
  have hi := List.mem_range.mp hi
  obtain ⟨hsector, hlow⟩ := sectorOf_add file pos (i := i) hvalid (by omega)
  rw [FatVolume.driverByte, hsector, hlow]

theorem toNat_toRead (hlt : currPos < length) (hoffset : offset.toNat % 512 = pos % 512) :
    (if 512 - offset % 512 < length - currPos then 512 - offset % 512
      else length - currPos).toNat = min (512 - pos % 512) (length.toNat - currPos.toNat) := by
  have h512 : (512 : Word).toNat = 512 := rfl
  have hmod : (offset % 512).toNat = pos % 512 := by rw [BitVec.toNat_umod, h512, hoffset]
  have hsector : (512 - offset % 512).toNat = 512 - pos % 512 := by
    rw [BitVec.toNat_sub_of_le (BitVec.le_def.mpr (by omega)), hmod, h512]
  have hrest : (length - currPos).toNat = length.toNat - currPos.toNat :=
    BitVec.toNat_sub_of_le (BitVec.le_of_lt hlt)
  split
  · next h =>
    rw [BitVec.lt_def] at h
    omega
  · next h =>
    rw [BitVec.lt_def] at h
    omega

theorem fatReadLoop_round (hvalid : vol.Valid) (hclean : s.Clean vol)
    (hat : vol.At file cluster offset pos) (hreach : vol.sectorOf file pos < 0xFFFF)
    (hlt : currPos < length) :
    ∃ (cluster' : BitVec 16) (offset' count : Word) (s' : FatCaches), s'.Clean vol ∧
      vol.At file cluster' offset' (pos + count.toNat) ∧ 0 < count.toNat ∧
      count.toNat ≤ length.toNat - currPos.toNat ∧ ∀ fuel bytes,
        fatReadLoop vol length (fuel + 1) cluster offset currPos bytes s =
          fatReadLoop vol length fuel cluster' offset' (currPos + count)
            (bytes ++ vol.rest file pos count.toNat) s' := by
  have hlt' : currPos.toNat < length.toNat := BitVec.lt_def.mp hlt
  obtain ⟨cluster', offset', cache, hcache, hfound, hfind⟩ :=
    hat.findCluster hvalid fun _ => hclean.2 _
  have hcache : cache.ServesFat vol := hcache.elim (fun h => h.2 ▸ hclean.2) id
  obtain ⟨hbuffer, hread⟩ := hclean.1.fetch hreach
  have hcount := toNat_toRead hlt hfound.low
  have hlow : (offset' % 512).toNat = pos % 512 := by
    have h512 : (512 : Word).toNat = 512 := rfl
    rw [BitVec.toNat_umod, h512, hfound.low]
  generalize htoRead : (if 512 - offset' % 512 < length - currPos then 512 - offset' % 512
    else length - currPos) = toRead at hcount
  refine ⟨cluster', offset' + toRead, toRead,
    { s with read := s.read.fetch vol (vol.sectorOf file pos), fat := cache }, ⟨hread, hcache⟩,
    hfound.advance hvalid (by omega), by omega, by omega, fun fuel bytes => ?_⟩
  rw [fatReadLoop, if_pos hlt, bind_apply_of_ok hfind]
  simp only [bind_apply_of_ok (clusterSector_returns hvalid.sectorBytes_ne), modify_bind_apply,
    get_bind_apply]
  rw [htoRead, hfound.sector_eq, hbuffer, hlow, chunk_eq hvalid (by omega)]

theorem fatReadLoop_eq (hvalid : vol.Valid) {start fuel : ℕ}
    {bytes : List Byte} (hclean : s.Clean vol)
    (hreach : ∀ i < length.toNat, vol.sectorOf file (start + i) < 0xFFFF)
    (hle : currPos ≤ length) (hfuel : length.toNat - currPos.toNat < fuel)
    (hat : vol.At file cluster offset (start + currPos.toNat)) :
    ∃ s', s'.Clean vol ∧ fatReadLoop vol length fuel cluster offset currPos bytes s =
      .ok (bytes ++ vol.rest file (start + currPos.toNat) (length.toNat - currPos.toNat)) s' := by
  induction fuel generalizing cluster offset currPos bytes s with
  | zero => exact absurd hfuel (Nat.not_lt_zero _)
  | succ fuel ih =>
    by_cases hlt : currPos < length
    · have hlt' : currPos.toNat < length.toNat := BitVec.lt_def.mp hlt
      have hlength := length.isLt
      obtain ⟨cluster', offset', count, t, ht, hat', hpos, hcount, hround⟩ :=
        fatReadLoop_round hvalid hclean hat (hreach _ hlt') hlt
      have hcurr : (currPos + count).toNat = currPos.toNat + count.toNat := by
        rw [BitVec.toNat_add, Nat.mod_eq_of_lt (by omega)]
      rw [Nat.add_assoc, ← hcurr] at hat'
      obtain ⟨s', hs', hrest⟩ := ih ht (BitVec.le_def.mpr (by omega)) (by omega) hat'
      have hlen : length.toNat - currPos.toNat =
          count.toNat + (length.toNat - (currPos + count).toNat) := by omega
      refine ⟨s', hs', ?_⟩
      rw [hround, hrest, hlen, FatVolume.rest_add, List.append_assoc, hcurr, Nat.add_assoc]
    · have heq : currPos = length := BitVec.le_antisymm hle (BitVec.not_lt.mp hlt)
      refine ⟨s, hclean, ?_⟩
      rw [fatReadLoop, if_neg hlt, heq, Nat.sub_self]
      simp [FatVolume.rest, pure_apply]

theorem fatRead_eq (hvalid : vol.Valid) (hclean : s.Clean vol)
    (hoffset : offset < file.size) (hreach : ∀ i < (file.clamp offset length).toNat,
      vol.sectorOf file (offset.toNat + i) < 0xFFFF) :
    ∃ s', s'.Clean vol ∧ fatRead vol file offset length s =
      .ok (file.clamp offset length,
        vol.rest file offset.toNat (file.clamp offset length).toNat) s' := by
  have hle : ¬file.size ≤ offset := fun h => absurd hoffset (BitVec.not_lt.mpr h)
  have hzero : (0 : Word) ≤ file.clamp offset length := BitVec.le_def.mpr (Nat.zero_le _)
  have hloop : ∃ s', s'.Clean vol ∧ fatReadLoop vol (file.clamp offset length)
      ((file.clamp offset length).toNat + 1) (file.cluster.setWidth 16) offset 0 [] s =
      .ok (vol.rest file offset.toNat (file.clamp offset length).toNat) s' :=
    fatReadLoop_eq hvalid hclean hreach hzero (Nat.lt_succ_of_le (Nat.sub_le _ _))
      ⟨0, by rw [Nat.zero_mul]; rfl, rfl⟩
  obtain ⟨s', hs', hloop⟩ := hloop
  refine ⟨s', hs', ?_⟩
  rw [fatRead, if_neg hle, bind_apply_of_ok hloop]
  rfl

/-! ## Directories -/

/-- The cache of `fat_read` is as before, and that of `next_cluster` still serves the FAT. -/
structure FatCaches.Keeps (vol : FatVolume) (s s' : FatCaches) : Prop where
  read : s'.read = s.read
  fat : s.fat.ServesFat vol → s'.fat.ServesFat vol

instance : Std.Refl (FatCaches.Keeps vol) where
  refl _ := ⟨rfl, id⟩

instance : IsTrans FatCaches (FatCaches.Keeps vol) where
  trans _ _ _ h₁ h₂ := ⟨h₂.read.trans h₁.read, h₂.fat ∘ h₁.fat⟩

theorem nextCluster_keeps (cluster : BitVec 16) :
    Ensures (FatCaches.Keeps vol) (nextCluster vol cluster) := by
  intro s
  refine ⟨rfl, fun hclean => ?_⟩
  obtain ⟨cache, hcache, hnext⟩ := nextCluster_eq (hclean cluster)
  rw [hnext]
  exact hcache

theorem findCluster_keeps (cluster : BitVec 16) (offset : Word) :
    Ensures (FatCaches.Keeps vol) (findCluster vol cluster offset) := by
  rw [findCluster]
  generalize offset.toNat + 1 = fuel
  induction fuel generalizing cluster offset with
  | zero => exact .throw _
  | succ fuel ih =>
    exact .ite (.bind (nextCluster_keeps _) fun next => .ite (.pure _) (ih next _)) (.pure _)

theorem direntByte_keeps (start i : ℕ) : Ensures (FatCaches.Keeps vol) (direntByte start i) :=
  .bind (.failIf _ _) fun _ => .bind .get fun _ => .pure _

theorem direntHalf_keeps (start i : ℕ) : Ensures (FatCaches.Keeps vol) (direntHalf start i) :=
  .bind (direntByte_keeps _ _) fun _ => .bind (direntByte_keeps _ _) fun _ => .pure _

theorem copyLongName_keeps (start : ℕ) (longName : Sector) :
    Ensures (FatCaches.Keeps vol) (copyLongName start longName) :=
  .bind (direntByte_keeps _ _) fun _ => .bind (.failIf _ _) fun _ =>
    .bind (.mapM (direntByte_keeps start) _) fun _ => .pure _

theorem fileName_keeps (start : ℕ) (longName : Sector) (directory : Bool) :
    Ensures (FatCaches.Keeps vol) (fileName start longName directory) :=
  .ite (.pure _) <| .bind (.mapM (direntByte_keeps start) _) fun _ => .ite (.pure _) <|
    .bind (.mapM (fun _ => direntByte_keeps _ _) _) fun _ => .pure _

theorem seekDirent_keeps (cluster : BitVec 16) (offset : Word) :
    Ensures (FatCaches.Keeps vol) (seekDirent vol cluster offset) :=
  .bind (findCluster_keeps _ _) fun _ => .bind (.bind (.failIf _ _) fun _ => .pure _) fun _ =>
    .bind (.modify fun _ => ⟨rfl, id⟩) fun _ => .pure _

theorem direntFile_keeps (start : ℕ) (longName : Sector) (attributes : Byte) :
    Ensures (FatCaches.Keeps vol) (direntFile start longName attributes) :=
  .bind (fileName_keeps _ _ _) fun _ => .bind (direntHalf_keeps _ _) fun _ =>
    .bind (direntHalf_keeps _ _) fun _ => .bind (direntHalf_keeps _ _) fun _ => .pure _

theorem readDirentLoop_keeps (fuel : ℕ) (cluster : BitVec 16)
    (offset totalOff : Word) (longName : Sector) :
    Ensures (FatCaches.Keeps vol) (readDirentLoop vol fuel cluster offset totalOff longName) := by
  induction fuel generalizing cluster offset totalOff longName with
  | zero => exact .throw _
  | succ fuel ih =>
    refine .bind (seekDirent_keeps _ _) fun _ => .bind (direntByte_keeps _ _) fun _ =>
      .ite (.pure _) <| .ite (ih _ _ _ _) <| .bind (direntByte_keeps _ _) fun _ =>
        .ite ?_ <| .ite (ih _ _ _ _) ?_
    · exact .bind (copyLongName_keeps _ _) fun _ => ih _ _ _ _
    · exact .bind (direntFile_keeps _ _ _) fun _ => .pure _

theorem fatEnumerate_keeps (fuel : ℕ) (parent : Option FatFile)
    (index : Word) : Ensures (FatCaches.Keeps vol) (fatEnumerate vol fuel parent index) :=
  .bind (findCluster_keeps _ _) fun _ => .bind (readDirentLoop_keeps _ _ _ _ _) fun _ =>
    .pure _

/-! ## Runs -/

theorem FatCaches.clean_init (hfat : vol.FatInReach) : ({} : FatCaches).Clean vol := by
  refine ⟨fun h => absurd rfl h, fun cluster heq => ?_⟩
  have hcluster := cluster.isLt
  have hkey : ((-1 : BitVec 16).setWidth 32).toNat = 0xFFFF := rfl
  rw [← BitVec.toNat_inj, hkey, toNat_fatSector] at heq
  rw [FatVolume.FatInReach] at hfat
  omega

theorem FatCaches.Clean.step (hvalid : vol.Valid) {call : FatCall}
    (hclean : s.Clean vol) (hreach : call.InReach vol) (hstep : vol.step s call = some s') :
    s'.Clean vol := by
  cases call with
  | read file offset length =>
    rw [FatVolume.step] at hstep
    by_cases hoffset : offset < file.size
    · obtain ⟨t, ht, hread⟩ := fatRead_eq hvalid hclean hoffset (hreach hoffset)
      rw [hread] at hstep
      exact Option.some.inj hstep ▸ ht
    · rw [fatRead, if_pos (BitVec.not_lt.mp hoffset)] at hstep
      exact Option.some.inj hstep ▸ hclean
  | enumerate parent index fuel =>
    rw [FatVolume.step] at hstep
    split at hstep
    · next t hok =>
      have hkeeps := (fatEnumerate_keeps fuel parent index).ok hok
      obtain rfl := Option.some.inj hstep
      refine ⟨?_, hkeeps.fat hclean.2⟩
      rw [hkeeps.read]
      exact hclean.1
    · cases hstep

/-! ## The driver and the clusters -/

theorem readSector_eq (h : sector.toNat < 2 ^ 23) :
    vol.readSector sector = vol.media sector.toNat := by
  have h512 : (512 : Word).toNat = 512 := rfl
  have hnum : (sector * 512).toNat / 512 = sector.toNat := by
    rw [BitVec.toNat_mul, h512]
    omega
  rw [FatVolume.readSector, FatVolume.sectorCommand, hnum]

theorem toNat_nextOf (h : vol.fatEntry cluster.toNat < 0xFFF8) :
    (vol.nextOf cluster).toNat = vol.fatEntry cluster.toNat := by
  have hcluster := cluster.isLt
  have hreserved := vol.bootRecord.reservedSectors.isLt
  have h2 : (2 : Word).toNat = 2 := rfl
  have h512 : (512 : Word).toNat = 512 := rfl
  have hoffset : (cluster.setWidth 32 * 2 : Word).toNat = cluster.toNat * 2 := by
    rw [BitVec.toNat_mul, BitVec.toNat_setWidth, h2]
    omega
  have hsector : (vol.bootRecord.reservedSectors.setWidth 32 +
      cluster.setWidth 32 * 2 / 512 : Word).toNat =
      vol.bootRecord.reservedSectors.toNat + cluster.toNat * 2 / 512 := toNat_fatSector
  have hentry : halfAt (vol.readSector (vol.bootRecord.reservedSectors.setWidth 32 +
      cluster.setWidth 32 * 2 / 512)) (cluster.setWidth 32 * 2 % 512 : Word).toNat =
      halfAt (vol.media (vol.bootRecord.reservedSectors.toNat + cluster.toNat * 2 / 512))
        (cluster.toNat * 2 % 512) := by
    rw [readSector_eq (by omega), hsector, BitVec.toNat_umod, hoffset, h512]
  have hsmall : ¬0xFFF8 ≤ halfAt (vol.media (vol.bootRecord.reservedSectors.toNat +
      cluster.toNat * 2 / 512)) (cluster.toNat * 2 % 512) := by
    have hmin : (0xFFF8 : BitVec 16).toNat = 0xFFF8 := rfl
    rw [BitVec.le_def, hmin]
    exact Nat.not_le.mpr h
  simp only [FatVolume.nextOf, hentry, if_neg hsmall]
  rfl

/-- The driver follows the chain of a file up to its end. -/
theorem toNat_walk (hlinks : ∀ k ≤ n, vol.chain file k < 0xFFF8) :
    (vol.nextOf^[n] (file.cluster.setWidth 16)).toNat = vol.chain file n := by
  induction n with
  | zero =>
    have hfirst := hlinks 0 (Nat.le_refl 0)
    rw [FatVolume.chain] at hfirst ⊢
    rw [Function.iterate_zero, id_eq, BitVec.toNat_setWidth]
    omega
  | succ n ih =>
    have hnext := hlinks (n + 1) (Nat.le_refl _)
    rw [FatVolume.chain, ← ih fun k hk => hlinks k (Nat.le_succ_of_le hk)] at hnext ⊢
    rw [Function.iterate_succ_apply']
    exact toNat_nextOf hnext

theorem FatBootRecord.fats_lt (br : FatBootRecord) :
    br.fatCount.toNat * br.fatSectors.toNat < 2 ^ 8 * 2 ^ 16 :=
  Nat.mul_lt_mul'' br.fatCount.isLt br.fatSectors.isLt

variable (vol) in
theorem dataStart_lt : vol.dataStart < 2 ^ 25 := by
  have hreserved := vol.bootRecord.reservedSectors.isLt
  have hdirents := vol.bootRecord.direntCount.isLt
  have hfats := vol.bootRecord.fats_lt
  rw [FatVolume.dataStart]
  omega

theorem toNat_setWidth_word {w : ℕ} (x : BitVec w) (hw : w ≤ 32) :
    (x.setWidth 32).toNat = x.toNat := by
  rw [BitVec.toNat_setWidth,
    Nat.mod_eq_of_lt (x.isLt.trans_le (Nat.pow_le_pow_right (by decide) hw))]

theorem toNat_firstSector (br : FatBootRecord) :
    (br.reservedSectors.setWidth 32 + br.fatCount.setWidth 32 * br.fatSectors.setWidth 32 :
      Word).toNat = br.reservedSectors.toNat + br.fatCount.toNat * br.fatSectors.toNat := by
  have hreserved := br.reservedSectors.isLt
  have hfats := br.fats_lt
  rw [BitVec.toNat_add, BitVec.toNat_mul, toNat_setWidth_word _ (by decide),
    toNat_setWidth_word _ (by decide), toNat_setWidth_word _ (by decide)]
  omega

variable (cluster) in
theorem toNat_getClusterSector (hvalid : vol.Valid) (hcluster : 2 ≤ cluster.toNat) :
    (vol.getClusterSector cluster).toNat =
      vol.dataStart + (cluster.toNat - 2) * vol.bootRecord.clusterSectors.toNat := by
  have hlt := cluster.isLt
  have hreserved := vol.bootRecord.reservedSectors.isLt
  have hdirents := vol.bootRecord.direntCount.isLt
  have hfats := vol.bootRecord.fats_lt
  have hdata : (cluster.toNat - 2) * vol.bootRecord.clusterSectors.toNat < 2 ^ 16 * 2 ^ 8 :=
    Nat.mul_lt_mul'' (by omega) vol.bootRecord.clusterSectors.isLt
  have hzero : cluster ≠ 0 := by
    intro hzero
    rw [hzero] at hcluster
    exact absurd hcluster (by decide)
  have h2 : (2 : Word).toNat = 2 := rfl
  have hroot : ((vol.bootRecord.direntCount.setWidth 32 * 32 + 512 - 1) / 512 : Word).toNat =
      (vol.bootRecord.direntCount.toNat * 32 + 511) / 512 := by
    have h32 : (32 : Word).toNat = 32 := rfl
    have h512 : (512 : Word).toNat = 512 := rfl
    have h1 : (1 : Word).toNat = 1 := rfl
    rw [BitVec.toNat_udiv, BitVec.toNat_sub, BitVec.toNat_add, BitVec.toNat_mul,
      toNat_setWidth_word _ (by decide), h32, h512, h1]
    omega
  have hstart : ((cluster.setWidth 32 - 2) * vol.bootRecord.clusterSectors.setWidth 32 :
      Word).toNat = (cluster.toNat - 2) * vol.bootRecord.clusterSectors.toNat := by
    have hsub : (cluster.setWidth 32 - 2 : Word).toNat = cluster.toNat - 2 := by
      rw [BitVec.toNat_sub, toNat_setWidth_word _ (by decide), h2]
      omega
    rw [BitVec.toNat_mul, hsub, toNat_setWidth_word _ (by decide)]
    omega
  have h512 : (512 : BitVec 16).setWidth 32 = (512 : Word) := rfl
  simp only [FatVolume.getClusterSector, if_neg hzero, hvalid.sectorBytes, h512,
    FatVolume.dataStart]
  rw [BitVec.toNat_add, BitVec.toNat_add, toNat_firstSector, hroot, hstart]
  omega

/-- The sector of a position, if the chain of the file is long enough for it. -/
theorem toNat_sectorOf (hvalid : vol.Valid)
    (hlinks : ∀ k ≤ pos / vol.clusterBytes, 2 ≤ vol.chain file k ∧ vol.chain file k < 0xFFF8) :
    (vol.sectorOf file pos).toNat = vol.dataStart +
      (vol.chain file (pos / vol.clusterBytes) - 2) * vol.bootRecord.clusterSectors.toNat +
        pos % vol.clusterBytes / 512 := by
  have hwalk := toNat_walk fun k hk => (hlinks k hk).2
  obtain ⟨hcluster, hchain⟩ := hlinks _ (Nat.le_refl _)
  have hsector := toNat_getClusterSector (vol.nextOf^[pos / vol.clusterBytes]
    (file.cluster.setWidth 16)) hvalid (hwalk ▸ hcluster)
  rw [hwalk] at hsector
  have hmod : pos % vol.clusterBytes < vol.clusterBytes := Nat.mod_lt _ hvalid.clusterBytes_pos
  have hspc := vol.bootRecord.clusterSectors.isLt
  have hdata : (vol.chain file (pos / vol.clusterBytes) - 2) *
      vol.bootRecord.clusterSectors.toNat < 2 ^ 16 * 2 ^ 8 :=
    Nat.mul_lt_mul'' (by omega) hspc
  have hstart := dataStart_lt vol
  rw [FatVolume.clusterBytes] at hmod
  rw [FatVolume.sectorOf, BitVec.toNat_add, hsector, BitVec.toNat_ofNat]
  rw [FatVolume.clusterBytes] at hdata ⊢
  omega

/-- The driver takes the bytes of a file from its clusters. -/
theorem driverByte_eq (hvalid : vol.Valid) (hfile : vol.Complete file)
    (hpos : pos < file.size.toNat) (hreach : vol.sectorOf file pos < 0xFFFF) :
    vol.driverByte file pos = vol.contents file pos := by
  have hlinks : ∀ k ≤ pos / vol.clusterBytes,
      2 ≤ vol.chain file k ∧ vol.chain file k < 0xFFF8 := fun k hk =>
    hfile k (((Nat.mul_le_mul_right _ hk).trans (Nat.div_mul_le_self _ _)).trans_lt hpos)
  have hlow : pos % vol.clusterBytes % 512 = pos % 512 := Nat.mod_mul_right_mod ..
  have hlt : (vol.sectorOf file pos).toNat < 0xFFFF := BitVec.lt_def.mp hreach
  rw [FatVolume.driverByte, readSector_eq (by omega), toNat_sectorOf hvalid hlinks,
    FatVolume.contents, FatVolume.clusterByte, hlow]

theorem clamp_eq (h : offset.toNat + length.toNat ≤ file.size.toNat) :
    file.clamp offset length = length := by
  have hsize := file.size.isLt
  refine if_neg fun hlt => ?_
  rw [BitVec.lt_def, BitVec.toNat_add] at hlt
  omega

/-- `fat_read` returns a part of the file, whatever has been called before, while all sectors have
numbers below 0xFFFF. -/
theorem fatRead_contents_of_inReach (hvalid : vol.Valid) (hfat : vol.FatInReach)
    {calls : List FatCall} (hrun : Steps vol.step (fun _ call _ => call.InReach vol) {} calls s)
    (hfile : vol.Complete file) (hlen : offset.toNat + length.toNat ≤ file.size.toNat)
    (hreach : (FatCall.read file offset length).InReach vol) :
    ∃ s', fatRead vol file offset length s =
      .ok (length, (List.range length.toNat).map fun i => vol.contents file (offset.toNat + i))
        s' := by
  have hclean : s.Clean vol := by
    refine hrun.invariant (I := FatCaches.Clean vol) ?_ (FatCaches.clean_init hfat)
    intro s call s' hs hstep hguard
    exact hs.step hvalid hguard hstep
  have hclamp := clamp_eq hlen
  by_cases hoffset : offset < file.size
  · have hreach := hreach hoffset
    obtain ⟨s', -, hread⟩ := fatRead_eq hvalid hclean hoffset hreach
    refine ⟨s', ?_⟩
    rw [hread, hclamp, FatVolume.rest]
    rw [hclamp] at hreach
    congr 2
    refine List.map_congr_left fun i hi => ?_
    have hi := List.mem_range.mp hi
    exact driverByte_eq hvalid hfile (by omega) (hreach i hi)
  · -- There is nothing to read at the end of the file.
    have hle : file.size ≤ offset := BitVec.not_lt.mp hoffset
    have hzero : length = 0 := by
      rw [← BitVec.toNat_inj]
      have := BitVec.le_def.mp hle
      exact Nat.eq_zero_of_le_zero (by omega)
    refine ⟨s, ?_⟩
    rw [fatRead, if_pos hle, hzero]
    rfl

/-- A volume of clusters of 64 KiB with the data from sector 289 on. The sectors 289 and 65825 hold
the first bytes of the clusters 2 and 514. -/
def smallVolume : FatVolume where
  device := 1
  disk := 0
  media := fun sector _ => if sector = 289 then 0xAA else if sector = 65825 then 0xBB else 0
  bootRecord :=
    { sectorBytes := 512, clusterSectors := 128, reservedSectors := 1, fatCount := 1
      direntCount := 512, fatSectors := 256 }

def firstFile : FatFile := { cluster := 2, size := 1 }

def distantFile : FatFile := { cluster := 514, size := 1 }

theorem smallVolume_complete (file : FatFile) (hsize : file.size = 1)
    (hcluster : 2 ≤ file.cluster.toNat ∧ file.cluster.toNat < 0xFFF8) :
    smallVolume.Complete file := by
  intro n hn
  have hbytes : smallVolume.clusterBytes = 65536 := rfl
  have hone : (1 : Word).toNat = 1 := rfl
  rw [hbytes, hsize, hone] at hn
  obtain rfl : n = 0 := by omega
  exact hcluster

/-- The file in the first cluster is read after itself. -/
theorem first_file_read_again :
    ∃ s s', smallVolume.step {} (.read firstFile 0 1) = some s ∧
      fatRead smallVolume firstFile 0 1 s = .ok (1, [0xAA]) s' := by
  have hreach : (FatCall.read firstFile 0 1).InReach smallVolume := by
    intro _ i hi
    obtain rfl : i = 0 := Nat.lt_one_iff.mp hi
    decide +kernel
  have hvalid : smallVolume.Valid := ⟨rfl, by decide⟩
  have hfat : smallVolume.FatInReach := by
    rw [FatVolume.FatInReach]
    decide
  obtain ⟨s, -, hread⟩ :=
    fatRead_eq hvalid (FatCaches.clean_init hfat) (by decide) (hreach (by decide))
  have hstep : smallVolume.step {} (.read firstFile 0 1) = some s := by
    rw [FatVolume.step, hread]
  obtain ⟨s', hagain⟩ := fatRead_contents_of_inReach hvalid hfat (.cons hstep hreach (.nil s))
    (smallVolume_complete firstFile rfl (by decide)) (by decide) hreach
  have hbytes : (List.range (1 : Word).toNat).map
      (fun i => smallVolume.contents firstFile ((0 : Word).toNat + i)) = [0xAA] := by
    decide +kernel
  rw [hbytes] at hagain
  exact ⟨s, s', hstep, hagain⟩

/-- After the distant file has been read, its byte is returned for that of the first file. -/
theorem distant_sector_returned :
    smallVolume.Valid ∧ smallVolume.Complete firstFile ∧ smallVolume.Complete distantFile ∧
    smallVolume.contents firstFile 0 = 0xAA ∧
    ∃ s s', smallVolume.step {} (.read distantFile 0 1) = some s ∧
      fatRead smallVolume firstFile 0 1 s = .ok (1, [0xBB]) s' := by
  refine ⟨⟨rfl, by decide⟩, smallVolume_complete _ rfl (by decide),
    smallVolume_complete _ rfl (by decide), by decide +kernel, ?_⟩
  have hvalue : (smallVolume.step {} (.read distantFile 0 1)).bind (fun s =>
      valueOf (fatRead smallVolume firstFile 0 1 s)) = some (1, [0xBB]) := by
    decide +kernel
  obtain ⟨s, hstep, hread⟩ := Option.bind_eq_some_iff.mp hvalue
  exact ⟨s, _, hstep, eq_ok_of_valueOf hread⟩

end Horizon
