import Horizon.Properties.FileContents

/-!
# Horizon — how much `fat_read` reads

A read past the end of a file is cut down to what is left of it. The test for that adds the offset
and the length of the request, which wraps: a length of 2^32 less the offset or more is not cut down
at all. Every other request returns after having stored exactly what the file has for it, whatever
is in the FAT and in the caches.
-/

namespace Horizon

open StateError

variable {vol : FatVolume} {file : FatFile} {s : FatCaches} {cluster : BitVec 16}
  {offset length currPos : Word} {bytes : List Byte} {fuel : ℕ}

/-! ## Loops that end -/

theorem nextCluster_returns (vol : FatVolume) (cluster : BitVec 16) (s : FatCaches) :
    ∃ next s', nextCluster vol cluster s = .ok next s' := ⟨_, _, rfl⟩

theorem next_ne_end (next : BitVec 16) : ¬(next.toNat : Int) = -1 := by omega

theorem findClusterLoop_returns (hsize : vol.bootRecord.clusterSectors ≠ 0)
    (hfuel : offset.toNat < fuel) (cluster : BitVec 16) (s : FatCaches) :
    ∃ cluster' offset' s', findClusterLoop vol fuel cluster offset s = .ok (cluster', offset') s' ∧
      offset'.toNat = offset.toNat % vol.clusterBytes := by
  have hpos := clusterBytes_pos hsize
  induction fuel generalizing cluster offset s with
  | zero => exact absurd hfuel (Nat.not_lt_zero _)
  | succ fuel ih =>
    rw [findClusterLoop]
    by_cases hle : vol.clusterSize ≤ offset
    · have hle' : vol.clusterBytes ≤ offset.toNat := by
        rw [← toNat_clusterSize]
        exact BitVec.le_def.mp hle
      have hsub : (offset - vol.clusterSize).toNat = offset.toNat - vol.clusterBytes := by
        rw [BitVec.toNat_sub_of_le hle, toNat_clusterSize]
      have hfuel' : (offset - vol.clusterSize).toNat < fuel := by omega
      obtain ⟨next, t, hnext⟩ := nextCluster_returns vol cluster s
      obtain ⟨cluster', offset', s', hloop, hoffset⟩ := ih hfuel' next t
      refine ⟨cluster', offset', s', ?_, ?_⟩
      · rw [if_pos hle, bind_apply_of_ok hnext, if_neg (next_ne_end next), hloop]
      · rw [hoffset, hsub, ← Nat.mod_eq_sub_mod hle']
    · have hlt : offset.toNat < vol.clusterBytes := by
        rw [← toNat_clusterSize]
        exact Nat.not_le.mp fun h => hle (BitVec.le_def.mpr h)
      refine ⟨cluster, offset, s, by rw [if_neg hle]; rfl, ?_⟩
      rw [Nat.mod_eq_of_lt hlt]

/-- Clusters without a size are followed forever. -/
theorem findClusterLoop_hangs (hsize : vol.bootRecord.clusterSectors = 0) (fuel : ℕ)
    (cluster : BitVec 16) (offset : Word) (s : FatCaches) :
    ∃ s', findClusterLoop vol fuel cluster offset s = .error .hang s' := by
  have hzero : vol.clusterSize = 0#32 := by
    rw [FatVolume.clusterSize, hsize]
    rfl
  have hle : vol.clusterSize ≤ offset := by
    rw [hzero]
    exact BitVec.le_def.mpr (Nat.zero_le _)
  induction fuel generalizing cluster s with
  | zero => exact ⟨s, rfl⟩
  | succ fuel ih =>
    obtain ⟨next, t, hnext⟩ := nextCluster_returns vol cluster s
    rw [findClusterLoop, if_pos hle, bind_apply_of_ok hnext, if_neg (next_ne_end next), hzero,
      BitVec.sub_zero]
    exact ih next t

/-! ## The loop of `fat_read` -/

section Loop

variable (hbytes : vol.bootRecord.sectorBytes ≠ 0) (hsize : vol.bootRecord.clusterSectors ≠ 0)
include hbytes hsize

/-- A round of the loop stores some of the bytes that are wanted. -/
theorem fatReadLoop_stores (hlt : currPos < length) (cluster : BitVec 16) (offset : Word)
    (s : FatCaches) :
    ∃ (cluster' : BitVec 16) (offset' count : Word) (chunk : List Byte) (s' : FatCaches),
      chunk.length = count.toNat ∧ 0 < count.toNat ∧
      count.toNat ≤ length.toNat - currPos.toNat ∧ ∀ fuel bytes,
        fatReadLoop vol length (fuel + 1) cluster offset currPos bytes s =
          fatReadLoop vol length fuel cluster' offset' (currPos + count) (bytes ++ chunk) s' := by
  have hlt' : currPos.toNat < length.toNat := BitVec.lt_def.mp hlt
  obtain ⟨cluster', offset', t, hfind, -⟩ :=
    findClusterLoop_returns hsize (Nat.lt_succ_self offset.toNat) cluster s
  have hlow : offset'.toNat % 512 = offset'.toNat % 512 := rfl
  have hcount := toNat_toRead hlt hlow
  generalize htoRead : (if 512 - offset' % 512 < length - currPos then 512 - offset' % 512
    else length - currPos) = toRead at hcount
  let cache := t.read.fetch vol (vol.getClusterSector cluster' + offset' / 512)
  refine ⟨cluster', offset' + toRead, toRead,
    (List.range toRead.toNat).map fun i => cache.buffer ((offset' % 512).toNat + i),
    { t with read := cache }, by rw [List.length_map, List.length_range], by omega, by omega,
    fun fuel bytes => ?_⟩
  rw [fatReadLoop, if_pos hlt, findCluster, bind_apply_of_ok hfind]
  simp only [bind_apply_of_ok (clusterSector_returns hbytes), modify_bind_apply, get_bind_apply]
  rw [htoRead]

theorem fatReadLoop_length (hle : currPos ≤ length) (hfuel : length.toNat - currPos.toNat < fuel)
    (cluster : BitVec 16) (offset : Word) (bytes : List Byte) (s : FatCaches) :
    ∃ bytes' s', fatReadLoop vol length fuel cluster offset currPos bytes s = .ok bytes' s' ∧
      bytes'.length = bytes.length + (length.toNat - currPos.toNat) := by
  induction fuel generalizing cluster offset currPos bytes s with
  | zero => exact absurd hfuel (Nat.not_lt_zero _)
  | succ fuel ih =>
    by_cases hlt : currPos < length
    · have hlength := length.isLt
      have hlt' : currPos.toNat < length.toNat := BitVec.lt_def.mp hlt
      obtain ⟨cluster', offset', count, chunk, t, hchunk, hpos, hcount, hround⟩ :=
        fatReadLoop_stores hbytes hsize hlt cluster offset s
      have hcurr : (currPos + count).toNat = currPos.toNat + count.toNat := by
        rw [BitVec.toNat_add, Nat.mod_eq_of_lt (by omega)]
      have hle' : currPos + count ≤ length := BitVec.le_def.mpr (by omega)
      obtain ⟨bytes', s', hrest, hlen⟩ := ih hle' (by omega) cluster' offset' (bytes ++ chunk) t
      refine ⟨bytes', s', by rw [hround, hrest], ?_⟩
      rw [hlen, List.length_append, hchunk, hcurr]
      omega
    · have heq : currPos = length := BitVec.le_antisymm hle (BitVec.not_lt.mp hlt)
      refine ⟨bytes, s, by rw [fatReadLoop, if_neg hlt]; rfl, ?_⟩
      rw [heq, Nat.sub_self, Nat.add_zero]

end Loop

/-! ## `fat_read` -/

/-- The number of bytes that a read should return. -/
def FatFile.available (file : FatFile) (offset length : Word) : ℕ :=
  if file.size ≤ offset then 0 else min length.toNat (file.size.toNat - offset.toNat)

/-- The length is cut down to what is left of the file, if the sum in the test does not wrap. -/
theorem clamp_eq_available (hoffset : ¬file.size ≤ offset)
    (hsum : offset.toNat + length.toNat < 2 ^ 32) :
    (file.clamp offset length).toNat = file.available offset length := by
  have hadd : (offset + length).toNat = offset.toNat + length.toNat := by
    rw [BitVec.toNat_add, Nat.mod_eq_of_lt hsum]
  have hlt : offset.toNat < file.size.toNat :=
    Nat.not_le.mp fun h => hoffset (BitVec.le_def.mpr h)
  rw [FatFile.available, if_neg hoffset, FatFile.clamp]
  split
  · next h =>
    rw [BitVec.lt_def, hadd] at h
    rw [BitVec.toNat_sub_of_le (BitVec.le_def.mpr hlt.le)]
    omega
  · next h =>
    rw [BitVec.lt_def, hadd] at h
    omega

/-- If it wraps, the length is not cut down. -/
theorem clamp_wraps (hoffset : ¬file.size ≤ offset) (hsum : 2 ^ 32 ≤ offset.toNat + length.toNat) :
    file.clamp offset length = length ∧ file.available offset length < length.toNat := by
  have hlt : offset.toNat < file.size.toNat :=
    Nat.not_le.mp fun h => hoffset (BitVec.le_def.mpr h)
  have hsize := file.size.isLt
  have hlength := length.isLt
  refine ⟨if_neg fun h => ?_, ?_⟩
  · rw [BitVec.lt_def, BitVec.toNat_add] at h
    omega
  · rw [FatFile.available, if_neg hoffset]
    omega

theorem clamp_pos (hoffset : ¬file.size ≤ offset) (hlength : length ≠ 0) :
    0 < file.clamp offset length := by
  have hlt : offset.toNat < file.size.toNat :=
    Nat.not_le.mp fun h => hoffset (BitVec.le_def.mpr h)
  rw [BitVec.lt_def, FatFile.clamp]
  split
  · rw [BitVec.toNat_sub_of_le (BitVec.le_def.mpr hlt.le)]
    exact Nat.sub_pos_of_lt hlt
  · exact Nat.pos_of_ne_zero fun h => hlength (BitVec.eq_of_toNat_eq h)

/-- On a volume whose clusters have a size, `fat_read` returns the length it has decided on, after
having stored that many bytes. -/
theorem fatRead_returns (hbytes : vol.bootRecord.sectorBytes ≠ 0)
    (hsize : vol.bootRecord.clusterSectors ≠ 0) (hoffset : ¬file.size ≤ offset) (length : Word)
    (s : FatCaches) :
    ∃ bytes s', fatRead vol file offset length s = .ok (file.clamp offset length, bytes) s' ∧
      bytes.length = (file.clamp offset length).toNat := by
  have hzero : (0 : Word) ≤ file.clamp offset length := BitVec.le_def.mpr (Nat.zero_le _)
  obtain ⟨bytes, s', hloop, hlen⟩ := fatReadLoop_length hbytes hsize hzero
    (Nat.lt_succ_of_le (Nat.sub_le _ _)) (file.cluster.setWidth 16) offset [] s
  refine ⟨bytes, s', ?_, ?_⟩
  · rw [fatRead, if_neg hoffset, bind_apply_of_ok hloop]
    rfl
  · rw [hlen, List.length_nil, Nat.zero_add]
    rfl

/-- On a volume whose clusters have none, it returns only if there is nothing to read. -/
theorem fatRead_hangs (hsize : vol.bootRecord.clusterSectors = 0) (hoffset : ¬file.size ≤ offset)
    (hlength : 0 < file.clamp offset length) (s : FatCaches) :
    ∃ s', fatRead vol file offset length s = .error .hang s' := by
  obtain ⟨s', hfind⟩ := findClusterLoop_hangs hsize (offset.toNat + 1) (file.cluster.setWidth 16)
    offset s
  refine ⟨s', ?_⟩
  rw [fatRead, if_neg hoffset, fatReadLoop, if_pos hlength, findCluster]
  rw [bind_apply_of_error (bind_apply_of_error hfind)]

/-- `fat_read` returns the number of bytes that the file has for a request, and has stored that
many. -/
def FatVolume.ReadsRight (vol : FatVolume) (file : FatFile) (offset length : Word)
    (s : FatCaches) : Prop :=
  ∃ r bytes s', fatRead vol file offset length s = .ok (r, bytes) s' ∧
    r.toNat = file.available offset length ∧ bytes.length = file.available offset length

theorem readsRight_past_end (hoffset : file.size ≤ offset) :
    vol.ReadsRight file offset length s := by
  have hnone : file.available offset length = 0 := if_pos hoffset
  refine ⟨0, [], s, ?_, hnone.symm, hnone.symm⟩
  rw [fatRead, if_pos hoffset]
  rfl

theorem readsRight_nothing (hoffset : ¬file.size ≤ offset) : vol.ReadsRight file offset 0 s := by
  have hclamp : file.clamp offset 0 = 0 := by
    rw [FatFile.clamp, show offset + 0 = offset from BitVec.add_zero offset,
      if_neg fun h => hoffset (BitVec.le_of_lt h)]
  have hnone : file.available offset 0 = 0 := by
    rw [FatFile.available, if_neg hoffset]
    exact Nat.zero_min _
  refine ⟨0, [], s, ?_, hnone.symm, hnone.symm⟩
  rw [fatRead, if_neg hoffset, hclamp]
  rfl

theorem readsRight_iff_sum (hbytes : vol.bootRecord.sectorBytes ≠ 0)
    (hsize : vol.bootRecord.clusterSectors ≠ 0) (hoffset : ¬file.size ≤ offset) :
    vol.ReadsRight file offset length s ↔ offset.toNat + length.toNat < 2 ^ 32 := by
  obtain ⟨bytes, s', hread, hlen⟩ := fatRead_returns hbytes hsize hoffset length s
  by_cases hsum : offset.toNat + length.toNat < 2 ^ 32
  · have hclamp := clamp_eq_available hoffset hsum
    exact iff_of_true ⟨_, bytes, s', hread, hclamp, hlen.trans hclamp⟩ hsum
  · refine iff_of_false ?_ hsum
    rintro ⟨r, bytes', t, hread', hr, -⟩
    obtain ⟨hclamp, hlt⟩ := clamp_wraps hoffset (Nat.not_lt.mp hsum)
    rw [hread, hclamp] at hread'
    obtain rfl : length = r := congrArg Prod.fst (EStateM.Result.ok.inj hread').1
    exact hlt.ne' hr

/-- `fat_read` returns what it should exactly if the sum of offset and length does not wrap, on a
volume whose clusters have a size. -/
theorem readsRight_iff (hbytes : vol.bootRecord.sectorBytes ≠ 0) (file : FatFile)
    (offset length : Word) (s : FatCaches) :
    vol.ReadsRight file offset length s ↔
      file.size ≤ offset ∨ offset.toNat + length.toNat < 2 ^ 32 ∧
        (length = 0 ∨ vol.bootRecord.clusterSectors ≠ 0) := by
  by_cases hoffset : file.size ≤ offset
  · exact iff_of_true (readsRight_past_end hoffset) (Or.inl hoffset)
  rw [or_iff_right hoffset]
  by_cases hsize : vol.bootRecord.clusterSectors = 0
  · by_cases hlength : length = 0
    · subst hlength
      exact iff_of_true (readsRight_nothing hoffset) ⟨offset.isLt, Or.inl rfl⟩
    · obtain ⟨t, hhang⟩ := fatRead_hangs hsize hoffset (clamp_pos hoffset hlength) s
      refine iff_of_false ?_ fun h => h.2.elim hlength fun hne => hne hsize
      rintro ⟨r, bytes, s', hread, -⟩
      rw [hhang] at hread
      cases hread
  · rw [readsRight_iff_sum hbytes hsize hoffset, and_iff_left (Or.inr hsize)]

/-- A request for more than is left of a file. -/
theorem short_read :
    let file : FatFile := { cluster := 2, size := 100 }
    file.available 10 200 = 90 ∧ smallVolume.ReadsRight file 10 200 {} := by
  have hbytes : smallVolume.bootRecord.sectorBytes ≠ 0 := by decide
  exact ⟨by decide, (readsRight_iff hbytes _ 10 200 {}).mpr
    (Or.inr ⟨by decide, Or.inr (by decide)⟩)⟩

/-- A request for as much as possible: the end of the file of 100 bytes is not noticed. -/
theorem long_read :
    let file : FatFile := { cluster := 2, size := 100 }
    file.available 10 0xFFFFFFFF = 90 ∧
    ∃ bytes s', fatRead smallVolume file 10 0xFFFFFFFF {} = .ok (0xFFFFFFFF, bytes) s' ∧
      bytes.length = 0xFFFFFFFF := by
  have hbytes : smallVolume.bootRecord.sectorBytes ≠ 0 := by decide
  exact ⟨by decide, fatRead_returns hbytes (by decide) (by decide) _ {}⟩

end Horizon
