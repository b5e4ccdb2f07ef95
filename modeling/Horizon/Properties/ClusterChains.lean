import Horizon.Properties.ReadLengths

/-!
# Horizon — following a chain in the FAT (`find_cluster`)

`next_cluster` returns -1 as a `uint16_t` at the end of a chain, `find_cluster` compares that with
the `int` -1, and the two are never equal. So the walk takes as many links as the offset asks for,
whatever the FAT says, and past the end of a chain it goes on with the entry of cluster 0xFFFF.

`FatVolume.follow` is the walk as it should be, over what the device holds. The loop agrees with it
exactly if all entries on the way are links and the cache shows them as they are.
-/

namespace Horizon

open StateError

namespace FatVolume

/-- The rounds of `find_cluster`, with the results of `next_cluster` in them. -/
inductive Walk (vol : FatVolume) :
    BitVec 16 → Word → FatCaches → List (BitVec 16) → BitVec 16 → Word → FatCaches → Prop
  | stop {cluster offset s} (hlt : ¬vol.clusterSize ≤ offset) :
      Walk vol cluster offset s [] cluster offset s
  | ended {cluster offset s next t} (hle : vol.clusterSize ≤ offset)
      (hnext : nextCluster vol cluster s = .ok next t) (hend : (next.toNat : Int) = -1) :
      Walk vol cluster offset s [next] 0 offset t
  | link {cluster offset s next t links cluster' offset' s'} (hle : vol.clusterSize ≤ offset)
      (hnext : nextCluster vol cluster s = .ok next t) (hend : ¬(next.toNat : Int) = -1)
      (hrest : Walk vol next (offset - vol.clusterSize) t links cluster' offset' s') :
      Walk vol cluster offset s (next :: links) cluster' offset' s'

/-- Follow links from a cluster up to the end of its chain: the links, and the last cluster unless
the end has been met. -/
def follow (vol : FatVolume) : ℕ → ℕ → List ℕ × Option ℕ
  | 0, cluster => ([], some cluster)
  | n + 1, cluster =>
      if 0xFFF8 ≤ vol.fatEntry cluster then ([0xFFFF], none)
      else
        let rest := follow vol n (vol.fatEntry cluster)
        (vol.fatEntry cluster :: rest.1, rest.2)

/-- The result for a walk that has come to a cluster, or to the end of the chain. -/
def Result (cluster : BitVec 16) (offset : Word) (rest : ℕ) : Option ℕ → Prop
  | some last => cluster.toNat = last ∧ offset.toNat = rest
  | none => cluster = 0

/-- `find_cluster` follows one link for each cluster that the offset is beyond. -/
def FindsRight (vol : FatVolume) (cluster : BitVec 16) (offset : Word) (s : FatCaches) : Prop :=
  let walk := vol.follow (offset.toNat / vol.clusterBytes) cluster.toNat
  ∃ links cluster' offset' s', vol.Walk cluster offset s links cluster' offset' s' ∧
    findCluster vol cluster offset s = .ok (cluster', offset') s' ∧
    links.map BitVec.toNat = walk.1 ∧
    Result cluster' offset' (offset.toNat % vol.clusterBytes) walk.2

end FatVolume

/-- What `next_cluster` finds for an entry of the FAT. -/
def SectorCache.entry (vol : FatVolume) (cluster : BitVec 16) (cache : SectorCache) : BitVec 16 :=
  halfAt (cache.fetch vol (vol.fatSector cluster)).buffer (cluster.setWidth 32 * 2 % 512).toNat

/-- The next entries on the chain of a cluster are links, and the cache shows them as they are. -/
def FatVolume.LinksRight (vol : FatVolume) : ℕ → BitVec 16 → SectorCache → Prop
  | 0, _, _ => True
  | n + 1, cluster, cache =>
      vol.fatEntry cluster.toNat < 0xFFF8 ∧
      (cache.entry vol cluster).toNat = vol.fatEntry cluster.toNat ∧
      LinksRight vol n (cache.entry vol cluster) (cache.fetch vol (vol.fatSector cluster))

variable {vol : FatVolume} {s s' t : FatCaches} {cache : SectorCache}
  {cluster cluster' next : BitVec 16} {offset offset' : Word} {links : List (BitVec 16)} {n : ℕ}

/-! ## Walks -/

theorem nextCluster_apply : nextCluster vol cluster s =
      .ok (if 0xFFF8 ≤ s.fat.entry vol cluster then -1 else s.fat.entry vol cluster)
        { s with fat := s.fat.fetch vol (vol.fatSector cluster) } := rfl

theorem FatVolume.Walk.unique {links₂ cluster₂ offset₂ s₂}
    (h : vol.Walk cluster offset s links cluster' offset' s')
    (h₂ : vol.Walk cluster offset s links₂ cluster₂ offset₂ s₂) :
    links = links₂ ∧ cluster' = cluster₂ := by
  induction h generalizing links₂ cluster₂ offset₂ s₂ with
  | stop hlt =>
    cases h₂ with
    | stop => exact ⟨rfl, rfl⟩
    | ended hle => exact absurd hle hlt
    | link hle => exact absurd hle hlt
  | ended _ _ hend => exact absurd hend (next_ne_end _)
  | link hle hnext _ _ ih =>
    cases h₂ with
    | stop hlt => exact absurd hle hlt
    | ended _ _ hend => exact absurd hend (next_ne_end _)
    | link _ hnext₂ _ hrest₂ =>
      obtain ⟨rfl, rfl⟩ := EStateM.Result.ok.inj (hnext.symm.trans hnext₂)
      obtain ⟨rfl, rfl⟩ := ih hrest₂
      exact ⟨rfl, rfl⟩

theorem FatVolume.Walk.of_loop {fuel : ℕ}
    (hloop : findClusterLoop vol fuel cluster offset s = .ok (cluster', offset') s') :
    ∃ links, vol.Walk cluster offset s links cluster' offset' s' := by
  induction fuel generalizing cluster offset s with
  | zero => cases hloop
  | succ fuel ih =>
    rw [findClusterLoop] at hloop
    by_cases hle : vol.clusterSize ≤ offset
    · obtain ⟨next, t, hnext⟩ := nextCluster_returns vol cluster s
      rw [if_pos hle, bind_apply_of_ok hnext, if_neg (next_ne_end next)] at hloop
      obtain ⟨links, hrest⟩ := ih hloop
      exact ⟨next :: links, .link hle hnext (next_ne_end next) hrest⟩
    · rw [if_neg hle] at hloop
      obtain ⟨hpair, rfl⟩ := EStateM.Result.ok.inj hloop
      obtain ⟨rfl, rfl⟩ := Prod.mk.inj hpair
      exact ⟨[], .stop hle⟩

theorem FatVolume.Walk.of_nil (h : vol.Walk cluster offset s [] cluster' offset' s') :
    cluster' = cluster := by
  cases h
  rfl

theorem div_clusterBytes (hsize : vol.bootRecord.clusterSectors ≠ 0)
    (hle : vol.clusterSize ≤ offset) :
    offset.toNat / vol.clusterBytes = (offset - vol.clusterSize).toNat / vol.clusterBytes + 1 := by
  have hle' : vol.clusterBytes ≤ offset.toNat := by
    rw [← toNat_clusterSize]
    exact BitVec.le_def.mp hle
  rw [BitVec.toNat_sub_of_le hle, toNat_clusterSize,
    Nat.div_eq_sub_div (clusterBytes_pos hsize) hle']

theorem div_clusterBytes_of_not_le (hlt : ¬vol.clusterSize ≤ offset) :
    offset.toNat / vol.clusterBytes = 0 := by
  refine Nat.div_eq_of_lt ?_
  rw [← toNat_clusterSize]
  exact Nat.not_le.mp fun h => hlt (BitVec.le_def.mpr h)

/-! ## Links and ends -/

/-- At the end of a chain, `next_cluster` returns 0xFFFF, and the walk should return 0. -/
theorem not_right_at_end {rest : ℕ} (hmark : 0xFFF8 ≤ vol.fatEntry cluster.toNat)
    (hrest : vol.Walk next offset t links cluster' offset' s') :
    ¬((next :: links).map BitVec.toNat = (vol.follow (n + 1) cluster.toNat).1 ∧
      FatVolume.Result cluster' offset' rest (vol.follow (n + 1) cluster.toNat).2) := by
  rw [FatVolume.follow, if_pos hmark]
  rintro ⟨hlinks, hzero⟩
  rw [List.map_cons] at hlinks
  obtain ⟨hnext, hnil⟩ := List.cons.inj hlinks
  obtain rfl := List.map_eq_nil_iff.mp hnil
  rw [← hrest.of_nil, show cluster' = 0 from hzero] at hnext
  exact absurd hnext (by decide)

/-- `next_cluster` returns the link exactly if it is shown as it is. -/
theorem toNat_next_iff (hlink : vol.fatEntry cluster.toNat < 0xFFF8) :
    (if 0xFFF8 ≤ cache.entry vol cluster then (-1 : BitVec 16)
      else cache.entry vol cluster).toNat = vol.fatEntry cluster.toNat ↔
    (cache.entry vol cluster).toNat = vol.fatEntry cluster.toNat := by
  split
  · next hmark =>
    have hmark : 0xFFF8 ≤ (cache.entry vol cluster).toNat := BitVec.le_def.mp hmark
    have hend : (-1 : BitVec 16).toNat = 0xFFFF := rfl
    rw [hend]
    omega
  · exact Iff.rfl

theorem next_eq_entry (hlink : vol.fatEntry cluster.toNat < 0xFFF8)
    (hentry : (cache.entry vol cluster).toNat = vol.fatEntry cluster.toNat) :
    (if 0xFFF8 ≤ cache.entry vol cluster then (-1 : BitVec 16)
      else cache.entry vol cluster) = cache.entry vol cluster := by
  refine if_neg fun hmark => ?_
  have hmark : 0xFFF8 ≤ (cache.entry vol cluster).toNat := BitVec.le_def.mp hmark
  omega

/-- A walk is right exactly if all its links are. -/
theorem FatVolume.Walk.right_iff (hsize : vol.bootRecord.clusterSectors ≠ 0)
    (h : vol.Walk cluster offset s links cluster' offset' s') {rest : ℕ}
    (hrest : offset'.toNat = rest) :
    (links.map BitVec.toNat = (vol.follow (offset.toNat / vol.clusterBytes) cluster.toNat).1 ∧
      Result cluster' offset' rest
        (vol.follow (offset.toNat / vol.clusterBytes) cluster.toNat).2) ↔
    vol.LinksRight (offset.toNat / vol.clusterBytes) cluster s.fat := by
  induction h with
  | stop hlt =>
    rw [div_clusterBytes_of_not_le hlt]
    exact iff_of_true ⟨rfl, rfl, hrest⟩ trivial
  | ended _ _ hend => exact absurd hend (next_ne_end _)
  | @link cluster offset s next t links cluster' offset' s' hle hnext _ hwalk ih =>
    rw [div_clusterBytes hsize hle]
    obtain ⟨rfl, rfl⟩ := EStateM.Result.ok.inj (nextCluster_apply.symm.trans hnext)
    by_cases hmark : 0xFFF8 ≤ vol.fatEntry cluster.toNat
    · exact iff_of_false (not_right_at_end hmark hwalk) fun h => absurd h.1 (Nat.not_lt.mpr hmark)
    · have hlink := Nat.not_le.mp hmark
      rw [follow, if_neg hmark, List.map_cons, List.cons.injEq, toNat_next_iff hlink, LinksRight,
        and_iff_right hlink, and_assoc]
      refine and_congr_right fun hentry => ?_
      rw [next_eq_entry hlink hentry] at ih
      rw [← hentry]
      exact ih hrest

/-- `find_cluster` is right exactly if the entries on its way are links, which the cache shows as
they are. -/
theorem findsRight_iff (hsize : vol.bootRecord.clusterSectors ≠ 0) (cluster : BitVec 16)
    (offset : Word) (s : FatCaches) :
    vol.FindsRight cluster offset s ↔
      vol.LinksRight (offset.toNat / vol.clusterBytes) cluster s.fat := by
  obtain ⟨cluster', offset', s', hfind, hoffset⟩ :=
    findClusterLoop_returns hsize (Nat.lt_succ_self offset.toNat) cluster s
  obtain ⟨links, hwalk⟩ := FatVolume.Walk.of_loop hfind
  rw [← hwalk.right_iff hsize hoffset]
  constructor
  · rintro ⟨links₂, cluster₂, offset₂, s₂, hwalk₂, hfind₂, hright⟩
    obtain ⟨rfl, rfl⟩ := hwalk.unique hwalk₂
    have hpair := (EStateM.Result.ok.inj (hfind.symm.trans hfind₂)).1
    obtain rfl : offset' = offset₂ := (Prod.mk.inj hpair).2
    exact hright
  · exact fun hright => ⟨links, cluster', offset', s', hwalk, hfind, hright⟩

/-- A volume with the chain of the clusters 2 and 3. -/
def chainVolume : FatVolume where
  device := 1
  disk := 0
  media := fun sector i =>
    if sector = 1 then [0xF8, 0xFF, 0xFF, 0xFF, 3, 0, 0xFF, 0xFF].getD i 0 else 0
  bootRecord :=
    { sectorBytes := 512, clusterSectors := 1, reservedSectors := 1, fatCount := 1
      direntCount := 16, fatSectors := 1 }

/-- The second cluster of the chain is found. -/
theorem second_cluster_found :
    chainVolume.follow 1 2 = ([3], some 3) ∧ chainVolume.FindsRight 2 522 {} := by
  refine ⟨by decide, ?_⟩
  have hsize : chainVolume.bootRecord.clusterSectors ≠ 0 := by decide
  refine (findsRight_iff hsize 2 522 {}).mpr ?_
  have hlinks : (522 : Word).toNat / chainVolume.clusterBytes = 1 := by decide
  rw [hlinks]
  exact ⟨by decide, by decide, trivial⟩

/-- The end of the chain is returned as a cluster. -/
theorem end_returned :
    chainVolume.follow 2 2 = ([3, 0xFFFF], none) ∧
    ∃ s', findCluster chainVolume 2 1024 {} = .ok (0xFFFF, 0) s' := by
  refine ⟨by decide, _, eq_ok_of_valueOf ?_⟩
  rw [findCluster]
  rfl

end Horizon
