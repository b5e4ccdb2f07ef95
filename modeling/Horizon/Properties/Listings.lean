import Horizon.Properties.FileNames
import Mathlib.Data.List.Forall2

/-!
# Horizon — listing a directory (`fat_enumerate`)

A directory is a sequence of entries: the root directory in the sectors behind the FATs, another one
in the clusters of its chain. `FatVolume.direntOf` takes them from the device. `fat_enumerate`,
called with the index it has returned last, goes through the files up to the end of the directory,
if it comes to see these entries (`FatVolume.Listable`).

Beyond its first cluster the root directory is not found: the driver follows the FAT from cluster 0.
-/

namespace Horizon

open StateError

/-! ## Directories -/

namespace FatVolume

/-- The first sector of the root directory. -/
def rootStart (vol : FatVolume) : ℕ :=
  vol.bootRecord.reservedSectors.toNat +
    vol.bootRecord.fatCount.toNat * vol.bootRecord.fatSectors.toNat

/-- The sector of a position in a directory. The root directory has cluster 0. -/
def directorySector (vol : FatVolume) (dir : FatFile) (pos : ℕ) : ℕ :=
  if dir.cluster = 0 then vol.rootStart + pos / 512
  else vol.dataStart + (vol.chain dir (pos / vol.clusterBytes) - 2) *
    vol.bootRecord.clusterSectors.toNat + pos % vol.clusterBytes / 512

/-- The entries of a directory. -/
def direntOf (vol : FatVolume) (dir : FatFile) (j : ℕ) : Dirent := fun i =>
  vol.media (vol.directorySector dir (32 * j)) (32 * j % 512 + i)

/-- The directory ends with entry `m`, which is inside of it. -/
structure Ends (vol : FatVolume) (dir : FatFile) (m : ℕ) : Prop where
  last : (vol.direntOf dir m).kind = .last
  before : ∀ j < m, (vol.direntOf dir j).kind ≠ .last
  root : dir.cluster = 0 → m < vol.bootRecord.direntCount.toNat
  chain : dir.cluster ≠ 0 → ∀ n ≤ 32 * m / vol.clusterBytes,
    2 ≤ vol.chain dir n ∧ vol.chain dir n < 0xFFF8

/-- The driver can find the entries of a directory up to its end. -/
structure Listable (vol : FatVolume) (dir : FatFile) (m : ℕ) : Prop where
  valid : vol.Valid
  /-- The end of the root directory is in its first cluster. -/
  root : dir.cluster = 0 → 32 * m < vol.clusterBytes
  /-- Sectors have byte offsets of 32 bits. -/
  reads : ∀ j ≤ m, vol.directorySector dir (32 * j) < 2 ^ 23
  /-- No sector is taken for the one before it, of whose number 16 bits are kept. -/
  apart : ∀ j < m, vol.directorySector dir (32 * (j + 1)) =
    vol.directorySector dir (32 * j) % 2 ^ 16 → vol.directorySector dir (32 * j) < 2 ^ 16
  fits : ∀ j < m, (vol.direntOf dir j).kind = .longName → (vol.direntOf dir j).Fits
  small : 32 * m < 2 ^ 32

/-- Results of `fat_enumerate`, each called with the index of the one before. -/
inductive Yields (vol : FatVolume) (fuel : ℕ) (parent : Option FatFile) :
    Word → FatCaches → List (Word × FatFile) → Word → FatCaches → Prop
  | nil (index : Word) (s : FatCaches) : Yields vol fuel parent index s [] index s
  | cons {index index' next : Word} {file : FatFile} {s t s' : FatCaches}
      {found : List (Word × FatFile)}
      (hfound : fatEnumerate vol fuel parent index s = .ok (some (next, file)) t)
      (hrest : Yields vol fuel parent next t found index' s') :
      Yields vol fuel parent index s ((next, file) :: found) index' s'

/-- All results of `fat_enumerate` up to -1. -/
def Lists (vol : FatVolume) (fuel : ℕ) (parent : Option FatFile) (index : Word) (s : FatCaches)
    (found : List (Word × FatFile)) (s' : FatCaches) : Prop :=
  ∃ next t, vol.Yields fuel parent index s found next t ∧
    fatEnumerate vol fuel parent next t = .ok none s'

end FatVolume

/-- The root directory. -/
def rootDirectory : FatFile := { cluster := 0, size := 0 }

/-- The caches before entry `i` of a directory with `m` entries: the sector of the entry is served,
and so is the first sector of the FAT, if any is read. -/
structure FatCaches.Ready (vol : FatVolume) (dir : FatFile) (m i : ℕ) (s : FatCaches) : Prop where
  dirent : i ≤ m → s.dirent.Serves vol (vol.sectorOf dir (32 * i))
  fat : vol.clusterBytes ≤ 32 * m → s.fat.Serves vol (vol.fatSector (dir.cluster.setWidth 16))

variable {vol : FatVolume} {s s' t : FatCaches} {cluster cluster' : BitVec 16}
  {offset offset' index : Word} {dir : FatFile} {i j m n pos fuel : ℕ}

/-! ## Entries that the driver finds -/

theorem toNat_getClusterSector_zero : (vol.getClusterSector 0).toNat = vol.rootStart := by
  rw [FatVolume.getClusterSector, if_pos rfl, toNat_firstSector]
  rfl

theorem FatVolume.Listable.sectorOf_eq (hlist : vol.Listable dir m) (hends : vol.Ends dir m)
    (hj : j ≤ m) : (vol.sectorOf dir (32 * j)).toNat = vol.directorySector dir (32 * j) := by
  by_cases hroot : dir.cluster = 0
  · have hlt := hlist.root hroot
    have hsector := hlist.reads j hj
    have hfirst : dir.cluster.setWidth 16 = (0 : BitVec 16) := by
      rw [hroot]
      rfl
    rw [directorySector, if_pos hroot] at hsector ⊢
    rw [sectorOf, Nat.div_eq_of_lt (by omega), Nat.mod_eq_of_lt (by omega), Function.iterate_zero,
      id_eq, hfirst, BitVec.toNat_add, toNat_getClusterSector_zero, BitVec.toNat_ofNat]
    omega
  · have hle : 32 * j / vol.clusterBytes ≤ 32 * m / vol.clusterBytes :=
      Nat.div_le_div_right (Nat.mul_le_mul_left 32 hj)
    rw [directorySector, if_neg hroot]
    exact toNat_sectorOf hlist.valid fun k hk => hends.chain hroot k (hk.trans hle)

/-- The sectors of two entries that follow each other are kept apart. -/
theorem FatVolume.Listable.sectors_apart (hlist : vol.Listable dir m) (hends : vol.Ends dir m)
    (hj : j < m) (heq : vol.sectorOf dir (32 * (j + 1)) =
      ((vol.sectorOf dir (32 * j)).setWidth 16).setWidth 32) :
    vol.sectorOf dir (32 * (j + 1)) = vol.sectorOf dir (32 * j) := by
  rw [← BitVec.toNat_inj, BitVec.toNat_setWidth, BitVec.toNat_setWidth,
    hlist.sectorOf_eq hends hj, hlist.sectorOf_eq hends hj.le,
    Nat.mod_eq_of_lt (b := 2 ^ 32) (by omega)] at heq
  rw [← BitVec.toNat_inj, hlist.sectorOf_eq hends hj, hlist.sectorOf_eq hends hj.le, heq]
  exact Nat.mod_eq_of_lt (hlist.apart j hj heq)

/-- `hhere` is about the cluster from which the driver goes on, which need not be the first one. -/
theorem FatVolume.Listable.seekDirent_eq (hlist : vol.Listable dir m) (hends : vol.Ends dir m)
    (hready : s.Ready vol dir m j)
    (hhere : vol.clusterBytes ≤ 32 * m → s.fat.Serves vol (vol.fatSector cluster))
    (hat : vol.At dir cluster offset (32 * j)) (hj : j ≤ m) :
    ∃ cluster' offset' t, seekDirent vol cluster offset s = .ok (cluster', offset') t ∧
      t.direntAt offset' = vol.direntOf dir j ∧ t.Ready vol dir m (j + 1) ∧
      (vol.clusterBytes ≤ 32 * m → t.fat.Serves vol (vol.fatSector cluster')) ∧
      vol.At dir cluster' (offset' + 32) (32 * (j + 1)) := by
  have hoffset : offset.toNat ≤ 32 * m := by
    obtain ⟨k, hpos, -⟩ := hat
    omega
  obtain ⟨cluster', offset', cache, hcache, hfound, hfind⟩ :=
    hat.findCluster hlist.valid fun hlink => hhere (hlink.trans hoffset)
  have hserves := hready.dirent hj
  refine ⟨cluster', offset', { s with
    fat := cache, dirent := s.dirent.fetch vol (vol.sectorOf dir (32 * j)) }, ?_, ?_,
    ⟨fun hlt => hserves.next (hlist.sectors_apart hends hlt), fun hlinks => ?_⟩,
    fun hlinks => ?_, ?_⟩
  · rw [seekDirent, bind_apply_of_ok hfind]
    simp only [bind_apply_of_ok (clusterSector_returns hlist.valid.sectorBytes_ne),
      modify_bind_apply, hfound.sector_eq]
    rfl
  · have hstart : (offset' % 512).toNat = 32 * j % 512 := by
      rw [BitVec.toNat_umod, ← hfound.low]
      rfl
    have hsector := hlist.sectorOf_eq hends hj
    have hreads := hlist.reads j hj
    funext k
    rw [FatCaches.direntAt, hstart, hserves.fetch.2, readSector_eq (by omega), hsector]
    rfl
  · exact hcache.elim (fun h => h.2 ▸ hready.fat hlinks) fun h => h _
  · exact hcache.elim (fun h => h.1 ▸ h.2 ▸ hhere hlinks) fun h => h _
  · have hcount : (32 : Word).toNat ≤ 512 := by decide
    exact hfound.advance hlist.valid hcount

/-- The driver sees entries of the directory one after the other. -/
theorem FatVolume.Listable.sees (hlist : vol.Listable dir m) (hends : vol.Ends dir m)
    (hready : s.Ready vol dir m i)
    (hhere : vol.clusterBytes ≤ 32 * m → s.fat.Serves vol (vol.fatSector cluster))
    (hat : vol.At dir cluster offset (32 * i)) (hn : i + n ≤ m + 1) :
    ∃ cluster' offset' s', s'.Ready vol dir m (i + n) ∧
      vol.Sees cluster offset s ((List.range' i n).map (vol.direntOf dir)) cluster' offset' s' := by
  induction n generalizing i cluster offset s with
  | zero => exact ⟨cluster, offset, s, hready, .nil _ _ _⟩
  | succ n ih =>
    obtain ⟨c, o, t, hseek, hentry, hready', hhere', hat'⟩ :=
      hlist.seekDirent_eq hends hready hhere hat (by omega)
    obtain ⟨cluster', offset', s', hs', hrest⟩ := ih hready' hhere' hat' (by omega)
    refine ⟨cluster', offset', s', ?_, ?_⟩
    · rw [Nat.add_comm n, ← Nat.add_assoc]
      exact hs'
    · rw [List.range'_succ, List.map_cons, ← hentry]
      exact .cons hseek hrest

/-! ## Calls of `fat_enumerate` -/

/-- The loop stops at files and at the end of the directory. -/
def Dirent.Stops (e : Dirent) : Prop := e.kind = .file ∨ e.kind = .last

instance (e : Dirent) : Decidable e.Stops := inferInstanceAs (Decidable (_ ∨ _))

theorem FatVolume.Ends.next_stop (hends : vol.Ends dir m) (hi : i ≤ m) :
    ∃ n, i + n ≤ m ∧ (vol.direntOf dir (i + n)).Stops ∧
      ∀ k < n, ¬(vol.direntOf dir (i + k)).Stops := by
  have hlast : (vol.direntOf dir (i + (m - i))).Stops := by
    rw [Nat.add_sub_cancel' hi]
    exact Or.inr hends.last
  have hstop : ∃ n, (vol.direntOf dir (i + n)).Stops := ⟨m - i, hlast⟩
  have hle : Nat.find hstop ≤ m - i := Nat.find_le hlast
  exact ⟨Nat.find hstop, by omega, Nat.find_spec hstop, fun k hk => Nat.find_min hstop hk⟩

theorem Dirent.passed_of_not_stops {e : Dirent} (hstops : ¬e.Stops)
    (hfits : e.kind = .longName → e.Fits) : e.Passed := by
  cases hkind : e.kind with
  | last => exact absurd (Or.inr hkind) hstops
  | unused => exact Or.inl hkind
  | longName => exact Or.inr (Or.inr ⟨hkind, hfits hkind⟩)
  | label => exact Or.inr (Or.inl hkind)
  | file => exact absurd (Or.inl hkind) hstops

/-- The first cluster of the directory and an offset stand for the offset as a position. -/
theorem FatVolume.Listable.start (hlist : vol.Listable dir m) (hready : s.Ready vol dir m i)
    (hi : i ≤ m) : ∃ cluster offset t,
      findCluster vol (dir.cluster.setWidth 16) (BitVec.ofNat 32 (32 * i)) s =
        .ok (cluster, offset) t ∧
      t.Ready vol dir m i ∧
      (vol.clusterBytes ≤ 32 * m → t.fat.Serves vol (vol.fatSector cluster)) ∧
      vol.At dir cluster offset (32 * i) ∧ offset.toNat % 32 = 0 := by
  have hsmall := hlist.small
  have hindex : (BitVec.ofNat 32 (32 * i)).toNat = 32 * i := by
    rw [BitVec.toNat_ofNat, Nat.mod_eq_of_lt (by omega)]
  have hfirst : vol.At dir (dir.cluster.setWidth 16) (BitVec.ofNat 32 (32 * i)) (32 * i) :=
    ⟨0, by rw [Nat.zero_mul, Nat.add_zero, hindex], rfl⟩
  obtain ⟨cluster, offset, cache, hcache, hfound, hfind⟩ :=
    hfirst.findCluster hlist.valid fun hlink => hready.fat (by omega)
  refine ⟨cluster, offset, _, hfind, ⟨hready.dirent, fun hlinks => ?_⟩, fun hlinks => ?_,
    ⟨32 * i / vol.clusterBytes, ?_, hfound.cluster⟩, ?_⟩
  · exact hcache.elim (fun h => h.2 ▸ hready.fat hlinks) fun h => h _
  · exact hcache.elim (fun h => h.1 ▸ h.2 ▸ hready.fat hlinks) fun h => h _
  · rw [hfound.offset, Nat.mod_add_div']
  · have hlow := hfound.low
    omega

theorem fatEnumerate_apply {parent : Option FatFile} {found : Option (Word × FatFile)}
    (hfind : findCluster vol ((parent.getD rootDirectory).cluster.setWidth 16) index s =
      .ok (cluster, offset) t)
    (hread : readDirentLoop vol fuel cluster offset 0 (fun _ => 0) t = .ok found s') :
    fatEnumerate vol fuel parent index s =
      .ok (found.map fun r => (index + r.1, r.2)) s' := by
  cases parent with
  | none =>
    have hfind : findCluster vol 0 index s = .ok (cluster, offset) t := hfind
    exact (bind_apply_of_ok hfind).trans (bind_apply_of_ok hread)
  | some file => exact (bind_apply_of_ok hfind).trans (bind_apply_of_ok hread)

section Calls

variable {parent : Option FatFile} (hdir : parent.getD rootDirectory = dir)
  (hlist : vol.Listable dir m) (hends : vol.Ends dir m) (hfuel : m < fuel)
include hdir hlist hends hfuel

/-- A call with the index of an entry comes to the next entry at which the loop stops. -/
theorem FatVolume.Listable.enumerate (hready : s.Ready vol dir m i) (hn : i + n ≤ m)
    (hpassed : ∀ k < n, ¬(vol.direntOf dir (i + k)).Stops) : ∃ s' longName,
      s'.Ready vol dir m (i + n + 1) ∧
      ((vol.direntOf dir (i + n)).kind = .last →
        fatEnumerate vol fuel parent (BitVec.ofNat 32 (32 * i)) s = .ok none s') ∧
      ((vol.direntOf dir (i + n)).kind = .file →
        fatEnumerate vol fuel parent (BitVec.ofNat 32 (32 * i)) s =
          .ok (some (BitVec.ofNat 32 (32 * (i + n + 1)),
            (vol.direntOf dir (i + n)).file longName)) s') := by
  obtain ⟨cluster, offset, t, hfind, ht, hhere, hat, halign⟩ :=
    hlist.start hready (Nat.le_of_add_right_le hn)
  rw [← hdir] at hfind
  have hn' : i + (n + 1) ≤ m + 1 := Nat.succ_le_succ hn
  obtain ⟨cluster', offset', s', hs', hsees⟩ := hlist.sees hends ht hhere hat hn'
  rw [List.range'_1_concat, List.map_append] at hsees
  have hpassed' : ∀ e ∈ (List.range' i n).map (vol.direntOf dir), e.Passed := by
    intro e he
    obtain ⟨j, hj, rfl⟩ := List.mem_map.mp he
    obtain ⟨hij, hjn⟩ := List.mem_range'_1.mp hj
    have hstops := hpassed (j - i) (by omega)
    rw [Nat.add_sub_cancel' hij] at hstops
    exact Dirent.passed_of_not_stops hstops (hlist.fits j (by omega))
  have hlength : ((List.range' i n).map (vol.direntOf dir)).length = n := by
    rw [List.length_map, List.length_range']
  have hfuel' : ((List.range' i n).map (vol.direntOf dir)).length < fuel := by omega
  refine ⟨s', ((List.range' i n).map (vol.direntOf dir)).foldl Dirent.gather fun _ => 0, hs',
    fun hlast => ?_, fun hfile => ?_⟩
  · exact fatEnumerate_apply hfind (readDirentLoop_last hsees halign hpassed' hfuel' hlast 0 _)
  · rw [fatEnumerate_apply hfind (readDirentLoop_file hsees halign hpassed' hfuel' hfile 0 _),
      hlength]
    have hindex : BitVec.ofNat 32 (32 * i) + ((0 : Word) + BitVec.ofNat 32 (32 * n) + 32) =
        BitVec.ofNat 32 (32 * (i + n + 1)) := by
      rw [show 32 * (i + n + 1) = 32 * i + (32 * n + 32) by omega, BitVec.ofNat_add,
        BitVec.ofNat_add]
      exact congrArg _ (congrArg (· + 32) (BitVec.zero_add _))
    rw [← hindex]
    rfl

/-- From an entry on, the calls return the files behind it. -/
theorem FatVolume.Listable.lists_from (hready : s.Ready vol dir m i) (hi : i ≤ m) :
    ∃ found s', vol.Lists fuel parent (BitVec.ofNat 32 (32 * i)) s found s' ∧
      List.Forall₂ (fun j r => r.1 = BitVec.ofNat 32 (32 * (j + 1)) ∧
          ∃ longName, r.2 = (vol.direntOf dir j).file longName)
        ((List.range' i (m - i)).filter fun j => (vol.direntOf dir j).kind = .file) found := by
  -- The induction is on what is left of the directory.
  induction hleft : m - i using Nat.strong_induction_on generalizing i s with
  | _ left ih =>
    obtain ⟨n, hn, hstop, hpassed⟩ := hends.next_stop hi
    obtain ⟨s', longName, hs', hlast, hfile⟩ :=
      hlist.enumerate hdir hends hfuel hready hn hpassed
    have hnone : (List.range' i n).filter (fun j => (vol.direntOf dir j).kind = .file) = [] := by
      refine List.filter_eq_nil_iff.mpr fun j hj => ?_
      obtain ⟨hij, hjn⟩ := List.mem_range'_1.mp hj
      have hstops := hpassed (j - i) (by omega)
      rw [Nat.add_sub_cancel' hij] at hstops
      exact fun hkind => hstops (Or.inl (of_decide_eq_true hkind))
    obtain hkind | hkind := hstop
    · have hlt : i + n < m := by
        refine Nat.lt_of_le_of_ne hn fun heq => ?_
        have hlast := hends.last
        rw [← heq, hkind] at hlast
        cases hlast
      obtain ⟨found, s'', ⟨next, t, hyields, hend⟩, hall⟩ :=
        ih (m - (i + n + 1)) (by omega) hs' hlt rfl
      refine ⟨_, s'', ⟨next, t, .cons (hfile hkind) hyields, hend⟩, ?_⟩
      have hsplit : List.range' i left =
          List.range' i n ++ (i + n) :: List.range' (i + n + 1) (m - (i + n + 1)) := by
        rw [← List.range'_succ, List.range'_append_1]
        congr 1
        omega
      rw [hsplit, List.filter_append, hnone, List.nil_append, List.filter_cons,
        if_pos (decide_eq_true hkind)]
      exact .cons ⟨rfl, longName, rfl⟩ hall
    · have heq : i + n = m := by
        by_contra hne
        exact hends.before (i + n) (by omega) hkind
      refine ⟨[], s', ⟨_, s, .nil _ _, hlast hkind⟩, ?_⟩
      have hall : left = n := by omega
      rw [hall, hnone]
      exact .nil

end Calls

/-- `fat_enumerate` returns the files of a directory in order, each once and with the index behind
it, and then -1. -/
theorem fatEnumerate_lists {parent : Option FatFile}
    (hlist : vol.Listable (parent.getD rootDirectory) m)
    (hends : vol.Ends (parent.getD rootDirectory) m) (hfuel : m < fuel)
    (hready : s.Ready vol (parent.getD rootDirectory) m 0) :
    ∃ found s', vol.Lists fuel parent 0 s found s' ∧
      List.Forall₂ (fun j r => r.1 = BitVec.ofNat 32 (32 * (j + 1)) ∧
          ∃ longName, r.2 = (vol.direntOf (parent.getD rootDirectory) j).file longName)
        ((List.range m).filter fun j =>
          (vol.direntOf (parent.getD rootDirectory) j).kind = .file) found := by
  have hfound := hlist.lists_from rfl hends hfuel hready (Nat.zero_le m)
  rwa [Nat.sub_zero, ← List.range_eq_range'] at hfound

/-- A root directory with one file. -/
theorem readme_listed :
    ∃ found s', readmeVolume.Lists 2 none 0 {} found s' ∧ found.map Prod.fst = [32] := by
  have hends : readmeVolume.Ends rootDirectory 1 :=
    { last := by decide, before := by decide, root := fun _ => by decide
      chain := fun h => absurd rfl h }
  have hlist : readmeVolume.Listable rootDirectory 1 :=
    { valid := ⟨rfl, by decide⟩, root := fun _ => by decide, reads := by decide
      apart := by decide, fits := by decide, small := by decide }
  have hready : ({} : FatCaches).Ready readmeVolume rootDirectory 1 0 :=
    ⟨fun _ h => absurd h (by decide), fun h => absurd h (by decide)⟩
  have hnone : (none : Option FatFile).getD rootDirectory = rootDirectory := rfl
  obtain ⟨found, s', hfound, hall⟩ := fatEnumerate_lists (hnone ▸ hlist) (hnone ▸ hends)
    (Nat.lt_succ_self 1) (hnone ▸ hready)
  have hfiles : (List.range 1).filter (fun j =>
      (readmeVolume.direntOf ((none : Option FatFile).getD rootDirectory) j).kind = .file) = [0] := by
    decide
  rw [hfiles] at hall
  obtain ⟨r, rest, ⟨hindex, -⟩, hrest, rfl⟩ := List.forall₂_cons_left_iff.mp hall
  obtain rfl := List.forall₂_nil_left_iff.mp hrest
  refine ⟨[r], s', hfound, ?_⟩
  rw [List.map_singleton, hindex]
  rfl

/-- A root directory of two clusters with a file in the second one. -/
def longRootVolume : FatVolume where
  device := 1
  disk := 0
  media := fun sector i =>
    if sector = 1 then [0xF8, 0xFF, 0xFF, 0xFF].getD i 0
    else if sector = 2 then fatUnused
    else if sector = 3 ∧ i = 0 then 0x41
    else 0
  bootRecord := { chainVolume.bootRecord with direntCount := 32 }

/-- The file is not listed. -/
theorem second_cluster_not_listed :
    longRootVolume.Ends rootDirectory 17 ∧ (longRootVolume.direntOf rootDirectory 16).kind = .file ∧
    ∃ s', fatEnumerate longRootVolume 18 none 0 {} = .ok none s' := by
  have hends : longRootVolume.Ends rootDirectory 17 :=
    { last := by decide, before := by decide +kernel, root := fun _ => by decide
      chain := fun h => absurd rfl h }
  have hvalue : (valueOf (fatEnumerate longRootVolume 18 none 0 {})).map Option.isNone =
      some true := by
    decide +kernel
  obtain ⟨found, hfound, hnone⟩ := Option.map_eq_some_iff.mp hvalue
  rw [Option.isNone_iff_eq_none.mp hnone] at hfound
  exact ⟨hends, by decide, _, eq_ok_of_valueOf hfound⟩

end Horizon
