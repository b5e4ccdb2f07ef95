import Horizon.Properties.ClusterChains

/-!
# Horizon — the entries of a directory (`read_dirent`)

`read_dirent` looks at one entry after the other, each in the sector that its position leads to, and
stops at the first file or at the end of the directory. A `Dirent` is the 32 bytes of an entry, with
what the driver takes from them as functions. `readDirentLoop_round` is one round of the loop in
these terms, and `FatVolume.Sees` says which entries the loop comes to see.
-/

namespace Horizon

open StateError

/-- The bytes of an entry of a directory. Only the first 32 are used. -/
abbrev Dirent := ℕ → Byte

inductive DirentKind where
  | last
  | unused
  | longName
  | label
  | file
  deriving DecidableEq

namespace Dirent

/-- What an entry is taken for. -/
def kind (e : Dirent) : DirentKind :=
  if e 0 = fatDirend then .last
  else if e 0 = fatUnused then .unused
  else if e 11 &&& 0x0F = 0x0F then .longName
  else if (e 11).getLsbD 3 then .label
  else .file

def directory (e : Dirent) : Bool := (e 11).getLsbD 4

/-- The place of a part of a long name, counted from 1. -/
def order (e : Dirent) : ℕ := (e 0 &&& 0x3F).toNat

/-- A part of a long name has its place inside of `long_filename`. -/
def Fits (e : Dirent) : Prop := 1 ≤ e.order ∧ e.order ≤ 19

instance (e : Dirent) : Decidable e.Fits := inferInstanceAs (Decidable (_ ∧ _))

/-- `long_filename` with the part of the name that is in an entry. -/
def extend (e : Dirent) (longName : Sector) : Sector := fun i =>
  if (e.order - 1) * 13 ≤ i ∧ i < e.order * 13 then
    (longNamePlaces.map e).getD (i - (e.order - 1) * 13) 0
  else longName i

def stem (e : Dirent) : List Byte := (((List.range 8).map e).takeWhile (· ≠ 0x20)).map toUpper

def suffix (e : Dirent) : List Byte := ((List.range 3).map fun i => e (8 + i)).map toUpper

def name (e : Dirent) (longName : Sector) : List Byte :=
  if longName 0 ≠ 0 then ((List.range 31).map longName).takeWhile (· ≠ 0)
  else if e.directory then e.stem
  else e.stem ++ 0x2E :: e.suffix

def file (e : Dirent) (longName : Sector) : FatFile where
  name := e.name longName
  type := if e.directory then 1 else 0
  cluster := (halfAt e 26).setWidth 32
  size := halfAt e 30 ++ halfAt e 28

end Dirent

/-- The entry at an offset, in the sector that has been read last. -/
def FatCaches.direntAt (s : FatCaches) (offset : Word) : Dirent := fun i =>
  s.dirent.buffer ((offset % 512).toNat + i)

variable {vol : FatVolume} {s s' t : FatCaches} {cluster cluster' : BitVec 16}
  {offset offset' totalOff : Word} {longName : Sector} {start i n fuel : ℕ}

/-! ## Fields of an entry -/

theorem direntByte_apply (h : start + i < 512) :
    direntByte start i s = .ok (s.dirent.buffer (start + i)) s := by
  rw [direntByte, bind_apply_of_ok (failIf_neg (Nat.not_le.mpr h)), get_bind_apply]
  rfl

theorem direntHalf_apply (h : start + (i + 1) < 512) :
    direntHalf start i s = .ok (halfAt (fun j => s.dirent.buffer (start + j)) i) s := by
  rw [direntHalf, bind_apply_of_ok (direntByte_apply (by omega)),
    bind_apply_of_ok (direntByte_apply h)]
  rfl

theorem longNamePlaces_lt : ∀ i ∈ longNamePlaces, i < 32 := by decide

theorem copyLongName_apply (longName : Sector) (h : start + 32 ≤ 512) {e : Dirent}
    (he : e = fun i => s.dirent.buffer (start + i)) :
    (e.Fits → copyLongName start longName s = .ok (e.extend longName) s) ∧
    (¬e.Fits → copyLongName start longName s = .error .overflow s) := by
  subst he
  rw [copyLongName, bind_apply_of_ok (direntByte_apply (by omega))]
  constructor
  · rintro ⟨hpos, hle⟩
    rw [Dirent.order] at hpos hle
    have hinside : ¬((s.dirent.buffer (start + 0) &&& 0x3F).toNat = 0 ∨
        256 < (s.dirent.buffer (start + 0) &&& 0x3F).toNat * 13) := by omega
    have hplaces : ∀ i ∈ longNamePlaces,
        direntByte start i s = .ok (s.dirent.buffer (start + i)) s := fun i hi =>
      direntByte_apply ((Nat.add_lt_add_left (longNamePlaces_lt i hi) start).trans_le h)
    rw [bind_apply_of_ok (failIf_neg hinside), bind_apply_of_ok (mapM_apply_of_ok hplaces)]
    rfl
  · intro hfits
    rw [Dirent.Fits, Dirent.order] at hfits
    have houtside : (s.dirent.buffer (start + 0) &&& 0x3F).toNat = 0 ∨
        256 < (s.dirent.buffer (start + 0) &&& 0x3F).toNat * 13 := by omega
    have hfail : failIf ((s.dirent.buffer (start + 0) &&& 0x3F).toNat = 0 ∨
        256 < (s.dirent.buffer (start + 0) &&& 0x3F).toNat * 13) UserFault.overflow s =
        .error .overflow s := by
      rw [failIf, if_pos houtside]
      rfl
    exact bind_apply_of_error hfail

theorem fileName_apply (longName : Sector) (h : start + 32 ≤ 512) {e : Dirent}
    (he : e = fun i => s.dirent.buffer (start + i)) :
    fileName start longName e.directory s = .ok (e.name longName) s := by
  subst he
  have hstem : ∀ i ∈ List.range 8,
      direntByte start i s = .ok (s.dirent.buffer (start + i)) s := by
    intro i hi
    have := List.mem_range.mp hi
    exact direntByte_apply (by omega)
  have hsuffix : ∀ i ∈ List.range 3,
      direntByte start (8 + i) s = .ok (s.dirent.buffer (start + (8 + i))) s := by
    intro i hi
    have := List.mem_range.mp hi
    exact direntByte_apply (by omega)
  rw [fileName, Dirent.name]
  split
  · rfl
  · rw [bind_apply_of_ok (mapM_apply_of_ok hstem)]
    split
    · rfl
    · rw [bind_apply_of_ok (mapM_apply_of_ok hsuffix)]
      rfl

theorem direntFile_apply (h : start + 32 ≤ 512) {e : Dirent}
    (he : e = fun i => s.dirent.buffer (start + i)) :
    direntFile start longName (e 11) s = .ok (e.file longName) s := by
  have hname := fileName_apply longName h he
  rw [Dirent.directory] at hname
  rw [direntFile, bind_apply_of_ok hname, bind_apply_of_ok (direntHalf_apply (by omega)),
    bind_apply_of_ok (direntHalf_apply (by omega)), bind_apply_of_ok (direntHalf_apply (by omega))]
  subst he
  rfl

/-! ## A round of the loop -/

/-- What the loop does with the entry that it has read. -/
def direntStep (vol : FatVolume) (fuel : ℕ) (cluster : BitVec 16) (offset totalOff : Word)
    (longName : Sector) (e : Dirent) : FatM (Option (Word × FatFile)) :=
  match e.kind with
  | .last => pure none
  | .longName =>
      if e.Fits then
        readDirentLoop vol fuel cluster (offset + 32) (totalOff + 32) (e.extend longName)
      else throw .overflow
  | .unused | .label =>
      readDirentLoop vol fuel cluster (offset + 32) (totalOff + 32) longName
  | .file => pure (some (totalOff + 32, e.file longName))

theorem readDirentLoop_round (hseek : seekDirent vol cluster offset s = .ok (cluster', offset') t)
    (h : (offset' % 512).toNat + 32 ≤ 512) :
    readDirentLoop vol (fuel + 1) cluster offset totalOff longName s =
      direntStep vol fuel cluster' offset' totalOff longName (t.direntAt offset') t := by
  generalize hstart : (offset' % 512).toNat = start at h
  have he : t.direntAt offset' = fun i => t.dirent.buffer (start + i) := by
    rw [← hstart]
    rfl
  generalize t.direntAt offset' = e at he
  have hfirst : direntByte start 0 t = .ok (e 0) t := by
    rw [direntByte_apply (by omega), he]
  have hattributes : direntByte start 11 t = .ok (e 11) t := by
    rw [direntByte_apply (by omega), he]
  rw [readDirentLoop, bind_apply_of_ok hseek]
  simp only [hstart, bind_apply_of_ok hfirst]
  rw [direntStep, Dirent.kind]
  by_cases hlast : e 0 = fatDirend
  · rw [if_pos hlast, if_pos hlast]
  by_cases hunused : e 0 = fatUnused
  · rw [if_neg hlast, if_neg hlast, if_pos hunused, if_pos hunused]
  rw [if_neg hlast, if_neg hlast, if_neg hunused, if_neg hunused, bind_apply_of_ok hattributes]
  by_cases hlong : e 11 &&& 0x0F = 0x0F
  · rw [if_pos hlong, if_pos hlong]
    obtain ⟨hfits, hout⟩ := copyLongName_apply longName h he
    by_cases hfit : e.Fits
    · rw [bind_apply_of_ok (hfits hfit)]
      simp only [if_pos hfit]
    · rw [bind_apply_of_error (hout hfit)]
      simp only [if_neg hfit]
      rfl
  rw [if_neg hlong, if_neg hlong]
  by_cases hlabel : (e 11).getLsbD 3
  · rw [if_pos hlabel, if_pos hlabel]
  · rw [if_neg hlabel, if_neg hlabel, bind_apply_of_ok (direntFile_apply h he)]

/-! ## Positions -/

theorem FatVolume.Walk.offset_mod {links}
    (h : vol.Walk cluster offset s links cluster' offset' s') :
    offset'.toNat % 32 = offset.toNat % 32 := by
  induction h with
  | stop => rfl
  | ended => rfl
  | @link _ offset _ _ _ _ _ _ _ hle _ _ _ ih =>
    have hle' := BitVec.le_def.mp hle
    rw [ih, BitVec.toNat_sub_of_le hle]
    rw [toNat_clusterSize, FatVolume.clusterBytes] at hle' ⊢
    omega

theorem seekDirent_eq_ok (hseek : seekDirent vol cluster offset s = .ok (cluster', offset') t) :
    ∃ s₁, findCluster vol cluster offset s = .ok (cluster', offset') s₁ ∧
      clusterSector vol cluster' s₁ = .ok (vol.getClusterSector cluster') s₁ ∧
      t = { s₁ with
        dirent := s₁.dirent.fetch vol (vol.getClusterSector cluster' + offset' / 512) } := by
  obtain ⟨⟨c, o⟩, s₁, hfind, hrest⟩ := bind_eq_ok.mp hseek
  obtain ⟨sector, s₂, hsector, hrest⟩ := bind_eq_ok.mp hrest
  obtain ⟨_, _, hfail, hvalue⟩ := bind_eq_ok.mp hsector
  obtain ⟨-, rfl⟩ := failIf_eq_ok.mp hfail
  obtain ⟨rfl, rfl⟩ := pure_eq_ok.mp hvalue
  obtain ⟨_, _, hmodify, hret⟩ := bind_eq_ok.mp hrest
  obtain rfl := modify_eq_ok.mp hmodify
  obtain ⟨hpair, rfl⟩ := pure_eq_ok.mp hret
  obtain ⟨rfl, rfl⟩ := Prod.mk.inj hpair
  exact ⟨s₁, hfind, hsector, rfl⟩

theorem seekDirent_aligned (hseek : seekDirent vol cluster offset s = .ok (cluster', offset') t)
    (halign : offset.toNat % 32 = 0) :
    (offset' % 512).toNat + 32 ≤ 512 ∧ (offset' + 32).toNat % 32 = 0 := by
  obtain ⟨s₁, hfind, -⟩ := seekDirent_eq_ok hseek
  obtain ⟨links, hwalk⟩ := FatVolume.Walk.of_loop hfind
  have hmod := hwalk.offset_mod
  have h32 : (32 : Word).toNat = 32 := rfl
  have h512 : (512 : Word).toNat = 512 := rfl
  rw [BitVec.toNat_umod, BitVec.toNat_add, h32, h512]
  omega

/-! ## The entries that the loop sees -/

/-- Entries one after the other from a position on, with what reading them does to the caches. -/
inductive FatVolume.Sees (vol : FatVolume) : BitVec 16 → Word → FatCaches → List Dirent →
    BitVec 16 → Word → FatCaches → Prop
  | nil (cluster : BitVec 16) (offset : Word) (s : FatCaches) :
      Sees vol cluster offset s [] cluster offset s
  | cons {cluster cluster₁ cluster' : BitVec 16} {offset offset₁ offset' : Word}
      {s t s' : FatCaches} {es : List Dirent}
      (hseek : seekDirent vol cluster offset s = .ok (cluster₁, offset₁) t)
      (hrest : Sees vol cluster₁ (offset₁ + 32) t es cluster' offset' s') :
      Sees vol cluster offset s (t.direntAt offset₁ :: es) cluster' offset' s'

/-- The loop goes on behind an entry. -/
def Dirent.Passed (e : Dirent) : Prop :=
  e.kind = .unused ∨ e.kind = .label ∨ e.kind = .longName ∧ e.Fits

/-- `long_filename` behind an entry. -/
def Dirent.gather (longName : Sector) (e : Dirent) : Sector :=
  if e.kind = .longName then e.extend longName else longName

theorem direntStep_passed {e : Dirent} (he : e.Passed) :
    direntStep vol fuel cluster offset totalOff longName e =
      readDirentLoop vol fuel cluster (offset + 32) (totalOff + 32) (e.gather longName) := by
  rw [direntStep, Dirent.gather]
  obtain he | he | ⟨he, hfits⟩ := he
  · simp only [he]
    rfl
  · simp only [he]
    rfl
  · simp only [he, if_pos hfits]
    rfl

theorem readDirentLoop_passes {es : List Dirent}
    (hsees : vol.Sees cluster offset s es cluster' offset' s') (halign : offset.toNat % 32 = 0)
    (hpassed : ∀ e ∈ es, e.Passed) : offset'.toNat % 32 = 0 ∧ ∀ totalOff longName,
      readDirentLoop vol (es.length + fuel) cluster offset totalOff longName s =
        readDirentLoop vol fuel cluster' offset' (totalOff + BitVec.ofNat 32 (32 * es.length))
          (es.foldl Dirent.gather longName) s' := by
  induction hsees with
  | nil =>
    refine ⟨halign, fun totalOff longName => ?_⟩
    rw [List.length_nil, Nat.zero_add, Nat.mul_zero, List.foldl_nil]
    exact congrArg (readDirentLoop vol fuel _ _ · longName _) (BitVec.add_zero totalOff).symm
  | @cons _ _ _ _ _ _ _ _ _ es hseek _ ih =>
    obtain ⟨hstart, halign'⟩ := seekDirent_aligned hseek halign
    obtain ⟨hend, hloop⟩ := ih halign' fun e he => hpassed e (List.mem_cons_of_mem _ he)
    refine ⟨hend, fun totalOff longName => ?_⟩
    have hfuel : (es.length + 1) + fuel = (es.length + fuel) + 1 := Nat.add_right_comm ..
    have hoff : totalOff + 32 + BitVec.ofNat 32 (32 * es.length) =
        totalOff + BitVec.ofNat 32 (32 * (es.length + 1)) := by
      rw [Nat.mul_succ, Nat.add_comm (32 * es.length), BitVec.ofNat_add, BitVec.add_assoc]
      rfl
    rw [List.length_cons, hfuel, readDirentLoop_round hseek hstart,
      direntStep_passed (hpassed _ List.mem_cons_self), hloop, hoff, List.foldl_cons]

theorem FatVolume.Sees.split {es es₂ : List Dirent}
    (h : vol.Sees cluster offset s (es ++ es₂) cluster' offset' s') :
    ∃ c o t, vol.Sees cluster offset s es c o t ∧ vol.Sees c o t es₂ cluster' offset' s' := by
  induction es generalizing cluster offset s with
  | nil => exact ⟨cluster, offset, s, .nil cluster offset s, h⟩
  | cons e es ih =>
    cases h with
    | cons hseek hrest =>
      obtain ⟨c, o, t, hes, hes₂⟩ := ih hrest
      exact ⟨c, o, t, .cons hseek hes, hes₂⟩

theorem FatVolume.Sees.single {e : Dirent} (h : vol.Sees cluster offset s [e] cluster' offset' s') :
    ∃ o, seekDirent vol cluster offset s = .ok (cluster', o) s' ∧ e = s'.direntAt o := by
  cases h with
  | @cons _ _ _ _ o _ _ _ _ _ hseek hrest =>
    cases hrest
    exact ⟨o, hseek, rfl⟩

section Reached

variable {es : List Dirent} {e : Dirent}
  (hsees : vol.Sees cluster offset s (es ++ [e]) cluster' offset' s')
  (halign : offset.toNat % 32 = 0) (hpassed : ∀ e ∈ es, e.Passed) (hfuel : es.length < fuel)
include hsees halign hpassed hfuel

theorem readDirentLoop_reaches (totalOff : Word) (longName : Sector) :
    ∃ fuel' c o, readDirentLoop vol fuel cluster offset totalOff longName s =
      direntStep vol fuel' c o (totalOff + BitVec.ofNat 32 (32 * es.length))
        (es.foldl Dirent.gather longName) e s' := by
  obtain ⟨fuel, rfl⟩ := Nat.exists_eq_add_of_lt hfuel
  obtain ⟨c, o, t, hes, hlast⟩ := hsees.split
  obtain ⟨o', hseek, rfl⟩ := hlast.single
  obtain ⟨halign', hloop⟩ := readDirentLoop_passes hes halign hpassed
  refine ⟨fuel, cluster', o', ?_⟩
  rw [Nat.add_assoc, hloop, readDirentLoop_round hseek (seekDirent_aligned hseek halign').1]

theorem readDirentLoop_file (hkind : e.kind = .file) (totalOff : Word) (longName : Sector) :
    readDirentLoop vol fuel cluster offset totalOff longName s =
      .ok (some (totalOff + BitVec.ofNat 32 (32 * es.length) + 32,
        e.file (es.foldl Dirent.gather longName))) s' := by
  obtain ⟨fuel', c, o, hloop⟩ :=
    readDirentLoop_reaches hsees halign hpassed hfuel totalOff longName
  rw [hloop, direntStep]
  simp only [hkind]
  rfl

theorem readDirentLoop_last (hkind : e.kind = .last) (totalOff : Word) (longName : Sector) :
    readDirentLoop vol fuel cluster offset totalOff longName s = .ok none s' := by
  obtain ⟨fuel', c, o, hloop⟩ :=
    readDirentLoop_reaches hsees halign hpassed hfuel totalOff longName
  rw [hloop, direntStep]
  simp only [hkind]
  rfl

end Reached

end Horizon
