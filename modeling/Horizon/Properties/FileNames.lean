import Horizon.Properties.Dirents

/-!
# Horizon — the names of files (`read_dirent`)

A long name comes in parts of 13 characters, each with its place. The place is taken from the entry
as it is, and only the places 1 to 19 are inside of `long_filename`.

A short name is to come out in lower case, without the spaces that pad it. The driver sets bit 5 of
each character, which is right for letters and for characters that have it already, and it always
appends a dot and all three characters of the extension for a file that is not a directory.
-/

namespace Horizon

open StateError

variable {vol : FatVolume} {s s' : FatCaches} {cluster cluster' : BitVec 16}
  {offset offset' totalOff : Word} {longName : Sector} {fuel : ℕ} {e : Dirent} {es : List Dirent}

/-! ## Long names -/

/-- All that `read_dirent` writes is inside of `long_filename` and of the name of the file with its
terminator. -/
def FatVolume.WritesInside (vol : FatVolume) (cluster : BitVec 16) (offset totalOff : Word)
    (longName : Sector) (s : FatCaches) : Prop :=
  ∀ fuel, Post (fun found _ => ∀ r ∈ found, r.2.name.length < 32)
    (fun fault _ => fault ≠ UserFault.overflow)
    (readDirentLoop vol fuel cluster offset totalOff longName s)

/-- The parts of long names up to the first file or the end of the directory have places inside of
`long_filename`. -/
def FatVolume.PartsFit (vol : FatVolume) (cluster : BitVec 16) (offset : Word)
    (s : FatCaches) : Prop :=
  ∀ es e cluster' offset' s', vol.Sees cluster offset s (es ++ [e]) cluster' offset' s' →
    (∀ e ∈ es, e.kind ≠ .last ∧ e.kind ≠ .file) → e.kind = .longName → e.Fits

theorem Dirent.name_length (e : Dirent) (longName : Sector) : (e.name longName).length < 32 := by
  have hstem : e.stem.length ≤ 8 := by
    rw [stem, List.length_map]
    exact (List.takeWhile_prefix _).length_le.trans (by rw [List.length_map, List.length_range])
  rw [name]
  split
  · refine Nat.lt_succ_of_le ((List.takeWhile_prefix _).length_le.trans ?_)
    rw [List.length_map, List.length_range]
  · split
    · omega
    · rw [List.length_append, List.length_cons, suffix, List.length_map, List.length_map,
        List.length_range]
      omega

theorem seekDirent_never_overflow (cluster : BitVec 16) (offset : Word) :
    Never UserFault.overflow (seekDirent vol cluster offset) := by
  have hloop (fuel : ℕ) (cluster : BitVec 16) (offset : Word) :
      Never UserFault.overflow (findClusterLoop vol fuel cluster offset) := by
    induction fuel generalizing cluster offset with
    | zero => exact Never.throw (by decide)
    | succ fuel ih =>
      rw [findClusterLoop]
      refine Never.ite (Never.bind ?_ fun next => Never.ite (Never.pure _) (ih _ _))
        (Never.pure _)
      exact Never.bind (Never.modify _) fun _ => Never.bind Never.get fun _ => Never.pure _
  refine Never.bind (hloop _ _ _) fun found => Never.bind ?_ fun sector =>
    Never.bind (Never.modify _) fun _ => Never.pure _
  exact Never.bind (Never.failIf (by decide) _) fun _ => Never.pure _

/-- What is true of the loop from an entry on is true of it behind the entry. -/
theorem FatVolume.WritesInside.behind {cluster₁ offset₁ t}
    (h : vol.WritesInside cluster offset totalOff longName s)
    (hseek : seekDirent vol cluster offset s = .ok (cluster₁, offset₁) t)
    (halign : offset.toNat % 32 = 0) (hpassed : (t.direntAt offset₁).Passed) :
    vol.WritesInside cluster₁ (offset₁ + 32) (totalOff + 32)
      ((t.direntAt offset₁).gather longName) t := by
  intro fuel
  have hround := h (fuel + 1)
  rwa [readDirentLoop_round hseek (seekDirent_aligned hseek halign).1,
    direntStep_passed hpassed] at hround

theorem FatVolume.WritesInside.fits {cluster₁ offset₁ t}
    (h : vol.WritesInside cluster offset totalOff longName s)
    (hseek : seekDirent vol cluster offset s = .ok (cluster₁, offset₁) t)
    (halign : offset.toNat % 32 = 0) (hkind : (t.direntAt offset₁).kind = .longName) :
    (t.direntAt offset₁).Fits := by
  by_contra hfits
  have hround := h 1
  rw [readDirentLoop_round hseek (seekDirent_aligned hseek halign).1, direntStep] at hround
  simp only [hkind, if_neg hfits] at hround
  exact hround rfl

theorem FatVolume.WritesInside.partsFit (h : vol.WritesInside cluster offset totalOff longName s)
    (halign : offset.toNat % 32 = 0) : vol.PartsFit cluster offset s := by
  intro es
  induction es generalizing cluster offset totalOff longName s with
  | nil =>
    intro e cluster' offset' s' hsees _ hkind
    obtain ⟨o, hseek, rfl⟩ := hsees.single
    exact h.fits hseek halign hkind
  | cons e₁ es ih =>
    intro e cluster' offset' s' hsees hskipped hkind
    cases hsees with
    | cons hseek hrest =>
      refine ih (h.behind hseek halign ?_) (seekDirent_aligned hseek halign).2 e _ _ _ hrest
        (fun e he => hskipped e (List.mem_cons_of_mem _ he)) hkind
      obtain ⟨hlast, hfile⟩ := hskipped _ List.mem_cons_self
      cases hk : (FatCaches.direntAt _ _).kind with
      | last => exact absurd hk hlast
      | unused => exact Or.inl hk
      | longName => exact Or.inr (Or.inr ⟨hk, h.fits hseek halign hk⟩)
      | label => exact Or.inr (Or.inl hk)
      | file => exact absurd hk hfile

theorem FatVolume.PartsFit.behind {cluster₁ offset₁ t} (h : vol.PartsFit cluster offset s)
    (hseek : seekDirent vol cluster offset s = .ok (cluster₁, offset₁) t)
    (hkind : (t.direntAt offset₁).kind ≠ .last ∧ (t.direntAt offset₁).kind ≠ .file) :
    vol.PartsFit cluster₁ (offset₁ + 32) t := by
  intro es e cluster' offset' s' hsees hskipped hlong
  refine h (t.direntAt offset₁ :: es) e cluster' offset' s' (.cons hseek hsees) ?_ hlong
  intro e' he'
  obtain rfl | he' := List.mem_cons.mp he'
  · exact hkind
  · exact hskipped e' he'

theorem FatVolume.PartsFit.writesInside (h : vol.PartsFit cluster offset s)
    (halign : offset.toNat % 32 = 0) : vol.WritesInside cluster offset totalOff longName s := by
  intro fuel
  induction fuel generalizing cluster offset totalOff longName s with
  | zero => exact UserFault.noConfusion
  | succ fuel ih =>
    cases hseek : seekDirent vol cluster offset s with
    | error fault t =>
      rw [readDirentLoop, bind_apply_of_error hseek]
      rintro rfl
      exact seekDirent_never_overflow cluster offset s t hseek
    | ok found t =>
      obtain ⟨cluster₁, offset₁⟩ := found
      obtain ⟨hstart, halign'⟩ := seekDirent_aligned hseek halign
      rw [readDirentLoop_round hseek hstart]
      have hpass (hpassed : (t.direntAt offset₁).Passed)
          (hkind : (t.direntAt offset₁).kind ≠ .last ∧ (t.direntAt offset₁).kind ≠ .file) :
          Post (fun found _ => ∀ r ∈ found, r.2.name.length < 32)
            (fun fault _ => fault ≠ UserFault.overflow)
            (direntStep vol fuel cluster₁ offset₁ totalOff longName (t.direntAt offset₁) t) := by
        rw [direntStep_passed hpassed]
        exact ih (h.behind hseek hkind) halign'
      cases hk : (t.direntAt offset₁).kind with
      | last =>
        rw [direntStep]
        simp only [hk]
        rintro r ⟨⟩
      | unused => exact hpass (Or.inl hk) (by simp [hk])
      | label => exact hpass (Or.inr (Or.inl hk)) (by simp [hk])
      | longName =>
        have hfits := h [] _ _ _ _ (.cons hseek (.nil _ _ _)) (List.forall_mem_nil _) hk
        exact hpass (Or.inr (Or.inr ⟨hk, hfits⟩)) (by simp [hk])
      | file =>
        rw [direntStep]
        simp only [hk]
        rintro r ⟨⟩
        exact Dirent.name_length _ _

/-- `read_dirent` writes only where it may exactly if all parts of long names that it comes to have
places inside of `long_filename`. -/
theorem writesInside_iff (cluster : BitVec 16) {offset : Word} (halign : offset.toNat % 32 = 0)
    (s : FatCaches) :
    vol.WritesInside cluster offset 0 (fun _ => 0) s ↔ vol.PartsFit cluster offset s :=
  ⟨fun h => h.partsFit halign, fun h => h.writesInside halign⟩

/-- A volume with the given bytes in its root directory. -/
def rootVolume (bytes : List Byte) : FatVolume :=
  { chainVolume with media := fun sector i => if sector = 2 then bytes.getD i 0 else 0 }

/-- The part of a long name with the given place. -/
def longPart (order : Byte) : List Byte :=
  order :: 0x61 :: List.replicate 9 0 ++ 0x0F :: List.replicate 20 0

/-- A long name of one part and its file. -/
theorem single_part_inside :
    (rootVolume (longPart 0x41 ++ List.replicate 32 0x41)).WritesInside 0 0 0 (fun _ => 0) {} := by
  refine (writesInside_iff 0 (by decide) {}).mpr ?_
  intro es e cluster' offset' s' hsees hskipped hkind
  cases es with
  | nil =>
    obtain ⟨o, hseek, rfl⟩ := hsees.single
    obtain ⟨hpair, rfl⟩ := EStateM.Result.ok.inj hseek
    obtain rfl := (Prod.mk.inj hpair).2
    decide
  | cons e₁ es =>
    cases hsees with
    | cons hseek hrest =>
      obtain ⟨hpair, rfl⟩ := EStateM.Result.ok.inj hseek
      obtain ⟨rfl, rfl⟩ := Prod.mk.inj hpair
      -- The second entry is the file.
      cases es with
      | nil =>
        obtain ⟨o, hseek, rfl⟩ := hrest.single
        obtain ⟨hpair, rfl⟩ := EStateM.Result.ok.inj hseek
        obtain rfl := (Prod.mk.inj hpair).2
        exact absurd hkind (by decide)
      | cons e₂ es =>
        cases hrest with
        | cons hseek hrest =>
          obtain ⟨hpair, rfl⟩ := EStateM.Result.ok.inj hseek
          obtain ⟨rfl, rfl⟩ := Prod.mk.inj hpair
          have hfile := (hskipped _ (List.mem_cons_of_mem _ List.mem_cons_self)).2
          exact absurd (by decide) hfile

/-- The 20th part of a long name ends behind `long_filename`. -/
theorem twentieth_part_outside :
    ¬(rootVolume (longPart 0x14)).WritesInside 0 0 0 (fun _ => 0) {} :=
  fun h => h 1 rfl

/-! ## Short names -/

def IsLetter (c : Byte) : Prop := 0x41 ≤ c ∧ c ≤ 0x5A

instance (c : Byte) : Decidable (IsLetter c) := inferInstanceAs (Decidable (_ ∧ _))

/-- The characters of a short name: capital letters, digits, some others and all beyond ASCII. -/
def ShortNameChar (c : Byte) : Prop :=
  IsLetter c ∨ (0x30 ≤ c ∧ c ≤ 0x39) ∨ 0x80 ≤ c ∨
    c ∈ [0x21, 0x23, 0x24, 0x25, 0x26, 0x27, 0x28, 0x29, 0x2D, 0x40, 0x5E, 0x5F, 0x60, 0x7B, 0x7D,
      (0x7E : Byte)]

instance (c : Byte) : Decidable (ShortNameChar c) := inferInstanceAs (Decidable (_ ∨ _))

def lowerCase (c : Byte) : Byte := if IsLetter c then c + 0x20 else c

structure ShortName where
  base : List Byte
  extension : List Byte
  base_ne_nil : base ≠ []
  base_length : base.length ≤ 8
  extension_length : extension.length ≤ 3
  base_chars : ∀ c ∈ base, ShortNameChar c
  extension_chars : ∀ c ∈ extension, ShortNameChar c

namespace ShortName

/-- The name is in an entry, with spaces behind both of its parts. -/
def InEntry (n : ShortName) (e : Dirent) : Prop :=
  (List.range 8).map e = n.base ++ List.replicate (8 - n.base.length) 0x20 ∧
    (List.range 3).map (fun i => e (8 + i)) =
      n.extension ++ List.replicate (3 - n.extension.length) 0x20

/-- The name as it is to be shown. -/
def decoded (n : ShortName) (directory : Bool) : List Byte :=
  n.base.map lowerCase ++
    if directory ∨ n.extension = [] then [] else 0x2E :: n.extension.map lowerCase

end ShortName

theorem shortNameChar_ne_space : ∀ c, ShortNameChar c → c ≠ 0x20 := by decide +kernel

/-- `_toupper` makes a capital letter a small one, and leaves other characters with bit 5 alone. -/
theorem toUpper_eq_lowerCase : ∀ c, toUpper c = lowerCase c ↔ IsLetter c ∨ c.getLsbD 5 := by
  decide +kernel

theorem map_toUpper_iff {l : List Byte} :
    l.map toUpper = l.map lowerCase ↔ ∀ c ∈ l, IsLetter c ∨ c.getLsbD 5 := by
  rw [List.map_inj_left]
  exact forall₂_congr fun c _ => toUpper_eq_lowerCase c

variable {n : ShortName}

theorem ShortName.InEntry.stem_eq (h : n.InEntry e) : e.stem = n.base.map toUpper := by
  have hchars : ∀ c ∈ n.base, (decide (c ≠ 0x20)) = true := fun c hc =>
    decide_eq_true (shortNameChar_ne_space c (n.base_chars c hc))
  rw [Dirent.stem, h.1, List.takeWhile_append_of_pos hchars, List.takeWhile_replicate]
  simp

theorem ShortName.InEntry.suffix_eq (h : n.InEntry e) :
    e.suffix = n.extension.map toUpper ++ List.replicate (3 - n.extension.length) 0x20 := by
  rw [Dirent.suffix, h.2, List.map_append, List.map_replicate]
  rfl

/-- The name of a file is right exactly if no space is taken for a character of it and all of its
characters are letters or have bit 5. -/
theorem ShortName.InEntry.name_iff (h : n.InEntry e) (hlong : longName 0 = 0) :
    e.name longName = n.decoded e.directory ↔
      (e.directory ∨ n.extension.length = 3) ∧
        ∀ c ∈ n.base ++ (if e.directory then [] else n.extension), IsLetter c ∨ c.getLsbD 5 := by
  have hlength := n.extension_length
  rw [Dirent.name, if_neg (not_not.mpr hlong), decoded, h.stem_eq]
  cases e.directory with
  | true =>
    simp only [if_true, true_or, true_and, List.append_nil]
    exact map_toUpper_iff
  | false =>
    simp only [Bool.false_eq_true, if_false, false_or]
    by_cases hthree : n.extension.length = 3
    · have hne : n.extension ≠ [] := List.ne_nil_of_length_pos (by omega)
      rw [if_neg hne, and_iff_right hthree, List.forall_mem_append, ← map_toUpper_iff,
        ← map_toUpper_iff, h.suffix_eq, hthree, Nat.sub_self, List.replicate_zero,
        List.append_nil]
      constructor
      · intro heq
        obtain ⟨hbase, hrest⟩ := List.append_inj heq (by rw [List.length_map, List.length_map])
        exact ⟨hbase, (List.cons.inj hrest).2⟩
      · rintro ⟨hbase, hextension⟩
        rw [hbase, hextension]
    · refine iff_of_false ?_ fun h => hthree h.1
      -- The driver makes the name too long.
      intro heq
      have hlen := congrArg List.length heq
      rw [h.suffix_eq] at hlen
      split at hlen <;>
        simp only [List.length_append, List.length_cons, List.length_map, List.length_replicate,
          List.length_nil] at hlen <;> omega

theorem foldl_gather_of_skipped (hskipped : ∀ e ∈ es, e.kind = .unused ∨ e.kind = .label) :
    es.foldl Dirent.gather longName = longName := by
  induction es with
  | nil => rfl
  | cons e es ih =>
    have hgather : e.gather longName = longName := by
      refine if_neg fun hlong => ?_
      obtain he | he := hskipped e List.mem_cons_self <;> rw [hlong] at he <;> cases he
    rw [List.foldl_cons, hgather]
    exact ih fun e he => hskipped e (List.mem_cons_of_mem _ he)

/-- `read_dirent` returns the name of an entry in lower case exactly if the entry is one of a
directory or has three characters in its extension, and all characters of the name are letters or
have bit 5. -/
theorem readDirent_shortName_iff
    (hsees : vol.Sees cluster offset s (es ++ [e]) cluster' offset' s')
    (halign : offset.toNat % 32 = 0)
    (hskipped : ∀ e ∈ es, e.kind = .unused ∨ e.kind = .label) (hkind : e.kind = .file)
    (hname : n.InEntry e) (hfuel : es.length < fuel) :
    (∃ next file t, readDirentLoop vol fuel cluster offset 0 (fun _ => 0) s =
        .ok (some (next, file)) t ∧ file.name = n.decoded e.directory) ↔
      (e.directory ∨ n.extension.length = 3) ∧
        ∀ c ∈ n.base ++ (if e.directory then [] else n.extension), IsLetter c ∨ c.getLsbD 5 := by
  have hpassed : ∀ e ∈ es, e.Passed := fun e he => (hskipped e he).imp_right Or.inl
  have hread := readDirentLoop_file hsees halign hpassed hfuel hkind 0 fun _ => 0
  rw [foldl_gather_of_skipped hskipped] at hread
  have hright : e.name (fun _ => 0) = n.decoded e.directory ↔ _ := hname.name_iff rfl
  rw [← hright]
  constructor
  · rintro ⟨next, file, t, hread', hfile⟩
    have hfound := (EStateM.Result.ok.inj (hread.symm.trans hread')).1
    obtain rfl : e.file (fun _ => 0) = file := congrArg Prod.snd (Option.some.inj hfound)
    exact hfile
  · exact fun hright => ⟨_, _, _, hread, hright⟩

/-- An entry of a file or, with attributes 0x10, of a directory. -/
def shortEntry (name : List Byte) (attributes : Byte) : List Byte :=
  name ++ attributes :: List.replicate 20 0

/-- `README.TXT`. -/
def readme : ShortName where
  base := [0x52, 0x45, 0x41, 0x44, 0x4D, 0x45]
  extension := [0x54, 0x58, 0x54]
  base_ne_nil := by decide
  base_length := by decide
  extension_length := by decide
  base_chars := by decide
  extension_chars := by decide

def readmeVolume : FatVolume :=
  rootVolume (shortEntry [0x52, 0x45, 0x41, 0x44, 0x4D, 0x45, 0x20, 0x20, 0x54, 0x58, 0x54] 0)

/-- The file `readme.txt`. -/
theorem readme_decoded :
    ∃ next file t, readDirentLoop readmeVolume 1 0 0 0 (fun _ => 0) {} =
        .ok (some (next, file)) t ∧
      file.name = [0x72, 0x65, 0x61, 0x64, 0x6D, 0x65, 0x2E, 0x74, 0x78, 0x74] := by
  let t := final (seekDirent readmeVolume 0 0 {})
  have hsees : readmeVolume.Sees 0 0 {} ([] ++ [t.direntAt 0]) 0 (0 + 32) t :=
    .cons (show seekDirent readmeVolume 0 0 {} = .ok (0, 0) t from rfl) (.nil _ _ _)
  have hname : readme.InEntry (t.direntAt 0) := by
    constructor <;> decide +kernel
  have hskipped : ∀ e ∈ ([] : List Dirent), e.kind = .unused ∨ e.kind = .label := nofun
  have hdecoded : readme.decoded (t.direntAt 0).directory =
      [0x72, 0x65, 0x61, 0x64, 0x6D, 0x65, 0x2E, 0x74, 0x78, 0x74] := by decide
  rw [← hdecoded]
  exact (readDirent_shortName_iff hsees (by decide) hskipped (by decide) hname
    Nat.zero_lt_one).mpr (by decide)

/-- `A       C  ` becomes `a.c` with two spaces, and the directory `A_` a name with the control
character 0x7F. -/
theorem short_names_misread :
    (∃ next file t, readDirentLoop (rootVolume (shortEntry
        [0x41, 0x20, 0x20, 0x20, 0x20, 0x20, 0x20, 0x20, 0x43, 0x20, 0x20] 0)) 1 0 0 0
        (fun _ => 0) {} = .ok (some (next, file)) t ∧
      file.name = [0x61, 0x2E, 0x63, 0x20, 0x20]) ∧
    ∃ next file t, readDirentLoop (rootVolume (shortEntry
        [0x41, 0x5F, 0x20, 0x20, 0x20, 0x20, 0x20, 0x20, 0x20, 0x20, 0x20] 0x10)) 1 0 0 0
        (fun _ => 0) {} = .ok (some (next, file)) t ∧
      file.name = [0x61, 0x7F] :=
  ⟨⟨_, _, _, rfl, by decide⟩, _, _, _, rfl, by decide⟩

end Horizon
