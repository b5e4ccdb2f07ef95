import Horizon.System.Elf
import Horizon.Memory.Ranges
import Horizon.Properties.MemoryMap

/-!
# Horizon — the program headers of a module

`elf_module_parse` compares its index with the `pheader_count` behind `fheader`, and `fheader` is a
pointer into the window that the loop moves to one program header after the other. The number that
ends the loop after `i` rounds is the one at the file header's place in the page of header `i - 1`
(`shownCount`), and the count that was clamped to the size of the table is not used. So the table is
right exactly if the first number that fits comes early enough for the table and late enough for
the headers (`Parses`); headers that share the page of the file header are fine.
-/

namespace Horizon

open StateError

theorem addrAlign_add_mod (addr : Word) : addrAlign addr archPgsize + addr % archPgsize = addr := by
  have hpage : archPgsize.toNat = 4096 := rfl
  have hlt := addr.isLt
  apply BitVec.eq_of_toNat_eq
  rw [BitVec.toNat_add, toNat_addrAlign, BitVec.toNat_umod, hpage, Nat.mod_eq_of_lt (by omega)]
  omega

theorem elfMapTemp_bind {α : Type} {f : Word → ElfM α} {phys page : Word} :
    (elfMapTemp phys >>= f) page = f (phys % archPgsize) (addrAlign phys archPgsize) := rfl

namespace Elf

section Headers

variable (ram : Word → BitVec 8) (start : Word)

/-- `fheader->pheader_count`, of the file. -/
def pheaderCount : ℕ := (ramHalf ram (start + 44)).toNat

/-- `fheader->pheader_offset`, of the file. -/
def pheaderOffset : Word := ramWord ram (start + 28)

/-- Where program header `i` lies. -/
def pheaderAt (i : ℕ) : Word :=
  start + pheaderOffset ram start + BitVec.ofNat 32 i * elfProgramHeaderSize

/-- Program header `i` has the type `ELF_PTYPE_LOAD`. -/
def Loads (i : ℕ) : Prop := ramWord ram (pheaderAt ram start i) = elfPtypeLoad

instance (i : ℕ) : Decidable (Loads ram start i) := inferInstanceAs (Decidable (_ = _))

/-- What program header `i` says about its section. -/
def headerSection (i : ℕ) : ElfSection where
  phys := start + ramWord ram (pheaderAt ram start i + 4)
  virt := ramWord ram (pheaderAt ram start i + 8)
  size := ramWord ram (pheaderAt ram start i + 16)
  reserve := ramWord ram (pheaderAt ram start i + 20)
  flags := ramWord ram (pheaderAt ram start i + 24)

/-- A section that was not loadable. -/
def noSection : ElfSection := { phys := 0, virt := 0, size := 0, reserve := 0 }

/-- What section `i` has to be. -/
def sectionAt (i : ℕ) : ElfSection :=
  if Loads ram start i then headerSection ram start i else noSection

/-- The page that the window shows after `i` rounds. -/
def shownPage : ℕ → Word
  | 0 => addrAlign start archPgsize
  | i + 1 => addrAlign (pheaderAt ram start i) archPgsize

/-- The number that is behind `fheader->pheader_count` after `i` rounds. -/
def shownCount (i : ℕ) : Word :=
  (ramHalf ram (shownPage ram start i + start % archPgsize + 44)).setWidth 32

/-- The table after `k` rounds. -/
def parsed (k : ℕ) : List ElfSection :=
  (List.range elfSectionMax).map fun i => if i < k then sectionAt ram start i else noSection

/-- Round `i` goes on to the next header and stays in the table. -/
def GoesOn (i : ℕ) : Prop :=
  BitVec.ofNat 32 i ≠ shownCount ram start i ∧ (Loads ram start i → i < elfSectionMax)

/-- The index and the number behind `fheader` meet for the first time after `k` rounds, and no
loadable header before that has an index beyond the table. -/
def StopsAt (k : ℕ) : Prop :=
  k ≤ 2 ^ 32 ∧ (∀ i < k, GoesOn ram start i) ∧ BitVec.ofNat 32 k = shownCount ram start k

/-- The condition on a module. The loop stops, and the headers that belong to the table are reached,
unless their section is zero anyway. -/
def Parses : Prop :=
  pheaderOffset ram start ≠ 0 ∧ ∃ k, StopsAt ram start k ∧
    ∀ i < min (pheaderCount ram start) elfSectionMax, k ≤ i → sectionAt ram start i = noSection

end Headers

variable {ram : Word → BitVec 8} {start : Word} {i k : ℕ}

theorem length_parsed : (parsed ram start k).length = elfSectionMax := by
  rw [parsed, List.length_map, List.length_range]

theorem getElem?_parsed (hi : i < elfSectionMax) :
    (parsed ram start k)[i]? = some (if i < k then sectionAt ram start i else noSection) := by
  rw [parsed, List.getElem?_map, List.getElem?_range hi]
  rfl

theorem set_parsed (hload : Loads ram start k) (hk : k < elfSectionMax) :
    (parsed ram start k).set k (headerSection ram start k) = parsed ram start (k + 1) := by
  refine List.ext_getElem? fun i => ?_
  by_cases hi : i < elfSectionMax
  · rw [List.getElem?_set, length_parsed, getElem?_parsed hi, getElem?_parsed hi]
    by_cases heq : k = i
    · subst heq
      rw [if_pos rfl, if_pos hk, if_pos k.lt_succ_self, sectionAt, if_pos hload]
    · have hiff : i < k + 1 ↔ i < k := by omega
      simp only [if_neg heq, hiff]
  · rw [List.getElem?_eq_none (by rw [List.length_set, length_parsed]; omega),
      List.getElem?_eq_none (by rw [length_parsed]; omega)]

/-- Any other header leaves the table as it is. -/
theorem parsed_succ (hload : ¬Loads ram start k) :
    parsed ram start k = parsed ram start (k + 1) := by
  refine List.map_congr_left fun i _ => ?_
  by_cases heq : i = k
  · subst heq
    rw [if_neg (lt_irrefl i), if_pos i.lt_succ_self, sectionAt, if_neg hload]
  · have hiff : i < k + 1 ↔ i < k := by omega
    simp only [hiff]

/-- The loop, from round `i` on. -/
abbrev loopFrom (ram : Word → BitVec 8) (start : Word) (fuel i : ℕ) (sections : List ElfSection) :
    EStateM.Result Fault Word (List ElfSection) :=
  elfParseLoop ram start (start % archPgsize) (start + pheaderOffset ram start) fuel
    (BitVec.ofNat 32 i) sections (shownPage ram start i)

variable {fuel : ℕ} {sections : List ElfSection}

theorem loopFrom_stops (hcount : BitVec.ofNat 32 i = shownCount ram start i) :
    loopFrom ram start (fuel + 1) i sections = .ok sections (shownPage ram start i) := by
  rw [shownCount] at hcount
  rw [loopFrom, elfParseLoop, get_bind_apply, if_pos hcount, pure_apply]

theorem loopFrom_succ (hcount : BitVec.ofNat 32 i ≠ shownCount ram start i) :
    loopFrom ram start (fuel + 1) i sections =
      if ¬Loads ram start i then loopFrom ram start fuel (i + 1) sections
      else (failIf (elfSectionMax ≤ (BitVec.ofNat 32 i).toNat) .outOfBounds >>= fun _ =>
        elfParseLoop ram start (start % archPgsize) (start + pheaderOffset ram start) fuel
          (BitVec.ofNat 32 (i + 1))
          (sections.set (BitVec.ofNat 32 i).toNat (headerSection ram start i)))
        (shownPage ram start (i + 1)) := by
  have hnext : BitVec.ofNat 32 i + 1 = BitVec.ofNat 32 (i + 1) := (BitVec.ofNat_add i 1).symm
  rw [shownCount] at hcount
  rw [loopFrom, elfParseLoop, get_bind_apply, if_neg hcount, elfMapTemp_bind, get_bind_apply]
  simp only [addrAlign_add_mod, hnext]
  by_cases hload : Loads ram start i
  · rw [if_neg (not_not.mpr hload)]
    rw [Loads, pheaderAt] at hload
    rw [if_neg (not_not.mpr hload)]
    rfl
  · rw [if_pos hload]
    rw [Loads, pheaderAt] at hload
    rw [if_pos hload]
    rfl

theorem loopFrom_goesOn (hgoes : GoesOn ram start i) (hi : i < 2 ^ 32) :
    loopFrom ram start (fuel + 1) i (parsed ram start i) =
      loopFrom ram start fuel (i + 1) (parsed ram start (i + 1)) := by
  rw [loopFrom_succ hgoes.1]
  by_cases hload : Loads ram start i
  · have hlt := hgoes.2 hload
    rw [if_neg (not_not.mpr hload), BitVec.toNat_ofNat, Nat.mod_eq_of_lt hi,
      bind_apply_of_ok (failIf_neg hlt.not_ge), set_parsed hload hlt]
  · rw [if_pos hload, ← parsed_succ hload]

/-- Any other round is the last one, with or without a result. -/
theorem loopFrom_not_goesOn (hgoes : ¬GoesOn ram start i) (hi : i < 2 ^ 32)
    (hcount : BitVec.ofNat 32 i ≠ shownCount ram start i) :
    loopFrom ram start (fuel + 1) i sections =
      .error .outOfBounds (shownPage ram start (i + 1)) := by
  obtain ⟨hload, hge⟩ := Classical.not_imp.mp fun h => hgoes ⟨hcount, h⟩
  rw [loopFrom_succ hcount, if_neg (not_not.mpr hload), BitVec.toNat_ofNat, Nat.mod_eq_of_lt hi]
  exact bind_apply_of_error (by rw [failIf, if_pos (not_lt.mp hge), throw_apply])

theorem loopFrom_ends (hstops : StopsAt ram start k) (hle : i ≤ k) (hfuel : k < i + fuel) :
    loopFrom ram start fuel i (parsed ram start i) =
      .ok (parsed ram start k) (shownPage ram start k) := by
  obtain ⟨hk, hgoes, hstop⟩ := hstops
  induction fuel generalizing i with
  | zero => omega
  | succ fuel ih =>
    by_cases heq : i = k
    · subst heq
      exact loopFrom_stops hstop
    · rw [loopFrom_goesOn (hgoes i (by omega)) (by omega)]
      exact ih (by omega) (by omega)

/-- A loop that returns stopped at the first number that fits. -/
theorem exists_stop_of_loopFrom {page : Word} (hfuel : i + fuel ≤ 2 ^ 32 + 1)
    (hgoes : ∀ j < i, GoesOn ram start j)
    (h : loopFrom ram start fuel i (parsed ram start i) = .ok sections page) :
    ∃ k, StopsAt ram start k ∧ sections = parsed ram start k := by
  induction fuel generalizing i with
  | zero => exact absurd h throw_ne_ok
  | succ fuel ih =>
    by_cases hcount : BitVec.ofNat 32 i = shownCount ram start i
    · rw [loopFrom_stops hcount] at h
      exact ⟨i, ⟨by omega, hgoes, hcount⟩, (EStateM.Result.ok.inj h).1.symm⟩
    · by_cases hi : i < 2 ^ 32
      · by_cases hthis : GoesOn ram start i
        · rw [loopFrom_goesOn hthis hi] at h
          refine ih (by omega) (fun j hj => ?_) h
          rcases Nat.lt_succ_iff_lt_or_eq.mp hj with hlt | rfl
          · exact hgoes j hlt
          · exact hthis
        · rw [loopFrom_not_goesOn hthis hi hcount] at h
          cases h
      · -- The index has come round, and there is no fuel for another round.
        obtain rfl : fuel = 0 := by omega
        rw [loopFrom_succ hcount] at h
        split at h
        · exact absurd h throw_ne_ok
        · obtain ⟨_, _, -, hrest⟩ := bind_eq_ok.mp h
          exact absurd hrest throw_ne_ok

/-- A validated module is parsed by the loop if it has program headers. -/
theorem elfModuleParse_eq {page page' : Word}
    (hvalid : elfModuleValidate ram start page = .ok true page') : elfModuleParse ram start page =
      if pheaderOffset ram start = 0 then .error .assertion (shownPage ram start 0)
      else ((fun sections => (⟨ramWord ram (start + 24), sections⟩ : ElfBinary)) <$>
        elfParseLoop ram start (start % archPgsize) (start + pheaderOffset ram start) 0x100000001
          (BitVec.ofNat 32 0) (parsed ram start 0)) (shownPage ram start 0) := by
  rw [elfModuleParse, bind_apply_of_ok hvalid]
  rw [bind_apply_of_ok (failIf_neg (by decide)), elfMapTemp_bind, get_bind_apply, addrAlign_add_mod]
  by_cases hoffset : pheaderOffset ram start = 0
  · have hread : ramWord ram (start + 28) = 0 := hoffset
    rw [if_pos hoffset]
    exact bind_apply_of_error (by rw [failIf, if_pos hread, throw_apply, shownPage])
  · have hread : ¬ramWord ram (start + 28) = 0 := hoffset
    rw [if_neg hoffset, bind_apply_of_ok (failIf_neg hread), bind_pure_comp]
    rfl

theorem exists_stop_of_parse {page page' page'' : Word} {binary : ElfBinary}
    (hvalid : elfModuleValidate ram start page = .ok true page')
    (hparse : elfModuleParse ram start page = .ok binary page'') : pheaderOffset ram start ≠ 0 ∧
      ∃ k, StopsAt ram start k ∧ binary.sections = parsed ram start k := by
  rw [elfModuleParse_eq hvalid] at hparse
  by_cases hoffset : pheaderOffset ram start = 0
  · rw [if_pos hoffset] at hparse
    cases hparse
  · rw [if_neg hoffset] at hparse
    obtain ⟨sections, hloop, rfl⟩ := map_eq_ok.mp hparse
    exact ⟨hoffset,
      exists_stop_of_loopFrom (by decide) (fun j hj => absurd hj j.not_lt_zero) hloop⟩

/-- What a module has to be parsed to: the table is filled in bounds, from the headers of the file. -/
def ParsesTo (ram : Word → BitVec 8) (start page : Word) : Prop :=
  ∃ binary page', elfModuleParse ram start page = .ok binary page' ∧
    ∀ i < min (pheaderCount ram start) elfSectionMax,
      binary.sections[i]? = some (sectionAt ram start i)

/-- A table that is filled for `k` rounds is right if the headers behind have nothing to say. -/
theorem parsed_right_iff : (∀ i < min (pheaderCount ram start) elfSectionMax,
      (parsed ram start k)[i]? = some (sectionAt ram start i)) ↔
    ∀ i < min (pheaderCount ram start) elfSectionMax, k ≤ i → sectionAt ram start i = noSection := by
  refine forall₂_congr fun i hi => ?_
  rw [getElem?_parsed (lt_min_iff.mp hi).2, Option.some.injEq]
  by_cases hlt : i < k
  · rw [if_pos hlt]
    exact ⟨fun _ hle => absurd hle hlt.not_ge, fun _ => rfl⟩
  · rw [if_neg hlt]
    exact ⟨fun h _ => h.symm, fun h => (h (not_lt.mp hlt)).symm⟩

/-- A module is parsed correctly exactly if the numbers behind `fheader` end the loop in time. -/
theorem parsesTo_iff {page : Word}
    (hvalid : valueOf (elfModuleValidate ram start page) = some true) :
    ParsesTo ram start page ↔ Parses ram start := by
  have hvalid' := eq_ok_of_valueOf hvalid
  constructor
  · rintro ⟨binary, page', hparse, hright⟩
    obtain ⟨hoffset, k, hstops, hsections⟩ := exists_stop_of_parse hvalid' hparse
    rw [hsections] at hright
    exact ⟨hoffset, k, hstops, parsed_right_iff.mp hright⟩
  · rintro ⟨hoffset, k, hstops, hrest⟩
    have hfuel : k < 0 + 0x100000001 := by
      have hk := hstops.1
      omega
    have hloop := loopFrom_ends hstops k.zero_le hfuel
    rw [ParsesTo, elfModuleParse_eq hvalid', if_neg hoffset]
    exact ⟨_, _, map_eq_ok.mpr ⟨_, hloop, rfl⟩, parsed_right_iff.mpr hrest⟩

/-- A table that lies in the page of the file header is read with the count of the file. -/
theorem Parses.of_onePage (hoffset : pheaderOffset ram start ≠ 0)
    (hpage : ∀ i < pheaderCount ram start,
      addrAlign (pheaderAt ram start i) archPgsize = addrAlign start archPgsize)
    (hloads : ∀ i < pheaderCount ram start, Loads ram start i → i < elfSectionMax) :
    Parses ram start := by
  have hlt : pheaderCount ram start < 2 ^ 16 := (ramHalf ram (start + 44)).isLt
  have hcount (i : ℕ) (hi : i ≤ pheaderCount ram start) :
      shownCount ram start i = BitVec.ofNat 32 (pheaderCount ram start) := by
    have hshown : shownPage ram start i = addrAlign start archPgsize := by
      cases i with
      | zero => rfl
      | succ i => exact hpage i hi
    rw [shownCount, hshown, addrAlign_add_mod, pheaderCount]
    exact BitVec.eq_of_toNat_eq (by simp)
  refine ⟨hoffset, pheaderCount ram start,
    ⟨by omega, fun i hi => ⟨?_, hloads i hi⟩, (hcount _ le_rfl).symm⟩,
    fun i hi hle => absurd (lt_min_iff.mp hi).1 hle.not_gt⟩
  rw [hcount i hi.le]
  intro heq
  have := congrArg BitVec.toNat heq
  rw [BitVec.toNat_ofNat, BitVec.toNat_ofNat, Nat.mod_eq_of_lt (by omega),
    Nat.mod_eq_of_lt (by omega)] at this
  omega

/-- A file at `0x1000` with one kind of program header from byte `offset` on. -/
def moduleWords (count offset : Word) (gap : ℕ) (headers : List Word) : List Word :=
  [0x464C457F, 1, 0, 0, 0x30000, 1, 0x8000000, offset, 0, 0, 0, count, 0] ++
    List.replicate gap 0 ++ headers

/-- A loadable program header. -/
def loadHeader : List Word := [1, 0x1000, 0x8000000, 0, 0x10, 0x20, 5, 0x1000]

/-- One header behind the file header. -/
def smallModule : Word → BitVec 8 := wordsAt 0x1000 (moduleWords 1 52 0 loadHeader)

/-- Nine headers behind the file header. -/
def crowdedModule : Word → BitVec 8 :=
  wordsAt 0x1000 (moduleWords 9 52 0 (List.replicate 9 loadHeader).flatten)

/-- Two headers in the next page, in which the word at the place of the count is the `1` of the
second header's type. -/
def farModule : Word → BitVec 8 :=
  wordsAt 0x1000 (moduleWords 2 0x100C 1014 (loadHeader ++ loadHeader))

/-- The header of a small module is parsed. -/
theorem small_module_parsed :
    valueOf (elfModuleValidate smallModule 0x1000 0) = some true ∧
      ParsesTo smallModule 0x1000 0 := by
  have hvalid : valueOf (elfModuleValidate smallModule 0x1000 0) = some true := by decide +kernel
  exact ⟨hvalid, (parsesTo_iff hvalid).mpr
    (Parses.of_onePage (by decide +kernel) (by decide +kernel) (by decide +kernel))⟩

/-- The ninth header is written behind the table, and the second header of the other module, though
it is loadable, is not parsed. -/
theorem headers_misread :
    (valueOf (elfModuleValidate crowdedModule 0x1000 0) = some true ∧
      errorOf (elfModuleParse crowdedModule 0x1000 0) = some .outOfBounds ∧
      ¬ParsesTo crowdedModule 0x1000 0) ∧
    valueOf (elfModuleValidate farModule 0x1000 0) = some true ∧
      pheaderCount farModule 0x1000 = 2 ∧ Loads farModule 0x1000 1 ∧
      ¬ParsesTo farModule 0x1000 0 := by
  have hcrowded : errorOf (elfModuleParse crowdedModule 0x1000 0) = some .outOfBounds := by
    decide +kernel
  have hcount : pheaderCount farModule 0x1000 = 2 := by decide +kernel
  have hfar : (valueOf (elfModuleParse farModule 0x1000 0)).bind (·.sections[1]?) =
      some noSection := by decide +kernel
  refine ⟨⟨by decide +kernel, hcrowded, ?_⟩, by decide +kernel, hcount, by decide +kernel, ?_⟩
  · rintro ⟨binary, page, hparse, -⟩
    rw [hparse] at hcrowded
    cases hcrowded
  · rintro ⟨binary, page, hparse, hright⟩
    rw [hparse] at hfar
    have hsection : some noSection = some (sectionAt farModule 0x1000 1) :=
      hfar.symm.trans (hright 1 (by rw [hcount]; decide))
    exact absurd hsection (by decide +kernel)

end Elf

end Horizon
