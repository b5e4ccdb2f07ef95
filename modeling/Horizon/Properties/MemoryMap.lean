import Horizon.Memory.Meminfo
import Horizon.Lib.Tiling

/-!
# Horizon — the memory map of the bootloader

The entries of the map have 64 bits for the address and the length. `meminfo_init` reads the lower
halves, so an entry above 4 GB is taken for one below.
-/

namespace Horizon

open StateError Tiling

/-! ## The map as the bootloader writes it -/

structure MmapEntry where
  size : Word
  base : BitVec 64
  length : BitVec 64
  type : Word

namespace MmapEntry

/-- The bytes of an entry; the field `size` does not count itself. -/
def bytes (e : MmapEntry) : ℕ := e.size.toNat + 4

/-- The range that the lower halves give. -/
def low (e : MmapEntry) : MeminfoMmap :=
  ⟨e.base.setWidth 32, e.base.setWidth 32 + e.length.setWidth 32⟩

/-- What `meminfo_init` tests: the lower halves do not overflow, and the memory is available. -/
def Kept (e : MmapEntry) : Prop :=
  ¬BitVec.allOnes 32 - e.length.setWidth 32 < e.base.setWidth 32 ∧
    e.type = multibootMemoryAvailable

instance (e : MmapEntry) : Decidable e.Kept := by unfold Kept; infer_instance

/-- Does the entry reach beyond the 32-bit address space? -/
def Beyond (e : MmapEntry) : Prop := 2 ^ 32 < e.base.toNat + e.length.toNat

end MmapEntry

/-- The map lies in memory, one entry behind the other. -/
structure MultibootInfo.Holds (mbi : MultibootInfo) (ram : Word → BitVec 8)
    (entries : List MmapEntry) : Prop where
  flag : mbi.flags &&& multibootInfoMemMap ≠ 0
  first : 0 < mbi.mmapAddr.toNat
  room : mbi.mmapAddr.toNat + mbi.mmapLength.toNat < 2 ^ 32
  length : mbi.mmapLength.toNat = total MmapEntry.bytes entries
  whole : ∀ e ∈ entries, 20 ≤ e.size.toNat
  words : ∀ a e, (a, e) ∈ place MmapEntry.bytes mbi.mmapAddr.toNat entries →
    ramWord ram (BitVec.ofNat 32 a) = e.size ∧
    ramWord ram (BitVec.ofNat 32 a + 4) = e.base.setWidth 32 ∧
    ramWord ram (BitVec.ofNat 32 a + 8) = (e.base >>> 32).setWidth 32 ∧
    ramWord ram (BitVec.ofNat 32 a + 12) = e.length.setWidth 32 ∧
    ramWord ram (BitVec.ofNat 32 a + 16) = (e.length >>> 32).setWidth 32 ∧
    ramWord ram (BitVec.ofNat 32 a + 20) = e.type

/-- Where the entries are. -/
def MultibootInfo.placed (mbi : MultibootInfo) (entries : List MmapEntry) : List (ℕ × MmapEntry) :=
  place MmapEntry.bytes mbi.mmapAddr.toNat entries

/-! ## What is recorded -/

section Records

variable {mbi : MultibootInfo} {ram : Word → BitVec 8} {entries : List MmapEntry} {s s' : Meminfo}
  {a fuel : ℕ} {entry : Word} {e : MmapEntry}

/-- The entries that the loop comes to. -/
def MultibootInfo.walk (mbi : MultibootInfo) (ram : Word → BitVec 8) : ℕ → Word → List Word
  | 0, _ => []
  | fuel + 1, entry =>
      if entry = 0 then [] else entry :: mbi.walk ram fuel (multibootMmapGet mbi ram entry)

/-- The entry passes both tests. -/
def KeptAt (ram : Word → BitVec 8) (entry : Word) : Prop :=
  ¬BitVec.allOnes 32 - ramWord ram (entry + 12) < ramWord ram (entry + 4) ∧
    ramWord ram (entry + 20) = multibootMemoryAvailable

instance : Decidable (KeptAt ram entry) := by unfold KeptAt; infer_instance

/-- The range that is read from an entry. -/
def rangeAt (ram : Word → BitVec 8) (entry : Word) : MeminfoMmap :=
  ⟨ramWord ram (entry + 4), ramWord ram (entry + 4) + ramWord ram (entry + 12)⟩

theorem meminfoEntry_of_not_kept (hkept : ¬KeptAt ram entry) :
    meminfoEntry ram entry s = .ok () s := by
  rw [meminfoEntry]
  split
  · rfl
  · next hlow =>
    have htype : ramWord ram (entry + 20) ≠ multibootMemoryAvailable := fun htype =>
      hkept ⟨hlow, htype⟩
    rw [if_pos htype]
    rfl

/-- The state with one more range. -/
def Meminfo.record (s : Meminfo) (ram : Word → BitVec 8) (entry : Word) : Meminfo where
  memTotal := s.memTotal
  memUsable := s.memUsable + ramWord ram (entry + 12)
  memLimit := if s.memLimit > (rangeAt ram entry).stop then s.memLimit else (rangeAt ram entry).stop
  mmaps := s.mmaps ++ [rangeAt ram entry]
  recorded := s.recorded ++ [entry]

theorem meminfoEntry_of_kept (hkept : KeptAt ram entry) (hlt : s.mmaps.length < meminfoMmapMax) :
    meminfoEntry ram entry s = .ok () (s.record ram entry) := by
  rw [meminfoEntry, if_neg hkept.1, if_neg (not_not.mpr hkept.2), modify_bind_apply, get_bind_apply,
    bind_apply_of_ok (failIf_neg (Nat.not_le.mpr hlt))]
  rfl

theorem meminfoEntry_of_full (hkept : KeptAt ram entry) (hge : meminfoMmapMax ≤ s.mmaps.length) :
    ∃ s', meminfoEntry ram entry s = .error .assertion s' ∧ s'.recorded = s.recorded ∧
      s'.mmaps = s.mmaps := by
  rw [meminfoEntry, if_neg hkept.1, if_neg (not_not.mpr hkept.2), modify_bind_apply, get_bind_apply,
    failIf, if_pos hge]
  exact ⟨_, rfl, rfl, rfl⟩

/-- The first eight entries that pass are recorded. -/
theorem recorded_meminfoLoop (hlen : s.mmaps.length ≤ meminfoMmapMax) :
    (final (meminfoLoop mbi ram fuel entry s)).recorded = s.recorded ++
      ((mbi.walk ram fuel entry).filter (KeptAt ram ·)).take (meminfoMmapMax - s.mmaps.length) := by
  induction fuel generalizing entry s with
  | zero =>
    rw [meminfoLoop, MultibootInfo.walk, List.filter_nil, List.take_nil, List.append_nil]
    rfl
  | succ fuel ih =>
    rw [meminfoLoop, MultibootInfo.walk]
    by_cases hnull : entry = 0
    · rw [if_pos hnull, if_pos hnull, List.filter_nil, List.take_nil, List.append_nil]
      rfl
    · rw [if_neg hnull, if_neg hnull]
      by_cases hkept : KeptAt ram entry
      · rw [List.filter_cons_of_pos (by simpa using hkept)]
        obtain hlt | hge := Nat.lt_or_ge s.mmaps.length meminfoMmapMax
        · have hlen' : (s.record ram entry).mmaps.length = s.mmaps.length + 1 :=
            List.length_append
          have hmore : meminfoMmapMax - s.mmaps.length =
              meminfoMmapMax - (s.record ram entry).mmaps.length + 1 := by omega
          rw [bind_apply_of_ok (meminfoEntry_of_kept hkept hlt), ih (by omega), hmore,
            List.take_succ_cons]
          exact List.append_assoc ..
        · obtain ⟨s', hentry, hrec, -⟩ := meminfoEntry_of_full hkept hge
          rw [bind_apply_of_error hentry, final_error, hrec, Nat.sub_eq_zero_of_le hge,
            List.take_zero, List.append_nil]
      · rw [bind_apply_of_ok (meminfoEntry_of_not_kept hkept), ih hlen,
          List.filter_cons_of_neg (by simpa using hkept)]

theorem mmaps_meminfoLoop (hmmaps : s.mmaps = s.recorded.map (rangeAt ram)) :
    (final (meminfoLoop mbi ram fuel entry s)).mmaps =
      (final (meminfoLoop mbi ram fuel entry s)).recorded.map (rangeAt ram) := by
  induction fuel generalizing entry s with
  | zero =>
    rw [meminfoLoop]
    exact hmmaps
  | succ fuel ih =>
    rw [meminfoLoop]
    split
    · exact hmmaps
    · by_cases hkept : KeptAt ram entry
      · obtain hlt | hge := Nat.lt_or_ge s.mmaps.length meminfoMmapMax
        · rw [bind_apply_of_ok (meminfoEntry_of_kept hkept hlt)]
          refine ih ?_
          rw [Meminfo.record, hmmaps, List.map_append]
          rfl
        · obtain ⟨s', hentry, hrec, hmaps⟩ := meminfoEntry_of_full hkept hge
          rw [bind_apply_of_error hentry, final_error, hmaps, hrec]
          exact hmmaps
      · rw [bind_apply_of_ok (meminfoEntry_of_not_kept hkept)]
        exact ih hmmaps

theorem recorded_meminfoInit : (final (meminfoInit mbi ram {})).recorded =
    if multibootMemSizeGet mbi = 0 then [] else
      ((mbi.walk ram 0x100000000 (multibootMmapGet mbi ram 0)).filter (KeptAt ram ·)).take
        meminfoMmapMax := by
  rw [meminfoInit, modify_bind_apply]
  by_cases htotal : multibootMemSizeGet mbi = 0
  · rw [if_pos htotal, failIf, if_pos htotal]
    rfl
  · rw [if_neg htotal, bind_apply_of_ok (failIf_neg htotal), recorded_meminfoLoop (Nat.zero_le _),
      List.nil_append, List.length_nil, Nat.sub_zero]

theorem mmaps_meminfoInit : (final (meminfoInit mbi ram {})).mmaps =
    (final (meminfoInit mbi ram {})).recorded.map (rangeAt ram) := by
  rw [meminfoInit, modify_bind_apply]
  by_cases htotal : multibootMemSizeGet mbi = 0
  · rw [failIf, if_pos htotal]
    rfl
  · rw [bind_apply_of_ok (failIf_neg htotal)]
    exact mmaps_meminfoLoop List.map_nil.symm

theorem rangeAt_order (hkept : KeptAt ram entry) :
    (rangeAt ram entry).start ≤ (rangeAt ram entry).stop := by
  have hlow := hkept.1
  rw [BitVec.lt_def, BitVec.toNat_sub, BitVec.toNat_allOnes] at hlow
  show ramWord ram (entry + 4) ≤ ramWord ram (entry + 4) + ramWord ram (entry + 12)
  rw [BitVec.le_def, BitVec.toNat_add]
  omega

theorem Meminfo.Valid.record (hs : s.Valid) (hkept : KeptAt ram entry) :
    (s.record ram entry).Valid := by
  have hmem {r : MeminfoMmap} (hr : r ∈ (s.record ram entry).mmaps) :
      r ∈ s.mmaps ∨ r = rangeAt ram entry :=
    (List.mem_append.mp hr).imp_right List.mem_singleton.mp
  have hlast : rangeAt ram entry ∈ (s.record ram entry).mmaps :=
    List.mem_append_right _ (List.mem_singleton.mpr rfl)
  have hlimit : (s.record ram entry).memLimit =
      if s.memLimit > (rangeAt ram entry).stop then s.memLimit else (rangeAt ram entry).stop := rfl
  refine ⟨fun r hr => ?_, fun r hr => ?_, ?_⟩
  · obtain hr | rfl := hmem hr
    · exact hs.order r hr
    · exact rangeAt_order hkept
  · rw [hlimit]
    split
    · next hgt =>
      obtain hr | rfl := hmem hr
      · exact hs.limit r hr
      · exact BitVec.le_of_lt hgt
    · next hle =>
      obtain hr | rfl := hmem hr
      · exact BitVec.le_trans (hs.limit r hr) (BitVec.not_lt.mp hle)
      · exact BitVec.le_refl _
  · rw [hlimit]
    split
    · exact hs.reached.imp_right fun ⟨r, hr, hstop⟩ => ⟨r, List.mem_append_left _ hr, hstop⟩
    · exact .inr ⟨_, hlast, rfl⟩

theorem meminfoLoop_valid {m : Meminfo} (hs : s.Valid)
    (hloop : meminfoLoop mbi ram fuel entry s = .ok () m) : m.Valid := by
  induction fuel generalizing entry s with
  | zero =>
    rw [meminfoLoop] at hloop
    cases hloop
  | succ fuel ih =>
    rw [meminfoLoop] at hloop
    by_cases hnull : entry = 0
    · rw [if_pos hnull] at hloop
      obtain ⟨-, rfl⟩ := EStateM.Result.ok.inj hloop
      exact hs
    · rw [if_neg hnull] at hloop
      by_cases hkept : KeptAt ram entry
      · obtain hlt | hge := Nat.lt_or_ge s.mmaps.length meminfoMmapMax
        · rw [bind_apply_of_ok (meminfoEntry_of_kept hkept hlt)] at hloop
          exact ih (hs.record hkept) hloop
        · obtain ⟨s', hentry, -⟩ := meminfoEntry_of_full hkept hge
          rw [bind_apply_of_error hentry] at hloop
          cases hloop
      · rw [bind_apply_of_ok (meminfoEntry_of_not_kept hkept)] at hloop
        exact ih hs hloop

/-! ## The walk over the map -/

theorem MultibootInfo.Holds.keptAt (h : mbi.Holds ram entries) (he : (a, e) ∈ mbi.placed entries) :
    KeptAt ram (BitVec.ofNat 32 a) ↔ e.Kept := by
  obtain ⟨-, hbase, -, hlength, -, htype⟩ := h.words a e he
  rw [KeptAt, hbase, hlength, htype]
  rfl

theorem MultibootInfo.Holds.rangeAt_eq (h : mbi.Holds ram entries)
    (he : (a, e) ∈ mbi.placed entries) : rangeAt ram (BitVec.ofNat 32 a) = e.low := by
  obtain ⟨-, hbase, -, hlength, -, -⟩ := h.words a e he
  rw [rangeAt, hbase, hlength]
  rfl

theorem MultibootInfo.Holds.bounds (h : mbi.Holds ram entries) (he : (a, e) ∈ mbi.placed entries) :
    0 < a ∧ a + e.bytes ≤ mbi.mmapAddr.toNat + mbi.mmapLength.toNat := by
  have hbounds := bounds_of_mem he
  have hfirst := h.first
  rw [h.length]
  exact ⟨by omega, hbounds.2⟩

/-- The next entry begins where one ends, if there is a next one. -/
theorem MultibootInfo.Holds.next (h : mbi.Holds ram entries) (he : (a, e) ∈ mbi.placed entries) :
    multibootMmapGet mbi ram (BitVec.ofNat 32 a) =
      if a + e.bytes < mbi.mmapAddr.toNat + mbi.mmapLength.toNat then BitVec.ofNat 32 (a + e.bytes)
      else 0 := by
  have hbounds := h.bounds he
  have hroom := h.room
  have hbytes : e.bytes = e.size.toNat + 4 := rfl
  have hzero : (0 : Word).toNat = 0 := rfl
  have hne : BitVec.ofNat 32 a ≠ 0 := by
    rw [ne_eq, ← BitVec.toNat_inj, BitVec.toNat_ofNat, hzero]
    omega
  have hnext : BitVec.ofNat 32 a + ramWord ram (BitVec.ofNat 32 a) + 4 =
      BitVec.ofNat 32 (a + e.bytes) := by
    have h4 : (4 : Word).toNat = 4 := rfl
    rw [(h.words a e he).1, ← BitVec.toNat_inj, BitVec.toNat_add, BitVec.toNat_add, h4,
      BitVec.toNat_ofNat, BitVec.toNat_ofNat]
    omega
  have hend : mbi.mmapAddr + mbi.mmapLength ≤ BitVec.ofNat 32 (a + e.bytes) ↔
      ¬a + e.bytes < mbi.mmapAddr.toNat + mbi.mmapLength.toNat := by
    rw [BitVec.le_def, BitVec.toNat_add, BitVec.toNat_ofNat]
    omega
  simp only [multibootMmapGet, if_neg hne, hnext, hend, ite_not]

/-- From an entry on, the loop comes to it and the ones behind it. -/
theorem MultibootInfo.Holds.walk_suffix (xs : List MmapEntry) {ys : List MmapEntry}
    (h : mbi.Holds ram (xs ++ ys)) (hne : ys ≠ []) (hfuel : ys.length < fuel) :
    mbi.walk ram fuel (BitVec.ofNat 32 (mbi.mmapAddr.toNat + total MmapEntry.bytes xs)) =
      (place MmapEntry.bytes (mbi.mmapAddr.toNat + total MmapEntry.bytes xs) ys).map
        fun p => BitVec.ofNat 32 p.1 := by
  induction ys generalizing xs fuel with
  | nil => exact absurd rfl hne
  | cons e ys ih =>
    obtain ⟨fuel, rfl⟩ : ∃ n, fuel = n + 1 := ⟨fuel - 1, by omega⟩
    have he : (mbi.mmapAddr.toNat + total MmapEntry.bytes xs, e) ∈ mbi.placed (xs ++ e :: ys) :=
      mem_place.mpr ⟨xs, ys, rfl, rfl⟩
    have hbounds := h.bounds he
    have hroom := h.room
    have hlength := h.length
    rw [total_append, total_cons] at hlength
    have hnull : BitVec.ofNat 32 (mbi.mmapAddr.toNat + total MmapEntry.bytes xs) ≠ 0 := by
      have hzero : (0 : Word).toNat = 0 := rfl
      have hbytes : e.bytes = e.size.toNat + 4 := rfl
      rw [ne_eq, ← BitVec.toNat_inj, BitVec.toNat_ofNat, hzero]
      omega
    rw [MultibootInfo.walk, if_neg hnull, h.next he, place, List.map_cons]
    congr 1
    by_cases hys : ys = []
    · subst hys
      rw [total_nil] at hlength
      rw [List.length_cons] at hfuel
      obtain ⟨fuel, rfl⟩ : ∃ n, fuel = n + 1 := ⟨fuel - 1, by omega⟩
      rw [if_neg (by omega), MultibootInfo.walk, if_pos rfl]
      rfl
    · have hpos : 0 < total MmapEntry.bytes ys := by
        refine (List.length_pos_of_ne_nil hys).trans_le (length_le_total fun d _ => ?_)
        exact Nat.succ_pos _
      have h' : mbi.Holds ram (xs ++ [e] ++ ys) := by
        rwa [List.append_assoc, List.singleton_append]
      have hat : mbi.mmapAddr.toNat + total MmapEntry.bytes xs + e.bytes =
          mbi.mmapAddr.toNat + total MmapEntry.bytes (xs ++ [e]) := by
        rw [total_append, total_cons, total_nil]
        omega
      rw [if_pos (by omega), hat]
      exact ih (xs ++ [e]) h' hys (by rw [List.length_cons] at hfuel; omega)

theorem MultibootInfo.Holds.toNat_ofNat (h : mbi.Holds ram entries)
    (he : (a, e) ∈ mbi.placed entries) : (BitVec.ofNat 32 a).toNat = a := by
  have hbounds := h.bounds he
  have hroom := h.room
  rw [BitVec.toNat_ofNat, Nat.mod_eq_of_lt (by omega)]

theorem MultibootInfo.Holds.mmapGet_zero (h : mbi.Holds ram entries) :
    multibootMmapGet mbi ram 0 = mbi.mmapAddr := by
  rw [multibootMmapGet, if_pos rfl, if_neg h.flag]

theorem MultibootInfo.Holds.walk_eq (h : mbi.Holds ram entries) (hne : entries ≠ [])
    (hfuel : entries.length < fuel) :
    mbi.walk ram fuel mbi.mmapAddr = (mbi.placed entries).map fun p => BitVec.ofNat 32 p.1 := by
  have hwalk := MultibootInfo.Holds.walk_suffix [] h hne hfuel
  rwa [total_nil, Nat.add_zero, BitVec.ofNat_toNat, BitVec.setWidth_eq] at hwalk

theorem MultibootInfo.Holds.filter_walk (h : mbi.Holds ram entries) (hne : entries ≠ [])
    (hfuel : entries.length < fuel) : (mbi.walk ram fuel mbi.mmapAddr).filter (KeptAt ram ·) =
      ((mbi.placed entries).filter (·.2.Kept)).map fun p => BitVec.ofNat 32 p.1 := by
  have hkept : (mbi.placed entries).filter (fun p => KeptAt ram (BitVec.ofNat 32 p.1)) =
      (mbi.placed entries).filter (·.2.Kept) :=
    List.filter_congr fun p hp => decide_eq_decide.mpr (h.keptAt hp)
  rw [h.walk_eq hne hfuel, List.filter_map, Function.comp_def, hkept]

/-- The first eight entries of the map that pass are recorded. -/
theorem MultibootInfo.Holds.recorded_eq (h : mbi.Holds ram entries) (hne : entries ≠ [])
    (htotal : multibootMemSizeGet mbi ≠ 0) : (final (meminfoInit mbi ram {})).recorded =
      (((mbi.placed entries).filter (·.2.Kept)).take meminfoMmapMax).map
        fun p => BitVec.ofNat 32 p.1 := by
  have hlength : entries.length ≤ total MmapEntry.bytes entries :=
    length_le_total fun _ _ => Nat.succ_pos _
  have hlt := mbi.mmapLength.isLt
  have hfuel : entries.length < 0x100000000 := by
    rw [h.length] at hlt
    omega
  rw [recorded_meminfoInit, if_neg htotal, h.mmapGet_zero, h.filter_walk hne hfuel, List.map_take]

/-! ## The map above 4 GB -/

/-- What is recorded is available memory, as 64-bit addresses. -/
def RecordsAvailable (mbi : MultibootInfo) (ram : Word → BitVec 8) (entries : List MmapEntry) :
    Prop :=
  ∀ r ∈ (final (meminfoInit mbi ram {})).mmaps, ∃ e ∈ entries, e.type = multibootMemoryAvailable ∧
    ∀ x : BitVec 64, r.start.toNat ≤ x.toNat → x.toNat < r.stop.toNat →
      e.base.toNat ≤ x.toNat ∧ x.toNat < e.base.toNat + e.length.toNat

/-- An entry that reaches beyond the 32-bit address space is not recorded. -/
def SkipsBeyond (mbi : MultibootInfo) (ram : Word → BitVec 8) (entries : List MmapEntry) : Prop :=
  ∀ a e, (a, e) ∈ mbi.placed entries →
    BitVec.ofNat 32 a ∈ (final (meminfoInit mbi ram {})).recorded → ¬e.Beyond

/-- None of the first eight entries that pass the tests reaches beyond the 32-bit address space. In
a map without entries, the memory behind its address does not look like one that passes. -/
def MapFits (mbi : MultibootInfo) (ram : Word → BitVec 8) (entries : List MmapEntry) : Prop :=
  multibootMemSizeGet mbi ≠ 0 →
    (∀ e ∈ (entries.filter (·.Kept)).take meminfoMmapMax, ¬e.Beyond) ∧
    (entries = [] → ∀ entry ∈ mbi.walk ram 0x100000000 mbi.mmapAddr, ¬KeptAt ram entry)

/-- The lower halves are all there is of an entry in the 32-bit address space. -/
theorem MmapEntry.mem_of_low (hkept : e.Kept) (hin : ¬e.Beyond) {x : ℕ}
    (hstart : e.low.start.toNat ≤ x) (hstop : x < e.low.stop.toNat) :
    e.base.toNat ≤ x ∧ x < e.base.toNat + e.length.toNat := by
  have hlow := hkept.1
  rw [MmapEntry.Beyond] at hin
  rw [BitVec.lt_def, BitVec.toNat_sub, BitVec.toNat_allOnes, BitVec.toNat_setWidth,
    BitVec.toNat_setWidth] at hlow
  rw [MmapEntry.low] at hstart hstop
  rw [BitVec.toNat_setWidth] at hstart
  rw [BitVec.toNat_add, BitVec.toNat_setWidth, BitVec.toNat_setWidth] at hstop
  omega

/-- The entries that are recorded, as entries of the map. -/
theorem MultibootInfo.mem_kept : e ∈ (entries.filter (·.Kept)).take meminfoMmapMax ↔
    ∃ a, (a, e) ∈ ((mbi.placed entries).filter (·.2.Kept)).take meminfoMmapMax := by
  have hsnd : entries = (mbi.placed entries).map Prod.snd := map_snd_place.symm
  conv_lhs => rw [hsnd, List.filter_map, ← List.map_take, List.mem_map]
  constructor
  · rintro ⟨⟨a, d⟩, hd, rfl⟩
    exact ⟨a, hd⟩
  · rintro ⟨a, he⟩
    exact ⟨(a, e), he, rfl⟩

/-- In a map without entries nothing may be recorded. -/
theorem MultibootInfo.Holds.safe_of_nil (h : mbi.Holds ram [])
    (htotal : multibootMemSizeGet mbi ≠ 0) : RecordsAvailable mbi ram [] ∧ SkipsBeyond mbi ram [] ↔
      ∀ entry ∈ mbi.walk ram 0x100000000 mbi.mmapAddr, ¬KeptAt ram entry := by
  have hrecorded : (final (meminfoInit mbi ram {})).recorded =
      ((mbi.walk ram 0x100000000 mbi.mmapAddr).filter (KeptAt ram ·)).take meminfoMmapMax := by
    rw [recorded_meminfoInit, if_neg htotal, h.mmapGet_zero]
  constructor
  · rintro ⟨havailable, -⟩ entry hentry hkept
    have hmem : entry ∈ (mbi.walk ram 0x100000000 mbi.mmapAddr).filter (KeptAt ram ·) :=
      List.mem_filter.mpr ⟨hentry, decide_eq_true hkept⟩
    obtain ⟨x, l, hl⟩ := List.exists_cons_of_ne_nil (List.ne_nil_of_mem hmem)
    have hx : rangeAt ram x ∈ (final (meminfoInit mbi ram {})).mmaps := by
      rw [mmaps_meminfoInit, hrecorded, hl]
      exact List.mem_map_of_mem List.mem_cons_self
    obtain ⟨e, he, -⟩ := havailable _ hx
    exact absurd he List.not_mem_nil
  · intro hnone
    have hnil : (final (meminfoInit mbi ram {})).recorded = [] := by
      rw [hrecorded, List.filter_eq_nil_iff.mpr, List.take_nil]
      simpa using hnone
    refine ⟨fun r hr => ?_, fun a e he => absurd he List.not_mem_nil⟩
    rw [mmaps_meminfoInit, hnil] at hr
    exact absurd hr List.not_mem_nil

theorem MultibootInfo.Holds.safe_of_ne_nil (h : mbi.Holds ram entries) (hne : entries ≠ [])
    (htotal : multibootMemSizeGet mbi ≠ 0) :
    RecordsAvailable mbi ram entries ∧ SkipsBeyond mbi ram entries ↔
      ∀ e ∈ (entries.filter (·.Kept)).take meminfoMmapMax, ¬e.Beyond := by
  have hrecorded := h.recorded_eq hne htotal
  have hplaced (p : ℕ × MmapEntry)
      (hp : p ∈ ((mbi.placed entries).filter (·.2.Kept)).take meminfoMmapMax) :
      p ∈ mbi.placed entries ∧ p.2.Kept := by
    have := List.mem_filter.mp (List.mem_of_mem_take hp)
    exact ⟨this.1, of_decide_eq_true this.2⟩
  constructor
  · rintro ⟨-, hskips⟩ e he
    obtain ⟨a, he⟩ := MultibootInfo.mem_kept.mp he
    refine hskips a e (hplaced _ he).1 ?_
    rw [hrecorded]
    exact List.mem_map_of_mem he
  · intro hfits
    refine ⟨fun r hr => ?_, fun a e he hrec => ?_⟩
    · rw [mmaps_meminfoInit, hrecorded, List.map_map] at hr
      obtain ⟨⟨a, e⟩, hp, rfl⟩ := List.mem_map.mp hr
      obtain ⟨hmem, hkept⟩ := hplaced _ hp
      refine ⟨e, mem_of_place hmem, hkept.2, fun x => ?_⟩
      rw [Function.comp_apply, h.rangeAt_eq hmem]
      exact MmapEntry.mem_of_low hkept (hfits e (MultibootInfo.mem_kept.mpr ⟨a, hp⟩))
    · rw [hrecorded] at hrec
      obtain ⟨⟨b, d⟩, hp, heq⟩ := List.mem_map.mp hrec
      have hmem := (hplaced _ hp).1
      have hab : b = a := by
        rw [← h.toNat_ofNat hmem, ← h.toNat_ofNat he]
        exact congrArg BitVec.toNat heq
      have hbytes : e.bytes = e.size.toNat + 4 := rfl
      have hbytes' : d.bytes = d.size.toNat + 4 := rfl
      obtain ⟨-, rfl⟩ := Prod.mk.inj ((eq_or_apart hmem he).resolve_right (by omega))
      exact hfits d (MultibootInfo.mem_kept.mpr ⟨b, hp⟩)

end Records

/-- What `meminfo_init` records is available memory below 4 GB exactly if none of the entries it
takes reaches beyond. -/
theorem meminfo_safe_iff {mbi : MultibootInfo} {ram : Word → BitVec 8} {entries : List MmapEntry}
    (h : mbi.Holds ram entries) :
    RecordsAvailable mbi ram entries ∧ SkipsBeyond mbi ram entries ↔ MapFits mbi ram entries := by
  by_cases htotal : multibootMemSizeGet mbi = 0
  · have hrecorded : (final (meminfoInit mbi ram {})).recorded = [] := by
      rw [recorded_meminfoInit, if_pos htotal]
    refine iff_of_true ⟨fun r hr => ?_, fun a e _ hrec => ?_⟩ fun hne => absurd htotal hne
    · rw [mmaps_meminfoInit, hrecorded] at hr
      exact absurd hr List.not_mem_nil
    · rw [hrecorded] at hrec
      exact absurd hrec List.not_mem_nil
  · rw [MapFits, imp_iff_right htotal]
    by_cases hne : entries = []
    · subst hne
      rw [h.safe_of_nil htotal]
      exact ⟨fun hnone => ⟨fun e he => absurd he List.not_mem_nil, fun _ => hnone⟩,
        fun hfits => hfits.2 rfl⟩
    · rw [h.safe_of_ne_nil hne htotal]
      exact ⟨fun hfits => ⟨hfits, fun hnil => absurd hnil hne⟩, fun hfits => hfits.1⟩

/-- A list of words in memory, from an address on. -/
def wordsAt (addr : Word) (words : List Word) : Word → BitVec 8 := fun x =>
  ((words.getD ((x - addr) / 4).toNat 0) >>> (8 * ((x - addr) % 4).toNat)).setWidth 8

/-- One entry at `0x1000`. -/
def entryMap (e : MmapEntry) : Word → BitVec 8 :=
  wordsAt 0x1000 [e.size, e.base.setWidth 32, (e.base >>> 32).setWidth 32, e.length.setWidth 32,
    (e.length >>> 32).setWidth 32, e.type]

def entryInfo : MultibootInfo where
  flags := multibootInfoMemory ||| multibootInfoMemMap
  memUpper := 0x3FC00
  mmapLength := 24
  mmapAddr := 0x1000

/-- 255 MB from 1 MB on. -/
def lowEntry : MmapEntry := ⟨20, 0x100000, 0xFF00000, multibootMemoryAvailable⟩

/-- 1 GB from 4 GB on. -/
def highEntry : MmapEntry := ⟨20, 0x100000000, 0x40000000, multibootMemoryAvailable⟩

theorem entryInfo_holds (e : MmapEntry) (hsize : e.size = 20)
    (hwords : ∀ i < 6, ramWord (entryMap e) (0x1000 + BitVec.ofNat 32 (4 * i)) = [e.size,
      e.base.setWidth 32, (e.base >>> 32).setWidth 32, e.length.setWidth 32,
      (e.length >>> 32).setWidth 32, e.type].getD i 0) : entryInfo.Holds (entryMap e) [e] := by
  have h20 : (20 : Word).toNat = 20 := rfl
  refine ⟨by decide, by decide, by decide, ?_, fun d hd => ?_, fun a d hd => ?_⟩
  · rw [total_cons, total_nil, MmapEntry.bytes, hsize]
    rfl
  · rw [List.mem_singleton.mp hd, hsize]
    exact h20.ge
  · obtain ⟨rfl, rfl⟩ := Prod.mk.inj (List.mem_singleton.mp hd)
    exact ⟨hwords 0 (by decide), hwords 1 (by decide), hwords 2 (by decide), hwords 3 (by decide),
      hwords 4 (by decide), hwords 5 (by decide)⟩

/-- Memory below 4 GB is recorded as it is. -/
theorem low_entry_recorded :
    (final (meminfoInit entryInfo (entryMap lowEntry) {})).mmaps = [⟨0x100000, 0x10000000⟩] ∧
      RecordsAvailable entryInfo (entryMap lowEntry) [lowEntry] := by
  have hholds := entryInfo_holds lowEntry rfl (by decide +kernel)
  refine ⟨by decide +kernel, ((meminfo_safe_iff hholds).mpr fun _ => ⟨fun e he => ?_, nofun⟩).1⟩
  rw [List.mem_singleton.mp (List.mem_of_mem_filter (List.mem_of_mem_take he)), MmapEntry.Beyond]
  decide

/-- Memory from 4 GB on is recorded as memory from address 0 on. -/
theorem high_entry_recorded :
    entryInfo.Holds (entryMap highEntry) [highEntry] ∧
      (final (meminfoInit entryInfo (entryMap highEntry) {})).mmaps = [⟨0, 0x40000000⟩] ∧
      ¬RecordsAvailable entryInfo (entryMap highEntry) [highEntry] := by
  have hmmaps : (final (meminfoInit entryInfo (entryMap highEntry) {})).mmaps =
      [⟨0, 0x40000000⟩] := by decide +kernel
  refine ⟨entryInfo_holds highEntry rfl (by decide +kernel), hmmaps, fun havailable => ?_⟩
  rw [RecordsAvailable, hmmaps] at havailable
  obtain ⟨e, he, -, hin⟩ := havailable _ List.mem_cons_self
  rw [List.mem_singleton.mp he] at hin
  exact absurd (hin 0 (by decide) (by decide)).1 (by decide)

/-- The ranges that `physical_init` starts from. -/
theorem meminfoInit_valid {m : Meminfo} (hinit : meminfoInit mbi ram {} = .ok () m) : m.Valid := by
  rw [meminfoInit, modify_bind_apply] at hinit
  by_cases htotal : multibootMemSizeGet mbi = 0
  · rw [failIf, if_pos htotal] at hinit
    cases hinit
  · rw [bind_apply_of_ok (failIf_neg htotal)] at hinit
    refine meminfoLoop_valid ⟨?_, ?_, .inl rfl⟩ hinit
    · exact fun r hr => absurd hr List.not_mem_nil
    · exact fun r hr => absurd hr List.not_mem_nil

/-- Two ranges, the second of which ends before the first one begins. -/
theorem two_entries_valid : ∃ m,
    meminfoInit { entryInfo with mmapLength := 48 } (wordsAt 0x1000
      [20, 0x100000, 0, 0xFF00000, 0, multibootMemoryAvailable,
        20, 0x1000, 0, 0x9E000, 0, multibootMemoryAvailable]) {} = .ok () m ∧
    m.mmaps.length = 2 ∧ m.Valid := by
  obtain ⟨m, hm⟩ : ∃ m, meminfoInit { entryInfo with mmapLength := 48 } (wordsAt 0x1000
      [20, 0x100000, 0, 0xFF00000, 0, multibootMemoryAvailable,
        20, 0x1000, 0, 0x9E000, 0, multibootMemoryAvailable]) {} = .ok () m ∧
      m.mmaps.length = 2 := ⟨_, eq_ok_of_valueOf (by decide +kernel), by decide +kernel⟩
  exact ⟨m, hm.1, hm.2, meminfoInit_valid hm.1⟩

end Horizon
