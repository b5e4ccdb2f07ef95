import Horizon.User.Ide

/-!
# Horizon — the address of a block

The registers a transfer writes name the block it was asked for, on the disk it was asked for
(`AtaGeometry.Selects`). The address is either a number of 28 bits, cut into bytes and a nibble, or
a cylinder, a head and a sector in it, which are digits of different bases.
-/

namespace Horizon

open StateError

variable {dev : IdeDevice} {pos : Bool} {start : Word} {geom : AtaGeometry}

/-! ## Reading the registers -/

namespace AtaGeometry

def cylinder (geom : AtaGeometry) : ℕ := geom.cylinderLow.toNat + 2 ^ 8 * geom.cylinderHigh.toNat

/-- The head without the bits that are added to it. -/
def headNumber (geom : AtaGeometry) : ℕ := geom.head.toNat % 16

/-- The 28 bits of a linear address. -/
def linear (geom : AtaGeometry) : ℕ :=
  geom.sector.toNat + 2 ^ 8 * geom.cylinder + 2 ^ 24 * geom.headNumber

/-- The place of a sector in the order of cylinders, heads and sectors. Sectors count from 1. -/
def ordinal (geom : AtaGeometry) (dev : IdeDevice) : ℕ :=
  (geom.cylinder * dev.heads.toNat + geom.headNumber) * dev.sectors.toNat + (geom.sector.toNat - 1)

/-- The registers select a block of a disk. -/
structure Selects (geom : AtaGeometry) (dev : IdeDevice) (pos : Bool) (start : Word) : Prop where
  linear : dev.lba = true → geom.linear = start.toNat
  ordinal : dev.lba = false → geom.ordinal dev = start.toNat ∧ 1 ≤ geom.sector.toNat ∧
    geom.sector.toNat ≤ dev.sectors.toNat ∧ geom.headNumber < dev.heads.toNat
  disk : geom.head.getLsbD 4 = pos
  kind : geom.head.getLsbD 6 = dev.lba

end AtaGeometry

/-- The blocks the driver can be asked for. -/
structure IdeDevice.Addressable (dev : IdeDevice) (start : Word) : Prop where
  linear : dev.lba = true → start.toNat < 2 ^ 28
  heads : dev.lba = false → 1 ≤ dev.heads.toNat ∧ dev.heads.toNat ≤ 16
  sectors : dev.lba = false → 1 ≤ dev.sectors.toNat ∧ dev.sectors.toNat ≤ 255
  cylinders : dev.lba = false → dev.cylinders.toNat ≤ 65536
  inside : dev.lba = false →
    start.toNat < dev.cylinders.toNat * dev.heads.toNat * dev.sectors.toNat

/-! ## The bits of the head -/

/-- The bits that are added stand above the number of the head. -/
theorem head_marks : ∀ (head : BitVec 8) (pos lba : Bool), head.toNat < 16 →
    let marked := head ||| (BitVec.ofBool pos).setWidth 8 <<< 4 |||
      (BitVec.ofBool lba).setWidth 8 <<< 6
    marked.toNat % 16 = head.toNat ∧ marked.getLsbD 4 = pos ∧ marked.getLsbD 6 = lba := by
  decide +kernel

section Mark

variable {lba : Bool} (h : geom.head.toNat < 16)
include h

theorem mark_headNumber : (geom.mark pos lba).headNumber = geom.head.toNat :=
  (head_marks geom.head pos lba h).1

theorem mark_disk : (geom.mark pos lba).head.getLsbD 4 = pos :=
  (head_marks geom.head pos lba h).2.1

theorem mark_kind : (geom.mark pos lba).head.getLsbD 6 = lba :=
  (head_marks geom.head pos lba h).2.2

end Mark

/-! ## Linear addresses -/

theorem toNat_low {word : Word} {m : ℕ} (hm : m ≤ 8) :
    ((word &&& BitVec.ofNat 32 (2 ^ m - 1)).setWidth 8).toNat = word.toNat % 2 ^ m := by
  have hpow : 2 ^ m ≤ 2 ^ 8 := Nat.pow_le_pow_right (by decide) hm
  have hlt : word.toNat % 2 ^ m < 2 ^ m := Nat.mod_lt _ (Nat.two_pow_pos m)
  rw [BitVec.toNat_setWidth, BitVec.toNat_and, BitVec.toNat_ofNat,
    Nat.mod_eq_of_lt (show 2 ^ m - 1 < 2 ^ 32 by omega), Nat.and_two_pow_sub_one_eq_mod,
    Nat.mod_eq_of_lt (hlt.trans_le hpow)]

theorem toNat_low_shift {n m : ℕ} (hm : m ≤ 8) :
    (((start >>> n) &&& BitVec.ofNat 32 (2 ^ m - 1)).setWidth 8).toNat =
      start.toNat / 2 ^ n % 2 ^ m := by
  rw [toNat_low hm, BitVec.toNat_ushiftRight, Nat.shiftRight_eq_div_pow]

/-- The digits of a linear address are its bytes and a nibble. -/
theorem linear_selects (hlba : dev.lba = true) (hstart : start.toNat < 2 ^ 28) :
    ∃ geom, idedevGetGeometry dev pos start = some geom ∧ geom.Selects dev pos start := by
  rw [idedevGetGeometry, if_pos hlba]
  have hsector : ((start &&& 0xFF).setWidth 8).toNat = start.toNat % 2 ^ 8 :=
    toNat_low (m := 8) (by decide)
  have hlow : (((start >>> 8) &&& 0xFF).setWidth 8).toNat = start.toNat / 2 ^ 8 % 2 ^ 8 :=
    toNat_low_shift (m := 8) (by decide)
  have hhigh : (((start >>> 16) &&& 0xFF).setWidth 8).toNat = start.toNat / 2 ^ 16 % 2 ^ 8 :=
    toNat_low_shift (m := 8) (by decide)
  have hhead : (((start >>> 24) &&& 0xF).setWidth 8).toNat = start.toNat / 2 ^ 24 % 2 ^ 4 :=
    toNat_low_shift (m := 4) (by decide)
  have hlt : (((start >>> 24) &&& 0xF).setWidth 8).toNat < 16 := by omega
  refine ⟨_, rfl, fun _ => ?_, fun hchs => absurd (hchs.symm.trans hlba) (by decide),
    mark_disk hlt, mark_kind hlt⟩
  rw [AtaGeometry.linear, mark_headNumber hlt]
  simp only [AtaGeometry.mark, AtaGeometry.cylinder, hsector, hlow, hhigh, hhead]
  omega

/-! ## Cylinders, heads and sectors -/

/-- A number from its digits: what is left of a cylinder is split into heads and sectors. -/
theorem div_mod_ordinal (n heads sectors : ℕ) :
    (n / (heads * sectors) * heads + n % (heads * sectors) / sectors) * sectors +
      n % (heads * sectors) % sectors = n := by
  rw [Nat.add_mul, Nat.add_assoc, Nat.div_add_mod', Nat.mul_assoc, Nat.div_add_mod']

theorem head_lt (start : Word) (hpos : 0 < dev.heads.toNat) (hsectors : 1 ≤ dev.sectors.toNat) :
    start.toNat % (dev.heads.toNat * dev.sectors.toNat) / dev.sectors.toNat < dev.heads.toNat :=
  (Nat.div_lt_iff_lt_mul hsectors).mpr (Nat.mod_lt _ (Nat.mul_pos hpos hsectors))

section Ordinal

variable (hheads : dev.heads.toNat ≤ 16) (hsectors : 1 ≤ dev.sectors.toNat)
  (hsectors' : dev.sectors.toNat ≤ 255)
include hheads hsectors'

theorem toNat_perCylinder :
    (dev.heads * dev.sectors).toNat = dev.heads.toNat * dev.sectors.toNat := by
  have hprod : dev.heads.toNat * dev.sectors.toNat ≤ 16 * 255 := Nat.mul_le_mul hheads hsectors'
  rw [BitVec.toNat_mul, Nat.mod_eq_of_lt (by omega)]

theorem toNat_offset : (start % (dev.heads * dev.sectors)).toNat =
    start.toNat % (dev.heads.toNat * dev.sectors.toNat) := by
  rw [BitVec.toNat_umod, toNat_perCylinder hheads hsectors']

theorem toNat_cylinder (start : Word) : (start / (dev.heads * dev.sectors)).toNat =
    start.toNat / (dev.heads.toNat * dev.sectors.toNat) := by
  rw [BitVec.toNat_udiv, toNat_perCylinder hheads hsectors']

include hsectors

theorem toNat_sector (start : Word) :
    ((start % (dev.heads * dev.sectors) % dev.sectors + 1).setWidth 8).toNat =
      start.toNat % (dev.heads.toNat * dev.sectors.toNat) % dev.sectors.toNat + 1 := by
  have hlt := Nat.mod_lt (start.toNat % (dev.heads.toNat * dev.sectors.toNat)) hsectors
  rw [BitVec.toNat_setWidth, BitVec.toNat_add, BitVec.toNat_umod, toNat_offset hheads hsectors']
  show (_ + 1) % 2 ^ 32 % 2 ^ 8 = _
  omega

theorem toNat_head (start : Word) (hpos : 0 < dev.heads.toNat) :
    ((start % (dev.heads * dev.sectors) / dev.sectors).setWidth 8).toNat =
      start.toNat % (dev.heads.toNat * dev.sectors.toNat) / dev.sectors.toNat := by
  have hlt := head_lt start hpos hsectors
  rw [BitVec.toNat_setWidth, BitVec.toNat_udiv, toNat_offset hheads hsectors',
    Nat.mod_eq_of_lt (by omega)]

end Ordinal

theorem cylinder_parts {cylinder : Word} (h : cylinder.toNat < 65536) :
    ((cylinder &&& 0xFF).setWidth 8).toNat +
      2 ^ 8 * (((cylinder >>> 8) &&& 0xFF).setWidth 8).toNat = cylinder.toNat := by
  have hlow : ((cylinder &&& 0xFF).setWidth 8).toNat = cylinder.toNat % 2 ^ 8 :=
    toNat_low (m := 8) (by decide)
  have hhigh : (((cylinder >>> 8) &&& 0xFF).setWidth 8).toNat = cylinder.toNat / 2 ^ 8 % 2 ^ 8 :=
    toNat_low_shift (m := 8) (by decide)
  omega

theorem IdeDevice.Addressable.cylinder_lt (hlba : dev.lba = false) (h : dev.Addressable start) :
    start.toNat / (dev.heads.toNat * dev.sectors.toNat) < 65536 := by
  have hpos := Nat.mul_pos (h.heads hlba).1 (h.sectors hlba).1
  rw [Nat.div_lt_iff_lt_mul hpos, ← Nat.mul_assoc]
  exact (h.inside hlba).trans_le
    (Nat.mul_le_mul_right _ (Nat.mul_le_mul_right _ (h.cylinders hlba)))

theorem ordinal_selects (hlba : dev.lba = false) (h : dev.Addressable start) :
    ∃ geom, idedevGetGeometry dev pos start = some geom ∧ geom.Selects dev pos start := by
  obtain ⟨hpos, hheads⟩ := h.heads hlba
  obtain ⟨hsectors, hsectors'⟩ := h.sectors hlba
  have hsize := toNat_perCylinder hheads hsectors'
  have hnonzero : ¬(dev.heads * dev.sectors = 0 ∨ dev.sectors = 0) := by
    rintro (hzero | hzero)
    · rw [hzero] at hsize
      exact (Nat.mul_pos hpos hsectors).ne hsize
    · rw [hzero] at hsectors
      exact absurd hsectors (by decide)
  have hsector := toNat_sector hheads hsectors hsectors' start
  have hhead := toNat_head hheads hsectors hsectors' start hpos
  have hlt := head_lt start hpos hsectors
  have hcylinder := toNat_cylinder hheads hsectors' start
  have hparts := cylinder_parts (hcylinder.trans_lt (h.cylinder_lt hlba))
  have hmark : ((start % (dev.heads * dev.sectors) / dev.sectors).setWidth 8).toNat < 16 :=
    hhead.trans_lt (hlt.trans_le hheads)
  rw [idedevGetGeometry, if_neg (by rw [hlba]; decide), if_neg hnonzero]
  refine ⟨_, rfl, fun hlinear => absurd (hlinear.symm.trans hlba) (by decide), fun _ => ?_,
    mark_disk hmark, mark_kind hmark⟩
  rw [AtaGeometry.ordinal, mark_headNumber hmark]
  simp only [AtaGeometry.mark, AtaGeometry.cylinder, hsector, hparts, hcylinder, hhead]
  rw [Nat.add_sub_cancel, div_mod_ordinal]
  exact ⟨rfl, Nat.le_add_left _ _, Nat.mod_lt _ hsectors, hlt⟩

/-! ## Every block -/

theorem getGeometry_selects (pos : Bool) (h : dev.Addressable start) :
    ∃ geom, idedevGetGeometry dev pos start = some geom ∧ geom.Selects dev pos start := by
  cases hlba : dev.lba with
  | true => exact linear_selects hlba (h.linear hlba)
  | false => exact ordinal_selects hlba h

/-- The registers are read back in one way only. -/
theorem AtaGeometry.Selects.start_inj {start' : Word} (h : geom.Selects dev pos start)
    (h' : geom.Selects dev pos start') : start = start' := by
  apply BitVec.eq_of_toNat_eq
  cases hlba : dev.lba with
  | true => rw [← h.linear hlba, h'.linear hlba]
  | false => rw [← (h.ordinal hlba).1, (h'.ordinal hlba).1]

/-- Every block of the disks of a controller is named by the registers, and two different blocks are
not named alike. -/
theorem geometry_roundtrip (ctl : IdeController) :
    (∀ pos start, (ctl.devices pos).Addressable start →
      ∃ geom, idedevGetGeometry (ctl.devices pos) pos start = some geom ∧
        geom.Selects (ctl.devices pos) pos start) ∧
    ∀ pos start pos' start', (ctl.devices pos).Addressable start →
      (ctl.devices pos').Addressable start' →
      idedevGetGeometry (ctl.devices pos) pos start =
        idedevGetGeometry (ctl.devices pos') pos' start' → pos = pos' ∧ start = start' := by
  refine ⟨fun pos start h => getGeometry_selects pos h, fun pos start pos' start' h h' heq => ?_⟩
  obtain ⟨geom, hgeom, hselects⟩ := getGeometry_selects pos h
  obtain ⟨geom', hgeom', hselects'⟩ := getGeometry_selects pos' h'
  obtain rfl : geom = geom' := Option.some.inj (hgeom.symm.trans (heq.trans hgeom'))
  obtain rfl : pos = pos' := hselects.disk.symm.trans hselects'.disk
  exact ⟨rfl, hselects.start_inj hselects'⟩

/-- Both kinds of addresses on one controller: the last block of a large disk, and the block after
the first cylinder of a small one. -/
theorem two_disks_selected :
    let ctl : IdeController :=
      { devices := fun pos =>
          if pos then { cylinders := 306, heads := 4, sectors := 17 } else { lba := true } }
    idedevGetGeometry (ctl.devices false) false 0xFFFFFFF =
      some { sector := 0xFF, head := 0x4F, cylinderLow := 0xFF, cylinderHigh := 0xFF } ∧
    idedevGetGeometry (ctl.devices true) true 68 =
      some { sector := 1, head := 0x10, cylinderLow := 1, cylinderHigh := 0 } ∧
    (∃ geom, idedevGetGeometry (ctl.devices false) false 0xFFFFFFF = some geom ∧
      geom.Selects (ctl.devices false) false 0xFFFFFFF) ∧
    ∃ geom, idedevGetGeometry (ctl.devices true) true 68 = some geom ∧
      geom.Selects (ctl.devices true) true 68 := by
  intro ctl
  have hlarge : (ctl.devices false).Addressable 0xFFFFFFF :=
    ⟨fun _ => by decide, nofun, nofun, nofun, nofun⟩
  have hsmall : (ctl.devices true).Addressable 68 :=
    ⟨nofun, fun _ => by decide, fun _ => by decide, fun _ => by decide, fun _ => by decide⟩
  exact ⟨by decide +kernel, by decide +kernel, (geometry_roundtrip ctl).1 false _ hlarge,
    (geometry_roundtrip ctl).1 true _ hsmall⟩

/-! ## Transfers -/

/-- The words that are read from a disk. -/
def IdeMode.received (mode : IdeMode) (data : ℕ → BitVec 16) (n : ℕ) : List (BitVec 16) :=
  match mode with
  | .read => (List.range n).map data
  | .write _ => []

/-- The words that are written to a disk. -/
def IdeMode.sent (mode : IdeMode) (n : ℕ) : List (BitVec 16) :=
  match mode with
  | .read => []
  | .write src => (List.range n).map src

theorem idectlWaitLoop_ok (mask val : BitVec 8) (elapsed : ℕ) (bus : AtaBus) :
    ∃ r status, idectlWaitLoop mask val elapsed bus = .ok r { bus with status } := by
  induction elapsed generalizing bus with
  | zero => exact ⟨_, _, rfl⟩
  | succ elapsed ih =>
    rw [idectlWaitLoop]
    split
    · exact ⟨_, _, rfl⟩
    · rw [bind_apply_of_ok (show idectlStatus bus = .ok _ _ from rfl)]
      split
      · exact ⟨_, _, rfl⟩
      · exact ih _

theorem mapM_readWord (l : List ℕ) (bus : AtaBus) : l.mapM (fun _ => idectlReadWord) bus =
    .ok ((List.range l.length).map bus.data) { bus with data := fun i => bus.data (i + l.length) } := by
  induction l generalizing bus with
  | nil => rfl
  | cons i l ih =>
    rw [List.mapM_cons, bind_apply_of_ok (show idectlReadWord bus = .ok _ _ from rfl),
      bind_apply_of_ok (ih _), List.length_cons, List.range_succ_eq_map, List.map_cons, List.map_map]
    simp only [add_assoc]
    rfl

theorem forM_writeWord (src : ℕ → BitVec 16) (l : List ℕ) (bus : AtaBus) :
    l.forM (fun i => idectlWriteWord (src i)) bus =
      .ok () { bus with stored := bus.stored ++ l.map src } := by
  induction l generalizing bus with
  | nil =>
    rw [List.map_nil, List.append_nil]
    rfl
  | cons i l ih =>
    refine (bind_apply_of_ok (show idectlWriteWord (src i) bus = .ok _ _ from rfl)).trans ?_
    rw [ih, List.append_assoc]
    rfl

theorem idectlTransfer_ok (mode : IdeMode) (count : Word) (bus : AtaBus) :
    ∃ bus', idectlTransfer mode count bus = .ok (mode.received bus.data (count * 256).toNat) bus' ∧
      bus'.written = bus.written ∧ bus'.stored = bus.stored ++ mode.sent (count * 256).toNat := by
  obtain ⟨r, status, hwait⟩ := idectlWaitLoop_ok 0x88 0x08 10000 bus
  unfold idectlTransfer idectlWait
  rw [bind_apply_of_ok hwait]
  cases mode with
  | read =>
    have hread := mapM_readWord (List.range (count * 256).toNat) { bus with status }
    rw [List.length_range] at hread
    exact ⟨_, hread, rfl, (List.append_nil _).symm⟩
  | write src => exact ⟨_, bind_apply_of_ok (forM_writeWord src _ _), rfl, rfl⟩

/-- A transfer to or from a disk that is there and can be selected returns. It has written the
address of the block, the low byte of the count and the command to the registers, and has moved 256
words for each block, in their order. -/
theorem idectlBlockIo_transfers {ctl : IdeController} {bus : AtaBus} (mode : IdeMode) (count : Word)
    (hpresent : (ctl.devices pos).present = true) (hfirst : ataBusy (bus.status 0) = false)
    (hsecond : ataBusy (bus.status 1) = false) (h : (ctl.devices pos).Addressable start) :
    ∃ (geom : AtaGeometry) (bus' : AtaBus), geom.Selects (ctl.devices pos) pos start ∧
      idectlBlockIo ctl pos mode start count bus =
        .ok (mode.received bus.data (count * 256).toNat) bus' ∧
      bus'.written = bus.written ++ [(ataRegHead, 0xA0 ||| (BitVec.ofBool pos).setWidth 8 <<< 4),
        (ataRegCount, count.setWidth 8), (ataRegSector, geom.sector),
        (ataRegLcyl, geom.cylinderLow), (ataRegHcyl, geom.cylinderHigh), (ataRegHead, geom.head),
        (ataRegCommand, mode.command)] ∧
      bus'.stored = bus.stored ++ mode.sent (count * 256).toNat := by
  obtain ⟨geom, hgeom, hselects⟩ := getGeometry_selects pos h
  have hselect : idectlSelect pos bus = .ok true { bus with
      status := fun n => bus.status (n + 2)
      written := bus.written ++ [(ataRegHead, 0xA0 ||| (BitVec.ofBool pos).setWidth 8 <<< 4)] } := by
    simp only [idectlSelect, idectlStatus, idectlWrite, bind_apply, get_apply, modify_apply,
      pure_apply, hfirst, Bool.false_eq_true, if_false, hsecond, Bool.not_false]
  have hthrow (bus : AtaBus) : orThrow .divideError (some geom) bus =
    (.ok geom bus : EStateM.Result IdeFault AtaBus AtaGeometry) := rfl
  rw [idectlBlockIo, if_neg (by rw [hpresent]; decide), bind_apply_of_ok hselect,
    if_neg (by decide), hgeom, bind_apply_of_ok (hthrow _),
    bind_apply_of_ok (show idectlCommand geom mode count _ = .ok () _ from rfl)]
  obtain ⟨bus', htransfer, hwritten, hstored⟩ := idectlTransfer_ok mode count _
  refine ⟨geom, bus', hselects, htransfer, hwritten.trans ?_, hstored⟩
  simp only [List.append_assoc, List.cons_append, List.nil_append]

/-- The first block of a disk is read. -/
theorem first_block_read :
    let ctl : IdeController := { devices := fun _ => { present := true, lba := true } }
    let bus : AtaBus := { status := fun _ => 0x50, data := BitVec.ofNat 16 }
    ∃ bus', idectlBlockIo ctl false .read 0 1 bus =
      .ok ((List.range 256).map (BitVec.ofNat 16)) bus' ∧ bus'.stored = [] := by
  intro ctl bus
  have hblock : (ctl.devices false).Addressable 0 := ⟨fun _ => by decide, nofun, nofun, nofun, nofun⟩
  have hidle : ataBusy (bus.status 0) = false := (by decide : ataBusy 0x50 = false)
  obtain ⟨-, bus', -, hread, -, hstored⟩ := idectlBlockIo_transfers .read 1 rfl hidle hidle hblock
  exact ⟨bus', hread, hstored⟩

end Horizon
