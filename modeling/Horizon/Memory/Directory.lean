import Horizon.Lib.TwoLevel
import Horizon.Memory.Window

/-!
# Horizon — a page directory as a map

The direct paging functions over the two-level tables of `Lib.TwoLevel`: finding or making the
table for a page changes no map, and `paging_map` fills one page that was not mapped. `U` is the
set of directory indices that count: all user pages for results about several directories at once,
since they share the kernel's half, or everything but the recursive mapping for one directory.

If what `physical_alloc` hands out is not in use, no frame serves twice afterwards either.
-/

namespace Horizon

open StateError Vm

variable {vm vm' vm₁ : Vm} {d d' f t : Frame} {virt : Word} {flags : PagingFlags}
  {U : Set (BitVec 10)} {D : Set Frame}

/-- No frame serves twice, as a directory or a table of a directory. -/
abbrev Vm.ApartOn (U : Set (BitVec 10)) (vm : Vm) (D : Set Frame) : Prop :=
  TwoLevel.Apart PageEntry.target U vm.pages D

/-- Is a frame a directory or a table of one? -/
abbrev Vm.UsedOn (U : Set (BitVec 10)) (vm : Vm) (D : Set Frame) (f : Frame) : Prop :=
  TwoLevel.InUse PageEntry.target U vm.pages D f

/-- What a directory maps a pair of indices to. -/
abbrev Vm.lookup (vm : Vm) (d : Frame) (i j : BitVec 10) : Option Frame :=
  TwoLevel.lookup PageEntry.target vm.pages d i j

theorem pagingMappingGet_eq_lookup :
    vm.pagingMappingGet d virt = vm.lookup d (dirIndex virt) (tblIndex virt) :=
  pagingMappingGet_eq_bind

theorem pagingIsMapped_eq_isSome :
    vm.pagingIsMapped d virt = (vm.pagingMappingGet d virt).isSome := by
  rw [pagingIsMapped, pagingMappingGet]
  cases vm.tblentGet d virt with
  | none => rfl
  | some te => cases hpresent : te.present <;> simp [hpresent]

/-- The frame that `physical_alloc` would hand out, if any. -/
def Vm.nextFrame (vm : Vm) : Set Frame := {f | ∃ vm', physicalAlloc vm = .ok f vm'}

/-! ## Tables -/

/-- The entry of a table that is there already, with the privileges that are asked for. -/
def PageEntry.widen (e : PageEntry) (flags : PagingFlags) : PageEntry :=
  { e with writable := e.writable || flags.write, user := e.user || flags.user }

/-- The entry that maps a frame. -/
def PagingFlags.entry (flags : PagingFlags) (f : Frame) : PageEntry :=
  { present := true, writable := flags.write, user := flags.user, frame := f }

theorem tableFor_eq_ok : tableFor d virt flags vm = .ok t vm' ↔
    ((vm.pages d (dirIndex virt)).target = some t ∧
      vm' = vm.setEntry d (dirIndex virt) ((vm.pages d (dirIndex virt)).widen flags)) ∨
    ((vm.pages d (dirIndex virt)).target = none ∧ ∃ vm₁, physicalAlloc vm = .ok t vm₁ ∧
      vm' = (vm₁.setEntry d (dirIndex virt) (flags.entry t)).setPage t fun _ => {}) := by
  simp only [tableFor, get_bind_apply, ite_eq_ok, bind_eq_ok, modify_eq_ok, pure_eq_ok]
  constructor
  · rintro (⟨hpresent, _, _, rfl, rfl, rfl⟩ |
      ⟨hpresent, t, vm₁, halloc, _, _, rfl, _, _, rfl, rfl, rfl⟩)
    · exact Or.inl ⟨if_pos hpresent, rfl⟩
    · exact Or.inr ⟨if_neg hpresent, vm₁, halloc, rfl⟩
  · rintro (⟨htarget, rfl⟩ | ⟨hnone, vm₁, halloc, rfl⟩)
    · rw [PageEntry.target, Option.ite_none_right_eq_some] at htarget
      exact Or.inl ⟨htarget.1, (), _, rfl, Option.some.inj htarget.2, rfl⟩
    · have habsent : ¬(vm.pages d (dirIndex virt)).present = true := by
        intro hpresent
        rw [PageEntry.target, if_pos hpresent] at hnone
        cases hnone
      exact Or.inr ⟨habsent, t, vm₁, halloc, (), _, rfl, (), _, rfl, rfl, rfl⟩

theorem target_widen {e : PageEntry} : (e.widen flags).target = e.target := rfl

theorem target_entry : (flags.entry f).target = some f := rfl

theorem tableFor_maps (hapart : vm.ApartOn U D) (hfresh : ∀ f ∈ vm.nextFrame, ¬vm.UsedOn U D f)
    (hd : d ∈ D) (h : tableFor d virt flags vm = .ok t vm') :
    vm'.ApartOn U D ∧ (vm'.pages d (dirIndex virt)).target = some t ∧
      ∀ d' ∈ D, ∀ i ∈ U, ∀ j, vm'.lookup d' i j = vm.lookup d' i j := by
  obtain ⟨htarget, rfl⟩ | ⟨hnone, vm₁, halloc, rfl⟩ := tableFor_eq_ok.mp h
  · refine ⟨TwoLevel.apart_write_root hapart target_widen, ?_,
      fun d' _ i _ j => TwoLevel.lookup_write_root target_widen⟩
    rw [Vm.pages_setEntry, if_pos ⟨rfl, rfl⟩, target_widen, htarget]
  · obtain ⟨hpages, -, -⟩ := Window.physicalAlloc_frame halloc
    have hnew := hfresh _ ⟨_, halloc⟩
    have hne : d ≠ t := by
      rintro rfl
      exact hnew (Or.inl hd)
    simp only [Vm.ApartOn, Vm.UsedOn, Vm.lookup, ← hpages] at hapart hnew hnone ⊢
    refine ⟨TwoLevel.apart_add_table hnew target_entry hapart, ?_,
      fun d' hd' i hi j => TwoLevel.lookup_add_table hnew target_entry hapart hd hnone rfl hd' hi⟩
    rw [Window.pages_setPage_of_ne hne, Vm.pages_setEntry, if_pos ⟨rfl, rfl⟩, target_entry]

/-! ## Pages -/

/-- `paging_map` without force maps one page that was not mapped, and nothing else. -/
theorem pagingMap_lookup {done : Bool} (hapart : vm.ApartOn U D)
    (hfresh : ∀ f ∈ vm.nextFrame, ¬vm.UsedOn U D f) (hd : d ∈ D) (hi : dirIndex virt ∈ U)
    (hforce : flags.force = false) (h : pagingMap d virt f flags vm = .ok done vm') :
    vm'.ApartOn U D ∧ done = (vm.lookup d (dirIndex virt) (tblIndex virt)).isNone ∧
      ∀ d' ∈ D, ∀ i ∈ U, ∀ j, vm'.lookup d' i j =
        if d' = d ∧ i = dirIndex virt ∧ j = tblIndex virt then
          (vm.lookup d' i j).or (some f)
        else vm.lookup d' i j := by
  obtain ⟨t, vm₁, htable, h⟩ := bind_eq_ok.mp h
  obtain ⟨hapart₁, ht, hsame⟩ := tableFor_maps hapart hfresh hd htable
  have hold : vm.lookup d (dirIndex virt) (tblIndex virt) =
      (vm₁.pages t (tblIndex virt)).target := by
    rw [← hsame d hd _ hi, Vm.lookup, TwoLevel.lookup, ht]
    rfl
  rw [get_bind_apply, hforce, Bool.or_false] at h
  cases hpresent : (vm₁.pages t (tblIndex virt)).present with
  | true =>
    simp only [hpresent, Bool.not_true, Bool.false_eq_true, if_false, pure_eq_ok] at h
    obtain ⟨rfl, rfl⟩ := h
    have hmapped : vm.lookup d (dirIndex virt) (tblIndex virt) =
        some (vm₁.pages t (tblIndex virt)).frame := hold.trans (if_pos hpresent)
    refine ⟨hapart₁, by rw [hmapped]; rfl, fun d' hd' i hi' j => ?_⟩
    rw [hsame d' hd' i hi']
    split
    · next hpage =>
      obtain ⟨rfl, rfl, rfl⟩ := hpage
      rw [hmapped]
      rfl
    · rfl
  | false =>
    simp only [hpresent, Bool.not_false, if_true, bind_eq_ok, modify_eq_ok, pure_eq_ok] at h
    obtain ⟨_, _, rfl, rfl, rfl⟩ := h
    have hfree : vm.lookup d (dirIndex virt) (tblIndex virt) = none :=
      hold.trans (if_neg (by rw [hpresent]; exact Bool.false_ne_true))
    refine ⟨TwoLevel.apart_write_table hapart₁ hd hi ht, by rw [hfree]; rfl,
      fun d' hd' i hi' j => ?_⟩
    refine (TwoLevel.lookup_write_table hapart₁ hd hi ht hd' hi').trans ?_
    split
    · next hpage =>
      obtain ⟨rfl, rfl, rfl⟩ := hpage
      rw [hfree]
      rfl
    · exact hsame d' hd' i hi' j

end Horizon
