import Horizon.Memory.Extent
import Horizon.System.Directories
import Horizon.System.Boot

/-!
# Horizon — what `virtual_is_mapped` says about a range

`Vm.Reports` is what the header of the function promises: 1 if every page of the range is mapped, 0
if none is, -1 if some are. The range is one of numbers, so that pages past the end of the address
space belong to it, and are not mapped.

The code adds `virt` and `size` in 32 bits. It keeps the promise if the range ends before the last
page. Otherwise the loop over the pages does not run at all, or runs around the address space, and
the answer is right only if the pages happen to be mapped in the right way: `Vm.Answerable` lists
the cases.
-/

namespace Horizon

open StateError Vm

variable {k : Kernel} {vm : Vm} {d : Frame} {virt size : Word} {pid : Pid} {r : Int} {n : ℕ}

/-- The answer `r` is right for the range. -/
structure Vm.Reports (vm : Vm) (d : Frame) (virt size : Word) (r : Int) : Prop where
  one : r = 1 ↔ ∀ n, Overlaps virt size n → vm.HasPage d n
  zero : r = 0 ↔ ∀ n, Overlaps virt size n → ¬vm.HasPage d n
  mixed : r = -1 ↔
    (∃ n, Overlaps virt size n ∧ vm.HasPage d n) ∧ ∃ n, Overlaps virt size n ∧ ¬vm.HasPage d n

/-- The pages of the range are all mapped, or all not. -/
def Vm.Uniform (vm : Vm) (d : Frame) (virt size : Word) : Prop :=
  ∀ n, Overlaps virt size n → (vm.HasPage d n ↔ vm.HasPage d (virt.toNat / 4096))

/-- The ranges about which `virtual_is_mapped` gives the right answer. -/
inductive Vm.Answerable (vm : Vm) (d : Frame) (virt size : Word) : Prop
  /-- The range ends before the last page. -/
  | inside (h : virt.toNat + size.toNat ≤ 0xFFFFF000)
  /-- It ends in the last page. The loop is left through the page that makes the range mixed. -/
  | mixed (hfinish : 0xFFFFF000 < virt.toNat + size.toNat)
      (hlt : virt.toNat + size.toNat < 2 ^ 32) (h : ¬vm.Uniform d virt size)
  /-- It ends with the address space. Only the first page is looked at. -/
  | whole (hfinish : virt.toNat + size.toNat = 2 ^ 32) (h : vm.Uniform d virt size)
  /-- It goes on after the end. Again only the first page is looked at. -/
  | beyond (hfinish : 2 ^ 32 < virt.toNat + size.toNat) (hvirt : virt.toNat < 0xFFFFF000)
      (h : ∀ n, Overlaps virt size n → ¬vm.HasPage d n)
  /-- It begins in the last page, which is compared with the pages from address 0 on. -/
  | around (hfinish : 2 ^ 32 < virt.toNat + size.toNat) (hvirt : 0xFFFFF000 ≤ virt.toNat)
      (hlast : vm.HasPage d 0xFFFFF)
      (h : ∃ n, 2 ^ 32 + 4096 * n < virt.toNat + size.toNat ∧ ¬vm.HasPage d n)
  | aroundNone (hfinish : 2 ^ 32 < virt.toNat + size.toNat) (hvirt : 0xFFFFF000 ≤ virt.toNat)
      (hlast : ¬vm.HasPage d 0xFFFFF) (hends : virt.toNat + size.toNat ≤ 2 ^ 32 + 0xFFFFF000)
      (h : ∀ n, 2 ^ 32 + 4096 * n < virt.toNat + size.toNat → ¬vm.HasPage d n)

/-! ## The right answer -/

theorem reports_of_uniform (hsize : size ≠ 0) (h : vm.Uniform d virt size) :
    vm.Reports d virt size r ↔ r = if vm.HasPage d (virt.toNat / 4096) then 1 else 0 := by
  have hfirst := overlaps_first virt hsize
  by_cases hmapped : vm.HasPage d (virt.toNat / 4096)
  · have hall : ∀ n, Overlaps virt size n → vm.HasPage d n := fun n hn => (h n hn).mpr hmapped
    have hnotNone : ¬∀ n, Overlaps virt size n → ¬vm.HasPage d n := fun hnone =>
      hnone _ hfirst hmapped
    have hnotMixed : ¬∃ n, Overlaps virt size n ∧ ¬vm.HasPage d n := by
      rintro ⟨n, hn, hpage⟩
      exact hpage (hall n hn)
    rw [if_pos hmapped]
    constructor
    · exact fun hr => hr.one.mpr hall
    · rintro rfl
      exact ⟨iff_of_true rfl hall, iff_of_false (by decide) hnotNone,
        iff_of_false (by decide) fun hmixed => hnotMixed hmixed.2⟩
  · have hnone : ∀ n, Overlaps virt size n → ¬vm.HasPage d n := fun n hn hpage =>
      hmapped ((h n hn).mp hpage)
    have hnotMixed : ¬∃ n, Overlaps virt size n ∧ vm.HasPage d n := by
      rintro ⟨n, hn, hpage⟩
      exact hnone n hn hpage
    rw [if_neg hmapped]
    constructor
    · exact fun hr => hr.zero.mpr hnone
    · rintro rfl
      exact ⟨iff_of_false (by decide) fun hall => hmapped (hall _ hfirst), iff_of_true rfl hnone,
        iff_of_false (by decide) fun hmixed => hnotMixed hmixed.1⟩

theorem reports_of_not_uniform (hsize : size ≠ 0) (h : ¬vm.Uniform d virt size) :
    vm.Reports d virt size r ↔ r = -1 := by
  have hfirst := overlaps_first virt hsize
  have hmixed : (∃ n, Overlaps virt size n ∧ vm.HasPage d n) ∧
      ∃ n, Overlaps virt size n ∧ ¬vm.HasPage d n := by
    unfold Vm.Uniform at h
    push Not at h
    obtain ⟨n, hn, ⟨hpage, hother⟩ | ⟨hpage, hother⟩⟩ := h
    · exact ⟨⟨n, hn, hpage⟩, _, hfirst, hother⟩
    · exact ⟨⟨_, hfirst, hother⟩, n, hn, hpage⟩
  obtain ⟨⟨n, hn, hpage⟩, m, hm, hother⟩ := hmixed
  constructor
  · exact fun hr => hr.mixed.mpr ⟨⟨n, hn, hpage⟩, m, hm, hother⟩
  · rintro rfl
    exact ⟨iff_of_false (by decide) fun hall => hother (hall m hm),
      iff_of_false (by decide) fun hnone => hnone n hn hpage,
      iff_of_true rfl ⟨⟨n, hn, hpage⟩, m, hm, hother⟩⟩

/-! ## The answer of the code -/

/-- The answer for the first page alone. -/
def Vm.firstAnswer (vm : Vm) (d : Frame) (virt : Word) : Int :=
  if vm.HasPage d (virt.toNat / 4096) then 1 else 0

theorem rangeMapped_eq : vm.rangeMapped d virt size =
    vm.isMappedLoop d (vm.pagingIsMapped d (pageNo (virt.toNat / 4096))) (virt + size) pageFuel
      (pageNo (virt.toNat / 4096 + 1)) := by
  rw [rangeMapped]
  simp only [addrAlign_eq_pageNo, pageNo_add_archPgsize]

theorem first_lt : virt.toNat / 4096 < 2 ^ 20 := by
  have hvirt := virt.isLt
  omega

theorem firstAnswer_eq : vm.firstAnswer d virt =
    if vm.pagingIsMapped d (pageNo (virt.toNat / 4096)) = true then 1 else 0 := by
  simp only [Vm.firstAnswer, hasPage_iff first_lt]

/-- Two pages of the address space are both mapped or both not. -/
theorem pagingIsMapped_eq_first (hn : n < 2 ^ 20) :
    vm.pagingIsMapped d (pageNo n) = vm.pagingIsMapped d (pageNo (virt.toNat / 4096)) ↔
      (vm.HasPage d n ↔ vm.HasPage d (virt.toNat / 4096)) := by
  rw [hasPage_iff hn, hasPage_iff first_lt, Bool.eq_iff_iff]

theorem rangeMapped_of_le (h : virt + size ≤ pageNo (virt.toNat / 4096 + 1)) :
    vm.rangeMapped d virt size = some (vm.firstAnswer d virt) := by
  rw [rangeMapped_eq, firstAnswer_eq, pageFuel, isMappedLoop, if_neg (BitVec.not_lt.mpr h)]

variable (vm d) in
theorem rangeMapped_inside (hsize : size ≠ 0) (h : virt.toNat + size.toNat ≤ 0xFFFFF000) :
    ∃ r, vm.rangeMapped d virt size = some r ∧
      (vm.Uniform d virt size → r = vm.firstAnswer d virt) ∧ (¬vm.Uniform d virt size → r = -1) := by
  have hpos : size.toNat ≠ 0 := fun hzero => hsize (BitVec.eq_of_toNat_eq hzero)
  have hsum : (virt + size).toNat = virt.toNat + size.toNat := toNat_add_of_lt (by omega)
  have hfinish : virt + size ≤ lastPage := by
    rw [BitVec.le_def, hsum]
    exact h
  have hnext : (pageNo (virt.toNat / 4096 + 1)).toNat = 4096 * (virt.toNat / 4096 + 1) :=
    toNat_pageNo (by omega)
  -- The pages of the loop are those that overlap the range, apart from the first.
  have hloop : (∀ n < pageCount (pageNo (virt.toNat / 4096 + 1)) (virt + size),
      vm.pagingIsMapped d (pageAt (pageNo (virt.toNat / 4096 + 1)) n) =
        vm.pagingIsMapped d (pageNo (virt.toNat / 4096))) ↔ vm.Uniform d virt size := by
    unfold pageCount
    rw [hsum, hnext]
    constructor
    · intro hall n hn
      have hle := hn.first_le
      unfold Overlaps overlaps at hn
      obtain ⟨m, rfl⟩ := Nat.exists_eq_add_of_le hle
      cases m with
      | zero => exact Iff.rfl
      | succ m =>
        rw [← pagingIsMapped_eq_first (by omega)]
        have hpage := hall m (by omega)
        rwa [pageAt_pageNo, Nat.add_assoc, Nat.add_comm 1] at hpage
    · intro hall n hn
      rw [pageAt_pageNo, pagingIsMapped_eq_first (by omega)]
      refine hall _ ⟨by omega, by omega⟩
  rw [rangeMapped_eq, isMappedLoop_eq hfinish (pageCount_lt hfinish)]
  refine ⟨_, rfl, fun huniform => ?_, fun hmixed => ?_⟩
  · rw [if_pos (hloop.mpr huniform), firstAnswer_eq]
  · rw [if_neg fun hall => hmixed (hloop.mp hall)]

/-- The loop of a range that ends in the last page looks at all pages. -/
theorem rangeMapped_endless (h : lastPage < virt + size) : vm.rangeMapped d virt size =
    if ∀ n < 2 ^ 20, (vm.HasPage d n ↔ vm.HasPage d (virt.toNat / 4096)) then none
    else some (-1) := by
  have hvirt : virt.toNat / 4096 < 2 ^ 20 := first_lt
  rw [rangeMapped_eq, isMappedLoop_endless h, pageFuel]
  have hall : (∀ n < 2 ^ 20 + 1, vm.pagingIsMapped d (pageNo (virt.toNat / 4096 + 1 + n)) =
      vm.pagingIsMapped d (pageNo (virt.toNat / 4096))) ↔
      ∀ n < 2 ^ 20, (vm.HasPage d n ↔ vm.HasPage d (virt.toNat / 4096)) := by
    constructor
    · intro hall n hn
      -- The cursor comes to every page, to those before the first one after it has wrapped.
      have hpage := hall ((2 ^ 20 + n - (virt.toNat / 4096 + 1)) % 2 ^ 20) (by omega)
      have hmod : (virt.toNat / 4096 + 1 +
          (2 ^ 20 + n - (virt.toNat / 4096 + 1)) % 2 ^ 20) % 2 ^ 20 = n := by omega
      rwa [← pageNo_mod, hmod, pagingIsMapped_eq_first hn] at hpage
    · intro hall n _
      have hlt : (virt.toNat / 4096 + 1 + n) % 2 ^ 20 < 2 ^ 20 := Nat.mod_lt _ (by decide)
      rw [← pageNo_mod]
      exact (pagingIsMapped_eq_first hlt).mpr (hall _ hlt)
  simp only [hall]

variable (vm d) in
/-- A range that begins in the last page and goes on: the loop looks at the pages from address 0
on. -/
theorem rangeMapped_around (hvirt : 0xFFFFF000 ≤ virt.toNat)
    (hends : 2 ^ 32 ≤ virt.toNat + size.toNat)
    (h : virt.toNat + size.toNat ≤ 2 ^ 32 + 0xFFFFF000) : ∃ r, vm.rangeMapped d virt size = some r ∧
      ((∀ n, 2 ^ 32 + 4096 * n < virt.toNat + size.toNat →
        (vm.HasPage d n ↔ vm.HasPage d (virt.toNat / 4096))) → r = vm.firstAnswer d virt) ∧
      ∀ n, 2 ^ 32 + 4096 * n < virt.toNat + size.toNat →
        ¬(vm.HasPage d n ↔ vm.HasPage d (virt.toNat / 4096)) → r = -1 := by
  have hlt := virt.isLt
  have hsum := toNat_add_of_le hends
  have hfinish : virt + size ≤ lastPage := by
    rw [BitVec.le_def, hsum]
    exact Nat.sub_le_iff_le_add'.mpr h
  have hstart : pageNo (virt.toNat / 4096 + 1) = 0 := by
    have hlast : virt.toNat / 4096 + 1 = 2 ^ 20 := by omega
    rw [hlast]
    rfl
  have hzero : (0 : Word) = pageNo 0 := rfl
  have hloop : (∀ n < pageCount 0 (virt + size), vm.pagingIsMapped d (pageAt 0 n) =
      vm.pagingIsMapped d (pageNo (virt.toNat / 4096))) ↔
      ∀ n, 2 ^ 32 + 4096 * n < virt.toNat + size.toNat →
        (vm.HasPage d n ↔ vm.HasPage d (virt.toNat / 4096)) := by
    unfold pageCount
    rw [hsum, hzero, toNat_pageNo (by decide)]
    simp only [pageAt_pageNo, Nat.zero_add]
    refine forall_congr' fun n => ?_
    constructor
    · intro hpage hn
      exact (pagingIsMapped_eq_first (by omega)).mp (hpage (by omega))
    · intro hpage hn
      exact (pagingIsMapped_eq_first (by omega)).mpr (hpage (by omega))
  rw [rangeMapped_eq, hstart, isMappedLoop_eq hfinish (pageCount_lt hfinish)]
  refine ⟨_, rfl, fun hall => ?_, fun n hn hpage => ?_⟩
  · rw [if_pos (hloop.mpr hall), firstAnswer_eq]
  · rw [if_neg fun hall => hpage (hloop.mp hall n hn)]

/-! ## When the answer is right -/

section Right

variable (hsize : size ≠ 0)
include hsize

theorem right_inside (h : virt.toNat + size.toNat ≤ 0xFFFFF000) :
    ∃ r, vm.rangeMapped d virt size = some r ∧ vm.Reports d virt size r := by
  obtain ⟨r, hr, huniform, hmixed⟩ := rangeMapped_inside vm d hsize h
  refine ⟨r, hr, ?_⟩
  by_cases hall : vm.Uniform d virt size
  · exact (reports_of_uniform hsize hall).mpr (huniform hall)
  · exact (reports_of_not_uniform hsize hall).mpr (hmixed hall)

/-- If the loop runs around the address space it can only answer that the range is mixed. -/
theorem right_endless (h : lastPage < virt + size) :
    (∃ r, vm.rangeMapped d virt size = some r ∧ vm.Reports d virt size r) ↔
      ¬vm.Uniform d virt size ∧
        ∃ n < 2 ^ 20, ¬(vm.HasPage d n ↔ vm.HasPage d (virt.toNat / 4096)) := by
  rw [rangeMapped_endless h]
  constructor
  · rintro ⟨r, hr, hreports⟩
    split at hr
    · cases hr
    · next hmixed =>
      cases hr
      push Not at hmixed
      refine ⟨fun huniform => ?_, ?_⟩
      · rw [reports_of_uniform hsize huniform] at hreports
        split at hreports <;> cases hreports
      · obtain ⟨n, hn, hpage⟩ := hmixed
        exact ⟨n, hn, by tauto⟩
  · rintro ⟨hmixed, n, hn, hpage⟩
    rw [if_neg fun hall => hpage (hall n hn)]
    exact ⟨-1, rfl, (reports_of_not_uniform hsize hmixed).mpr rfl⟩

/-- If only the first page is looked at, the others must be like it. -/
theorem right_first (h : vm.rangeMapped d virt size = some (vm.firstAnswer d virt)) :
    (∃ r, vm.rangeMapped d virt size = some r ∧ vm.Reports d virt size r) ↔
      vm.Uniform d virt size := by
  rw [h]
  constructor
  · rintro ⟨r, hr, hreports⟩
    cases hr
    by_contra hmixed
    rw [reports_of_not_uniform hsize hmixed, Vm.firstAnswer] at hreports
    split at hreports <;> cases hreports
  · exact fun huniform => ⟨_, rfl, (reports_of_uniform hsize huniform).mpr rfl⟩

end Right

variable (vm d) in
/-- The pages past the end of the address space are not mapped. -/
theorem uniform_beyond (hfinish : 2 ^ 32 < virt.toNat + size.toNat) :
    vm.Uniform d virt size ↔ ∀ n, Overlaps virt size n → ¬vm.HasPage d n := by
  have hvirt := virt.isLt
  have hpast : Overlaps virt size (2 ^ 20) := ⟨by omega, by omega⟩
  constructor
  · intro huniform n hn hpage
    have hfirst := (huniform n hn).mp hpage
    exact not_hasPage le_rfl ((huniform _ hpast).mpr hfirst)
  · intro hnone n hn
    have hfirst : Overlaps virt size (virt.toNat / 4096) := ⟨by omega, by omega⟩
    exact iff_of_false (hnone n hn) (hnone _ hfirst)

theorem overlaps_around (hfinish : 2 ^ 32 < virt.toNat + size.toNat)
    (hvirt : 0xFFFFF000 ≤ virt.toNat) :
    (∀ n, Overlaps virt size n → ¬vm.HasPage d n) ↔ ¬vm.HasPage d 0xFFFFF := by
  have hlt := virt.isLt
  constructor
  · intro hnone
    exact hnone _ ⟨by omega, by omega⟩
  · intro hlast n hn hpage
    have hn' : n = 0xFFFFF := by
      have hlow := hn.first_le
      have hhigh := hpage.1
      omega
    exact hlast (hn' ▸ hpage)

/-- A range that begins in the last page and goes on behind it, where the loop starts again at 0. -/
theorem right_around (hsize : size ≠ 0) (hfinish : 2 ^ 32 < virt.toNat + size.toNat)
    (hvirt : 0xFFFFF000 ≤ virt.toNat) :
    (∃ r, vm.rangeMapped d virt size = some r ∧ vm.Reports d virt size r) ↔
      vm.Answerable d virt size := by
  have hlt := virt.isLt
  have hfirst : virt.toNat / 4096 = 0xFFFFF := by omega
  have huniform := (uniform_beyond vm d hfinish).trans (overlaps_around hfinish hvirt)
  by_cases hends : virt.toNat + size.toNat ≤ 2 ^ 32 + 0xFFFFF000
  · obtain ⟨answer, hanswer, hsame, hother⟩ := rangeMapped_around vm d hvirt hfinish.le hends
    rw [Vm.firstAnswer, hfirst] at hsame
    rw [hfirst] at hother
    -- The loop compares the pages at 0 with the last page, which is all the range has.
    by_cases hlast : vm.HasPage d 0xFFFFF
    · have hreports : ∀ r, vm.Reports d virt size r ↔ r = -1 := fun r =>
        reports_of_not_uniform hsize fun hall => huniform.mp hall hlast
      simp only [hanswer, hreports, Option.some_inj, exists_eq_right]
      constructor
      · rintro rfl
        refine .around hfinish hvirt hlast ?_
        by_contra hall
        push Not at hall
        have hone := hsame fun n hn => iff_of_true (hall n hn) hlast
        rw [if_pos hlast] at hone
        cases hone
      · intro hright
        cases hright with
        | around _ _ _ h =>
          obtain ⟨n, hn, hpage⟩ := h
          exact hother n hn fun hiff => hpage (hiff.mpr hlast)
        | aroundNone _ _ hnone => exact absurd hlast hnone
        | beyond _ hlow => omega
        | _ => omega
    · have hreports : ∀ r, vm.Reports d virt size r ↔ r = 0 := fun r => by
        rw [reports_of_uniform hsize (huniform.mpr hlast), hfirst, if_neg hlast]
      simp only [hanswer, hreports, Option.some_inj, exists_eq_right]
      constructor
      · rintro rfl
        refine .aroundNone hfinish hvirt hlast hends fun n hn hpage => ?_
        have hmixed := hother n hn fun hiff => hlast (hiff.mp hpage)
        cases hmixed
      · intro hright
        cases hright with
        | around _ _ hpage => exact absurd hpage hlast
        | aroundNone _ _ _ _ hnone =>
          rw [hsame fun n hn => iff_of_false (hnone n hn) hlast, if_neg hlast]
        | beyond _ hlow => omega
        | _ => omega
  · -- Its end lies in the last page once more, and the loop does not stop there.
    have hendless : lastPage < virt + size := by
      rw [BitVec.lt_def, toNat_add_of_le hfinish.le]
      show 0xFFFFF000 < _
      omega
    rw [right_endless hsize hendless, huniform, not_not, hfirst]
    constructor
    · rintro ⟨hlast, n, hn, hpage⟩
      exact .around hfinish hvirt hlast ⟨n, by omega, fun h => hpage (iff_of_true h hlast)⟩
    · intro hanswer
      cases hanswer with
      | around _ _ hlast hother =>
        obtain ⟨n, hn, hpage⟩ := hother
        exact ⟨hlast, n, by have := size.isLt; omega, fun h => hpage (h.mpr hlast)⟩
      | aroundNone _ _ _ h => omega
      | beyond _ hlow => omega
      | _ => omega

/-- The answer is right exactly on the ranges listed, sorted by where they end. -/
theorem right_iff_answerable (hsize : size ≠ 0) :
    (∃ r, vm.rangeMapped d virt size = some r ∧ vm.Reports d virt size r) ↔
      vm.Answerable d virt size := by
  have hvirt := virt.isLt
  have hlt := size.isLt
  rcases Nat.lt_or_ge 0xFFFFF000 (virt.toNat + size.toNat) with hlast | hinside
  · rcases Nat.lt_trichotomy (virt.toNat + size.toNat) (2 ^ 32) with hlow | hwhole | hbeyond
    · -- The range ends in the last page.
      have hendless : lastPage < virt + size := by
        rw [BitVec.lt_def, toNat_add_of_lt hlow]
        exact hlast
      rw [right_endless hsize hendless]
      constructor
      · rintro ⟨hmixed, -⟩
        exact .mixed hlast hlow hmixed
      · intro hanswer
        have hmixed : ¬vm.Uniform d virt size := by
          cases hanswer with
          | mixed _ _ h => exact h
          | beyond hfinish _ => omega
          | _ => omega
        refine ⟨hmixed, ?_⟩
        unfold Vm.Uniform at hmixed
        push Not at hmixed
        obtain ⟨n, hn, hpage⟩ := hmixed
        unfold Overlaps overlaps at hn
        exact ⟨n, by omega, by tauto⟩
    · -- It ends with the address space.
      have hzero : virt + size = 0 := by
        apply BitVec.eq_of_toNat_eq
        rw [toNat_add_of_le hwhole.ge, hwhole]
        rfl
      rw [right_first hsize (rangeMapped_of_le (hzero ▸ BitVec.le_def.mpr (Nat.zero_le _)))]
      constructor
      · exact .whole hwhole
      · intro hanswer
        cases hanswer with
        | whole _ h => exact h
        | beyond hfinish _ => omega
        | _ => omega
    · rcases Nat.lt_or_ge virt.toNat 0xFFFFF000 with hfirst | hfirst
      · -- It goes on, and does not begin in the last page.
        have hskip : virt + size ≤ pageNo (virt.toNat / 4096 + 1) := by
          rw [BitVec.le_def, toNat_add_of_le hbeyond.le, toNat_pageNo (by omega)]
          omega
        rw [right_first hsize (rangeMapped_of_le hskip), uniform_beyond vm d hbeyond]
        constructor
        · exact .beyond hbeyond hfirst
        · intro hanswer
          cases hanswer with
          | beyond _ _ h => exact h
          | around _ hge => omega
          | aroundNone _ hge => omega
          | _ => omega
      · exact right_around hsize hbeyond hfirst
  · exact iff_of_true (right_inside hsize hinside) (.inside hinside)

/-- `virtual_is_mapped` returns, and tells whether every page of the range is mapped, or none, or
some, exactly for the ranges listed above. -/
theorem virtualIsMapped_right_iff (hpid : pid = 0 ∨ k.liveProcess pid = true) (hsize : size ≠ 0) :
    (∃ r, virtualIsMapped pid virt size k = .ok r k ∧ k.vm.Reports (k.dirOf pid) virt size r) ↔
      k.vm.Answerable (k.dirOf pid) virt size := by
  rw [← right_iff_answerable hsize]
  exact exists_congr fun r => and_congr_left' ⟨fun h => (virtualIsMapped_rangeMapped h).2,
    virtualIsMapped_of_rangeMapped hpid hsize⟩

/-- The page a process starts with. -/
theorem first_page_is_mapped : ∃ k, Booted k ∧ ∃ r, virtualIsMapped 2 0x1000 0x1000 k = .ok r k ∧
    k.vm.Reports (k.dirOf 2) 0x1000 0x1000 r := by
  have hany : (runPages (fun _ => 0) [0x2000] []).any (fun k => k.liveProcess 2) = true := by
    decide +kernel
  obtain ⟨k, _, hboot, hrun, hlive⟩ := exists_run_of_any hany
  cases hrun
  exact ⟨k, hboot, (virtualIsMapped_right_iff (Or.inr hlive) (by decide)).mpr (.inside (by decide))⟩

/-- The range from the page of a process to the end of the address space and beyond is said to be
mapped, though its next page is not. -/
theorem wrapped_range_reported_mapped : ∃ k, Booted k ∧ k.liveProcess 2 = true ∧
    virtualIsMapped 2 0x1000 0xFFFFFFFF k = .ok 1 k ∧
    Overlaps 0x1000 0xFFFFFFFF 2 ∧ ¬k.vm.HasPage (k.dirOf 2) 2 ∧
    Overlaps 0x1000 0xFFFFFFFF (2 ^ 20) ∧ ¬k.vm.HasPage (k.dirOf 2) (2 ^ 20) := by
  have hany : (runPages (fun _ => 0) [0x2000] []).any (fun k => k.liveProcess 2 &&
      decide (k.vm.rangeMapped (k.dirOf 2) 0x1000 0xFFFFFFFF = some 1 ∧
        ¬k.vm.HasPage (k.dirOf 2) 2)) = true := by decide +kernel
  obtain ⟨k, _, hboot, hrun, hk⟩ := exists_run_of_any hany
  cases hrun
  rw [Bool.and_eq_true, decide_eq_true_eq] at hk
  obtain ⟨hlive, hmapped, hpage⟩ := hk
  exact ⟨k, hboot, hlive, virtualIsMapped_of_rangeMapped (Or.inr hlive) (by decide) hmapped,
    by decide, hpage, by decide, not_hasPage le_rfl⟩

end Horizon
