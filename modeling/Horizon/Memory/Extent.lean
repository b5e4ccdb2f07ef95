import Horizon.Memory.Ranges

/-!
# Horizon — ranges of addresses, as numbers

A range of `size` bytes from `virt` on is a set of numbers, which may run past the end of the
address space. The code works with words: it adds `size` to `virt` and steps a cursor from page to
page, and both wrap. Pages are numbered here, `pageNo n` being the address of page `n`, so that
the two can be compared: `Overlaps` is about numbers, the page loops are about words.
-/

namespace Horizon

open StateError Vm

variable {vm : Vm} {d : Frame} {virt size start finish : Word} {n m : ℕ}

/-- The address of a page. The numbers of the address space are those below `2 ^ 20`. -/
def pageNo (n : ℕ) : Word := BitVec.ofNat 32 (4096 * n)

/-- Does the page have a byte in common with the range? -/
def Overlaps (virt size : Word) (n : ℕ) : Prop := overlaps virt.toNat size.toNat n

instance : Decidable (Overlaps virt size n) := inferInstanceAs (Decidable (_ ∧ _))

/-- Is there a page with this number, and is it mapped? -/
def Vm.HasPage (vm : Vm) (d : Frame) (n : ℕ) : Prop :=
  n < 2 ^ 20 ∧ vm.pagingIsMapped d (pageNo n) = true

instance : Decidable (vm.HasPage d n) := inferInstanceAs (Decidable (_ ∧ _))

theorem toNat_pageNo (h : n < 2 ^ 20) : (pageNo n).toNat = 4096 * n := by
  rw [pageNo, BitVec.toNat_ofNat, Nat.mod_eq_of_lt (by omega)]

theorem pageAt_pageNo : pageAt (pageNo m) n = pageNo (m + n) := by
  rw [pageAt, pageNo, pageNo, ← BitVec.ofNat_add, Nat.mul_add]

theorem pageNo_add_archPgsize : pageNo n + archPgsize = pageNo (n + 1) := by
  have hnext : pageAt (pageNo n) 1 = pageNo n + archPgsize := by rw [pageAt_succ, pageAt_zero]
  rw [← hnext, pageAt_pageNo]

/-- After the last page comes the first one. -/
theorem pageNo_mod : pageNo (n % 2 ^ 20) = pageNo n := by
  apply BitVec.eq_of_toNat_eq
  rw [pageNo, pageNo, BitVec.toNat_ofNat, BitVec.toNat_ofNat]
  omega

theorem addrAlign_eq_pageNo : addrAlign virt archPgsize = pageNo (virt.toNat / 4096) := by
  have hvirt := virt.isLt
  apply BitVec.eq_of_toNat_eq
  rw [toNat_addrAlign, toNat_pageNo (by omega), Nat.mul_comm]

theorem hasPage_iff (h : n < 2 ^ 20) :
    vm.HasPage d n ↔ vm.pagingIsMapped d (pageNo n) = true := and_iff_right h

theorem not_hasPage (h : 2 ^ 20 ≤ n) : ¬vm.HasPage d n := fun hpage => absurd hpage.1 (by omega)

variable (virt) in
theorem overlaps_first (hsize : size ≠ 0) : Overlaps virt size (virt.toNat / 4096) := by
  have hpos : size.toNat ≠ 0 := fun h => hsize (BitVec.eq_of_toNat_eq h)
  unfold Overlaps overlaps
  omega

theorem Overlaps.first_le (h : Overlaps virt size n) : virt.toNat / 4096 ≤ n := by
  unfold Overlaps overlaps at h
  omega

/-! ## The sum of a start and a size -/

theorem toNat_add_of_lt (h : virt.toNat + size.toNat < 2 ^ 32) :
    (virt + size).toNat = virt.toNat + size.toNat := by
  rw [BitVec.toNat_add, Nat.mod_eq_of_lt h]

theorem toNat_add_of_le (h : 2 ^ 32 ≤ virt.toNat + size.toNat) :
    (virt + size).toNat = virt.toNat + size.toNat - 2 ^ 32 := by
  have hvirt := virt.isLt
  have hsize := size.isLt
  rw [BitVec.toNat_add]
  omega

/-- The loop from the page of `virt` to the end of the range visits the pages that overlap. -/
theorem lt_pageCount_iff (h : virt.toNat + size.toNat < 2 ^ 32) (hm : virt.toNat / 4096 ≤ m) :
    m < virt.toNat / 4096 + pageCount (addrAlign virt archPgsize) (virt + size) ↔
      Overlaps virt size m := by
  unfold Overlaps overlaps pageCount
  rw [toNat_addrAlign, toNat_add_of_lt h]
  omega

/-! ## Loops that do not end -/

/-- No page lies at or after an address in the last page. -/
theorem pageNo_lt (hfinish : lastPage < finish) : pageNo n < finish := by
  have hlast : 0xFFFFF000 < finish.toNat := BitVec.lt_def.mp hfinish
  rw [BitVec.lt_def, pageNo, BitVec.toNat_ofNat]
  omega

/-- Such a loop of `virtual_is_mapped` is left only through a page that differs from the first. -/
theorem isMappedLoop_endless {state : Bool} {fuel : ℕ} (hfinish : lastPage < finish) :
    vm.isMappedLoop d state finish fuel (pageNo m) =
      if ∀ n < fuel, vm.pagingIsMapped d (pageNo (m + n)) = state then none else some (-1) := by
  induction fuel generalizing m with
  | zero =>
    rw [if_pos fun n hn => absurd hn (Nat.not_lt_zero n)]
    rfl
  | succ fuel ih =>
    have hall : (∀ n < fuel + 1, vm.pagingIsMapped d (pageNo (m + n)) = state) ↔
        vm.pagingIsMapped d (pageNo m) = state ∧
          ∀ n < fuel, vm.pagingIsMapped d (pageNo (m + 1 + n)) = state := by
      rw [Nat.forall_lt_succ_left]
      simp only [Nat.add_zero, Nat.add_assoc, Nat.add_comm 1]
    rw [isMappedLoop, if_pos (pageNo_lt hfinish), pageNo_add_archPgsize, ih]
    simp only [hall]
    by_cases hstate : vm.pagingIsMapped d (pageNo m) = state
    · simp only [hstate, ne_eq, not_true_eq_false, if_false, true_and]
    · simp only [hstate, ne_eq, not_false_eq_true, if_true, false_and, if_false]

/-- A loop to an address in the last page does not return. -/
theorem pageLoop_endless {body : Word → Word → VmM Unit} {fuel : ℕ} {other : Word} {vm' : Vm}
    (hfinish : lastPage < finish) : pageLoop body finish fuel (pageNo m) other vm ≠ .ok () vm' := by
  induction fuel generalizing m other vm with
  | zero => exact nofun
  | succ fuel ih =>
    intro h
    rw [pageLoop, if_pos (pageNo_lt hfinish), pageNo_add_archPgsize] at h
    obtain ⟨_, vm₁, -, hrest⟩ := bind_eq_ok.mp h
    exact ih hrest

theorem pageLoop_done {body : Word → Word → VmM Unit} {fuel : ℕ} {other : Word}
    (h : ¬start < finish) : pageLoop body finish (fuel + 1) start other = pure () := by
  rw [pageLoop, if_neg h]

end Horizon
