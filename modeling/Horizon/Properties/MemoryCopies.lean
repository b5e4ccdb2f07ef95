import Horizon.User.Blocks

/-!
# Horizon — copying memory that overlaps

A loop that copies element by element does the same as one copy of the whole range, if no byte is
written before it is read. Whether this is so depends only on the distance of the two ranges:
`memmove` chooses its direction by it, and for `memcpy` it is why the loop over words can stand in
for the loop over bytes.
-/

namespace Horizon.Libh

variable {dst src len : Word} {mem : Word → Byte} {n width : ℕ}

/-! ## `memmove` -/

theorem add_ofNat_succ_sub_one (x : Word) (n : ℕ) :
    x + BitVec.ofNat 32 (n + 1) - 1 = x + BitVec.ofNat 32 n := by
  rw [BitVec.ofNat_add, ← add_assoc]
  exact add_sub_cancel_right ..

variable (mem) in
theorem moveDown_eq (h : (dst - src).toNat + n ≤ 2 ^ 32) :
    moveDown n (dst + BitVec.ofNat 32 n) (src + BitVec.ofNat 32 n) mem =
      copyElement n dst src mem := by
  induction n generalizing mem with
  | zero =>
    funext x
    exact (if_neg (Nat.not_lt_zero _)).symm
  | succ n ih =>
    rw [moveDown, add_ofNat_succ_sub_one, add_ofNat_succ_sub_one, ih _ (by omega)]
    funext x
    have hoff : x - (dst + BitVec.ofNat 32 n) = x - dst - BitVec.ofNat 32 n :=
      sub_add_eq_sub_sub ..
    have hread : src + BitVec.ofNat 32 n + (x - dst - BitVec.ofNat 32 n) = src + (x - dst) :=
      add_add_sub_cancel ..
    have hsrc : src + (x - dst) - (dst + BitVec.ofNat 32 n) =
        x - dst - (dst - src + BitVec.ofNat 32 n) := by
      rw [sub_add_eq_sub_sub, sub_add_eq_sub_sub, sub_sub_eq_add_sub, add_comm src]
    have hnat := BitVec.toNat_sub (x - dst) (BitVec.ofNat 32 n)
    have hback := BitVec.toNat_sub (x - dst) (dst - src + BitVec.ofNat 32 n)
    rw [toNat_add_ofNat (by omega)] at hback
    rw [BitVec.toNat_ofNat] at hnat
    have hlt := (x - dst).isLt
    simp only [copyElement, hoff, hread, hsrc]
    -- The last byte has been copied, and is not read for any of the bytes before it.
    rcases Nat.lt_trichotomy (x - dst).toNat n with hbefore | hlast | hbehind
    · rw [if_pos hbefore, if_neg (by omega), if_pos (by omega)]
    · rw [if_neg (by omega), if_pos (by omega), if_pos (by omega)]
    · rw [if_neg (by omega), if_neg (by omega), if_neg (by omega)]

/-- In both directions `memmove` copies the range as it was. -/
theorem memmove_eq (mem : Word → Byte) (hdst : dst.toNat + len.toNat ≤ 2 ^ 32)
    (hsrc : src.toNat + len.toNat ≤ 2 ^ 32) :
    memmove dst src len mem = (dst, copyElement len.toNat dst src mem) := by
  rw [memmove]
  split
  · next hbelow =>
    have hdistance : (dst - src).toNat + len.toNat ≤ 2 ^ 32 := by
      rw [BitVec.lt_def] at hbelow
      rw [BitVec.toNat_sub]
      omega
    have hdown := moveDown_eq mem hdistance
    rw [BitVec.ofNat_toNat, BitVec.setWidth_eq] at hdown
    rw [hdown]
  · next habove =>
    have hdistance : (src - dst).toNat + 1 * len.toNat ≤ 2 ^ 32 := by
      rw [BitVec.lt_def] at habove
      rw [BitVec.toNat_sub]
      omega
    rw [copyElements_eq mem hdistance, Nat.one_mul]

/-- `memmove` leaves in the destination what the source held before the call, whether or not they
overlap, changes nothing else and returns the destination. -/
theorem memmove_copies (dst src len : Word) (mem : Word → Byte)
    (hdst : dst.toNat + len.toNat ≤ 2 ^ 32) (hsrc : src.toNat + len.toNat ≤ 2 ^ 32) :
    (memmove dst src len mem).1 = dst ∧
    (∀ i < len.toNat, (memmove dst src len mem).2 (dst + BitVec.ofNat 32 i) =
      mem (src + BitVec.ofNat 32 i)) ∧
    SameOutside dst.toNat (dst.toNat + len.toNat) mem (memmove dst src len mem).2 := by
  rw [memmove_eq mem hdst hsrc]
  exact ⟨rfl, fun i hi => copyElement_apply hi len.isLt, copyElement_sameOutside mem dst src hdst⟩

/-- Eight bytes are moved up by one, to the end of memory. -/
theorem memmove_overlapping :
    (0xFFFFFFF8#32).toNat + (8#32).toNat ≤ 2 ^ 32 ∧
    ∀ i < 8, (memmove 0xFFFFFFF8 0xFFFFFFF7 8 fun x => x.setWidth 8).2
      (0xFFFFFFF8 + BitVec.ofNat 32 i) = (0xFFFFFFF7 + BitVec.ofNat 32 i).setWidth 8 :=
  ⟨by decide, (memmove_copies 0xFFFFFFF8 0xFFFFFFF7 8 _ (by decide) (by decide)).2.1⟩

/-! ## `memcpy` -/

variable (mem) in
/-- A word is copied byte by byte: the words are the same one or do not overlap. -/
theorem copyElements_word (hdst : dst % 4 = 0) (hsrc : src % 4 = 0) :
    copyElements 1 4 dst src mem = copyElement 4 dst src mem := by
  refine copyElements_eq mem ?_
  have := toNat_of_words hdst
  have := toNat_of_words hsrc
  rw [BitVec.toNat_sub]
  omega

variable (mem) in
/-- The loop over words, in terms of the loop over bytes. The distance of the ranges stays the
same, so each step is that for one word. -/
theorem copyElements_words (hdst : dst % 4 = 0) (hsrc : src % 4 = 0) :
    copyElements 4 n dst src mem = copyElements 1 (4 * n) dst src mem := by
  induction n generalizing dst src mem with
  | zero => rfl
  | succ n ih =>
    have hnext {x : Word} (hx : x % 4 = 0) : (x + BitVec.ofNat 32 4) % 4 = 0 := by
      have := toNat_of_words hx
      apply BitVec.eq_of_toNat_eq
      show (x.toNat + 4) % 2 ^ 32 % 4 = 0
      omega
    have hfour (x : Word) : x + BitVec.ofNat 32 4 =
        x + BitVec.ofNat 32 1 + BitVec.ofNat 32 1 + BitVec.ofNat 32 1 + BitVec.ofNat 32 1 := by
      rw [add_assoc, add_assoc, add_assoc]
      rfl
    rw [copyElements, ih _ (hnext hdst) (hnext hsrc), ← copyElements_word mem hdst hsrc, hfour dst,
      hfour src]
    rfl

/-- If the alignment test of `memcpy` succeeds, it copies words, and this gives the same memory as
copying bytes. -/
theorem memcpy_words_eq_bytes (dst src len : Word) (mem : Word → Byte)
    (haligned : dst % 4 = 0 ∧ src % 4 = 0 ∧ len % 4 = 0) :
    memcpy dst src len mem = copyElements 4 (len / 4).toNat dst src mem ∧
    copyElements 4 (len / 4).toNat dst src mem = copyElements 1 len.toNat dst src mem := by
  refine ⟨if_pos haligned, ?_⟩
  rw [toNat_of_words haligned.2.2]
  exact copyElements_words mem haligned.1 haligned.2.1

/-- The destination is one word above the source, so the first word ends up in all of them. -/
theorem memcpy_overlapping :
    (0x1004#32 % 4 = 0 ∧ 0x1000#32 % 4 = 0 ∧ 8#32 % 4 = 0) ∧
    copyElements 4 2 0x1004 0x1000 (fun x => x.setWidth 8) =
      copyElements 1 8 0x1004 0x1000 fun x => x.setWidth 8 :=
  ⟨by decide, (memcpy_words_eq_bytes 0x1004 0x1000 8 _ (by decide)).2⟩

end Horizon.Libh
