import Horizon.User.Malloc
import Horizon.Lib.Tiling

/-!
# Horizon — the blocks of the heap

A heap is well formed when its headers tile it (`Heap.Tiled`). A `Chunk` is a block as its header
describes it, together with the size that has been asked for if it is in use. `malloc`, `free` and
`realloc` replace some chunks by others of the same total size; `Heap.Changes` says what that means
for the blocks in use.
-/

namespace Horizon.Libh

open StateError Tiling

/-! ## Memory -/

/-- Memory is the same outside of an interval. -/
def SameOutside (lo hi : ℕ) (mem mem' : Word → Byte) : Prop :=
  ∀ x : Word, x.toNat < lo ∨ hi ≤ x.toNat → mem' x = mem x

section Memory

variable {mem mem' mem'' : Word → Byte} {lo hi lo' hi' n width : ℕ}
  {addr value x dst src len : Word}

theorem SameOutside.refl : SameOutside lo hi mem mem := fun _ _ => rfl

theorem SameOutside.trans (h₁ : SameOutside lo hi mem mem') (h₂ : SameOutside lo hi mem' mem'') :
    SameOutside lo hi mem mem'' :=
  fun x hx => (h₂ x hx).trans (h₁ x hx)

theorem SameOutside.mono (h : SameOutside lo hi mem mem') (hlo : lo' ≤ lo) (hhi : hi ≤ hi') :
    SameOutside lo' hi' mem mem' :=
  fun x hx => h x (by omega)

theorem SameOutside.loadWord_eq (h : SameOutside lo hi mem mem') (hlt : x.toNat + 4 ≤ 2 ^ 32)
    (hx : x.toNat + 4 ≤ lo ∨ hi ≤ x.toNat) : loadWord mem' x = loadWord mem x := by
  have hbyte (i : Word) (hi : i.toNat < 4) : mem' (x + i) = mem (x + i) := by
    have hnat : (x + i).toNat = x.toNat + i.toNat := by
      rw [BitVec.toNat_add, Nat.mod_eq_of_lt (by omega)]
    exact h _ (by omega)
  have hfirst := hbyte 0#32 (by decide)
  rw [BitVec.add_zero] at hfirst
  rw [loadWord, loadWord, hbyte 3 (by decide), hbyte 2 (by decide), hbyte 1 (by decide), hfirst]

variable (addr) in
theorem add_ne_add {i j : Word} (h : i ≠ j) : addr + i ≠ addr + j :=
  fun heq => h ((BitVec.add_right_inj _).mp heq)

theorem loadWord_storeWord : loadWord (storeWord mem addr value) addr = value := by
  have h0 (i : Word) (hi : i ≠ 0#32) : addr + i ≠ addr := by
    have := add_ne_add addr hi
    rwa [BitVec.add_zero] at this
  have hbyte3 : storeWord mem addr value (addr + 3) = (value >>> 24).setWidth 8 := by
    rw [storeWord, if_neg (h0 3 (by decide)), if_neg (add_ne_add addr (by decide)),
      if_neg (add_ne_add addr (by decide)), if_pos rfl]
  have hbyte2 : storeWord mem addr value (addr + 2) = (value >>> 16).setWidth 8 := by
    rw [storeWord, if_neg (h0 2 (by decide)), if_neg (add_ne_add addr (by decide)), if_pos rfl]
  have hbyte1 : storeWord mem addr value (addr + 1) = (value >>> 8).setWidth 8 := by
    rw [storeWord, if_neg (h0 1 (by decide)), if_pos rfl]
  have hbyte0 : storeWord mem addr value addr = value.setWidth 8 := if_pos rfl
  rw [loadWord, hbyte3, hbyte2, hbyte1, hbyte0]
  exact word_of_bytes value

variable (mem value) in
theorem storeWord_sameOutside (hn : addr.toNat = n) (h : n + 4 ≤ 2 ^ 32) :
    SameOutside n (n + 4) mem (storeWord mem addr value) := by
  subst hn
  intro x hx
  have hne (i : Word) (hi : i.toNat < 4) : x ≠ addr + i := by
    rintro rfl
    rw [BitVec.toNat_add, Nat.mod_eq_of_lt (by omega)] at hx
    omega
  have hzero := hne 0#32 (by decide)
  rw [BitVec.add_zero] at hzero
  rw [storeWord, if_neg hzero, if_neg (hne 1 (by decide)), if_neg (hne 2 (by decide)),
    if_neg (hne 3 (by decide))]

/-! ## Copying -/

theorem toNat_add_ofNat (h : x.toNat + n < 2 ^ 32) :
    (x + BitVec.ofNat 32 n).toNat = x.toNat + n := by
  rw [BitVec.toNat_add, BitVec.toNat_ofNat, Nat.mod_eq_of_lt (a := n) (by omega),
    Nat.mod_eq_of_lt h]

variable (mem dst src) in
theorem copyElement_sameOutside (h : dst.toNat + width ≤ 2 ^ 32) :
    SameOutside dst.toNat (dst.toNat + width) mem (copyElement width dst src mem) := by
  intro x hx
  refine if_neg fun hlt => ?_
  rw [BitVec.toNat_sub] at hlt
  omega

theorem copyElement_apply (hn : n < width) (hw : width < 2 ^ 32) :
    copyElement width dst src mem (dst + BitVec.ofNat 32 n) = mem (src + BitVec.ofNat 32 n) := by
  have hsub : dst + BitVec.ofNat 32 n - dst = BitVec.ofNat 32 n := by
    rw [BitVec.add_comm, BitVec.add_sub_cancel]
  rw [copyElement, hsub, if_pos]
  rw [BitVec.toNat_ofNat]
  omega

variable (mem) in
/-- Elements that are copied one after the other: as long as none is written before it is read,
this is the same as copying all of them at once. -/
theorem copyElements_eq (h : (src - dst).toNat + width * n ≤ 2 ^ 32) :
    copyElements width n dst src mem = copyElement (width * n) dst src mem := by
  induction n generalizing dst src mem with
  | zero =>
    funext x
    exact (if_neg (Nat.not_lt_zero _)).symm
  | succ n ih =>
    rw [Nat.mul_succ] at h ⊢
    rw [copyElements, ih _ (by rw [add_sub_add_right_eq_sub]; omega)]
    funext x
    have hoff : x - (dst + BitVec.ofNat 32 width) = x - dst - BitVec.ofNat 32 width :=
      sub_add_eq_sub_sub ..
    have hread : src + BitVec.ofNat 32 width + (x - dst - BitVec.ofNat 32 width) =
      src + (x - dst) := add_add_sub_cancel ..
    have hsrc : src + (x - dst) - dst = src - dst + (x - dst) := add_sub_right_comm ..
    have hnat := BitVec.toNat_sub (x - dst) (BitVec.ofNat 32 width)
    have hsum := BitVec.toNat_add (src - dst) (x - dst)
    rw [BitVec.toNat_ofNat] at hnat
    have hlt := (x - dst).isLt
    simp only [copyElement, hoff, hread, hsrc]
    -- What lies behind the first element is read from behind it, too.
    rcases Nat.lt_or_ge (x - dst).toNat width with hfirst | hlater
    · rw [if_neg (by omega), if_pos hfirst, if_pos (by omega)]
    · rcases Nat.lt_or_ge (x - dst).toNat (width * n + width) with hin | hout
      · rw [if_pos (by omega), if_neg (by omega), if_pos hin]
      · rw [if_neg (by omega), if_neg (by omega), if_neg (by omega)]

theorem toNat_of_words (h : len % 4 = 0) : len.toNat = 4 * (len / 4).toNat := by
  have h4 : (4 : Word).toNat = 4 := rfl
  have hzero : (0 : Word).toNat = 0 := rfl
  have hmod := congrArg BitVec.toNat h
  rw [BitVec.toNat_umod, h4] at hmod
  rw [BitVec.toNat_udiv, h4]
  omega

variable (dst src len mem) in
theorem memcpy_spec (hdst : dst.toNat + len.toNat < 2 ^ 32) (hsrc : src.toNat + len.toNat < 2 ^ 32)
    (hapart : dst.toNat + len.toNat ≤ src.toNat ∨ src.toNat + len.toNat ≤ dst.toNat) :
    SameOutside dst.toNat (dst.toNat + len.toNat) mem (memcpy dst src len mem) ∧
      ∀ i < len.toNat, memcpy dst src len mem (dst + BitVec.ofNat 32 i) =
        mem (src + BitVec.ofNat 32 i) := by
  have hdistance : (src - dst).toNat + len.toNat ≤ 2 ^ 32 := by
    rw [BitVec.toNat_sub]
    omega
  have hcopy : memcpy dst src len mem = copyElement len.toNat dst src mem := by
    rw [memcpy]
    split
    · next hwords =>
      rw [toNat_of_words hwords.2.2] at hdistance ⊢
      exact copyElements_eq mem hdistance
    · rw [copyElements_eq mem (by rwa [Nat.one_mul]), Nat.one_mul]
  rw [hcopy]
  exact ⟨copyElement_sameOutside mem dst src hdst.le, fun i hi => copyElement_apply hi len.isLt⟩

end Memory

/-! ## Chunks -/

/-- A block as its header describes it, and the size that has been asked for if it is in use. -/
structure Chunk where
  size : ℕ
  request : Option ℕ
  aligned : size % 8 = 0
  fits : request.getD 0 + 8 ≤ size

/-- What the header says. -/
def Chunk.word (c : Chunk) : Word := BitVec.ofNat 32 (c.size + c.request.isSome.toNat)

/-- The blocks with their addresses. -/
def Heap.placed (h : Heap) (bs : List Chunk) : List (ℕ × Chunk) :=
  place Chunk.size h.heapBase.toNat bs

/-- The headers from the start of the heap on tile it. -/
structure Heap.Tiled (h : Heap) (bs : List Chunk) : Prop where
  base : h.heapBase.toNat % 8 = 0 ∧ 0 < h.heapBase.toNat
  top : h.heapTop.toNat = h.heapBase.toNat + total Chunk.size bs
  limit : h.heapTop.toNat ≤ kernelVirtBase.toNat
  headers : ∀ x c, (x, c) ∈ h.placed bs → loadWord h.mem (BitVec.ofNat 32 x) = c.word

variable {h h' : Heap} {bs bs' xs ys us vs : List Chunk} {c d : Chunk} {x y n : ℕ} {size : Word}

theorem Chunk.eight_le : 8 ≤ c.size := (Nat.le_add_left 8 _).trans c.fits

theorem Heap.Tiled.bounds (ht : h.Tiled bs) (hx : (x, c) ∈ h.placed bs) :
    h.heapBase.toNat ≤ x ∧ x + c.size ≤ h.heapTop.toNat ∧ x + c.size ≤ 0xC0000000 := by
  obtain ⟨hlow, hhigh⟩ := bounds_of_mem hx
  rw [← ht.top] at hhigh
  exact ⟨hlow, hhigh, hhigh.trans ht.limit⟩

variable (x) in
theorem toNat_ofNat (hx : x < 2 ^ 32) : (BitVec.ofNat 32 x).toNat = x := by
  rw [BitVec.toNat_ofNat, Nat.mod_eq_of_lt hx]

theorem Chunk.toNat_word (hc : c.size < 0xC0000001) :
    c.word.toNat = c.size + c.request.isSome.toNat := by
  have hflag := Bool.toNat_le c.request.isSome
  exact toNat_ofNat _ (by omega)

theorem toNat_and_used (w : Word) : (w &&& mallocUsed).toNat = w.toNat % 2 := by
  rw [BitVec.toNat_and]
  exact Nat.and_one_is_mod _

theorem toNat_and_not_used (w : Word) : (w &&& ~~~mallocUsed).toNat = w.toNat / 2 * 2 := by
  have hmask : ~~~mallocUsed = BitVec.allOnes 32 <<< 1 := by decide
  rw [hmask]
  exact and_shiftLeft_allOnes w (by decide)

theorem Chunk.word_and_used (hc : c.size < 0xC0000001) :
    c.word &&& mallocUsed = 0 ↔ c.request = none := by
  have hzero : (0 : Word).toNat = 0 := rfl
  have haligned := c.aligned
  rw [← BitVec.toNat_inj, toNat_and_used, Chunk.toNat_word hc, hzero]
  cases hreq : c.request with
  | none =>
    refine iff_of_true ?_ rfl
    rw [Option.isSome_none, Bool.toNat_false]
    omega
  | some n =>
    refine iff_of_false ?_ nofun
    rw [Option.isSome_some, Bool.toNat_true]
    omega

theorem Chunk.word_and_not_used (hc : c.size < 0xC0000001) :
    c.word &&& ~~~mallocUsed = BitVec.ofNat 32 c.size := by
  have haligned := c.aligned
  have hflag := Bool.toNat_le c.request.isSome
  rw [← BitVec.toNat_inj, toNat_and_not_used, Chunk.toNat_word hc, toNat_ofNat _ (by omega)]
  omega

/-! ## Replacing chunks -/

/-- What a call does to the blocks in use: the one at `gone` is not any more, the one at `new` is
now, and the others are still there with all their bytes. -/
structure Heap.Changes (h : Heap) (bs : List Chunk) (h' : Heap) (bs' : List Chunk)
    (gone : Option ℕ) (new : Option (ℕ × Chunk)) : Prop where
  base : h'.heapBase = h.heapBase
  tiled : h'.Tiled bs'
  live : ∀ y d, d.request ≠ none →
    ((y, d) ∈ h.placed bs' ↔ (y, d) ∈ h.placed bs ∧ gone ≠ some y ∨ new = some (y, d))
  bytes : ∀ y d, d.request ≠ none → (y, d) ∈ h.placed bs → gone ≠ some y →
    ∀ z : Word, y ≤ z.toNat → z.toNat < y + d.size → h'.mem z = h.mem z
  fresh : ∀ y d, new = some (y, d) → gone = some y ∨
    ∀ d', d'.request ≠ none → (y, d') ∉ h.placed bs

theorem Heap.Changes.placed_eq {gone : Option ℕ} {new : Option (ℕ × Chunk)}
    (hch : h.Changes bs h' bs' gone new) (l : List Chunk) : h'.placed l = h.placed l := by
  rw [Heap.placed, hch.base]
  rfl

section Replace

variable {mem' : Word → Byte} (hx : x = h.heapBase.toNat + total Chunk.size xs)

include hx in
theorem placed_outside (hd : (y, d) ∈ place Chunk.size h.heapBase.toNat xs ∨
    (y, d) ∈ place Chunk.size (x + total Chunk.size us) ys) : (y, d) ∈ h.placed (xs ++ us ++ ys) ∧
      (y + d.size ≤ x ∨ x + total Chunk.size us ≤ y) := by
  rw [hx] at hd ⊢
  rw [Heap.placed, mem_place_parts]
  obtain hd | hd := hd
  · exact ⟨.inl hd, .inl (bounds_of_mem hd).2⟩
  · exact ⟨.inr (.inr hd), .inr (bounds_of_mem hd).1⟩

variable (ht : h.Tiled (xs ++ us ++ ys)) (htotal : total Chunk.size vs = total Chunk.size us)
  (hsame : SameOutside x (x + total Chunk.size us) h.mem mem')
  (hheaders : ∀ y d, (y, d) ∈ place Chunk.size x vs → loadWord mem' (BitVec.ofNat 32 y) = d.word)

include hx ht htotal hsame hheaders

theorem Heap.Tiled.replace : ({ h with mem := mem' } : Heap).Tiled (xs ++ vs ++ ys) := by
  have htop := ht.top
  rw [total_append, total_append] at htop
  refine ⟨ht.base, ?_, ht.limit, fun y d hd => ?_⟩
  · rw [total_append, total_append, htotal]
    exact htop
  · have hkeep (hout : (y, d) ∈ place Chunk.size h.heapBase.toNat xs ∨
        (y, d) ∈ place Chunk.size (x + total Chunk.size us) ys) :
        loadWord mem' (BitVec.ofNat 32 y) = d.word := by
      obtain ⟨hmem, hapart⟩ := placed_outside hx hout
      have hbounds := ht.bounds hmem
      have h8 := d.eight_le
      have hnat := toNat_ofNat y (by omega)
      rw [hsame.loadWord_eq (by omega) (by omega), ht.headers y d hmem]
    have hparts := mem_place_parts.mp hd
    rw [htotal, ← hx] at hparts
    obtain hd | hd | hd := hparts
    · exact hkeep (.inl hd)
    · exact hheaders y d hd
    · exact hkeep (.inr hd)

/-- Blocks that are replaced by others of the same total size leave the rest as it is. -/
theorem Heap.Tiled.changes_replace {gone : Option ℕ} {new : Option (ℕ × Chunk)}
    (hgone : ∀ y d, d.request ≠ none → (y, d) ∈ place Chunk.size x us → gone = some y)
    (hinside : ∀ y, gone = some y → x ≤ y ∧ y < x + total Chunk.size us)
    (hused : ∀ y d, new = some (y, d) → d.request ≠ none) (hnew : ∀ y d, d.request ≠ none →
      ((y, d) ∈ place Chunk.size x vs ↔ new = some (y, d))) :
    h.Changes (xs ++ us ++ ys) { h with mem := mem' } (xs ++ vs ++ ys) gone new := by
  have hold (y : ℕ) (d : Chunk) : (y, d) ∈ h.placed (xs ++ us ++ ys) ↔
      ((y, d) ∈ place Chunk.size h.heapBase.toNat xs ∨
        (y, d) ∈ place Chunk.size (x + total Chunk.size us) ys) ∨
      (y, d) ∈ place Chunk.size x us := by
    rw [Heap.placed, mem_place_parts, hx]
    exact ⟨fun h => by tauto, fun h => by tauto⟩
  -- A block outside of the part replaced is not the one that goes.
  have hrest (y : ℕ) (d : Chunk) (hd : (y, d) ∈ place Chunk.size h.heapBase.toNat xs ∨
      (y, d) ∈ place Chunk.size (x + total Chunk.size us) ys) : gone ≠ some y := by
    intro hy
    have hapart := (placed_outside hx hd).2
    have h8 := d.eight_le
    have := hinside y hy
    omega
  refine ⟨rfl, ht.replace hx htotal hsame hheaders, fun y d hd => ?_, fun y d hd hmem hy z => ?_,
    fun y d hy => ?_⟩
  · rw [hold, Heap.placed, mem_place_parts, htotal, ← hx, hnew y d hd]
    constructor
    · rintro (hmem | hmem | hmem)
      · exact .inl ⟨.inl (.inl hmem), hrest y d (.inl hmem)⟩
      · exact .inr hmem
      · exact .inl ⟨.inl (.inr hmem), hrest y d (.inr hmem)⟩
    · rintro (⟨(hmem | hmem) | hmem, hy⟩ | hmem)
      · exact .inl hmem
      · exact .inr (.inr hmem)
      · exact absurd (hgone y d hd hmem) hy
      · exact .inr (.inl hmem)
  · obtain hmem | hmem := (hold y d).mp hmem
    · have hapart := (placed_outside hx hmem).2
      exact fun hlow hhigh => hsame z (by omega)
    · exact absurd (hgone y d hd hmem) hy
  · by_cases hgone' : gone = some y
    · exact .inl hgone'
    · refine .inr fun d' hd' hmem => ?_
      have hbounds := bounds_of_mem ((hnew y d (hused y d hy)).mpr hy)
      have h8 := d.eight_le
      have h8' := d'.eight_le
      rw [htotal] at hbounds
      obtain hmem | hmem := (hold y d').mp hmem
      · have hapart := (placed_outside hx hmem).2
        omega
      · exact hgone' (hgone y d' hd' hmem)

end Replace

/-- Of a chunk and free ones behind it only the first can be in use. -/
theorem used_mem_place {rs : List Chunk} (hrs : ∀ r ∈ rs, r.request = none)
    (hd : d.request ≠ none) : (y, d) ∈ place Chunk.size x (c :: rs) ↔ (y, d) = (x, c) := by
  refine ⟨fun h => ?_, fun h => List.mem_cons.mpr (.inl h)⟩
  obtain h | h := List.mem_cons.mp h
  · exact h
  · exact absurd (hrs d (mem_of_place h)) hd

/-! ## Finding a block -/

theorem loadSize_apply {header : Word} : loadSize header h = .ok (loadWord h.mem header) h := rfl

theorem Heap.Tiled.mem_placed (xs : List Chunk) (c : Chunk) (bs : List Chunk) (h : Heap) :
    (h.heapBase.toNat + total Chunk.size xs, c) ∈ h.placed (xs ++ c :: bs) :=
  mem_place.mpr ⟨xs, bs, rfl, rfl⟩

theorem Heap.Tiled.toNat_place (ht : h.Tiled (xs ++ bs)) :
    (BitVec.ofNat 32 (h.heapBase.toNat + total Chunk.size xs)).toNat =
      h.heapBase.toNat + total Chunk.size xs ∧
    h.heapTop.toNat = h.heapBase.toNat + total Chunk.size xs + total Chunk.size bs := by
  have htop := ht.top
  have hlt := h.heapTop.isLt
  rw [total_append] at htop
  exact ⟨toNat_ofNat _ (by omega), by omega⟩

variable (xs size) in
/-- The search from a block on: it ends at the first free one that is large enough. -/
theorem findFitLoop_eq {fuel : ℕ} (ht : h.Tiled (xs ++ bs)) (hfuel : bs.length < fuel) :
    ∃ header, findFitLoop size fuel
        (BitVec.ofNat 32 (h.heapBase.toNat + total Chunk.size xs)) h = .ok header h ∧
      (header = 0 ∧ (∀ c ∈ bs, c.request = none → c.size < size.toNat) ∨
        ∃ ys c zs, bs = ys ++ c :: zs ∧ c.request = none ∧ size.toNat ≤ c.size ∧
          header = BitVec.ofNat 32 (h.heapBase.toNat + total Chunk.size (xs ++ ys))) := by
  induction bs generalizing xs fuel with
  | nil =>
    obtain ⟨fuel, rfl⟩ : ∃ n, fuel = n + 1 := ⟨fuel - 1, by omega⟩
    obtain ⟨hnat, htop⟩ := ht.toNat_place
    have hend : ¬BitVec.ofNat 32 (h.heapBase.toNat + total Chunk.size xs) < h.heapTop := by
      rw [BitVec.lt_def, hnat, htop, total_nil]
      omega
    refine ⟨0, ?_, .inl ⟨rfl, fun c hc => absurd hc List.not_mem_nil⟩⟩
    rw [findFitLoop, get_bind_apply, if_neg hend]
    rfl
  | cons c bs ih =>
    obtain ⟨fuel, rfl⟩ : ∃ n, fuel = n + 1 := ⟨fuel - 1, by omega⟩
    have hnat := ht.toNat_place.1
    have hmem := Heap.Tiled.mem_placed xs c bs h
    have hbounds := ht.bounds hmem
    have h8 := c.eight_le
    have hsize : c.size < 0xC0000001 := by omega
    have hlt : BitVec.ofNat 32 (h.heapBase.toNat + total Chunk.size xs) < h.heapTop := by
      rw [BitVec.lt_def, hnat]
      omega
    rw [findFitLoop, get_bind_apply, if_pos hlt, bind_apply_of_ok loadSize_apply,
      ht.headers _ c hmem]
    -- The test compares with the whole word, but the flag is clear where it matters.
    by_cases hfit : size ≤ c.word ∧ c.word &&& mallocUsed = 0
    · have hreq := (Chunk.word_and_used hsize).mp hfit.2
      have hle := BitVec.le_def.mp hfit.1
      rw [Chunk.toNat_word hsize, hreq, Option.isSome_none, Bool.toNat_false] at hle
      refine ⟨_, ?_, .inr ⟨[], c, bs, rfl, hreq, hle, by rw [List.append_nil]⟩⟩
      rw [if_pos hfit]
      rfl
    · have hnext : BitVec.ofNat 32 (h.heapBase.toNat + total Chunk.size xs) +
          (c.word &&& ~~~mallocUsed) =
          BitVec.ofNat 32 (h.heapBase.toNat + total Chunk.size (xs ++ [c])) := by
        rw [Chunk.word_and_not_used hsize, ← BitVec.ofNat_add, total_append, total_cons,
          total_nil, Nat.add_assoc, Nat.add_zero]
      have hsmall : c.request = none → c.size < size.toNat := by
        intro hreq
        refine Nat.not_le.mp fun hle => hfit ⟨BitVec.le_def.mpr ?_,
          (Chunk.word_and_used hsize).mpr hreq⟩
        rw [Chunk.toNat_word hsize]
        omega
      have ht' : h.Tiled (xs ++ [c] ++ bs) := by
        rw [List.append_assoc, List.singleton_append]
        exact ht
      obtain ⟨header, hloop, hcases⟩ := ih (xs ++ [c]) ht' (Nat.lt_of_succ_lt_succ hfuel)
      refine ⟨header, by rw [if_neg hfit, hnext, hloop], ?_⟩
      obtain ⟨rfl, hnone⟩ | ⟨ys, d, zs, rfl, hd, hle, hheader⟩ := hcases
      · exact .inl ⟨rfl, List.forall_mem_cons.mpr ⟨hsmall, hnone⟩⟩
      · refine .inr ⟨c :: ys, d, zs, rfl, hd, hle, ?_⟩
        rw [hheader, List.append_assoc, List.singleton_append]

/-- Is there a free block that is large enough? -/
def HasFit (bs : List Chunk) (blockSize : Word) : Prop :=
  ∃ c ∈ bs, c.request = none ∧ blockSize.toNat ≤ c.size

variable (size) in
theorem findFit_eq (ht : h.Tiled bs) : ¬HasFit bs size ∧ findFit size h = .ok 0 h ∨
      ∃ xs c ys, bs = xs ++ [c] ++ ys ∧ c.request = none ∧ size.toNat ≤ c.size ∧
        findFit size h = .ok (BitVec.ofNat 32 (h.heapBase.toNat + total Chunk.size xs)) h := by
  have hlength : bs.length ≤ total Chunk.size bs :=
    length_le_total fun c _ => Nat.lt_of_lt_of_le (by decide) c.eight_le
  have htop := ht.top
  have hfuel : bs.length < (h.heapTop - h.heapBase).toNat + 1 := by
    rw [BitVec.toNat_sub_of_le (BitVec.le_def.mpr (by omega))]
    omega
  have hstart : BitVec.ofNat 32 (h.heapBase.toNat + total Chunk.size []) = h.heapBase := by
    rw [total_nil, Nat.add_zero, BitVec.ofNat_toNat, BitVec.setWidth_eq]
  obtain ⟨header, hloop, hcases⟩ := findFitLoop_eq [] size ht hfuel
  rw [hstart] at hloop
  have hfind : findFit size h = .ok header h := hloop
  obtain ⟨rfl, hnone⟩ | ⟨ys, c, zs, rfl, hc, hle, rfl⟩ := hcases
  · refine .inl ⟨fun ⟨c, hc, hreq, hle⟩ => ?_, hfind⟩
    exact absurd hle (Nat.not_le.mpr (hnone c hc hreq))
  · refine .inr ⟨ys, c, zs, ?_, hc, hle, hfind⟩
    rw [List.append_assoc, List.singleton_append]

/-! ## Taking a block -/

theorem or_used (hw : size.toNat % 8 = 0) (hlt : size.toNat < 0xC0000001) :
    size ||| mallocUsed = BitVec.ofNat 32 (size.toNat + 1) := by
  have hand : size &&& mallocUsed = 0#32 := by
    have hzero : (0#32).toNat = 0 := rfl
    rw [← BitVec.toNat_inj, toNat_and_used, hzero]
    omega
  have hone : mallocUsed.toNat = 1 := rfl
  rw [← BitVec.add_eq_or_of_and_eq_zero _ _ hand, ← BitVec.toNat_inj, BitVec.toNat_add, hone,
    toNat_ofNat _ (by omega)]
  omega

/-- Whatever the size of the block, its data are behind its header. -/
theorem takeBlock_ptr (h : Heap) (x : ℕ) (blockSize : Word) : ∃ mem',
    takeBlock (BitVec.ofNat 32 x) blockSize h =
      .ok (BitVec.ofNat 32 (x + 8)) { h with mem := mem' } := by
  rw [takeBlock, bind_apply_of_ok loadSize_apply, BitVec.ofNat_add]
  split
  · exact ⟨_, rfl⟩
  · exact ⟨_, rfl⟩

/-- A free block is replaced by one in use and free ones behind it. -/
theorem Heap.Tiled.changes_take {mem' : Word → Byte} {rs : List Chunk} {c' : Chunk}
    (hx : x = h.heapBase.toNat + total Chunk.size xs) (ht : h.Tiled (xs ++ [c] ++ ys))
    (hc : c.request = none) (hc' : c'.request = some n) (hrs : ∀ r ∈ rs, r.request = none)
    (htotal : total Chunk.size (c' :: rs) = c.size) (hsame : SameOutside x (x + c.size) h.mem mem')
    (hheaders : ∀ y d, (y, d) ∈ place Chunk.size x (c' :: rs) →
      loadWord mem' (BitVec.ofNat 32 y) = d.word) :
    h.Changes (xs ++ [c] ++ ys) { h with mem := mem' } (xs ++ (c' :: rs) ++ ys) none
      (some (x, c')) := by
  have hsingle : total Chunk.size [c] = c.size := rfl
  refine ht.changes_replace hx (htotal.trans hsingle.symm) (hsingle ▸ hsame) hheaders
    (fun y d hd hmem => ?_) nofun (fun y d hyd => ?_) (fun y d hd => ?_)
  · have hdc := (used_mem_place (fun r hr => absurd hr List.not_mem_nil) hd).mp hmem
    exact absurd ((Prod.mk.inj hdc).2 ▸ hc) hd
  · obtain ⟨rfl, rfl⟩ := Prod.mk.inj (Option.some.inj hyd)
    exact hc'.trans_ne (Option.some_ne_none _)
  · rw [used_mem_place hrs hd, Option.some_inj, eq_comm]

theorem takeBlock_split {header blockSize word : Word} (hword : loadWord h.mem header = word)
    (hsplit : mallocAlignment * 2 ≤ word - blockSize) :
    takeBlock header blockSize h = .ok (header + headerSize)
      { h with mem := storeWord (storeWord (storeWord h.mem (header + blockSize) (word - blockSize))
        header blockSize) header (blockSize ||| mallocUsed) } := by
  rw [takeBlock, bind_apply_of_ok loadSize_apply, hword, if_pos hsplit]
  simp only [storeSize, modify_bind_apply, loadSize, get_bind_apply, pure_bind, bind_assoc,
    loadWord_storeWord]
  rfl

theorem takeBlock_whole {header blockSize word : Word} (hword : loadWord h.mem header = word)
    (hwhole : ¬mallocAlignment * 2 ≤ word - blockSize) :
    takeBlock header blockSize h = .ok (header + headerSize)
      { h with mem := storeWord h.mem header (word ||| mallocUsed) } := by
  rw [takeBlock, bind_apply_of_ok loadSize_apply, hword, if_neg hwhole]
  simp only [storeSize, loadSize, get_bind_apply, pure_bind, bind_assoc, hword]
  rfl

/-- A free block is taken, and split if the rest is large enough to be a block. -/
theorem takeBlock_changes {blockSize : Word} (hx : x = h.heapBase.toNat + total Chunk.size xs)
    (ht : h.Tiled (xs ++ [c] ++ ys)) (hc : c.request = none) (hle : blockSize.toNat ≤ c.size)
    (haligned : blockSize.toNat % 8 = 0) (hn : n + 8 ≤ blockSize.toNat) :
    ∃ h' vs c', takeBlock (BitVec.ofNat 32 x) blockSize h = .ok (BitVec.ofNat 32 (x + 8)) h' ∧
      c'.request = some n ∧
      h.Changes (xs ++ [c] ++ ys) h' (xs ++ vs ++ ys) none (some (x, c')) := by
  have hmem : (x, c) ∈ h.placed (xs ++ [c] ++ ys) := by
    rw [hx, List.append_assoc, List.singleton_append]
    exact Heap.Tiled.mem_placed xs c ys h
  have hbounds := ht.bounds hmem
  have h8 := c.eight_le
  have hcal := c.aligned
  have hnat : (BitVec.ofNat 32 x).toNat = x := toNat_ofNat _ (by omega)
  have hsize : (BitVec.ofNat 32 c.size).toNat = c.size := toNat_ofNat _ (by omega)
  have hword : loadWord h.mem (BitVec.ofNat 32 x) = BitVec.ofNat 32 c.size := by
    rw [ht.headers x c hmem, Chunk.word, hc]
    rfl
  have hptr : BitVec.ofNat 32 x + headerSize = BitVec.ofNat 32 (x + 8) :=
    (BitVec.ofNat_add _ _).symm
  have hrem : (BitVec.ofNat 32 c.size - blockSize).toNat = c.size - blockSize.toNat := by
    rw [BitVec.toNat_sub_of_le (BitVec.le_def.mpr (by omega)), hsize]
  have h16 : (mallocAlignment * 2).toNat = 16 := rfl
  by_cases hsplit : mallocAlignment * 2 ≤ BitVec.ofNat 32 c.size - blockSize
  · have hge := BitVec.le_def.mp hsplit
    rw [hrem, h16] at hge
    have hnext : (BitVec.ofNat 32 x + blockSize).toNat = x + blockSize.toNat := by
      rw [BitVec.toNat_add, hnat, Nat.mod_eq_of_lt (by omega)]
    let c' : Chunk := ⟨blockSize.toNat, some n, haligned, hn⟩
    let r : Chunk := ⟨c.size - blockSize.toNat, none, by omega, by rw [Option.getD_none]; omega⟩
    have hsame₁ := storeWord_sameOutside h.mem (BitVec.ofNat 32 c.size - blockSize) hnext (by omega)
    have hsame₂ (m : Word → Byte) (v : Word) := storeWord_sameOutside m v hnat (by omega)
    have htake := takeBlock_split hword hsplit
    rw [hptr] at htake
    refine ⟨_, [c', r], c', htake, rfl, ht.changes_take hx hc rfl ?_ ?_ ?_ ?_⟩
    · exact fun d hd => List.mem_singleton.mp hd ▸ rfl
    · rw [total_cons, total_cons, total_nil]
      exact Nat.add_sub_of_le hle
    · exact (hsame₁.mono (by omega) (by omega)).trans
        (((hsame₂ _ _).trans (hsame₂ _ _)).mono le_rfl (by omega))
    · intro y d hd
      obtain hd | hd := List.mem_cons.mp hd
      · obtain ⟨rfl, rfl⟩ := Prod.mk.inj hd
        rw [loadWord_storeWord, or_used haligned (by omega)]
        rfl
      · obtain ⟨rfl, rfl⟩ := Prod.mk.inj (List.mem_singleton.mp hd)
        have hat : BitVec.ofNat 32 (x + blockSize.toNat) = BitVec.ofNat 32 x + blockSize := by
          rw [← BitVec.toNat_inj, hnext, toNat_ofNat _ (by omega)]
        -- The header of the rest is behind the other one.
        refine (congrArg _ hat).trans (((hsame₂ _ _).trans (hsame₂ _ _)).loadWord_eq
          (by omega) (.inr (by omega)) |>.trans ?_)
        rw [loadWord_storeWord, ← BitVec.toNat_inj, hrem]
        exact (toNat_ofNat _ (by omega)).symm
  · let c' : Chunk := ⟨c.size, some n, hcal, hn.trans hle⟩
    have htake := takeBlock_whole hword hsplit
    rw [hptr] at htake
    refine ⟨_, [c'], c', htake, rfl, ht.changes_take hx hc rfl
      (fun d hd => absurd hd List.not_mem_nil) rfl ?_ ?_⟩
    · exact (storeWord_sameOutside h.mem _ hnat (by omega)).mono le_rfl (by omega)
    · intro y d hd
      obtain ⟨rfl, rfl⟩ := Prod.mk.inj (List.mem_singleton.mp hd)
      rw [loadWord_storeWord, or_used (by omega) (by omega), hsize]
      rfl

/-! ## Growing the heap -/

/-- Does `vmap` succeed? -/
def Heap.Grants (h : Heap) (blockSize : Word) : Prop :=
  h.grant = true ∧ pageRound blockSize ≠ 0 ∧ h.heapTop + pageRound blockSize ≤ kernelVirtBase

/-- Is the range that `vmap` is asked for below `KERNEL_VIRT_BASE`? -/
def Heap.Below (h : Heap) (blockSize : Word) : Prop :=
  h.heapTop.toNat + (pageRound blockSize).toNat ≤ kernelVirtBase.toNat

theorem mallocHeapExpand_of_grants {blockSize : Word} (hg : h.Grants blockSize) :
    mallocHeapExpand blockSize h = .ok h.heapTop
      { h with
        mem := storeWord h.mem h.heapTop (pageRound blockSize)
        heapTop := h.heapTop + pageRound blockSize } := by
  have hvmap : vmap h.heapTop (pageRound blockSize) h = .ok true h := by
    have hcond : (h.grant && decide (pageRound blockSize ≠ 0 ∧
        h.heapTop + pageRound blockSize ≤ kernelVirtBase)) = true := by
      rw [hg.1, Bool.true_and]
      exact decide_eq_true hg.2
    rw [vmap, get_bind_apply, hcond]
    rfl
  rw [mallocHeapExpand, get_bind_apply, bind_apply_of_ok hvmap]
  rfl

theorem mallocHeapExpand_of_not_grants {blockSize : Word} (hg : ¬h.Grants blockSize) :
    mallocHeapExpand blockSize h = .ok 0 h := by
  have hvmap : vmap h.heapTop (pageRound blockSize) h = .ok false h := by
    have hcond : (h.grant && decide (pageRound blockSize ≠ 0 ∧
        h.heapTop + pageRound blockSize ≤ kernelVirtBase)) = false := by
      rw [Bool.and_eq_false_iff, decide_eq_false_iff_not, ← Bool.not_eq_true, ← not_and_or]
      exact hg
    rw [vmap, get_bind_apply, hcond]
    rfl
  rw [mallocHeapExpand, get_bind_apply, bind_apply_of_ok hvmap]
  rfl

theorem toNat_pageRound (blockSize : Word) :
    (pageRound blockSize).toNat = (blockSize.toNat + 4095) % 2 ^ 32 / 4096 * 4096 := by
  have hmask : ~~~(archPgsize - 1) = BitVec.allOnes 32 <<< 12 := by decide
  have hsum : blockSize + archPgsize - 1 = blockSize + 4095 := by
    have h4095 : archPgsize - 1 = (4095 : Word) := by decide
    rw [BitVec.sub_eq_add_neg, BitVec.add_assoc, ← BitVec.sub_eq_add_neg, h4095]
  have h4095 : (4095 : Word).toNat = 4095 := rfl
  rw [pageRound, hmask, hsum]
  refine (and_shiftLeft_allOnes _ (by decide)).trans ?_
  rw [BitVec.toNat_add, h4095]
  rfl

/-- Growing the heap puts a free block behind the last one. -/
theorem Heap.Tiled.grow {blockSize : Word} (ht : h.Tiled bs) (hbelow : h.Below blockSize)
    (hpos : pageRound blockSize ≠ 0) :
    ∃ c : Chunk, c.request = none ∧ c.size = (pageRound blockSize).toNat ∧
      h.Changes bs
        { h with
          mem := storeWord h.mem h.heapTop (pageRound blockSize)
          heapTop := h.heapTop + pageRound blockSize } (bs ++ [c]) none none := by
  have hround := toNat_pageRound blockSize
  rw [ne_eq, ← BitVec.toNat_inj] at hpos
  have hzero : (0 : Word).toNat = 0 := rfl
  have hlimit : kernelVirtBase.toNat = 0xC0000000 := rfl
  have htop := ht.top
  rw [Heap.Below, hlimit] at hbelow
  let c : Chunk := ⟨(pageRound blockSize).toNat, none, by omega, by rw [Option.getD_none]; omega⟩
  have hsame := storeWord_sameOutside h.mem (pageRound blockSize) (rfl : h.heapTop.toNat = _)
    (by omega)
  have hplaced (y : ℕ) (d : Chunk) : (y, d) ∈ h.placed (bs ++ [c]) ↔
      (y, d) ∈ h.placed bs ∨ (y, d) = (h.heapTop.toNat, c) := by
    rw [Heap.placed, place_append, List.mem_append, ← htop]
    exact or_congr_right List.mem_singleton
  -- The heap ends below the kernel's half, so its new end does not wrap.
  have hsum : (h.heapTop + pageRound blockSize).toNat =
      h.heapTop.toNat + (pageRound blockSize).toNat := by
    rw [BitVec.toNat_add, Nat.mod_eq_of_lt (by omega)]
  refine ⟨c, rfl, rfl, rfl, ⟨ht.base, ?_, ?_, fun y d hd => ?_⟩, fun y d hd => ?_,
    fun y d hd hmem _ z hlow hhigh => ?_, nofun⟩
  · rw [total_append, total_cons, total_nil, ← Nat.add_assoc, ← htop]
    exact hsum
  · rw [hsum]
    exact hbelow
  · obtain hd | hd := (hplaced y d).mp hd
    · have hbounds := ht.bounds hd
      have h8 := d.eight_le
      have hnat := toNat_ofNat y (by omega)
      refine (hsame.loadWord_eq (by omega) (.inl (by omega))).trans (ht.headers y d hd)
    · obtain ⟨rfl, rfl⟩ := Prod.mk.inj hd
      have hat : BitVec.ofNat 32 h.heapTop.toNat = h.heapTop := by
        rw [BitVec.ofNat_toNat, BitVec.setWidth_eq]
      have hwordc : c.word = pageRound blockSize := by
        rw [Chunk.word]
        exact (BitVec.ofNat_toNat ..).trans (BitVec.setWidth_eq _)
      rw [hat, loadWord_storeWord, hwordc]
  · rw [hplaced]
    constructor
    · rintro (hmem | hmem)
      · exact .inl ⟨hmem, nofun⟩
      · exact absurd ((Prod.mk.inj hmem).2 ▸ rfl) hd
    · rintro (⟨hmem, -⟩ | hmem)
      · exact .inl hmem
      · cases hmem
  · have hbounds := ht.bounds hmem
    exact hsame z (.inl (by omega))

/-! ## `malloc` -/

/-- The size of the block for a request. -/
def blockSizeOf (size : Word) : Word := mallocAlign (size + headerSize)

theorem malloc_eq : malloc size = (do
    let header ← findFit (blockSizeOf size)
    if header ≠ 0 then takeBlock header (blockSizeOf size) else do
      let header ← mallocHeapExpand (blockSizeOf size)
      if header = 0 then return 0 else takeBlock header (blockSizeOf size)) := rfl

theorem toNat_blockSizeOf (size : Word) : (blockSizeOf size).toNat =
    ((size.toNat + 8) % 2 ^ 32 + 7) % 2 ^ 32 / 8 * 8 := by
  have hmask : ~~~(mallocAlignment - 1) = BitVec.allOnes 32 <<< 3 := by decide
  have hsum : size + headerSize + mallocAlignment - 1 = size + headerSize + 7 := by
    have h7 : mallocAlignment - 1 = (7 : Word) := by decide
    rw [BitVec.sub_eq_add_neg, BitVec.add_assoc, ← BitVec.sub_eq_add_neg, h7]
  have h7 : (7 : Word).toNat = 7 := rfl
  have h8 : headerSize.toNat = 8 := rfl
  rw [blockSizeOf, mallocAlign, hmask, hsum]
  refine (and_shiftLeft_allOnes _ (by decide)).trans ?_
  rw [BitVec.toNat_add, BitVec.toNat_add, h7, h8]
  rfl

theorem Heap.Changes.trans_of_none {h'' : Heap} {bs'' : List Chunk} {gone : Option ℕ}
    {new : Option (ℕ × Chunk)} (h₁ : h.Changes bs h' bs' none none)
    (h₂ : h'.Changes bs' h'' bs'' gone new) : h.Changes bs h'' bs'' gone new := by
  have hplaced := h₁.placed_eq
  have hlive (y : ℕ) (d : Chunk) (hd : d.request ≠ none) :
      (y, d) ∈ h'.placed bs' ↔ (y, d) ∈ h.placed bs := by
    rw [hplaced, h₁.live y d hd]
    simp
  refine ⟨h₂.base.trans h₁.base, h₂.tiled, fun y d hd => ?_, fun y d hd hmem hy z hlow hhigh => ?_,
    fun y d hy => ?_⟩
  · rw [← hplaced, h₂.live y d hd, hlive y d hd]
  · have hmem' := (hlive y d hd).mpr hmem
    rw [h₂.bytes y d hd hmem' hy z hlow hhigh, h₁.bytes y d hd hmem nofun z hlow hhigh]
  · refine (h₂.fresh y d hy).imp_right fun hfresh d' hd' hmem => ?_
    exact hfresh d' hd' ((hlive y d' hd').mpr hmem)

theorem malloc_of_fit {header : Word} (hfind : findFit (blockSizeOf size) h = .ok header h)
    (hheader : header ≠ 0) : malloc size h = takeBlock header (blockSizeOf size) h := by
  rw [malloc_eq, bind_apply_of_ok hfind, if_pos hheader]

theorem malloc_of_grants (hfind : findFit (blockSizeOf size) h = .ok 0 h)
    (hg : h.Grants (blockSizeOf size)) (htop : h.heapTop ≠ 0) :
    malloc size h = takeBlock h.heapTop (blockSizeOf size)
      { h with
        mem := storeWord h.mem h.heapTop (pageRound (blockSizeOf size))
        heapTop := h.heapTop + pageRound (blockSizeOf size) } := by
  rw [malloc_eq, bind_apply_of_ok hfind, if_neg (not_not.mpr rfl),
    bind_apply_of_ok (mallocHeapExpand_of_grants hg), if_neg htop]

theorem malloc_eq_zero (ht : h.Tiled bs) (hfit : ¬HasFit bs (blockSizeOf size))
    (hg : ¬h.Grants (blockSizeOf size)) : malloc size h = .ok 0 h := by
  obtain ⟨-, hfind⟩ | ⟨xs, c, ys, rfl, hc, hle, -⟩ := findFit_eq (blockSizeOf size) ht
  · rw [malloc_eq, bind_apply_of_ok hfind, if_neg (not_not.mpr rfl),
      bind_apply_of_ok (mallocHeapExpand_of_not_grants hg), if_pos rfl]
    rfl
  · exact absurd ⟨c, by simp, hc, hle⟩ hfit

theorem ofNat_place_ne_zero (ht : h.Tiled (xs ++ bs)) :
    BitVec.ofNat 32 (h.heapBase.toNat + total Chunk.size xs) ≠ 0 := by
  have hzero : (0 : Word).toNat = 0 := rfl
  have hpos := ht.base.2
  rw [ne_eq, ← BitVec.toNat_inj, ht.toNat_place.1, hzero]
  omega

theorem Heap.Tiled.top_ne_zero (ht : h.Tiled bs) : h.heapTop ≠ 0 := by
  have hzero : (0 : Word).toNat = 0 := rfl
  have hpos := ht.base.2
  rw [ne_eq, ← BitVec.toNat_inj, ht.top, hzero]
  omega

variable {blockSize : Word}

theorem toNat_blockSizeOf_eq (hsize : size.toNat ≤ 2 ^ 32 - 16) :
    size.toNat + 8 ≤ (blockSizeOf size).toNat ∧ (blockSizeOf size).toNat < size.toNat + 16 := by
  have hblock := toNat_blockSizeOf size
  omega

variable (size) in
theorem blockSizeOf_aligned : (blockSizeOf size).toNat % 8 = 0 := by
  rw [toNat_blockSizeOf]
  omega

theorem ofNat_eight_ne_zero (hx : x ≤ 0xC0000000) : BitVec.ofNat 32 (x + 8) ≠ 0 := by
  intro hzero
  rw [← BitVec.toNat_inj, toNat_ofNat _ (by omega)] at hzero
  exact absurd hzero (Nat.succ_ne_zero _)

theorem ofNat_eight_inj (hx : x ≤ 0xC0000000) (hy : y ≤ 0xC0000000)
    (heq : BitVec.ofNat 32 (x + 8) = BitVec.ofNat 32 (y + 8)) : x = y := by
  rw [← BitVec.toNat_inj, toNat_ofNat _ (by omega), toNat_ofNat _ (by omega)] at heq
  exact Nat.add_right_cancel heq

theorem Heap.Changes.new_mem {gone : Option ℕ} (hch : h.Changes bs h' bs' gone (some (y, d)))
    (hd : d.request ≠ none) : (y, d) ∈ h'.placed bs' := by
  rw [hch.placed_eq, hch.live y d hd]
  exact .inr rfl

/-- A request that does not wrap is met if there is a block or memory for one. -/
theorem malloc_changes (ht : h.Tiled bs) (hsize : size.toNat ≤ 2 ^ 32 - 16)
    (hroom : HasFit bs (blockSizeOf size) ∨
      h.Grants (blockSizeOf size) ∧ h.Below (blockSizeOf size)) :
    ∃ h' bs' x c, malloc size h = .ok (BitVec.ofNat 32 (x + 8)) h' ∧
      c.request = some size.toNat ∧ h.Changes bs h' bs' none (some (x, c)) := by
  have hblock := toNat_blockSizeOf_eq hsize
  obtain ⟨hfit, hfind⟩ | ⟨xs, c, ys, rfl, hc, hle, hfind⟩ := findFit_eq (blockSizeOf size) ht
  · obtain ⟨hg, hbelow⟩ := hroom.resolve_left hfit
    obtain ⟨c, hc, hcsize, hgrow⟩ := ht.grow hbelow hg.2.1
    have hround := toNat_pageRound (blockSizeOf size)
    have hpos : (pageRound (blockSizeOf size)).toNat ≠ 0 :=
      fun hzero => hg.2.1 (BitVec.eq_of_toNat_eq hzero)
    have ht' := hgrow.tiled
    rw [← List.append_nil (bs ++ [c])] at ht'
    obtain ⟨h', vs, c', htake, hc', hchanges⟩ :=
      takeBlock_changes rfl ht' hc (by omega) (blockSizeOf_aligned size) hblock.1
    rw [List.append_nil] at hchanges
    refine ⟨h', _, _, c', ?_, hc', hgrow.trans_of_none hchanges⟩
    have hat : BitVec.ofNat 32 (h.heapBase.toNat + total Chunk.size bs) = h.heapTop := by
      rw [← ht.top, BitVec.ofNat_toNat, BitVec.setWidth_eq]
    rw [malloc_of_grants hfind hg ht.top_ne_zero, ← htake, hat]
  · have ht' := ht
    rw [List.append_assoc] at ht'
    obtain ⟨h', vs, c', htake, hc', hchanges⟩ :=
      takeBlock_changes rfl ht hc hle (blockSizeOf_aligned size) hblock.1
    refine ⟨h', _, _, c', ?_, hc', hchanges⟩
    rw [malloc_of_fit hfind (ofNat_place_ne_zero ht'), htake]

/-! ## `free` -/

variable {header word : Word}

theorem free_alone (hword : loadWord h.mem header = word)
    (halone : header + (word &&& ~~~mallocUsed) < h.heapTop →
      loadWord (storeWord h.mem header (word &&& ~~~mallocUsed))
        (header + (word &&& ~~~mallocUsed)) &&& mallocUsed ≠ 0) : free (header + headerSize) h =
      .ok () { h with mem := storeWord h.mem header (word &&& ~~~mallocUsed) } := by
  have hheader : header + headerSize - headerSize = header := BitVec.add_sub_cancel _ _
  simp only [free, hheader, storeSize, loadSize, get_bind_apply, modify_bind_apply, pure_bind,
    bind_assoc, hword, loadWord_storeWord]
  split
  · next hlt =>
    rw [get_bind_apply, if_neg (halone hlt)]
    rfl
  · rfl

theorem free_merge {nextWord : Word} (hword : loadWord h.mem header = word)
    (hlt : header + (word &&& ~~~mallocUsed) < h.heapTop)
    (hnext : loadWord (storeWord h.mem header (word &&& ~~~mallocUsed))
      (header + (word &&& ~~~mallocUsed)) = nextWord) (hfree : nextWord &&& mallocUsed = 0) :
    free (header + headerSize) h = .ok ()
      { h with
        mem := storeWord (storeWord h.mem header (word &&& ~~~mallocUsed)) header
          ((word &&& ~~~mallocUsed) + nextWord) } := by
  have hheader : header + headerSize - headerSize = header := BitVec.add_sub_cancel _ _
  simp only [free, hheader, storeSize, loadSize, get_bind_apply, modify_bind_apply, pure_bind,
    bind_assoc, hword, loadWord_storeWord]
  rw [if_pos hlt, get_bind_apply, hnext, if_pos hfree]
  simp only [get_bind_apply, loadWord_storeWord]
  rfl

/-- A block in use and free ones behind it become one free block. -/
theorem Heap.Tiled.changes_free {mem' : Word → Byte} {rs : List Chunk} {c' : Chunk}
    (hx : x = h.heapBase.toNat + total Chunk.size xs) (ht : h.Tiled (xs ++ (c :: rs) ++ ys))
    (hrs : ∀ r ∈ rs, r.request = none) (hc' : c'.request = none)
    (htotal : c'.size = total Chunk.size (c :: rs)) (hsame : SameOutside x (x + 4) h.mem mem')
    (hheader : loadWord mem' (BitVec.ofNat 32 x) = c'.word) :
    h.Changes (xs ++ (c :: rs) ++ ys) { h with mem := mem' } (xs ++ [c'] ++ ys) (some x) none := by
  have h8 := c'.eight_le
  have hsingle : total Chunk.size [c'] = c'.size := rfl
  refine ht.changes_replace hx (hsingle.trans htotal) (hsame.mono le_rfl (by omega))
    (fun y d hmem => ?_) (fun y d hd hmem => ?_) (fun y hy => ?_) nofun (fun y d hd => ?_)
  · obtain ⟨rfl, rfl⟩ := Prod.mk.inj (List.mem_singleton.mp hmem)
    exact hheader
  · have hyd := (used_mem_place hrs hd).mp hmem
    rw [(Prod.mk.inj hyd).1]
  · cases hy
    omega
  · rw [used_mem_place (fun r hr => absurd hr List.not_mem_nil) hd]
    refine iff_of_false (fun hyd => hd ?_) nofun
    rw [(Prod.mk.inj hyd).2, hc']

/-- A block in use becomes free, together with the next one if that is free. -/
theorem free_changes (ht : h.Tiled bs) (hmem : (x, c) ∈ h.placed bs) :
    ∃ h' bs', free (BitVec.ofNat 32 (x + 8)) h = .ok () h' ∧
      h.Changes bs h' bs' (some x) none := by
  have hbounds := ht.bounds hmem
  have h8 := c.eight_le
  have haligned := c.aligned
  have hword := ht.headers x c hmem
  obtain ⟨xs, ys, rfl, hx⟩ := mem_place.mp hmem
  have hnat : (BitVec.ofNat 32 x).toNat = x := toNat_ofNat x (by omega)
  have hsize : c.word &&& ~~~mallocUsed = BitVec.ofNat 32 c.size :=
    Chunk.word_and_not_used (by omega)
  have hptr : BitVec.ofNat 32 (x + 8) = BitVec.ofNat 32 x + headerSize := BitVec.ofNat_add _ _
  have hnext : BitVec.ofNat 32 x + (c.word &&& ~~~mallocUsed) = BitVec.ofNat 32 (x + c.size) := by
    rw [hsize, ← BitVec.ofNat_add]
  have hnextNat : (BitVec.ofNat 32 (x + c.size)).toNat = x + c.size := toNat_ofNat _ (by omega)
  have hsame (m : Word → Byte) (v : Word) := storeWord_sameOutside m v hnat (by omega)
  have hsplit : xs ++ c :: ys = xs ++ [c] ++ ys := by rw [List.append_assoc, List.singleton_append]
  rw [hptr]
  -- The source looks at the header behind the block, if there is one below the top.
  by_cases halone : ∃ d zs, ys = d :: zs ∧ d.request = none
  · -- Two blocks become one, with the sum of the sizes in its header.
    obtain ⟨d, zs, rfl, hd⟩ := halone
    have hplace : (x + c.size, d) ∈ h.placed (xs ++ c :: d :: zs) :=
      mem_place.mpr ⟨xs ++ [c], zs, by simp, by rw [total_append, total_cons, total_nil, hx]; omega⟩
    have hdbounds := ht.bounds hplace
    have hd8 := d.eight_le
    have hdaligned := d.aligned
    have hlt : BitVec.ofNat 32 x + (c.word &&& ~~~mallocUsed) < h.heapTop := by
      rw [hnext, BitVec.lt_def, hnextNat]
      omega
    have hload : loadWord (storeWord h.mem (BitVec.ofNat 32 x) (c.word &&& ~~~mallocUsed))
        (BitVec.ofNat 32 x + (c.word &&& ~~~mallocUsed)) = d.word := by
      rw [hnext, (hsame _ _).loadWord_eq (by omega) (.inr (by omega))]
      exact ht.headers _ d hplace
    let c' : Chunk := ⟨c.size + d.size, none, by omega, by rw [Option.getD_none]; omega⟩
    have hfree := free_merge hword hlt hload ((Chunk.word_and_used (by omega)).mpr hd)
    have hlist : xs ++ c :: d :: zs = xs ++ [c, d] ++ zs := by simp
    rw [hlist] at ht ⊢
    have hheader : BitVec.ofNat 32 c.size + d.word = c'.word := by
      rw [Chunk.word, Chunk.word, hd, ← BitVec.ofNat_add]
      rfl
    refine ⟨_, _, hfree, ht.changes_free hx (fun r hr => List.mem_singleton.mp hr ▸ hd) ?_ ?_
      ((hsame _ _).trans (hsame _ _)) (loadWord_storeWord.trans (hsize ▸ hheader))⟩
    · rfl
    · rfl
  · let c' : Chunk := ⟨c.size, none, haligned, by rw [Option.getD_none]; omega⟩
    have hfree : free (BitVec.ofNat 32 x + headerSize) h = .ok ()
        { h with mem := storeWord h.mem (BitVec.ofNat 32 x) (c.word &&& ~~~mallocUsed) } := by
      refine free_alone hword fun hlt hused => ?_
      rw [hnext, BitVec.lt_def, hnextNat, ht.top, total_append, total_cons] at hlt
      cases ys with
      | nil => rw [total_nil] at hlt; omega
      | cons d zs =>
        have hplace : (x + c.size, d) ∈ h.placed (xs ++ c :: d :: zs) :=
          mem_place.mpr ⟨xs ++ [c], zs, by simp,
            by rw [total_append, total_cons, total_nil, hx]; omega⟩
        have hdbounds := ht.bounds hplace
        have hd8 := d.eight_le
        rw [hnext, (hsame _ _).loadWord_eq (by omega) (.inr (by omega)),
          ht.headers _ d hplace, Chunk.word_and_used (by omega)] at hused
        exact halone ⟨d, zs, rfl, hused⟩
    rw [hsplit] at ht ⊢
    have hheader : c.word &&& ~~~mallocUsed = c'.word := hsize
    refine ⟨_, _, hfree, ht.changes_free hx (fun r hr => absurd hr List.not_mem_nil) ?_ ?_
      (hsame _ _) (loadWord_storeWord.trans hheader)⟩
    · rfl
    · rfl

/-! ## `realloc` -/

/-- The data of a block in use are written, or the size that has been asked for is another. -/
theorem Heap.Tiled.changes_update {mem' : Word → Byte} {c' : Chunk} (ht : h.Tiled bs)
    (hmem : (x, c) ∈ h.placed bs) (hc : c.request ≠ none) (hc' : c'.request ≠ none)
    (hsize : c'.size = c.size) (hsame : SameOutside (x + 8) (x + c.size) h.mem mem') :
    ∃ bs', h.Changes bs { h with mem := mem' } bs' (some x) (some (x, c')) := by
  have hbounds := ht.bounds hmem
  have h8 := c.eight_le
  have hword := ht.headers x c hmem
  have hnat : (BitVec.ofNat 32 x).toNat = x := toNat_ofNat x (by omega)
  obtain ⟨xs, ys, rfl, hx⟩ := mem_place.mp hmem
  have hsplit : xs ++ c :: ys = xs ++ [c] ++ ys := by rw [List.append_assoc, List.singleton_append]
  have hsingle : total Chunk.size [c] = c.size := rfl
  have hflag (e : Chunk) (he : e.request ≠ none) : e.request.isSome = true :=
    Option.isSome_iff_ne_none.mpr he
  rw [hsplit] at ht ⊢
  have htotal : total Chunk.size [c'] = total Chunk.size [c] := hsize
  rw [← hsingle] at hsame
  refine ⟨xs ++ [c'] ++ ys, ht.changes_replace hx htotal (hsame.mono (by omega) le_rfl)
    (fun y d hd => ?_) (fun y d hd hplace => ?_) (fun y hy => ?_) (fun y d hyd => ?_)
    (fun y d hd => ?_)⟩
  · obtain ⟨rfl, rfl⟩ := Prod.mk.inj (List.mem_singleton.mp hd)
    rw [hsame.loadWord_eq (by omega) (.inl (by omega)), hword, Chunk.word, Chunk.word, hsize,
      hflag c hc, hflag d hc']
  · have hyd := (used_mem_place (fun r hr => absurd hr List.not_mem_nil) hd).mp hplace
    rw [(Prod.mk.inj hyd).1]
  · cases hy
    omega
  · cases hyd
    exact hc'
  · rw [used_mem_place (fun r hr => absurd hr List.not_mem_nil) hd, Option.some_inj, eq_comm]

theorem Heap.Changes.trans_write {h'' : Heap} {bs'' : List Chunk}
    (h₁ : h.Changes bs h' bs' none (some (y, d)))
    (h₂ : h'.Changes bs' h'' bs'' (some y) (some (y, d))) :
    h.Changes bs h'' bs'' none (some (y, d)) := by
  have hfresh (e : Chunk) (he : e.request ≠ none) : (y, e) ∉ h.placed bs :=
    (h₁.fresh y d rfl).resolve_left nofun e he
  refine ⟨h₂.base.trans h₁.base, h₂.tiled, fun z e he => ?_, fun z e he hmem _ w hlow hhigh => ?_,
    h₁.fresh⟩
  · rw [← h₁.placed_eq, h₂.live z e he, h₁.placed_eq, h₁.live z e he]
    constructor
    · rintro (⟨hmem | hnew, -⟩ | hnew)
      · exact .inl hmem
      · exact .inr hnew
      · exact .inr hnew
    · rintro (⟨hmem, hz⟩ | hnew)
      · refine .inl ⟨.inl ⟨hmem, hz⟩, fun hyz => ?_⟩
        cases hyz
        exact hfresh e he hmem
      · exact .inr hnew
  · have hyz : some y ≠ some z := by
      intro hyz
      cases hyz
      exact hfresh e he hmem
    have hmem' : (z, e) ∈ h'.placed bs' := by
      rw [h₁.placed_eq, h₁.live z e he]
      exact .inl ⟨hmem, nofun⟩
    rw [h₂.bytes z e he hmem' hyz w hlow hhigh, h₁.bytes z e he hmem nofun w hlow hhigh]

/-- One block is allocated and then another one freed. -/
theorem Heap.Changes.trans_free {h'' : Heap} {bs'' : List Chunk} (hxy : x ≠ y)
    (h₁ : h.Changes bs h' bs' none (some (y, d))) (h₂ : h'.Changes bs' h'' bs'' (some x) none) :
    h.Changes bs h'' bs'' (some x) (some (y, d)) := by
  refine ⟨h₂.base.trans h₁.base, h₂.tiled, fun z e he => ?_, fun z e he hmem hz w hlow hhigh => ?_,
    fun z e hz => .inr ((h₁.fresh z e hz).resolve_left nofun)⟩
  · rw [← h₁.placed_eq, h₂.live z e he, h₁.placed_eq, h₁.live z e he]
    constructor
    · rintro (⟨⟨hmem, -⟩ | hnew, hz⟩ | hnone)
      · exact .inl ⟨hmem, hz⟩
      · exact .inr hnew
      · cases hnone
    · rintro (⟨hmem, hz⟩ | hnew)
      · exact .inl ⟨.inl ⟨hmem, nofun⟩, hz⟩
      · cases hnew
        exact .inl ⟨.inr rfl, fun hxz => hxy (Option.some.inj hxz)⟩
  · have hmem' : (z, e) ∈ h'.placed bs' := by
      rw [h₁.placed_eq, h₁.live z e he]
      exact .inl ⟨hmem, nofun⟩
    rw [h₂.bytes z e he hmem' hz w hlow hhigh, h₁.bytes z e he hmem nofun w hlow hhigh]

section Realloc

variable {ptr p : Word} (hword : loadWord h.mem (ptr - headerSize) &&& ~~~mallocUsed = word)

include hword

theorem realloc_inPlace (hle : blockSizeOf size ≤ word) : realloc ptr size h = .ok ptr h := by
  rw [realloc, bind_apply_of_ok loadSize_apply, hword]
  exact congrFun (if_pos hle) h

variable (hlt : ¬blockSizeOf size ≤ word)

include hlt

theorem realloc_null (hmalloc : malloc size h = .ok 0 h) (hsize : word ≠ headerSize) :
    realloc ptr size h = .error .nullDeref h := by
  rw [realloc, bind_apply_of_ok loadSize_apply, hword]
  refine (congrFun (if_neg hlt) h).trans ?_
  rw [bind_apply_of_ok hmalloc, failIf, if_pos ⟨rfl, hsize⟩]
  rfl

theorem realloc_move (hmalloc : malloc size h = .ok p h') (hp : ¬(p = 0 ∧ word ≠ headerSize)) :
    realloc ptr size h = (free ptr >>= fun _ => pure p)
      { h' with mem := memcpy p ptr (word - headerSize) h'.mem } := by
  rw [realloc, bind_apply_of_ok loadSize_apply, hword]
  refine (congrFun (if_neg hlt) h).trans ?_
  rw [bind_apply_of_ok hmalloc, bind_apply_of_ok (failIf_neg hp), modify_bind_apply]

end Realloc

theorem Heap.Tiled.word_of_ptr (ht : h.Tiled bs) (hmem : (x, c) ∈ h.placed bs) :
    loadWord h.mem (BitVec.ofNat 32 (x + 8) - headerSize) &&& ~~~mallocUsed =
      BitVec.ofNat 32 c.size := by
  have hbounds := ht.bounds hmem
  have hheader : BitVec.ofNat 32 (x + 8) - headerSize = BitVec.ofNat 32 x := by
    rw [BitVec.ofNat_add]
    exact BitVec.add_sub_cancel _ _
  rw [hheader, ht.headers x c hmem, Chunk.word_and_not_used (by omega)]

theorem Heap.Tiled.changes_copy (ht : h.Tiled bs) (hc : (x, c) ∈ h.placed bs)
    (hd : (y, d) ∈ h.placed bs) (hdused : d.request ≠ none) (hxy : x ≠ y) (hle : c.size ≤ d.size)
    {mem' : Word → Byte} (hmem' : mem' = memcpy (BitVec.ofNat 32 (y + 8)) (BitVec.ofNat 32 (x + 8))
      (BitVec.ofNat 32 c.size - headerSize) h.mem) :
    (∃ bs', h.Changes bs { h with mem := mem' } bs' (some y) (some (y, d))) ∧
      ∀ i < c.size - 8,
        mem' (BitVec.ofNat 32 (y + 8 + i)) = h.mem (BitVec.ofNat 32 (x + 8 + i)) := by
  have hxbounds := ht.bounds hc
  have hybounds := ht.bounds hd
  have h8 := c.eight_le
  have hapart : x + c.size ≤ y ∨ y + d.size ≤ x :=
    (eq_or_apart hc hd).resolve_left fun heq => hxy (Prod.mk.inj heq).1
  have hdst : (BitVec.ofNat 32 (y + 8)).toNat = y + 8 := toNat_ofNat _ (by omega)
  have hsrc : (BitVec.ofNat 32 (x + 8)).toNat = x + 8 := toNat_ofNat _ (by omega)
  have hcsize : (BitVec.ofNat 32 c.size).toNat = c.size := toNat_ofNat _ (by omega)
  have hheader : headerSize.toNat = 8 := rfl
  have hlen : (BitVec.ofNat 32 c.size - headerSize).toNat = c.size - 8 := by
    rw [BitVec.toNat_sub_of_le (BitVec.le_def.mpr (by omega)), hcsize, hheader]
  have hcopy := memcpy_spec h.mem (BitVec.ofNat 32 (y + 8)) (BitVec.ofNat 32 (x + 8))
    (BitVec.ofNat 32 c.size - headerSize) (by omega) (by omega) (by omega)
  rw [← hmem', hdst, hlen] at hcopy
  refine ⟨ht.changes_update hd hdused hdused rfl (hcopy.1.mono le_rfl (by omega)), fun i hi => ?_⟩
  rw [BitVec.ofNat_add (y + 8), BitVec.ofNat_add (x + 8)]
  exact hcopy.2 i hi

/-- `realloc` keeps a block that is large enough, or moves the data into a larger one. -/
theorem realloc_changes (ht : h.Tiled bs) (hmem : (x, c) ∈ h.placed bs) (hc : c.request ≠ none)
    (hsize : size.toNat ≤ 2 ^ 32 - 16)
    (hroom : (blockSizeOf size).toNat ≤ c.size ∨ HasFit bs (blockSizeOf size) ∨
      h.Grants (blockSizeOf size) ∧ h.Below (blockSizeOf size)) :
    ∃ h' bs' y d, realloc (BitVec.ofNat 32 (x + 8)) size h = .ok (BitVec.ofNat 32 (y + 8)) h' ∧
      d.request = some size.toNat ∧ h.Changes bs h' bs' (some x) (some (y, d)) ∧
      ∀ i < c.size - 8,
        h'.mem (BitVec.ofNat 32 (y + 8 + i)) = h.mem (BitVec.ofNat 32 (x + 8 + i)) := by
  have hbounds := ht.bounds hmem
  have h8 := c.eight_le
  have hword := ht.word_of_ptr hmem
  have hblock := toNat_blockSizeOf_eq hsize
  have hcsize : (BitVec.ofNat 32 c.size).toNat = c.size := toNat_ofNat _ (by omega)
  by_cases hle : blockSizeOf size ≤ BitVec.ofNat 32 c.size
  · have hnat := BitVec.le_def.mp hle
    let c' : Chunk := ⟨c.size, some size.toNat, c.aligned, by rw [Option.getD_some]; omega⟩
    have hc' : c'.request ≠ none := nofun
    obtain ⟨bs', hchanges⟩ := ht.changes_update hmem hc hc' rfl .refl
    exact ⟨h, bs', x, c', realloc_inPlace hword hle, rfl, hchanges, fun _ _ => rfl⟩
  · have hnle : ¬(blockSizeOf size).toNat ≤ c.size := fun hnat => hle (BitVec.le_def.mpr (by omega))
    -- A new block, a copy, and the old block is freed: three changes to compose.
    obtain ⟨h₁, bs₁, y, d, hmalloc, hd, hnew⟩ := malloc_changes ht hsize (hroom.resolve_left hnle)
    have hdused : d.request ≠ none := hd.trans_ne (Option.some_ne_none _)
    have hold : (x, c) ∈ h₁.placed bs₁ := by
      rw [hnew.placed_eq, hnew.live x c hc]
      exact .inl ⟨hmem, nofun⟩
    have hplace := hnew.new_mem hdused
    have hxy : x ≠ y := by
      rintro rfl
      exact (hnew.fresh x d rfl).resolve_left nofun c hc hmem
    have hbig : c.size ≤ d.size := by
      have hfits := d.fits
      have haligned := blockSizeOf_aligned size
      have := c.aligned
      rw [hd, Option.getD_some] at hfits
      omega
    obtain ⟨⟨bs₂, hwrite⟩, hcopy⟩ := hnew.tiled.changes_copy hold hplace hdused hxy hbig rfl
    have hold₂ := (hwrite.live x c hc).mpr (.inl ⟨hold, fun hyx => hxy (Option.some.inj hyx).symm⟩)
    have hplace₂ := hwrite.new_mem hdused
    rw [← hwrite.placed_eq] at hold₂
    obtain ⟨h₃, bs₃, hfree, hfreed⟩ := free_changes hwrite.tiled hold₂
    have hp : ¬(BitVec.ofNat 32 (y + 8) = 0 ∧ BitVec.ofNat 32 c.size ≠ headerSize) := by
      have hybounds := hnew.tiled.bounds hplace
      exact fun hzero => ofNat_eight_ne_zero (by omega) hzero.1
    refine ⟨h₃, bs₃, y, d, ?_, hd, (hnew.trans_write hwrite).trans_free hxy hfreed, fun i hi => ?_⟩
    · rw [realloc_move hword hle hmalloc hp, bind_apply_of_ok hfree]
      rfl
    · have hybounds := hnew.tiled.bounds hplace
      have hdst : (BitVec.ofNat 32 (y + 8 + i)).toNat = y + 8 + i := toNat_ofNat _ (by omega)
      have hsrc : (BitVec.ofNat 32 (x + 8 + i)).toNat = x + 8 + i := toNat_ofNat _ (by omega)
      rw [hfreed.bytes y d hdused hplace₂ (fun hxy' => hxy (Option.some.inj hxy')) _ (by omega)
        (by omega)]
      refine (hcopy i hi).trans ?_
      exact hnew.bytes x c hc hmem nofun _ (by omega) (by omega)

end Horizon.Libh
