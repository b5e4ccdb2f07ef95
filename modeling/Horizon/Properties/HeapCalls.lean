import Horizon.User.Blocks

/-!
# Horizon — what `malloc` and `realloc` return

`malloc` computes the size of a block with 32 bits: for a request of more than `2^32 - 16` bytes the
sum wraps, and the block that is returned has no room for a single byte. The sum in `vmap` can wrap
too, and then `heap_top` comes to lie below the block. `realloc` uses what `malloc` returned without
looking whether it is `NULL`.
-/

namespace Horizon.Libh

open StateError Tiling

variable {h h' : Heap} {bs bs' : List Chunk} {c d : Chunk} {x y : ℕ} {size p : Word}

/-! ## The contract -/

/-- `malloc` returns `NULL` and changes nothing, or a block that is large enough. -/
def MallocMeets (h : Heap) (bs : List Chunk) (size : Word) : Prop :=
  ∃ p h', malloc size h = .ok p h' ∧
    (p = 0 ∧ h' = h ∨
      ∃ bs' y d, p = BitVec.ofNat 32 (y + 8) ∧ d.request ≠ none ∧ size.toNat + 8 ≤ d.size ∧
        h.Changes bs h' bs' none (some (y, d)))

/-- `realloc` returns `NULL` and the block is still in use, or it returns a block that is large
enough and has the same data. -/
def ReallocMeets (h : Heap) (bs : List Chunk) (x : ℕ) (c : Chunk) (size : Word) : Prop :=
  ∃ p h', realloc (BitVec.ofNat 32 (x + 8)) size h = .ok p h' ∧
    ((p = 0 ∧ ∃ bs', h.Changes bs h' bs' none none) ∨
      ∃ bs' y d, p = BitVec.ofNat 32 (y + 8) ∧ d.request ≠ none ∧ size.toNat + 8 ≤ d.size ∧
        h.Changes bs h' bs' (some x) (some (y, d)) ∧
        ∀ i < c.size - 8,
          h'.mem (BitVec.ofNat 32 (y + 8 + i)) = h.mem (BitVec.ofNat 32 (x + 8 + i)))

/-- The size of the block does not wrap, and there is a block or memory below `KERNEL_VIRT_BASE`. -/
def Serves (h : Heap) (bs : List Chunk) (size : Word) : Prop :=
  size.toNat ≤ 2 ^ 32 - 16 ∧
    (HasFit bs (blockSizeOf size) ∨ h.Grants (blockSizeOf size) ∧ h.Below (blockSizeOf size))

/-! ## Blocks that are too small -/

/-- Where a block is put, whether it is large enough or not. -/
theorem malloc_ptr (ht : h.Tiled bs)
    (hroom : HasFit bs (blockSizeOf size) ∨ h.Grants (blockSizeOf size)) :
    ∃ x h', malloc size h = .ok (BitVec.ofNat 32 (x + 8)) h' ∧ x ≤ 0xC0000000 ∧
      (¬HasFit bs (blockSizeOf size) → x = h.heapTop.toNat ∧
        h'.heapTop = h.heapTop + pageRound (blockSizeOf size)) := by
  have hlimit : kernelVirtBase.toNat = 0xC0000000 := rfl
  have htop := ht.limit
  obtain ⟨hfit, hfind⟩ | ⟨xs, c, ys, rfl, hc, hle, hfind⟩ := findFit_eq (blockSizeOf size) ht
  · have hat : BitVec.ofNat 32 h.heapTop.toNat = h.heapTop := by
      rw [BitVec.ofNat_toNat, BitVec.setWidth_eq]
    obtain ⟨mem', htake⟩ := takeBlock_ptr
      { h with
        mem := storeWord h.mem h.heapTop (pageRound (blockSizeOf size))
        heapTop := h.heapTop + pageRound (blockSizeOf size) } h.heapTop.toNat (blockSizeOf size)
    rw [hat] at htake
    have hmalloc := malloc_of_grants hfind (hroom.resolve_left hfit) ht.top_ne_zero
    exact ⟨h.heapTop.toNat, _, hmalloc.trans htake, by omega, fun _ => ⟨rfl, rfl⟩⟩
  · have ht' := ht
    rw [List.append_assoc] at ht'
    have hplace := ht'.toNat_place
    obtain ⟨mem', htake⟩ :=
      takeBlock_ptr h (h.heapBase.toNat + total Chunk.size xs) (blockSizeOf size)
    have hmalloc := malloc_of_fit hfind (ofNat_place_ne_zero ht')
    exact ⟨_, _, hmalloc.trans htake, by omega, fun hfit => absurd ⟨c, by simp, hc, hle⟩ hfit⟩

/-- A block at the old end of the heap that lies in the heap fits below `KERNEL_VIRT_BASE`. -/
theorem below_of_grants {blockSize : Word} (ht : h.Tiled bs) (ht' : h'.Tiled bs')
    (hg : h.Grants blockSize) (htop : h'.heapTop = h.heapTop + pageRound blockSize)
    (hd : (h.heapTop.toNat, d) ∈ h'.placed bs') : h.Below blockSize := by
  have hbounds := ht'.bounds hd
  have h8 := d.eight_le
  have hle := BitVec.le_def.mp hg.2.2
  have hlt := (pageRound blockSize).isLt
  have hlimit : kernelVirtBase.toNat = 0xC0000000 := rfl
  have hold := ht.limit
  rw [htop] at hbounds
  rw [BitVec.toNat_add] at hle hbounds
  rw [Heap.Below]
  omega

theorem mallocMeets_iff (ht : h.Tiled bs) : MallocMeets h bs size ↔
    Serves h bs size ∨ ¬HasFit bs (blockSizeOf size) ∧ ¬h.Grants (blockSizeOf size) := by
  constructor
  · rintro ⟨p, h', hmalloc, hcases⟩
    by_cases hroom : HasFit bs (blockSizeOf size) ∨ h.Grants (blockSizeOf size)
    · obtain ⟨x, h'', hptr, hx, hgrown⟩ := malloc_ptr ht hroom
      obtain ⟨rfl, rfl⟩ := EStateM.Result.ok.inj (hmalloc.symm.trans hptr)
      obtain ⟨hzero, -⟩ | ⟨bs', y, d, heq, hd, hsize, hch⟩ := hcases
      · exact absurd hzero (ofNat_eight_ne_zero hx)
      · have hmem := hch.new_mem hd
        have hbounds := hch.tiled.bounds hmem
        refine .inl ⟨by omega, ?_⟩
        by_cases hfit : HasFit bs (blockSizeOf size)
        · exact .inl hfit
        · obtain ⟨rfl, htop⟩ := hgrown hfit
          obtain rfl := ofNat_eight_inj hx (by omega) heq
          have hg := hroom.resolve_left hfit
          exact .inr ⟨hg, below_of_grants ht hch.tiled hg htop hmem⟩
    · exact .inr (not_or.mp hroom)
  · rintro (⟨hsize, hroom⟩ | ⟨hfit, hg⟩)
    · obtain ⟨h', bs', y, d, hmalloc, hd, hch⟩ := malloc_changes ht hsize hroom
      have hfits := d.fits
      rw [hd] at hfits
      have hused : d.request ≠ none := hd.trans_ne (Option.some_ne_none _)
      exact ⟨_, h', hmalloc, .inr ⟨bs', y, d, rfl, hused, hfits, hch⟩⟩
    · exact ⟨0, h, malloc_eq_zero ht hfit hg, .inl ⟨rfl, rfl⟩⟩

/-! ## `realloc` -/

theorem Chunk.eq_of_word (hc : c.size < 0xC0000001) (hd : d.size < 0xC0000001)
    (heq : c.word = d.word) : c.size = d.size ∧ (d.request = none ↔ c.request = none) := by
  have hsize := Chunk.word_and_not_used hc
  rw [heq, Chunk.word_and_not_used hd, ← BitVec.toNat_inj, toNat_ofNat _ (by omega),
    toNat_ofNat _ (by omega)] at hsize
  rw [← Chunk.word_and_used hc, ← Chunk.word_and_used hd, heq]
  exact ⟨hsize.symm, Iff.rfl⟩

theorem Heap.Tiled.mem_of_tiled (ht : h.Tiled bs) (ht' : h.Tiled bs') (hc : (x, c) ∈ h.placed bs) :
    ∃ c', (x, c') ∈ h.placed bs' ∧ (c'.request = none ↔ c.request = none) := by
  -- The two lists agree block by block, from the start of the heap on.
  have hblock (l : List Chunk) (hl : h.Tiled l) (y : ℕ) (d : Chunk) (hd : (y, d) ∈ h.placed l) :
      loadWord h.mem (BitVec.ofNat 32 y) = d.word ∧ d.size < 0xC0000001 := by
    have hbounds := hl.bounds hd
    exact ⟨hl.headers y d hd, by omega⟩
  have htotal : total Chunk.size bs = total Chunk.size bs' :=
    Nat.add_left_cancel (ht.top.symm.trans ht'.top)
  have hold := hblock bs ht
  have hnew := hblock bs' ht'
  rw [Heap.placed] at hold hnew hc ⊢
  generalize h.heapBase.toNat = a at hold hnew hc ⊢
  clear ht ht' hblock
  induction bs generalizing a bs' with
  | nil => exact absurd hc List.not_mem_nil
  | cons e bs ih =>
    have he8 := e.eight_le
    obtain ⟨e', es, rfl⟩ : ∃ e' es, bs' = e' :: es := by
      cases bs' with
      | nil => rw [total_cons, total_nil] at htotal; omega
      | cons e' es => exact ⟨e', es, rfl⟩
    obtain ⟨heload, helt⟩ := hold a e List.mem_cons_self
    obtain ⟨heload', helt'⟩ := hnew a e' List.mem_cons_self
    obtain ⟨hsize, hreq⟩ := Chunk.eq_of_word helt helt' (heload.symm.trans heload')
    obtain hc | hc := List.mem_cons.mp hc
    · obtain ⟨rfl, rfl⟩ := Prod.mk.inj hc
      exact ⟨e', List.mem_cons_self, hreq⟩
    · rw [total_cons, total_cons, hsize] at htotal
      have hrest (y : ℕ) (d : Chunk) (hd : (y, d) ∈ place Chunk.size (a + e.size) es) :=
        hnew y d (List.mem_cons_of_mem _ (hsize ▸ hd))
      obtain ⟨c', hc', hiff⟩ := ih (Nat.add_left_cancel htotal) (a + e.size)
        (fun y d hd => hold y d (List.mem_cons_of_mem _ hd)) hrest hc
      exact ⟨c', List.mem_cons_of_mem _ (hsize ▸ hc'), hiff⟩

theorem free_heapTop (ptr : Word) (h : Heap) :
    ∃ mem', free ptr h = .ok () { h with mem := mem' } := by
  simp only [free, storeSize, loadSize, get_bind_apply, modify_bind_apply, pure_bind, bind_assoc]
  split
  · rw [get_bind_apply]
    split
    · exact ⟨_, rfl⟩
    · exact ⟨_, rfl⟩
  · exact ⟨_, rfl⟩

theorem memcpy_zero (dst src : Word) (mem : Word → Byte) :
    memcpy dst src (headerSize - headerSize) mem = mem := by
  rw [memcpy]
  split
  · rfl
  · rfl

theorem blockSizeOf_le_eight (hsize : 2 ^ 32 - 16 < size.toNat) : (blockSizeOf size).toNat ≤ 8 := by
  have hlt := size.isLt
  rw [toNat_blockSizeOf]
  omega

theorem not_mem_of_free (ht : h.Tiled bs) (hmem : (x, c) ∈ h.placed bs)
    (hfree : free (BitVec.ofNat 32 (x + 8)) h = .ok () h') (ht' : h'.Tiled bs')
    (hd : d.request ≠ none) : (x, d) ∉ h'.placed bs' := by
  intro hmem'
  obtain ⟨h'', bs'', hfree', hch⟩ := free_changes ht hmem
  obtain ⟨-, rfl⟩ := EStateM.Result.ok.inj (hfree.symm.trans hfree')
  obtain ⟨e, he, hused⟩ := ht'.mem_of_tiled hch.tiled hmem'
  rw [hch.placed_eq, hch.live x e (mt hused.mp hd)] at he
  obtain ⟨-, hx⟩ | hnew := he
  · exact hx rfl
  · cases hnew

section

variable (ht : h.Tiled bs) (hmem : (x, c) ∈ h.placed bs)
  (hle : ¬blockSizeOf size ≤ BitVec.ofNat 32 c.size) (hfit : ¬HasFit bs (blockSizeOf size))

include ht hmem hle hfit

/-- The new block lies in the heap only if it lies below `KERNEL_VIRT_BASE`. -/
theorem ReallocMeets.below (hg : h.Grants (blockSizeOf size))
    (hmeets : ReallocMeets h bs x c size) : h.Below (blockSizeOf size) := by
  obtain ⟨p, h', hrealloc, hcases⟩ := hmeets
  obtain ⟨z, h₁, hmalloc, hz, hgrown⟩ := malloc_ptr ht (.inr hg)
  obtain ⟨rfl, htop⟩ := hgrown hfit
  have hp := ofNat_eight_ne_zero hz
  obtain ⟨mem', hfree⟩ := free_heapTop (BitVec.ofNat 32 (x + 8)) { h₁ with
    mem := memcpy (BitVec.ofNat 32 (h.heapTop.toNat + 8)) (BitVec.ofNat 32 (x + 8))
      (BitVec.ofNat 32 c.size - headerSize) h₁.mem }
  have hmove := realloc_move (ht.word_of_ptr hmem) hle hmalloc fun hzero => hp hzero.1
  rw [bind_apply_of_ok hfree] at hmove
  obtain ⟨rfl, rfl⟩ := EStateM.Result.ok.inj (hrealloc.symm.trans hmove)
  obtain ⟨hzero, -⟩ | ⟨bs', y, d, heq, hd, -, hch, -⟩ := hcases
  · exact absurd hzero hp
  · have hplace := hch.new_mem hd
    have hybounds := hch.tiled.bounds hplace
    obtain rfl := ofNat_eight_inj hz (by omega) heq
    exact below_of_grants ht hch.tiled hg htop hplace

/-- Without memory the data are copied to `NULL`, or there are none and the block is freed. -/
theorem not_reallocMeets (hc : c.request ≠ none) (hg : ¬h.Grants (blockSizeOf size)) :
    ¬ReallocMeets h bs x c size := by
  rintro ⟨p, h', hrealloc, hcases⟩
  have hmalloc := malloc_eq_zero ht hfit hg
  by_cases hempty : BitVec.ofNat 32 c.size = headerSize
  · have hmove := realloc_move (ht.word_of_ptr hmem) hle hmalloc fun hzero => hzero.2 hempty
    obtain ⟨h₁, bs₁, hfree, hfreed⟩ := free_changes ht hmem
    rw [hempty, memcpy_zero, bind_apply_of_ok hfree] at hmove
    obtain ⟨rfl, rfl⟩ := EStateM.Result.ok.inj (hrealloc.symm.trans hmove)
    obtain ⟨-, bs', hch⟩ | ⟨bs', y, d, hzero, hd, -, hch, -⟩ := hcases
    · have hstill := (hch.live x c hc).mpr (.inl ⟨hmem, nofun⟩)
      rw [← hch.placed_eq] at hstill
      exact not_mem_of_free ht hmem hfree hch.tiled hc hstill
    · have hybounds := hch.tiled.bounds (hch.new_mem hd)
      exact ofNat_eight_ne_zero (by omega) hzero.symm
  · exact nomatch hrealloc.symm.trans (realloc_null (ht.word_of_ptr hmem) hle hmalloc hempty)

end

theorem reallocMeets_iff (ht : h.Tiled bs) (hmem : (x, c) ∈ h.placed bs) (hc : c.request ≠ none) :
    ReallocMeets h bs x c size ↔
      size.toNat ≤ 2 ^ 32 - 16 ∧ (blockSizeOf size).toNat ≤ c.size ∨ Serves h bs size := by
  have hbounds := ht.bounds hmem
  have h8 := c.eight_le
  have hcsize : (BitVec.ofNat 32 c.size).toNat = c.size := toNat_ofNat _ (by omega)
  constructor
  · intro hmeets
    by_cases hle : blockSizeOf size ≤ BitVec.ofNat 32 c.size
    · obtain ⟨p, h', hrealloc, hcases⟩ := hmeets
      have hkeep := realloc_inPlace (ht.word_of_ptr hmem) hle
      obtain ⟨rfl, rfl⟩ := EStateM.Result.ok.inj (hrealloc.symm.trans hkeep)
      obtain ⟨hzero, -⟩ | ⟨bs', y, d, -, hd, hsize, hch, -⟩ := hcases
      · exact absurd hzero (ofNat_eight_ne_zero (by omega))
      · have hybounds := hch.tiled.bounds (hch.new_mem hd)
        have hnat := BitVec.le_def.mp hle
        exact .inl ⟨by omega, by omega⟩
    · have hnat : c.size < (blockSizeOf size).toNat := by
        rw [BitVec.le_def] at hle
        omega
      -- A size that wraps is never larger than that of a block.
      have hsize : size.toNat ≤ 2 ^ 32 - 16 := by
        refine Nat.not_lt.mp fun hwraps => ?_
        have := blockSizeOf_le_eight hwraps
        omega
      refine .inr ⟨hsize, or_iff_not_imp_left.mpr fun hfit => ?_⟩
      have hg : h.Grants (blockSizeOf size) :=
        not_not.mp fun hg => not_reallocMeets ht hmem hle hfit hc hg hmeets
      exact ⟨hg, hmeets.below ht hmem hle hfit hg⟩
  · intro hserves
    obtain ⟨hsize, hroom⟩ : size.toNat ≤ 2 ^ 32 - 16 ∧ ((blockSizeOf size).toNat ≤ c.size ∨
        HasFit bs (blockSizeOf size) ∨
        h.Grants (blockSizeOf size) ∧ h.Below (blockSizeOf size)) := by
      obtain ⟨hsize, hle⟩ | ⟨hsize, hroom⟩ := hserves
      · exact ⟨hsize, .inl hle⟩
      · exact ⟨hsize, .inr hroom⟩
    obtain ⟨h', bs', y, d, hrealloc, hd, hch, hcopy⟩ := realloc_changes ht hmem hc hsize hroom
    have hfits := d.fits
    rw [hd] at hfits
    have hused : d.request ≠ none := hd.trans_ne (Option.some_ne_none _)
    exact ⟨_, h', hrealloc, .inr ⟨bs', y, d, rfl, hused, hfits, hch, hcopy⟩⟩

/-! ## Both calls -/

/-- `malloc` keeps its contract as long as the size does not wrap and the memory it is given lies
below `KERNEL_VIRT_BASE`, or if there is neither a block nor memory. `realloc` keeps it if `malloc`
succeeds and does, or if the block is large enough. -/
theorem heap_calls_meet_iff (ht : h.Tiled bs) (size : Word) :
    (MallocMeets h bs size ↔
      Serves h bs size ∨ ¬HasFit bs (blockSizeOf size) ∧ ¬h.Grants (blockSizeOf size)) ∧
    ∀ x c, (x, c) ∈ h.placed bs → c.request ≠ none →
      (ReallocMeets h bs x c size ↔
        size.toNat ≤ 2 ^ 32 - 16 ∧ (blockSizeOf size).toNat ≤ c.size ∨ Serves h bs size) :=
  ⟨mallocMeets_iff ht, fun _ _ hmem hc => reallocMeets_iff ht hmem hc⟩

/-- The heap of a new program. -/
def emptyHeap : Heap := { mallocInitialize (fun _ => 0) 0x20000000 with grant := true }

/-- One page that is a single block in use. -/
def pageChunk : Chunk := ⟨4096, some 4000, by decide, by decide⟩

def pageHeap (grant : Bool) : Heap where
  mem := storeWord (fun _ => 0) 0x20000000 4097
  heapBase := 0x20000000
  heapTop := 0x20001000
  grant := grant

theorem emptyHeap_tiled : emptyHeap.Tiled [] :=
  ⟨by decide, rfl, by decide, fun _ _ hmem => absurd hmem List.not_mem_nil⟩

theorem pageHeap_tiled (grant : Bool) : (pageHeap grant).Tiled [pageChunk] := by
  have hbase : (0x20000000 : Word).toNat % 8 = 0 ∧ 0 < (0x20000000 : Word).toNat := by decide
  have hlimit : (0x20001000 : Word) ≤ kernelVirtBase := by decide
  refine ⟨hbase, rfl, hlimit, fun x c hmem => ?_⟩
  obtain ⟨rfl, rfl⟩ := Prod.mk.inj (List.mem_singleton.mp hmem)
  exact loadWord_storeWord

/-- A block of 4096 bytes is grown. -/
theorem page_grown : MallocMeets (pageHeap true) [pageChunk] 5000 ∧
    ReallocMeets (pageHeap true) [pageChunk] 0x20000000 pageChunk 5000 := by
  have hserves : Serves (pageHeap true) [pageChunk] 5000 := by
    refine ⟨by decide, .inr ⟨⟨rfl, by decide, by decide⟩, ?_⟩⟩
    rw [Heap.Below]
    decide
  have hmeet := heap_calls_meet_iff (pageHeap_tiled true) 5000
  exact ⟨hmeet.1.mpr (.inl hserves),
    (hmeet.2 0x20000000 pageChunk List.mem_cons_self (Option.some_ne_none _)).mpr (.inr hserves)⟩

/-- A new program asks for `0xFFFFFFFF` bytes and gets a block without a single one. And without
memory, `realloc` copies the data of a block to `NULL`. -/
theorem huge_request_served :
    (∃ h', malloc 0xFFFFFFFF emptyHeap = .ok 0x20000008 h' ∧ loadWord h'.mem 0x20000000 = 9) ∧
    ¬MallocMeets emptyHeap [] 0xFFFFFFFF ∧
    ¬ReallocMeets (pageHeap false) [pageChunk] 0x20000000 pageChunk 5000 := by
  refine ⟨⟨_, rfl, by decide⟩, ?_, ?_⟩
  · rw [mallocMeets_iff emptyHeap_tiled]
    rintro (⟨hsize, -⟩ | ⟨-, hgrants⟩)
    · exact absurd hsize (by decide)
    · exact hgrants ⟨rfl, by decide, by decide⟩
  · have hmem : (0x20000000, pageChunk) ∈ (pageHeap false).placed [pageChunk] := List.mem_cons_self
    rw [reallocMeets_iff (pageHeap_tiled false) hmem nofun]
    rintro (⟨-, hle⟩ | ⟨-, ⟨c, hc, hfree, -⟩ | ⟨hgrants, -⟩⟩)
    · exact absurd hle (by decide)
    · rw [List.mem_singleton.mp hc] at hfree
      cases hfree
    · exact absurd hgrants.1 (by decide)

end Horizon.Libh
