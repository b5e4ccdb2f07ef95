import Horizon.User.Blocks

/-!
# Horizon — the heap over whole runs of a program

A program calls `malloc`, `realloc` and `free` in any order and writes to the blocks it has. `live`
is what it knows: the pointers that have been returned to it and not freed since, with the sizes it
has asked for.
-/

namespace Horizon.Libh

open StateError Tiling

/-! ## Programs -/

structure HeapUser where
  heap : Heap
  live : Word → Option ℕ

inductive HeapCall where
  /-- `grant`: does `vmap` find memory if it is called? -/
  | malloc (grant : Bool) (size : Word)
  | realloc (grant : Bool) (ptr size : Word)
  | free (ptr : Word)
  /-- `ptr[i] = value`. -/
  | write (ptr : Word) (i : ℕ) (value : Byte)

def HeapUser.start (mem : Word → Byte) : HeapUser where
  heap := mallocInitialize mem 0x20000000
  live := fun _ => none

/-- A call, with the pointers the program holds afterwards. -/
def HeapUser.step (s : HeapUser) : HeapCall → Option HeapUser
  | .malloc grant size =>
      match Libh.malloc size { s.heap with grant := grant } with
      | .ok p h =>
          some ⟨h, if p = 0 then s.live else Function.update s.live p (some size.toNat)⟩
      | .error _ _ => none
  | .realloc grant ptr size =>
      match Libh.realloc ptr size { s.heap with grant := grant } with
      | .ok p h =>
          some ⟨h, Function.update (Function.update s.live ptr none) p (some size.toNat)⟩
      | .error _ _ => none
  | .free ptr =>
      match Libh.free ptr s.heap with
      | .ok _ h => some ⟨h, Function.update s.live ptr none⟩
      | .error _ _ => none
  | .write ptr i value =>
      some { s with
        heap := { s.heap with
          mem := Function.update s.heap.mem (ptr + BitVec.ofNat 32 i) value } }

/-- `vmap` fails, or it maps a range below `KERNEL_VIRT_BASE`. -/
def HeapUser.Maps (s : HeapUser) (grant : Bool) (size : Word) : Prop :=
  let h := { s.heap with grant := grant }
  h.Grants (blockSizeOf size) → h.Below (blockSizeOf size)

/-- The block is large enough, or `malloc` finds another one. -/
def HeapUser.Moves (s : HeapUser) (grant : Bool) (ptr size : Word) : Prop :=
  blockSizeOf size ≤ loadWord s.heap.mem (ptr - headerSize) &&& ~~~mallocUsed ∨
    ∃ p h, Libh.malloc size { s.heap with grant := grant } = .ok p h ∧ p ≠ 0

/-- The calls that a program may make. -/
def HeapUser.Allows (s : HeapUser) : HeapCall → Prop
  | .malloc grant size => size.toNat ≤ 2 ^ 31 ∧ s.Maps grant size
  | .realloc grant ptr size =>
      s.live ptr ≠ none ∧ size.toNat ≤ 2 ^ 31 ∧ s.Maps grant size ∧ s.Moves grant ptr size
  | .free ptr => s.live ptr ≠ none
  | .write ptr i _ => ∃ n, s.live ptr = some n ∧ i < n

/-- The block that a call is about. -/
def HeapCall.target : HeapCall → Option Word
  | .malloc _ _ => none
  | .realloc _ ptr _ => some ptr
  | .free ptr => some ptr
  | .write ptr _ _ => some ptr

/-! ## The blocks of a program -/

/-- The blocks in use are the ones that the program has. -/
structure HeapUser.Owns (s : HeapUser) (bs : List Chunk) : Prop where
  tiled : s.heap.Tiled bs
  live : ∀ p n, s.live p = some n ↔
    ∃ x c, (x, c) ∈ s.heap.placed bs ∧ c.request = some n ∧ p = BitVec.ofNat 32 (x + 8)

variable {s s' : HeapUser} {h h' : Heap} {bs bs' : List Chunk} {c d : Chunk} {x y n : ℕ}
  {call : HeapCall} {ptr size : Word}

theorem HeapUser.start_owns (mem : Word → Byte) : (HeapUser.start mem).Owns [] := by
  refine ⟨⟨?_, rfl, ?_, fun _ _ hmem => absurd hmem List.not_mem_nil⟩, fun p n => ?_⟩
  · exact (by decide : (0x20000000 : Word).toNat % 8 = 0 ∧ 0 < (0x20000000 : Word).toNat)
  · exact (by decide : (0x20000000 : Word) ≤ kernelVirtBase)
  · exact iff_of_false nofun fun ⟨_, _, hmem, _⟩ => absurd hmem List.not_mem_nil

theorem Heap.Tiled.eq_of_ptr (ht : h.Tiled bs) (hx : (x, c) ∈ h.placed bs)
    (hy : (y, d) ∈ h.placed bs) (heq : BitVec.ofNat 32 (x + 8) = BitVec.ofNat 32 (y + 8)) :
    (x, c) = (y, d) := by
  have hxbounds := ht.bounds hx
  have hybounds := ht.bounds hy
  have hc8 := c.eight_le
  have hd8 := d.eight_le
  have hxy := ofNat_eight_inj (by omega) (by omega) heq
  exact (eq_or_apart hx hy).resolve_right (by omega)

section Changes

variable {live' : Word → Option ℕ} {gone : Option ℕ} {new : Option (ℕ × Chunk)}

/-- The pointers of the blocks that a call makes and frees are the ones that change. -/
theorem HeapUser.Owns.of_changes (ho : s.Owns bs) (hch : s.heap.Changes bs h' bs' gone new)
    (hgone : ∀ x, gone = some x → ∃ c, (x, c) ∈ s.heap.placed bs)
    (hused : ∀ y d, new = some (y, d) → d.request ≠ none)
    (hlive : ∀ y d, new = some (y, d) → live' (BitVec.ofNat 32 (y + 8)) = d.request)
    (hdead : ∀ x, gone = some x →
      (∀ y d, new = some (y, d) → BitVec.ofNat 32 (x + 8) ≠ BitVec.ofNat 32 (y + 8)) →
      live' (BitVec.ofNat 32 (x + 8)) = none)
    (hrest : ∀ p, (∀ y d, new = some (y, d) → p ≠ BitVec.ofNat 32 (y + 8)) →
      (∀ x, gone = some x → p ≠ BitVec.ofNat 32 (x + 8)) → live' p = s.live p) :
    HeapUser.Owns ⟨h', live'⟩ bs' := by
  have hplaced := hch.placed_eq bs'
  refine ⟨hch.tiled, fun p n => ⟨fun hp => ?_, fun ⟨x, c, hmem, hreq, hptr⟩ => ?_⟩⟩
  · by_cases hnew : ∃ y d, new = some (y, d) ∧ p = BitVec.ofNat 32 (y + 8)
    · obtain ⟨y, d, hyd, rfl⟩ := hnew
      subst hyd
      exact ⟨y, d, hch.new_mem (hused y d rfl), (hlive y d rfl).symm.trans hp, rfl⟩
    · have hnew (y : ℕ) (d : Chunk) (hyd : new = some (y, d)) : p ≠ BitVec.ofNat 32 (y + 8) :=
        fun heq => hnew ⟨y, d, hyd, heq⟩
      have hgone (x : ℕ) (hx : gone = some x) : p ≠ BitVec.ofNat 32 (x + 8) := by
        rintro rfl
        exact nomatch hp.symm.trans (hdead x hx hnew)
      obtain ⟨x, c, hmem, hreq, hptr⟩ := (ho.live p n).mp ((hrest p hnew hgone).symm.trans hp)
      refine ⟨x, c, ?_, hreq, hptr⟩
      rw [hplaced, hch.live x c (hreq.trans_ne (Option.some_ne_none n))]
      exact .inl ⟨hmem, fun hx => hgone x hx hptr⟩
  · have hmem' := hmem
    rw [hplaced, hch.live x c (hreq.trans_ne (Option.some_ne_none n))] at hmem'
    show live' p = some n
    obtain ⟨hold, hx⟩ | hnew := hmem'
    · by_cases hnew : ∃ y d, new = some (y, d) ∧ p = BitVec.ofNat 32 (y + 8)
      · obtain ⟨y, d, hyd, rfl⟩ := hnew
        subst hyd
        have hplace := hch.new_mem (hused y d rfl)
        obtain ⟨rfl, rfl⟩ := Prod.mk.inj (hch.tiled.eq_of_ptr hplace hmem hptr)
        exact (hlive y d rfl).trans hreq
      · refine (hrest p (fun y d hyd heq => hnew ⟨y, d, hyd, heq⟩) fun z hz heq => ?_).trans
          ((ho.live p n).mpr ⟨x, c, hold, hreq, hptr⟩)
        obtain ⟨e, he⟩ := hgone z hz
        obtain ⟨rfl, -⟩ := Prod.mk.inj (ho.tiled.eq_of_ptr he hold (heq.symm.trans hptr))
        exact hx hz
    · rw [hptr]
      exact (hlive x c hnew).trans hreq

end Changes

/-! ## One call -/

/-- What a call does: the program has its blocks afterwards, the others have kept their bytes, and
the block that `realloc` has returned has those of the old one. -/
structure HeapUser.Does (s : HeapUser) (bs : List Chunk) (call : HeapCall) (s' : HeapUser)
    (bs' : List Chunk) : Prop where
  owns : s'.Owns bs'
  bytes : ∀ x c, (x, c) ∈ s.heap.placed bs → c.request ≠ none →
    call.target ≠ some (BitVec.ofNat 32 (x + 8)) →
    ∀ z : Word, x ≤ z.toNat → z.toNat < x + c.size → s'.heap.mem z = s.heap.mem z
  contents : ∀ grant ptr size n, call = .realloc grant ptr size → s.live ptr = some n →
    ∃ p, Libh.realloc ptr size { s.heap with grant := grant } = .ok p s'.heap ∧
      s'.live p = some size.toNat ∧
      ∀ i < n, s'.heap.mem (p + BitVec.ofNat 32 i) = s.heap.mem (ptr + BitVec.ofNat 32 i)

variable {grant : Bool}

theorem HeapUser.Owns.setGrant (ho : s.Owns bs) (grant : Bool) :
    HeapUser.Owns { s with heap := { s.heap with grant := grant } } bs :=
  ⟨⟨ho.tiled.base, ho.tiled.top, ho.tiled.limit, ho.tiled.headers⟩, ho.live⟩

/-- The sizes that a program may ask for do not wrap. -/
theorem HeapUser.Maps.room (hmaps : s.Maps grant size) (hroom : HasFit bs (blockSizeOf size) ∨
      Heap.Grants { s.heap with grant := grant } (blockSizeOf size)) :
    HasFit bs (blockSizeOf size) ∨ Heap.Grants { s.heap with grant := grant } (blockSizeOf size) ∧
      Heap.Below { s.heap with grant := grant } (blockSizeOf size) :=
  hroom.imp_right fun hg => ⟨hg, hmaps hg⟩

theorem HeapUser.Owns.malloc (ho : s.Owns bs) (hsize : size.toNat ≤ 2 ^ 31)
    (hmaps : s.Maps grant size) :
    ∃ s' bs', s.step (.malloc grant size) = some s' ∧ s.Does bs (.malloc grant size) s' bs' := by
  have ho' := ho.setGrant grant
  by_cases hroom : HasFit bs (blockSizeOf size) ∨
      Heap.Grants { s.heap with grant := grant } (blockSizeOf size)
  · obtain ⟨h', bs', y, d, hmalloc, hd, hch⟩ :=
      malloc_changes ho'.tiled (by omega) (hmaps.room hroom)
    have hused := hd.trans_ne (Option.some_ne_none size.toNat)
    have hbounds := hch.tiled.bounds (hch.new_mem hused)
    have hp := ofNat_eight_ne_zero (x := y) (by omega)
    refine ⟨⟨h', Function.update s.live (BitVec.ofNat 32 (y + 8)) (some size.toNat)⟩, bs', ?_, ?_,
      ?_, nofun⟩
    · rw [HeapUser.step, hmalloc]
      exact congrArg (fun live => some (HeapUser.mk h' live)) (if_neg hp)
    · refine ho'.of_changes hch nofun (fun z e hze => ?_) (fun z e hze => ?_) nofun
        fun p hnew _ => ?_
      · cases hze
        exact hused
      · cases hze
        rw [hd]
        exact Function.update_self ..
      · exact Function.update_of_ne (hnew y d rfl) ..
    · exact fun x c hmem hc _ z => hch.bytes x c hc hmem nofun z
  · rw [not_or] at hroom
    have hmalloc := malloc_eq_zero ho'.tiled hroom.1 hroom.2
    refine ⟨⟨{ s.heap with grant := grant }, s.live⟩, bs, ?_, ho', fun _ _ _ _ _ _ _ _ => rfl,
      nofun⟩
    rw [HeapUser.step, hmalloc]
    rfl

theorem HeapUser.Owns.free (ho : s.Owns bs) (hptr : s.live ptr ≠ none) :
    ∃ s' bs', s.step (.free ptr) = some s' ∧ s.Does bs (.free ptr) s' bs' := by
  obtain ⟨n, hn⟩ := Option.ne_none_iff_exists'.mp hptr
  obtain ⟨x, c, hmem, hreq, rfl⟩ := (ho.live ptr n).mp hn
  obtain ⟨h', bs', hfree, hch⟩ := free_changes ho.tiled hmem
  refine ⟨⟨h', Function.update s.live (BitVec.ofNat 32 (x + 8)) none⟩, bs', ?_, ?_, ?_, nofun⟩
  · rw [HeapUser.step, hfree]
  · refine ho.of_changes hch (fun z hz => ?_) nofun nofun (fun z hz _ => ?_) fun p _ hgone => ?_
    · cases hz
      exact ⟨c, hmem⟩
    · cases hz
      exact Function.update_self ..
    · exact Function.update_of_ne (hgone x rfl) ..
  · refine fun y d hd hused htarget z => hch.bytes y d hused hd (fun hxy => htarget ?_) z
    cases hxy
    rfl

theorem HeapUser.Owns.toNat_data (ho : s.Owns bs) (hmem : (x, c) ∈ s.heap.placed bs)
    (hreq : c.request = some n) {i : ℕ} (hi : i < n) :
    (BitVec.ofNat 32 (x + 8) + BitVec.ofNat 32 i).toNat = x + 8 + i ∧ x + 8 + i < x + c.size := by
  have hbounds := ho.tiled.bounds hmem
  have hfits := c.fits
  rw [hreq, Option.getD_some] at hfits
  rw [← BitVec.ofNat_add]
  exact ⟨toNat_ofNat _ (by omega), by omega⟩

theorem HeapUser.Owns.write (ho : s.Owns bs) {i : ℕ} (value : Byte) (hptr : s.live ptr = some n)
    (hi : i < n) :
    ∃ s' bs', s.step (.write ptr i value) = some s' ∧ s.Does bs (.write ptr i value) s' bs' := by
  obtain ⟨x, c, hmem, hreq, rfl⟩ := (ho.live ptr n).mp hptr
  have hused := hreq.trans_ne (Option.some_ne_none n)
  obtain ⟨hnat, hlt⟩ := ho.toNat_data hmem hreq hi
  have hsame : SameOutside (x + 8) (x + c.size) s.heap.mem (Function.update s.heap.mem
      (BitVec.ofNat 32 (x + 8) + BitVec.ofNat 32 i) value) := by
    refine fun z hz => Function.update_of_ne (fun heq => ?_) ..
    rw [heq, hnat] at hz
    omega
  obtain ⟨bs', hch⟩ := ho.tiled.changes_update hmem hused hused rfl hsame
  refine ⟨_, bs', rfl, ?_, ?_, nofun⟩
  · refine ho.of_changes hch (fun z hz => ?_) (fun z e hze => ?_) (fun z e hze => ?_)
      (fun z hz hne => ?_) fun _ _ _ => rfl
    · cases hz
      exact ⟨c, hmem⟩
    · cases hze
      exact hused
    · cases hze
      rw [hreq]
      exact hptr
    · cases hz
      exact absurd rfl (hne x c rfl)
  · refine fun y d hd hdused htarget z => hch.bytes y d hdused hd (fun hxy => htarget ?_) z
    cases hxy
    rfl

theorem HeapUser.Owns.realloc (ho : s.Owns bs) (hptr : s.live ptr ≠ none)
    (hsize : size.toNat ≤ 2 ^ 31) (hmaps : s.Maps grant size) (hmoves : s.Moves grant ptr size) :
    ∃ s' bs', s.step (.realloc grant ptr size) = some s' ∧
      s.Does bs (.realloc grant ptr size) s' bs' := by
  have ho' := ho.setGrant grant
  obtain ⟨n, hn⟩ := Option.ne_none_iff_exists'.mp hptr
  obtain ⟨x, c, hmem, hreq, rfl⟩ := (ho.live ptr n).mp hn
  have hcused := hreq.trans_ne (Option.some_ne_none n)
  have hbounds := ho.tiled.bounds hmem
  -- If the block is too small, `malloc` has room, since it does not return `NULL`.
  have hroom : (blockSizeOf size).toNat ≤ c.size ∨ HasFit bs (blockSizeOf size) ∨
      Heap.Grants { s.heap with grant := grant } (blockSizeOf size) := by
    obtain hle | ⟨p, h', hmalloc, hp⟩ := hmoves
    · rw [ho.tiled.word_of_ptr hmem, BitVec.le_def, toNat_ofNat _ (by omega)] at hle
      exact .inl hle
    · refine .inr (not_not.mp fun hroom => hp ?_)
      rw [not_or] at hroom
      have hzero := malloc_eq_zero ho'.tiled hroom.1 hroom.2
      exact (EStateM.Result.ok.inj (hmalloc.symm.trans hzero)).1
  obtain ⟨h', bs', y, d, hrealloc, hd, hch, hcopy⟩ := realloc_changes ho'.tiled hmem hcused
    (by omega) (hroom.imp_right hmaps.room)
  have hused := hd.trans_ne (Option.some_ne_none size.toNat)
  refine ⟨⟨h', Function.update (Function.update s.live (BitVec.ofNat 32 (x + 8)) none)
    (BitVec.ofNat 32 (y + 8)) (some size.toNat)⟩, bs', ?_, ?_, ?_, ?_⟩
  · rw [HeapUser.step, hrealloc]
  · refine ho'.of_changes hch (fun z hz => ?_) (fun z e hze => ?_) (fun z e hze => ?_)
      (fun z hz hne => ?_) fun p hnew hgone => ?_
    · cases hz
      exact ⟨c, hmem⟩
    · cases hze
      exact hused
    · cases hze
      rw [hd]
      exact Function.update_self ..
    · cases hz
      rw [Function.update_of_ne (hne y d rfl)]
      exact Function.update_self ..
    · rw [Function.update_of_ne (hnew y d rfl)]
      exact Function.update_of_ne (hgone x rfl) ..
  · refine fun z e he heused htarget w => hch.bytes z e heused he (fun hxz => htarget ?_) w
    cases hxz
    rfl
  · intro grant' ptr' size' m heq hm
    cases heq
    obtain rfl := Option.some.inj (hm.symm.trans hn)
    refine ⟨_, hrealloc, Function.update_self .., fun i hi => ?_⟩
    have hdata := (ho.toNat_data hmem hreq hi).2
    rw [← BitVec.ofNat_add, ← BitVec.ofNat_add]
    exact hcopy i (by omega)

theorem HeapUser.Owns.step (ho : s.Owns bs) (hallows : s.Allows call) :
    ∃ s' bs', s.step call = some s' ∧ s.Does bs call s' bs' := by
  cases call with
  | malloc grant size => exact ho.malloc hallows.1 hallows.2
  | realloc grant ptr size =>
    obtain ⟨hptr, hsize, hmaps, hmoves⟩ := hallows
    exact ho.realloc hptr hsize hmaps hmoves
  | free ptr => exact ho.free hallows
  | write ptr i value =>
    obtain ⟨n, hptr, hi⟩ := hallows
    exact ho.write value hptr hi

/-! ## Whole runs -/

/-- What is true of the heap of a program between two calls: the headers tile it, and each pointer
that the program has points to a block of its own that is in use, aligned and large enough. -/
structure HeapUser.Intact (s : HeapUser) (bs : List Chunk) : Prop where
  tiled : s.heap.Tiled bs
  live : ∀ p n, s.live p = some n → ∃ x c, (x, c) ∈ s.heap.placed bs ∧ c.request = some n ∧
    p.toNat = x + headerSize.toNat ∧
    loadWord s.heap.mem (p - headerSize) = BitVec.ofNat 32 c.size ||| mallocUsed ∧
    n ≤ c.size - headerSize.toNat ∧ p.toNat % mallocAlignment.toNat = 0
  apart : ∀ x c y d, (x, c) ∈ s.heap.placed bs → (y, d) ∈ s.heap.placed bs → x ≠ y →
    x + c.size ≤ y ∨ y + d.size ≤ x

/-- The blocks start where the ones before them end. -/
theorem Heap.Tiled.aligned (ht : h.Tiled bs) (hmem : (x, c) ∈ h.placed bs) : x % 8 = 0 := by
  have htotal (l : List Chunk) : total Chunk.size l % 8 = 0 := by
    induction l with
    | nil => rfl
    | cons d l ih =>
      have haligned := d.aligned
      rw [total_cons]
      omega
  have hbase := ht.base.1
  obtain ⟨xs, ys, -, rfl⟩ := mem_place.mp hmem
  have := htotal xs
  omega

theorem HeapUser.Owns.intact (ho : s.Owns bs) : s.Intact bs := by
  refine ⟨ho.tiled, fun p n hp => ?_, fun x c y d hx hy hxy => ?_⟩
  · obtain ⟨x, c, hmem, hreq, rfl⟩ := (ho.live p n).mp hp
    have hbounds := ho.tiled.bounds hmem
    have haligned := ho.tiled.aligned hmem
    have hcal := c.aligned
    have hfits := c.fits
    have hsize : (BitVec.ofNat 32 c.size).toNat = c.size := toNat_ofNat _ (by omega)
    have hnat : (BitVec.ofNat 32 (x + 8)).toNat = x + 8 := toNat_ofNat _ (by omega)
    have hheader : BitVec.ofNat 32 (x + 8) - headerSize = BitVec.ofNat 32 x := by
      rw [BitVec.ofNat_add]
      exact BitVec.add_sub_cancel _ _
    have h8 : headerSize.toNat = 8 := rfl
    have h8' : mallocAlignment.toNat = 8 := rfl
    rw [hreq, Option.getD_some] at hfits
    rw [h8, h8', hnat]
    refine ⟨x, c, hmem, hreq, rfl, ?_, by omega, by omega⟩
    rw [hheader, ho.tiled.headers x c hmem, or_used (by omega) (by omega), hsize, Chunk.word, hreq]
    rfl
  · exact (eq_or_apart hx hy).resolve_left fun heq => hxy (Prod.mk.inj heq).1

/-- The heap is intact after every run, every call that the program may make returns, and it changes
no block but its own. -/
theorem heap_intact_of_run {mem : Word → Byte} {calls : List HeapCall}
    (hrun : Steps HeapUser.step (fun s call _ => s.Allows call) (HeapUser.start mem) calls s) :
    ∃ bs, s.Intact bs ∧ ∀ call, s.Allows call →
      ∃ s' bs', s.step call = some s' ∧ s.Does bs call s' bs' := by
  obtain ⟨bs, ho⟩ : ∃ bs, s.Owns bs := by
    refine hrun.invariant (I := fun s => ∃ bs, s.Owns bs) ?_ ⟨[], HeapUser.start_owns mem⟩
    rintro s call s' ⟨bs, ho⟩ hstep hallows
    obtain ⟨t, bs', hstep', hdoes⟩ := ho.step hallows
    obtain rfl := Option.some.inj (hstep.symm.trans hstep')
    exact ⟨bs', hdoes.owns⟩
  exact ⟨bs, ho.intact, fun call hallows => ho.step hallows⟩

/-- A block of five bytes is the first one, and it can be made larger. -/
theorem first_block_intact :
    ∃ s bs, (HeapUser.start fun _ => 0).step (.malloc true 5) = some s ∧
      s.live 0x20000008 = some 5 ∧ s.Intact bs ∧
      ∃ s' bs', s.step (.realloc true 0x20000008 100) = some s' ∧
        s.Does bs (.realloc true 0x20000008 100) s' bs' := by
  have hallows : (HeapUser.start fun _ => 0).Allows (.malloc true 5) := by
    refine ⟨by decide, fun _ => ?_⟩
    rw [Heap.Below]
    decide
  obtain ⟨s, hstep, hlive, htop, hmoves⟩ : ∃ s, (HeapUser.start fun _ => 0).step (.malloc true 5) =
      some s ∧ s.live 0x20000008 = some 5 ∧ s.heap.heapTop = 0x20001000 ∧
      s.Moves true 0x20000008 100 := by
    refine ⟨_, rfl, by decide +kernel, rfl, .inr ⟨_, _, rfl, by decide +kernel⟩⟩
  obtain ⟨bs, hintact, hcalls⟩ := heap_intact_of_run (.cons hstep hallows (.nil s))
  have hptr : s.live 0x20000008 ≠ none := hlive.trans_ne (Option.some_ne_none 5)
  refine ⟨s, bs, hstep, hlive, hintact, hcalls _ ⟨hptr, by decide, fun _ => ?_, hmoves⟩⟩
  rw [Heap.Below]
  exact (congrArg (fun top : Word => top.toNat + _ ≤ _) htop).mpr (by decide)

end Horizon.Libh
