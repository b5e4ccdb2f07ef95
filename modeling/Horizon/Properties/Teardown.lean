import Horizon.Memory.Ranges
import Horizon.System.Boot
import Horizon.System.Mapping
import Horizon.System.Directories

/-!
# Horizon — which frames `paging_dir_destroy` releases

A directory below the kernel's half is made of pieces: the pages that its tables map, the tables,
and the directory itself. Destroying it should release the frame of each piece once.

The inner loop of `paging_dir_destroy` counts with `j` and looks at entry `i`, the index of the
table. `Vm.releases` is the list of pieces whose frames are released, in order. It has the page at
the diagonal entry of a table 1024 times, if there is one, and no other page.
-/

namespace Horizon

open StateError Vm

variable {vm vm' : Vm} {d f tbl : Frame} {i j : BitVec 10} {n : ℕ}

/-- A part of a page directory. -/
inductive Piece where
  | page (i j : BitVec 10)
  | table (i : BitVec 10)
  | dir
  deriving DecidableEq

/-- The frame that a piece takes up. -/
def Vm.pieceFrame (vm : Vm) (d : Frame) : Piece → Frame
  | .page i j => (vm.pages (vm.pages d i).frame j).frame
  | .table i => (vm.pages d i).frame
  | .dir => d

/-- Does the directory have the piece? -/
def Vm.hasPiece (vm : Vm) (d : Frame) : Piece → Bool
  | .page i j => i < userTop && (vm.pages d i).present && (vm.pages (vm.pages d i).frame j).present
  | .table i => i < userTop && (vm.pages d i).present
  | .dir => true

/-- `PAGING_TBL_PAGE_MAX`. -/
def pagingTblPageMax : ℕ := 1024

/-- What is released for a table. -/
def Vm.tableReleases (vm : Vm) (d : Frame) (i : BitVec 10) : List Piece :=
  if (vm.pages d i).present then
    (if (vm.pages (vm.pages d i).frame i).present then
      List.replicate pagingTblPageMax (.page i i)
    else []) ++ [.table i]
  else []

/-- What `paging_dir_destroy` releases. -/
def Vm.releases (vm : Vm) (d : Frame) : List Piece :=
  (List.range userTop.toNat).flatMap (fun n => vm.tableReleases d (BitVec.ofNat 10 n)) ++ [.dir]

/-- Release some frames, one after the other. -/
def releaseAll (frames : List Frame) : VmM Unit :=
  frames.forM fun f => do
    let _ ← physicalRelease f

/-! ## The loops -/

theorem releaseAll_cons {fs : List Frame} :
    releaseAll (f :: fs) = physicalRelease f >>= fun _ => releaseAll fs := by
  show (physicalRelease f >>= fun _ => pure ()) >>= (fun _ => releaseAll fs) = _
  rw [bind_assoc]
  simp only [pure_bind]

theorem releaseAll_append {fs gs : List Frame} :
    releaseAll (fs ++ gs) = releaseAll fs >>= fun _ => releaseAll gs := by
  induction fs with
  | nil => rfl
  | cons f fs ih =>
    rw [List.cons_append, releaseAll_cons, releaseAll_cons, ih, bind_assoc]

theorem physicalRelease_pages {freed : Bool} (h : physicalRelease f vm = .ok freed vm') :
    vm'.pages = vm.pages ∧ ∀ g, vm'.count g = vm.count g - if g = f then 1 else 0 := by
  obtain ⟨hsame, hpool⟩ := physicalRelease_pool (fun _ => none) h
  refine ⟨hsame.pages, fun g => ?_⟩
  have hcount := FramePool.Pool.count_release (P := vm.pool fun _ => none) (f := f) (g := g)
  rwa [← hpool] at hcount

/-- Releasing frames changes no page structure, and counts one reference less for each. -/
theorem releaseAll_eq_ok {fs : List Frame} (h : releaseAll fs vm = .ok () vm') :
    vm'.pages = vm.pages ∧ ∀ g, vm'.count g = vm.count g - fs.count g := by
  induction fs generalizing vm with
  | nil =>
    cases h
    exact ⟨rfl, fun _ => rfl⟩
  | cons f fs ih =>
    rw [releaseAll_cons, bind_eq_ok] at h
    obtain ⟨freed, vm₁, hfirst, hrest⟩ := h
    obtain ⟨hpages, hcount⟩ := physicalRelease_pages hfirst
    obtain ⟨hpages', hcount'⟩ := ih hrest
    refine ⟨hpages'.trans hpages, fun g => ?_⟩
    rw [hcount', hcount, List.count_cons, Nat.sub_sub, Nat.add_comm]
    simp only [beq_iff_eq, eq_comm (a := g)]

/-- The inner loop: 1024 rounds that all look at the same entry. -/
theorem destroyTable_eq : destroyTable tbl i n vm = releaseAll
    (if (vm.pages tbl i).present then List.replicate n (vm.pages tbl i).frame else []) vm := by
  induction n generalizing vm with
  | zero => cases (vm.pages tbl i).present <;> rfl
  | succ n ih =>
    rw [destroyTable, get_bind_apply]
    cases hpresent : (vm.pages tbl i).present with
    | false =>
      rw [runIf, if_neg (by decide), pure_bind, ih, hpresent]
      rfl
    | true =>
      rw [runIf, if_pos rfl, if_pos rfl, List.replicate_succ, releaseAll_cons, bind_assoc]
      simp only [pure_bind]
      refine bind_congr_ok fun freed vm₁ hrelease => ?_
      have hpages := (physicalRelease_pages hrelease).1
      rw [ih, hpages, if_pos hpresent]

/-- The frames that are released for the tables from `i` on. -/
def Vm.tableFrames (vm : Vm) (d : Frame) (i : BitVec 10) (n : ℕ) : List Frame :=
  (List.range n).flatMap fun m =>
    (vm.tableReleases d (i + BitVec.ofNat 10 m)).map (vm.pieceFrame d)

theorem tableFrames_succ : vm.tableFrames d i (n + 1) =
    (vm.tableReleases d i).map (vm.pieceFrame d) ++ vm.tableFrames d (i + 1) n := by
  have hnext : ∀ m, i + BitVec.ofNat 10 (m + 1) = i + 1 + BitVec.ofNat 10 m := by
    intro m
    rw [BitVec.add_assoc, Nat.add_comm, BitVec.ofNat_add]
    rfl
  rw [tableFrames, tableFrames, List.range_succ_eq_map, List.flatMap_cons, List.flatMap_map,
    BitVec.add_zero]
  simp only [Nat.succ_eq_add_one, hnext]

theorem tableFrames_congr (h : vm'.pages = vm.pages) :
    vm'.tableFrames d i n = vm.tableFrames d i n := by
  have hframe : vm'.pieceFrame d = vm.pieceFrame d := by
    funext p
    cases p <;> simp only [pieceFrame, h]
  simp only [tableFrames, tableReleases, h, hframe]

theorem destroyTables_eq : destroyTables d n i vm = releaseAll (vm.tableFrames d i n) vm := by
  induction n generalizing vm i with
  | zero => rfl
  | succ n ih =>
    rw [destroyTables, get_bind_apply, tableFrames_succ, tableReleases]
    cases hpresent : (vm.pages d i).present with
    | false =>
      rw [runIf, if_neg (by decide), pure_bind, ih]
      rfl
    | true =>
      have hmap : (if (vm.pages (vm.pages d i).frame i).present = true then
          List.replicate pagingTblPageMax (Piece.page i i) else []).map (vm.pieceFrame d) =
          if (vm.pages (vm.pages d i).frame i).present = true then
            List.replicate pagingTblPageMax (vm.pages (vm.pages d i).frame i).frame else [] := by
        split
        · rw [List.map_replicate]
          rfl
        · rfl
      rw [runIf, if_pos rfl, if_pos rfl, List.map_append, hmap, List.append_assoc,
        releaseAll_append, bind_assoc]
      -- Both sides release the page, then the table, then what the later rounds release.
      have hinner : destroyTable (vm.pages d i).frame i 1024 vm = _ :=
        destroyTable_eq (n := pagingTblPageMax)
      rw [bind_apply, bind_apply, hinner]
      cases htable : releaseAll (if (vm.pages (vm.pages d i).frame i).present = true then
          List.replicate pagingTblPageMax (vm.pages (vm.pages d i).frame i).frame else []) vm with
      | error e t => rfl
      | ok u vm₁ =>
        have hpages₁ := (releaseAll_eq_ok htable).1
        show ((physicalRelease _ >>= fun _ => pure ()) >>= fun _ => destroyTables d n (i + 1))
          vm₁ = releaseAll (_ :: _) vm₁
        rw [releaseAll_cons, bind_assoc]
        simp only [pure_bind]
        refine bind_congr_ok fun freed vm₂ hrelease => ?_
        have hpages₂ := (physicalRelease_pages hrelease).1
        rw [ih, tableFrames_congr (hpages₂.trans hpages₁)]
        rfl

/-- `paging_dir_destroy` releases the frames of the listed pieces, in that order. -/
theorem pagingDirDestroy_eq (hnull : d ≠ 0) (hd : d ≠ vm.kernelDir) :
    pagingDirDestroy d vm = releaseAll ((vm.releases d).map (vm.pieceFrame d)) vm := by
  have hframes : (vm.releases d).map (vm.pieceFrame d) =
      vm.tableFrames d 0 (dirIndex kernelVirtBase).toNat ++ [d] := by
    have hzero : ∀ m, (0 : BitVec 10) + BitVec.ofNat 10 m = BitVec.ofNat 10 m := fun m =>
      BitVec.zero_add _
    simp only [Vm.releases, List.map_append, List.map_flatMap, tableFrames, hzero]
    rfl
  rw [hframes, releaseAll_append, pagingDirDestroy, get_bind_apply, failIf,
    if_neg (not_or.mpr ⟨hnull, hd⟩),
    pure_bind,
    bind_apply, bind_apply, destroyTables_eq]
  cases releaseAll (vm.tableFrames d 0 (dirIndex kernelVirtBase).toNat) vm with
  | error e t => rfl
  | ok u vm₁ =>
    rw [releaseAll_cons]
    rfl

/-! ## How often a piece is released -/

theorem count_tableReleases_page {m : BitVec 10} : (vm.tableReleases d m).count (.page i j) =
    if m = i ∧ j = i ∧ (vm.pages d i).present ∧ (vm.pages (vm.pages d i).frame i).present then
      pagingTblPageMax else 0 := by
  unfold tableReleases
  by_cases hm : m = i
  · subst hm
    cases hpresent : (vm.pages d m).present with
    | false => simp
    | true =>
      cases hdiag : (vm.pages (vm.pages d m).frame m).present with
      | false => simp
      | true =>
        by_cases hj : j = m
        · subst hj
          simp
        · simp [hj, List.count_replicate, Ne.symm hj]
  · split
    · split <;> simp [hm, List.count_replicate]
    · simp [hm]

theorem count_tableReleases_table {m : BitVec 10} : (vm.tableReleases d m).count (.table i) =
    if m = i ∧ (vm.pages d i).present then 1 else 0 := by
  unfold tableReleases
  by_cases hm : m = i
  · subst hm
    cases hpresent : (vm.pages d m).present with
    | false => simp
    | true =>
      cases hdiag : (vm.pages (vm.pages d m).frame m).present <;>
        simp [List.count_replicate]
  · split
    · split <;> simp [hm, List.count_replicate]
    · simp [hm]

/-- What occurs in one part of a list only. -/
theorem count_flatMap_range {p : Piece} {g : ℕ → List Piece} {a c m : ℕ}
    (h : ∀ n < m, (g n).count p = if n = a then c else 0) :
    ((List.range m).flatMap g).count p = if a < m then c else 0 := by
  induction m with
  | zero => rfl
  | succ m ih =>
    rw [List.range_succ, List.flatMap_append, List.count_append, List.flatMap_singleton,
      ih fun n hn => h n (by omega), h m (by omega)]
    by_cases hlt : a < m
    · rw [if_pos hlt, if_neg (by omega), if_pos (by omega), Nat.add_zero]
    · by_cases heq : m = a
      · rw [if_neg hlt, if_pos heq, if_pos (by omega), Nat.zero_add]
      · rw [if_neg hlt, if_neg heq, if_neg (by omega)]

/-- What is released for one table only is released in the round of that table. -/
theorem count_releases {p : Piece} {c : ℕ} (hp : p ≠ .dir)
    (h : ∀ m, (vm.tableReleases d m).count p = if m = i then c else 0) :
    (vm.releases d).count p = if i < userTop then c else 0 := by
  have hround : ∀ n < userTop.toNat,
      (vm.tableReleases d (BitVec.ofNat 10 n)).count p = if n = i.toNat then c else 0 := by
    intro n hn
    rw [toNat_userTop] at hn
    have heq : BitVec.ofNat 10 n = i ↔ n = i.toNat := by
      rw [← BitVec.toNat_inj, BitVec.toNat_ofNat, Nat.mod_eq_of_lt (by omega)]
    rw [h]
    simp only [heq]
  have hlast : List.count p [Piece.dir] = 0 := by simp [hp.symm]
  rw [Vm.releases, List.count_append, hlast, Nat.add_zero, count_flatMap_range hround]
  simp only [BitVec.lt_def]

theorem count_releases_page : (vm.releases d).count (.page i j) =
    if j = i ∧ vm.hasPiece d (.page i i) then pagingTblPageMax else 0 := by
  have hround : ∀ m, (vm.tableReleases d m).count (.page i j) = if m = i then
      if j = i ∧ (vm.pages d i).present ∧ (vm.pages (vm.pages d i).frame i).present then
        pagingTblPageMax else 0 else 0 := by
    intro m
    rw [count_tableReleases_page, ite_and]
  rw [count_releases (p := .page i j) nofun hround]
  simp only [← ite_and, hasPiece, Bool.and_eq_true, decide_eq_true_eq]
  exact if_congr (by tauto) rfl rfl

theorem count_releases_table : (vm.releases d).count (.table i) =
    if vm.hasPiece d (.table i) then 1 else 0 := by
  have hround : ∀ m, (vm.tableReleases d m).count (.table i) =
      if m = i then if (vm.pages d i).present then 1 else 0 else 0 := by
    intro m
    rw [count_tableReleases_table, ite_and]
  rw [count_releases (p := .table i) nofun hround]
  simp only [← ite_and, hasPiece, Bool.and_eq_true, decide_eq_true_eq]

theorem count_releases_dir : (vm.releases d).count .dir = 1 := by
  have hnone : ∀ m, (vm.tableReleases d m).count .dir = 0 := by
    intro m
    unfold tableReleases
    split
    · split <;> simp [List.count_replicate]
    · rfl
  have hrounds := count_flatMap_range (p := .dir) (c := 0) (a := 0) (m := userTop.toNat)
    (g := fun n => vm.tableReleases d (BitVec.ofNat 10 n)) fun n _ => by rw [hnone, ite_self]
  rw [Vm.releases, List.count_append, hrounds, ite_self]
  rfl

/-- Destroying a directory releases the frame of each of its pieces once and nothing else, exactly
if no table below the kernel's half maps a page. In any case every frame loses one reference for
each piece that is released. -/
theorem releases_each_once_iff (hnull : d ≠ 0) (hd : d ≠ vm.kernelDir) :
    pagingDirDestroy d vm = releaseAll ((vm.releases d).map (vm.pieceFrame d)) vm ∧
    ((∀ p, (vm.releases d).count p = if vm.hasPiece d p then 1 else 0) ↔
      ∀ i j, i < userTop → (vm.pages d i).present = true →
        (vm.pages (vm.pages d i).frame j).present = false) ∧
    ∀ vm', pagingDirDestroy d vm = .ok () vm' →
      ∀ f, vm'.count f = vm.count f - ((vm.releases d).map (vm.pieceFrame d)).count f := by
  refine ⟨pagingDirDestroy_eq hnull hd, ⟨?_, ?_⟩, fun vm' h => ?_⟩
  · intro hall i j hi htable
    cases hpage : (vm.pages (vm.pages d i).frame j).present with
    | false => rfl
    | true =>
      have hpiece : vm.hasPiece d (.page i j) = true := by
        simp only [hasPiece, hi, htable, hpage, decide_true, Bool.and_self]
      have hcount := hall (.page i j)
      rw [count_releases_page, if_pos hpiece] at hcount
      split at hcount <;> cases hcount
  · intro hempty p
    cases p with
    | page i j =>
      have hnone : ∀ j, vm.hasPiece d (.page i j) = false := by
        intro j
        by_cases htable : i < userTop ∧ (vm.pages d i).present = true
        · simp only [hasPiece, hempty i j htable.1 htable.2, Bool.and_false]
        · rw [not_and_or] at htable
          rcases htable with hi | htable
          · simp only [hasPiece, hi, decide_false, Bool.false_and]
          · simp only [hasPiece, Bool.eq_false_iff.mpr htable, Bool.and_false, Bool.false_and]
      rw [count_releases_page, hnone, hnone, if_neg (by simp)]
      rfl
    | table i => exact count_releases_table
    | dir => exact count_releases_dir
  · rw [pagingDirDestroy_eq hnull hd] at h
    exact (releaseAll_eq_ok h).2

/-- The machine with two processes, the first of which has an empty table in frame 0x700. -/
def emptyTableVm : Vm :=
  { bareVm with
    pages := fun f i => if f = 0x401 ∧ i = 1 then { present := true, frame := 0x700 }
      else bareVm.pages f i }

/-- The table and the directory are released once each. -/
theorem empty_table_released_once : emptyTableVm.hasPiece 0x401 (.table 1) = true ∧
    ∀ p, (emptyTableVm.releases 0x401).count p =
      if emptyTableVm.hasPiece 0x401 p then 1 else 0 := by
  have hd : (0x401 : Frame) ≠ emptyTableVm.kernelDir := by decide
  refine ⟨by decide, ?_⟩
  refine (releases_each_once_iff (by decide) hd).2.1.mpr fun i j hi htable => ?_
  by_cases hi1 : i = 1
  · subst hi1
    rfl
  · have hrec : i ≠ recursiveIndex := by
      rintro rfl
      exact absurd hi (by decide)
    have hsame : emptyTableVm.pages 0x401 i = bareVm.pages 0x401 i := if_neg fun h => hi1 h.2
    rw [hsame, pages_bareVm (by decide), if_neg hrec, if_neg (BitVec.not_le.mpr hi)] at htable
    cases htable

/-- A page that a process has mapped at entry 0 of table 1 is not released. Its block keeps its
reference when the directory is gone. -/
theorem mapped_page_never_released : ∃ k₀ k vm' f, Booted k₀ ∧
    runEvents Kernel.step k₀ [callEvent 7 0x400000 0x1000 0] = some k ∧ k.liveProcess 2 = true ∧
    k.vm.hasPiece (k.dirOf 2) (.page 1 0) = true ∧ k.vm.pieceFrame (k.dirOf 2) (.page 1 0) = f ∧
    (k.vm.releases (k.dirOf 2)).count (.page 1 0) = 0 ∧
    pagingDirDestroy (k.dirOf 2) k.vm = .ok () vm' ∧ k.vm.count f = 1 ∧ vm'.count f = 1 := by
  have hany : (runPages (fun _ => 0) [0x2000] [callEvent 7 0x400000 0x1000 0]).any (fun k =>
      k.liveProcess 2 && k.vm.hasPiece (k.dirOf 2) (.page 1 0) &&
      (match pagingDirDestroy (k.dirOf 2) k.vm with
        | .ok _ vm' => decide (k.vm.count (k.vm.pieceFrame (k.dirOf 2) (.page 1 0)) = 1 ∧
            vm'.count (k.vm.pieceFrame (k.dirOf 2) (.page 1 0)) = 1)
        | .error _ _ => false)) = true := by decide +kernel
  obtain ⟨k₀, k, hboot, hrun, hk⟩ := exists_run_of_any hany
  simp only [Bool.and_eq_true] at hk
  obtain ⟨⟨hlive, hpiece⟩, hcount⟩ := hk
  split at hcount
  · next vm' hdestroy =>
    rw [decide_eq_true_eq] at hcount
    refine ⟨k₀, k, vm', _, hboot, hrun, hlive, hpiece, rfl, ?_, hdestroy, hcount⟩
    rw [count_releases_page, if_neg fun h => absurd h.1 (by decide)]
  · cases hcount

end Horizon
