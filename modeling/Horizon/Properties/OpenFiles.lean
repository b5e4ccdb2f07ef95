import Horizon.User.Vfsd
import Mathlib.Data.Finset.Card
import Mathlib.Data.Finset.Range

/-!
# Horizon — file descriptors belong to processes

The virtual file system server answers requests one after the other. `Served.Isolated` says what a
client may reach with a file descriptor: the node that an earlier request of the same process has
opened under that number, and nothing else.

The tables of all processes lie one after the other in memory, nine words each, and the descriptor
is not checked. Descriptors below 8 stay in the table of the process. From 9 on they reach the
tables of the processes that follow.
-/

namespace Horizon

open StateError

variable {s s' : Vfs} {p q : BitVec 10} {i j : ℕ} {node fd : Word} {req : VfsRequest}
  {reply : VfsReply}

/-! ## The server -/

/-- A request, with what the server gets from elsewhere while it deals with it. -/
structure VfsEvent where
  req : VfsRequest
  replies : ℕ → FsReply
  blocks : ℕ → Word

/-- A request that has been answered. -/
structure Served where
  req : VfsRequest
  reply : VfsReply
  deriving DecidableEq, Repr

/-- The server, and what it has answered. -/
structure Server where
  vfs : Vfs
  log : List Served

def Server.serve (srv : Server) (ev : VfsEvent) : Option Server :=
  match handleRequest ev.req { srv.vfs with replies := ev.replies, blocks := ev.blocks } with
  | .ok reply vfs => some { vfs, log := srv.log ++ [⟨ev.req, reply⟩] }
  | .error _ _ => none

/-- The tables are empty when the server starts. -/
structure Server.Initial (srv : Server) : Prop where
  log : srv.log = []
  tables : ∀ cell : BitVec 30, cell.toNat < 9216 → srv.vfs.tables cell = 0

/-- A request of process `p` has opened the node as `fd`. -/
def Opened (log : List Served) (p : BitVec 10) (fd node : Word) : Prop :=
  ∃ r ∈ log, r.req.code = vfsOpen ∧ iportProc r.req.sender = p ∧ r.reply.code = fd ∧
    r.reply.node = some node

/-- Does the request read or write a file? -/
def VfsRequest.Transfers (req : VfsRequest) : Prop := req.code = vfsRead ∨ req.code = vfsWrite

/-- A request acts only on the node that its process has opened under the descriptor. Without one it
fails. -/
structure Served.Isolated (r : Served) (log : List Served) : Prop where
  acts : ∀ node, r.reply.node = some node →
    Opened log (iportProc r.req.sender) r.req.arg0 node
  fails : (∀ node, ¬Opened log (iportProc r.req.sender) r.req.arg0 node) →
    r.reply.code = -1 ∧ r.reply.node = none

def Server.Isolated (srv : Server) : Prop :=
  ∀ log r, log ++ [r] <+: srv.log → r.req.Transfers → r.Isolated log

/-- The node in a slot of a table. -/
def Vfs.slot (s : Vfs) (p : BitVec 10) (i : ℕ) : Word := s.tables (nodeCell p (BitVec.ofNat 32 i))

/-- The slots of a table that are in use. -/
def Vfs.used (s : Vfs) (p : BitVec 10) : Finset ℕ := (Finset.range 8).filter fun i => s.slot p i ≠ 0

/-- A slot has the node that has been opened under its number, and the count of a table is that of
the slots in use. -/
structure Server.TablesRight (srv : Server) : Prop where
  slots : ∀ p, ∀ i < 8, ∀ node, srv.vfs.slot p i = node ∧ node ≠ 0 ↔
    Opened srv.log p (BitVec.ofNat 32 i) node
  counts : ∀ p, (srv.vfs.tables (countCell p)).toNat = (srv.vfs.used p).card

/-! ## The cells -/

theorem toNat_countCell : (countCell p).toNat = p.toNat * 9 := by
  have hp := p.isLt
  have hnine : (9 : BitVec 30).toNat = 9 := rfl
  rw [countCell, BitVec.toNat_mul, BitVec.toNat_setWidth, hnine]
  omega

theorem toNat_nodeCell (hi : i < 8) :
    (nodeCell p (BitVec.ofNat 32 i)).toNat = p.toNat * 9 + 1 + i := by
  have hp := p.isLt
  have hone : (1 : BitVec 30).toNat = 1 := rfl
  rw [nodeCell, BitVec.toNat_add, BitVec.toNat_add, toNat_countCell, BitVec.toNat_setWidth,
    BitVec.toNat_ofNat, hone]
  omega

theorem nodeCell_inj (hi : i < 8) (hj : j < 8) :
    nodeCell p (BitVec.ofNat 32 i) = nodeCell q (BitVec.ofNat 32 j) ↔ p = q ∧ i = j := by
  rw [← BitVec.toNat_inj, toNat_nodeCell hi, toNat_nodeCell hj, ← BitVec.toNat_inj]
  omega

theorem countCell_inj : countCell p = countCell q ↔ p = q := by
  rw [← BitVec.toNat_inj, toNat_countCell, toNat_countCell, ← BitVec.toNat_inj]
  omega

theorem nodeCell_ne_countCell (hi : i < 8) : nodeCell p (BitVec.ofNat 32 i) ≠ countCell q := by
  rw [ne_eq, ← BitVec.toNat_inj, toNat_nodeCell hi, toNat_countCell]
  omega

theorem Vfs.setCell_tables {cell cell' : BitVec 30} {word : Word} :
    (s.setCell cell word).tables cell' = if cell' = cell then word else s.tables cell' :=
  Function.update_apply _ _ _ _

/-! ## What the tree of nodes leaves alone -/

/-- The tables are as they were. -/
def SameTables (s s' : Vfs) : Prop := s'.tables = s.tables

instance : Std.Refl SameTables where
  refl _ := rfl

instance : IsTrans Vfs SameTables where
  trans _ _ _ h₁ h₂ := h₂.trans h₁

theorem derefNode_sameTables (ptr : Word) : Ensures SameTables (derefNode ptr) :=
  .bind (.failIf _ _) fun _ => .bind .get fun _ => .orThrow _ _

theorem setNode_sameTables (ptr : Word) (node : Node) : Ensures SameTables (setNode ptr node) :=
  .modify fun _ => rfl

theorem malloc_sameTables : Ensures SameTables malloc :=
  .bind .get fun _ => .bind (.modify fun _ => rfl) fun _ => .pure _

theorem exchange_sameTables (cmd : FsCommand) : Ensures SameTables (exchange cmd) :=
  .bind .get fun _ => .bind (.modify fun _ => rfl) fun _ => .pure _

theorem nodeAdd_sameTables (parent : Word) (name : List Byte) :
    Ensures SameTables (nodeAdd parent name) :=
  .bind malloc_sameTables fun _ => .bind (.failIf _ _) fun _ => .bind (.failIf _ _) fun _ =>
    .bind (derefNode_sameTables _) fun _ => .bind (setNode_sameTables _ _) fun _ =>
      .bind (setNode_sameTables _ _) fun _ => .pure _

theorem nodeRequest_sameTables (parent : Word) (name : List Byte) (virt : Bool) :
    Ensures SameTables (nodeRequest parent name virt) := by
  have hadd {f : Word → Node → Node} : Ensures SameTables (do
      let ptr ← nodeAdd parent name
      setNode ptr (f ptr (← derefNode ptr))
      return ptr) :=
    .bind (nodeAdd_sameTables _ _) fun _ => .bind (derefNode_sameTables _) fun _ =>
      .bind (setNode_sameTables _ _) fun _ => .pure _
  refine .bind (derefNode_sameTables _) fun parentNode => .ite hadd (.ite (.pure _) ?_)
  exact .bind (exchange_sameTables _) fun _ => .ite (.pure _) hadd

theorem findChild_sameTables (component : List Byte) (children : List Word) :
    Ensures SameTables (findChild component children) := by
  induction children with
  | nil => exact .pure _
  | cons child rest ih => exact .bind (derefNode_sameTables _) fun _ => .ite (.pure _) ih

theorem nodeFindLoop_sameTables (virt : Bool) (path : List (List Byte)) (parent : Word) :
    Ensures SameTables (nodeFindLoop virt path parent) := by
  induction path generalizing parent with
  | nil => exact .pure _
  | cons component rest ih =>
    refine .ite (.pure _) (.bind (derefNode_sameTables _) fun _ =>
      .bind (findChild_sameTables _ _) fun curr => .ite (ih curr) ?_)
    exact .bind (.failIf _ _) fun _ => .bind (nodeRequest_sameTables _ _ _) fun next => ih next

theorem nodeFind_sameTables (parent : Word) (path : List Byte) (virt : Bool) :
    Ensures SameTables (nodeFind parent path virt) :=
  .ite (.pure _) (nodeFindLoop_sameTables _ _ _)

theorem mountAdd_sameTables (path name : List Byte) (owner : Word) :
    Ensures SameTables (mountAdd path name owner) :=
  .bind .get fun _ => .bind (nodeFind_sameTables _ _ _) fun _ => .ite (.pure _) <|
    .bind (derefNode_sameTables _) fun _ => .ite (.pure _) <|
      .bind (nodeAdd_sameTables _ _) fun _ => .bind (derefNode_sameTables _) fun _ =>
        .bind (setNode_sameTables _ _) fun _ => .pure _

theorem handleMount_sameTables (req : VfsRequest) : Ensures SameTables (handleMount req) :=
  .bind (.orThrow _ _) fun _ => .bind (.failIf _ _) fun _ =>
    .bind (mountAdd_sameTables _ _ _) fun _ => .bind (derefNode_sameTables _) fun _ =>
      .bind (setNode_sameTables _ _) fun _ => .pure _

theorem findFile_sameTables (req : VfsRequest) : Ensures SameTables (findFile req) :=
  .bind (.orThrow _ _) fun _ => .bind .get fun _ => .bind (nodeFind_sameTables _ _ _) fun _ =>
    .ite (.pure _) <| .bind (derefNode_sameTables _) fun _ => .ite (.pure _) (.pure _)

theorem handleDirect_sameTables (req : VfsRequest) : Ensures SameTables (handleDirect req) := by
  refine .bind (findFile_sameTables _) fun node => ?_
  cases node with
  | none => exact .pure _
  | some node => exact .bind (derefNode_sameTables _) fun _ => .pure _

theorem fileRead_sameTables (node size off : Word) : Ensures SameTables (fileRead node size off) :=
  .bind (derefNode_sameTables _) fun _ => .bind (exchange_sameTables _) fun _ => .pure _

theorem fileWrite_sameTables (node size off : Word) :
    Ensures SameTables (fileWrite node size off) :=
  .bind (derefNode_sameTables _) fun _ => .bind (exchange_sameTables _) fun _ => .pure _

theorem handleRead_sameTables (req : VfsRequest) : Ensures SameTables (handleRead req) :=
  .bind .get fun _ => .ite (.pure _) <| .bind malloc_sameTables fun _ =>
    .bind (fileRead_sameTables _ _ _) fun _ => .ite (.pure _) (.pure _)

theorem handleWrite_sameTables (req : VfsRequest) : Ensures SameTables (handleWrite req) :=
  .bind .get fun _ => .ite (.pure _) <| .bind (fileWrite_sameTables _ _ _) fun _ => .pure _

/-! ## Reading and writing -/

/-- The node that a descriptor leads to. -/
def VfsRequest.target (req : VfsRequest) (s : Vfs) : Word :=
  s.tables (nodeCell (iportProc req.sender) req.arg0)

theorem handleRead_node (h : handleRead req s = .ok reply s') :
    req.target s = 0 ∧ reply = {} ∨ req.target s ≠ 0 ∧ reply.node = some (req.target s) := by
  rw [handleRead, get_bind_apply, ite_eq_ok] at h
  obtain ⟨hnode, h⟩ | ⟨hnode, h⟩ := h
  · exact .inl ⟨hnode, (pure_eq_ok.mp h).1.symm⟩
  · simp only [bind_eq_ok, ite_eq_ok, pure_eq_ok] at h
    obtain ⟨-, -, -, -, -, -, ⟨-, rfl, -⟩ | ⟨-, rfl, -⟩⟩ := h <;> exact .inr ⟨hnode, rfl⟩

theorem handleWrite_node (h : handleWrite req s = .ok reply s') :
    req.target s = 0 ∧ reply = {} ∨ req.target s ≠ 0 ∧ reply.node = some (req.target s) := by
  rw [handleWrite, get_bind_apply, ite_eq_ok] at h
  obtain ⟨hnode, h⟩ | ⟨hnode, h⟩ := h
  · exact .inl ⟨hnode, (pure_eq_ok.mp h).1.symm⟩
  · simp only [bind_eq_ok, pure_eq_ok] at h
    obtain ⟨-, -, -, rfl, -⟩ := h
    exact .inr ⟨hnode, rfl⟩

theorem handleRequest_transfers (ht : req.Transfers) (h : handleRequest req s = .ok reply s') :
    req.target s = 0 ∧ reply = {} ∨ req.target s ≠ 0 ∧ reply.node = some (req.target s) := by
  obtain hcode | hcode := ht
  · rw [handleRequest, hcode] at h
    exact handleRead_node h
  · rw [handleRequest, hcode] at h
    exact handleWrite_node h

/-! ## Opening -/

/-- A node is put into a free slot of a table. -/
structure Vfs.Opens (s s' : Vfs) (p : BitVec 10) (i : ℕ) (node : Word) : Prop where
  lt : i < 8
  free : s.slot p i = 0
  ne_zero : node ≠ 0
  slots : ∀ q, ∀ j < 8, s'.slot q j = if q = p ∧ j = i then node else s.slot q j
  counts : ∀ q, s'.tables (countCell q) =
    if q = p then s.tables (countCell q) + 1 else s.tables (countCell q)

theorem Vfs.mem_used : i ∈ s.used p ↔ i < 8 ∧ s.slot p i ≠ 0 := by
  rw [Vfs.used, Finset.mem_filter, Finset.mem_range]

theorem Vfs.used_congr (h : ∀ i < 8, s'.slot p i = s.slot p i) : s'.used p = s.used p := by
  ext i
  rw [Vfs.mem_used, Vfs.mem_used]
  exact and_congr_right fun hi => by rw [h i hi]

theorem Vfs.Opens.used_of_ne (h : s.Opens s' p i node) (hq : q ≠ p) : s'.used q = s.used q :=
  Vfs.used_congr fun j hj => by rw [h.slots q j hj, if_neg fun hqj => hq hqj.1]

theorem Vfs.Opens.used (h : s.Opens s' p i node) : s'.used p = insert i (s.used p) := by
  ext j
  rw [Vfs.mem_used, Finset.mem_insert, Vfs.mem_used]
  by_cases hj : j < 8
  · rw [h.slots p j hj]
    by_cases hji : j = i
    · rw [if_pos ⟨rfl, hji⟩]
      exact iff_of_true ⟨hj, h.ne_zero⟩ (.inl hji)
    · simp [hji]
  · have hji : j ≠ i := fun hji => hj (hji ▸ h.lt)
    simp [hj, hji]

theorem Vfs.exists_freeSlot (hcount : (s.tables (countCell p)).toNat = (s.used p).card)
    (hlt : ¬8 ≤ s.tables (countCell p)) :
    ∃ i < 8, s.slot p i = 0 ∧ s.freeSlot p = BitVec.ofNat 32 i := by
  cases hfind : (List.range 8).find? fun i => s.tables (nodeCell p (BitVec.ofNat 32 i)) = 0 with
  | some i =>
    have hzero := List.find?_some hfind
    refine ⟨i, List.mem_range.mp (List.mem_of_find?_eq_some hfind), of_decide_eq_true hzero, ?_⟩
    rw [Vfs.freeSlot, hfind]
  | none =>
    -- All eight slots would be in use.
    have hall : s.used p = Finset.range 8 := by
      refine Finset.filter_true_of_mem fun i hi => ?_
      have := List.find?_eq_none.mp hfind i (List.mem_range.mpr (Finset.mem_range.mp hi))
      exact fun hzero => this (decide_eq_true hzero)
    rw [hall, Finset.card_range] at hcount
    have height : (8 : Word).toNat = 8 := rfl
    rw [BitVec.le_def, hcount, height] at hlt
    exact absurd le_rfl hlt

theorem fileOpen_opens (hcount : (s.tables (countCell p)).toNat = (s.used p).card)
    (hnode : node ≠ 0) (h : fileOpen node p s = .ok fd s') :
    fd = -1 ∧ s' = s ∨ ∃ i, fd = BitVec.ofNat 32 i ∧ s.Opens s' p i node := by
  rw [fileOpen, get_bind_apply, ite_eq_ok] at h
  obtain ⟨-, h⟩ | ⟨hlt, h⟩ := h
  · obtain ⟨rfl, rfl⟩ := pure_eq_ok.mp h
    exact .inl ⟨rfl, rfl⟩
  · rw [modify_bind_apply, modify_bind_apply, pure_eq_ok] at h
    obtain ⟨rfl, rfl⟩ := h
    obtain ⟨i, hi, hfree, hslot⟩ := Vfs.exists_freeSlot hcount hlt
    refine .inr ⟨i, hslot, hi, hfree, hnode, fun q j hj => ?_, fun q => ?_⟩
    · rw [Vfs.slot, Vfs.setCell_tables, if_neg (nodeCell_ne_countCell hj), Vfs.setCell_tables,
        hslot]
      simp only [nodeCell_inj hj hi, Vfs.slot]
    · have hne (q' : BitVec 10) := (nodeCell_ne_countCell hi (p := p) (q := q')).symm
      simp only [Vfs.setCell_tables, countCell_inj, hslot, hne, if_false]
      split
      · next hq => rw [hq]
      · rfl

theorem findFile_ne_zero (h : findFile req s = .ok (some node) s') : node ≠ 0 := by
  simp only [findFile, bind_eq_ok, ite_eq_ok, pure_eq_ok] at h
  obtain ⟨-, -, -, -, -, -, ptr, t, -, ⟨-, h, -⟩ | ⟨hptr, -, -, -, ⟨-, h, -⟩ | ⟨-, h, -⟩⟩⟩ := h
  · cases h
  · cases h
  · exact Option.some.inj h ▸ hptr

theorem handleOpen_opens (hcounts : ∀ p, (s.tables (countCell p)).toNat = (s.used p).card)
    (h : handleOpen req s = .ok reply s') : reply.node = none ∧ s'.tables = s.tables ∨
      ∃ i node, reply.code = BitVec.ofNat 32 i ∧ reply.node = some node ∧
        s.Opens s' (iportProc req.sender) i node := by
  rw [handleOpen, bind_eq_ok] at h
  obtain ⟨file, t, hfind, h⟩ := h
  have htables := (findFile_sameTables _).ok hfind
  cases file with
  | none =>
    obtain ⟨rfl, rfl⟩ := pure_eq_ok.mp h
    exact .inl ⟨rfl, htables⟩
  | some node =>
    simp only [bind_eq_ok, pure_eq_ok] at h
    obtain ⟨fd, t', hopen, rfl, rfl⟩ := h
    have hslot (q : BitVec 10) (j : ℕ) : t.slot q j = s.slot q j := congrFun htables _
    have hcount : (t.tables (countCell (iportProc req.sender))).toNat =
        (t.used (iportProc req.sender)).card := by
      rw [htables, Vfs.used_congr fun i _ => hslot _ i]
      exact hcounts _
    obtain ⟨rfl, rfl⟩ | ⟨i, rfl, hopens⟩ := fileOpen_opens hcount (findFile_ne_zero hfind) hopen
    · have hnone : (if (-1 : Word) = -1 then none else some node) = none := if_pos rfl
      exact .inl ⟨hnone, htables⟩
    · have hfd : BitVec.ofNat 32 i ≠ -1 := by
        have := hopens.lt
        rw [ne_eq, ← BitVec.toNat_inj, BitVec.toNat_ofNat]
        have hmax : (-1 : Word).toNat = 2 ^ 32 - 1 := rfl
        omega
      refine .inr ⟨i, node, rfl, if_neg hfd, hopens.lt, ?_, hopens.ne_zero, fun q j hj => ?_,
        fun q => ?_⟩
      · rw [← hslot]
        exact hopens.free
      · rw [hopens.slots q j hj, hslot]
      · rw [hopens.counts q, htables]

theorem handleRequest_tables (hcounts : ∀ p, (s.tables (countCell p)).toNat = (s.used p).card)
    (h : handleRequest req s = .ok reply s') :
    (req.code = vfsOpen → reply.node = none) ∧ s'.tables = s.tables ∨
      req.code = vfsOpen ∧ ∃ i node, reply.code = BitVec.ofNat 32 i ∧ reply.node = some node ∧
        s.Opens s' (iportProc req.sender) i node := by
  by_cases hopen : req.code = vfsOpen
  · rw [handleRequest, hopen] at h
    obtain ⟨hnone, htables⟩ | hopens := handleOpen_opens hcounts h
    · exact .inl ⟨fun _ => hnone, htables⟩
    · exact .inr ⟨hopen, hopens⟩
  · refine .inl ⟨fun hcode => absurd hcode hopen, ?_⟩
    have hframe : Ensures SameTables (if req.code = vfsMount then handleMount req
        else if req.code = vfsDirect then handleDirect req
        else if req.code = vfsRead then handleRead req
        else if req.code = vfsWrite then handleWrite req else return {}) :=
      .ite (handleMount_sameTables req) <| .ite (handleDirect_sameTables req) <|
        .ite (handleRead_sameTables req) <| .ite (handleWrite_sameTables req) (.pure _)
    rw [handleRequest, if_neg hopen] at h
    exact hframe.ok h

/-! ## Runs -/

variable {srv srv' : Server} {ev : VfsEvent}

theorem opened_append {log : List Served} {r : Served} : Opened (log ++ [r]) p fd node ↔
    Opened log p fd node ∨ r.req.code = vfsOpen ∧ iportProc r.req.sender = p ∧
      r.reply.code = fd ∧ r.reply.node = some node := by
  simp only [Opened, List.mem_append, List.mem_singleton, or_and_right, exists_or,
    exists_eq_left]

theorem Server.serve_eq_some (h : srv.serve ev = some srv') :
    ∃ s reply, s.tables = srv.vfs.tables ∧ handleRequest ev.req s = .ok reply srv'.vfs ∧
      srv'.log = srv.log ++ [⟨ev.req, reply⟩] := by
  rw [Server.serve] at h
  split at h
  · next reply vfs hreq =>
    obtain rfl := Option.some.inj h
    exact ⟨{ srv.vfs with replies := ev.replies, blocks := ev.blocks }, reply, rfl, hreq, rfl⟩
  · cases h

theorem ofNat_inj_of_lt_eight (hi : i < 8) (hj : j < 8) :
    BitVec.ofNat 32 i = BitVec.ofNat 32 j ↔ i = j := by
  rw [← BitVec.toNat_inj, BitVec.toNat_ofNat, BitVec.toNat_ofNat]
  omega

/-- A request keeps the tables to what its log says was opened. -/
theorem Server.TablesRight.step (hright : srv.TablesRight) (h : srv.serve ev = some srv') :
    srv'.TablesRight := by
  obtain ⟨s, reply, hs, hreq, hlog⟩ := Server.serve_eq_some h
  have hslot (q : BitVec 10) (j : ℕ) : s.slot q j = srv.vfs.slot q j := congrFun hs _
  have hused (q : BitVec 10) : s.used q = srv.vfs.used q := Vfs.used_congr fun j _ => hslot q j
  have hcounts (q : BitVec 10) : (s.tables (countCell q)).toNat = (s.used q).card := by
    rw [hs, hused]
    exact hright.counts q
  obtain ⟨hnone, htables⟩ | ⟨hcode, i, node, hfd, hnode, hopens⟩ :=
    handleRequest_tables hcounts hreq
  · have hslot' (q : BitVec 10) (j : ℕ) : srv'.vfs.slot q j = srv.vfs.slot q j :=
      (congrFun htables _).trans (hslot q j)
    refine ⟨fun q j hj node => ?_, fun q => ?_⟩
    · rw [hslot', hright.slots q j hj, hlog, opened_append]
      refine ⟨.inl, fun hopened => hopened.resolve_right fun ⟨hcode, _, _, hnode⟩ => ?_⟩
      rw [hnone hcode] at hnode
      cases hnode
    · rw [htables, hcounts, hused, Vfs.used_congr fun j _ => hslot' q j]
  · refine ⟨fun q j hj node' => ?_, fun q => ?_⟩
    · rw [hopens.slots q j hj, hlog, opened_append, ← hright.slots q j hj, ← hslot]
      simp only [hcode, hfd, hnode, true_and, ofNat_inj_of_lt_eight hopens.lt hj,
        Option.some_inj]
      by_cases hhere : q = iportProc ev.req.sender ∧ j = i
      · -- The slot was free, so nothing was opened under its number before.
        obtain ⟨rfl, rfl⟩ := hhere
        rw [if_pos ⟨rfl, rfl⟩, hopens.free]
        refine ⟨fun h => .inr ⟨rfl, rfl, h.1⟩, fun h => ?_⟩
        obtain ⟨hzero, hne⟩ | ⟨-, -, heq⟩ := h
        · exact absurd hzero.symm hne
        · exact ⟨heq, heq ▸ hopens.ne_zero⟩
      · rw [if_neg hhere]
        refine ⟨.inl, fun h => h.resolve_right fun ⟨hq, hi, _⟩ => hhere ⟨hq.symm, hi.symm⟩⟩
    · rw [hopens.counts q]
      split
      · next hq =>
        subst hq
        have hfree : i ∉ s.used (iportProc ev.req.sender) :=
          fun hi => (Vfs.mem_used.mp hi).2 hopens.free
        have hle : (s.used (iportProc ev.req.sender)).card ≤ 8 :=
          (Finset.card_filter_le _ _).trans_eq (Finset.card_range 8)
        rw [hopens.used, Finset.card_insert_of_notMem hfree, ← hcounts, BitVec.toNat_add]
        rw [← hcounts] at hle
        have hone : (1 : Word).toNat = 1 := rfl
        omega
      · next hq => rw [hcounts, hopens.used_of_ne hq]

theorem Server.Initial.tablesRight (hinit : srv.Initial) : srv.TablesRight := by
  have hslot (q : BitVec 10) {j : ℕ} (hj : j < 8) : srv.vfs.slot q j = 0 := by
    refine hinit.tables _ ?_
    have hq := q.isLt
    rw [toNat_nodeCell hj]
    omega
  refine ⟨fun q j hj node => ?_, fun q => ?_⟩
  · rw [hslot q hj, Opened, hinit.log]
    exact iff_of_false (fun h => h.2 h.1.symm) fun ⟨_, hmem, _⟩ => List.not_mem_nil hmem
  · have hempty : srv.vfs.used q = ∅ :=
      Finset.filter_false_of_mem fun j hj => not_not.mpr (hslot q (Finset.mem_range.mp hj))
    have hq := q.isLt
    rw [hempty, hinit.tables _ (by rw [toNat_countCell]; omega), Finset.card_empty]
    rfl

/-- A descriptor below 8 leads to what has been opened under it. -/
theorem Server.TablesRight.isolated (hright : srv.TablesRight) (hs : s.tables = srv.vfs.tables)
    (hreq : handleRequest req s = .ok reply s') (ht : req.Transfers) (hfd : req.arg0 < 8) :
    Served.Isolated ⟨req, reply⟩ srv.log := by
  have hlt : req.arg0.toNat < 8 := BitVec.lt_def.mp hfd
  have htarget : req.target s = srv.vfs.slot (iportProc req.sender) req.arg0.toNat := by
    rw [VfsRequest.target, hs, Vfs.slot, BitVec.ofNat_toNat, BitVec.setWidth_eq]
  have hopened (node : Word) : req.target s = node ∧ node ≠ 0 ↔
      Opened srv.log (iportProc req.sender) req.arg0 node := by
    rw [htarget, hright.slots _ _ hlt, BitVec.ofNat_toNat, BitVec.setWidth_eq]
  obtain ⟨hzero, rfl⟩ | ⟨hne, hnode⟩ := handleRequest_transfers ht hreq
  · exact ⟨nofun, fun _ => ⟨rfl, rfl⟩⟩
  · refine ⟨fun node h => ?_, fun h => absurd ((hopened _).mp ⟨rfl, hne⟩) (h _)⟩
    rw [hnode, Option.some_inj] at h
    subst h
    exact (hopened _).mp ⟨rfl, hne⟩

/-- The descriptor of a request that reads or writes a file is the number of a slot. -/
def VfsRequest.InTable (req : VfsRequest) : Prop := req.Transfers → req.arg0 < 8

instance : Decidable req.InTable :=
  inferInstanceAs (Decidable (req.code = vfsRead ∨ req.code = vfsWrite → req.arg0 < 8))

/-- While the descriptors are numbers of slots, every request acts only on what its own process has
opened. -/
theorem files_isolated_of_inTable {srv₀ : Server} {events : List VfsEvent}
    (hinit : srv₀.Initial)
    (hrun : Steps Server.serve (fun _ ev _ => ev.req.InTable) srv₀ events srv) :
    srv.Isolated ∧ srv.TablesRight := by
  refine hrun.invariant (I := fun srv => srv.Isolated ∧ srv.TablesRight) ?_
    ⟨fun log r h => ?_, hinit.tablesRight⟩
  · intro srv ev srv' ⟨hisolated, hright⟩ hserve hguard
    refine ⟨fun log r hlog htransfers => ?_, hright.step hserve⟩
    obtain ⟨s, reply, hs, hreq, happend⟩ := Server.serve_eq_some hserve
    rw [happend, List.prefix_concat_iff] at hlog
    obtain hlast | hlog := hlog
    · obtain ⟨rfl, hr⟩ := List.append_inj' hlast rfl
      obtain rfl := List.singleton_inj.mp hr
      exact hright.isolated hs hreq htransfers (hguard htransfers)
    · exact hisolated log r hlog htransfers
  · rw [hinit.log, List.prefix_nil] at h
    simp at h

/-- The server when it starts, its root node at 0x100. -/
def bootServer : Server where
  log := []
  vfs :=
    { tables := fun _ => 0
      nodes := Function.update (fun _ => none) 0x100
        (some { name := [0x52, 0x4F, 0x4F, 0x54], type := .virt })
      rootNode := 0x100
      sent := []
      replies := fun _ => ⟨-1, 0⟩
      blocks := fun _ => 0 }

theorem bootServer_initial : bootServer.Initial := ⟨rfl, fun _ _ => rfl⟩

/-- Process 7 mounts a file system as `/m`. -/
def mountEvent : VfsEvent where
  req := { sender := 7, code := vfsMount, payload := [slash, 0x6D, 0] }
  replies := fun _ => ⟨-1, 0⟩
  blocks := fun _ => 0x200

/-- Process 3 opens the file `/m/f`. -/
def openEvent : VfsEvent where
  req := { sender := 3, code := vfsOpen, payload := [slash, 0x6D, slash, 0x66, 0] }
  replies := fun _ => ⟨5, 0⟩
  blocks := fun _ => 0x300

/-- A process reads 16 bytes. -/
def readEvent (sender fd : Word) : VfsEvent where
  req := { sender, code := vfsRead, arg0 := fd, arg1 := 16 }
  replies := fun _ => ⟨16, 0⟩
  blocks := fun _ => 0x400

/-- Process 3 reads the file it has opened, under the descriptor it got. -/
theorem own_file_read : ∃ srv : Server, srv.Isolated ∧ srv.TablesRight ∧
    srv.log.map (·.reply) = [{ code := 0 }, { code := 0, node := some 0x300 },
      { code := 16, size := 16, node := some 0x300 }] := by
  have hany : (runEvents (checked Server.serve fun _ ev _ => decide ev.req.InTable) bootServer
      [mountEvent, openEvent, readEvent 3 0]).any (fun srv => decide (srv.log.map (·.reply) =
        [{ code := 0 }, { code := 0, node := some 0x300 },
          { code := 16, size := 16, node := some 0x300 }])) = true := by
    decide +kernel
  obtain ⟨srv, hrun, hlog⟩ := exists_steps_of_any (fun _ _ _ => of_decide_eq_true) hany
  obtain ⟨hisolated, hright⟩ := files_isolated_of_inTable bootServer_initial hrun
  exact ⟨srv, hisolated, hright, of_decide_eq_true hlog⟩

/-- Process 2 has opened nothing. Its descriptor 9 is the first of process 3. -/
theorem other_file_read : ∃ srv : Server, bootServer.Initial ∧
    Steps Server.serve (fun _ _ _ => True) bootServer
      [mountEvent, openEvent, readEvent 2 9] srv ∧
    srv.log = [⟨mountEvent.req, { code := 0 }⟩,
      ⟨openEvent.req, { code := 0, node := some 0x300 }⟩,
      ⟨(readEvent 2 9).req, { code := 16, size := 16, node := some 0x300 }⟩] ∧
    ¬srv.Isolated := by
  have hany : (runEvents (checked Server.serve fun _ _ _ => true) bootServer
      [mountEvent, openEvent, readEvent 2 9]).any (fun srv => decide (srv.log =
        [⟨mountEvent.req, { code := 0 }⟩, ⟨openEvent.req, { code := 0, node := some 0x300 }⟩,
          ⟨(readEvent 2 9).req, { code := 16, size := 16, node := some 0x300 }⟩])) = true := by
    decide +kernel
  obtain ⟨srv, hrun, hlog⟩ := exists_steps_of_any (fun _ _ _ _ => trivial) hany
  have hlog := of_decide_eq_true hlog
  refine ⟨srv, bootServer_initial, hrun, hlog, fun hisolated => ?_⟩
  have hlast := hisolated [⟨mountEvent.req, { code := 0 }⟩,
    ⟨openEvent.req, { code := 0, node := some 0x300 }⟩] _ (by rw [hlog]; exact List.prefix_rfl)
    (.inl rfl)
  obtain ⟨r, hr, -, hsender, -⟩ := hlast.acts 0x300 rfl
  -- None of the earlier requests was sent by process 2.
  obtain rfl | rfl : r = _ ∨ r = _ := by simpa using hr
  · exact absurd hsender (by decide)
  · exact absurd hsender (by decide)

end Horizon
