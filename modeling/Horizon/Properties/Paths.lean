import Horizon.User.Vfsd

/-!
# Horizon — resolving paths (`node_find`)

`node_find` takes a path apart at its slashes and goes from a node to one of its children for each
component. It compares as many characters of a child's name as the component has, so any child whose
name begins with the component will do, and an empty component is found in the first child.

`selectLoop` is the loop with the choice of names left open, and with a record of what is selected.
It selects the same for names that begin with a component and for names that are equal to it exactly
if the first child of the one kind is that of the other, as far as the path exists (`Vfs.Clear`).
-/

namespace Horizon

open StateError

/-- How a component of a path has been resolved. -/
inductive Selection where
  | child (node : Word)
  | request (node : Word)

def Selection.node : Selection → Word
  | child node => node
  | request node => node

/-- The first child with an acceptable name, `NULL` if there is none. -/
def findBy (accepts : List Byte → Bool) : List Word → VfsM Word
  | [] => return 0
  | child :: rest => do
      if accepts (← derefNode child).name then return child
      findBy accepts rest

/-- The loop of `node_find`, with a record of the nodes that it takes. -/
def selectLoop (accepts : List Byte → List Byte → Bool) (virt : Bool) :
    List (List Byte) → Word → VfsM (List Selection)
  | [], _ => return []
  | component :: rest, parent => do
      if parent = 0 then return []
      let curr ← findBy (accepts component) (← derefNode parent).children
      if curr ≠ 0 then return .child curr :: (← selectLoop accepts virt rest curr)
      else
        failIf (32 ≤ component.length) .overflow
        let node ← nodeRequest parent component virt
        return .request node :: (← selectLoop accepts virt rest node)

/-- The node that is returned. -/
def lastSelected (parent : Word) (selected : List Selection) : Word :=
  selected.foldl (fun _ selection => selection.node) parent

def components (path : List Byte) : List (List Byte) :=
  if path = [] then [] else path.splitOn slash

/-- The name is that of the component. -/
def named (component name : List Byte) : Bool := name = component

/-- `node_find` takes the child with exactly the name of the component, or makes a request if there
is none, for each component of a path. -/
def Vfs.ResolvesExactly (s : Vfs) (parent : Word) (path : List Byte) (virt : Bool) : Prop :=
  ∃ selected s', selectLoop named virt (components path) parent s = .ok selected s' ∧
    selectLoop List.isPrefixOf virt (components path) parent s = .ok selected s' ∧
    nodeFind parent path virt s = .ok (lastSelected parent selected) s'

/-- Children are nodes, and the next `k` blocks that `malloc` returns are not in use. -/
structure Vfs.WellFormed (k : ℕ) (s : Vfs) : Prop where
  children : ∀ p node, s.nodes p = some node → ∀ c ∈ node.children, c ≠ 0 ∧ (s.nodes c).isSome
  fresh : ∀ n < k, s.blocks n ≠ 0 ∧ s.nodes (s.blocks n) = none
  distinct : ∀ m < k, ∀ n < k, s.blocks m = s.blocks n → m = n

namespace Vfs

def nameOf (s : Vfs) (child : Word) : List Byte := ((s.nodes child).map Node.name).getD []

def childrenOf (s : Vfs) (node : Word) : List Word := ((s.nodes node).map Node.children).getD []

/-- The first child with an acceptable name. -/
def childBy (s : Vfs) (accepts : List Byte → Bool) (parent : Word) : Option Word :=
  (s.childrenOf parent).find? fun child => accepts (s.nameOf child)

/-- At each node of a path, as far as it exists, the first child whose name begins with the
component is the first child of that name. -/
def Clear (s : Vfs) : List (List Byte) → Word → Prop
  | [], _ => True
  | component :: rest, parent =>
      s.childBy component.isPrefixOf parent = s.childBy (named component) parent ∧
        ∀ child, s.childBy (named component) parent = some child → Clear s rest child

end Vfs

variable {s s' : Vfs} {parent child ptr : Word} {node : Node} {name component : List Byte}
  {path : List (List Byte)} {virt : Bool} {accepts : List Byte → List Byte → Bool} {k : ℕ}

/-! ## The loop and its record -/

theorem findChild_eq (component : List Byte) (children : List Word) :
    findChild component children = findBy component.isPrefixOf children := by
  induction children with
  | nil => rfl
  | cons child rest ih =>
    rw [findChild, findBy, ih]

theorem nodeFindLoop_of_select {selected : List Selection}
    (hselect : selectLoop List.isPrefixOf virt path parent s = .ok selected s') :
    nodeFindLoop virt path parent s = .ok (lastSelected parent selected) s' := by
  induction path generalizing parent s selected with
  | nil =>
    obtain ⟨rfl, rfl⟩ := pure_eq_ok.mp hselect
    rfl
  | cons component rest ih =>
    rw [selectLoop] at hselect
    rw [nodeFindLoop]
    by_cases hnull : parent = 0
    · rw [if_pos hnull] at hselect ⊢
      obtain ⟨rfl, rfl⟩ := pure_eq_ok.mp hselect
      rw [hnull]
      rfl
    rw [if_neg hnull] at hselect ⊢
    obtain ⟨node, t, hderef, hselect⟩ := bind_eq_ok.mp hselect
    obtain ⟨curr, t', hcurr, hselect⟩ := bind_eq_ok.mp hselect
    rw [bind_apply_of_ok hderef, findChild_eq, bind_apply_of_ok hcurr]
    by_cases hfound : curr ≠ 0
    · rw [if_pos hfound] at hselect ⊢
      obtain ⟨l, t'', hrest, hselect⟩ := bind_eq_ok.mp hselect
      obtain ⟨rfl, rfl⟩ := pure_eq_ok.mp hselect
      exact ih hrest
    · rw [if_neg hfound] at hselect ⊢
      obtain ⟨u, t₁, hfits, hselect⟩ := bind_eq_ok.mp hselect
      obtain ⟨next, t₂, hrequest, hselect⟩ := bind_eq_ok.mp hselect
      obtain ⟨l, t₃, hrest, hselect⟩ := bind_eq_ok.mp hselect
      obtain ⟨rfl, rfl⟩ := pure_eq_ok.mp hselect
      rw [bind_apply_of_ok hfits, bind_apply_of_ok hrequest]
      exact ih hrest

theorem nodeFind_eq (parent : Word) (path : List Byte) (virt : Bool) :
    nodeFind parent path virt = nodeFindLoop virt (components path) parent := by
  rw [nodeFind, components]
  split <;> rfl

/-! ## Well-formed trees -/

theorem derefNode_apply (hnode : s.nodes ptr = some node) (hne : ptr ≠ 0) :
    derefNode ptr s = .ok node s := by
  rw [derefNode, bind_apply_of_ok (failIf_neg hne), get_bind_apply, hnode]
  rfl

theorem findBy_apply {accepts : List Byte → Bool} {l : List Word}
    (hl : ∀ c ∈ l, c ≠ 0 ∧ (s.nodes c).isSome) :
    findBy accepts l s = .ok ((l.find? fun child => accepts (s.nameOf child)).getD 0) s := by
  induction l with
  | nil => rfl
  | cons child rest ih =>
    obtain ⟨hne, hsome⟩ := hl child List.mem_cons_self
    obtain ⟨node, hnode⟩ := Option.isSome_iff_exists.mp hsome
    have hname : s.nameOf child = node.name := by
      rw [Vfs.nameOf, hnode]
      rfl
    rw [findBy, bind_apply_of_ok (derefNode_apply hnode hne), List.find?_cons, hname]
    by_cases haccepts : accepts node.name = true
    · rw [if_pos haccepts, haccepts]
      rfl
    · rw [if_neg haccepts, Bool.eq_false_of_not_eq_true haccepts]
      exact ih fun c hc => hl c (List.mem_cons_of_mem _ hc)

/-- A node without children has been added to a parent. -/
structure Vfs.Added (parent ptr : Word) (s s' : Vfs) : Prop where
  ptr_eq : ptr = s.blocks 0
  blocks : s'.blocks = fun n => s.blocks (n + 1)
  nodes : ∃ node new : Node, s.nodes parent = some node ∧ new.children = [] ∧
    s'.nodes = Function.update (Function.update s.nodes parent
      (some { node with children := ptr :: node.children })) ptr (some new)

theorem Vfs.WellFormed.of_succ (hwf : s.WellFormed (k + 1)) : s.WellFormed k :=
  ⟨hwf.children, fun n hn => hwf.fresh n (Nat.lt_succ_of_lt hn), fun m hm n hn =>
    hwf.distinct m (Nat.lt_succ_of_lt hm) n (Nat.lt_succ_of_lt hn)⟩

/-- A node added under its parent keeps the tree well formed, with one block less to come. -/
theorem Vfs.WellFormed.added (hwf : s.WellFormed (k + 1)) (h : Vfs.Added parent ptr s s') :
    s'.WellFormed k ∧ ∃ new, s'.nodes ptr = some new ∧ new.children = [] := by
  obtain ⟨hptr, hblocks, node, new, hparent, hnew, hnodes⟩ := h
  have hsome (c : Word) (hc : (s.nodes c).isSome ∨ c = ptr) : (s'.nodes c).isSome := by
    rw [hnodes]
    by_cases hcptr : c = ptr
    · rw [hcptr, Function.update_self]
      rfl
    · rw [Function.update_of_ne hcptr]
      by_cases hcparent : c = parent
      · rw [hcparent, Function.update_self]
        rfl
      · rw [Function.update_of_ne hcparent]
        exact hc.resolve_right hcptr
  have hptr_ne : ptr ≠ 0 := hptr ▸ (hwf.fresh 0 (Nat.succ_pos k)).1
  refine ⟨⟨fun p q hp c hc => ?_, fun n hn => ?_, ?_⟩, new, ?_, hnew⟩
  · rw [hnodes] at hp
    by_cases hpptr : p = ptr
    · rw [hpptr, Function.update_self] at hp
      rw [← Option.some.inj hp, hnew] at hc
      cases hc
    rw [Function.update_of_ne hpptr] at hp
    by_cases hpparent : p = parent
    · rw [hpparent, Function.update_self] at hp
      rw [← Option.some.inj hp] at hc
      obtain rfl | hc := List.mem_cons.mp hc
      · exact ⟨hptr_ne, hsome c (Or.inr rfl)⟩
      · obtain ⟨hne, hcsome⟩ := hwf.children parent node hparent c hc
        exact ⟨hne, hsome c (Or.inl hcsome)⟩
    · rw [Function.update_of_ne hpparent] at hp
      obtain ⟨hne, hcsome⟩ := hwf.children p q hp c hc
      exact ⟨hne, hsome c (Or.inl hcsome)⟩
  · rw [hblocks, hnodes]
    obtain ⟨hne, hnone⟩ := hwf.fresh (n + 1) (Nat.succ_lt_succ hn)
    have hptr' : s.blocks (n + 1) ≠ ptr := by
      rw [hptr]
      exact fun h => Nat.succ_ne_zero n
        (hwf.distinct (n + 1) (Nat.succ_lt_succ hn) 0 (Nat.succ_pos k) h)
    have hparent' : s.blocks (n + 1) ≠ parent := by
      rintro hp
      rw [hp, hparent] at hnone
      cases hnone
    exact ⟨hne, by rw [Function.update_of_ne hptr', Function.update_of_ne hparent', hnone]⟩
  · rw [hblocks]
    exact fun m hm n hn h => Nat.succ.inj
      (hwf.distinct (m + 1) (Nat.succ_lt_succ hm) (n + 1) (Nat.succ_lt_succ hn) h)
  · rw [hnodes, Function.update_self]

theorem nodeAdd_apply (hwf : s.WellFormed (k + 1)) (hparent : s.nodes parent = some node)
    (hne : parent ≠ 0) (hname : name.length < 32) : nodeAdd parent name s = .ok (s.blocks 0)
      { s with
        blocks := fun n => s.blocks (n + 1)
        nodes := Function.update (Function.update s.nodes (s.blocks 0)
          (some { name, owner := node.owner })) parent
          (some { node with children := s.blocks 0 :: node.children }) } := by
  have hmalloc : malloc s = .ok (s.blocks 0) { s with blocks := fun n => s.blocks (n + 1) } := rfl
  have hderef : derefNode parent { s with blocks := fun n => s.blocks (n + 1) } =
      .ok node { s with blocks := fun n => s.blocks (n + 1) } := derefNode_apply hparent hne
  have hblock := (hwf.fresh 0 (Nat.succ_pos k)).1
  rw [nodeAdd, bind_apply_of_ok hmalloc, bind_apply_of_ok (failIf_neg hblock),
    bind_apply_of_ok (failIf_neg (Nat.not_le.mpr hname)), bind_apply_of_ok hderef]
  rfl

theorem nodeAdd_added (hwf : s.WellFormed (k + 1)) (hparent : s.nodes parent = some node)
    (hne : parent ≠ 0) (hname : name.length < 32) {f : Node → Node}
    (hf : ∀ n, (f n).children = n.children) : ∃ s', Vfs.Added parent (s.blocks 0) s s' ∧
      (do let ptr ← nodeAdd parent name
          setNode ptr (f (← derefNode ptr))
          return ptr : VfsM Word) s = .ok (s.blocks 0) s' := by
  obtain ⟨hblock, hfree⟩ := hwf.fresh 0 (Nat.succ_pos k)
  have hother : s.blocks 0 ≠ parent := by
    intro heq
    rw [heq, hparent] at hfree
    cases hfree
  have hadd := nodeAdd_apply hwf hparent hne hname
  generalize ht : { s with
    blocks := fun n => s.blocks (n + 1)
    nodes := Function.update (Function.update s.nodes (s.blocks 0)
      (some { name, owner := node.owner })) parent
      (some { node with children := s.blocks 0 :: node.children }) } = t at hadd
  have hnew : t.nodes (s.blocks 0) = some { name, owner := node.owner } := by
    rw [← ht]
    exact (Function.update_of_ne hother _ _).trans (Function.update_self _ _ _)
  let new : Node := f { name, owner := node.owner }
  refine ⟨{ t with nodes := Function.update t.nodes (s.blocks 0) (some new) },
    ⟨rfl, by rw [← ht], node, new, hparent, hf _, ?_⟩, ?_⟩
  · rw [← ht]
    show Function.update (Function.update (Function.update _ _ _) _ _) _ _ = _
    rw [Function.update_comm hother, Function.update_idem]
  · rw [bind_apply_of_ok hadd, bind_apply_of_ok (derefNode_apply hnew hblock)]
    rfl

theorem nodeRequest_returns (hwf : s.WellFormed (k + 1)) (hparent : s.nodes parent = some node)
    (hne : parent ≠ 0) (hname : name.length < 32) (virt : Bool) :
    ∃ ptr s', nodeRequest parent name virt s = .ok ptr s' ∧ s'.WellFormed k ∧
      (ptr ≠ 0 → ∃ new, s'.nodes ptr = some new ∧ new.children = []) := by
  rw [nodeRequest, bind_apply_of_ok (derefNode_apply hparent hne)]
  by_cases hvirt : virt = true ∧ node.type = .virt
  · rw [if_pos hvirt]
    obtain ⟨s', hadded, hadd⟩ := nodeAdd_added hwf hparent hne hname
      (f := fun n => { n with type := .virt }) fun _ => rfl
    obtain ⟨hwf', hnew⟩ := hwf.added hadded
    exact ⟨_, s', hadd, hwf', fun _ => hnew⟩
  rw [if_neg hvirt]
  by_cases howner : node.owner = 0
  · rw [if_pos howner]
    exact ⟨0, s, rfl, hwf.of_succ, fun h => absurd rfl h⟩
  rw [if_neg howner]
  -- The reply changes nothing of the tree.
  have hwf₁ (cmd : FsCommand) : Vfs.WellFormed (k + 1)
      { s with sent := s.sent ++ [cmd], replies := fun n => s.replies (n + 1) } :=
    ⟨hwf.children, hwf.fresh, hwf.distinct⟩
  have hexchange (cmd : FsCommand) : exchange cmd s = .ok (s.replies 0)
      { s with sent := s.sent ++ [cmd], replies := fun n => s.replies (n + 1) } := rfl
  rw [bind_apply_of_ok (hexchange _)]
  by_cases hcode : (s.replies 0).code = -1
  · rw [if_pos hcode]
    exact ⟨0, _, rfl, (hwf₁ _).of_succ, fun h => absurd rfl h⟩
  · rw [if_neg hcode]
    obtain ⟨s', hadded, hadd⟩ := nodeAdd_added (hwf₁ _) hparent hne hname
      (f := fun n => { n with
        uid := (s.replies 0).code, type := if (s.replies 0).arg0 = 0 then .file else .dir })
      fun _ => rfl
    obtain ⟨hwf', hnew⟩ := (hwf₁ _).added hadded
    exact ⟨_, s', hadd, hwf', fun _ => hnew⟩

/-! ## Rounds of the loop -/

theorem Vfs.childrenOf_eq (hparent : s.nodes parent = some node) :
    s.childrenOf parent = node.children := by
  rw [Vfs.childrenOf, hparent]
  rfl

theorem findBy_childBy (hwf : s.WellFormed k) (hparent : s.nodes parent = some node)
    (accepts : List Byte → Bool) :
    findBy accepts node.children s = .ok ((s.childBy accepts parent).getD 0) s := by
  rw [findBy_apply (hwf.children parent node hparent), Vfs.childBy, Vfs.childrenOf_eq hparent]

theorem Vfs.WellFormed.childBy (hwf : s.WellFormed k) (hparent : s.nodes parent = some node)
    {accepts : List Byte → Bool} (hby : s.childBy accepts parent = some child) :
    child ≠ 0 ∧ ∃ node, s.nodes child = some node := by
  have hmem := List.mem_of_find?_eq_some hby
  rw [Vfs.childrenOf_eq hparent] at hmem
  obtain ⟨hchild, hsome⟩ := hwf.children parent node hparent child hmem
  exact ⟨hchild, Option.isSome_iff_exists.mp hsome⟩

section Rounds

variable {rest : List (List Byte)} (hwf : s.WellFormed k) (hparent : s.nodes parent = some node)
  (hne : parent ≠ 0)
include hwf hparent hne

theorem selectLoop_child (hby : s.childBy (accepts component) parent = some child)
    {selected : List Selection} :
    selectLoop accepts virt (component :: rest) parent s = .ok selected s' ↔
      ∃ l, selectLoop accepts virt rest child s = .ok l s' ∧ selected = .child child :: l := by
  have hfind := findBy_childBy hwf hparent (accepts component)
  rw [hby, Option.getD_some] at hfind
  rw [selectLoop, if_neg hne, bind_apply_of_ok (derefNode_apply hparent hne),
    bind_apply_of_ok hfind, if_pos (hwf.childBy hparent hby).1]
  constructor
  · intro h
    obtain ⟨l, t, hl, hret⟩ := bind_eq_ok.mp h
    obtain ⟨rfl, rfl⟩ := pure_eq_ok.mp hret
    exact ⟨l, hl, rfl⟩
  · rintro ⟨l, hl, rfl⟩
    rw [bind_apply_of_ok hl]
    rfl

theorem selectLoop_missing (hby : s.childBy (accepts component) parent = none)
    (hlength : component.length < 32) : selectLoop accepts virt (component :: rest) parent s =
      (do let next ← nodeRequest parent component virt
          return .request next :: (← selectLoop accepts virt rest next) : VfsM _) s := by
  have hfind := findBy_childBy hwf hparent (accepts component)
  rw [hby, Option.getD_none] at hfind
  rw [selectLoop, if_neg hne, bind_apply_of_ok (derefNode_apply hparent hne),
    bind_apply_of_ok hfind, if_neg (not_not.mpr rfl),
    bind_apply_of_ok (failIf_neg (Nat.not_le.mpr hlength))]

end Rounds

variable (virt) in
/-- From a new node on, which has no children, all names are equal. -/
theorem selectLoop_new (hwf : s.WellFormed path.length)
    (hnew : ptr ≠ 0 → ∃ new, s.nodes ptr = some new ∧ new.children = [])
    (hpath : ∀ c ∈ path, c.length < 32) :
    ∃ selected s', ∀ accepts, selectLoop accepts virt path ptr s = .ok selected s' := by
  induction path generalizing s ptr with
  | nil => exact ⟨[], s, fun _ => rfl⟩
  | cons component rest ih =>
    by_cases hnull : ptr = 0
    · refine ⟨[], s, fun accepts => ?_⟩
      rw [selectLoop, if_pos hnull]
      rfl
    obtain ⟨new, hnode, hchildren⟩ := hnew hnull
    obtain ⟨hlength, hrest⟩ := List.forall_mem_cons.mp hpath
    obtain ⟨next, t, hrequest, hwf', hnext⟩ := nodeRequest_returns hwf hnode hnull hlength virt
    obtain ⟨selected, s', hselect⟩ := ih hwf' hnext hrest
    refine ⟨.request next :: selected, s', fun accepts => ?_⟩
    have hby : s.childBy (accepts component) ptr = none := by
      rw [Vfs.childBy, Vfs.childrenOf_eq hnode, hchildren]
      rfl
    rw [selectLoop_missing hwf hnode hnull hby hlength, bind_apply_of_ok hrequest,
      bind_apply_of_ok (hselect accepts)]
    rfl

/-- A component that no child has is requested, and so is the rest of the path. -/
theorem selectLoop_request {rest : List (List Byte)} (hwf : s.WellFormed (rest.length + 1))
    (hparent : s.nodes parent = some node) (hne : parent ≠ 0)
    (hpath : ∀ c ∈ component :: rest, c.length < 32) :
    ∃ next selected s', ∀ accepts : List Byte → List Byte → Bool,
      s.childBy (accepts component) parent = none →
        selectLoop accepts virt (component :: rest) parent s =
          .ok (.request next :: selected) s' := by
  obtain ⟨hlength, hrest⟩ := List.forall_mem_cons.mp hpath
  obtain ⟨next, t, hrequest, hwf', hnext⟩ := nodeRequest_returns hwf hparent hne hlength virt
  obtain ⟨selected, s', hselect⟩ := selectLoop_new virt hwf' hnext hrest
  refine ⟨next, selected, s', fun accepts hby => ?_⟩
  rw [selectLoop_missing hwf hparent hne hby hlength, bind_apply_of_ok hrequest,
    bind_apply_of_ok (hselect accepts)]
  rfl

variable (virt) in
/-- Names that begin with the components of a path select the same as names that are equal to
them exactly if the path is clear. -/
theorem select_iff_clear (hwf : s.WellFormed path.length) (hparent : s.nodes parent = some node)
    (hne : parent ≠ 0) (hpath : ∀ c ∈ path, c.length < 32) :
    (∃ selected s', selectLoop named virt path parent s = .ok selected s' ∧
      selectLoop List.isPrefixOf virt path parent s = .ok selected s') ↔ s.Clear path parent := by
  induction path generalizing parent node with
  | nil => exact iff_of_true ⟨[], s, rfl, rfl⟩ trivial
  | cons component rest ih =>
    have hrest := (List.forall_mem_cons.mp hpath).2
    obtain ⟨next, requested, t, hrequest⟩ := selectLoop_request hwf hparent hne hpath
    rw [Vfs.Clear]
    -- Four cases: whether a child is named by the component, and whether one begins with it.
    cases hnamed : s.childBy (named component) parent with
    | none =>
      cases hbegins : s.childBy component.isPrefixOf parent with
      | none =>
        exact iff_of_true ⟨_, t, hrequest named hnamed, hrequest List.isPrefixOf hbegins⟩
          ⟨rfl, nofun⟩
      | some other =>
        refine iff_of_false ?_ fun h => nomatch h.1
        rintro ⟨selected, s', hright, hleft⟩
        obtain ⟨l, -, rfl⟩ := (selectLoop_child hwf hparent hne hbegins).mp hleft
        exact nomatch (EStateM.Result.ok.inj ((hrequest named hnamed).symm.trans hright)).1
    | some child =>
      obtain ⟨hchild, childNode, hchildNode⟩ := hwf.childBy hparent hnamed
      cases hbegins : s.childBy component.isPrefixOf parent with
      | none =>
        refine iff_of_false ?_ fun h => nomatch h.1
        rintro ⟨selected, s', hright, hleft⟩
        obtain ⟨l, -, rfl⟩ := (selectLoop_child hwf hparent hne hnamed).mp hright
        exact nomatch (EStateM.Result.ok.inj
          ((hrequest List.isPrefixOf hbegins).symm.trans hleft)).1
      | some other =>
        have ih := ih hwf.of_succ hchildNode hchild hrest
        constructor
        · rintro ⟨selected, s', hright, hleft⟩
          obtain ⟨l, hl, rfl⟩ := (selectLoop_child hwf hparent hne hnamed).mp hright
          obtain ⟨l', hl', heq⟩ := (selectLoop_child hwf hparent hne hbegins).mp hleft
          obtain ⟨hsame, rfl⟩ := List.cons.inj heq
          obtain rfl := Selection.child.inj hsame
          refine ⟨rfl, ?_⟩
          rintro _ ⟨⟩
          exact ih.mp ⟨l, s', hl, hl'⟩
        · rintro ⟨hsame, hclear⟩
          obtain rfl := Option.some.inj hsame
          obtain ⟨l, s', hright, hleft⟩ := ih.mpr (hclear _ rfl)
          exact ⟨.child other :: l, s',
            (selectLoop_child hwf hparent hne hnamed).mpr ⟨l, hright, rfl⟩,
            (selectLoop_child hwf hparent hne hbegins).mpr ⟨l, hleft, rfl⟩⟩

/-- `node_find` resolves a path exactly if it is clear. -/
theorem resolvesExactly_iff {path : List Byte} (hwf : s.WellFormed (components path).length)
    (hparent : s.nodes parent = some node) (hne : parent ≠ 0)
    (hpath : ∀ c ∈ components path, c.length < 32)
    (virt : Bool) :
    s.ResolvesExactly parent path virt ↔ s.Clear (components path) parent := by
  rw [← select_iff_clear virt hwf hparent hne hpath]
  refine exists₂_congr fun selected s' => and_congr_right fun _ => and_iff_left_of_imp ?_
  intro hselect
  rw [nodeFind_eq]
  exact nodeFindLoop_of_select hselect

/-- The directories `ab` and `a`, and the file `ab/c`. -/
def smallTree : Vfs where
  tables := fun _ => 0
  nodes := fun ptr =>
    if ptr = 1 then some { name := [], type := .virt, children := [2, 3] }
    else if ptr = 2 then some { name := [0x61, 0x62], type := .dir, children := [4] }
    else if ptr = 3 then some { name := [0x61], type := .dir }
    else if ptr = 4 then some { name := [0x63] }
    else none
  rootNode := 1
  sent := []
  replies := fun _ => ⟨-1, 0⟩
  blocks := fun n => BitVec.ofNat 32 n + 16

theorem smallTree_wellFormed : smallTree.WellFormed 2 := by
  have hroot : ∀ c ∈ ([2, 3] : List Word), c ≠ 0 ∧ (smallTree.nodes c).isSome :=
    List.forall_mem_cons.mpr ⟨by decide, List.forall_mem_singleton.mpr (by decide)⟩
  have hdir : ∀ c ∈ ([4] : List Word), c ≠ 0 ∧ (smallTree.nodes c).isSome :=
    List.forall_mem_singleton.mpr (by decide)
  refine ⟨fun p node hnode => ?_, by decide, by decide⟩
  simp only [smallTree] at hnode
  split_ifs at hnode <;> cases hnode
  · exact hroot
  · exact hdir
  · exact nofun
  · exact nofun

/-- `ab/c` is resolved exactly. -/
theorem file_resolved : smallTree.ResolvesExactly 1 [0x61, 0x62, slash, 0x63] false := by
  have hcomponents : components [0x61, 0x62, slash, 0x63] = [[0x61, 0x62], [0x63]] := by decide
  have hclear : smallTree.Clear [[0x61, 0x62], [0x63]] 1 := by
    refine ⟨by decide, ?_⟩
    intro child hchild
    obtain rfl : 2 = child := Option.some.inj hchild
    exact ⟨by decide, fun _ _ => trivial⟩
  have hroot : smallTree.nodes 1 = some { name := [], type := .virt, children := [2, 3] } := rfl
  refine (resolvesExactly_iff ?_ hroot (by decide) (by decide) false).mpr ?_
  · rw [hcomponents]
    exact smallTree_wellFormed
  · rw [hcomponents]
    exact hclear

/-- `a` is found in `ab`, and `ab/` in `ab/c`. -/
theorem names_misresolved :
    smallTree.nameOf 2 = [0x61, 0x62] ∧ nodeFind 1 [0x61] false smallTree = .ok 2 smallTree ∧
    smallTree.nameOf 4 = [0x63] ∧
      nodeFind 1 [0x61, 0x62, slash] false smallTree = .ok 4 smallTree :=
  ⟨by decide, rfl, by decide, rfl⟩

end Horizon
