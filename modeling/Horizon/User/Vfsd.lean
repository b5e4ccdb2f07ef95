import Horizon.Lib.StateError
import Horizon.Util

/-!
# Horizon — the virtual file system server (`user/vfsd-all`)

The server keeps a tree of nodes, which it fills on demand by asking the file systems mounted in it,
and a table of open files for each process. Nodes are named by their addresses; the `next` links of
a node's children are kept as a list. The tables are kept as the words from `file_tables` on,
because the file descriptor of a request is used as an index into them as it is.

What comes from outside is part of the state: the replies of the file systems, in the order in which
they are received, and the addresses that `malloc` returns. A path that ends a run of the server, by
an access outside of its buffers or through `NULL`, is a `UserFault`.
-/

namespace Horizon

open StateError

abbrev Byte := BitVec 8

/-- The ways a call ends without a result. -/
inductive UserFault where
  /-- A field is reached through a `NULL` pointer. -/
  | nullDeref
  /-- A pointer does not point to a node. -/
  | wildPointer
  /-- A buffer is accessed past its end. -/
  | overflow
  /-- A loop does not end. -/
  | hang
  /-- A division by zero. -/
  | divideError
  deriving DecidableEq, Repr

inductive NodeType where
  | file
  | dir
  | virt
  | mount
  deriving DecidableEq, Repr

structure Node where
  name : List Byte
  owner : Word := 0
  uid : Word := 0
  type : NodeType := .file
  children : List Word := []

/-- A message to a file system. -/
structure FsCommand where
  dest : Word
  code : Word
  arg0 : Word := 0
  arg1 : Word := 0
  arg2 : Word := 0
  size : Word := 0

/-- What the server uses of the reply. -/
structure FsReply where
  code : Word
  arg0 : Word

def vfsFsFind : Word := 0
def vfsFsRead : Word := 1
def vfsFsWrite : Word := 2

/-- The state of the server, and the answers it is going to get. -/
structure Vfs where
  /-- The words from `file_tables` on. -/
  tables : BitVec 30 → Word
  nodes : Word → Option Node
  /-- The address of `root_node`. -/
  rootNode : Word
  /-- What has been sent to the file systems. -/
  sent : List FsCommand
  replies : ℕ → FsReply
  /-- The addresses `malloc` returns. -/
  blocks : ℕ → Word

abbrev VfsM := EStateM UserFault Vfs

/-! ## Nodes (`node.c`) -/

def slash : Byte := 0x2F

def malloc : VfsM Word := do
  let s ← get
  modify fun s => { s with blocks := fun n => s.blocks (n + 1) }
  return s.blocks 0

/-- Send a message to a file system and wait for the reply. -/
def exchange (cmd : FsCommand) : VfsM FsReply := do
  let s ← get
  modify fun s => { s with sent := s.sent ++ [cmd], replies := fun n => s.replies (n + 1) }
  return s.replies 0

def derefNode (ptr : Word) : VfsM Node := do
  failIf (ptr = 0) .nullDeref
  orThrow .wildPointer ((← get).nodes ptr)

def setNode (ptr : Word) (node : Node) : VfsM Unit :=
  modify fun s => { s with nodes := Function.update s.nodes ptr (some node) }

/-- The name has to fit into 32 bytes, with the byte that ends it. -/
def nodeAdd (parent : Word) (name : List Byte) : VfsM Word := do
  let ptr ← malloc
  failIf (ptr = 0) .nullDeref
  failIf (32 ≤ name.length) .overflow
  let parentNode ← derefNode parent
  setNode ptr { name, owner := parentNode.owner }
  -- The new node comes first.
  setNode parent { parentNode with children := ptr :: parentNode.children }
  return ptr

def nodeRequest (parent : Word) (name : List Byte) (virt : Bool) : VfsM Word := do
  let parentNode ← derefNode parent
  if virt ∧ parentNode.type = .virt then
    let ptr ← nodeAdd parent name
    setNode ptr { ← derefNode ptr with type := .virt }
    return ptr
  if parentNode.owner = 0 then return 0
  let res ← exchange
    { dest := parentNode.owner, code := vfsFsFind, arg0 := parentNode.uid
      size := BitVec.ofNat 32 (name.length + 1) }
  if res.code = -1 then return 0
  let ptr ← nodeAdd parent name
  setNode ptr { ← derefNode ptr with
    uid := res.code, type := if res.arg0 = 0 then .file else .dir }
  return ptr

/-- The child whose name begins with the component, `NULL` if there is none. -/
def findChild (component : List Byte) : List Word → VfsM Word
  | [] => return 0
  | child :: rest => do
      if component.isPrefixOf (← derefNode child).name then return child
      findChild component rest

/-- The loop of `node_find` over the components of a path. -/
def nodeFindLoop (virt : Bool) : List (List Byte) → Word → VfsM Word
  | [], parent => return parent
  | component :: rest, parent => do
      if parent = 0 then return 0
      let curr ← findChild component (← derefNode parent).children
      if curr ≠ 0 then nodeFindLoop virt rest curr
      else
        -- The component is copied to a buffer of 32 bytes.
        failIf (32 ≤ component.length) .overflow
        nodeFindLoop virt rest (← nodeRequest parent component virt)

def nodeFind (parent : Word) (path : List Byte) (virt : Bool) : VfsM Word :=
  if path = [] then return parent else nodeFindLoop virt (path.splitOn slash) parent

/-! ## Files and mounts (`main.c`) -/

def mountAdd (path name : List Byte) (owner : Word) : VfsM Word := do
  let parent ← nodeFind (← get).rootNode (path.drop 1) true
  if parent = 0 then return 0
  if (← derefNode parent).type ≠ .virt then return 0
  let ptr ← nodeAdd parent name
  setNode ptr { ← derefNode ptr with type := .mount, owner := owner }
  return ptr

/-- The word of `file_tables[pid].count`. A table has nine words. -/
def countCell (pid : BitVec 10) : BitVec 30 := pid.setWidth 30 * 9

/-- The word of `file_tables[pid].nodes[fd]`, whatever `fd` is. -/
def nodeCell (pid : BitVec 10) (fd : Word) : BitVec 30 := countCell pid + 1 + fd.setWidth 30

def Vfs.setCell (s : Vfs) (cell : BitVec 30) (word : Word) : Vfs :=
  { s with tables := Function.update s.tables cell word }

/-- The first free slot of a table, -1 if there is none. -/
def Vfs.freeSlot (s : Vfs) (pid : BitVec 10) : Word :=
  match (List.range 8).find? fun i => s.tables (nodeCell pid (BitVec.ofNat 32 i)) = 0 with
  | some i => BitVec.ofNat 32 i
  | none => -1

def fileOpen (node : Word) (target : BitVec 10) : VfsM Word := do
  let s ← get
  if 8 ≤ s.tables (countCell target) then return -1
  let slot := s.freeSlot target
  modify fun s => s.setCell (nodeCell target slot) node
  modify fun s => s.setCell (countCell target) (s.tables (countCell target) + 1)
  return slot

def fileRead (node size off : Word) : VfsM Word := do
  let file ← derefNode node
  let res ← exchange
    { dest := file.owner, code := vfsFsRead, arg0 := file.uid, arg1 := size, arg2 := off }
  return res.code

def fileWrite (node size off : Word) : VfsM Word := do
  let file ← derefNode node
  let res ← exchange
    { dest := file.owner, code := vfsFsWrite, arg0 := file.uid, arg1 := size, arg2 := off, size }
  return res.code

/-! ## Requests -/

structure VfsRequest where
  sender : Word
  code : Word
  arg0 : Word := 0
  arg1 : Word := 0
  arg2 : Word := 0
  payload : List Byte := []
  deriving DecidableEq, Repr

/-- The reply to a request. The node is that which has been opened, read or written; it is not part
of the message. -/
structure VfsReply where
  code : Word := -1
  arg0 : Word := 0
  size : Word := 0
  node : Option Word := none
  deriving DecidableEq, Repr

def vfsMount : Word := 0
def vfsOpen : Word := 1
def vfsDirect : Word := 2
def vfsRead : Word := 3
def vfsWrite : Word := 4

/-- `IPORTPROC`. -/
def iportProc (port : Word) : BitVec 10 := port.setWidth 10

/-- The string in a buffer. -/
def cString (bytes : List Byte) : Option (List Byte) :=
  if 0 ∈ bytes then some (bytes.takeWhile (· ≠ 0)) else none

def handleMount (req : VfsRequest) : VfsM VfsReply := do
  let buffer ← orThrow .overflow (cString req.payload)
  -- `strrchr` finds no slash.
  failIf (slash ∉ buffer) .nullDeref
  let name := (buffer.reverse.takeWhile (· ≠ slash)).reverse
  let dir := buffer.take (buffer.length - name.length - 1)
  let root ← mountAdd (if dir = [] then [slash] else dir) name req.sender
  setNode root { ← derefNode root with uid := 0 }
  return { code := 0 }

/-- The node a request names, if it is a file. -/
def findFile (req : VfsRequest) : VfsM (Option Word) := do
  let path ← orThrow .overflow (cString (req.payload.drop 1))
  let node ← nodeFind (← get).rootNode path false
  if node = 0 then return none
  if (← derefNode node).type ≠ .file then return none
  return some node

def handleOpen (req : VfsRequest) : VfsM VfsReply := do
  let some node ← findFile req | return {}
  let fd ← fileOpen node (iportProc req.sender)
  return { code := fd, node := if fd = -1 then none else some node }

def handleDirect (req : VfsRequest) : VfsM VfsReply := do
  let some node ← findFile req | return {}
  let file ← derefNode node
  return { code := file.owner, arg0 := file.uid }

def handleRead (req : VfsRequest) : VfsM VfsReply := do
  let node := (← get).tables (nodeCell (iportProc req.sender) req.arg0)
  if node = 0 then return {}
  let _ ← malloc
  let bytes ← fileRead node req.arg1 req.arg2
  if bytes.toInt ≤ 0 then return { node := some node }
  return { code := bytes, size := bytes, node := some node }

def handleWrite (req : VfsRequest) : VfsM VfsReply := do
  let node := (← get).tables (nodeCell (iportProc req.sender) req.arg0)
  if node = 0 then return {}
  let bytes ← fileWrite node req.arg1 req.arg2
  return { code := bytes, node := some node }

def handleRequest (req : VfsRequest) : VfsM VfsReply :=
  if req.code = vfsMount then handleMount req
  else if req.code = vfsOpen then handleOpen req
  else if req.code = vfsDirect then handleDirect req
  else if req.code = vfsRead then handleRead req
  else if req.code = vfsWrite then handleWrite req
  else return {}

end Horizon
