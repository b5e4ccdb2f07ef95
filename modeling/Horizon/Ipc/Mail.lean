import Horizon.Lib.StateError
import Horizon.Ipc.Queue

/-!
# Horizon — message passing without memory

What message passing is for, with queues as lists and no links, bitmaps, scheduler ring or
page tables: a `View` of every live thread, and the moves that change them.

* `send` blocks the caller if there is a payload buffer, and delivers;
* a delivered message is appended, or put in front if the receiver waits for it, who is
  then woken;
* `take` removes the head message, and wakes the sender of a payload;
* `lose` is a `take` in which the receiver does not survive;
* `promote` and `sleep` are the two outcomes of waiting;
* `create` and `kill` change the set of threads, and `create` may damage other threads.

`Mail.Valid` is what the kernel has checked when it makes a move. Every step of the kernel is
a sequence of valid moves, so what the moves preserve the kernel preserves.
-/

namespace Horizon

/-- What message passing sees of a live thread. -/
@[ext] structure View where
  port : IpcPort
  state : ThreadState
  waitFor : IpcPort
  payloadAddr : Word
  payloadSize : Word
  queue : List Envelope

namespace View

/-- Would a message from `port` wake the thread? -/
def wokenBy (w : View) (port : IpcPort) : Bool :=
  w.state = .waiting ∧ portCompare w.waitFor port

/-- A message arrives: in front if it wakes the thread, else at the end. -/
def accept (e : Envelope) (w : View) : View :=
  if w.wokenBy e.sender then { w with state := .active, queue := e :: w.queue }
  else { w with queue := w.queue ++ [e] }

def block (addr size : Word) (w : View) : View :=
  { w with state := .sending, payloadAddr := addr, payloadSize := size }

def wake (w : View) : View := { w with state := .active }

def sleep (port : IpcPort) (w : View) : View := { w with state := .waiting, waitFor := port }

def pop (w : View) : View := { w with queue := w.queue.tail }

def find (port : IpcPort) (w : View) : View :=
  { w with queue := Block.promote (Block.matchesPort port) w.queue }

/-- A thread that has just been created. -/
def new (port : IpcPort) : View :=
  { port, state := .active, waitFor := {}, payloadAddr := 0, payloadSize := 0, queue := [] }

end View

/-- The threads that are live, and the messages sent and removed so far. -/
@[ext] structure Mail where
  view : ThreadUid → Option View
  history : List IpcEvent

inductive Move where
  | send (u v : ThreadUid) (info : Msg)
  | ksend (v : ThreadUid) (info : Msg)
  /-- Remove the head `e` and wake the thread `port` names if `e` has a payload. -/
  | take (u : ThreadUid) (e : Envelope) (port : IpcPort) (parent : Pid)
  | lose (u : ThreadUid) (e : Envelope) (port : IpcPort) (parent : Pid)
  | promote (u : ThreadUid) (port : IpcPort)
  | sleep (u : ThreadUid) (port : IpcPort)
  | create (u : ThreadUid) (port : IpcPort) (damage : ThreadUid → View → View)
  | kill (dead : ThreadUid → Bool)

namespace Mail

variable {m m' : Mail} {u v : ThreadUid} {w : View}

def modify (m : Mail) (u : ThreadUid) (f : View → View) : Mail :=
  { m with view := Function.update m.view u ((m.view u).map f) }

/-- Write an event into the history. -/
def log (m : Mail) (event : IpcEvent) : Mail := { m with history := m.history ++ [event] }

/-- The threads for which `dead` holds disappear. -/
def remove (m : Mail) (dead : ThreadUid → Bool) : Mail :=
  { m with view := fun u => if dead u then none else m.view u }

/-- The port of a thread. -/
def port (m : Mail) (u : ThreadUid) : IpcPort := ((m.view u).map View.port).getD {}

/-- The thread a port names, zero if there is none. -/
def resolve (m : Mail) (port : IpcPort) (parent : Pid) : ThreadUid :=
  if port = .any ∨ port = .kernel then { pid := 1, tid := port.tid }
  else if port.unversioned then
    if port.pid = 0 then { pid := parent, tid := port.tid } else { pid := port.pid, tid := 0 }
  else
    match m.view { pid := port.pid, tid := port.tid } with
    | none => 0
    | some w =>
        if w.port.pvn ≠ port.pvn ∨ w.port.tvn ≠ port.tvn then 0
        else { pid := port.pid, tid := port.tid }

/-- Block the sender of a message that has a payload buffer. -/
def blockFor (m : Mail) (u : ThreadUid) (info : Msg) : Mail :=
  if info.buf ≠ 0 then m.modify u (View.block info.buf info.size) else m

/-- Wake the sender of the payload message `e`, if `port` names a thread. -/
def wakeFor (m : Mail) (e : Envelope) (port : IpcPort) (parent : Pid) : Mail :=
  if e.payload ∧ m.resolve port parent ≠ 0 then m.modify (m.resolve port parent) View.wake else m

/-- What `wakeFor` relies on: the thread to wake exists and is not running. -/
def CanWake (m : Mail) (e : Envelope) (port : IpcPort) (parent : Pid) : Prop :=
  e.payload = true → m.resolve port parent ≠ 0 →
    ∃ w, m.view (m.resolve port parent) = some w ∧ w.state ≠ .active

/-- What a move does to the mailboxes, whether or not it is valid. -/
def apply (m : Mail) : Move → Mail
  | .send u v info =>
      ((m.blockFor u info).modify v
        (View.accept (Block.envelopeOf (m.port u) info))).log (.sent u v info)
  | .ksend v info =>
      (m.modify v (View.accept (Block.envelopeOf .kernel info))).log (.ksent v info)
  | .take u e port parent => ((m.modify u View.pop).log (.removed u e)).wakeFor e port parent
  | .lose u e port parent => (m.wakeFor e port parent).remove fun v => v = u
  | .promote u port => m.modify u (View.find port)
  | .sleep u port => m.modify u (View.sleep port)
  | .create u port damage =>
      { m with view := fun v => if v = u then some (.new port) else (m.view v).map (damage v) }
  | .kill dead => m.remove dead

/-- What has been checked when a move is made. -/
def Valid (m : Mail) : Move → Prop
  | .send u v info =>
      (∃ w, m.view u = some w ∧ (info.buf ≠ 0 → w.state = .active ∧ info.size ≠ 0)) ∧
      (m.view v).isSome
  | .ksend v info => (m.view v).isSome ∧ info.buf = 0 ∧ info.size = 0
  | .take u e port parent =>
      (∃ w q, m.view u = some w ∧ w.queue = e :: q) ∧ m.CanWake e port parent
  | .lose u e port parent =>
      (∃ w q, m.view u = some w ∧ w.queue = e :: q) ∧ m.CanWake e port parent
  | .promote u _ => (m.view u).isSome
  | .sleep u port => ∃ w, m.view u = some w ∧ w.state = .active ∧
      ∀ e ∈ w.queue, Block.matchesPort port e = false
  | .create u _ _ => m.view u = none
  | .kill dead => ∃ u, dead u = true ∧ (m.view u).isSome

def step (m : Mail) (move : Move) : Option Mail := some (m.apply move)

/-- Runs of valid moves, each of them `allowed`. -/
abbrev Runs (allowed : Move → Prop) : Mail → List Move → Mail → Prop :=
  StateError.Steps step fun m move _ => m.Valid move ∧ allowed move

/-! ## Views after a move -/

@[simp] theorem view_modify (f : View → View) :
    (m.modify u f).view v = if v = u then (m.view v).map f else m.view v := by
  by_cases h : v = u
  · subst h
    simp [modify]
  · simp [modify, h]

@[simp] theorem view_remove (dead : ThreadUid → Bool) :
    (m.remove dead).view v = if dead v then none else m.view v := rfl

theorem modify_log (f : View → View) (event : IpcEvent) :
    (m.log event).modify u f = (m.modify u f).log event := rfl

theorem modify_congr {f g : View → View} (h : ∀ w, m.view u = some w → f w = g w) :
    m.modify u f = m.modify u g := by
  rw [modify, modify, Option.map_congr h]

theorem modify_modify (f g : View → View) :
    (m.modify u f).modify u g = m.modify u fun w => g (f w) := by
  refine Mail.ext (funext fun v => ?_) rfl
  simp only [view_modify]
  split
  · rw [Option.map_map]
    rfl
  · rfl

theorem modify_modify_comm {f g : View → View} (h : ∀ w, f (g w) = g (f w)) :
    (m.modify u f).modify v g = (m.modify v g).modify u f := by
  have hcomp : g ∘ f = f ∘ g := funext fun w => (h w).symm
  refine Mail.ext (funext fun x => ?_) rfl
  rw [view_modify, view_modify, view_modify, view_modify]
  split_ifs
  · rw [Option.map_map, Option.map_map, hcomp]
  all_goals rfl

theorem port_of_view (h : m.view u = some w) : m.port u = w.port := by
  rw [port, h]
  rfl

theorem resolve_congr (h : ∀ u, (m'.view u).map View.port = (m.view u).map View.port)
    (port : IpcPort) (parent : Pid) : m'.resolve port parent = m.resolve port parent := by
  have hu := h { pid := port.pid, tid := port.tid }
  unfold resolve
  cases hm : m.view { pid := port.pid, tid := port.tid } with
  | none =>
    rw [hm, Option.map_none, Option.map_eq_none_iff] at hu
    rw [hu]
  | some w =>
    rw [hm, Option.map_some, Option.map_eq_some_iff] at hu
    obtain ⟨w', hw', hport⟩ := hu
    simp only [hw', hport]

theorem resolve_modify {f : View → View} (h : ∀ w, (f w).port = w.port) (port : IpcPort)
    (parent : Pid) : (m.modify u f).resolve port parent = m.resolve port parent := by
  refine resolve_congr (fun v => ?_) port parent
  rw [view_modify]
  split
  · rw [Option.map_map]
    exact Option.map_congr fun w _ => h w
  · rfl

theorem resolve_log (event : IpcEvent) (port : IpcPort) (parent : Pid) :
    (m.log event).resolve port parent = m.resolve port parent := rfl

theorem apply_take_of_not {e : Envelope} {port : IpcPort} {parent : Pid}
    (h : ¬(e.payload = true ∧ m.resolve port parent ≠ 0)) :
    m.apply (.take u e port parent) = (m.modify u View.pop).log (.removed u e) := by
  rw [apply, wakeFor, resolve_log, resolve_modify (f := View.pop) fun _ => rfl, if_neg h]

/-- It makes no difference whether the sender is woken before or after the removal. -/
theorem apply_take_of_wake {e : Envelope} {port : IpcPort} {parent : Pid}
    (h : e.payload = true ∧ m.resolve port parent ≠ 0) : m.apply (.take u e port parent) =
      ((m.modify (m.resolve port parent) View.wake).modify u View.pop).log (.removed u e) := by
  rw [apply, wakeFor, resolve_log, resolve_modify (f := View.pop) fun _ => rfl, if_pos h,
    modify_log, modify_modify_comm (f := View.pop) (g := View.wake) fun _ => rfl]

end Mail

end Horizon
