import Horizon.Ipc.Mail

/-!
# Horizon — order and wake-ups in the abstract mail

Two facts about any sequence of moves that neither creates nor removes a thread:

* `NoLost`: nobody waits for a message that is already queued. A thread falls asleep only when
  the search found nothing, and a message that matches wakes it on arrival.
* `Follows`: for every receiver and every sender port, what was removed followed by what is
  still queued is what was queued at the start followed by what was sent since. A message that
  wakes its receiver jumps the queue, but by `NoLost` it jumps no message of its own sender.
-/

namespace Horizon

open StateError

/-- The queued messages from one port. -/
def fromPort (port : IpcPort) (q : List Envelope) : List Envelope :=
  q.filter fun e => e.sender = port

theorem fromPort_append (port : IpcPort) (q₁ q₂ : List Envelope) :
    fromPort port (q₁ ++ q₂) = fromPort port q₁ ++ fromPort port q₂ := List.filter_append ..

theorem fromPort_cons (port : IpcPort) (e : Envelope) (q : List Envelope) :
    fromPort port (e :: q) = fromPort port [e] ++ fromPort port q := fromPort_append port [e] q

/-- The message an entry of the history hands to `v` under the port `port`. -/
def IpcEvent.sentTo (ports : ThreadUid → IpcPort) (v : ThreadUid) (port : IpcPort) :
    IpcEvent → Option Envelope
  | .sent u target info =>
      if target = v ∧ ports u = port then some (Block.envelopeOf port info) else none
  | .ksent target info =>
      if target = v ∧ port = .kernel then some (Block.envelopeOf .kernel info) else none
  | .removed _ _ => none

/-- The message from `port` that an entry of the history takes out of the queue of `v`. -/
def IpcEvent.removedFrom (v : ThreadUid) (port : IpcPort) : IpcEvent → Option Envelope
  | .removed u e => if u = v ∧ e.sender = port then some e else none
  | _ => none

/-- Does the move leave the set of threads alone? -/
def Move.keeps : Move → Bool
  | .lose .. => false
  | .create .. => false
  | .kill .. => false
  | _ => true

/-- What a move adds to the history. -/
def Move.events : Move → List IpcEvent
  | .send u v info => [.sent u v info]
  | .ksend v info => [.ksent v info]
  | .take u e _ _ => [.removed u e]
  | _ => []

theorem Block.promote_perm (p : Envelope → Bool) (q : List Envelope) :
    (Block.promote p q).Perm q := by
  cases hfind : q.find? p with
  | none => rw [promote_of_none fun e he => Bool.eq_false_iff.mpr (List.find?_eq_none.mp hfind e he)]
  | some e =>
    obtain ⟨hp, q₁, q₂, rfl, hfirst⟩ := List.find?_eq_some_iff_append.mp hfind
    rw [promote_of_split hp (by simpa using hfirst)]
    exact List.perm_middle.symm

namespace View

variable {v : ThreadUid} {w w' w'' : View}

/-- The thread does not wait for a message that it already has. -/
def NothingMissed (w : View) : Prop :=
  w.state = .waiting → ∀ e ∈ w.queue, portCompare w.waitFor e.sender = false

/-- The messages `v` has removed and has left are those it had and was sent. -/
structure Passes (ports : ThreadUid → IpcPort) (v : ThreadUid) (es : List IpcEvent)
    (w w' : View) : Prop where
  port : w'.port = w.port
  order : ∀ port, es.filterMap (IpcEvent.removedFrom v port) ++ fromPort port w'.queue =
    fromPort port w.queue ++ es.filterMap (IpcEvent.sentTo ports v port)

theorem Passes.of_queue {ports : ThreadUid → IpcPort} (hport : w'.port = w.port)
    (hqueue : (fromPort · w'.queue) = (fromPort · w.queue)) : Passes ports v [] w w' := by
  refine ⟨hport, fun port => ?_⟩
  rw [List.filterMap_nil, List.filterMap_nil, List.nil_append, List.append_nil]
  exact congrFun hqueue port

theorem Passes.trans {ports : ThreadUid → IpcPort} {es₁ es₂ : List IpcEvent}
    (h₁ : Passes ports v es₁ w w') (h₂ : Passes ports v es₂ w' w'') :
    Passes ports v (es₁ ++ es₂) w w'' where
  port := h₂.port.trans h₁.port
  order port := by
    rw [List.filterMap_append, List.filterMap_append, List.append_assoc, h₂.order,
      ← List.append_assoc, h₁.order, List.append_assoc]

theorem accept_port (e : Envelope) (w : View) : (w.accept e).port = w.port := by
  unfold accept
  split <;> rfl

theorem NothingMissed.pop (h : w.NothingMissed) : w.pop.NothingMissed :=
  fun hstate e he => h hstate e (List.mem_of_mem_tail he)

theorem NothingMissed.find (h : w.NothingMissed) (port : IpcPort) : (w.find port).NothingMissed :=
  fun hstate e he => h hstate e ((Block.promote_perm _ _).mem_iff.mp he)

theorem NothingMissed.accept (h : w.NothingMissed) (e : Envelope) : (w.accept e).NothingMissed := by
  intro hstate e' he'
  unfold View.accept at hstate he' ⊢
  split at hstate
  · cases hstate
  · next hwoken =>
    rw [if_neg hwoken] at he' ⊢
    rw [List.mem_append, List.mem_singleton] at he'
    rcases he' with he' | rfl
    · exact h hstate e' he'
    · simp only [View.wokenBy, decide_eq_true_eq, not_and, Bool.not_eq_true] at hwoken
      exact hwoken hstate

/-- Wherever a message is queued, it comes after the queued messages of its sender. -/
theorem NothingMissed.accept_fromPort (h : w.NothingMissed) (e : Envelope) (port : IpcPort) :
    fromPort port (w.accept e).queue = fromPort port w.queue ++ fromPort port [e] := by
  unfold View.accept
  split
  · next hwoken =>
    simp only [View.wokenBy, decide_eq_true_eq] at hwoken
    show fromPort port (e :: w.queue) = _
    rw [fromPort_cons]
    by_cases hport : e.sender = port
    · -- No message of this sender is queued: the receiver would not be waiting.
      have hnone : fromPort port w.queue = [] := by
        refine List.filter_eq_nil_iff.mpr fun e' he' hsender => ?_
        have hfalse := h hwoken.1 e' he'
        rw [of_decide_eq_true hsender, ← hport, hwoken.2] at hfalse
        cases hfalse
      rw [hnone, List.append_nil, List.nil_append]
    · have hnone : fromPort port [e] = [] := by simp [fromPort, hport]
      rw [hnone, List.append_nil, List.nil_append]
  · exact fromPort_append port w.queue [e]

/-- A search moves a message past messages of other senders only. -/
theorem find_fromPort (w : View) (port search : IpcPort) :
    fromPort port (w.find search).queue = fromPort port w.queue := by
  show fromPort port (Block.promote (Block.matchesPort search) w.queue) = _
  cases hfind : w.queue.find? (Block.matchesPort search) with
  | none =>
    rw [Block.promote_of_none fun e he => Bool.eq_false_iff.mpr (List.find?_eq_none.mp hfind e he)]
  | some e =>
    obtain ⟨hmatch, q₁, q₂, hsplit, hfirst⟩ := List.find?_eq_some_iff_append.mp hfind
    have hnot : ∀ e' ∈ q₁, Block.matchesPort search e' = false := by simpa using hfirst
    rw [hsplit, Block.promote_of_split hmatch hnot, fromPort_cons, fromPort_append,
      fromPort_append, fromPort_cons port e q₂]
    by_cases hport : e.sender = port
    · have hnone : fromPort port q₁ = [] := by
        refine List.filter_eq_nil_iff.mpr fun e' he' hsender => ?_
        have hfalse := hnot e' he'
        unfold Block.matchesPort at hfalse hmatch
        rw [of_decide_eq_true hsender, ← hport, hmatch] at hfalse
        cases hfalse
      rw [hnone, List.nil_append, List.nil_append]
    · have hnone : fromPort port [e] = [] := by simp [fromPort, hport]
      rw [hnone, List.nil_append, List.nil_append]

end View

namespace Mail

variable {m m' m'' : Mail} {u v : ThreadUid} {w : View} {move : Move}

/-- Nobody waits for a message that is already queued. -/
def NoLost (m : Mail) : Prop := ∀ u w, m.view u = some w → w.NothingMissed

theorem NoLost.modify {f : View → View} (hm : m.NoLost)
    (h : ∀ w, m.view u = some w → w.NothingMissed → (f w).NothingMissed) :
    (m.modify u f).NoLost := by
  intro v w' hw'
  rw [view_modify] at hw'
  split at hw'
  · next hv =>
    subst hv
    obtain ⟨w, hw, rfl⟩ := Option.map_eq_some_iff.mp hw'
    exact h w hw (hm v w hw)
  · exact hm v w' hw'

theorem NoLost.blockFor (hm : m.NoLost) (u : ThreadUid) (info : Msg) : (m.blockFor u info).NoLost := by
  unfold Mail.blockFor
  split
  · exact hm.modify fun _ _ _ => nofun
  · exact hm

theorem NoLost.wakeFor (hm : m.NoLost) (e : Envelope) (port : IpcPort) (parent : Pid) :
    (m.wakeFor e port parent).NoLost := by
  unfold Mail.wakeFor
  split
  · exact hm.modify fun _ _ _ => nofun
  · exact hm

theorem NoLost.apply (hm : m.NoLost) (hvalid : m.Valid move) (hkeeps : move.keeps = true) :
    (m.apply move).NoLost := by
  cases move with
  | send u v info => exact (hm.blockFor u info).modify fun _ _ h => h.accept _
  | ksend v info => exact hm.modify fun _ _ h => h.accept _
  | take u e port parent =>
    have hpop : (m.modify u View.pop).NoLost := hm.modify fun _ _ h => h.pop
    exact NoLost.wakeFor (show ((m.modify u View.pop).log (.removed u e)).NoLost from hpop) e port
      parent
  | promote u port => exact hm.modify fun _ _ h => h.find port
  | sleep u port =>
    obtain ⟨w₀, hw₀, -, hnone⟩ := hvalid
    refine hm.modify fun w hw _ _ e he => ?_
    rw [hw₀] at hw
    cases hw
    exact hnone e he
  | lose | create | kill => cases hkeeps

/-! ## Order -/

/-- The threads are the same, with the same ports, and every queue has moved on by `es`. -/
def Follows (m : Mail) (es : List IpcEvent) (m' : Mail) : Prop :=
  ∀ v, Option.Rel (View.Passes m.port v es) (m.view v) (m'.view v)

theorem Follows.port_eq {es : List IpcEvent} (h : Follows m es m') : m'.port = m.port := by
  funext v
  unfold Mail.port
  have hv := h v
  revert hv
  generalize m.view v = o
  generalize m'.view v = o'
  rintro (hpass | _)
  · exact hpass.port
  · rfl

theorem Follows.refl (m : Mail) : Follows m [] m := by
  intro v
  cases m.view v with
  | none => exact .none
  | some w => exact .some (.of_queue rfl rfl)

theorem Follows.trans {es₁ es₂ : List IpcEvent} (h₁ : Follows m es₁ m')
    (h₂ : Follows m' es₂ m'') : Follows m (es₁ ++ es₂) m'' := by
  intro v
  have h₁v := h₁ v
  have h₂v := h₂ v
  rw [h₁.port_eq] at h₂v
  revert h₁v h₂v
  generalize m.view v = o
  generalize m'.view v = o'
  generalize m''.view v = o''
  rintro (hpass | _) (hpass' | _)
  · exact .some (hpass.trans hpass')
  · exact .none

theorem follows_modify {f : View → View} {es : List IpcEvent}
    (hf : ∀ w, m.view u = some w → View.Passes m.port u es w (f w))
    (hother : ∀ v w, v ≠ u → View.Passes m.port v es w w) : Follows m es (m.modify u f) := by
  intro v
  rw [view_modify]
  cases hw : m.view v with
  | none =>
    rw [Option.map_none, ite_self]
    exact .none
  | some w =>
    split
    · next hv =>
      subst hv
      exact .some (hf w hw)
    · next hv => exact .some (hother v w hv)

theorem follows_of_queue {f : View → View} (hport : ∀ w, (f w).port = w.port)
    (hqueue : ∀ w port, fromPort port (f w).queue = fromPort port w.queue) :
    Follows m [] (m.modify u f) :=
  follows_modify (fun w _ => .of_queue (hport w) (funext (hqueue w)))
    fun _ _ _ => .of_queue rfl rfl

theorem follows_blockFor (info : Msg) : Follows m [] (m.blockFor u info) := by
  unfold blockFor
  split
  · exact follows_of_queue (fun _ => rfl) fun _ _ => rfl
  · exact .refl m

theorem follows_wakeFor (e : Envelope) (port : IpcPort) (parent : Pid) :
    Follows m [] (m.wakeFor e port parent) := by
  unfold wakeFor
  split
  · exact follows_of_queue (fun _ => rfl) fun _ _ => rfl
  · exact .refl m

/-- A delivery moves on the queue of the receiver, by the message it appends. -/
theorem follows_accept {sender : IpcPort} {info : Msg} {event : IpcEvent} (hm : m.NoLost)
    (hsent : ∀ x port, event.sentTo m.port x port =
      if x = v ∧ sender = port then some (Block.envelopeOf port info) else none)
    (hremoved : ∀ x port, event.removedFrom x port = none) :
    Follows m [event] (m.modify v (View.accept (Block.envelopeOf sender info))) := by
  refine follows_modify (fun w hw => ⟨View.accept_port _ w, fun port => ?_⟩)
    fun x w hx => ⟨rfl, fun port => ?_⟩
  · rw [List.filterMap_cons_none (hremoved v port), List.filterMap_nil, List.nil_append,
      (hm v w hw).accept_fromPort, List.filterMap_cons, hsent]
    by_cases hport : sender = port
    · subst hport
      simp [fromPort, Block.envelopeOf]
    · simp [fromPort, Block.envelopeOf, hport]
  · rw [List.filterMap_cons_none (hremoved x port), List.filterMap_cons_none, List.filterMap_nil,
      List.filterMap_nil, List.nil_append, List.append_nil]
    rw [hsent, if_neg fun h => hx h.1]

theorem follows_pop {e : Envelope} {q : List Envelope} (hw : m.view u = some w)
    (hqueue : w.queue = e :: q) : Follows m [.removed u e] (m.modify u View.pop) := by
  refine follows_modify (fun w' hw' => ⟨rfl, fun port => ?_⟩) fun x w' hx => ⟨rfl, fun port => ?_⟩
  · rw [hw] at hw'
    cases hw'
    show _ ++ fromPort port w.queue.tail = _
    rw [hqueue, List.tail_cons, fromPort_cons port e q]
    by_cases hport : e.sender = port <;>
      simp [IpcEvent.removedFrom, IpcEvent.sentTo, fromPort, hport]
  · simp [IpcEvent.removedFrom, IpcEvent.sentTo, Ne.symm hx]

/-- Moves that keep the threads keep the order of the messages of each sender. -/
theorem follows_apply (hm : m.NoLost) (hvalid : m.Valid move) (hkeeps : move.keeps = true) :
    Follows m move.events (m.apply move) := by
  cases move with
  | send u v info =>
    have hblock : Follows m [] (m.blockFor u info) := follows_blockFor info
    refine hblock.trans (follows_accept (hm.blockFor u info) (fun x port => ?_) fun _ _ => rfl)
    rw [hblock.port_eq]
    simp only [IpcEvent.sentTo, eq_comm]
  | ksend v info =>
    refine follows_accept hm (fun x port => ?_) fun _ _ => rfl
    simp only [IpcEvent.sentTo, eq_comm]
    split
    · next h => rw [h.2]
    · rfl
  | take u e port parent =>
    obtain ⟨⟨w, q, hw, hqueue⟩, -⟩ := hvalid
    have hpop : Follows m [.removed u e] ((m.modify u View.pop).log (.removed u e)) :=
      follows_pop hw hqueue
    exact hpop.trans (follows_wakeFor e port parent)
  | promote u port =>
    exact follows_of_queue (fun _ => rfl) fun w p => View.find_fromPort w p port
  | sleep u port => exact follows_of_queue (fun _ => rfl) fun _ _ => rfl
  | lose | create | kill => cases hkeeps

theorem history_blockFor (info : Msg) : (m.blockFor u info).history = m.history := by
  unfold blockFor
  split <;> rfl

theorem history_wakeFor (e : Envelope) (port : IpcPort) (parent : Pid) :
    (m.wakeFor e port parent).history = m.history := by
  unfold wakeFor
  split <;> rfl

theorem history_apply (move : Move) : (m.apply move).history = m.history ++ move.events := by
  cases move with
  | send u v info => exact congrArg (· ++ [IpcEvent.sent u v info]) (history_blockFor info)
  | take u e port parent => exact history_wakeFor e port parent
  | lose u e port parent => exact (history_wakeFor e port parent).trans (List.append_nil _).symm
  | ksend | promote | sleep | create | kill => first | rfl | exact (List.append_nil _).symm

/-! ## Moves and the set of threads -/

theorem isSome_modify (f : View → View) : ((m.modify u f).view v).isSome = (m.view v).isSome := by
  rw [view_modify]
  split
  · exact Option.isSome_map
  · rfl

theorem isSome_blockFor (info : Msg) : ((m.blockFor u info).view v).isSome = (m.view v).isSome := by
  unfold blockFor
  split
  · exact isSome_modify _
  · rfl

theorem isSome_wakeFor (e : Envelope) (port : IpcPort) (parent : Pid) :
    ((m.wakeFor e port parent).view v).isSome = (m.view v).isSome := by
  unfold wakeFor
  split
  · exact isSome_modify _
  · rfl

theorem isSome_apply_of_keeps (h : move.keeps = true) :
    ((m.apply move).view v).isSome = (m.view v).isSome := by
  cases move with
  | send u x info => exact (isSome_modify _).trans (isSome_blockFor info)
  | take u e port parent => exact (isSome_wakeFor e port parent).trans (isSome_modify _)
  | ksend | promote | sleep => exact isSome_modify _
  | lose | create | kill => cases h

/-- Every move but `create` only removes threads. -/
theorem isSome_of_apply (hcreate : ∀ u port damage, move ≠ .create u port damage)
    (h : ((m.apply move).view v).isSome = true) : (m.view v).isSome = true := by
  cases move with
  | lose u e port parent =>
    rw [apply, view_remove] at h
    split at h
    · cases h
    · rwa [isSome_wakeFor] at h
  | kill dead =>
    rw [apply, view_remove] at h
    split at h
    · cases h
    · exact h
  | create u port damage => exact absurd rfl (hcreate u port damage)
  | send | ksend | take | promote | sleep => rwa [isSome_apply_of_keeps rfl] at h

theorem exists_gone (hvalid : m.Valid move) (hcreate : ∀ u port damage, move ≠ .create u port damage)
    (hkeeps : move.keeps = false) :
    ∃ v, (m.view v).isSome = true ∧ (m.apply move).view v = none := by
  cases move with
  | lose u e port parent =>
    obtain ⟨⟨w, q, hw, -⟩, -⟩ := hvalid
    exact ⟨u, by rw [hw]; rfl, by rw [apply, view_remove, if_pos (decide_eq_true rfl)]⟩
  | kill dead =>
    obtain ⟨u, hdead, hu⟩ := hvalid
    exact ⟨u, hu, by rw [apply, view_remove, if_pos hdead]⟩
  | create u port damage => exact absurd rfl (hcreate u port damage)
  | send | ksend | take | promote | sleep => cases hkeeps

theorem isSome_of_sent {info : Msg} (hvalid : m.Valid move)
    (h : IpcEvent.sent u v info ∈ move.events) : (m.view u).isSome = true := by
  cases move with
  | send u' v' info' =>
    obtain ⟨⟨w, hw, -⟩, -⟩ := hvalid
    cases List.mem_singleton.mp h
    rw [hw]
    rfl
  | ksend | take | lose | promote | sleep | create | kill =>
    simp [Move.events] at h

/-! ## Runs -/

/-- A run that keeps the threads appends its events to the history, loses no wake-up, and
keeps the order of the messages of each sender. -/
theorem Runs.follows {allowed : Move → Prop} {moves : List Move}
    (h : Runs allowed m moves m') (hkeeps : ∀ move ∈ moves, move.keeps = true) (hm : m.NoLost) :
    m'.NoLost ∧ ∃ es, m'.history = m.history ++ es ∧ Follows m es m' ∧
      ∀ ev ∈ es, ∃ move, allowed move ∧ ev ∈ move.events ∧
        ∀ u v info, ev = .sent u v info → (m.view u).isSome = true := by
  induction h with
  | nil m => exact ⟨hm, [], (List.append_nil _).symm, .refl m, nofun⟩
  | @cons m _ _ move _ hstep hguard _ ih =>
    cases hstep
    have hkeep := hkeeps _ List.mem_cons_self
    obtain ⟨hm', es, hhist, hfollows, hall⟩ :=
      ih (fun move hmove => hkeeps move (List.mem_cons_of_mem _ hmove)) (hm.apply hguard.1 hkeep)
    refine ⟨hm', _ ++ es, ?_, (follows_apply hm hguard.1 hkeep).trans hfollows, fun ev hev => ?_⟩
    · rw [hhist, history_apply, List.append_assoc]
    · rcases List.mem_append.mp hev with hev | hev
      · exact ⟨move, hguard.2, hev, fun u v info hsent =>
          isSome_of_sent hguard.1 (hsent ▸ hev)⟩
      · obtain ⟨move', hallowed, hmem, hcaller⟩ := hall ev hev
        refine ⟨move', hallowed, hmem, fun u v info hsent => ?_⟩
        rw [← isSome_apply_of_keeps hkeep]
        exact hcaller u v info hsent

section Threads

variable {allowed : Move → Prop} {moves : List Move}
  (hcreate : ∀ u port damage, ¬allowed (.create u port damage))

include hcreate

theorem Runs.isSome_of_run (h : Runs allowed m moves m') (hv : (m'.view v).isSome = true) :
    (m.view v).isSome = true := by
  induction h with
  | nil _ => exact hv
  | cons hstep hguard _ ih =>
    cases hstep
    refine isSome_of_apply (fun u port damage hmove => ?_) (ih hv)
    exact hcreate u port damage (hmove ▸ hguard.2)

/-- If nobody is created and everybody is still there, no move has touched the threads. -/
theorem Runs.keeps_of_isSome (h : Runs allowed m moves m')
    (hall : ∀ v, (m.view v).isSome = true → (m'.view v).isSome = true) :
    ∀ move ∈ moves, move.keeps = true := by
  induction h with
  | nil _ => exact nofun
  | @cons m m₁ m' move moves hstep hguard hrest ih =>
    cases hstep
    have hne : ∀ u port damage, move ≠ .create u port damage := fun u port damage hmove =>
      hcreate u port damage (hmove ▸ hguard.2)
    intro x hx
    rcases List.mem_cons.mp hx with rfl | hx
    · by_contra hkeeps
      obtain ⟨v, hv, hgone⟩ := exists_gone hguard.1 hne (Bool.eq_false_iff.mpr hkeeps)
      have := Runs.isSome_of_run hcreate hrest (hall v hv)
      rw [hgone] at this
      cases this
    · exact ih (fun v hv => hall v (isSome_of_apply hne hv)) x hx

end Threads

end Mail

end Horizon
