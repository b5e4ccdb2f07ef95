import Horizon.System.Boot

/-!
# Horizon — a system call that fails changes nothing

Every handler checks its arguments, leaving with an error code at the first check that fails,
and then carries the call out. `Syscall.attempt` is the part of a handler up to the decision: its
result is the error code, or the program that carries the call out. `attempt_finish` says that
the handler is its attempt followed by what the attempt decided, so nothing is left out; the
attempts are inert but for the return value.

The handlers differ in what they have done when they fail: `send` has already set the return
value to success, `recv` has looked at the head message and at the caller's buffer, and `wait`
has searched the queue, which it reorders only if it finds something.
-/

namespace Horizon

open StateError

variable {k k' : Kernel}

/-- An error code to return, or a program that carries the call out. -/
abbrev Verdict := Except Word (KernelM Unit)

/-- Return the error code, or do what was decided. -/
def Verdict.finish : Verdict → KernelM Unit
  | .error code => syscallReturnSet code
  | .ok act => act

/-! ## Attempts -/

def attemptLaunch (pid : BitVec 16) (entry : Word) : KernelM Verdict := do
  let owner := (← get).processGet (← get).schedulerCurr.pid
  let found := (← get).processFind pid
  if found.isNone then return .error eNOTAVAIL
  let target ← orThrow .nullDeref found
  if 0 < target.threadInfo.count then return .error eINVALID
  let owner ← orThrow .nullDeref owner
  if target.parent ≠ owner.pid ∧ owner.priv ≤ privNone then return .error ePRIV
  return .ok do
    modifyProcess (pid.setWidth 10) fun p => { p with entry := entry }
    let uid ← threadNew (pid.setWidth 10) 0
    schedulerAdd uid
    syscallReturnSet eNONE

def attemptRelease (tid : BitVec 8) : KernelM Verdict := do
  let caller := (← get).schedulerCurr
  let tid := if tid = 0 then caller.tid.setWidth 8 else tid
  if tid = 0 then return .error eINVALID
  let target : ThreadUid := { pid := caller.pid, tid := tid.setWidth 6 }
  if (← get).live target = false then return .error eNOTAVAIL
  return .ok do
    runIf (target.tid = caller.tid) schedulerLock
    threadKill caller
    unlockOrReturn

def attemptKill (pid : BitVec 16) : KernelM Verdict := do
  let owner := (← get).processGet (← get).schedulerCurr.pid
  let pid ← killTarget owner pid
  let found := (← get).processFind pid
  if found.isNone then return .error eNOTAVAIL
  let target ← orThrow .nullDeref found
  let owner ← orThrow .nullDeref owner
  if owner.priv < target.priv then return .error ePRIV
  return .ok do
    runIf (target.pid = owner.pid) schedulerLock
    purgeAndKill target.pid
    unlockOrReturn
    notifyProcmgr (pid.setWidth 32)

def attemptWait (sender : IpcPort) : KernelM Verdict := do
  let caller := (← get).schedulerCurr
  if ← messageFind caller sender then return .ok (syscallReturnSet eNONE)
  let target := (← get).portToUid sender caller.pid
  if target = 0 then return .error eINVALID
  let exact := if target.pid = 0 then { target with pid := caller.pid } else target
  if exact.pid.toNat ≠ 1 ∧ (← get).live exact = false then return .error eNOTAVAIL
  return .ok (sleepCaller caller sender)

def attemptVmap (dest size : Word) : KernelM Verdict := do
  if kernelVirtBase < dest + size then return .error eADDR
  if size = 0 then return .error eSIZE
  if !pageAligned dest then return .error eALIGN
  if size % archPgsize ≠ 0 then return .error eSIZE
  let owner ← derefProcess (← get).schedulerCurr.pid
  if (← virtualIsMapped owner.pid dest size) ≠ 0 then return .error eNOTAVAIL
  return .ok do
    virtualAlloc owner.pid dest size
    syscallReturnSet dest

def attemptPmap (dest src size : Word) : KernelM Verdict := do
  if kernelVirtBase < dest + size then return .error eADDR
  if size = 0 then return .error eSIZE
  if !pageAligned dest then return .error eALIGN
  if !pageAligned src then return .error eALIGN
  if size % archPgsize ≠ 0 then return .error eSIZE
  let owner ← derefProcess (← get).schedulerCurr.pid
  if owner.priv ≠ privDriver then return .error ePRIV
  if (← virtualIsMapped owner.pid dest size) ≠ 0 then return .error eNOTAVAIL
  return .ok do
    virtualMap owner.pid dest src size
    syscallReturnSet dest

def attemptUnmap (addr size : Word) : KernelM Verdict := do
  if kernelVirtBase < addr + size then return .error eADDR
  if size = 0 then return .error eSIZE
  if !pageAligned addr then return .error eALIGN
  if size % archPgsize ≠ 0 then return .error eSIZE
  let owner ← derefProcess (← get).schedulerCurr.pid
  if (← virtualIsMapped owner.pid addr size) ≠ 1 then return .error eNOTAVAIL
  return .ok do
    virtualUnmap owner.pid addr size
    syscallReturnSet eNONE

def attemptGrant (info dest : Word) : KernelM Verdict := do
  let caller := (← get).schedulerCurr
  if (← virtualIsMapped caller.pid info shmSize) ≠ 1 then return .error ePARAM
  let shm ← fetchShm info
  if shm.size = 0 then return .error eSIZE
  let target := (← get).portToUid shm.dest caller.pid
  if target = 0 then return .error eINVALID
  let found := (← get).processGet target.pid
  if found.isNone then return .error eNOTAVAIL
  let target ← orThrow .nullDeref found
  let owner ← derefProcess caller.pid
  if owner.priv ≤ target.priv ∧ target.parent ≠ owner.pid then return .error ePRIV
  if !pageAligned shm.addr then return .error eALIGN
  if !pageAligned dest then return .error eALIGN
  if shm.size % archPgsize ≠ 0 then return .error eSIZE
  if (← virtualIsMapped owner.pid shm.addr shm.size) ≠ 1 then return .error eADDR
  if (← virtualIsMapped target.pid dest shm.size) ≠ 0 then return .error eNORES
  return .ok do
    virtualShare target.pid owner.pid dest shm.addr shm.size shm.prot
    virtualUnmap owner.pid shm.addr shm.size
    syscallReturnSet eNONE

def attemptShare (info : Word) : KernelM Verdict := do
  let caller := (← get).schedulerCurr
  if (← virtualIsMapped caller.pid info shmSize) ≠ 1 then return .error ePARAM
  let shm ← fetchShm info
  if shm.size = 0 then return .error eSIZE
  let target := (← get).portToUid shm.dest caller.pid
  if target = 0 then return .error eINVALID
  if ((← get).processGet target.pid).isNone ∧ ¬(target.pid = 1 ∧ target.tid = 1) then
    return .error eNOTAVAIL
  if !pageAligned shm.addr then return .error eALIGN
  if shm.addr % archPgsize ≠ 0 then return .error eSIZE
  return .ok do
    let _ ← derefThread caller
    modifyThread caller fun t => { t with syscallInfo := { t.syscallInfo with shmOffer := shm } }
    syscallReturnSet (caller.raw.setWidth 32)

def attemptAccept (sid dest size : Word) : KernelM Verdict := do
  if size = 0 then return .error eSIZE
  let caller := (← get).schedulerCurr
  let target := ThreadUid.ofRaw (sid.setWidth 16)
  if (← get).live target = false then return .error eNOTAVAIL
  let shm := ((← get).thread target).syscallInfo.shmOffer
  if !portCompare shm.dest (← portFromUid caller) then return .error ePRIV
  if !pageAligned dest then return .error eALIGN
  if size % archPgsize ≠ 0 then return .error eSIZE
  if (← virtualIsMapped caller.pid dest size) ≠ 0 then return .error eADDR
  return .ok do
    virtualShare caller.pid target.pid dest shm.addr shm.size shm.prot
    syscallReturnSet shm.size

/-- The checks on a payload come after the return value has been set. -/
def attemptPayload (caller target : ThreadUid) (port : IpcPort) (src : Word) (dest : IpcPort) :
    KernelM Verdict := do
  syscallReturnSet eNONE
  let buf ← userWord (src + 20)
  if buf ≠ 0 then
    let size ← userWord (src + 24)
    if size = 0 then return .error eSIZE
    if (← virtualIsMapped caller.pid buf size) ≠ 1 then return .error eADDR
    return .ok do
      blockCaller caller buf size
      sendDeliver caller target port src dest buf
  else return .ok (sendDeliver caller target port src dest buf)

def attemptSend (src : Word) : KernelM Verdict := do
  let caller := (← get).schedulerCurr
  let port ← portFromUid caller
  if (← virtualIsMapped caller.pid src msgSize) ≠ 1 then return .error ePARAM
  let dest := IpcPort.ofRaw (← userWord src)
  if portCompare dest port then return .error ePARAM
  let target := (← get).portToUid dest caller.pid
  if target.pid = 0 then return .error eINVALID
  if (← get).live target = false then return .error eNOTAVAIL
  let proc ← derefProcess target.pid
  if processMessageMax ≤ proc.msgInfo.count then return .error eNORES
  attemptPayload caller target port src dest

def attemptRecv (dest : Word) : KernelM Verdict := do
  let caller := (← get).schedulerCurr
  if (← virtualIsMapped caller.pid dest msgSize) ≠ 1 then return .error ePARAM
  if (← derefThread caller).msgInfo.count = 0 then return .error eNOTAVAIL
  let (port, hasPayload) ← messagePeek caller
  let sender := (← get).portToUid port 0
  if hasPayload ∧ sender ≠ 0 then
    let info := (← derefThread sender).syscallInfo
    let owner := ((← get).thread sender).owner
    let addrTo ← userWord (dest + 20)
    let sizeTo ← userWord (dest + 24)
    if sizeTo = 0 ∨ sizeTo < info.payloadSize then return .error eSIZE
    if (← virtualIsMapped caller.pid addrTo info.payloadSize) ≠ 1 then return .error eADDR
    return .ok do
      copyPayload owner (addrTo + info.payloadSize) (info.payloadSize.toNat + 1) info.payloadAddr
        addrTo
      schedulerAdd sender
      recvFinish caller dest info.payloadSize
  else return .ok (recvFinish caller dest 0)

def attemptPeek : KernelM Verdict := do
  let caller := (← get).schedulerCurr
  if (← derefThread caller).msgInfo.count = 0 then return .error eNOTAVAIL
  return .ok do
    let (port, hasPayload) ← messagePeek caller
    let sender := (← get).portToUid port 0
    if hasPayload ∧ sender ≠ 0 then
      syscallReturnSet (← derefThread sender).syscallInfo.payloadSize
    else
      syscallReturnSet 0

def attemptDrop (info : Word) : KernelM Verdict := do
  let caller := (← get).schedulerCurr
  let mapped ← virtualIsMapped caller.pid info msgSize
  if info ≠ 0 ∧ mapped ≠ 1 then return .error ePARAM
  if (← derefThread caller).msgInfo.count = 0 then return .error eNOTAVAIL
  return .ok do
    let envelope ← messageRemove caller info
    record (.removed caller envelope)
    let sender := (← get).portToUid (IpcPort.ofRaw (← userWord info)) caller.pid
    runIf (envelope.payload ∧ sender ≠ 0) (schedulerAdd sender)
    syscallReturnSet eNONE

/-- A call up to the decision whether it is carried out. -/
def Syscall.attempt (input : Word) : Syscall → KernelM Verdict
  | .launch pid entry => attemptLaunch pid entry
  | .release tid => attemptRelease tid
  | .kill pid => attemptKill pid
  | .wait sender => attemptWait sender
  | .vmap dest size => attemptVmap dest size
  | .pmap dest src size => attemptPmap dest src size
  | .unmap addr size => attemptUnmap addr size
  | .grant info dest => attemptGrant info dest
  | .share info => attemptShare info
  | .accept sid dest size => attemptAccept sid dest size
  | .send src => attemptSend src
  | .recv dest => attemptRecv dest
  | .peek => attemptPeek
  | .drop info => attemptDrop info
  -- These are carried out in any case, as far as this module is concerned.
  | call => return .ok (call.run input)

/-- Every handler is its attempt and what the attempt decides on. -/
theorem Syscall.attempt_finish (input : Word) (call : Syscall) :
    call.attempt input >>= Verdict.finish = call.run input := by
  cases call <;>
    simp only [attempt, run, attemptLaunch, syscallLaunch, attemptRelease, syscallRelease,
      attemptKill, syscallKill, attemptWait, syscallWait, attemptVmap, syscallVmap, attemptPmap,
      syscallPmap, attemptUnmap, syscallUnmap, attemptGrant, syscallGrant, attemptShare,
      syscallShare, attemptAccept, syscallAccept, attemptSend, syscallSend, attemptPayload,
      sendPayload, attemptRecv, syscallRecv, recvPayload, attemptPeek, syscallPeek, attemptDrop,
      syscallDrop, Verdict.finish, ite_bind, bind_assoc, pure_bind]

/-! ## Attempts are inert -/

/-- Nothing has changed but the return value, and which user memory has been read. -/
structure Inert (k k' : Kernel) : Prop where
  eq : k' = { k with frame := { k.frame with eax := k'.frame.eax }, touched := k'.touched }

instance : Std.Refl Inert where
  refl _ := ⟨rfl⟩

instance : IsTrans Kernel Inert where
  trans _ _ _ h₁ h₂ := ⟨by
    have h := h₂.eq
    rw [h₁.eq] at h
    exact h⟩

theorem Does.inert {α : Type} {S : List Effect} {x : KernelM α}
    [hS : Within S [.log, .result, .fault]] (h : Does S x) : Ensures Inert x := by
  refine h.ensures fun e he k k' hc => ?_
  have he := hS.mem e he
  cases hc with
  | log | result => exact ⟨rfl⟩
  | _ => exact absurd he (by decide)

theorem assertLive_eq (tid : Tid) : Ensures Eq (Block.assertLive tid) :=
  .bind .get fun _ => .ite (.pure _) (.throw _)

theorem slotIndex_eq (link : Link) : Ensures Eq (slotIndex link) := .ite (.pure _) (.throw _)

theorem findFrom_eq (search : IpcPort) (fuel : Nat) (prev curr : Link) :
    Ensures Eq (Block.findFrom search fuel prev curr) := by
  induction fuel generalizing prev curr with
  | zero => exact .throw _
  | succ fuel ih =>
    refine .ite (.pure _) (.bind (slotIndex_eq _) fun _ => .bind .get fun _ => ?_)
    exact .ite (.pure _) (ih _ _)

/-- A search that finds nothing has not changed the queue. -/
theorem messageFind_false {uid : ThreadUid} {search : IpcPort}
    (h : messageFind uid search k = .ok false k') : k' = k := by
  simp only [messageFind, get_bind_apply, bind_eq_ok, dassertSome, orThrow_eq_ok,
    onBlock_eq_ok] at h
  obtain ⟨_, _, ⟨-, rfl⟩, b, hfind, rfl⟩ := h
  suffices hb : k.blocks uid.pid = b by
    rw [← hb, Kernel.setBlock, Function.update_eq_self]
  rw [Block.messageFind] at hfind
  obtain ⟨_, b₁, hassert, hfind⟩ := bind_eq_ok.mp hfind
  obtain rfl := (assertLive_eq _).ok hassert
  rw [get_bind_apply, ite_eq_ok] at hfind
  rcases hfind with ⟨-, hnone⟩ | ⟨-, hfind⟩
  · exact (pure_eq_ok.mp hnone).2
  · obtain ⟨found, b₂, hfrom, hmove⟩ := bind_eq_ok.mp hfind
    obtain rfl := (findFrom_eq _ _ _ _).ok hfrom
    cases found with
    | none => exact (pure_eq_ok.mp hmove).2
    | some place =>
      simp only [ite_eq_ok, bind_eq_ok, pure_eq_ok] at hmove
      simp at hmove

/-! ## Refusals -/

/-- The codes of `horizon/errno.h` but `ENONE`. -/
def errorCodes : List Word := [ePARAM, ePRIV, eADDR, eSIZE, eALIGN, eNOTAVAIL, eINVALID, eNORES]

/-- Whenever the program decides to fail it has been inert. -/
def RefusesInertly (x : KernelM Verdict) : Prop :=
  ∀ k k' code, x k = .ok (.error code) k' → Inert k k' ∧ code ∈ errorCodes

namespace RefusesInertly

variable {x y : KernelM Verdict} {c : Prop} [Decidable c]

theorem act (act : KernelM Unit) : RefusesInertly (return .ok act) := by
  intro k k' code h
  obtain ⟨hverdict, -⟩ := pure_eq_ok.mp h
  cases hverdict

theorem bind {α : Type} {x : KernelM α} {f : α → KernelM Verdict} (hx : Ensures Inert x)
    (hf : ∀ a, RefusesInertly (f a)) : RefusesInertly (x >>= f) := by
  intro k k' code h
  obtain ⟨a, t, hxt, hft⟩ := bind_eq_ok.mp h
  obtain ⟨hinert, hcode⟩ := hf a t k' code hft
  exact ⟨IsTrans.trans _ _ _ (hx.ok hxt) hinert, hcode⟩

theorem get {f : Kernel → KernelM Verdict} (hf : ∀ k, RefusesInertly (f k)) :
    RefusesInertly (MonadState.get >>= f) := bind .get hf

theorem ite (hx : c → RefusesInertly x) (hy : ¬c → RefusesInertly y) :
    RefusesInertly (if c then x else y) := by
  split
  · next h => exact hx h
  · next h => exact hy h

theorem check {code : Word} (hcode : decide (code ∈ errorCodes) = true) (hy : RefusesInertly y) :
    RefusesInertly (if c then return .error code else y) := by
  refine ite (fun _ k k' code' h => ?_) fun _ => hy
  obtain ⟨hcode', rfl⟩ := pure_eq_ok.mp h
  cases hcode'
  exact ⟨Std.Refl.refl k, of_decide_eq_true hcode⟩

end RefusesInertly

open RefusesInertly

theorem attemptLaunch_inert (pid : BitVec 16) (entry : Word) :
    RefusesInertly (attemptLaunch pid entry) := by
  refine get fun _ => get fun _ => get fun _ => check rfl (bind (.orThrow _ _) fun _ => ?_)
  exact check rfl (bind (.orThrow _ _) fun _ => check rfl (act _))

theorem attemptRelease_inert (tid : BitVec 8) : RefusesInertly (attemptRelease tid) :=
  get fun _ => check rfl (get fun _ => check rfl (act _))

theorem attemptKill_inert (pid : BitVec 16) : RefusesInertly (attemptKill pid) := by
  refine get fun _ => get fun _ => bind (.ite (.pure _) (.bind (.orThrow _ _) fun _ => .pure _))
    fun _ => get fun _ => check rfl (bind (.orThrow _ _) fun _ => ?_)
  exact bind (.orThrow _ _) fun _ => check rfl (act _)

/-- `wait` fails only if the search has found nothing. -/
theorem attemptWait_inert (sender : IpcPort) : RefusesInertly (attemptWait sender) := by
  intro k k' code h
  rw [attemptWait, get_bind_apply] at h
  obtain ⟨found, k₁, hfind, hrest⟩ := bind_eq_ok.mp h
  cases found with
  | true => cases hrest
  | false =>
    obtain rfl := messageFind_false hfind
    exact (get fun _ => check rfl (get fun _ => check rfl (act _)) :
      RefusesInertly _) _ _ _ hrest

theorem attemptVmap_inert (dest size : Word) : RefusesInertly (attemptVmap dest size) := by
  refine check rfl (check rfl (check rfl (check rfl (get fun _ => ?_))))
  refine bind (derefProcess_does _).inert fun _ => ?_
  exact bind (virtualIsMapped_does _ _ _).inert fun _ => check rfl (act _)

theorem attemptPmap_inert (dest src size : Word) : RefusesInertly (attemptPmap dest src size) := by
  refine check rfl (check rfl (check rfl (check rfl (check rfl (get fun _ => ?_)))))
  refine bind (derefProcess_does _).inert fun _ => ?_
  exact check rfl (bind (virtualIsMapped_does _ _ _).inert fun _ => check rfl (act _))

theorem attemptUnmap_inert (addr size : Word) : RefusesInertly (attemptUnmap addr size) := by
  refine check rfl (check rfl (check rfl (check rfl (get fun _ => ?_))))
  refine bind (derefProcess_does _).inert fun _ => ?_
  exact bind (virtualIsMapped_does _ _ _).inert fun _ => check rfl (act _)

theorem attemptGrant_inert (info dest : Word) : RefusesInertly (attemptGrant info dest) := by
  refine get fun _ => bind (virtualIsMapped_does _ _ _).inert fun _ => check rfl ?_
  refine bind (fetchShm_does _).inert fun _ => check rfl ?_
  refine get fun _ => check rfl (get fun _ => check rfl ?_)
  refine bind (.orThrow _ _) fun _ => bind (derefProcess_does _).inert fun _ => check rfl ?_
  refine check rfl (check rfl (check rfl ?_))
  refine bind (virtualIsMapped_does _ _ _).inert fun _ => check rfl ?_
  exact bind (virtualIsMapped_does _ _ _).inert fun _ => check rfl (act _)

theorem attemptShare_inert (info : Word) : RefusesInertly (attemptShare info) := by
  refine get fun _ => bind (virtualIsMapped_does _ _ _).inert fun _ => check rfl ?_
  refine bind (fetchShm_does _).inert fun _ => check rfl ?_
  refine get fun _ => check rfl (get fun _ => check rfl ?_)
  exact check rfl (check rfl (act _))

theorem attemptAccept_inert (sid dest size : Word) :
    RefusesInertly (attemptAccept sid dest size) := by
  refine check rfl (get fun _ => get fun _ => check rfl (get fun _ => ?_))
  refine bind (portFromUid_does _).inert fun _ => check rfl (check rfl (check rfl ?_))
  exact bind (virtualIsMapped_does _ _ _).inert fun _ => check rfl (act _)

theorem attemptPayload_inert (caller target : ThreadUid) (port : IpcPort) (src : Word)
    (dest : IpcPort) : RefusesInertly (attemptPayload caller target port src dest) := by
  refine bind (syscallReturnSet_does _).inert fun _ => ?_
  refine bind (userWord_does _).inert fun _ => ite ?_ ?_
  · intro _
    refine bind (userWord_does _).inert fun _ => check rfl ?_
    exact bind (virtualIsMapped_does _ _ _).inert fun _ => check rfl (act _)
  · exact fun _ => act _

theorem attemptSend_inert (src : Word) : RefusesInertly (attemptSend src) := by
  refine get fun _ => bind (portFromUid_does _).inert fun _ => ?_
  refine bind (virtualIsMapped_does _ _ _).inert fun _ => check rfl ?_
  refine bind (userWord_does _).inert fun _ => check rfl ?_
  refine get fun _ => check rfl (get fun _ => check rfl ?_)
  refine bind (derefProcess_does _).inert fun _ => ?_
  exact check rfl (attemptPayload_inert _ _ _ _ _)

theorem attemptRecv_inert (dest : Word) : RefusesInertly (attemptRecv dest) := by
  refine get fun _ => bind (virtualIsMapped_does _ _ _).inert fun _ => check rfl ?_
  refine bind (derefThread_does _).inert fun _ => check rfl ?_
  refine bind (messagePeek_does _).inert fun _ => ?_
  refine get fun _ => ite (fun _ => ?_) fun _ => act _
  refine bind (derefThread_does _).inert fun _ => get fun _ => ?_
  refine bind (userWord_does _).inert fun _ => bind (userWord_does _).inert fun _ => check rfl ?_
  exact bind (virtualIsMapped_does _ _ _).inert fun _ => check rfl (act _)

theorem attemptPeek_inert : RefusesInertly attemptPeek :=
  get fun _ => bind (derefThread_does _).inert fun _ => check rfl (act _)

theorem attemptDrop_inert (info : Word) : RefusesInertly (attemptDrop info) :=
  get fun _ => bind (virtualIsMapped_does _ _ _).inert fun _ =>
    check rfl (bind (derefThread_does _).inert fun _ => check rfl (act _))

theorem Syscall.attempt_inert (input : Word) (call : Syscall) :
    RefusesInertly (call.attempt input) := by
  cases call with
  | launch pid entry => exact attemptLaunch_inert pid entry
  | release tid => exact attemptRelease_inert tid
  | kill pid => exact attemptKill_inert pid
  | wait sender => exact attemptWait_inert sender
  | vmap dest size => exact attemptVmap_inert dest size
  | pmap dest src size => exact attemptPmap_inert dest src size
  | unmap addr size => exact attemptUnmap_inert addr size
  | grant info dest => exact attemptGrant_inert info dest
  | share info => exact attemptShare_inert info
  | accept sid dest size => exact attemptAccept_inert sid dest size
  | send src => exact attemptSend_inert src
  | recv dest => exact attemptRecv_inert dest
  | peek => exact attemptPeek_inert
  | drop info => exact attemptDrop_inert info
  | spawn => exact act _
  | dispatch entry stack => exact act _
  | yield => exact act _
  | svcown svc => exact act _
  | svcid svc => exact act _
  | sysio action arg data => exact act _

/-- A handler that ends in one of its error returns has set the return value and nothing else. -/
theorem failed_call_changes_nothing (call : Syscall) (input : Word) :
    call.attempt input >>= Verdict.finish = call.run input ∧
    ∀ k k₁ code, call.attempt input k = .ok (.error code) k₁ →
      code ∈ errorCodes ∧
      call.run input k =
        .ok () { k with frame := { k.frame with eax := code }, touched := k₁.touched } := by
  refine ⟨call.attempt_finish input, fun k k₁ code h => ?_⟩
  obtain ⟨hinert, hcode⟩ := call.attempt_inert input k k₁ code h
  refine ⟨hcode, ?_⟩
  rw [← call.attempt_finish input, bind_apply_of_ok h]
  show EStateM.Result.ok () { k₁ with frame := { k₁.frame with eax := code } } = _
  rw [hinert.eq]

/-- The error code an attempt has decided on. -/
def refusal : EStateM.Result Fault Kernel Verdict → Option Word
  | .ok (.error code) _ => some code
  | _ => none

theorem refusal_eq_some {r : EStateM.Result Fault Kernel Verdict} {code : Word}
    (h : refusal r = some code) : ∃ k, r = .ok (.error code) k := by
  unfold refusal at h
  split at h
  · next k =>
    cases h
    exact ⟨k, rfl⟩
  · cases h

/-- A payload buffer without a size is noticed when success has already been set. -/
theorem send_of_empty_payload_changes_nothing :
    ∃ k₀ touched, Booted k₀ ∧ (Syscall.send 0x1000).run 0 k₀ =
      .ok () { k₀ with frame := { k₀.frame with eax := eSIZE }, touched } := by
  have hany : (runPages (fun phys => if phys = 0x2000 then 3 else if phys = 0x2015 then 0x10 else 0)
      [0x2000, 0x3000] []).any
      (fun k => refusal ((Syscall.send 0x1000).attempt 0 k) = some eSIZE) = true := by
    decide +kernel
  obtain ⟨k₀, _, hboot, hrun, hrefusal⟩ := exists_run_of_any hany
  cases hrun
  obtain ⟨k₁, hattempt⟩ := refusal_eq_some (of_decide_eq_true hrefusal)
  exact ⟨k₀, k₁.touched, hboot,
    ((failed_call_changes_nothing (.send 0x1000) 0).2 k₀ k₁ eSIZE hattempt).2⟩

end Horizon
