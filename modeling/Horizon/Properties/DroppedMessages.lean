import Horizon.Memory.Allocation
import Horizon.Properties.MappedRanges
import Horizon.Properties.RequestBuffers
import Horizon.Properties.RunQueue
import Horizon.Properties.ThreadCreation
import Horizon.System.Boot
import Horizon.System.Mapping

/-!
# Horizon — dropping a message without looking at it

`syscall_drop` takes an optional `struct msg` for the message that is dropped, and finds the sender
to wake in it. Without one, it looks for the sender at address 0 of the caller: the two calls come
to the same only where the word there can be read and names the thread to wake.

What `drop` does after the message has been stored depends neither on user memory nor on the log of
accesses (`Blind`), so the two variants can be compared state by state.
-/

namespace Horizon

open StateError

variable {k k' k₁ k₂ : Kernel} {uid : ThreadUid} {info : Word} {e : Envelope}

/-! ## Programs that do not look at memory -/

/-- The same state, with other memory and another log. -/
def Kernel.recast (k : Kernel) (ram : Word → BitVec 8) (touched : List Access) : Kernel :=
  { k with vm := { k.vm with ram := ram }, touched := touched }

def Blind {α : Type} (x : KernelM α) : Prop :=
  ∀ ram touched, Ignores (Kernel.recast · ram touched) x

theorem dassert_blind (c : Prop) [Decidable c] : Blind (dassert c) := fun _ _ =>
  .ite (.pure _) (.throw _)

theorem modifyThread_blind (uid : ThreadUid) (f : Thread → Thread) : Blind (modifyThread uid f) :=
  fun _ _ => .modify fun _ => rfl

theorem derefThread_blind (uid : ThreadUid) : Blind (derefThread uid) := fun _ _ =>
  .get_bind (fun _ => rfl) fun _ => .orThrow _ _

theorem ringInsert_blind (uid : ThreadUid) : Blind (ringInsert uid) := by
  intro ram touched
  refine .get_bind (fun _ => rfl) fun k => .ite ?_ ?_
  · exact .bind (modifyThread_blind _ _ _ _) fun _ => .modify fun _ => rfl
  · exact .bind (derefThread_blind _ _ _) fun _ => .bind (derefThread_blind _ _ _) fun _ =>
      .bind (modifyThread_blind _ _ _ _) fun _ => .bind (modifyThread_blind _ _ _ _) fun _ =>
        modifyThread_blind _ _ _ _

theorem schedulerAdd_blind (uid : ThreadUid) : Blind (schedulerAdd uid) := fun _ _ =>
  .get_bind (fun _ => rfl) fun _ => .bind (.orThrow _ _) fun _ =>
    .bind (dassert_blind _ _ _) fun _ => .bind (modifyThread_blind _ _ _ _) fun _ =>
      ringInsert_blind _ _ _

theorem onBlock_blind {α : Type} (pid : Pid) (x : BlockM α) : Blind (onBlock pid x) := fun _ _ =>
  .zoom (fun _ => rfl) fun _ _ => rfl

/-- The part of `drop` after the sender has been found. -/
def wakeSender (payload : Bool) (sender : ThreadUid) : KernelM Unit := do
  runIf (payload ∧ sender ≠ 0) (schedulerAdd sender)
  syscallReturnSet eNONE

theorem wakeSender_blind (payload : Bool) (sender : ThreadUid) :
    Blind (wakeSender payload sender) :=
  fun _ _ => .bind (.runIf (schedulerAdd_blind _ _ _)) fun _ => .modify fun _ => rfl

/-! ## Stores -/

/-- Nothing but the bytes of a range of user memory has been written. -/
structure Writes (addr : Word) (n : ℕ) (k k' : Kernel) : Prop where
  eq : k' = k.recast k'.vm.ram k'.touched
  ram : ∀ phys, (∀ i < n, k.vm.translate k.vm.cr3 (addr + BitVec.ofNat 32 i) ≠ some phys) →
    k'.vm.ram phys = k.vm.ram phys

instance {addr : Word} {n : ℕ} : Std.Refl (Writes addr n) where
  refl _ := ⟨rfl, fun _ _ => rfl⟩

instance {addr : Word} {n : ℕ} : IsTrans Kernel (Writes addr n) where
  trans k k' k'' h h' := by
    have hvm : ∀ a, k'.vm.translate k'.vm.cr3 a = k.vm.translate k.vm.cr3 a := by
      intro a
      rw [h.eq]
      rfl
    refine ⟨?_, fun phys hout => ?_⟩
    · have heq := h'.eq
      rw [h.eq] at heq
      exact heq
    · rw [h'.ram phys fun i hi => (hvm _).trans_ne (hout i hi), h.ram phys hout]

theorem userByteSet_writes {addr : Word} {n i : ℕ} (hi : i < n) (byte : BitVec 8) :
    Ensures (Writes addr n) (userByteSet (addr + BitVec.ofNat 32 i) byte) := by
  intro k
  rw [userByteSet, touch, modify_bind_apply]
  by_cases hkernel : kernelVirtBase ≤ addr + BitVec.ofNat 32 i
  · rw [bind_apply_of_error (by rw [failIf, if_pos hkernel, throw_apply])]
    exact ⟨rfl, fun _ _ => rfl⟩
  · rw [bind_apply_of_ok (failIf_neg hkernel), get_bind_apply]
    cases hphys : k.vm.translate k.vm.cr3 (addr + BitVec.ofNat 32 i) with
    | none => exact ⟨rfl, fun _ _ => rfl⟩
    | some phys =>
      refine ⟨rfl, fun phys' hout => Function.update_of_ne ?_ _ _⟩
      rintro rfl
      exact hout i hi hphys

theorem userWordSet_writes {addr : Word} {n i : ℕ} (hi : i + 3 < n) (val : Word) :
    Ensures (Writes addr n) (userWordSet (addr + BitVec.ofNat 32 i) val) := by
  have hbyte (j : ℕ) (hj : j < 4) (byte : BitVec 8) : Ensures (Writes addr n)
      (userByteSet (addr + BitVec.ofNat 32 i + BitVec.ofNat 32 j) byte) := by
    rw [BitVec.add_assoc, ← BitVec.ofNat_add]
    exact userByteSet_writes (by omega) byte
  exact .bind (userByteSet_writes (by omega) _) fun _ => .bind (hbyte 1 (by decide) _) fun _ =>
    .bind (hbyte 2 (by decide) _) fun _ => hbyte 3 (by decide) _

theorem storeMsg_writes (dest : Word) (e : Envelope) :
    Ensures (Writes dest 20) (storeMsg dest e) := by
  have hfield (i : ℕ) (hi : i + 3 < 20) (val : Word) :
      Ensures (Writes dest 20) (userWordSet (dest + BitVec.ofNat 32 i) val) :=
    userWordSet_writes hi val
  have hfirst : Ensures (Writes dest 20) (userWordSet dest e.sender.raw) := by
    have h := hfield 0 (by decide) e.sender.raw
    rwa [BitVec.add_zero] at h
  exact .bind hfirst fun _ => .bind (hfield 4 (by decide) _) fun _ =>
    .bind (hfield 8 (by decide) _) fun _ => .bind (hfield 12 (by decide) _) fun _ =>
      hfield 16 (by decide) _

/-- Removing a message does the same to the queue whether it is stored or not. -/
theorem messageRemove_null (hinfo : info ≠ 0) (h : messageRemove uid info k = .ok e k') :
    ∃ k₁, messageRemove uid 0 k = .ok e k₁ ∧ k₁.vm = k.vm ∧ k₁.touched = k.touched ∧
      Writes info 20 k₁ k' := by
  simp only [messageRemove, get_bind_apply, bind_eq_ok, dassertSome, orThrow_eq_ok, pure_eq_ok] at h
  obtain ⟨p, _, ⟨hproc, rfl⟩, source, k₁, hfree, _, k₂, hstore, _, k₃, hunlink, rfl, rfl⟩ := h
  rw [runIf, if_pos hinfo] at hstore
  have hwrites := (storeMsg_writes _ _).ok hstore
  rw [hwrites.eq] at hunlink
  obtain ⟨k₄, hunlink', heq⟩ := (onBlock_blind _ _ _ _).eq_ok hunlink
  obtain ⟨b₁, -, hk₁⟩ := onBlock_eq_ok.mp hfree
  obtain ⟨b₄, -, hk₄⟩ := onBlock_eq_ok.mp hunlink'
  refine ⟨k₄, ?_, by rw [hk₄, hk₁]; rfl, by rw [hk₄, hk₁]; rfl, ?_, fun phys hout => ?_⟩
  · have hskip : runIf ((0 : Word) ≠ 0) (storeMsg 0 source.toEnvelope) k₁ = .ok () k₁ := rfl
    rw [messageRemove, get_bind_apply, hproc, dassertSome, orThrow, pure_bind,
      bind_apply_of_ok hfree, bind_apply_of_ok hskip, bind_apply_of_ok hunlink']
    rfl
  · rw [heq]
    rfl
  · rw [heq]
    rw [hk₄] at hout ⊢
    exact hwrites.ram phys hout

/-! ## The thread that is woken -/

theorem wakeSender_active {sender : ThreadUid} (h : wakeSender true sender k = .ok () k') :
    (sender ≠ 0 → (k.thread sender).state ≠ .active) ∧ ∀ u, (k'.thread u).state = .active ↔
      (k.thread u).state = .active ∨ sender ≠ 0 ∧ u = sender := by
  simp only [wakeSender, bind_eq_ok, runIf_eq_ok, true_and] at h
  obtain ⟨_, t, ⟨hne, hadd⟩ | ⟨hzero, rfl⟩, hret⟩ := h
  · obtain ⟨-, hstate, hadjusts⟩ := schedulerAdd_eq_ok hadd
    rw [syscallReturnSet, modify_eq_ok] at hret
    subst hret
    refine ⟨fun _ => hstate, fun u => ?_⟩
    have hcore : (t.thread u).core.state = _ := congrArg Thread.state (hadjusts.thread u)
    rw [Kernel.thread_setThread] at hcore
    show (t.thread u).core.state = .active ↔ _
    rw [hcore]
    by_cases hu : u = sender
    · subst hu
      rw [if_pos rfl]
      exact iff_of_true rfl (Or.inr ⟨hne, rfl⟩)
    · rw [if_neg hu]
      exact ⟨Or.inl, fun h => h.resolve_right fun h => hu h.2⟩
  · rw [syscallReturnSet, modify_eq_ok] at hret
    subst hret
    exact ⟨fun hne => absurd hne hzero,
      fun u => ⟨Or.inl, fun h => h.resolve_right fun h => hzero h.1⟩⟩

/-- The address spaces and the choice of the running one are as before. -/
structure SamePages (k k' : Kernel) : Prop where
  pages : k'.vm.pages = k.vm.pages
  cr3 : k'.vm.cr3 = k.vm.cr3

instance : Std.Refl SamePages where
  refl _ := ⟨rfl, rfl⟩

instance : IsTrans Kernel SamePages where
  trans _ _ _ h₁ h₂ := ⟨h₂.pages.trans h₁.pages, h₂.cr3.trans h₁.cr3⟩

theorem SamePages.translate (h : SamePages k k') (addr : Word) :
    k'.vm.translate k'.vm.cr3 addr = k.vm.translate k.vm.cr3 addr := by
  rw [h.cr3]
  simp only [Vm.translate, Vm.pagingMappingGet, Vm.tblentGet, h.pages]

theorem wakeSender_samePages {payload : Bool} {sender : ThreadUid}
    (h : wakeSender payload sender k = .ok () k') : SamePages k k' := by
  have hdoes : Does [.state, .sched, .active, .result] (wakeSender payload sender) :=
    .bind (.runIf (schedulerAdd_does sender)) fun _ => syscallReturnSet_does _
  refine (hdoes.ensures fun e he k k' hc => ?_).ok h
  cases hc with
  | paging | cr3 | create => exact absurd he (by decide)
  | _ => exact ⟨rfl, rfl⟩

/-- Which thread has been woken can be told from the states of the threads. -/
theorem wakeSender_inj {s s' : ThreadUid} (h : wakeSender true s k = .ok () k₁)
    (h' : wakeSender true s' k = .ok () k₂) (hblocks : k₁.blocks = k₂.blocks) : s = s' := by
  have hthread : ∀ u, (k₁.thread u).state = (k₂.thread u).state := fun u => by
    rw [Kernel.thread, Kernel.thread, hblocks]
  obtain ⟨hold, hnew⟩ := wakeSender_active h
  obtain ⟨hold', hnew'⟩ := wakeSender_active h'
  by_cases hs : s = 0
  · by_contra hne
    have hs' : s' ≠ 0 := fun hs' => hne (hs.trans hs'.symm)
    have hactive := (hnew s').mp ((hthread s').trans ((hnew' s').mpr (Or.inr ⟨hs', rfl⟩)))
    exact hactive.elim (hold' hs') fun hsame => hsame.1 hs
  · have hactive := (hnew' s).mp ((hthread s).symm.trans ((hnew s).mpr (Or.inr ⟨hs, rfl⟩)))
    exact hactive.elim (fun hact => absurd hact (hold hs)) fun hsame => hsame.2

/-- Without a payload nobody is woken. -/
theorem wakeSender_congr {payload : Bool} {s s' : ThreadUid} (h : payload = true → s = s') :
    wakeSender payload s = wakeSender payload s' := by
  cases payload with
  | false => rw [wakeSender, wakeSender, runIf, runIf, if_neg (by simp), if_neg (by simp)]
  | true => rw [h rfl]

/-! ## The system call -/

/-- The state with another entry in the history of messages. -/
def Kernel.logged (k : Kernel) (event : IpcEvent) : Kernel :=
  { k with history := k.history ++ [event] }

/-- `drop` after its checks. -/
def removeAndWake (caller : ThreadUid) (info : Word) : KernelM Unit := do
  let envelope ← messageRemove caller info
  record (.removed caller envelope)
  let k ← get
  let word ← userWord info
  wakeSender envelope.payload (k.portToUid (IpcPort.ofRaw word) caller.pid)

theorem syscallDrop_eq (hlive : k.live k.schedulerCurr = true)
    (hcount : (k.thread k.schedulerCurr).msgInfo.count ≠ 0) {mapped : Int}
    (hmapped : k.vm.rangeMapped (k.dirOf k.schedulerCurr.pid) info msgSize = some mapped)
    (hinfo : info ≠ 0 → mapped = 1) :
    syscallDrop info k = removeAndWake k.schedulerCurr info k := by
  rw [syscallDrop, get_bind_apply, bind_apply_of_ok (virtualIsMapped_of_rangeMapped
    (Or.inr (Kernel.liveProcess_of_live hlive)) (by decide) hmapped),
    if_neg fun h => h.2 (hinfo h.1), bind_apply_of_ok (derefThread_apply hlive), if_neg hcount]
  rfl

theorem rangeMapped_null (vm : Vm) (d : Frame) :
    ∃ mapped, vm.rangeMapped d 0 msgSize = some mapped :=
  ⟨_, rangeMapped_of_le (by decide)⟩

theorem userWord_null (h : (k.vm.translate k.vm.cr3 0).isSome = true) :
    ∃ k', userWord 0 k = .ok (k.vm.wordAt 0) k' := by
  obtain ⟨phys, hphys⟩ := Option.isSome_iff_exists.mp h
  -- All the bytes of the word lie in the first page.
  have hbyte (addr : Word) (haddr : addr.toNat / 4096 = 0) :
      (k.vm.translate k.vm.cr3 addr).isSome = true := by
    have hpage : k.vm.pageFrame k.vm.cr3 0 = some (entryFrame phys) :=
      (translate_eq_some.mp hphys).1
    rw [← haddr] at hpage
    exact Option.isSome_iff_exists.mpr (exists_translate hpage)
  exact Vm.Holds.userWord ⟨rfl, h, hbyte _ rfl, hbyte _ rfl, hbyte _ rfl⟩

theorem userWord_mapped {addr word : Word} (h : userWord addr k = .ok word k') :
    (k.vm.translate k.vm.cr3 addr).isSome = true := by
  simp only [userWord, userByte, touch, modify_bind_apply, get_bind_apply, bind_eq_ok,
    orThrow_eq_ok] at h
  obtain ⟨_, _, ⟨phys, _, ⟨hphys, -⟩, -⟩, -⟩ := h
  exact Option.isSome_iff_exists.mpr ⟨phys, hphys⟩

/-- The message at the head of the queue of a thread. -/
def Kernel.headMessage (k : Kernel) (uid : ThreadUid) : Envelope :=
  (k.blocks uid.pid).envelope ((k.blocks uid.pid).info uid.tid).head.toNat

theorem freeHead_source {tid : Tid} {b b' : Block} {source : Message}
    (h : Block.freeHead tid b = .ok source b') : source = b.messages (b.info tid).head.toNat := by
  simp only [Block.freeHead, Block.assertLive, slotIndex, get_bind_apply, bind_eq_ok, ite_eq_ok,
    failIf_eq_ok, modify_eq_ok, pure_eq_ok, throw_eq_ok, and_false, or_false] at h
  obtain ⟨_, _, ⟨-, -, rfl⟩, _, _, ⟨-, rfl⟩, index, _, ⟨-, rfl, rfl⟩, _, _, -, rfl, -⟩ := h
  rfl

theorem messageRemove_head (h : messageRemove uid info k = .ok e k') : e = k.headMessage uid := by
  simp only [messageRemove, get_bind_apply, bind_eq_ok, dassertSome, orThrow_eq_ok, onBlock_eq_ok,
    pure_eq_ok] at h
  obtain ⟨_, _, ⟨-, rfl⟩, source, _, ⟨b, hfree, rfl⟩, -, _, -, -, _, -, rfl, -⟩ := h
  rw [freeHead_source hfree]
  rfl

theorem removeAndWake_eq_ok {caller : ThreadUid} : removeAndWake caller info k = .ok () k' ↔
    ∃ e t, messageRemove caller info k = .ok e t ∧ ∃ word t',
      userWord info (t.logged (.removed caller e)) = .ok word t' ∧
      wakeSender e.payload (t.portToUid (IpcPort.ofRaw word) caller.pid) t' = .ok () k' := by
  simp only [removeAndWake, bind_eq_ok, record, modify_bind_apply, get_bind_apply]
  rfl

theorem Reads.recast (h : Reads k k') : k' = k.recast k.vm.ram k'.touched := h.eq

theorem Writes.mono {addr : Word} {n m : ℕ} (hle : n ≤ m) (h : Writes addr n k k') :
    Writes addr m k k' :=
  ⟨h.eq, fun phys hout => h.ram phys fun i hi => hout i (hi.trans_le hle)⟩

/-- Both variants, up to the point where the sender is woken. -/
theorem removeAndWake_stages {caller : ThreadUid} (hinfo : info ≠ 0)
    (h : removeAndWake caller info k = .ok () k₂) :
    ∃ t₀, messageRemove caller 0 k = .ok (k.headMessage caller) t₀ ∧ t₀.vm = k.vm ∧
      (∀ port, t₀.portToUid port caller.pid = k.portToUid port caller.pid) ∧
      ∃ j, wakeSender (k.headMessage caller).payload
          (k.portToUid (k.headMessage caller).sender caller.pid)
          (t₀.logged (.removed caller (k.headMessage caller))) = .ok () j ∧
        ∀ touched, Writes info 20 (j.recast k.vm.ram touched) k₂ := by
  obtain ⟨e, t, hremove, word, t', hword, hwake⟩ := removeAndWake_eq_ok.mp h
  obtain rfl := messageRemove_head hremove
  obtain ⟨t₀, hremove₀, hvm, htouched, hwrites⟩ := messageRemove_null hinfo hremove
  have hport (x : Kernel) (dest : Word)
      (hx : messageRemove caller dest k = .ok (k.headMessage caller) x) (port : IpcPort) :
      x.portToUid port caller.pid = k.portToUid port caller.pid := by
    rw [← Kernel.registry_resolve, ((messageRemove_does _ _).routine.ok hx).registry,
      Kernel.registry_resolve]
  have hsender : IpcPort.ofRaw word = (k.headMessage caller).sender := by
    have hmsg := congrArg Msg.dest (messageRemove_msgAt hinfo hremove)
    rw [userWord_eq_ok hword]
    exact hmsg
  rw [hsender, hport t info hremove] at hwake
  have hreads := (userWord_does _).reads.ok hword
  have hsame : t' =
      (t₀.logged (.removed caller (k.headMessage caller))).recast t.vm.ram t'.touched := by
    rw [hreads.eq, hwrites.eq]
    rfl
  rw [hsame] at hwake
  obtain ⟨j, hj, rfl⟩ := (wakeSender_blind _ _ _ _).eq_ok hwake
  refine ⟨t₀, hremove₀, hvm, hport t₀ 0 hremove₀, j, hj, fun touched => ⟨rfl, fun phys hout => ?_⟩⟩
  have hpages := wakeSender_samePages hj
  exact (hwrites.ram phys fun i hi => (hpages.translate _).symm.trans_ne (hout i hi)).trans
    (congrFun (congrArg Vm.ram hvm) phys)

/-- A message is dropped in the same way without a `struct msg` exactly if page 0 of the caller
is mapped and, for a message with a payload, the word there leads to the thread that waits. -/
theorem syscallDrop_null_iff (hlive : k.live k.schedulerCurr = true)
    (hcount : (k.thread k.schedulerCurr).msgInfo.count ≠ 0) (hinfo : info ≠ 0)
    (hmapped : k.vm.rangeMapped (k.dirOf k.schedulerCurr.pid) info msgSize = some 1)
    (hdrop : syscallDrop info k = .ok () k₂) :
    (∃ k₁, syscallDrop 0 k = .ok () k₁ ∧ Writes info msgSize.toNat k₁ k₂) ↔
      (k.vm.translate k.vm.cr3 0).isSome = true ∧
      ((k.headMessage k.schedulerCurr).payload = true →
        k.portToUid (IpcPort.ofRaw (k.vm.wordAt 0)) k.schedulerCurr.pid =
          k.portToUid (k.headMessage k.schedulerCurr).sender k.schedulerCurr.pid) := by
  obtain ⟨mapped, hnull⟩ := rangeMapped_null k.vm (k.dirOf k.schedulerCurr.pid)
  rw [syscallDrop_eq hlive hcount hmapped fun _ => rfl] at hdrop
  rw [syscallDrop_eq hlive hcount hnull fun h => absurd rfl h]
  obtain ⟨t₀, hremove, hvm, hport, j, hj, hwrites⟩ := removeAndWake_stages hinfo hdrop
  have hvalue : t₀.vm.wordAt 0 = k.vm.wordAt 0 := congrArg (Vm.wordAt · 0) hvm
  constructor
  · rintro ⟨k₁, h, hk₁⟩
    obtain ⟨e, t, hremove', word, t', hword, hwake⟩ := removeAndWake_eq_ok.mp h
    obtain ⟨rfl, rfl⟩ := EStateM.Result.ok.inj (hremove.symm.trans hremove')
    have hpage := userWord_mapped hword
    rw [Kernel.logged, hvm] at hpage
    refine ⟨hpage, fun hpayload => ?_⟩
    rw [((userWord_does _).reads.ok hword).recast, hport, (userWord_eq_ok hword).trans hvalue,
      hpayload] at hwake
    rw [hpayload] at hj
    obtain ⟨j₀, hj₀, rfl⟩ := (wakeSender_blind _ _ _ _).eq_ok hwake
    have hblocks := congrArg Kernel.blocks (hk₁.eq.symm.trans (hwrites []).eq)
    exact wakeSender_inj hj₀ hj hblocks
  · rintro ⟨hpage, hsender⟩
    rw [← hvm] at hpage
    obtain ⟨t', hword⟩ := userWord_null (k := t₀.logged _) hpage
    have hwake := (wakeSender_blind _ _ t₀.vm.ram t'.touched).apply_ok hj
    have hsame := ((userWord_does _).reads.ok hword).recast
    refine ⟨j.recast t₀.vm.ram t'.touched,
      removeAndWake_eq_ok.mpr ⟨_, t₀, hremove, _, t', hword, ?_⟩, ?_⟩
    · show wakeSender _ (t₀.portToUid (IpcPort.ofRaw (t₀.vm.wordAt 0)) _) t' = _
      rw [hport, hvalue, wakeSender_congr hsender, hsame]
      exact hwake
    · rw [hvm]
      exact (hwrites _).mono (by decide)

/-- A process that has mapped its page 0 drops a message of the kernel in either way. -/
theorem null_dropped_with_page : ∃ k₀ k k₁ k₂, Booted k₀ ∧
    runEvents Kernel.step k₀ [callEvent 7 0 0x1000 0, .ksend { pid := 2 } 1 #v[0, 0, 0]] = some k ∧
    syscallDrop 0x1000 k = .ok () k₂ ∧ syscallDrop 0 k = .ok () k₁ ∧
    Writes 0x1000 msgSize.toNat k₁ k₂ := by
  have hany : (runPages (fun _ => 0) [0x2000]
      [callEvent 7 0 0x1000 0, .ksend { pid := 2 } 1 #v[0, 0, 0]]).any (fun k =>
        k.live k.schedulerCurr = true ∧ (k.thread k.schedulerCurr).msgInfo.count ≠ 0 ∧
        k.vm.rangeMapped (k.dirOf k.schedulerCurr.pid) 0x1000 msgSize = some 1 ∧
        valueOf (syscallDrop 0x1000 k) = some () ∧ (k.vm.translate k.vm.cr3 0).isSome = true ∧
        (k.headMessage k.schedulerCurr).payload = false) = true := by decide +kernel
  obtain ⟨k₀, k, hboot, hrun, hfacts⟩ := exists_run_of_any hany
  obtain ⟨hlive, hcount, hmapped, hdrop, hpage, hpayload⟩ := of_decide_eq_true hfacts
  have hdrop := eq_ok_of_valueOf hdrop
  obtain ⟨k₁, hnull, hwrites⟩ := (syscallDrop_null_iff hlive hcount (by decide) hmapped hdrop).mpr
    ⟨hpage, fun h => absurd h (by rw [hpayload]; decide)⟩
  exact ⟨k₀, k, k₁, _, hboot, hrun, hdrop, hnull, hwrites⟩

/-- Memory in which the first process finds a message for the second one, with a payload of four
bytes. -/
def payloadRam (phys : Word) : BitVec 8 :=
  if phys = 0x2000 then 3 else if phys = 0x2015 then 0x11 else if phys = 0x2018 then 4 else 0

/-- The first process sends a payload to the second one and is blocked. Dropping the message with
a `struct msg` wakes it; without one, the kernel faults at address 0. -/
theorem null_drop_faults : ∃ k₀ k, Booted k₀ ∧
    runEvents Kernel.step k₀ [callEvent 13 0x1000 0 0] = some k ∧
    k.live k.schedulerCurr = true ∧ (k.thread k.schedulerCurr).msgInfo.count = 1 ∧
    k.vm.rangeMapped (k.dirOf k.schedulerCurr.pid) 0x1800 msgSize = some 1 ∧
    (k.thread { pid := 2, tid := 0 }).state = .sending ∧
    valueOf (syscallDrop 0x1800 k) = some () ∧
    ((final (syscallDrop 0x1800 k)).thread { pid := 2, tid := 0 }).state = .active ∧
    errorOf (syscallDrop 0 k) = some .pageFault ∧
    ((final (syscallDrop 0 k)).thread { pid := 2, tid := 0 }).state = .sending := by
  have hany : (runPages payloadRam [0x2000, 0x3000] [callEvent 13 0x1000 0 0]).any (fun k =>
      k.live k.schedulerCurr = true ∧ (k.thread k.schedulerCurr).msgInfo.count = 1 ∧
      k.vm.rangeMapped (k.dirOf k.schedulerCurr.pid) 0x1800 msgSize = some 1 ∧
      (k.thread { pid := 2, tid := 0 }).state = .sending ∧
      valueOf (syscallDrop 0x1800 k) = some () ∧
      ((final (syscallDrop 0x1800 k)).thread { pid := 2, tid := 0 }).state = .active ∧
      errorOf (syscallDrop 0 k) = some .pageFault ∧
      ((final (syscallDrop 0 k)).thread { pid := 2, tid := 0 }).state = .sending) = true := by
    decide +kernel
  obtain ⟨k₀, k, hboot, hrun, hfacts⟩ := exists_run_of_any hany
  exact ⟨k₀, k, hboot, hrun, of_decide_eq_true hfacts⟩

end Horizon
