import Horizon.User.Requests
import Horizon.System.UserMemory

/-!
# Horizon — buffers of requests are freed once

`HeapCall.apply` keeps the list of the buffers that are allocated. A round of a server is right when
its calls pass and leave the list empty (`MsgLoop.FreedOnce`).

Whether there is a buffer to free is only kept in `req.payload.size`, which no one resets. Received
without a payload, a message leaves the size of an earlier one in place, and with it the pointer to a
buffer that has been freed.
-/

namespace Horizon

open StateError

variable {k k' : Kernel} {s s' : MsgLoop} {r : Round}

/-! ## What `recv` stores -/

/-- Storing a word does not disturb a word at other page offsets. -/
theorem userWordSet_wordAt {addr other val : Word} (hne : ∀ a b : Word, a.toNat < 4 → b.toNat < 4 →
      (other + a).setWidth 12 ≠ (addr + b).setWidth 12)
    (h : userWordSet addr val k = .ok () k') : k'.vm.wordAt other = k.vm.wordAt other := by
  simp only [userWordSet, bind_eq_ok] at h
  obtain ⟨_, k₀, h0, _, k₁, h1, _, k₂, h2, h3⟩ := h
  rw [← BitVec.add_zero addr] at h0
  have hbyte (a : Word) (ha : a.toNat < 4) :
      k'.vm.byteAt (other + a) = k.vm.byteAt (other + a) := by
    rw [(userByteSet_eq_ok h3).byteAt_other (hne a 3 ha (by decide)),
      (userByteSet_eq_ok h2).byteAt_other (hne a 2 ha (by decide)),
      (userByteSet_eq_ok h1).byteAt_other (hne a 1 ha (by decide)),
      (userByteSet_eq_ok h0).byteAt_other (hne a 0#32 ha (by decide))]
  have hfirst := hbyte 0#32 (by decide)
  rw [BitVec.add_zero] at hfirst
  rw [Vm.wordAt, Vm.wordAt, hbyte 3 (by decide), hbyte 2 (by decide), hbyte 1 (by decide), hfirst]

/-- Storing a field of a `struct msg` does not disturb another one. -/
theorem userWordSet_field_wordAt {dest val : Word} (off off' : Word)
    (hoff : off.toNat % 4 = 0 ∧ off'.toNat % 4 = 0 ∧ off.toNat < 28 ∧ off'.toNat < 28 ∧
      off.toNat ≠ off'.toNat) (h : userWordSet (dest + off') val k = .ok () k') :
    k'.vm.wordAt (dest + off) = k.vm.wordAt (dest + off) := by
  refine userWordSet_wordAt (fun a b ha hb => ?_) h
  rw [BitVec.add_assoc, BitVec.add_assoc]
  refine setWidth_add_ne fun heq => ?_
  have hnat := congrArg BitVec.toNat heq
  simp only [BitVec.toNat_setWidth, BitVec.toNat_add] at hnat
  omega

theorem storeMsg_msgAt {dest : Word} {e : Envelope} (h : storeMsg dest e k = .ok () k') :
    k'.msgAt dest = (k.msgAt dest).receive e := by
  have hport := (storeMsg_eq_ok h).1
  simp only [storeMsg, bind_eq_ok] at h
  obtain ⟨_, k₀, h0, _, k₁, h1, _, k₂, h2, _, k₃, h3, h4⟩ := h
  have hcode : k'.vm.wordAt (dest + 4) = e.code := by
    rw [userWordSet_field_wordAt 4 16 (by decide) h4, userWordSet_field_wordAt 4 12 (by decide) h3,
      userWordSet_field_wordAt 4 8 (by decide) h2, (userWordSet_eq_ok h1).1]
  have harg0 : k'.vm.wordAt (dest + 8) = e.args[0] := by
    rw [userWordSet_field_wordAt 8 16 (by decide) h4, userWordSet_field_wordAt 8 12 (by decide) h3,
      (userWordSet_eq_ok h2).1]
  have harg1 : k'.vm.wordAt (dest + 12) = e.args[1] := by
    rw [userWordSet_field_wordAt 12 16 (by decide) h4, (userWordSet_eq_ok h3).1]
  have harg2 : k'.vm.wordAt (dest + 16) = e.args[2] := (userWordSet_eq_ok h4).1
  rw [← BitVec.add_zero dest] at h0
  -- The fields of the payload are behind those that are stored.
  have hpayload (off : Word) (hoff : off.toNat % 4 = 0 ∧ 20 ≤ off.toNat ∧ off.toNat < 28) :
      k'.vm.wordAt (dest + off) = k.vm.wordAt (dest + off) := by
    have hfield (off' : Word) (hoff' : off'.toNat % 4 = 0 ∧ off'.toNat < 20) :
        off.toNat % 4 = 0 ∧ off'.toNat % 4 = 0 ∧ off.toNat < 28 ∧ off'.toNat < 28 ∧
          off.toNat ≠ off'.toNat := by omega
    rw [userWordSet_field_wordAt off 16 (hfield 16 (by decide)) h4,
      userWordSet_field_wordAt off 12 (hfield 12 (by decide)) h3,
      userWordSet_field_wordAt off 8 (hfield 8 (by decide)) h2,
      userWordSet_field_wordAt off 4 (hfield 4 (by decide)) h1,
      userWordSet_field_wordAt off 0#32 (hfield 0#32 (by decide)) h0]
  have hargs : #v[e.args[0], e.args[1], e.args[2]] = e.args := by
    ext i hi
    obtain rfl | rfl | rfl : i = 0 ∨ i = 1 ∨ i = 2 := by omega
    · rfl
    · rfl
    · rfl
  simp only [Kernel.msgAt, Msg.receive, hport, IpcPort.ofRaw_raw, hcode, harg0, harg1, harg2,
    hpayload 20 (by decide), hpayload 24 (by decide), hargs]

/-- The kernel hands over a message by `Msg.receive`. -/
theorem messageRemove_msgAt {uid : ThreadUid} {dest : Word} {e : Envelope} (hdest : dest ≠ 0)
    (h : messageRemove uid dest k = .ok e k') : k'.msgAt dest = (k.msgAt dest).receive e := by
  simp only [messageRemove, get_bind_apply, bind_eq_ok, dassertSome, orThrow_eq_ok, onBlock_eq_ok,
    runIf_eq_ok, pure_eq_ok] at h
  obtain ⟨_, _, ⟨-, rfl⟩, source, _, ⟨b, -, rfl⟩, _, t, ⟨-, hstore⟩ | ⟨hzero, -⟩, _, _,
    ⟨b', -, rfl⟩, rfl, rfl⟩ := h
  · have hmsg := storeMsg_msgAt hstore
    exact hmsg
  · exact absurd hdest hzero

/-! ## The list of buffers -/

/-- The effect of a call on the list of buffers. Only an allocated buffer may be freed. -/
def HeapCall.apply (live : List Word) : HeapCall → Option (List Word)
  | .malloc ptr => some (if ptr = 0 then live else ptr :: live)
  | .free ptr => if ptr ∈ live then some (live.erase ptr) else none

/-- All buffers that have been allocated have been freed, each of them once, and nothing else. -/
def MsgLoop.FreedOnce (s : MsgLoop) : Prop := s.calls.foldlM HeapCall.apply [] = some []

instance : Decidable s.FreedOnce := inferInstanceAs (Decidable (_ = _))

/-- What a round asks of the heap. -/
def Round.heapCalls (r : Round) (req : Msg) : List HeapCall :=
  if r.peek.toInt < 0 then []
  else if r.peek = 0 then
    if r.bytes.toInt < 0 ∨ req.size = 0 then [] else [.free req.buf]
  else if r.bytes.toInt < 0 then [.malloc r.block]
  else [.malloc r.block, .free r.block]

theorem Round.received_payload {m : Msg} :
    (r.received m).buf = m.buf ∧ (r.received m).size = m.size := by
  rw [Round.received]
  split <;> exact ⟨rfl, rfl⟩

theorem MsgLoop.round_of_neg (hpeek : r.peek.toInt < 0) : s.round r = s := by
  simp [MsgLoop.round, msgGetWaiting, hpeek]

theorem peek_ne_zero (hpeek : r.peek.toInt ≠ 0) : r.peek ≠ 0 :=
  fun hzero => hpeek (hzero ▸ rfl)

theorem MsgLoop.round_of_zero (hpeek : r.peek = 0) :
    (s.round r).calls = s.calls ++ r.heapCalls s.req ∧ (s.round r).req.size = s.req.size := by
  obtain ⟨hbuf, hsize⟩ := Round.received_payload (r := r) (m := s.req)
  have hneg : ¬(0 : Word).toInt < 0 := by decide
  have hpos : ¬0 < (0 : Word).toInt := by decide
  have hres : (-1 : Word).toInt < 0 := by decide
  simp only [MsgLoop.round, msgGetWaiting, Round.heapCalls, hpeek, hneg, hpos, if_false, if_true]
  by_cases hbytes : r.bytes.toInt < 0
  · simp only [hbytes, hres, true_or, if_true, List.append_nil, hsize, and_self]
  · simp only [hbytes, false_or, if_false, hsize, hbuf]
    by_cases hzero : s.req.size = 0
    · simp only [hzero, ne_eq, not_true, if_false, if_true, List.append_nil, hsize, and_self]
    · simp only [hzero, ne_eq, not_false_eq_true, if_false, if_true, hsize, and_self]

theorem MsgLoop.round_of_pos (hpeek : 0 < r.peek.toInt) :
    (s.round r).calls = s.calls ++ r.heapCalls s.req := by
  obtain ⟨hbuf, hsize⟩ :=
    Round.received_payload (r := r) (m := msgAttachPayload s.req r.block r.peek)
  have hneg : ¬r.peek.toInt < 0 := by omega
  have hne := peek_ne_zero hpeek.ne'
  have hres : (-1 : Word).toInt < 0 := by decide
  simp only [MsgLoop.round, msgGetWaiting, Round.heapCalls, hpeek, hneg, hne, if_false, if_true]
  by_cases hbytes : r.bytes.toInt < 0
  · simp only [hbytes, hres, if_true]
  · rw [msgAttachPayload] at hsize hbuf
    simp only [hbytes, if_false, hsize, hbuf, msgAttachPayload, ne_eq, hne, not_false_eq_true,
      if_true, List.append_assoc, List.singleton_append]

/-! ## Runs -/

/-- Afterwards all buffers have been freed once, and a message without a payload has left none. -/
structure Round.Right (r : Round) (s' : MsgLoop) : Prop where
  freed : s'.FreedOnce
  empty : r.peek = 0 → 0 ≤ r.bytes.toInt → s'.req.size = 0

/-- A message without a payload meets no size in the `struct msg`, and a payload is received exactly
if there is memory for it. -/
structure Round.Harmless (r : Round) (req : Msg) : Prop where
  plain : r.peek = 0 → 0 ≤ r.bytes.toInt → req.size = 0
  payload : 0 < r.peek.toInt → (r.block ≠ 0 ↔ 0 ≤ r.bytes.toInt)

theorem MsgLoop.FreedOnce.append_iff {calls : List HeapCall} (hs : s.FreedOnce)
    (hcalls : s'.calls = s.calls ++ calls) :
    s'.FreedOnce ↔ calls.foldlM HeapCall.apply [] = some [] := by
  rw [MsgLoop.FreedOnce, hcalls, List.foldlM_append, hs]
  rfl

theorem malloc_free_iff {ptr : Word} :
    [HeapCall.malloc ptr, .free ptr].foldlM HeapCall.apply [] = some [] ↔ ptr ≠ 0 := by
  simp only [List.foldlM_cons, List.foldlM_nil, HeapCall.apply]
  split
  · next hzero => simp [hzero]
  · next hne => simpa using hne

theorem Round.right_iff (hs : s.FreedOnce) : r.Right (s.round r) ↔ r.Harmless s.req := by
  obtain hpeek | hpeek | hpeek := lt_trichotomy r.peek.toInt 0
  · have hne := peek_ne_zero hpeek.ne
    rw [MsgLoop.round_of_neg hpeek]
    exact ⟨fun _ => ⟨fun hzero => absurd hzero hne, fun hpos => absurd hpos (by omega)⟩,
      fun _ => ⟨hs, fun hzero => absurd hzero hne⟩⟩
  · have hzero : r.peek = 0 := BitVec.eq_of_toInt_eq hpeek
    obtain ⟨hcalls, hsize⟩ := MsgLoop.round_of_zero (s := s) hzero
    constructor
    · intro hright
      refine ⟨fun _ hbytes => ?_, fun hpos => absurd hpos (by omega)⟩
      rw [← hsize]
      exact hright.empty hzero hbytes
    · intro hharm
      refine ⟨(hs.append_iff hcalls).mpr ?_, fun _ hbytes => ?_⟩
      · have hidle : r.bytes.toInt < 0 ∨ s.req.size = 0 := by
          by_cases hbytes : r.bytes.toInt < 0
          · exact .inl hbytes
          · exact .inr (hharm.plain hzero (by omega))
        rw [Round.heapCalls, if_neg (by omega), if_pos hzero, if_pos hidle]
        rfl
      · rw [hsize]
        exact hharm.plain hzero hbytes
  · have hne := peek_ne_zero hpeek.ne'
    have hneg : ¬r.peek.toInt < 0 := by omega
    have hright : r.Right (s.round r) ↔ (s.round r).FreedOnce :=
      ⟨fun h => h.freed, fun h => ⟨h, fun hzero => absurd hzero hne⟩⟩
    have hharm : r.Harmless s.req ↔ (r.block ≠ 0 ↔ 0 ≤ r.bytes.toInt) :=
      ⟨fun h => h.payload hpeek, fun h => ⟨fun hzero => absurd hzero hne, fun _ => h⟩⟩
    rw [hright, hharm, hs.append_iff (MsgLoop.round_of_pos hpeek), Round.heapCalls, if_neg hneg,
      if_neg hne]
    -- The buffer stays behind, or it is freed at once.
    by_cases hbytes : r.bytes.toInt < 0
    · have hnonneg : ¬0 ≤ r.bytes.toInt := by omega
      by_cases hblock : r.block = 0 <;> simp [hbytes, hnonneg, hblock, HeapCall.apply]
    · have hnonneg : 0 ≤ r.bytes.toInt := by omega
      rw [if_neg hbytes, malloc_free_iff]
      exact ⟨fun h => iff_of_true h hnonneg, fun h => h.mpr hnonneg⟩

def MsgLoop.step (s : MsgLoop) (r : Round) : Option MsgLoop := some (s.round r)

/-- In a run of a server all buffers are freed once exactly if all its rounds are harmless. -/
theorem buffers_freed_once_iff (req : Msg) (rounds : List Round) (s : MsgLoop) :
    Steps MsgLoop.step (fun _ r s' => r.Right s') { req } rounds s ↔
      Steps MsgLoop.step (fun s r _ => r.Harmless s.req) { req } rounds s := by
  have hinit : ({ req } : MsgLoop).FreedOnce := rfl
  refine Steps.congr (I := MsgLoop.FreedOnce) (fun s r s' hs hstep => ?_)
    (fun _ _ _ _ _ hright => hright.freed) hinit
  obtain rfl := Option.some.inj hstep
  exact Round.right_iff hs

/-- A message with a payload of 16 bytes, then one without. -/
def payloadThenPlain : List Round :=
  [⟨16, 0x20000008, some ({ payload := true }, 16)⟩, ⟨0, 0, some ({}, 0)⟩]

/-- The buffer of the first message is freed again after the second. -/
theorem buffer_freed_twice : ∃ s, Steps MsgLoop.step (fun _ _ _ => True)
      { req := { dest := {}, code := 0, args := #v[0, 0, 0] } } payloadThenPlain s ∧
    s.calls = [.malloc 0x20000008, .free 0x20000008, .free 0x20000008] ∧ s.req.size = 16 ∧
    ¬s.FreedOnce :=
  ⟨_, .cons rfl trivial (.cons rfl trivial (.nil _)), by decide, by decide, by decide⟩

end Horizon
