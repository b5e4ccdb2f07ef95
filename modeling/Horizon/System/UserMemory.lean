import Horizon.System.Effects

/-!
# Horizon — what user memory holds

`Kernel.msgAt src` is the `struct msg` a process passes to `send`, read off the memory the
processor sees. The reads of `syscall_send` and `message_add` return its fields, and what
`message_remove` stores can be read back: the twenty bytes it writes have different page
offsets, so no two of them are the same byte of a frame.
-/

namespace Horizon

open StateError

/-- The byte at a virtual address, zero if it is not mapped. -/
def Vm.byteAt (vm : Vm) (addr : Word) : BitVec 8 :=
  match vm.translate vm.cr3 addr with
  | some phys => vm.ram phys
  | none => 0

def Vm.wordAt (vm : Vm) (addr : Word) : Word :=
  vm.byteAt (addr + 3) ++ vm.byteAt (addr + 2) ++ vm.byteAt (addr + 1) ++ vm.byteAt addr

/-- The message at `src`. -/
def Kernel.msgAt (k : Kernel) (src : Word) : Msg where
  dest := IpcPort.ofRaw (k.vm.wordAt src)
  code := k.vm.wordAt (src + 4)
  args := #v[k.vm.wordAt (src + 8), k.vm.wordAt (src + 12), k.vm.wordAt (src + 16)]
  buf := k.vm.wordAt (src + 20)
  size := k.vm.wordAt (src + 24)

variable {k k' : Kernel} {addr : Word}

/-! ## Reading -/

/-- Only the log of accesses differs. -/
structure Reads (k k' : Kernel) : Prop where
  eq : k' = { k with touched := k'.touched }

instance : Std.Refl Reads where
  refl _ := ⟨rfl⟩

instance : IsTrans Kernel Reads where
  trans _ _ _ h₁ h₂ := ⟨by
    have h := h₂.eq
    rw [h₁.eq] at h
    exact h⟩

theorem Does.reads {α : Type} {S : List Effect} {x : KernelM α}
    [hS : Within S [.log, .fault]] (h : Does S x) : Ensures Reads x := by
  refine h.ensures fun e he k k' hc => ?_
  have he := hS.mem e he
  cases hc with
  | log => exact ⟨rfl⟩
  | _ => exact absurd he (by decide)

theorem Reads.vm (h : Reads k k') : k'.vm = k.vm := by
  rw [h.eq]

theorem userByte_eq_ok {byte : BitVec 8} (h : userByte addr k = .ok byte k') :
    byte = k.vm.byteAt addr := by
  simp only [userByte, touch, modify_bind_apply, get_bind_apply, bind_eq_ok, orThrow_eq_ok,
    pure_eq_ok] at h
  obtain ⟨phys, _, ⟨hphys, rfl⟩, rfl, rfl⟩ := h
  rw [Vm.byteAt, hphys]

theorem userWord_eq_ok {w : Word} (h : userWord addr k = .ok w k') : w = k.vm.wordAt addr := by
  simp only [userWord, bind_eq_ok, pure_eq_ok] at h
  obtain ⟨b0, k₁, h0, b1, k₂, h1, b2, k₃, h2, b3, k₄, h3, rfl, rfl⟩ := h
  have hvm₁ := ((userByte_does _).reads.ok h0).vm
  have hvm₂ := ((userByte_does _).reads.ok h1).vm
  have hvm₃ := ((userByte_does _).reads.ok h2).vm
  rw [userByte_eq_ok h0, userByte_eq_ok h1, userByte_eq_ok h2, userByte_eq_ok h3, hvm₃, hvm₂, hvm₁,
    Vm.wordAt]

theorem fetchMsg_eq_ok {src buf : Word} {dest : IpcPort} {msg : Msg}
    (h : fetchMsg src dest buf k = .ok msg k') : msg = { k.msgAt src with dest, buf } := by
  simp only [fetchMsg, bind_eq_ok, pure_eq_ok, dassert_eq_ok] at h
  obtain ⟨_, _, ⟨-, rfl⟩, w1, k₁, h1, w2, k₂, h2, w3, k₃, h3, w4, k₄, h4, w5, k₅, h5, rfl, rfl⟩ := h
  have hvm₁ := ((userWord_does _).reads.ok h1).vm
  have hvm₂ := ((userWord_does _).reads.ok h2).vm
  have hvm₃ := ((userWord_does _).reads.ok h3).vm
  have hvm₄ := ((userWord_does _).reads.ok h4).vm
  rw [userWord_eq_ok h1, userWord_eq_ok h2, userWord_eq_ok h3, userWord_eq_ok h4,
    userWord_eq_ok h5, hvm₄, hvm₃, hvm₂, hvm₁, Kernel.msgAt]

/-! ## Reading back a stored message -/

theorem IpcPort.getLsbD_raw (port : IpcPort) (i : Nat) : port.raw.getLsbD i =
      if i < 10 then port.pid.getLsbD i
      else if i < 18 then port.pvn.getLsbD (i - 10)
      else if i < 24 then port.tid.getLsbD (i - 18)
      else port.tvn.getLsbD (i - 24) := by
  show BitVec.getLsbD (w := 8 + 6 + 8 + 10) (port.tvn ++ port.tid ++ port.pvn ++ port.pid) i = _
  simp only [BitVec.getLsbD_append]
  grind

theorem IpcPort.ofRaw_raw (port : IpcPort) : IpcPort.ofRaw port.raw = port := by
  obtain ⟨pid, pvn, tid, tvn⟩ := port
  rw [IpcPort.ofRaw, IpcPort.mk.injEq]
  refine ⟨?_, ?_, ?_, ?_⟩ <;> ext i hi <;> simp [IpcPort.getLsbD_raw, hi]
  all_goals grind

/-- `vm'` is `vm` with one byte stored at a virtual address. -/
def Vm.Stores (vm : Vm) (addr : Word) (byte : BitVec 8) (vm' : Vm) : Prop :=
  ∃ phys, vm.translate vm.cr3 addr = some phys ∧
    vm' = { vm with ram := Function.update vm.ram phys byte }

namespace Vm.Stores

variable {vm vm' : Vm} {addr other : Word} {byte : BitVec 8}

theorem translate (h : vm.Stores addr byte vm') (other : Word) :
    vm'.translate vm'.cr3 other = vm.translate vm.cr3 other := by
  obtain ⟨phys, -, rfl⟩ := h
  rfl

theorem mapped (h : vm.Stores addr byte vm') : (vm'.translate vm'.cr3 addr).isSome := by
  obtain ⟨phys, hphys, -⟩ := id h
  rw [h.translate, hphys]
  rfl

theorem byteAt_self (h : vm.Stores addr byte vm') : vm'.byteAt addr = byte := by
  have htrans := h.translate addr
  obtain ⟨phys, hphys, rfl⟩ := h
  rw [Vm.byteAt, htrans, hphys]
  exact Function.update_self ..

theorem byteAt_other (h : vm.Stores addr byte vm')
    (hne : other.setWidth 12 ≠ addr.setWidth 12) : vm'.byteAt other = vm.byteAt other := by
  have htrans := h.translate other
  obtain ⟨phys, hphys, rfl⟩ := h
  rw [Vm.byteAt, htrans, Vm.byteAt]
  cases hother : vm.translate vm.cr3 other with
  | none => rfl
  | some phys' =>
    simp only [Vm.translate, Option.map_eq_some_iff] at hother hphys
    obtain ⟨frame, -, rfl⟩ := hphys
    obtain ⟨frame', -, rfl⟩ := hother
    refine Function.update_of_ne (fun heq => hne ?_) _ _
    have hlow : ∀ (f : Frame) (a : BitVec 12),
        (show Word from f ++ a).setWidth 12 = a := fun f a => BitVec.setWidth_append_eq_right
    rw [← hlow frame (addr.setWidth 12), ← hlow frame' (other.setWidth 12)]
    exact congrArg (BitVec.setWidth 12) heq

end Vm.Stores

theorem userByteSet_eq_ok {byte : BitVec 8} (h : userByteSet addr byte k = .ok () k') :
    k.vm.Stores addr byte k'.vm := by
  simp only [userByteSet, touch, modify_bind_apply, get_bind_apply, bind_eq_ok, orThrow_eq_ok,
    failIf_eq_ok, modify_eq_ok] at h
  obtain ⟨_, _, ⟨-, rfl⟩, phys, _, ⟨hphys, rfl⟩, rfl⟩ := h
  exact ⟨phys, hphys, rfl⟩

theorem setWidth_add_ne {addr a b : Word} (h : a.setWidth 12 ≠ b.setWidth 12) :
    (addr + a).setWidth 12 ≠ (addr + b).setWidth 12 := by
  rw [BitVec.setWidth_add _ _ (by decide), BitVec.setWidth_add _ _ (by decide)]
  exact fun heq => h ((BitVec.add_right_inj _).mp heq)

/-- The four bytes of a word are mapped and hold `val`. -/
def Vm.Holds (vm : Vm) (addr val : Word) : Prop :=
  vm.wordAt addr = val ∧ (vm.translate vm.cr3 addr).isSome ∧
    (vm.translate vm.cr3 (addr + 1)).isSome ∧ (vm.translate vm.cr3 (addr + 2)).isSome ∧
    (vm.translate vm.cr3 (addr + 3)).isSome

theorem Vm.Holds.store {vm vm' : Vm} {other val : Word} {byte : BitVec 8} (h : vm.Holds addr val)
    (hs : vm.Stores other byte vm') (h0 : addr.setWidth 12 ≠ other.setWidth 12)
    (h1 : (addr + 1).setWidth 12 ≠ other.setWidth 12)
    (h2 : (addr + 2).setWidth 12 ≠ other.setWidth 12)
    (h3 : (addr + 3).setWidth 12 ≠ other.setWidth 12) : vm'.Holds addr val := by
  obtain ⟨hval, hm0, hm1, hm2, hm3⟩ := h
  refine ⟨?_, ?_, ?_, ?_, ?_⟩
  · rw [Vm.wordAt, hs.byteAt_other h0, hs.byteAt_other h1, hs.byteAt_other h2, hs.byteAt_other h3]
    exact hval
  all_goals rw [hs.translate]; assumption

theorem userWordSet_eq_ok {val : Word} (h : userWordSet addr val k = .ok () k') :
    k'.vm.Holds addr val := by
  simp only [userWordSet, bind_eq_ok] at h
  obtain ⟨_, k₀, h0, _, k₁, h1, _, k₂, h2, h3⟩ := h
  have s0 := userByteSet_eq_ok h0
  have s1 := userByteSet_eq_ok h1
  have s2 := userByteSet_eq_ok h2
  have s3 := userByteSet_eq_ok h3
  have hne : ∀ a b : Word, a.setWidth 12 ≠ b.setWidth 12 →
      (addr + a).setWidth 12 ≠ (addr + b).setWidth 12 := fun a b => setWidth_add_ne
  have hz : ∀ b : Word, (0#32).setWidth 12 ≠ b.setWidth 12 →
      addr.setWidth 12 ≠ (addr + b).setWidth 12 := fun b hb => by
    have := hne 0#32 b hb
    rwa [BitVec.add_zero] at this
  refine ⟨?_, ?_, ?_, ?_, s3.mapped⟩
  · have hb0 : k'.vm.byteAt addr = val.setWidth 8 := by
      rw [s3.byteAt_other (hz 3 (by decide)), s2.byteAt_other (hz 2 (by decide)),
        s1.byteAt_other (hz 1 (by decide)), s0.byteAt_self]
    have hb1 : k'.vm.byteAt (addr + 1) = (val >>> 8).setWidth 8 := by
      rw [s3.byteAt_other (hne 1 3 (by decide)), s2.byteAt_other (hne 1 2 (by decide)),
        s1.byteAt_self]
    have hb2 : k'.vm.byteAt (addr + 2) = (val >>> 16).setWidth 8 := by
      rw [s3.byteAt_other (hne 2 3 (by decide)), s2.byteAt_self]
    rw [Vm.wordAt, s3.byteAt_self, hb2, hb1, hb0]
    exact word_of_bytes val
  · rw [s3.translate, s2.translate, s1.translate]
    exact s0.mapped
  · rw [s3.translate, s2.translate]
    exact s1.mapped
  · rw [s3.translate]
    exact s2.mapped

/-- Storing another word of the same structure does not disturb a word. -/
theorem userWordSet_keeps {base offset val val' : Word}
    (h : userWordSet (base + offset) val' k = .ok () k') (hholds : k.vm.Holds base val)
    (hlow : 4 ≤ offset.toNat) (hhigh : offset.toNat ≤ 4092) : k'.vm.Holds base val := by
  simp only [userWordSet, bind_eq_ok] at h
  obtain ⟨_, k₀, h0, _, k₁, h1, _, k₂, h2, h3⟩ := h
  have hoff : ∀ a b : Word, a.toNat < 4 → b.toNat < 4 →
      (base + a).setWidth 12 ≠ (base + offset + b).setWidth 12 := by
    intro a b ha hb
    rw [BitVec.add_assoc]
    refine setWidth_add_ne fun heq => ?_
    have hnat := congrArg BitVec.toNat heq
    simp only [BitVec.toNat_setWidth, BitVec.toNat_add] at hnat
    omega
  have hstore : ∀ b : Word, b.toNat < 4 → ∀ (vm vm' : Vm) (byte : BitVec 8), vm.Holds base val →
      vm.Stores (base + offset + b) byte vm' → vm'.Holds base val := by
    intro b hb vm vm' byte hvm hs
    have hz := hoff 0#32 b (by decide) hb
    rw [BitVec.add_zero] at hz
    exact hvm.store hs hz (hoff 1 b (by decide) hb) (hoff 2 b (by decide) hb)
      (hoff 3 b (by decide) hb)
  have s0 := userByteSet_eq_ok h0
  rw [← BitVec.add_zero (base + offset)] at s0
  have hk₀ := hstore 0#32 (by decide) _ _ _ hholds s0
  have hk₁ := hstore 1 (by decide) _ _ _ hk₀ (userByteSet_eq_ok h1)
  have hk₂ := hstore 2 (by decide) _ _ _ hk₁ (userByteSet_eq_ok h2)
  exact hstore 3 (by decide) _ _ _ hk₂ (userByteSet_eq_ok h3)

theorem storeMsg_eq_ok {dest : Word} {e : Envelope} (h : storeMsg dest e k = .ok () k') :
    k'.vm.Holds dest e.sender.raw := by
  simp only [storeMsg, bind_eq_ok] at h
  obtain ⟨_, k₀, h0, _, k₁, h1, _, k₂, h2, _, k₃, h3, h4⟩ := h
  have hk₀ := userWordSet_eq_ok h0
  have hk₁ := userWordSet_keeps h1 hk₀ (by decide) (by decide)
  have hk₂ := userWordSet_keeps h2 hk₁ (by decide) (by decide)
  have hk₃ := userWordSet_keeps h3 hk₂ (by decide) (by decide)
  exact userWordSet_keeps h4 hk₃ (by decide) (by decide)

theorem userByte_of_mapped (h : (k.vm.translate k.vm.cr3 addr).isSome) :
    ∃ k', userByte addr k = .ok (k.vm.byteAt addr) k' ∧ k'.vm = k.vm := by
  obtain ⟨phys, hphys⟩ := Option.isSome_iff_exists.mp h
  refine ⟨{ k with touched := k.touched ++ [{ kind := .read, addr }] }, ?_, rfl⟩
  simp only [userByte, touch, bind_apply, modify_apply, get_apply, hphys, orThrow, pure_apply,
    Vm.byteAt]

theorem Vm.Holds.userWord {val : Word} (h : k.vm.Holds addr val) :
    ∃ k', userWord addr k = .ok val k' := by
  obtain ⟨hval, hm0, hm1, hm2, hm3⟩ := h
  obtain ⟨k₀, h0, hvm₀⟩ := userByte_of_mapped hm0
  rw [← hvm₀] at hm1 hm2 hm3
  obtain ⟨k₁, h1, hvm₁⟩ := userByte_of_mapped hm1
  rw [← hvm₁] at hm2 hm3
  obtain ⟨k₂, h2, hvm₂⟩ := userByte_of_mapped hm2
  rw [← hvm₂] at hm3
  obtain ⟨k₃, h3, -⟩ := userByte_of_mapped hm3
  refine ⟨k₃, ?_⟩
  simp only [Horizon.userWord, bind_apply, h0, h1, h2, h3, pure_apply, hvm₂, hvm₁, hvm₀]
  rw [← hval]
  rfl

end Horizon
