import Horizon.User.Keyboard

/-!
# Horizon — sequences of scancodes

The codes of the keyboard come in sequences of one to three bytes (`ScanSequence`). The decoder
skips one byte after the prefix of the extended set. That is all of such a sequence if the key is
pressed. If it is released, the byte skipped is the second prefix, and the code behind it is taken
for a key of the ordinary set that is pressed.
-/

namespace Horizon

/-! ## Streams -/

/-- A complete sequence for one key. -/
structure ScanSequence where
  extended : Bool := false
  release : Bool := false
  code : Fin 0x90
  deriving DecidableEq, Repr

namespace ScanSequence

def last (e : ScanSequence) : BitVec 8 := BitVec.ofNat 8 e.code

def bytes (e : ScanSequence) : List (BitVec 8) :=
  (if e.extended then [ps2kbdPrefixExt] else []) ++
    (if e.release then [ps2kbdPrefixRelease] else []) ++ [e.last]

/-- The key of an ordinary code. -/
def key (e : ScanSequence) : BitVec 8 := activeMap e.code

end ScanSequence

/-- Read some bytes: what `ps2kbd_read` returns for each of them. -/
def readBytes : List (BitVec 8) → Ps2Kbd → List (BitVec 8) × Ps2Kbd
  | [], kbd => ([], kbd)
  | val :: rest, kbd =>
      let (key, kbd) := ps2kbdRead val kbd
      let (keys, kbd) := readBytes rest kbd
      (key :: keys, kbd)

/-- The state after some sequences. -/
def readSequences (es : List ScanSequence) : Ps2Kbd :=
  (readBytes (es.flatMap ScanSequence.bytes) {}).2

/-- Is a key down after some sequences, those of the extended set left out? -/
def isDown (es : List ScanSequence) (k : BitVec 8) : Bool :=
  es.foldl (fun down e => if e.extended = false ∧ e.key = k then !e.release else down) false

/-- What reading a sequence does to the state before it, after the sequences `es`. -/
structure SequenceRead (es : List ScanSequence) (e : ScanSequence) : Prop where
  silent : e.extended = true → ∀ key ∈ (readBytes e.bytes (readSequences es)).1, key = 0
  kept : e.extended = true →
    (readSequences (es ++ [e])).keyStates = (readSequences es).keyStates
  complete : (readSequences (es ++ [e])).activeState = .none
  states : ∀ k, k < capl → ((readSequences (es ++ [e])).keyStates k = true ↔
    isDown (es ++ [e]) k = true)

/-- A property of every element of a list and of what comes before it. -/
def Throughout {α : Type} (P : List α → α → Prop) (l : List α) : Prop :=
  ∀ before x after, l = before ++ x :: after → P before x

/-- All sequences of a stream are read so. -/
def StreamRead : List ScanSequence → Prop := Throughout SequenceRead

/-- The extended releases are those of codes that no key has, while such a code counts as down. -/
def ReleasesHarmless : List ScanSequence → Prop := Throughout fun before e =>
  e.extended = true → e.release = true → e.key = 0 ∧ isDown before 0 = true

/-! ## One sequence -/

variable {kbd : Ps2Kbd} {e : ScanSequence} {es : List ScanSequence} {k : BitVec 8}

theorem toNat_last : e.last.toNat = e.code := by
  rw [ScanSequence.last, BitVec.toNat_ofNat, Nat.mod_eq_of_lt (e.code.isLt.trans (by decide))]

theorem last_lt : e.last < 0x90 := by
  rw [BitVec.lt_def, toNat_last]
  exact e.code.isLt

/-- The last byte of a sequence is not taken for a prefix. -/
theorem last_not_special : ¬(e.last = ps2kbdPrefixExt ∨ e.last = ps2kbdPrefixExtspec) ∧
    e.last ≠ ps2kbdPrefixRelease := by
  have hlt : e.last < 0x90 := last_lt
  refine ⟨?_, fun h => absurd (h ▸ hlt) (by decide)⟩
  rintro (h | h)
  · exact absurd (h ▸ hlt) (by decide)
  · exact absurd (h ▸ hlt) (by decide)

/-- The key returned for a code that is taken for a key that is pressed. -/
def Ps2Kbd.typed (kbd : Ps2Kbd) (e : ScanSequence) : BitVec 8 :=
  if upperCase (kbd.press e.key) e.key && isChar e.key then activeMap (e.code + 0x90) else e.key

theorem read_pressed (h : kbd.activeState = .none) :
    ps2kbdRead e.last kbd = (kbd.typed e, { kbd with keyStates := kbd.press e.key }) := by
  rw [ps2kbdRead, if_neg (by rw [h]; decide), if_neg last_not_special.1,
    if_neg last_not_special.2, if_pos last_lt, toNat_last, if_neg (by rw [h]; decide)]
  rfl

theorem read_released (h : kbd.activeState = .release) :
    ps2kbdRead e.last kbd = (0, { activeState := .none, keyStates := kbd.lift e.key }) := by
  rw [ps2kbdRead, if_neg (by rw [h]; decide), if_neg last_not_special.1,
    if_neg last_not_special.2, if_pos last_lt, toNat_last, if_pos h]
  rfl

/-- What becomes of a whole sequence. The release of an extended key is read as a key pressed. -/
theorem readBytes_sequence (h : kbd.activeState = .none) : readBytes e.bytes kbd =
    match e.extended, e.release with
    | false, false => ([kbd.typed e], { kbd with keyStates := kbd.press e.key })
    | false, true => ([0, 0], { kbd with keyStates := kbd.lift e.key })
    | true, false => ([0, 0], kbd)
    | true, true => ([0, 0, kbd.typed e], { kbd with keyStates := kbd.press e.key }) := by
  obtain ⟨state, states⟩ := kbd
  obtain rfl : state = .none := h
  have hskip (val : BitVec 8) : ps2kbdRead val ⟨.skip, states⟩ = (0, ⟨.none, states⟩) := rfl
  have hext : ps2kbdRead ps2kbdPrefixExt ⟨.none, states⟩ = (0, ⟨.skip, states⟩) := rfl
  have hrel : ps2kbdRead ps2kbdPrefixRelease ⟨.none, states⟩ = (0, ⟨.release, states⟩) := rfl
  have hpressed : ps2kbdRead e.last ⟨.none, states⟩ = _ := read_pressed rfl
  have hreleased : ps2kbdRead e.last ⟨.release, states⟩ = _ := read_released rfl
  cases hextended : e.extended with
  | false =>
    cases hrelease : e.release with
    | false => simp [ScanSequence.bytes, hextended, hrelease, readBytes, hpressed]
    | true =>
      simp [ScanSequence.bytes, hextended, hrelease, readBytes, hrel, hreleased]
      rfl
  | true =>
    cases hrelease : e.release with
    | false => simp [ScanSequence.bytes, hextended, hrelease, readBytes, hext, hskip]
    | true => simp [ScanSequence.bytes, hextended, hrelease, readBytes, hext, hskip, hpressed]

/-! ## Sequences after one another -/

theorem readBytes_append (xs ys : List (BitVec 8)) (kbd : Ps2Kbd) :
    (readBytes (xs ++ ys) kbd).2 = (readBytes ys (readBytes xs kbd).2).2 := by
  induction xs generalizing kbd with
  | nil => rfl
  | cons val xs ih => exact ih _

theorem readSequences_append (es : List ScanSequence) (e : ScanSequence) :
    readSequences (es ++ [e]) = (readBytes e.bytes (readSequences es)).2 := by
  rw [readSequences, List.flatMap_append, readBytes_append, List.flatMap_singleton]
  rfl

theorem isDown_append : isDown (es ++ [e]) k =
    if e.extended = false ∧ e.key = k then !e.release else isDown es k := by
  rw [isDown, List.foldl_append]
  rfl

theorem throughout_append {α : Type} {P : List α → α → Prop} {l : List α} {x : α} :
    Throughout P (l ++ [x]) ↔ Throughout P l ∧ P l x := by
  constructor
  · refine fun h => ⟨fun before y after hl => h before y (after ++ [x]) ?_, h l x [] rfl⟩
    rw [hl, List.append_assoc, List.cons_append]
  · rintro ⟨hl, hx⟩ before y after heq
    cases after using List.reverseRecOn with
    | nil =>
      obtain ⟨rfl, hxy⟩ := List.append_inj' heq rfl
      obtain rfl : x = y := (List.cons.inj hxy).1
      exact hx
    | append_singleton after z =>
      rw [← List.cons_append, ← List.append_assoc] at heq
      exact hl before y after (List.append_inj' heq rfl).1

/-- The state after a stream that has been read. -/
structure Decoded (es : List ScanSequence) : Prop where
  complete : (readSequences es).activeState = .none
  states : ∀ k, k < capl → ((readSequences es).keyStates k = true ↔ isDown es k = true)

theorem StreamRead.decoded (h : StreamRead es) : Decoded es := by
  cases es using List.reverseRecOn with
  | nil => exact ⟨rfl, fun _ _ => Iff.rfl⟩
  | append_singleton es e =>
    have hlast := (throughout_append.mp h).2
    exact ⟨hlast.complete, hlast.states⟩

namespace Decoded

theorem pressed (h : Decoded es) (hk : k < capl) :
    (readSequences es).press e.key k = true ↔ (if e.key = k then true else isDown es k) = true := by
  rw [Ps2Kbd.press]
  by_cases hkey : e.key = k
  · subst hkey
    rw [Function.update_self, if_pos hk, if_pos rfl]
  · rw [Function.update_of_ne (Ne.symm hkey), if_neg hkey, h.states k hk]

theorem lifted (h : Decoded es) (hk : k < capl) :
    (readSequences es).lift e.key k = true ↔ (if e.key = k then false else isDown es k) = true := by
  rw [Ps2Kbd.lift]
  by_cases hkey : e.key = k
  · subst hkey
    rw [if_pos hk, Function.update_self, if_pos rfl]
  · rw [if_neg hkey, ← h.states k hk]
    split
    · rw [Function.update_of_ne (Ne.symm hkey)]
    · rfl

end Decoded

/-- A key that has a character has one with the shift key, too. -/
theorem shifted_ne_zero : ∀ code : Fin 0x90, isChar (activeMap code) = true →
    activeMap (code + 0x90) ≠ 0 := by
  decide +kernel

theorem typed_eq_zero : kbd.typed e = 0 ↔ e.key = 0 := by
  rw [Ps2Kbd.typed]
  constructor
  · intro h
    split at h
    · next hupper => exact absurd h (shifted_ne_zero e.code (Bool.and_eq_true_iff.mp hupper).2)
    · exact h
  · intro h
    rw [h, if_neg (by rw [show isChar 0 = false from rfl, Bool.and_false]; decide)]

/-- Only a key that counts as pressed can be pressed without an effect. -/
theorem press_eq_self : kbd.press k = kbd.keyStates ↔ k < capl ∧ kbd.keyStates k = true := by
  rw [Ps2Kbd.press, Function.update_eq_self_iff]
  by_cases hk : k < capl
  · rw [if_pos hk, and_iff_right hk, eq_comm]
  · rw [if_neg hk]
    exact iff_of_false (Bool.not_ne_self _) fun h => hk h.1

theorem Decoded.ordinary (h : Decoded es) (hext : e.extended = false) : SequenceRead es e := by
  have hnot {P : Prop} : e.extended = true → P := fun habs =>
    absurd (hext.symm.trans habs) (by decide)
  have hstate := readSequences_append es e
  rw [readBytes_sequence h.complete, hext] at hstate
  cases hrel : e.release with
  | false =>
    rw [hrel] at hstate
    refine ⟨hnot, hnot, by rw [hstate]; exact h.complete, fun k hk => ?_⟩
    rw [hstate, isDown_append, hrel]
    simpa [hext] using h.pressed hk
  | true =>
    rw [hrel] at hstate
    refine ⟨hnot, hnot, by rw [hstate]; exact h.complete, fun k hk => ?_⟩
    rw [hstate, isDown_append, hrel]
    simpa [hext] using h.lifted hk

section Extended

variable (h : Decoded es) (hext : e.extended = true)
include hext

theorem isDown_extended (k : BitVec 8) : isDown (es ++ [e]) k = isDown es k := by
  rw [isDown_append, if_neg fun hand => absurd (hext.symm.trans hand.1) (by decide)]

include h

/-- An extended sequence that changes nothing and returns nothing is read as it should be. -/
theorem Decoded.unseen (hkeys : ∀ key ∈ (readBytes e.bytes (readSequences es)).1, key = 0)
    (hstate : readSequences (es ++ [e]) = readSequences es) : SequenceRead es e := by
  refine ⟨fun _ => hkeys, fun _ => by rw [hstate], by rw [hstate]; exact h.complete, fun k hk => ?_⟩
  rw [hstate, isDown_extended hext]
  exact h.states k hk

theorem Decoded.extended_make (hrel : e.release = false) : SequenceRead es e := by
  have hread := readBytes_sequence (e := e) h.complete
  rw [hext, hrel] at hread
  refine h.unseen hext (fun key hkey => ?_) ?_
  · rw [hread] at hkey
    simpa using hkey
  · rw [readSequences_append, hread]

theorem Decoded.extended_release_iff (hrel : e.release = true) :
    SequenceRead es e ↔ e.key = 0 ∧ isDown es 0 = true := by
  have hread := readBytes_sequence (e := e) h.complete
  have hstate := readSequences_append es e
  rw [hread, hext, hrel] at hstate
  rw [hext, hrel] at hread
  constructor
  · intro hseq
    have htyped := hseq.silent hext ((readSequences es).typed e) (by rw [hread]; simp)
    have hkept := hseq.kept hext
    rw [hstate] at hkept
    have hpressed := (press_eq_self.mp hkept).2
    rw [typed_eq_zero.mp htyped] at hpressed
    exact ⟨typed_eq_zero.mp htyped, (h.states 0 (by decide)).mp hpressed⟩
  · rintro ⟨hkey, hzero⟩
    have hdown := (h.states 0 (by decide)).mpr hzero
    rw [← hkey] at hdown
    have hsame := press_eq_self.mpr ⟨by rw [hkey]; decide, hdown⟩
    rw [hsame] at hstate
    refine h.unseen hext (fun key hmem => ?_) hstate
    rw [hread, typed_eq_zero.mpr hkey] at hmem
    simpa using hmem

end Extended

/-- A sequence is read as it should be, unless it is the release of an extended key whose code has
an effect as that of a key pressed. -/
theorem Decoded.sequenceRead_iff (h : Decoded es) : SequenceRead es e ↔
    (e.extended = true → e.release = true → e.key = 0 ∧ isDown es 0 = true) := by
  cases hext : e.extended with
  | false => exact iff_of_true (h.ordinary hext) nofun
  | true =>
    cases hrel : e.release with
    | false => exact iff_of_true (h.extended_make hext hrel) nofun
    | true =>
      rw [h.extended_release_iff hext hrel]
      exact ⟨fun hkey _ _ => hkey, fun hkey => hkey rfl rfl⟩

/-- A stream of scancodes is decoded as it should be exactly if the releases of extended keys in it
are harmless. -/
theorem streamRead_iff (es : List ScanSequence) : StreamRead es ↔ ReleasesHarmless es := by
  induction es using List.reverseRecOn with
  | nil => exact iff_of_true (fun _ _ _ h => absurd h (by simp)) fun _ _ _ h => absurd h (by simp)
  | append_singleton es e ih =>
    rw [StreamRead, ReleasesHarmless, throughout_append, throughout_append, ← ReleasesHarmless,
      ← StreamRead, ← ih]
    exact and_congr_right fun hread => hread.decoded.sequenceRead_iff

/-- The cursor key up, pressed and released: an 8 is typed, and stays down. -/
theorem cursor_key_types :
    let up : ScanSequence := { extended := true, code := 0x75 }
    let upReleased : ScanSequence := { extended := true, release := true, code := 0x75 }
    (readBytes upReleased.bytes (readSequences [up])).1 = [0, 0, ascii '8'] ∧
    (readSequences [up]).keyStates (ascii '8') = false ∧
    (readSequences [up, upReleased]).keyStates (ascii '8') = true ∧
    ¬StreamRead [up, upReleased] := by
  refine ⟨by decide +kernel, by decide +kernel, by decide +kernel, fun h => ?_⟩
  have hkeys := (h [_] _ [] rfl).silent rfl (ascii '8') (by decide +kernel)
  exact absurd hkeys (by decide)

end Horizon
