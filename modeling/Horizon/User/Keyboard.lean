import Horizon.Util

/-!
# Horizon — the keyboard driver (`user/ps2kbd-i586`)

The keyboard sends scancodes: one byte for a key that is pressed, a prefix and that byte for one
that is released, and another prefix before either for the keys of the extended set, which the
driver leaves out. `ps2kbd_read` takes one byte after each interrupt and returns the key, zero if
there is
none. The main loop keeps the keys in a buffer until they are asked for.
-/

namespace Horizon

/-! ## Keys (`scancodes`) -/

def esc : BitVec 8 := 128
def lshf : BitVec 8 := 141
def lctl : BitVec 8 := 142
def lalt : BitVec 8 := 143
def rshf : BitVec 8 := 144
/-- The first of the keys that are switched on and off. -/
def capl : BitVec 8 := 147
def numl : BitVec 8 := 148
def scrl : BitVec 8 := 149

/-- `F1` to `F12`. -/
def functionKey (n : BitVec 8) : BitVec 8 := 128 + n

def isAscii (key : BitVec 8) : Bool := 0 < key && key < 128
def isChar (key : BitVec 8) : Bool := 32 < key && key < 128
def isLetter (key : BitVec 8) : Bool := 96 < key && key < 123

/-- The codes of the characters of a row of the map. -/
def ascii (c : Char) : BitVec 8 := BitVec.ofNat 8 c.toNat

/-- The map `scanmode2_qwerty`: the keys of the codes below 0x90, and behind them what they are with
the shift key. -/
def scanmode2Qwerty : List (BitVec 8) :=
  let f := functionKey
  let c := ascii
  [ 0, f 9, 0, f 5, f 3, f 1, f 2, f 12, 0, f 10, f 8, f 6, f 4, c '\t', 0x60, 0,
    0, lalt, lshf, 0, lctl, c 'q', c '1', 0, 0, 0, c 'z', c 's', c 'a', c 'w', c '2', 0,
    0, c 'c', c 'x', c 'd', c 'e', c '4', c '3', 0, 0, c ' ', c 'v', c 'f', c 't', c 'r', c '5', 0,
    0, c 'n', c 'b', c 'h', c 'g', c 'y', c '6', 0, 0, 0, c 'm', c 'j', c 'u', c '7', c '8', 0,
    0, c ',', c 'k', c 'i', c 'o', c '0', c '9', 0, 0, c '.', c '/', c 'l', c ';', c 'p', c '-', 0,
    0, 0, 0x27, 0, c '[', c '=', 0, 0, capl, rshf, c '\n', c ']', 0, 0x5C, 0, 0,
    0, 0, 0, 0, 0, 0, 0x08, 0, 0, c '1', 0, c '4', c '7', 0, 0, 0,
    c '0', c '.', c '2', c '5', c '6', c '8', esc, numl, f 11, c '+', c '3', c '-', c '*', c '9',
    scrl, 0,
    0, 0, 0, 0, 0, 0, 0, f 7, 0, 0, 0, 0, 0, 0, 0, 0,
    -- With the shift key.
    0, 0, 0, 0, 0, 0, 0, 0, 0, 0, 0, 0, 0, 0, c '~', 0,
    0, 0, 0, 0, 0, c 'Q', c '!', 0, 0, 0, c 'Z', c 'S', c 'A', c 'W', c '@', 0,
    0, c 'C', c 'X', c 'D', c 'E', c '$', c '#', 0, 0, c ' ', c 'V', c 'F', c 'T', c 'R', c '%', 0,
    0, c 'N', c 'B', c 'H', c 'G', c 'Y', c '^', 0, 0, 0, c 'M', c 'J', c 'U', c '&', c '*', 0,
    0, c '<', c 'K', c 'I', c 'O', c ')', c '(', 0, 0, c '>', c '?', c 'L', c ':', c 'P', c '_', 0,
    0, 0, 0x27, 0, 0x7B, c '+', 0, 0, 0, 0, c '\n', 0x7D, 0, c '|', 0, 0,
    0, 0, 0, 0, 0, 0, 0x08, 0, 0, c '1', 0, c '4', c '7', 0, 0, 0,
    c '0', c '.', c '2', c '5', c '6', c '8', 0, 0, 0, c '+', c '3', c '-', c '*', c '9', 0, 0,
    0, 0, 0, 0, 0, 0, 0, 0, 0, 0, 0, 0, 0, 0, 0, 0]

/-- `active_map`. -/
def activeMap (i : ℕ) : BitVec 8 := scanmode2Qwerty.getD i 0

/-! ## The decoder (`ps2kbd.c`) -/

inductive KbdState where
  | none
  | skip
  | release
  deriving DecidableEq, Repr

def ps2kbdPrefixExt : BitVec 8 := 0xE0
def ps2kbdPrefixExtspec : BitVec 8 := 0xE1
def ps2kbdPrefixRelease : BitVec 8 := 0xF0

structure Ps2Kbd where
  activeState : KbdState := .none
  keyStates : BitVec 8 → Bool := fun _ => false

/-- `key_states` after a key has been pressed. -/
def Ps2Kbd.press (kbd : Ps2Kbd) (key : BitVec 8) : BitVec 8 → Bool :=
  Function.update kbd.keyStates key (if key < capl then true else !kbd.keyStates key)

/-- `key_states` after a key has been released. -/
def Ps2Kbd.lift (kbd : Ps2Kbd) (key : BitVec 8) : BitVec 8 → Bool :=
  if key < capl then Function.update kbd.keyStates key false else kbd.keyStates

/-- Is the key to be taken from the second half of the map? -/
def upperCase (keyStates : BitVec 8 → Bool) (key : BitVec 8) : Bool :=
  (keyStates lshf || keyStates rshf) ^^ (keyStates capl && isLetter key)

/-- The key for a byte from the keyboard. -/
def ps2kbdRead (val : BitVec 8) (kbd : Ps2Kbd) : BitVec 8 × Ps2Kbd :=
  if kbd.activeState = .skip then (0, { kbd with activeState := .none })
  else if val = ps2kbdPrefixExt ∨ val = ps2kbdPrefixExtspec then
    (0, { kbd with activeState := .skip })
  else if val = ps2kbdPrefixRelease then (0, { kbd with activeState := .release })
  else
    let key := if val < 0x90 then activeMap val.toNat else 0
    if kbd.activeState = .release then
      (0, { activeState := .none, keyStates := kbd.lift key })
    else
      let keyStates := kbd.press key
      let upper := upperCase keyStates key && isChar key
      (if upper then activeMap (val.toNat + 0x90) else key, { kbd with keyStates })

/-! ## The buffer (`main.c`) -/

def bufferSize : ℕ := 16

structure KbdDriver where
  ps2 : Ps2Kbd := {}
  keyBuffer : ℕ → BitVec 8 := fun _ => 0
  bufferPos : ℕ := 0
  bufferCount : ℕ := 0

/-- Keep a key. A full buffer loses its oldest one. -/
def KbdDriver.push (d : KbdDriver) (key : BitVec 8) : KbdDriver :=
  { d with
    keyBuffer := Function.update d.keyBuffer d.bufferPos key
    bufferPos := (d.bufferPos + 1) % bufferSize
    bufferCount := if bufferSize ≤ d.bufferCount + 1 then bufferSize - 1 else d.bufferCount + 1 }

/-- The interrupt of the keyboard, with the byte that it is for. -/
def KbdDriver.irq (d : KbdDriver) (val : BitVec 8) : KbdDriver :=
  let (key, ps2) := ps2kbdRead val d.ps2
  let d := { d with ps2 }
  if isAscii key then d.push key else d

/-- The loop of a read request: what is stored in the buffer for the reply. -/
def KbdDriver.readLoop : ℕ → KbdDriver → List (BitVec 8) × KbdDriver
  | 0, d => ([], d)
  | count + 1, d =>
      if d.bufferCount = 0 then ([], d)
      else
        let pos := if d.bufferPos ≠ 0 then d.bufferPos - 1 else bufferSize - 1
        let (keys, d') :=
          readLoop count { d with bufferPos := pos, bufferCount := d.bufferCount - 1 }
        (d.keyBuffer pos :: keys, d')

/-- A message to the driver. -/
inductive KbdRequest where
  | irq (val : BitVec 8)
  | read (count : Word)
  /-- Any other code. -/
  | other
  deriving DecidableEq, Repr

/-- The payload of the reply; it is empty if the request is answered with -1 or not at all. -/
def KbdDriver.handle (d : KbdDriver) : KbdRequest → List (BitVec 8) × KbdDriver
  | .irq val => ([], d.irq val)
  | .read count => readLoop count.toNat d
  | .other => ([], d)

end Horizon
