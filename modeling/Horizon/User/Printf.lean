import Horizon.User.Vfsd

/-!
# Horizon — formatted output (`lib/libh/src/stdio/vprintf.c`)

A string is the list of its characters, without the NUL. `string` gives the one at an address, and
`args` the words on the stack from which `va_arg` takes its arguments. What counts of a call is the
characters that it passes to `putchar`, and its return value.

A number is written to the end of `buf`, backwards, so the text from `putn` to the NUL in `buf[31]`
grows at its front. There is room for 31 characters.
-/

namespace Horizon.Libh

instance : Coe Char Byte := ⟨fun c => BitVec.ofNat 8 c.toNat⟩

/-! ## `ctype.h` -/

-- `char` is signed.
def isdigit (c : Byte) : Bool := c.signExtend 32 - 48 < 10

def isalpha (c : Byte) : Bool := (c.signExtend 32 ||| 0x20) - 97 < 26

/-! ## Digits -/

/-- The loop of `FMT` with the number of characters that are free in front of `s`; `none` for a
write below `buf[0]`. -/
def fmtLoop (digit : Word → Byte) (next : Word → Word) :
    ℕ → Word → List Byte → Option (List Byte)
  | 0, x, s => if x = 0 then some s else none
  | free + 1, x, s => if x = 0 then some s else fmtLoop digit next free (next x) (digit x :: s)

/-- `FMT`, from `putend`. -/
def fmt (digit : Word → Byte) (next : Word → Word) (x : Word) : Option (List Byte) :=
  (fmtLoop digit next 31 x []).map fun s => if s = [] then ['0'] else s

def xdigits : List Byte := "0123456789ABCDEF".toList.map (↑)

def fmtX (x : Word) (lower : Byte) : Option (List Byte) :=
  fmt (fun x => xdigits.getD (x &&& 0xF).toNat 0 ||| (lower &&& 0x20)) (· >>> 4) x

def fmtO (o : Word) : Option (List Byte) := fmt (fun o => '0' + (o &&& 0x7).setWidth 8) (· >>> 3) o

def fmtU (u : Word) : Option (List Byte) := fmt (fun u => '0' + (u % 10).setWidth 8) (· / 10) u

/-- `*--putn = c` -/
def push (c : Byte) (putn : List Byte) : Option (List Byte) :=
  if putn.length < 31 then some (c :: putn) else none

/-- One more digit in front, for `n` and `i` of `get_n`. -/
def addDigit (c : Byte) (acc : Word × Word) : Word × Word :=
  (acc.1 + (c.signExtend 32 - 48) * acc.2, acc.2 * 10)

/-- The rest of the string, and the number that the digits at its start form. They are added up
from the last one on. -/
def getN (str : List Byte) : List Byte × Word :=
  (str.dropWhile isdigit, ((str.takeWhile isdigit).foldr addDigit (0, 1)).1)

theorem getN_length_le {c : Byte} {curr : List Byte} (h : isdigit c = true) :
    (getN (c :: curr)).1.length ≤ curr.length := by
  show ((c :: curr).dropWhile isdigit).length ≤ _
  rw [List.dropWhile_cons_of_pos h]
  exact (List.dropWhile_suffix _).length_le

/-! ## Conversions -/

structure Flags where
  alt : Bool := false
  zext : Bool := false
  pad : Word := 0

/-- The loop over the characters between `%` and the letter. -/
def readFlags (f : Flags) : List Byte → Flags × List Byte
  | [] => (f, [])
  | c :: curr =>
      if isalpha c then (f, c :: curr)
      else if c = '#' then readFlags { f with alt := true } curr
      else if c = '0' then readFlags { f with zext := true } curr
      else if isdigit c then
        readFlags { f with pad := (getN (c :: curr)).2 } (getN (c :: curr)).1
      else readFlags f curr
termination_by curr => curr.length
decreasing_by
  · exact Nat.lt_succ_self _
  · exact Nat.lt_succ_self _
  · exact Nat.lt_succ_of_le (getN_length_le (by assumption))
  · exact Nat.lt_succ_self _

theorem readFlags_length_le (f : Flags) (curr : List Byte) :
    (readFlags f curr).2.length ≤ curr.length := by
  fun_induction readFlags f curr with
  | case1 | case2 => exact le_rfl
  | case3 _ _ _ ih | case4 _ _ _ _ ih | case6 _ _ _ _ _ _ _ ih =>
    exact Nat.le_succ_of_le ih
  | case5 _ _ _ _ _ _ hdigit ih => exact Nat.le_succ_of_le (ih.trans (getN_length_le hdigit))

/-- The cases of the `switch`: a number in `buf`, characters that are put out at once, or a letter
that is not known. -/
inductive Conversion where
  | number (putn : Option (List Byte))
  | put (str : List Byte)
  | unknown

def convert (string : Word → List Byte) (alt : Bool) (conv : Byte) (popped : Word) : Conversion :=
  if conv = 'd' ∨ conv = 'i' then
    .number (if popped.msb then (fmtU (-popped)).bind (push '-') else fmtU popped)
  else if conv = 'u' then .number (fmtU popped)
  else if conv = 'x' ∨ conv = 'X' ∨ conv = 'p' then
    let putn := fmtX popped conv
    .number (if alt ∨ conv = 'p' then (putn.bind (push 'x')).bind (push '0') else putn)
  else if conv = 'o' then
    let putn := fmtO popped
    .number (if alt then putn.bind (push 'O') else putn)
  else if conv = 's' then .put (string popped)
  else if conv = 'c' then .put [popped.setWidth 8]
  else .unknown

/-- `while (pad-- > diff) putchar(fill)` -/
def padding (fill : Byte) (diff : ℕ) : ℕ → List Byte
  | 0 => []
  | pad + 1 => if pad + 1 > diff then fill :: padding fill diff pad else []

inductive Outcome where
  | returned (value : Int)
  /-- A write below `buf[0]`. -/
  | overrun

def vprintfLoop (string : Word → List Byte) (args : ℕ → Word) (curr : List Byte) (n : ℕ) :
    List Byte × Outcome :=
  match curr with
  | [] => ([], .returned 0)
  | c :: curr =>
      if c ≠ '%' then (vprintfLoop string args curr n).map (c :: ·) id
      else if curr.head? = some ('%' : Byte) then (vprintfLoop string args curr.tail n).map (c :: ·) id
      else
        let f := (readFlags {} curr).1
        match _hrest : (readFlags {} curr).2 with
        | [] => ([], .returned 0)
        | conv :: rest =>
            match convert string f.alt conv (args n) with
            | .number none => ([], .overrun)
            | .number (some putn) =>
                (vprintfLoop string args rest (n + 1)).map
                  (padding (if f.zext then '0' else ' ') putn.length f.pad.toNat ++
                    putn.takeWhile (· ≠ 0) ++ ·) id
            | .put str => (vprintfLoop string args rest (n + 1)).map (str ++ ·) id
            | .unknown => ([], .returned (-1))
termination_by curr.length
decreasing_by
  · exact Nat.lt_succ_self _
  · exact Nat.lt_succ_of_le (by rw [List.length_tail]; omega)
  all_goals
    have hle := readFlags_length_le {} curr
    rw [_hrest, List.length_cons] at hle
    exact Nat.lt_succ_of_lt hle

def vprintf (string : Word → List Byte) (format : Option (List Byte)) (args : ℕ → Word) :
    List Byte × Outcome :=
  match format with
  | none => ([], .returned 0)
  | some curr => vprintfLoop string args curr 0

end Horizon.Libh
