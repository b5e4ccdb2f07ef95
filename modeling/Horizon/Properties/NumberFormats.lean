import Horizon.User.Printf
import Mathlib.Data.List.TakeWhile
import Mathlib.Data.Nat.Digits.Lemmas

/-!
# Horizon — numbers in formatted output

`vprintf` writes a number as the digits of `Nat.digits`, last one first. They are read off the
argument by three loops that differ in the base only (`fmtLoop_eq`).
-/

namespace Horizon.Libh

variable {x arg : Word} {b v : ℕ} {upper alt : Bool} {text s spec rest : List Byte} {conv : Byte}

/-! ## Digits -/

def digitChar (upper : Bool) (d : ℕ) : Byte :=
  if d < 10 then '0' + BitVec.ofNat 8 d
  else (if upper then 'A' else 'a') + BitVec.ofNat 8 (d - 10)

/-- The text has the digits of a value, most significant first, without a leading zero. -/
def Denotes (b : ℕ) (upper : Bool) (text : List Byte) (v : ℕ) : Prop :=
  ∃ ds : List ℕ, text = ds.map (digitChar upper) ∧ (∀ d ∈ ds, d < b) ∧
    Nat.ofDigits b ds.reverse = v ∧ ds ≠ [] ∧ (ds.head? = some 0 → ds = [0])

theorem Denotes.ne_zero (h : Denotes b upper text v) (hb : b ≤ 16) : ∀ c ∈ text, c ≠ 0 := by
  obtain ⟨ds, rfl, hlt, -⟩ := h
  have hchar : ∀ upper, ∀ d < 16, digitChar upper d ≠ 0 := by decide
  simp only [List.mem_map]
  rintro _ ⟨d, hd, rfl⟩
  exact hchar upper d (lt_of_lt_of_le (hlt d hd) hb)

/-- What the loops have in common: `digit` gives the last digit, `next` drops it. -/
structure Writes (b : ℕ) (upper : Bool) (digit : Word → Byte) (next : Word → Word) : Prop where
  base : 8 ≤ b ∧ b ≤ 16
  digit : ∀ x, digit x = digitChar upper (x.toNat % b)
  next : ∀ x, (next x).toNat = x.toNat / b

variable {digit : Word → Byte} {next : Word → Word}

theorem Writes.fmtLoop_eq (h : Writes b upper digit next) {free : ℕ} (hfree : x.toNat < b ^ free) :
    fmtLoop digit next free x s =
      some ((Nat.digits b x.toNat).reverse.map (digitChar upper) ++ s) := by
  induction free generalizing x s with
  | zero =>
    obtain rfl : x = 0 := BitVec.eq_of_toNat_eq (by simpa using hfree)
    simp [fmtLoop]
  | succ free ih =>
    rw [fmtLoop]
    split
    · next hzero => simp [hzero]
    · next hne =>
      have hpos : 0 < x.toNat := Nat.pos_of_ne_zero fun h => hne (BitVec.eq_of_toNat_eq h)
      have hbase := h.base
      rw [ih (by rw [h.next]; exact Nat.div_lt_of_lt_mul (by rwa [← Nat.pow_succ'])), h.next,
        Nat.digits_def' (by omega) hpos, h.digit]
      simp

theorem Writes.fmt_spec (h : Writes b upper digit next) (x : Word) :
    ∃ text, fmt digit next x = some text ∧ Denotes b upper text x.toNat ∧ text.length ≤ 11 := by
  obtain ⟨hb, hle⟩ := h.base
  have hlt (n : ℕ) (hn : 11 ≤ n) : x.toNat < b ^ n :=
    x.isLt.trans_le ((by norm_num : 2 ^ 32 ≤ 8 ^ 11).trans
      ((Nat.pow_le_pow_left hb 11).trans (Nat.pow_le_pow_right (by omega) hn)))
  rw [fmt, h.fmtLoop_eq (hlt 31 (by decide)), Option.map_some, List.append_nil]
  refine ⟨_, rfl, ?_⟩
  by_cases hx : x.toNat = 0
  · rw [hx]
    refine ⟨⟨[0], by simp [digitChar], ?_, by simp, by simp, fun _ => rfl⟩, by simp⟩
    simp only [List.mem_singleton, forall_eq]
    omega
  · have hne : (Nat.digits b x.toNat) ≠ [] := Nat.digits_ne_nil_iff_ne_zero.mpr hx
    rw [if_neg (by simpa using hne)]
    refine ⟨⟨_, rfl, fun d hd => Nat.digits_lt_base (by omega) (List.mem_reverse.mp hd),
      by rw [List.reverse_reverse, Nat.ofDigits_digits], by simpa using hne, fun hzero => ?_⟩, ?_⟩
    · rw [List.head?_reverse, List.getLast?_eq_some_getLast hne] at hzero
      exact absurd (Option.some.inj hzero) (Nat.getLast_digit_ne_zero b hx)
    · simpa using (Nat.digits_length_le_iff (by omega) _).mpr (hlt 11 le_rfl)

theorem char_of_digit {y : Word} {d : ℕ} (hy : y.toNat = d) (hd : d < 10) :
    '0' + y.setWidth 8 = digitChar upper d := by
  rw [digitChar, if_pos hd, ← hy, BitVec.ofNat_toNat]

theorem toNat_and_mask (x : Word) (k : ℕ) (hk : k < 32) :
    (x &&& BitVec.ofNat 32 (2 ^ k - 1)).toNat = x.toNat % 2 ^ k := by
  have hlt : 2 ^ k - 1 < 2 ^ 32 := by
    have := Nat.pow_lt_pow_right (by decide : 1 < 2) hk
    omega
  rw [BitVec.toNat_and, BitVec.toNat_ofNat, Nat.mod_eq_of_lt hlt, Nat.and_two_pow_sub_one_eq_mod]

theorem toNat_shift (k : ℕ) (x : Word) : (x >>> k).toNat = x.toNat / 2 ^ k :=
  (BitVec.toNat_ushiftRight ..).trans (Nat.shiftRight_eq_div_pow ..)

theorem fmtU_spec (u : Word) :
    ∃ text, fmtU u = some text ∧ Denotes 10 upper text u.toNat ∧ text.length ≤ 11 :=
  Writes.fmt_spec ⟨by decide, fun u => char_of_digit (BitVec.toNat_umod ..)
    (Nat.mod_lt _ (by decide)), fun _ => rfl⟩ u

theorem fmtO_spec (o : Word) :
    ∃ text, fmtO o = some text ∧ Denotes 8 upper text o.toNat ∧ text.length ≤ 11 :=
  Writes.fmt_spec ⟨by decide, fun o => char_of_digit (toNat_and_mask o 3 (by decide))
    ((Nat.mod_lt _ (by decide)).trans (by decide)), toNat_shift 3⟩ o

theorem fmtX_spec {lower : Byte} (hlower : lower &&& 0x20 = if upper then 0 else 0x20) (x : Word) :
    ∃ text, fmtX x lower = some text ∧ Denotes 16 upper text x.toNat ∧ text.length ≤ 11 := by
  have hchar : ∀ upper : Bool, ∀ d < 16, xdigits.getD d 0 ||| (if upper then 0 else 0x20) =
      digitChar upper d := by decide
  refine Writes.fmt_spec ⟨by decide, fun x => ?_, toNat_shift 4⟩ x
  rw [show (x &&& 0xF).toNat = x.toNat % 16 from toNat_and_mask x 4 (by decide), hlower]
  exact hchar upper _ (Nat.mod_lt _ (by decide))

/-! ## Conversions -/

/-- The conversions of numbers. -/
def numberConvs : List Byte := ['d', 'i', 'u', 'x', 'X', 'p', 'o']

def numberBase (conv : Byte) : ℕ :=
  if conv = 'd' ∨ conv = 'i' ∨ conv = 'u' then 10 else if conv = 'o' then 8 else 16

/-- What the argument stands for: `d` and `i` read it as signed. -/
def numberValue (conv : Byte) (arg : Word) : Int :=
  if conv = 'd' ∨ conv = 'i' then arg.toInt else arg.toNat

/-- The sign or the mark of the base. -/
def numberFront (conv : Byte) (alt : Bool) (arg : Word) : List Byte :=
  if numberValue conv arg < 0 then ['-']
  else if numberBase conv = 16 ∧ (alt ∨ conv = 'p') then ['0', 'x']
  else if numberBase conv = 8 ∧ alt then ['O']
  else []

/-- A text is sign and mark of the base, and then the digits of the value. -/
def Formats (conv : Byte) (alt : Bool) (arg : Word) (text : List Byte) : Prop :=
  ∃ digits, text = numberFront conv alt arg ++ digits ∧
    Denotes (numberBase conv) (conv = 'X') digits (numberValue conv arg).natAbs

theorem bind_push {c : Byte} (h : text.length < 31) : (some text).bind (push c) = some (c :: text) :=
  if_pos h

theorem convert_signed (string : Word → List Byte) (hconv : conv = 'd' ∨ conv = 'i') :
    ∃ text, convert string alt conv arg = .number (some text) ∧ Formats conv alt arg text := by
  have hvalue : numberValue conv arg = arg.toInt := if_pos hconv
  have hbase : numberBase conv = 10 := by rcases hconv with rfl | rfl <;> rfl
  have hsign := BitVec.toInt_eq_msb_cond arg
  have hlt := arg.isLt
  rw [convert, if_pos hconv]
  unfold Formats numberFront
  rw [hvalue, hbase]
  cases hmsb : arg.msb with
  | true =>
    rw [hmsb, if_pos rfl] at hsign
    have hpos : 2 ^ 31 ≤ arg.toNat := by simpa [BitVec.msb_eq_decide] using hmsb
    obtain ⟨text, htext, hdenotes, hlen⟩ := fmtU_spec (-arg)
    have habs : arg.toInt.natAbs = (-arg).toNat := by
      rw [BitVec.toNat_neg, Nat.mod_eq_of_lt (by omega)]
      omega
    rw [if_pos rfl, htext, bind_push (by omega), if_pos (by omega), habs]
    exact ⟨_, rfl, text, rfl, hdenotes⟩
  | false =>
    rw [hmsb, if_neg (by decide)] at hsign
    obtain ⟨text, htext, hdenotes, -⟩ := fmtU_spec arg
    rw [if_neg (by decide), htext, if_neg (by omega), hsign]
    exact ⟨_, rfl, text, rfl, hdenotes⟩

theorem convert_hex (string : Word → List Byte) (hconv : conv = 'x' ∨ conv = 'X' ∨ conv = 'p') :
    ∃ text, convert string alt conv arg = .number (some text) ∧ Formats conv alt arg text := by
  have hvalue : numberValue conv arg = arg.toNat := by rcases hconv with rfl | rfl | rfl <;> rfl
  have hbase : numberBase conv = 16 := by rcases hconv with rfl | rfl | rfl <;> rfl
  have hlower : conv &&& 0x20 = if decide (conv = 'X') then 0 else 0x20 := by
    rcases hconv with rfl | rfl | rfl <;> rfl
  obtain ⟨text, htext, hdenotes, hlen⟩ := fmtX_spec hlower arg
  have hconvert : convert string alt conv arg = .number
      (if alt ∨ conv = 'p' then ((some text).bind (push 'x')).bind (push '0') else some text) := by
    rw [← htext]
    rcases hconv with rfl | rfl | rfl <;> rfl
  have hnonneg : ¬ (arg.toNat : Int) < 0 := by omega
  unfold Formats numberFront
  rw [hconvert, hvalue, hbase, if_neg hnonneg]
  by_cases hmark : alt ∨ conv = 'p'
  · have hlong : (('x' : Byte) :: text).length < 31 := by rw [List.length_cons]; omega
    rw [if_pos hmark, if_pos ⟨rfl, hmark⟩, bind_push (by omega), bind_push hlong]
    exact ⟨_, rfl, text, rfl, hdenotes⟩
  · rw [if_neg hmark, if_neg fun h => hmark h.2, if_neg fun h => absurd h.1 (by decide)]
    exact ⟨_, rfl, text, rfl, hdenotes⟩

theorem convert_number (string : Word → List Byte) (alt : Bool) (arg : Word)
    (hconv : conv ∈ numberConvs) :
    ∃ text, convert string alt conv arg = .number (some text) ∧ Formats conv alt arg text := by
  simp only [numberConvs, List.mem_cons, List.not_mem_nil, or_false] at hconv
  rcases hconv with rfl | rfl | rfl | rfl | rfl | rfl | rfl
  · exact convert_signed string (.inl rfl)
  · exact convert_signed string (.inr rfl)
  · obtain ⟨text, htext, hdenotes, -⟩ := fmtU_spec arg
    exact ⟨text, congrArg Conversion.number htext, text, rfl, hdenotes⟩
  · exact convert_hex string (.inl rfl)
  · exact convert_hex string (.inr (.inl rfl))
  · exact convert_hex string (.inr (.inr rfl))
  · obtain ⟨text, htext, hdenotes, hlen⟩ := fmtO_spec arg
    cases alt with
    | true =>
      refine ⟨'O' :: text, ?_, text, rfl, hdenotes⟩
      show Conversion.number ((fmtO arg).bind (push 'O')) = _
      rw [htext, bind_push (by omega)]
    | false => exact ⟨text, congrArg Conversion.number htext, text, rfl, hdenotes⟩

theorem Formats.ne_zero (h : Formats conv alt arg text) : ∀ c ∈ text, c ≠ 0 := by
  obtain ⟨digits, rfl, hdenotes⟩ := h
  have hfront : ∀ c ∈ numberFront conv alt arg, c ≠ 0 := by
    unfold numberFront
    split_ifs <;> decide
  have hbase : numberBase conv ≤ 16 := by
    unfold numberBase
    split_ifs <;> decide
  intro c hc
  rcases List.mem_append.mp hc with hc | hc
  · exact hfront c hc
  · exact hdenotes.ne_zero hbase c hc

theorem padding_eq (fill : Byte) (diff pad : ℕ) :
    padding fill diff pad = List.replicate (pad - diff) fill := by
  induction pad with
  | zero => simp [padding]
  | succ pad ih =>
    rw [padding]
    split
    · rw [ih, Nat.succ_sub (by omega), List.replicate_succ]
    · rw [Nat.sub_eq_zero_of_le (by omega), List.replicate_zero]

/-! ## Flags and width -/

/-- The value of a row of decimal digits. -/
def decimal (digits : List Byte) : ℕ := Nat.ofDigits 10 (digits.reverse.map fun c => c.toNat - 48)

theorem getN_append (str : List Byte) (hconv : isdigit conv = false) :
    getN (str ++ conv :: rest) = ((getN str).1 ++ conv :: rest, (getN str).2) := by
  have hstop : (str ++ conv :: rest).takeWhile isdigit = str.takeWhile isdigit ∧
      (str ++ conv :: rest).dropWhile isdigit = str.dropWhile isdigit ++ conv :: rest := by
    induction str with
    | nil => simp [hconv]
    | cons c str ih => by_cases hc : isdigit c <;> simp [hc, ih]
  simp only [getN, hstop]

theorem addDigit_eq {ds : List Byte} (hds : ∀ c ∈ ds, isdigit c = true) : ds.foldr addDigit (0, 1) =
      (BitVec.ofNat 32 (decimal ds), BitVec.ofNat 32 (10 ^ ds.length)) := by
  have hdigit : ∀ c : Byte, isdigit c = true →
      c.signExtend 32 - 48 = BitVec.ofNat 32 (c.toNat - 48) := by decide
  induction ds with
  | nil => rfl
  | cons c ds ih =>
    have hcons : decimal (c :: ds) = decimal ds + (c.toNat - 48) * 10 ^ ds.length := by
      simp [decimal, Nat.ofDigits_append, Nat.mul_comm]
    rw [List.foldr_cons, ih fun c hc => hds c (List.mem_cons_of_mem _ hc), addDigit,
      hdigit c (hds c List.mem_cons_self), hcons, List.length_cons, Nat.pow_succ]
    simp only [BitVec.ofNat_add, BitVec.ofNat_mul]
    rfl

/-- `get_n` yields the value of the digits in the arithmetic of words. -/
theorem getN_snd (str : List Byte) :
    (getN str).2 = BitVec.ofNat 32 (decimal (str.takeWhile isdigit)) :=
  congrArg Prod.fst (addDigit_eq (List.all_eq_true.mp List.all_takeWhile))

theorem isdigit_of_isalpha {c : Byte} : isalpha c = true → isdigit c = false := by
  revert c
  decide

/-- The flags end at the first letter. -/
theorem readFlags_append (f : Flags) (hspec : ∀ c ∈ spec, isalpha c = false)
    (hconv : isalpha conv = true) :
    readFlags f (spec ++ conv :: rest) = ((readFlags f spec).1, conv :: rest) := by
  fun_induction readFlags f spec with
  | case1 => rw [List.nil_append, readFlags, if_pos hconv]
  | case2 f c curr halpha =>
    rw [hspec c List.mem_cons_self] at halpha
    cases halpha
  | case3 f curr halpha ih =>
    rw [List.cons_append, readFlags, if_neg halpha, if_pos rfl,
      ih fun c hc => hspec c (List.mem_cons_of_mem _ hc)]
  | case4 f curr halpha hne ih =>
    rw [List.cons_append, readFlags, if_neg halpha, if_neg hne, if_pos rfl,
      ih fun c hc => hspec c (List.mem_cons_of_mem _ hc)]
  | case5 f c curr halpha halt hzero hdigit ih =>
    have hrest : ∀ c' ∈ (getN (c :: curr)).1, isalpha c' = false := fun c' hc' =>
      hspec c' ((List.dropWhile_sublist _).subset hc')
    rw [List.cons_append, readFlags, if_neg halpha, if_neg halt, if_neg hzero, if_pos hdigit,
      ← List.cons_append, getN_append _ (isdigit_of_isalpha hconv), ih hrest]
  | case6 f c curr halpha halt hzero hdigit ih =>
    rw [List.cons_append, readFlags, if_neg halpha, if_neg halt, if_neg hzero, if_neg hdigit,
      ih fun c hc => hspec c (List.mem_cons_of_mem _ hc)]

theorem readFlags_eq {flags digits : List Byte} (hflags : ∀ c ∈ flags, c = '#' ∨ c = '0')
    (hdigits : ∀ c ∈ digits, isdigit c = true) (hfirst : digits.head? ≠ some ('0' : Byte))
    (alt zext : Bool) :
    (readFlags { alt, zext } (flags ++ digits)).1 =
      { alt := alt || decide (('#' : Byte) ∈ flags), zext := zext || decide (('0' : Byte) ∈ flags),
        pad := BitVec.ofNat 32 (decimal digits) } := by
  induction flags generalizing alt zext with
  | nil =>
    cases digits with
    | nil => simp [readFlags, decimal]
    | cons c digits =>
      have hdigit := hdigits c List.mem_cons_self
      have hall : (c :: digits).takeWhile isdigit = c :: digits :=
        List.takeWhile_eq_self_iff.mpr hdigits
      have hnone : (getN (c :: digits)).1 = [] := List.dropWhile_eq_nil_iff.mpr hdigits
      have halpha : ¬ isalpha c = true := fun h => by
        rw [isdigit_of_isalpha h] at hdigit
        cases hdigit
      have halt : c ≠ '#' := by
        rintro rfl
        exact absurd hdigit (by decide)
      have hzero : c ≠ '0' := fun h => hfirst (congrArg some h)
      rw [List.nil_append, readFlags, if_neg halpha, if_neg halt, if_neg hzero, if_pos hdigit,
        hnone, readFlags, getN_snd, hall]
      simp
  | cons c flags ih =>
    have hrest := fun c hc => hflags c (List.mem_cons_of_mem _ hc)
    rcases hflags c List.mem_cons_self with rfl | rfl
    · rw [List.cons_append, readFlags, if_neg (by decide), if_pos rfl, ih hrest]
      simp
    · rw [List.cons_append, readFlags, if_neg (by decide), if_neg (by decide), if_pos rfl,
        ih hrest]
      simp

/-! ## `vprintf` -/

/-- `vprintf` at a conversion of a number: whatever stands between `%` and the letter, and however
wide the number is to be, it writes within `buf`, puts out the padding and the number in that form,
and goes on behind the letter. Flags and width are read as they are written, and the width counts
modulo 2³². -/
theorem vprintf_number (string : Word → List Byte) (args : ℕ → Word) (n : ℕ)
    (spec rest : List Byte) (conv : Byte) (hspec : ∀ c ∈ spec, isalpha c = false)
    (hfirst : spec.head? ≠ some ('%' : Byte)) (hconv : conv ∈ numberConvs) :
    (∃ text, Formats conv (readFlags {} spec).1.alt (args n) text ∧
      vprintfLoop string args (('%' : Byte) :: spec ++ conv :: rest) n =
        (vprintfLoop string args rest (n + 1)).map
          (List.replicate ((readFlags {} spec).1.pad.toNat - text.length)
            (if (readFlags {} spec).1.zext then '0' else ' ' : Byte) ++ text ++ ·) id) ∧
    (∀ flags digits : List Byte, spec = flags ++ digits → (∀ c ∈ flags, c = '#' ∨ c = '0') →
      (∀ c ∈ digits, isdigit c = true) → digits.head? ≠ some ('0' : Byte) →
      (readFlags {} spec).1 =
        { alt := decide (('#' : Byte) ∈ flags), zext := decide (('0' : Byte) ∈ flags),
                                pad := BitVec.ofNat 32 (decimal digits) }) ∧
    ∀ str, (getN str).2 = BitVec.ofNat 32 (decimal (str.takeWhile isdigit)) := by
  refine ⟨?_, ?_, getN_snd⟩
  · have halpha : isalpha conv = true ∧ conv ≠ '%' := by
      revert conv
      decide
    obtain ⟨text, hconvert, hformats⟩ :=
      convert_number string (readFlags {} spec).1.alt (args n) hconv
    have hflags : readFlags {} (spec ++ conv :: rest) = ((readFlags {} spec).1, conv :: rest) :=
      readFlags_append {} hspec halpha.1
    have hhead : (spec ++ conv :: rest).head? ≠ some ('%' : Byte) := by
      cases spec with
      | nil => simpa using halpha.2
      | cons c spec => exact hfirst
    have hwhole : text.takeWhile (· ≠ 0) = text :=
      List.takeWhile_eq_self_iff.mpr fun c hc => decide_eq_true (hformats.ne_zero c hc)
    refine ⟨text, hformats, ?_⟩
    rw [List.cons_append, vprintfLoop, if_neg (not_not.mpr rfl), if_neg hhead]
    split
    · next hnone =>
      rw [hflags] at hnone
      cases hnone
    · next conv' rest' hsome =>
      rw [hflags] at hsome
      cases hsome
      simp only [hflags, hconvert, hwhole, padding_eq]
  · rintro flags digits rfl hflags hdigits hhead
    exact readFlags_eq hflags hdigits hhead false false

/-- `%#08x`: the prefix counts for the width, and the zeros come before it. -/
theorem vprintf_hex_padded : (∀ c ∈ (['#', '0', '8'] : List Byte), isalpha c = false) ∧
    ∃ text, Formats 'x' (readFlags {} ['#', '0', '8']).1.alt 0xBEEF text ∧
      vprintfLoop (fun _ => []) (fun _ => 0xBEEF) ['%', '#', '0', '8', 'x'] 0 =
        (vprintfLoop (fun _ => []) (fun _ => 0xBEEF) [] 1).map
          (List.replicate ((readFlags {} ['#', '0', '8']).1.pad.toNat - text.length)
            (if (readFlags {} ['#', '0', '8']).1.zext then '0' else ' ' : Byte) ++ text ++ ·) id :=
  ⟨by decide, (vprintf_number (fun _ => []) (fun _ => 0xBEEF) 0 ['#', '0', '8'] [] 'x' (by decide)
    (by decide) (by decide)).1⟩

/-! ## The buffer -/

theorem convert_ne_overrun (string : Word → List Byte) :
    convert string alt conv arg ≠ .number none := by
  by_cases hconv : conv ∈ numberConvs
  · obtain ⟨text, htext, -⟩ := convert_number string alt arg hconv
    rw [htext]
    simp
  · simp only [numberConvs, List.mem_cons, List.not_mem_nil, or_false, not_or] at hconv
    simp only [convert, hconv, or_self, if_false]
    split_ifs <;> simp

/-- Whatever the format and the arguments are, nothing is written outside of `buf`. -/
theorem vprintf_returns (string : Word → List Byte) (format : Option (List Byte))
    (args : ℕ → Word) : ∃ value, (vprintf string format args).2 = .returned value ∧
      (value = 0 ∨ value = -1) := by
  cases format with
  | none => exact ⟨0, rfl, .inl rfl⟩
  | some curr =>
    rw [vprintf]
    generalize 0 = n
    fun_induction vprintfLoop string args curr n with
    | case1 | case4 => exact ⟨0, rfl, .inl rfl⟩
    | case5 => exact absurd (by assumption) (convert_ne_overrun string)
    | case8 => exact ⟨-1, rfl, .inr rfl⟩
    | _ => assumption

end Horizon.Libh
