import Mathlib.Algebra.Group.Nat.Defs
import Semnav.ForStd.Str

/-!
# Strings as bytes

`str::as_bytes` and `str::from_utf8`, and numbers in decimal between the two: what `format!`
prints for a number, `parse` reads back.

## Key results

- `fromUtf8_asBytes`: decoding what was encoded
- `parseUsize_trim_repr`: a number that was printed, after a blank
-/

namespace Semnav.ForStd

/-- `str::as_bytes`. -/
def asBytes (s : String) : List UInt8 := s.toList.flatMap String.utf8EncodeChar

/-- `str::from_utf8`. -/
def fromUtf8 (bytes : List UInt8) : Option String := String.fromUTF8? bytes.toByteArray

/-- `<[u8]>::strip_prefix`. -/
def stripPrefix (pre bytes : List UInt8) : Option (List UInt8) :=
  if pre.isPrefixOf bytes then some (bytes.drop pre.length) else none

/-- `<[u8]>::strip_suffix`. -/
def stripSuffix (suf bytes : List UInt8) : Option (List UInt8) :=
  if suf.isSuffixOf bytes then some (bytes.take (bytes.length - suf.length)) else none

/-- One more digit of a `usize`. -/
def pushDigit (n : Nat) (c : Char) : Option Nat :=
  if c.isDigit then
    let n' := 10 * n + (c.toNat - '0'.toNat)
    if n' < 2 ^ 64 then some n' else none
  else none

/-- `str::parse::<usize>`: digits, perhaps after a plus, of a number that fits. -/
def parseUsize (s : String) : Option Nat :=
  let digits := match s.toList with
    | '+' :: rest => rest
    | cs => cs
  if digits.isEmpty then none else digits.foldlM pushDigit 0

/-- The bytes of two strings follow each other. -/
@[simp] theorem asBytes_append (s t : String) : asBytes (s ++ t) = asBytes s ++ asBytes t := by
  simp [asBytes]

/-- The bytes of a string decode to it. -/
@[simp] theorem fromUtf8_asBytes (s : String) : fromUtf8 (asBytes s) = some s := by
  have hbytes : (asBytes s).toByteArray = s.toByteArray := String.utf8Encode_toList
  rw [fromUtf8, hbytes, String.fromUTF8?, dif_pos s.isValidUTF8]
  rfl

/-- A prefix is stripped. -/
@[simp] theorem stripPrefix_append (pre bytes : List UInt8) :
    stripPrefix pre (pre ++ bytes) = some bytes := by
  simp [stripPrefix, List.isPrefixOf_iff_prefix]

/-- A suffix is stripped. -/
@[simp] theorem stripSuffix_append (suf bytes : List UInt8) :
    stripSuffix suf (bytes ++ suf) = some bytes := by
  simp [stripSuffix, List.isSuffixOf_iff_suffix]

/-! ## Digits -/

/-- The digits are those of ASCII. -/
theorem isDigit_le {c : Char} (h : c.isDigit = true) : 48 ≤ c.toNat ∧ c.toNat ≤ 57 := by
  simp only [Char.isDigit, ge_iff_le, Bool.and_eq_true, decide_eq_true_eq] at h
  exact ⟨UInt32.le_iff_toNat_le.mp h.1, UInt32.le_iff_toNat_le.mp h.2⟩

/-- No digit is blank. -/
theorem not_isWhiteSpace_of_isDigit {c : Char} (h : c.isDigit = true) : isWhiteSpace c = false := by
  have hle := isDigit_le h
  simp only [isWhiteSpace, Bool.or_eq_false_iff, Bool.and_eq_false_iff, decide_eq_false_iff_not,
    beq_eq_false_iff_ne]
  omega

/-- A digit is one byte, and no line feed. -/
theorem asBytes_digits {cs : List Char} (h : ∀ c ∈ cs, c.isDigit = true) :
    (10 : UInt8) ∉ asBytes (String.ofList cs) := by
  intro hmem
  simp only [asBytes, String.toList_ofList, List.mem_flatMap] at hmem
  obtain ⟨c, hc, hbyte⟩ := hmem
  have hle := isDigit_le (h c hc)
  have hascii : c.val.toNat ≤ 0x7f := by
    show c.toNat ≤ 127
    omega
  rw [String.utf8EncodeChar] at hbyte
  simp only [hascii, if_true, List.mem_singleton] at hbyte
  have hnat := congrArg UInt8.toNat hbyte
  rw [UInt8.toNat_ofNat_of_lt' (show c.val.toNat < 256 by omega)] at hnat
  have : c.toNat = 10 := hnat.symm
  omega

/-- Digits without a sign, of a number that fits. -/
theorem foldlM_pushDigit {cs : List Char} (h : ∀ c ∈ cs, c.isDigit = true) {n : Nat}
    (hfits : Nat.ofDigitChars 10 cs n < 2 ^ 64) :
    cs.foldlM pushDigit n = some (Nat.ofDigitChars 10 cs n) := by
  induction cs generalizing n with
  | nil => simp
  | cons c cs ih =>
    rw [Nat.ofDigitChars_cons] at hfits ⊢
    -- The number only grows with further digits.
    have hgrows : 10 * n + (c.toNat - '0'.toNat) ≤
        Nat.ofDigitChars 10 cs (10 * n + (c.toNat - '0'.toNat)) := by
      rw [Nat.ofDigitChars_eq_ofDigitChars_zero]
      have hpow : 1 ≤ 10 ^ cs.length := Nat.one_le_pow _ _ (by decide)
      exact Nat.le_trans (Nat.le_mul_of_pos_left _ hpow) (Nat.le_add_right _ _)
    have hpush : pushDigit n c = some (10 * n + (c.toNat - '0'.toNat)) := by
      rw [pushDigit, if_pos (h c List.mem_cons_self)]
      exact if_pos (Nat.lt_of_le_of_lt hgrows hfits)
    rw [List.foldlM_cons, hpush]
    exact ih (fun d hd => h d (List.mem_cons_of_mem _ hd)) hfits

/-- A number is written out in digits. -/
theorem isDigit_of_mem_repr {n : Nat} {c : Char} (h : c ∈ n.repr.toList) : c.isDigit = true := by
  rw [Nat.toList_repr] at h
  exact Nat.isDigit_of_mem_toDigits (by decide) (by decide) h

/-- A number that fits 64 bits parses back from its digits. -/
theorem parseUsize_repr {n : Nat} (h : n < 2 ^ 64) : parseUsize n.repr = some n := by
  have hdigits : ∀ c ∈ Nat.toDigits 10 n, c.isDigit = true := fun c hc =>
    Nat.isDigit_of_mem_toDigits (by decide) (by decide) hc
  have hfold : (Nat.toDigits 10 n).foldlM pushDigit 0 = some n := by
    rw [foldlM_pushDigit hdigits (by rwa [Nat.ofDigitChars_ten_toDigits]),
      Nat.ofDigitChars_ten_toDigits]
  -- The parser skips a leading `+`, which no decimal digit is.
  cases hcs : Nat.toDigits 10 n with
  | nil => exact absurd hcs Nat.toDigits_ne_nil
  | cons c cs =>
    rw [hcs] at hfold hdigits
    have hplus : c ≠ '+' := by
      rintro rfl
      exact absurd (hdigits '+' List.mem_cons_self) (by decide)
    simp only [parseUsize, Nat.toList_repr, hcs]
    split
    · rename_i rest heq
      exact absurd (List.cons.inj heq).1 hplus
    · exact hfold

/-- A blank before a number is trimmed. -/
theorem trim_blank_repr (n : Nat) : trim (" " ++ n.repr) = n.repr := by
  have hnot : ∀ c ∈ n.repr.toList, isWhiteSpace c = false := fun c hc =>
    not_isWhiteSpace_of_isDigit (isDigit_of_mem_repr hc)
  have hkeep : ∀ l : List Char, (∀ c ∈ l, isWhiteSpace c = false) →
      l.dropWhile isWhiteSpace = l := by
    intro l hl
    cases l with
    | nil => rfl
    | cons c cs => simp [List.dropWhile, hl c List.mem_cons_self]
  have hblank : isWhiteSpace ' ' = true := by decide
  rw [trim, String.toList_append, show " ".toList = [' '] from rfl, List.singleton_append,
    List.dropWhile_cons_of_pos hblank, hkeep _ hnot,
    hkeep _ fun c hc => hnot c (List.mem_reverse.mp hc), List.reverse_reverse, String.ofList_toList]

/-- A number that was printed, after a blank. -/
theorem parseUsize_trim_repr {n : Nat} (h : n < 2 ^ 64) :
    parseUsize (trim (" " ++ n.repr)) = some n := by
  rw [trim_blank_repr, parseUsize_repr h]

/-- A byte of a sequence of several bytes is no ASCII character. -/
theorem ofNat_ne_newline {n : Nat} (hlo : 128 ≤ n) (hhi : n < 256) : UInt8.ofNat n ≠ 10 := by
  intro h
  have hval : n % 256 = 10 := congrArg UInt8.toNat h
  omega

/-- Only a newline has the byte 10. -/
theorem eq_newline_of_mem {c : Char} (h : 10 ∈ String.utf8EncodeChar c) : c = '\n' := by
  simp only [String.utf8EncodeChar] at h
  split at h
  next hsmall =>
    have hval : c.val.toNat % 256 = 10 := (congrArg UInt8.toNat (List.mem_singleton.mp h)).symm
    apply Char.ext
    apply UInt32.toNat_inj.mp
    show c.val.toNat = 10
    omega
  next =>
    -- all bytes of a longer sequence are at least 128
    exfalso
    split at h
    next =>
      simp only [List.mem_cons, List.not_mem_nil, or_false] at h
      rcases h with h | h <;> exact ofNat_ne_newline (by omega) (by omega) h.symm
    next =>
      split at h
      next =>
        simp only [List.mem_cons, List.not_mem_nil, or_false] at h
        rcases h with h | h | h <;> exact ofNat_ne_newline (by omega) (by omega) h.symm
      next =>
        simp only [List.mem_cons, List.not_mem_nil, or_false] at h
        rcases h with h | h | h | h <;> exact ofNat_ne_newline (by omega) (by omega) h.symm

/-- A text without newlines has no newline in its bytes. -/
theorem newline_not_mem_asBytes {s : String} (h : '\n' ∉ s.toList) : 10 ∉ asBytes s := by
  intro hmem
  obtain ⟨c, hc, hbyte⟩ := List.mem_flatMap.mp hmem
  exact h (eq_newline_of_mem hbyte ▸ hc)

end Semnav.ForStd
