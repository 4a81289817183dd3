import Mathlib.Tactic.Ring

/-!
# `std::hash::DefaultHasher` as a function of what is written to it

The algorithm behind `DefaultHasher` is unspecified, and nothing here depends on it:
a hasher is any function from the sequence of `Hash::hash` writes to the 64-bit
`finish()` value.  Results that need two inputs to be told apart assume that for the
inputs at hand.

`hex016` is the format `{:016x}` under which every fingerprint is stored.
-/

namespace Semnav.ForStd

/-- One call a `Hash` implementation makes on its `Hasher`. -/
inductive HashWrite where
  | i64 (n : Int)
  | u32 (n : Nat)
  | str (s : String)
  | discriminant (d : Nat)
  | lengthPrefix (n : Nat)
  | bytes (b : List UInt8)
deriving DecidableEq

/-- `finish()` of a fresh hasher after a sequence of writes. -/
abbrev Hasher := List HashWrite → UInt64

/-- `<Option<String> as Hash>::hash`. -/
def hashOptionStr : Option String → List HashWrite
  | none => [.discriminant 0]
  | some s => [.discriminant 1, .str s]

theorem hashOptionStr_append_inj {a b : Option String} {x y : List HashWrite}
    (h : hashOptionStr a ++ x = hashOptionStr b ++ y) : a = b ∧ x = y := by
  cases a <;> cases b <;> simp_all [hashOptionStr]

/-! ## `{:016x}` -/

/-- The lower-case hexadecimal digit of `n < 16`. -/
def hexDigit (n : Nat) : Char :=
  if n < 10 then Char.ofNat (48 + n) else Char.ofNat (87 + n)

/-- `format!("{:016x}", n)`: sixteen digits, most significant first. -/
def hex016 (n : UInt64) : String :=
  String.ofList ((List.range 16).map fun i => hexDigit (n.toNat / 16 ^ (15 - i) % 16))

private theorem hexDigit_inj : ∀ a < 16, ∀ b < 16, hexDigit a = hexDigit b → a = b := by
  decide

/-- Two numbers with the same `k` lowest base-16 digits agree modulo `16 ^ k`. -/
private theorem mod_pow_eq_of_digits_eq (m n : Nat) :
    ∀ k, (∀ i < k, m / 16 ^ i % 16 = n / 16 ^ i % 16) → m % 16 ^ k = n % 16 ^ k
  | 0, _ => by simp [Nat.mod_one]
  | k + 1, h => by
    have ih := mod_pow_eq_of_digits_eq m n k fun i hi => h i (by omega)
    rw [pow_succ, Nat.mod_mul, Nat.mod_mul, ih, h k (by omega)]

/-- The format loses nothing: equal fingerprints come from equal `finish()` values. -/
theorem hex016_injective : Function.Injective hex016 := by
  intro m n h
  have hlist := String.ofList_injective h
  -- The digit at place `i` is the character at `15 - i`, as the string is written from the top.
  have hdigit : ∀ i < 16, m.toNat / 16 ^ i % 16 = n.toNat / 16 ^ i % 16 := by
    intro i hi
    have hget : ((List.range 16).map fun i => hexDigit (m.toNat / 16 ^ (15 - i) % 16))[15 - i]? =
        ((List.range 16).map fun i => hexDigit (n.toNat / 16 ^ (15 - i) % 16))[15 - i]? := by
      rw [hlist]
    have hlt : 15 - i < 16 := by omega
    have hback : 15 - (15 - i) = i := by omega
    simp only [List.getElem?_map, List.getElem?_range hlt, Option.map_some, hback,
      Option.some.injEq] at hget
    exact hexDigit_inj _ (Nat.mod_lt _ (by omega)) _ (Nat.mod_lt _ (by omega)) hget
  -- All sixteen digits agree, so the numbers do modulo `16 ^ 16 = 2 ^ 64`.
  have hmod := mod_pow_eq_of_digits_eq m.toNat n.toNat 16 hdigit
  have hm := m.toNat_lt
  have hn := n.toNat_lt
  rw [Nat.mod_eq_of_lt (by omega), Nat.mod_eq_of_lt (by omega)] at hmod
  exact UInt64.toNat_inj.mp hmod

end Semnav.ForStd
