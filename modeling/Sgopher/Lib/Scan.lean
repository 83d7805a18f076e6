/-
Sgopher.Lib.Scan — `sscanf` for one number.

`scan c bs` is the number that `bs` begins with, behind white space and a
sign, as the conversion `c` reads it; what follows the number is not
looked at. Where there is none the variable keeps its value.

A number can be too large for its variable. This is glibc's way with such
numbers, where `long` has 64 bits: the number is read by `strtoul` or
`strtol`, and the variable gets the low bits of what these return. The
prefix `0b` that the latest C knows is not one here.

What `printf` prints of a number scans as that number (`scan_decimal`).

No `sorry`, no `axiom`, no `native_decide`.
-/
import Sgopher.Lib.Buffer

namespace Sgopher.Lib

/-- `isspace`. -/
def isSpace (b : UInt8) : Bool := b == 32 || (decide (9 ≤ b) && decide (b ≤ 13))

/-- The value of a digit. -/
def digitOf (base : Nat) (b : UInt8) : Option Nat :=
  let d :=
    if 48 ≤ b ∧ b ≤ 57 then b.toNat - 48
    else if 65 ≤ b ∧ b ≤ 90 then b.toNat - 55
    else if 97 ≤ b ∧ b ≤ 122 then b.toNat - 87
    else base
  if d < base then some d else none

/-- The digits in front. -/
def digits (base : Nat) : Bytes → List Nat
  | [] => []
  | b :: bs =>
    match digitOf base b with
    | none => []
    | some d => d :: digits base bs

/-- The number that the digits in front are of. -/
def scanDigits (base : Nat) (bs : Bytes) : Option Nat :=
  if digits base bs = [] then none
  else some ((digits base bs).foldl (fun n d => base * n + d) 0)

/-- The conversions: `%u`, which is decimal, and `%i`, where a prefix
chooses the base. -/
inductive Conversion where
  | u
  | i
  deriving DecidableEq, Repr

/-- The number without its sign. The zero of `0x` is a digit already. -/
def Conversion.magnitude : Conversion → Bytes → Option Nat
  | .i, 48 :: 120 :: bs => some ((scanDigits 16 bs).getD 0)
  | .i, 48 :: 88 :: bs => some ((scanDigits 16 bs).getD 0)
  | .i, 48 :: bs => scanDigits 8 (48 :: bs)
  | _, bs => scanDigits 10 bs

/-- The number with its sign. -/
def signed (c : Conversion) : Bytes → Option Int
  | 45 :: bs => (c.magnitude bs).map fun n => -(n : Int)
  | 43 :: bs => (c.magnitude bs).map Int.ofNat
  | bs => (c.magnitude bs).map Int.ofNat

/-- The number that the text begins with. -/
def scan (c : Conversion) (bs : Bytes) : Option Int := signed c (bs.dropWhile isSpace)

/-- What `strtoul` returns for a number. -/
def strtoul (n : Int) : Nat :=
  if n.natAbs < 18446744073709551616 then (n % 18446744073709551616).toNat
  else 18446744073709551615

/-- What `strtol` returns for a number. -/
def strtol (n : Int) : Int := max (-9223372036854775808) (min n 9223372036854775807)

/-- `unsigned int`. -/
def storeUInt (n : Int) : UInt32 := UInt32.ofNat (strtoul n)

/-- `unsigned short`. -/
def storeUShort (n : Int) : UInt16 := UInt16.ofNat (strtoul n)

/-- `int`. -/
def storeInt (n : Int) : Int32 := Int32.ofInt (strtol n)

/-- `sscanf(arg, …, &x)`, where `store` is what the variable gets of a
number. -/
def scanInto {τ : Type} (c : Conversion) (store : Int → τ) (arg : Bytes) (x : τ) : τ :=
  match scan c arg with
  | none => x
  | some n => store n

example :
    scanInto .i storeInt (ascii "4294967295") 7 = -1 ∧
      scanInto .u storeUInt (ascii " -18446744073709551615 ") 7 = 1 ∧
      scanInto .u storeUShort (ascii "65536") 7 = 0 ∧
      scanInto .i storeInt (ascii "-0x10") 7 = -16 ∧
      scanInto .u storeUInt (ascii "many") 7 = 7 := by
  decide

/-! ## Decimals -/

theorem decimal_of_lt {n : Nat} (h : n < 10) : decimal n = [UInt8.ofNat (48 + n)] := by
  have hchar : n.digitChar.toNat = 48 + n := Nat.toNat_digitChar_of_lt_ten h
  rw [decimal, Nat.toDigits_of_lt_base h, List.map_singleton, hchar]

theorem decimal_of_le {n : Nat} (h : 10 ≤ n) :
    decimal n = decimal (n / 10) ++ [UInt8.ofNat (48 + n % 10)] := by
  have hlt : n % 10 < 10 := Nat.mod_lt n (by decide)
  have hchar : (n % 10).digitChar.toNat = 48 + n % 10 := Nat.toNat_digitChar_of_lt_ten hlt
  rw [decimal, Nat.toDigits_of_base_le (by decide) h, List.map_append, List.map_singleton, hchar]
  rfl

theorem toNat_digit {d : Nat} (h : d < 10) : (UInt8.ofNat (48 + d)).toNat = 48 + d := by
  rw [UInt8.toNat_ofNat']
  omega

/-- Only zero is printed with a zero in front. -/
theorem decimal_cons {n : Nat} (h : 0 < n) :
    ∃ b bs, decimal n = b :: bs ∧ 48 < b.toNat ∧ b.toNat ≤ 57 := by
  induction n using Nat.strongRecOn with
  | ind n ih =>
    by_cases hlt : n < 10
    · have hdigit := toNat_digit hlt
      exact ⟨_, [], decimal_of_lt hlt, by rw [hdigit]; omega, by rw [hdigit]; omega⟩
    · obtain ⟨b, bs, he, hb⟩ := ih (n / 10) (by omega) (by omega)
      exact ⟨b, bs ++ [_], by rw [decimal_of_le (by omega), he]; rfl, hb⟩

/-- The digits of a decimal are those of the number. -/
theorem foldl_decimal (n : Nat) :
    ((decimal n).map fun b => b.toNat - 48).foldl (fun m d => 10 * m + d) 0 = n := by
  induction n using Nat.strongRecOn with
  | ind n ih =>
    by_cases hlt : n < 10
    · rw [decimal_of_lt hlt, List.map_singleton, toNat_digit hlt, List.foldl_cons, List.foldl_nil]
      omega
    · rw [decimal_of_le (by omega), List.map_append, List.foldl_append, ih (n / 10) (by omega),
        List.map_singleton, toNat_digit (by omega), List.foldl_cons, List.foldl_nil]
      omega

theorem digitOf_ten {b : UInt8} (h : 48 ≤ b.toNat ∧ b.toNat ≤ 57) :
    digitOf 10 b = some (b.toNat - 48) := by
  have hdigit : 48 ≤ b ∧ b ≤ 57 := h
  simp only [digitOf, if_pos hdigit]
  exact if_pos (by omega)

theorem digits_ten {bs : Bytes} (h : ∀ b ∈ bs, 48 ≤ b.toNat ∧ b.toNat ≤ 57) :
    digits 10 bs = bs.map fun b => b.toNat - 48 := by
  induction bs with
  | nil => rfl
  | cons b bs ih =>
    rw [digits, digitOf_ten (h b (by simp)), List.map_cons]
    exact congrArg _ (ih fun b' hb' => h b' (by simp [hb']))

theorem decimal_ne_nil (n : Nat) : decimal n ≠ [] := fun h =>
  Nat.toDigits_ne_nil (List.map_eq_nil_iff.mp h)

theorem scanDigits_decimal (n : Nat) : scanDigits 10 (decimal n) = some n := by
  have hdigits := digits_ten fun b (hb : b ∈ decimal n) => decimal_digit hb
  have hne : digits 10 (decimal n) ≠ [] := fun h =>
    decimal_ne_nil n (List.map_eq_nil_iff.mp (hdigits.symm.trans h))
  rw [scanDigits, if_neg hne, hdigits, foldl_decimal]

theorem magnitude_decimal (c : Conversion) (n : Nat) : c.magnitude (decimal n) = some n := by
  rcases Nat.eq_zero_or_pos n with rfl | hpos
  · cases c <;> decide
  · obtain ⟨b, bs, he, hlow, hhigh⟩ := decimal_cons hpos
    have hne : b ≠ 48 := by
      rintro rfl
      exact absurd hlow (by decide)
    rw [← scanDigits_decimal n, he]
    cases c with
    | u => rfl
    | i =>
      unfold Conversion.magnitude
      split <;> simp_all

/-- What was printed is scanned. -/
theorem scan_decimal (c : Conversion) (n : Nat) : scan c (decimal n) = some (n : Int) := by
  obtain ⟨b, bs, he⟩ := List.exists_cons_of_ne_nil (decimal_ne_nil n)
  have hdigit : 48 ≤ b.toNat ∧ b.toNat ≤ 57 := decimal_digit (n := n) (by rw [he]; simp)
  have hspace : isSpace b = false := by
    have h32 : b ≠ 32 := by
      rintro rfl
      exact absurd hdigit.1 (by decide)
    have h13 : ¬ b ≤ 13 := fun h => by
      have : b.toNat ≤ 13 := h
      omega
    simp [isSpace, h32, h13]
  have hplus : b ≠ 43 := by
    rintro rfl
    exact absurd hdigit.1 (by decide)
  have hminus : b ≠ 45 := by
    rintro rfl
    exact absurd hdigit.1 (by decide)
  have hmagnitude := magnitude_decimal c n
  rw [he] at hmagnitude
  rw [scan, he, List.dropWhile_cons_of_neg (by rw [hspace]; decide)]
  unfold signed
  split
  · exact absurd (List.cons.inj ‹_›).1 hminus
  · exact absurd (List.cons.inj ‹_›).1 hplus
  · rw [hmagnitude]
    rfl

/-! ## Variables -/

variable {τ : Type} {store : Int → τ}

/-- A variable gets what was printed, as far as it has room for it. -/
theorem scanInto_decimal (c : Conversion) (n : Nat) (x : τ) :
    scanInto c store (decimal n) x = store n := by
  rw [scanInto, scan_decimal]

theorem strtoul_natCast {n : Nat} (h : n < 18446744073709551616) : strtoul n = n := by
  rw [strtoul, if_pos (by omega)]
  omega

theorem strtol_natCast {n : Nat} (h : n < 9223372036854775808) : strtol n = n := by
  rw [strtol]
  omega

theorem storeUInt_toNat (n : UInt32) : storeUInt n.toNat = n := by
  have hlt : n.toNat < 4294967296 := n.toNat_lt_size
  rw [storeUInt, strtoul_natCast (by omega), UInt32.ofNat_toNat]

theorem storeUShort_toNat (n : UInt16) : storeUShort n.toNat = n := by
  have hlt : n.toNat < 65536 := n.toNat_lt_size
  rw [storeUShort, strtoul_natCast (by omega), UInt16.ofNat_toNat]

/-- An `int` that was printed as if it had no sign has it again. -/
theorem storeInt_toUInt32 (n : Int32) : storeInt n.toUInt32.toNat = n := by
  have hlt : n.toUInt32.toNat < 4294967296 := n.toUInt32.toNat_lt_size
  rw [storeInt, strtol_natCast (by omega)]
  have hbits : BitVec.ofInt 32 n.toUInt32.toNat = n.toBitVec := by
    rw [BitVec.ofInt_natCast]
    exact BitVec.ofNat_toNat 32 n.toBitVec
  exact Int32.toBitVec_inj.mp hbits

end Sgopher.Lib
