/-
Sgopher.Lib.Buffer — byte buffers of a fixed capacity and the string
functions of C over them.

A buffer is the list of the bytes written so far, from its start on; what
lies behind them is not initialised. `store` is undefined (`none`) past
the capacity and where it would leave a gap, and `cstring` is undefined
where no NUL stands among the bytes written: in C both are a read or a
write outside what the program may touch.

The searching functions return offsets in place of pointers, and `none`
for the null pointer.

No `sorry`, no `axiom`, no `native_decide`.
-/
import Mathlib.Data.List.TakeWhile
import Mathlib.Data.List.Basic

namespace Sgopher.Lib

abbrev Bytes := List UInt8

/-- The text of a string literal, as bytes. -/
def ascii (s : String) : Bytes := s.toList.map fun c => UInt8.ofNat c.toNat

/-- `%u`: a number in decimal. -/
def decimal (n : Nat) : Bytes := (Nat.toDigits 10 n).map fun c => UInt8.ofNat c.toNat

/-! ## Writing -/

/-- Write bytes at an offset. -/
def store (capacity : Nat) (buf : Bytes) (pos : Nat) (bytes : Bytes) : Option Bytes :=
  if pos ≤ buf.length ∧ pos + bytes.length ≤ capacity then
    some (buf.take pos ++ bytes ++ buf.drop (pos + bytes.length))
  else none

/-- `stpcpy`: the string and its NUL; the offset returned is that of the
NUL. -/
def stpcpy (capacity : Nat) (dst : Bytes) (pos : Nat) (src : Bytes) : Option (Bytes × Nat) :=
  (store capacity dst pos (src ++ [0])).map fun buf => (buf, pos + src.length)

/-- `mempcpy`: the offset returned is behind the last byte copied. -/
def mempcpy (capacity : Nat) (dst : Bytes) (pos : Nat) (src : Bytes) : Option (Bytes × Nat) :=
  (store capacity dst pos src).map fun buf => (buf, pos + src.length)

/-- `snprintf`: what does not fit, with its NUL, is cut off. -/
def snprintf (size : Nat) (text : Bytes) : Bytes := text.take (size - 1)

/-! ## Reading -/

/-- The bytes up to the first NUL. -/
def untilNul (bytes : Bytes) : Bytes := bytes.takeWhile (· ≠ 0)

/-- The string that starts at an offset. -/
def cstring (buf : Bytes) (pos : Nat) : Option Bytes :=
  if 0 ∈ buf.drop pos then some (untilNul (buf.drop pos)) else none

/-- `memchr` of `n` bytes from an offset. -/
def memchr (buf : Bytes) (pos : Nat) (c : UInt8) (n : Nat) : Option Nat :=
  (((buf.drop pos).take n).findIdx? (· == c)).map (pos + ·)

/-- `memmem`: where the needle first occurs. -/
def memmem (needle : Bytes) : Bytes → Option Nat
  | [] => if needle = [] then some 0 else none
  | b :: rest =>
    if needle.isPrefixOf (b :: rest) then some 0 else (memmem needle rest).map (· + 1)

/-- `strrchr`: where a byte last occurs in a string. -/
def strrchr (s : Bytes) (c : UInt8) : Option Nat :=
  (s.reverse.findIdx? (· == c)).map fun i => s.length - 1 - i

/-- `memrchr` of the first `n` bytes. -/
def memrchr (s : Bytes) (c : UInt8) (n : Nat) : Option Nat := strrchr (s.take n) c

/-- `strcmp`: the difference of the first bytes that differ, where the NUL
counts as a byte. -/
def strcmp : Bytes → Bytes → Int
  | [], [] => 0
  | [], b :: _ => -b.toNat
  | a :: _, [] => a.toNat
  | a :: s, b :: t => if a = b then strcmp s t else a.toNat - b.toNat

/-- `tolower`, in the C locale. -/
def tolower (c : UInt8) : UInt8 := if 65 ≤ c ∧ c ≤ 90 then c + 32 else c

/-- `strcasestr`. -/
def strcasestr (haystack needle : Bytes) : Option Nat :=
  memmem (needle.map tolower) (haystack.map tolower)

/-! ## What the functions do -/

variable {capacity : Nat} {keep tail bytes : Bytes}

/-- Writing behind the part that matters, over at most as many bytes as
are written. -/
theorem store_end (htail : tail.length ≤ bytes.length)
    (hcap : keep.length + bytes.length ≤ capacity) :
    store capacity (keep ++ tail) keep.length bytes = some (keep ++ bytes) := by
  have hdrop : (keep ++ tail).drop (keep.length + bytes.length) = [] :=
    List.drop_eq_nil_of_le (by simp only [List.length_append]; omega)
  rw [store, if_pos ⟨by simp, hcap⟩, List.take_left, hdrop, List.append_nil]

/-- Writing at an offset, with nothing known of what lies behind. -/
theorem store_spec {buf : Bytes} {pos : Nat} (hpos : pos ≤ buf.length)
    (hcap : pos + bytes.length ≤ capacity) (hbuf : buf.length ≤ capacity) :
    ∃ buf', store capacity buf pos bytes = some buf' ∧ buf'.length ≤ capacity ∧
      buf.take pos ++ bytes <+: buf' := by
  refine ⟨_, if_pos ⟨hpos, hcap⟩, ?_, List.prefix_append _ _⟩
  simp only [List.length_append, List.length_take, List.length_drop]
  omega

theorem stpcpy_end (htail : tail.length ≤ bytes.length + 1)
    (hcap : keep.length + bytes.length + 1 ≤ capacity) :
    stpcpy capacity (keep ++ tail) keep.length bytes
      = some (keep ++ bytes ++ [0], (keep ++ bytes).length) := by
  have hs : store capacity (keep ++ tail) keep.length (bytes ++ [0])
      = some (keep ++ (bytes ++ [0])) :=
    store_end (by simpa using htail)
      (by simp only [List.length_append, List.length_singleton]; omega)
  rw [stpcpy, hs, Option.map_some, List.append_assoc, List.length_append]

theorem mempcpy_end (htail : tail.length ≤ bytes.length)
    (hcap : keep.length + bytes.length ≤ capacity) :
    mempcpy capacity (keep ++ tail) keep.length bytes
      = some (keep ++ bytes, (keep ++ bytes).length) := by
  rw [mempcpy, store_end htail hcap, Option.map_some, List.length_append]

/-- A first part that fits is not cut. -/
theorem snprintf_append {size : Nat} {head : Bytes} (h : head.length ≤ size - 1) (s : Bytes) :
    snprintf size (head ++ s) = head ++ s.take (size - 1 - head.length) := by
  rw [snprintf, List.take_append, List.take_of_length_le h]

theorem untilNul_initial (s : Bytes) : untilNul s <+: s := List.takeWhile_prefix _

theorem zero_not_mem_untilNul (s : Bytes) : 0 ∉ untilNul s := by
  intro h
  unfold untilNul at h
  have := List.all_eq_true.mp List.all_takeWhile 0 h
  simp at this

theorem untilNul_cons {b : UInt8} (s : Bytes) (h : b ≠ 0) :
    untilNul (b :: s) = b :: untilNul s := by
  rw [untilNul, List.takeWhile_cons_of_pos (by simpa using h)]
  rfl

/-- The part before the NUL stays; one that has a NUL hides the rest. -/
theorem untilNul_append (s t : Bytes) :
    untilNul (s ++ t) = if 0 ∈ s then untilNul s else s ++ untilNul t := by
  induction s with
  | nil => simp
  | cons b s ih =>
    by_cases hb : b = 0
    · subst hb
      simp [untilNul]
    · rw [List.cons_append, untilNul_cons _ hb, untilNul_cons _ hb, ih]
      by_cases hs : 0 ∈ s
      · rw [if_pos hs, if_pos (by simp [hs])]
      · rw [if_neg hs, if_neg (by simp [hs, Ne.symm hb]), List.cons_append]

theorem untilNul_eq_self {s : Bytes} (h : 0 ∉ s) : untilNul s = s := by
  have hnil : untilNul [] = [] := rfl
  have := untilNul_append s []
  rwa [if_neg h, List.append_nil, hnil, List.append_nil] at this

/-- What is left of a string behind a position in it. -/
theorem untilNul_drop : ∀ {s : Bytes} {n : Nat}, n ≤ (untilNul s).length →
    untilNul (s.drop n) = (untilNul s).drop n
  | _, 0, _ => by rw [List.drop_zero, List.drop_zero]
  | [], n + 1, h => absurd h (by simp [untilNul])
  | b :: s, n + 1, h => by
    have hb : b ≠ 0 := by
      rintro rfl
      simp [untilNul] at h
    rw [untilNul_cons s hb, List.length_cons] at h
    rw [untilNul_cons s hb, List.drop_succ_cons, List.drop_succ_cons]
    exact untilNul_drop (Nat.le_of_succ_le_succ h)

/-- A string that is cut off is not what it was cut from. -/
theorem untilNul_eq_self_iff {s : Bytes} : untilNul s = s ↔ 0 ∉ s :=
  ⟨fun h => h ▸ zero_not_mem_untilNul s, untilNul_eq_self⟩

/-- The string in a buffer that ends with a NUL. -/
theorem cstring_append_nul (s : Bytes) {pos : Nat} (h : pos ≤ s.length) :
    cstring (s ++ [0]) pos = some (untilNul (s.drop pos)) := by
  have hdrop : (s ++ [0]).drop pos = s.drop pos ++ [0] := List.drop_append_of_le_length h
  have hnil : untilNul [0] = [] := rfl
  rw [cstring, hdrop, if_pos (by simp), untilNul_append, hnil, List.append_nil]
  by_cases h0 : 0 ∈ s.drop pos
  · rw [if_pos h0]
  · rw [if_neg h0, untilNul_eq_self h0]

/-- What `memchr` finds, as a decomposition of the bytes it searches. -/
theorem memchr_cases (buf : Bytes) (pos : Nat) (c : UInt8) (n : Nat) :
    (memchr buf pos c n = none ∧ c ∉ (buf.drop pos).take n) ∨
      ∃ a b, (buf.drop pos).take n = a ++ c :: b ∧ c ∉ a ∧
        memchr buf pos c n = some (pos + a.length) := by
  unfold memchr
  generalize (buf.drop pos).take n = s
  induction s with
  | nil => exact Or.inl ⟨rfl, by simp⟩
  | cons x rest ih =>
    by_cases hx : x = c
    · subst hx
      exact Or.inr ⟨[], rest, rfl, by simp, by simp [List.findIdx?_cons]⟩
    · have hstep : (x :: rest).findIdx? (· == c) = (rest.findIdx? (· == c)).map (· + 1) := by
        simp [List.findIdx?_cons, hx]
      rcases ih with ⟨hn, hmem⟩ | ⟨a, b, hs, hc, hf⟩
      · refine Or.inl ⟨?_, by simp [Ne.symm hx, hmem]⟩
        rw [Option.map_eq_none_iff] at hn
        rw [hstep, hn]
        rfl
      · refine Or.inr ⟨x :: a, b, by simp [hs], by simp [Ne.symm hx, hc], ?_⟩
        rw [Option.map_eq_some_iff] at hf
        obtain ⟨i, hi, hp⟩ := hf
        rw [hstep, hi, Option.map_some, Option.map_some, List.length_cons]
        congr 1
        omega

/-! What is known of the bytes that are searched, in terms of the buffer. -/

theorem getElem?_of_window {buf a : Bytes} {pos n : Nat} {x : UInt8}
    (h : (buf.drop pos).take n = x :: a) : buf[pos]? = some x := by
  have hfirst : ((buf.drop pos).take n)[0]? = some x := by rw [h]; rfl
  have hn : 0 < n := by
    by_contra h0
    simp [show n = 0 by omega] at h
  rw [List.getElem?_take_of_lt hn, List.getElem?_drop, Nat.add_zero] at hfirst
  exact hfirst

theorem take_of_window {buf a b : Bytes} {pos n : Nat} (h : (buf.drop pos).take n = a ++ b) :
    (buf.drop pos).take a.length = a := by
  have hprefix : a <+: buf.drop pos := (List.prefix_append a b).trans (h ▸ List.take_prefix n _)
  exact (List.prefix_iff_eq_take.mp hprefix).symm

theorem drop_of_window {buf a b : Bytes} {pos n : Nat} {x : UInt8}
    (h : (buf.drop pos).take n = a ++ x :: b) :
    (buf.drop (pos + a.length + 1)).take (n - (a.length + 1)) = b := by
  have hdrop := congrArg (List.drop (a.length + 1)) h
  rw [List.drop_take, List.drop_drop] at hdrop
  rw [Nat.add_assoc, hdrop]
  simp

/-- `memmem` finds the first occurrence. -/
theorem memmem_eq_some_iff {needle : Bytes} (hn : needle ≠ []) :
    ∀ {buf : Bytes} {i : Nat}, memmem needle buf = some i ↔
      needle <+: buf.drop i ∧ ∀ j < i, ¬ needle <+: buf.drop j
  | [], i => by simp [memmem, hn]
  | b :: rest, i => by
    rw [memmem]
    by_cases hp : needle.isPrefixOf (b :: rest) = true
    · have hp' := List.isPrefixOf_iff_prefix.mp hp
      rw [if_pos hp]
      constructor
      · rintro ⟨⟩
        exact ⟨hp', fun j hj => absurd hj (by omega)⟩
      · rintro ⟨_, hfirst⟩
        rcases Nat.eq_zero_or_pos i with rfl | hi
        · rfl
        · exact absurd hp' (hfirst 0 hi)
    · have hp' : ¬ needle <+: b :: rest := fun h => hp (List.isPrefixOf_iff_prefix.mpr h)
      rw [if_neg hp, Option.map_eq_some_iff]
      constructor
      · rintro ⟨k, hk, rfl⟩
        obtain ⟨hpre, hfirst⟩ := (memmem_eq_some_iff hn).mp hk
        refine ⟨by simpa using hpre, fun j hj => ?_⟩
        cases j with
        | zero => exact hp'
        | succ j => exact hfirst j (by omega)
      · rintro ⟨hpre, hfirst⟩
        cases i with
        | zero => exact absurd hpre hp'
        | succ i =>
          exact ⟨i, (memmem_eq_some_iff hn).mpr ⟨hpre, fun j hj => hfirst (j + 1) (by omega)⟩, rfl⟩

theorem memmem_eq_none_iff {needle : Bytes} (hn : needle ≠ []) :
    ∀ {buf : Bytes}, memmem needle buf = none ↔ ∀ j, ¬ needle <+: buf.drop j
  | [] => by simp [memmem, hn]
  | b :: rest => by
    rw [memmem]
    by_cases hp : needle.isPrefixOf (b :: rest) = true
    · rw [if_pos hp]
      simp only [reduceCtorEq, false_iff, not_forall, not_not]
      exact ⟨0, List.isPrefixOf_iff_prefix.mp hp⟩
    · have hp' : ¬ needle <+: b :: rest := fun h => hp (List.isPrefixOf_iff_prefix.mpr h)
      rw [if_neg hp, Option.map_eq_none_iff, memmem_eq_none_iff hn]
      constructor
      · intro h j
        cases j with
        | zero => exact hp'
        | succ j => exact h j
      · exact fun h j => h (j + 1)

/-- `strrchr` finds the last occurrence. -/
theorem strrchr_cases (s : Bytes) (c : UInt8) :
    (strrchr s c = none ∧ c ∉ s) ∨
      ∃ a b, s = a ++ c :: b ∧ c ∉ b ∧ strrchr s c = some a.length := by
  rcases memchr_cases s.reverse 0 c s.length with ⟨hn, hmem⟩ | ⟨a, b, hs, hc, hf⟩
  · have htake : s.reverse.take s.length = s.reverse := List.take_of_length_le (by simp)
    rw [List.drop_zero, htake] at hmem
    refine Or.inl ⟨?_, by simpa using hmem⟩
    rw [memchr, List.drop_zero, htake, Option.map_eq_none_iff] at hn
    rw [strrchr, hn]
    rfl
  · have htake : s.reverse.take s.length = s.reverse := List.take_of_length_le (by simp)
    rw [List.drop_zero, htake] at hs
    have hs' : s = b.reverse ++ c :: a.reverse := by
      rw [← List.reverse_reverse s, hs]
      simp
    refine Or.inr ⟨b.reverse, a.reverse, hs', by simpa using hc, ?_⟩
    rw [memchr, List.drop_zero, htake, Option.map_eq_some_iff] at hf
    obtain ⟨i, hi, hp⟩ := hf
    rw [strrchr, hi, Option.map_some]
    have hlen := congrArg List.length hs'
    simp only [List.length_append, List.length_cons, List.length_reverse] at hlen ⊢
    congr 1
    omega

/-- The last occurrence is the one with none behind it. -/
theorem strrchr_append {c : UInt8} (a : Bytes) {b : Bytes} (hb : c ∉ b) :
    strrchr (a ++ c :: b) c = some a.length := by
  have hnone : b.reverse.findIdx? (· == c) = none := by
    rw [List.findIdx?_eq_none_iff]
    intro x hx
    simp only [List.mem_reverse] at hx
    simpa using fun h : x = c => hb (h ▸ hx)
  have hreverse : (a ++ c :: b).reverse = b.reverse ++ c :: a.reverse := by simp
  rw [strrchr, hreverse, List.findIdx?_append, hnone]
  simp only [List.findIdx?_cons, beq_self_eq_true, if_true, Option.none_or, Option.map_some,
    List.length_append, List.length_cons, List.length_reverse]
  congr 1
  omega

theorem decimal_digit {n : Nat} {b : UInt8} (h : b ∈ decimal n) :
    48 ≤ b.toNat ∧ b.toNat ≤ 57 := by
  obtain ⟨c, hc, rfl⟩ := List.mem_map.mp h
  have hdigit := Nat.isDigit_of_mem_toDigits (by decide) (by decide) hc
  simp only [Char.isDigit, Bool.and_eq_true, decide_eq_true_eq, ge_iff_le,
    UInt32.le_iff_toNat_le] at hdigit
  have hnat : c.toNat = c.val.toNat := rfl
  have hlow : '0'.val.toNat = 48 := rfl
  have hhigh : '9'.val.toNat = 57 := rfl
  rw [UInt8.toNat_ofNat']
  omega

/-- The number that a decimal is of. -/
theorem decimal_value (n : Nat) :
    Nat.ofDigitChars 10 ((decimal n).map fun b => Char.ofNat b.toNat) 0 = n := by
  have hchars : ((decimal n).map fun b => Char.ofNat b.toNat) = Nat.toDigits 10 n := by
    rw [decimal, List.map_map]
    refine (List.map_congr_left fun c hc => ?_).trans (List.map_id _)
    have hdigit := Nat.isDigit_of_mem_toDigits (by decide) (by decide) hc
    simp only [Char.isDigit, Bool.and_eq_true, decide_eq_true_eq, ge_iff_le,
      UInt32.le_iff_toNat_le] at hdigit
    have hnat : c.toNat = c.val.toNat := rfl
    have hhigh : '9'.val.toNat = 57 := rfl
    have hbyte : (UInt8.ofNat c.toNat).toNat = c.toNat := by
      rw [UInt8.toNat_ofNat']
      omega
    simp only [Function.comp_apply, hbyte, Char.ofNat_toNat, id]
  rw [hchars, Nat.ofDigitChars_ten_toDigits]

theorem decimal_inj {m n : Nat} (h : decimal m = decimal n) : m = n := by
  rw [← decimal_value m, h, decimal_value n]

/-! ## Comparing strings -/

theorem strcmp_swap : ∀ a b : Bytes, strcmp b a = -strcmp a b
  | [], [] => rfl
  | [], b :: t => by simp [strcmp]
  | a :: s, [] => by simp [strcmp]
  | a :: s, b :: t => by
    have ih := strcmp_swap s t
    by_cases hab : a = b
    · simp [strcmp, hab, ih]
    · simp only [strcmp, hab, Ne.symm hab, if_false]
      omega

theorem toNat_pos {b : UInt8} (h : b ≠ 0) : 0 < b.toNat := by
  rcases Nat.eq_zero_or_pos b.toNat with h0 | h0
  · exact absurd (UInt8.toNat_inj.mp h0) h
  · exact h0

/-- Strings that compare as equal are equal. -/
theorem strcmp_eq_zero : ∀ {a b : Bytes}, 0 ∉ a → 0 ∉ b → strcmp a b = 0 → a = b
  | [], [], _, _, _ => rfl
  | [], b :: t, _, hb, h => by
    have := toNat_pos (fun h0 => hb (h0 ▸ List.mem_cons_self))
    simp only [strcmp] at h
    omega
  | a :: s, [], ha, _, h => by
    have := toNat_pos (fun h0 => ha (h0 ▸ List.mem_cons_self))
    simp only [strcmp] at h
    omega
  | a :: s, b :: t, ha, hb, h => by
    by_cases hab : a = b
    · simp only [strcmp, hab, if_true] at h
      rw [hab, strcmp_eq_zero (fun h0 => ha (List.mem_cons_of_mem _ h0))
        (fun h0 => hb (List.mem_cons_of_mem _ h0)) h]
    · simp only [strcmp, hab, if_false] at h
      exact absurd (UInt8.toNat_inj.mp (by omega)) hab

/-- The order of strings. -/
theorem strcmp_trans : ∀ {a b c : Bytes}, 0 ∉ a → 0 ∉ b → strcmp a b ≤ 0 → strcmp b c ≤ 0 →
    strcmp a c ≤ 0
  | [], _, [], _, _, _, _ => by simp [strcmp]
  | [], _, c :: u, _, _, _, _ => by simp [strcmp]
  | a :: s, [], _, ha, _, hab, _ => by
    have := toNat_pos (fun h0 => ha (h0 ▸ List.mem_cons_self))
    simp only [strcmp] at hab
    omega
  | a :: s, b :: t, [], _, hb, _, hbc => by
    have := toNat_pos (fun h0 => hb (h0 ▸ List.mem_cons_self))
    simp only [strcmp] at hbc
    omega
  | a :: s, b :: t, c :: u, ha, hb, hab, hbc => by
    have ih := strcmp_trans (a := s) (b := t) (c := u) (fun h0 => ha (List.mem_cons_of_mem _ h0))
      fun h0 => hb (List.mem_cons_of_mem _ h0)
    have hne : ∀ {x y : UInt8}, x ≠ y → x.toNat ≠ y.toNat := fun h hn => h (UInt8.toNat_inj.mp hn)
    simp only [strcmp] at hab hbc ⊢
    by_cases h1 : a = b
    · subst h1
      by_cases h2 : a = c
      · subst h2
        simp only [if_true] at hab hbc ⊢
        exact ih hab hbc
      · simp only [h2, if_false] at hbc ⊢
        exact hbc
    · have := hne h1
      by_cases h2 : b = c
      · subst h2
        simp only [h1, if_false] at hab ⊢
        exact hab
      · have := hne h2
        simp only [h1, h2, if_false] at hab hbc
        have h3 : a ≠ c := by
          rintro rfl
          omega
        simp only [h3, if_false]
        omega

end Sgopher.Lib
