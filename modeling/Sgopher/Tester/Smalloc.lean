/-
Sgopher.Tester.Smalloc — the shared memory of `smalloc.c`, which the
benchmark counts in.

A block is a mapping whose first word is its own length, and `sfree`
reads the length from there. `size_t` has 64 bits, and both the product
of `scalloc` and the sum of `smalloc` are computed in it. The product is
checked. The sum is not: for the last seven sizes `length` wraps around
to less than a word, and the system maps what it is asked for.
`shared_allocation_iff` is the exact statement, for every size and every
answer of `mmap`; `smalloc_wraps` is the last size there is.

What the system maps is at least `length` bytes, and less than a page
more. The `mmap` of a 64-bit system does not fail with `EOVERFLOW` on an
offset of 0, which is part of its answers' type.

No `sorry`, no `axiom`, no `native_decide`.
-/
import Mathlib.Algebra.GroupWithZero.Nat
import Mathlib.Algebra.Order.BigOperators.Group.List
import Mathlib.Algebra.Order.Group.Nat
import Mathlib.Logic.Function.Basic
import Mathlib.Logic.Relation
import Sgopher.Posix

namespace Sgopher.Tester

/-! ## The source -/

abbrev EOVERFLOW : Errno := .other 75

/-- `sizeof(size_t)`. -/
def SIZEOF_SIZE_T : UInt64 := 8

/-- What `mmap` is answered: an address, or an error. -/
inductive MmapAnswer where
  | mapped (start : Nat)
  | failed (e : Errno) (h : e ≠ EOVERFLOW)

structure Mapping where
  start : Nat
  length : UInt64
  deriving DecidableEq

/-- The mappings there are, the newest first, and the `size_t` stored at
each address. -/
structure Memory where
  mappings : List Mapping
  word : Nat → UInt64

/-- `mmap(NULL, length, …)`, which refuses an empty mapping. -/
def mmap (length : UInt64) (ans : MmapAnswer) (m : Memory) : Memory × Except Errno Nat :=
  if length = 0 then (m, .error .EINVAL)
  else match ans with
    | .failed e _ => (m, .error e)
    | .mapped start => ({ m with mappings := ⟨start, length⟩ :: m.mappings }, .ok start)

/-- `smalloc`. -/
def smalloc (size : UInt64) (ans : MmapAnswer) (m : Memory) : Memory × Except Errno Nat :=
  if size = 0 then (m, .error .EINVAL)
  else
    let length := SIZEOF_SIZE_T + size
    match mmap length ans m with
    | (m, .error e) => (m, .error e)
    | (m, .ok ptr) => ({ m with word := Function.update m.word ptr length }, .ok (ptr + 8))

/-- `scalloc`. -/
def scalloc (nmemb size : UInt64) (ans : MmapAnswer) (m : Memory) : Memory × Except Errno Nat :=
  if nmemb = 0 ∨ size = 0 then (m, .error .EINVAL)
  else
    let total := nmemb * size
    if total / nmemb ≠ size then (m, .error EOVERFLOW)
    else smalloc total ans m

/-- `sfree`: the memory afterwards, and the `munmap` it makes. -/
def sfree (ptr : Option Nat) (m : Memory) : Memory × Option Mapping :=
  match ptr with
  | none => (m, none)
  | some ptr =>
    let base := ptr - 8
    let unmapped : Mapping := ⟨base, m.word base⟩
    ({ m with mappings := m.mappings.erase unmapped }, some unmapped)

/-! ## What the functions are for -/

/-- NULL, or a pointer behind the header of a new mapping that has room
for the header and `n` bytes. -/
def HandsOut (m : Memory) (n : Nat) (r : Memory × Except Errno Nat) : Prop :=
  ∀ p, r.2 = .ok p → ∃ mapping, r.1.mappings = mapping :: m.mappings ∧ p = mapping.start + 8 ∧
    8 + n ≤ mapping.length.toNat

/-- What may happen to the memory while a block is in use: the program
writes where it likes, but not to the header at `start`, and takes and
frees other blocks, which the system does not put there. -/
inductive Memory.Step (start : Nat) : Memory → Memory → Prop where
  | write (m : Memory) (word : Nat → UInt64) (h : word start = m.word start) :
      Step start m { m with word := word }
  | smalloc (m : Memory) (size : UInt64) (ans : MmapAnswer) (h : ans ≠ .mapped start) :
      Step start m (smalloc size ans m).1
  | scalloc (m : Memory) (nmemb size : UInt64) (ans : MmapAnswer) (h : ans ≠ .mapped start) :
      Step start m (scalloc nmemb size ans m).1
  | sfree (m : Memory) (ptr : Option Nat) : Step start m (sfree ptr m).1

/-- Whenever `sfree` gets the pointer, it unmaps the mapping that was
made for it, from its start and at its length. -/
def FreesExactly (m : Memory) (r : Memory × Except Errno Nat) : Prop :=
  ∀ p, r.2 = .ok p → ∃ mapping, r.1.mappings = mapping :: m.mappings ∧ p = mapping.start + 8 ∧
    ∀ m', Relation.ReflTransGen (Memory.Step mapping.start) r.1 m' →
      (Tester.sfree (some p) m').2 = some mapping

/-- The shared allocation never hands out less than asked, reports an
overflow exactly when there is one, and frees what it mapped. -/
structure SharedAllocation (nmemb size : UInt64) (ans : MmapAnswer) (m : Memory) : Prop where
  smalloc : HandsOut m size.toNat (smalloc size ans m)
  scalloc : HandsOut m (nmemb.toNat * size.toNat) (scalloc nmemb size ans m)
  overflow : (Tester.scalloc nmemb size ans m).2 = .error EOVERFLOW ↔
    nmemb ≠ 0 ∧ size ≠ 0 ∧ 2 ^ 64 ≤ nmemb.toNat * size.toNat
  smallocFreed : FreesExactly m (Tester.smalloc size ans m)
  scallocFreed : FreesExactly m (Tester.scalloc nmemb size ans m)

/-- A block of `n` bytes, with its header, has a length in `size_t`; or
the system maps nothing for the length the sum wraps around to. -/
def Fits (n : Nat) (ans : MmapAnswer) : Prop :=
  8 + n < 2 ^ 64 ∨ 8 + n = 2 ^ 64 ∨ (∀ start, ans ≠ .mapped start)

/-! ## The arithmetic -/

/-- The check of `scalloc`: the division gives the factor back exactly
when the product did not wrap around. -/
theorem mul_div_eq_iff {nmemb : UInt64} (h : nmemb ≠ 0) (size : UInt64) :
    nmemb * size / nmemb = size ↔ nmemb.toNat * size.toNat < 2 ^ 64 := by
  have hpos : 0 < nmemb.toNat := by
    rcases Nat.eq_zero_or_pos nmemb.toNat with h0 | h0
    · exact absurd (UInt64.toNat_inj.mp (h0.trans UInt64.toNat_zero.symm)) h
    · exact h0
  rw [← UInt64.toNat_inj, UInt64.toNat_div, UInt64.toNat_mul]
  constructor
  · intro hdiv
    have hle : nmemb.toNat * size.toNat ≤ nmemb.toNat * size.toNat % 2 ^ 64 := by
      calc nmemb.toNat * size.toNat
          = nmemb.toNat * (nmemb.toNat * size.toNat % 2 ^ 64 / nmemb.toNat) := by rw [hdiv]
        _ ≤ nmemb.toNat * size.toNat % 2 ^ 64 := Nat.mul_div_le _ _
    exact Nat.lt_of_le_of_lt hle (Nat.mod_lt _ (by decide))
  · intro hlt
    rw [Nat.mod_eq_of_lt hlt, Nat.mul_div_cancel_left _ hpos]

/-- The length `smalloc` computes. -/
theorem length_toNat (size : UInt64) :
    (SIZEOF_SIZE_T + size).toNat = (8 + size.toNat) % 2 ^ 64 := UInt64.toNat_add ..

/-! ## Each function -/

/-- What `smalloc` can do. -/
theorem smalloc_cases (size : UInt64) (ans : MmapAnswer) (m : Memory) :
    (∃ e, e ≠ EOVERFLOW ∧ smalloc size ans m = (m, .error e) ∧
        (size = 0 ∨ SIZEOF_SIZE_T + size = 0 ∨ ∀ start, ans ≠ .mapped start)) ∨
      ∃ start, ans = .mapped start ∧ size ≠ 0 ∧ SIZEOF_SIZE_T + size ≠ 0 ∧
        smalloc size ans m = (⟨⟨start, SIZEOF_SIZE_T + size⟩ :: m.mappings,
          Function.update m.word start (SIZEOF_SIZE_T + size)⟩, .ok (start + 8)) := by
  by_cases h0 : size = 0
  · exact Or.inl ⟨.EINVAL, nofun, by simp [smalloc, h0], Or.inl h0⟩
  · by_cases hl : SIZEOF_SIZE_T + size = 0
    · exact Or.inl ⟨.EINVAL, nofun, by simp [smalloc, mmap, h0, hl], Or.inr (Or.inl hl)⟩
    · cases ans with
      | failed e he => exact Or.inl ⟨e, he, by simp [smalloc, mmap, h0, hl], by simp⟩
      | mapped start => exact Or.inr ⟨start, rfl, h0, hl, by simp [smalloc, mmap, h0, hl]⟩

/-- What `scalloc` can do. -/
theorem scalloc_cases (nmemb size : UInt64) (ans : MmapAnswer) (m : Memory) :
    ((nmemb = 0 ∨ size = 0) ∧ scalloc nmemb size ans m = (m, .error .EINVAL)) ∨
    (nmemb ≠ 0 ∧ size ≠ 0 ∧ 2 ^ 64 ≤ nmemb.toNat * size.toNat ∧
      scalloc nmemb size ans m = (m, .error EOVERFLOW)) ∨
    (nmemb ≠ 0 ∧ size ≠ 0 ∧ (nmemb * size).toNat = nmemb.toNat * size.toNat ∧
      scalloc nmemb size ans m = smalloc (nmemb * size) ans m) := by
  by_cases h0 : nmemb = 0 ∨ size = 0
  · exact Or.inl ⟨h0, if_pos h0⟩
  · obtain ⟨hn, hs⟩ := not_or.mp h0
    have hiff := mul_div_eq_iff hn size
    by_cases hlt : nmemb.toNat * size.toNat < 2 ^ 64
    · refine Or.inr (Or.inr ⟨hn, hs, ?_, ?_⟩)
      · rw [UInt64.toNat_mul, Nat.mod_eq_of_lt hlt]
      · rw [scalloc, if_neg h0]
        exact if_neg (not_not.mpr (hiff.mpr hlt))
    · refine Or.inr (Or.inl ⟨hn, hs, Nat.not_lt.mp hlt, ?_⟩)
      rw [scalloc, if_neg h0]
      exact if_pos fun hd => hlt (hiff.mp hd)

/-- The header of a block is as `smalloc` left it. -/
theorem Memory.Step.word {start : Nat} {m m' : Memory} (h : Memory.Step start m m') :
    m'.word start = m.word start := by
  have hsmalloc : ∀ (m : Memory) size ans, ans ≠ .mapped start →
      (Tester.smalloc size ans m).1.word start = m.word start := fun m size ans hne => by
    rcases smalloc_cases size ans m with ⟨e, _, hr, _⟩ | ⟨start', hans, _, _, hr⟩ <;> rw [hr]
    exact Function.update_of_ne (fun he : start = start' => hne (he ▸ hans)) _ _
  cases h with
  | write _ h => exact h
  | smalloc _ _ h => exact hsmalloc _ _ _ h
  | scalloc nmemb size ans h =>
    rcases scalloc_cases nmemb size ans m with ⟨_, hr⟩ | ⟨_, _, _, hr⟩ | ⟨_, _, _, hr⟩ <;> rw [hr]
    exact hsmalloc _ _ _ h
  | sfree ptr => cases ptr <;> rfl

theorem smalloc_freesExactly (size : UInt64) (ans : MmapAnswer) (m : Memory) :
    FreesExactly m (smalloc size ans m) := by
  intro p hp
  rcases smalloc_cases size ans m with ⟨e, _, hr, _⟩ | ⟨start, _, _, _, hr⟩ <;> rw [hr] at hp ⊢
  · cases hp
  · cases hp
    refine ⟨_, rfl, rfl, fun m' hpath => ?_⟩
    have hword : m'.word start = SIZEOF_SIZE_T + size := by
      induction hpath with
      | refl => exact Function.update_self ..
      | tail _ hs ih => rw [hs.word, ih]
    simp [sfree, hword]

/-- `smalloc` hands out enough exactly where the block fits. -/
theorem smalloc_handsOut_iff (size : UInt64) (ans : MmapAnswer) (m : Memory) :
    HandsOut m size.toNat (smalloc size ans m) ↔ Fits size.toNat ans := by
  have hlen := length_toNat size
  have hlt := size.toNat_lt
  rcases smalloc_cases size ans m with ⟨e, _, hr, hwhy⟩ | ⟨start, hans, _, hne, hr⟩ <;> rw [hr]
  · refine ⟨fun _ => ?_, nofun⟩
    rcases hwhy with rfl | h0 | h
    · exact Or.inl (by decide)
    · rw [h0, UInt64.toNat_zero] at hlen
      exact Or.inr (Or.inl (by omega))
    · exact Or.inr (Or.inr h)
  · constructor
    · intro h
      obtain ⟨mapping, hm, _, hroom⟩ := h _ rfl
      have : mapping = ⟨start, SIZEOF_SIZE_T + size⟩ := (List.cons.inj hm).1.symm
      rw [this] at hroom
      simp only [hlen] at hroom
      exact Or.inl (by omega)
    · rintro (h | h | h) p hp
      · cases hp
        exact ⟨_, rfl, rfl, Nat.le_of_eq (hlen.trans (Nat.mod_eq_of_lt h)).symm⟩
      · rw [h, Nat.mod_self] at hlen
        exact absurd (UInt64.toNat_inj.mp (hlen.trans UInt64.toNat_zero.symm)) hne
      · exact absurd hans (h start)

/-! ## When the allocation keeps its word -/

/-- The shared allocation keeps its word exactly where the sizes that get
past the checks fit, with the header, in `size_t`; or `mmap` fails. -/
theorem shared_allocation_iff (nmemb size : UInt64) (ans : MmapAnswer) (m : Memory) :
    SharedAllocation nmemb size ans m ↔
      Fits size.toNat ans ∧
        (nmemb.toNat * size.toNat < 2 ^ 64 → Fits (nmemb.toNat * size.toNat) ans) := by
  have hscalloc : (HandsOut m (nmemb.toNat * size.toNat) (scalloc nmemb size ans m) ↔
      (nmemb.toNat * size.toNat < 2 ^ 64 → Fits (nmemb.toNat * size.toNat) ans)) ∧
      ((scalloc nmemb size ans m).2 = .error EOVERFLOW ↔
        nmemb ≠ 0 ∧ size ≠ 0 ∧ 2 ^ 64 ≤ nmemb.toNat * size.toNat) ∧
      FreesExactly m (scalloc nmemb size ans m) := by
    rcases scalloc_cases nmemb size ans m with
      ⟨h0, hr⟩ | ⟨hn, hs, hover, hr⟩ | ⟨hn, hs, hmul, hr⟩ <;> rw [hr]
    · have hzero : nmemb.toNat * size.toNat = 0 := by
        rcases h0 with rfl | rfl <;> simp
      refine ⟨⟨fun _ _ => Or.inl (by omega), fun _ => nofun⟩, ⟨nofun, fun h => ?_⟩, nofun⟩
      exact absurd h0 (not_or.mpr ⟨h.1, h.2.1⟩)
    · exact ⟨⟨fun _ h => absurd h (Nat.not_lt.mpr hover), fun _ => nofun⟩,
        ⟨fun _ => ⟨hn, hs, hover⟩, fun _ => rfl⟩, nofun⟩
    · have hlt : nmemb.toNat * size.toNat < 2 ^ 64 := hmul ▸ (nmemb * size).toNat_lt
      have hiff := smalloc_handsOut_iff (nmemb * size) ans m
      rw [hmul] at hiff
      refine ⟨⟨fun h _ => hiff.mp h, fun h => hiff.mpr (h hlt)⟩, ⟨fun he => ?_, fun h => ?_⟩,
        smalloc_freesExactly _ ans m⟩
      · rcases smalloc_cases (nmemb * size) ans m with ⟨e, hne, hr', _⟩ | ⟨_, _, _, _, hr'⟩ <;>
          rw [hr'] at he
        · exact absurd (Except.error.inj he) hne
        · cases he
      · exact absurd h.2.2 (Nat.not_le.mpr hlt)
  constructor
  · intro h
    exact ⟨(smalloc_handsOut_iff size ans m).mp h.smalloc, hscalloc.1.mp h.scalloc⟩
  · rintro ⟨hs, hc⟩
    exact ⟨(smalloc_handsOut_iff size ans m).mpr hs, hscalloc.1.mpr hc, hscalloc.2.1,
      smalloc_freesExactly size ans m, hscalloc.2.2⟩

/-- The largest size of all: the header and the block add up to seven
bytes. -/
theorem smalloc_wraps :
    ¬ SharedAllocation 1 (-1) (.mapped 4096) ⟨[], fun _ => 0⟩ := by
  intro h
  obtain ⟨mapping, hm, _, hroom⟩ := h.smalloc 4104 (by decide)
  have : mapping = ⟨4096, 7⟩ := (List.cons.inj hm).1.symm
  subst this
  revert hroom
  decide

end Sgopher.Tester
