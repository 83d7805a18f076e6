/-
Sgopher.Lib.Search — `bsearch` of a sorted table.

The table is searched for an element that compares as equal to a key; the
comparison is a function of the element alone, its sign that of the C
comparison function for the key and the element. `Ordered` says what the
search rests on: the elements that are greater than the key come behind
those that are not, and the elements that are less before those that are
not. Then it finds an element if there is one, and where there is at most
one it finds what a search from the first element on would find. A table of
strings that is sorted strictly is in order for every key
(`bsearch_strings`).

No `sorry`, no `axiom`, no `native_decide`.
-/
import Mathlib.Data.List.Find
import Mathlib.Data.List.Pairwise
import Sgopher.Lib.Buffer

namespace Sgopher.Lib

variable {α : Type} {compar : α → Int} {table : List α}

/-- The loop of `bsearch`, between `l` and `u`. Each turn makes the part
that is searched shorter, so its length bounds the number of turns. -/
def bsearchLoop (compar : α → Int) (table : List α) : Nat → Nat → Nat → Option α
  | 0, _, _ => none
  | fuel + 1, l, u =>
    if l < u then
      let idx := (l + u) / 2
      match table[idx]? with
      | none => none
      | some p =>
        if compar p < 0 then bsearchLoop compar table fuel l idx
        else if 0 < compar p then bsearchLoop compar table fuel (idx + 1) u
        else some p
    else none

/-- `bsearch`. -/
def bsearch (compar : α → Int) (table : List α) : Option α :=
  bsearchLoop compar table table.length 0 table.length

/-- Two elements in the order of their comparisons with the key. -/
def KeyOrder (compar : α → Int) (a b : α) : Prop :=
  (compar a < 0 → compar b < 0) ∧ (0 < compar b → 0 < compar a)

/-- The table is in an order the key can be searched in. -/
def Ordered (compar : α → Int) (table : List α) : Prop := table.Pairwise (KeyOrder compar)

theorem Ordered.rel (h : Ordered compar table) {i j : Nat} {p q : α} (hp : table[i]? = some p)
    (hq : table[j]? = some q) (hij : i < j) : KeyOrder compar p q := by
  obtain ⟨hi, rfl⟩ := List.getElem?_eq_some_iff.mp hp
  obtain ⟨hj, rfl⟩ := List.getElem?_eq_some_iff.mp hq
  exact List.pairwise_iff_getElem.mp h i j hi hj hij

/-- What is found is in the table, and compares as equal. -/
theorem bsearchLoop_some {p : α} : ∀ {fuel l u : Nat}, bsearchLoop compar table fuel l u = some p →
    p ∈ table ∧ compar p = 0
  | 0, _, _, h => by cases h
  | fuel + 1, l, u, h => by
    rw [bsearchLoop] at h
    split at h
    · dsimp only at h
      split at h
      · cases h
      · rename_i q hq
        split at h
        · exact bsearchLoop_some h
        · split at h
          · exact bsearchLoop_some h
          · cases h
            exact ⟨List.mem_of_getElem? hq, by omega⟩
    · cases h

/-- What is not found has no equal between `l` and `u`. -/
theorem bsearchLoop_none (h : Ordered compar table) : ∀ {fuel l u : Nat}, u ≤ l + fuel →
    u ≤ table.length → bsearchLoop compar table fuel l u = none →
    ∀ i p, l ≤ i → i < u → table[i]? = some p → compar p ≠ 0
  | 0, l, u, hfuel, _, _, i, p, hl, hiu, _ => by omega
  | fuel + 1, l, u, hfuel, hu, hnone, i, q, hl, hiu, hq => by
    have hidx : (l + u) / 2 < table.length := by omega
    have hp := List.getElem?_eq_getElem hidx
    generalize table[(l + u) / 2] = p at hp
    rw [bsearchLoop, if_pos (Nat.lt_of_le_of_lt hl hiu)] at hnone
    simp only [hp] at hnone
    by_cases hless : compar p < 0
    · -- the key is less than the middle, and than all behind it
      rw [if_pos hless] at hnone
      rcases Nat.lt_trichotomy i ((l + u) / 2) with hi | rfl | hi
      · exact bsearchLoop_none h (by omega) (by omega) hnone i q hl hi hq
      · rw [hp] at hq
        cases hq
        omega
      · have horder := (h.rel hp hq hi).1 hless
        omega
    · rw [if_neg hless] at hnone
      by_cases hgreater : 0 < compar p
      · -- the key is greater than the middle, and than all before it
        rw [if_pos hgreater] at hnone
        rcases Nat.lt_trichotomy i ((l + u) / 2) with hi | rfl | hi
        · have horder := (h.rel hq hp hi).2 hgreater
          omega
        · rw [hp] at hq
          cases hq
          omega
        · exact bsearchLoop_none h (by omega) hu hnone i q hi hiu hq
      · rw [if_neg hgreater] at hnone
        cases hnone

theorem bsearch_some {p : α} (h : bsearch compar table = some p) : p ∈ table ∧ compar p = 0 :=
  bsearchLoop_some h

theorem bsearch_none (h : Ordered compar table) (hnone : bsearch compar table = none) {p : α}
    (hp : p ∈ table) : compar p ≠ 0 := by
  obtain ⟨i, hi, rfl⟩ := List.mem_iff_getElem.mp hp
  exact bsearchLoop_none h (by omega) (Nat.le_refl _) hnone i _ (Nat.zero_le _) hi
    (List.getElem?_eq_getElem hi)

/-- **`bsearch`** finds what a linear search finds, in a table with at most
one element that compares as equal. -/
theorem bsearch_eq_find? (h : Ordered compar table)
    (hunique : ∀ p ∈ table, ∀ q ∈ table, compar p = 0 → compar q = 0 → p = q) :
    bsearch compar table = table.find? fun p => compar p == 0 := by
  cases hrun : bsearch compar table with
  | none =>
    rw [eq_comm, List.find?_eq_none]
    exact fun p hp => by simpa using bsearch_none h hrun hp
  | some p =>
    obtain ⟨hp, hzero⟩ := bsearch_some hrun
    cases hfind : table.find? fun p => compar p == 0 with
    | none =>
      have := List.find?_eq_none.mp hfind p hp
      simp [hzero] at this
    | some q =>
      have hq : compar q = 0 := by simpa using List.find?_some hfind
      rw [hunique p hp q (List.mem_of_find?_eq_some hfind) hzero hq]

/-! ## Tables of strings -/

section Strings

variable {β : Type} {entries : List (Bytes × β)} {key : Bytes}

/-- The table is in order for every key. -/
theorem strcmp_ordered (hsorted : entries.Pairwise fun p q => strcmp p.1 q.1 < 0)
    (hentries : ∀ p ∈ entries, 0 ∉ p.1) (hkey : 0 ∉ key) :
    Ordered (fun p => strcmp key p.1) entries := by
  refine hsorted.imp_of_mem fun {p q} hp hq hpq => ?_
  have htrans : strcmp key p.1 ≤ 0 → strcmp key q.1 ≤ 0 := fun hle =>
    strcmp_trans hkey (hentries p hp) hle (Int.le_of_lt hpq)
  refine ⟨fun (hless : strcmp key p.1 < 0) => ?_, fun (hgreater : 0 < strcmp key q.1) => ?_⟩
  · show strcmp key q.1 < 0
    have hle := htrans (Int.le_of_lt hless)
    -- a key that is equal to the greater string is not less than the smaller one
    have hne : strcmp key q.1 ≠ 0 := fun hzero => by
      rw [strcmp_eq_zero hkey (hentries q hq) hzero, strcmp_swap] at hless
      omega
    omega
  · show 0 < strcmp key p.1
    by_contra hle
    have := htrans (by omega)
    omega

theorem strcmp_self (a : Bytes) : strcmp a a = 0 := by
  have := strcmp_swap a a
  omega

/-- In a table of strings that is sorted strictly, `bsearch` finds for every
key what a linear search finds. -/
theorem bsearch_strings (hsorted : entries.Pairwise fun p q => strcmp p.1 q.1 < 0)
    (hentries : ∀ p ∈ entries, 0 ∉ p.1) (hkey : 0 ∉ key) :
    bsearch (fun p => strcmp key p.1) entries = entries.find? fun p => p.1 == key := by
  have hequal : ∀ p ∈ entries, strcmp key p.1 = 0 ↔ p.1 = key := fun p hp =>
    ⟨fun hzero => (strcmp_eq_zero hkey (hentries p hp) hzero).symm, fun he => he ▸ strcmp_self _⟩
  have hdistinct : entries.Pairwise fun p q => p.1 ≠ q.1 := hsorted.imp fun {p q} hlt he => by
    rw [he, strcmp_self] at hlt
    exact Int.lt_irrefl 0 hlt
  have hsymm : Std.Symm fun p q : Bytes × β => p.1 ≠ q.1 := ⟨fun _ _ h => h.symm⟩
  have hunique : ∀ p ∈ entries, ∀ q ∈ entries, strcmp key p.1 = 0 → strcmp key q.1 = 0 → p = q := by
    intro p hp q hq hp0 hq0
    by_contra hne
    exact hdistinct.forall hp hq hne (((hequal p hp).mp hp0).trans ((hequal q hq).mp hq0).symm)
  rw [bsearch_eq_find? (strcmp_ordered hsorted hentries hkey) hunique]
  refine List.find?_congr fun p hp => ?_
  rw [Bool.eq_iff_iff, beq_iff_eq, beq_iff_eq]
  exact hequal p hp

end Strings

end Sgopher.Lib
