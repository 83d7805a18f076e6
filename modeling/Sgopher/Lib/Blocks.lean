/-
Sgopher.Lib.Blocks — arrays in blocks of memory that can be resized.

A block is the list of its slots, with what was last stored in each of
them; a slot that nothing was stored in yet holds `none`. `store` and
`first` are undefined outside of a block, and reading a slot that holds
nothing is undefined too.

`Holds` says that a list is in the first slots of a block, in order. A
store behind it adds an element, and no resize to a size that is large
enough loses, repeats or moves one.

No `sorry`, no `axiom`, no `native_decide`.
-/
import Mathlib.Data.List.Basic

namespace Sgopher.Lib

/-- A block of memory for elements of one type. -/
abbrev Block (α : Type) := List (Option α)

namespace Block

variable {α : Type}

/-- `calloc`. -/
def calloc (n : Nat) : Block α := List.replicate n none

/-- `b[i] = x`. -/
def store (b : Block α) (i : Nat) (x : α) : Option (Block α) :=
  if i < b.length then some (b.set i (some x)) else none

/-- `reallocarray`: the slots that both blocks have are copied. -/
def resized (b : Block α) (n : Nat) : Block α := b.take n ++ List.replicate (n - b.length) none

/-- What is in the slots of a list, if there is something in each. -/
def contents : Block α → Option (List α)
  | [] => some []
  | none :: _ => none
  | some x :: rest => (contents rest).map (x :: ·)

/-- What is in the first `n` slots. -/
def first (b : Block α) (n : Nat) : Option (List α) :=
  if n ≤ b.length then contents (b.take n) else none

/-- The first slots hold the elements of a list. -/
def Holds (b : Block α) (xs : List α) : Prop := xs.map some <+: b

variable {b : Block α} {xs : List α}

theorem calloc_length (n : Nat) : (calloc n : Block α).length = n := List.length_replicate

theorem resized_length (b : Block α) (n : Nat) : (b.resized n).length = n := by
  rw [resized, List.length_append, List.length_take, List.length_replicate]
  omega

theorem contents_map_some (xs : List α) : contents (xs.map some) = some xs := by
  induction xs with
  | nil => rfl
  | cons x rest ih => rw [List.map_cons, contents, ih, Option.map_some]

theorem calloc_holds (n : Nat) : (calloc n : Block α).Holds [] := List.nil_prefix

theorem Holds.length_le (h : b.Holds xs) : xs.length ≤ b.length := by
  have := List.IsPrefix.length_le h
  rwa [List.length_map] at this

/-- A store in the slot behind the elements adds one. -/
theorem Holds.store (h : b.Holds xs) (hroom : xs.length < b.length) (x : α) :
    ∃ b', b.store xs.length x = some b' ∧ b'.length = b.length ∧ b'.Holds (xs ++ [x]) := by
  refine ⟨_, if_pos hroom, List.length_set, ?_⟩
  obtain ⟨rest, rfl⟩ := h
  have hlen : xs.length = (xs.map some).length := (List.length_map _).symm
  cases rest with
  | nil =>
    rw [List.append_nil, List.length_map] at hroom
    exact absurd hroom (Nat.lt_irrefl _)
  | cons slot rest =>
    refine ⟨rest, ?_⟩
    rw [List.set_append_right _ _ (Nat.le_of_eq hlen.symm), List.length_map, Nat.sub_self,
      List.set_cons_zero, List.map_append, List.append_assoc]
    rfl

/-- A resize keeps what there is room for. -/
theorem Holds.resized (h : b.Holds xs) {n : Nat} (hn : xs.length ≤ n) : (b.resized n).Holds xs := by
  have hprefix : xs.map some <+: b.take n := by
    rw [List.prefix_take_iff, List.length_map]
    exact ⟨h, hn⟩
  exact hprefix.trans (List.prefix_append _ _)

/-- The elements can be read. -/
theorem Holds.first (h : b.Holds xs) : b.first xs.length = some xs := by
  have htake : b.take xs.length = xs.map some := by
    have := List.prefix_iff_eq_take.mp h
    rw [List.length_map] at this
    exact this.symm
  rw [Block.first, if_pos h.length_le, htake, contents_map_some]

end Block

end Sgopher.Lib
