/-
Sgopher.Lib.Heap — a heap of records that keeps its own accounts.

A `Heap α` maps addresses to records. An allocation takes any address
that is not in use, one freed before included, as an allocator does; so
an address alone does not tell two records apart. Each allocation
therefore also gets a serial number, and the heap keeps the list of the
numbers freed so far. The fields `cell_live` and `account` make a heap
with a lost or a twice-freed record impossible to build: the numbers
freed together with those of the live records are exactly the numbers
given out, each once. The field `peak` is the greatest number of records
that were live at once, so a bound on it is one for every moment so far.

`free`, `read` and `write` are undefined (`none`) on an address that is
not live, which a program over the heap turns into a fault.

No `sorry`, no `axiom`, no `native_decide`.
-/
import Mathlib.Algebra.GroupWithZero.Nat
import Mathlib.Algebra.Order.BigOperators.Group.List
import Mathlib.Algebra.Order.Group.Nat
import Mathlib.Data.List.Perm.Basic
import Mathlib.Data.List.Nodup
import Mathlib.Logic.Function.Basic

namespace Sgopher.Lib

/-- A heap of records of type `α`; addresses are natural numbers. -/
structure Heap (α : Type) where
  cell : Nat → Option α
  live : List Nat
  serial : Nat → Nat
  allocated : Nat
  freed : List Nat
  peak : Nat
  live_nodup : live.Nodup
  cell_live : ∀ a, (cell a).isSome = true ↔ a ∈ live
  account : (freed ++ live.map serial).Perm (List.range allocated)
  live_le : live.length ≤ peak

namespace Heap

variable {α : Type}

/-- The heap before the first allocation. -/
def empty : Heap α where
  cell := fun _ => none
  live := []
  serial := fun _ => 0
  allocated := 0
  freed := []
  peak := 0
  live_nodup := List.nodup_nil
  cell_live := by simp
  account := by simp
  live_le := Nat.le_refl _

/-- The address an allocation gets: the one asked for when it is free
(and not the null pointer), else one past everything in use. -/
def fresh (h : Heap α) (want : Nat) : Nat :=
  if want ≠ 0 ∧ want ∉ h.live then want else h.live.sum + 1

theorem fresh_not_live (h : Heap α) (want : Nat) : h.fresh want ∉ h.live := by
  unfold fresh
  split
  · rename_i hw; exact hw.2
  · intro hm
    have := List.le_sum_of_mem hm
    omega

theorem fresh_ne_zero (h : Heap α) (want : Nat) : h.fresh want ≠ 0 := by
  unfold fresh
  split
  · rename_i hw; exact hw.1
  · omega

theorem map_serial_update {l : List Nat} {a : Nat} (f : Nat → Nat) (n : Nat) (ha : a ∉ l) :
    l.map (Function.update f a n) = l.map f :=
  List.map_congr_left fun b hb =>
    Function.update_of_ne (fun he : b = a => ha (he ▸ hb)) _ _

/-- Allocate a record. -/
def alloc (h : Heap α) (want : Nat) (v : α) : Heap α where
  cell := Function.update h.cell (h.fresh want) (some v)
  live := h.fresh want :: h.live
  serial := Function.update h.serial (h.fresh want) h.allocated
  allocated := h.allocated + 1
  freed := h.freed
  peak := max h.peak (h.live.length + 1)
  live_nodup := List.nodup_cons.mpr ⟨fresh_not_live h want, h.live_nodup⟩
  cell_live := by
    intro b
    by_cases hb : b = h.fresh want
    · subst hb; simp
    · rw [Function.update_of_ne hb, h.cell_live b]
      simp [hb]
  account := by
    rw [List.map_cons, Function.update_self,
      map_serial_update h.serial h.allocated (fresh_not_live h want), List.range_succ]
    exact List.perm_middle.trans
      ((List.Perm.cons _ h.account).trans (List.perm_append_singleton _ _).symm)
  live_le := Nat.le_max_right ..

/-- Free the record at an address that is live. -/
def freeLive (h : Heap α) (a : Nat) (ha : a ∈ h.live) : Heap α where
  cell := Function.update h.cell a none
  live := h.live.erase a
  serial := h.serial
  allocated := h.allocated
  freed := h.freed ++ [h.serial a]
  peak := h.peak
  live_nodup := h.live_nodup.erase a
  cell_live := by
    intro b
    by_cases hb : b = a
    · subst hb; simp [h.live_nodup.mem_erase_iff]
    · rw [Function.update_of_ne hb, h.cell_live b, h.live_nodup.mem_erase_iff]
      simp [hb]
  account := by
    have hp : (h.live.map h.serial).Perm (h.serial a :: (h.live.erase a).map h.serial) :=
      (List.perm_cons_erase ha).map h.serial
    rw [List.append_assoc, List.singleton_append]
    exact ((List.Perm.append_left _ hp).symm).trans h.account
  live_le := (List.erase_sublist.length_le).trans h.live_le

/-- Free the record at an address; undefined unless it is live. -/
def free (h : Heap α) (a : Nat) : Option (Heap α) :=
  if ha : a ∈ h.live then some (h.freeLive a ha) else none

/-- Overwrite the record at an address that is live. -/
def writeLive (h : Heap α) (a : Nat) (v : α) (ha : a ∈ h.live) : Heap α where
  cell := Function.update h.cell a (some v)
  live := h.live
  serial := h.serial
  allocated := h.allocated
  freed := h.freed
  peak := h.peak
  live_nodup := h.live_nodup
  cell_live := by
    intro b
    by_cases hb : b = a
    · subst hb; simp [ha]
    · rw [Function.update_of_ne hb, h.cell_live b]
  account := h.account
  live_le := h.live_le

/-- Overwrite the record at an address; undefined unless it is live. -/
def write (h : Heap α) (a : Nat) (v : α) : Option (Heap α) :=
  if ha : a ∈ h.live then some (h.writeLive a v ha) else none

/-! ## The small facts later proofs use -/

theorem mem_live_of_cell {h : Heap α} {a : Nat} {v : α} (hc : h.cell a = some v) :
    a ∈ h.live := (h.cell_live a).mp (by rw [hc]; rfl)

theorem cell_of_mem_live {h : Heap α} {a : Nat} (ha : a ∈ h.live) :
    ∃ v, h.cell a = some v := Option.isSome_iff_exists.mp ((h.cell_live a).mpr ha)

@[simp] theorem alloc_live (h : Heap α) (want : Nat) (v : α) :
    (h.alloc want v).live = h.fresh want :: h.live := rfl

@[simp] theorem alloc_cell_self (h : Heap α) (want : Nat) (v : α) :
    (h.alloc want v).cell (h.fresh want) = some v := Function.update_self ..

theorem alloc_cell_of_ne {h : Heap α} {want b : Nat} {v : α} (hb : b ≠ h.fresh want) :
    (h.alloc want v).cell b = h.cell b := Function.update_of_ne hb ..

theorem alloc_cell_of_live {h : Heap α} {want b : Nat} {v : α} (hb : b ∈ h.live) :
    (h.alloc want v).cell b = h.cell b :=
  alloc_cell_of_ne fun he => fresh_not_live h want (he ▸ hb)

theorem free_eq {h : Heap α} {a : Nat} (ha : a ∈ h.live) :
    h.free a = some (h.freeLive a ha) := dif_pos ha

theorem write_eq {h : Heap α} {a : Nat} {v : α} (ha : a ∈ h.live) :
    h.write a v = some (h.writeLive a v ha) := dif_pos ha

theorem free_cases {h h' : Heap α} {a : Nat} (hf : h.free a = some h') :
    ∃ ha : a ∈ h.live, h' = h.freeLive a ha := by
  unfold free at hf
  split at hf
  · exact ⟨‹_›, (Option.some.inj hf).symm⟩
  · cases hf

theorem write_cases {h h' : Heap α} {a : Nat} {v : α} (hw : h.write a v = some h') :
    ∃ ha : a ∈ h.live, h' = h.writeLive a v ha := by
  unfold write at hw
  split at hw
  · exact ⟨‹_›, (Option.some.inj hw).symm⟩
  · cases hw

@[simp] theorem freeLive_live (h : Heap α) (a : Nat) (ha : a ∈ h.live) :
    (h.freeLive a ha).live = h.live.erase a := rfl

theorem freeLive_cell_of_ne {h : Heap α} {a b : Nat} (ha : a ∈ h.live) (hb : b ≠ a) :
    (h.freeLive a ha).cell b = h.cell b := Function.update_of_ne hb ..

@[simp] theorem writeLive_live (h : Heap α) (a : Nat) (v : α) (ha : a ∈ h.live) :
    (h.writeLive a v ha).live = h.live := rfl

@[simp] theorem writeLive_cell_self (h : Heap α) (a : Nat) (v : α) (ha : a ∈ h.live) :
    (h.writeLive a v ha).cell a = some v := Function.update_self ..

theorem writeLive_cell_of_ne {h : Heap α} {a b : Nat} {v : α} (ha : a ∈ h.live) (hb : b ≠ a) :
    (h.writeLive a v ha).cell b = h.cell b := Function.update_of_ne hb ..

/-- Allocating and freeing at once changes no cell and no live address. -/
theorem freeLive_alloc_cell (h : Heap α) (want : Nat) (v : α)
    (ha : h.fresh want ∈ (h.alloc want v).live) :
    ((h.alloc want v).freeLive (h.fresh want) ha).cell = h.cell := by
  funext b
  by_cases hb : b = h.fresh want
  · subst hb
    have hn : h.cell (h.fresh want) = none := by
      by_contra hc
      exact fresh_not_live h want
        ((h.cell_live _).mp (Option.isSome_iff_ne_none.mpr hc))
    rw [hn]
    exact Function.update_self ..
  · rw [freeLive_cell_of_ne ha hb, alloc_cell_of_ne hb]

theorem freeLive_alloc_live (h : Heap α) (want : Nat) (v : α)
    (ha : h.fresh want ∈ (h.alloc want v).live) :
    ((h.alloc want v).freeLive (h.fresh want) ha).live = h.live := by
  simp

/-- When nothing is live any more, every allocation was freed, each
exactly once. -/
theorem freed_perm_of_live_nil {h : Heap α} (hl : h.live = []) :
    h.freed.Perm (List.range h.allocated) := by
  have := h.account
  rwa [hl, List.map_nil, List.append_nil] at this

end Heap

end Sgopher.Lib
