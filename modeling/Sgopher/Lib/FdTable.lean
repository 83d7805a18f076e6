/-
Sgopher.Lib.FdTable — descriptor tables as the kernel keeps them.

A table maps the numbers to what is open there, all but finitely many to
nothing. A new descriptor gets the lowest number that is free, `dup2` puts
a copy at a number of the caller's choice, and a program that is executed
gets the table without the entries marked close-on-exec.

`Uses` runs a process on its table and, beside it, on the heap of
`Sgopher.Lib.Descriptors` with what it opened itself. `Shows` is what the
two have to do with each other at every moment: the table is what there
was before with the heap laid over it.

The heap gives any number from 3 on. Where the first three numbers were
taken the kernel's choice is one of these (`Uses.lowest`), and where
nothing else was, each of them is free (`Uses.given`): then every heap
that a process comes to belongs to a table.

No `sorry`, no `axiom`, no `native_decide`.
-/
import Mathlib.Order.Nat
import Mathlib.Order.Basic
import Mathlib.Data.Nat.Find
import Sgopher.Lib.Descriptors

namespace Sgopher.Lib

/-- What is open at a number, and whether it is closed on `execve`. -/
structure Entry (α : Type) where
  object : α
  cloexec : Bool
  deriving DecidableEq, Repr

/-- A descriptor table. -/
@[ext]
structure FdTable (α : Type) where
  get : Nat → Option (Entry α)
  finite : ∃ n, ∀ fd, n ≤ fd → get fd = none

namespace FdTable

variable {α β : Type}

theorem exists_free (t : FdTable α) : ∃ fd, (t.get fd).isNone = true := by
  obtain ⟨n, hn⟩ := t.finite
  exact ⟨n, by rw [hn n le_rfl]; rfl⟩

/-- The lowest number that is free. -/
def lowest (t : FdTable α) : Nat := Nat.find t.exists_free

/-- The table with that entry at a number. -/
def put (t : FdTable α) (fd : Nat) (e : Entry α) : FdTable α where
  get := Function.update t.get fd (some e)
  finite := by
    obtain ⟨n, hn⟩ := t.finite
    refine ⟨max n (fd + 1), fun fd' h => ?_⟩
    rw [Function.update_of_ne (by omega)]
    exact hn fd' (by omega)

/-- The table with nothing at a number. -/
def erase (t : FdTable α) (fd : Nat) : FdTable α where
  get := Function.update t.get fd none
  finite := by
    obtain ⟨n, hn⟩ := t.finite
    refine ⟨n, fun fd' h => ?_⟩
    by_cases he : fd' = fd
    · rw [he, Function.update_self]
    · rw [Function.update_of_ne he, hn fd' h]

/-- A new descriptor. -/
def openNew (t : FdTable α) (o : α) (cloexec : Bool) : FdTable α × Nat :=
  (t.put t.lowest ⟨o, cloexec⟩, t.lowest)

/-- `close`; it does nothing where there is nothing to close. -/
def close (t : FdTable α) (fd : Int) : FdTable α := if 0 ≤ fd then t.erase fd.toNat else t

/-- `dup2`. The copy is not closed on `execve`, but a copy of a number to
itself changes nothing. -/
def dup2 (t : FdTable α) (old new : Nat) : FdTable α :=
  match t.get old with
  | none => t
  | some e => if old = new then t else t.put new ⟨e.object, false⟩

/-- What a program that is executed gets. -/
def exec (t : FdTable α) : FdTable α where
  get fd := (t.get fd).filter fun e => !e.cloexec
  finite := by
    obtain ⟨n, hn⟩ := t.finite
    exact ⟨n, fun fd h => by rw [hn fd h]; rfl⟩

variable {t : FdTable α} {fd k : Nat} {e : Entry α} {o : α} {b : Bool}

/-! ## Entries -/

@[simp] theorem put_get_self : (t.put fd e).get fd = some e := Function.update_self ..

theorem put_get_of_ne {fd' : Nat} (h : fd' ≠ fd) : (t.put fd e).get fd' = t.get fd' :=
  Function.update_of_ne h ..

@[simp] theorem erase_get_self : (t.erase fd).get fd = none := Function.update_self ..

theorem erase_get_of_ne {fd' : Nat} (h : fd' ≠ fd) : (t.erase fd).get fd' = t.get fd' :=
  Function.update_of_ne h ..

@[simp] theorem exec_get : t.exec.get fd = (t.get fd).filter fun e => !e.cloexec := rfl

theorem get_lowest (t : FdTable α) : t.get t.lowest = none :=
  Option.isNone_iff_eq_none.mp (Nat.find_spec t.exists_free)

theorem isSome_of_lt_lowest (h : fd < t.lowest) : (t.get fd).isSome = true := by
  have := Nat.find_min t.exists_free h
  cases hg : t.get fd with
  | none => simp [hg] at this
  | some e => rfl

@[simp] theorem openNew_get_self : (t.openNew o b).1.get t.lowest = some ⟨o, b⟩ := put_get_self

theorem openNew_get_of_ne (h : fd ≠ t.lowest) : (t.openNew o b).1.get fd = t.get fd :=
  put_get_of_ne h

/-- What is open stays open. -/
theorem openNew_get_of_open (h : t.get fd = some e) : (t.openNew o b).1.get fd = some e := by
  refine (openNew_get_of_ne fun he => ?_).trans h
  rw [he, get_lowest] at h
  cases h

theorem close_get {fd' : Int} :
    (t.close fd').get fd = if (fd : Int) = fd' then none else t.get fd := by
  unfold close
  split
  · by_cases he : fd = fd'.toNat
    · rw [he, erase_get_self, if_pos (by omega)]
    · rw [erase_get_of_ne he, if_neg (by omega)]
  · rw [if_neg (by omega)]

/-- A copy, whose original is not closed on `execve` either. -/
theorem dup2_get {old new : Nat} (h : t.get old = some ⟨o, false⟩) :
    (t.dup2 old new).get fd = if fd = new then some ⟨o, false⟩ else t.get fd := by
  simp only [dup2, h]
  by_cases he : fd = new
  · subst he
    rw [if_pos rfl]
    split
    · rename_i hsame
      rw [← hsame, h]
    · exact put_get_self
  · rw [if_neg he]
    split
    · rfl
    · exact put_get_of_ne he

/-- An executed program does not get what is closed on `execve`. -/
theorem exec_put_cloexec (h : t.get fd = none) : (t.put fd ⟨o, true⟩).exec = t.exec := by
  ext1
  funext fd'
  by_cases he : fd' = fd
  · simp [he, h]
  · rw [exec_get, exec_get, put_get_of_ne he]

theorem exec_openNew : (t.openNew o true).1.exec = t.exec := exec_put_cloexec t.get_lowest

/-- An executed program does get a copy. -/
theorem exec_dup2_get {old new : Nat} (h : t.get old = some e) (hne : old ≠ new) :
    (t.dup2 old new).exec.get fd =
      if fd = new then some ⟨e.object, false⟩ else t.exec.get fd := by
  simp only [dup2, h, if_neg hne]
  by_cases he : fd = new
  · rw [if_pos he, he, exec_get, put_get_self]
    rfl
  · rw [if_neg he, exec_get, exec_get, put_get_of_ne he]

/-! ## The numbers that are taken -/

/-- The first `k` numbers are taken. -/
def Filled (t : FdTable α) (k : Nat) : Prop := ∀ fd, fd < k → (t.get fd).isSome = true

theorem Filled.le_lowest (h : t.Filled k) : k ≤ t.lowest := by
  refine Nat.le_of_not_lt fun hlt => ?_
  have := h t.lowest hlt
  rw [get_lowest] at this
  cases this

theorem Filled.mono {j : Nat} (h : t.Filled k) (hj : j ≤ k) : t.Filled j :=
  fun fd hlt => h fd (Nat.lt_of_lt_of_le hlt hj)

/-- A new descriptor fills the first gap. -/
theorem Filled.openNew (h : t.Filled k) (o : α) (b : Bool) : (t.openNew o b).1.Filled (k + 1) := by
  intro fd hlt
  by_cases he : fd = t.lowest
  · rw [he, openNew_get_self]
    rfl
  · rw [openNew_get_of_ne he]
    have := h.le_lowest
    exact isSome_of_lt_lowest (by omega)

/-! ## A table and a heap -/

variable {f : Nat → β → α} {base : FdTable α} {h : Heap β}

/-- A process that had the table `base` has come to the table and the
heap: it opened what it did to be closed on `execve`, at free numbers, and
closed nothing but what it had opened. The heap says what that was, and `f`
what it is in the table, by its serial number. -/
inductive Uses (f : Nat → β → α) (base : FdTable α) : FdTable α → Heap β → Prop
  | start : Uses f base base Heap.empty
  | opened {t : FdTable α} {h : Heap β} {fd : Nat} (want : Int) (o : β) (hu : Uses f base t h)
      (hfd : (h.openFd want o).2 = fd) (hfree : t.get fd = none) :
      Uses f base (t.put fd ⟨f h.allocated o, true⟩) (h.openFd want o).1
  | closed {t : FdTable α} {h h' : Heap β} {fd : Int} (hu : Uses f base t h)
      (hc : h.closeFd fd = some h') : Uses f base (t.close fd) h'

/-- The table is `base` with the heap laid over it. -/
structure Shows (f : Nat → β → α) (base t : FdTable α) (h : Heap β) : Prop where
  own : ∀ (fd : Nat) (o : β), h.object fd = some o → t.get fd = some ⟨f (h.serialOf fd) o, true⟩
  rest : ∀ fd : Nat, h.object fd = none → t.get fd = base.get fd
  apart : ∀ (fd : Nat) (o : β), h.object fd = some o → base.get fd = none

theorem Shows.start : Shows f base base (Heap.empty : Heap β) where
  own _ _ ho := nomatch Heap.mem_openFds_of_object ho
  rest _ _ := rfl
  apart _ _ ho := nomatch Heap.mem_openFds_of_object ho

theorem Shows.filled (hs : Shows f base t h) (hb : base.Filled k) : t.Filled k := by
  intro fd hlt
  cases ho : h.object fd with
  | none => exact hs.rest fd ho ▸ hb fd hlt
  | some o => rw [hs.own fd o ho]; rfl

/-- A free number is not one of the heap's. -/
theorem Shows.object_of_free (hs : Shows f base t h) (hfree : t.get fd = none) :
    h.object fd = none := by
  cases ho : h.object fd with
  | none => rfl
  | some o =>
    rw [hs.own fd o ho] at hfree
    cases hfree

/-- The heap gives the number that the kernel gives. -/
theorem Shows.number (hs : Shows f base t h) (hb : base.Filled 3) (o : β) :
    (h.openFd t.lowest o).2 = t.lowest := by
  have hge := (hs.filled hb).le_lowest
  have hnot : Heap.adr t.lowest ∉ h.live := by
    intro hm
    have hopen : (t.lowest : Int) ∈ h.openFds := Heap.mem_openFds.mpr ⟨by omega, hm⟩
    obtain ⟨o', ho'⟩ := Heap.object_of_mem_openFds hopen
    rw [hs.object_of_free t.get_lowest] at ho'
    cases ho'
  have hne : Heap.adr t.lowest ≠ 0 := by
    unfold Heap.adr
    omega
  rw [Heap.openFd, Heap.fresh, if_pos ⟨hne, hnot⟩]
  exact Heap.fdOf_adr (by omega)

theorem Shows.opened (hs : Shows f base t h) {want : Int} {o : β}
    (hfd : (h.openFd want o).2 = fd) (hfree : t.get fd = none) :
    Shows f base (t.put fd ⟨f h.allocated o, true⟩) (h.openFd want o).1 := by
  have hnone := hs.object_of_free hfree
  have hself := Heap.openFd_object_self h want o
  have hserial := Heap.openFd_serialOf_self h want o
  rw [hfd] at hself hserial
  have hother : ∀ fd' : Nat, fd' ≠ fd → (h.openFd want o).1.object fd' = h.object fd' := by
    intro fd' hne
    refine Heap.openFd_object_of_ne ?_
    rw [hfd]
    exact_mod_cast hne
  refine ⟨fun fd' o' ho => ?_, fun fd' ho => ?_, fun fd' o' ho => ?_⟩ <;>
    by_cases he : fd' = fd
  · subst he
    obtain rfl := Option.some.inj (hself.symm.trans ho)
    rw [hserial]
    exact put_get_self
  · rw [hother fd' he] at ho
    rw [put_get_of_ne he, hs.own fd' o' ho,
      Heap.openFd_serialOf_of_mem (Heap.mem_openFds_of_object ho)]
  · subst he
    exact absurd (hself.symm.trans ho) (Option.some_ne_none o)
  · rw [put_get_of_ne he]
    exact hs.rest fd' (hother fd' he ▸ ho)
  · rw [he, ← hs.rest _ hnone, hfree]
  · exact hs.apart fd' o' (hother fd' he ▸ ho)

theorem Shows.closed (hs : Shows f base t h) {h' : Heap β} {fd : Int}
    (hc : h.closeFd fd = some h') : Shows f base (t.close fd) h' := by
  obtain ⟨hm, rfl⟩ := Heap.closeFd_cases hc
  obtain ⟨o, ho⟩ := Heap.object_of_mem_openFds hm
  obtain ⟨n, rfl⟩ := Int.eq_ofNat_of_zero_le (Heap.nonneg_of_object ho)
  rw [close, if_pos (by omega), Int.toNat_natCast]
  have hself := Heap.closedFd_object_self hm
  have hother : ∀ fd : Nat, fd ≠ n → (h.closedFd n hm).object fd = h.object fd :=
    fun fd hne => Heap.closedFd_object_of_ne hm (by exact_mod_cast hne)
  refine ⟨fun fd o' ho' => ?_, fun fd ho' => ?_, fun fd o' ho' => ?_⟩ <;>
    by_cases he : fd = n
  · subst he
    exact absurd (hself.symm.trans ho') (Option.some_ne_none o').symm
  · rw [erase_get_of_ne he]
    exact hs.own fd o' (hother fd he ▸ ho')
  · rw [he, erase_get_self, hs.apart n o ho]
  · rw [erase_get_of_ne he]
    exact hs.rest fd (hother fd he ▸ ho')
  · subst he
    exact absurd (hself.symm.trans ho') (Option.some_ne_none o').symm
  · exact hs.apart fd o' (hother fd he ▸ ho')

/-- At every moment of the process. -/
theorem Uses.shows (hu : Uses f base t h) : Shows f base t h := by
  induction hu with
  | start => exact Shows.start
  | opened want o _ hfd hfree ih => exact ih.opened hfd hfree
  | closed _ hc ih => exact ih.closed hc

/-- The kernel gives the lowest number. -/
theorem Uses.lowest (hu : Uses f base t h) (hb : base.Filled 3) (o : β) :
    Uses f base (t.openNew (f h.allocated o) true).1 (h.openFd t.lowest o).1 :=
  hu.opened t.lowest o (hu.shows.number hb o) t.get_lowest

/-- Whatever number the heap gives, it can be had. -/
theorem Uses.given (hu : Uses f base t h) (honly : ∀ fd, 3 ≤ fd → base.get fd = none) (want : Int)
    (o : β) : ∃ t', Uses f base t' (h.openFd want o).1 := by
  have hge := Heap.openFd_ge h want o
  obtain ⟨fd, hfd⟩ := Int.eq_ofNat_of_zero_le (le_trans (by decide) hge)
  have hnone : h.object fd = none := by
    cases ho : h.object fd with
    | none => rfl
    | some o' =>
      have hm := Heap.mem_openFds_of_object ho
      rw [← hfd] at hm
      exact absurd hm (Heap.openFd_not_mem h want o)
  have hfree : t.get fd = none := by
    rw [hu.shows.rest fd hnone]
    exact honly fd (by omega)
  exact ⟨_, hu.opened want o hfd hfree⟩

/-- Nothing that was opened is left to an executed program. -/
theorem Shows.exec (hs : Shows f base t h) : t.exec = base.exec := by
  ext1
  funext fd
  rw [exec_get, exec_get]
  cases ho : h.object fd with
  | none => rw [hs.rest fd ho]
  | some o => rw [hs.own fd o ho, hs.apart fd o ho]; rfl

end FdTable

end Sgopher.Lib
