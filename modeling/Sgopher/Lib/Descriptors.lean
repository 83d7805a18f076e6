/-
Sgopher.Lib.Descriptors — a process's open descriptors, as a heap of what
they refer to.

The address `a` of the heap is the descriptor `a + 2`. An allocation never
gives the null address, so descriptors 0, 1 and 2, the standard ones, are
never in the table, and a new descriptor is any number from 3 on that is
not in use. The serial number of an address tells the descriptor from all
that had its number before, and the heap's accounts say that each was
closed at most once.

`Owned` says that the places of a program that hold a descriptor are
exactly its open descriptors, each in one place. Where `strict` is false
a descriptor may have been lost, but none is held twice or after it was
closed.

No `sorry`, no `axiom`, no `native_decide`.
-/
import Sgopher.Lib.Heap

namespace Sgopher.Lib

/-- What a field holds: its descriptor, unless it is -1. -/
def held (fd : Int) : List Int := if 0 ≤ fd then [fd] else []

theorem mem_held {fd : Int} (h : 0 ≤ fd) : fd ∈ held fd := by simp [held, h]

namespace Heap

variable {α : Type}

def fdOf (a : Nat) : Int := a + 2

def adr (fd : Int) : Nat := (fd - 2).toNat

/-- The descriptors in the table. -/
def openFds (h : Heap α) : List Int := h.live.map fdOf

/-- What a descriptor refers to. -/
def object (h : Heap α) (fd : Int) : Option α := if 2 ≤ fd then h.cell (adr fd) else none

/-- The serial number of a descriptor. -/
def serialOf (h : Heap α) (fd : Int) : Nat := h.serial (adr fd)

/-- A new descriptor: the one offered, if it is free. -/
def openFd (h : Heap α) (want : Int) (o : α) : Heap α × Int :=
  (h.alloc (adr want) o, fdOf (h.fresh (adr want)))

/-- Close a descriptor; undefined unless it is open. -/
def closeFd (h : Heap α) (fd : Int) : Option (Heap α) := if 2 ≤ fd then h.free (adr fd) else none

/-! ## Numbers and addresses -/

theorem adr_fdOf (a : Nat) : adr (fdOf a) = a := by
  unfold adr fdOf
  omega

theorem fdOf_adr {fd : Int} (h : 2 ≤ fd) : fdOf (adr fd) = fd := by
  unfold adr fdOf
  omega

theorem fdOf_injective : Function.Injective fdOf := fun a b h => by
  rw [← adr_fdOf a, h, adr_fdOf]

variable {h : Heap α} {fd : Int} {o : α}

theorem openFds_nodup (h : Heap α) : h.openFds.Nodup := h.live_nodup.map fdOf_injective

theorem mem_openFds : fd ∈ h.openFds ↔ 2 ≤ fd ∧ adr fd ∈ h.live := by
  constructor
  · intro hm
    obtain ⟨a, ha, rfl⟩ := List.mem_map.mp hm
    exact ⟨by unfold fdOf; omega, by rwa [adr_fdOf]⟩
  · rintro ⟨h2, ha⟩
    exact List.mem_map.mpr ⟨_, ha, fdOf_adr h2⟩

theorem mem_openFds_of_object (ho : h.object fd = some o) : fd ∈ h.openFds := by
  unfold object at ho
  split at ho
  · rename_i h2
    exact mem_openFds.mpr ⟨h2, mem_live_of_cell ho⟩
  · cases ho

theorem object_of_mem_openFds (hm : fd ∈ h.openFds) : ∃ o, h.object fd = some o := by
  obtain ⟨h2, ha⟩ := mem_openFds.mp hm
  obtain ⟨o, ho⟩ := cell_of_mem_live ha
  exact ⟨o, by rw [object, if_pos h2, ho]⟩

theorem nonneg_of_object (ho : h.object fd = some o) : 0 ≤ fd := by
  have := (mem_openFds.mp (mem_openFds_of_object ho)).1
  omega

@[simp] theorem empty_openFds : (empty : Heap α).openFds = [] := rfl

@[simp] theorem empty_peak : (empty : Heap α).peak = 0 := rfl

/-- No more are open than ever were at once. -/
theorem openFds_le_peak (h : Heap α) : h.openFds.length ≤ h.peak := by
  rw [openFds, List.length_map]
  exact h.live_le

/-! ## Serial numbers -/

theorem serial_lt {a : Nat} (ha : a ∈ h.live) : h.serial a < h.allocated := by
  have hm : h.serial a ∈ h.freed ++ h.live.map h.serial :=
    List.mem_append_right _ (List.mem_map_of_mem ha)
  exact List.mem_range.mp (h.account.mem_iff.mp hm)

theorem serialOf_lt (hm : fd ∈ h.openFds) : h.serialOf fd < h.allocated :=
  serial_lt (mem_openFds.mp hm).2

/-- Open descriptors have different serial numbers. -/
theorem serialOf_inj {fd' : Int} (hm : fd ∈ h.openFds) (hm' : fd' ∈ h.openFds)
    (hs : h.serialOf fd = h.serialOf fd') : fd = fd' := by
  obtain ⟨h2, ha⟩ := mem_openFds.mp hm
  obtain ⟨h2', ha'⟩ := mem_openFds.mp hm'
  have hnd : (h.live.map h.serial).Nodup :=
    (h.account.nodup_iff.mpr List.nodup_range).of_append_right
  have := List.inj_on_of_nodup_map hnd ha ha' hs
  rw [← fdOf_adr h2, this, fdOf_adr h2']

/-! ## Opening -/

variable {want : Int}

theorem openFd_ge (h : Heap α) (want : Int) (o : α) : 3 ≤ (h.openFd want o).2 := by
  have := h.fresh_ne_zero (adr want)
  simp only [openFd, fdOf]
  omega

theorem openFd_not_mem (h : Heap α) (want : Int) (o : α) : (h.openFd want o).2 ∉ h.openFds := by
  intro hm
  have := (mem_openFds.mp hm).2
  rw [openFd, adr_fdOf] at this
  exact h.fresh_not_live _ this

@[simp] theorem openFd_openFds (h : Heap α) (want : Int) (o : α) :
    (h.openFd want o).1.openFds = (h.openFd want o).2 :: h.openFds := rfl

@[simp] theorem openFd_object_self (h : Heap α) (want : Int) (o : α) :
    (h.openFd want o).1.object (h.openFd want o).2 = some o := by
  have h2 : (2 : Int) ≤ (h.openFd want o).2 := by
    have := openFd_ge h want o
    omega
  rw [object, if_pos h2]
  simp [openFd, adr_fdOf]

theorem openFd_object_of_mem (hm : fd ∈ h.openFds) :
    (h.openFd want o).1.object fd = h.object fd := by
  obtain ⟨h2, ha⟩ := mem_openFds.mp hm
  rw [object, object, if_pos h2, if_pos h2]
  exact alloc_cell_of_live ha

theorem openFd_object_of_ne (hne : fd ≠ (h.openFd want o).2) :
    (h.openFd want o).1.object fd = h.object fd := by
  unfold object
  by_cases h2 : 2 ≤ fd
  · rw [if_pos h2, if_pos h2]
    refine Function.update_of_ne (fun he => hne ?_) ..
    rw [← fdOf_adr h2, he]
    rfl
  · rw [if_neg h2, if_neg h2]

theorem openFd_peak (h : Heap α) (want : Int) (o : α) :
    (h.openFd want o).1.peak = max h.peak (h.openFds.length + 1) := by
  rw [openFds, List.length_map]
  rfl

@[simp] theorem openFd_allocated (h : Heap α) (want : Int) (o : α) :
    (h.openFd want o).1.allocated = h.allocated + 1 := rfl

@[simp] theorem openFd_serialOf_self (h : Heap α) (want : Int) (o : α) :
    (h.openFd want o).1.serialOf (h.openFd want o).2 = h.allocated := by
  simp [openFd, serialOf, adr_fdOf, alloc]

theorem openFd_serialOf_of_mem (hm : fd ∈ h.openFds) :
    (h.openFd want o).1.serialOf fd = h.serialOf fd := by
  have ha := (mem_openFds.mp hm).2
  exact Function.update_of_ne (fun he => h.fresh_not_live _ (he ▸ ha)) _ _

theorem openFd_serialOf_cases (h : Heap α) (want : Int) (o : α) (fd : Int) :
    (h.openFd want o).1.serialOf fd = h.allocated ∨
      (h.openFd want o).1.serialOf fd = h.serialOf fd := by
  by_cases he : adr fd = h.fresh (adr want)
  · refine Or.inl ?_
    simp [openFd, serialOf, alloc, he]
  · exact Or.inr (Function.update_of_ne he ..)

/-! ## Closing -/

/-- The table without one of its descriptors. -/
def closedFd (h : Heap α) (fd : Int) (hm : fd ∈ h.openFds) : Heap α :=
  h.freeLive (adr fd) (mem_openFds.mp hm).2

theorem closeFd_eq (hm : fd ∈ h.openFds) : h.closeFd fd = some (h.closedFd fd hm) := by
  obtain ⟨h2, ha⟩ := mem_openFds.mp hm
  rw [closeFd, if_pos h2, free_eq ha]
  rfl

theorem closeFd_cases {h' : Heap α} (hc : h.closeFd fd = some h') :
    ∃ hm : fd ∈ h.openFds, h' = h.closedFd fd hm := by
  unfold closeFd at hc
  split at hc
  · obtain ⟨ha, rfl⟩ := free_cases hc
    exact ⟨mem_openFds.mpr ⟨‹_›, ha⟩, rfl⟩
  · cases hc

/-- Closing opens nothing. -/
theorem closeFd_allocated {h' : Heap α} (hc : h.closeFd fd = some h') :
    h'.allocated = h.allocated := by
  obtain ⟨hm, rfl⟩ := closeFd_cases hc
  rfl

theorem closedFd_openFds (hm : fd ∈ h.openFds) :
    (h.closedFd fd hm).openFds = h.openFds.erase fd := by
  obtain ⟨h2, _⟩ := mem_openFds.mp hm
  have : fd = fdOf (adr fd) := (fdOf_adr h2).symm
  conv_rhs => rw [this]
  simp only [openFds, closedFd, freeLive_live]
  exact List.map_erase fdOf_injective _

theorem closedFd_object_of_ne (hm : fd ∈ h.openFds) {fd' : Int} (hne : fd' ≠ fd) :
    (h.closedFd fd hm).object fd' = h.object fd' := by
  unfold object
  by_cases h2 : 2 ≤ fd'
  · rw [if_pos h2, if_pos h2]
    refine freeLive_cell_of_ne _ fun he => hne ?_
    rw [← fdOf_adr h2, he, fdOf_adr (mem_openFds.mp hm).1]
  · rw [if_neg h2, if_neg h2]

theorem closedFd_object_self (hm : fd ∈ h.openFds) : (h.closedFd fd hm).object fd = none := by
  rw [object, if_pos (mem_openFds.mp hm).1]
  exact Function.update_self ..

/-- What is open afterwards was open before. -/
theorem closeFd_object {h' : Heap α} (hc : h.closeFd fd = some h') {fd' : Int}
    (ho : h'.object fd' = some o) : h.object fd' = some o := by
  obtain ⟨hm, rfl⟩ := closeFd_cases hc
  by_cases hne : fd' = fd
  · rw [hne, closedFd_object_self] at ho
    cases ho
  · exact (closedFd_object_of_ne hm hne).symm.trans ho

@[simp] theorem closedFd_serialOf (hm : fd ∈ h.openFds) (fd' : Int) :
    (h.closedFd fd hm).serialOf fd' = h.serialOf fd' := rfl

@[simp] theorem closedFd_peak (hm : fd ∈ h.openFds) : (h.closedFd fd hm).peak = h.peak := rfl

@[simp] theorem closedFd_allocated (hm : fd ∈ h.openFds) :
    (h.closedFd fd hm).allocated = h.allocated := rfl

/-! ## Ownership -/

/-- The open descriptors are in these places, each in one of them. -/
structure Owned (strict : Prop) (h : Heap α) (places : List Int) : Prop where
  nodup : places.Nodup
  isOpen : ∀ fd ∈ places, fd ∈ h.openFds
  all : strict → ∀ fd ∈ h.openFds, fd ∈ places

variable {strict : Prop} {places places' : List Int}

theorem Owned.perm (ho : Owned strict h places) (hp : places.Perm places') :
    Owned strict h places' :=
  ⟨hp.nodup_iff.mp ho.nodup, fun fd hm => ho.isOpen fd (hp.mem_iff.mpr hm),
    fun hs fd hm => hp.mem_iff.mp (ho.all hs fd hm)⟩

/-- A new descriptor gets a place. -/
theorem Owned.opened (ho : Owned strict h places) (want : Int) (o : α) :
    Owned strict (h.openFd want o).1 ((h.openFd want o).2 :: places) := by
  refine ⟨List.nodup_cons.mpr ⟨fun hm => openFd_not_mem h want o (ho.isOpen _ hm), ho.nodup⟩,
    ?_, ?_⟩
  · intro fd hm
    rw [openFd_openFds]
    exact List.mem_cons.mpr ((List.mem_cons.mp hm).imp_right (ho.isOpen fd))
  · intro hs fd hm
    rw [openFd_openFds] at hm
    exact List.mem_cons.mpr ((List.mem_cons.mp hm).imp_right (ho.all hs fd))

/-- Places that all refer to one kind of thing, and one more. -/
theorem Owned.opened_objects (ho : Owned strict h places)
    (hs : ∀ fd ∈ places, h.object fd = some o) (want : Int) :
    ∀ fd ∈ (h.openFd want o).2 :: places, (h.openFd want o).1.object fd = some o := by
  intro fd hm
  rcases List.mem_cons.mp hm with rfl | hm
  · exact openFd_object_self h want o
  · rw [openFd_object_of_mem (ho.isOpen fd hm)]
    exact hs fd hm

theorem Owned.head_open (ho : Owned strict h (fd :: places)) : fd ∈ h.openFds :=
  ho.isOpen fd (by simp)

/-- A descriptor that is closed leaves its place. -/
theorem Owned.closed (ho : Owned strict h (fd :: places)) :
    Owned strict (h.closedFd fd ho.head_open) places := by
  obtain ⟨hnot, hnd⟩ := List.nodup_cons.mp ho.nodup
  refine ⟨hnd, ?_, ?_⟩
  · intro fd' hm
    rw [closedFd_openFds, h.openFds_nodup.mem_erase_iff]
    exact ⟨fun he => hnot (he ▸ hm), ho.isOpen fd' (by simp [hm])⟩
  · intro hs fd' hm
    rw [closedFd_openFds, h.openFds_nodup.mem_erase_iff] at hm
    exact (List.mem_cons.mp (ho.all hs fd' hm.2)).resolve_left hm.1

/-- Losing a descriptor, where that is excused. -/
theorem Owned.lost (ho : Owned strict h (fd :: places)) (hs : ¬ strict) : Owned strict h places :=
  ⟨(List.nodup_cons.mp ho.nodup).2, fun fd' hm => ho.isOpen fd' (by simp [hm]),
    fun h => absurd h hs⟩

/-- Two different places hold different descriptors. -/
theorem Owned.ne (ho : Owned strict h (fd :: places)) {fd' : Int} (hm : fd' ∈ places) :
    fd' ≠ fd := fun he => (List.nodup_cons.mp ho.nodup).1 (he ▸ hm)

/-- No more descriptors are open than there are places. -/
theorem Owned.length_le (ho : Owned strict h places) (hs : strict) :
    h.openFds.length ≤ places.length :=
  (List.subperm_of_subset h.openFds_nodup (ho.all hs)).length_le

/-- Where there is a place left within a budget, opening stays within it. -/
theorem Owned.opened_peak {n : Nat} (ho : Owned strict h places) (hs : strict) (hp : h.peak ≤ n)
    (hn : places.length < n) (want : Int) (o : α) : (h.openFd want o).1.peak ≤ n := by
  rw [openFd_peak]
  exact Nat.max_le.mpr ⟨hp, (Nat.succ_le_succ (ho.length_le hs)).trans hn⟩

end Heap

end Sgopher.Lib
