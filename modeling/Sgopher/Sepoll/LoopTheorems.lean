/-
Sgopher.Sepoll.LoopTheorems — the joint invariant of the event loop and
what each operation does to a loop that satisfies it.

`Loop.Wf` ties the four structures together: the records in the tree are
exactly the targets of the interest list, one for each descriptor; the
garbage list holds other records, all with a null function; no record is
anywhere else; and an undispatched event refers to a record in one of the
two. Each operation has an inversion lemma (`add_cases`, `remove_cases`,
…) that lists what it can do from such a state, failures included, and
each way is shown to keep the invariant. `Loop.reg` reads a loop as the
map from descriptors to registrations it stands for; the `*_reg` lemmas
say what the operations do to that map, and are all that the server and
the supervisor need.

No `sorry`, no `axiom`, no `native_decide`.
-/
import Sgopher.Sepoll.Loop

namespace Sgopher.Sepoll

open Sgopher.Lib

variable {F U : Type} {l l' : Loop F U}

/-! ## The invariant -/

/-- The joint invariant of tree, interest list, garbage list, heap and
current batch. -/
structure Loop.Wf (l : Loop F U) : Prop where
  tree_reg : ∀ a ∈ l.callbacksTree,
    ∃ cb ev, l.heap.cell a = some cb ∧ l.interest cb.fd = some ⟨ev, a⟩
  interest_tree : ∀ fd e, l.interest fd = some e →
    e.ptr ∈ l.callbacksTree ∧ ∃ cb, l.heap.cell e.ptr = some cb ∧ cb.fd = fd
  tree_nodup : l.callbacksTree.Nodup
  gc_nodup : l.callbacksGcList.Nodup
  gc_null : ∀ a ∈ l.callbacksGcList, ∃ cb, l.heap.cell a = some cb ∧ cb.function = none
  gc_disjoint : ∀ a ∈ l.callbacksGcList, a ∉ l.callbacksTree
  live_cases : ∀ a ∈ l.heap.live, a ∈ l.callbacksTree ∨ a ∈ l.callbacksGcList
  pending_cases : ∀ e ∈ l.pending, e.ptr ∈ l.callbacksTree ∨ e.ptr ∈ l.callbacksGcList

theorem Loop.Wf.tree_live (h : l.Wf) {a : Nat} (ha : a ∈ l.callbacksTree) : a ∈ l.heap.live := by
  obtain ⟨cb, _, hc, _⟩ := h.tree_reg a ha
  exact Heap.mem_live_of_cell hc

theorem Loop.Wf.gc_live (h : l.Wf) {a : Nat} (ha : a ∈ l.callbacksGcList) : a ∈ l.heap.live := by
  obtain ⟨cb, hc, _⟩ := h.gc_null a ha
  exact Heap.mem_live_of_cell hc

theorem Loop.Wf.pending_live (h : l.Wf) {e : EpollEvent} (he : e ∈ l.pending) :
    e.ptr ∈ l.heap.live :=
  (h.pending_cases e he).elim h.tree_live h.gc_live

/-- At most one record for each descriptor. -/
theorem Loop.Wf.tree_inj (h : l.Wf) {a b : Nat} {ca cb : Callback F U}
    (ha : a ∈ l.callbacksTree) (hb : b ∈ l.callbacksTree) (hca : l.heap.cell a = some ca)
    (hcb : l.heap.cell b = some cb) (hfd : ca.fd = cb.fd) : a = b := by
  obtain ⟨ca', ea, hca', hia⟩ := h.tree_reg a ha
  obtain ⟨cb', eb, hcb', hib⟩ := h.tree_reg b hb
  have e1 : ca' = ca := Option.some.inj (hca'.symm.trans hca)
  have e2 : cb' = cb := Option.some.inj (hcb'.symm.trans hcb)
  subst e1 e2
  rw [hfd, hib] at hia
  exact (congrArg EpollEvent.ptr (Option.some.inj hia)).symm

/-- A loop as it was, up to the accounts of its heap. -/
structure Loop.Same (l l' : Loop F U) : Prop where
  callbacksTree : l'.callbacksTree = l.callbacksTree
  callbacksGcList : l'.callbacksGcList = l.callbacksGcList
  epollEvents : l'.epollEvents = l.epollEvents
  epollEventsSize : l'.epollEventsSize = l.epollEventsSize
  run : l'.run = l.run
  interest : l'.interest = l.interest
  pending : l'.pending = l.pending
  cell : l'.heap.cell = l.heap.cell
  live : l'.heap.live = l.heap.live

theorem Loop.Same.refl (l : Loop F U) : l.Same l :=
  ⟨rfl, rfl, rfl, rfl, rfl, rfl, rfl, rfl, rfl⟩

theorem Loop.Wf.same (h : l.Wf) (hs : l.Same l') : l'.Wf := by
  obtain ⟨h1, h2, h3, h4, h5, h6, h7, h8⟩ := h
  refine ⟨?_, ?_, ?_, ?_, ?_, ?_, ?_, ?_⟩ <;>
    simp only [hs.callbacksTree, hs.callbacksGcList, hs.interest, hs.pending, hs.cell, hs.live]
  exacts [h1, h2, h3, h4, h5, h6, h7, h8]

/-! ## Searching the tree -/

/-- The search on a tree whose records are all allocated. -/
theorem tfind_cases (heap : Heap (Callback F U)) (fd : Int) (tree : List Nat)
    (h : ∀ a ∈ tree, ∃ cb, heap.cell a = some cb) :
    (tfind heap fd tree = some none ∧
        ∀ a ∈ tree, ∀ cb, heap.cell a = some cb → cb.fd ≠ fd) ∨
      ∃ a ∈ tree, ∃ cb, heap.cell a = some cb ∧ cb.fd = fd ∧
        tfind heap fd tree = some (some a) := by
  induction tree with
  | nil => exact Or.inl ⟨rfl, by simp⟩
  | cons a rest ih =>
    obtain ⟨cb, hcb⟩ := h a (by simp)
    have hstep : tfind heap fd (a :: rest)
        = if compareCallbackFd fd cb.fd = 0 then some (some a) else tfind heap fd rest := by
      rw [tfind, hcb]
    by_cases hfd : compareCallbackFd fd cb.fd = 0
    · have : cb.fd = fd := by unfold compareCallbackFd at hfd; omega
      exact Or.inr ⟨a, by simp, cb, hcb, this, by rw [hstep, if_pos hfd]⟩
    · have hne : cb.fd ≠ fd := by unfold compareCallbackFd at hfd; omega
      rcases ih fun b hb => h b (by simp [hb]) with ⟨hn, hall⟩ | ⟨b, hb, cb', hcb', hf, ht⟩
      · refine Or.inl ⟨by rw [hstep, if_neg hfd, hn], ?_⟩
        intro b hb cb' hcb'
        rcases List.mem_cons.mp hb with rfl | hb
        · rw [hcb] at hcb'; exact Option.some.inj hcb' ▸ hne
        · exact hall b hb cb' hcb'
      · exact Or.inr ⟨b, by simp [hb], cb', hcb', hf, by rw [hstep, if_neg hfd, ht]⟩

/-- The search reads nothing but the descriptors of the records. -/
theorem tfind_congr {heap heap' : Heap (Callback F U)} (fd : Int) {tree : List Nat}
    (h : ∀ a ∈ tree, (heap'.cell a).map Callback.fd = (heap.cell a).map Callback.fd) :
    tfind heap' fd tree = tfind heap fd tree := by
  induction tree with
  | nil => rfl
  | cons a rest ih =>
    have ha := h a (by simp)
    have hrest := ih fun b hb => h b (by simp [hb])
    cases hc : heap.cell a with
    | none =>
      cases hc' : heap'.cell a with
      | none => simp only [tfind, hc, hc']
      | some cb' => simp [hc, hc'] at ha
    | some cb =>
      cases hc' : heap'.cell a with
      | none => simp [hc, hc'] at ha
      | some cb' =>
        have hfd : cb'.fd = cb.fd := by simpa [hc, hc'] using ha
        simp only [tfind, hc, hc', hfd, hrest]

/-- `sepoll_find_fd` finds the record the interest list points to. -/
theorem Loop.Wf.findFd_cases (h : l.Wf) (fd : Int) :
    (l.interest fd = none ∧ l.findFd fd = some none) ∨
      ∃ e cb, l.interest fd = some e ∧ e.ptr ∈ l.callbacksTree ∧
        l.heap.cell e.ptr = some cb ∧ cb.fd = fd ∧ l.findFd fd = some (some e.ptr) := by
  have halloc : ∀ a ∈ l.callbacksTree, ∃ cb, l.heap.cell a = some cb := fun a ha =>
    let ⟨cb, _, hc, _⟩ := h.tree_reg a ha
    ⟨cb, hc⟩
  rcases tfind_cases l.heap fd l.callbacksTree halloc with ⟨hn, hall⟩ | ⟨a, ha, cb, hc, hfd, ht⟩
  · refine Or.inl ⟨?_, hn⟩
    cases hi : l.interest fd with
    | none => rfl
    | some e =>
      obtain ⟨hm, cb, hc, hfd⟩ := h.interest_tree fd e hi
      exact absurd hfd (hall e.ptr hm cb hc)
  · obtain ⟨cb', ev, hc', hi⟩ := h.tree_reg a ha
    have : cb' = cb := Option.some.inj (hc'.symm.trans hc)
    subst this
    rw [hfd] at hi
    exact Or.inr ⟨⟨ev, a⟩, cb', hi, ha, hc, hfd, ht⟩

/-! ## Freeing -/

theorem Loop.release_eq {a : Nat} (ha : a ∈ l.heap.live) (hp : a ∉ l.pending.map EpollEvent.ptr) :
    l.release a = some { l with heap := l.heap.freeLive a ha } := by
  rw [Loop.release, if_neg hp, Heap.free_eq ha]
  rfl

/-- Freeing a list of live records, each once, none of them awaited by an
event. -/
theorem Loop.releaseAll_spec : ∀ (as : List Nat) (l : Loop F U), as.Nodup →
    (∀ a ∈ as, a ∈ l.heap.live) → (∀ a ∈ as, a ∉ l.pending.map EpollEvent.ptr) →
    ∃ heap, l.releaseAll as = some { l with heap := heap } ∧
      (∀ b, b ∉ as → heap.cell b = l.heap.cell b) ∧
      (∀ b, b ∈ heap.live ↔ b ∈ l.heap.live ∧ b ∉ as)
  | [], l, _, _, _ => ⟨l.heap, rfl, fun _ _ => rfl, by simp⟩
  | a :: rest, l, hnd, hlive, hpend => by
    obtain ⟨hnot, hnd'⟩ := List.nodup_cons.mp hnd
    have ha := hlive a (by simp)
    have hrest : ∀ b ∈ rest, b ∈ (l.heap.freeLive a ha).live := fun b hb => by
      rw [Heap.freeLive_live, l.heap.live_nodup.mem_erase_iff]
      exact ⟨fun he => hnot (he ▸ hb), hlive b (by simp [hb])⟩
    obtain ⟨heap, hr, hcell, hl⟩ := Loop.releaseAll_spec rest
      { l with heap := l.heap.freeLive a ha } hnd' hrest fun b hb => hpend b (by simp [hb])
    refine ⟨heap, ?_, ?_, ?_⟩
    · rw [Loop.releaseAll, Loop.release_eq ha (hpend a (by simp)), Option.bind_some, hr]
    · intro b hb
      simp only [List.mem_cons, not_or] at hb
      rw [hcell b hb.2, Heap.freeLive_cell_of_ne ha hb.1]
    · intro b
      rw [hl b]
      simp only [Heap.freeLive_live, l.heap.live_nodup.mem_erase_iff, List.mem_cons, not_or]
      tauto

/-! ## The registrations a loop stands for -/

/-- A registration: the record, the mask, and what to call. -/
structure Reg (F U : Type) where
  ptr : Nat
  events : UInt32
  function : Option F
  userdata1 : U
  userdata2 : U

/-- The registration of a descriptor. -/
def Loop.reg (l : Loop F U) (fd : Int) : Option (Reg F U) :=
  (l.interest fd).bind fun e => (l.heap.cell e.ptr).map fun cb =>
    ⟨e.ptr, e.events, cb.function, cb.userdata1, cb.userdata2⟩

theorem Loop.Wf.reg_none_iff (h : l.Wf) (fd : Int) : l.reg fd = none ↔ l.interest fd = none := by
  cases hi : l.interest fd with
  | none => simp [Loop.reg, hi]
  | some e =>
    obtain ⟨_, cb, hc, _⟩ := h.interest_tree fd e hi
    simp [Loop.reg, hi, hc]

theorem Loop.reg_some_iff {fd : Int} {r : Reg F U} :
    l.reg fd = some r ↔ l.interest fd = some ⟨r.events, r.ptr⟩ ∧ ∃ cb,
      l.heap.cell r.ptr = some cb ∧
      cb.function = r.function ∧ cb.userdata1 = r.userdata1 ∧ cb.userdata2 = r.userdata2 := by
  obtain ⟨ptr, events, function, u1, u2⟩ := r
  constructor
  · intro h
    simp only [Loop.reg, Option.bind_eq_some_iff, Option.map_eq_some_iff, Reg.mk.injEq] at h
    obtain ⟨⟨ev, p⟩, hi, cb, hc, rfl, rfl, rfl, rfl, rfl⟩ := h
    exact ⟨hi, cb, hc, rfl, rfl, rfl⟩
  · rintro ⟨hi, cb, hc, hf, h1, h2⟩
    simp only [Loop.reg, hi, Option.bind_some, hc, Option.map_some, hf, h1, h2]

/-- Registrations of different descriptors have different records. -/
theorem Loop.Wf.reg_ptr_inj (h : l.Wf) {fd fd' : Int} {r r' : Reg F U} (hr : l.reg fd = some r)
    (hr' : l.reg fd' = some r') (hp : r.ptr = r'.ptr) : fd = fd' := by
  obtain ⟨_, cb, hc, hfd⟩ := h.interest_tree fd _ (Loop.reg_some_iff.mp hr).1
  obtain ⟨_, cb', hc', hfd'⟩ := h.interest_tree fd' _ (Loop.reg_some_iff.mp hr').1
  simp only at hc hc'
  rw [hp, hc'] at hc
  rw [← hfd, ← hfd', Option.some.inj hc]

theorem Loop.Same.reg (hs : l.Same l') : l'.reg = l.reg := by
  funext fd
  simp only [Loop.reg, hs.interest, hs.cell]

/-! ## `sepoll_add` -/

/-- The record just allocated can be freed again, and then the heap holds
what it held before. -/
theorem Loop.Wf.release_fresh (h : l.Wf) (want : Nat) (cb : Callback F U) (l1 : Loop F U)
    (hheap : l1.heap = l.heap.alloc want cb) (hpend : l1.pending = l.pending) :
    ∃ heap, l1.release (l.heap.fresh want) = some { l1 with heap := heap } ∧
      heap.cell = l.heap.cell ∧ heap.live = l.heap.live := by
  have hlive : l.heap.fresh want ∈ l1.heap.live := by rw [hheap]; simp
  have hp : l.heap.fresh want ∉ l1.pending.map EpollEvent.ptr := by
    rw [hpend]
    intro hm
    obtain ⟨e, he, hptr⟩ := List.mem_map.mp hm
    exact Heap.fresh_not_live l.heap want (hptr ▸ h.pending_live he)
  refine ⟨_, Loop.release_eq hlive hp, ?_, ?_⟩
  · simp only [hheap, Heap.freeLive_alloc_cell]
  · simp only [hheap, Heap.freeLive_alloc_live]

/-- The search of the tree does not see the new record's allocation. -/
theorem Loop.Wf.tfind_alloc (h : l.Wf) (fd : Int) (want : Nat) (cb : Callback F U) :
    tfind (l.heap.alloc want cb) fd l.callbacksTree = l.findFd fd :=
  tfind_congr fd fun a ha => by rw [Heap.alloc_cell_of_live (h.tree_live ha)]

/-- The loop after a successful `sepoll_add`. -/
def Loop.added (l : Loop F U) (fd : Int) (events : UInt32) (function : Option F)
    (userdata1 userdata2 : U) (want : Nat) : Loop F U :=
  { l with
    heap := l.heap.alloc want ⟨fd, function, userdata1, userdata2⟩
    callbacksTree := l.heap.fresh want :: l.callbacksTree
    interest := Function.update l.interest fd (some ⟨events, l.heap.fresh want⟩) }

/-- Why `sepoll_add` fails, if it does: no memory for the record, a
descriptor that is registered already, no memory for the tree's node, or
the kernel's error. -/
def addError (registered : Bool) (ans : LoopAnswer) : Option Errno :=
  if ans.malloc = none then some .ENOMEM
  else if registered then some .EEXIST
  else if ans.tsearch then ans.ctlAdd
  else some .ENOMEM

/-- Why one of the `sepoll_mod` functions fails, if it does. -/
def modError (registered : Bool) (ans : LoopAnswer) : Option Errno :=
  if registered then ans.ctlMod else some .EBADF

/-- What `sepoll_add` can do: fail and leave the loop as it was; or
register the descriptor. -/
theorem Loop.Wf.add_cases (h : l.Wf) (fd : Int) (events : UInt32) (function : Option F)
    (u1 u2 : U) (ans : LoopAnswer) :
    (∃ l' e, addError (l.interest fd).isSome ans = some e ∧
        l.add fd events function u1 u2 ans = some (l', .error e) ∧ l.Same l') ∨
      ∃ want, addError (l.interest fd).isSome ans = none ∧ ans.malloc = some want ∧
        l.interest fd = none ∧
        l.add fd events function u1 u2 ans
          = some (l.added fd events function u1 u2 want, .ok ()) := by
  cases hm : ans.malloc with
  | none =>
    exact Or.inl ⟨l, .ENOMEM, by simp [addError, hm], by simp only [Loop.add, hm], .refl l⟩
  | some want =>
    have hfind := h.tfind_alloc fd want ⟨fd, function, u1, u2⟩
    rcases h.findFd_cases fd with ⟨hi, hf⟩ | ⟨e, cb, hi, hmem, hcell, hfd, hf⟩
    · rw [hf] at hfind
      cases hts : ans.tsearch with
      | false =>
        -- no memory for the node of the tree
        obtain ⟨heap, hr, hcell, hlive⟩ := h.release_fresh want ⟨fd, function, u1, u2⟩
          { l with heap := l.heap.alloc want ⟨fd, function, u1, u2⟩ } rfl rfl
        refine Or.inl ⟨{ l with heap := heap }, .ENOMEM, by simp [addError, hm, hi, hts], ?_,
          ⟨rfl, rfl, rfl, rfl, rfl, rfl, rfl, hcell, hlive⟩⟩
        simp only [Loop.add, hm, hfind, hts, Option.bind_eq_bind, Option.bind_some, hr,
          Bool.false_eq_true, if_false]
      | true =>
        cases hctl : ans.ctlAdd with
        | none =>
          refine Or.inr ⟨want, by simp [addError, hm, hi, hts, hctl], rfl, hi, ?_⟩
          simp only [Loop.add, hm, hfind, hts, hctl, Option.bind_eq_bind, Option.bind_some,
            Loop.epollCtlAdd, hi, if_true, Loop.added]
        | some e =>
          -- the kernel refused: the tree insertion is undone
          obtain ⟨heap, hr, hcell, hlive⟩ := h.release_fresh want ⟨fd, function, u1, u2⟩
            { l with heap := l.heap.alloc want ⟨fd, function, u1, u2⟩ } rfl rfl
          have hdel : tdelete (l.heap.alloc want ⟨fd, function, u1, u2⟩) fd
              (l.heap.fresh want :: l.callbacksTree) = some l.callbacksTree := by
            have : tfind (l.heap.alloc want ⟨fd, function, u1, u2⟩) fd
                (l.heap.fresh want :: l.callbacksTree) = some (some (l.heap.fresh want)) := by
              rw [tfind, Heap.alloc_cell_self]
              simp [compareCallbackFd]
            rw [tdelete, this]
            simp
          refine Or.inl ⟨{ l with heap := heap }, e, by simp [addError, hm, hi, hts, hctl], ?_,
            ⟨rfl, rfl, rfl, rfl, rfl, rfl, rfl, hcell, hlive⟩⟩
          simp only [Loop.add, hm, hfind, hts, hctl, Option.bind_eq_bind, Option.bind_some,
            Loop.epollCtlAdd, hi, if_true, hdel, hr]
    · -- a record of this descriptor is in the tree already
      rw [hf] at hfind
      obtain ⟨heap, hr, hcell, hlive⟩ := h.release_fresh want ⟨fd, function, u1, u2⟩
        { l with heap := l.heap.alloc want ⟨fd, function, u1, u2⟩ } rfl rfl
      refine Or.inl ⟨{ l with heap := heap }, .EEXIST, by simp [addError, hm, hi], ?_,
        ⟨rfl, rfl, rfl, rfl, rfl, rfl, rfl, hcell, hlive⟩⟩
      simp only [Loop.add, hm, hfind, Option.bind_eq_bind, Option.bind_some, hr]

theorem Loop.Wf.added (h : l.Wf) {fd : Int} (hi : l.interest fd = none) (events : UInt32)
    (function : Option F) (u1 u2 : U) (want : Nat) :
    (l.added fd events function u1 u2 want).Wf := by
  have hnew := Heap.fresh_not_live l.heap want
  refine ⟨?_, ?_, ?_, h.gc_nodup, ?_, ?_, ?_, ?_⟩
  · intro a ha
    rcases List.mem_cons.mp ha with rfl | ha
    · exact ⟨_, events, Heap.alloc_cell_self .., Function.update_self ..⟩
    · obtain ⟨cb, ev, hc, hreg⟩ := h.tree_reg a ha
      have hfd : cb.fd ≠ fd := fun he => by rw [he, hi] at hreg; cases hreg
      exact ⟨cb, ev, (Heap.alloc_cell_of_live (h.tree_live ha)).trans hc,
        (Function.update_of_ne hfd _ _).trans hreg⟩
  · intro fd' e he
    by_cases hfd : fd' = fd
    · subst hfd
      simp only [Loop.added, Function.update_self, Option.some.injEq] at he
      subst he
      exact ⟨by simp [Loop.added], _, Heap.alloc_cell_self .., rfl⟩
    · simp only [Loop.added, Function.update_of_ne hfd] at he
      obtain ⟨hm, cb, hc, hcfd⟩ := h.interest_tree fd' e he
      exact ⟨by simp [Loop.added, hm], cb,
        (Heap.alloc_cell_of_live (h.tree_live hm)).trans hc, hcfd⟩
  · exact List.nodup_cons.mpr ⟨fun hm => hnew (h.tree_live hm), h.tree_nodup⟩
  · intro a ha
    obtain ⟨cb, hc, hnull⟩ := h.gc_null a ha
    exact ⟨cb, (Heap.alloc_cell_of_live (h.gc_live ha)).trans hc, hnull⟩
  · intro a ha hm
    rcases List.mem_cons.mp hm with rfl | hm
    · exact hnew (h.gc_live ha)
    · exact h.gc_disjoint a ha hm
  · intro a ha
    rcases List.mem_cons.mp ha with rfl | ha
    · exact Or.inl (by simp [Loop.added])
    · exact (h.live_cases a ha).imp_left fun hm => by simp [Loop.added, hm]
  · intro e he
    exact (h.pending_cases e he).imp_left fun hm => by simp [Loop.added, hm]

theorem Loop.Wf.added_reg (h : l.Wf) (fd : Int) (events : UInt32)
    (function : Option F) (u1 u2 : U) (want : Nat) :
    (l.added fd events function u1 u2 want).reg
      = Function.update l.reg fd (some ⟨l.heap.fresh want, events, function, u1, u2⟩) := by
  funext fd'
  by_cases hfd : fd' = fd
  · subst hfd
    rw [Function.update_self, Loop.reg_some_iff]
    exact ⟨Function.update_self .., _, Heap.alloc_cell_self .., rfl, rfl, rfl⟩
  · rw [Function.update_of_ne hfd]
    simp only [Loop.reg, Loop.added, Function.update_of_ne hfd]
    cases hi : l.interest fd' with
    | none => rfl
    | some e =>
      rw [Option.bind_some, Option.bind_some,
        Heap.alloc_cell_of_live (h.tree_live (h.interest_tree fd' e hi).1)]

/-! ## `sepoll_mod` and its two halves -/

/-- The loop with another mask for a registered descriptor. -/
def Loop.remasked (l : Loop F U) (fd : Int) (events : UInt32) (a : Nat) : Loop F U :=
  { l with interest := Function.update l.interest fd (some ⟨events, a⟩) }

/-- The loop with another function and userdata in a record. -/
def Loop.rebound (l : Loop F U) (a : Nat) (fd : Int) (function : Option F) (u1 u2 : U)
    (ha : a ∈ l.heap.live) : Loop F U :=
  { l with heap := l.heap.writeLive a ⟨fd, function, u1, u2⟩ ha }

theorem Loop.Wf.remasked (h : l.Wf) {fd : Int} {e : EpollEvent} (hi : l.interest fd = some e)
    (events : UInt32) : (l.remasked fd events e.ptr).Wf := by
  refine ⟨?_, ?_, h.tree_nodup, h.gc_nodup, h.gc_null, h.gc_disjoint, h.live_cases,
    h.pending_cases⟩
  · intro a ha
    obtain ⟨cb, ev, hc, hreg⟩ := h.tree_reg a ha
    by_cases hfd : cb.fd = fd
    · have he : e = ⟨ev, a⟩ := by rw [hfd, hi] at hreg; exact Option.some.inj hreg
      refine ⟨cb, events, hc, ?_⟩
      simp [Loop.remasked, hfd, he]
    · exact ⟨cb, ev, hc, (Function.update_of_ne hfd _ _).trans hreg⟩
  · intro fd' e' he'
    by_cases hfd : fd' = fd
    · subst hfd
      simp only [Loop.remasked, Function.update_self, Option.some.injEq] at he'
      subst he'
      exact h.interest_tree fd' e hi
    · simp only [Loop.remasked, Function.update_of_ne hfd] at he'
      exact h.interest_tree fd' e' he'

theorem Loop.remasked_reg {fd : Int} {r : Reg F U} (hr : l.reg fd = some r) (events : UInt32) :
    (l.remasked fd events r.ptr).reg
      = Function.update l.reg fd (some { r with events := events }) := by
  funext fd'
  by_cases hfd : fd' = fd
  · subst hfd
    rw [Function.update_self, Loop.reg_some_iff]
    exact ⟨Function.update_self .., (Loop.reg_some_iff.mp hr).2⟩
  · simp only [Loop.reg, Loop.remasked, Function.update_of_ne hfd]

theorem Loop.Wf.rebound (h : l.Wf) {fd : Int} {a : Nat} {cb : Callback F U}
    (ht : a ∈ l.callbacksTree) (hc : l.heap.cell a = some cb) (hfd : cb.fd = fd)
    (function : Option F) (u1 u2 : U) :
    (l.rebound a fd function u1 u2 (h.tree_live ht)).Wf := by
  have hcell : ∀ b, b ≠ a →
      (l.rebound a fd function u1 u2 (h.tree_live ht)).heap.cell b = l.heap.cell b :=
    fun b hb => Heap.writeLive_cell_of_ne (h.tree_live ht) hb
  have hself : (l.rebound a fd function u1 u2 (h.tree_live ht)).heap.cell a
      = some ⟨fd, function, u1, u2⟩ := Heap.writeLive_cell_self _ _ _ (h.tree_live ht)
  refine ⟨?_, ?_, h.tree_nodup, h.gc_nodup, ?_, h.gc_disjoint, h.live_cases, h.pending_cases⟩
  · intro b hb
    obtain ⟨cb', ev, hc', hreg⟩ := h.tree_reg b hb
    by_cases hba : b = a
    · subst hba
      have : cb' = cb := Option.some.inj (hc'.symm.trans hc)
      subst this
      exact ⟨_, ev, hself, hfd ▸ hreg⟩
    · exact ⟨cb', ev, (hcell b hba).trans hc', hreg⟩
  · intro fd' e he
    obtain ⟨hm, cb', hc', hf⟩ := h.interest_tree fd' e he
    by_cases hba : e.ptr = a
    · have : cb' = cb := Option.some.inj ((hba ▸ hc').symm.trans hc)
      subst this
      exact ⟨hm, _, by rw [hba]; exact hself, hfd.symm.trans hf⟩
    · exact ⟨hm, cb', (hcell _ hba).trans hc', hf⟩
  · intro b hb
    obtain ⟨cb', hc', hnull⟩ := h.gc_null b hb
    have hba : b ≠ a := fun he => h.gc_disjoint b hb (he ▸ ht)
    exact ⟨cb', (hcell b hba).trans hc', hnull⟩

theorem Loop.Wf.rebound_reg (h : l.Wf) {fd : Int} {r : Reg F U} (hr : l.reg fd = some r)
    (function : Option F) (u1 u2 : U) (ha : r.ptr ∈ l.heap.live) :
    (l.rebound r.ptr fd function u1 u2 ha).reg
      = Function.update l.reg fd
          (some ⟨r.ptr, r.events, function, u1, u2⟩) := by
  funext fd'
  by_cases hfd : fd' = fd
  · subst hfd
    rw [Function.update_self, Loop.reg_some_iff]
    exact ⟨(Loop.reg_some_iff.mp hr).1, _, Heap.writeLive_cell_self _ _ _ ha, rfl, rfl, rfl⟩
  · rw [Function.update_of_ne hfd]
    simp only [Loop.reg, Loop.rebound]
    cases hi : l.interest fd' with
    | none => rfl
    | some e =>
      obtain ⟨_, cb, hc, hcfd⟩ := h.interest_tree fd' e hi
      have hne : e.ptr ≠ r.ptr := by
        intro he
        obtain ⟨_, cb', hc', hcfd'⟩ := h.interest_tree fd _ (Loop.reg_some_iff.mp hr).1
        simp only [← he, hc, Option.some.injEq] at hc'
        exact hfd (by rw [← hcfd, hc', hcfd'])
      rw [Option.bind_some, Option.bind_some, Heap.writeLive_cell_of_ne ha hne]

/-- What `sepoll_mod_events` can do. -/
theorem Loop.Wf.modEvents_cases (h : l.Wf) (fd : Int) (events : UInt32) (ans : LoopAnswer) :
    (∃ e, modError (l.interest fd).isSome ans = some e ∧
        l.modEvents fd events ans = some (l, .error e)) ∨
      ∃ e, modError (l.interest fd).isSome ans = none ∧ l.interest fd = some e ∧
        l.modEvents fd events ans = some (l.remasked fd events e.ptr, .ok ()) := by
  rcases h.findFd_cases fd with ⟨hi, hf⟩ | ⟨e, cb, hi, hmem, hcell, hfd, hf⟩
  · exact Or.inl ⟨.EBADF, by simp [modError, hi], by simp [Loop.modEvents, hf]⟩
  · cases hctl : ans.ctlMod with
    | some err =>
      refine Or.inl ⟨err, by simp [modError, hi, hctl], ?_⟩
      simp [Loop.modEvents, hf, Loop.epollCtlMod, hi, hctl]
    | none =>
      refine Or.inr ⟨e, by simp [modError, hi, hctl], hi, ?_⟩
      simp [Loop.modEvents, hf, Loop.epollCtlMod, hi, hctl, Loop.remasked]

/-- What `sepoll_mod_callback` can do. -/
theorem Loop.Wf.modCallback_cases (h : l.Wf) (fd : Int) (function : Option F) (u1 u2 : U) :
    (l.interest fd = none ∧ l.modCallback fd function u1 u2 = some (l, .error .EBADF)) ∨
      ∃ e cb, l.interest fd = some e ∧ ∃ ht : e.ptr ∈ l.callbacksTree,
        l.heap.cell e.ptr = some cb ∧ cb.fd = fd ∧
        l.modCallback fd function u1 u2
          = some (l.rebound e.ptr fd function u1 u2 (h.tree_live ht), .ok ()) := by
  rcases h.findFd_cases fd with ⟨hi, hf⟩ | ⟨e, cb, hi, hmem, hcell, hfd, hf⟩
  · exact Or.inl ⟨hi, by simp [Loop.modCallback, hf]⟩
  · refine Or.inr ⟨e, cb, hi, hmem, hcell, hfd, ?_⟩
    simp only [Loop.modCallback, hf, Option.bind_eq_bind, Option.bind_some, hcell,
      Heap.write_eq (h.tree_live hmem), hfd, Loop.rebound]

/-- What `sepoll_mod` can do. -/
theorem Loop.Wf.mod_cases (h : l.Wf) (fd : Int) (events : UInt32) (function : Option F)
    (u1 u2 : U) (ans : LoopAnswer) :
    (∃ e, modError (l.interest fd).isSome ans = some e ∧
        l.mod fd events function u1 u2 ans = some (l, .error e)) ∨
      ∃ e cb, modError (l.interest fd).isSome ans = none ∧ l.interest fd = some e ∧
        ∃ ht : e.ptr ∈ l.callbacksTree,
        l.heap.cell e.ptr = some cb ∧ cb.fd = fd ∧
        l.mod fd events function u1 u2 ans
          = some ((l.remasked fd events e.ptr).rebound e.ptr fd function u1 u2
              (h.tree_live ht), .ok ()) := by
  rcases h.findFd_cases fd with ⟨hi, hf⟩ | ⟨e, cb, hi, hmem, hcell, hfd, hf⟩
  · exact Or.inl ⟨.EBADF, by simp [modError, hi], by simp [Loop.mod, hf]⟩
  · cases hctl : ans.ctlMod with
    | some err =>
      refine Or.inl ⟨err, by simp [modError, hi, hctl], ?_⟩
      simp [Loop.mod, hf, Loop.epollCtlMod, hi, hctl]
    | none =>
      refine Or.inr ⟨e, cb, by simp [modError, hi, hctl], hi, hmem, hcell, hfd, ?_⟩
      simp only [Loop.mod, hf, Option.bind_eq_bind, Option.bind_some, Loop.epollCtlMod, hi, hctl,
        hcell, Heap.write_eq (h.tree_live hmem), hfd, Loop.rebound, Loop.remasked]

/-! ## `sepoll_remove` -/

/-- The loop after a successful `sepoll_remove`. -/
def Loop.removed (l : Loop F U) (fd : Int) (a : Nat) (cb : Callback F U)
    (ha : a ∈ l.heap.live) : Loop F U :=
  { l with
    heap := l.heap.writeLive a { cb with function := none } ha
    callbacksTree := l.callbacksTree.erase a
    callbacksGcList := a :: l.callbacksGcList
    interest := Function.update l.interest fd none }

/-- `sepoll_remove` takes one descriptor off the interest list, whatever
the loop. -/
theorem Loop.remove_interest {fd fd' : Int} {ret : Ret} (h : l.remove fd = some (l', ret))
    (hne : fd' ≠ fd) : l'.interest fd' = l.interest fd' := by
  simp only [Loop.remove, Option.bind_eq_bind, Option.bind_eq_some_iff] at h
  obtain ⟨found, _, h⟩ := h
  cases found with
  | none =>
    obtain ⟨rfl, -⟩ := Prod.mk.inj (Option.some.inj h)
    rfl
  | some p =>
    simp only [Option.bind_eq_some_iff, Option.some.injEq] at h
    obtain ⟨cb, _, heap, _, tree, _, h⟩ := h
    rw [Loop.epollCtlDel] at h
    split at h
    · obtain ⟨rfl, -⟩ := Prod.mk.inj h
      rfl
    · obtain ⟨rfl, -⟩ := Prod.mk.inj h
      exact Function.update_of_ne hne ..

/-- What `sepoll_remove` can do. -/
theorem Loop.Wf.remove_cases (h : l.Wf) (fd : Int) :
    (l.interest fd = none ∧ l.remove fd = some (l, .error .EBADF)) ∨
      ∃ e cb, l.interest fd = some e ∧ ∃ ht : e.ptr ∈ l.callbacksTree,
        l.heap.cell e.ptr = some cb ∧ cb.fd = fd ∧
        l.remove fd = some (l.removed fd e.ptr cb (h.tree_live ht), .ok ()) := by
  rcases h.findFd_cases fd with ⟨hi, hf⟩ | ⟨e, cb, hi, hmem, hcell, hfd, hf⟩
  · exact Or.inl ⟨hi, by simp [Loop.remove, hf]⟩
  · refine Or.inr ⟨e, cb, hi, hmem, hcell, hfd, ?_⟩
    -- nulling the function does not disturb the search for the node
    have hfind : tfind (l.heap.writeLive e.ptr { cb with function := none } (h.tree_live hmem))
        fd l.callbacksTree = some (some e.ptr) := by
      rw [← hf]
      refine tfind_congr fd fun a ha => ?_
      by_cases hae : a = e.ptr
      · rw [hae, Heap.writeLive_cell_self, hcell]; rfl
      · rw [Heap.writeLive_cell_of_ne _ hae]
    simp only [Loop.remove, hf, Option.bind_eq_bind, Option.bind_some, hcell,
      Heap.write_eq (h.tree_live hmem), tdelete, hfind, Loop.epollCtlDel, hi, Loop.removed]

theorem Loop.Wf.removed (h : l.Wf) {fd : Int} {e : EpollEvent} {cb : Callback F U}
    (hi : l.interest fd = some e) (ht : e.ptr ∈ l.callbacksTree)
    (hc : l.heap.cell e.ptr = some cb) (hfd : cb.fd = fd) :
    (l.removed fd e.ptr cb (h.tree_live ht)).Wf := by
  have hcell : ∀ b, b ≠ e.ptr →
      (l.removed fd e.ptr cb (h.tree_live ht)).heap.cell b = l.heap.cell b :=
    fun b hb => Heap.writeLive_cell_of_ne (h.tree_live ht) hb
  have herase : ∀ b, b ∈ l.callbacksTree.erase e.ptr ↔ b ≠ e.ptr ∧ b ∈ l.callbacksTree :=
    fun b => h.tree_nodup.mem_erase_iff
  have hmove : ∀ b, b ∈ l.callbacksTree ∨ b ∈ l.callbacksGcList →
      b ∈ l.callbacksTree.erase e.ptr ∨ b ∈ e.ptr :: l.callbacksGcList := by
    intro b hb
    by_cases hbe : b = e.ptr
    · exact Or.inr (by simp [hbe])
    · exact hb.imp (fun hm => (herase b).mpr ⟨hbe, hm⟩) fun hm => by simp [hm]
  have hgc : e.ptr ∉ l.callbacksGcList := fun hm => h.gc_disjoint _ hm ht
  refine ⟨?_, ?_, h.tree_nodup.erase _, List.nodup_cons.mpr ⟨hgc, h.gc_nodup⟩, ?_, ?_, ?_, ?_⟩
  · intro b hb
    obtain ⟨hbe, hbt⟩ := (herase b).mp hb
    obtain ⟨cb', ev, hc', hreg⟩ := h.tree_reg b hbt
    have hne : cb'.fd ≠ fd := by
      intro hf
      rw [hf, hi] at hreg
      exact hbe (congrArg EpollEvent.ptr (Option.some.inj hreg)).symm
    exact ⟨cb', ev, (hcell b hbe).trans hc', (Function.update_of_ne hne _ _).trans hreg⟩
  · intro fd' e' he'
    have hf : fd' ≠ fd := by
      rintro rfl
      simp [Loop.removed] at he'
    simp only [Loop.removed, Function.update_of_ne hf] at he'
    obtain ⟨hm, cb', hc', hcfd'⟩ := h.interest_tree fd' e' he'
    have hne : e'.ptr ≠ e.ptr := by
      intro hp
      rw [hp, hc] at hc'
      exact hf (by rw [← hcfd', ← Option.some.inj hc', hfd])
    exact ⟨(herase _).mpr ⟨hne, hm⟩, cb', (hcell _ hne).trans hc', hcfd'⟩
  · intro b hb
    rcases List.mem_cons.mp hb with rfl | hb
    · exact ⟨_, Heap.writeLive_cell_self _ _ _ (h.tree_live ht), rfl⟩
    · obtain ⟨cb', hc', hnull⟩ := h.gc_null b hb
      exact ⟨cb', (hcell b fun he => hgc (he ▸ hb)).trans hc', hnull⟩
  · intro b hb hm
    obtain ⟨hbe, hbt⟩ := (herase b).mp hm
    rcases List.mem_cons.mp hb with rfl | hb
    · exact hbe rfl
    · exact h.gc_disjoint b hb hbt
  · exact fun b hb => hmove b (h.live_cases b hb)
  · exact fun e' he' => hmove e'.ptr (h.pending_cases e' he')

theorem Loop.Wf.removed_reg (h : l.Wf) {fd : Int} {e : EpollEvent} {cb : Callback F U}
    (hi : l.interest fd = some e) (hc : l.heap.cell e.ptr = some cb)
    (hfd : cb.fd = fd) (ha : e.ptr ∈ l.heap.live) :
    (l.removed fd e.ptr cb ha).reg = Function.update l.reg fd none := by
  funext fd'
  by_cases hf : fd' = fd
  · subst hf
    simp [Loop.reg, Loop.removed]
  · rw [Function.update_of_ne hf]
    simp only [Loop.reg, Loop.removed, Function.update_of_ne hf]
    cases hi' : l.interest fd' with
    | none => rfl
    | some e' =>
      obtain ⟨_, cb', hc', hcfd'⟩ := h.interest_tree fd' e' hi'
      have hne : e'.ptr ≠ e.ptr := by
        intro hp
        rw [hp, hc] at hc'
        exact hf (by rw [← hcfd', ← Option.some.inj hc', hfd])
      rw [Option.bind_some, Option.bind_some, Heap.writeLive_cell_of_ne ha hne]

/-! ## The operations, on the registrations

The parts of the map that a program built on the loop works with. -/

/-- What no operation on a registration changes. -/
structure Loop.Kept (l l' : Loop F U) : Prop where
  pending : l'.pending = l.pending
  epollEvents : l'.epollEvents = l.epollEvents
  epollEventsSize : l'.epollEventsSize = l.epollEventsSize
  run : l'.run = l.run

/-- `sepoll_add` adds a registration no event refers to yet, or nothing. -/
theorem Loop.Wf.add_spec (h : l.Wf) (fd : Int) (events : UInt32) (function : Option F)
    (u1 u2 : U) (ans : LoopAnswer) :
    ∃ l' ret, l.add fd events function u1 u2 ans = some (l', ret) ∧ l'.Wf ∧ l.Kept l' ∧
      ((∃ e, ret = .error e) ∧ l'.reg = l.reg ∨
        ∃ p, ret = .ok () ∧ l.reg fd = none ∧ (∀ e ∈ l.pending, e.ptr ≠ p) ∧
          l'.reg = Function.update l.reg fd (some ⟨p, events, function, u1, u2⟩)) := by
  rcases h.add_cases fd events function u1 u2 ans with
    ⟨l', e, _, hr, hs⟩ | ⟨want, _, _, hi, hr⟩
  · exact ⟨l', _, hr, h.same hs, ⟨hs.pending, hs.epollEvents, hs.epollEventsSize, hs.run⟩,
      Or.inl ⟨⟨e, rfl⟩, hs.reg⟩⟩
  · refine ⟨_, _, hr, h.added hi events function u1 u2 want, ⟨rfl, rfl, rfl, rfl⟩, Or.inr ?_⟩
    refine ⟨_, rfl, (h.reg_none_iff fd).mpr hi, ?_, h.added_reg fd events function u1 u2 want⟩
    exact fun e he hp => Heap.fresh_not_live l.heap want (hp ▸ h.pending_live he)

/-- `sepoll_mod_events` changes the mask, or nothing where the kernel
refuses or nothing is registered. -/
theorem Loop.Wf.modEvents_spec (h : l.Wf) (fd : Int) (events : UInt32) (ans : LoopAnswer) :
    ∃ l' ret, l.modEvents fd events ans = some (l', ret) ∧ l'.Wf ∧ l.Kept l' ∧
      ((l'.reg = l.reg ∧ (l.reg fd = none ∨ ans.ctlMod ≠ none)) ∨ ∃ r, l.reg fd = some r ∧
        l'.reg = Function.update l.reg fd (some { r with events := events })) := by
  rcases h.modEvents_cases fd events ans with ⟨e, he, hr⟩ | ⟨e, _, hi, hr⟩
  · refine ⟨l, _, hr, h, ⟨rfl, rfl, rfl, rfl⟩, Or.inl ⟨rfl, ?_⟩⟩
    rw [h.reg_none_iff]
    cases hi : l.interest fd with
    | none => exact Or.inl rfl
    | some _ =>
      have hctl : ans.ctlMod = some e := by simpa [modError, hi] using he
      exact Or.inr (by simp [hctl])
  · obtain ⟨_, cb, hc, _⟩ := h.interest_tree fd e hi
    have hreg : l.reg fd = some ⟨e.ptr, e.events, cb.function, cb.userdata1, cb.userdata2⟩ :=
      Loop.reg_some_iff.mpr ⟨hi, cb, hc, rfl, rfl, rfl⟩
    exact ⟨_, _, hr, h.remasked hi events, ⟨rfl, rfl, rfl, rfl⟩,
      Or.inr ⟨_, hreg, Loop.remasked_reg hreg events⟩⟩

/-- `sepoll_remove` leaves the descriptor without a registration. -/
theorem Loop.Wf.remove_spec (h : l.Wf) (fd : Int) :
    ∃ l' ret, l.remove fd = some (l', ret) ∧ l'.Wf ∧ l.Kept l' ∧
      l'.reg = Function.update l.reg fd none := by
  rcases h.remove_cases fd with ⟨hi, hr⟩ | ⟨e, cb, hi, ht, hc, hfd, hr⟩
  · refine ⟨l, _, hr, h, ⟨rfl, rfl, rfl, rfl⟩, ?_⟩
    rw [← (h.reg_none_iff fd).mpr hi, Function.update_eq_self]
  · exact ⟨_, _, hr, h.removed hi ht hc hfd, ⟨rfl, rfl, rfl, rfl⟩, h.removed_reg hi hc hfd _⟩

/-! ## Collecting and destroying -/

/-- At the end of a batch the garbage list is freed, and nothing that is
registered changes. -/
theorem Loop.Wf.collect_spec (h : l.Wf) (hp : l.pending = []) :
    ∃ heap, l.collect = some { l with heap := heap, callbacksGcList := [] } ∧
      (∀ b, b ∉ l.callbacksGcList → heap.cell b = l.heap.cell b) ∧
      (∀ b, b ∈ heap.live ↔ b ∈ l.heap.live ∧ b ∉ l.callbacksGcList) := by
  obtain ⟨heap, hr, hcell, hlive⟩ := Loop.releaseAll_spec l.callbacksGcList l h.gc_nodup
    (fun a ha => h.gc_live ha) (fun a _ => by simp [hp])
  exact ⟨heap, by simp [Loop.collect, hr], hcell, hlive⟩

theorem Loop.Wf.collected (h : l.Wf) (hp : l.pending = []) (hc : l.collect = some l') :
    l'.Wf := by
  obtain ⟨heap, hr, hcell, hlive⟩ := h.collect_spec hp
  rw [hr, Option.some.injEq] at hc
  subst hc
  have htree : ∀ a ∈ l.callbacksTree, heap.cell a = l.heap.cell a := fun a ha =>
    hcell a fun hg => h.gc_disjoint a hg ha
  refine ⟨?_, ?_, h.tree_nodup, List.nodup_nil, by simp, by simp, ?_, by simp [hp]⟩
  · intro a ha
    obtain ⟨cb, ev, hc, hreg⟩ := h.tree_reg a ha
    exact ⟨cb, ev, (htree a ha).trans hc, hreg⟩
  · intro fd e he
    obtain ⟨hm, cb, hc, hfd⟩ := h.interest_tree fd e he
    exact ⟨hm, cb, (htree _ hm).trans hc, hfd⟩
  · intro a ha
    obtain ⟨hl, hg⟩ := (hlive a).mp ha
    exact Or.inl ((h.live_cases a hl).resolve_right hg)

theorem Loop.Wf.collected_reg (h : l.Wf) (hp : l.pending = []) (hc : l.collect = some l') :
    l'.reg = l.reg := by
  obtain ⟨heap, hr, hcell, _⟩ := h.collect_spec hp
  rw [hr, Option.some.injEq] at hc
  subst hc
  funext fd
  simp only [Loop.reg]
  cases hi : l.interest fd with
  | none => rfl
  | some e =>
    have hm := (h.interest_tree fd e hi).1
    rw [Option.bind_some, Option.bind_some, hcell e.ptr fun hg => h.gc_disjoint _ hg hm]

/-- `sepoll_destroy` frees every record there is, also where the kernel has
dropped registrations of closed descriptors. -/
theorem Loop.Wf.destroy_unwatched (h : l.Wf) (hp : l.pending = [])
    (interest : Int → Option EpollEvent) :
    ∃ l', Loop.destroy { l with interest := interest } = some l' ∧ l'.Wf ∧ l'.pending = [] ∧
      l'.heap.live = [] ∧ l'.interest = fun _ => none := by
  obtain ⟨heap, hr, hcell, hlive⟩ := Loop.releaseAll_spec l.callbacksTree
    { l with interest := interest } h.tree_nodup (fun a ha => h.tree_live ha)
    (fun a _ => by simp [hp])
  obtain ⟨heap', hr', _, hlive'⟩ := Loop.releaseAll_spec l.callbacksGcList
    { l with heap := heap, callbacksTree := [], interest := interest } h.gc_nodup
    (fun a ha => (hlive a).mpr ⟨h.gc_live ha, h.gc_disjoint a ha⟩) (fun a _ => by simp [hp])
  have hnil : heap'.live = [] := by
    rw [List.eq_nil_iff_forall_not_mem]
    intro a ha
    obtain ⟨hl, hg⟩ := (hlive' a).mp ha
    obtain ⟨hl, ht⟩ := (hlive a).mp hl
    exact (h.live_cases a hl).elim ht hg
  refine ⟨{ l with
    heap := heap', callbacksTree := [], callbacksGcList := [], interest := fun _ => none },
    ?_, ?_, hp, hnil, rfl⟩
  · simp only [Loop.destroy, hr, Option.bind_eq_bind, Option.bind_some, hr']
  · refine ⟨?_, ?_, ?_, ?_, ?_, ?_, ?_, ?_⟩ <;> simp [hnil, hp]

theorem Loop.Wf.destroy_spec (h : l.Wf) (hp : l.pending = []) :
    ∃ l', l.destroy = some l' ∧ l'.heap.live = [] ∧ l'.interest = fun _ => none :=
  (h.destroy_unwatched hp l.interest).imp fun _ hd => ⟨hd.1, hd.2.2.2⟩

/-! ## Waiting and fetching -/

/-- Every event reported is that of a registered descriptor, not reported
before, with bits of its mask or of the two always reported. -/
theorem Loop.mem_ready : ∀ (evs : List (Int × UInt32)) (seen : List Int) (e : EpollEvent),
    e ∈ l.ready evs seen → ∃ fd m bits, fd ∉ seen ∧ l.interest fd = some m ∧ e.ptr = m.ptr ∧
      e.events = bits &&& (m.events ||| EPOLLERR ||| EPOLLHUP)
  | [], _, e, he => by simp [Loop.ready] at he
  | (fd, bits) :: rest, seen, e, he => by
    rw [Loop.ready] at he
    cases hi : l.interest fd with
    | none =>
      simp only [hi] at he
      exact Loop.mem_ready rest seen e he
    | some m =>
      simp only [hi] at he
      split at he
      · rename_i hnew
        rcases List.mem_cons.mp he with rfl | he
        · exact ⟨fd, m, bits, hnew.1, hi, rfl, rfl⟩
        · obtain ⟨fd', m', bits', hs, hr⟩ := Loop.mem_ready rest (fd :: seen) e he
          exact ⟨fd', m', bits', fun hm => hs (by simp [hm]), hr⟩
      · exact Loop.mem_ready rest seen e he

/-- No registration is reported twice. -/
theorem Loop.Wf.ready_nodup (h : l.Wf) : ∀ (evs : List (Int × UInt32)) (seen : List Int),
    ((l.ready evs seen).map EpollEvent.ptr).Nodup
  | [], _ => by simp [Loop.ready]
  | (fd, bits) :: rest, seen => by
    rw [Loop.ready]
    cases hi : l.interest fd with
    | none => exact h.ready_nodup rest seen
    | some m =>
      dsimp only
      split
      · rw [List.map_cons, List.nodup_cons]
        refine ⟨?_, h.ready_nodup rest (fd :: seen)⟩
        intro hm
        obtain ⟨e, he, hptr⟩ := List.mem_map.mp hm
        obtain ⟨fd', m', _, hs, hi', hp', _⟩ := Loop.mem_ready rest (fd :: seen) e he
        obtain ⟨_, cb, hc, hfd⟩ := h.interest_tree fd m hi
        obtain ⟨_, cb', hc', hfd'⟩ := h.interest_tree fd' m' hi'
        simp only at hptr
        rw [← hp', hptr, hc] at hc'
        exact hs (by rw [← hfd', ← Option.some.inj hc', hfd]; simp)
      · exact h.ready_nodup rest seen

/-- What one look of `epoll_wait` can do: report nothing, or put a batch
into the array. -/
theorem Loop.poll_cases (l : Loop F U) (timeout : Int) (answer : WaitAnswer) :
    (∃ r, l.poll timeout answer = (l, r) ∧ ∀ n, r = .inr n → n ≤ 0) ∨
      ∃ evs batch, answer = .ready evs ∧ batch ≠ [] ∧
        batch = (l.ready evs []).take l.epollEventsSize.toNat ∧
        l.poll timeout answer = ({ l with
          epollEvents := batch ++ l.epollEvents.drop batch.length
          pending := batch }, .inr batch.length) := by
  cases answer with
  | error e => exact Or.inl ⟨.inr (-1), rfl, by rintro n ⟨⟩; omega⟩
  | ready evs =>
    by_cases hsize : l.epollEventsSize ≤ 0
    · exact Or.inl ⟨.inr (-1), by simp [Loop.poll, hsize], by rintro n ⟨⟩; omega⟩
    · by_cases hb : (l.ready evs []).take l.epollEventsSize.toNat = []
      · refine Or.inl ⟨if timeout < 0 then .inl () else .inr 0, by simp [Loop.poll, hsize, hb], ?_⟩
        intro n hn
        split at hn <;> cases hn
        omega
      · exact Or.inr ⟨evs, _, rfl, hb, rfl, by simp only [Loop.poll, if_neg hsize, if_neg hb]⟩

/-- A batch refers to records in the tree. -/
theorem Loop.Wf.polled (h : l.Wf) {evs : List (Int × UInt32)} {batch : List EpollEvent}
    (hb : batch = (l.ready evs []).take l.epollEventsSize.toNat) :
    Loop.Wf { l with
      epollEvents := batch ++ l.epollEvents.drop batch.length
      pending := batch } := by
  refine ⟨h.tree_reg, h.interest_tree, h.tree_nodup, h.gc_nodup, h.gc_null, h.gc_disjoint,
    h.live_cases, ?_⟩
  intro e he
  rw [hb] at he
  obtain ⟨fd, m, _, _, hi, hp, _⟩ := Loop.mem_ready evs [] e (List.mem_of_mem_take he)
  exact Or.inl (hp ▸ (h.interest_tree fd m hi).1)

/-- The loop with one event less to dispatch. -/
def Loop.popped (l : Loop F U) : Loop F U := { l with pending := l.pending.tail }

@[simp] theorem Loop.popped_reg (l : Loop F U) : l.popped.reg = l.reg := rfl

theorem Loop.Wf.popped (h : l.Wf) : l.popped.Wf :=
  ⟨h.tree_reg, h.interest_tree, h.tree_nodup, h.gc_nodup, h.gc_null, h.gc_disjoint,
    h.live_cases, fun e he => h.pending_cases e (List.mem_of_mem_tail he)⟩

theorem Loop.Wf.setRun (h : l.Wf) (run : Bool) : Loop.Wf { l with run := run } :=
  ⟨h.tree_reg, h.interest_tree, h.tree_nodup, h.gc_nodup, h.gc_null, h.gc_disjoint,
    h.live_cases, h.pending_cases⟩

/-- The event to dispatch next is still in the array, and the record it
refers to is not freed. -/
theorem Loop.Wf.fetch_spec (h : l.Wf) {i k : Nat} {e : EpollEvent} {rest : List EpollEvent}
    (hal : l.pending = (l.epollEvents.drop i).take k) (hp : l.pending = e :: rest) :
    ∃ cb, l.heap.cell e.ptr = some cb ∧ l.fetch i = some (l.popped, e.events, cb) := by
  obtain ⟨cb, hc⟩ := Heap.cell_of_mem_live (h.pending_live (e := e) (by simp [hp]))
  have hget : l.epollEvents[i]? = some e := by
    have h0 : ((l.epollEvents.drop i).take k)[0]? = some e := by rw [← hal, hp]; rfl
    have hk : 0 < k := by
      rcases Nat.eq_zero_or_pos k with rfl | hk
      · simp at h0
      · exact hk
    rw [List.getElem?_take_of_lt hk, List.getElem?_drop, Nat.add_zero] at h0
    exact h0
  exact ⟨cb, hc, by simp only [Loop.fetch, hget, hc, Option.bind_eq_bind, Option.bind_some,
    Loop.popped]⟩

/-- A record whose function is set is in the tree, so its descriptor is
registered. -/
theorem Loop.Wf.reg_of_pending (h : l.Wf) {e : EpollEvent} {cb : Callback F U} {f : F}
    (he : e ∈ l.pending) (hc : l.heap.cell e.ptr = some cb) (hf : cb.function = some f) :
    ∃ r, l.reg cb.fd = some r ∧ r.ptr = e.ptr ∧ r.function = some f ∧
      r.userdata1 = cb.userdata1 ∧ r.userdata2 = cb.userdata2 := by
  rcases h.pending_cases e he with ht | hg
  · obtain ⟨cb', ev, hc', hi⟩ := h.tree_reg _ ht
    have : cb' = cb := Option.some.inj (hc'.symm.trans hc)
    subst this
    exact ⟨⟨e.ptr, ev, some f, cb'.userdata1, cb'.userdata2⟩,
      Loop.reg_some_iff.mpr ⟨hi, cb', hc, hf, rfl, rfl⟩, rfl, rfl, rfl, rfl⟩
  · obtain ⟨cb', hc', hnull⟩ := h.gc_null _ hg
    rw [hc, Option.some.injEq] at hc'
    rw [← hc', hf] at hnull
    cases hnull

/-- A new loop is well-formed and stands for the empty map. -/
theorem Loop.Wf.new (size : Int) : (Loop.created size : Loop F U).Wf := by
  refine ⟨?_, ?_, ?_, ?_, ?_, ?_, ?_, ?_⟩ <;> simp [Loop.created, Heap.empty]

/-- The loop `sepoll_create` returns. -/
theorem Loop.Wf.created {size : Int} {m c p : Bool}
    (h : (sepollCreate size m c p : Option (Loop F U)) = some l) :
    l.Wf ∧ l.pending = [] ∧ l.reg = (fun _ => none) ∧ l.epollEventsSize = size := by
  unfold sepollCreate at h
  split at h
  · cases h
    exact ⟨.new size, rfl, rfl, rfl⟩
  · cases h

end Sgopher.Sepoll
