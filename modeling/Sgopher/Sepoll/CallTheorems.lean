/-
Sgopher.Sepoll.CallTheorems — every call of the interface does what it is
for, or nothing.

`calls_all_or_nothing` is over every loop that can be reached, every call
with every argument, and every answer of `malloc`, of the node allocation
in `tsearch`, of `realloc` and of the kernel. The callers in the server
do not look at the results, so a call that failed half-way would go
unseen: there is none.

The moves keep the joint invariant `Loop.Wf` and the length of the event
array (`Loop.Step.good`), so both hold of every state
(`Loop.Reachable.good`). From there the theorem reads the inversion lemma
of each operation, through what it says about the interest list: in a
well-formed loop that list determines what `sepoll_find_fd` finds
(`Loop.Wf.findFd_eq`).

No `sorry`, no `axiom`, no `native_decide`.
-/
import Sgopher.Sepoll.Calls

namespace Sgopher.Sepoll

open Sgopher.Lib

variable {F U : Type} {l l' : Loop F U}

/-! ## Invariants of every state -/

/-- The joint invariant, an event array of the recorded size, and no
record at the null pointer. -/
structure Loop.Good (l : Loop F U) : Prop where
  wf : l.Wf
  sized : l.epollEvents.length = l.epollEventsSize.toNat
  null : 0 ∉ l.heap.live

/-- `sepoll_resize` fails and leaves the loop as it was, or cuts or
extends the array. -/
theorem Loop.resize_cases (l : Loop F U) (size : Int) (ans : LoopAnswer) :
    (∃ e, l.resize size ans = (l, .error e)) ∨
      0 < size ∧ (size = l.epollEventsSize ∧ l.resize size ans = (l, .ok ()) ∨
        size ≠ l.epollEventsSize ∧ ans.realloc = true ∧ l.resize size ans = ({ l with
          epollEvents := l.epollEvents.take size.toNat ++
            List.replicate (size.toNat - l.epollEvents.length) ⟨0, 0⟩
          epollEventsSize := size }, .ok ())) := by
  unfold Loop.resize
  by_cases hpos : size ≤ 0
  · exact Or.inl ⟨.EINVAL, if_pos hpos⟩
  · rw [if_neg hpos]
    by_cases he : size = l.epollEventsSize
    · exact Or.inr ⟨by omega, Or.inl ⟨he, if_pos he⟩⟩
    · rw [if_neg he]
      cases ha : ans.realloc with
      | false => exact Or.inl ⟨.ENOMEM, rfl⟩
      | true => exact Or.inr ⟨by omega, Or.inr ⟨he, rfl, rfl⟩⟩

/-- The array is no part of the joint invariant. -/
theorem Loop.Wf.rearrayed (h : l.Wf) (events : List EpollEvent) (size : Int) :
    Loop.Wf { l with epollEvents := events, epollEventsSize := size } :=
  ⟨h.tree_reg, h.interest_tree, h.tree_nodup, h.gc_nodup, h.gc_null, h.gc_disjoint,
    h.live_cases, h.pending_cases⟩

theorem Loop.resize_length (events : List EpollEvent) (n : Nat) :
    (events.take n ++ List.replicate (n - events.length) (⟨0, 0⟩ : EpollEvent)).length = n := by
  simp only [List.length_append, List.length_take, List.length_replicate]
  omega

theorem Loop.Good.resize (h : l.Good) (size : Int) (ans : LoopAnswer) :
    (l.resize size ans).1.Good := by
  rcases l.resize_cases size ans with ⟨e, hr⟩ | ⟨_, ⟨_, hr⟩ | ⟨_, _, hr⟩⟩ <;> rw [hr]
  · exact h
  · exact h
  · exact { wf := h.wf.rearrayed _ _, sized := Loop.resize_length _ _, null := h.null }

/-- A call leaves the array alone, unless it is `sepoll_resize`. -/
theorem Op.apply_keeps (h : l.Wf) (o : Op F U) (ans : LoopAnswer) :
    ∃ l' r, o.apply ans l = some (l', r) ∧ l.Keeps l' ∧
      l'.epollEventsSize = l.epollEventsSize ∧ (0 ∉ l.heap.live → 0 ∉ l'.heap.live) := by
  cases o with
  | add fd events function u1 u2 =>
    rcases h.add_cases fd events function u1 u2 ans with
      ⟨l', e, _, ha, hs⟩ | ⟨want, _, _, hi, ha⟩
    · exact ⟨l', _, ha, h.keeps_same hs, hs.epollEventsSize, fun h0 => hs.live ▸ h0⟩
    · refine ⟨_, _, ha, ⟨h.added hi events function u1 u2 want, rfl, rfl⟩, rfl, fun h0 => ?_⟩
      exact List.not_mem_cons_of_ne_of_not_mem (Heap.fresh_ne_zero l.heap want).symm h0
  | mod fd events function u1 u2 =>
    rcases h.mod_cases fd events function u1 u2 ans with
      ⟨e, _, hm⟩ | ⟨e, cb, _, hi, ht, hc, hfd, hm⟩
    · exact ⟨l, _, hm, ⟨h, rfl, rfl⟩, rfl, id⟩
    · exact ⟨_, _, hm, ⟨(h.remasked hi events).rebound ht hc hfd function u1 u2, rfl, rfl⟩, rfl, id⟩
  | modEvents fd events =>
    rcases h.modEvents_cases fd events ans with ⟨e, _, hm⟩ | ⟨e, _, hi, hm⟩
    · exact ⟨l, _, hm, ⟨h, rfl, rfl⟩, rfl, id⟩
    · exact ⟨_, _, hm, ⟨h.remasked hi events, rfl, rfl⟩, rfl, id⟩
  | modCallback fd function u1 u2 =>
    rcases h.modCallback_cases fd function u1 u2 with ⟨_, hm⟩ | ⟨e, cb, _, ht, hc, hfd, hm⟩
    · exact ⟨l, _, hm, ⟨h, rfl, rfl⟩, rfl, id⟩
    · exact ⟨_, _, hm, ⟨h.rebound ht hc hfd function u1 u2, rfl, rfl⟩, rfl, id⟩
  | remove fd =>
    rcases h.remove_cases fd with ⟨_, hr⟩ | ⟨e, cb, hi, ht, hc, hfd, hr⟩
    · exact ⟨l, _, hr, ⟨h, rfl, rfl⟩, rfl, id⟩
    · exact ⟨_, _, hr, ⟨h.removed hi ht hc hfd, rfl, rfl⟩, rfl, id⟩
  | exit => exact ⟨_, _, rfl, ⟨h.setRun false, rfl, rfl⟩, rfl, id⟩

/-- Every call is defined, and keeps the invariants. -/
theorem Loop.Good.apply (h : l.Good) (c : Call F U) (ans : LoopAnswer) :
    ∃ l' r, c.apply ans l = some (l', r) ∧ l'.Good ∧ l'.pending = l.pending := by
  cases c with
  | op o =>
    obtain ⟨l', r, ho, hk, hs, h0⟩ := o.apply_keeps h.wf ans
    exact ⟨l', r, ho, ⟨hk.wf, by rw [hk.epollEvents, hs, h.sized], h0 h.null⟩, hk.pending⟩
  | resize size =>
    refine ⟨(l.resize size ans).1, (l.resize size ans).2, rfl, h.resize size ans, ?_⟩
    rcases l.resize_cases size ans with ⟨e, hr⟩ | ⟨_, ⟨_, hr⟩ | ⟨_, _, hr⟩⟩ <;> rw [hr]

theorem Loop.Good.wait (h : l.Good) (timeout : Int) (x : WaitAnswer) :
    (l.poll timeout x).1.Good := by
  rcases l.poll_cases timeout x with ⟨r, hr, _⟩ | ⟨evs, batch, _, _, hb, hr⟩ <;> rw [hr]
  · exact h
  · refine ⟨h.wf.polled hb, ?_, h.null⟩
    have hlen := congrArg List.length hb
    have hsized := h.sized
    simp only [List.length_take] at hlen
    simp only [List.length_append, List.length_drop]
    omega

theorem Loop.fetch_popped {i : Nat} {x : UInt32 × Callback F U} (h : l.fetch i = some (l', x)) :
    l' = l.popped := by
  simp only [Loop.fetch, Option.bind_eq_bind, Option.bind_eq_some_iff, Option.some.injEq,
    Prod.mk.injEq] at h
  obtain ⟨_, _, _, _, hl, _⟩ := h
  exact hl.symm

/-- Every move keeps the invariants. -/
theorem Loop.Step.good (h : l.Good) (hs : Loop.Step l l') : l'.Good := by
  cases hs with
  | call c ans hc =>
    obtain ⟨l1, r1, h1, hg, _⟩ := h.apply c ans
    rw [hc, Option.some.injEq, Prod.mk.injEq] at h1
    exact h1.1 ▸ hg
  | start => exact ⟨h.wf.setRun true, h.sized, h.null⟩
  | wait timeout x _ => exact h.wait timeout x
  | fetch i hf => exact Loop.fetch_popped hf ▸ ⟨h.wf.popped, h.sized, h.null⟩
  | collect hp hc =>
    obtain ⟨heap, hr, _, hlive⟩ := h.wf.collect_spec hp
    have hwf := h.wf.collected hp hc
    rw [hr, Option.some.injEq] at hc
    subst hc
    exact ⟨hwf, h.sized, fun h0 => h.null ((hlive 0).mp h0).1⟩

/-- So the invariants hold of every state of a loop. -/
theorem Loop.Reachable.good (h : l.Reachable) : l.Good := by
  obtain ⟨size, hpath⟩ := h
  induction hpath with
  | refl => exact ⟨.new size, by simp [Loop.created], by simp [Loop.created, Heap.empty]⟩
  | tail _ hs ih => exact hs.good ih

/-! ## What a call that succeeds does

In a well-formed loop what is found is what the interest list points to,
so the map of the tree needs no argument of its own. -/

theorem Loop.Wf.findFd_eq (h : l.Wf) (fd : Int) :
    l.findFd fd = some ((l.interest fd).map EpollEvent.ptr) := by
  rcases h.findFd_cases fd with ⟨hi, hf⟩ | ⟨e, _, hi, _, _, _, hf⟩ <;> rw [hf, hi] <;> rfl

/-- Two loops that agree on the interest of a descriptor find it at the
same record. -/
theorem Loop.Wf.findFd_congr (h : l.Wf) (h' : l'.Wf) {fd : Int}
    (hi : l'.interest fd = l.interest fd) : l'.findFd fd = l.findFd fd := by
  rw [h.findFd_eq, h'.findFd_eq, hi]

/-- Loops that differ in the interest and the registration of `fd`
alone. -/
theorem Loop.Wf.sameBut (h : l.Wf) (h' : l'.Wf) {fd : Int} {e : Option EpollEvent}
    {r : Option (Reg F U)} (hi : l'.interest = Function.update l.interest fd e)
    (hr : l'.reg = Function.update l.reg fd r)
    (hc : ∀ a ∈ l.heap.live, l.findFd fd ≠ some (some a) → l'.heap.cell a = l.heap.cell a)
    (hg : l'.callbacksGcList = l.callbacksGcList) (hk : l.Kept l') : l.SameBut fd l' := by
  have hi' : ∀ fd', fd' ≠ fd → l'.interest fd' = l.interest fd' := fun fd' hne => by
    rw [hi, Function.update_of_ne hne]
  refine ⟨fun fd' hne => h.findFd_congr h' (hi' fd' hne), hi', fun fd' hne => ?_, hc, hg, hk⟩
  rw [hr, Function.update_of_ne hne]

theorem Loop.Wf.added_adds (h : l.Wf) {fd : Int} (hi : l.interest fd = none) (events : UInt32)
    (function : Option F) (u1 u2 : U) (want : Nat) :
    Loop.Adds fd events function u1 u2 l (l.added fd events function u1 u2 want) := by
  have hwf := h.added hi events function u1 u2 want
  have hreg := h.added_reg fd events function u1 u2 want
  refine ⟨h.sameBut hwf rfl hreg (fun a ha _ => Heap.alloc_cell_of_live ha) rfl
    ⟨rfl, rfl, rfl, rfl⟩, (h.reg_none_iff fd).mpr hi, l.heap.fresh want,
    Heap.fresh_not_live l.heap want, Heap.alloc_live .., ?_, ?_⟩
  · rw [hwf.findFd_eq]
    simp [Loop.added]
  · rw [hreg, Function.update_self]

/-- The registration of a descriptor with an interest, and where it is
found. -/
theorem Loop.Wf.registered (h : l.Wf) {fd : Int} {e : EpollEvent} (hi : l.interest fd = some e) :
    l.findFd fd = some (some e.ptr) ∧
      ∃ r, l.reg fd = some r ∧ r.ptr = e.ptr ∧ r.events = e.events := by
  obtain ⟨_, cb, hc, _⟩ := h.interest_tree fd e hi
  exact ⟨by rw [h.findFd_eq, hi]; rfl, ⟨e.ptr, e.events, cb.function, cb.userdata1, cb.userdata2⟩,
    Loop.reg_some_iff.mpr ⟨hi, cb, hc, rfl, rfl, rfl⟩, rfl, rfl⟩

theorem Loop.Wf.remasked_changes (h : l.Wf) {fd : Int} {e : EpollEvent}
    (hi : l.interest fd = some e) (events : UInt32) :
    Loop.Changes fd (fun r => { r with events := events }) l (l.remasked fd events e.ptr) := by
  obtain ⟨hf, r, hr, hp, _⟩ := h.registered hi
  have hwf := h.remasked hi events
  have hreg := Loop.remasked_reg hr events
  rw [hp] at hreg
  refine ⟨h.sameBut hwf rfl hreg (fun _ _ _ => rfl) rfl ⟨rfl, rfl, rfl, rfl⟩, rfl, ?_, r, hr, ?_⟩
  · rw [hwf.findFd_eq, hf]
    simp [Loop.remasked]
  · rw [hreg, Function.update_self, hp]

theorem Loop.Wf.rebound_changes (h : l.Wf) {fd : Int} {e : EpollEvent} {cb : Callback F U}
    (hi : l.interest fd = some e) (ht : e.ptr ∈ l.callbacksTree)
    (hc : l.heap.cell e.ptr = some cb) (hfd : cb.fd = fd) (function : Option F) (u1 u2 : U) :
    Loop.Changes fd (fun r => ⟨r.ptr, r.events, function, u1, u2⟩) l
      (l.rebound e.ptr fd function u1 u2 (h.tree_live ht)) := by
  obtain ⟨hf, r, hr, hp, _⟩ := h.registered hi
  have hwf := h.rebound ht hc hfd function u1 u2
  have hreg := h.rebound_reg hr function u1 u2 (hp ▸ h.tree_live ht)
  simp only [hp] at hreg
  refine ⟨h.sameBut hwf (Function.update_eq_self fd l.interest).symm hreg (fun a _ hne => ?_) rfl
    ⟨rfl, rfl, rfl, rfl⟩, rfl, h.findFd_congr hwf rfl, r, hr, ?_⟩
  · exact Heap.writeLive_cell_of_ne (h.tree_live ht) fun he => hne (he ▸ hf)
  · rw [hreg, Function.update_self, hp]

/-- `sepoll_mod` is its two halves, one after the other. -/
theorem Loop.Changes.trans {l1 l2 l3 : Loop F U} {fd : Int} {f g : Reg F U → Reg F U}
    (h : Loop.Changes fd f l1 l2) (h' : Loop.Changes fd g l2 l3) :
    Loop.Changes fd (fun r => g (f r)) l1 l3 := by
  obtain ⟨r, hr, hr'⟩ := h.registered
  obtain ⟨r2, hr2, hr3⟩ := h'.registered
  rw [hr', Option.some.injEq] at hr2
  subst hr2
  have hs := h.same
  have hs' := h'.same
  have hk := hs.kept
  have hk' := hs'.kept
  refine ⟨⟨fun fd' hne => (hs'.findFd fd' hne).trans (hs.findFd fd' hne),
    fun fd' hne => (hs'.interest fd' hne).trans (hs.interest fd' hne),
    fun fd' hne => (hs'.reg fd' hne).trans (hs.reg fd' hne), fun a ha hf => ?_,
    hs'.callbacksGcList.trans hs.callbacksGcList,
    ⟨hk'.pending.trans hk.pending, hk'.epollEvents.trans hk.epollEvents,
      hk'.epollEventsSize.trans hk.epollEventsSize, hk'.run.trans hk.run⟩⟩,
    h'.live.trans h.live, h'.found.trans h.found, r, hr, hr3⟩
  rw [hs'.cell a (h.live ▸ ha) (by rw [h.found]; exact hf), hs.cell a ha hf]

theorem Loop.Wf.removed_removes (h : l.Wf) {fd : Int} {e : EpollEvent} {cb : Callback F U}
    (hi : l.interest fd = some e) (ht : e.ptr ∈ l.callbacksTree)
    (hc : l.heap.cell e.ptr = some cb) (hfd : cb.fd = fd) :
    Loop.Removes fd l (l.removed fd e.ptr cb (h.tree_live ht)) := by
  obtain ⟨_, r, hr, hp, _⟩ := h.registered hi
  exact ⟨⟨r, hr, by rw [hp]; rfl⟩, h.removed_reg hi hc hfd _, rfl, rfl, rfl, rfl⟩

theorem Loop.resize_resizes (l : Loop F U) {size : Int} (hpos : 0 < size) :
    Loop.Resizes size l { l with
      epollEvents := l.epollEvents.take size.toNat ++
        List.replicate (size.toNat - l.epollEvents.length) ⟨0, 0⟩
      epollEventsSize := size } := by
  refine ⟨hpos, rfl, fun i hi hlen => ?_, rfl, rfl, rfl⟩
  rw [List.getElem?_append_left (by rw [List.length_take]; omega), List.getElem?_take_of_lt hi]

/-! ## All or nothing -/

/-- Each call of a session, from a well-formed loop. -/
theorem Op.all_or_nothing (h : l.Wf) (o : Op F U) (ans : LoopAnswer) :
    (∃ l' e, o.apply ans l = some (l', .error e) ∧ l.Same l') ∨
      ∃ l', o.apply ans l = some (l', .ok ()) ∧ (Call.op o).Does l l' := by
  cases o with
  | add fd events function u1 u2 =>
    rcases h.add_cases fd events function u1 u2 ans with
      ⟨l', e, _, ha, hs⟩ | ⟨want, _, _, hi, ha⟩
    · exact Or.inl ⟨l', e, ha, hs⟩
    · exact Or.inr ⟨_, ha, h.added_adds hi events function u1 u2 want⟩
  | mod fd events function u1 u2 =>
    rcases h.mod_cases fd events function u1 u2 ans with
      ⟨e, _, hm⟩ | ⟨e, cb, _, hi, ht, hc, hfd, hm⟩
    · exact Or.inl ⟨l, e, hm, .refl l⟩
    · -- the mask first, as in the source, then the record
      have hi' : (l.remasked fd events e.ptr).interest fd = some ⟨events, e.ptr⟩ :=
        Function.update_self ..
      exact Or.inr ⟨_, hm, (h.remasked_changes hi events).trans
        ((h.remasked hi events).rebound_changes hi' ht hc hfd function u1 u2)⟩
  | modEvents fd events =>
    rcases h.modEvents_cases fd events ans with ⟨e, _, hm⟩ | ⟨e, _, hi, hm⟩
    · exact Or.inl ⟨l, e, hm, .refl l⟩
    · exact Or.inr ⟨_, hm, h.remasked_changes hi events⟩
  | modCallback fd function u1 u2 =>
    rcases h.modCallback_cases fd function u1 u2 with ⟨_, hm⟩ | ⟨e, cb, hi, ht, hc, hfd, hm⟩
    · exact Or.inl ⟨l, .EBADF, hm, .refl l⟩
    · exact Or.inr ⟨_, hm, h.rebound_changes hi ht hc hfd function u1 u2⟩
  | remove fd =>
    rcases h.remove_cases fd with ⟨_, hr⟩ | ⟨e, cb, hi, ht, hc, hfd, hr⟩
    · exact Or.inl ⟨l, .EBADF, hr, .refl l⟩
    · exact Or.inr ⟨_, hr, h.removed_removes hi ht hc hfd⟩
  | exit => exact Or.inr ⟨_, rfl, rfl⟩

/-- In every state of a loop, a call that fails leaves the map from
descriptors to records, the records, the garbage list, the interest list,
the event array and its size as they were, and nothing allocated that was
not before; a call that returns 0 does what it is for, to the descriptor
it names alone. -/
theorem calls_all_or_nothing {l : Loop F U} (h : l.Reachable) (c : Call F U) (ans : LoopAnswer) :
    ∃ l' r, c.apply ans l = some (l', r) ∧
      ((∃ e, r = .error e) → l.Same l') ∧ (r = .ok () → c.Does l l') := by
  cases c with
  | op o =>
    rcases o.all_or_nothing h.good.wf ans with ⟨l', e, ho, hs⟩ | ⟨l', ho, hd⟩
    · exact ⟨l', _, ho, fun _ => hs, fun hr => nomatch hr⟩
    · exact ⟨l', _, ho, fun ⟨_, hr⟩ => (nomatch hr), fun _ => hd⟩
  | resize size =>
    rcases l.resize_cases size ans with ⟨e, hr⟩ | ⟨hpos, ⟨heq, hr⟩ | ⟨_, _, hr⟩⟩
    · exact ⟨l, _, congrArg some hr, fun _ => .refl l, fun hok => nomatch hok⟩
    · exact ⟨l, _, congrArg some hr, fun ⟨_, hok⟩ => (nomatch hok), fun _ =>
        ⟨hpos, heq.symm, fun _ _ _ => rfl, rfl, rfl, rfl⟩⟩
    · exact ⟨_, _, congrArg some hr, fun ⟨_, hok⟩ => (nomatch hok), fun _ => l.resize_resizes hpos⟩

/-- A new loop, and a registration the kernel refuses: the insertion in
the tree is undone. -/
theorem calls_all_or_nothing_refused :
    ∃ l' r, (Call.op (.add 4 EPOLLIN (some ()) () ()) : Call Unit Unit).apply
        { malloc := some 1, ctlAdd := some .ENOMEM } (Loop.created 8) = some (l', r) ∧
      ((∃ e, r = .error e) → (Loop.created 8).Same l') ∧
      (r = .ok () → (Call.op (.add 4 EPOLLIN (some ()) () ())).Does (Loop.created 8) l') :=
  calls_all_or_nothing ⟨8, .refl⟩ _ _

end Sgopher.Sepoll
