/-
Sgopher.Sepoll.BatchTheorems — a batch whose callbacks make any calls,
`sepoll_resize` among them.

`sepoll_enter` fixes the number of events before it dispatches the first,
and reads `epoll_events[i]` up to that number. A callback may replace the
array by a shorter one meanwhile. `batch_safe_iff` says exactly when a
batch survives: every index the loop comes to is still inside the array
and still holds the event `epoll_wait` put there if and only if all the
resizes the callbacks made before were to sizes above it. Making the
array longer again does not help, since what was cut off is lost.
`batch_unsafe` is a batch of two events whose first callback shrinks the
array to one.

The invariant (`Batch`) says what an index holds by the resizes made so
far: the event of the batch, if all were above it (`kept`), and nothing
that was ever an event, if one was not (`lost`).

No `sorry`, no `axiom`, no `native_decide`.
-/
import Sgopher.Sepoll.CallTheorems

namespace Sgopher.Sepoll

open Sgopher.Lib

variable {F U : Type} {l l' : Loop F U} {batch : List EpollEvent}

/-! ## What the array holds -/

/-- The array, by the resizes made so far. -/
structure Batch (batch : List EpollEvent) (w : BatchWorld F U) : Prop where
  good : w.loop.Good
  kept : ∀ i e, batch[i]? = some e → Spared w i → w.loop.epollEvents[i]? = some e
  lost : ∀ i e, ¬ Spared w i → w.loop.epollEvents[i]? = some e → e = ⟨0, 0⟩

/-- The world after a call. -/
def World.called (w : BatchWorld F U) (c : Call F U) (ans : LoopAnswer) (l : Loop F U) :
    BatchWorld F U :=
  ⟨l, w.own ++ [(c, ans)]⟩

theorem spared_called (w : BatchWorld F U) (c : Call F U) (ans : LoopAnswer) (l : Loop F U)
    (i : Nat) : Spared (w.called c ans l) i ↔
      Spared w i ∧ ∀ s, resizedTo (c, ans) = some s → (i : Int) < s := by
  simp only [Spared, World.called, List.filterMap_append, List.mem_append, or_imp,
    forall_and]
  refine and_congr_right fun _ => ?_
  cases hr : resizedTo (c, ans) <;> simp [hr]

/-- What an array that was cut or extended holds. -/
theorem resized_getElem? (events : List EpollEvent) (n i : Nat) :
    (events.take n ++ List.replicate (n - events.length) (⟨0, 0⟩ : EpollEvent))[i]? =
      if i < n then (if i < events.length then events[i]? else some ⟨0, 0⟩) else none := by
  by_cases hn : i < n
  · rw [if_pos hn]
    by_cases hl : i < events.length
    · rw [if_pos hl, List.getElem?_append_left (by rw [List.length_take]; omega),
        List.getElem?_take_of_lt hn]
    · rw [if_neg hl, List.getElem?_append_right (by rw [List.length_take]; omega),
        List.getElem?_replicate, if_pos (by rw [List.length_take]; omega)]
  · rw [if_neg hn, List.getElem?_eq_none]
    rw [Loop.resize_length]
    omega

/-- A call that leaves the array alone is as if it had not been made. -/
theorem Batch.unresized {w : BatchWorld F U} (h : Batch batch w) {c : Call F U} {ans : LoopAnswer}
    (hg : l.Good) (ha : l.epollEvents = w.loop.epollEvents)
    (hs : ∀ s, resizedTo (c, ans) = some s → s = w.loop.epollEventsSize) :
    Batch batch (w.called c ans l) := by
  refine ⟨hg, fun i e he hi => ?_, fun i e hi he => ?_⟩
  · exact ha ▸ h.kept i e he ((spared_called w c ans l i).mp hi).1
  · have he' : w.loop.epollEvents[i]? = some e := ha ▸ he
    refine h.lost i e (fun hsp => hi ((spared_called w c ans l i).mpr ⟨hsp, fun s hr => ?_⟩)) he'
    -- the size asked for is the size there is, and the index is inside
    have hlen := (List.getElem?_eq_some_iff.mp he').1
    have hsized := h.good.sized
    rw [hs s hr]
    omega

/-- `sepoll_resize` to another size. -/
theorem Batch.resized {w : BatchWorld F U} (h : Batch batch w) {size : Int} {ans : LoopAnswer}
    (hpos : 0 < size) (hans : ans.realloc = true)
    (hl : l = { w.loop with
      epollEvents := w.loop.epollEvents.take size.toNat ++
        List.replicate (size.toNat - w.loop.epollEvents.length) ⟨0, 0⟩
      epollEventsSize := size }) (hg : l.Good) :
    Batch batch (w.called (.resize size) ans l) := by
  have hr : resizedTo ((Call.resize size : Call F U), ans) = some size := if_pos ⟨hpos, hans⟩
  have hget : ∀ i, l.epollEvents[i]? = if i < size.toNat then
      (if i < w.loop.epollEvents.length then w.loop.epollEvents[i]? else some ⟨0, 0⟩) else none :=
    fun i => hl ▸ resized_getElem? w.loop.epollEvents size.toNat i
  refine ⟨hg, fun i e he hi => ?_, fun i e hi he => ?_⟩
  · obtain ⟨hsp, hs⟩ := (spared_called w _ ans l i).mp hi
    have hold := h.kept i e he hsp
    have hlt := hs size hr
    show l.epollEvents[i]? = some e
    rw [hget, if_pos (by omega), if_pos (List.getElem?_eq_some_iff.mp hold).1, hold]
  · replace he : l.epollEvents[i]? = some e := he
    rw [hget] at he
    split at he
    · split at he
      · refine h.lost i e (fun hsp => hi ((spared_called w _ ans l i).mpr ⟨hsp, ?_⟩)) he
        intro s hs
        rw [hr, Option.some.injEq] at hs
        omega
      · exact (Option.some.inj he).symm
    · cases he

/-- Every call keeps the invariant. -/
theorem Batch.apply {w : BatchWorld F U} (h : Batch batch w) (c : Call F U) (ans : LoopAnswer) :
    ∃ l r, c.apply ans w.loop = some (l, r) ∧ l.pending = w.loop.pending ∧
      Batch batch (w.called c ans l) := by
  obtain ⟨l, r, hc, hg, hp⟩ := h.good.apply c ans
  refine ⟨l, r, hc, hp, ?_⟩
  cases c with
  | op o =>
    obtain ⟨l1, r1, ho, hk, _⟩ := o.apply_keeps h.good.wf ans
    simp only [Call.apply, ho, Option.some.injEq, Prod.mk.injEq] at hc
    exact h.unresized hg (hc.1 ▸ hk.epollEvents) fun s hs => nomatch hs
  | resize size =>
    simp only [Call.apply, Option.some.injEq] at hc
    rcases w.loop.resize_cases size ans with ⟨e, hr⟩ | ⟨hpos, ⟨heq, hr⟩ | ⟨_, hans, hr⟩⟩
    · -- a failed call says nothing to the array
      rw [hr, Prod.mk.injEq] at hc
      refine h.unresized hg (by rw [← hc.1]) fun s hs => ?_
      simp only [resizedTo, Option.ite_none_right_eq_some, Option.some.injEq] at hs
      obtain ⟨⟨hpos, hans⟩, rfl⟩ := hs
      by_contra hne
      simp [Loop.resize, Int.not_le.mpr hpos, hne, hans] at hr
    · rw [hr, Prod.mk.injEq] at hc
      refine h.unresized hg (by rw [← hc.1]) fun s hs => ?_
      simp only [resizedTo, Option.ite_none_right_eq_some, Option.some.injEq] at hs
      rw [← hs.2, heq]
    · rw [hr, Prod.mk.injEq] at hc
      exact h.resized hpos hans hc.1.symm hg

/-! ## The dispatch loop -/

/-- Any answers; the callbacks do not fault. -/
def anyCalls : Contract (CallbackAnswer F U) (BatchWorld F U) where
  answers := fun _ => True
  waits := fun _ => True

/-- Whatever calls a callback makes, it keeps the invariant and the rest
of the batch. -/
theorem callingCallback_triple (f : F) (events : UInt32) (u1 u2 : U) (pend : List EpollEvent) :
    Triple anyCalls (fun w => Batch batch w ∧ w.loop.pending = pend)
      (callingCallback f events u1 u2) (fun _ w => Batch batch w ∧ w.loop.pending = pend) := by
  refine Triple.iterate (I := fun _ w => Batch batch w ∧ w.loop.pending = pend)
    (fun _ _ _ => trivial) (fun _ => ?_) ()
  refine Triple.bind (R := fun _ w => Batch batch w ∧ w.loop.pending = pend)
    (Triple.ask (fun _ _ => trivial) fun w _ hw _ => hw) fun a => ?_
  cases a.call with
  | none => exact Triple.pure fun w hw => hw
  | some c =>
    refine Triple.bind (R := fun _ w => Batch batch (w.called c a.loop w.loop) ∧
      w.loop.pending = pend) ?_ fun _ => ?_
    · refine onLoop_triple fun w ⟨hw, hp⟩ => ?_
      obtain ⟨l, r, hc, hpend, hb⟩ := hw.apply c a.loop
      exact ⟨l, r, hc, hb, hpend.trans hp⟩
    · exact Triple.bind (R := fun _ w => Batch batch w ∧ w.loop.pending = pend)
        (Triple.modify fun w hw => hw) fun _ => Triple.pure fun w hw => hw

/-- One turn of the dispatch loop, if it returns. -/
theorem Batch.dispatchOne {w w' : BatchWorld F U} (h : Batch batch w) {i : Nat}
    {ws rest : List (CallbackAnswer F U)}
    (hr : dispatchOne callingCallback i w ws = .done () w' rest) :
    Batch batch w' ∧ w'.loop.pending = w.loop.pending.tail := by
  rw [Sepoll.dispatchOne, Prog.bind_run, onLoop, Prog.step] at hr
  cases hf : w.loop.fetch i with
  | none => simp [hf] at hr
  | some x =>
    obtain ⟨l', events, cb⟩ := x
    have hl := Loop.fetch_popped hf
    subst hl
    have hpop : Batch batch (w.withLoop w.loop.popped) :=
      ⟨⟨h.good.wf.popped, h.good.sized, h.good.null⟩, h.kept, h.lost⟩
    simp only [hf, Option.map_some] at hr
    cases hfun : cb.function with
    | none =>
      simp only [hfun, Prog.pure_run, Outcome.done.injEq, true_and] at hr
      exact hr.1 ▸ ⟨hpop, rfl⟩
    | some f =>
      simp only [hfun] at hr
      exact ((callingCallback_triple f events _ _ w.loop.pending.tail).done ⟨hpop, rfl⟩
        (fun _ _ => trivial) hr).1

/-- The events before an index, if they are all dispatched. -/
theorem Batch.dispatch {w' : BatchWorld F U} {rest : List (CallbackAnswer F U)} :
    ∀ (k i : Nat) (w : BatchWorld F U) (ws : List (CallbackAnswer F U)), Batch batch w →
      w.loop.pending = batch.drop i → dispatch callingCallback k i w ws = .done () w' rest →
      Batch batch w' ∧ w'.loop.pending = batch.drop (i + k)
  | 0, i, w, ws, h, hp, hr => by
    simp only [Sepoll.dispatch, Prog.pure_run, Outcome.done.injEq, true_and] at hr
    exact hr.1 ▸ ⟨h, hp⟩
  | k + 1, i, w, ws, h, hp, hr => by
    rw [Sepoll.dispatch, Prog.bind_run] at hr
    cases h1 : Sepoll.dispatchOne callingCallback i w ws with
    | fault => simp [h1] at hr
    | stopped _ => simp [h1] at hr
    | done _ w1 ws1 =>
      rw [h1] at hr
      obtain ⟨hb, hp1⟩ := h.dispatchOne h1
      have := Batch.dispatch k (i + 1) w1 ws1 hb (by rw [hp1, hp, List.tail_drop]) hr
      rwa [Nat.add_assoc, Nat.add_comm 1 k] at this

/-- An index that was spared is read inside the array, and its event is
delivered. -/
theorem Batch.delivers {w : BatchWorld F U} (h : Batch batch w) {i : Nat} {e : EpollEvent}
    (hp : w.loop.pending = batch.drop i) (he : batch[i]? = some e) (hs : Spared w i) :
    Delivers i e w := by
  have hget := h.kept i e he hs
  have hmem : e ∈ w.loop.pending := by
    have h0 : (batch.drop i)[0]? = some e := by rw [List.getElem?_drop]; exact he
    exact hp ▸ List.mem_of_getElem? h0
  obtain ⟨cb, hc⟩ := Heap.cell_of_mem_live (h.good.wf.pending_live hmem)
  refine ⟨?_, cb, hc, fun call ws => ?_⟩
  · have := (List.getElem?_eq_some_iff.mp hget).1
    have := h.good.sized
    omega
  · have hfetch : w.loop.fetch i = some (w.loop.popped, e.events, cb) := by
      simp only [Loop.fetch, hget, hc, Option.bind_eq_bind, Option.bind_some, Loop.popped]
    have hrun : (onLoop (fun l => l.fetch i) :
        Prog (CallbackAnswer F U) (BatchWorld F U) (UInt32 × Callback F U)) w ws
        = .done (e.events, cb) (w.withLoop w.loop.popped) ws := by
      simp only [onLoop, Prog.step, hfetch, Option.map_some, World.withLoop]
    rw [Sepoll.dispatchOne, Prog.bind_done hrun]
    rfl

/-- An index that was not is outside the array, or holds no event. -/
theorem Batch.not_delivers {w : BatchWorld F U} (h : Batch batch w) {i : Nat} {e : EpollEvent}
    (hs : ¬ Spared w i) : ¬ Delivers i e w := by
  rintro ⟨hin, cb, _, hd⟩
  have hsized := h.good.sized
  have hi : i < w.loop.epollEvents.length := by omega
  have hget := List.getElem?_eq_getElem hi
  have hnull := h.lost i _ hs hget
  have hcell : w.loop.heap.cell 0 = none := by
    cases hc : w.loop.heap.cell 0 with
    | none => rfl
    | some _ => exact absurd (Heap.mem_live_of_cell hc) h.good.null
  -- reading it follows the null pointer, whatever the functions are
  have hfetch : w.loop.fetch i = none := by
    simp only [Loop.fetch, hget, hnull, hcell, Option.bind_eq_bind, Option.bind_some,
      Option.bind_none]
  have hrun := hd (fun _ _ _ _ => pure ()) []
  rw [Sepoll.dispatchOne, Prog.bind_run, onLoop, Prog.step, hfetch] at hrun
  cases hfun : cb.function <;> simp [invoke, hfun] at hrun

/-- The dispatch loop reads nothing it may not if every index it comes to
was spared. -/
theorem Batch.dispatch_ne_fault (k : Nat) : ∀ (i : Nat) (w : BatchWorld F U)
    (ws : List (CallbackAnswer F U)), Batch batch w → w.loop.pending = batch.drop i →
    i + k = batch.length →
    (∀ j w' rest, j < k → Sepoll.dispatch callingCallback j i w ws = .done () w' rest →
      Spared w' (i + j)) →
    Sepoll.dispatch callingCallback k i w ws ≠ .fault := by
  induction k with
  | zero =>
    intro i w ws _ _ _ _ hf
    cases hf
  | succ k ih =>
    intro i w ws h hp hlen hs
    have hi : i < batch.length := by omega
    have hget := List.getElem?_eq_getElem hi
    -- index `i` itself is reached at once
    obtain ⟨_, cb, hc, hd⟩ := h.delivers hp hget (hs 0 w ws (by omega) rfl)
    have hpop : Batch batch (w.withLoop w.loop.popped) :=
      ⟨⟨h.good.wf.popped, h.good.sized, h.good.null⟩, h.kept, h.lost⟩
    have hone : Sepoll.dispatchOne callingCallback i w ws ≠ .fault := by
      rw [hd]
      unfold invoke
      cases cb.function with
      | none =>
        intro hf
        cases hf
      | some f =>
        exact (callingCallback_triple f _ _ _ _).not_fault ⟨hpop, rfl⟩ (fun _ _ => trivial) id
    rw [Sepoll.dispatch, Prog.bind_run]
    cases h1 : Sepoll.dispatchOne callingCallback i w ws with
    | fault => exact absurd h1 hone
    | stopped _ =>
      intro hf
      cases hf
    | done _ w1 ws1 =>
      obtain ⟨hb, hp1⟩ := h.dispatchOne h1
      refine ih (i + 1) w1 ws1 hb (by rw [hp1, hp, List.tail_drop]) (by omega)
        fun j w' rest hj hr => ?_
      have := hs (j + 1) w' rest (by omega) (by rw [Sepoll.dispatch, Prog.bind_done h1, hr])
      rwa [Nat.add_assoc, Nat.add_comm 1 j]

/-! ## When a batch is safe -/

/-- What `epoll_wait` leaves behind: its batch in the array, and nothing
resized yet. -/
theorem Loop.Good.waited (h : l.Good) {timeout : Int} {x : WaitAnswer} {n : Int} (hn : 0 < n)
    (hw : l.poll timeout x = (l', .inr n)) :
    Batch l'.pending ⟨l', []⟩ ∧ l'.epollEvents.take n.toNat = l'.pending ∧
      l'.pending.length = n.toNat := by
  have hgood : l'.Good := by
    have := h.wait timeout x
    rwa [hw] at this
  rcases l.poll_cases timeout x with ⟨r, hr, hle⟩ | ⟨evs, batch, _, _, _, hr⟩
  · rw [hw, Prod.mk.injEq] at hr
    have := hle n hr.2.symm
    omega
  · rw [hw, Prod.mk.injEq] at hr
    obtain ⟨rfl, hn'⟩ := hr
    have hlen : n.toNat = batch.length := by
      have := Sum.inr.inj hn'
      omega
    refine ⟨⟨hgood, fun i e he _ => ?_, fun i e hi _ => ?_⟩, ?_, hlen.symm⟩
    · exact (List.getElem?_append_left (List.getElem?_eq_some_iff.mp he).1).trans he
    · exact absurd (fun s hs => nomatch hs) hi
    · rw [hlen]
      exact List.take_left ..

/-- A batch is dispatched inside the array and in full, whatever calls
its callbacks make, exactly when every index the dispatch loop comes to
is below all the sizes that the callbacks resized the array to before. -/
theorem batch_safe_iff {F U : Type} (l l' : Loop F U) (h : l.Reachable) (timeout : Int)
    (x : WaitAnswer) (n : Int) (hn : 0 < n) (hw : l.poll timeout x = (l', .inr n))
    (ws : List (CallbackAnswer F U)) :
    BatchSafe l' (l'.epollEvents.take n.toNat) ws ↔
      ∀ i w, i < n.toNat → ComesTo l' ws i w → Spared w i := by
  obtain ⟨hb, htake, hlen⟩ := h.good.waited hn hw
  rw [htake]
  have hreach : ∀ i w, ComesTo l' ws i w →
      Batch l'.pending w ∧ w.loop.pending = l'.pending.drop i := fun i w ⟨rest, hr⟩ => by
    have := hb.dispatch i 0 _ ws rfl hr
    rwa [Nat.zero_add] at this
  constructor
  · rintro ⟨hd, _⟩ i w hi hc
    by_contra hs
    have hget := List.getElem?_eq_getElem (hlen ▸ hi : i < l'.pending.length)
    exact (hreach i w hc).1.not_delivers hs (hd i _ w hget hc)
  · intro hs
    refine ⟨fun i e w he hc => ?_, ?_⟩
    · obtain ⟨hbw, hpw⟩ := hreach i w hc
      exact hbw.delivers hpw he
        (hs i w (hlen ▸ (List.getElem?_eq_some_iff.mp he).1) hc)
    · refine hb.dispatch_ne_fault _ 0 _ ws rfl (Nat.zero_add _) fun j w' rest hj hr => ?_
      rw [Nat.zero_add]
      exact hs j w' (hlen ▸ hj) ⟨rest, hr⟩

/-- A loop with two registrations. -/
def twoRegistered : Loop Unit Unit :=
  ((Loop.created 8).added 4 EPOLLIN (some ()) () () 1).added 5 EPOLLIN (some ()) () () 2

theorem twoRegistered_reachable : twoRegistered.Reachable :=
  ⟨8, (Relation.ReflTransGen.single (.call (.op (.add 4 EPOLLIN (some ()) () ()))
    { malloc := some 1 } (r := .ok ()) rfl)).tail
      (.call (.op (.add 5 EPOLLIN (some ()) () ())) { malloc := some 2 } (r := .ok ()) rfl)⟩

/-- Both descriptors are ready. -/
def bothReady : WaitAnswer := .ready [(4, EPOLLIN), (5, EPOLLIN)]

/-- The first of the two callbacks makes room for one event only. -/
theorem batch_unsafe : twoRegistered.Reachable ∧
    ∃ l', twoRegistered.poll (-1) bothReady = (l', .inr 2) ∧
      ¬ BatchSafe l' (l'.epollEvents.take 2) [{ call := some (.resize 1) }, {}] := by
  refine ⟨twoRegistered_reachable, _, rfl, fun ⟨hd, _⟩ => ?_⟩
  have h := (hd 1 _ _ rfl ⟨[], rfl⟩).inBounds
  revert h
  decide

theorem batch_safe_iff_two : ∃ l', twoRegistered.poll (-1) bothReady = (l', .inr 2) ∧
    (BatchSafe l' (l'.epollEvents.take 2) [{ call := some (.resize 2) }, {}, {}] ↔
      ∀ i w, i < 2 → ComesTo l' [{ call := some (.resize 2) }, {}, {}] i w → Spared w i) :=
  ⟨_, rfl, batch_safe_iff twoRegistered _ twoRegistered_reachable (-1) bothReady 2 (by decide)
    rfl _⟩

end Sgopher.Sepoll
