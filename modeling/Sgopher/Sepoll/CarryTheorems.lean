/-
Sgopher.Sepoll.CarryTheorems — what an answer of `epoll_wait` tells the
callbacks.

The rule of `sepoll_enter` in `Sgopher.Sepoll.EnterTheorems` says what the
callbacks keep, whatever the kernel reported. Here the report matters: a
fact about each event of a batch holds when the batch arrives, by what is
assumed of the answers, and while one callback after the other runs, until
the callback of the event itself has it. `EnterCarry` is the rule for
that. `I` is what holds between two batches, and `B b` within the batch
`b`.

That the program does not fault is shown elsewhere; the contract here
excuses it.

No `sorry`, no `axiom`, no `native_decide`.
-/
import Sgopher.Sepoll.EnterTheorems
import Sgopher.Sepoll.KeepsTheorems

namespace Sgopher.Sepoll

open Sgopher.Lib Prog

variable {ω F U τ α : Type} [LoopAnswers ω] {A : ω → Prop}

/-- Every event reported is that of a registered descriptor the kernel
named. -/
theorem Loop.ready_named {l : Loop F U} : ∀ (evs : List (Int × UInt32)) (seen : List Int)
    (e : EpollEvent), e ∈ l.ready evs seen →
    ∃ fd bits m, (fd, bits) ∈ evs ∧ l.interest fd = some m ∧ e.ptr = m.ptr
  | [], _, e, he => by simp [Loop.ready] at he
  | (fd, bits) :: rest, seen, e, he => by
    have hrest : ∀ seen', e ∈ l.ready rest seen' →
        ∃ fd' bits' m, (fd', bits') ∈ (fd, bits) :: rest ∧ l.interest fd' = some m ∧
          e.ptr = m.ptr := fun seen' he' => by
      obtain ⟨fd', bits', m, hm, hr⟩ := Loop.ready_named rest seen' e he'
      exact ⟨fd', bits', m, List.mem_cons_of_mem _ hm, hr⟩
    rw [Loop.ready] at he
    cases hi : l.interest fd with
    | none =>
      simp only [hi] at he
      exact hrest seen he
    | some m =>
      simp only [hi] at he
      split at he
      · rcases List.mem_cons.mp he with rfl | he
        · exact ⟨fd, bits, m, List.mem_cons_self, hi, rfl⟩
        · exact hrest _ he
      · exact hrest seen he

/-! ## A loop that knows less -/

/-- The array is the same, and there are fewer registrations and records;
a record may have lost its function. -/
structure Loop.Fewer (l l' : Loop F U) : Prop where
  array : l'.epollEvents = l.epollEvents
  interest : ∀ fd e, l'.interest fd = some e → l.interest fd = some e
  cell : ∀ a cb, l'.heap.cell a = some cb → cb.function = none ∨ l.heap.cell a = some cb

variable {l l' l'' : Loop F U} {fd : Int}

theorem Loop.Fewer.refl (l : Loop F U) : l.Fewer l := ⟨rfl, fun _ _ h => h, fun _ _ => Or.inr⟩

theorem Loop.Fewer.trans (h : l.Fewer l') (h' : l'.Fewer l'') : l.Fewer l'' where
  array := h'.array.trans h.array
  interest fd e he := h.interest fd e (h'.interest fd e he)
  cell a cb hc := (h'.cell a cb hc).elim Or.inl (h.cell a cb)

theorem Loop.Fewer.unwatched (l : Loop F U) (fd : Int) :
    l.Fewer { l with interest := Function.update l.interest fd none } where
  array := rfl
  interest fd' e he := by
    simp only [Function.update_apply] at he
    split at he
    · cases he
    · exact he
  cell _ _ := Or.inr

theorem Loop.Fewer.epollCtlDel (l : Loop F U) (fd : Int) : l.Fewer (l.epollCtlDel fd).1 := by
  unfold Loop.epollCtlDel
  cases l.interest fd with
  | none => exact .refl l
  | some e => exact .unwatched l fd

theorem Loop.Fewer.remove {r : Ret} (h : l.remove fd = some (l', r)) : l.Fewer l' := by
  unfold Loop.remove at h
  simp only [Option.bind_eq_bind, Option.bind_eq_some_iff] at h
  obtain ⟨found, -, h⟩ := h
  cases found with
  | none =>
    obtain ⟨rfl, -⟩ := Prod.mk.inj (Option.some.inj h)
    exact .refl l
  | some callback =>
    simp only [Option.bind_eq_some_iff, Option.some.injEq] at h
    obtain ⟨cb, -, heap, hheap, tree, -, h⟩ := h
    obtain ⟨ha, rfl⟩ := Heap.write_cases hheap
    have hdel := Loop.Fewer.epollCtlDel
      { l with
        heap := l.heap.writeLive callback { cb with function := none } ha
        callbacksTree := tree
        callbacksGcList := callback :: l.callbacksGcList } fd
    rw [h] at hdel
    refine ⟨hdel.array, hdel.interest, fun a cb' hc => ?_⟩
    refine (hdel.cell a cb' hc).elim Or.inl fun hc => ?_
    by_cases he : a = callback
    · subst he
      rw [Heap.writeLive_cell_self, Option.some.injEq] at hc
      exact Or.inl (hc ▸ rfl)
    · exact Or.inr ((Heap.writeLive_cell_of_ne ha he).symm.trans hc)

theorem Loop.Fewer.release {a : Nat} (h : l.release a = some l') : l.Fewer l' := by
  unfold Loop.release at h
  split at h
  · cases h
  · obtain ⟨heap, hfree, rfl⟩ := Option.map_eq_some_iff.mp h
    obtain ⟨ha, rfl⟩ := Heap.free_cases hfree
    refine ⟨rfl, fun _ _ he => he, fun b cb hc => Or.inr ?_⟩
    by_cases hb : b = a
    · subst hb
      rw [show (l.heap.freeLive b ha).cell b = none from Function.update_self ..] at hc
      cases hc
    · exact (Heap.freeLive_cell_of_ne ha hb).symm.trans hc

theorem Loop.Fewer.releaseAll : ∀ {as : List Nat} {l : Loop F U}, l.releaseAll as = some l' →
    l.Fewer l'
  | [], l, h => by
    obtain rfl := Option.some.inj h
    exact .refl l
  | a :: rest, l, h => by
    obtain ⟨mid, hmid, h⟩ := Option.bind_eq_some_iff.mp h
    exact (Loop.Fewer.release hmid).trans (Loop.Fewer.releaseAll h)

theorem Loop.Fewer.collect (h : l.collect = some l') : l.Fewer l' := by
  unfold Loop.collect at h
  simp only [Option.bind_eq_bind, Option.bind_eq_some_iff, Option.some.injEq] at h
  obtain ⟨mid, hmid, rfl⟩ := h
  have := Loop.Fewer.releaseAll hmid
  exact ⟨this.array, this.interest, this.cell⟩

theorem Loop.Fewer.destroy (h : l.destroy = some l') : l.Fewer l' := by
  unfold Loop.destroy at h
  simp only [Option.bind_eq_bind, Option.bind_eq_some_iff, Option.some.injEq] at h
  obtain ⟨mid, hmid, mid', hmid', rfl⟩ := h
  have htree := Loop.Fewer.releaseAll hmid
  have hnone : l.Fewer { mid with callbacksTree := [] } := ⟨htree.array, htree.interest, htree.cell⟩
  have hall := hnone.trans (Loop.Fewer.releaseAll hmid')
  exact ⟨hall.array, nofun, hall.cell⟩

/-! ## The rule -/

/-- The world with a batch in its array. -/
def World.polled (w : World F U τ) (b : List EpollEvent) : World F U τ :=
  w.withLoop { w.loop with
    epollEvents := b ++ w.loop.epollEvents.drop b.length
    pending := b }

/-- What is to be shown of `I` and `B`. -/
structure EnterCarry (A : ω → Prop) (I : World F U τ → Prop)
    (B : List EpollEvent → World F U τ → Prop)
    (call : F → UInt32 → U → U → Prog ω (World F U τ) Unit) : Prop where
  run : ∀ w b, I w → I (w.withLoop { w.loop with run := b })
  batch : ∀ w x evs, I w → A x → (LoopAnswers.answer x).wait = .ready evs →
    B ((w.loop.ready evs []).take w.loop.epollEventsSize.toNat)
      (w.polled ((w.loop.ready evs []).take w.loop.epollEventsSize.toNat))
  array : ∀ b w, B b w → b <+: w.loop.epollEvents
  between : ∀ b w, B b w → I w
  pop : ∀ b w, B b w → B b (w.withLoop w.loop.popped)
  /-- A callback runs for an event of the batch, with the record the event
  refers to. -/
  callback : ∀ b e cb f, e ∈ b → cb.function = some f →
    Triple (.keeping A I)
      (fun w => B b w ∧ w.loop.heap.cell e.ptr = some cb)
      (call f e.events cb.userdata1 cb.userdata2) (fun _ => B b)
  collect : ∀ w l, I w → w.loop.collect = some l → I (w.withLoop l)

namespace EnterCarry

variable {I : World F U τ → Prop} {B : List EpollEvent → World F U τ → Prop}
  {call : F → UInt32 → U → U → Prog ω (World F U τ) Unit}

theorem epollWait_triple (h : EnterCarry A I B call) (timeout : Int) :
    Triple (.keeping A I) I (epollWait timeout)
      (fun n w => n ≤ 0 ∧ I w ∨ ∃ b, n = b.length ∧ B b w) := by
  refine Triple.iterate (I := fun _ => I) (fun _ _ h => h) (fun _ => ?_) ()
  refine Triple.bind (R := fun x w => I w ∧ A x)
    (Triple.ask (fun _ h => h) fun _ _ hw hx => ⟨hw, hx⟩) fun x => ?_
  refine onLoop_triple fun w ⟨hw, hx⟩ => ?_
  rcases w.loop.poll_cases timeout (LoopAnswers.answer x).wait with
    ⟨r, hr, hn⟩ | ⟨evs, batch, hev, -, rfl, hr⟩
  · refine ⟨w.loop, r, by rw [hr], ?_⟩
    cases r with
    | inl u => exact hw
    | inr n => exact Or.inl ⟨hn n rfl, hw⟩
  · exact ⟨_, .inr _, by rw [hr], Or.inr ⟨_, rfl, h.batch w x evs hw hx hev⟩⟩

theorem dispatchOne_triple (h : EnterCarry A I B call) {b : List EpollEvent} {i : Nat}
    (hi : i < b.length) :
    Triple (.keeping A I) (B b) (dispatchOne call i) (fun _ => B b) := by
  refine Triple.bind (R := fun r w => B b w ∧ r.1 = b[i].events ∧
    w.loop.heap.cell b[i].ptr = some r.2) (Triple.step_map trivial fun w r hw hf => ?_) fun r => ?_
  · obtain ⟨more, hmore⟩ := h.array b w hw
    have hget : w.loop.epollEvents[i]? = some b[i] := by
      rw [← hmore, List.getElem?_append_left hi, List.getElem?_eq_getElem hi]
    simp only [Loop.fetch, hget, Option.bind_eq_bind, Option.bind_some,
      Option.bind_eq_some_iff, Option.some.injEq] at hf
    obtain ⟨cb, hcb, rfl⟩ := hf
    exact ⟨h.pop b w hw, rfl, hcb⟩
  · obtain ⟨events, callback⟩ := r
    dsimp only
    cases hfun : callback.function with
    | none => exact Triple.pure fun w hw => hw.1
    | some f =>
      rintro w ans ⟨hw, he, hc⟩ hA
      rw [he]
      exact h.callback b b[i] callback f (List.getElem_mem hi) hfun w ans ⟨hw, hc⟩ hA

theorem dispatch_triple (h : EnterCarry A I B call) {b : List EpollEvent} : ∀ k i : Nat,
    i + k ≤ b.length → Triple (.keeping A I) (B b) (dispatch call k i) (fun _ => B b)
  | 0, _, _ => Triple.pure fun _ h => h
  | k + 1, i, hi => Triple.bind (h.dispatchOne_triple (by omega)) fun _ =>
    h.dispatch_triple k (i + 1) (by omega)

theorem dispatchAll_triple (h : EnterCarry A I B call) (n : Int) :
    Triple (.keeping A I) (fun w => n ≤ 0 ∧ I w ∨ ∃ b, n = b.length ∧ B b w)
      (dispatch call n.toNat 0) (fun _ => I) := by
  rintro w ans (⟨hn, hw⟩ | ⟨b, rfl, hw⟩) hA
  · rw [show n.toNat = 0 by omega]
    exact ⟨hw, hA⟩
  · exact ((h.dispatch_triple b.length 0 (by omega)).post fun _ w hw => h.between b w hw) w ans
      hw hA

theorem setRun_keeps (h : EnterCarry A I B call) (run : Bool) :
    Keeps A I (setRun run : Prog ω (World F U τ) Unit) :=
  Keeps.modify fun w hw => h.run w run hw

theorem enterTurn_keeps (h : EnterCarry A I B call) (timeout retval : Int) :
    Keeps A I (enterTurn call timeout none retval) := by
  refine Keeps.bind Keeps.get fun w => Keeps.ite ?_ (Keeps.pure _)
  refine Triple.bind (h.epollWait_triple timeout) fun n => ?_
  refine Triple.bind (h.dispatchAll_triple n) fun _ => ?_
  refine Keeps.bind (Keeps.ite ?_ (Keeps.ite ?_ (Keeps.pure retval))) fun _ => ?_
  · exact Keeps.bind (h.setRun_keeps false) fun _ => Keeps.pure retval
  · exact Keeps.bind (h.setRun_keeps false) fun _ => Keeps.pure (-1)
  · refine Keeps.bind (Keeps.step_map fun w l hw hl => ?_) fun _ => Keeps.pure _
    obtain ⟨l', hl', rfl⟩ := Option.map_eq_some_iff.mp hl
    exact h.collect w l' hw hl'

/-- **`sepoll_enter`** keeps `I`. -/
theorem sepollEnter_keeps (h : EnterCarry A I B call) (timeout : Int) :
    Keeps A I (sepollEnter call timeout none) :=
  Keeps.bind (h.setRun_keeps true) fun _ => Keeps.iterate (h.enterTurn_keeps timeout) 0

end EnterCarry

end Sgopher.Sepoll
