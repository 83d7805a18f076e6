/-
Sgopher.Sepoll.EnterTheorems — the rule of `sepoll_enter`: what the
callbacks preserve, the whole event loop preserves.

`EnterInv` collects what a property `I` of the world has to satisfy:
waiting may put a batch into the array, the callback of each event gets
the world with that event taken off the batch and must give `I` back, so
must the function that runs at the end of each turn, if there is one, and
then the turn frees the garbage list. `sepollEnter_triple` says that `I`
holds whenever the loop waits and when it returns. Every result
about a program built on the event loop, the server's worker and the
supervisor among them, is an instance.

No `sorry`, no `axiom`, no `native_decide`.
-/
import Mathlib.Logic.Relation
import Sgopher.Sepoll.LoopTheorems

namespace Sgopher.Sepoll

open Sgopher.Lib

variable {F U τ ω : Type} [LoopAnswers ω] {X : Contract ω (World F U τ)}

/-- A world with another loop. -/
def World.withLoop (w : World F U τ) (l : Loop F U) : World F U τ := { w with loop := l }

omit [LoopAnswers ω] in
theorem onLoop_triple {α : Type} {P : World F U τ → Prop} {Q : α → World F U τ → Prop}
    {f : Loop F U → Option (Loop F U × α)}
    (h : ∀ w, P w → ∃ l a, f w.loop = some (l, a) ∧ Q a (w.withLoop l)) :
    Triple X P (onLoop f) Q := by
  refine Triple.step fun w hw => ?_
  obtain ⟨l, a, hf, hq⟩ := h w hw
  exact ⟨w.withLoop l, a, by simp only [hf, Option.map_some, World.withLoop], hq⟩

/-- What a property must satisfy to be an invariant of `sepoll_enter`. -/
structure EnterInv (X : Contract ω (World F U τ)) (I : World F U τ → Prop)
    (call : F → UInt32 → U → U → Prog ω (World F U τ) Unit) (timeout : Int)
    (function : Option (Int → Prog ω (World F U τ) Unit)) : Prop where
  wf : ∀ w, I w → w.loop.Wf
  waits : ∀ w, I w → X.waits w
  start : ∀ w, I w → I (w.withLoop { w.loop with run := true })
  /-- Without a function the loop ends itself on an error or a timeout. -/
  stop : function = none → ∀ w x n, I w → w.loop.pending = [] → X.answers x → n ≤ 0 →
    w.loop.poll timeout (LoopAnswers.answer x).wait = (w.loop, .inr n) →
    I (w.withLoop { w.loop with run := false })
  /-- A batch arrives. -/
  batch : ∀ w evs batch, I w → w.loop.pending = [] → batch ≠ [] →
    batch = (w.loop.ready evs []).take w.loop.epollEventsSize.toNat →
    I (w.withLoop { w.loop with
      epollEvents := batch ++ w.loop.epollEvents.drop batch.length
      pending := batch })
  /-- An event whose registration was removed is passed over. -/
  skip : ∀ w e rest cb, I w → w.loop.pending = e :: rest → w.loop.heap.cell e.ptr = some cb →
    cb.function = none → I (w.withLoop w.loop.popped)
  /-- A callback gives the invariant back, and leaves the rest of the
  batch where it is. -/
  callback : ∀ e rest cb f arr, cb.function = some f →
    Triple X
      (fun w' => ∃ w, I w ∧ w.loop.pending = e :: rest ∧ w.loop.heap.cell e.ptr = some cb ∧
        w.loop.epollEvents = arr ∧ w' = w.withLoop w.loop.popped)
      (call f e.events cb.userdata1 cb.userdata2)
      (fun _ w => I w ∧ w.loop.pending = rest ∧ w.loop.epollEvents = arr)
  /-- The function at the end of a turn. -/
  after : ∀ f, function = some f → ∀ n,
    Triple X (fun w => I w ∧ w.loop.pending = []) (f n)
      (fun _ w => I w ∧ w.loop.pending = [])
  collect : ∀ w l', I w → w.loop.pending = [] → w.loop.collect = some l' → I (w.withLoop l')

variable {I : World F U τ → Prop} {call : F → UInt32 → U → U → Prog ω (World F U τ) Unit}
  {timeout : Int} {function : Option (Int → Prog ω (World F U τ) Unit)}

/-- Without a timeout only an error ends the wait with nothing. -/
theorem Loop.poll_error {l : Loop F U} {x : WaitAnswer} {n : Int} (hsize : 0 < l.epollEventsSize)
    (ht : timeout < 0) (hn : n ≤ 0) (hp : l.poll timeout x = (l, .inr n)) : ∃ e, x = .error e := by
  cases x with
  | error e => exact ⟨e, rfl⟩
  | ready events =>
    have hlen := congrArg Prod.snd hp
    simp only [Loop.poll, if_neg (show ¬ l.epollEventsSize ≤ 0 by omega), if_pos ht] at hlen
    split at hlen
    · cases hlen
    · rename_i hne
      have hpos := List.length_pos_iff.mpr hne
      have := Sum.inr.inj hlen
      omega

/-- `epoll_wait` returns with a batch, or with nothing and a loop that is
about to stop. -/
theorem EnterInv.epollWait_triple (h : EnterInv X I call timeout function) :
    Triple X (fun w => I w ∧ w.loop.pending = []) (epollWait timeout)
      (fun n w => I w ∧ (n ≤ 0 → w.loop.pending = [] ∧
          (function = none → I (w.withLoop { w.loop with run := false }))) ∧
        (0 < n → w.loop.pending = w.loop.epollEvents.take n.toNat ∧
          n.toNat ≤ w.loop.epollEvents.length)) := by
  refine Triple.iterate (I := fun _ w => I w ∧ w.loop.pending = [])
    (fun _ w hw => h.waits w hw.1) (fun _ => ?_) ()
  refine Triple.bind (R := fun x w => (I w ∧ w.loop.pending = []) ∧ X.answers x)
    (Triple.ask (fun w hw => h.waits w hw.1) fun w x hw hx => ⟨hw, hx⟩) fun x => ?_
  refine onLoop_triple fun w ⟨⟨hI, hp⟩, hx⟩ => ?_
  rcases w.loop.poll_cases timeout (LoopAnswers.answer x).wait with
    ⟨r, hr, hn⟩ | ⟨evs, batch, hev, hne, hb, hr⟩
  · refine ⟨w.loop, r, by rw [hr], ?_⟩
    cases r with
    | inl u => exact ⟨hI, hp⟩
    | inr n =>
      refine ⟨hI, fun hn => ⟨hp, fun hf => h.stop hf w x n hI hp hx hn hr⟩, fun hpos => ?_⟩
      have := hn n rfl
      omega
  · refine ⟨_, _, by rw [hr], ?_⟩
    refine ⟨h.batch w evs batch hI hp hne hb, fun hn => ?_, fun _ => ?_⟩
    · have := List.length_pos_iff.mpr hne
      omega
    · simp [World.withLoop]

/-- One event of the batch. -/
theorem EnterInv.dispatchOne_triple (h : EnterInv X I call timeout function) (i k : Nat)
    (arr : List EpollEvent) :
    Triple X
      (fun w => I w ∧ w.loop.epollEvents = arr ∧ w.loop.pending = (arr.drop i).take (k + 1) ∧
        i + (k + 1) ≤ arr.length)
      (dispatchOne call i)
      (fun _ w => I w ∧ w.loop.epollEvents = arr ∧ w.loop.pending = (arr.drop (i + 1)).take k) := by
  rintro w ans ⟨hI, harr, hp, hlen⟩ hA
  have hi : i < arr.length := by omega
  have hcons : w.loop.pending = arr[i] :: (arr.drop (i + 1)).take k := by
    rw [hp, List.drop_eq_getElem_cons hi, List.take_succ_cons]
  obtain ⟨cb, hc, hf⟩ := (h.wf w hI).fetch_spec (i := i) (k := k + 1) (by rw [harr, hp]) hcons
  have hfetch : (onLoop (fun l => l.fetch i) :
      Prog ω (World F U τ) (UInt32 × Callback F U)) w ans
      = .done (arr[i].events, cb) (w.withLoop w.loop.popped) ans := by
    simp only [onLoop, Prog.step, hf, Option.map_some, World.withLoop]
  rw [dispatchOne, Prog.bind_done hfetch]
  cases hfun : cb.function with
  | none =>
    simp only [hfun]
    refine ⟨⟨h.skip w _ _ cb hI hcons hc hfun, harr, ?_⟩, hA⟩
    simp [World.withLoop, Loop.popped, hcons]
  | some f =>
    simp only [hfun]
    have hcall := (h.callback arr[i] ((arr.drop (i + 1)).take k) cb f arr hfun).post
      (fun _ w' hq => (⟨hq.1, hq.2.2, hq.2.1⟩ : I w' ∧ w'.loop.epollEvents = arr ∧
        w'.loop.pending = (arr.drop (i + 1)).take k))
    exact hcall _ ans ⟨w, hI, hcons, hc, harr, rfl⟩ hA

/-- The whole batch. -/
theorem EnterInv.dispatch_triple (h : EnterInv X I call timeout function) (arr : List EpollEvent) :
    ∀ k i, Triple X
      (fun w => I w ∧ w.loop.epollEvents = arr ∧ w.loop.pending = (arr.drop i).take k ∧
        i + k ≤ arr.length)
      (dispatch call k i) (fun _ w => I w ∧ w.loop.pending = [])
  | 0, i => Triple.pure fun w hw => ⟨hw.1, by rw [hw.2.2.1]; simp⟩
  | k + 1, i => by
    rw [dispatch]
    refine Triple.assume (φ := i + (k + 1) ≤ arr.length) (fun hlen => ?_) |>.pre
      fun w hw => ⟨hw.2.2.2, hw⟩
    refine Triple.bind (h.dispatchOne_triple i k arr) fun _ => ?_
    exact (h.dispatch_triple arr k (i + 1)).pre
      fun w hw => ⟨hw.1, hw.2.1, hw.2.2, by omega⟩

/-- The batch `epoll_wait` returned with, or none. -/
theorem EnterInv.dispatchAll_triple (h : EnterInv X I call timeout function) (n : Int) :
    Triple X
      (fun w => I w ∧ (n ≤ 0 → w.loop.pending = [] ∧
          (function = none → I (w.withLoop { w.loop with run := false }))) ∧
        (0 < n → w.loop.pending = w.loop.epollEvents.take n.toNat ∧
          n.toNat ≤ w.loop.epollEvents.length))
      (dispatch call n.toNat 0)
      (fun _ w => I w ∧ w.loop.pending = [] ∧
        (n ≤ 0 → function = none → I (w.withLoop { w.loop with run := false }))) := by
  by_cases hn : n ≤ 0
  · have : n.toNat = 0 := by omega
    rw [this]
    exact Triple.pure fun w hw => ⟨hw.1, (hw.2.1 hn).1, fun _ => (hw.2.1 hn).2⟩
  · intro w ans hw hA
    obtain ⟨hI, _, hpos⟩ := hw
    obtain ⟨hp, hlen⟩ := hpos (by omega)
    exact ((h.dispatch_triple w.loop.epollEvents n.toNat 0).post
      (fun _ w hw => ⟨hw.1, hw.2, fun hle => absurd hle hn⟩)) w ans
      ⟨hI, rfl, by simpa using hp, by omega⟩ hA

/-- The function runs, or a timeout or an error ends the loop, or nothing
happens. -/
theorem EnterInv.afterWait_triple (h : EnterInv X I call timeout function) (n retval : Int) :
    Triple X
      (fun w => I w ∧ w.loop.pending = [] ∧
        (n ≤ 0 → function = none → I (w.withLoop { w.loop with run := false })))
      (afterWait function n retval) (fun _ w => I w ∧ w.loop.pending = []) := by
  cases hf : function with
  | some f =>
    exact Triple.bind ((h.after f hf n).pre fun w hw => ⟨hw.1, hw.2.1⟩)
      fun _ => Triple.pure fun _ hw => hw
  | none =>
    have hend : Triple X
        (fun w => I w ∧ w.loop.pending = [] ∧
          (n ≤ 0 → function = none → I (w.withLoop { w.loop with run := false })))
        (setRun false) (fun _ w => (n ≤ 0 → I w) ∧ w.loop.pending = []) :=
      Triple.modify fun w hw => ⟨fun hn => hw.2.2 hn hf, hw.2.1⟩
    rw [hf] at hend
    refine Triple.ite (fun h0 => ?_) fun h0 => Triple.ite (fun hneg => ?_) fun hneg => ?_
    · exact Triple.bind hend fun _ => Triple.pure fun _ hw => ⟨hw.1 (by omega), hw.2⟩
    · exact Triple.bind hend fun _ => Triple.pure fun _ hw => ⟨hw.1 (by omega), hw.2⟩
    · exact Triple.pure fun w hw => ⟨hw.1, hw.2.1⟩

/-- One turn of the loop. -/
theorem EnterInv.enterTurn_triple (h : EnterInv X I call timeout function) (retval : Int) :
    Triple X (fun w => I w ∧ w.loop.pending = []) (enterTurn call timeout function retval)
      (fun r w => r.elim (fun _ => I w ∧ w.loop.pending = [])
        (fun _ => I w ∧ w.loop.pending = [] ∧ w.loop.run = false)) := by
  refine Triple.bind Triple.get fun w0 => ?_
  refine Triple.ite (fun hrun => ?_) (fun hrun => ?_)
  · refine Triple.bind (h.epollWait_triple.pre fun w hw => hw.1) fun n => ?_
    refine Triple.bind (h.dispatchAll_triple n) fun _ => ?_
    refine Triple.bind (h.afterWait_triple n retval) fun retval' => ?_
    refine Triple.bind (R := fun _ w => I w ∧ w.loop.pending = []) ?_ fun _ =>
      Triple.pure fun w hw => hw
    refine onLoop_triple fun w ⟨hI, hp⟩ => ?_
    obtain ⟨heap, hc, _, _⟩ := (h.wf w hI).collect_spec hp
    exact ⟨_, (), by rw [hc]; rfl, h.collect w _ hI hp hc, hp⟩
  · refine Triple.pure fun w hw => ⟨hw.1.1, hw.1.2, ?_⟩
    rw [hw.2] at hrun
    simpa using hrun

/-- **The rule of `sepoll_enter`.** An invariant of the callbacks holds
whenever the loop waits, and when it returns. -/
theorem EnterInv.sepollEnter_triple (h : EnterInv X I call timeout function) :
    Triple X (fun w => I w ∧ w.loop.pending = []) (sepollEnter call timeout function)
      (fun _ w => I w ∧ w.loop.pending = [] ∧ w.loop.run = false) := by
  refine Triple.bind (R := fun _ w => I w ∧ w.loop.pending = [])
    (Triple.modify fun w hw => ⟨h.start w hw.1, hw.2⟩) fun _ => ?_
  exact Triple.iterate (I := fun _ w => I w ∧ w.loop.pending = [])
    (fun _ w hw => h.waits w hw.1) (fun retval => h.enterTurn_triple retval) 0

/-! ## The moves of the loop -/

/-- What happens to the world between two looks of the loop at it, where no
function runs at the end of a turn: the loop is entered, or ends on an
error or a timeout; a batch arrives; an event is passed over or its
callback runs; the garbage list is freed. -/
inductive Move (X : Contract ω (World F U τ))
    (call : F → UInt32 → U → U → Prog ω (World F U τ) Unit) (timeout : Int) :
    World F U τ → World F U τ → Prop where
  | start (w : World F U τ) : Move X call timeout w (w.withLoop { w.loop with run := true })
  | stop (w : World F U τ) (x : ω) (n : Int) (hp : w.loop.pending = []) (hx : X.answers x)
      (hn : n ≤ 0) (hr : w.loop.poll timeout (LoopAnswers.answer x).wait = (w.loop, .inr n)) :
      Move X call timeout w (w.withLoop { w.loop with run := false })
  | batch (w : World F U τ) (evs : List (Int × UInt32)) (batch : List EpollEvent)
      (hp : w.loop.pending = []) (hne : batch ≠ [])
      (hb : batch = (w.loop.ready evs []).take w.loop.epollEventsSize.toNat) :
      Move X call timeout w (w.withLoop { w.loop with
        epollEvents := batch ++ w.loop.epollEvents.drop batch.length
        pending := batch })
  | skip (w : World F U τ) (e : EpollEvent) (rest : List EpollEvent) (cb : Callback F U)
      (hp : w.loop.pending = e :: rest) (hc : w.loop.heap.cell e.ptr = some cb)
      (hf : cb.function = none) : Move X call timeout w (w.withLoop w.loop.popped)
  | callback (w w' : World F U τ) (e : EpollEvent) (rest : List EpollEvent) (cb : Callback F U)
      (f : F) (ans rest' : List ω) (hp : w.loop.pending = e :: rest)
      (hc : w.loop.heap.cell e.ptr = some cb) (hf : cb.function = some f)
      (hA : ∀ y ∈ ans, X.answers y)
      (hr : call f e.events cb.userdata1 cb.userdata2 (w.withLoop w.loop.popped) ans
        = .done () w' rest') : Move X call timeout w w'
  | collect (w : World F U τ) (l : Loop F U) (hp : w.loop.pending = [])
      (hc : w.loop.collect = some l) : Move X call timeout w (w.withLoop l)

/-- An invariant of the loop survives its moves. -/
theorem EnterInv.move (h : EnterInv X I call timeout none) {w w' : World F U τ} (hI : I w)
    (hm : Move X call timeout w w') : I w' := by
  cases hm with
  | start => exact h.start w hI
  | stop x n hp hx hn hr => exact h.stop rfl w x n hI hp hx hn hr
  | batch evs batch hp hne hb => exact h.batch w evs batch hI hp hne hb
  | skip e rest cb hp hc hf => exact h.skip w e rest cb hI hp hc hf
  | callback _ e rest cb f ans rest' hp hc hf hA hr =>
    exact ((h.callback e rest cb f w.loop.epollEvents hf).done ⟨w, hI, hp, hc, rfl, rfl⟩ hA hr).1.1
  | collect l hp hc => exact h.collect w l hI hp hc

/-- The states the moves of a loop lead to from those of `P`. -/
def Reaches (X : Contract ω (World F U τ))
    (call : F → UInt32 → U → U → Prog ω (World F U τ) Unit) (timeout : Int)
    (P : World F U τ → Prop) (w : World F U τ) : Prop :=
  ∃ w₀, P w₀ ∧ Relation.ReflTransGen (Move X call timeout) w₀ w

theorem Reaches.tail {P : World F U τ → Prop} {w w' : World F U τ}
    (h : Reaches X call timeout P w) (hm : Move X call timeout w w') :
    Reaches X call timeout P w' := by
  obtain ⟨w₀, hP, hreach⟩ := h
  exact ⟨w₀, hP, hreach.tail hm⟩

/-- The loop gets nowhere but by its moves. -/
theorem EnterInv.reach (h : EnterInv X I call timeout none) (P : World F U τ → Prop) :
    EnterInv X (fun w => I w ∧ Reaches X call timeout P w) call timeout none where
  wf w hw := h.wf w hw.1
  waits w hw := h.waits w hw.1
  start w hw := ⟨h.start w hw.1, hw.2.tail (.start w)⟩
  stop hf w x n hw hp hx hn hr :=
    ⟨h.stop hf w x n hw.1 hp hx hn hr, hw.2.tail (.stop w x n hp hx hn hr)⟩
  batch w evs batch hw hp hne hb :=
    ⟨h.batch w evs batch hw.1 hp hne hb, hw.2.tail (.batch w evs batch hp hne hb)⟩
  skip w e rest cb hw hp hc hf :=
    ⟨h.skip w e rest cb hw.1 hp hc hf, hw.2.tail (.skip w e rest cb hp hc hf)⟩
  callback e rest cb f arr hf := by
    rintro _ ans ⟨w, ⟨hI, hreach⟩, hp, hc, harr, rfl⟩ hA
    have hrun := h.callback e rest cb f arr hf _ ans ⟨w, hI, hp, hc, harr, rfl⟩ hA
    cases hr : call f e.events cb.userdata1 cb.userdata2 (w.withLoop w.loop.popped) ans with
    | done u w' rest' =>
      rw [hr] at hrun
      obtain ⟨⟨hI', hp', harr'⟩, hA'⟩ := hrun
      exact ⟨⟨⟨hI', hreach.tail (.callback w w' e rest cb f ans rest' hp hc hf hA hr)⟩, hp', harr'⟩,
        hA'⟩
    | stopped w' =>
      rw [hr] at hrun
      exact hrun
    | fault =>
      rw [hr] at hrun
      exact hrun
  after := by simp
  collect w l hw hp hc := ⟨h.collect w l hw.1 hp hc, hw.2.tail (.collect w l hp hc)⟩

end Sgopher.Sepoll
