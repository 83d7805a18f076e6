/-
Sgopher.Sepoll.SessionTheorems — the lifetime of callback records, over
every session.

`session_lifetime` is about the whole of `sepoll.c`: whatever calls the
program and its callbacks make and whatever the system answers, the joint
invariant `Loop.Wf` holds in every state in which the session waits, no
record is read or freed too early, and after `sepoll_destroy` every record
that was allocated has been freed exactly once.

Each call of the interface keeps the invariant and leaves the rest of the
batch alone (`Op.exec_triple`); so does a callback, which is a sequence of
such calls (`runOps_triple`); the rule of `sepoll_enter` carries this
through the event loop, and the loop rule through the session.

No `sorry`, no `axiom`, no `native_decide`.
-/
import Sgopher.Sepoll.Session
import Sgopher.Sepoll.EnterTheorems

namespace Sgopher.Sepoll

open Sgopher.Lib

variable {F U : Type} {l l' : Loop F U}

/-! ## What every call keeps -/

/-- The invariant holds, and the batch is where it was. -/
structure Loop.Keeps (l l' : Loop F U) : Prop where
  wf : l'.Wf
  pending : l'.pending = l.pending
  epollEvents : l'.epollEvents = l.epollEvents

theorem Loop.Wf.keeps_same (h : l.Wf) (hs : l.Same l') : l.Keeps l' :=
  ⟨h.same hs, hs.pending, hs.epollEvents⟩

theorem Loop.Wf.add_keeps (h : l.Wf) (fd : Int) (events : UInt32) (function : Option F) (u1 u2 : U)
    (ans : LoopAnswer) :
    ∃ l' r, l.add fd events function u1 u2 ans = some (l', r) ∧ l.Keeps l' := by
  rcases h.add_cases fd events function u1 u2 ans with
    ⟨l', e, _, ha, hs⟩ | ⟨want, _, _, hi, ha⟩
  · exact ⟨l', _, ha, h.keeps_same hs⟩
  · exact ⟨_, _, ha, h.added hi events function u1 u2 want, rfl, rfl⟩

theorem Loop.Wf.modEvents_keeps (h : l.Wf) (fd : Int) (events : UInt32) (ans : LoopAnswer) :
    ∃ l' r, l.modEvents fd events ans = some (l', r) ∧ l.Keeps l' := by
  rcases h.modEvents_cases fd events ans with ⟨e, _, hm⟩ | ⟨e, _, hi, hm⟩
  · exact ⟨l, _, hm, h, rfl, rfl⟩
  · exact ⟨_, _, hm, h.remasked hi events, rfl, rfl⟩

theorem Loop.Wf.modCallback_keeps (h : l.Wf) (fd : Int) (function : Option F) (u1 u2 : U) :
    ∃ l' r, l.modCallback fd function u1 u2 = some (l', r) ∧ l.Keeps l' := by
  rcases h.modCallback_cases fd function u1 u2 with ⟨_, hm⟩ | ⟨e, cb, _, ht, hc, hfd, hm⟩
  · exact ⟨l, _, hm, h, rfl, rfl⟩
  · exact ⟨_, _, hm, h.rebound ht hc hfd function u1 u2, rfl, rfl⟩

theorem Loop.Wf.mod_keeps (h : l.Wf) (fd : Int) (events : UInt32) (function : Option F) (u1 u2 : U)
    (ans : LoopAnswer) :
    ∃ l' r, l.mod fd events function u1 u2 ans = some (l', r) ∧ l.Keeps l' := by
  rcases h.mod_cases fd events function u1 u2 ans with ⟨e, _, hm⟩ | ⟨e, cb, _, hi, ht, hc, hfd, hm⟩
  · exact ⟨l, _, hm, h, rfl, rfl⟩
  · exact ⟨_, _, hm, (h.remasked hi events).rebound ht hc hfd function u1 u2, rfl, rfl⟩

theorem Loop.Wf.remove_keeps (h : l.Wf) (fd : Int) :
    ∃ l' r, l.remove fd = some (l', r) ∧ l.Keeps l' := by
  rcases h.remove_cases fd with ⟨_, hr⟩ | ⟨e, cb, hi, ht, hc, hfd, hr⟩
  · exact ⟨l, _, hr, h, rfl, rfl⟩
  · exact ⟨_, _, hr, h.removed hi ht hc hfd, rfl, rfl⟩

/-! ## The calls of a session -/

/-- A well-formed loop with the given batch: `pend` of it is undispatched. -/
def Sound (pend arr : List EpollEvent) (w : SessionWorld F U) : Prop :=
  w.loop.Wf ∧ w.loop.pending = pend ∧ w.loop.epollEvents = arr

variable {pend arr : List EpollEvent}

/-- What waits in a session: well-formed loops. -/
def WaitsWf (w : SessionWorld F U) : Prop := w.loop.Wf

/-- Any answers; a session waits in well-formed loops and never faults. -/
def anySession : Contract (SessionAnswer F U) (SessionWorld F U) where
  answers := fun _ => True
  waits := WaitsWf

theorem Sound.keeps {w : SessionWorld F U} (h : Sound pend arr w) (hk : w.loop.Keeps l') :
    Sound pend arr (w.withLoop l') :=
  ⟨hk.wf, hk.pending.trans h.2.1, hk.epollEvents.trans h.2.2⟩

/-- A call of the interface that asks the environment first. -/
theorem askOnLoop_triple {f : LoopAnswer → Loop F U → Option (Loop F U × Ret)}
    (h : ∀ ans (l : Loop F U), l.Wf → ∃ l' r, f ans l = some (l', r) ∧ l.Keeps l') :
    Triple anySession (Sound pend arr)
      (do let a ← Prog.ask; onLoop (f (LoopAnswers.answer a)))
      (fun _ => Sound pend arr) := by
  refine Triple.bind (R := fun _ => Sound pend arr)
    (Triple.ask (fun w hw => hw.1) fun w _ hw _ => hw) fun a => ?_
  refine onLoop_triple fun w hw => ?_
  obtain ⟨l', r, hf, hk⟩ := h (LoopAnswers.answer a) w.loop hw.1
  exact ⟨l', r, hf, hw.keeps hk⟩

/-- Every call of the interface keeps the invariant, whatever it returns. -/
theorem Op.exec_triple (o : Op F U) :
    Triple anySession (Sound pend arr) o.exec (fun _ => Sound pend arr) := by
  cases o with
  | add fd events function u1 u2 =>
    exact askOnLoop_triple fun ans l h => h.add_keeps fd events function u1 u2 ans
  | mod fd events function u1 u2 =>
    exact askOnLoop_triple fun ans l h => h.mod_keeps fd events function u1 u2 ans
  | modEvents fd events =>
    exact askOnLoop_triple fun ans l h => h.modEvents_keeps fd events ans
  | modCallback fd function u1 u2 =>
    unfold Op.exec sepollModCallback
    refine onLoop_triple fun w hw => ?_
    obtain ⟨l', r, hf, hk⟩ := hw.1.modCallback_keeps fd function u1 u2
    exact ⟨l', r, hf, hw.keeps hk⟩
  | remove fd =>
    unfold Op.exec sepollRemove
    refine onLoop_triple fun w hw => ?_
    obtain ⟨l', r, hf, hk⟩ := hw.1.remove_keeps fd
    exact ⟨l', r, hf, hw.keeps hk⟩
  | exit =>
    exact Triple.bind (R := fun _ => Sound pend arr)
      (Triple.modify fun w hw => ⟨hw.1.setRun false, hw.2.1, hw.2.2⟩) fun _ =>
        Triple.pure fun _ hw => hw

theorem observe_triple (o : Observation F U) :
    Triple anySession (Sound pend arr) (sepoll.observe o)
      (fun _ => Sound pend arr) := Triple.modify fun _ hw => hw

/-- A callback, whatever it does. -/
theorem runOps_triple :
    Triple anySession (Sound (F := F) (U := U) pend arr) (runOps sepoll)
      (fun _ => Sound pend arr) := by
  refine Triple.iterate (I := fun _ => Sound pend arr) (fun _ w hw => hw.1) (fun _ => ?_) ()
  refine Triple.bind (R := fun _ => Sound pend arr)
    (Triple.ask (fun w hw => hw.1) fun w _ hw _ => hw) fun a => ?_
  cases ho : a.op with
  | none => exact Triple.pure fun _ hw => hw
  | some o =>
    exact Triple.bind o.exec_triple fun r => Triple.bind (observe_triple _)
      fun _ => Triple.pure fun _ hw => hw

/-- The invariant of a session's event loop. -/
theorem session_enterInv (timeout : Int) (function : Bool) :
    EnterInv (F := F) (U := U) anySession WaitsWf
      (scriptedCallback sepoll) timeout
      (if function then some (scriptedFunction sepoll) else none) where
  wf := fun _ h => h
  waits := fun _ h => h
  start := fun _ h => Loop.Wf.setRun h true
  stop := fun _ _ _ _ h _ _ _ _ => Loop.Wf.setRun h false
  batch := fun _ _ _ h _ _ hb => Loop.Wf.polled h hb
  skip := fun _ _ _ _ h _ _ _ => Loop.Wf.popped h
  callback := fun e rest cb f arr _ => by
    refine Triple.pre (P := Sound rest arr) ?_ ?_
    · exact Triple.bind (observe_triple _) fun _ => runOps_triple
    · rintro _ ⟨w, hI, hp, _, harr, rfl⟩
      exact ⟨Loop.Wf.popped hI, by simp [World.withLoop, Loop.popped, hp], harr⟩
  after := fun f hf n => by
    cases function with
    | false => cases hf
    | true =>
      obtain rfl := Option.some.inj hf
      intro w ans hw hA
      have hrun : Triple anySession (Sound [] w.loop.epollEvents)
          (scriptedFunction (F := F) (U := U) sepoll n) (fun _ => Sound [] w.loop.epollEvents) :=
        Triple.bind (observe_triple _) fun _ => runOps_triple
      exact (hrun.post fun _ w' hq => (⟨hq.1, hq.2.1⟩ : WaitsWf w' ∧ w'.loop.pending = [])) w ans
        ⟨hw.1, hw.2, rfl⟩ hA
  collect := fun _ _ h hp hc => Loop.Wf.collected h hp hc

/-! ## The whole session -/

/-- Between two calls of the owner no event is undispatched. -/
def Idle (w : SessionWorld F U) : Prop := w.loop.Wf ∧ w.loop.pending = []

theorem runCommand_triple (c : Command F U) :
    Triple anySession Idle (runCommand sepoll c) (fun _ => Idle) := by
  cases c with
  | op o =>
    intro w ans hw hA
    exact ((Triple.bind o.exec_triple fun r => observe_triple (.returned r)).post
      fun _ w' hq => (⟨hq.1, hq.2.1⟩ : Idle w')) w ans ⟨hw.1, hw.2, rfl⟩ hA
  | enter timeout function =>
    exact Triple.bind (R := fun _ => Idle)
      ((session_enterInv timeout function).sepollEnter_triple.post
        fun _ _ hq => ⟨hq.1, hq.2.1⟩)
      fun retval => Triple.modify fun _ hw => hw

/-- Every record that was allocated is freed, exactly once. -/
def Loop.AllFreed (l : Loop F U) : Prop :=
  l.heap.live = [] ∧ l.heap.freed.Perm (List.range l.heap.allocated)

theorem sepollDestroy_triple :
    Triple anySession Idle (sepoll (F := F) (U := U)).destroy
      (fun _ w => w.loop.AllFreed) := by
  show Triple _ _ sepollDestroy _
  unfold sepollDestroy
  refine onLoop_triple fun w hw => ?_
  obtain ⟨l', hd, hlive, _⟩ := hw.1.destroy_spec hw.2
  exact ⟨l', (), by rw [hd]; rfl, hlive, Heap.freed_perm_of_live_nil hlive⟩

theorem session_triple :
    Triple anySession Idle (session (F := F) (U := U) sepoll)
      (fun _ w => w.loop.AllFreed) := by
  refine Triple.iterate (I := fun _ => Idle) (fun _ w hw => hw.1) (fun _ => ?_) ()
  refine Triple.bind (R := fun _ => Idle)
    (Triple.ask (fun w hw => hw.1) fun w _ hw _ => hw) fun a => ?_
  cases hc : a.command with
  | none => exact Triple.bind sepollDestroy_triple fun _ => Triple.pure fun _ hw => hw
  | some c => exact Triple.bind (runCommand_triple c) fun _ => Triple.pure fun _ hw => hw

/-- What holds of a loop wherever its session can be looked at. -/
structure Loop.Lifetime (l : Loop F U) : Prop where
  tree_nodup : l.callbacksTree.Nodup
  one_per_fd : ∀ a ∈ l.callbacksTree, ∀ b ∈ l.callbacksTree, ∀ ca cb,
    l.heap.cell a = some ca → l.heap.cell b = some cb → ca.fd = cb.fd → a = b
  interest_of_tree : ∀ a ∈ l.callbacksTree, ∃ cb events,
    l.heap.cell a = some cb ∧ l.interest cb.fd = some ⟨events, a⟩
  tree_of_interest : ∀ fd e, l.interest fd = some e →
    e.ptr ∈ l.callbacksTree ∧ ∃ cb, l.heap.cell e.ptr = some cb ∧ cb.fd = fd
  gc_disjoint : ∀ a ∈ l.callbacksGcList, a ∉ l.callbacksTree
  gc_nodup : l.callbacksGcList.Nodup
  gc_null : ∀ a ∈ l.callbacksGcList, ∃ cb, l.heap.cell a = some cb ∧ cb.function = none
  pending_live : ∀ e ∈ l.pending, e.ptr ∈ l.heap.live
  /-- Nothing is lost: what is allocated is in one of the two lists. -/
  live_iff : ∀ a, a ∈ l.heap.live ↔ a ∈ l.callbacksTree ∨ a ∈ l.callbacksGcList

theorem Loop.Wf.lifetime (h : l.Wf) : l.Lifetime where
  tree_nodup := h.tree_nodup
  one_per_fd := fun _ ha _ hb _ _ hca hcb hfd => h.tree_inj ha hb hca hcb hfd
  interest_of_tree := h.tree_reg
  tree_of_interest := h.interest_tree
  gc_disjoint := h.gc_disjoint
  gc_nodup := h.gc_nodup
  gc_null := h.gc_null
  pending_live := fun _ he => h.pending_live he
  live_iff := fun a => ⟨h.live_cases a, fun ha => ha.elim h.tree_live h.gc_live⟩

/-- How a session must end: it does not fault, a loop that is waited in
is in order, and one that is destroyed has given all its records back. -/
structure SessionLifetime (o : Outcome (SessionAnswer F U) (SessionWorld F U) Unit) : Prop where
  not_fault : o ≠ .fault
  waiting : ∀ w, o = .stopped w → w.loop.Lifetime
  destroyed : ∀ w rest, o = .done () w rest → w.loop.AllFreed

/-- **The lifetime of callback records.** No session faults: it neither
reads nor frees a record that is not allocated, and frees none that an
undispatched event refers to. Wherever it waits the records are where
they belong, and once the loop is destroyed each was freed exactly once. -/
theorem session_lifetime {size : Int} {malloc calloc epollCreate : Bool}
    (h : (sepollCreate size malloc calloc epollCreate : Option (Loop F U)) = some l)
    (ans : List (SessionAnswer F U)) : SessionLifetime (session sepoll ⟨l, []⟩ ans) := by
  obtain ⟨hwf, hp, _⟩ := Loop.Wf.created h
  have hA : ∀ x ∈ ans, anySession.answers x := fun _ _ => trivial
  exact {
    not_fault := session_triple.not_fault ⟨hwf, hp⟩ hA id
    waiting := fun _ hr => Loop.Wf.lifetime (session_triple.stopped ⟨hwf, hp⟩ hA hr)
    destroyed := fun _ _ hr => (session_triple.done ⟨hwf, hp⟩ hA hr).1 }

/-- The session `readded`, on a loop for three events. -/
theorem session_lifetime_readded :
    SessionLifetime (session sepoll
      ⟨(sepollCreate 3 true true true : Option (Loop Unit Unit)).get rfl, []⟩
      readded) :=
  @session_lifetime Unit Unit _ 3 true true true rfl _

end Sgopher.Sepoll
