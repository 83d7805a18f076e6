/-
Sgopher.Sepoll.MapLoopTheorems — the loop of `sepoll.c` refines the
map-based one.

`Refines` relates the two: the map is what `Loop.reg` reads off the tree,
the interest list and the records, and each undispatched event refers
either to the record its descriptor is registered with, or, when the
descriptor was removed during the batch, to a record on the garbage list.
Every call of the interface keeps it and returns the same (`exec_sim`); an
event is dispatched where the map-based loop delivers it and nowhere else
(`dispatchOne_sim`); and so the two make the same observations in every
session (`sepoll_refines_map`).

No `sorry`, no `axiom`, no `native_decide`.
-/
import Sgopher.Lib.Simulation
import Sgopher.Sepoll.MapLoop
import Sgopher.Sepoll.SessionTheorems

namespace Sgopher.Sepoll

open Sgopher.Lib

variable {F U : Type} {l l' : Loop F U} {m m' : MapLoop F U}

/-! ## The relation -/

/-- What the map keeps of a registration. -/
def Reg.forget (r : Reg F U) : MapReg F U := ⟨r.events, r.function, r.userdata1, r.userdata2⟩

/-- An undispatched event of the two loops. -/
def Awaits (l : Loop F U) (removed : List Int) (e : EpollEvent) (d : Int × UInt32) : Prop :=
  e.events = d.2 ∧
    ((d.1 ∉ removed ∧ ∃ r, l.reg d.1 = some r ∧ r.ptr = e.ptr) ∨
      (d.1 ∈ removed ∧ e.ptr ∈ l.callbacksGcList))

/-- The loop stands for the map, and its undispatched events for `batch`. -/
structure Refines (batch : List (Int × UInt32)) (l : Loop F U) (m : MapLoop F U) : Prop where
  wf : l.Wf
  regs : ∀ fd, m.regs fd = (l.reg fd).map Reg.forget
  run : m.run = l.run
  maxEvents : m.maxEvents = l.epollEventsSize
  awaits : List.Forall₂ (Awaits l m.removed) l.pending batch

variable {batch : List (Int × UInt32)}

theorem Refines.isSome (h : Refines batch l m) (fd : Int) :
    (m.regs fd).isSome = (l.interest fd).isSome := by
  have hn := h.wf.reg_none_iff fd
  rw [h.regs fd]
  cases hi : l.interest fd with
  | none => simp [hn.mpr hi]
  | some e =>
    cases hr : l.reg fd with
    | none => simp [hn.mp hr] at hi
    | some r => rfl

theorem Awaits.imp {removed removed' : List Int} {e : EpollEvent} {d : Int × UInt32}
    (h : Awaits l removed e d)
    (hreg : ∀ r, d.1 ∉ removed → l.reg d.1 = some r → r.ptr = e.ptr →
      Awaits l' removed' e d)
    (hgc : d.1 ∈ removed → e.ptr ∈ l.callbacksGcList → Awaits l' removed' e d) :
    Awaits l' removed' e d := by
  obtain ⟨_, ⟨hn, r, hr, hp⟩ | ⟨hm, hg⟩⟩ := h
  · exact hreg r hn hr hp
  · exact hgc hm hg

theorem Refines.awaits_imp (h : Refines batch l m) {removed : List Int}
    (hp : l'.pending = l.pending)
    (hi : ∀ e d, Awaits l m.removed e d → Awaits l' removed e d) :
    List.Forall₂ (Awaits l' removed) l'.pending batch :=
  hp ▸ h.awaits.imp fun e d => hi e d

/-! ## The calls of the interface -/

theorem Refines.setRun (h : Refines batch l m) (run : Bool) :
    Refines batch { l with run := run } { m with run := run } :=
  ⟨h.wf.setRun run, h.regs, rfl, h.maxEvents, h.awaits⟩

theorem Refines.same (h : Refines batch l m) (hs : l.Same l') : Refines batch l' m where
  wf := h.wf.same hs
  regs := fun fd => by rw [hs.reg]; exact h.regs fd
  run := h.run.trans hs.run.symm
  maxEvents := h.maxEvents.trans hs.epollEventsSize.symm
  awaits := h.awaits_imp hs.pending fun e d ha => by
    simpa only [Awaits, hs.reg, hs.callbacksGcList] using ha

/-- A call that sets the registration of one descriptor and keeps its
record, if it had one. -/
theorem Refines.set (h : Refines batch l m) (hwf : l'.Wf) {fd : Int} {r : Reg F U}
    (hreg : l'.reg = Function.update l.reg fd (some r))
    (hptr : ∀ r', l.reg fd = some r' → r'.ptr = r.ptr)
    (hrun : l'.run = l.run) (hsize : l'.epollEventsSize = l.epollEventsSize)
    (hgc : l'.callbacksGcList = l.callbacksGcList) (hp : l'.pending = l.pending) :
    Refines batch l' (m.set fd (some r.forget)) where
  wf := hwf
  regs := fun fd' => by
    by_cases hfd : fd' = fd
    · subst hfd; simp [MapLoop.set, hreg]
    · simp only [MapLoop.set, hreg, Function.update_of_ne hfd]; exact h.regs fd'
  run := h.run.trans hrun.symm
  maxEvents := h.maxEvents.trans hsize.symm
  awaits := h.awaits_imp hp fun e d ha => by
    refine ha.imp (fun r' hn hr' he => ⟨ha.1, Or.inl ⟨hn, ?_⟩⟩)
      fun hm hg => ⟨ha.1, Or.inr ⟨hm, hgc ▸ hg⟩⟩
    by_cases hfd : d.1 = fd
    · exact ⟨r, by rw [hreg, hfd, Function.update_self], (hptr r' (hfd ▸ hr')).symm.trans he⟩
    · exact ⟨r', by rw [hreg, Function.update_of_ne hfd, hr'], he⟩

theorem Loop.reg_of_interest {fd : Int} {e : EpollEvent} {cb : Callback F U}
    (hi : l.interest fd = some e) (hc : l.heap.cell e.ptr = some cb) :
    l.reg fd = some ⟨e.ptr, e.events, cb.function, cb.userdata1, cb.userdata2⟩ :=
  Loop.reg_some_iff.mpr ⟨hi, cb, hc, rfl, rfl, rfl⟩

theorem Refines.add (h : Refines batch l m) (fd : Int) (events : UInt32) (function : Option F)
    (u1 u2 : U) (ans : LoopAnswer) :
    ∃ l', l.add fd events function u1 u2 ans
        = some (l', (m.add fd ⟨events, function, u1, u2⟩ ans).2) ∧
      Refines batch l' (m.add fd ⟨events, function, u1, u2⟩ ans).1 := by
  rcases h.wf.add_cases fd events function u1 u2 ans with
    ⟨l', e, he, ha, hs⟩ | ⟨want, hn, _, hi, ha⟩
  · refine ⟨l', ?_⟩
    simp only [MapLoop.add, h.isSome, he]
    exact ⟨ha, h.same hs⟩
  · simp only [MapLoop.add, h.isSome, hn]
    refine ⟨_, ha, h.set (h.wf.added hi events function u1 u2 want)
      (h.wf.added_reg fd events function u1 u2 want) ?_ rfl rfl rfl rfl⟩
    intro r' hr'
    rw [(h.wf.reg_none_iff fd).mpr hi] at hr'
    cases hr'

theorem Refines.change_error (h : Refines batch l m) {fd : Int} {f : MapReg F U → MapReg F U}
    {ans : LoopAnswer} {e : Errno} (he : modError (l.interest fd).isSome ans = some e) :
    m.change fd f ans = (m, .error e) := by
  simp only [MapLoop.change, h.isSome, he]

theorem Refines.change_ok (h : Refines batch l m) {fd : Int} {f : MapReg F U → MapReg F U}
    {ans : LoopAnswer} {r : Reg F U} (he : modError (l.interest fd).isSome ans = none)
    (hr : l.reg fd = some r) : m.change fd f ans = (m.set fd (some (f r.forget)), .ok ()) := by
  simp only [MapLoop.change, h.isSome, he]
  rw [h.regs, hr, Option.map_some, Option.map_some]

theorem Refines.modEvents (h : Refines batch l m) (fd : Int) (events : UInt32)
    (ans : LoopAnswer) :
    ∃ l', l.modEvents fd events ans
        = some (l', (m.change fd (fun r => { r with events := events }) ans).2) ∧
      Refines batch l' (m.change fd (fun r => { r with events := events }) ans).1 := by
  rcases h.wf.modEvents_cases fd events ans with ⟨e, he, hm⟩ | ⟨e, he, hi, hm⟩
  · rw [h.change_error he]
    exact ⟨l, hm, h⟩
  · obtain ⟨_, cb, hc, _⟩ := h.wf.interest_tree fd e hi
    have hr := Loop.reg_of_interest hi hc
    rw [h.change_ok he hr]
    refine ⟨_, hm, h.set (r := ⟨e.ptr, events, cb.function, cb.userdata1, cb.userdata2⟩)
      (h.wf.remasked hi events) (Loop.remasked_reg hr events) ?_ rfl rfl rfl rfl⟩
    intro r' hr'
    rw [← Option.some.inj (hr.symm.trans hr')]

theorem Refines.modCallback (h : Refines batch l m) (fd : Int) (function : Option F)
    (u1 u2 : U) :
    ∃ l', l.modCallback fd function u1 u2
        = some (l', (m.change fd (fun r => ⟨r.events, function, u1, u2⟩) {}).2) ∧
      Refines batch l' (m.change fd (fun r => ⟨r.events, function, u1, u2⟩) {}).1 := by
  rcases h.wf.modCallback_cases fd function u1 u2 with ⟨hi, hm⟩ | ⟨e, cb, hi, ht, hc, hfd, hm⟩
  · rw [h.change_error (e := .EBADF) (by simp [modError, hi])]
    exact ⟨l, hm, h⟩
  · have hr := Loop.reg_of_interest hi hc
    rw [h.change_ok (by simp [modError, hi]) hr]
    refine ⟨_, hm, h.set (r := ⟨e.ptr, e.events, function, u1, u2⟩)
      (h.wf.rebound ht hc hfd function u1 u2)
      (h.wf.rebound_reg hr function u1 u2 (h.wf.tree_live ht)) ?_ rfl rfl rfl rfl⟩
    intro r' hr'
    rw [← Option.some.inj (hr.symm.trans hr')]

theorem Refines.mod (h : Refines batch l m) (fd : Int) (events : UInt32) (function : Option F)
    (u1 u2 : U) (ans : LoopAnswer) :
    ∃ l', l.mod fd events function u1 u2 ans
        = some (l', (m.change fd (fun _ => ⟨events, function, u1, u2⟩) ans).2) ∧
      Refines batch l' (m.change fd (fun _ => ⟨events, function, u1, u2⟩) ans).1 := by
  rcases h.wf.mod_cases fd events function u1 u2 ans with
    ⟨e, he, hm⟩ | ⟨e, cb, he, hi, ht, hc, hfd, hm⟩
  · rw [h.change_error he]
    exact ⟨l, hm, h⟩
  · have hr := Loop.reg_of_interest hi hc
    have hmask := h.wf.remasked hi events
    have hi' : (l.remasked fd events e.ptr).interest fd = some ⟨events, e.ptr⟩ :=
      Function.update_self ..
    have hr' : (l.remasked fd events e.ptr).reg fd
        = some ⟨e.ptr, events, cb.function, cb.userdata1, cb.userdata2⟩ :=
      Loop.reg_of_interest hi' hc
    rw [h.change_ok he hr]
    refine ⟨_, hm, h.set (r := ⟨e.ptr, events, function, u1, u2⟩)
      (hmask.rebound ht hc hfd function u1 u2) ?_ ?_ rfl rfl rfl rfl⟩
    · rw [hmask.rebound_reg hr' function u1 u2 (h.wf.tree_live ht), Loop.remasked_reg hr events,
        Function.update_idem]
    · intro r' hr'
      rw [← Option.some.inj (hr.symm.trans hr')]

theorem Refines.remove (h : Refines batch l m) (fd : Int) :
    ∃ l', l.remove fd = some (l', (m.remove fd).2) ∧ Refines batch l' (m.remove fd).1 := by
  rcases h.wf.remove_cases fd with ⟨hi, hr⟩ | ⟨e, cb, hi, ht, hc, hfd, hr⟩
  · have hn : m.regs fd = none := by rw [h.regs, (h.wf.reg_none_iff fd).mpr hi]; rfl
    simp only [MapLoop.remove, hn]
    exact ⟨l, hr, h⟩
  · have hreg := Loop.reg_of_interest hi hc
    obtain ⟨r, hs⟩ : ∃ r, m.regs fd = some r := ⟨_, by rw [h.regs, hreg]; rfl⟩
    simp only [MapLoop.remove, hs]
    have hupd := h.wf.removed_reg hi hc hfd (h.wf.tree_live ht)
    refine ⟨_, hr, h.wf.removed hi ht hc hfd, ?_, h.run, h.maxEvents, ?_⟩
    · intro fd'
      rw [hupd]
      by_cases hf : fd' = fd
      · subst hf; simp [MapLoop.set]
      · simp only [MapLoop.set, Function.update_of_ne hf]; exact h.regs fd'
    · -- an event of this descriptor now refers to the garbage list
      refine h.awaits_imp rfl fun e' d ha => ⟨ha.1, ?_⟩
      obtain ⟨_, ⟨hn, r', hr', hp⟩ | ⟨hm, hg⟩⟩ := ha
      · by_cases hf : d.1 = fd
        · rw [hf, hreg] at hr'
          refine Or.inr ⟨by simp [hf], ?_⟩
          simp only [Loop.removed, List.mem_cons]
          exact Or.inl (by rw [← hp, ← Option.some.inj hr'])
        · exact Or.inl ⟨by simp [hf, hn], r', by rw [hupd, Function.update_of_ne hf, hr'], hp⟩
      · exact Or.inr ⟨by simp [hm], by simp [Loop.removed, hg]⟩

/-! ## The calls as programs -/

/-- The two worlds of a session, at a point of a batch: `pend` of the
array `arr` is undispatched, and stands for `batch`. -/
structure Related (batch : List (Int × UInt32)) (pend arr : List EpollEvent)
    (s : SessionWorld F U) (t : MapWorld F U) : Prop where
  own : s.own = t.own
  refines : Refines batch s.loop t.loop
  pending : s.loop.pending = pend
  epollEvents : s.loop.epollEvents = arr

/-- What has been observed is the same. -/
def SameTrace (s : SessionWorld F U) (t : MapWorld F U) : Prop := s.own = t.own

variable {pend arr : List EpollEvent}

/-- Equal results in related worlds. -/
abbrev SameResult (batch : List (Int × UInt32)) (pend arr : List EpollEvent) {α : Type}
    (r r' : α) (s : SessionWorld F U) (t : MapWorld F U) : Prop :=
  r = r' ∧ Related batch pend arr s t

theorem onLoop_sim {f : Loop F U → Option (Loop F U × Ret)} {g : MapLoop F U → MapLoop F U × Ret}
    (h : ∀ (l : Loop F U) m, Refines batch l m →
      ∃ l', f l = some (l', (g m).2) ∧ Refines batch l' (g m).1)
    (hk : ∀ l : Loop F U, l.Wf → ∃ l' r, f l = some (l', r) ∧ l.Keeps l') :
    Sim (Related batch pend arr) SameTrace
      (onLoop f : Prog (SessionAnswer F U) (SessionWorld F U) Ret) (onMap g)
      (SameResult batch pend arr) := by
  refine Sim.step fun s t hr => ?_
  obtain ⟨l', hf, hl'⟩ := h s.loop t.loop hr.refines
  obtain ⟨l'', r, hf', hkeep⟩ := hk s.loop hr.refines.wf
  obtain ⟨rfl, rfl⟩ : l' = l'' ∧ (g t.loop).2 = r := by
    rw [hf, Option.some.injEq, Prod.mk.injEq] at hf'
    exact hf'
  refine ⟨s.withLoop l', (g t.loop).2, _, _, by rw [hf]; rfl, rfl, rfl, ?_⟩
  exact ⟨hr.own, hl', hkeep.pending.trans hr.pending, hkeep.epollEvents.trans hr.epollEvents⟩

theorem ask_sim :
    Sim (Related batch pend arr) SameTrace
      (Prog.ask : Prog (SessionAnswer F U) (SessionWorld F U) _) Prog.ask
      (SameResult batch pend arr) :=
  Sim.ask (fun _ _ h => h.own) fun _ _ _ h => ⟨rfl, h⟩

/-- Continue after equal results. -/
theorem Sim.same {α β γ : Type} {R K : SessionWorld F U → MapWorld F U → Prop}
    {f : α → Prog (SessionAnswer F U) (SessionWorld F U) β} {f' : α → MapProg F U γ}
    {S : β → γ → SessionWorld F U → MapWorld F U → Prop}
    (h : ∀ a, Sim R K (f a) (f' a) S) (a b : α) :
    Sim (fun s t => a = b ∧ R s t) K (f a) (f' b) S := by
  rintro s t ans ⟨rfl, hr⟩
  exact h a s t ans hr

/-- Every call does the same on both sides, and returns the same. -/
theorem exec_sim (o : Op F U) :
    Sim (Related batch pend arr) SameTrace o.exec o.execMap (SameResult batch pend arr) := by
  cases o with
  | add fd events function u1 u2 =>
    exact Sim.bind ask_sim <| Sim.same fun a => onLoop_sim
      (fun l m h => h.add fd events function u1 u2 a.loop)
      fun l h => h.add_keeps fd events function u1 u2 a.loop
  | mod fd events function u1 u2 =>
    exact Sim.bind ask_sim <| Sim.same fun a => onLoop_sim
      (fun l m h => h.mod fd events function u1 u2 a.loop)
      fun l h => h.mod_keeps fd events function u1 u2 a.loop
  | modEvents fd events =>
    exact Sim.bind ask_sim <| Sim.same fun a => onLoop_sim
      (fun l m h => h.modEvents fd events a.loop) fun l h => h.modEvents_keeps fd events a.loop
  | modCallback fd function u1 u2 =>
    exact onLoop_sim (fun l m h => h.modCallback fd function u1 u2)
      fun l h => h.modCallback_keeps fd function u1 u2
  | remove fd =>
    exact onLoop_sim (fun l m h => h.remove fd) fun l h => h.remove_keeps fd
  | exit =>
    refine Sim.bind (T := fun _ _ s t => Related batch pend arr s t) ?_ fun _ _ =>
      Sim.pure fun _ _ h => ⟨rfl, h⟩
    intro s t ans h
    exact ⟨rfl, h.own, h.refines.setRun false, h.pending, h.epollEvents⟩

theorem observe_sim (o : Observation F U) :
    Sim (Related batch pend arr) SameTrace (sepoll.observe o) (mapped.observe o)
      (SameResult batch pend arr) :=
  Sim.modify fun s t h => ⟨rfl, by rw [h.own], h.refines, h.pending, h.epollEvents⟩

/-- A callback does the same on both sides. -/
theorem runOps_sim :
    Sim (Related (F := F) (U := U) batch pend arr) SameTrace (runOps sepoll) (runOps mapped)
      (SameResult batch pend arr) := by
  refine (Sim.iterate (I := fun _ _ => Related batch pend arr) (S := SameResult batch pend arr)
    (fun _ _ _ _ h => h.own) (fun _ _ => ?_) () ())
  refine Sim.bind ask_sim <| Sim.same fun a => ?_
  cases ho : a.op with
  | none => exact Sim.pure fun _ _ h => ⟨rfl, h⟩
  | some o =>
    refine Sim.bind (exec_sim o) <| Sim.same fun r => ?_
    exact Sim.bind (observe_sim (.returned r)) <| Sim.same fun _ => Sim.pure fun _ _ h => h

/-! ## Waiting and dispatching -/

/-- The two sides read the same readiness off registrations and
interests. -/
theorem Refines.ready (h : Refines batch l m) :
    ∀ (evs : List (Int × UInt32)) (seen : List Int),
      List.Forall₂ (Awaits l []) (l.ready evs seen) (m.ready evs seen)
  | [], _ => by simp [Loop.ready, MapLoop.ready]
  | (fd, bits) :: rest, seen => by
    rw [Loop.ready, MapLoop.ready, h.regs]
    cases hi : l.interest fd with
    | none =>
      rw [(h.wf.reg_none_iff fd).mpr hi]
      exact h.ready rest seen
    | some e =>
      obtain ⟨_, cb, hc, _⟩ := h.wf.interest_tree fd e hi
      have hr := Loop.reg_of_interest hi hc
      rw [hr]
      dsimp only [Option.map_some, Reg.forget]
      split
      · exact .cons ⟨rfl, Or.inl ⟨by simp, _, hr, rfl⟩⟩ (h.ready rest (fd :: seen))
      · exact h.ready rest seen

/-- A batch on both sides: the count, and the events that came. -/
def SameBatch (n : Int) (p : Int × List (Int × UInt32)) (s : SessionWorld F U)
    (t : MapWorld F U) : Prop :=
  n = p.1 ∧ n.toNat = p.2.length ∧ n.toNat ≤ s.loop.epollEvents.length ∧
    Related p.2 (s.loop.epollEvents.take n.toNat) s.loop.epollEvents s t

/-- One look of `epoll_wait`. -/
theorem Refines.poll (h : Refines [] l m) (timeout : Int)
    (answer : WaitAnswer) :
    (l.poll timeout answer = (l, .inl ()) ∧ m.poll timeout answer = (m, .inl ())) ∨
      (∃ n ≤ 0, l.poll timeout answer = (l, .inr n) ∧
        m.poll timeout answer = (m, .inr (n, []))) ∨
      ∃ (arr : List EpollEvent) (batch : List EpollEvent) (evs : List (Int × UInt32)),
        arr.take batch.length = batch ∧ batch.length = evs.length ∧
        l.poll timeout answer = ({ l with epollEvents := arr, pending := batch },
          .inr batch.length) ∧
        m.poll timeout answer = ({ m with removed := [] }, .inr (evs.length, evs)) ∧
        Refines evs { l with epollEvents := arr, pending := batch } { m with removed := [] } := by
  cases answer with
  | error e => exact Or.inr (Or.inl ⟨-1, by omega, rfl, rfl⟩)
  | ready events =>
    have hall : List.Forall₂ (Awaits l [])
        ((l.ready events []).take l.epollEventsSize.toNat)
        ((m.ready events []).take l.epollEventsSize.toNat) :=
      List.forall₂_take _ (h.ready events [])
    have hlen := hall.length_eq
    simp only [Loop.poll, MapLoop.poll, h.maxEvents]
    by_cases hsize : l.epollEventsSize ≤ 0
    · exact Or.inr (Or.inl ⟨-1, by omega, by simp only [if_pos hsize], by simp only [if_pos hsize]⟩)
    · simp only [if_neg hsize]
      by_cases hb : (l.ready events []).take l.epollEventsSize.toNat = []
      · have hb' : (m.ready events []).take l.epollEventsSize.toNat = [] := by
          rw [hb] at hlen
          exact List.eq_nil_of_length_eq_zero hlen.symm
        simp only [if_pos hb, if_pos hb']
        by_cases ht : timeout < 0
        · exact Or.inl ⟨by rw [if_pos ht], by rw [if_pos ht]⟩
        · exact Or.inr (Or.inl ⟨0, by omega, by rw [if_neg ht], by rw [if_neg ht]⟩)
      · have hb' : (m.ready events []).take l.epollEventsSize.toNat ≠ [] := by
          intro he
          rw [he] at hlen
          exact hb (List.eq_nil_of_length_eq_zero hlen)
        simp only [if_neg hb, if_neg hb']
        refine Or.inr (Or.inr ⟨_, _, _, ?_, hlen, rfl, rfl, ?_⟩)
        · rw [List.take_left']; rfl
        · exact ⟨h.wf.polled rfl, h.regs, h.run, rfl, hall⟩

/-- Between turns no event is undispatched. -/
def Resting (s : SessionWorld F U) (t : MapWorld F U) : Prop := ∃ arr, Related [] [] arr s t

theorem Resting.own {s : SessionWorld F U} {t : MapWorld F U} (h : Resting s t) : SameTrace s t :=
  h.elim fun _ hr => hr.own

theorem ask_resting :
    Sim Resting SameTrace (Prog.ask : Prog (SessionAnswer F U) (SessionWorld F U) _) Prog.ask
      (fun a b s t => a = b ∧ Resting s t) :=
  Sim.ask (fun _ _ h => h.own) fun _ _ _ h => ⟨rfl, h⟩

theorem epollWait_sim (timeout : Int) :
    Sim (Resting (F := F) (U := U)) SameTrace (epollWait timeout) (mapWait timeout) SameBatch := by
  refine Sim.iterate (I := fun _ _ => Resting) (fun _ _ _ _ h => h.own) (fun _ _ => ?_) () ()
  refine Sim.bind ask_resting <| Sim.same fun a => ?_
  refine Sim.step fun s t ⟨arr, h⟩ => ⟨_, _, _, _, rfl, rfl, ?_⟩
  show Turns (fun _ _ => Resting) SameBatch (s.loop.poll timeout a.loop.wait).2
    (t.loop.poll timeout a.loop.wait).2 (World.mk (s.loop.poll timeout a.loop.wait).1 s.own)
    (MapWorld.mk (t.loop.poll timeout a.loop.wait).1 t.own)
  rcases h.refines.poll timeout a.loop.wait with
    ⟨hl, hm⟩ | ⟨n, hn, hl, hm⟩ | ⟨arr', pend, evs, htake, hlen, hl, hm, href⟩
  · rw [hl, hm]
    exact ⟨arr, h⟩
  · rw [hl, hm]
    have h0 : n.toNat = 0 := by omega
    refine ⟨rfl, by simp [h0], by omega, h.own, h.refines, ?_, rfl⟩
    rw [h0]
    exact h.pending
  · rw [hl, hm]
    refine ⟨by simp [hlen], by simp [hlen], ?_, h.own, href, ?_, rfl⟩
    · have := congrArg List.length htake
      rw [List.length_take] at this
      show pend.length ≤ arr'.length
      omega
    · exact htake.symm

/-! ## Dispatching -/

section Dispatch

variable {call : F → UInt32 → U → U → Prog (SessionAnswer F U) (SessionWorld F U) Unit}
  {call' : F → UInt32 → U → U → MapProg F U Unit}

/-- The two callbacks do the same. -/
def SameCalls (call : F → UInt32 → U → U → Prog (SessionAnswer F U) (SessionWorld F U) Unit)
    (call' : F → UInt32 → U → U → MapProg F U Unit) : Prop :=
  ∀ batch pend arr f events u1 u2,
    Sim (Related batch pend arr) SameTrace (call f events u1 u2) (call' f events u1 u2)
      (SameResult batch pend arr)

/-- One event: the callback is called on both sides, or on neither. -/
theorem dispatchOne_sim (hcall : SameCalls call call') (i k : Nat) (d : Int × UInt32)
    (rest : List (Int × UInt32)) (arr : List EpollEvent) (hlen : i + (k + 1) ≤ arr.length) :
    Sim (Related (d :: rest) ((arr.drop i).take (k + 1)) arr) SameTrace
      (dispatchOne call i) (deliver call' d.1 d.2)
      (fun _ _ => Related rest ((arr.drop (i + 1)).take k) arr) := by
  intro s t ans h
  have hi : i < arr.length := by omega
  have hcons : s.loop.pending = arr[i] :: (arr.drop (i + 1)).take k := by
    rw [h.pending, List.drop_eq_getElem_cons hi, List.take_succ_cons]
  obtain ⟨cb, hc, hf⟩ := h.refines.wf.fetch_spec (i := i) (k := k + 1)
    (by rw [h.epollEvents, h.pending]) hcons
  have hfetch : (onLoop (fun l => l.fetch i) :
      Prog (SessionAnswer F U) (SessionWorld F U) (UInt32 × Callback F U)) s ans
      = .done (arr[i].events, cb) (s.withLoop s.loop.popped) ans := by
    simp only [onLoop, Prog.step, hf, Option.map_some, World.withLoop]
  have haw := h.refines.awaits
  rw [hcons] at haw
  obtain ⟨⟨hev, hwhere⟩, hrest⟩ := List.forall₂_cons.mp haw
  have hnext : Related rest ((arr.drop (i + 1)).take k) arr (s.withLoop s.loop.popped) t :=
    ⟨h.own, ⟨h.refines.wf.popped, h.refines.regs, h.refines.run, h.refines.maxEvents, by
      show List.Forall₂ (Awaits s.loop t.loop.removed) s.loop.pending.tail rest
      rw [hcons]
      exact hrest⟩, by simp [World.withLoop, Loop.popped, hcons], h.epollEvents⟩
  rw [dispatchOne, Prog.bind_done hfetch, deliver, Prog.bind_done (Prog.get_run t ans)]
  rcases hwhere with ⟨hn, r, hr, hp⟩ | ⟨hm, hg⟩
  · -- still registered: the record is the one the registration points to
    obtain ⟨_, cb', hc', hfun, h1, h2⟩ := Loop.reg_some_iff.mp hr
    rw [hp, hc] at hc'
    obtain rfl := Option.some.inj hc'
    have hreg : t.loop.regs d.1 = some ⟨r.events, cb.function, cb.userdata1, cb.userdata2⟩ := by
      rw [h.refines.regs, hr, hfun, h1, h2]
      rfl
    simp only [if_neg hn, hreg]
    cases hfn : cb.function with
    | none => exact ⟨rfl, hnext⟩
    | some f =>
      have hsim := hcall rest ((arr.drop (i + 1)).take k) arr f d.2 cb.userdata1 cb.userdata2
      rw [hev]
      exact (hsim.conseq (fun _ _ h => h) fun _ _ _ _ h => h.2) _ _ ans hnext
  · -- removed during the batch: its function is null
    obtain ⟨cb', hc', hnull⟩ := h.refines.wf.gc_null _ hg
    rw [hc] at hc'
    obtain rfl := Option.some.inj hc'
    simp only [if_pos hm, hnull]
    exact ⟨rfl, hnext⟩

/-- The whole batch, in order. -/
theorem dispatch_sim (hcall : SameCalls call call') (arr : List EpollEvent) :
    ∀ (batch : List (Int × UInt32)) (i : Nat), i + batch.length ≤ arr.length →
      Sim (Related batch ((arr.drop i).take batch.length) arr) SameTrace
        (dispatch call batch.length i) (deliverAll call' batch)
        (fun _ _ => Related [] [] arr)
  | [], i, _ => Sim.pure fun _ _ h => by simpa using h
  | d :: rest, i, hlen => by
    rw [List.length_cons] at hlen ⊢
    exact Sim.bind (dispatchOne_sim hcall i rest.length d rest arr hlen) fun _ _ =>
      dispatch_sim hcall arr rest (i + 1) (by omega)

/-! ## The event loop -/

theorem setRun_sim (run : Bool) :
    Sim (Resting (F := F) (U := U)) SameTrace (setRun run)
      (onMap fun m => ({ m with run := run }, ())) (fun _ _ => Resting) := by
  rintro s t ans ⟨arr, h⟩
  exact ⟨rfl, arr, h.own, h.refines.setRun run, h.pending, h.epollEvents⟩

/-- The two functions for the end of a turn do the same. -/
def SameFunctions : Option (Int → Prog (SessionAnswer F U) (SessionWorld F U) Unit) →
    Option (Int → MapProg F U Unit) → Prop
  | none, none => True
  | some f, some f' => ∀ n, Sim Resting SameTrace (f n) (f' n) (fun _ _ => Resting)
  | _, _ => False

variable {function : Option (Int → Prog (SessionAnswer F U) (SessionWorld F U) Unit)}
  {function' : Option (Int → MapProg F U Unit)}

theorem afterWait_sim (h : SameFunctions function function') (n retval : Int) :
    Sim (Resting (F := F) (U := U)) SameTrace (afterWait function n retval)
      (mapAfter function' n retval) (fun r r' s t => r = r' ∧ Resting s t) := by
  cases function with
  | none =>
    cases function' with
    | some f' => exact h.elim
    | none =>
      unfold afterWait mapAfter
      by_cases h0 : n = 0
      · simp only [if_pos h0, if_pos (show n ≤ 0 by omega)]
        exact Sim.bind (setRun_sim false) fun _ _ => Sim.pure fun _ _ h => ⟨rfl, h⟩
      · by_cases hneg : n < 0
        · simp only [if_neg h0, if_pos hneg, if_pos (show n ≤ 0 by omega)]
          exact Sim.bind (setRun_sim false) fun _ _ => Sim.pure fun _ _ h => ⟨rfl, h⟩
        · simp only [if_neg h0, if_neg hneg, if_neg (show ¬ n ≤ 0 by omega)]
          exact Sim.pure fun _ _ h => ⟨rfl, h⟩
  | some f =>
    cases function' with
    | none => exact h.elim
    | some f' => exact Sim.bind (h n) fun _ _ => Sim.pure fun _ _ h => ⟨rfl, h⟩

/-- Freeing the garbage list is not seen by the map. -/
theorem Resting.collect {s : SessionWorld F U} {t : MapWorld F U} (hs : Resting s t)
    (ans : List (SessionAnswer F U)) :
    ∃ s', (onLoop (fun l => l.collect.map fun l => (l, ())) :
        Prog (SessionAnswer F U) (SessionWorld F U) Unit) s ans = .done () s' ans ∧
      Resting s' t := by
  obtain ⟨arr, h⟩ := hs
  obtain ⟨heap, hc, _, _⟩ := h.refines.wf.collect_spec h.pending
  have hreg := h.refines.wf.collected_reg h.pending hc
  refine ⟨s.withLoop { s.loop with heap := heap, callbacksGcList := [] }, ?_, arr, h.own,
    ⟨h.refines.wf.collected h.pending hc, ?_, h.refines.run, h.refines.maxEvents, ?_⟩, h.pending,
    h.epollEvents⟩
  · simp only [onLoop, Prog.step, hc, Option.map_some, World.withLoop]
  · intro fd
    show _ = (Loop.reg { s.loop with heap := heap, callbacksGcList := [] } fd).map Reg.forget
    rw [hreg]
    exact h.refines.regs fd
  · show List.Forall₂ _ s.loop.pending []
    rw [h.pending]
    exact .nil

theorem enterTurn_sim (hcall : SameCalls call call') (hfun : SameFunctions function function')
    (timeout retval : Int) :
    Sim (Resting (F := F) (U := U)) SameTrace (enterTurn call timeout function retval)
      (mapTurn call' timeout function' retval)
      (Turns (fun r r' s t => r = r' ∧ Resting s t) (fun r r' s t => r = r' ∧ Resting s t)) := by
  intro s t ans hrest
  obtain ⟨arr, h⟩ := hrest
  rw [enterTurn, mapTurn, Prog.bind_done (Prog.get_run s ans), Prog.bind_done (Prog.get_run t ans)]
  rw [h.refines.run]
  by_cases hrun : s.loop.run = true
  · rw [if_pos hrun, if_pos hrun]
    refine Sim.bind (epollWait_sim timeout) (fun n p => ?_) s t ans ⟨arr, h⟩
    obtain ⟨n', batch⟩ := p
    refine Sim.bind (T := fun _ _ s t => n = n' ∧ Resting s t) ?_ fun _ _ => ?_
    · rintro s t ans ⟨hn, hlen, hle, hr⟩
      dsimp only at hn hlen hr
      rw [hlen] at hr hle ⊢
      refine ((dispatch_sim hcall s.loop.epollEvents batch 0 (by omega)).conseq
        (fun _ _ h => h) fun _ _ s' t' h' => (⟨hn, _, h'⟩ : n = n' ∧ Resting s' t')) s t ans ?_
      simpa using hr
    · rintro s t ans ⟨rfl, hr⟩
      refine Sim.bind (afterWait_sim hfun n retval) (fun r r' => ?_) s t ans hr
      rintro s t ans ⟨rfl, hr⟩
      obtain ⟨s', hc, hr'⟩ := hr.collect ans
      rw [Prog.bind_done hc]
      exact ⟨rfl, rfl, hr'⟩
  · rw [if_neg hrun, if_neg hrun]
    exact ⟨rfl, rfl, arr, h⟩

theorem enter_sim (hcall : SameCalls call call') (hfun : SameFunctions function function')
    (timeout : Int) :
    Sim (Resting (F := F) (U := U)) SameTrace (sepollEnter call timeout function)
      (mapEnter call' timeout function') (fun r r' s t => r = r' ∧ Resting s t) := by
  refine Sim.bind (setRun_sim true) fun _ _ => ?_
  refine (Sim.iterate (I := fun r r' s t => r = r' ∧ Resting s t)
    (S := fun r r' s t => r = r' ∧ Resting s t) (fun _ _ _ _ h => h.2.own) (fun r r' => ?_)
    0 0).conseq (fun _ _ h => ⟨rfl, h⟩) fun _ _ _ _ h => h
  rintro s t ans ⟨rfl, h⟩
  exact enterTurn_sim hcall hfun timeout r s t ans h

end Dispatch

/-! ## Whole sessions -/

/-- A callback of a session does the same on both sides. -/
theorem scriptedCallback_sim :
    SameCalls (F := F) (U := U) (scriptedCallback sepoll) (scriptedCallback mapped) :=
  fun _ _ _ f events u1 u2 => Sim.bind (observe_sim (.called f events u1 u2)) fun _ _ =>
    runOps_sim.conseq (fun _ _ h => h.2) fun _ _ _ _ h => h

theorem scriptedFunction_sim (function : Bool) :
    SameFunctions (F := F) (U := U) (if function then some (scriptedFunction sepoll) else none)
      (if function then some (scriptedFunction mapped) else none) := by
  cases function with
  | false => trivial
  | true =>
    rintro n s t ans ⟨arr, h⟩
    have hrun : Sim (Related [] [] arr) SameTrace (scriptedFunction (F := F) (U := U) sepoll n)
        (scriptedFunction mapped n) (fun _ _ => Resting) :=
      Sim.bind (observe_sim (.turnEnded n)) fun _ _ =>
        runOps_sim.conseq (fun _ _ h => h.2) fun _ _ _ _ h => ⟨arr, h.2⟩
    exact hrun s t ans h

theorem observe_resting (o : Observation F U) :
    Sim Resting SameTrace (sepoll.observe o) (mapped.observe o) (fun _ _ => Resting) := by
  rintro s t ans ⟨arr, h⟩
  exact ((observe_sim o).conseq (fun _ _ h => h) fun _ _ s' t' h' => (⟨arr, h'.2⟩ : Resting s' t'))
    s t ans h

theorem runCommand_sim (c : Command F U) :
    Sim Resting SameTrace (runCommand sepoll c) (runCommand mapped c) (fun _ _ => Resting) := by
  cases c with
  | op o =>
    rintro s t ans ⟨arr, h⟩
    have hrun : Sim (Related [] [] arr) SameTrace (runCommand sepoll (.op o))
        (runCommand mapped (.op o)) (fun _ _ => Resting) :=
      Sim.bind (exec_sim o) <| Sim.same fun r =>
        (observe_resting (.returned r)).conseq (fun _ _ h => ⟨arr, h⟩) fun _ _ _ _ h => h
    exact hrun s t ans h
  | enter timeout function =>
    exact Sim.bind (enter_sim scriptedCallback_sim (scriptedFunction_sim function) timeout) <|
      Sim.same fun r => observe_resting (.entered r)

theorem session_sim :
    Sim (Resting (F := F) (U := U)) SameTrace (session sepoll) (session mapped)
      (fun _ _ => SameTrace) := by
  refine Sim.iterate (I := fun _ _ => Resting) (fun _ _ _ _ h => h.own) (fun _ _ => ?_) () ()
  refine Sim.bind ask_resting <| Sim.same fun a => ?_
  cases hc : a.command with
  | none =>
    -- destroying frees records, which the map does not have
    rintro s t ans ⟨arr, h⟩
    obtain ⟨l', hd, _⟩ := h.refines.wf.destroy_spec h.pending
    have hrun : (sepoll (F := F) (U := U)).destroy s ans = .done () (s.withLoop l') ans := by
      show sepollDestroy s ans = _
      simp only [sepollDestroy, onLoop, Prog.step, hd, Option.map_some, World.withLoop]
    show Outcome.Alike _ _ ((sepoll.destroy >>= fun _ => pure (Sum.inr ())) s ans) _
    rw [Prog.bind_done hrun]
    exact ⟨rfl, h.own⟩
  | some c => exact Sim.bind (runCommand_sim c) fun _ _ => Sim.pure fun _ _ h => h

/-- **The event loop refines the map-based loop.** In every session the
two end alike, and wherever they wait or end, they have delivered the
same events to the same callbacks with the same arguments, and returned
the same from every call. -/
theorem sepoll_refines_map {size : Int} {malloc calloc epollCreate : Bool}
    (h : (sepollCreate size malloc calloc epollCreate : Option (Loop F U)) = some l)
    (ans : List (SessionAnswer F U)) :
    (session sepoll ⟨l, []⟩ ans).Alike SameTrace (fun _ _ => SameTrace)
      (session mapped ⟨.created size, []⟩ ans) := by
  obtain ⟨hwf, hp, hreg, hsize⟩ := Loop.Wf.created h
  have hrun : l.run = true := by
    unfold sepollCreate at h
    split at h <;> cases h
    rfl
  refine session_sim _ _ ans ⟨l.epollEvents, rfl, ⟨hwf, ?_, hrun.symm, hsize.symm, ?_⟩, hp, rfl⟩
  · intro fd
    rw [hreg]
    rfl
  · rw [hp]
    exact .nil

/-- The session `readded`, on a loop for three events. -/
theorem sepoll_refines_map_readded :
    (session sepoll ⟨(sepollCreate 3 true true true : Option (Loop Unit Unit)).get rfl, []⟩
      readded).Alike SameTrace (fun _ _ => SameTrace) (session mapped ⟨.created 3, []⟩ readded) :=
  @sepoll_refines_map Unit Unit _ 3 true true true rfl _

end Sgopher.Sepoll
