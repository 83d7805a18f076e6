/-
Sgopher.Server.SetupTheorems — the worker process from its first call to
its exit.

While the process sets itself up every descriptor it has opened is in a
field of `struct server_t` or in a local variable (`Stage`); a failure
leaves the fields to `server_cleanup`. If nothing fails the worker is one
that has just created its loop (`Starts`), so what is known of the run of
a worker holds of it from there on.

`process_released` says that the process gives everything back, whichever
call fails, as long as no change of a mask does: the one descriptor it can
lose is a timer that could not be set. `process_within_limit` says that it
never has more descriptors open than the limit it raised allows.

No `sorry`, no `axiom`, no `native_decide`.
-/
import Sgopher.Server.KeepsTheorems
import Sgopher.Server.Setup

namespace Sgopher.Server

open Sgopher.Lib Sgopher.Sepoll

namespace Proc

variable {params : Params} {limit : Rlimit} {settles masks : Prop} {g : Signals} {i : Option UInt32}
  {o : Option (UInt16 × Nat)} {fds : Heap Object} {s : ServerState} {l : List Int} {bs : List Nat}
  {p : Proc} {fd : Int} {α : Type}

/-! ## The stages of the set-up -/

/-- The descriptors in the fields. -/
def places (s : ServerState) : List Int :=
  held s.socket ++ (held s.timerfd ++ (held s.sigfd ++ held s.directory))

/-- The limit is as high as the process asked for, and no lower than it
was. -/
def Raised (params : Params) (limit : Rlimit) (p : Proc) : Prop :=
  fdsNeeded params.maxClients ≤ p.limit.rlimCur ∧ limit.rlimCur ≤ p.limit.rlimCur

/-- What else a process has set up. -/
def Facts (params : Params) (limit : Rlimit) (g : Signals) (i : Option UInt32)
    (o : Option (UInt16 × Nat)) (p : Proc) : Prop :=
  Raised params limit p ∧ p.signals = g ∧ p.interval = i ∧ p.listening = o

/-- A process that has its state, but no event loop: what it has open is
in the fields `s` or in the list `l`, and the memory it has is its state
and that of `bs`. -/
structure Stage (params : Params) (limit : Rlimit) (g : Signals) (i : Option UInt32)
    (o : Option (UInt16 × Nat)) (fds : Heap Object) (s : ServerState) (l : List Int)
    (bs : List Nat) (p : Proc) : Prop where
  world : p.world = bare fds s
  owned : fds.Owned True (l ++ places s)
  room : (l ++ places s).length ≤ 5
  peak : fds.peak ≤ 5
  noLoop : s.epollfd = -1 ∧ s.clients = [] ∧ s.params = params
  memory : p.memory.live.Perm (bs ++ [p.server])
  loop : p.loop = 0
  facts : Facts params limit g i o p

/-- The signals of a process that is set up. -/
def readySignals : Signals := ⟨some SIGTERM, [SIGPIPE, SIGCHLD], [SIGTERM]⟩

/-- What a process that serves has set up in full. -/
def Ready (params : Params) (limit : Rlimit) (p : Proc) : Prop :=
  Facts params limit readySignals (some params.timeout) (some (params.port, 256)) p

/-- Wherever a process waits. -/
inductive Waits (params : Params) (limit : Rlimit) (p : Proc) : Prop where
  | early (h : p.world.own.fds.peak = 0)
  | stage {g : Signals} {i : Option UInt32} {o : Option (UInt16 × Nat)} {fds : Heap Object}
      {s : ServerState} {l : List Int} {bs : List Nat} (h : Stage params limit g i o fds s l bs p)
  | run (h : Raised params limit p) (hr : RunWaits .masks p.world)
      (hp : p.world.own.server.params = params)

/-- What a process relies on and owes: if `settles` holds every timer can
be set, and if `masks` does no change of a mask is refused. -/
def contract (params : Params) (limit : Rlimit) (settles masks : Prop) :
    Contract ProcAnswer Proc where
  answers := fun y => (masks → y.serve.loop.ctlMod = none) ∧ (settles → y.settime = none)
  waits := Waits params limit
  mayFault := eventLoopSize params.maxClients = none

/-- Five descriptors are fewer than any number of clients needs. -/
theorem Stage.budget (h : Stage params limit g i o fds s l bs p) :
    3 + fds.peak ≤ fdsOf params.maxClients := by
  have := h.peak
  unfold fdsOf FDS_SERVER
  omega

/-! ## Calls -/

theorem check_triple {P : Proc → Prop} (hP : ∀ p, P p → Waits params limit p) :
    Triple (contract params limit settles masks) P check (fun _ => P) :=
  Triple.bind (Triple.ask hP fun _ _ h _ => h) fun _ => Triple.pure fun _ h => h

/-- A step of the worker. -/
theorem serve_step {f : World → Option (World × α)} {P : Proc → Prop} {Q : α → Proc → Prop}
    (h : ∀ p, P p → ∃ w a, f p.world = some (w, a) ∧ Q a { p with world := w }) :
    Triple (contract params limit settles masks) P (serve (Prog.step f)) Q := by
  intro p ans hp hA
  obtain ⟨w, a, hf, hq⟩ := h p hp
  have hrun : serve (Prog.step f) p ans = .done a { p with world := w } ans := by
    simp [serve, Prog.within, Prog.via, part, Prog.step, hf, Outcome.map]
  rw [hrun]
  exact ⟨hq, hA⟩

theorem serve_modify {f : World → World} {P : Proc → Prop} {Q : Unit → Proc → Prop}
    (h : ∀ p, P p → Q () { p with world := f p.world }) :
    Triple (contract params limit settles masks) P (serve (Prog.modify f)) Q := by
  intro p ans hp hA
  have hrun : serve (Prog.modify f) p ans = .done () { p with world := f p.world } ans := by
    simp [serve, Prog.within, Prog.via, part, Outcome.map]
  rw [hrun]
  exact ⟨h p hp, hA⟩

/-- A new descriptor is in a local variable. -/
theorem Stage.opened (h : Stage params limit g i o fds s l bs p)
    (hroom : (l ++ places s).length ≤ 4) (want : Int) :
    Stage params limit g i o (fds.openFd want .server).1 s ((fds.openFd want .server).2 :: l) bs
      { p with world := bare (fds.openFd want .server).1 s } :=
  { h with
    world := rfl
    owned := h.owned.opened want .server
    room := by
      simp only [List.cons_append, List.length_cons]
      omega
    peak := h.owned.opened_peak trivial h.peak (by omega) want .server }

theorem openNew_triple (hroom : (l ++ places s).length ≤ 4) :
    Triple (contract params limit settles masks) (Stage params limit g i o fds s l bs) openNew
      (fun r p => match r with
        | none => Stage params limit g i o fds s l bs p
        | some fd => ∃ want, fd = (fds.openFd want .server).2 ∧
          Stage params limit g i o (fds.openFd want .server).1 s (fd :: l) bs p) := by
  refine Triple.bind (Triple.ask (fun p h => .stage h) fun _ _ h _ => h) fun x => ?_
  cases x.descriptor with
  | error e => exact Triple.pure fun _ h => h
  | ok want =>
    refine Triple.bind (R := fun fd p => fd = (fds.openFd want .server).2 ∧
      Stage params limit g i o (fds.openFd want .server).1 s (fd :: l) bs p)
      (serve_step fun p h => ?_) fun fd => Triple.pure fun p h => ⟨want, h⟩
    rw [h.world]
    exact ⟨_, _, rfl, rfl, h.opened hroom want⟩

/-- A descriptor in a local variable is closed. -/
theorem closeFd_triple :
    Triple (contract params limit settles masks) (Stage params limit g i o fds s (fd :: l) bs)
      (serve (closeFd fd)) (fun _ p => ∃ fds', Stage params limit g i o fds' s l bs p) := by
  refine serve_step fun p h => ?_
  have hm := h.owned.head_open
  refine ⟨bare (fds.closedFd fd hm) s, (), ?_, fds.closedFd fd hm,
    { h with world := rfl, owned := h.owned.closed, room := ?_ }⟩
  · rw [h.world]
    show (if (bare fds s).loop.interest fd |>.isSome then _ else _) = _
    simp only [bare, Loop.created, Option.isSome_none, Bool.false_eq_true, if_false,
      Heap.closeFd_eq hm, Option.map_some]
  · have := h.room
    simp only [List.cons_append, List.length_cons] at this
    omega

/-- A process whose set-up failed: `lost` descriptors are in no field. -/
def Failing (params : Params) (limit : Rlimit) (settles : Prop) (p : Proc) : Prop :=
  ∃ g i o fds s l, Stage params limit g i o fds s l [] p ∧ (l = [] ∨ ¬ settles ∧ l.length = 1)

theorem Stage.failing (h : Stage params limit g i o fds s [] [] p) :
    Failing params limit settles p :=
  ⟨g, i, o, fds, s, [], h, Or.inl rfl⟩

theorem orClose_triple {next : Program (Option Int)} {Q : Option Int → Proc → Prop}
    (hnext : Triple (contract params limit settles masks)
      (Stage params limit g i o fds s [fd] []) next Q)
    (hfail : ∀ p, Failing params limit settles p → Q none p) :
    Triple (contract params limit settles masks) (Stage params limit g i o fds s [fd] [])
      (orClose fd next) Q := by
  refine Triple.bind (check_triple fun p h => .stage h) fun ok => Triple.ite (fun _ => hnext)
    fun _ => ?_
  refine Triple.bind closeFd_triple fun _ => Triple.pure fun p ⟨fds', h⟩ => hfail p h.failing

/-! ## Opening -/

/-- What comes of opening a descriptor: a failure, or a new one in a local
variable, with the rest of the set-up as told. -/
def Opens (params : Params) (limit : Rlimit) (settles : Prop) (g : Signals) (i : Option UInt32)
    (o : Option (UInt16 × Nat)) (fds : Heap Object) (s : ServerState) (r : Option Int) (p : Proc) :
    Prop :=
  match r with
  | none => Failing params limit settles p
  | some fd => ∃ want, fd = (fds.openFd want .server).2 ∧
    Stage params limit g i o (fds.openFd want .server).1 s [fd] [] p

theorem openNew_opens (hroom : (places s).length ≤ 4) :
    Triple (contract params limit settles masks) (Stage params limit g i o fds s [] []) openNew
      (Opens params limit settles g i o fds s) := by
  refine (openNew_triple hroom).post fun r p h => ?_
  cases r with
  | none => exact Stage.failing h
  | some fd => exact h

theorem openSigfd_triple (hroom : (places s).length ≤ 4) :
    Triple (contract params limit settles masks) (Stage params limit g i o fds s [] []) openSigfd
      (Opens params limit settles { g with blocked := SIGTERM :: g.blocked } i o fds s) := by
  refine Triple.bind (check_triple fun p h => .stage h) fun ok =>
    Triple.ite (fun _ => ?_) fun _ => Triple.pure fun p h => h.failing
  refine Triple.bind (R := fun _ =>
    Stage params limit { g with blocked := SIGTERM :: g.blocked } i o fds s [] [])
    (Triple.modify fun p h => ?_) fun _ => openNew_opens hroom
  obtain ⟨hlimit, hg, hi⟩ := h.facts
  exact { h with facts := ⟨hlimit, by rw [hg], hi⟩ }

theorem openTimerfd_triple (hroom : (places s).length ≤ 4) (interval : UInt32) :
    Triple (contract params limit settles masks) (Stage params limit g i o fds s [] [])
      (openTimerfd interval) (Opens params limit settles g (some interval) o fds s) := by
  refine Triple.bind (openNew_triple hroom) fun r => ?_
  cases r with
  | none => exact Triple.pure fun p h => Stage.failing h
  | some timerfd =>
    refine Triple.exists_pre fun want => Triple.assume fun hfd => ?_
    refine Triple.bind (R := fun x p => (settles → x.settime = none) ∧
      Stage params limit g i o (fds.openFd want .server).1 s [timerfd] [] p)
      (Triple.ask (fun p h => .stage h) fun p x h hx => ⟨hx.2, h⟩) fun x =>
      Triple.assume fun hx => Triple.ite (fun hset => ?_) fun _ => ?_
    · -- nobody closes the timer that could not be set
      refine Triple.pure fun p h => ⟨g, i, o, _, s, [timerfd], h, Or.inr ⟨fun hs => ?_, rfl⟩⟩
      rw [hx hs] at hset
      cases hset
    · refine Triple.bind (R := fun _ =>
        Stage params limit g (some interval) o (fds.openFd want .server).1 s [timerfd] [])
        (Triple.modify fun p h => ?_) fun _ => Triple.pure fun p h => ⟨want, hfd, h⟩
      obtain ⟨hlimit, hg, _, ho⟩ := h.facts
      exact { h with facts := ⟨hlimit, hg, rfl, ho⟩ }

theorem openSocket_triple (hroom : (places s).length ≤ 4) (port : UInt16) :
    Triple (contract params limit settles masks) (Stage params limit g i o fds s [] [])
      (openSocket port) (Opens params limit settles g i (some (port, 256)) fds s) := by
  refine Triple.bind (openNew_triple hroom) fun r => ?_
  cases r with
  | none => exact Triple.pure fun p h => Stage.failing h
  | some sockfd =>
    refine Triple.exists_pre fun want => Triple.assume fun hfd => ?_
    refine orClose_triple (orClose_triple (orClose_triple (orClose_triple ?_ ?_) ?_) ?_) ?_
    · refine Triple.bind (R := fun _ =>
        Stage params limit g i (some (port, 256)) (fds.openFd want .server).1 s [sockfd] [])
        (Triple.modify fun p h => ?_) fun _ => Triple.pure fun p h => ⟨want, hfd, h⟩
      obtain ⟨hlimit, hg, hi, _⟩ := h.facts
      exact { h with facts := ⟨hlimit, hg, hi, rfl⟩ }
    all_goals exact fun p h => h

/-! ## The whole set-up -/

/-- `server->field = …`: the descriptor leaves the local variable for the
field. -/
theorem keep_triple {m : Program (Option Int)} {set : ServerState → Int → ServerState}
    {next : Program Bool} {g' : Signals} {i' : Option UInt32} {o' : Option (UInt16 × Nat)}
    {Q : Bool → Proc → Prop}
    (hm : Triple (contract params limit settles masks) (Stage params limit g i o fds s [] []) m
      (Opens params limit settles g' i' o' fds s))
    (hset : ∀ fd, 0 ≤ fd → (fd :: places s).Perm (places (set s fd)) ∧
      (set s fd).epollfd = s.epollfd ∧ (set s fd).clients = s.clients ∧
      (set s fd).params = s.params)
    (hnext : ∀ want, Triple (contract params limit settles masks)
      (Stage params limit g' i' o' (fds.openFd want .server).1
        (set s (fds.openFd want .server).2) [] []) next Q)
    (hfail : ∀ p, Failing params limit settles p → Q false p) :
    Triple (contract params limit settles masks) (Stage params limit g i o fds s [] [])
      (keep m set next) Q := by
  refine Triple.bind hm fun r => ?_
  cases r with
  | none => exact Triple.pure hfail
  | some fd =>
    refine Triple.exists_pre fun want => Triple.assume fun hfd => ?_
    subst hfd
    refine Triple.bind (R := fun _ => Stage params limit g' i' o' (fds.openFd want .server).1
      (set s (fds.openFd want .server).2) [] []) (serve_modify fun p h => ?_) fun _ => hnext want
    have hge := Heap.openFd_ge fds want .server
    obtain ⟨hperm, hepoll, hclients, hparams⟩ := hset (fds.openFd want .server).2 (by omega)
    obtain ⟨h1, h2, h3⟩ := h.noLoop
    refine { h with
      world := by rw [h.world]; rfl
      owned := h.owned.perm hperm
      room := ?_
      noLoop := ⟨hepoll.trans h1, hclients.trans h2, hparams.trans h3⟩ }
    have := h.room
    rwa [List.cons_append, List.nil_append, hperm.length_eq] at this

theorem alloc_triple (want : Nat) (b : Block) :
    Triple (contract params limit settles masks) (Stage params limit g i o fds s l bs)
      (alloc want b) (fun a p => a ≠ 0 ∧ Stage params limit g i o fds s l (a :: bs) p) :=
  Triple.step fun p h => ⟨_, _, rfl, p.memory.fresh_ne_zero want,
    { h with memory := by rw [Heap.alloc_live, List.cons_append]; exact h.memory.cons _ }⟩

theorem free_triple {a : Nat} :
    Triple (contract params limit settles masks) (Stage params limit g i o fds s l (a :: bs))
      (free a) (fun _ => Stage params limit g i o fds s l bs) := by
  refine Triple.step fun p h => ?_
  have ha : a ∈ p.memory.live := h.memory.mem_iff.mpr (by simp)
  refine ⟨{ p with memory := p.memory.freeLive a ha }, (), by rw [Heap.free_eq ha]; rfl,
    { h with memory := ?_ }⟩
  have := h.memory.erase a
  rwa [List.cons_append, List.erase_cons_head] at this

/-- A process that is about to register its descriptors. -/
structure Begun (params : Params) (limit : Rlimit) (p : Proc) : Prop where
  ready : Ready params limit p
  memory : p.memory.live.Perm [p.events, p.loop, p.server]
  loop : p.loop ≠ 0

/-- The event loop is created: the worker is as before, with the loop and
its descriptor. -/
def Created (size : Int) (params : Params) (limit : Rlimit) (fds : Heap Object) (s : ServerState)
    (p : Proc) : Prop :=
  Begun params limit p ∧ 0 ≤ size ∧ ∃ want, p.world =
    { bare (fds.openFd want .server).1 { s with epollfd := (fds.openFd want .server).2 } with
      loop := .created size }

/-- A worker whose descriptors are all open, and that has just created its
loop. -/
def Opened (params : Params) (w : World) : Prop :=
  ∃ size d g t s e, eventLoopSize params.maxClients = some size ∧ 0 ≤ size ∧
    w = started size params d g t s e

theorem Opened.starts {w : World} (h : Opened params w) : Starts .masks w := by
  obtain ⟨size, d, g, t, s, e, -, -, hw⟩ := h
  exact ⟨size, params, d, g, t, s, e, False.elim, hw⟩

theorem Opened.params_eq {w : World} (h : Opened params w) : w.own.server.params = params := by
  obtain ⟨size, d, g, t, s, e, -, -, rfl⟩ := h
  rfl

theorem createLoop_triple (size : Int) (hroom : (places s).length ≤ 4)
    (hready : ∀ p, Facts params limit g i o p → Ready params limit p) :
    Triple (contract params limit settles masks) (Stage params limit g i o fds s [] [])
      (createLoop size) (fun b p => if b then Created size params limit fds s p
        else Failing params limit settles p) := by
  have hfree : ∀ a, Triple (contract params limit settles masks)
      (Stage params limit g i o fds s [] [a]) (do free a; Pure.pure false)
      (fun b p => if b then Created size params limit fds s p
        else Failing params limit settles p) := fun a =>
    Triple.bind free_triple fun _ => Triple.pure fun p h => h.failing
  refine Triple.bind (Triple.ask (fun p h => .stage h) fun _ _ h _ => h) fun x => ?_
  cases x.memory with
  | none => exact Triple.pure fun p h => h.failing
  | some want =>
    refine Triple.bind (alloc_triple want .loop) fun loop => Triple.assume fun hloop => ?_
    refine Triple.bind (Triple.ask (fun p h => .stage h) fun _ _ h _ => h) fun y => ?_
    cases y.memory with
    | none => exact hfree loop
    | some want =>
      cases hsize : decide (0 ≤ size) with
      | false => exact hfree loop
      | true =>
        refine Triple.bind (alloc_triple want .events) fun events => Triple.assume fun _ => ?_
        refine Triple.bind (openNew_triple hroom) fun r => ?_
        cases r with
        | none => exact Triple.bind free_triple fun _ => hfree loop
        | some epollfd =>
          refine Triple.exists_pre fun want => Triple.assume fun hfd => ?_
          subst hfd
          let w : World :=
            { bare (fds.openFd want .server).1
                { s with epollfd := (fds.openFd want .server).2 } with loop := .created size }
          refine Triple.bind (R := fun _ p => p.memory.live.Perm [events, loop, p.server] ∧
            Ready params limit p ∧
            p.world = { bare (fds.openFd want .server).1 s with loop := .created size })
            (serve_modify fun p h => ⟨h.memory, hready _ h.facts, by rw [h.world]⟩) fun _ => ?_
          refine Triple.bind (R := fun _ p => p.memory.live.Perm [events, loop, p.server] ∧
            Ready params limit p ∧ p.world = w)
            (serve_modify fun p h => ⟨h.1, h.2.1, by rw [h.2.2]; rfl⟩) fun _ => ?_
          refine Triple.bind (R := fun _ => Created size params limit fds s)
            (Triple.modify fun p h => ⟨⟨h.2.1, h.1, hloop⟩, of_decide_eq_true hsize, want, h.2.2⟩)
            fun _ =>
            Triple.pure fun p h => h

theorem held_one {fd : Int} (h : 0 ≤ fd) : held fd = [fd] := if_pos h

theorem held_none : held (-1) = [] := rfl

theorem places_length : (places s).length ≤ 4 := by
  have hheld : ∀ fd, (held fd).length ≤ 1 := fun fd => by
    unfold held
    split <;> simp
  have h0 := hheld s.socket
  have h1 := hheld s.timerfd
  have h2 := hheld s.sigfd
  have h3 := hheld s.directory
  simp only [places, List.length_append]
  omega

/-- **The descriptors of a worker**: they are all open, and the worker is
one that has just created its loop; or what was opened is where it can be
closed. -/
theorem openAll_triple :
    Triple (contract params limit settles masks)
      (Stage params limit ⟨some SIGTERM, [SIGPIPE, SIGCHLD], []⟩ none none Heap.empty
        (.new params) [] [])
      (openAll params)
      (fun b p => if b then Begun params limit p ∧ Opened params p.world
        else Failing params limit settles p) := by
  refine keep_triple (openNew_opens places_length) (fun fd h0 => ⟨?_, rfl, rfl, rfl⟩)
    (fun d => ?_) fun p h => h
  · simp [places, ServerState.new, held_none, held_one h0]
  refine keep_triple (openSigfd_triple places_length) (fun fd h0 => ⟨?_, rfl, rfl, rfl⟩)
    (fun g => ?_) fun p h => h
  · simp [places, ServerState.new, held_none, held_one h0]
  refine keep_triple (openTimerfd_triple places_length _) (fun fd h0 => ⟨?_, rfl, rfl, rfl⟩)
    (fun t => ?_) fun p h => h
  · simp [places, ServerState.new, held_none, held_one h0]
  refine keep_triple (openSocket_triple places_length _) (fun fd h0 => ⟨?_, rfl, rfl, rfl⟩)
    (fun e => ?_) fun p h => h
  · simp [places, ServerState.new, held_none, held_one h0]
  cases hsize : eventLoopSize params.maxClients with
  | none =>
    intro p ans h hA
    exact hsize
  | some size =>
    refine (createLoop_triple size places_length fun p h => h).post fun b p h => ?_
    cases b with
    | false => exact h
    | true =>
      obtain ⟨hbegun, h0, want, hworld⟩ := h
      exact ⟨hbegun, size, d, g, t, e, want, hsize, h0, hworld⟩

/-- A limit that was raised is as high as was asked for, and no lower than
before. -/
theorem increasefdlimit_spec {inc : UInt64} {ans : LimitAnswer} {limit limit' : Rlimit} {r : Int}
    (h : Server.increasefdlimit inc ans limit = (limit', r)) (hr : 0 ≤ r) :
    inc ≤ limit'.rlimCur ∧ limit.rlimCur ≤ limit'.rlimCur := by
  unfold Server.increasefdlimit at h
  split at h
  · cases h
    simp at hr
  · split at h
    · rename_i hlt
      cases h
      exact ⟨UInt64.le_of_lt hlt, UInt64.le_refl _⟩
    · rename_i hle
      split at h
      · cases h
        simp at hr
      · split at h
        · cases h
          simp at hr
        · cases h
          exact ⟨UInt64.le_refl _, UInt64.not_lt.mp hle⟩

/-- A process that has only prepared its signals. -/
def Early (params : Params) (limit : Rlimit) (g : Signals) (p : Proc) : Prop :=
  p = { forked params limit with signals := g }

theorem Early.waits (h : Early params limit g p) : Waits params limit p := by
  subst h
  exact .early rfl

theorem setupsignals_triple :
    Triple (contract params limit settles masks) (Early params limit ⟨none, [], []⟩) setupsignals
      (fun ok p => if ok then Early params limit ⟨some SIGTERM, [SIGPIPE, SIGCHLD], []⟩ p
        else ∃ g, Early params limit g p) := by
  have hset : ∀ (f : Signals → Signals) (g : Signals), Triple (contract params limit settles masks)
      (Early params limit g) (setSignals f) (fun _ => Early params limit (f g)) := fun f g =>
    Triple.modify fun p h => by rw [h]; rfl
  refine Triple.bind (check_triple fun p h => h.waits) fun _ => Triple.ite (fun _ => ?_) fun _ =>
    Triple.pure fun p h => ⟨_, h⟩
  refine Triple.bind (hset _ _) fun _ => ?_
  refine Triple.bind (check_triple fun p h => h.waits) fun _ => Triple.ite (fun _ => ?_) fun _ =>
    Triple.pure fun p h => ⟨_, h⟩
  refine Triple.bind (hset _ _) fun _ => ?_
  refine Triple.bind (check_triple fun p h => h.waits) fun _ => Triple.ite (fun _ => ?_) fun _ =>
    Triple.pure fun p h => ⟨_, h⟩
  exact Triple.bind (hset _ _) fun _ => Triple.pure fun p h => h

/-- A process without its state: nothing is open and nothing allocated. -/
structure Unregistered (params : Params) (p : Proc) : Prop where
  world : p.world = bare Heap.empty (.new params)
  memory : p.memory = Heap.empty
  loop : p.loop = 0

theorem Unregistered.waits (h : Unregistered params p) : Waits params limit p :=
  .early (by rw [h.world]; rfl)

theorem increasefdlimit_triple :
    Triple (contract params limit settles masks) (Early params limit g)
      (increasefdlimit (fdsNeeded params.maxClients))
      (fun ok p => Unregistered params p ∧
        (ok = true → Facts params limit g none none p)) := by
  refine Triple.bind (Triple.ask (fun p h => h.waits) fun _ _ h _ => h) fun x => ?_
  refine Triple.bind Triple.get fun q => ?_
  cases hinc : Server.increasefdlimit (fdsNeeded params.maxClients) x.limits q.limit with
  | mk limit' r =>
    refine Triple.bind (R := fun _ p => Unregistered params p ∧
      (0 ≤ r → Facts params limit g none none p)) (Triple.modify fun p h => ?_) fun _ =>
      Triple.pure fun p h => ⟨h.1, fun hr => h.2 (of_decide_eq_true hr)⟩
    obtain ⟨rfl, rfl⟩ := h
    exact ⟨⟨rfl, rfl, rfl⟩, fun hr => ⟨increasefdlimit_spec hinc hr, rfl, rfl, rfl⟩⟩

/-- **The set-up of a worker process.** -/
theorem prepare_triple :
    Triple (contract params limit settles masks) (Early params limit ⟨none, [], []⟩)
      (prepare params) (fun r p => match r with
        | .unregistered => Unregistered params p
        | .failed => Failing params limit settles p
        | .ready => Begun params limit p ∧ Opened params p.world) := by
  refine Triple.bind setupsignals_triple fun ok => ?_
  cases ok with
  | false =>
    refine Triple.pure fun p h => ?_
    obtain ⟨g, rfl⟩ := h
    exact ⟨rfl, rfl, rfl⟩
  | true =>
    refine Triple.bind increasefdlimit_triple fun ok => ?_
    cases ok with
    | false => exact Triple.pure fun p h => h.1
    | true =>
      refine Triple.bind (Triple.ask (fun p h => h.1.waits) fun _ _ h _ => h) fun x => ?_
      cases x.memory with
      | none => exact Triple.pure fun p h => h.1
      | some want =>
        refine Triple.bind (R := fun server p => p.world = bare Heap.empty (.new params) ∧
          p.memory.live = [server] ∧ p.loop = 0 ∧
          Facts params limit ⟨some SIGTERM, [SIGPIPE, SIGCHLD], []⟩ none none p)
          (Triple.step fun p h => ⟨_, _, rfl, h.1.world, ?_, h.1.loop, h.2 rfl⟩) fun server => ?_
        · rw [Heap.alloc_live, h.1.memory]
          rfl
        refine Triple.bind (Triple.modify fun p h => ?_) fun _ =>
          Triple.bind openAll_triple fun b => ?_
        · obtain ⟨hworld, hmem, hloop, hfacts⟩ := h
          have hnone : places (.new params) = [] := rfl
          refine ⟨hworld, ?_, by simp [hnone], Nat.zero_le _, ⟨rfl, rfl, rfl⟩, by simp [hmem],
            hloop, hfacts⟩
          rw [hnone]
          exact ⟨List.nodup_nil, by simp, by simp [Heap.openFds, Heap.empty]⟩
        · cases b with
          | true => exact Triple.pure fun p h => h
          | false => exact Triple.pure fun p h => h

/-! ## Serving -/

theorem settings_lasting {d : Settings} : Lasting (fun _ => True) (Fixed d True) :=
  Fixed.lasting fun _ _ _ => trivial

/-- A part of the worker, in the process: what is known of it holds, it
changes none of the settings, and the rest of the process stays. -/
theorem serve_triple {d : Settings} {P : World → Prop} {m : Server.Program α}
    {Q : α → World → Prop} {T : Proc → Prop} (h : Triple (runContract .masks) P m Q)
    (hk : Prog.Keeps (fun _ => True) (Beside (Fixed d True)) m) (hd : d.params = params)
    (hT : ∀ p w, T p → T { p with world := w }) (hr : ∀ p, T p → Raised params limit p) :
    Triple (contract params limit settles True)
      (fun p => (P p.world ∧ Fixed d True p.world.own) ∧ T p) (serve m)
      (fun a p => (Q a p.world ∧ Fixed d True p.world.own) ∧ T p) := by
  refine (hk.triple h fun _ _ => trivial).embed (v := part) hT
    (fun y hy => ⟨fun _ => hy.1 trivial, False.elim⟩) (fun p hp hw => ?_)
    fun hf => absurd trivial hf
  exact .run (hr p hp) hw.1 ((congrArg Settings.params hw.2.1).trans hd)

/-- The process while it serves, and its memory. -/
def Keeping (params : Params) (limit : Rlimit) (g : Signals) (i : Option UInt32)
    (o : Option (UInt16 × Nat)) (bs : List Nat) (p : Proc) : Prop :=
  p.memory.live.Perm bs ∧ Facts params limit g i o p

theorem serve_keeping {d : Settings} {P : World → Prop} {m : Server.Program α}
    {Q : α → World → Prop} (h : Triple (runContract .masks) P m Q)
    (hk : Prog.Keeps (fun _ => True) (Beside (Fixed d True)) m) (hd : d.params = params) :
    Triple (contract params limit settles True)
      (fun p => (P p.world ∧ Fixed d True p.world.own) ∧ Keeping params limit g i o bs p) (serve m)
      (fun a p => (Q a p.world ∧ Fixed d True p.world.own) ∧ Keeping params limit g i o bs p) :=
  serve_triple h hk hd (fun _ _ h => h) fun _ h => h.2.1

/-- A process that serves; `ev`, `lp` and `sv` are the addresses of its
memory. -/
structure Serving (params : Params) (limit : Rlimit) (ev lp sv : Nat) (p : Proc) : Prop where
  keeping : Keeping params limit readySignals (some params.timeout) (some (params.port, 256))
    [ev, lp, sv] p
  events : p.events = ev
  loop : p.loop = lp
  server : p.server = sv
  created : lp ≠ 0

theorem enterLoop_triple {d : Settings} {ev lp sv : Nat} (hd : d.params = params) :
    Triple (contract params limit settles True)
      (fun p => (Starts .masks p.world ∧ Fixed d True p.world.own) ∧
        Serving params limit ev lp sv p)
      enterLoop
      (fun _ p => ((Resting .masks p.world ∧ p.world.loop.pending = []) ∧
        Fixed d True p.world.own) ∧ Serving params limit ev lp sv p) := by
  have hT : ∀ p w, Serving params limit ev lp sv p →
      Serving params limit ev lp sv { p with world := w } :=
    fun p w h => ⟨h.keeping, h.events, h.loop, h.server, h.created⟩
  have hR : ∀ p, Serving params limit ev lp sv p → Raised params limit p :=
    fun p h => h.keeping.2.1
  refine Triple.bind (serve_triple ((register_rest .masks).weaken rfl (fun _ => Or.inl) id)
    register_lasts hd hT hR) fun _ => ?_
  refine Triple.bind (serve_triple
    ((worker_enterInv .masks).sepollEnter_triple.weaken rfl (fun _ => Or.inl) id)
    (sepollEnter_lasts settings_lasting) hd hT hR) fun _ => Triple.pure fun p h => ?_
  obtain ⟨⟨⟨hrest, hpending, -⟩, hfixed⟩, hserving⟩ := h
  exact ⟨⟨⟨hrest, hpending⟩, hfixed⟩, hserving⟩

/-! ## Cleaning up -/

/-- Memory that nothing else has is freed. -/
theorem freeKept_triple {R : World → Prop} {a : Nat} :
    Triple (contract params limit settles True)
      (fun p => R p.world ∧ Keeping params limit g i o (a :: bs) p) (free a)
      (fun _ p => R p.world ∧ Keeping params limit g i o bs p) := by
  refine Triple.step fun p h => ?_
  have ha : a ∈ p.memory.live := h.2.1.mem_iff.mpr (by simp)
  refine ⟨{ p with memory := p.memory.freeLive a ha }, (), by rw [Heap.free_eq ha]; rfl, h.1, ?_,
    h.2.2⟩
  have := h.2.1.erase a
  rwa [List.erase_cons_head] at this

/-- What `sepoll_destroy` leaves of a worker at rest: the records of its
loop are gone, and everything else is still to be closed. -/
theorem sepollDestroy_triple :
    Triple (runContract .masks)
      (fun w => (Resting .masks w ∧ w.loop.pending = []) ∧ w.own.server = s) sepollDestroy
      (fun _ w => s.clients.length ≤ s.params.maxClients.toNat ∧
        Cleaning .masks s [s.epollfd, s.socket, s.timerfd, s.sigfd, s.directory] s.clients
          s.clients w) := by
  refine onLoop_triple fun w ⟨⟨⟨x, hx, h⟩, hp⟩, hs⟩ => ?_
  subst hs
  obtain ⟨l, hrun, hrecords, hinterest⟩ := h.parts.wf.destroy_spec hp
  have hroom : w.own.server.clients.length ≤ w.own.server.params.maxClients.toNat := by
    have := h.parts.room
    rwa [h.holding] at this
  have howned := h.parts.owned
  rw [h.holding] at howned
  refine ⟨l, (), by rw [hrun]; rfl, hroom, rfl, ?_, h.clients_perm, fun a c hc =>
    (h.parts.kinds a c (by simp) hc).2, ?_, fun fd => congrFun hinterest fd, hrecords,
    fun _ => h.parts.budget (Context.strict_of_masks hx)⟩
  · rw [← hx]
    refine howned.perm ?_
    have hothers : (w.own.others none).Perm
        (w.own.server.clients.flatMap w.own.clientPlaces) := by
      rw [Worker.others_all]
      exact h.clients_perm.flatMap_right _
    simp only [Holding.places, List.append_nil]
    refine List.Perm.append ?_ hothers
    rw [List.perm_iff_count]
    intro b
    simp only [ServerState.places, List.count_cons, List.count_nil]
    omega
  · rw [← hx]
    exact h.parts.logs

/-- The worker is being cleaned up, and its settings are known. -/
def Closing (d : Settings) (s : ServerState) (P : List Int) (rest : List Nat) (w : World) : Prop :=
  Cleaning .masks s P rest rest w ∧ Fixed d True w.own

variable {d : Settings} {lost P : List Int}

theorem closeIf_triple (hd : d.params = params) :
    Triple (contract params limit settles True)
      (fun p => Closing d s (held fd ++ P) [] p.world ∧ Keeping params limit g i o bs p)
      (serve (Prog.when (0 ≤ fd) (closeFd fd)))
      (fun _ p => Closing d s P [] p.world ∧ Keeping params limit g i o bs p) :=
  serve_keeping Cleaning.closeIf_triple (closeIf_lasts settings_lasting) hd

/-- The clients, then the descriptors in the fields, then the state. -/
theorem closeFields_triple (hd : d.params = params) {sv : Nat}
    (hclients : Triple (runContract .masks)
      (Cleaning .masks s (places s ++ lost) s.clients s.clients) (cleanupClients s.clients)
      (fun _ => Cleaning .masks s (places s ++ lost) [] [])) :
    Triple (contract params limit settles True)
      (fun p => Closing d s (places s ++ lost) s.clients p.world ∧
        Keeping params limit g i o [sv] p)
      (do
        serve (cleanupClients s.clients)
        serve (Prog.when (0 ≤ s.socket) (closeFd s.socket))
        serve (Prog.when (0 ≤ s.timerfd) (closeFd s.timerfd))
        serve (Prog.when (0 ≤ s.sigfd) (closeFd s.sigfd))
        serve (Prog.when (0 ≤ s.directory) (closeFd s.directory))
        free sv)
      (fun _ p => Closing d s lost [] p.world ∧ Keeping params limit g i o [] p) := by
  have hlasts := cleanupClients_lasts (settings_lasting (d := d)) s.clients
  refine Triple.bind (serve_keeping hclients hlasts hd) fun _ => ?_
  simp only [places, List.append_assoc]
  refine Triple.bind (closeIf_triple hd) fun _ => ?_
  refine Triple.bind (closeIf_triple hd) fun _ => ?_
  refine Triple.bind (closeIf_triple hd) fun _ => ?_
  refine Triple.bind (closeIf_triple hd) fun _ => ?_
  exact freeKept_triple

/-- A process that gave back what it had, but for the descriptors of
`lost`, and that never had more of them than its clients need. -/
structure Released (params : Params) (lost : List Int) (p : Proc) : Prop where
  records : p.world.loop.heap.live = []
  clients : p.world.own.mem.live = []
  memory : p.memory.live = []
  descriptors : p.world.own.fds.openFds.Perm lost
  budget : 3 + p.world.own.fds.peak ≤ fdsOf params.maxClients

theorem Closing.released (h : Closing d s lost [] p.world) (hs : s.params = params)
    (hk : Keeping params limit g i o [] p) : Released params lost p where
  records := h.1.records
  clients := h.1.live.eq_nil
  memory := hk.1.eq_nil
  descriptors := by
    have howned := h.1.owned
    rw [List.flatMap_nil, List.append_nil] at howned
    exact Owned.perm_openFds howned
  budget := hs ▸ h.1.budget trivial

/-- **`server_cleanup`** of a process whose set-up failed. -/
theorem cleanupStage_triple :
    Triple (contract params limit settles True) (Stage params limit g i o fds s l []) serverCleanup
      (fun _ p => Released params l p ∧ Raised params limit p) := by
  refine Triple.bind (R := fun q p => q = p ∧ Stage params limit g i o fds s l [] p)
    (Triple.get.post fun q p h => ⟨h.2, h.1⟩) fun q => ?_
  rintro p ans ⟨hq, h⟩ hA
  subst hq
  obtain ⟨hepoll, hclients, hparams⟩ := h.noLoop
  have hs : q.world.own.server = s := by rw [h.world]; rfl
  have hwhen : (Prog.when (q.loop ≠ 0) destroyLoop : Program Unit) = Pure.pure () := by
    rw [Prog.when, if_neg (not_not_intro h.loop)]
    rfl
  dsimp only
  rw [hs, hwhen]
  have hclose : Triple (contract params limit settles True)
      (fun p => Closing s.settings s (places s ++ l) s.clients p.world ∧
        Keeping params limit g i o [q.server] p) _
      (fun _ p => Closing s.settings s l [] p.world ∧ Keeping params limit g i o [] p) :=
    closeFields_triple hparams (by rw [hclients]; exact Triple.pure fun _ h => h)
  refine (hclose.post fun _ p hp => ⟨Closing.released hp.1 hparams hp.2, hp.2.2.1⟩) q ans
    ⟨⟨?_, ?_⟩, h.memory, h.facts⟩ hA
  · rw [h.world, hclients]
    refine ⟨rfl, ?_, List.Perm.nil, ?_, fun _ => .nil, fun _ => rfl, rfl, fun _ => ?_⟩
    · rw [List.flatMap_nil, List.append_nil]
      exact h.owned.perm List.perm_append_comm
    · intro a c hc
      cases hc
    · exact hparams ▸ h.budget
  · rw [h.world]
    exact ⟨rfl, fun _ => trivial⟩

theorem held_subset (fd : Int) : held fd ⊆ [fd] := by
  unfold held
  split <;> simp

theorem places_subset : places s ⊆ s.places := by
  intro fd hm
  simp only [places, List.mem_append] at hm
  simp only [ServerState.places, List.mem_cons, List.not_mem_nil, or_false]
  have hone : ∀ {x : Int}, fd ∈ held x → fd = x := fun h => by simpa using held_subset _ h
  rcases hm with h | h | h | h <;> simp [hone h]

/-- The fields of a worker that served all hold a descriptor. -/
theorem Closing.full (h : Closing d s [s.socket, s.timerfd, s.sigfd, s.directory] s.clients
    p.world) : Closing d s (places s ++ []) s.clients p.world := by
  have hopen : ∀ fd ∈ [s.socket, s.timerfd, s.sigfd, s.directory], held fd = [fd] := fun fd hm => by
    have hm' := h.1.owned.isOpen fd (List.mem_append_left _ hm)
    have := (Heap.mem_openFds.mp hm').1
    exact held_one (by omega)
  have hplaces : places s = [s.socket, s.timerfd, s.sigfd, s.directory] := by
    rw [places, hopen s.socket (by simp), hopen s.timerfd (by simp), hopen s.sigfd (by simp),
      hopen s.directory (by simp)]
    rfl
  rw [hplaces, List.append_nil]
  exact h

/-- `sepoll_destroy`, in the process. -/
theorem destroyLoop_triple {ev lp sv : Nat} (hd : d.params = params) {q : Proc}
    (hev : q.events = ev) (hlp : q.loop = lp) (hs : q.world.own.server = s) :
    Triple (contract params limit settles True)
      (fun p => p = q ∧ (((Resting .masks p.world ∧ p.world.loop.pending = []) ∧
        p.world.own.server = s) ∧ Fixed d True p.world.own) ∧
        Keeping params limit g i o [ev, lp, sv] p)
      destroyLoop
      (fun _ p => s.clients.length ≤ s.params.maxClients.toNat ∧
        Closing d s [s.socket, s.timerfd, s.sigfd, s.directory] s.clients p.world ∧
        Keeping params limit g i o [sv] p) := by
  refine Triple.bind_eq (v := q) (R := fun p => (((Resting .masks p.world ∧
    p.world.loop.pending = []) ∧ p.world.own.server = s) ∧ Fixed d True p.world.own) ∧
    Keeping params limit g i o [ev, lp, sv] p)
    (Triple.get.post fun r p h => ⟨h.2.trans h.1.1, h.1.2⟩) ?_
  rw [hs, hev, hlp]
  refine Triple.bind (serve_keeping sepollDestroy_triple (sepollDestroy_keeps) hd) fun _ => ?_
  refine Triple.bind (R := fun _ p => s.clients.length ≤ s.params.maxClients.toNat ∧
    Closing d s [s.socket, s.timerfd, s.sigfd, s.directory] s.clients p.world ∧
    Keeping params limit g i o [ev, lp, sv] p) ?_ fun _ => ?_
  · intro p ans h hA
    have hclose : Triple (contract params limit settles True)
        (fun p => Closing d s [s.epollfd, s.socket, s.timerfd, s.sigfd, s.directory] s.clients
          p.world ∧ Keeping params limit g i o [ev, lp, sv] p) (serve (closeFd s.epollfd))
        (fun _ p => Closing d s [s.socket, s.timerfd, s.sigfd, s.directory] s.clients p.world ∧
          Keeping params limit g i o [ev, lp, sv] p) :=
      serve_keeping Cleaning.closeFd_triple (closeFd_lasts settings_lasting) hd
    exact (hclose.post fun _ p hp => ⟨h.1.1.1, hp⟩) p ans ⟨⟨h.1.1.2, h.1.2⟩, h.2⟩ hA
  refine Triple.assume fun hroom => ?_
  exact Triple.bind freeKept_triple fun _ => freeKept_triple.post fun _ p h => ⟨hroom, h⟩

/-- **`server_cleanup`** of a process that served. -/
theorem cleanupServed_triple {ev lp sv : Nat} (hd : d.params = params) :
    Triple (contract params limit settles True)
      (fun p => ((Resting .masks p.world ∧ p.world.loop.pending = []) ∧
        Fixed d True p.world.own) ∧ Serving params limit ev lp sv p)
      serverCleanup
      (fun _ p => Released params [] p ∧ Ready params limit p) := by
  refine Triple.bind (R := fun q p => q = p ∧ ((Resting .masks p.world ∧
    p.world.loop.pending = []) ∧ Fixed d True p.world.own) ∧ Serving params limit ev lp sv p)
    (Triple.get.post fun q p h => ⟨h.2, h.1⟩) fun q => ?_
  rintro p ans ⟨hq, hrest, hserving⟩ hA
  subst hq
  have hwhen : (Prog.when (q.loop ≠ 0) destroyLoop : Program Unit) = destroyLoop := by
    rw [Prog.when, if_pos (hserving.loop ▸ hserving.created)]
  dsimp only
  rw [hwhen, hserving.server]
  refine Triple.bind (R := fun _ p => q.world.own.server.clients.length ≤
      q.world.own.server.params.maxClients.toNat ∧
      Closing d q.world.own.server [q.world.own.server.socket, q.world.own.server.timerfd,
        q.world.own.server.sigfd, q.world.own.server.directory] q.world.own.server.clients p.world ∧
      Keeping params limit readySignals (some params.timeout) (some (params.port, 256)) [sv] p)
    (destroyLoop_triple hd hserving.events hserving.loop rfl)
      (fun _ => Triple.assume fun hroom => ?_) q ans
      ⟨rfl, ⟨⟨hrest.1, rfl⟩, hrest.2⟩, hserving.keeping⟩ hA
  have hclose : Triple (contract params limit settles True)
      (fun p => Closing d q.world.own.server (places q.world.own.server ++ [])
        q.world.own.server.clients p.world ∧ Keeping params limit readySignals
          (some params.timeout) (some (params.port, 256)) [sv] p) _
      (fun _ p => Closing d q.world.own.server [] [] p.world ∧ Keeping params limit readySignals
        (some params.timeout) (some (params.port, 256)) [] p) :=
    closeFields_triple hd
      (cleanupClients_triple (by rw [List.append_nil]; exact places_subset) _ hroom)
  exact (hclose.pre fun p h => ⟨h.1.full, h.2⟩).post fun _ p h =>
    ⟨Closing.released h.1 ((congrArg Settings.params hrest.2.1).trans hd) h.2, h.2.2⟩

/-! ## From the first call to the exit -/

/-- What a process leaves behind: at most a timer that could not be set;
it opens nothing before its limit is raised, and it succeeds only if it
was set up. -/
structure Exited (params : Params) (limit : Rlimit) (settles : Prop) (code : ExitCode) (p : Proc) :
    Prop where
  released : ∃ lost, Released params lost p ∧
    (lost = [] ∨ code = .failure ∧ ¬ settles ∧ lost.length = 1)
  raised : p.world.own.fds.peak ≠ 0 → Raised params limit p
  ready : code = .success → Ready params limit p

/-- **The run of a worker process.** -/
theorem process_triple :
    Triple (contract params limit settles True) (Early params limit ⟨none, [], []⟩)
      (serverProcess params) (Exited params limit settles) := by
  refine Triple.bind prepare_triple fun r => ?_
  cases r with
  | unregistered =>
    refine Triple.pure fun p h => ⟨⟨[], ?_, Or.inl rfl⟩, fun hpeak => absurd ?_ hpeak, nofun⟩
    · have hworld := h.world
      have hmem := h.memory
      refine ⟨by rw [hworld]; rfl, by rw [hworld]; rfl, by rw [hmem]; rfl, by rw [hworld]; rfl, ?_⟩
      rw [hworld]
      exact Nat.le_add_right_of_le (Nat.le_add_right 3 6)
    · rw [h.world]
      rfl
  | failed =>
    refine Triple.bind (R := fun _ p => Exited params limit settles .failure p) ?_ fun _ =>
      Triple.pure fun p h => h
    rintro p ans ⟨g, i, o, fds, s, l, h, hl⟩ hA
    refine (cleanupStage_triple.post fun _ p hp => ⟨⟨l, hp.1, ?_⟩, fun _ => hp.2, nofun⟩) p ans h hA
    exact hl.imp_right fun hl => ⟨rfl, hl⟩
  | ready =>
    refine Triple.ghost (fun p => (p.events, p.loop, p.server, p.world.own.server.settings))
      fun ⟨ev, lp, sv, d⟩ => ?_
    refine Triple.bind (R := fun _ p => d.params = params ∧ ((Resting .masks p.world ∧
      p.world.loop.pending = []) ∧ Fixed d True p.world.own) ∧ Serving params limit ev lp sv p) ?_
      fun _ => Triple.assume fun hd => Triple.bind (cleanupServed_triple hd) fun _ =>
        Triple.pure fun p h => ⟨⟨[], h.1, Or.inl rfl⟩, fun _ => h.2.1, fun _ => h.2⟩
    rintro p ans ⟨⟨hbegun, hopened⟩, hghost⟩ hA
    simp only [Prod.mk.injEq] at hghost
    obtain ⟨rfl, rfl, rfl, rfl⟩ := hghost
    have hparams := hopened.params_eq
    exact ((enterLoop_triple hparams).post fun _ p h => ⟨hparams, h⟩) p ans
      ⟨⟨hopened.starts, rfl, fun _ => trivial⟩, ⟨hbegun.memory, hbegun.ready⟩, rfl, rfl, rfl,
        hbegun.loop⟩ hA

variable {ans : List ProcAnswer}

/-- No change of a mask is refused. -/
def MasksChange (ans : List ProcAnswer) : Prop := ∀ y ∈ ans, y.serve.loop.ctlMod = none

/-- What was allocated in a heap was freed, each record once. -/
def AllFreed {β : Type} (h : Heap β) : Prop := h.freed.Perm (List.range h.allocated)

/-- **A worker gives everything back**, whichever of its calls fails but
for the changes of a mask. From its first call to its exit it frees no
memory twice and closes no descriptor it does not own; when it exits all its memory was freed, and
every descriptor was closed once, but for a timer that could not be set.
It exits with success only if its limit was raised, its signals were set
up, its timer was set and it listened on its port. The only run that
faults is the one in which the size of the event loop overflows. -/
theorem process_released (params : Params) (limit : Rlimit) (hmod : MasksChange ans) :
    (serverProcess params (forked params limit) ans ≠ .fault ∨
      eventLoopSize params.maxClients = none) ∧
    ∀ code p rest, serverProcess params (forked params limit) ans = .done code p rest →
      AllFreed p.world.loop.heap ∧ AllFreed p.world.own.mem ∧ AllFreed p.memory ∧
      (AllFreed p.world.own.fds ∨
        code = .failure ∧ p.world.own.fds.openFds.length = 1 ∧ ∃ y ∈ ans, y.settime ≠ none) ∧
      (code = .success → Ready params limit p) := by
  have htriple : Triple (contract params limit (∀ y ∈ ans, y.settime = none) True) _ _ _ :=
    process_triple
  have hA : ∀ y ∈ ans, (contract params limit (∀ y ∈ ans, y.settime = none) True).answers y :=
    fun y hy => ⟨fun _ => hmod y hy, fun h => h y hy⟩
  refine ⟨?_, fun code p rest hrun => ?_⟩
  · by_cases hsize : eventLoopSize params.maxClients = none
    · exact Or.inr hsize
    · exact Or.inl (htriple.not_fault rfl hA hsize)
  · obtain ⟨⟨lost, hreleased, hlost⟩, -, hready⟩ := (htriple.done rfl hA hrun).1
    refine ⟨Heap.freed_perm_of_live_nil hreleased.records,
      Heap.freed_perm_of_live_nil hreleased.clients,
      Heap.freed_perm_of_live_nil hreleased.memory, ?_, hready⟩
    rcases hlost with rfl | ⟨hcode, hset, hlength⟩
    · have hopen : p.world.own.fds.live = [] :=
        List.map_eq_nil_iff.mp hreleased.descriptors.eq_nil
      exact Or.inl (Heap.freed_perm_of_live_nil hopen)
    · refine Or.inr ⟨hcode, hreleased.descriptors.length_eq.trans hlength, ?_⟩
      by_contra hno
      exact hset fun y hy => by
        by_contra hy'
        exact hno ⟨y, hy, hy'⟩

/-- The limit the processes below are forked under. -/
def smallLimit : Rlimit := ⟨1024, 4096⟩

/-- A call of the set-up that succeeds. -/
def granted : ProcAnswer := { serve := again }

/-- The descriptor of the event loop is refused, after everything else was
opened. -/
def noLoop : List ProcAnswer := List.replicate 17 granted ++
  [{ granted with descriptor := .error .ENOMEM }]

/-- The timer cannot be set. -/
def noTimer : List ProcAnswer := List.replicate 9 granted ++
  [{ granted with settime := some .EINVAL }]

/-- Four descriptors are opened and closed; and where the timer cannot be
set, one of the three is left. -/
theorem process_released_refused :
    (∀ code p rest, serverProcess smallParams (forked smallParams smallLimit) noLoop
        = .done code p rest →
      AllFreed p.world.own.fds ∨
        code = .failure ∧ p.world.own.fds.openFds.length = 1 ∧ ∃ y ∈ noLoop, y.settime ≠ none) ∧
    ((serverProcess smallParams (forked smallParams smallLimit) noLoop).Returns fun code p =>
      code = .failure ∧ p.world.own.fds.allocated = 4 ∧ p.world.own.fds.live = []) ∧
    ((serverProcess smallParams (forked smallParams smallLimit) noTimer).Returns fun code p =>
      code = .failure ∧ p.world.own.fds.allocated = 3 ∧ p.world.own.fds.live.length = 1) := by
  refine ⟨fun code p rest hrun => ?_, by decide +kernel, by decide +kernel⟩
  have hmod : MasksChange noLoop := by unfold MasksChange; decide
  exact ((process_released smallParams smallLimit hmod).2 code p rest hrun).2.2.2.1

/-! ## The limit -/

/-- As soon as a descriptor was opened, the most that ever were open at
once, the standard ones included, is within the limit. -/
def Within (p : Proc) : Prop :=
  p.world.own.fds.peak ≠ 0 → 3 + p.world.own.fds.peak ≤ p.limit.rlimCur.toNat

/-- A limit that was raised suffices, where the number asked for is the
one that is needed, or the limit was high enough before. -/
theorem Raised.suffices (h : Raised params limit p)
    (hcap : fdsOf params.maxClients < 2 ^ 32 ∨ fdsOf params.maxClients ≤ limit.rlimCur.toNat) :
    fdsOf params.maxClients ≤ p.limit.rlimCur.toNat := by
  obtain ⟨h1, h2⟩ := h
  rw [UInt64.le_iff_toNat_le] at h1 h2
  rw [fdsNeeded_toNat] at h1
  rcases hcap with hcap | hcap
  · rwa [Nat.mod_eq_of_lt hcap] at h1
  · omega

theorem RunWaits.budget {w : World} (h : RunWaits .masks w) :
    3 + w.own.fds.peak ≤ fdsOf w.own.server.params.maxClients := by
  rcases h with h | ⟨s, P, rest, hP, -, h⟩
  · exact h.descriptorsKept.budget
  · exact (h.descriptorsKept hP).budget

theorem Waits.within (h : Waits params limit p)
    (hcap : fdsOf params.maxClients < 2 ^ 32 ∨ fdsOf params.maxClients ≤ limit.rlimCur.toNat) :
    Within p := by
  intro hpeak
  cases h with
  | early h => exact absurd h hpeak
  | @stage _ _ _ fds _ _ _ h =>
    have hfds : p.world.own.fds = fds := by rw [h.world]; rfl
    rw [hfds]
    exact (h.budget).trans (h.facts.1.suffices hcap)
  | run h hr hp =>
    have hbudget := RunWaits.budget hr
    rw [hp] at hbudget
    exact hbudget.trans (h.suffices hcap)

/-- **A worker stays within its descriptor limit**, from its first call to
its exit: at no moment has it more descriptors open than the limit it
raised allows. The number it asks for must not wrap around, unless the
limit was high enough already. -/
theorem process_within_limit (params : Params) (limit : Rlimit) (hmod : MasksChange ans)
    (hcap : fdsOf params.maxClients < 2 ^ 32 ∨ fdsOf params.maxClients ≤ limit.rlimCur.toNat) :
    (serverProcess params (forked params limit) ans).Always Within := by
  have htriple : Triple (contract params limit False True) _ _ _ := process_triple
  have hrun := htriple _ ans rfl fun y hy => ⟨fun _ => hmod y hy, False.elim⟩
  refine hrun.always (fun p h => h.within hcap) fun code p h hpeak => ?_
  obtain ⟨lost, hreleased, -⟩ := h.released
  exact hreleased.budget.trans ((h.raised hpeak).suffices hcap)

/-- Two clients need few enough descriptors. -/
theorem process_within_limit_refused :
    (serverProcess smallParams (forked smallParams smallLimit) noTimer).Always Within ∧
      ((serverProcess smallParams (forked smallParams smallLimit) noTimer).Returns fun _ p =>
        p.world.own.fds.live.length = 1) :=
  ⟨process_within_limit smallParams smallLimit (by unfold MasksChange; decide)
    (Or.inl (by decide)), by decide +kernel⟩

end Proc

end Sgopher.Server
