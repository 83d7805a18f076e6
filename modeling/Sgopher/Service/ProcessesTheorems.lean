/-
Sgopher.Service.ProcessesTheorems — what holds of the server as a whole,
in every order in which its processes run.

The supervisor takes a worker to be gone only when it is
(`exits_are_real`), so when the supervisor has ended by itself no worker
is left behind that it did not kill (`no_worker_left`). And a worker that
nobody else sends a SIGTERM to stops by itself only after the supervisor
read one, or has ended (`workers_stop_together`).

Each theorem is a contract of one process, met because the other processes
got to where they are: that a process has ended stays true, and behind
each answer lies the configuration in which it was given.

No `sorry`, no `axiom`, no `native_decide`.
-/
import Sgopher.Main.AwaitTheorems
import Sgopher.Main.ExitTheorems
import Sgopher.Server.ToldTheorems
import Sgopher.Service.Processes

namespace Sgopher.Service

open Sgopher.Lib Sgopher.Lib.System Sgopher.Sepoll

variable {n : UInt32} {params : Server.Params} {limit : Server.Rlimit} {outside : Nat → Prop}
  {c : Config n params limit} {i : Nat}

/-! ## The server of a command line -/

/-- What the server reports of its arguments starts the same server. -/
theorem started_reported (args : Main.Args) {options : List (Main.ArgKey × Bytes)}
    (hp : options.Perm args.report) (limit : Server.Rlimit) :
    started options limit = service args.numWorkers args.params limit := by
  have hparse : Main.argpParse options = args :=
    Main.argpParseOptions_restores.run_eq hp .default
  rw [started, hparse]

/-! ## The supervisor's view of its workers -/

/-- An exit that the supervisor handled, wherever it is. -/
theorem Allowed.handled (h : Reachable (Allowed outside) c) :
    (c.outcome .supervisor).Always fun w => ∀ i, .handled i ∈ w.own.log →
      c.Ended (.worker i) := by
  refine Main.main_handled n fun zs y ys he => ?_
  obtain ⟨c₁, w, -, hsteps, rfl, hw, ha⟩ := Steps.given (i := Party.supervisor) h rfl zs y ys he
  refine ⟨w, hw.1, fun evs fd bits hev hm => ?_⟩
  cases ha with
  | supervisor _ hreports =>
    obtain ⟨o, ho, hended⟩ := hreports w hw evs fd bits hev hm
    exact ⟨o, ho, fun i hi => hsteps.ended (hended i hi)⟩

theorem At.of_always {i : Party} {R Q : (service n params limit).State i → Prop} (hc : c.At i Q)
    (h : (c.outcome i).Always R) : ∃ s, R s ∧ Q s := by
  obtain ⟨s, hq, hs | ⟨a, rest, hs⟩⟩ := hc
  · exact ⟨s, h.stopped s hs, hq⟩
  · exact ⟨s, h.done a s rest hs, hq⟩

/-- **An exit that is handled is a real one**: wherever the server gets to,
a worker whose exit the supervisor has handled has ended. -/
theorem exits_are_real (h : Reachable (Allowed outside) c) (hi : c.Did (.handled i)) :
    c.Ended (.worker i) := by
  obtain ⟨w, hw, hmem⟩ := At.of_always hi (Allowed.handled h)
  exact hw i hmem

/-! ### A small run -/

theorem Steps.supervisor (ys : List Main.Answer)
    (hstops : ∀ k < ys.length,
      (Main.main n Main.started (c.supervisorGiven ++ ys.take k)).Stops fun _ => True)
    (hk : ¬ c.killed .supervisor) (hquiet : ∀ y ∈ ys, y.loop.wait = .ready []) :
    Steps (Allowed outside) c (c.feed .supervisor ys) := by
  refine Steps.feed (i := Party.supervisor) c ys fun (zs : List Main.Answer) (y : Main.Answer)
    (rest : List Main.Answer) (he : ys = zs ++ y :: rest) => ?_
  obtain ⟨w, hw, -⟩ := (hstops zs.length (by simp [he])).state
  have hgiven : (c.feed .supervisor zs).given .supervisor
      = c.supervisorGiven ++ ys.take zs.length := by
    rw [he, List.take_left]
    exact feed_given_self (i := Party.supervisor) c zs
  refine ⟨w, ⟨(congrArg (Main.main n Main.started) hgiven).trans hw, hk⟩, .supervisor y
    fun w hw evs fd bits hev hm => ?_⟩
  rw [hquiet y (by simp [he])] at hev
  obtain rfl := WaitAnswer.ready.inj hev
  cases hm

theorem Did.worker {e : Main.Event} (h : c.Did e) (i : Nat) (zs : List Server.ProcAnswer) :
    Config.Did (n := n) (c.feed (.worker i) zs) e :=
  At.feed_ne (i := Party.worker i) h (by simp) zs

theorem Steps.worker (ys : List Server.ProcAnswer)
    (hstops : ∀ k < ys.length, (Server.Proc.serverProcess params (.forked params limit)
      (c.workerGiven i ++ ys.take k)).Stops fun _ => True)
    (hk : ¬ c.killed (.worker i)) (hforked : c.Did (.forked i))
    (hterm : (∃ y ∈ ys, y.serve.signal = .ok Server.SIGTERM) → c.Did (.signal i Main.SIGTERM)) :
    Steps (Allowed outside) c (c.feed (.worker i) ys) := by
  refine Steps.feed (i := Party.worker i) c ys fun (zs : List Server.ProcAnswer)
    (y : Server.ProcAnswer) (rest : List Server.ProcAnswer) (he : ys = zs ++ y :: rest) => ?_
  obtain ⟨p, hp, -⟩ := (hstops zs.length (by simp [he])).state
  have hgiven : (c.feed (.worker i) zs).given (.worker i)
      = c.workerGiven i ++ ys.take zs.length := by
    rw [he, List.take_left]
    exact feed_given_self (i := Party.worker i) c zs
  refine ⟨p, ⟨(congrArg (Server.Proc.serverProcess params (.forked params limit)) hgiven).trans hp,
    hk⟩, .worker i y (Did.worker hforked i zs) fun hy => ?_⟩
  exact Or.inl (Or.inl (Did.worker (hterm ⟨y, by simp [he], hy⟩) i zs))

/-- The workers that somebody else sends a SIGTERM to in the runs below. -/
def nobody : Nat → Prop := fun _ => False

/-- The one worker of a server is forked, and the supervisor waits. -/
theorem spawnedOne_run :
    (∀ k < Main.spawnedOne.length,
      (Main.main 1 Main.started (Main.spawnedOne.take k)).Stops fun _ => True) ∧
    (Main.main 1 Main.started Main.spawnedOne).Stops fun w => .forked 0 ∈ w.own.log ∧
      w.own.fds.object 3 = some (.worker 0) ∧ w.own.fds.object 4 = some .signals := by
  decide +kernel

def forkedOne : Config 1 Server.smallParams Server.Proc.smallLimit :=
  (System.Config.initial _).feed .supervisor Main.spawnedOne

theorem forkedOne_reachable : Reachable (Allowed nobody) forkedOne :=
  Steps.supervisor Main.spawnedOne spawnedOne_run.1 id (by simp [Main.spawnedOne, Main.succeeds])

theorem forkedOne_did : forkedOne.Did (.forked 0) := by
  obtain ⟨w, hw, hmem, -⟩ := spawnedOne_run.2.state
  exact ⟨w, hmem, Or.inl hw⟩

/-- The supervisor of that server is told that a descriptor is ready, which
may be said of what it watches through it. -/
theorem forkedOne_told {fd : Int} {o : Main.Object} (c : Config 1 Server.smallParams
    Server.Proc.smallLimit) (hgiven : c.supervisorGiven = Main.spawnedOne)
    (hk : ¬ c.killed .supervisor) (hobject : ∀ w, Main.main 1 Main.started Main.spawnedOne
      = .stopped w → w.own.fds.object fd = some o)
    (hended : ∀ i, o = .worker i → c.Ended (.worker i)) :
    Step (Allowed nobody) c (c.answer .supervisor
      { Main.succeeds with loop := { wait := .ready [(fd, EPOLLIN)] } }) := by
  obtain ⟨w, hw, -⟩ := spawnedOne_run.2.state
  have hstopped : c.outcome .supervisor = .stopped w :=
    (congrArg (Main.main 1 Main.started) hgiven).trans hw
  refine .answer (i := Party.supervisor) _ ⟨hstopped, hk⟩
    (.supervisor _ fun w' hw' evs fd' bits hev hm => ?_)
  obtain rfl := WaitAnswer.ready.inj hev
  obtain ⟨rfl, -⟩ := Prod.mk.inj (List.mem_singleton.mp hm)
  obtain rfl := Outcome.stopped.inj (hstopped.symm.trans hw'.1)
  exact ⟨o, hobject _ hw, hended⟩

/-- The worker's first call fails. -/
def refused : List Server.ProcAnswer := [{ Server.Proc.granted with status := some .EINVAL }]

theorem refused_run :
    (∀ k < refused.length, (Server.Proc.serverProcess Server.smallParams
      (.forked Server.smallParams Server.Proc.smallLimit) (refused.take k)).Stops fun _ => True) ∧
    (Server.Proc.serverProcess Server.smallParams
      (.forked Server.smallParams Server.Proc.smallLimit) refused).Returns fun _ _ => True := by
  decide +kernel

def refusedOne : Config 1 Server.smallParams Server.Proc.smallLimit :=
  forkedOne.feed (.worker 0) refused

theorem refusedOne_reachable : Reachable (Allowed nobody) refusedOne :=
  forkedOne_reachable.trans <| Steps.worker refused refused_run.1 id forkedOne_did (by
    rintro ⟨y, hy, hterm⟩
    obtain rfl := List.mem_singleton.mp hy
    cases hterm)

theorem refusedOne_ended : refusedOne.Ended (.worker 0) := by
  obtain ⟨code, p, rest, hrun, -⟩ := refused_run.2.state
  rintro p' ⟨hstop, -⟩
  cases hrun.symm.trans hstop

/-- The supervisor is told, and handles the exit. -/
def reapedOne : Config 1 Server.smallParams Server.Proc.smallLimit :=
  (refusedOne.answer .supervisor
    { Main.succeeds with loop := { wait := .ready [(3, EPOLLIN)] } }).feed .supervisor
      [Main.succeeds]

theorem reapedOne_run :
    (∀ k < [Main.succeeds].length, (Main.main 1 Main.started (Main.spawnedOne ++
      [{ Main.succeeds with loop := { wait := .ready [(3, EPOLLIN)] } }] ++
        [Main.succeeds].take k)).Stops fun _ => True) ∧
    (Main.main 1 Main.started reapedOne.supervisorGiven).Returns fun code w =>
      code = .success ∧ .forked 0 ∈ w.own.log ∧ .handled 0 ∈ w.own.log := by decide +kernel

theorem reapedOne_reachable : Reachable (Allowed nobody) reapedOne := by
  obtain ⟨w, hw, -, hobject, -⟩ := spawnedOne_run.2.state
  have htold := forkedOne_told (o := .worker 0) refusedOne rfl id (fun w' hw' =>
    Outcome.stopped.inj (hw.symm.trans hw') ▸ hobject)
    fun i hi => Main.Object.worker.inj hi ▸ refusedOne_ended
  exact (refusedOne_reachable.tail htold).trans
    (Steps.supervisor [Main.succeeds] reapedOne_run.1 id (by simp [Main.succeeds]))

/-- The worker that failed is found to have ended. -/
theorem exits_are_real_reaped : reapedOne.Ended (.worker 0) := by
  obtain ⟨code, w, rest, hrun, -, -, hhandled⟩ := reapedOne_run.2.state
  exact exits_are_real reapedOne_reachable ⟨w, hhandled, Or.inr ⟨code, rest, hrun⟩⟩

/-- **No worker is left behind.** When the supervisor has returned from
`main`, each worker it forked has ended, or it was sent a SIGKILL; this
happens only if the supervisor failed. On success it takes that no wait of
the supervisor failed and that its event loop had room for an event. -/
theorem no_worker_left (h : Reachable (Allowed outside) c) {code : Main.ExitStatus} {w : Main.World}
    {rest : List Main.Answer} (hdone : c.outcome .supervisor = .done code w rest) :
    (code = .failure → ∀ i, .forked i ∈ w.own.log →
      c.Ended (.worker i) ∨ .signal i Main.SIGKILL ∈ w.own.log) ∧
    (code = .success → Main.loopSize n ≠ some 0 → Main.WaitsSucceed c.supervisorGiven →
      ∀ i, .forked i ∈ w.own.log → c.Ended (.worker i)) := by
  have hhandled : ∀ i, w.own.log.count (.handled i) ≠ 0 → c.Ended (.worker i) := fun i hi =>
    (Allowed.handled h).done code w rest hdone i (List.count_pos_iff.mp (Nat.pos_of_ne_zero hi))
  obtain ⟨hfailed, -, hsucceeded⟩ := Main.main_accounts hdone
  constructor
  · intro hcode i hi
    have haccount := hfailed hcode i
    have hforked := List.count_pos_iff.mpr hi
    by_cases hnone : w.own.log.count (.handled i) = 0
    · exact Or.inr (List.count_pos_iff.mp (by omega))
    · exact Or.inl (hhandled i hnone)
  · intro hcode hroom hwaits i hi
    have haccount := hsucceeded hcode hroom hwaits i
    have hforked := List.count_pos_iff.mpr hi
    exact hhandled i (by omega)

/-- The supervisor that forked one worker succeeds, and leaves none. -/
theorem no_worker_left_reaped : ∃ w rest, reapedOne.outcome .supervisor = .done .success w rest ∧
    .forked 0 ∈ w.own.log ∧ ∀ i, .forked i ∈ w.own.log → reapedOne.Ended (.worker i) := by
  obtain ⟨code, w, rest, hrun, rfl, hforked, -⟩ := reapedOne_run.2.state
  refine ⟨w, rest, hrun, hforked, (no_worker_left reapedOne_reachable hrun).2 rfl (by decide) ?_⟩
  have hgiven : reapedOne.supervisorGiven = Main.spawnedOne ++
      [{ Main.succeeds with loop := { wait := .ready [(3, EPOLLIN)] } }, Main.succeeds] := rfl
  rw [hgiven]
  simp [Main.WaitsSucceed, Main.spawnedOne, Main.succeeds, LoopAnswers.answer]

/-! ## The exits that are to come -/

/-- The supervisor has entered its event loop. -/
def Config.InLoop (c : Config n params limit) : Prop :=
  (Main.launched n Main.started c.supervisorGiven).Returns fun ready _ => ready = true

/-- **No exit is missed.** Where no registration failed: once the
supervisor has entered its event loop, a worker that has ended was handled,
or the kernel may report it, and what it reports is the event that makes
the supervisor handle this worker. So the supervisor does not wait forever
while a worker it has not handled has ended. -/
theorem exits_are_awaited (hgrants : ∀ y ∈ c.supervisorGiven, Main.Grants y) (hin : c.InLoop)
    {w : Main.World} (hw : c.Waits .supervisor w) (hforked : .forked i ∈ w.own.log)
    (hended : c.Ended (.worker i)) :
    .handled i ∈ w.own.log ∨ ∃ fd, Main.Awaits w.loop fd i ∧
      w.loop.ready [(fd, EPOLLIN)] [] ≠ [] ∧
      ∀ y : Main.Answer, y.loop.wait = .ready [(fd, EPOLLIN)] →
        Allowed outside c (.answer .supervisor y) := by
  by_cases hhandled : .handled i ∈ w.own.log
  · exact Or.inl hhandled
  obtain ⟨fd, hobject, hawaits⟩ := Main.main_awaits hgrants hin hw.1 hforked hhandled
  obtain ⟨p, hready⟩ := hawaits.ready
  refine Or.inr ⟨fd, hawaits, by simp [hready], fun y hy => .supervisor y fun w' hw' evs fd' bits
    hev hm => ?_⟩
  obtain rfl := WaitAnswer.ready.inj (hy.symm.trans hev)
  obtain ⟨rfl, -⟩ := Prod.mk.inj (List.mem_singleton.mp hm)
  obtain rfl := Outcome.stopped.inj (hw.1.symm.trans hw'.1)
  exact ⟨_, hobject, fun j hj => Main.Object.worker.inj hj ▸ hended⟩

/-- The supervisor of one worker, where no registration fails. -/
def grantedOne : List Main.Answer :=
  Main.spawnedOne.map fun y => { y with loop := { y.loop with malloc := some 1 } }

theorem grantedOne_run :
    ((Main.main 1 Main.started grantedOne).Stops fun w =>
      .forked 0 ∈ w.own.log ∧ .handled 0 ∉ w.own.log) ∧
    (Main.launched 1 Main.started grantedOne).Returns fun ready _ => ready = true := by
  decide +kernel

/-- It waits for the exit of a worker that has failed. -/
theorem exits_are_awaited_refused : ∃ (w : Main.World) (fd : Int),
    (Main.main 1 Main.started grantedOne) = .stopped w ∧ Main.Awaits w.loop fd 0 ∧
      w.loop.ready [(fd, EPOLLIN)] [] ≠ [] := by
  obtain ⟨w, hw, hforked, hhandled⟩ := grantedOne_run.1.state
  obtain ⟨code, p, rest, hrun, -⟩ := refused_run.2.state
  let c : Config 1 Server.smallParams Server.Proc.smallLimit :=
    ((System.Config.initial _).feed .supervisor grantedOne).feed (.worker 0) refused
  have hended : c.Ended (.worker 0) := fun p' hp => by cases hrun.symm.trans hp.1
  have hgrants : ∀ y ∈ c.supervisorGiven, Main.Grants y := fun y hy => by
    obtain ⟨x, hx, rfl⟩ := List.mem_map.mp (show y ∈ grantedOne from hy)
    have hrest : x.loop.tsearch = true ∧ x.loop.ctlAdd = none := by
      revert x
      simp [Main.spawnedOne, Main.succeeds]
    exact ⟨Option.some_ne_none 1, hrest⟩
  have hawaited : .handled 0 ∈ w.own.log ∨ ∃ fd, Main.Awaits w.loop fd 0 ∧
      w.loop.ready [(fd, EPOLLIN)] [] ≠ [] ∧
      ∀ y : Main.Answer, y.loop.wait = .ready [(fd, EPOLLIN)] →
        Allowed nobody c (.answer .supervisor y) :=
    exits_are_awaited hgrants grantedOne_run.2 ⟨hw, id⟩ hforked hended
  obtain hdone | ⟨fd, hawaits, hready, -⟩ := hawaited
  · exact absurd hdone hhandled
  · exact ⟨w, fd, hw, hawaits, hready⟩

/-! ## A worker's view of the supervisor -/

/-- Before that, the supervisor had read a SIGTERM, or had ended. -/
def Stopping (outside : Nat → Prop) (c : Config n params limit) : Prop :=
  ∃ c₁ : Config n params limit, Reachable (Allowed outside) c₁ ∧ Steps (Allowed outside) c₁ c ∧
    (c₁.Did .term ∨ c₁.Ended .supervisor)

/-- A worker reads a SIGTERM only when the server is stopping, or when
somebody else sends it one. -/
theorem Allowed.stopping (h : Reachable (Allowed outside) c) :
    ∀ y ∈ c.workerGiven i, y.serve.signal = .ok Server.SIGTERM →
      Stopping outside c ∨ outside i := by
  intro y hy hterm
  obtain ⟨zs, ys, he⟩ := List.append_of_mem hy
  obtain ⟨c₁, p, h₁, hsteps, -, -, ha⟩ := Steps.given (i := Party.worker i) h rfl zs y ys he
  cases ha with
  | worker _ _ _ hsignalled =>
    refine (hsignalled hterm).imp_left fun hsignal => ⟨c₁, h₁, hsteps, ?_⟩
    refine hsignal.imp (fun hsent => ?_) And.left
    -- the supervisor passes on what it has read
    obtain ⟨w, hw, hstate⟩ := hsent
    have hfirst := Main.main_termFirst n (c₁.given .supervisor)
    refine ⟨w, ?_, hstate⟩
    rcases hstate with hs | ⟨a, rest, hs⟩
    · exact hfirst.stopped w hs i hw
    · exact hfirst.done a w rest hs i hw

/-- **The workers stop together with the supervisor.** Wherever the server
gets to, a worker that nobody else sends a SIGTERM to has noted that it was
told to stop only if before that the supervisor had read one or had ended.
And so it is with a worker that has exited with success, if none of its
waits failed and its event loop had room for an event. -/
theorem workers_stop_together (h : Reachable (Allowed outside) c) (i : Nat) :
    ((c.At (.worker i) fun p => p.world.own.terminated = true) →
      Stopping outside c ∨ outside i) ∧
    ∀ p rest, c.outcome (.worker i) = .done Server.ExitCode.success p rest →
      (∀ y ∈ c.workerGiven i, ∀ e, y.serve.loop.wait ≠ .error e) →
      Server.eventLoopSize params.maxClients ≠ some 0 → Stopping outside c ∨ outside i := by
  constructor
  · intro htold
    have huntold : Server.Proc.KeepsWorker (fun y => y.serve.signal = .ok Server.SIGTERM →
        Stopping outside c ∨ outside i) (Server.Proc.Untold (Stopping outside c ∨ outside i))
        (Server.Proc.serverProcess params) :=
      Server.Proc.serverProcess_lifelong (Server.Proc.Untold.lifelong fun _ hy => hy)
    have hstart : Server.Proc.Untold (Stopping outside c ∨ outside i)
        (Server.Proc.forked params limit).world.own := nofun
    obtain ⟨p, hp, hflag⟩ := At.of_always htold (huntold.always hstart (Allowed.stopping h))
    exact hp hflag
  · intro p rest hdone hwaits hroom
    have htold : Triple (.keeping (fun y => (y.serve.signal = .ok Server.SIGTERM →
          Stopping outside c ∨ outside i) ∧ ∀ e, y.serve.loop.wait ≠ .error e) fun _ => True)
        (fun p => Server.Proc.Early params limit ⟨none, [], []⟩ p ∧
          Server.Proc.Untold (Stopping outside c ∨ outside i) p.world.own)
        (Server.Proc.serverProcess params) _ :=
      Server.Proc.serverProcess_told (fun y hy => hy.1) (fun y hy => hy.2) hroom
    exact (htold.done ⟨rfl, nofun⟩ (fun y hy => ⟨Allowed.stopping h y hy, hwaits y hy⟩) hdone).1 rfl

/-- A SIGTERM is read, and passed on to the one worker. -/
def passedOne : List Main.Answer :=
  [{ Main.succeeds with read := .ok 15 }, Main.succeeds, Main.succeeds]

def termOne : Config 1 Server.smallParams Server.Proc.smallLimit :=
  (forkedOne.answer .supervisor
    { Main.succeeds with loop := { wait := .ready [(4, EPOLLIN)] } }).feed .supervisor passedOne

theorem termOne_run :
    (∀ k < passedOne.length, (Main.main 1 Main.started (Main.spawnedOne ++
      [{ Main.succeeds with loop := { wait := .ready [(4, EPOLLIN)] } }] ++
        passedOne.take k)).Stops fun _ => True) ∧
    (Main.main 1 Main.started termOne.supervisorGiven).Stops fun w =>
      .forked 0 ∈ w.own.log ∧ .signal 0 Main.SIGTERM ∈ w.own.log := by decide +kernel

theorem termOne_reachable : Reachable (Allowed nobody) termOne := by
  obtain ⟨w, hw, -, -, hobject⟩ := spawnedOne_run.2.state
  have htold := forkedOne_told (o := .signals) forkedOne rfl id (fun w' hw' =>
    Outcome.stopped.inj (hw.symm.trans hw') ▸ hobject) nofun
  exact (forkedOne_reachable.tail htold).trans
    (Steps.supervisor passedOne termOne_run.1 id (by simp [passedOne, Main.succeeds]))

theorem termOne_did : termOne.Did (.forked 0) ∧ termOne.Did (.signal 0 Main.SIGTERM) := by
  obtain ⟨w, hw, hforked, hsignal⟩ := termOne_run.2.state
  exact ⟨⟨w, hforked, Or.inl hw⟩, w, hsignal, Or.inl hw⟩

/-- The worker sets itself up, and reads the SIGTERM in its event loop. -/
def served : List Server.ProcAnswer :=
  let opened fd := { Server.Proc.granted with descriptor := .ok fd }
  List.replicate 5 Server.Proc.granted ++
    [opened 3, Server.Proc.granted, opened 4, opened 5, Server.Proc.granted, opened 6] ++
    List.replicate 6 Server.Proc.granted ++ opened 7 ::
    Main.terminatedOne.map fun y => { Server.Proc.granted with serve := y }

theorem served_run :
    (∀ k < served.length, (Server.Proc.serverProcess Server.smallParams
      (.forked Server.smallParams Server.Proc.smallLimit) (served.take k)).Stops fun _ => True) ∧
    (Server.Proc.serverProcess Server.smallParams
      (.forked Server.smallParams Server.Proc.smallLimit) served).Returns fun code p =>
        code = .success ∧ p.world.own.terminated = true := by decide +kernel

/-- The worker that read it stops, and by then the supervisor had read
it. -/
theorem workers_stop_together_served :
    ((Server.Proc.serverProcess Server.smallParams
      (.forked Server.smallParams Server.Proc.smallLimit) served).Returns fun code p =>
        code = .success ∧ p.world.own.terminated = true) ∧
    Stopping nobody (termOne.feed (.worker 0) served) := by
  refine ⟨served_run.2, ?_⟩
  obtain ⟨code, p, rest, hrun, -, hflag⟩ := served_run.2.state
  have hreachable : Reachable (Allowed nobody) (termOne.feed (.worker 0) served) :=
    termOne_reachable.trans (Steps.worker served served_run.1 id termOne_did.1
      fun _ => termOne_did.2)
  exact ((workers_stop_together hreachable 0).1 ⟨p, hflag, Or.inr ⟨code, rest, hrun⟩⟩).resolve_right
    id

end Sgopher.Service
