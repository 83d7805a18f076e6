/-
Sgopher.Server.Traced — the worker, with an account of what it learns and
does about its programs.

Nothing in a worker's state says that a program's descriptor was reported
or that it was sent a signal: the one is a call of `client_pidfd`, the
other an answer that is not kept. The programs here are those of
`Sgopher.Server.Client` and `Sgopher.Server.Process` where that happens,
and write it down (`emit`); every other part is taken over as it is
(`quietly`). `serverProcess_erases` says that the worker is the same as
without the account.

No `sorry`, no `axiom`, no `native_decide`.
-/
import Sgopher.Sepoll.GhostTheorems
import Sgopher.Server.Process

namespace Sgopher.Server

open Sgopher.Lib Sgopher.Sepoll

/-! ## The account -/

/-- What is written down, with the number of the client's connection:
`server_timer` comes to the client, and learns from the kernel how long
its connection was idle; its program is sent `SIGKILL`, by
`pidfd_kill_client` or by `server_cleanup`, which may fail; and the end of
its program is reported. -/
inductive Event where
  | visited (m : Nat)
  | tcpInfo (m : Nat) (info : Except Errno UInt32)
  | killed (m : Nat) (error : Option Errno)
  | cleaned (m : Nat) (error : Option Errno)
  | ended (m : Nat)
  deriving DecidableEq

/-- A worker with its account. -/
structure Traced where
  worker : Worker
  trace : List Event

namespace Traced

abbrev World := Sepoll.World Handler Arg Traced

abbrev Program (α : Type) := Prog Answer World α

/-- The worker is what the calls see. -/
def part : Part World Server.World :=
  Sepoll.World.part ⟨Traced.worker, fun t worker => { t with worker := worker }, fun _ _ => rfl⟩

/-- A part that writes nothing down. -/
def quietly {α : Type} (m : Server.Program α) : Program α := Prog.within part m

/-- Write down something about the client at `a`. -/
def emit (a : Nat) (e : Nat → Event) : Program Unit :=
  Prog.modify fun w =>
    match w.own.worker.mem.cell a with
    | none => w
    | some c => { w with own := { w.own with
        trace := w.own.trace ++ [e (w.own.worker.fds.serialOf c.socket)] } }

/-! ## The client -/

/-- `pidfd_kill_client`. -/
def pidfdKillClient (a : Nat) : Program Unit := do
  let c ← quietly (getClient a)
  let _ ← quietly (useFd c.pidfd)
  let x ← quietly systemCall
  emit a (.killed · x.kill)
  Prog.when (x.kill.isSome) (quietly (clientDisconnect a))

/-- `client_pidfd`. -/
def clientPidfd (a : Nat) : Program Unit := do
  emit a .ended
  quietly (Server.clientPidfd a)

/-- The branch for EPOLLERR and EPOLLHUP. -/
def clientError (a : Nat) : Program Unit := do
  let c ← quietly (getClient a)
  if 0 ≤ c.pidfd then pidfdKillClient a else quietly (clientDisconnect a)

/-- `client_socket`. -/
def clientSocket (events : UInt32) (a : Nat) : Program Unit := do
  let more ← quietly (if hasEvent events EPOLLIN then clientReadable a else pure true)
  if more then do
    let more ← quietly (if hasEvent events EPOLLOUT then clientWritable a else pure true)
    if more then
      Prog.when (hasEvent events EPOLLERR ∨ hasEvent events EPOLLHUP) (clientError a)
    else pure ()
  else pure ()

/-! ## The timer -/

/-- What the timer does with one client. -/
def timerClient (now : Int) (a : Nat) : Program Unit := do
  let s ← quietly getServer
  let c ← quietly (getClient a)
  emit a .visited
  Prog.when ((s.params.timeout.toNat : Int) ≤ now - c.timestamp) do
    if 0 ≤ c.pidfd then do
      let _ ← quietly (useFd c.socket)
      let x ← quietly systemCall
      emit a (.tcpInfo · x.tcpInfo)
      match x.tcpInfo with
      | .error _ => pidfdKillClient a
      | .ok lastDataSent =>
        Prog.when (s.params.timeout * 1000 ≤ lastDataSent) (pidfdKillClient a)
    else do
      quietly (Prog.when (c.sentsize = 0) (sendMenu c.socket .timeout))
      quietly (clientDisconnect a)

/-- The walk over the clients, from the one at hand. -/
def timerWalk (now : Int) : Nat → Option Nat → Program Unit
  | _, none => pure ()
  | 0, some _ => quietly fault
  | fuel + 1, some a => do
    let next ← quietly (listNext a)
    timerClient now a
    timerWalk now fuel next

/-- `server_timer`. -/
def serverTimer : Program Unit := do
  let s ← quietly getServer
  let _ ← quietly (useFd s.timerfd)
  let _ ← quietly systemCall
  let x ← quietly systemCall
  let s ← quietly getServer
  timerWalk x.time s.clients.length s.clients.head?

/-! ## The process -/

/-- What each registered function stands for. -/
def handle : Handler → UInt32 → Arg → Arg → Program Unit
  | .clientSocket, events, _, .client a => clientSocket events a
  | .clientPidfd, _, _, .client a => clientPidfd a
  | .serverTimer, _, _, _ => serverTimer
  | h, events, u1, u2 => quietly (Server.handle h events u1 u2)

/-- `server_cleanup` for one client. -/
def cleanupClient (a : Nat) : Program Unit := do
  let c ← quietly (getClient a)
  Prog.when (0 ≤ c.pidfd) do
    let _ ← quietly (useFd c.pidfd)
    let x ← quietly systemCall
    emit a (.cleaned · x.kill)
    quietly (closeFd c.pidfd)
  quietly (Prog.when (0 ≤ c.file) (closeFd c.file))
  quietly (Prog.when (0 ≤ c.dirfd) (closeFd c.dirfd))
  quietly (closeFd c.socket)
  quietly (Prog.step fun w =>
    (w.own.mem.free a).map fun mem => ({ w with own := { w.own with mem := mem } }, ()))

/-- The walk of `server_cleanup`. -/
def cleanupClients : List Nat → Program Unit
  | [] => pure ()
  | a :: rest => do
    cleanupClient a
    cleanupClients rest

/-- `server_cleanup`. -/
def serverCleanup : Program Unit := do
  let s ← quietly getServer
  quietly sepollDestroy
  quietly (closeFd s.epollfd)
  cleanupClients s.clients
  quietly (Prog.when (0 ≤ s.socket) (closeFd s.socket))
  quietly (Prog.when (0 ≤ s.timerfd) (closeFd s.timerfd))
  quietly (Prog.when (0 ≤ s.sigfd) (closeFd s.sigfd))
  quietly (Prog.when (0 ≤ s.directory) (closeFd s.directory))

/-- `server_process`. -/
def serverProcess : Program Unit := do
  quietly register
  let _ ← sepollEnter handle (-1) none
  serverCleanup

/-! ## The worker is the same -/

theorem emit_noted (a : Nat) (e : Nat → Event) (w : World) :
    part.get (match w.own.worker.mem.cell a with
      | none => w
      | some c => { w with own := { w.own with
          trace := w.own.trace ++ [e (w.own.worker.fds.serialOf c.socket)] } }) = part.get w := by
  cases w.own.worker.mem.cell a <;> rfl

variable {α : Type} {a : Nat}

theorem quietly_erases (m : Server.Program α) : Prog.Erases part (quietly m) m :=
  Prog.Erases.within m

/-- Writing down is not noticed. -/
theorem emit_erases {e : Nat → Event} {m : Program α} {m' : Server.Program α}
    (h : Prog.Erases part m m') :
    Prog.Erases part
      (do
        emit a e
        m) m' :=
  Prog.Erases.noting (emit_noted a e) h

theorem pidfdKillClient_erases : Prog.Erases part (pidfdKillClient a) (Server.pidfdKillClient a) :=
  Prog.Erases.bind (quietly_erases _) fun _ => Prog.Erases.bind (quietly_erases _) fun _ =>
    Prog.Erases.bind (quietly_erases _) fun _ => emit_erases (Prog.Erases.when (quietly_erases _))

theorem clientError_erases : Prog.Erases part (clientError a) (Server.clientError a) :=
  Prog.Erases.bind (quietly_erases _) fun _ =>
    Prog.Erases.ite pidfdKillClient_erases (quietly_erases _)

theorem clientSocket_erases {events : UInt32} :
    Prog.Erases part (clientSocket events a) (Server.clientSocket events a) :=
  Prog.Erases.bind (quietly_erases _) fun _ => Prog.Erases.ite
    (Prog.Erases.bind (quietly_erases _) fun _ => Prog.Erases.ite
      (Prog.Erases.when clientError_erases) (Prog.Erases.pure ()))
    (Prog.Erases.pure ())

theorem timerClient_erases {now : Int} :
    Prog.Erases part (timerClient now a) (Server.timerClient now a) := by
  refine Prog.Erases.bind (quietly_erases _) fun _ => Prog.Erases.bind (quietly_erases _) fun _ =>
    emit_erases (Prog.Erases.when (Prog.Erases.ite ?_ ?_))
  · refine Prog.Erases.bind (quietly_erases _) fun _ => Prog.Erases.bind (quietly_erases _) fun x =>
      emit_erases ?_
    cases x.tcpInfo with
    | error _ => exact pidfdKillClient_erases
    | ok _ => exact Prog.Erases.when pidfdKillClient_erases
  · exact Prog.Erases.bind (quietly_erases _) fun _ => quietly_erases _

theorem timerWalk_erases (now : Int) : ∀ (fuel : Nat) (cur : Option Nat),
    Prog.Erases part (timerWalk now fuel cur) (Server.timerWalk now fuel cur)
  | fuel, none => by
    cases fuel <;> exact Prog.Erases.pure ()
  | 0, some _ => quietly_erases _
  | fuel + 1, some _ => Prog.Erases.bind (quietly_erases _) fun next =>
    Prog.Erases.bind timerClient_erases fun _ => timerWalk_erases now fuel next

theorem serverTimer_erases : Prog.Erases part serverTimer Server.serverTimer :=
  Prog.Erases.bind (quietly_erases _) fun _ => Prog.Erases.bind (quietly_erases _) fun _ =>
    Prog.Erases.bind (quietly_erases _) fun _ => Prog.Erases.bind (quietly_erases _) fun _ =>
      Prog.Erases.bind (quietly_erases _) fun _ => timerWalk_erases _ _ _

theorem handle_erases (h : Handler) (events : UInt32) (u1 u2 : Arg) :
    Prog.Erases part (handle h events u1 u2) (Server.handle h events u1 u2) := by
  unfold handle
  split
  · exact clientSocket_erases
  · exact emit_erases (quietly_erases _)
  · exact serverTimer_erases
  · exact quietly_erases _

theorem cleanupClient_erases : Prog.Erases part (cleanupClient a) (Server.cleanupClient a) := by
  refine Prog.Erases.bind (quietly_erases _) fun _ => Prog.Erases.bind ?_ fun _ =>
    Prog.Erases.bind (quietly_erases _) fun _ => Prog.Erases.bind (quietly_erases _) fun _ =>
      Prog.Erases.bind (quietly_erases _) fun _ => quietly_erases _
  exact Prog.Erases.when (Prog.Erases.bind (quietly_erases _) fun _ =>
    Prog.Erases.bind (quietly_erases _) fun _ => emit_erases (quietly_erases _))

theorem cleanupClients_erases : ∀ as : List Nat,
    Prog.Erases part (cleanupClients as) (Server.cleanupClients as)
  | [] => Prog.Erases.pure ()
  | _ :: rest => Prog.Erases.bind cleanupClient_erases fun _ => cleanupClients_erases rest

theorem serverCleanup_erases : Prog.Erases part serverCleanup Server.serverCleanup :=
  Prog.Erases.bind (quietly_erases _) fun _ => Prog.Erases.bind (quietly_erases _) fun _ =>
    Prog.Erases.bind (quietly_erases _) fun _ => Prog.Erases.bind (cleanupClients_erases _) fun _ =>
      Prog.Erases.bind (quietly_erases _) fun _ => Prog.Erases.bind (quietly_erases _) fun _ =>
        Prog.Erases.bind (quietly_erases _) fun _ => quietly_erases _

/-- **The account changes nothing.** -/
theorem serverProcess_erases : Prog.Erases part serverProcess Server.serverProcess :=
  Prog.Erases.bind (quietly_erases _) fun _ =>
    Prog.Erases.bind (sepollEnter_erases handle_erases) fun _ => serverCleanup_erases

end Traced

end Sgopher.Server
