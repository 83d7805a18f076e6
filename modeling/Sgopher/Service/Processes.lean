/-
Sgopher.Service.Processes — the supervisor and its workers, side by side.

The server is one supervisor (`Sgopher.Main.Supervisor`) and the workers it
forks (`Sgopher.Server.Setup`), processes that share nothing but what the
kernel does for them: a worker exists once it was forked; the supervisor's
descriptor for it becomes ready when it has ended; it reads a SIGTERM that
the supervisor sent to it, that the kernel sends to it because its parent
has ended, or that comes from somebody else; and any process can be killed
at any moment. `Allowed` says that much of the environment, for a given
choice of the workers that somebody else sends a SIGTERM to. Everything
else about the answers is left open, and so is the order in which the
processes run.

What a process has from the one that forked it are its descriptors. `main`
puts `/dev/null` in place of its standard input and output and then forks;
a worker closes the descriptors of the workers forked before it, opens its
own and serves; and the child it forks for an executable file puts the
client's socket in place of standard output before `execve`. Which numbers
all of these get is up to the table the server was started with, and
nothing is assumed of it: any of the first three may be closed. Only what
succeeds is followed there, up to `execve`: where a call fails that the
process exits for there is no program. While it serves a worker opens and
closes descriptors as `FdTable.Uses` says, everything with the flag for
close-on-exec. `FdTable.openNew` is told the flags of each call.
-/
import Sgopher.Lib.FdTable
import Sgopher.Lib.System
import Sgopher.Main.WakeTheorems
import Sgopher.Server.Setup

namespace Sgopher.Service

open Sgopher.Lib

/-! ## The system -/

/-- The processes; a worker has the number the supervisor forked it
under. -/
inductive Party where
  | supervisor
  | worker (i : Nat)
  deriving DecidableEq, Repr

/-- The processes of a server with `n` workers, each of which has the
parameters `params` and inherits the limit `limit`. -/
def service (n : UInt32) (params : Server.Params) (limit : Server.Rlimit) : System Party where
  Answer
    | .supervisor => Main.Answer
    | .worker _ => Server.ProcAnswer
  State
    | .supervisor => Main.World
    | .worker _ => Server.Proc
  Result
    | .supervisor => Main.ExitStatus
    | .worker _ => Server.ExitCode
  program
    | .supervisor => Main.main n
    | .worker _ => Server.Proc.serverProcess params
  start
    | .supervisor => Main.started
    | .worker _ => Server.Proc.forked params limit

/-- The server that a command line starts. -/
def started (options : List (Main.ArgKey × Bytes)) (limit : Server.Rlimit) : System Party :=
  let args := Main.argpParse options
  service args.numWorkers args.params limit

variable {n : UInt32} {params : Server.Params} {limit : Server.Rlimit}

/-- A configuration of the server. -/
abbrev Config (n : UInt32) (params : Server.Params) (limit : Server.Rlimit) : Type :=
  (service n params limit).Config

/-- What the supervisor was answered. -/
def Config.supervisorGiven (c : Config n params limit) : List Main.Answer := c.given .supervisor

/-- What a worker was answered. -/
def Config.workerGiven (c : Config n params limit) (i : Nat) : List Server.ProcAnswer :=
  c.given (.worker i)

/-- The supervisor has done that. -/
def Config.Did (c : Config n params limit) (e : Main.Event) : Prop :=
  c.At .supervisor fun w => e ∈ w.own.log

/-- A SIGTERM can be pending for a worker: the supervisor sent it, or the
supervisor has ended and the worker had asked to be told. -/
def Config.Signalled (c : Config n params limit) (i : Nat) : Prop :=
  c.Did (.signal i Main.SIGTERM) ∨
    c.Ended .supervisor ∧ c.At (.worker i) fun p => p.signals.parentDeath = some Server.SIGTERM

/-- What the environment may do, where `outside` are the workers that
somebody else sends a SIGTERM to. -/
inductive Allowed (outside : Nat → Prop) (c : Config n params limit) :
    (service n params limit).Move → Prop
  | supervisor (y : Main.Answer)
      (h : ∀ w, c.Waits .supervisor w → Main.Reports (fun i => c.Ended (.worker i)) w y) :
      Allowed outside c (.answer .supervisor y)
  | worker (i : Nat) (y : Server.ProcAnswer) (hforked : c.Did (.forked i))
      (hterm : y.serve.signal = .ok Server.SIGTERM → c.Signalled i ∨ outside i) :
      Allowed outside c (.answer (.worker i) y)
  | killSupervisor : Allowed outside c (.kill .supervisor)
  | killWorker (i : Nat) (hforked : c.Did (.forked i)) : Allowed outside c (.kill (.worker i))

/-! ## Descriptors -/

/-- What a descriptor refers to: what the server was started with at a
number, `/dev/null`, a worker's process, one of the five descriptors a
worker sets up, what it opened since, by its serial number, or the
directory that a CGI child opens. -/
inductive Ref where
  | started (fd : Nat)
  | devnull
  | worker (i : Nat)
  | setting
  | served (serial : Nat) (o : Server.Object)
  | containing
  deriving DecidableEq, Repr

abbrev Fds : Type := FdTable Ref

def STDIN_FILENO : Nat := 0

def STDOUT_FILENO : Nat := 1

/-! ## Redirecting and forking -/

/-- What the three calls answer. -/
structure Redirection where
  devnull : Option Errno := none
  stdin : Option Errno := none
  stdout : Option Errno := none

/-- `main`, "Where we're going we only need stderr"; `none` where it
exits. -/
def redirect (x : Redirection) (t : Fds) : Option Fds :=
  if x.devnull.isSome then none
  else
    let (t, devnull) := t.openNew .devnull false
    if x.stdin.isSome then none
    else
      let t := t.dup2 devnull STDIN_FILENO
      if x.stdout.isSome then none
      else
        let t := t.dup2 devnull STDOUT_FILENO
        some (t.close devnull)

/-- The supervisor while it forks: its table, and the fields `pidfd` of
the workers so far. -/
structure Spawning where
  table : Fds
  pidfds : List Int

/-- `sfork`, in the parent; the descriptor is marked close-on-exec. -/
def Spawning.sfork (s : Spawning) (forked : Bool) : Spawning :=
  if forked then
    let (t, pidfd) := s.table.openNew (.worker s.pidfds.length) true
    ⟨t, s.pidfds ++ [(pidfd : Int)]⟩
  else ⟨s.table, s.pidfds ++ [-1]⟩

/-- The loop that forks, with whether it succeeded each time. -/
def spawn (t : Fds) (forked : List Bool) : Spawning := forked.foldl Spawning.sfork ⟨t, []⟩

/-- The worker that is forked next: "Close pidfds". -/
def Spawning.child (s : Spawning) : Fds := s.pidfds.foldl FdTable.close s.table

/-! ## Setting up and serving -/

def openSetting (t : Fds) : Fds := (t.openNew .setting true).1

/-- `server_process`: the directory, the signalfd, the timerfd, the socket
and the epoll descriptor. -/
def setUp (t : Fds) : Fds :=
  openSetting (openSetting (openSetting (openSetting (openSetting t))))

/-- A worker that had the table `base` has come to this. -/
abbrev Serves (base t : Fds) (h : Heap Server.Object) : Prop := FdTable.Uses .served base t h

/-! ## Executing -/

/-- `client_socket`, in the child: the directory of the program, unless
the client has it open; the client's socket; `execve`. -/
def program (t : Fds) (dirfd : Int) (socket : Nat) : Fds :=
  let t := if dirfd < 0 then (t.openNew .containing true).1 else t
  (t.dup2 socket STDOUT_FILENO).exec

end Sgopher.Service
