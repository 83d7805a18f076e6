/-
Sgopher.Sepoll.Session — every way a program can use an event loop.

A session takes a loop through any sequence of calls of the `sepoll`
interface until it destroys it. Between two calls of `sepoll_enter` the
program makes any of the calls in `Op`; inside one, so does each callback
that is invoked. Which call comes next is an answer of the environment
too, so a statement about all answers is one about all programs, those
that look at the results of earlier calls included. The callbacks do not
re-enter, resize or destroy the loop, and nothing closes a descriptor
that is registered.

The session is written over an `EventLoop`, the operations of some loop
on some state: `sepoll` is the loop of the source. What a session shows
is the list of its observations: the callbacks invoked, with their
arguments, and what each call returned.

No `sorry`, no `axiom`, no `native_decide`.
-/
import Sgopher.Sepoll.Loop

namespace Sgopher.Sepoll

open Sgopher.Lib

variable {F U : Type}

/-! ## Calls, answers and observations -/

/-- A call that is allowed inside a callback. -/
inductive Op (F U : Type) where
  | add (fd : Int) (events : UInt32) (function : Option F) (userdata1 userdata2 : U)
  | mod (fd : Int) (events : UInt32) (function : Option F) (userdata1 userdata2 : U)
  | modEvents (fd : Int) (events : UInt32)
  | modCallback (fd : Int) (function : Option F) (userdata1 userdata2 : U)
  | remove (fd : Int)
  | exit

/-- A call of the program that owns the loop: `sepoll_enter` is called
with or without a function for the end of each turn. -/
inductive Command (F U : Type) where
  | op (o : Op F U)
  | enter (timeout : Int) (function : Bool)

/-- One answer: what the system calls return, which call the owner makes
next (`none`: it destroys the loop), and which call the running callback
makes next (`none`: it returns). -/
structure SessionAnswer (F U : Type) where
  loop : LoopAnswer := {}
  command : Option (Command F U) := none
  op : Option (Op F U) := none

instance : LoopAnswers (SessionAnswer F U) := ⟨SessionAnswer.loop⟩

/-- What can be seen of a session from outside the loop. -/
inductive Observation (F U : Type) where
  | called (function : F) (events : UInt32) (userdata1 userdata2 : U)
  | turnEnded (n : Int)
  | returned (r : Ret)
  | entered (retval : Int)

/-! ## The session -/

/-- The operations of an event loop on a state `σ`, and how the state
records an observation. -/
structure EventLoop (ω σ F U : Type) where
  exec : Op F U → Prog ω σ Ret
  enter : (F → UInt32 → U → U → Prog ω σ Unit) → Int → Option (Int → Prog ω σ Unit) → Prog ω σ Int
  destroy : Prog ω σ Unit
  observe : Observation F U → Prog ω σ Unit

variable {σ : Type} (e : EventLoop (SessionAnswer F U) σ F U)

/-- The body of a callback: calls of the interface, until it returns. -/
def runOps : Prog (SessionAnswer F U) σ Unit :=
  Prog.iterate (fun _ => do
    let a ← Prog.ask
    match a.op with
    | none => pure (.inr ())
    | some o => do
      let r ← e.exec o
      e.observe (.returned r)
      pure (.inl ())) ()

/-- What every function pointer stands for in a session. -/
def scriptedCallback (function : F) (events : UInt32) (userdata1 userdata2 : U) :
    Prog (SessionAnswer F U) σ Unit := do
  e.observe (.called function events userdata1 userdata2)
  runOps e

/-- The function `sepoll_enter` may be given for the end of each turn. -/
def scriptedFunction (n : Int) : Prog (SessionAnswer F U) σ Unit := do
  e.observe (.turnEnded n)
  runOps e

def runCommand : Command F U → Prog (SessionAnswer F U) σ Unit
  | .op o => do
    let r ← e.exec o
    e.observe (.returned r)
  | .enter timeout function => do
    let retval ← e.enter (scriptedCallback e) timeout
      (if function then some (scriptedFunction e) else none)
    e.observe (.entered retval)

/-- A whole session, from a loop just created. -/
def session : Prog (SessionAnswer F U) σ Unit :=
  Prog.iterate (fun _ => do
    let a ← Prog.ask
    match a.command with
    | none => do
      e.destroy
      pure (.inr ())
    | some c => do
      runCommand e c
      pure (.inl ())) ()

/-! ## The loop of the source -/

/-- A loop in a session, with what was observed so far. -/
abbrev SessionWorld (F U : Type) := World F U (List (Observation F U))

/-- The call of the source an `Op` stands for. -/
def Op.exec : Op F U → Prog (SessionAnswer F U) (SessionWorld F U) Ret
  | .add fd events function userdata1 userdata2 => sepollAdd fd events function userdata1 userdata2
  | .mod fd events function userdata1 userdata2 => sepollMod fd events function userdata1 userdata2
  | .modEvents fd events => sepollModEvents fd events
  | .modCallback fd function userdata1 userdata2 =>
    sepollModCallback fd function userdata1 userdata2
  | .remove fd => sepollRemove fd
  | .exit => do
    sepollExit
    pure (.ok ())

/-- `sepoll.c` as an event loop. -/
def sepoll : EventLoop (SessionAnswer F U) (SessionWorld F U) F U where
  exec := Op.exec
  enter := sepollEnter
  destroy := sepollDestroy
  observe := fun o => Prog.modify fun w => { w with own := w.own ++ [o] }

/-- A session in which both of two descriptors are reported ready and the
callback of the first removes the second and adds it again. -/
def readded : List (SessionAnswer Unit Unit) :=
  [{ command := some (.op (.add 4 EPOLLIN (some ()) () ())) }, { loop := { malloc := some 1 } },
    { command := some (.op (.add 5 EPOLLIN (some ()) () ())) }, { loop := { malloc := some 2 } },
    { command := some (.enter (-1) false) },
    { loop := { wait := .ready [(4, EPOLLIN), (5, EPOLLIN)] } },
    { op := some (.remove 5) },
    { op := some (.add 5 EPOLLIN (some ()) () ()) }, { loop := { malloc := some 3 } },
    { op := some .exit }, {}, {}]

end Sgopher.Sepoll
