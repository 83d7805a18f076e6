/-
Sgopher.Sepoll.MapLoop — what an event loop is for, without records,
pointers or a garbage list.

A `MapLoop` is a finite map from descriptors to registrations. A batch is
a list of descriptors with the events reported for them. Besides the map
the loop only remembers which descriptors were removed since the batch
came in: an event of the batch is delivered exactly when its descriptor
is not among them, with the function and userdata its registration has at
that moment. A descriptor that is removed and added again within the
batch stays among the removed ones, so the old event never reaches the
new registration.

This is the specification `Sepoll.Loop` is compared with in
`MapLoopTheorems`; it is not taken from the source.
-/
import Sgopher.Sepoll.LoopTheorems
import Sgopher.Sepoll.Session

namespace Sgopher.Sepoll

open Sgopher.Lib

/-! ## Data -/

/-- A registration: the mask, and what to call with what. -/
structure MapReg (F U : Type) where
  events : UInt32
  function : Option F
  userdata1 : U
  userdata2 : U

/-- The map-based loop. -/
structure MapLoop (F U : Type) where
  regs : Int → Option (MapReg F U)
  removed : List Int
  run : Bool
  maxEvents : Int

variable {F U : Type}

def MapLoop.created (size : Int) : MapLoop F U := ⟨fun _ => none, [], true, size⟩

/-! ## The calls of the interface -/

def MapLoop.set (m : MapLoop F U) (fd : Int) (r : Option (MapReg F U)) : MapLoop F U :=
  { m with regs := Function.update m.regs fd r }

def MapLoop.add (m : MapLoop F U) (fd : Int) (r : MapReg F U) (ans : LoopAnswer) :
    MapLoop F U × Ret :=
  match addError (m.regs fd).isSome ans with
  | some e => (m, .error e)
  | none => (m.set fd (some r), .ok ())

/-- Change a registration in place. -/
def MapLoop.change (m : MapLoop F U) (fd : Int) (f : MapReg F U → MapReg F U) (ans : LoopAnswer) :
    MapLoop F U × Ret :=
  match modError (m.regs fd).isSome ans with
  | some e => (m, .error e)
  | none => (m.set fd ((m.regs fd).map f), .ok ())

def MapLoop.remove (m : MapLoop F U) (fd : Int) : MapLoop F U × Ret :=
  match m.regs fd with
  | none => (m, .error .EBADF)
  | some _ => ({ m.set fd none with removed := fd :: m.removed }, .ok ())

/-- The events reported for the given readiness. -/
def MapLoop.ready (m : MapLoop F U) : List (Int × UInt32) → List Int → List (Int × UInt32)
  | [], _ => []
  | (fd, bits) :: rest, seen =>
    match m.regs fd with
    | none => m.ready rest seen
    | some r =>
      let got := bits &&& (r.events ||| EPOLLERR ||| EPOLLHUP)
      if fd ∉ seen ∧ got ≠ 0 then (fd, got) :: m.ready rest (fd :: seen)
      else m.ready rest seen

/-! ## The loop as a program -/

/-- A map-based loop in a session, with what was observed so far. -/
structure MapWorld (F U : Type) where
  loop : MapLoop F U
  own : List (Observation F U)

/-- Programs over a map-based loop. -/
abbrev MapProg (F U α : Type) := Prog (SessionAnswer F U) (MapWorld F U) α

def onMap {α : Type} (f : MapLoop F U → MapLoop F U × α) : MapProg F U α :=
  Prog.step fun w => some ({ w with loop := (f w.loop).1 }, (f w.loop).2)

def Op.execMap : Op F U → MapProg F U Ret
  | .add fd events function userdata1 userdata2 => do
    let a ← Prog.ask
    onMap fun m => m.add fd ⟨events, function, userdata1, userdata2⟩ a.loop
  | .mod fd events function userdata1 userdata2 => do
    let a ← Prog.ask
    onMap fun m => m.change fd (fun _ => ⟨events, function, userdata1, userdata2⟩) a.loop
  | .modEvents fd events => do
    let a ← Prog.ask
    onMap fun m => m.change fd (fun r => { r with events := events }) a.loop
  | .modCallback fd function userdata1 userdata2 =>
    onMap fun m => m.change fd (fun r => ⟨r.events, function, userdata1, userdata2⟩) {}
  | .remove fd => onMap fun m => m.remove fd
  | .exit => do
    onMap fun m => ({ m with run := false }, ())
    pure (.ok ())

/-- One look at what is ready; a batch forgets what was removed before. -/
def MapLoop.poll (m : MapLoop F U) (timeout : Int) :
    WaitAnswer → MapLoop F U × (Unit ⊕ (Int × List (Int × UInt32)))
  | .error _ => (m, .inr (-1, []))
  | .ready events =>
    if m.maxEvents ≤ 0 then (m, .inr (-1, []))
    else
      let batch := (m.ready events []).take m.maxEvents.toNat
      if batch = [] then (m, if timeout < 0 then .inl () else .inr (0, []))
      else ({ m with removed := [] }, .inr (batch.length, batch))

def mapWait (timeout : Int) : MapProg F U (Int × List (Int × UInt32)) :=
  Prog.iterate (fun _ => do
    let a ← Prog.ask
    onMap fun m => m.poll timeout a.loop.wait) ()

/-- Deliver one event, unless its registration was removed during the
batch. -/
def deliver (call : F → UInt32 → U → U → MapProg F U Unit) (fd : Int) (events : UInt32) :
    MapProg F U Unit := do
  let w ← Prog.get
  if fd ∈ w.loop.removed then pure ()
  else
    match w.loop.regs fd with
    | some ⟨_, some f, userdata1, userdata2⟩ => call f events userdata1 userdata2
    | _ => pure ()

/-- Deliver a batch, in order. -/
def deliverAll (call : F → UInt32 → U → U → MapProg F U Unit) :
    List (Int × UInt32) → MapProg F U Unit
  | [] => pure ()
  | (fd, events) :: rest => do
    deliver call fd events
    deliverAll call rest

/-- The end of a turn: the function if there is one, else a timeout or an
error ends the loop. -/
def mapAfter (function : Option (Int → MapProg F U Unit)) (n retval : Int) : MapProg F U Int :=
  match function with
  | some f => do
    f n
    pure retval
  | none =>
    if n ≤ 0 then do
      onMap fun m => ({ m with run := false }, ())
      pure (if n = 0 then retval else -1)
    else pure retval

def mapTurn (call : F → UInt32 → U → U → MapProg F U Unit) (timeout : Int)
    (function : Option (Int → MapProg F U Unit)) (retval : Int) : MapProg F U (Int ⊕ Int) := do
  let w ← Prog.get
  if w.loop.run then do
    let (n, batch) ← mapWait timeout
    deliverAll call batch
    let retval ← mapAfter function n retval
    pure (.inl retval)
  else pure (.inr retval)

def mapEnter (call : F → UInt32 → U → U → MapProg F U Unit) (timeout : Int)
    (function : Option (Int → MapProg F U Unit)) : MapProg F U Int := do
  onMap fun m => ({ m with run := true }, ())
  Prog.iterate (mapTurn call timeout function) 0

/-- The map-based loop as an event loop. -/
def mapped : EventLoop (SessionAnswer F U) (MapWorld F U) F U where
  exec := Op.execMap
  enter := mapEnter
  destroy := pure ()
  observe := fun o => Prog.modify fun w => { w with own := w.own ++ [o] }

end Sgopher.Sepoll
