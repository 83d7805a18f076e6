/-
Sgopher.Sepoll.Calls — the whole interface of `sepoll.c` as calls on a
loop, and every state a loop can get into.

A session (`Sgopher.Sepoll.Session`) leaves `sepoll_resize` out. Here it
is one of the calls: `Call` is what a program may ask of a loop at any
time, a callback included, and `Call.apply` is the function of the source
that does it. `Loop.Step` is one move of a loop: a call, or one of the
things `sepoll_enter` does between the callbacks. `Loop.Reachable` are
the states that any number of moves, in any order, lead to; only waiting
and collecting are kept to their place in the turn, after the batch is
dispatched.

`Call.Does` says what a call that returns 0 is for, in terms of the
registrations the loop stands for and not of the code. The last part is a
batch whose callbacks make any of the calls: which they make is the
environment's choice, and the world keeps the list of them.

No `sorry`, no `axiom`, no `native_decide`.
-/
import Mathlib.Logic.Relation
import Sgopher.Sepoll.SessionTheorems

namespace Sgopher.Sepoll

open Sgopher.Lib

variable {F U : Type}

/-! ## Calls -/

/-- A call of the interface: one a session makes, or `sepoll_resize`. -/
inductive Call (F U : Type) where
  | op (o : Op F U)
  | resize (size : Int)

/-- The function of the source an `Op` stands for, on the loop alone. -/
def Op.apply (o : Op F U) (ans : LoopAnswer) (l : Loop F U) : Option (Loop F U × Ret) :=
  match o with
  | .add fd events function userdata1 userdata2 =>
    l.add fd events function userdata1 userdata2 ans
  | .mod fd events function userdata1 userdata2 =>
    l.mod fd events function userdata1 userdata2 ans
  | .modEvents fd events => l.modEvents fd events ans
  | .modCallback fd function userdata1 userdata2 =>
    l.modCallback fd function userdata1 userdata2
  | .remove fd => l.remove fd
  | .exit => some ({ l with run := false }, .ok ())

def Call.apply (c : Call F U) (ans : LoopAnswer) (l : Loop F U) : Option (Loop F U × Ret) :=
  match c with
  | .op o => o.apply ans l
  | .resize size => some (l.resize size ans)

/-! ## The states of a loop -/

/-- One move of a loop. -/
inductive Loop.Step : Loop F U → Loop F U → Prop where
  | call (c : Call F U) (ans : LoopAnswer) {l l' : Loop F U} {r : Ret}
      (h : c.apply ans l = some (l', r)) : Step l l'
  | start (l : Loop F U) : Step l { l with run := true }
  | wait (timeout : Int) (x : WaitAnswer) {l : Loop F U} (hp : l.pending = []) :
      Step l (l.poll timeout x).1
  | fetch (i : Nat) {l l' : Loop F U} {x : UInt32 × Callback F U}
      (h : l.fetch i = some (l', x)) : Step l l'
  | collect {l l' : Loop F U} (hp : l.pending = []) (h : l.collect = some l') : Step l l'

/-- The states a loop made by `sepoll_create` can get into. -/
def Loop.Reachable (l : Loop F U) : Prop :=
  ∃ size : Int, Relation.ReflTransGen Loop.Step (.created size) l

/-! ## What a call is for -/

/-- Nothing but the registration of one descriptor differs: every other
descriptor is found at the same record, with the same interest and the
same registration, and no record but that of the descriptor was written. -/
structure Loop.SameBut (fd : Int) (l l' : Loop F U) : Prop where
  findFd : ∀ fd', fd' ≠ fd → l'.findFd fd' = l.findFd fd'
  interest : ∀ fd', fd' ≠ fd → l'.interest fd' = l.interest fd'
  reg : ∀ fd', fd' ≠ fd → l'.reg fd' = l.reg fd'
  cell : ∀ a ∈ l.heap.live, l.findFd fd ≠ some (some a) → l'.heap.cell a = l.heap.cell a
  callbacksGcList : l'.callbacksGcList = l.callbacksGcList
  kept : l.Kept l'

/-- A new registration: a record that was not allocated before, and no
other. -/
structure Loop.Adds (fd : Int) (events : UInt32) (function : Option F) (userdata1 userdata2 : U)
    (l l' : Loop F U) : Prop where
  same : l.SameBut fd l'
  absent : l.reg fd = none
  record : ∃ p, p ∉ l.heap.live ∧ l'.heap.live = p :: l.heap.live ∧
    l'.findFd fd = some (some p) ∧
    l'.reg fd = some ⟨p, events, function, userdata1, userdata2⟩

/-- Another registration in the same record: `parts` says which of its
parts are replaced. -/
structure Loop.Changes (fd : Int) (parts : Reg F U → Reg F U) (l l' : Loop F U) : Prop where
  same : l.SameBut fd l'
  live : l'.heap.live = l.heap.live
  found : l'.findFd fd = l.findFd fd
  registered : ∃ r, l.reg fd = some r ∧ l'.reg fd = some (parts r)

/-- A registration fewer: its record waits on the garbage list. -/
structure Loop.Removes (fd : Int) (l l' : Loop F U) : Prop where
  registered : ∃ r, l.reg fd = some r ∧ l'.callbacksGcList = r.ptr :: l.callbacksGcList
  reg : l'.reg = Function.update l.reg fd none
  kept : l.Kept l'

/-- An array of another size with the events that fit in it. -/
structure Loop.Resizes (size : Int) (l l' : Loop F U) : Prop where
  positive : 0 < size
  epollEventsSize : l'.epollEventsSize = size
  epollEvents : ∀ i : Nat, i < size.toNat → i < l.epollEvents.length →
    l'.epollEvents[i]? = l.epollEvents[i]?
  reg : l'.reg = l.reg
  heap : l'.heap = l.heap
  pending : l'.pending = l.pending

/-- What a call that returns 0 does. -/
def Call.Does : Call F U → Loop F U → Loop F U → Prop
  | .op (.add fd events function userdata1 userdata2) =>
    Loop.Adds fd events function userdata1 userdata2
  | .op (.mod fd events function userdata1 userdata2) =>
    Loop.Changes fd fun r => ⟨r.ptr, events, function, userdata1, userdata2⟩
  | .op (.modEvents fd events) => Loop.Changes fd fun r => { r with events := events }
  | .op (.modCallback fd function userdata1 userdata2) =>
    Loop.Changes fd fun r => ⟨r.ptr, r.events, function, userdata1, userdata2⟩
  | .op (.remove fd) => Loop.Removes fd
  | .op .exit => fun l l' => l' = { l with run := false }
  | .resize size => Loop.Resizes size

/-! ## A batch whose callbacks make any calls -/

/-- One answer inside a callback: the call it makes next (`none`: it
returns), and what the system answers to that call. -/
structure CallbackAnswer (F U : Type) where
  loop : LoopAnswer := {}
  call : Option (Call F U) := none

instance : LoopAnswers (CallbackAnswer F U) := ⟨CallbackAnswer.loop⟩

/-- A loop, with the calls the batch's callbacks made so far. -/
abbrev BatchWorld (F U : Type) := World F U (List (Call F U × LoopAnswer))

/-- What every function pointer stands for in such a batch. -/
def callingCallback (_function : F) (_events : UInt32) (_userdata1 _userdata2 : U) :
    Prog (CallbackAnswer F U) (BatchWorld F U) Unit :=
  Prog.iterate (fun _ => do
    let a ← Prog.ask
    match a.call with
    | none => pure (.inr ())
    | some c => do
      let _ ← onLoop (c.apply a.loop)
      Prog.modify fun w => { w with own := w.own ++ [(c, a.loop)] }
      pure (.inl ())) ()

/-- The size a call gives the array: a positive size, if there is memory. -/
def resizedTo (made : Call F U × LoopAnswer) : Option Int :=
  match made.1 with
  | .op _ => none
  | .resize size => if 0 < size ∧ made.2.realloc = true then some size else none

/-- Every resize so far was to a size above the index. -/
def Spared (w : BatchWorld F U) (i : Nat) : Prop := ∀ s ∈ w.own.filterMap resizedTo, (i : Int) < s

/-- What the body of the dispatch loop is to do for an event: call the
function now in its record, if the registration was not removed. -/
def invoke (call : F → UInt32 → U → U → Prog (CallbackAnswer F U) (BatchWorld F U) Unit)
    (e : EpollEvent) (cb : Callback F U) : Prog (CallbackAnswer F U) (BatchWorld F U) Unit :=
  match cb.function with
  | none => pure ()
  | some f => call f e.events cb.userdata1 cb.userdata2

/-- At index `i` the dispatch loop is inside the array, and does what the
event that `epoll_wait` put there asks for, whatever the functions are. -/
structure Delivers (i : Nat) (e : EpollEvent) (w : BatchWorld F U) : Prop where
  inBounds : (i : Int) < w.loop.epollEventsSize
  dispatched : ∃ cb, w.loop.heap.cell e.ptr = some cb ∧
    ∀ call ws, dispatchOne call i w ws = invoke call e cb (w.withLoop w.loop.popped) ws

/-- Index `i` of the batch is reached: the events before it are
dispatched, from the loop `l` as `epoll_wait` left it. -/
def ComesTo (l : Loop F U) (ws : List (CallbackAnswer F U)) (i : Nat) (w : BatchWorld F U) :
    Prop :=
  ∃ rest, dispatch callingCallback i 0 ⟨l, []⟩ ws = .done () w rest

/-- A whole batch: every index reached is delivered, and the dispatch
does not read what it may not. -/
def BatchSafe (l : Loop F U) (batch : List EpollEvent) (ws : List (CallbackAnswer F U)) : Prop :=
  (∀ i e w, batch[i]? = some e → ComesTo l ws i w → Delivers i e w) ∧
    dispatch callingCallback batch.length 0 ⟨l, []⟩ ws ≠ .fault

end Sgopher.Sepoll
