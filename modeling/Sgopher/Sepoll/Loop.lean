/-
Sgopher.Sepoll.Loop — the event loop of `sepoll.c`, over an explicit heap
of callback records and an explicit kernel interest list.

Each operation of the source is one function under the source's name: the
pure part (`Loop.add` for `sepoll_add` and so on) computes the new loop
from the old one and from what the environment answers to the calls made
on the way (`malloc`, the node allocation inside `tsearch`, `epoll_ctl`).
It is undefined, `none`, where the C code would read or free a record
that is not allocated. The programs at the end (`sepollAdd`,
`sepollEnter`, …) run these parts in the state `World`, a loop together
with whatever the program that uses it keeps.

glibc's `tsearch` tree is the list of the record addresses in it:
`tfind`, `tsearch` and `tdelete` compare through the records, as
`compare_callback_fd` does, and behave as a finite map keyed by the
descriptor. `interest` is the kernel's side of the epoll instance.

`pending` is not in the source. It holds the events of the current batch
that are not dispatched yet, so that `release` can refuse to free a
record one of them still refers to.
-/
import Sgopher.Lib.Program
import Sgopher.Lib.Heap
import Sgopher.Posix

namespace Sgopher.Sepoll

open Sgopher.Lib

/-! ## Data -/

/-- `struct sepoll_callback_t`, without its list entry. A null function
pointer is `none`. -/
structure Callback (F U : Type) where
  fd : Int
  function : Option F
  userdata1 : U
  userdata2 : U

/-- `struct epoll_event`, with `data.ptr`. -/
structure EpollEvent where
  events : UInt32
  ptr : Nat
  deriving DecidableEq

/-- `struct sepoll_t`, with the heap its callback records live in, the
kernel's interest list, and the undispatched events of the batch. -/
structure Loop (F U : Type) where
  callbacksTree : List Nat
  callbacksGcList : List Nat
  epollEvents : List EpollEvent
  epollEventsSize : Int
  run : Bool
  heap : Heap (Callback F U)
  interest : Int → Option EpollEvent
  pending : List EpollEvent

/-- What `epoll_wait` reports: an error, or which descriptors are ready
and for what. -/
inductive WaitAnswer where
  | error (e : Errno)
  | ready (events : List (Int × UInt32))

/-- What the environment answers to the calls `sepoll.c` makes. `malloc`
is the address offered, `none` where the allocation fails; `tsearch` and
`realloc` say whether there was memory; the `epoll_ctl` answers are the
error, if any. -/
structure LoopAnswer where
  wait : WaitAnswer := .ready []
  malloc : Option Nat := none
  tsearch : Bool := true
  ctlAdd : Option Errno := none
  ctlMod : Option Errno := none
  realloc : Bool := true

/-- Answers of a larger program that contain those of its loop. -/
class LoopAnswers (ω : Type) where
  answer : ω → LoopAnswer

variable {F U : Type}

/-! ## Tree searching -/

/-- `compare_callback_fd`, on the descriptors of the two records. Both are
descriptors of the kernel, so the difference does not overflow. -/
def compareCallbackFd (a b : Int) : Int := a - b

/-- `tfind`: the record that compares equal, if there is one. Undefined
if a record on the way was freed. -/
def tfind (heap : Heap (Callback F U)) (fd : Int) : List Nat → Option (Option Nat)
  | [] => some none
  | a :: rest =>
    match heap.cell a with
    | none => none
    | some callback =>
      if compareCallbackFd fd callback.fd = 0 then some (some a) else tfind heap fd rest

/-- `tdelete`: remove the record that compares equal. -/
def tdelete (heap : Heap (Callback F U)) (fd : Int) (tree : List Nat) : Option (List Nat) :=
  match tfind heap fd tree with
  | none => none
  | some none => some tree
  | some (some a) => some (tree.erase a)

/-- `sepoll_find_fd`. -/
def Loop.findFd (l : Loop F U) (fd : Int) : Option (Option Nat) :=
  tfind l.heap fd l.callbacksTree

/-! ## The kernel's epoll instance -/

/-- `epoll_ctl(EPOLL_CTL_ADD)`: an error leaves the list as it was. -/
def Loop.epollCtlAdd (l : Loop F U) (fd : Int) (event : EpollEvent) (answer : Option Errno) :
    Loop F U × Ret :=
  match l.interest fd, answer with
  | some _, _ => (l, .error .EEXIST)
  | none, some e => (l, .error e)
  | none, none => ({ l with interest := Function.update l.interest fd (some event) }, .ok ())

/-- `epoll_ctl(EPOLL_CTL_MOD)`. -/
def Loop.epollCtlMod (l : Loop F U) (fd : Int) (event : EpollEvent) (answer : Option Errno) :
    Loop F U × Ret :=
  match l.interest fd, answer with
  | none, _ => (l, .error .ENOENT)
  | some _, some e => (l, .error e)
  | some _, none => ({ l with interest := Function.update l.interest fd (some event) }, .ok ())

/-- `epoll_ctl(EPOLL_CTL_DEL)`, which succeeds on a registered
descriptor. -/
def Loop.epollCtlDel (l : Loop F U) (fd : Int) : Loop F U × Ret :=
  match l.interest fd with
  | none => (l, .error .ENOENT)
  | some _ => ({ l with interest := Function.update l.interest fd none }, .ok ())

/-- The events the kernel reports for the given readiness: only of
registered descriptors, each at most once, and of each only the bits of
its mask and the two that are always reported. -/
def Loop.ready (l : Loop F U) : List (Int × UInt32) → List Int → List EpollEvent
  | [], _ => []
  | (fd, bits) :: rest, seen =>
    match l.interest fd with
    | none => l.ready rest seen
    | some e =>
      let got := bits &&& (e.events ||| EPOLLERR ||| EPOLLHUP)
      if fd ∉ seen ∧ got ≠ 0 then ⟨got, e.ptr⟩ :: l.ready rest (fd :: seen)
      else l.ready rest seen

/-! ## Creation, resizing and destruction -/

/-- The loop `sepoll_create` makes. The source leaves `run` unset until
`sepoll_enter` sets it. -/
def Loop.created (size : Int) : Loop F U where
  callbacksTree := []
  callbacksGcList := []
  epollEvents := List.replicate size.toNat ⟨0, 0⟩
  epollEventsSize := size
  run := true
  heap := Heap.empty
  interest := fun _ => none
  pending := []

/-- `sepoll_create`, by whether its three allocations succeed. -/
def sepollCreate (size : Int) (malloc calloc epollCreate : Bool) : Option (Loop F U) :=
  if malloc && calloc && epollCreate then some (.created size) else none

/-- `sepoll_resize`. -/
def Loop.resize (l : Loop F U) (size : Int) (answer : LoopAnswer) : Loop F U × Ret :=
  if size ≤ 0 then (l, .error .EINVAL)
  else if size = l.epollEventsSize then (l, .ok ())
  else if answer.realloc then
    ({ l with
        epollEvents := l.epollEvents.take size.toNat ++
          List.replicate (size.toNat - l.epollEvents.length) ⟨0, 0⟩
        epollEventsSize := size }, .ok ())
  else (l, .error .ENOMEM)

/-- `free` of a callback record. Besides a record that is not allocated
it refuses one that an undispatched event refers to. -/
def Loop.release (l : Loop F U) (a : Nat) : Option (Loop F U) :=
  if a ∈ l.pending.map EpollEvent.ptr then none
  else (l.heap.free a).map fun heap => { l with heap := heap }

/-- `free` every record of a list. -/
def Loop.releaseAll (l : Loop F U) : List Nat → Option (Loop F U)
  | [] => some l
  | a :: rest => (l.release a).bind fun l' => l'.releaseAll rest

/-- `sepoll_destroy`: the tree's records, then those of the garbage list,
then the epoll instance, whose interest list ends with it. -/
def Loop.destroy (l : Loop F U) : Option (Loop F U) := do
  let l ← l.releaseAll l.callbacksTree
  let l := { l with callbacksTree := [] }
  let l ← l.releaseAll l.callbacksGcList
  some { l with callbacksGcList := [], interest := fun _ => none }

/-! ## Add, modify and remove -/

/-- `sepoll_add`. -/
def Loop.add (l : Loop F U) (fd : Int) (events : UInt32) (function : Option F)
    (userdata1 userdata2 : U) (answer : LoopAnswer) : Option (Loop F U × Ret) :=
  match answer.malloc with
  | none => some (l, .error .ENOMEM)
  | some want => do
    let callback := l.heap.fresh want
    let l := { l with heap := l.heap.alloc want ⟨fd, function, userdata1, userdata2⟩ }
    match ← tfind l.heap fd l.callbacksTree with
    | some _ => some (← l.release callback, .error .EEXIST)
    | none =>
      if answer.tsearch then
        let l := { l with callbacksTree := callback :: l.callbacksTree }
        match l.epollCtlAdd fd ⟨events, callback⟩ answer.ctlAdd with
        | (l, .ok ()) => some (l, .ok ())
        | (l, .error e) =>
          let tree ← tdelete l.heap fd l.callbacksTree
          some (← Loop.release { l with callbacksTree := tree } callback, .error e)
      else some (← l.release callback, .error .ENOMEM)

/-- `sepoll_mod`. -/
def Loop.mod (l : Loop F U) (fd : Int) (events : UInt32) (function : Option F)
    (userdata1 userdata2 : U) (answer : LoopAnswer) : Option (Loop F U × Ret) := do
  match ← l.findFd fd with
  | none => some (l, .error .EBADF)
  | some callback =>
    match l.epollCtlMod fd ⟨events, callback⟩ answer.ctlMod with
    | (l, .error e) => some (l, .error e)
    | (l, .ok ()) =>
      let cb ← l.heap.cell callback
      let heap ← l.heap.write callback ⟨cb.fd, function, userdata1, userdata2⟩
      some ({ l with heap := heap }, .ok ())

/-- `sepoll_mod_events`. -/
def Loop.modEvents (l : Loop F U) (fd : Int) (events : UInt32) (answer : LoopAnswer) :
    Option (Loop F U × Ret) := do
  match ← l.findFd fd with
  | none => some (l, .error .EBADF)
  | some callback => some (l.epollCtlMod fd ⟨events, callback⟩ answer.ctlMod)

/-- `sepoll_mod_callback`. -/
def Loop.modCallback (l : Loop F U) (fd : Int) (function : Option F)
    (userdata1 userdata2 : U) : Option (Loop F U × Ret) := do
  match ← l.findFd fd with
  | none => some (l, .error .EBADF)
  | some callback =>
    let cb ← l.heap.cell callback
    let heap ← l.heap.write callback ⟨cb.fd, function, userdata1, userdata2⟩
    some ({ l with heap := heap }, .ok ())

/-- `sepoll_remove`: the record's function is nulled, so that an event
still queued for it is not delivered, and the record waits on the garbage
list for the end of the batch. -/
def Loop.remove (l : Loop F U) (fd : Int) : Option (Loop F U × Ret) := do
  match ← l.findFd fd with
  | none => some (l, .error .EBADF)
  | some callback =>
    let cb ← l.heap.cell callback
    let heap ← l.heap.write callback { cb with function := none }
    let tree ← tdelete heap fd l.callbacksTree
    some (Loop.epollCtlDel
      { l with
        heap := heap
        callbacksTree := tree
        callbacksGcList := callback :: l.callbacksGcList } fd)

/-- The end of a turn of `sepoll_enter`: free the garbage list. -/
def Loop.collect (l : Loop F U) : Option (Loop F U) := do
  let l ← l.releaseAll l.callbacksGcList
  some { l with callbacksGcList := [] }

/-! ## The loop as a program -/

/-- A loop and the state of the program that uses it. -/
structure World (F U τ : Type) where
  loop : Loop F U
  own : τ

variable {ω τ : Type} [LoopAnswers ω]

/-- Run a part that may be undefined on the loop of the world. -/
def onLoop {α : Type} (f : Loop F U → Option (Loop F U × α)) : Prog ω (World F U τ) α :=
  Prog.step fun w => (f w.loop).map fun (l, a) => ({ w with loop := l }, a)

def sepollAdd (fd : Int) (events : UInt32) (function : Option F) (userdata1 userdata2 : U) :
    Prog ω (World F U τ) Ret := do
  let a ← Prog.ask
  onLoop fun l => l.add fd events function userdata1 userdata2 (LoopAnswers.answer a)

def sepollMod (fd : Int) (events : UInt32) (function : Option F) (userdata1 userdata2 : U) :
    Prog ω (World F U τ) Ret := do
  let a ← Prog.ask
  onLoop fun l => l.mod fd events function userdata1 userdata2 (LoopAnswers.answer a)

def sepollModEvents (fd : Int) (events : UInt32) : Prog ω (World F U τ) Ret := do
  let a ← Prog.ask
  onLoop fun l => l.modEvents fd events (LoopAnswers.answer a)

def sepollModCallback (fd : Int) (function : Option F) (userdata1 userdata2 : U) :
    Prog ω (World F U τ) Ret :=
  onLoop fun l => l.modCallback fd function userdata1 userdata2

def sepollRemove (fd : Int) : Prog ω (World F U τ) Ret := onLoop fun l => l.remove fd

def sepollResize (size : Int) : Prog ω (World F U τ) Ret := do
  let a ← Prog.ask
  onLoop fun l => some (l.resize size (LoopAnswers.answer a))

def sepollDestroy : Prog ω (World F U τ) Unit :=
  onLoop fun l => l.destroy.map fun l => (l, ())

/-- Set the flag that keeps `sepoll_enter` going. -/
def setRun (run : Bool) : Prog ω (World F U τ) Unit :=
  Prog.modify fun w => { w with loop := { w.loop with run := run } }

def sepollExit : Prog ω (World F U τ) Unit := setRun false

/-- One look of `epoll_wait` at the interest list: `inl` where nothing is
ready and the wait goes on. -/
def Loop.poll (l : Loop F U) (timeout : Int) : WaitAnswer → Loop F U × (Unit ⊕ Int)
  | .error _ => (l, .inr (-1))
  | .ready events =>
    if l.epollEventsSize ≤ 0 then (l, .inr (-1))
    else
      let batch := (l.ready events []).take l.epollEventsSize.toNat
      if batch = [] then (l, if timeout < 0 then .inl () else .inr 0)
      else
        ({ l with
            epollEvents := batch ++ l.epollEvents.drop batch.length
            pending := batch }, .inr batch.length)

/-- `epoll_wait(loop->epollfd, loop->epoll_events, …, timeout)`. With a
negative timeout it does not return before there is something to report. -/
def epollWait (timeout : Int) : Prog ω (World F U τ) Int :=
  Prog.iterate (fun _ => do
    let a ← Prog.ask
    onLoop fun l => some (l.poll timeout (LoopAnswers.answer a).wait)) ()

/-- Read the record event `i` refers to. -/
def Loop.fetch (l : Loop F U) (i : Nat) : Option (Loop F U × UInt32 × Callback F U) := do
  let e ← l.epollEvents[i]?
  let callback ← l.heap.cell e.ptr
  some ({ l with pending := l.pending.tail }, e.events, callback)

/-- The body of the dispatch loop, for event `i` of the batch. -/
def dispatchOne (call : F → UInt32 → U → U → Prog ω (World F U τ) Unit) (i : Nat) :
    Prog ω (World F U τ) Unit := do
  let (events, callback) ← onLoop fun l => l.fetch i
  match callback.function with
  | none => pure ()
  | some f => call f events callback.userdata1 callback.userdata2

/-- `for (int i = 0; i < n; i++)`: `k` events from index `i` on. -/
def dispatch (call : F → UInt32 → U → U → Prog ω (World F U τ) Unit) :
    Nat → Nat → Prog ω (World F U τ) Unit
  | 0, _ => pure ()
  | k + 1, i => do
    dispatchOne call i
    dispatch call k (i + 1)

/-- What `sepoll_enter` does with the count `epoll_wait` returned, once
the events are dispatched: the function if there is one, else the loop
ends on a timeout or an error. -/
def afterWait (function : Option (Int → Prog ω (World F U τ) Unit)) (n retval : Int) :
    Prog ω (World F U τ) Int :=
  match function with
  | some f => do
    f n
    pure retval
  | none =>
    if n = 0 then do
      setRun false
      pure retval
    else if n < 0 then do
      setRun false
      pure (-1)
    else pure retval

/-- One turn of the loop in `sepoll_enter`. -/
def enterTurn (call : F → UInt32 → U → U → Prog ω (World F U τ) Unit) (timeout : Int)
    (function : Option (Int → Prog ω (World F U τ) Unit)) (retval : Int) :
    Prog ω (World F U τ) (Int ⊕ Int) := do
  let w ← Prog.get
  if w.loop.run then do
    let n ← epollWait timeout
    dispatch call n.toNat 0
    let retval ← afterWait function n retval
    onLoop fun l => l.collect.map fun l => (l, ())
    pure (.inl retval)
  else pure (.inr retval)

/-- `sepoll_enter`. `call` is what the function pointers stand for. -/
def sepollEnter (call : F → UInt32 → U → U → Prog ω (World F U τ) Unit) (timeout : Int)
    (function : Option (Int → Prog ω (World F U τ) Unit)) : Prog ω (World F U τ) Int := do
  setRun true
  Prog.iterate (enterTurn call timeout function) 0

end Sgopher.Sepoll
