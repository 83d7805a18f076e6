/-
Sgopher.Server.FrameTheorems — what the calls of a handler leave alone.

Each call changes at most one part of a worker, so it keeps every property
that a change of that part keeps; there is one such rule for each call, in
any contract that excuses faults. `OnClients` is a property of the clients'
records and the logs, which most calls change neither of, and `always` the
contract that asks for a property wherever the program waits; the calls
that do change a record or a log are looked at for each property anew.

No `sorry`, no `axiom`, no `native_decide`.
-/
import Sgopher.Server.RunTheorems

namespace Sgopher.Server

open Sgopher.Lib Sgopher.Sepoll

variable {α : Type} {X : Contract Answer World} {I : World → Prop}
  {p : (Nat → List Action) → Heap Client → Prop} {a : Nat} {c : Client} {fd : Int}
  {w : World}

/-! ## One rule for each call -/

section Calls

variable (hX : X.mayFault)

include hX

theorem getClient_keeps : Triple X I (getClient a) (fun _ => I) :=
  Triple.step_map hX fun _ _ h _ => h

theorem useFd_keeps : Triple X I (useFd fd) (fun _ => I) :=
  Triple.step_map hX fun _ _ h _ => h

theorem note_keeps {act : Action}
    (h : ∀ w log, I w → I { w with own := { w.own with log := log } }) :
    Triple X I (note fd act) (fun _ => I) :=
  Triple.step_map hX fun w _ hw _ => h w _ hw

theorem setClient_keeps (h : ∀ w mem, I w → I { w with own := { w.own with mem := mem } }) :
    Triple X I (setClient a c) (fun _ => I) :=
  Triple.step_map hX fun w mem hw _ => h w mem hw

theorem closeFd_keeps (h : ∀ w fds, w.own.fds.closeFd fd = some fds → I w →
      I { w with own := { w.own with fds := fds } }) :
    Triple X I (closeFd fd) (fun _ => I) := by
  refine Triple.step_partial hX fun w w' _ hw hf => ?_
  split at hf
  · cases hf
  · obtain ⟨fds, hfds, he⟩ := Option.map_eq_some_iff.mp hf
    exact (Prod.mk.inj he).1 ▸ h w fds hfds hw

theorem onLoop_keeps {β : Type} {f : EventLoop → Option (EventLoop × β)}
    (h : ∀ w l, I w → I (w.withLoop l)) : Triple X I (onLoop f) (fun _ => I) :=
  Triple.step_map hX fun w b hw _ => h w b.1 hw

theorem fault_keeps {Q : α → World → Prop} : Triple X I fault Q :=
  Triple.step_partial hX fun _ _ _ _ h => by cases h

end Calls

theorem openFd_keeps {o : Object}
    (h : ∀ w fds, I w → I { w with own := { w.own with fds := fds } }) :
    Triple X I (openFd fd o) (fun _ => I) :=
  Triple.step fun w hw => ⟨_, _, rfl, h w _ hw⟩

theorem getServer_keeps : Triple X I getServer (fun _ => I) :=
  Triple.bind Triple.get fun _ => Triple.pure fun _ h => h.1

theorem systemCall_keeps (h : ∀ w, I w → X.waits w) : Triple X I systemCall (fun _ => I) :=
  Triple.ask h fun _ _ hw _ => hw

/-! ## Calls that only look -/

theorem getClient_run (h : w.own.mem.cell a = some c) (ans : List Answer) :
    getClient a w ans = .done c w ans :=
  Prog.step_done (by rw [h]; rfl) ans

theorem useFd_run {o : Object} (h : w.own.fds.object fd = some o) (ans : List Answer) :
    useFd fd w ans = .done o w ans :=
  Prog.step_done (by rw [h]; rfl) ans

theorem getServer_run (w : World) (ans : List Answer) :
    getServer w ans = .done w.own.server w ans := rfl

theorem systemCall_run (w : World) (x : Answer) (rest : List Answer) :
    systemCall w (x :: rest) = .done x w rest := rfl

theorem fstatFile_run {f : File} (h : w.own.fds.object fd = some (.file f)) (x : Answer)
    (rest : List Answer) :
    fstatFile fd w (x :: rest) = .done (x.fstat.elim (.ok f) .error) w rest := by
  rw [fstatFile, Prog.bind_done (useFd_run h _), Prog.bind_done (systemCall_run w x rest)]
  cases x.fstat <;> rfl

/-! ## Calls that change one part -/

theorem note_run {o : Object} (act : Action) (h : w.own.fds.object fd = some o)
    (ans : List Answer) :
    note fd act w ans = .done ()
      { w with own := { w.own with
          log := Function.update w.own.log (w.own.fds.serialOf fd)
            (w.own.log (w.own.fds.serialOf fd) ++ [act]) } } ans :=
  Prog.step_done (by rw [h]; rfl) ans

theorem setClient_run {c' : Client} (h : w.own.mem.cell a = some c) (ans : List Answer) :
    setClient a c' w ans = .done ()
      { w with own := { w.own with
          mem := w.own.mem.writeLive a c' (Heap.mem_live_of_cell h) } } ans :=
  Prog.step_done (by rw [Heap.write_eq (Heap.mem_live_of_cell h)]; rfl) ans

/-! ## Along a run -/

/-- A contract that asks for a property wherever the program waits, of any
run that is defined. -/
def always (I : World → Prop) : Contract Answer World where
  answers := fun _ => True
  waits := I
  mayFault := True

theorem always_run {m : Program α} (h : Triple (always I) I m (fun _ => I)) (hw : I w)
    (ans : List Answer) : (m w ans).Always I :=
  (h w ans hw fun _ _ => trivial).always (fun _ h => h) fun _ _ h => h

theorem systemCall_always : Triple (always I) I systemCall (fun _ => I) :=
  systemCall_keeps fun _ h => h

theorem fstatFile_keeps (hX : X.mayFault) (h : ∀ w, I w → X.waits w) :
    Triple X I (fstatFile fd) (fun _ => I) := by
  refine Triple.bind (useFd_keeps hX) fun o => Triple.bind (systemCall_keeps h) fun x => ?_
  split
  · exact Triple.pure fun _ h => h
  · exact Triple.pure fun _ h => h
  · exact fault_keeps hX

theorem fstatFile_always : Triple (always I) I (fstatFile fd) (fun _ => I) :=
  fstatFile_keeps trivial fun _ h => h

/-- A property of the clients' records and of the logs. -/
def OnClients (p : (Nat → List Action) → Heap Client → Prop) (w : World) : Prop :=
  p w.own.log w.own.mem

theorem sepollModEvents_onClients {events : UInt32} :
    Triple (always (OnClients p)) (OnClients p) (sepollModEvents fd events)
      (fun _ => OnClients p) :=
  Triple.bind systemCall_always fun _ => onLoop_keeps trivial fun _ _ h => h

theorem sepollAdd_onClients {events : UInt32} {f : Option Handler} {u1 u2 : Arg} :
    Triple (always (OnClients p)) (OnClients p) (sepollAdd fd events f u1 u2)
      (fun _ => OnClients p) :=
  Triple.bind systemCall_always fun _ => onLoop_keeps trivial fun _ _ h => h

theorem openFd_onClients {o : Object} :
    Triple (always (OnClients p)) (OnClients p) (openFd fd o) (fun _ => OnClients p) :=
  openFd_keeps fun _ _ h => h

theorem closeFd_onClients :
    Triple (always (OnClients p)) (OnClients p) (closeFd fd) (fun _ => OnClients p) :=
  closeFd_keeps trivial fun _ _ _ h => h

/-- `client_disconnect` frees the client, and does nothing else to the
records. It makes no call that waits. -/
theorem clientDisconnect_frees (hX : X.mayFault) :
    Triple X (OnClients p) (clientDisconnect a)
      (fun _ w => ∃ mem, p w.own.log mem ∧ mem.free a = some w.own.mem) := by
  have hclose : ∀ fd : Int, Triple X (OnClients p) (closeFd fd) (fun _ => OnClients p) :=
    fun fd => closeFd_keeps hX fun _ _ _ h => h
  have hremove : ∀ fd : Int, Triple X (OnClients p) (sepollRemove fd) (fun _ => OnClients p) :=
    fun fd => onLoop_keeps hX fun _ _ h => h
  have hcloseIf : ∀ fd : Int, Triple X (OnClients p) (Prog.when (0 ≤ fd) (closeFd fd))
      (fun _ => OnClients p) := fun fd => Triple.when (fun _ => hclose fd) fun _ _ h => h
  refine Triple.bind (getClient_keeps hX) fun c => ?_
  refine Triple.bind (hcloseIf c.file) fun _ => Triple.bind (hcloseIf c.dirfd) fun _ => ?_
  refine Triple.bind (R := fun _ => OnClients p) ?_ fun _ => ?_
  · exact Triple.when (fun _ => Triple.bind (hremove _) fun _ => hclose _) fun _ _ h => h
  refine Triple.bind (hremove _) fun _ => Triple.bind (hclose _) fun _ => ?_
  refine Triple.step_partial hX fun w w' _ h hw => ?_
  split at hw
  · obtain ⟨mem, hmem, he⟩ := Option.map_eq_some_iff.mp hw
    obtain ⟨rfl, -⟩ := Prod.mk.inj he
    exact ⟨w.own.mem, h, hmem⟩
  · cases hw

theorem clientDisconnect_onClients
    (hfree : ∀ log mem mem', p log mem → mem.free a = some mem' → p log mem') :
    Triple (always (OnClients p)) (OnClients p) (clientDisconnect a) (fun _ => OnClients p) :=
  (clientDisconnect_frees trivial).post fun _ _ ⟨_, h, hmem⟩ => hfree _ _ _ h hmem

theorem hangUp_onClients
    (hfree : ∀ log mem mem', p log mem → mem.free a = some mem' → p log mem') :
    Triple (always (OnClients p)) (OnClients p) (hangUp a) (fun _ => OnClients p) :=
  Triple.bind (clientDisconnect_onClients hfree) fun _ => Triple.pure fun _ h => h

end Sgopher.Server
