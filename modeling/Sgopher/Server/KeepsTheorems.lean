/-
Sgopher.Server.KeepsTheorems — what a worker never changes.

Of its state a worker changes everything but the parameters and the five
descriptors in `struct server_t`, which are set before the event loop is
entered; it opens and closes descriptors one at a time; and that the loop
was told to stop is noted by `server_signal` alone, where it has read a
SIGTERM. `Lasting` is a property that this much is enough for, and every
program the worker is made of keeps such a property, handed up from its
calls. `Fixed` is one of them.

No `sorry`, no `axiom`, no `native_decide`.
-/
import Sgopher.Sepoll.KeepsTheorems
import Sgopher.Server.Process

namespace Sgopher.Server

open Sgopher.Lib Sgopher.Sepoll Prog

/-! ## The properties -/

/-- The fields of `struct server_t` that do not change while the worker
serves. -/
structure Settings where
  params : Params
  directory : Int
  socket : Int
  sigfd : Int
  timerfd : Int
  epollfd : Int

def ServerState.settings (s : ServerState) : Settings :=
  ⟨s.params, s.directory, s.socket, s.sigfd, s.timerfd, s.epollfd⟩

/-- A property that nothing but the descriptors, the settings and the flag
matters to, and that outlasts what a worker does to these. -/
structure Lasting (A : Answer → Prop) (J : Worker → Prop) : Prop where
  same : ∀ {k k' : Worker}, J k → k'.fds = k.fds →
    k'.server.settings = k.server.settings → k'.terminated = k.terminated → J k'
  opened : ∀ {k : Worker} (want : Int) (o : Object), J k →
    J { k with fds := (k.fds.openFd want o).1 }
  closed : ∀ {k : Worker} {fd : Int} {fds : Heap Object}, J k → k.fds.closeFd fd = some fds →
    J { k with fds := fds }
  told : ∀ {k : Worker} {y : Answer}, A y → y.signal = .ok SIGTERM → J k →
    J { k with terminated := true }

/-- The settings are these, and the loop was not told to stop unless that
may be. -/
def Fixed (d : Settings) (told : Prop) (k : Worker) : Prop :=
  k.server.settings = d ∧ (k.terminated = true → told)

variable {d : Settings} {told : Prop} {A : Answer → Prop} {J : Worker → Prop} {a : Nat}
  {c : Client} {fd : Int} {α : Type}

theorem Fixed.lasting (hA : ∀ y, A y → y.signal = .ok SIGTERM → told) :
    Lasting A (Fixed d told) where
  same h _ hsettings hflag := ⟨hsettings.trans h.1, fun ht => h.2 (hflag.symm.trans ht)⟩
  opened _ _ h := h
  closed h _ := h
  told hy hs h := ⟨h.1, fun _ => hA _ hy hs⟩

/-! ## Calls -/

theorem systemCall_lasts : Keeps A (Beside J) systemCall := Keeps.ask

theorem fault_lasts : Keeps A (Beside J) (fault : Program α) :=
  Keeps.step fun _ _ _ _ h => nomatch h

theorem getServer_lasts : Keeps A (Beside J) getServer :=
  Keeps.bind Keeps.get fun _ => Keeps.pure _

theorem useFd_lasts : Keeps A (Beside J) (useFd fd) := Keeps.step_map fun _ _ h _ => h

theorem getClient_lasts : Keeps A (Beside J) (getClient a) := Keeps.step_map fun _ _ h _ => h

theorem fstatFile_lasts : Keeps A (Beside J) (fstatFile fd) := by
  refine Keeps.bind useFd_lasts fun o => Keeps.bind systemCall_lasts fun x => ?_
  cases x.fstat with
  | some e => exact Keeps.pure _
  | none => cases o <;> first | exact Keeps.pure _ | exact fault_lasts

variable (hJ : Lasting A J)

include hJ

theorem openFd_lasts {o : Object} : Keeps A (Beside J) (openFd fd o) :=
  Keeps.step fun _ _ _ h he => by
    obtain ⟨rfl, -⟩ := Prod.mk.inj (Option.some.inj he)
    exact hJ.opened fd o h

theorem closeFd_lasts : Keeps A (Beside J) (closeFd fd) := by
  refine Keeps.step fun w w' _ h he => ?_
  split at he
  · cases he
  · obtain ⟨fds, hclose, he⟩ := Option.map_eq_some_iff.mp he
    obtain ⟨rfl, -⟩ := Prod.mk.inj he
    exact hJ.closed h hclose

/-- A change of what does not matter. -/
theorem setWorker_lasts {f : Worker → Worker}
    (hf : ∀ k, (f k).fds = k.fds ∧ (f k).server.settings = k.server.settings ∧
      (f k).terminated = k.terminated) : Keeps A (Beside J) (setWorker f) :=
  Keeps.modify fun w h => hJ.same h (hf w.own).1 (hf w.own).2.1 (hf w.own).2.2

theorem note_lasts {x : Action} : Keeps A (Beside J) (note fd x) :=
  Keeps.step_map fun _ _ h _ => hJ.same h rfl rfl rfl

theorem setClient_lasts : Keeps A (Beside J) (setClient a c) :=
  Keeps.step_map fun _ _ h _ => hJ.same h rfl rfl rfl

theorem freeClient_lasts : Keeps A (Beside J) (freeClient a) := by
  refine Keeps.step fun w w' _ h he => ?_
  split at he
  · obtain ⟨mem, -, he⟩ := Option.map_eq_some_iff.mp he
    obtain ⟨rfl, -⟩ := Prod.mk.inj he
    exact hJ.same h rfl rfl rfl
  · cases he

theorem closeIf_lasts : Keeps A (Beside J) (Prog.when (0 ≤ fd) (closeFd fd)) :=
  Keeps.when (closeFd_lasts hJ)

/-! ## One client -/

theorem clientDisconnect_lasts : Keeps A (Beside J) (clientDisconnect a) := by
  refine Keeps.bind getClient_lasts fun c => ?_
  refine Keeps.bind (closeIf_lasts hJ) fun _ => Keeps.bind (closeIf_lasts hJ) fun _ => ?_
  refine Keeps.bind (Keeps.when ?_) fun _ => ?_
  · exact Keeps.bind (sepollRemove_keeps _) fun _ => closeFd_lasts hJ
  · exact Keeps.bind (sepollRemove_keeps _) fun _ => Keeps.bind (closeFd_lasts hJ) fun _ =>
      freeClient_lasts hJ

theorem pidfdKillClient_lasts : Keeps A (Beside J) (pidfdKillClient a) :=
  Keeps.bind getClient_lasts fun _ => Keeps.bind useFd_lasts fun _ =>
    Keeps.bind systemCall_lasts fun _ => Keeps.when (clientDisconnect_lasts hJ)

theorem hangUp_lasts : Keeps A (Beside J) (hangUp a) :=
  Keeps.bind (clientDisconnect_lasts hJ) fun _ => Keeps.pure _

theorem refuse_lasts {m : Menu} : Keeps A (Beside J) (refuse a m) :=
  Keeps.bind getClient_lasts fun _ => Keeps.bind (note_lasts hJ) fun _ => hangUp_lasts hJ

theorem readRequest_lasts : Keeps A (Beside J) (readRequest a) := by
  refine Keeps.iterate (fun _ => ?_) ()
  refine Keeps.bind getClient_lasts fun c => Keeps.bind useFd_lasts fun _ =>
    Keeps.bind systemCall_lasts fun x => ?_
  split
  · exact Keeps.pure _
  · exact Keeps.bind (hangUp_lasts hJ) fun _ => Keeps.pure _
  · exact Keeps.bind (refuse_lasts hJ) fun _ => Keeps.pure _
  · refine Keeps.ite (Keeps.bind (hangUp_lasts hJ) fun _ => Keeps.pure _) ?_
    exact Keeps.bind (setClient_lasts hJ) fun _ => Keeps.ite (Keeps.pure _) (Keeps.pure _)

theorem runCgi_lasts {filename query : Bytes} : Keeps A (Beside J) (runCgi a filename query) := by
  refine Keeps.bind getServer_lasts fun s => Keeps.bind getClient_lasts fun c =>
    Keeps.bind systemCall_lasts fun x => ?_
  cases x.fork with
  | none => exact refuse_lasts hJ
  | some k =>
    refine Keeps.bind (openFd_lasts hJ) fun pidfd => Keeps.bind (setClient_lasts hJ) fun _ => ?_
    refine Keeps.bind (note_lasts hJ) fun _ => Keeps.bind (closeFd_lasts hJ) fun _ => ?_
    refine Keeps.bind (setClient_lasts hJ) fun _ => ?_
    refine Keeps.bind (sepollModEvents_keeps _ _) fun _ => ?_
    exact Keeps.bind (sepollAdd_keeps _ _ _ _ _) fun _ => Keeps.pure _

theorem transmit_lasts {f : File} : Keeps A (Beside J) (transmit a f) :=
  Keeps.bind getClient_lasts fun _ => Keeps.bind (note_lasts hJ) fun _ =>
    Keeps.bind (setClient_lasts hJ) fun _ => Keeps.bind (sepollModEvents_keeps _ _) fun _ =>
      Keeps.pure _

theorem settle_lasts : Keeps A (Beside J) (settle a) := by
  refine Keeps.bind getClient_lasts fun c => Keeps.bind (Keeps.when ?_) fun _ => ?_
  · exact Keeps.bind (closeFd_lasts hJ) fun _ => setClient_lasts hJ
  · exact Keeps.bind systemCall_lasts fun _ => Keeps.bind getClient_lasts fun _ =>
      Keeps.bind (setClient_lasts hJ) fun _ => Keeps.pure _

theorem launch_lasts {filename query : Bytes} {f : File} :
    Keeps A (Beside J) (launch a filename query f) :=
  Keeps.bind (Keeps.ite (runCgi_lasts hJ) (transmit_lasts hJ)) fun _ =>
    Keeps.ite (settle_lasts hJ) (Keeps.pure _)

theorem openIndex_lasts {filename query : Bytes} {n : Nat} :
    Keeps A (Beside J) (openIndex a filename n query) := by
  refine Keeps.bind getClient_lasts fun c => Keeps.bind (setClient_lasts hJ) fun _ =>
    Keeps.bind useFd_lasts fun _ => Keeps.bind systemCall_lasts fun x => ?_
  cases x.openat with
  | error e => exact Keeps.bind (setClient_lasts hJ) fun _ => refuse_lasts hJ
  | ok p =>
    refine Keeps.bind (openFd_lasts hJ) fun fd => Keeps.bind (setClient_lasts hJ) fun _ =>
      Keeps.bind fstatFile_lasts fun r => ?_
    cases r with
    | error e => exact refuse_lasts hJ
    | ok f =>
      refine Keeps.ite ?_ (refuse_lasts hJ)
      cases stpcpy maxFilenameSize filename n [SLASH] with
      | none => exact fault_lasts
      | some q => exact launch_lasts hJ

theorem inspectFile_lasts {filename query : Bytes} {n : Nat} :
    Keeps A (Beside J) (inspectFile a filename n query) := by
  refine Keeps.bind getClient_lasts fun c => Keeps.bind fstatFile_lasts fun r => ?_
  cases r with
  | error e => exact refuse_lasts hJ
  | ok f => exact Keeps.ite (launch_lasts hJ) (Keeps.ite (openIndex_lasts hJ) (refuse_lasts hJ))

theorem openFile_lasts {filename query : Bytes} {n : Nat} :
    Keeps A (Beside J) (openFile a filename n query) := by
  refine Keeps.bind getServer_lasts fun s => Keeps.bind getClient_lasts fun c => ?_
  cases cstring filename 0 with
  | none => exact fault_lasts
  | some path =>
    refine Keeps.bind useFd_lasts fun _ => Keeps.bind (note_lasts hJ) fun _ =>
      Keeps.bind systemCall_lasts fun x => ?_
    cases x.openat with
    | error e => exact Keeps.bind (setClient_lasts hJ) fun _ => refuse_lasts hJ
    | ok p => exact Keeps.bind (openFd_lasts hJ) fun _ => Keeps.bind (setClient_lasts hJ) fun _ =>
        inspectFile_lasts hJ

theorem serveRequest_lasts : Keeps A (Beside J) (serveRequest a) := by
  refine Keeps.bind getClient_lasts fun c => ?_
  cases parse c.buffer with
  | none => exact fault_lasts
  | some r =>
    cases r with
    | badRequest => exact refuse_lasts hJ
    | forbidden => exact refuse_lasts hJ
    | path filename n query => exact openFile_lasts hJ

theorem clientReadable_lasts : Keeps A (Beside J) (clientReadable a) :=
  Keeps.bind getClient_lasts fun _ => Keeps.bind (note_lasts hJ) fun _ =>
    Keeps.bind (readRequest_lasts hJ) fun _ => Keeps.ite (serveRequest_lasts hJ) (Keeps.pure _)

theorem sendFile_lasts : Keeps A (Beside J) (sendFile a) := by
  refine Keeps.iterate (fun _ => Keeps.bind getClient_lasts fun c => ?_) ()
  cases c.filesize with
  | none => exact fault_lasts
  | some filesize =>
    refine Keeps.bind useFd_lasts fun _ => Keeps.bind useFd_lasts fun _ =>
      Keeps.bind systemCall_lasts fun x => ?_
    cases x.sendfile with
    | error e =>
      refine Keeps.ite (Keeps.pure _) ?_
      exact Keeps.bind (Keeps.when (note_lasts hJ)) fun _ => Keeps.bind (hangUp_lasts hJ) fun _ =>
        Keeps.pure _
    | ok n =>
      exact Keeps.bind (note_lasts hJ) fun _ => Keeps.bind (setClient_lasts hJ) fun _ =>
        Keeps.ite (Keeps.pure _) (Keeps.pure _)

theorem checkSent_lasts : Keeps A (Beside J) (checkSent a) := by
  refine Keeps.bind getClient_lasts fun c => ?_
  cases c.filesize with
  | none => exact fault_lasts
  | some filesize =>
    refine Keeps.ite ?_ (Keeps.bind (note_lasts hJ) fun _ => (hangUp_lasts hJ))
    exact Keeps.bind systemCall_lasts fun _ => Keeps.bind (setClient_lasts hJ) fun _ => Keeps.pure _

theorem clientWritable_lasts : Keeps A (Beside J) (clientWritable a) :=
  Keeps.bind (sendFile_lasts hJ) fun _ => Keeps.ite (checkSent_lasts hJ) (Keeps.pure _)

theorem clientError_lasts : Keeps A (Beside J) (clientError a) :=
  Keeps.bind getClient_lasts fun _ =>
    Keeps.ite (pidfdKillClient_lasts hJ) (clientDisconnect_lasts hJ)

/-- **`client_socket`** changes neither the settings nor the flag. -/
theorem clientSocket_lasts {events : UInt32} : Keeps A (Beside J) (clientSocket events a) := by
  refine Keeps.bind (Keeps.ite (clientReadable_lasts hJ) (Keeps.pure _)) fun _ =>
    Keeps.ite ?_ (Keeps.pure _)
  refine Keeps.bind (Keeps.ite (clientWritable_lasts hJ) (Keeps.pure _)) fun _ =>
    Keeps.ite (Keeps.when (clientError_lasts hJ)) (Keeps.pure _)

/-! ## The worker's own descriptors -/

theorem turnAway_lasts {m : Menu} : Keeps A (Beside J) (turnAway fd m) :=
  Keeps.bind (note_lasts hJ) fun _ => Keeps.bind (closeFd_lasts hJ) fun _ =>
    setWorker_lasts hJ fun _ => ⟨rfl, rfl, rfl⟩

theorem noteAdd_lasts {r : Ret} : Keeps A (Beside J) (noteAdd fd r) := by
  cases r with
  | error e => exact note_lasts hJ
  | ok u => exact Keeps.pure _

theorem takeConnection_lasts {address : Bytes} :
    Keeps A (Beside J) (takeConnection fd address) := by
  refine Keeps.bind getServer_lasts fun s => Keeps.ite (turnAway_lasts hJ) ?_
  refine Keeps.bind systemCall_lasts fun x => ?_
  cases x.malloc with
  | none => exact turnAway_lasts hJ
  | some want =>
    refine Keeps.bind (Keeps.step fun _ _ _ h he => ?_) fun client => ?_
    · obtain ⟨rfl, -⟩ := Prod.mk.inj (Option.some.inj he)
      exact hJ.same h rfl rfl rfl
    · exact Keeps.bind (sepollAdd_keeps _ _ _ _ _) fun _ => Keeps.bind (noteAdd_lasts hJ) fun _ =>
        setWorker_lasts hJ fun _ => ⟨rfl, rfl, rfl⟩

theorem serverSocket_lasts {events : UInt32} : Keeps A (Beside J) (serverSocket events) := by
  refine Keeps.ite (Keeps.bind (Keeps.iterate (fun _ => ?_) ()) fun _ => Keeps.pure _)
    (Keeps.pure _)
  refine Keeps.bind getServer_lasts fun s => Keeps.bind useFd_lasts fun _ =>
    Keeps.bind systemCall_lasts fun x => ?_
  cases x.accept with
  | error e => exact Keeps.pure _
  | ok p =>
    exact Keeps.bind (openFd_lasts hJ) fun fd =>
      Keeps.bind (setWorker_lasts hJ fun _ => ⟨rfl, rfl, rfl⟩) fun _ =>
        Keeps.bind (takeConnection_lasts hJ) fun _ => Keeps.pure _

/-- `server_signal` notes that it was told to stop where it reads a
SIGTERM. -/
theorem serverSignal_lasts : Keeps A (Beside J) serverSignal := by
  refine Keeps.iterate (fun _ => ?_) ()
  refine Keeps.bind getServer_lasts fun s => Keeps.bind useFd_lasts fun _ =>
    Keeps.bind_ask fun x hx => ?_
  cases hs : x.signal with
  | error e => exact Keeps.pure _
  | ok signo =>
    refine Keeps.bind ?_ fun _ => Keeps.pure _
    by_cases hterm : signo = SIGTERM
    · rw [Prog.when, if_pos hterm]
      exact Keeps.bind (Keeps.modify fun _ h => hJ.told hx (hterm ▸ hs) h) fun _ =>
        setRun_keeps false
    · rw [Prog.when, if_neg hterm]
      exact Keeps.pure ()

theorem timerClient_lasts {now : Int} : Keeps A (Beside J) (timerClient now a) := by
  refine Keeps.bind getServer_lasts fun s => Keeps.bind getClient_lasts fun c =>
    Keeps.when (Keeps.ite ?_ ?_)
  · refine Keeps.bind useFd_lasts fun _ => Keeps.bind systemCall_lasts fun x => ?_
    cases x.tcpInfo with
    | error e => exact pidfdKillClient_lasts hJ
    | ok n => exact Keeps.when (pidfdKillClient_lasts hJ)
  · exact Keeps.bind (Keeps.when (note_lasts hJ)) fun _ => clientDisconnect_lasts hJ

theorem timerWalk_lasts (now : Int) : ∀ (fuel : Nat) (cur : Option Nat),
    Keeps A (Beside J) (timerWalk now fuel cur)
  | fuel, none => by cases fuel <;> exact Keeps.pure ()
  | 0, some _ => fault_lasts
  | fuel + 1, some _ => Keeps.bind (Keeps.step_map fun _ _ h _ => h) fun next =>
    Keeps.bind (timerClient_lasts hJ) fun _ => timerWalk_lasts now fuel next

theorem serverTimer_lasts : Keeps A (Beside J) serverTimer :=
  Keeps.bind getServer_lasts fun _ => Keeps.bind useFd_lasts fun _ =>
    Keeps.bind systemCall_lasts fun _ => Keeps.bind systemCall_lasts fun _ =>
      Keeps.bind getServer_lasts fun _ => timerWalk_lasts hJ _ _ _

/-! ## The process -/

theorem handle_lasts : CallsKeep A J handle := by
  intro h events u1 u2
  unfold handle
  split
  · exact clientSocket_lasts hJ
  · exact clientDisconnect_lasts hJ
  · exact serverSocket_lasts hJ
  · exact serverSignal_lasts hJ
  · exact serverTimer_lasts hJ
  · exact fault_lasts

omit hJ in
theorem register_lasts : Keeps A (Beside J) register :=
  Keeps.bind getServer_lasts fun _ => Keeps.bind (sepollAdd_keeps _ _ _ _ _) fun _ =>
    Keeps.bind (sepollAdd_keeps _ _ _ _ _) fun _ => Keeps.bind (sepollAdd_keeps _ _ _ _ _) fun _ =>
      Keeps.pure _

theorem sepollEnter_lasts : Keeps A (Beside J) (sepollEnter handle (-1) none) :=
  sepollEnter_keeps (handle_lasts hJ) (-1)

theorem cleanupClient_lasts : Keeps A (Beside J) (cleanupClient a) := by
  refine Keeps.bind getClient_lasts fun c => Keeps.bind (Keeps.when ?_) fun _ => ?_
  · exact Keeps.bind useFd_lasts fun _ => Keeps.bind systemCall_lasts fun _ => closeFd_lasts hJ
  · exact Keeps.bind (closeIf_lasts hJ) fun _ => Keeps.bind (closeIf_lasts hJ) fun _ =>
      Keeps.bind (closeFd_lasts hJ) fun _ => Keeps.step_map fun _ _ h _ => hJ.same h rfl rfl rfl

theorem cleanupClients_lasts : ∀ as : List Nat, Keeps A (Beside J) (cleanupClients as)
  | [] => Keeps.pure ()
  | _ :: rest => Keeps.bind (cleanupClient_lasts hJ) fun _ => cleanupClients_lasts rest

end Sgopher.Server
