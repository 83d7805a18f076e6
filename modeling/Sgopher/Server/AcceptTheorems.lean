/-
Sgopher.Server.AcceptTheorems — how `server_socket` drains the listening
socket.

`accept4` is called in a loop that returns for every error. The socket is
watched for edges, so a return for another error than `EAGAIN` leaves
connections behind that nobody tells the worker of. `AcceptFails` says
what a call of `accept4` fails with, as a relation between the answers of
the system and the room the worker has for clients; `acceptAll_run` says
that the loop returns for just that.

Whatever ends the loop, each connection that was accepted is looked after
(`LookedAfter`).

No `sorry`, no `axiom`, no `native_decide`.
-/
import Sgopher.Server.TransferTheorems

namespace Sgopher.Server

open Sgopher.Lib Sgopher.Sepoll

variable {x : Context} {fd : Int} {s : ServerState} {w w' : World} {m : Menu} {n k : ℕ} {e : Errno}
  {ans rest : List Answer} {address : Bytes}

/-! ## What the answers say -/

/-- How many clients there is room for. -/
def ServerState.roomLeft (s : ServerState) : ℕ := s.params.maxClients.toNat - s.numClients.toNat

/-- What the answers behind a connection leave to the next call of
`accept4`, and the room for clients then: `malloc` is called if there is
room, and `sepoll_add` if that succeeds. `none` where the answers run out. -/
def afterConnection : ℕ → List Answer → Option (ℕ × List Answer)
  | 0, rest => some (0, rest)
  | _ + 1, [] => none
  | room + 1, y :: rest =>
    match y.malloc with
    | none => some (room + 1, rest)
    | some _ => if rest = [] then none else some (room, rest.drop 1)

/-- A call of `accept4` fails with an error. -/
inductive AcceptFails : ℕ → List Answer → Errno → Prop
  | here {room : ℕ} {y : Answer} {rest : List Answer} {e : Errno} (hy : y.accept = .error e) :
      AcceptFails room (y :: rest) e
  | later {room room' : ℕ} {y : Answer} {rest rest' : List Answer} {e : Errno} {p : Int × Bytes}
      (hy : y.accept = .ok p) (h : afterConnection room rest = some (room', rest'))
      (hf : AcceptFails room' rest' e) : AcceptFails room (y :: rest) e

/-! ## The calls for one connection -/

/-- A contract that excuses no fault. -/
def neverFaults : Contract Answer World where
  answers := fun _ => True
  waits := fun _ => True

theorem turnAway_asks (fd : Int) (m : Menu) : Prog.Asks 0 (turnAway fd m) :=
  .after .step fun _ => .after .step fun _ => .modify

/-- What is done with the record of a new client. -/
def insertNew (fd : Int) (a : ℕ) : Program Unit := do
  let ret ← sepollAdd fd (EPOLLIN ||| EPOLLET) (some .clientSocket) .server (.client a)
  noteAdd fd ret
  insertClient a

theorem insertNew_asks (fd : Int) (a : ℕ) : Prog.Asks 1 (insertNew fd a) := by
  refine Prog.Asks.bind (j := 1) (k := 0)
    (.bind (j := 1) (k := 0) .ask fun _ => .step) fun ret => ?_
  refine .after ?_ fun _ => .modify
  cases ret with
  | error e => exact .step
  | ok u => exact .pure

/-- A property of the server's state is kept by what changes other
things. -/
def OnServer (p : ServerState → Prop) (w : World) : Prop := p w.own.server

theorem closeFd_onServer {p : ServerState → Prop} :
    Triple anyRun (OnServer p) (closeFd fd) (fun _ => OnServer p) :=
  closeFd_keeps trivial fun _ _ _ h => h

theorem note_onServer {p : ServerState → Prop} {act : Action} :
    Triple anyRun (OnServer p) (note fd act) (fun _ => OnServer p) :=
  note_keeps trivial fun _ _ h => h

theorem turnAway_onServer {p : ServerState → Prop} :
    Triple anyRun (OnServer p) (turnAway fd m) (fun _ => OnServer p) :=
  Triple.bind note_onServer fun _ => Triple.bind closeFd_onServer fun _ =>
    Triple.modify fun _ h => h

theorem insertNew_onServer (fd : Int) (a : ℕ) :
    Triple anyRun (OnServer (· = s)) (insertNew fd a)
      (fun _ => OnServer
        (· = { s with clients := a :: s.clients, numClients := s.numClients + 1 })) := by
  refine Triple.bind (Triple.bind (systemCall_keeps fun _ _ => trivial) fun y =>
    onLoop_keeps trivial fun _ _ h => h) fun ret => ?_
  refine Triple.bind (R := fun _ => OnServer (· = s)) ?_ fun _ => Triple.modify fun w h => ?_
  · cases ret with
    | error e => exact note_onServer
    | ok u => exact Triple.pure fun _ h => h
  · obtain rfl : w.own.server = s := h
    rfl

theorem allocClient_onServer {p : ServerState → Prop} {want : ℕ} {c : Client} :
    Triple anyRun (OnServer p) (allocClient want c) (fun _ => OnServer p) :=
  Triple.step fun _ h => ⟨_, _, rfl, h⟩

theorem Accepted.room (h : Accepted x fd [] w) :
    w.own.server.numClients.toNat ≤ w.own.server.params.maxClients.toNat ∧
      (w.own.server.numClients = w.own.server.params.maxClients ↔ w.own.server.roomLeft = 0) := by
  have hcount : w.own.server.numClients.toNat = w.own.server.clients.length := h.parts.count
  have hle : w.own.server.clients.length + 0 ≤ w.own.server.params.maxClients.toNat :=
    h.parts.room
  rw [← UInt32.toNat_inj, ServerState.roomLeft]
  omega

/-- Turning a connection away makes no call that waits. -/
theorem turnAway_run (h : Accepted x fd [] w) (m : Menu) (ans : List Answer) :
    ∃ w', turnAway fd m w ans = .done () w' ans ∧ AtRest x w' ∧
      w'.own.server = w.own.server := by
  have hrun := Triple.run_asks (turnAway_triple (X := neverFaults) m) id (turnAway_asks fd m) h
    ans fun _ _ => trivial
  rw [if_pos (Nat.zero_le _), List.drop_zero] at hrun
  obtain ⟨_, w', hdone, hrest⟩ := hrun
  have hsame := (turnAway_onServer (p := (· = w.own.server))).done rfl (fun _ _ => trivial) hdone
  exact ⟨w', hdone, hrest, hsame.1⟩

/-- A client is made of a connection with one call that waits, of
`sepoll_add`, and takes up room. -/
theorem newClient_run (h : Accepted x fd [] w)
    (hmax : w.own.server.numClients ≠ w.own.server.params.maxClients) (want : ℕ)
    (address : Bytes) (now : Int) (rest : List Answer) :
    ∃ a w₁, allocClient want (newClient fd address now) w rest = .done a w₁ rest ∧
      if rest = [] then ∃ w', insertNew fd a w₁ rest = .stopped w'
      else ∃ w', insertNew fd a w₁ rest = .done () w' (rest.drop 1) ∧ AtRest x w' ∧
        w'.own.server.roomLeft + 1 = w.own.server.roomLeft := by
  obtain ⟨a, w₁, halloc, hadmitted⟩ := Triple.step_run
    (allocClient_triple (X := neverFaults) want address now) id ⟨h, hmax⟩ rest fun _ _ => trivial
  have hserver : w₁.own.server = w.own.server :=
    ((allocClient_onServer (p := (· = w.own.server))).done rfl (fun _ _ => trivial) halloc).1
  refine ⟨a, w₁, halloc, ?_⟩
  have hrun := Triple.run_asks (insert_triple (X := neverFaults) (fun _ _ => trivial)) id
    (insertNew_asks fd a) hadmitted rest fun _ _ => trivial
  by_cases hnil : rest = []
  · rw [if_pos hnil]
    rwa [if_neg (by simp [hnil])] at hrun
  · rw [if_neg hnil]
    rw [if_pos (show 1 ≤ rest.length from List.length_pos_iff.mpr hnil)] at hrun
    obtain ⟨_, w', hdone, hrest⟩ := hrun
    refine ⟨w', hdone, hrest, ?_⟩
    have hsame := ((insertNew_onServer fd a).done hserver (fun _ _ => trivial) hdone).1
    obtain ⟨hle, hfull⟩ := h.room
    have hroom : w.own.server.roomLeft ≠ 0 := fun h0 => hmax (hfull.mpr h0)
    have hlt := w.own.server.params.maxClients.toNat_lt
    rw [ServerState.roomLeft] at hroom
    have hnext : (w.own.server.numClients + 1).toNat = w.own.server.numClients.toNat + 1 := by
      rw [UInt32.toNat_add, Nat.mod_eq_of_lt]
      · rfl
      · show w.own.server.numClients.toNat + 1 < 2 ^ 32
        omega
    rw [show w'.own.server = _ from hsame, ServerState.roomLeft, ServerState.roomLeft]
    dsimp only
    omega

/-- What is done with a connection, by the answers behind it. -/
theorem takeConnection_run (address : Bytes) (h : Accepted x fd [] w) (rest : List Answer) :
    match afterConnection w.own.server.roomLeft rest with
    | none => ∃ w', takeConnection fd address w rest = .stopped w'
    | some (room, rest') => ∃ w', takeConnection fd address w rest = .done () w' rest' ∧
        AtRest x w' ∧ w'.own.server.roomLeft = room := by
  obtain ⟨-, hfull⟩ := h.room
  rw [takeConnection, Prog.bind_done (getServer_run w rest)]
  by_cases hmax : w.own.server.numClients = w.own.server.params.maxClients
  · rw [if_pos hmax, hfull.mp hmax]
    obtain ⟨w', hdone, hrest, hsame⟩ := turnAway_run h .unavailable rest
    exact ⟨w', hdone, hrest, by rw [hsame]; exact hfull.mp hmax⟩
  rw [if_neg hmax]
  obtain ⟨room, hroom⟩ := Nat.exists_eq_succ_of_ne_zero fun h0 => hmax (hfull.mpr h0)
  rw [hroom]
  cases rest with
  | nil => exact ⟨w, rfl⟩
  | cons y rest =>
    rw [Prog.bind_done (systemCall_run w y rest), afterConnection]
    cases y.malloc with
    | none =>
      obtain ⟨w', hdone, hrest, hsame⟩ := turnAway_run h .internal rest
      exact ⟨w', hdone, hrest, by rw [hsame]; exact hroom⟩
    | some want =>
      dsimp only
      obtain ⟨a, w₁, halloc, hinsert⟩ := newClient_run h hmax want address y.time rest
      rw [Prog.bind_done halloc]
      by_cases hnil : rest = []
      · rw [if_pos hnil] at hinsert ⊢
        exact hinsert
      · rw [if_neg hnil] at hinsert ⊢
        obtain ⟨w', hdone, hrest, hleft⟩ := hinsert
        exact ⟨w', hdone, hrest, by omega⟩

/-! ## The loop -/

/-- One turn of the loop. -/
theorem acceptAll_turn : ∃ body : Unit → Program (Unit ⊕ Bool),
    acceptAll = Prog.iterate body () ∧ ∀ w, AtRest x w →
      (∃ w', body () w [] = .stopped w') ∧
      (∀ (y : Answer) rest e, y.accept = .error e →
        body () w (y :: rest) = .done (.inr (e == .EAGAIN)) w rest) ∧
      ∀ (y : Answer) rest p, y.accept = .ok p →
        match afterConnection w.own.server.roomLeft rest with
        | none => ∃ w', body () w (y :: rest) = .stopped w'
        | some (room, rest') => ∃ w', body () w (y :: rest) = .done (.inl ()) w' rest' ∧
            AtRest x w' ∧ w'.own.server.roomLeft = room := by
  refine ⟨_, rfl, fun w h => ?_⟩
  obtain ⟨o, ho⟩ := Heap.object_of_mem_openFds
    (h.parts.isOpen (show w.own.server.socket ∈ _ by simp [ServerState.places]))
  refine ⟨⟨w, ?_⟩, fun y rest e hy => ?_, fun y rest p hy => ?_⟩
  all_goals rw [Prog.bind_done (getServer_run w _), Prog.bind_done (useFd_run ho _)]
  · rfl
  · rw [Prog.bind_done (systemCall_run w y rest), hy]
    rfl
  · rw [Prog.bind_done (systemCall_run w y rest), hy]
    obtain ⟨want, address⟩ := p
    have hrun := takeConnection_run address (h.accepted want) rest
    have hroom : ∀ w₁ : World, w₁.own.server = w.own.server →
        w₁.own.server.roomLeft = w.own.server.roomLeft := fun _ h => by rw [h]
    rw [hroom _ rfl] at hrun
    dsimp only
    rw [Prog.bind_done (show openFd want .connection w rest = .done _ _ rest from rfl),
      Prog.bind_done (show setHolding _ _ rest = .done () _ rest from rfl)]
    cases hafter : afterConnection w.own.server.roomLeft rest with
    | none =>
      rw [hafter] at hrun
      obtain ⟨w', hstop⟩ := hrun
      exact ⟨w', by rw [Prog.bind_run, hstop]⟩
    | some q =>
      rw [hafter] at hrun
      obtain ⟨w', hdone, hrest, hleft⟩ := hrun
      exact ⟨w', by rw [Prog.bind_done hdone]; rfl, hrest, hleft⟩

theorem afterConnection_length {room room' : ℕ} {rest rest' : List Answer}
    (h : afterConnection room rest = some (room', rest')) : rest'.length ≤ rest.length := by
  unfold afterConnection at h
  split at h
  · cases h
    exact Nat.le_refl _
  · cases h
  · split at h
    · cases h
      exact Nat.le_succ _
    · split at h
      · cases h
      · cases h
        simp only [List.length_cons, List.length_drop]
        omega

/-- **The loop returns** if and only if a call of `accept4` fails, and
what it returns says whether that was for `EAGAIN`. -/
theorem acceptAll_run (h : AtRest x w) (ans : List Answer) :
    (∃ e w' rest, AcceptFails w.own.server.roomLeft ans e ∧
      acceptAll w ans = .done (e == .EAGAIN) w' rest) ∨
    (∃ w', acceptAll w ans = .stopped w') ∧ ∀ e, ¬ AcceptFails w.own.server.roomLeft ans e := by
  obtain ⟨body, hbody, hturn⟩ := acceptAll_turn (x := x)
  rw [hbody]
  have key : ∀ (N : ℕ) (ans : List Answer) w, ans.length < N → AtRest x w →
      (∃ e w' rest, AcceptFails w.own.server.roomLeft ans e ∧
        Prog.iterateN body N () w ans = .done (e == .EAGAIN) w' rest) ∨
      (∃ w', Prog.iterateN body N () w ans = .stopped w') ∧
        ∀ e, ¬ AcceptFails w.own.server.roomLeft ans e := by
    intro N
    induction N with
    | zero => exact fun _ _ hlt => absurd hlt (Nat.not_lt_zero _)
    | succ N ih =>
      intro ans w hlt h
      obtain ⟨hnil, herror, hok⟩ := hturn w h
      cases ans with
      | nil =>
        obtain ⟨w', hstop⟩ := hnil
        exact Or.inr ⟨⟨w', by rw [Prog.iterateN_succ, hstop]⟩, nofun⟩
      | cons y rest =>
        rw [Prog.iterateN_succ]
        cases hy : y.accept with
        | error e =>
          refine Or.inl ⟨e, w, rest, .here hy, ?_⟩
          rw [herror y rest e hy]
        | ok p =>
          have hone := hok y rest p hy
          cases hafter : afterConnection w.own.server.roomLeft rest with
          | none =>
            rw [hafter] at hone
            obtain ⟨w', hstop⟩ := hone
            refine Or.inr ⟨⟨w', by rw [hstop]⟩, fun e hf => ?_⟩
            cases hf with
            | here hy' => rw [hy] at hy'; cases hy'
            | later _ hafter' _ => rw [hafter] at hafter'; cases hafter'
          | some q =>
            obtain ⟨room, rest'⟩ := q
            rw [hafter] at hone
            obtain ⟨w', hdone, hrest, hleft⟩ := hone
            have hshort := afterConnection_length hafter
            rw [hdone]
            rcases ih rest' w' (by simp only [List.length_cons] at hlt; omega) hrest with
              ⟨e, w'', rest'', hf, hrun⟩ | ⟨hstop, hnone⟩
            · exact Or.inl ⟨e, w'', rest'', .later hy hafter (hleft ▸ hf), hrun⟩
            · refine Or.inr ⟨hstop, fun e hf => ?_⟩
              cases hf with
              | here hy' => rw [hy] at hy'; cases hy'
              | later _ hafter' hf' =>
                rw [hafter] at hafter'
                cases hafter'
                exact hnone e (hleft ▸ hf')
  exact key _ ans w (Nat.lt_succ_self _) h

/-- There is at most one failing call. -/
theorem AcceptFails.unique {room : ℕ} {e' : Errno} (h : AcceptFails room ans e)
    (h' : AcceptFails room ans e') : e = e' := by
  induction h with
  | here hy =>
    cases h' with
    | here hy' => exact Except.error.inj (hy.symm.trans hy')
    | later hy' _ _ => rw [hy] at hy'; cases hy'
  | later hy hafter _ ih =>
    cases h' with
    | here hy' => rw [hy] at hy'; cases hy'
    | later hy' hafter' hf' =>
      rw [hafter] at hafter'
      cases hafter'
      exact ih hf'

/-! ## The connections that were accepted -/

/-- A connection is a listed client's, or it is closed and got one error
menu. -/
def LookedAfter (w : World) (n : ℕ) : Prop :=
  (∃ a c, a ∈ w.own.server.clients ∧ w.own.mem.cell a = some c ∧
    c.socket ∈ w.own.fds.openFds ∧ w.own.fds.serialOf c.socket = n) ∨
  n ∈ w.own.fds.freed ∧ ∃ m, w.own.log n = [.menu m]

/-- What a step has to keep for a connection to stay looked after. -/
theorem LookedAfter.mono (h : LookedAfter w n)
    (hclients : w.own.server.clients ⊆ w'.own.server.clients)
    (hcell : ∀ a c, w.own.mem.cell a = some c → w'.own.mem.cell a = some c)
    (hopen : ∀ fd ∈ w.own.fds.openFds, w.own.fds.serialOf fd = n →
      fd ∈ w'.own.fds.openFds ∧ w'.own.fds.serialOf fd = n)
    (hfreed : w.own.fds.freed ⊆ w'.own.fds.freed) (hlog : w'.own.log n = w.own.log n) :
    LookedAfter w' n := by
  rcases h with ⟨a, c, ha, hc, ho, hs⟩ | ⟨hf, m, hm⟩
  · exact Or.inl ⟨a, c, hclients ha, hcell a c hc, hopen c.socket ho hs⟩
  · exact Or.inr ⟨hfreed hf, m, hlog.trans hm⟩

/-- Every connection from serial number `k` on is looked after, apart from
the one that `server_socket` holds, if it holds one. -/
structure Tracked (k : ℕ) (w : World) : Prop where
  unused : ∀ n, w.own.fds.allocated ≤ n → w.own.log n = []
  all : ∀ n, k ≤ n → n < w.own.fds.allocated → LookedAfter w n

structure Tracking (k : ℕ) (fd : Int) (L : List Action) (w : World) : Prop where
  unused : ∀ n, w.own.fds.allocated ≤ n → w.own.log n = []
  isOpen : fd ∈ w.own.fds.openFds
  log : w.own.log (w.own.fds.serialOf fd) = L
  others : ∀ n, k ≤ n → n < w.own.fds.allocated → n ≠ w.own.fds.serialOf fd → LookedAfter w n

/-- A step that changes nothing of this. -/
structure Unseen (w w' : World) : Prop where
  clients : w'.own.server.clients = w.own.server.clients
  mem : w'.own.mem = w.own.mem
  fds : w'.own.fds = w.own.fds
  log : w'.own.log = w.own.log

theorem Unseen.lookedAfter (h : Unseen w w') (ha : LookedAfter w n) : LookedAfter w' n := by
  refine ha.mono ?_ (fun _ _ hc => ?_) (fun _ ho hs => ?_) ?_ (by rw [h.log])
  · rw [h.clients]
    exact List.Subset.refl _
  · rw [h.mem]
    exact hc
  · rw [h.fds]
    exact ⟨ho, hs⟩
  · rw [h.fds]
    exact List.Subset.refl _

theorem Unseen.unused (h : Unseen w w') (ha : ∀ n, w.own.fds.allocated ≤ n → w.own.log n = [])
    (n : ℕ) (hn : w'.own.fds.allocated ≤ n) : w'.own.log n = [] := by
  rw [h.fds] at hn
  rw [h.log]
  exact ha n hn

theorem Unseen.tracked (h : Unseen w w') (ha : Tracked k w) : Tracked k w' :=
  ⟨h.unused ha.unused, fun n hk hn => h.lookedAfter (ha.all n hk (h.fds ▸ hn))⟩

theorem Unseen.tracking {L : List Action} (h : Unseen w w') (ha : Tracking k fd L w) :
    Tracking k fd L w' := by
  refine ⟨h.unused ha.unused, ?_, ?_, fun n hk hn hne => ?_⟩
  · rw [h.fds]
    exact ha.isOpen
  · rw [h.log, h.fds]
    exact ha.log
  · rw [h.fds] at hn hne
    exact h.lookedAfter (ha.others n hk hn hne)

/-- A connection is accepted. -/
theorem Tracked.opened (h : Tracked k w) (want : Int) :
    Tracking k (w.own.fds.openFd want .connection).2 []
      { w with own := { w.own with fds := (w.own.fds.openFd want .connection).1 } } := by
  have hserial := Heap.openFd_serialOf_self w.own.fds want .connection
  refine ⟨fun n hn => h.unused n ?_, by simp, ?_, fun n hk hn hne => ?_⟩
  · have hle : w.own.fds.allocated + 1 ≤ n := hn
    omega
  · show w.own.log ((w.own.fds.openFd want .connection).1.serialOf _) = []
    rw [hserial]
    exact h.unused _ (Nat.le_refl _)
  · have hlt : n < w.own.fds.allocated + 1 := hn
    have hold : n ≠ w.own.fds.allocated := fun he => hne (he.trans hserial.symm)
    refine (h.all n hk (by omega)).mono (List.Subset.refl _) (fun _ _ hc => hc) (fun fd ho hs => ?_)
      (List.Subset.refl _) rfl
    exact ⟨by simp [ho], (Heap.openFd_serialOf_of_mem ho).trans hs⟩

/-- Something is written down about it. -/
theorem note_tracking {L : List Action} {act : Action} :
    Triple anyRun (Tracking k fd L) (note fd act) (fun _ => Tracking k fd (L ++ [act])) := by
  refine Triple.step_map trivial fun w _ h _ => ?_
  have hlt := Heap.serialOf_lt h.isOpen
  refine ⟨fun n hn => ?_, h.isOpen, ?_, fun n hk hn hne => ?_⟩
  · have hne : n ≠ w.own.fds.serialOf fd := fun he => by
      have hle : w.own.fds.allocated ≤ n := hn
      omega
    exact (Function.update_of_ne hne _ _).trans (h.unused n hn)
  · show Function.update w.own.log _ _ (w.own.fds.serialOf fd) = _
    rw [Function.update_self, h.log]
  · exact (h.others n hk hn hne).mono (List.Subset.refl _) (fun _ _ hc => hc)
      (fun _ ho hs => ⟨ho, hs⟩) (List.Subset.refl _) (Function.update_of_ne hne _ _)

/-- It is turned away. -/
theorem turnAway_tracked :
    Triple anyRun (Tracking k fd []) (turnAway fd m) (fun _ => Tracked k) := by
  refine Triple.bind note_tracking fun _ => ?_
  refine Triple.bind (R := fun _ => Tracked k) (Triple.step_partial trivial fun w w' _ h hw => ?_)
    fun _ => Triple.modify fun w h => Unseen.tracked (w := w) ⟨rfl, rfl, rfl, rfl⟩ h
  split at hw
  · cases hw
  rw [Heap.closeFd_eq h.isOpen, Option.map_some, Option.some.injEq, Prod.mk.injEq] at hw
  obtain ⟨rfl, -⟩ := hw
  have hfreed : (w.own.fds.closedFd fd h.isOpen).freed
      = w.own.fds.freed ++ [w.own.fds.serialOf fd] := rfl
  refine ⟨h.unused, fun n hk hn => ?_⟩
  by_cases hne : n = w.own.fds.serialOf fd
  · subst hne
    refine Or.inr ⟨?_, m, h.log⟩
    show _ ∈ (w.own.fds.closedFd fd h.isOpen).freed
    rw [hfreed]
    exact List.mem_append_right _ (List.mem_singleton_self _)
  · refine (h.others n hk hn hne).mono (List.Subset.refl _) (fun _ _ hc => hc) (fun fd' ho hs => ?_)
      ?_ rfl
    · have hfd : fd' ≠ fd := fun he => hne (by rw [← hs, he])
      refine ⟨?_, hs⟩
      show fd' ∈ (w.own.fds.closedFd fd h.isOpen).openFds
      rw [Heap.closedFd_openFds, w.own.fds.openFds_nodup.mem_erase_iff]
      exact ⟨hfd, ho⟩
    · show _ ⊆ (w.own.fds.closedFd fd h.isOpen).freed
      rw [hfreed]
      exact List.subset_append_left _ _

/-- It becomes a client. -/
theorem allocClient_tracking {want : ℕ} {now : Int} :
    Triple anyRun (Tracking k fd []) (allocClient want (newClient fd address now))
      (fun a w => (∃ c, w.own.mem.cell a = some c ∧ c.socket = fd) ∧ Tracking k fd [] w) := by
  refine Triple.step_partial trivial fun w w' a h hw => ?_
  obtain ⟨rfl, rfl⟩ := Prod.mk.inj (Option.some.inj hw)
  refine ⟨⟨_, Heap.alloc_cell_self .., rfl⟩, h.unused, h.isOpen, h.log, fun n hk hn hne => ?_⟩
  exact (h.others n hk hn hne).mono (List.Subset.refl _)
    (fun a c hc => (Heap.alloc_cell_of_live (Heap.mem_live_of_cell hc)).trans hc)
    (fun _ ho hs => ⟨ho, hs⟩) (List.Subset.refl _) rfl

theorem insertNew_tracked {a : ℕ} :
    Triple anyRun (fun w => (∃ c, w.own.mem.cell a = some c ∧ c.socket = fd) ∧ Tracking k fd [] w)
      (insertNew fd a) (fun _ => Tracked k) := by
  refine Triple.bind (Triple.bind (systemCall_keeps fun _ _ => trivial) fun y =>
    onLoop_keeps trivial fun w _ h => ?_) fun ret => ?_
  · exact ⟨h.1, Unseen.tracking (w := w) ⟨rfl, rfl, rfl, rfl⟩ h.2⟩
  refine Triple.bind (R := fun _ w => (∃ c, w.own.mem.cell a = some c ∧ c.socket = fd) ∧
    ∃ L, Tracking k fd L w) ?_ fun _ => Triple.modify fun w ⟨⟨c, hc, hs⟩, L, h⟩ => ?_
  · cases ret with
    | ok u => exact Triple.pure fun _ h => ⟨h.1, _, h.2⟩
    | error e =>
      refine Triple.step_partial trivial fun w w' v ⟨hc, h⟩ hw => ?_
      have hnoting : Triple anyRun (Tracking k fd []) (note fd .unwatched) _ := note_tracking
      have hnoted := hnoting.done h (fun _ _ => trivial) (Prog.step_done hw [])
      obtain ⟨_, _, he⟩ := Option.map_eq_some_iff.mp hw
      obtain ⟨rfl, -⟩ := Prod.mk.inj he
      exact ⟨hc, _, hnoted.1⟩
  · refine ⟨h.unused, fun n hk hn => ?_⟩
    by_cases hne : n = w.own.fds.serialOf fd
    · subst hne
      exact Or.inl ⟨a, c, List.mem_cons_self, hc, hs ▸ h.isOpen, by rw [hs]⟩
    · exact (h.others n hk hn hne).mono (List.subset_cons_self _ _) (fun _ _ hc => hc)
        (fun _ ho hs => ⟨ho, hs⟩) (List.Subset.refl _) rfl

theorem takeConnection_tracked :
    Triple anyRun (Tracking k fd []) (takeConnection fd address) (fun _ => Tracked k) := by
  refine Triple.bind getServer_keeps fun s => ?_
  refine Triple.ite (fun _ => turnAway_tracked) fun _ => ?_
  refine Triple.bind (systemCall_keeps fun _ _ => trivial) fun y => ?_
  cases y.malloc with
  | none => exact turnAway_tracked
  | some want => exact Triple.bind allocClient_tracking fun a => insertNew_tracked

/-- **No connection is lost** on the way. -/
theorem acceptAll_tracked : Triple anyRun (Tracked k) acceptAll (fun _ => Tracked k) := by
  refine Triple.iterate (I := fun _ => Tracked k) (fun _ _ _ => trivial) (fun _ => ?_) ()
  refine Triple.bind getServer_keeps fun s => ?_
  refine Triple.bind (useFd_keeps trivial) fun _ => ?_
  refine Triple.bind (systemCall_keeps fun _ _ => trivial) fun y => ?_
  cases y.accept with
  | error e => exact Triple.pure fun _ h => h
  | ok p =>
    obtain ⟨want, address⟩ := p
    refine Triple.bind (R := fun fd => Tracking k fd [])
      (Triple.step_partial trivial fun w w' fd h hw => ?_) fun fd => ?_
    · obtain ⟨rfl, rfl⟩ := Prod.mk.inj (Option.some.inj hw)
      exact h.opened want
    · refine Triple.bind (R := fun _ => Tracking k fd []) (Triple.modify fun w h => ?_) fun _ =>
        Triple.bind takeConnection_tracked fun _ => Triple.pure fun _ h => h
      exact Unseen.tracking (w := w) ⟨rfl, rfl, rfl, rfl⟩ h

/-! ## One call of `server_socket` -/

/-- **The listening socket is drained** unless a call of `accept4` fails
with another error than `EAGAIN`. Whatever was accepted before, in any
state a worker gets to and whatever else fails, the loop returns only
after `EAGAIN` if and only if there is no such error; and in any case each
connection it accepted is a listed client's, or got one menu and is
closed. -/
theorem accept_drains (h : Reachable .any w) (ans : List Answer) :
    ((∀ drained w' rest, acceptAll (w.withLoop w.loop.popped) ans = .done drained w' rest →
        drained = true) ↔
      ∀ e, AcceptFails w.own.server.roomLeft ans e → e = .EAGAIN) ∧
    ∀ drained w' rest, acceptAll (w.withLoop w.loop.popped) ans = .done drained w' rest →
      ∀ n, w.own.fds.allocated ≤ n → n < w'.own.fds.allocated → LookedAfter w' n := by
  obtain ⟨x, _, hrest⟩ := h.resting
  have hpopped : AtRest { x with pending := w.loop.pending.tail } (w.withLoop w.loop.popped) :=
    ⟨hrest.parts.popped, hrest.holding⟩
  refine ⟨?_, fun drained w' rest hdone => ?_⟩
  · have hroom : (w.withLoop w.loop.popped).own.server.roomLeft = w.own.server.roomLeft := rfl
    rcases acceptAll_run hpopped ans with ⟨e, w', rest, hf, hdone⟩ | ⟨⟨w', hstop⟩, hnone⟩
    · rw [hroom] at hf
      constructor
      · intro hall e' hf'
        have := hall _ w' rest hdone
        rw [← hf.unique hf']
        simpa using this
      · intro hall drained w'' rest' hdone'
        rw [hdone] at hdone'
        cases hdone'
        simp [hall e hf]
    · refine iff_of_true (fun drained w'' rest' hdone => ?_) fun e hf => absurd hf (hnone e)
      rw [hstop] at hdone
      cases hdone
  · have htracked : Tracked w.own.fds.allocated (w.withLoop w.loop.popped) :=
      ⟨fun n hn => hrest.parts.unused n hn, fun n hk hn => absurd hn (Nat.not_lt.mpr hk)⟩
    exact (acceptAll_tracked.done htracked (fun _ _ => trivial) hdone).1.all

/-- One connection becomes a client, and for the other there is no memory. -/
theorem accept_drains_two : ∃ w w' rest, Reachable .any w ∧
    acceptAll (w.withLoop w.loop.popped)
        [{ accept := .ok (8, ascii "127.0.0.1") }, { malloc := some 1 },
          { loop := { malloc := some 4 } }, { accept := .ok (9, ascii "127.0.0.1") }, again,
          again] = .done true w' rest ∧ LookedAfter w' 5 ∧ LookedAfter w' 6 := by
  have h : ((do register; batches 0 : Program Int) smallWorker (asked.take 4)).Returns fun _ w =>
      w.own.fds.allocated = 5 ∧ (acceptAll (w.withLoop w.loop.popped)
          [{ accept := .ok (8, ascii "127.0.0.1") }, { malloc := some 1 },
            { loop := { malloc := some 4 } }, { accept := .ok (9, ascii "127.0.0.1") }, again,
            again]).Returns
        fun drained w' => drained = true ∧ w'.own.fds.allocated = 7 := by decide +kernel
  obtain ⟨w, hreach, hbefore, hrun⟩ := reachable_of_batches h
  obtain ⟨_, w', rest, hdone, rfl, hafter⟩ := hrun.state
  have hall := (accept_drains hreach _).2 _ _ _ hdone
  exact ⟨w, w', rest, hreach, hdone, hall 5 (by omega) (by omega), hall 6 (by omega) (by omega)⟩

/-- A connection was aborted by the other side (`ECONNABORTED`) before it
was accepted; the loop returns, and the one behind it still waits. -/
theorem accept_stranded : ∃ w w', Reachable .any w ∧ w.own.server.roomLeft = 2 ∧
    acceptAll (w.withLoop w.loop.popped)
        [{ accept := .error (.other 103) }, { accept := .ok (8, ascii "127.0.0.1") }]
      = .done false w' [{ accept := .ok (8, ascii "127.0.0.1") }] := by
  have h : ((do register; batches 0 : Program Int) smallWorker (asked.take 4)).Returns fun _ w =>
      w.own.server.roomLeft = 2 := by decide +kernel
  obtain ⟨w, hreach, hroom⟩ := reachable_of_batches h
  obtain ⟨x, _, hrest⟩ := hreach.resting
  obtain ⟨body, hbody, hturn⟩ := acceptAll_turn (x := { x with pending := w.loop.pending.tail })
  have hfirst := (hturn (w.withLoop w.loop.popped) ⟨hrest.parts.popped, hrest.holding⟩).2.1
    { accept := .error (.other 103) } [{ accept := .ok (8, ascii "127.0.0.1") }] _ rfl
  refine ⟨w, w.withLoop w.loop.popped, hreach, hroom, ?_⟩
  rw [hbody, Prog.iterate, Prog.iterateN_succ, hfirst]
  rfl

end Sgopher.Server
