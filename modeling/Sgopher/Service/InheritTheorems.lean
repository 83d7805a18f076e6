/-
Sgopher.Service.InheritTheorems — a CGI program has the descriptors that
are documented, and no other.

A worker starts with the table that the redirection left, whatever was
forked before it (`spawn_child`); of what it opens, its settings fill the
first three numbers, so that a client's socket never gets one of them
(`Serves.lowest`); and everything it opens is gone at `execve`, but for the
copy that `dup2` made of the socket (`program_inherits`).

Of a server that was started with its standard descriptors and no other,
every run of a worker has such a table at every moment, and the programs
it executes have these descriptors (`run_inherits`).

No `sorry`, no `axiom`, no `native_decide`.
-/
import Mathlib.Data.List.Induction
import Sgopher.Server.ToldTheorems
import Sgopher.Service.Processes

namespace Sgopher.Service

open Sgopher.Lib

variable {t t₀ t₁ base : Fds} {x : Redirection} {h : Heap Server.Object}

/-! ## The redirection -/

/-- What is where the server put `/dev/null`. -/
def null : Entry Ref := ⟨.devnull, false⟩

/-- What the redirection leaves. -/
structure Redirected (t₀ t₁ : Fds) : Prop where
  stdin : t₁.get STDIN_FILENO = (t₀.get STDIN_FILENO).map fun _ => null
  rest : ∀ fd, fd ≠ STDIN_FILENO → fd ≠ STDOUT_FILENO → t₁.get fd = t₀.get fd

/-- `/dev/null` over standard input and over standard output, and closed
again; where it was opened as one of the two, that one stays closed. -/
theorem openNew_redirected (t : Fds) :
    Redirected t (((t.openNew .devnull false).1.dup2 t.lowest STDIN_FILENO).dup2 t.lowest
      STDOUT_FILENO |>.close t.lowest) := by
  have hopen : (t.openNew .devnull false).1.get t.lowest = some null := FdTable.openNew_get_self
  have hstdin : ((t.openNew .devnull false).1.dup2 t.lowest STDIN_FILENO).get t.lowest =
      some null := by
    rw [FdTable.dup2_get hopen, hopen]
    exact ite_self _
  have hget : ∀ fd, fd ≠ t.lowest → (t.openNew .devnull false).1.get fd = t.get fd :=
    fun fd he => FdTable.openNew_get_of_ne he
  constructor
  · rw [FdTable.close_get, FdTable.dup2_get hstdin, FdTable.dup2_get hopen]
    by_cases he : STDIN_FILENO = t.lowest
    · rw [he, if_pos rfl, t.get_lowest]
      rfl
    · have hlt : STDIN_FILENO < t.lowest := Nat.pos_of_ne_zero (Ne.symm he)
      obtain ⟨e, hsome⟩ := Option.isSome_iff_exists.mp (FdTable.isSome_of_lt_lowest hlt)
      rw [if_neg (by exact_mod_cast he), if_neg (by decide), if_pos rfl, hsome]
      rfl
  · intro fd h0 h1
    rw [FdTable.close_get, FdTable.dup2_get hstdin, FdTable.dup2_get hopen, if_neg h1, if_neg h0]
    by_cases he : fd = t.lowest
    · rw [he, if_pos rfl, t.get_lowest]
    · rw [if_neg (by exact_mod_cast he), hget fd he]

theorem redirect_redirected (hr : redirect x t₀ = some t₁) : Redirected t₀ t₁ := by
  obtain ⟨devnull, stdin, stdout⟩ := x
  cases devnull with
  | some _ => cases hr
  | none =>
    cases stdin with
    | some _ => cases hr
    | none =>
      cases stdout with
      | some _ => cases hr
      | none =>
        obtain rfl := Option.some.inj hr
        exact openNew_redirected t₀

/-! ## The fork -/

/-- The descriptors of the workers are what the supervisor has more than
it had. -/
structure Spawns (t : Fds) (s : Spawning) : Prop where
  rest : ∀ fd : Nat, (fd : Int) ∉ s.pidfds → s.table.get fd = t.get fd
  apart : ∀ fd : Nat, (fd : Int) ∈ s.pidfds → t.get fd = none

theorem Spawns.sfork {s : Spawning} (hs : Spawns t s) (forked : Bool) :
    Spawns t (s.sfork forked) := by
  cases forked with
  | false =>
    have hmem : ∀ fd : Nat, (fd : Int) ∈ s.pidfds ++ [-1] ↔ (fd : Int) ∈ s.pidfds := by
      intro fd
      rw [List.mem_append, List.mem_singleton]
      exact or_iff_left (by omega)
    exact ⟨fun fd hm => hs.rest fd (hm ∘ (hmem fd).mpr), fun fd hm => hs.apart fd ((hmem fd).mp hm)⟩
  | true =>
    have hmem : ∀ fd : Nat, (fd : Int) ∈ s.pidfds ++ [(s.table.lowest : Int)] ↔
        (fd : Int) ∈ s.pidfds ∨ fd = s.table.lowest := by
      intro fd
      rw [List.mem_append, List.mem_singleton, Int.natCast_inj]
    constructor
    · intro fd hm
      obtain ⟨hold, hne⟩ := not_or.mp (hm ∘ (hmem fd).mpr)
      exact (FdTable.openNew_get_of_ne hne).trans (hs.rest fd hold)
    · intro fd hm
      by_cases hold : (fd : Int) ∈ s.pidfds
      · exact hs.apart fd hold
      · obtain rfl := ((hmem fd).mp hm).resolve_left hold
        exact (hs.rest _ hold).symm.trans s.table.get_lowest

theorem spawn_spawns (t : Fds) (forked : List Bool) : Spawns t (spawn t forked) := by
  induction forked using List.reverseRecOn with
  | nil => exact ⟨fun _ _ => rfl, fun _ hm => absurd hm List.not_mem_nil⟩
  | append_singleton forked b ih =>
    rw [spawn, List.foldl_concat]
    exact ih.sfork b

/-- A field that is -1 closes nothing. -/
theorem foldl_close_get (pidfds : List Int) (t : Fds) (fd : Nat) :
    (pidfds.foldl FdTable.close t).get fd = if (fd : Int) ∈ pidfds then none else t.get fd := by
  induction pidfds generalizing t with
  | nil => rw [if_neg List.not_mem_nil]; rfl
  | cons pidfd pidfds ih =>
    rw [List.foldl_cons, ih, FdTable.close_get]
    by_cases he : (fd : Int) = pidfd <;> simp [he]

/-- A worker has the table the supervisor had before it forked any,
whichever worker it is and whichever forks failed. -/
theorem spawn_child (t : Fds) (forked : List Bool) : (spawn t forked).child = t := by
  ext1
  funext fd
  have hs := spawn_spawns t forked
  rw [Spawning.child, foldl_close_get]
  split
  · exact (hs.apart fd ‹_›).symm
  · exact hs.rest fd ‹_›

/-! ## The worker -/

theorem setUp_exec (t : Fds) : (setUp t).exec = t.exec := by
  simp only [setUp, openSetting, FdTable.exec_openNew]

/-- Its settings take what was left of the first three numbers. -/
theorem setUp_filled (t : Fds) : (setUp t).Filled 3 := by
  have h0 : t.Filled 0 := fun _ h => absurd h (Nat.not_lt_zero _)
  have h5 : (setUp t).Filled 5 :=
    ((((h0.openNew _ _).openNew _ _).openNew _ _).openNew _ _).openNew _ _
  exact h5.mono (by decide)

/-- The kernel's choice is one that `Serves` allows for. -/
theorem Serves.lowest (hu : Serves (setUp base) t h) (o : Server.Object) :
    Serves (setUp base) (t.openNew (.served h.allocated o) true).1 (h.openFd t.lowest o).1 :=
  FdTable.Uses.lowest hu (setUp_filled _) o

/-! ## The program -/

/-- The socket takes the place of standard output, and what else was
opened is gone. -/
theorem program_get (hu : Serves base t h) {socket : Nat} {o : Server.Object}
    (hsocket : h.object socket = some o) (dirfd : Int) (fd : Nat) :
    (program t dirfd socket).get fd =
      if fd = STDOUT_FILENO then some ⟨.served (h.serialOf socket) o, false⟩
      else base.exec.get fd := by
  have hshows := hu.shows
  have hopen := hshows.own socket o hsocket
  -- the number of a socket is never a low one
  have hne : socket ≠ STDOUT_FILENO := by
    have hge := (Heap.mem_openFds.mp (Heap.mem_openFds_of_object hsocket)).1
    unfold STDOUT_FILENO
    omega
  rw [← hshows.exec]
  unfold program
  by_cases hdirfd : dirfd < 0
  · simp only [if_pos hdirfd]
    rw [FdTable.exec_dup2_get (FdTable.openNew_get_of_open hopen) hne, FdTable.exec_openNew]
  · simp only [if_neg hdirfd]
    exact FdTable.exec_dup2_get hopen hne

/-- What a program has that is executed for a client: of a server that
was started with `t₀`, and with the socket as its standard output. -/
structure Inherits (t₀ p : Fds) (socket : Ref) : Prop where
  stdin : p.get STDIN_FILENO = (t₀.get STDIN_FILENO).map fun _ => null
  stdout : p.get STDOUT_FILENO = some ⟨socket, false⟩
  rest : ∀ fd, STDOUT_FILENO < fd → p.get fd = t₀.exec.get fd

theorem Redirected.inherits (hr : Redirected t₀ t₁) (hbase : base.exec = t₁.exec)
    (hu : Serves base t h) {socket : Nat} {o : Server.Object} (hsocket : h.object socket = some o)
    (dirfd : Int) : Inherits t₀ (program t dirfd socket) (.served (h.serialOf socket) o) := by
  have hget := program_get hu hsocket dirfd
  rw [hbase] at hget
  refine ⟨?_, ?_, fun fd hlt => ?_⟩
  · rw [hget, if_neg (by decide), FdTable.exec_get, hr.stdin]
    cases t₀.get STDIN_FILENO <;> rfl
  · rw [hget, if_pos rfl]
  · have h0 : fd ≠ STDIN_FILENO := Nat.ne_zero_of_lt hlt
    have h1 : fd ≠ STDOUT_FILENO := Nat.ne_of_gt hlt
    rw [hget, if_neg h1, FdTable.exec_get, FdTable.exec_get, hr.rest fd h0 h1]

/-- The descriptors of a CGI program, whatever the server was started
with, whichever worker serves the client, and whatever that has opened and
closed by then: `/dev/null` as its standard input (which stays closed if
the server was started without one), the client's socket as its standard
output, and from its standard error on what the server was started with. -/
theorem program_inherits (hr : redirect x t₀ = some t₁) (forked : List Bool)
    (hu : Serves (setUp (spawn t₁ forked).child) t h) {socket : Nat}
    (hsocket : h.object socket = some .connection) (dirfd : Int) :
    (program t dirfd socket).get STDIN_FILENO = (t₀.get STDIN_FILENO).map (fun _ => null) ∧
    (program t dirfd socket).get STDOUT_FILENO =
      some ⟨.served (h.serialOf socket) .connection, false⟩ ∧
    ∀ fd, STDOUT_FILENO < fd → (program t dirfd socket).get fd = t₀.exec.get fd := by
  have hbase : (setUp (spawn t₁ forked).child).exec = t₁.exec := by rw [spawn_child, setUp_exec]
  have hinherits := (redirect_redirected hr).inherits hbase hu hsocket dirfd
  exact ⟨hinherits.stdin, hinherits.stdout, hinherits.rest⟩

/-- A server that was started with its standard descriptors only. -/
def terminal : Fds where
  get fd := if fd < 3 then some ⟨.started fd, false⟩ else none
  finite := ⟨3, fun _ h => if_neg (Nat.not_lt.mpr h)⟩

/-- Its worker before anyone is served, where one fork failed. -/
def readied : Fds := setUp (spawn ((redirect {} terminal).getD terminal) [true, false]).child

/-- It accepts two clients. -/
def oneClient : Heap Server.Object := (Heap.empty.openFd readied.lowest .connection).1

def oneOpen : Fds := (readied.openNew (.served 0 .connection) true).1

theorem readied_oneOpen : Serves readied oneOpen oneClient :=
  Serves.lowest .start Server.Object.connection

theorem program_inherits_terminal :
    let t := (oneOpen.openNew (.served 1 .connection) true).1
    let p := program t (-1) oneOpen.lowest
    p.get 0 = some null ∧ p.get 1 = some ⟨.served 1 .connection, false⟩ ∧
      p.get 2 = some ⟨.started 2, false⟩ ∧ p.get 7 = none := by
  have hu := readied_oneOpen.lowest Server.Object.connection
  have hnumber := readied_oneOpen.shows.number (setUp_filled _) Server.Object.connection
  have hobject := Heap.openFd_object_self oneClient oneOpen.lowest Server.Object.connection
  have hserial := Heap.openFd_serialOf_self oneClient oneOpen.lowest Server.Object.connection
  rw [hnumber] at hobject hserial
  have hredirect : redirect {} terminal = some ((redirect {} terminal).getD terminal) := rfl
  obtain ⟨h0, h1, h2⟩ := program_inherits hredirect [true, false] hu hobject (-1)
  rw [hserial] at h1
  exact ⟨h0, h1, h2 2 (by decide), h2 7 (by decide)⟩

/-! ## Runs -/

/-- The worker has come to some table. -/
def Reached (base : Fds) (k : Server.Worker) : Prop := ∃ t, Serves base t k.fds

theorem Reached.lifelong (honly : ∀ fd, 3 ≤ fd → base.get fd = none) :
    Server.Proc.Lifelong (fun _ => True) (Reached base) where
  same h hfds _ := by rwa [Reached, hfds]
  opened want o := fun ⟨_, hu⟩ => hu.given honly want o
  closed := fun ⟨_, hu⟩ hc => ⟨_, hu.closed hc⟩
  told _ _ h := h

/-- **Every run of a worker**, wherever it gets to, where the server was
started with no more than its standard descriptors: its open descriptors
are those of a table it can have, and a program it executes for one of its
clients has the documented descriptors. -/
theorem run_inherits (honly : ∀ fd, 3 ≤ fd → t₀.get fd = none) (hr : redirect x t₀ = some t₁)
    (forked : List Bool) (params : Server.Params) (limit : Server.Rlimit)
    (ans : List Server.ProcAnswer) :
    (Server.Proc.serverProcess params (.forked params limit) ans).Always fun p =>
      ∃ t, Serves (spawn t₁ forked).child t p.world.own.fds ∧
        ∀ socket : Nat, p.world.own.fds.object socket = some .connection → ∀ dirfd : Int,
          Inherits t₀ (program t dirfd socket)
            (.served (p.world.own.fds.serialOf socket) .connection) := by
  have hredirected := redirect_redirected hr
  have hnone : ∀ fd, 3 ≤ fd → t₁.get fd = none := fun fd hge => by
    rw [hredirected.rest fd (Nat.ne_of_gt (by unfold STDIN_FILENO; omega))
      (Nat.ne_of_gt (by unfold STDOUT_FILENO; omega)), honly fd hge]
  rw [spawn_child]
  have hkeeps : Server.Proc.KeepsWorker (fun _ => True) (Reached t₁)
      (Server.Proc.serverProcess params) :=
    Server.Proc.serverProcess_lifelong (Reached.lifelong hnone)
  have hstart : Reached t₁ (Server.Proc.forked params limit).world.own := ⟨t₁, .start⟩
  refine (hkeeps.always hstart fun _ _ => trivial).imp fun p ⟨t, hu⟩ => ?_
  exact ⟨t, hu, fun socket hsocket dirfd => hredirected.inherits rfl hu hsocket dirfd⟩

end Sgopher.Service
