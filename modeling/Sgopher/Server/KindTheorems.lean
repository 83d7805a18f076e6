/-
Sgopher.Server.KindTheorems — what a worker makes of a file, by its mode.

The kernel has opened the path of a request and told the attributes of the
file. Whatever the worker does then begins with a call: it opens an index
in a directory, forks a child for a program, or registers the socket for
the transfer of another regular file. Its state at that call, and the log
of the one behind it, show what it takes the file for
(`asDirectory_iff`, `executes_iff`).

No `sorry`, no `axiom`, no `native_decide`.
-/
import Sgopher.Server.ExecTheorems
import Sgopher.Server.FootprintTheorems

namespace Sgopher.Server

open Sgopher.Lib Sgopher.Sepoll

variable {w : World} {a : Nat} {c : Client} {f : File} {path filename query : Bytes}
  {x y z : Answer} {want : Int} {k : ForkAnswer}

/-! ## What can be seen -/

/-- The worker has the file open as the directory of its client, and waits
for what it finds there. -/
def AsDirectory (w : World) (a : Nat) (ans : List Answer) (f : File) : Prop :=
  (serveRequest a w ans).Stops fun v =>
    ∃ c, v.own.mem.cell a = some c ∧ 0 ≤ c.dirfd ∧ v.own.fds.object c.dirfd = some (.file f)

/-- The worker has the file open for its client. -/
def HasOpen (w : World) (a : Nat) (ans : List Answer) (f : File) : Prop :=
  (serveRequest a w ans).Stops fun v =>
    ∃ c, v.own.mem.cell a = some c ∧ v.own.fds.object c.file = some (.file f)

/-- A child was run. -/
def RunsChild (w : World) (a : Nat) (ans : List Answer) : Prop :=
  (serveRequest a w ans).Stops fun v =>
    ∃ n child new, v.own.log n = w.own.log n ++ new ∧ .cgi child ∈ new

/-- The worker executes the file: it has it open, and with the answer to
`sfork` a child is run. -/
def Executes (w : World) (a : Nat) (ans : List Answer) (z : Answer) (f : File) : Prop :=
  HasOpen w a ans f ∧ RunsChild w a (ans ++ [z])

/-! ## The next call -/

theorem refuse_asks (a : Nat) (m : Menu) : Prog.Asks 0 (refuse a m) :=
  Prog.Asks.after Prog.Asks.step fun _ => Prog.Asks.after Prog.Asks.step fun _ =>
    Prog.Asks.after (clientDisconnect_asks a) fun _ => Prog.Asks.pure

/-- A client that is turned away waits for nothing. -/
theorem refuse_not_stops (m : Menu) (R : World → Prop) (ans : List Answer) :
    ¬ (refuse a m w ans).Stops R := by
  intro hstops
  obtain ⟨v, hrun, -⟩ := hstops.state
  have hasks := refuse_asks a m w ans
  rw [hrun] at hasks
  exact Nat.not_lt_zero _ hasks

/-- A regular file stays where it is up to the next call. -/
theorem launch_stops (filename query : Bytes) (f : File) (hcell : w.own.mem.cell a = some c)
    (hs : c.socket ∈ w.own.fds.openFds) :
    ∃ v c', launch a filename query f w [] = .stopped v ∧ v.own.mem.cell a = some c' ∧
      c'.file = c.file ∧ c'.dirfd = c.dirfd ∧ v.own.fds = w.own.fds := by
  by_cases hf : f.mode &&& S_IXOTH ≠ 0
  · refine ⟨w, c, ?_, hcell, rfl, rfl, rfl⟩
    have hstop : runCgi a filename query w [] = .stopped w := by
      rw [runCgi, Prog.bind_done (getServer_run w _), Prog.bind_done (getClient_run hcell _)]
      rfl
    rw [launch, if_pos hf, Prog.bind_run, hstop]
  · obtain ⟨o, ho⟩ := Heap.object_of_mem_openFds hs
    obtain ⟨v, hnote, hmem, hfds⟩ : ∃ v, note c.socket (.transmit f) w [] = .done () v [] ∧
        v.own.mem = w.own.mem ∧ v.own.fds = w.own.fds := ⟨_, note_run _ ho [], rfl, rfl⟩
    have hcell' : v.own.mem.cell a = some c := hmem ▸ hcell
    obtain ⟨u, hset, hu, hfds'⟩ : ∃ u,
        setClient a { c with filesize := some f.size } v [] = .done () u [] ∧
        u.own.mem.cell a = some { c with filesize := some f.size } ∧ u.own.fds = v.own.fds :=
      ⟨_, setClient_run hcell' [],
        Heap.writeLive_cell_self _ _ _ (Heap.mem_live_of_cell hcell'), rfl⟩
    refine ⟨u, _, ?_, hu, rfl, rfl, hfds'.trans hfds⟩
    have hstop : transmit a f w [] = .stopped u := by
      rw [transmit, Prog.bind_done (getClient_run hcell _), Prog.bind_done hnote,
        Prog.bind_done hset]
      rfl
    rw [launch, if_neg hf, Prog.bind_run, hstop]

theorem closeFd_run {fd : Int} (hwf : w.loop.Wf) (hreg : w.loop.reg fd = none)
    (hm : fd ∈ w.own.fds.openFds) (ans : List Answer) :
    closeFd fd w ans = .done ()
      { w with own := { w.own with fds := w.own.fds.closedFd fd hm } } ans :=
  Prog.step_done (by rw [(hwf.reg_none_iff fd).mp hreg, Heap.closeFd_eq hm]; rfl) ans

/-- A program is run by the child that is forked. -/
theorem launch_runs (filename query : Bytes) (hwf : w.loop.Wf) (hreg : w.loop.reg c.file = none)
    (hcell : w.own.mem.cell a = some c) (hs : c.socket ∈ w.own.fds.openFds)
    (hfile : c.file ∈ w.own.fds.openFds) (hf : f.mode &&& S_IXOTH ≠ 0) (hz : z.fork = some k) :
    ∃ v, launch a filename query f w [z] = .stopped v ∧
      v.own.log = childLogs w c filename query k := by
  obtain ⟨v, hrun, hloop, hfds, hcell', hlog⟩ := runCgi_run filename query hcell hs hz []
  have hm : c.file ∈ v.own.fds.openFds := by
    rw [hfds, Heap.openFd_openFds]
    exact List.mem_cons_of_mem _ hfile
  obtain ⟨u, hclose, hmem, hlog'⟩ : ∃ u, closeFd c.file v [] = .done () u [] ∧
      u.own.mem = v.own.mem ∧ u.own.log = v.own.log :=
    ⟨_, closeFd_run (hloop ▸ hwf) (hloop ▸ hreg) hm [], rfl, rfl⟩
  obtain ⟨t, hset, hlog''⟩ : ∃ t, setClient a { c with
        pidfd := (w.own.fds.openFd k.pidfd .process).2, file := -1 } u [] = .done () t [] ∧
      t.own.log = u.own.log := ⟨_, setClient_run (hmem ▸ hcell') [], rfl⟩
  refine ⟨t, (launch_run hf hrun).trans ?_, hlog''.trans (hlog'.trans hlog)⟩
  rw [Prog.bind_run, leaveToChild, Prog.bind_done hclose, Prog.bind_done hset]
  rfl

/-- What is not open is not registered. -/
theorem Asks.unregistered (h : Asks w a c) :
    w.loop.Wf ∧ ∀ fd, fd ∉ w.own.fds.openFds → w.loop.reg fd = none := by
  obtain ⟨w₀, e, ans₀, rest₀, hreceived, -, hfill⟩ := h
  obtain ⟨y, c₀, r, L, w₁, rest₁, hfill₁, -, hheld, -⟩ := hreceived.held
  obtain ⟨-, rfl, -⟩ := Outcome.done.inj (hfill.symm.trans hfill₁)
  refine ⟨hheld.busy.parts.wf, fun fd hfd => ?_⟩
  cases hreg : w.loop.reg fd with
  | none => rfl
  | some r' =>
    refine absurd ?_ hfd
    cases hheld.busy.parts.regs fd r' hreg with
    | socket _ _ _ _ _ _ ho => exact Heap.mem_openFds_of_object ho
    | pidfd _ _ _ _ ho => exact Heap.mem_openFds_of_object ho
    | server _ _ _ ho => exact Heap.mem_openFds_of_object ho

/-! ## By the mode -/

/-- **What the worker takes for a directory.** -/
theorem asDirectory_iff (h : Serving w a c) (hname : Names c.buffer path)
    (hx : x.openat = .ok (want, f)) (hy : y.fstat = none) :
    AsDirectory w a [x, y] f ↔ f.isDir = true := by
  obtain ⟨filename, filenameEnd, query, hp, hpath⟩ := hname
  obtain ⟨v, hrun, hopened⟩ := h.opened hp hpath hx [y]
  rw [AsDirectory, hrun, inspectFile_run hopened.cell hopened.object hy]
  by_cases hr : f.isReg = true
  · obtain ⟨u, c', hstop, hcell', -, hdirfd, -⟩ :=
      launch_stops filename query f hopened.cell (hopened.mem_openFds h.socket)
    rw [if_pos hr, hstop, not_isDir hr]
    refine iff_of_false (fun hstops => ?_) nofun
    obtain ⟨_, he, c'', hcell'', h0, -⟩ := hstops.state
    cases he
    cases hcell'.symm.trans hcell''
    rw [hdirfd, h.dirfd] at h0
    exact absurd h0 (by decide)
  rw [if_neg hr]
  by_cases hd : f.isDir = true
  · obtain ⟨u, hopen, hcell', hfds', -, -⟩ :=
      openIndex_run filename filenameEnd query hopened.cell hopened.object []
    have hge := Heap.openFd_ge w.own.fds want (.file f)
    rw [if_pos hd, hopen]
    exact iff_of_true ⟨u, _, hcell', by dsimp only; omega, hfds' ▸ hopened.object⟩ hd
  · rw [if_neg hd]
    exact iff_of_false (refuse_not_stops _ _ _) hd

/-- A file that is no program is not executed, whatever is answered next. -/
theorem not_runsChild (h : Serving w a c) (hx : x.openat = .ok (want, f)) (hf : ¬ IsProgram f) :
    ¬ RunsChild w a [x, y, z] := by
  intro hruns
  obtain ⟨v, hrun, n, child, new, hnew, hchild⟩ := hruns.state
  have hquiet : (serveRequest a w [x, y, z]).Always (Since w.own.log NoChild) :=
    serveRequest_quiet h fun path' index g rest hname' hfinds => by
      cases hfinds with
      | file hx' _ hf' =>
        cases hx.symm.trans hx'
        exact hf hf'
  obtain ⟨new', hnew', hall⟩ := hquiet.1 v hrun n
  obtain rfl := List.append_cancel_left (hnew.symm.trans hnew')
  exact hall _ hchild child rfl

/-- **What the worker executes.** -/
theorem executes_iff (h : Asks w a c) (hname : Names c.buffer path)
    (hx : x.openat = .ok (want, f)) (hy : y.fstat = none) (hz : z.fork = some k) :
    Executes w a [x, y] z f ↔ IsProgram f := by
  refine ⟨fun hexec => ?_, fun hf => ?_⟩
  · by_contra hf
    exact not_runsChild h.serving hx hf hexec.2
  obtain ⟨filename, filenameEnd, query, hp, hpath⟩ := hname
  have hserving := h.serving
  have hlaunch : ∀ rest, ∃ v, serveRequest a w (x :: y :: rest)
      = launch a filename query f v rest ∧ FileOpened w v a c want f := by
    intro rest
    obtain ⟨v, hrun, hopened⟩ := hserving.opened hp hpath hx (y :: rest)
    exact ⟨v, by rw [hrun, inspectFile_run hopened.cell hopened.object hy, if_pos hf.1], hopened⟩
  constructor
  · obtain ⟨v, hrun, hopened⟩ := hlaunch []
    obtain ⟨u, c', hstop, hcell', hfile, -, hfds'⟩ :=
      launch_stops filename query f hopened.cell (hopened.mem_openFds hserving.socket)
    rw [HasOpen, hrun, hstop]
    refine ⟨u, c', hcell', ?_⟩
    rw [hfile, hfds']
    exact hopened.object
  · obtain ⟨v, hrun, hopened⟩ := hlaunch [z]
    obtain ⟨hwf, hunregistered⟩ := h.unregistered
    have hreg : v.loop.reg (w.own.fds.openFd want (.file f)).2 = none := by
      rw [hopened.loop]
      exact hunregistered _ (Heap.openFd_not_mem w.own.fds want (.file f))
    obtain ⟨u, hstop, hu⟩ := launch_runs filename query (hopened.loop ▸ hwf) hreg hopened.cell
      (hopened.mem_openFds hserving.socket) (Heap.mem_openFds_of_object hopened.object) hf.2 hz
    rw [RunsChild, List.cons_append, List.cons_append, List.nil_append, hrun, hstop]
    obtain ⟨new, hnew, -⟩ := hopened.log (v.own.fds.serialOf c.socket)
    have hchild := congrFun hu (v.own.fds.serialOf c.socket)
    rw [childLogs, Function.update_self, hnew, List.append_assoc] at hchild
    exact ⟨u, _, _, _, hchild, List.mem_append_right _ List.mem_cons_self⟩

end Sgopher.Server
