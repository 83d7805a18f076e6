/-
Sgopher.Server.ExecTheorems — the program that is executed is the file
that was checked.

The worker opens the path of a request and looks at what it has opened;
the child it forks changes into a directory and executes a name there. The
child either has the directory open that the worker found an index in, or
cuts the path at its last slash. On a file system that does not change,
and resolves a path component by component, both lead to the same file
(`FileSystem.resolve_append`), for a path that leads to a file has
something behind its last slash.

The world at the fork is followed call by call: nothing between the first
`openat` and the fork can fault for a client that has sent its request.

No `sorry`, no `axiom`, no `native_decide`.
-/
import Sgopher.Lib.Resolution
import Sgopher.Server.CgiTheorems

namespace Sgopher.Server

open Sgopher.Lib Sgopher.Sepoll

variable {D : Type} {w : World} {a : Nat} {c c' : Client} {fd : Int} {f g : File}
  {path filename query : Bytes} {filenameEnd : Nat} {ans rest : List Answer}

/-! ## The path before its last slash -/

/-- What is before the last slash of a confined path is confined. -/
theorem Confined.before_slash {s t : Bytes} (h : Confined (s ++ SLASH :: t)) (ht : SLASH ∉ t) :
    Confined s := by
  have hsplit := splitOn_append_last s ht
  have hne : s.splitOn SLASH ≠ [] := List.splitOn_ne_nil _ _
  have htail : ((s ++ SLASH :: t).splitOn SLASH).tail = (s.splitOn SLASH).tail ++ [t] := by
    rw [hsplit, List.tail_append_of_ne_nil hne]
  refine ⟨?_, fun c hc => h.visible c ?_, fun c hc => h.empty_last c ?_⟩
  · rcases h.start with he | ⟨u, hu⟩
    · have := congrArg List.length he
      cases s with
      | nil => cases he
      | cons b s => simp at this
    · cases s with
      | nil => cases hu
      | cons b s =>
        cases s with
        | nil => exact Or.inl (by cases hu; rfl)
        | cons b' s => exact Or.inr ⟨s, by cases hu; rfl⟩
  · rw [htail]
    exact List.mem_append_left _ hc
  · rw [htail, List.dropLast_concat]
    exact (List.dropLast_prefix _).subset hc

/-! ## The file system -/

/-- A file system that does not change, with the content directory and what
`fstat` tells of each directory. A directory has itself under ".". -/
structure Content (D : Type) extends FileSystem UInt8 D File where
  content : D
  attributes : D → File
  attributes_isDir : ∀ d, (attributes d).isDir = true
  lookup_dot : ∀ d, lookup d [DOT] = some (.directory d)
  lookup_file : ∀ d name f, lookup d name = some (.file f) → f.isDir = false

namespace Content

variable {fs : Content D} {d : D}

/-- What a path leads to. -/
abbrev find (fs : Content D) (d : D) (path : Bytes) : Option (Node D File) :=
  fs.resolve SLASH d path

/-- What `fstat` tells. -/
def stat (fs : Content D) : Node D File → File
  | .directory d => fs.attributes d
  | .file f => f

/-- `openat` of a path gives a descriptor of `f`. -/
def Opens (fs : Content D) (d : D) (path : Bytes) (f : File) : Prop :=
  ∃ n, fs.find d path = some n ∧ fs.stat n = f

theorem Opens.file (h : fs.Opens d path f) (hf : f.isDir = false) :
    fs.find d path = some (.file f) := by
  obtain ⟨n, hn, rfl⟩ := h
  cases n with
  | directory e => exact absurd (fs.attributes_isDir e) (by simpa [stat] using hf)
  | file f => exact hn

theorem find_file (h : fs.find d path = some (.file f)) : f.isDir = false := by
  obtain ⟨-, -, hw⟩ := FileSystem.resolve_file.mp h
  obtain ⟨e, name, he⟩ := FileSystem.lookup_of_walk hw
  exact fs.lookup_file e name f he

theorem Opens.directory (h : fs.Opens d path f) (hf : f.isDir = true) :
    ∃ e, fs.find d path = some (.directory e) ∧ fs.attributes e = f := by
  obtain ⟨n, hn, rfl⟩ := h
  cases n with
  | directory e => exact ⟨e, hn, rfl⟩
  | file f => exact absurd (find_file hn) (by simpa [stat] using hf)

/-- A path that leads to a file, cut at its last slash: the directory is
below the content directory, and has the file under the name. -/
structure Cut (fs : Content D) (path pathname command : Bytes) (e : D) (f : File) : Prop where
  whole : path = pathname ++ SLASH :: command
  nonempty : command ≠ []
  slash : SLASH ∉ command
  confined : Confined pathname
  directory : fs.find fs.content pathname = some (.directory e)
  file : fs.find e command = some (.file f)

/-- **A confined path to a file** has a slash, and a name behind it. -/
theorem exists_cut (hconf : Confined path) (h : fs.find fs.content path = some (.file f)) :
    ∃ pathname command e, fs.Cut path pathname command e f := by
  obtain ⟨hne, hlast, -⟩ := FileSystem.resolve_file.mp h
  rcases strrchr_cases path SLASH with ⟨-, hn⟩ | ⟨s, t, rfl, ht, -⟩
  · -- without a slash it is ".", which leads to the directory itself
    rcases hconf.start with rfl | hpre
    · rw [find, FileSystem.resolve_name (by simp) hn, fs.lookup_dot] at h
      cases h
    · exact absurd (hpre.subset (by simp)) hn
  have hs : s ≠ [] := by
    rintro rfl
    rcases hconf.start with he | ⟨t', he⟩ <;> cases he
  have ht0 : t ≠ [] := by
    rintro rfl
    exact hlast (by simp)
  obtain ⟨e, he, hf⟩ := (FileSystem.resolve_append hs ht0 ht).mp h
  exact ⟨s, t, e, rfl, ht0, ht, hconf.before_slash ht, he, hf⟩

/-- The kernel opens what the file system has: under the path of a request,
and then under the name of an index in the directory that it leads to. -/
structure Answers (fs : Content D) (path indexfile : Bytes) (ans : List Answer) : Prop where
  file : ∀ x rest want f, ans = x :: rest → x.openat = .ok (want, f) →
    fs.Opens fs.content path f
  index : ∀ x y z rest d want g, ans = x :: y :: z :: rest →
    fs.find fs.content path = some (.directory d) → z.openat = .ok (want, g) →
    fs.Opens d indexfile g

end Content

/-! ## Opening a file -/

/-- A regular file that anybody may execute. -/
def IsProgram (f : File) : Prop := f.isReg = true ∧ f.mode &&& S_IXOTH ≠ 0

/-- Anything but a child that is run. -/
def NoChild (act : Action) : Prop := ∀ e, act ≠ .cgi e

theorem Since.trans {before : Nat → List Action} {q : Action → Prop} (h : Since before q w)
    {w' : World} (h' : Since w.own.log q w') : Since before q w' := by
  intro n
  obtain ⟨new, hnew, hall⟩ := h n
  obtain ⟨new', hnew', hall'⟩ := h' n
  refine ⟨new ++ new', by rw [hnew', hnew, List.append_assoc], fun y hy => ?_⟩
  rcases List.mem_append.mp hy with hy | hy
  · exact hall y hy
  · exact hall' y hy

theorem Since.of_log {before : Nat → List Action} {q : Action → Prop} {w' : World}
    (hlog : w'.own.log = w.own.log) (h : Since before q w) : Since before q w' :=
  h.trans fun n => ⟨[], by rw [hlog, List.append_nil], by simp⟩

/-- A descriptor of `o` was opened for a client, whose record is `c` now. -/
structure Gave (w w' : World) (a : Nat) (c : Client) (want : Int) (o : Object) : Prop where
  cell : w'.own.mem.cell a = some c
  fds : w'.own.fds = (w.own.fds.openFd want o).1
  server : w'.own.server = w.own.server
  log : w'.own.log = w.own.log

theorem take_run {β : Type} (hcell : w.own.mem.cell a = some c) (want : Int) (o : Object)
    (d : Int → Client) (k : Int → Program β) (ans : List Answer) :
    ∃ w', (do
        let fd ← openFd want o
        setClient a (d fd)
        k fd) w ans = k (w.own.fds.openFd want o).2 w' ans ∧
      w'.loop = w.loop ∧ Gave w w' a (d (w.own.fds.openFd want o).2) want o := by
  obtain ⟨w₁, hopen, hw⟩ : ∃ w₁,
      openFd want o w ans = .done (w.own.fds.openFd want o).2 w₁ ans ∧
      w₁ = { w with own := { w.own with fds := (w.own.fds.openFd want o).1 } } :=
    ⟨_, rfl, rfl⟩
  have hcell₁ : w₁.own.mem.cell a = some c := hw ▸ hcell
  refine ⟨_, (Prog.bind_done hopen).trans (Prog.bind_done (setClient_run hcell₁ ans)), ?_⟩
  subst hw
  exact ⟨rfl, Heap.writeLive_cell_self _ _ _ (Heap.mem_live_of_cell hcell), rfl, rfl, rfl⟩

namespace Gave

variable {w' : World} {want : Int} {o : Object}

theorem object (h : Gave w w' a c want o) :
    w'.own.fds.object (w.own.fds.openFd want o).2 = some o := by
  rw [h.fds]
  exact Heap.openFd_object_self ..

theorem object_of_mem (h : Gave w w' a c want o) (hfd : fd ∈ w.own.fds.openFds) :
    w'.own.fds.object fd = w.own.fds.object fd := by
  rw [h.fds]
  exact Heap.openFd_object_of_mem hfd

theorem mem_openFds (h : Gave w w' a c want o) (hfd : fd ∈ w.own.fds.openFds) :
    fd ∈ w'.own.fds.openFds := by
  rw [h.fds, Heap.openFd_openFds]
  exact List.mem_cons_of_mem _ hfd

end Gave

/-- A client whose request is complete, and for whom nothing is open yet. -/
structure Serving (w : World) (a : Nat) (c : Client) : Prop where
  cell : w.own.mem.cell a = some c
  socket : c.socket ∈ w.own.fds.openFds
  directory : w.own.server.directory ∈ w.own.fds.openFds
  dirfd : c.dirfd = -1
  buffer : c.buffer.length ≤ maxRequestSize

/-! ## From one call to the next -/

/-- `openFile`, from the call on. -/
def takeFile (a : Nat) (c : Client) (filename : Bytes) (filenameEnd : Nat) (query : Bytes) :
    Program Bool := do
  let x ← systemCall
  match x.openat with
  | .error e => do
    setClient a { c with file := -1 }
    refuse a (openMenu e)
  | .ok (want, f) => do
    let fd ← openFd want (.file f)
    setClient a { c with file := fd }
    inspectFile a filename filenameEnd query

/-- `openIndex`, from the file on. -/
def inspectIndex (a : Nat) (filename : Bytes) (filenameEnd : Nat) (query : Bytes) (fd : Int) :
    Program Bool := do
  match ← fstatFile fd with
  | .error _ => refuse a .internal
  | .ok f =>
    if f.isReg then
      match stpcpy maxFilenameSize filename filenameEnd [SLASH] with
      | none => fault
      | some (filename, _) => launch a filename query f
    else refuse a .forbidden

/-- `openIndex`, from the call on. -/
def takeIndex (a : Nat) (c : Client) (filename : Bytes) (filenameEnd : Nat) (query : Bytes) :
    Program Bool := do
  let x ← systemCall
  match x.openat with
  | .error e => do
    setClient a { c with dirfd := c.file, file := -1 }
    refuse a (openMenu e)
  | .ok (want, f) => do
    let fd ← openFd want (.file f)
    setClient a { c with dirfd := c.file, file := fd }
    inspectIndex a filename filenameEnd query fd

/-- Nothing faults before the path of the request is opened. -/
theorem Serving.openFile_run (h : Serving w a c) (hpath : cstring filename 0 = some path)
    (filenameEnd : Nat) (query : Bytes) (ans : List Answer) :
    ∃ v, openFile a filename filenameEnd query w ans
        = takeFile a c filename filenameEnd query v ans ∧
      v.loop = w.loop ∧ v.own.mem = w.own.mem ∧ v.own.fds = w.own.fds ∧
      v.own.server = w.own.server ∧ Since w.own.log NoChild v := by
  obtain ⟨o, ho⟩ := Heap.object_of_mem_openFds h.directory
  obtain ⟨o', hs⟩ := Heap.object_of_mem_openFds h.socket
  obtain ⟨v, hnote, hloop, hmem, hfds, hserver⟩ : ∃ v,
      note c.socket (.openat path) w ans = .done () v ans ∧ v.loop = w.loop ∧
      v.own.mem = w.own.mem ∧ v.own.fds = w.own.fds ∧ v.own.server = w.own.server :=
    ⟨_, note_run _ hs _, rfl, rfl, rfl, rfl⟩
  have hlog : Since w.own.log NoChild v :=
    ((note_since fun e he => by cases he).done (Since.refl w _) (fun _ _ => trivial) hnote).1
  refine ⟨v, ?_, hloop, hmem, hfds, hserver, hlog⟩
  rw [openFile, Prog.bind_done (getServer_run w _), Prog.bind_done (getClient_run h.cell _), hpath]
  dsimp only
  rw [Prog.bind_done (useFd_run ho _), Prog.bind_done hnote]
  rfl

theorem takeFile_run (filename : Bytes) (filenameEnd : Nat) (query : Bytes)
    (hcell : w.own.mem.cell a = some c) {x : Answer} {want : Int}
    (hx : x.openat = .ok (want, f)) (rest : List Answer) :
    ∃ w', takeFile a c filename filenameEnd query w (x :: rest)
        = inspectFile a filename filenameEnd query w' rest ∧ w'.loop = w.loop ∧
      Gave w w' a { c with file := (w.own.fds.openFd want (.file f)).2 } want (.file f) := by
  rw [takeFile, Prog.bind_done (systemCall_run w x rest), hx]
  exact take_run hcell want (.file f) (fun fd => { c with file := fd })
    (fun _ => inspectFile a filename filenameEnd query) rest

theorem inspectFile_run (hcell : w.own.mem.cell a = some c)
    (hfile : w.own.fds.object c.file = some (.file f)) {y : Answer} (hy : y.fstat = none)
    (rest : List Answer) :
    inspectFile a filename filenameEnd query w (y :: rest) =
      if f.isReg then launch a filename query f w rest
      else if f.isDir then openIndex a filename filenameEnd query w rest
      else refuse a .forbidden w rest := by
  rw [inspectFile, Prog.bind_done (getClient_run hcell _),
    Prog.bind_done (fstatFile_run hfile y rest), hy]
  dsimp only [Option.elim]
  split
  · rfl
  · split <;> rfl

theorem openIndex_run (filename : Bytes) (filenameEnd : Nat) (query : Bytes)
    (hcell : w.own.mem.cell a = some c) (hfile : w.own.fds.object c.file = some (.file f))
    (ans : List Answer) :
    ∃ v, openIndex a filename filenameEnd query w ans
        = takeIndex a c filename filenameEnd query v ans ∧
      v.own.mem.cell a = some { c with dirfd := c.file } ∧ v.own.fds = w.own.fds ∧
      v.own.server = w.own.server ∧ v.own.log = w.own.log := by
  obtain ⟨v, hset, hcell', hfds, hserver, hlog⟩ : ∃ v,
      setClient a { c with dirfd := c.file } w ans = .done () v ans ∧
      v.own.mem.cell a = some { c with dirfd := c.file } ∧ v.own.fds = w.own.fds ∧
      v.own.server = w.own.server ∧ v.own.log = w.own.log :=
    ⟨_, setClient_run hcell _, Heap.writeLive_cell_self _ _ _ (Heap.mem_live_of_cell hcell),
      rfl, rfl, rfl⟩
  refine ⟨v, ?_, hcell', hfds, hserver, hlog⟩
  rw [openIndex, Prog.bind_done (getClient_run hcell _), Prog.bind_done hset,
    Prog.bind_done (useFd_run (hfds ▸ hfile) _)]
  rfl

theorem takeIndex_run (filename : Bytes) (filenameEnd : Nat) (query : Bytes)
    (hcell : w.own.mem.cell a = some c') {z : Answer} {want : Int}
    (hz : z.openat = .ok (want, g)) (rest : List Answer) :
    ∃ w', takeIndex a c filename filenameEnd query w (z :: rest) = inspectIndex a filename
        filenameEnd query (w.own.fds.openFd want (.file g)).2 w' rest ∧ w'.loop = w.loop ∧
      Gave w w' a { c with dirfd := c.file, file := (w.own.fds.openFd want (.file g)).2 }
        want (.file g) := by
  rw [takeIndex, Prog.bind_done (systemCall_run w z rest), hz]
  exact take_run hcell want (.file g) (fun fd => { c with dirfd := c.file, file := fd })
    (inspectIndex a filename filenameEnd query) rest

theorem inspectIndex_run (hfile : w.own.fds.object fd = some (.file g)) {u : Answer}
    (hu : u.fstat = none) {filename' : Bytes} {end' : Nat}
    (hslash : stpcpy maxFilenameSize filename filenameEnd [SLASH] = some (filename', end'))
    (rest : List Answer) :
    inspectIndex a filename filenameEnd query fd w (u :: rest) =
      if g.isReg then launch a filename' query g w rest else refuse a .forbidden w rest := by
  rw [inspectIndex, Prog.bind_done (fstatFile_run hfile u rest), hu, hslash]
  dsimp only [Option.elim]
  split <;> rfl

/-! ## The child -/

/-- What `sfork` answers. -/
def forked : List Answer → Option ForkAnswer
  | [] => none
  | x :: _ => x.fork

/-- The logs when the child runs. -/
def childLogs (w : World) (c : Client) (filename query : Bytes) (k : ForkAnswer) :
    Nat → List Action :=
  let n := w.own.fds.serialOf c.socket
  let child := cgiChild w.own.server.params c.dirfd c.address filename query k.child
  Function.update w.own.log n (w.own.log n ++ [.cgi child])

/-- `runCgi`, when the child has its share. -/
def leaveToChild (a : Nat) (c : Client) (pidfd : Int) : Program Bool := do
  closeFd c.file
  setClient a { c with pidfd := pidfd, file := -1 }
  let _ ← sepollModEvents c.socket EPOLLET
  let _ ← sepollAdd pidfd EPOLLIN (some .clientPidfd) .server (.client a)
  pure true

theorem runCgi_run (filename query : Bytes) (hcell : w.own.mem.cell a = some c)
    (hs : c.socket ∈ w.own.fds.openFds) {x : Answer} {k : ForkAnswer} (hx : x.fork = some k)
    (rest : List Answer) :
    ∃ v, runCgi a filename query w (x :: rest)
        = leaveToChild a c (w.own.fds.openFd k.pidfd .process).2 v rest ∧
      v.loop = w.loop ∧ v.own.fds = (w.own.fds.openFd k.pidfd .process).1 ∧
      v.own.mem.cell a = some { c with pidfd := (w.own.fds.openFd k.pidfd .process).2 } ∧
      v.own.log = childLogs w c filename query k := by
  obtain ⟨w₁, hrun, hloop, hgave⟩ := take_run hcell k.pidfd .process
    (fun fd => { c with pidfd := fd }) (fun pidfd => do
      note c.socket (.cgi (cgiChild w.own.server.params c.dirfd c.address filename query k.child))
      leaveToChild a c pidfd) rest
  obtain ⟨o, ho⟩ := Heap.object_of_mem_openFds (hgave.mem_openFds hs)
  have hserial : w₁.own.fds.serialOf c.socket = w.own.fds.serialOf c.socket := by
    rw [hgave.fds]
    exact Heap.openFd_serialOf_of_mem hs
  obtain ⟨v, hnote, hloop', hfds, hmem, hlog⟩ : ∃ v, note c.socket
        (.cgi (cgiChild w.own.server.params c.dirfd c.address filename query k.child)) w₁ rest
          = .done () v rest ∧ v.loop = w₁.loop ∧ v.own.fds = w₁.own.fds ∧
        v.own.mem = w₁.own.mem ∧ v.own.log = childLogs w c filename query k :=
    ⟨_, note_run _ ho rest, rfl, rfl, rfl, by rw [childLogs, hserial, hgave.log]⟩
  refine ⟨v, ?_, hloop'.trans hloop, hfds.trans hgave.fds, hmem ▸ hgave.cell, hlog⟩
  rw [runCgi, Prog.bind_done (getServer_run w _), Prog.bind_done (getClient_run hcell _),
    Prog.bind_done (systemCall_run w x rest), hx]
  exact hrun.trans (Prog.bind_done hnote)

theorem launch_run (hf : f.mode &&& S_IXOTH ≠ 0) {m : Program Bool} {v : World}
    (h : runCgi a filename query w ans = m v rest) :
    launch a filename query f w ans
      = (do
        let more ← m
        if more then settle a else pure false) v rest := by
  rw [launch, if_pos hf, Prog.bind_run, h, ← Prog.bind_run]

/-- Whoever is forked, if anybody is, is the only child that is run. -/
theorem launch_log (hcell : w.own.mem.cell a = some c) (hs : c.socket ∈ w.own.fds.openFds)
    (hf : f.mode &&& S_IXOTH ≠ 0) (ans : List Answer) :
    (launch a filename query f w ans).Always (Since
      (match forked ans with
        | none => w.own.log
        | some k => childLogs w c filename query k) NoChild) := by
  have hrest : ∀ {m : Program Bool} {v : World} {rest : List Answer} {before : Nat → List Action},
      runCgi a filename query w ans = m v rest → v.own.log = before →
      Triple (always (Since before NoChild)) (Since before NoChild) m
        (fun _ => Since before NoChild) →
      (launch a filename query f w ans).Always (Since before NoChild) := by
    rintro m v rest _ hrun rfl hm
    rw [launch_run hf hrun]
    exact always_run (Triple.bind hm fun _ => Triple.ite (fun _ => settle_since) fun _ =>
      Triple.pure fun _ h => h) (Since.refl v _) rest
  cases ans with
  | nil =>
    have hstop : runCgi a filename query w [] = .stopped w := by
      rw [runCgi, Prog.bind_done (getServer_run w _), Prog.bind_done (getClient_run hcell _)]
      rfl
    rw [launch, if_pos hf, Prog.bind_run, hstop]
    exact ⟨fun v hv => by cases hv; exact Since.refl w _, fun _ _ _ hv => by cases hv⟩
  | cons x rest =>
    cases hx : x.fork with
    | none =>
      have hrun : runCgi a filename query w (x :: rest) = refuse a .internal w rest := by
        rw [runCgi, Prog.bind_done (getServer_run w _), Prog.bind_done (getClient_run hcell _),
          Prog.bind_done (systemCall_run w x rest), hx]
      rw [forked, hx]
      exact hrest hrun rfl (refuse_since fun e he => by cases he)
    | some k =>
      obtain ⟨v, hrun, -, -, -, hv⟩ := runCgi_run filename query hcell hs hx rest
      rw [forked, hx]
      refine hrest hrun hv ?_
      refine Triple.bind closeFd_onClients fun _ => Triple.bind setClient_since fun _ => ?_
      refine Triple.bind sepollModEvents_onClients fun _ => ?_
      exact Triple.bind sepollAdd_onClients fun _ => Triple.pure fun _ h => h

/-! ## What a request finds -/

/-- The path that a request names. -/
def Names (buffer path : Bytes) : Prop :=
  ∃ filename filenameEnd query, parse buffer = some (.path filename filenameEnd query) ∧
    cstring filename 0 = some path

/-- The program that the answers lead to: the file of the path, or the index
of the directory that was offered with these attributes. -/
inductive Finds : List Answer → Option (Int × File) → File → List Answer → Prop
  | file {x y : Answer} {rest : List Answer} {want : Int} {f : File}
      (hx : x.openat = .ok (want, f)) (hy : y.fstat = none) (hf : IsProgram f) :
      Finds (x :: y :: rest) none f rest
  | index {x y z u : Answer} {rest : List Answer} {want want' : Int} {f g : File}
      (hx : x.openat = .ok (want, f)) (hy : y.fstat = none) (hf : f.isDir = true)
      (hz : z.openat = .ok (want', g)) (hu : u.fstat = none) (hg : IsProgram g) :
      Finds (x :: y :: z :: u :: rest) (some (want, f)) g rest

section Quiet

variable {before : Nat → List Action}

theorem noChild_menu (m : Menu) : NoChild (.menu m) := fun _ he => by cases he

/-- The kernel is asked, and everything is as it was until it answers. -/
theorem systemCall_quiet {m : Answer → Program Bool} (hw : Since before NoChild w)
    (h : ∀ x rest, ans = x :: rest → (m x w rest).Always (Since before NoChild)) :
    ((do
      let x ← systemCall
      m x) w ans).Always (Since before NoChild) := by
  cases ans with
  | nil => exact ⟨fun v hv => by cases hv; exact hw, fun _ _ _ hv => by cases hv⟩
  | cons x rest => exact h x rest rfl

theorem fstatFile_quiet {m : Except Errno File → Program Bool}
    (hfile : w.own.fds.object fd = some (.file f)) (hw : Since before NoChild w)
    (h : ∀ y rest, ans = y :: rest →
      (m (y.fstat.elim (.ok f) .error) w rest).Always (Since before NoChild)) :
    ((do
      let res ← fstatFile fd
      m res) w ans).Always (Since before NoChild) := by
  cases ans with
  | nil =>
    have hstop : fstatFile fd w [] = .stopped w := by
      rw [fstatFile, Prog.bind_done (useFd_run hfile _)]
      rfl
    rw [Prog.bind_run, hstop]
    exact ⟨fun v hv => by cases hv; exact hw, fun _ _ _ hv => by cases hv⟩
  | cons y rest =>
    rw [Prog.bind_done (fstatFile_run hfile y rest)]
    exact h y rest rfl

theorem refuse_quiet (m : Menu) (hw : Since before NoChild w) (ans : List Answer) :
    (refuse a m w ans).Always (Since before NoChild) :=
  always_run (refuse_since (noChild_menu m)) hw ans

/-- What nobody may execute is transmitted. -/
theorem launch_quiet (hf : ¬ f.mode &&& S_IXOTH ≠ 0) (hw : Since before NoChild w)
    (ans : List Answer) :
    (launch a filename query f w ans).Always (Since before NoChild) := by
  rw [launch, if_neg hf]
  refine always_run (Triple.bind (R := fun _ => Since before NoChild) ?_ fun _ =>
    Triple.ite (fun _ => settle_since) fun _ => Triple.pure fun _ h => h) hw ans
  refine Triple.bind (getClient_keeps trivial) fun c => ?_
  refine Triple.bind (note_since fun _ he => by cases he) fun _ => ?_
  refine Triple.bind setClient_since fun _ => ?_
  exact Triple.bind sepollModEvents_onClients fun _ => Triple.pure fun _ h => h

theorem inspectIndex_quiet (hfile : w.own.fds.object fd = some (.file g))
    (hw : Since before NoChild w)
    (hn : ∀ u rest, ans = u :: rest → u.fstat = none → ¬ IsProgram g) :
    (inspectIndex a filename filenameEnd query fd w ans).Always (Since before NoChild) := by
  refine fstatFile_quiet hfile hw fun u rest hans => ?_
  cases hu : u.fstat with
  | some e => exact refuse_quiet _ hw rest
  | none =>
    dsimp only [Option.elim]
    by_cases hr : g.isReg = true
    · rw [if_pos hr]
      cases stpcpy maxFilenameSize filename filenameEnd [SLASH] with
      | none => exact always_fault
      | some p => exact launch_quiet (fun hx => hn u rest hans hu ⟨hr, hx⟩) hw rest
    · rw [if_neg hr]
      exact refuse_quiet _ hw rest

theorem openIndex_quiet (hcell : w.own.mem.cell a = some c)
    (hfile : w.own.fds.object c.file = some (.file f)) (hw : Since before NoChild w)
    (hn : ∀ z u rest want g, ans = z :: u :: rest → z.openat = .ok (want, g) →
      u.fstat = none → ¬ IsProgram g) :
    (openIndex a filename filenameEnd query w ans).Always (Since before NoChild) := by
  obtain ⟨v, hrun, hcell', -, -, hlog⟩ := openIndex_run filename filenameEnd query
    hcell hfile ans
  have hv : Since before NoChild v := Since.of_log hlog hw
  rw [hrun]
  refine systemCall_quiet hv fun z rest hans => ?_
  cases hz : z.openat with
  | error e =>
    exact always_run (Triple.bind setClient_since fun _ => refuse_since (noChild_menu _)) hv rest
  | ok p =>
    obtain ⟨want, g⟩ := p
    obtain ⟨w', htake, -, hgave⟩ := take_run hcell' want (.file g)
      (fun fd => { c with dirfd := c.file, file := fd })
      (inspectIndex a filename filenameEnd query) rest
    dsimp only
    rw [htake]
    exact inspectIndex_quiet hgave.object (Since.of_log hgave.log hv)
      fun u rest' hrest hu => hn z u rest' want g (hrest ▸ hans) hz hu

theorem inspectFile_quiet {x : Answer} {want : Int} (hcell : w.own.mem.cell a = some c)
    (hfile : w.own.fds.object c.file = some (.file f)) (hw : Since before NoChild w)
    (hx : x.openat = .ok (want, f))
    (hn : ∀ index g rest, ¬ Finds (x :: ans) index g rest) :
    (inspectFile a filename filenameEnd query w ans).Always (Since before NoChild) := by
  rw [inspectFile, Prog.bind_done (getClient_run hcell _)]
  refine fstatFile_quiet hfile hw fun y rest hans => ?_
  subst hans
  cases hy : y.fstat with
  | some e => exact refuse_quiet _ hw rest
  | none =>
    dsimp only [Option.elim]
    by_cases hr : f.isReg = true
    · rw [if_pos hr]
      exact launch_quiet (fun hm => hn _ _ _ (.file hx hy ⟨hr, hm⟩)) hw rest
    rw [if_neg hr]
    by_cases hd : f.isDir = true
    · rw [if_pos hd]
      refine openIndex_quiet hcell hfile hw ?_
      rintro z u rest' want' g rfl hz hu hg
      exact hn _ _ _ (.index hx hy hd hz hu hg)
    · rw [if_neg hd]
      exact refuse_quiet _ hw rest

/-- **No other request runs a child.** -/
theorem serveRequest_quiet (h : Serving w a c)
    (hn : ∀ path index g rest, Names c.buffer path → ¬ Finds ans index g rest) :
    (serveRequest a w ans).Always (Since w.own.log NoChild) := by
  obtain ⟨p, hp⟩ := parse_total h.buffer
  cases p with
  | badRequest =>
    rw [serveRequest_bad h.cell hp]
    exact refuse_quiet _ (Since.refl w _) ans
  | forbidden =>
    rw [serveRequest_forbidden h.cell hp]
    exact refuse_quiet _ (Since.refl w _) ans
  | path filename filenameEnd query =>
    obtain ⟨path, hpath, -⟩ := parse_confined h.buffer hp
    obtain ⟨v, hrun, -, hmem, hfds, -, hv⟩ := h.openFile_run hpath filenameEnd query ans
    rw [serveRequest, Prog.bind_done (getClient_run h.cell ans), hp]
    dsimp only
    rw [hrun]
    refine systemCall_quiet hv fun x rest hans => ?_
    cases hx : x.openat with
    | error e =>
      exact always_run (Triple.bind setClient_since fun _ => refuse_since (noChild_menu _)) hv rest
    | ok p =>
      obtain ⟨want, f⟩ := p
      have hcell : v.own.mem.cell a = some c := hmem ▸ h.cell
      obtain ⟨w', htake, -, hgave⟩ := take_run hcell want (.file f)
        (fun fd => { c with file := fd }) (fun _ => inspectFile a filename filenameEnd query) rest
      dsimp only
      rw [htake]
      subst hans
      exact inspectFile_quiet hgave.cell hgave.object (Since.of_log hgave.log hv) hx
        fun index g rest' => hn path index g rest' ⟨_, _, _, hp, hpath⟩

end Quiet

/-! ## The program executed is the file that was checked -/

/-- `client_socket` has filled its client's buffer. -/
def Asks (w : World) (a : Nat) (c : Client) : Prop :=
  ∃ w₀ e ans₀ rest₀, Received w₀ e a ans₀ c.buffer ∧ w.own.mem.cell a = some c ∧
    fillBuffer a (w₀.withLoop w₀.loop.popped) ans₀ = .done true w rest₀

/-- The worker has `g` open and has checked it, and forks. -/
structure Launches (w : World) (a : Nat) (ans : List Answer) (g : File) (rest : List Answer)
    (w' : World) (c : Client) (filename query : Bytes) : Prop where
  run : serveRequest a w ans = launch a filename query g w' rest
  cell : w'.own.mem.cell a = some c
  checked : w'.own.fds.object c.file = some (.file g)
  program : IsProgram g
  server : w'.own.server = w.own.server
  log : Since w.own.log NoChild w'
  child : (serveRequest a w ans).Always (Since
    (match forked rest with
      | none => w'.own.log
      | some k => childLogs w' c filename query k) NoChild)

/-- Where the child of a request for `path` finds the program: behind the
last slash of the path, or under the name of an index in the directory that
the worker has open. -/
inductive Locates {D : Type} (fs : Content D) (path : Bytes) (w w' : World) (c : Client)
    (filename : Bytes) (g : File) : Option (Int × File) → Prop
  | file {pathname command : Bytes} {e : D} (hd : c.dirfd < 0)
      (hcut : fs.Cut path pathname command e g)
      (htarget : ∀ openat, execTarget w.own.server.params c.dirfd filename openat
        = some (openat.elim (some (.path pathname, command)) fun _ => none)) :
      Locates fs path w w' c filename g none
  | index {want : Int} {f : File} {d : D}
      (hd : c.dirfd = (w.own.fds.openFd want (.file f)).2)
      (hopen : w'.own.fds.object c.dirfd = some (.file f))
      (hpath : fs.find fs.content path = some (.directory d)) (hf : fs.attributes d = f)
      (hindex : fs.find d w.own.server.params.indexfile = some (.file g))
      (htarget : ∀ openat, execTarget w.own.server.params c.dirfd filename openat
        = some (some (.opened, w.own.server.params.indexfile))) :
      Locates fs path w w' c filename g (some (want, f))

/-- The file `f` was opened for a client, and nothing else has changed. -/
structure FileOpened (w w' : World) (a : Nat) (c : Client) (want : Int) (f : File) : Prop where
  loop : w'.loop = w.loop
  cell : w'.own.mem.cell a = some { c with file := (w.own.fds.openFd want (.file f)).2 }
  fds : w'.own.fds = (w.own.fds.openFd want (.file f)).1
  server : w'.own.server = w.own.server
  log : Since w.own.log NoChild w'

namespace FileOpened

variable {w' : World} {want : Int}

theorem object (h : FileOpened w w' a c want f) :
    w'.own.fds.object (w.own.fds.openFd want (.file f)).2 = some (.file f) := by
  rw [h.fds]
  exact Heap.openFd_object_self ..

theorem mem_openFds (h : FileOpened w w' a c want f) (hfd : fd ∈ w.own.fds.openFds) :
    fd ∈ w'.own.fds.openFds := by
  rw [h.fds, Heap.openFd_openFds]
  exact List.mem_cons_of_mem _ hfd

end FileOpened

/-- The file of the path is open. -/
theorem Serving.opened (h : Serving w a c)
    (hp : parse c.buffer = some (.path filename filenameEnd query))
    (hpath : cstring filename 0 = some path) {x : Answer} {want : Int}
    (hx : x.openat = .ok (want, f)) (rest : List Answer) :
    ∃ w', serveRequest a w (x :: rest) = inspectFile a filename filenameEnd query w' rest ∧
      FileOpened w w' a c want f := by
  obtain ⟨v, hopen, hloop, hmem, hfds, hserver, hlog⟩ :=
    h.openFile_run hpath filenameEnd query (x :: rest)
  obtain ⟨w', htake, hloop', hgave⟩ := takeFile_run filename filenameEnd query
    (show v.own.mem.cell a = some c from hmem ▸ h.cell) hx rest
  refine ⟨w', ?_, hloop'.trans hloop, hfds ▸ hgave.cell, hfds ▸ hgave.fds,
    hgave.server.trans hserver, Since.of_log hgave.log hlog⟩
  rw [serveRequest, Prog.bind_done (getClient_run h.cell _), hp]
  exact hopen.trans htake

variable {D : Type} {fs : Content D}

theorem Serving.finds_file (h : Serving w a c) (hname : Names c.buffer path)
    (hfs : fs.Answers path w.own.server.params.indexfile ans) {x y : Answer} {want : Int}
    (hans : ans = x :: y :: rest) (hx : x.openat = .ok (want, f)) (hy : y.fstat = none)
    (hf : IsProgram f) :
    ∃ w' c' filename query, Launches w a ans f rest w' c' filename query ∧
      Locates fs path w w' c' filename f none := by
  obtain ⟨filename, filenameEnd, query, hp, hpath⟩ := hname
  subst hans
  obtain ⟨w', hrun, hopened⟩ := h.opened hp hpath hx (y :: rest)
  have hrun' : serveRequest a w (x :: y :: rest) = launch a filename query f w' rest := by
    rw [hrun, inspectFile_run hopened.cell hopened.object hy, if_pos hf.1]
  refine ⟨w', _, filename, query, ⟨hrun', hopened.cell, hopened.object, hf, hopened.server,
    hopened.log, ?_⟩, ?_⟩
  · rw [hrun']
    exact launch_log hopened.cell (hopened.mem_openFds h.socket) hf.2 rest
  -- the path leads to a file, so it has a slash
  obtain ⟨line, tail, -, -, rfl, -, -⟩ := parse_path h.buffer hp
  obtain ⟨path', hpath', hconf⟩ := parse_confined h.buffer hp
  obtain rfl : path = path' := Option.some.inj (hpath.symm.trans hpath')
  have hfind := (hfs.file x (y :: rest) want f rfl hx).file (not_isDir hf.1)
  obtain ⟨pathname, command, e, hcut⟩ := Content.exists_cut hconf hfind
  have hd : c.dirfd < 0 := by
    rw [h.dirfd]
    decide
  have hlen := ((pathFits h.buffer).filename _ _ _ hp).1
  rw [List.length_append, List.length_singleton] at hlen
  rw [cstring_append_nul _ (Nat.zero_le _), List.drop_zero, Option.some.injEq] at hpath
  exact .file hd hcut fun openat =>
    execTarget_path _ openat hd hlen (hpath.trans hcut.whole) hcut.slash

theorem Serving.finds_index (h : Serving w a c) (hname : Names c.buffer path)
    (hfs : fs.Answers path w.own.server.params.indexfile ans) {x y z u : Answer}
    {want want' : Int} (hans : ans = x :: y :: z :: u :: rest)
    (hx : x.openat = .ok (want, f)) (hy : y.fstat = none) (hf : f.isDir = true)
    (hz : z.openat = .ok (want', g)) (hu : u.fstat = none) (hg : IsProgram g) :
    ∃ w' c' filename query, Launches w a ans g rest w' c' filename query ∧
      Locates fs path w w' c' filename g (some (want, f)) := by
  obtain ⟨filename, filenameEnd, query, hp, hpath⟩ := hname
  subst hans
  obtain ⟨w₁, hrun, hopened⟩ := h.opened hp hpath hx (y :: z :: u :: rest)
  obtain ⟨v, hopen, hcell', hfds', hserver', hlog'⟩ :=
    openIndex_run filename filenameEnd query hopened.cell hopened.object (z :: u :: rest)
  obtain ⟨w', htake, -, hgave⟩ := takeIndex_run filename filenameEnd query
    (c := { c with file := (w.own.fds.openFd want (.file f)).2 }) hcell' hz (u :: rest)
  obtain ⟨-, filename', filenameEnd', hslash, -⟩ := (pathFits h.buffer).filename _ _ _ hp
  have hisReg : ¬ f.isReg = true := fun hr => by simp [not_isDir hr] at hf
  have hrun' : serveRequest a w (x :: y :: z :: u :: rest)
      = launch a filename' query g w' rest := by
    rw [hrun, inspectFile_run hopened.cell hopened.object hy, if_neg hisReg, if_pos hf, hopen,
      htake, inspectIndex_run hgave.object hu hslash, if_pos hg.1]
  have hfile : v.own.fds.object (w.own.fds.openFd want (.file f)).2 = some (.file f) :=
    hfds' ▸ hopened.object
  have hdirectory : w'.own.fds.object (w.own.fds.openFd want (.file f)).2 = some (.file f) := by
    rw [hgave.object_of_mem (Heap.mem_openFds_of_object hfile), hfile]
  have hsocket : c.socket ∈ w'.own.fds.openFds :=
    hgave.mem_openFds (hfds' ▸ hopened.mem_openFds h.socket)
  refine ⟨w', _, filename', query, ⟨hrun', hgave.cell, hgave.object, hg,
    hgave.server.trans (hserver'.trans hopened.server),
    Since.of_log (hgave.log.trans hlog') hopened.log, ?_⟩, ?_⟩
  · rw [hrun']
    exact launch_log hgave.cell hsocket hg.2 rest
  obtain ⟨d, hd, hattr⟩ := (hfs.file x _ want f rfl hx).directory hf
  have hindex := (hfs.index x y z _ d want' g rfl hd hz).file (not_isDir hg.1)
  have hge := Heap.openFd_ge w.own.fds want (.file f)
  exact .index rfl hdirectory hd hattr hindex fun _ => if_neg (by dsimp only; omega)

/-- What the child executes: the command, in the directory that it changes
into. -/
def Content.executes (fs : Content D) (path : Bytes) (directory : ExecDirectory) (command : Bytes) :
    Option (Node D File) :=
  match fs.find fs.content (match directory with
    | .opened => path
    | .path pathname => pathname) with
  | some (.directory d) => fs.find d command
  | _ => none

/-- It is the file that was checked. -/
theorem Locates.executes {w' : World} {index : Option (Int × File)} {address : Bytes}
    {answer : ChildAnswer} {directory : ExecDirectory} {command : Bytes} {argv envp : List Bytes}
    (h : Locates fs path w w' c filename g index)
    (he : cgiChild w.own.server.params c.dirfd address filename query answer
      = .execve directory command argv envp) :
    fs.executes path directory command = some (.file g) := by
  have htarget := cgiChild_target he
  cases h with
  | file hd hcut ht =>
    rw [ht] at htarget
    cases ho : answer.openat with
    | some e =>
      rw [ho] at htarget
      cases htarget
    | none =>
      rw [ho] at htarget
      cases htarget
      simp only [Content.executes, hcut.directory, hcut.file]
  | index hd hopen hpath hf hindex ht =>
    rw [ht] at htarget
    cases htarget
    simp only [Content.executes, hpath, hindex]

/-- What is known when the buffer is filled. -/
theorem Asks.serving (h : Asks w a c) : Serving w a c := by
  obtain ⟨w₀, e, ans₀, rest₀, hreceived, hcell, hfill⟩ := h
  obtain ⟨y, c₀, r, L, w₁, rest₁, hfill₁, -, hheld, -, hset, hlen, -⟩ := hreceived.held
  obtain ⟨-, rfl, -⟩ := Outcome.done.inj (hfill.symm.trans hfill₁)
  have hc : c = { c₀ with buffer := c.buffer } :=
    Option.some.inj (hcell.symm.trans hheld.busy.cell)
  refine ⟨hcell, ?_, ?_, (congrArg Client.dirfd hc).trans hset.dirfd, hlen⟩
  · rw [congrArg Client.socket hc]
    exact Heap.mem_openFds_of_object hheld.kinds.socket
  · exact hheld.busy.parts.isOpen (by simp [ServerState.places])

/-- **The program executed is the file that was checked.** On a file system
that does not change, a request whose path opens a program, itself or as an
index, is answered by a child that the worker forks while it has that
program open, and has checked it. The child finds the program behind the
last slash of the path, which there always is, or under the name of the
index in the directory that the worker has open; and if it executes
anything, it is that program. Nothing is executed for any other request. -/
theorem executed_was_checked {D : Type} (fs : Content D) {w : World} {a : Nat} {c : Client}
    (h : Asks w a c) (ans : List Answer) :
    (∀ path index g rest, Names c.buffer path → Finds ans index g rest →
      fs.Answers path w.own.server.params.indexfile ans →
      ∃ w' c' filename query, Launches w a ans g rest w' c' filename query ∧
        Locates fs path w w' c' filename g index ∧
        ∀ answer directory command argv envp,
          cgiChild w.own.server.params c'.dirfd c'.address filename query answer
            = .execve directory command argv envp →
          fs.executes path directory command = some (.file g)) ∧
    ((∀ path index g rest, Names c.buffer path → ¬ Finds ans index g rest) →
      (serveRequest a w ans).Always (Since w.own.log NoChild)) := by
  refine ⟨fun path index g rest hname hfinds hfs => ?_, serveRequest_quiet h.serving⟩
  have hfound : ∃ w' c' filename query, Launches w a ans g rest w' c' filename query ∧
      Locates fs path w w' c' filename g index := by
    cases hfinds with
    | file hx hy hf => exact h.serving.finds_file hname hfs rfl hx hy hf
    | index hx hy hf hz hu hg => exact h.serving.finds_index hname hfs rfl hx hy hf hz hu hg
  obtain ⟨w', c', filename, query, hlaunches, hlocates⟩ := hfound
  exact ⟨w', c', filename, query, hlaunches, hlocates, fun _ _ _ _ _ => hlocates.executes⟩

/-- A content directory with a directory in it, and a program in that. -/
def smallContent : Content Bool where
  root := false
  content := false
  lookup d name :=
    if name = [DOT] then some (.directory d)
    else if d = false ∧ name = ascii "docs" then some (.directory true)
    else if d = true ∧ name = ascii "run" then some (.file smallProgram)
    else none
  attributes _ := smallDirectory
  attributes_isDir _ := by decide
  lookup_dot _ := rfl
  lookup_file d name f h := by
    split at h
    · cases h
    · split at h
      · cases h
      · split at h
        · cases h
          decide
        · cases h

def programRequest : Bytes := ascii "docs//run" ++ [CR, LF]

def programAnswers : List Answer :=
  [{ openat := .ok (9, smallProgram) }, again, { fork := some ⟨10, {}⟩ }, again]

/-- A client that asks for the program. -/
theorem exists_asks_program : ∃ w c, Asks w 1 c ∧ c.buffer = programRequest ∧
    Names c.buffer (ascii "./docs/run") := by
  obtain ⟨w, w₁, rest₁, c, hreceived, hfill, hcell, hbuffer⟩ :=
    exists_received programRequest (by decide +kernel)
  refine ⟨w₁, c, ⟨w, ⟨EPOLLIN, 4⟩, _, rest₁, ?_, hcell, hfill⟩, hbuffer, ?_⟩
  · rw [hbuffer]
    exact hreceived
  · rw [hbuffer]
    exact ⟨ascii "./docs/run" ++ [0], 10, [], by decide +kernel, by decide +kernel⟩

theorem executed_was_checked_small : ∃ w a c, Asks w a c ∧ c.buffer = programRequest ∧
    ∃ w' c' filename query,
      Launches w a programAnswers smallProgram (programAnswers.drop 2) w' c' filename query ∧
      Locates smallContent (ascii "./docs/run") w w' c' filename smallProgram none := by
  obtain ⟨w₁, c, hasks, hbuffer, hname⟩ := exists_asks_program
  have hfs : smallContent.Answers (ascii "./docs/run") w₁.own.server.params.indexfile
      programAnswers := by
    refine ⟨?_, ?_⟩
    · rintro x rest want f hans hx
      cases hans
      cases hx
      exact ⟨.file smallProgram, by decide +kernel, rfl⟩
    · rintro x y z rest d want g hans - hz
      cases hans
      cases hz
  obtain ⟨w', c', filename, query, hlaunches, hlocates, -⟩ :=
    (executed_was_checked smallContent hasks programAnswers).1 _ none smallProgram _ hname
      (.file rfl rfl ⟨by decide, by decide⟩) hfs
  exact ⟨w₁, 1, c, hasks, hbuffer, w', c', filename, query, hlaunches, hlocates⟩

end Sgopher.Server
