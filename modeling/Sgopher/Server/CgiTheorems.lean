/-
Sgopher.Server.CgiTheorems — what `client_socket` does about a request,
and what a CGI program is told of it.

`Since` follows the logs while a request is served: what is added to them
is one of the menus that do not blame the request, the file, or the
child's end, which is computed from the array `filename` as the path loop
left it, with a slash behind it if a directory was opened.

The environment is made of C strings, so the program is told of selector
and query only up to a NUL, and of the slash of a directory only if there
is none. `cgi_environment` says that this is all that can go wrong:
nothing is cut off by the size of the buffers.

No `sorry`, no `axiom`, no `native_decide`.
-/
import Sgopher.Server.BoundsTheorems
import Sgopher.Server.FramingTheorems

namespace Sgopher.Server

open Sgopher.Lib Sgopher.Sepoll

variable {before : Nat → List Action} {q : Action → Prop} {a : Nat} {c : Client} {fd : Int}
  {w : World} {filename query : Bytes} {filenameEnd : Nat} {f : File}

/-! ## Following the logs -/

/-- What was added to the logs `before`. -/
abbrev Since (before : Nat → List Action) (q : Action → Prop) : World → Prop :=
  OnClients fun log _ => ∀ n, ∃ new, log n = before n ++ new ∧ ∀ y ∈ new, q y

theorem Since.refl (w : World) (q : Action → Prop) : Since w.own.log q w :=
  fun n => ⟨[], (List.append_nil _).symm, by simp⟩

theorem note_since {act : Action} (hact : q act) :
    Triple (always (Since before q)) (Since before q) (note fd act) (fun _ => Since before q) := by
  refine Triple.step_map trivial fun w _ h _ n => ?_
  obtain ⟨new, hnew, hall⟩ := h n
  show ∃ new, Function.update w.own.log (w.own.fds.serialOf fd) _ n = before n ++ new ∧ _
  by_cases hn : n = w.own.fds.serialOf fd
  · subst hn
    refine ⟨new ++ [act], by rw [Function.update_self, hnew, List.append_assoc], ?_⟩
    intro y hy
    rcases List.mem_append.mp hy with hy | hy
    · exact hall y hy
    · exact List.mem_singleton.mp hy ▸ hact
  · exact ⟨new, by rw [Function.update_of_ne hn, hnew], hall⟩

theorem setClient_since :
    Triple (always (Since before q)) (Since before q) (setClient a c)
      (fun _ => Since before q) :=
  setClient_keeps trivial fun _ _ h => h

theorem refuse_since {m : Menu} (hm : q (.menu m)) :
    Triple (always (Since before q)) (Since before q) (refuse a m) (fun _ => Since before q) :=
  Triple.bind (getClient_keeps trivial) fun _ => Triple.bind (note_since hm) fun _ =>
    hangUp_onClients fun _ _ _ h _ => h

/-- What may be added while a request is served that has its path in
`filename`. -/
structure Permits (q : Action → Prop) (filename query : Bytes) : Prop where
  menu : ∀ m, m ≠ .bad → q (.menu m)
  transmit : ∀ f, q (.transmit f)
  cgi : ∀ params dirfd address answer,
    q (.cgi (cgiChild params dirfd address filename query answer))

theorem runCgi_since (h : Permits q filename query) :
    Triple (always (Since before q)) (Since before q) (runCgi a filename query)
      (fun _ => Since before q) := by
  refine Triple.bind getServer_keeps fun s => Triple.bind (getClient_keeps trivial) fun c => ?_
  refine Triple.bind systemCall_always fun x => ?_
  split
  · exact refuse_since (h.menu _ (by simp))
  · refine Triple.bind openFd_onClients fun pidfd => Triple.bind setClient_since fun _ => ?_
    refine Triple.bind (note_since (h.cgi _ _ _ _)) fun _ => ?_
    refine Triple.bind closeFd_onClients fun _ => Triple.bind setClient_since fun _ => ?_
    refine Triple.bind sepollModEvents_onClients fun _ => ?_
    exact Triple.bind sepollAdd_onClients fun _ => Triple.pure fun _ h => h

theorem settle_since :
    Triple (always (Since before q)) (Since before q) (settle a) (fun _ => Since before q) := by
  refine Triple.bind (getClient_keeps trivial) fun c => ?_
  refine Triple.bind (R := fun _ => Since before q) (Triple.when (fun _ => ?_) fun _ _ h => h)
    fun _ => ?_
  · exact Triple.bind closeFd_onClients fun _ => setClient_since
  · refine Triple.bind systemCall_always fun x => Triple.bind (getClient_keeps trivial) fun c => ?_
    exact Triple.bind setClient_since fun _ => Triple.pure fun _ h => h

theorem launch_since (h : Permits q filename query) :
    Triple (always (Since before q)) (Since before q) (launch a filename query f)
      (fun _ => Since before q) := by
  refine Triple.bind (R := fun _ => Since before q)
    (Triple.ite (fun _ => runCgi_since h) fun _ => ?_)
    fun more => Triple.ite (fun _ => settle_since) fun _ => Triple.pure fun _ h => h
  refine Triple.bind (getClient_keeps trivial) fun c => ?_
  refine Triple.bind (note_since (h.transmit f)) fun _ => Triple.bind setClient_since fun _ => ?_
  exact Triple.bind sepollModEvents_onClients fun _ => Triple.pure fun _ h => h

theorem openMenu_ne_bad (e : Errno) : openMenu e ≠ .bad := by
  unfold openMenu
  split <;> simp

theorem openIndex_since (hmenu : ∀ m, m ≠ .bad → q (.menu m))
    (h : ∀ filename' end', stpcpy maxFilenameSize filename filenameEnd [SLASH]
      = some (filename', end') → Permits q filename' query) :
    Triple (always (Since before q)) (Since before q) (openIndex a filename filenameEnd query)
      (fun _ => Since before q) := by
  refine Triple.bind (getClient_keeps trivial) fun c => Triple.bind setClient_since fun _ => ?_
  refine Triple.bind (useFd_keeps trivial) fun _ => Triple.bind systemCall_always fun x => ?_
  split
  · exact Triple.bind setClient_since fun _ => refuse_since (hmenu _ (openMenu_ne_bad _))
  · refine Triple.bind openFd_onClients fun fd => Triple.bind setClient_since fun _ => ?_
    refine Triple.bind fstatFile_always fun res => ?_
    split
    · exact refuse_since (hmenu _ (by simp))
    · refine Triple.ite (fun _ => ?_) fun _ => refuse_since (hmenu _ (by simp))
      split
      · exact fault_keeps trivial
      · rename_i filename' end' hslash
        exact launch_since (h _ _ hslash)

/-- The client has the file open. -/
def HasFile (a : Nat) (f : File) (w : World) : Prop :=
  ∃ c, w.own.mem.cell a = some c ∧ w.own.fds.object c.file = some (.file f)

theorem fstatFile_file {P : World → Prop} (hP : ∀ w, P w → Since before q w)
    (hf : ∀ w, P w → w.own.fds.object fd = some (.file f)) :
    Triple (always (Since before q)) P (fstatFile fd)
      (fun res w => (∀ f', res = .ok f' → f' = f) ∧ P w) := by
  refine Triple.bind (R := fun o w => o = .file f ∧ P w)
    (Triple.step_partial trivial fun w w' o h hw => ?_) fun o => Triple.assume fun ho => ?_
  · rw [hf w h, Option.map_some, Option.some.injEq, Prod.mk.injEq] at hw
    obtain ⟨rfl, rfl⟩ := hw
    exact ⟨rfl, h⟩
  subst ho
  refine Triple.bind (R := fun _ => P) (Triple.ask hP fun _ _ h _ => h) fun x => ?_
  cases x.fstat with
  | none => exact Triple.pure fun _ h => ⟨by rintro f' ⟨⟩; rfl, h⟩
  | some e => exact Triple.pure fun _ h => ⟨by simp, h⟩

/-- The file that was opened decides which path a program is told. -/
theorem inspectFile_since (hmenu : ∀ m, m ≠ .bad → q (.menu m))
    (hreg : f.isReg → Permits q filename query)
    (hdir : f.isDir → ∀ filename' end', stpcpy maxFilenameSize filename filenameEnd [SLASH]
      = some (filename', end') → Permits q filename' query) :
    Triple (always (Since before q)) (fun w => Since before q w ∧ HasFile a f w)
      (inspectFile a filename filenameEnd query) (fun _ => Since before q) := by
  refine Triple.bind (R := fun c w => Since before q w ∧ w.own.fds.object c.file = some (.file f))
    (Triple.step_partial trivial fun w w' c ⟨h, d, hd, ho⟩ hw => ?_) fun c => ?_
  · rw [hd, Option.map_some, Option.some.injEq, Prod.mk.injEq] at hw
    obtain ⟨rfl, rfl⟩ := hw
    exact ⟨h, ho⟩
  refine Triple.bind (fstatFile_file (f := f) (fun _ h => h.1) fun _ h => h.2) fun res => ?_
  refine Triple.assume fun hres => ?_
  refine Triple.pre ?_ (fun _ h => h.1)
  split
  · exact refuse_since (hmenu _ (by simp))
  · rename_i f'
    obtain rfl := hres f' rfl
    refine Triple.ite (fun hr => launch_since (hreg hr)) fun _ => ?_
    exact Triple.ite (fun hd => openIndex_since hmenu (hdir hd)) fun _ =>
      refuse_since (hmenu _ (by simp))

/-- A file that was just opened becomes the client's. -/
theorem opened_since {want : Int} (hmenu : ∀ m, m ≠ .bad → q (.menu m))
    (hreg : f.isReg → Permits q filename query)
    (hdir : f.isDir → ∀ filename' end', stpcpy maxFilenameSize filename filenameEnd [SLASH]
      = some (filename', end') → Permits q filename' query) :
    Triple (always (Since before q)) (Since before q)
      (do
        let fd ← openFd want (.file f)
        setClient a { c with file := fd }
        inspectFile a filename filenameEnd query)
      (fun _ => Since before q) := by
  refine Triple.bind (R := fun fd w => Since before q w ∧ w.own.fds.object fd = some (.file f))
    (Triple.step_partial trivial fun w w' fd h hw => ?_) fun fd => ?_
  · obtain ⟨rfl, rfl⟩ := Prod.mk.inj (Option.some.inj hw)
    exact ⟨h, Heap.openFd_object_self ..⟩
  refine Triple.bind (R := fun _ w => Since before q w ∧ HasFile a f w)
    (Triple.step_partial trivial fun w w' _ ⟨h, ho⟩ hw => ?_)
    fun _ => inspectFile_since hmenu hreg hdir
  obtain ⟨mem, hmem, he⟩ := Option.map_eq_some_iff.mp hw
  obtain ⟨rfl, -⟩ := Prod.mk.inj he
  obtain ⟨ha, rfl⟩ := Heap.write_cases hmem
  exact ⟨h, { c with file := fd }, Function.update_self .., ho⟩

/-- A run that faults has nothing to answer for. -/
theorem always_fault {α : Type} {R : World → Prop} :
    (Outcome.fault : Outcome Answer World α).Always R where
  stopped _ h := by cases h
  done _ _ _ h := by cases h

/-- The client was refused: what its connection was sent last is the menu,
no other was sent anything, and it is freed. -/
structure Dismissed (w : World) (a : Nat) (c : Client) (m : Menu) (w' : World) : Prop where
  logged : w'.own.log = Function.update w.own.log (w.own.fds.serialOf c.socket)
    (w.own.log (w.own.fds.serialOf c.socket) ++ [.menu m])
  freed : w.own.mem.free a = some w'.own.mem

/-- A refusal does not wait, and where it returns the client is gone. -/
theorem refuse_dismissed {m : Menu} (hcell : w.own.mem.cell a = some c) (ans : List Answer) :
    (∀ w', refuse a m w ans ≠ .stopped w') ∧
    ∀ r w' rest, refuse a m w ans = .done r w' rest → r = false ∧ Dismissed w a c m w' := by
  let X : Contract Answer World := ⟨fun _ => True, fun _ => False, True⟩
  let n := w.own.fds.serialOf c.socket
  let p := fun log mem => log = Function.update w.own.log n (w.own.log n ++ [.menu m]) ∧
    mem = w.own.mem
  have hrefuse : Triple X (fun w' => w' = w) (refuse a m)
      (fun r w' => r = false ∧ Dismissed w a c m w') := by
    refine Triple.bind (R := fun d w' => d = c ∧ w' = w)
      (Triple.step_partial trivial fun w' w'' d hw hd => ?_) fun d => Triple.assume fun hd => ?_
    · subst hw
      rw [hcell, Option.map_some, Option.some.injEq, Prod.mk.injEq] at hd
      exact ⟨hd.2.symm, hd.1.symm⟩
    subst hd
    refine Triple.bind (R := fun _ => OnClients p)
      (Triple.step_map trivial fun w' _ hw _ => ?_) fun _ => ?_
    · subst hw
      exact ⟨rfl, rfl⟩
    refine Triple.bind (clientDisconnect_frees trivial) fun _ => Triple.pure fun w' h => ?_
    obtain ⟨mem, ⟨hlog, rfl⟩, hfree⟩ := h
    exact ⟨rfl, hlog, hfree⟩
  have hrun := hrefuse w ans rfl fun _ _ => trivial
  constructor
  · intro w' hstop
    rw [hstop] at hrun
    exact hrun
  · intro r w' rest hdone
    rw [hdone] at hrun
    exact hrun.1

theorem serveRequest_bad (hcell : w.own.mem.cell a = some c)
    (hp : parse c.buffer = some .badRequest) (ans : List Answer) :
    serveRequest a w ans = refuse a .bad w ans := by
  rw [serveRequest, Prog.bind_done (getClient_run hcell ans), hp]

theorem serveRequest_forbidden (hcell : w.own.mem.cell a = some c)
    (hp : parse c.buffer = some .forbidden) (ans : List Answer) :
    serveRequest a w ans = refuse a .forbidden w ans := by
  rw [serveRequest, Prog.bind_done (getClient_run hcell ans), hp]

/-- The request of a buffer that parses to a path, by the answer to its
`openat`. -/
theorem serveRequest_path {R : World → Prop} {x : Answer} {rest : List Answer}
    (hcell : w.own.mem.cell a = some c)
    (hparse : parse c.buffer = some (.path filename filenameEnd query))
    (hR : ∀ path w', note c.socket (.openat path) w (x :: rest) = .done () w' (x :: rest) →
      ((match x.openat with
        | .error e => do
          setClient a { c with file := -1 }
          refuse a (openMenu e)
        | .ok (want, f) => do
          let fd ← openFd want (.file f)
          setClient a { c with file := fd }
          inspectFile a filename filenameEnd query) w' rest).Always R) :
    (serveRequest a w (x :: rest)).Always R := by
  have hget := getClient_run hcell (x :: rest)
  rw [serveRequest, Prog.bind_done hget, hparse]
  show (openFile a filename filenameEnd query w (x :: rest)).Always R
  rw [openFile, Prog.bind_done (getServer_run w _), Prog.bind_done hget]
  cases cstring filename 0 with
  | none => exact always_fault
  | some path =>
    dsimp only
    cases ho : w.own.fds.object w.own.server.directory with
    | none =>
      have hfault : useFd w.own.server.directory w (x :: rest) = .fault := by
        simp only [useFd, Prog.step, ho, Option.map_none]
      rw [Prog.bind_run, hfault]
      exact always_fault
    | some o =>
      rw [Prog.bind_done (useFd_run ho _)]
      cases hs : w.own.fds.object c.socket with
      | none =>
        have hfault : note c.socket (.openat path) w (x :: rest) = .fault := by
          simp only [note, Prog.step, hs, Option.map_none]
        rw [Prog.bind_run, hfault]
        exact always_fault
      | some o' =>
        have hnote := note_run (.openat path) hs (x :: rest)
        rw [Prog.bind_done hnote]
        exact hR path _ hnote

theorem openFile_since (hopen : ∀ path, q (.openat path))
    (h : ∀ filename query, Permits q filename query) :
    Triple (always (Since before q)) (Since before q) (openFile a filename filenameEnd query)
      (fun _ => Since before q) := by
  refine Triple.bind getServer_keeps fun s => Triple.bind (getClient_keeps trivial) fun c => ?_
  split
  · exact fault_keeps trivial
  · rename_i path _
    refine Triple.bind (useFd_keeps trivial) fun _ => ?_
    refine Triple.bind (note_since (hopen path)) fun _ => ?_
    refine Triple.bind systemCall_always fun x => ?_
    have hmenu := (h filename query).menu
    split
    · exact Triple.bind setClient_since fun _ => refuse_since (hmenu _ (openMenu_ne_bad _))
    · exact opened_since hmenu (fun _ => h _ _) fun _ _ _ _ => h _ _

/-- **Request framing decodes what clients encode.** Whatever a buffer
holds, the request in it is answered as a bad one if it has no CRLF (the
menu is written to the client, once, nothing is written to others, and the
client is freed), and never otherwise. With a CRLF it is an encoded
request, cut at its first CRLF and at the first TAB before that; and every
encoded request is decoded to its selector and query, where a query of no
bytes is as good as none. -/
theorem request_framing :
    (∀ (w : World) a c, w.own.mem.cell a = some c → c.buffer.length ≤ maxRequestSize → ∀ ans,
      (¬ [CR, LF] <:+: c.buffer → serveRequest a w ans = refuse a .bad w ans ∧
        (∀ w', serveRequest a w ans ≠ .stopped w') ∧
        ∀ r w' rest, serveRequest a w ans = .done r w' rest →
          r = false ∧ Dismissed w a c .bad w') ∧
      ([CR, LF] <:+: c.buffer →
        (serveRequest a w ans).Always (Since w.own.log (· ≠ .menu .bad)))) ∧
    (∀ buffer, [CR, LF] <:+: buffer → ∃ selector query trailing,
      buffer = encode selector query trailing ∧ TAB ∉ selector ∧
      ¬ [CR, LF] <:+: selector ++ query.elim [] (TAB :: ·) ∧
      decode buffer = some (selector, query.getD [])) ∧
    (∀ selector query trailing, TAB ∉ selector → ¬ [CR, LF] <:+: selector →
      (∀ q, query = some q → ¬ [CR, LF] <:+: q) →
      decode (encode selector query trailing) = some (selector, query.getD [])) := by
  refine ⟨fun w a c hcell hlen ans => ⟨fun hn => ?_, fun hcrlf => ?_⟩, framing.2⟩
  · have hbad := serveRequest_bad hcell ((framing.1 c.buffer).mpr hn) ans
    rw [hbad]
    exact ⟨rfl, refuse_dismissed hcell ans⟩
  have hpermits : ∀ filename query, Permits (· ≠ Action.menu .bad) filename query := fun _ _ =>
    ⟨fun m hm he => hm (Action.menu.inj he), fun _ => nofun, fun _ _ _ _ => nofun⟩
  obtain ⟨p, hp⟩ := parse_total hlen
  cases p with
  | badRequest => exact absurd hcrlf ((framing.1 c.buffer).mp hp)
  | forbidden =>
    rw [serveRequest_forbidden hcell hp]
    exact always_run (refuse_since (by simp)) (Since.refl w _) ans
  | path filename filenameEnd query =>
    rw [serveRequest, Prog.bind_done (getClient_run hcell ans), hp]
    exact always_run (openFile_since (fun path h => by cases h) hpermits) (Since.refl w _) ans

/-- A query may hold a TAB, and CRLF may follow. -/
theorem request_framing_search :
    decode (encode (ascii "find") (some [97, TAB, 98]) [CR, LF, TAB])
      = some (ascii "find", [97, TAB, 98]) :=
  request_framing.2.2 (ascii "find") (some [97, TAB, 98]) [CR, LF, TAB] (by decide) (by decide)
    fun q hq => by cases hq; decide

/-! ## What a program is told -/

/-- What a CGI program should be told of a request: the path of the
selector's components, with a slash behind it if that is a directory, and
the query, byte for byte. -/
structure CgiContract (selector query : Bytes) (directory : Bool) (envp : List Bytes) : Prop where
  scriptName : envp[0]? = some (ascii "SCRIPT_NAME=" ++
    (led SLASH (components selector) ++ if directory then [SLASH] else []))
  queryString : envp[1]? = some (ascii "QUERY_STRING=" ++ query)

theorem cgiChild_target {params : Params} {dirfd : Int} {address : Bytes} {answer : ChildAnswer}
    {directory : ExecDirectory} {command : Bytes} {argv envp : List Bytes}
    (h : cgiChild params dirfd address filename query answer
      = .execve directory command argv envp) :
    execTarget params dirfd filename answer.openat = some (some (directory, command)) := by
  unfold cgiChild at h
  repeat' split at h
  all_goals cases h
  assumption

theorem cgiChild_envp {params : Params} {dirfd : Int} {address path : Bytes} {answer : ChildAnswer}
    {d : ExecDirectory} {command : Bytes} {argv envp : List Bytes} (h0 : path ≠ [])
    (h : cgiChild params dirfd address (path ++ [0]) query answer = .execve d command argv envp) :
    envp[0]? = some (envSelector (untilNul (path.drop 1))) ∧ envp[1]? = some (envQuery query) := by
  have hname : cstring (path ++ [0]) 1 = some (untilNul (path.drop 1)) :=
    cstring_append_nul path (List.length_pos_iff.mpr h0)
  unfold cgiChild at h
  simp only [hname] at h
  repeat' split at h
  all_goals cases h
  exact ⟨rfl, rfl⟩

/-- A string that has room is printed up to its NUL, so it is printed as
it is if and only if it has none. -/
theorem snprintf_untilNul {head s : Bytes} (h : head.length + s.length < envBufferSize) :
    snprintf envBufferSize (head ++ untilNul s) = head ++ s ↔ 0 ∉ s := by
  have hfit : (head ++ untilNul s).length ≤ envBufferSize - 1 := by
    have := (untilNul_initial s).length_le
    rw [List.length_append]
    omega
  rw [snprintf, List.take_of_length_le hfit, List.append_cancel_left_eq, untilNul_eq_self_iff]

/-- The bytes of a selector are those of its components, and slashes. -/
theorem mem_led_components {b : UInt8} (hb : b ≠ SLASH) {s : Bytes} :
    b ∈ led SLASH (components s) ↔ b ∈ s := by
  simp only [led, List.mem_flatMap, List.mem_cons, hb, false_or]
  constructor
  · rintro ⟨d, hd, h⟩
    exact subset_of_mem_pieces hd h
  · exact fun h => exists_mem_pieces h hb

/-- The line of a request holds what is in its selector and its query,
and a TAB between them. -/
theorem mem_splitTab {b : UInt8} (hb : b ≠ TAB) {line : Bytes} :
    b ∈ line ↔ b ∈ (splitTab line).1 ∨ b ∈ (splitTab line).2 := by
  rcases splitTab_cases line with ⟨-, hs⟩ | ⟨s, t, hline, -, hs⟩
  · simp [hs]
  · rw [hs, hline]
    simp [hb]

theorem length_splitTab (line : Bytes) :
    (splitTab line).1.length + (splitTab line).2.length ≤ line.length := by
  rcases splitTab_cases line with ⟨-, hs⟩ | ⟨s, t, hline, -, hs⟩
  · simp [hs]
  · rw [hs, hline]
    simp only [List.length_append, List.length_cons]
    omega

/-- Neither string is cut off by its buffer, and so the program is told
of the request as it should be if and only if there is no NUL in it. -/
theorem cgiContract_iff {params : Params} {dirfd : Int} {address line : Bytes}
    {answer : ChildAnswer} {d : ExecDirectory} {command : Bytes} {argv envp : List Bytes}
    {directory : Bool} (hlen : line.length + 2 ≤ maxRequestSize)
    (h : cgiChild params dirfd address (relativePath (components (splitTab line).1) ++
      (if directory then [SLASH] else []) ++ [0]) (splitTab line).2 answer
        = .execve d command argv envp) :
    CgiContract (splitTab line).1 (splitTab line).2 directory envp ↔ 0 ∉ line := by
  have hsize := length_splitTab line
  have hled : (led SLASH (pieces SLASH (splitTab line).1)).length ≤ (splitTab line).1.length + 1 :=
    length_led_pieces _
  have hmax : maxRequestSize = 513 := rfl
  have henv : envBufferSize = 1024 := rfl
  obtain ⟨hscript, hquery⟩ := cgiChild_envp (by simp [relativePath]) h
  have hslash : (0 : UInt8) ∉ (if directory then [SLASH] else []) := by split <;> decide
  have hone : (if directory then [SLASH] else ([] : Bytes)).length ≤ 1 := by split <;> simp
  have hname : (ascii "SCRIPT_NAME=").length = 12 := by decide
  have hstring : (ascii "QUERY_STRING=").length = 13 := by decide
  have hfirst : envp[0]? = some (ascii "SCRIPT_NAME=" ++ (led SLASH (components (splitTab line).1)
      ++ if directory then [SLASH] else [])) ↔ 0 ∉ (splitTab line).1 := by
    rw [hscript, Option.some.injEq, envSelector, relativePath, List.cons_append, List.drop_one,
      List.tail_cons, snprintf_untilNul, List.mem_append, mem_led_components (by decide)]
    · simp only [hslash, or_false]
    · rw [hname, List.length_append]
      unfold components
      omega
  have hsecond : envp[1]? = some (ascii "QUERY_STRING=" ++ (splitTab line).2)
      ↔ 0 ∉ (splitTab line).2 := by
    rw [hquery, Option.some.injEq, envQuery, snprintf_untilNul]
    rw [hstring]
    omega
  rw [mem_splitTab (by decide), not_or, ← hfirst, ← hsecond]
  exact ⟨fun hc => ⟨hc.1, hc.2⟩, fun hc => ⟨hc.1, hc.2⟩⟩

/-- Of a request for the file `f`: every program that is run for it is
told of it as it should be if and only if there is no NUL in the line. -/
def Told (buffer : Bytes) (x : Answer) (act : Action) : Prop :=
  ∀ d command argv envp, act = .cgi (.execve d command argv envp) →
    ∃ want f line tail, x.openat = .ok (want, f) ∧ Framed buffer line tail ∧
      (CgiContract (splitTab line).1 (splitTab line).2 f.isDir envp ↔ 0 ∉ line)

theorem not_isDir (h : f.isReg) : f.isDir = false := by
  have hmode : f.mode &&& S_IFMT = S_IFREG := by simpa [File.isReg, isReg] using h
  rw [File.isDir, isDir, hmode]
  decide

/-- **What a CGI program is told.** Whatever bytes a request is made of,
every program that is executed for it is told of the path of its selector,
with a slash at the end if that is a directory, and of its query, byte for
byte, if and only if no NUL stands before the CRLF. -/
theorem cgi_environment {x : Answer} {rest : List Answer}
    (hcell : w.own.mem.cell a = some c) (hlen : c.buffer.length ≤ maxRequestSize) :
    (serveRequest a w (x :: rest)).Always (Since w.own.log (Told c.buffer x)) := by
  have hmenu : ∀ m, Told c.buffer x (.menu m) := fun m _ _ _ _ h => by cases h
  cases hp : parse c.buffer with
  | none => exact absurd hp (by obtain ⟨p, hp'⟩ := parse_total hlen; simp [hp'])
  | some p =>
    cases p with
    | badRequest =>
      rw [serveRequest_bad hcell hp]
      exact always_run (refuse_since (hmenu _)) (Since.refl w _) _
    | forbidden =>
      rw [serveRequest_forbidden hcell hp]
      exact always_run (refuse_since (hmenu _)) (Since.refl w _) _
    | path filename filenameEnd query =>
      obtain ⟨line, tail, hframed, -, rfl, rfl, rfl⟩ := parse_path hlen hp
      have hline : line.length + 2 ≤ maxRequestSize := by
        have := congrArg List.length hframed.eq
        simp only [List.length_append, List.length_cons] at this
        omega
      refine serveRequest_path hcell hp fun path w' hnote => ?_
      have hw' : Since w.own.log (Told c.buffer x) w' :=
        (note_since (fun _ _ _ _ h => by cases h)).done (Since.refl w _) (fun _ _ => trivial)
          hnote |>.1
      cases hx : x.openat with
      | error e =>
        dsimp only
        exact always_run (Triple.bind setClient_since fun _ => refuse_since (hmenu _)) hw' _
      | ok p =>
        obtain ⟨want, f⟩ := p
        dsimp only
        have hpermits : ∀ slash : Bytes, slash = (if f.isDir then [SLASH] else []) →
            Permits (Told c.buffer x)
              (relativePath (components (splitTab line).1) ++ slash ++ [0])
              (splitTab line).2 := by
          rintro _ rfl
          refine ⟨fun m _ => hmenu m, fun _ _ _ _ _ h => (by cases h), ?_⟩
          intro params dirfd address answer d command argv envp he
          exact ⟨want, f, line, tail, hx, hframed,
            cgiContract_iff hline (Action.cgi.inj he)⟩
        refine always_run (opened_since (fun m _ => hmenu m) (fun hr => ?_)
          fun hd filename' end' hs => ?_) hw' _
        · simpa using hpermits [] (by rw [not_isDir hr]; rfl)
        · rw [stpcpy_slash hlen hframed] at hs
          cases hs
          exact hpermits [SLASH] (by rw [hd]; rfl)

/-- A directory with a program for its index, and what the system answers
to a request for it. -/
def smallDirectory : File := ⟨S_IFDIR, 0, []⟩

def programRuns : List Answer :=
  [{ openat := .ok (9, smallDirectory) }, again, { openat := .ok (10, smallProgram) }, again,
    { fork := some ⟨11, {}⟩ }, again, { loop := { malloc := some 5 } }, again]

/-- A run until the client has sent its request. -/
def requestSent (request : Bytes) : List Answer :=
  asked.take 9 ++ [{ read := .ok request }, again]

theorem cgi_environment_directory :
    ∃ w c, w.own.mem.cell 1 = some c ∧ c.buffer = ascii "//docs" ++ [TAB, 97, CR, LF] ∧
      (serveRequest 1 w programRuns).Always (Since w.own.log
        (Told c.buffer { openat := .ok (9, smallDirectory) })) := by
  have h : ((do register; let _ ← batches 1; readRequest 1 : Program Bool) smallWorker
      (requestSent (ascii "//docs" ++ [TAB, 97, CR, LF]))).Returns fun _ w =>
        (w.own.mem.cell 1).map Client.buffer = some (ascii "//docs" ++ [TAB, 97, CR, LF]) := by
    decide +kernel
  obtain ⟨_, w, _, -, hw⟩ := h.state
  obtain ⟨c, hc, hbuffer⟩ := Option.map_eq_some_iff.mp hw
  exact ⟨w, c, hc, hbuffer, cgi_environment hc (by rw [hbuffer]; decide)⟩

/-- A selector with a NUL behind the name of a directory: the directory's
index is run, and told of a path without a slash at the end. -/
theorem cgi_environment_cut :
    ∃ w, serverLoop smallWorker
        (requestSent (ascii "docs" ++ [0, 120, CR, LF]) ++ programRuns) = .stopped w ∧
      ∃ n d command argv envp, Action.cgi (.execve d command argv envp) ∈ w.own.log n ∧
        ¬ CgiContract (ascii "docs" ++ [0, 120]) [] true envp := by
  have h : (serverLoop smallWorker
      (requestSent (ascii "docs" ++ [0, 120, CR, LF]) ++ programRuns)).Stops fun w =>
        Action.cgi (.execve .opened (ascii "index") [ascii "index"]
          [ascii "SCRIPT_NAME=/docs", ascii "QUERY_STRING=", ascii "SERVER_NAME=localhost",
            ascii "SERVER_PORT=70", ascii "REMOTE_ADDR=127.0.0.1"]) ∈ w.own.log 5 := by
    decide +kernel
  obtain ⟨w, hw, hlog⟩ := h.state
  exact ⟨w, hw, 5, _, _, _, _, hlog, fun hc => absurd hc.scriptName (by decide)⟩

end Sgopher.Server
