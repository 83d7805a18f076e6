/-
Sgopher.Gopherlist.FitTheorems — no line of a menu is dropped.

`gopherlist` ignores what `sbuffer_push` returns. `menu_fits` says that it
may: every variable that `client_socket` hands to a program went through a
buffer of `ENV_BUFFER_SIZE` bytes, so with file names of at most 255 bytes
the header fits in the empty buffer, and a line fits in the room that
`sbuffer_checkflush` keeps free.

No `sorry`, no `axiom`, no `native_decide`.
-/
import Sgopher.Gopherlist.ListingTheorems
import Sgopher.Server.Cgi

namespace Sgopher.Gopherlist

open Sgopher.Lib

variable {environ : List Bytes} {dir : Directory} {env : Env}

/-! ## The environment of a program -/

/-- The strings of an environment each fit in a buffer of
`ENV_BUFFER_SIZE` bytes. -/
def ShortEnviron (environ : List Bytes) : Prop := ∀ e ∈ environ, e.length < Server.envBufferSize

theorem snprintf_length {size : Nat} (hsize : 0 < size) (s : Bytes) :
    (snprintf size s).length < size := by
  have := List.length_take_le (size - 1) s
  rw [snprintf]
  omega

/-- What the child that `client_socket` forks executes a program with. -/
theorem cgiChild_environ {params : Server.Params} {dirfd : Int} {address filename query : Bytes}
    {answer : Server.ChildAnswer} {d : Server.ExecDirectory} {command : Bytes}
    {argv envp : List Bytes}
    (h : Server.cgiChild params dirfd address filename query answer = .execve d command argv envp) :
    ∃ scriptName, cstring filename 1 = some scriptName ∧
      envp = [Server.envSelector scriptName, Server.envQuery query, Server.envHostname params,
        Server.envPort params, Server.envAddress address] := by
  unfold Server.cgiChild at h
  repeat' split at h
  all_goals cases h
  exact ⟨_, by assumption, rfl⟩

theorem cgiChild_short {params : Server.Params} {dirfd : Int} {address filename query : Bytes}
    {answer : Server.ChildAnswer} {d : Server.ExecDirectory} {command : Bytes}
    {argv envp : List Bytes}
    (h : Server.cgiChild params dirfd address filename query answer = .execve d command argv envp) :
    ShortEnviron envp := by
  obtain ⟨scriptName, -, rfl⟩ := cgiChild_environ h
  have hsize : 0 < Server.envBufferSize := by decide
  intro e he
  simp only [List.mem_cons, List.not_mem_nil, or_false] at he
  rcases he with rfl | rfl | rfl | rfl | rfl <;> exact snprintf_length hsize _

/-- The variables that `main` asks for are short. -/
structure Short (env : Env) : Prop where
  selector : (env.selector.getD []).length ≤ 1023
  hostname : (percentS env.hostname).length ≤ 1023
  port : (percentS env.port).length ≤ 1023
  query : env.queryBytes.length ≤ 1023

theorem getenv_short (h : ShortEnviron environ) (name default : Bytes)
    (hdefault : default.length ≤ 1023) :
    ((getenv environ name).getD default).length ≤ 1023 := by
  unfold getenv
  cases hfind : environ.find? fun e => (name ++ ascii "=").isPrefixOf e with
  | none => exact hdefault
  | some e =>
    have hlength : e.length < 1024 := h e (List.mem_of_find?_eq_some hfind)
    simp only [Option.map_some, Option.getD_some, List.length_drop]
    omega

theorem ShortEnviron.short (h : ShortEnviron environ) : Short (Env.get environ) := by
  constructor
  · exact getenv_short h _ [] (by decide)
  · exact getenv_short h _ (ascii "(null)") (by decide)
  · exact getenv_short h _ (ascii "(null)") (by decide)
  · exact getenv_short h _ [] (by decide)

/-! ## The lengths of the lines -/

theorem Short.selectorPrefix (h : Short env) (n : Nat) : (env.selectorPrefix n).length ≤ 1023 :=
  (List.length_take_le' ..).trans h.selector

theorem Short.titleLine (h : Short env) : env.titleLine.length ≤ 3095 := by
  have hascii : (ascii "iDirectory listing of ").length = 22 := rfl
  have hcolon : (ascii ":").length = 1 := rfl
  have hcrlf : crlf.length = 2 := rfl
  have hdirectory : env.directory.length ≤ 1023 := h.selectorPrefix _
  have := h.hostname
  have := h.port
  simp only [Env.titleLine, List.length_append, List.length_singleton, hascii, hcolon, hcrlf]
  omega

theorem Short.queryLine (h : Short env) : env.queryLine.length ≤ 1055 := by
  have hascii : (ascii "iShowing filenames containing ").length = 30 := rfl
  have hcrlf : crlf.length = 2 := rfl
  have := h.query
  simp only [Env.queryLine, List.length_append, hascii, hcrlf]
  omega

theorem Short.parentLine (h : Short env) (slash : Nat) : (env.parentLine slash).length ≤ 3091 := by
  have hascii : (ascii "1Parent Directory").length = 17 := rfl
  have hcrlf : crlf.length = 2 := rfl
  have := h.selectorPrefix (slash + 1)
  have := h.hostname
  have := h.port
  simp only [Env.parentLine, List.length_append, List.length_singleton, hascii, hcrlf]
  omega

theorem Short.header (h : Short env) : Roomy (headerLines env) := by
  have htitle := h.titleLine
  have hquery := h.queryLine
  have hblank : blankLine.length = 3 := rfl
  have hmiddle :
      (if 0 < env.queryBytes.length then [env.queryLine] else []).flatten.length ≤ 1055 := by
    split
    · simpa using hquery
    · simp
  have hparent : (env.parentSlash.toList.map env.parentLine).flatten.length ≤ 3091 := by
    cases env.parentSlash with
    | none => simp
    | some slash => simpa using h.parentLine slash
  simp only [Roomy, headerLines, bufferLeftover, List.flatten_append, List.length_append,
    List.flatten_singleton, hblank]
  omega

/-- The line of an item, by the lengths of what it is made of. -/
theorem line_length (env : Env) (item : UInt8 × Name) :
    (env.line item).length = env.directory.length + 2 * item.2.bytes.length +
      (percentS env.hostname).length + (percentS env.port).length + 7 := by
  have hcrlf : crlf.length = 2 := rfl
  simp only [Env.line, Env.itemLine, List.length_append, List.length_singleton, hcrlf]
  omega

theorem Short.line (h : Short env) {item : UInt8 × Name} (hname : item.2.bytes.length ≤ 255) :
    (env.line item).length < bufferLeftover := by
  have hdirectory : env.directory.length ≤ 1023 := h.selectorPrefix _
  have := h.hostname
  have := h.port
  rw [line_length, bufferLeftover]
  omega

/-! ## The names -/

theorem mem_keptNames {f : Name} :
    f ∈ keptNames env dir ↔ f ∈ dir.entries ∧ env.wants f = true := by
  rw [keptNames, sortNames, List.mem_insertionSort, List.mem_filter]

theorem mem_of_mem_items {stat : Name → Option UInt32} {item : UInt8 × Name} :
    ∀ {filenames : List Name}, item ∈ items stat filenames → item.2 ∈ filenames
  | [], h => by cases h
  | filename :: rest, h => by
    rw [items] at h
    split at h
    · cases h
    · split at h
      · exact List.mem_cons_of_mem _ (mem_of_mem_items h)
      · rcases List.mem_cons.mp h with rfl | h
        · exact List.mem_cons_self
        · exact List.mem_cons_of_mem _ (mem_of_mem_items h)

theorem Short.fits (h : Short env) (hnames : ∀ f ∈ dir.entries, f.bytes.length ≤ 255) :
    Fits env dir := by
  refine ⟨h.header, fun line hline => ?_⟩
  obtain ⟨item, hitem, rfl⟩ := List.mem_map.mp hline
  exact h.line (hnames _ (mem_keptNames.mp (mem_of_mem_items hitem)).1)

/-! ## The run -/

theorem started_allFit : AllFit started := fun _ hp => by cases hp

theorem Ending.allFit {healthy : Prop} {stack : Stack} {code : ExitStatus} {w : World}
    (h : Ending healthy stack env dir code w) (hunbroken : Unbroken w) : AllFit w := by
  cases h with
  | silent hw => exact hw ▸ started_allFit
  | killed hw => exact hw ▸ started_allFit
  | failed hstack hstat h => exact (h.filled hunbroken).allFit
  | finished hstack hstat h => exact (h.filled hunbroken).allFit

/-- **No line of a menu is dropped.** In an environment that `client_socket`
builds, with file names of at most 255 bytes, every push has fitted at
every point of a run at which no flush has failed; and when the program
has exited with success, everything that was pushed is written. -/
theorem menu_fits {params : Server.Params} {dirfd : Int} {address filename query : Bytes}
    {answer : Server.ChildAnswer} {d : Server.ExecDirectory} {command : Bytes}
    {argv envp : List Bytes} {dir : Directory}
    (hexec : Server.cgiChild params dirfd address filename query answer =
      .execve d command argv envp)
    (hnames : ∀ f ∈ dir.entries, f.bytes.length ≤ 255) (stack : Stack) (ans : List Answer) :
    (main stack envp dir started ans).Always (fun w => Unbroken w → AllFit w) ∧
      main stack envp dir started ans ≠ .fault ∧
      ∀ w rest, main stack envp dir started ans = .done .success w rest → Unbroken w →
        w.out = accepted w.pushes := by
  have htriple : Triple (contract False) _ (main stack envp dir) _ :=
    main_triple False ((cgiChild_short hexec).short.fits hnames)
  have hans : ∀ x ∈ ans, (contract False).answers x := fun _ _ h => h.elim
  refine ⟨(htriple started ans rfl hans).always (fun _ h => h) fun _ w h => h.allFit,
    htriple.not_fault rfl hans id, fun w rest hrun hunbroken => ?_⟩
  cases (htriple.done rfl hans hrun).1 with
  | finished hstack hstat h =>
    have hfilled := h.filled hunbroken
    rw [hfilled.out, hfilled.pushes, accepted_fitted hfilled.texts, List.append_nil]

/-! ## A small run -/

def smallName : Name := ⟨ascii "a.txt", by decide, by decide, by decide⟩

/-- A directory with one file, of the given mode. -/
def smallDirectory (mode : UInt32) : Directory := ⟨[smallName], by decide, fun _ => some mode⟩

def smallParams : Server.Params := ⟨ascii "h", 70, 1, 1, ascii ".", ascii "index"⟩

/-- The environment of a program that lists the content directory. -/
def smallEnviron : List Bytes :=
  [ascii "SCRIPT_NAME=/", ascii "QUERY_STRING=", ascii "SERVER_NAME=h", ascii "SERVER_PORT=70",
    ascii "REMOTE_ADDR="]

/-- The usual limit of 8 MiB, all of it; a copy takes what it is long, with
padding up to a multiple of 16. -/
def usualStack : Stack := ⟨8388608, fun n => (n + 23) / 16 * 16⟩

/-- Memory, the directory, and the menu in two writes. -/
def smallAnswers : List Answer := [{}, {}, { write := .ok 30 }, { write := .ok 1000 }]

theorem smallEnviron_execve : Server.cgiChild smallParams 5 [] (ascii "./" ++ [0]) [] {} =
    .execve .opened (ascii "index") [ascii "index"] smallEnviron := by decide +kernel

theorem menu_fits_small :
    ∃ w rest, main usualStack smallEnviron (smallDirectory (S_IFREG ||| S_IROTH)) started
      smallAnswers = .done .success w rest ∧ w.out = accepted w.pushes := by
  have h : (main usualStack smallEnviron (smallDirectory (S_IFREG ||| S_IROTH)) started
      smallAnswers).Returns fun code w => code = .success ∧ Unbroken w := by decide +kernel
  obtain ⟨code, w, rest, hrun, rfl, hunbroken⟩ := h.state
  exact ⟨w, rest, hrun,
    (menu_fits smallEnviron_execve (by decide) usualStack smallAnswers).2.2 w rest hrun hunbroken⟩

end Sgopher.Gopherlist
