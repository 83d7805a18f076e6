/-
Sgopher.Gopherlist.ParentTheorems — the header of a menu and its parent
link.

Both come from the last two slashes of SCRIPT_NAME. `Lists` is what the
two ways of listing a directory have in common: the components of the
directory, each led by a slash, and behind one more slash whatever is left,
the name of the program or nothing. From there on it is one case, by the
last component: `led_dropLast` moves the second slash.

`client_socket` refuses every path with a hidden component, so the link of
a directory below a hidden one is refused as well.

No `sorry`, no `axiom`, no `native_decide`.
-/
import Sgopher.Gopherlist.FitTheorems
import Sgopher.Server.FramingTheorems

namespace Sgopher.Gopherlist

open Sgopher.Lib

variable {env : Env} {dir : Directory} {cs : List Bytes}

/-! ## The selector -/

/-- The selector that `main` is told when it lists the directory with the
components `cs`, as its index or by its own name. -/
structure Lists (cs : List Bytes) (selector : Bytes) : Prop where
  components : ∀ c ∈ cs, c ≠ [] ∧ SLASH ∉ c
  split : ∃ last, selector = led SLASH cs ++ SLASH :: last ∧ SLASH ∉ last

/-- A path of components, with the slash of a directory behind it. -/
def directoryPath (cs : List Bytes) : Bytes := led SLASH cs ++ [SLASH]

theorem directoryPath_length (cs : List Bytes) :
    (directoryPath cs).length = (led SLASH cs).length + 1 := by
  rw [directoryPath, List.length_append, List.length_singleton]

/-- The path of a directory other than the root ends with a slash and its
last component. -/
theorem led_dropLast (h : cs ≠ []) :
    led SLASH cs = led SLASH cs.dropLast ++ SLASH :: cs.getLast h := by
  conv_lhs => rw [← List.dropLast_concat_getLast h]
  simp

theorem components_directoryPath (h : ∀ c ∈ cs, c ≠ [] ∧ SLASH ∉ c) :
    Server.components (directoryPath cs) = cs := by
  rw [directoryPath, Server.components_append_slash]
  exact pieces_led h

/-- There is one slash at the end of a path. -/
theorem directoryPath_one_slash (h : ∀ c ∈ cs, c ≠ [] ∧ SLASH ∉ c) :
    ¬ [SLASH, SLASH] <:+ directoryPath cs := by
  rintro ⟨before, hbefore⟩
  have hled : before ++ [SLASH] = led SLASH cs := by
    have hend : (before ++ [SLASH]) ++ [SLASH] = led SLASH cs ++ [SLASH] := by
      rw [← directoryPath, ← hbefore]
      simp
    exact List.append_cancel_right hend
  by_cases hroot : cs = []
  · rw [hroot, led_nil] at hled
    simp at hled
  · obtain ⟨hne, hslash⟩ := h _ (List.getLast_mem hroot)
    rw [led_dropLast hroot] at hled
    have hend := congrArg List.getLast? hled
    rw [List.getLast?_concat, List.getLast?_append_of_ne_nil _ (List.cons_ne_nil _ _),
      List.getLast?_cons_of_ne_nil hne, List.getLast?_eq_getLast_of_ne_nil hne] at hend
    rw [Option.some.injEq] at hend
    exact hslash (hend ▸ List.getLast_mem hne)

/-! ## The two slashes -/

theorem Lists.lastSlash {selector : Bytes} (h : Lists cs selector)
    (henv : env.selector = some selector) : env.lastSlash = some (led SLASH cs).length := by
  obtain ⟨last, rfl, hslash⟩ := h.split
  rw [Env.lastSlash, henv, Option.bind_some, strrchr_append _ hslash]

theorem Lists.directory {selector : Bytes} (h : Lists cs selector)
    (henv : env.selector = some selector) : env.directory = led SLASH cs := by
  have hlast := h.lastSlash henv
  obtain ⟨last, rfl, -⟩ := h.split
  rw [Env.directory, hlast, Env.selectorPrefix, henv]
  exact List.take_left

/-- The second slash is the one in front of the last component. -/
theorem Lists.parentSlash {selector : Bytes} (h : Lists cs selector)
    (henv : env.selector = some selector) :
    env.parentSlash = if cs = [] then none else some (led SLASH cs.dropLast).length := by
  have hlast := h.lastSlash henv
  obtain ⟨last, rfl, -⟩ := h.split
  rw [Env.parentSlash, henv, hlast]
  show memrchr _ SLASH _ = _
  rw [memrchr, List.take_left]
  split
  · rename_i hroot
    rw [hroot]
    rfl
  · rename_i hroot
    rw [led_dropLast hroot]
    exact strrchr_append _ (h.components _ (List.getLast_mem hroot)).2

/-- What is printed of the selector up to the second slash. -/
theorem Lists.parentPrefix {selector : Bytes} (h : Lists cs selector)
    (henv : env.selector = some selector) (hroot : cs ≠ []) :
    env.selectorPrefix ((led SLASH cs.dropLast).length + 1) = directoryPath cs.dropLast := by
  obtain ⟨last, rfl, -⟩ := h.split
  have hsplit : led SLASH cs ++ SLASH :: last =
      directoryPath cs.dropLast ++ (cs.getLast hroot ++ SLASH :: last) := by
    rw [led_dropLast hroot, directoryPath]
    simp
  rw [Env.selectorPrefix, henv, Option.getD_some, hsplit, ← directoryPath_length]
  exact List.take_left

/-! ## The header -/

/-- "iDirectory listing of host:port" and a path. -/
def Env.titleOf (env : Env) (path : Bytes) : Bytes :=
  ascii "iDirectory listing of " ++ percentS env.hostname ++ ascii ":" ++ percentS env.port ++
    path ++ crlf

/-- A parent link with the given selector. -/
def Env.linkTo (env : Env) (selector : Bytes) : Bytes :=
  ascii "1Parent Directory" ++ [TAB] ++ selector ++ [TAB] ++
    percentS env.hostname ++ [TAB] ++ percentS env.port ++ crlf

/-- The header of the directory with the components `cs`. -/
def Env.headerOf (env : Env) (cs : List Bytes) : List Bytes :=
  [env.titleOf (directoryPath cs)] ++
    (if 0 < env.queryBytes.length then [env.queryLine] else []) ++ [blankLine] ++
    (if cs = [] then [] else [env.linkTo (directoryPath cs.dropLast)])

theorem Lists.header {selector : Bytes} (h : Lists cs selector)
    (henv : env.selector = some selector) : headerLines env = env.headerOf cs := by
  have htitle : env.titleLine = env.titleOf (directoryPath cs) := by
    rw [Env.titleLine, h.directory henv, Env.titleOf, directoryPath]
    simp
  rw [headerLines, Env.headerOf, htitle, h.parentSlash henv]
  by_cases hroot : cs = []
  · rw [if_pos hroot, if_pos hroot]
    rfl
  · rw [if_neg hroot, if_neg hroot, Option.toList_some, List.map_singleton, Env.parentLine,
      h.parentPrefix henv hroot, Env.linkTo]

/-! ## The parent -/

/-- The link is shorter than the path of the directory itself, so that it
fits in a request if that came with one. -/
theorem parent_shorter (h : ∀ c ∈ cs, c ≠ [] ∧ SLASH ∉ c) (hroot : cs ≠ []) :
    (directoryPath cs.dropLast).length < (led SLASH cs).length := by
  have hlast : 0 < (cs.getLast hroot).length :=
    List.length_pos_iff.mpr (h _ (List.getLast_mem hroot)).1
  rw [directoryPath_length, led_dropLast hroot, List.length_append, List.length_cons]
  omega

/-- What `client_socket` makes of the path of a directory. -/
theorem normalise_directoryPath (h : ∀ c ∈ cs, c ≠ [] ∧ SLASH ∉ c) (rest : Bytes)
    (hfit : (directoryPath cs).length + 2 ≤ Server.maxRequestSize) :
    Server.normalise (directoryPath cs ++ rest) (directoryPath cs).length =
      some (if ∃ c ∈ cs, Server.Hidden c then .forbidden
        else .filename (Server.relativePath cs ++ [0]) (Server.relativePath cs).length) := by
  have hsize : (directoryPath cs).length ≤ (directoryPath cs ++ rest).length := by simp
  rw [Server.normalise_spec hsize hfit, List.take_left, components_directoryPath h]

/-- **The parent link is the parent directory.** A run that lists the
directory with the components `cs` writes a header with the path of the
directory, which has one slash at its end, and a parent link if and only if
the directory is not the root. The selector of the link, which is shorter
than the path of the directory, leads to the components but the last,
unless one of these is hidden, and then it is refused. -/
theorem parent_link {stack : Stack} {selector : Bytes} {environ : List Bytes} {dir : Directory}
    {ans rest : List Answer} {w : World} (hlists : Lists cs selector)
    (hselector : getenv environ (ascii "SCRIPT_NAME") = some selector)
    (henviron : ShortEnviron environ) (hnames : ∀ f ∈ dir.entries, f.bytes.length ≤ 255)
    (hrun : main stack environ dir started ans = .done .success w rest) (hunbroken : Unbroken w) :
    (∃ n, w.out = ((Env.get environ).headerOf cs ++ itemLines (Env.get environ) dir ++
        footerTexts (Env.get environ) n).flatten) ∧
      Server.components (directoryPath cs) = cs ∧ ¬ [SLASH, SLASH] <:+ directoryPath cs ∧
      (cs ≠ [] → (directoryPath cs.dropLast).length < (led SLASH cs).length ∧
        ∀ trailing, (directoryPath cs.dropLast).length + 2 ≤ Server.maxRequestSize →
          Server.normalise (directoryPath cs.dropLast ++ trailing)
            (directoryPath cs.dropLast).length =
            some (if ∃ c ∈ cs.dropLast, Server.Hidden c then .forbidden
              else .filename (Server.relativePath cs.dropLast ++ [0])
                (Server.relativePath cs.dropLast).length)) := by
  have hcs := hlists.components
  have hend := ((main_triple False (henviron.short.fits hnames)).done rfl
    (fun _ _ h => h.elim) hrun).1
  refine ⟨?_, components_directoryPath hcs, directoryPath_one_slash hcs, fun hroot =>
    ⟨parent_shorter hcs hroot, fun trailing hfit => ?_⟩⟩
  · cases hend with
    | finished _ _ h => exact ⟨_, by rw [(h.filled hunbroken).out, hlists.header hselector]⟩
  · exact normalise_directoryPath (fun c hc => hcs c (List.dropLast_subset _ hc)) trailing hfit

/-! ## Small runs -/

/-- The environment of a program with the given SCRIPT_NAME. -/
def environOf (selector : Bytes) : List Bytes :=
  [ascii "SCRIPT_NAME=" ++ selector, ascii "QUERY_STRING=", ascii "SERVER_NAME=h",
    ascii "SERVER_PORT=70", ascii "REMOTE_ADDR="]

theorem lists_small (c d last : Bytes) (hc : c ≠ [] ∧ SLASH ∉ c) (hd : d ≠ [] ∧ SLASH ∉ d)
    (hlast : SLASH ∉ last) : Lists [c, d] (led SLASH [c, d] ++ SLASH :: last) where
  components := by
    simp only [List.mem_cons, List.not_mem_nil, or_false]
    rintro e (rfl | rfl)
    · exact hc
    · exact hd
  split := ⟨last, rfl, hlast⟩

/-- The listing `l` of the directory `a/b`, by its name. -/
theorem parent_link_small :
    ∃ w rest, main usualStack (environOf (ascii "/a/b/l")) (smallDirectory S_IFREG) started
      smallAnswers = .done .success w rest ∧
      (∃ n, w.out = ((Env.get (environOf (ascii "/a/b/l"))).headerOf [ascii "a", ascii "b"] ++
        itemLines (Env.get (environOf (ascii "/a/b/l"))) (smallDirectory S_IFREG) ++
        footerTexts (Env.get (environOf (ascii "/a/b/l"))) n).flatten) ∧
      Server.normalise (ascii "/a/" ++ [CR, LF]) 3 =
        some (.filename (ascii "./a" ++ [0]) 3) := by
  have h : (main usualStack (environOf (ascii "/a/b/l")) (smallDirectory S_IFREG) started
      smallAnswers).Returns fun code w => code = .success ∧ Unbroken w := by
    decide +kernel
  obtain ⟨code, w, rest, hrun, rfl, hunbroken⟩ := h.state
  have henviron : ShortEnviron (environOf (ascii "/a/b/l")) := by
    unfold ShortEnviron
    decide
  have hlink := parent_link (lists_small (ascii "a") (ascii "b") (ascii "l") (by decide)
    (by decide) (by decide)) (by decide) henviron (by decide) hrun hunbroken
  exact ⟨w, rest, hrun, hlink.1, (hlink.2.2.2 (by decide)).2 [CR, LF] (by decide)⟩

/-- The link from `.a/b` is written, and refused when it is followed. -/
theorem parent_link_refused :
    Lists [ascii ".a", ascii "b"] (ascii "/.a/b/") ∧
      (∃ w rest, main usualStack (environOf (ascii "/.a/b/")) (smallDirectory S_IFREG) started
        smallAnswers = .done .success w rest ∧
        (Env.get (environOf (ascii "/.a/b/"))).linkTo (ascii "/.a/") <:+: w.out) ∧
      ∀ filename filenameEnd, Server.normalise (ascii "/.a/" ++ [CR, LF]) 4 ≠
        some (.filename filename filenameEnd) := by
  have h : (main usualStack (environOf (ascii "/.a/b/")) (smallDirectory S_IFREG) started
      smallAnswers).Returns fun code w => code = .success ∧
        (Env.get (environOf (ascii "/.a/b/"))).linkTo (ascii "/.a/") <:+: w.out := by
    decide +kernel
  obtain ⟨code, w, rest, hrun, rfl, hlink⟩ := h.state
  have hrefused : Server.normalise (ascii "/.a/" ++ [CR, LF]) 4 = some .forbidden := by decide
  refine ⟨lists_small (ascii ".a") (ascii "b") [] (by decide) (by decide) (by decide),
    ⟨w, rest, hrun, hlink⟩, fun filename filenameEnd hfilename => ?_⟩
  rw [hrefused] at hfilename
  cases hfilename

end Sgopher.Gopherlist
