/-
Sgopher.Gopherlist.LinksTheorems — a menu leads back to the files.

`gopherlist` writes the selector of an item by what it finds in its
environment, and `client_socket` reads it. The components of the request
carry the proof: `client_socket` tells the program the path of the
components, with a slash behind it that ends the directory's part, and an
item's selector is the path of the same components and the file's name.

Nothing is quoted on the way, so a name with a TAB or a CRLF in it breaks
the line of its item, and a selector has to fit in the buffer of
`client_socket`. `menu_leads_back` says that nothing else can go wrong.

No `sorry`, no `axiom`, no `native_decide`.
-/
import Sgopher.Gopherlist.ParentTheorems
import Sgopher.Gopherlist.ServableTheorems
import Sgopher.Lib.Pieces
import Sgopher.Server.CgiTheorems

namespace Sgopher.Gopherlist

open Sgopher.Lib

variable {params : Server.Params} {buffer path : Bytes} {environ : List Bytes} {env : Env}
  {dir : Directory} {cs : List Bytes}

/-! ## The environment of a listing -/

/-- How `client_socket` comes to execute a program in the directory `path`:
it opened the directory, and the program is its index file; or the program
itself was asked for by its name in the directory. -/
inductive ListingOf (params : Server.Params) (buffer path : Bytes) (environ : List Bytes) : Prop
  | byDirectory {filename filename' query address command : Bytes} {filenameEnd filenameEnd' : Nat}
      {dirfd : Int} {answer : Server.ChildAnswer} {argv : List Bytes}
      (hparse : Server.parse buffer = some (.path filename filenameEnd query))
      (hpath : cstring filename 0 = some path)
      (hslash : stpcpy Server.maxFilenameSize filename filenameEnd [SLASH]
        = some (filename', filenameEnd'))
      (hexec : Server.cgiChild params dirfd address filename' query answer =
        .execve .opened command argv environ) :
      ListingOf params buffer path environ
  | byName {filename query address command : Bytes} {filenameEnd : Nat}
      {dirfd : Int} {answer : Server.ChildAnswer} {argv : List Bytes}
      (hparse : Server.parse buffer = some (.path filename filenameEnd query))
      (hexec : Server.cgiChild params dirfd address filename query answer =
        .execve (.path path) command argv environ) :
      ListingOf params buffer path environ

/-- The values of SERVER_NAME and SERVER_PORT. -/
def serverName (params : Server.Params) : Bytes := params.hostname.take 1011

def serverPort (params : Server.Params) : Bytes := decimal params.port.toNat

/-- What `getenv` reads of the environment that `client_socket` builds. -/
theorem get_cgi_environ (params : Server.Params) (scriptName query address : Bytes) :
    Env.get [Server.envSelector scriptName, Server.envQuery query, Server.envHostname params,
      Server.envPort params, Server.envAddress address] =
      ⟨some (scriptName.take 1011), some (serverName params), some (serverPort params),
        some ((untilNul query).take 1010)⟩ := by
  have hdecimal : (decimal params.port.toNat).take 1011 = serverPort params := by
    refine List.take_of_length_le ?_
    have := decimal_length_le (n := params.port.toNat) (k := 5) (by decide)
      (Nat.lt_of_lt_of_le params.port.toNat_lt (by decide))
    omega
  have hselector : Server.envSelector scriptName = ascii "SCRIPT_NAME=" ++ scriptName.take 1011 :=
    snprintf_append (by decide) _
  have hquery : Server.envQuery query = ascii "QUERY_STRING=" ++ (untilNul query).take 1010 :=
    snprintf_append (by decide) _
  have hhostname : Server.envHostname params = ascii "SERVER_NAME=" ++ serverName params :=
    snprintf_append (by decide) _
  have hport : Server.envPort params = ascii "SERVER_PORT=" ++ serverPort params := by
    rw [Server.envPort, snprintf_append (by decide)]
    exact congrArg _ hdecimal
  rw [hselector, hquery, hhostname, hport]
  rfl

/-- A component that can stand in a path and in the line of an item. -/
structure Component (c : Bytes) : Prop where
  ne_nil : c ≠ []
  no_slash : SLASH ∉ c
  no_nul : 0 ∉ c
  no_tab : TAB ∉ c
  no_crlf : ¬ [CR, LF] <:+: c
  visible : ¬ Server.Hidden c

/-- What `main` is told of the directory with the components `cs`: its
selector has them in front of its last slash. -/
structure ToldOf (params : Server.Params) (cs : List Bytes) (env : Env) : Prop where
  components : ∀ c ∈ cs, Component c
  selector : ∃ last, env.selector = some (led SLASH cs ++ SLASH :: last) ∧ SLASH ∉ last ∧
    ¬ [CR, LF] <:+: last
  hostname : env.hostname = some (serverName params)
  port : env.port = some (serverPort params)
  query : ¬ [CR, LF] <:+: env.queryBytes

/-- The components of a request that parses to a path. -/
theorem components_of_parse {filename query : Bytes} {filenameEnd : Nat}
    (hmax : buffer.length ≤ Server.maxRequestSize)
    (hnul : ∀ s q, Server.decode buffer = some (s, q) → 0 ∉ s)
    (hparse : Server.parse buffer = some (.path filename filenameEnd query)) :
    ∃ cs, (∀ c ∈ cs, Component c) ∧ filename = Server.relativePath cs ++ [0] ∧
      filenameEnd = (Server.relativePath cs).length ∧ (led SLASH cs).length ≤ 512 ∧
      ¬ [CR, LF] <:+: query := by
  obtain ⟨line, rest, hframed, hvisible, rfl, rfl, rfl⟩ := Server.parse_path hmax hparse
  obtain ⟨hbuffer, hcrlf⟩ := Server.framed_iff.mp hframed
  have hselector : (Server.splitTab line).1 <:+: line := (List.takeWhile_prefix _).isInfix
  have hquery : (Server.splitTab line).2 <:+: line :=
    ((List.drop_suffix _ _).trans (List.dropWhile_suffix _)).isInfix
  have htab : TAB ∉ (Server.splitTab line).1 := fun h => by
    have := List.all_eq_true.mp List.all_takeWhile TAB h
    simp at this
  refine ⟨Server.components (Server.splitTab line).1, fun c hc => ?_, rfl, rfl, ?_,
    fun h => hcrlf (h.trans hquery)⟩
  · have hin := infix_of_mem_pieces hc
    exact ⟨(mem_pieces hc).1, (mem_pieces hc).2,
      fun h0 => hnul _ _ (Server.decode_framed hframed) (hin.subset h0),
      fun h => htab (hin.subset h), fun h => hcrlf ((h.trans hin).trans hselector), hvisible c hc⟩
  · have hled : (led SLASH (Server.components (Server.splitTab line).1)).length ≤
        (Server.splitTab line).1.length + 1 := length_led_pieces _
    have := hselector.length_le
    have := congrArg List.length hbuffer
    simp only [List.length_append, List.length_cons] at this
    simp only [Server.maxRequestSize] at hmax
    omega

/-- The directory of a program that was asked for by its name. -/
theorem cgiChild_path {dirfd : Int} {address query p : Bytes} {answer : Server.ChildAnswer}
    {command : Bytes} {argv : List Bytes}
    (hexec : Server.cgiChild params dirfd address (p ++ [0]) query answer =
      .execve (.path path) command argv environ)
    (hlen : p.length < Server.maxFilenameSize) (hp : 0 ∉ p) :
    ∃ name, p = path ++ SLASH :: name ∧ SLASH ∉ name := by
  have htarget := Server.cgiChild_target hexec
  have hself : untilNul p = p := untilNul_eq_self hp
  have hd : dirfd < 0 := by
    by_contra hn
    rw [Server.execTarget, if_neg hn] at htarget
    cases htarget
  rcases strrchr_cases p SLASH with ⟨hnone, -⟩ | ⟨s, name, hsplit, hname, -⟩
  · rw [Server.execTarget, if_pos hd, cstring_append_nul _ (Nat.zero_le _), List.drop_zero,
      hself] at htarget
    simp only [hnone] at htarget
    cases htarget
  · rw [Server.execTarget_path params _ hd hlen (hself.trans hsplit) hname] at htarget
    cases ho : answer.openat with
    | some e =>
      rw [ho] at htarget
      cases htarget
    | none =>
      rw [ho] at htarget
      cases htarget
      exact ⟨_, hsplit, hname⟩

/-- A path of such components can stand in both as well. -/
theorem led_component (h : ∀ c ∈ cs, Component c) :
    0 ∉ led SLASH cs ∧ TAB ∉ led SLASH cs ∧ ¬ [CR, LF] <:+: led SLASH cs :=
  ⟨not_mem_led (by decide) fun c hc => (h c hc).no_nul,
    not_mem_led (by decide) fun c hc => (h c hc).no_tab,
    not_infix_append_led (a := []) (by decide) (by decide) fun c hc => (h c hc).no_crlf⟩

theorem zero_not_mem_relativePath (h : ∀ c ∈ cs, Component c) : 0 ∉ Server.relativePath cs :=
  fun h0 => (List.mem_cons.mp h0).elim (by decide) (led_component h).1

/-- The string behind the period becomes SCRIPT_NAME as it is. -/
theorem toldOf_cgiChild {last filename query address command : Bytes} {dirfd : Int}
    {answer : Server.ChildAnswer} {d : Server.ExecDirectory} {argv : List Bytes}
    (hexec : Server.cgiChild params dirfd address filename query answer =
      .execve d command argv environ)
    (hfilename : filename = Server.relativePath cs ++ SLASH :: last ++ [0])
    (hcs : ∀ c ∈ cs, Component c) (hlen : (led SLASH cs ++ SLASH :: last).length ≤ 513)
    (hlast : 0 ∉ last ∧ SLASH ∉ last ∧ ¬ [CR, LF] <:+: last) (hquery : ¬ [CR, LF] <:+: query) :
    ToldOf params cs (Env.get environ) := by
  obtain ⟨scriptName, hstring, rfl⟩ := cgiChild_environ hexec
  have hzero : 0 ∉ led SLASH cs ++ SLASH :: last := by
    intro h
    rcases List.mem_append.mp h with h | h
    · exact (led_component hcs).1 h
    · exact (List.mem_cons.mp h).elim (by decide) hlast.1
  have hstart : 1 ≤ (Server.relativePath cs ++ SLASH :: last).length := by
    simp only [List.length_append, List.length_cons]
    omega
  rw [hfilename, cstring_append_nul _ hstart, Server.relativePath, List.cons_append, List.drop_one,
    List.tail_cons, untilNul_eq_self hzero] at hstring
  cases hstring
  rw [get_cgi_environ]
  refine ⟨hcs, ⟨last, ?_, hlast.2⟩, rfl, rfl, ?_⟩
  · show some _ = some _
    rw [List.take_of_length_le (by omega)]
  · intro h
    exact hquery (h.trans ((List.take_prefix _ _).trans (untilNul_initial query)).isInfix)

/-- **What a listing is told.** -/
theorem ListingOf.told (hmax : buffer.length ≤ Server.maxRequestSize)
    (hnul : ∀ s q, Server.decode buffer = some (s, q) → 0 ∉ s)
    (hlisting : ListingOf params buffer path environ) :
    ∃ cs, path = Server.relativePath cs ∧ ToldOf params cs (Env.get environ) := by
  cases hlisting with
  | byDirectory hparse hpath hslash hexec =>
    obtain ⟨cs, hcs, rfl, rfl, hlen, hquery⟩ := components_of_parse hmax hnul hparse
    have hzero := zero_not_mem_relativePath hcs
    rw [cstring_append_nul _ (Nat.zero_le _), List.drop_zero, untilNul_eq_self hzero] at hpath
    rw [stpcpy_end (by simp) (by
      simp only [Server.relativePath, Server.maxFilenameSize, Server.maxRequestSize,
        List.length_cons, List.length_nil]
      omega)] at hslash
    cases hpath
    cases hslash
    have hempty : 0 ∉ ([] : Bytes) ∧ SLASH ∉ ([] : Bytes) ∧ ¬ [CR, LF] <:+: ([] : Bytes) := by
      decide
    refine ⟨cs, rfl, toldOf_cgiChild hexec rfl hcs ?_ hempty hquery⟩
    simp only [List.length_append, List.length_singleton]
    omega
  | byName hparse hexec =>
    obtain ⟨cs, hcs, rfl, rfl, hlen, hquery⟩ := components_of_parse hmax hnul hparse
    have hzero := zero_not_mem_relativePath hcs
    have hroom : (Server.relativePath cs).length < Server.maxFilenameSize := by
      simp only [Server.relativePath, Server.maxFilenameSize, Server.maxRequestSize,
        List.length_cons]
      omega
    obtain ⟨name, hsplit, hname⟩ := cgiChild_path hexec hroom hzero
    rcases List.eq_nil_or_concat cs with rfl | ⟨init, last, rfl⟩
    · have hmem : SLASH ∈ Server.relativePath [] := by simp [hsplit]
      exact absurd hmem (by decide)
    rw [List.concat_eq_append] at *
    have hlast := hcs last (by simp)
    have happend : Server.relativePath (init ++ [last]) =
        Server.relativePath init ++ SLASH :: last := by simp [Server.relativePath]
    have hled : led SLASH (init ++ [last]) = led SLASH init ++ SLASH :: last := by simp
    have hlength : some path.length = some (Server.relativePath init).length := by
      rw [← strrchr_append path hname, ← hsplit, happend, strrchr_append _ hlast.no_slash]
    obtain rfl : path = Server.relativePath init :=
      List.append_inj_left (hsplit.symm.trans happend) (Option.some.inj hlength)
    refine ⟨init, rfl, toldOf_cgiChild hexec (by rw [happend])
      (fun c hc => hcs c (List.mem_append_left _ hc)) ?_
      ⟨hlast.no_nul, hlast.no_slash, hlast.no_crlf⟩ hquery⟩
    rw [← hled]
    omega

/-! ## The selectors of the items -/

theorem ToldOf.directory (h : ToldOf params cs env) : env.directory = led SLASH cs := by
  obtain ⟨last, hselector, hslash, -⟩ := h.selector
  have hlists : Lists cs (led SLASH cs ++ SLASH :: last) :=
    ⟨fun c hc => ⟨(h.components c hc).ne_nil, (h.components c hc).no_slash⟩, last, rfl, hslash⟩
  exact hlists.directory hselector

/-- What `client_socket` reads of a request, as much of it as its buffer
takes, makes it open `path` with an empty query. -/
def Opens (request path : Bytes) : Prop :=
  ∃ filename filenameEnd,
    Server.parse (request.take Server.maxRequestSize) = some (.path filename filenameEnd []) ∧
    cstring filename 0 = some path ∧
    ∀ (w : Server.World) a c ans, w.own.mem.cell a = some c →
      c.buffer = request.take Server.maxRequestSize →
        Server.serveRequest a w ans = Server.openFile a filename filenameEnd [] w ans

/-- The selector of some components leads to their path, if it fits in the
buffer of `client_socket` with its CRLF. -/
theorem opens_iff (hcs : ∀ c ∈ cs, Component c) :
    Opens (led SLASH cs ++ crlf) (Server.relativePath cs) ↔
      (led SLASH cs).length + 2 ≤ Server.maxRequestSize := by
  obtain ⟨-, htab, hcrlf⟩ := led_component hcs
  constructor
  · rintro ⟨filename, filenameEnd, hparse, -, -⟩
    by_contra hlong
    -- the CRLF is not among the bytes that are read
    have hread : (led SLASH cs ++ crlf).take Server.maxRequestSize <+: led SLASH cs ++ [CR] := by
      have hsplit : led SLASH cs ++ crlf = (led SLASH cs ++ [CR]) ++ [LF] := by simp [crlf]
      rw [hsplit, List.take_append_of_le_length (by
        simp only [List.length_append, List.length_singleton]
        omega)]
      exact List.take_prefix _ _
    have hbad : Server.parse ((led SLASH cs ++ crlf).take Server.maxRequestSize) =
        some .badRequest := by
      refine (Server.framing.1 _).mpr fun hin => ?_
      rcases List.infix_concat_iff.mp (hin.trans hread.isInfix) with ⟨a, ha⟩ | hin
      · have hlast := congrArg List.getLast? ha
        simp at hlast
        exact absurd hlast (by decide)
      · exact hcrlf hin
    rw [hbad] at hparse
    cases hparse
  · intro hfit
    have htake : (led SLASH cs ++ crlf).take Server.maxRequestSize = led SLASH cs ++ crlf :=
      List.take_of_length_le (by simpa [crlf] using hfit)
    have hlength : (led SLASH cs ++ crlf).length ≤ Server.maxRequestSize := by
      simpa [crlf] using hfit
    have hzero := zero_not_mem_relativePath hcs
    have hframed : Server.Framed (led SLASH cs ++ crlf) (led SLASH cs) [] :=
      Server.framed_iff.mpr ⟨rfl, hcrlf⟩
    have hparse : Server.parse (led SLASH cs ++ crlf) =
        some (.path (Server.relativePath cs ++ [0]) (Server.relativePath cs).length []) := by
      rcases Server.parse_spec hlength with ⟨-, hnone⟩ | ⟨line, rest, hline, hparse⟩
      · exact absurd ⟨[], by rw [List.drop_left]; rfl⟩ (hnone (led SLASH cs).length)
      · have hcomponents : Server.components (led SLASH cs) = cs :=
          pieces_led fun c hc => ⟨(hcs c hc).ne_nil, (hcs c hc).no_slash⟩
        rw [hparse, hline.line_eq hframed, Server.splitTab_of_not_mem htab, hcomponents, if_neg]
        rintro ⟨c, hc, hhidden⟩
        exact (hcs c hc).visible hhidden
    refine ⟨_, _, htake.symm ▸ hparse, ?_, fun w a c ans hcell hbuffer => ?_⟩
    · rw [cstring_append_nul _ (Nat.zero_le _), List.drop_zero, untilNul_eq_self hzero]
    · rw [Server.serveRequest, Prog.bind_done (Server.getClient_run hcell ans), hbuffer, htake,
        hparse]

/-! ## The files in their order -/

/-- The order of the names, which `qsort` sorts by. -/
abbrev NameOrder (f g : Name) : Prop := compareStrings f g ≤ 0

instance : Std.Total NameOrder where
  total f g := by
    show strcmp _ _ ≤ 0 ∨ strcmp _ _ ≤ 0
    rw [strcmp_swap f.bytes g.bytes]
    omega

instance : IsTrans Name NameOrder where
  trans f g _ := strcmp_trans f.no_nul g.no_nul

instance : Std.Antisymm NameOrder where
  antisymm f g hfg hgf := by
    refine Name.ext' (strcmp_eq_zero f.no_nul g.no_nul ?_)
    have hswap := strcmp_swap f.bytes g.bytes
    simp only [NameOrder, compareStrings] at hfg hgf
    omega

/-- Whatever `qsort` does, this is the list it leaves. -/
theorem sortNames_unique {filenames sorted : List Name} (hperm : sorted.Perm filenames)
    (hsorted : sorted.Pairwise NameOrder) : sorted = sortNames filenames :=
  (hperm.trans (List.perm_insertionSort NameOrder filenames).symm).eq_of_pairwise' hsorted
    (List.pairwise_insertionSort NameOrder filenames)

theorem items_sublist (stat : Name → Option UInt32) : ∀ filenames : List Name,
    ((items stat filenames).map Prod.snd).Sublist filenames
  | [] => List.Sublist.refl _
  | filename :: rest => by
    have ih := items_sublist stat rest
    rw [items]
    split
    · exact List.nil_sublist _
    · split
      · exact ih.cons _
      · exact ih.cons_cons _

/-- A regular file or directory whose name is not filtered out. -/
structure Kept (env : Env) (dir : Directory) (f : Name) : Prop where
  entry : f ∈ dir.entries
  wanted : env.wants f = true
  kind : ∃ mode, dir.stat f = some mode ∧ (isReg mode = true ∨ isDir mode = true)

/-- All files that are kept, each once, in the order of `strcmp`. -/
structure Listed (env : Env) (dir : Directory) (files : List Name) : Prop where
  mem : ∀ f, f ∈ files ↔ Kept env dir f
  sorted : files.Pairwise fun f g => strcmp f.bytes g.bytes < 0

theorem listed_items (hcomplete : complete dir.stat (keptNames env dir) = true) :
    Listed env dir ((items dir.stat (keptNames env dir)).map Prod.snd) := by
  refine ⟨fun f => ?_, List.Pairwise.sublist (items_sublist _ _) ?_⟩
  · rw [mem_listed hcomplete, mem_keptNames]
    exact ⟨fun h => ⟨h.1.1, h.1.2, h.2⟩, fun h => ⟨⟨h.entry, h.wanted⟩, h.kind⟩⟩
  · have hnodup : (keptNames env dir).Nodup :=
      (List.perm_insertionSort NameOrder _).nodup_iff.mpr (dir.nodup.filter _)
    refine ((List.pairwise_insertionSort NameOrder _).and hnodup).imp fun {f g} h => ?_
    have hne : strcmp f.bytes g.bytes ≠ 0 := fun h0 =>
      h.2 (Name.ext' (strcmp_eq_zero f.no_nul g.no_nul h0))
    exact lt_of_le_of_ne h.1 hne

/-! ## The lines -/

/-- Lines without the CRLF they end with. -/
theorem exists_bodies {lines : List Bytes}
    (h : ∀ t ∈ lines, ∃ body, t = body ++ crlf ∧ ¬ [CR, LF] <:+: body) :
    ∃ bodies : List Bytes, bodies.map (· ++ crlf) = lines ∧
      ∀ body ∈ bodies, ¬ [CR, LF] <:+: body := by
  induction lines with
  | nil => exact ⟨[], rfl, by simp⟩
  | cons t lines ih =>
    obtain ⟨body, rfl, hbody⟩ := h t List.mem_cons_self
    obtain ⟨bodies, rfl, hbodies⟩ := ih fun u hu => h u (List.mem_cons_of_mem _ hu)
    exact ⟨body :: bodies, rfl, List.forall_mem_cons.mpr ⟨hbody, hbodies⟩⟩

/-- The hostname can stand in a line. -/
structure Plain (params : Server.Params) : Prop where
  no_tab : TAB ∉ params.hostname
  no_crlf : ¬ [CR, LF] <:+: params.hostname

theorem Plain.serverName (h : Plain params) :
    TAB ∉ serverName params ∧ ¬ [CR, LF] <:+: serverName params :=
  ⟨fun ht => h.no_tab (List.mem_of_mem_take ht),
    fun hin => h.no_crlf (hin.trans (List.take_prefix _ _).isInfix)⟩

theorem serverPort_plain (params : Server.Params) :
    TAB ∉ serverPort params ∧ CR ∉ serverPort params :=
  ⟨fun h => absurd (decimal_digit h).1 (by decide), fun h => absurd (decimal_digit h).1 (by decide)⟩

theorem serverPort_crlf (params : Server.Params) : ¬ [CR, LF] <:+: serverPort params :=
  fun h => (serverPort_plain params).2 (h.subset List.mem_cons_self)

theorem not_infix_nil : ¬ [CR, LF] <:+: [] := by decide

/-- No line of the header has a CRLF in it but at its end. -/
theorem ToldOf.header (h : ToldOf params cs env) (hplain : Plain params) :
    ∀ t ∈ headerLines env, ∃ body, t = body ++ crlf ∧ ¬ [CR, LF] <:+: body := by
  obtain ⟨-, -, hled⟩ := led_component h.components
  have hhost : percentS env.hostname = serverName params := by rw [h.hostname]; rfl
  have hport : percentS env.port = serverPort params := by rw [h.port]; rfl
  intro t ht
  simp only [headerLines, List.mem_append, List.mem_map, List.mem_singleton] at ht
  rcases ht with ((rfl | ht) | rfl) | ⟨slash, hslash, rfl⟩
  · refine ⟨_, rfl, ?_⟩
    rw [hhost, hport, h.directory]
    simp only [List.append_assoc]
    refine not_infix_append_of_not_mem (by decide) ?_
    have hcolon : 58 ∉ [CR, LF] := by decide
    refine not_infix_append_cons (b := serverPort params ++ (led SLASH cs ++ [SLASH])) hcolon
      hplain.serverName.2 ?_
    refine not_infix_append_of_not_mem (serverPort_plain params).2 ?_
    exact not_infix_append_cons (by decide) hled not_infix_nil
  · split at ht
    · rw [List.mem_singleton.mp ht]
      exact ⟨_, rfl, not_infix_append_of_not_mem (by decide) h.query⟩
    · cases ht
  · exact ⟨_, rfl, by decide⟩
  · refine ⟨_, rfl, ?_⟩
    rw [hhost, hport]
    simp only [List.append_assoc]
    refine not_infix_append_of_not_mem (by decide) ?_
    have htab : TAB ∉ [CR, LF] := by decide
    refine not_infix_append_cons (a := []) htab not_infix_nil ?_
    refine not_infix_append_cons (by decide) ?_ ?_
    · obtain ⟨last, hselector, -, hlast⟩ := h.selector
      have hprefix : env.selectorPrefix (slash + 1) <+: led SLASH cs ++ SLASH :: last := by
        rw [Env.selectorPrefix, hselector]
        exact List.take_prefix _ _
      exact fun hin => not_infix_append_cons (by decide) hled hlast (hin.trans hprefix.isInfix)
    · exact not_infix_append_cons (b := serverPort params) (by decide) hplain.serverName.2
        (serverPort_crlf params)

/-- The lines of the footer, without their CRLFs. -/
def footerBodies (env : Env) (filesFound : UInt32) : List Bytes :=
  (if 0 < env.queryBytes.length then
    [ascii "i", ascii "iFound " ++ decimal filesFound.toNat ++ ascii " files"] else []) ++
    [ascii "."]

theorem footerTexts_flatten (env : Env) (n : UInt32) :
    (footerTexts env n).flatten = (footerBodies env n).flatMap (· ++ crlf) := by
  unfold footerTexts footerBodies
  split <;> simp [foundLines, lastLine]

theorem footerBodies_crlf (env : Env) (n : UInt32) :
    ∀ body ∈ footerBodies env n, ¬ [CR, LF] <:+: body := by
  intro body hbody
  simp only [footerBodies, List.mem_append, List.mem_singleton] at hbody
  rcases hbody with hbody | rfl
  · split at hbody
    · simp only [List.mem_cons, List.not_mem_nil, or_false] at hbody
      rcases hbody with rfl | rfl
      · decide
      · refine not_infix_append_of_not_mem (fun h => ?_) (by decide)
        rcases List.mem_append.mp h with h | h
        · exact absurd h (by decide)
        · exact absurd (decimal_digit h).1 (by decide)
    · cases hbody
  · decide

/-- The line of an item, without its CRLF. -/
def itemBody (params : Server.Params) (selector : Bytes) (type : UInt8) (filename : Bytes) :
    Bytes :=
  type :: filename ++ led TAB [selector, serverName params, serverPort params]

theorem ToldOf.line (h : ToldOf params cs env) (item : UInt8 × Name) :
    env.line item =
      itemBody params (led SLASH (cs ++ [item.2.bytes])) item.1 item.2.bytes ++ crlf := by
  have hhost : percentS env.hostname = serverName params := by rw [h.hostname]; rfl
  have hport : percentS env.port = serverPort params := by rw [h.port]; rfl
  rw [Env.line, Env.itemLine, hhost, hport, h.directory]
  simp [itemBody]

/-- The line of an item leads back to its file: its fields are the type and
the name, a selector, the host and the port, and the selector leads to the
file in the directory `path` if it fits in the buffer of `client_socket`. -/
def LeadsBack (params : Server.Params) (path : Bytes) (f : Name) (line : Bytes) : Prop :=
  ∃ type selector, type ∈ itemTypes ∧
    line.splitOn TAB = [type :: f.bytes, selector, serverName params, serverPort params] ∧
    (Opens (selector ++ crlf) (path ++ SLASH :: f.bytes) ↔
      selector.length + 2 ≤ Server.maxRequestSize)

theorem itemBody_leadsBack (hplain : Plain params) (hcs : ∀ c ∈ cs, Component c) {f : Name}
    (hf : Component f.bytes) {type : UInt8} (htype : type ∈ itemTypes) :
    LeadsBack params (Server.relativePath cs) f
      (itemBody params (led SLASH (cs ++ [f.bytes])) type f.bytes) := by
  have hall : ∀ c ∈ cs ++ [f.bytes], Component c := by
    intro c hc
    rcases List.mem_append.mp hc with hc | hc
    · exact hcs c hc
    · exact List.mem_singleton.mp hc ▸ hf
  have hpath :
      Server.relativePath (cs ++ [f.bytes]) = Server.relativePath cs ++ SLASH :: f.bytes := by
    simp [Server.relativePath]
  have htypes : TAB ∉ itemTypes := by decide
  refine ⟨type, led SLASH (cs ++ [f.bytes]), htype, splitOn_led ?_ ?_, ?_⟩
  · exact fun h => (List.mem_cons.mp h).elim (fun h => htypes (h ▸ htype)) hf.no_tab
  · simp only [List.mem_cons, List.not_mem_nil, or_false]
    rintro c (rfl | rfl | rfl)
    · exact (led_component hall).2.1
    · exact hplain.serverName.1
    · exact (serverPort_plain params).1
  · rw [← hpath]
    exact opens_iff hall

theorem itemBody_crlf (hplain : Plain params) (hcs : ∀ c ∈ cs, Component c) {f : Name}
    (hf : ¬ [CR, LF] <:+: f.bytes) {type : UInt8} (htype : type ∈ itemTypes) :
    ¬ [CR, LF] <:+: itemBody params (led SLASH (cs ++ [f.bytes])) type f.bytes := by
  have htypes : CR ∉ itemTypes := by decide
  have hname : ¬ [CR, LF] <:+: type :: f.bytes :=
    not_infix_append_of_not_mem (a := [type])
      (fun h => htypes (List.mem_singleton.mp h ▸ htype)) hf
  refine not_infix_append_led (by decide) hname ?_
  simp only [List.mem_cons, List.not_mem_nil, or_false]
  rintro c (rfl | rfl | rfl)
  · rw [led_append, led_cons, led_nil, List.append_nil]
    exact not_infix_append_cons (by decide) (led_component hcs).2.2 hf
  · exact hplain.serverName.2
  · exact serverPort_crlf params

/-! ## The menu -/

theorem ListingOf.short (h : ListingOf params buffer path environ) : ShortEnviron environ := by
  cases h with
  | byDirectory hparse hpath hslash hexec => exact cgiChild_short hexec
  | byName hparse hexec => exact cgiChild_short hexec

/-- A file that is kept, with a name that can stand in the line of an item,
can stand in a path. -/
theorem Kept.component {f : Name} (h : Kept env dir f) (htab : TAB ∉ f.bytes)
    (hcrlf : ¬ [CR, LF] <:+: f.bytes) : Component f.bytes :=
  ⟨f.ne_nil, f.no_slash, f.no_nul, htab, hcrlf, (wants_iff.mp h.wanted).1⟩

/-- **A menu leads back to the files.** Of a run that neither lacked memory
nor failed to write, in an environment that `client_socket` builds for a
listing of `path`: the output is the header, one line for each regular file
and directory, in the order of their names, and the footer; and the line of
a name without a TAB leads back to its file. -/
theorem menu_leads_back {stack : Stack} {ans rest : List Answer} {code : ExitStatus} {w : World}
    (hmax : buffer.length ≤ Server.maxRequestSize)
    (hnul : ∀ s q, Server.decode buffer = some (s, q) → 0 ∉ s)
    (hlisting : ListingOf params buffer path environ) (hplain : Plain params)
    (hstat : ∀ f ∈ dir.entries, (dir.stat f).isSome = true)
    (hcrlf : ∀ f, Kept (Env.get environ) dir f → ¬ [CR, LF] <:+: f.bytes)
    (hshort : ∀ f, Kept (Env.get environ) dir f → ∀ type,
      ((Env.get environ).line (type, f)).length < bufferLeftover)
    (hstack : stack.Fits (dir.entries.filter (Env.get environ).wants))
    (hans : ∀ x ∈ ans, x.memory = true ∧ x.opendir = none)
    (hrun : main stack environ dir started ans = .done code w rest) (hunbroken : Unbroken w) :
    ∃ (files : List Name) (header lines : List Bytes),
      Listed (Env.get environ) dir files ∧
      header.map (· ++ crlf) = headerLines (Env.get environ) ∧
      splitPair CR LF w.out = header ++ lines ++
        footerBodies (Env.get environ) (UInt32.ofNat files.length) ++ [[]] ∧
      List.Forall₂ (fun f line => TAB ∉ f.bytes → LeadsBack params path f line) files lines := by
  obtain ⟨cs, rfl, htold⟩ := hlisting.told hmax hnul
  have hcomplete : complete dir.stat (keptNames (Env.get environ) dir) = true :=
    List.all_eq_true.mpr fun f hf => hstat f (mem_keptNames.mp hf).1
  have hlisted := listed_items hcomplete
  have hkept : ∀ item ∈ items dir.stat (keptNames (Env.get environ) dir),
      Kept (Env.get environ) dir item.2 := fun item hitem =>
    (hlisted.mem _).mp (List.mem_map_of_mem hitem)
  have htypes : ∀ item ∈ items dir.stat (keptNames (Env.get environ) dir), item.1 ∈ itemTypes := by
    intro item hitem
    obtain ⟨mode, -, htype⟩ := itemType_of_mem_items hitem
    exact itemType_mem htype
  have hfits : Fits (Env.get environ) dir := by
    refine ⟨hlisting.short.short.header, fun line hline => ?_⟩
    obtain ⟨item, hitem, rfl⟩ := List.mem_map.mp hline
    exact hshort _ (hkept item hitem) item.1
  have hend := ((main_triple True hfits).done rfl (fun x hx _ => hans x hx) hrun).1
  obtain ⟨header, hheader, hheaderCrlf⟩ := exists_bodies (htold.header hplain)
  cases hend with
  | silent _ hhealthy => exact absurd trivial hhealthy
  | killed _ hkilled => exact absurd hstack hkilled
  | failed _ hfailed => rw [hcomplete] at hfailed; cases hfailed
  | finished _ _ h =>
    refine ⟨_, header, (items dir.stat (keptNames (Env.get environ) dir)).map fun item =>
      itemBody params (led SLASH (cs ++ [item.2.bytes])) item.1 item.2.bytes,
      hlisted, hheader, ?_, ?_⟩
    · rw [List.length_map, ← splitPair_lines (x := CR) (y := LF) (by decide)]
      · have hlines := List.map_congr_left (l := items dir.stat (keptNames (Env.get environ) dir))
          fun item _ => htold.line item
        rw [(h.filled hunbroken).out, List.flatten_append, List.flatten_append, footerTexts_flatten,
          ← hheader, itemLines, hlines, List.length_map]
        simp [crlf, List.flatMap, Function.comp_def]
      · simp only [List.mem_append, List.mem_map]
        rintro line ((hline | ⟨item, hitem, rfl⟩) | hline)
        · exact hheaderCrlf line hline
        · exact itemBody_crlf hplain htold.components (hcrlf _ (hkept item hitem))
            (htypes item hitem)
        · exact footerBodies_crlf _ _ line hline
    · rw [List.forall₂_map_left_iff, List.forall₂_map_right_iff, List.forall₂_same]
      intro item hitem htab
      have hf := hkept item hitem
      exact itemBody_leadsBack hplain htold.components (hf.component htab (hcrlf _ hf))
        (htypes item hitem)

/-- A request for the content directory runs its index there. -/
theorem listingOf_small {environ : List Bytes}
    (hexec : Server.cgiChild params 5 [] (ascii "./" ++ [0]) [] {} =
      .execve .opened (ascii "index") [ascii "index"] environ) :
    ListingOf params [CR, LF] [DOT] environ :=
  have hparse : Server.parse [CR, LF] = some (.path [DOT, 0] 1 []) := by decide
  have hslash : stpcpy Server.maxFilenameSize [DOT, 0] 1 [SLASH] = some ([DOT, SLASH, 0], 2) := by
    decide
  .byDirectory hparse (by decide) hslash hexec

/-- The menu of a directory with one file. -/
theorem menu_leads_back_small :
    ∃ w rest, main usualStack smallEnviron (smallDirectory S_IFREG) started smallAnswers =
      .done .success w rest ∧
      ∃ (files : List Name) (header lines : List Bytes),
        Listed (Env.get smallEnviron) (smallDirectory S_IFREG) files ∧
        header.map (· ++ crlf) = headerLines (Env.get smallEnviron) ∧
        splitPair CR LF w.out = header ++ lines ++
          footerBodies (Env.get smallEnviron) (UInt32.ofNat files.length) ++ [[]] ∧
        List.Forall₂ (fun f line => TAB ∉ f.bytes → LeadsBack smallParams [DOT] f line)
          files lines := by
  have h : (main usualStack smallEnviron (smallDirectory S_IFREG) started smallAnswers).Returns
      fun code w => code = .success ∧ Unbroken w := by decide +kernel
  obtain ⟨code, w, rest, hrun, rfl, hunbroken⟩ := h.state
  have hname : ∀ f, Kept (Env.get smallEnviron) (smallDirectory S_IFREG) f → f = smallName :=
    fun f hf => List.mem_singleton.mp hf.entry
  refine ⟨w, rest, hrun, menu_leads_back (by decide) ?_ (listingOf_small smallEnviron_execve)
    ⟨by decide, by decide⟩ (by decide) (fun f hf => ?_) (fun f hf type => ?_)
    (by decide +kernel) (by decide) hrun hunbroken⟩
  · intro s q hdecode
    have hempty : Server.decode [CR, LF] = some ([], []) := by decide
    rw [hempty] at hdecode
    cases hdecode
    decide
  · rw [hname f hf]
    decide
  · have hlength : smallName.bytes.length ≤ 255 := by decide
    rw [hname f hf]
    exact (cgiChild_short smallEnviron_execve).short.line hlength

/-- A line of more or fewer than four fields leads nowhere. -/
theorem not_leadsBack {f : Name} {line : Bytes} (h : (line.splitOn TAB).length ≠ 4) :
    ¬ LeadsBack params path f line := by
  rintro ⟨type, selector, -, hfields, -⟩
  rw [hfields] at h
  exact h rfl

/-- A run none of whose lines has four fields. -/
theorem no_line_leadsBack {f : Name}
    (h : (main usualStack environ dir started smallAnswers).Returns fun code w => code = .success ∧
      Unbroken w ∧
        ((splitPair CR LF w.out).all fun line => (line.splitOn TAB).length != 4) = true) :
    ∃ w rest, main usualStack environ dir started smallAnswers = .done .success w rest ∧
      Unbroken w ∧ ∀ line ∈ splitPair CR LF w.out, ¬ LeadsBack params [DOT] f line := by
  obtain ⟨code, w, rest, hrun, rfl, hunbroken, hfields⟩ := h.state
  refine ⟨w, rest, hrun, hunbroken, fun line hline => not_leadsBack ?_⟩
  simpa using List.all_eq_true.mp hfields line hline

/-- A name with a TAB in it. -/
def tabName : Name := ⟨[97, TAB, 98], by decide, by decide, by decide⟩

def tabDirectory : Directory := ⟨[tabName], by decide, fun _ => some S_IFREG⟩

def tabParams : Server.Params := ⟨[104, TAB], 70, 1, 1, ascii ".", ascii "index"⟩

def tabEnviron : List Bytes :=
  [ascii "SCRIPT_NAME=/", ascii "QUERY_STRING=", ascii "SERVER_NAME=h" ++ [TAB],
    ascii "SERVER_PORT=70", ascii "REMOTE_ADDR="]

/-- A TAB in a name, or in the hostname, makes another field of what stands
behind it. -/
theorem menu_broken_line :
    (ListingOf smallParams [CR, LF] [DOT] smallEnviron ∧
      Kept (Env.get smallEnviron) tabDirectory tabName ∧
      ∃ w rest, main usualStack smallEnviron tabDirectory started smallAnswers =
        .done .success w rest ∧ Unbroken w ∧
          ∀ line ∈ splitPair CR LF w.out, ¬ LeadsBack smallParams [DOT] tabName line) ∧
    (ListingOf tabParams [CR, LF] [DOT] tabEnviron ∧
      Kept (Env.get tabEnviron) (smallDirectory S_IFREG) smallName ∧
      ∃ w rest,
        main usualStack tabEnviron (smallDirectory S_IFREG) started smallAnswers =
          .done .success w rest ∧ Unbroken w ∧
          ∀ line ∈ splitPair CR LF w.out, ¬ LeadsBack tabParams [DOT] smallName line) := by
  refine ⟨⟨listingOf_small smallEnviron_execve,
      ⟨by decide, by decide, S_IFREG, rfl, by decide⟩, no_line_leadsBack ?_⟩,
    listingOf_small (by decide +kernel),
    ⟨by decide, by decide, S_IFREG, rfl, by decide⟩, no_line_leadsBack ?_⟩
  · decide +kernel
  · decide +kernel

end Sgopher.Gopherlist
