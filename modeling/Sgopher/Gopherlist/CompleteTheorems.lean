/-
Sgopher.Gopherlist.CompleteTheorems — which directories get a complete
menu.

A file of another kind is skipped with its line. A name `stat` fails for
is not: `main` exits, and what is in the write buffer is lost with it. And
names that do not fit on the stack are the end of the program.
`menu_complete_iff` says that these are the only ways to lose anything, at
any place among the names and however the lines before it fall into
flushes: a menu is complete if and only if the names that passed the filter
fit on the stack and `stat` fails for none of them.

No `sorry`, no `axiom`, no `native_decide`.
-/
import Sgopher.Gopherlist.FitTheorems

namespace Sgopher.Gopherlist

open Sgopher.Lib

variable {env : Env} {dir : Directory} {w : World} {sent pending : List Bytes}

/-! ## The menu there should be -/

/-- The item of a name, if it is that of a regular file or a directory. -/
def itemOf (stat : Name → Option UInt32) (filename : Name) : Option (UInt8 × Name) :=
  (stat filename).bind fun mode =>
    (itemType mode filename.bytes).map fun type => (type, filename)

/-- The items of all regular files and directories among the names that
passed the filter, those behind a name `stat` fails for included. -/
def listable (env : Env) (dir : Directory) : List (UInt8 × Name) :=
  (keptNames env dir).filterMap (itemOf dir.stat)

/-- The whole menu: the header, a line for each item, and the footer. -/
def wholeMenu (env : Env) (dir : Directory) : List Bytes :=
  headerLines env ++ (listable env dir).map env.line ++
    footerTexts env (UInt32.ofNat (listable env dir).length)

/-- The whole menu was written, and nothing that was pushed is missing. -/
structure Complete (env : Env) (dir : Directory) (w : World) : Prop where
  menu : w.out = (wholeMenu env dir).flatten
  written : w.out = accepted w.pushes

/-! ## The items that are reached -/

/-- The names that passed the filter, in either order. -/
theorem complete_iff : complete dir.stat (keptNames env dir) = true ↔
    ∀ f ∈ dir.entries, env.wants f = true → (dir.stat f).isSome = true := by
  rw [complete, List.all_eq_true]
  exact ⟨fun h f hf hw => h f (mem_keptNames.mpr ⟨hf, hw⟩),
    fun h f hf => h f (mem_keptNames.mp hf).1 (mem_keptNames.mp hf).2⟩

/-- The items up to the first name `stat` fails for are the first ones of
all. -/
theorem items_prefix (stat : Name → Option UInt32) : ∀ filenames : List Name,
    items stat filenames <+: filenames.filterMap (itemOf stat)
  | [] => List.prefix_refl _
  | filename :: rest => by
    have ih := items_prefix stat rest
    rw [items, List.filterMap_cons, itemOf]
    cases hstat : stat filename with
    | none => exact List.nil_prefix
    | some mode =>
      cases htype : itemType mode filename.bytes with
      | none => simpa [htype] using ih
      | some type => simpa [htype] using ih

/-- Where it fails for none, they are all. -/
theorem items_complete {stat : Name → Option UInt32} : ∀ {filenames : List Name},
    complete stat filenames = true → items stat filenames = filenames.filterMap (itemOf stat)
  | [], _ => rfl
  | filename :: rest, h => by
    rw [complete, List.all_cons, Bool.and_eq_true] at h
    have ih := items_complete h.2
    obtain ⟨mode, hstat⟩ := Option.isSome_iff_exists.mp h.1
    rw [items, List.filterMap_cons, itemOf]
    cases htype : itemType mode filename.bytes with
    | none => simp [hstat, htype, ih]
    | some type => simp [hstat, htype, ih]

/-- The lines that were reached, without a footer, are fewer bytes than
the whole menu. -/
theorem reached_lt (env : Env) (dir : Directory) :
    (headerLines env ++ itemLines env dir).flatten.length
      < (wholeMenu env dir).flatten.length := by
  obtain ⟨others, hothers⟩ := items_prefix dir.stat (keptNames env dir)
  have hlast : 0 < (footerTexts env (UInt32.ofNat (listable env dir).length)).flatten.length := by
    simp [footerTexts, lastLine, crlf, ascii]
  rw [← listable] at hothers
  simp only [wholeMenu, itemLines, ← hothers, List.map_append, List.flatten_append,
    List.length_append] at hlast ⊢
  omega

/-! ## The run -/

/-- What has left the buffer when `main` gives up is a part of the lines
it had reached. -/
theorem Filled.lost (h : Filled (afterLines ([], headerLines env) (itemLines env dir)).1
    (afterLines ([], headerLines env) (itemLines env dir)).2 w) :
    w.out.length < (wholeMenu env dir).flatten.length := by
  have happend := afterLines_append (itemLines env dir) ([], headerLines env)
  rw [List.nil_append] at happend
  have hreached := congrArg (fun ts : List Bytes => ts.flatten.length) happend
  simp only [List.flatten_append, List.length_append] at hreached
  have hlt := reached_lt env dir
  rw [List.flatten_append, List.length_append] at hlt
  rw [h.out]
  omega

/-- **When a menu is complete.** Of a run that was given the memory it
asked for and did not fail to write: the whole menu was written, and
nothing that was pushed is lost, if and only if the names that passed the
filter fit on the stack and `stat` fails for none of them. -/
theorem menu_complete_iff {stack : Stack} {environ : List Bytes} {dir : Directory}
    {ans rest : List Answer} {code : ExitStatus} {w : World} (henviron : ShortEnviron environ)
    (hnames : ∀ f ∈ dir.entries, f.bytes.length ≤ 255)
    (hans : ∀ x ∈ ans, x.memory = true ∧ x.opendir = none)
    (hrun : main stack environ dir started ans = .done code w rest) (hunbroken : Unbroken w) :
    Complete (Env.get environ) dir w ↔
      stack.Fits (dir.entries.filter (Env.get environ).wants) ∧
        ∀ f ∈ dir.entries, (Env.get environ).wants f = true → (dir.stat f).isSome = true := by
  rw [← complete_iff]
  have hend := ((main_triple True (henviron.short.fits hnames)).done rfl
    (fun x hx _ => hans x hx) hrun).1
  cases hend with
  | silent hw hhealthy => exact absurd trivial hhealthy
  | killed hw hstack =>
    refine ⟨fun hcomplete => ?_, fun h => absurd h.1 hstack⟩
    have hlt := reached_lt (Env.get environ) dir
    rw [← hcomplete.menu, hw] at hlt
    exact absurd hlt (Nat.not_lt_zero _)
  | failed hstack hstat h =>
    refine ⟨fun hcomplete => ?_, fun hcomplete => ?_⟩
    · have hlt := (h.filled hunbroken).lost
      rw [hcomplete.menu] at hlt
      exact absurd hlt (Nat.lt_irrefl _)
    · rw [hstat] at hcomplete
      cases hcomplete.2
  | finished hstack hstat h =>
    have hfilled := h.filled hunbroken
    refine ⟨fun _ => ⟨hstack, hstat⟩, fun _ => ⟨?_, ?_⟩⟩
    · rw [hfilled.out, wholeMenu, listable, ← items_complete hstat, itemLines, List.length_map]
    · rw [hfilled.out, hfilled.pushes, accepted_fitted hfilled.texts, List.append_nil]

/-! ## Small runs -/

theorem menu_complete_small :
    ∃ w rest, main usualStack smallEnviron (smallDirectory (S_IFREG ||| S_IROTH)) started
      smallAnswers = .done .success w rest ∧
      Complete (Env.get smallEnviron) (smallDirectory (S_IFREG ||| S_IROTH)) w := by
  have h : (main usualStack smallEnviron (smallDirectory (S_IFREG ||| S_IROTH)) started
      smallAnswers).Returns fun code w => code = .success ∧ Unbroken w := by decide +kernel
  obtain ⟨code, w, rest, hrun, rfl, hunbroken⟩ := h.state
  exact ⟨w, rest, hrun, (menu_complete_iff (cgiChild_short smallEnviron_execve) (by decide)
    (by decide) hrun hunbroken).mpr ⟨by decide +kernel, fun _ _ _ => rfl⟩⟩

def danglingName : Name := ⟨ascii "b", by decide, by decide, by decide⟩

/-- A file, and a symbolic link to nothing behind it. -/
def danglingDirectory : Directory where
  entries := [danglingName, smallName]
  nodup := by decide
  stat f := if f = smallName then some (S_IFREG ||| S_IROTH) else none

/-- The menu of the one file is lost because of the link. -/
theorem menu_incomplete :
    ∃ w rest, main usualStack smallEnviron danglingDirectory started [{}, {}] =
      .done .failure w rest ∧ Unbroken w ∧
        ¬ Complete (Env.get smallEnviron) danglingDirectory w := by
  have h : (main usualStack smallEnviron danglingDirectory started [{}, {}]).Returns
      fun code w => code = .failure ∧ Unbroken w ∧ w.out = [] := by decide +kernel
  obtain ⟨code, w, rest, hrun, rfl, hunbroken, hout⟩ := h.state
  refine ⟨w, rest, hrun, hunbroken, fun hcomplete => ?_⟩
  have hlt := reached_lt (Env.get smallEnviron) danglingDirectory
  rw [← hcomplete.menu, hout] at hlt
  exact absurd hlt (Nat.not_lt_zero _)

end Sgopher.Gopherlist
