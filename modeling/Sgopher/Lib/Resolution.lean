/-
Sgopher.Lib.Resolution — paths that are resolved component by component.

A file system says what a directory has under a name. A path is walked
from one directory to the next, so what a longer path leads to depends on
the shorter one only through the directory that leads to
(`resolve_append`): whoever opens the path at once and whoever changes
into the directory first get the same file.

No `sorry`, no `axiom`, no `native_decide`.
-/
import Sgopher.Lib.Pieces

namespace Sgopher.Lib

variable {α D F : Type}

/-- What a name stands for. Links are followed. -/
inductive Node (D F : Type) where
  | directory (d : D)
  | file (f : F)
  deriving DecidableEq

/-- What directories have under names, and the directory that paths with a
separator in front start from. -/
structure FileSystem (α D F : Type) where
  root : D
  lookup : D → List α → Option (Node D F)

namespace FileSystem

variable (fs : FileSystem α D F)

/-- From one node on, name by name. -/
def walk : Node D F → List (List α) → Option (Node D F)
  | n, [] => some n
  | .directory d, c :: cs => (fs.lookup d c).bind fun n => walk n cs
  | .file _, _ :: _ => none

variable {fs} in
/-- A file that is walked to is in some directory. -/
theorem lookup_of_walk {d : D} {f : F} {cs : List (List α)}
    (h : fs.walk (.directory d) cs = some (.file f)) :
    ∃ e name, fs.lookup e name = some (.file f) := by
  induction cs generalizing d with
  | nil => cases h
  | cons c cs ih =>
    obtain ⟨n, hn, hw⟩ := Option.bind_eq_some_iff.mp h
    cases n with
    | directory e => exact ih hw
    | file g =>
      cases cs with
      | nil => exact ⟨d, c, hn.trans hw⟩
      | cons c cs => cases hw

variable [DecidableEq α]

/-- The directory a path starts from. -/
def start (sep : α) (d : D) (path : List α) : D := if path.head? = some sep then fs.root else d

/-- What a path leads to from a directory. The empty path leads nowhere,
and one that ends in a separator only to a directory. -/
def resolve (sep : α) (d : D) (path : List α) : Option (Node D F) :=
  if path = [] then none
  else
    match fs.walk (.directory (fs.start sep d path)) (pieces sep path) with
    | some (.file f) => if path.getLast? = some sep then none else some (.file f)
    | n => n

variable {fs} {sep : α} {d e : D} {f : F} {path name : List α}

omit [DecidableEq α] in
theorem walk_append (n : Node D F) (cs ds : List (List α)) :
    fs.walk n (cs ++ ds) = (fs.walk n cs).bind fun n => fs.walk n ds := by
  induction cs generalizing n with
  | nil => rfl
  | cons c cs ih =>
    cases n with
    | file f => rfl
    | directory d =>
      rw [List.cons_append, walk, walk, Option.bind_assoc]
      exact congrArg _ (funext ih)

/-- A path to a directory. -/
theorem resolve_directory (h : path ≠ []) : fs.resolve sep d path = some (.directory e) ↔
    fs.walk (.directory (fs.start sep d path)) (pieces sep path) = some (.directory e) := by
  rw [resolve, if_neg h]
  split
  · rename_i f hw
    rw [hw]
    split <;> simp
  · rfl

/-- A path to a file does not end in a separator. -/
theorem resolve_file : fs.resolve sep d path = some (.file f) ↔
    path ≠ [] ∧ path.getLast? ≠ some sep ∧
      fs.walk (.directory (fs.start sep d path)) (pieces sep path) = some (.file f) := by
  rw [resolve]
  by_cases h : path = []
  · simp [h]
  rw [if_neg h]
  split
  · rename_i f hw
    by_cases hl : path.getLast? = some sep
    · simp [hl]
    · simp [h, hl, hw]
  · rename_i n hn
    refine ⟨fun hf => absurd hf (hn f), fun hf => absurd hf.2.2 (hn f)⟩

/-- One name. -/
theorem resolve_name (h : name ≠ []) (hs : sep ∉ name) :
    fs.resolve sep d name = fs.lookup d name := by
  have hlast : name.getLast? ≠ some sep := fun he => hs (List.mem_of_getLast? he)
  have hstart : fs.start sep d name = d := if_neg fun he => hs (List.mem_of_head? he)
  have hwalk : fs.walk (.directory d) (pieces sep name) = fs.lookup d name := by
    rw [pieces_last hs, if_neg h, walk]
    cases fs.lookup d name <;> rfl
  rw [resolve, if_neg h, hstart, hwalk]
  split
  · rename_i f hf
    rw [if_neg hlast, hf]
  · rfl

/-- **A file is found along its path**: in the directory that the path
before the last separator leads to, under the name behind it. -/
theorem resolve_append (hp : path ≠ []) (h : name ≠ []) (hs : sep ∉ name) :
    fs.resolve sep d (path ++ sep :: name) = some (.file f) ↔
      ∃ e, fs.resolve sep d path = some (.directory e) ∧
        fs.resolve sep e name = some (.file f) := by
  have hstart : fs.start sep d (path ++ sep :: name) = fs.start sep d path := by
    rw [start, start, List.head?_append_of_ne_nil _ hp]
  have hlast : (path ++ sep :: name).getLast? ≠ some sep := by
    rw [List.getLast?_append_of_ne_nil _ (List.cons_ne_nil _ _), List.getLast?_cons_of_ne_nil h]
    exact fun he => hs (List.mem_of_getLast? he)
  have hpieces : pieces sep (path ++ sep :: name) = pieces sep path ++ [name] := by
    rw [pieces_append_cons, pieces_last hs, if_neg h]
  rw [resolve_file, hstart, hpieces, walk_append]
  constructor
  · rintro ⟨-, -, hw⟩
    obtain ⟨n, hn, hname⟩ := Option.bind_eq_some_iff.mp hw
    cases n with
    | file f => cases hname
    | directory e =>
      refine ⟨e, (resolve_directory hp).mpr hn, ?_⟩
      rw [resolve_name h hs]
      obtain ⟨n, hn, hf⟩ := Option.bind_eq_some_iff.mp hname
      exact hn.trans hf
  · rintro ⟨e, he, hname⟩
    rw [resolve_name h hs] at hname
    refine ⟨by simp, hlast, ?_⟩
    rw [(resolve_directory hp).mp he, Option.bind_some, walk, hname]
    rfl

end FileSystem

end Sgopher.Lib
