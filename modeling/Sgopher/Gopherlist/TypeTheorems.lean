/-
Sgopher.Gopherlist.TypeTheorems — the type of an item, and what the server
makes of the file.

`gopherlist` and `client_socket` look at the same bits of a mode, in
programs of their own: a menu says "1" of what the server takes for a
directory, and "7" of what it executes. Any other type comes from the table
of extensions. The binary search of it rests on the order of the table,
where "h" is before "htm", and that before "html"; it finds what a search
from the first entry on would find (`extTable_bsearch`), for every string.

No `sorry`, no `axiom`, no `native_decide`.
-/
import Sgopher.Gopherlist.Listing
import Sgopher.Server.KindTheorems

namespace Sgopher.Gopherlist

open Sgopher.Lib

variable {mode : UInt32} {filename stem ext : Bytes} {type : UInt8}

/-! ## The table of extensions -/

/-- The type that a linear search finds for an extension. -/
def linearType (ext : Bytes) : UInt8 :=
  ((extTable.find? fun e => e.1 == ext).map Prod.snd).getD 57

/-- **The two searches agree.** -/
theorem extTable_bsearch (hext : 0 ∉ ext) :
    bsearch (compareExtEntry (ext, 0)) extTable = extTable.find? fun e => e.1 == ext :=
  bsearch_strings (by decide) (by decide) hext

/-- What is only the beginning of an entry is not found. -/
example : bsearch (compareExtEntry (ascii "ht", 0)) extTable = none ∧
    bsearch (compareExtEntry ([], 0)) extTable = none := by decide

theorem extensionType_none (h : DOT ∉ filename) : extensionType filename = 57 := by
  rcases strrchr_cases filename DOT with ⟨hnone, -⟩ | ⟨a, b, rfl, -⟩
  · rw [extensionType, hnone]
  · simp at h

/-- The extension is what stands behind the last period. -/
theorem extensionType_append (hstring : 0 ∉ stem ++ DOT :: ext) (hext : DOT ∉ ext) :
    extensionType (stem ++ DOT :: ext) = linearType ext := by
  have hdrop : (stem ++ DOT :: ext).drop (stem.length + 1) = ext := by
    rw [List.append_cons]
    exact List.drop_left' (by simp)
  rw [extensionType, strrchr_append stem hext]
  dsimp only
  rw [hdrop, extTable_bsearch (by simp_all), linearType]
  cases extTable.find? fun e => e.1 == ext <;> rfl

/-- No extension makes a directory or a program of a file. -/
theorem extensionType_ne (filename : Bytes) :
    extensionType filename ≠ 49 ∧ extensionType filename ≠ 55 := by
  have htable : ∀ e ∈ extTable, e.2 ≠ 49 ∧ e.2 ≠ 55 := by decide
  unfold extensionType
  split
  · decide
  · split
    · decide
    · rename_i found hfound
      exact htable _ (bsearch_some hfound).1

/-! ## The mode -/

/-- The three kinds of items. -/
inductive ItemKind (mode : UInt32) (filename : Bytes) : UInt8 → Prop
  | program (hreg : isReg mode = true) (hexec : mode &&& S_IXOTH ≠ 0) : ItemKind mode filename 55
  | file (hreg : isReg mode = true) (hexec : ¬ mode &&& S_IXOTH ≠ 0) :
      ItemKind mode filename (extensionType filename)
  | directory (hreg : ¬ isReg mode = true) (hdir : isDir mode = true) : ItemKind mode filename 49

theorem itemType_kind (h : itemType mode filename = some type) : ItemKind mode filename type := by
  unfold itemType at h
  split at h
  · rename_i hreg
    split at h
    · rename_i hexec
      cases h
      exact .program hreg hexec
    · rename_i hexec
      cases h
      exact .file hreg hexec
  · rename_i hreg
    split at h
    · rename_i hdir
      cases h
      exact .directory hreg hdir
    · cases h

theorem isDir_of_isReg (h : isReg mode = true) : isDir mode = false :=
  Server.not_isDir (f := ⟨mode, 0, []⟩) h

theorem ItemKind.directory_iff (h : ItemKind mode filename type) :
    type = 49 ↔ isDir mode = true := by
  cases h with
  | program hreg _ => simp [isDir_of_isReg hreg]
  | file hreg _ => simp [isDir_of_isReg hreg, (extensionType_ne filename).1]
  | directory _ hdir => simp [hdir]

theorem ItemKind.program_iff (h : ItemKind mode filename type) :
    type = 55 ↔ isReg mode = true ∧ mode &&& S_IXOTH ≠ 0 := by
  cases h with
  | program hreg hexec => exact iff_of_true rfl ⟨hreg, hexec⟩
  | file _ hexec => exact iff_of_false (extensionType_ne filename).2 fun h => hexec h.2
  | directory hreg _ => exact iff_of_false (by decide) fun h => hreg h.1

theorem ItemKind.file_eq (h : ItemKind mode filename type) (hdir : type ≠ 49)
    (hprogram : type ≠ 55) : type = extensionType filename := by
  cases h with
  | program => exact absurd rfl hprogram
  | file => rfl
  | directory => exact absurd rfl hdir

/-! ## The server -/

/-- The type says what the server takes a file of that mode for: a client
asks for its path, the kernel opens it and tells its attributes, and forks
if it is asked to. -/
structure ServedAs (mode : UInt32) (type : UInt8) : Prop where
  directory : ∀ w a c path x y want file, Server.Asks w a c → Server.Names c.buffer path →
    x.openat = .ok (want, file) → file.mode = mode → y.fstat = none →
    (type = 49 ↔ Server.AsDirectory w a [x, y] file)
  program : ∀ w a c path x y z want file k, Server.Asks w a c → Server.Names c.buffer path →
    x.openat = .ok (want, file) → file.mode = mode → y.fstat = none → z.fork = some k →
    (type = 55 ↔ Server.Executes w a [x, y] z file)

/-- The type of any other file is what a linear search finds for its
extension, which is what stands behind its last period. -/
structure TypedBy (filename : Bytes) (type : UInt8) : Prop where
  extension : ∀ stem ext, filename = stem ++ DOT :: ext → DOT ∉ ext → type = linearType ext
  plain : DOT ∉ filename → type = 57

theorem ItemKind.servedAs (h : ItemKind mode filename type) : ServedAs mode type := by
  constructor
  · rintro w a c path x y want file hasks hname hx rfl hy
    rw [Server.asDirectory_iff hasks.serving hname hx hy]
    exact h.directory_iff
  · rintro w a c path x y z want file k hasks hname hx rfl hy hz
    rw [Server.executes_iff hasks hname hx hy hz]
    exact h.program_iff

/-- **The type of an item agrees with the server.** It is "1" for what
`client_socket` takes for a directory, "7" for what it executes, and
otherwise the type in the table, where `bsearch` finds for every string what
a linear search does. -/
theorem type_agrees (f : Name) (mode : UInt32) (type : UInt8)
    (htype : itemType mode f.bytes = some type) :
    ServedAs mode type ∧ (type ≠ 49 → type ≠ 55 → TypedBy f.bytes type) ∧
      ∀ ext, 0 ∉ ext →
        bsearch (compareExtEntry (ext, 0)) extTable = extTable.find? fun e => e.1 == ext := by
  have hkind := itemType_kind htype
  refine ⟨hkind.servedAs, fun hdir hprogram => ?_, fun ext => extTable_bsearch⟩
  rw [hkind.file_eq hdir hprogram]
  refine ⟨fun stem ext hbytes hext => ?_, extensionType_none⟩
  have hstring := f.no_nul
  rw [hbytes] at hstring ⊢
  exact extensionType_append hstring hext

/-- A program in a directory, by its mode. -/
theorem type_agrees_program : ∃ w c, Server.Asks w 1 c ∧ Server.Executes w 1
    [{ openat := .ok (9, Server.smallProgram) }, Server.again] { fork := some ⟨10, {}⟩ }
    Server.smallProgram := by
  obtain ⟨w, c, hasks, -, hname⟩ := Server.exists_asks_program
  refine ⟨w, c, hasks, ?_⟩
  exact ((type_agrees ⟨ascii "run", by decide, by decide, by decide⟩
    Server.smallProgram.mode 55 (by decide)).1.program w 1 c _ _ _ _ 9 _ _ hasks hname rfl rfl
    rfl rfl).mp rfl

end Sgopher.Gopherlist
