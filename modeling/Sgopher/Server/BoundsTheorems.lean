/-
Sgopher.Server.BoundsTheorems — the fixed buffers of `client_socket` are
large enough.

The model leaves a write outside an array undefined, and so a read behind
what was written, so the bounds are statements that nothing on the way is
undefined: reading never overruns `client->buffer`, the path with the
slash of a directory fits into `filename`, and the part before its last
slash into `pathname`. What the searches look at is bounded by the offsets
they start from (`strPositions`).

No `sorry`, no `axiom`, no `native_decide`.
-/
import Sgopher.Server.ConfinementTheorems
import Sgopher.Server.FrameTheorems

namespace Sgopher.Server

open Sgopher.Lib Sgopher.Sepoll

variable {buffer line rest path filename query : Bytes} {filenameEnd a : Nat} {c : Client}
  {w : World}

/-! ## The buffer of a client -/

/-- No client's buffer was overrun. -/
abbrev BuffersFit : World → Prop :=
  OnClients fun _ mem => ∀ a c, mem.cell a = some c → c.buffer.length ≤ maxRequestSize

theorem setClient_buffersFit (hc : c.buffer.length ≤ maxRequestSize) :
    Triple (always BuffersFit) BuffersFit (setClient a c) (fun _ => BuffersFit) := by
  refine Triple.step_partial trivial fun w w' _ hw hf b d hd => ?_
  obtain ⟨mem, hmem, he⟩ := Option.map_eq_some_iff.mp hf
  obtain ⟨rfl, -⟩ := Prod.mk.inj he
  obtain ⟨ha, rfl⟩ := Heap.write_cases hmem
  by_cases hb : b = a
  · subst hb
    rw [show (w.own.mem.writeLive b c ha).cell b = some c from Function.update_self ..] at hd
    cases hd
    exact hc
  · exact hw b d ((Heap.writeLive_cell_of_ne ha hb).symm.trans hd)

theorem note_buffersFit {fd : Int} {act : Action} :
    Triple (always BuffersFit) BuffersFit (note fd act) (fun _ => BuffersFit) :=
  note_keeps trivial fun _ _ h => h

theorem hangUp_buffersFit :
    Triple (always BuffersFit) BuffersFit (hangUp a) (fun _ => BuffersFit) := by
  refine hangUp_onClients fun log mem mem' hw hfree b d hd => ?_
  obtain ⟨ha, rfl⟩ := Heap.free_cases hfree
  by_cases hb : b = a
  · subst hb
    rw [show (mem.freeLive b ha).cell b = none from Function.update_self ..] at hd
    cases hd
  · exact hw b d ((Heap.freeLive_cell_of_ne ha hb).symm.trans hd)

/-- However much arrives at once, reading stays within the buffer. -/
theorem fillBuffer_buffersFit :
    Triple (always BuffersFit) BuffersFit (fillBuffer a) (fun _ => BuffersFit) := by
  refine Triple.bind (getClient_keeps trivial) fun c => Triple.bind note_buffersFit fun _ => ?_
  refine Triple.iterate (I := fun _ => BuffersFit) (fun _ _ h => h) (fun _ => ?_) ()
  refine Triple.bind (R := fun c w => c.buffer.length ≤ maxRequestSize ∧ BuffersFit w)
    (Triple.step_partial trivial fun w w' c h hw => ?_) fun c => Triple.assume fun hc => ?_
  · obtain ⟨d, hd, he⟩ := Option.map_eq_some_iff.mp hw
    obtain ⟨rfl, rfl⟩ := Prod.mk.inj he
    exact ⟨h a d hd, h⟩
  refine Triple.bind (useFd_keeps trivial) fun _ => Triple.bind systemCall_always fun x => ?_
  split
  · exact Triple.pure fun _ h => h
  · exact Triple.bind hangUp_buffersFit fun _ => Triple.pure fun _ h => h
  · exact Triple.bind (Triple.bind (getClient_keeps trivial) fun _ =>
      Triple.bind note_buffersFit fun _ => hangUp_buffersFit) fun _ => Triple.pure fun _ h => h
  · refine Triple.ite (fun _ => ?_) fun _ => ?_
    · exact Triple.bind hangUp_buffersFit fun _ => Triple.pure fun _ h => h
    · refine Triple.bind (setClient_buffersFit ?_) fun _ => ?_
      · simp only [List.length_append, List.length_take]
        omega
      · exact Triple.ite (fun _ => Triple.pure fun _ h => h) fun _ => Triple.pure fun _ h => h

/-- Between two calls of handlers no buffer was overrun. -/
theorem Reachable.buffersFit (h : Reachable .any w) : BuffersFit w := by
  obtain ⟨x, _, hrest⟩ := h.resting
  exact fun a c hc => (hrest.parts.kinds a c (by simp) hc).2.buffer

/-! ## What the searches look at -/

/-- The values of `str_pos` in the turns of the loop over the selector,
where none of them ends it early. -/
def strPositions (buffer : Bytes) (selectorSize : Nat) : Nat → Nat → List Nat
  | 0, _ => []
  | fuel + 1, strPos =>
    strPos :: match memchr buffer strPos SLASH (selectorSize - strPos) with
      | some slash => strPositions buffer selectorSize fuel (slash + 1)
      | none => []

theorem strPositions_le {selectorSize : Nat} : ∀ (fuel strPos : Nat), strPos ≤ selectorSize →
    ∀ pos ∈ strPositions buffer selectorSize fuel strPos, pos ≤ selectorSize
  | 0, _, _ => by simp [strPositions]
  | fuel + 1, strPos, h => by
    intro pos hpos
    rw [strPositions] at hpos
    rcases List.mem_cons.mp hpos with rfl | hpos
    · exact h
    rcases memchr_cases buffer strPos SLASH (selectorSize - strPos) with
      ⟨hn, _⟩ | ⟨s, t, hst, _, hf⟩
    · simp [hn] at hpos
    · rw [hf] at hpos
      have hlen := congrArg List.length hst
      simp only [List.length_take, List.length_drop, List.length_append, List.length_cons] at hlen
      exact strPositions_le fuel _ (by omega) pos hpos

/-- Selector and query lie before the CRLF. -/
theorem frame_bounds {f : Framing} (h : frame buffer = some f) :
    f.selectorSize + 2 ≤ buffer.length ∧
      ∀ q, f.query = some q → q + f.querySize + 2 ≤ buffer.length := by
  unfold frame at h
  cases hm : memmem [CR, LF] buffer with
  | none => simp [hm] at h
  | some crlf =>
    have hcrlf : crlf + 2 ≤ buffer.length := by
      have hpre := ((memmem_eq_some_iff (by simp)).mp hm).1.length_le
      simp only [List.length_cons, List.length_nil, List.length_drop] at hpre
      omega
    rw [hm] at h
    dsimp only at h
    split at h
    · split at h
      · cases h
        refine ⟨by dsimp only; omega, fun q hq => ?_⟩
        dsimp only at hq ⊢
        split at hq
        · cases hq
          omega
        · cases hq
      · cases h
        exact ⟨hcrlf, by simp⟩
    · cases h
      exact ⟨hcrlf, by simp⟩

/-! ## The child's part of the path -/

/-- The part of the path before its last slash fits, with its NUL, into an
array of the same size; so the child cuts the path there, if it can open
that part. -/
theorem execTarget_path (params : Params) {dirfd : Int} {path s t : Bytes}
    (openat : Option Errno) (hd : dirfd < 0) (hlen : path.length < maxFilenameSize)
    (hpath : untilNul path = s ++ SLASH :: t) (ht : SLASH ∉ t) :
    execTarget params dirfd (path ++ [0]) openat =
      some (openat.elim (some (.path s, t)) fun _ => none) := by
  have hpre := (untilNul_initial path).length_le
  have hlength := congrArg List.length hpath
  simp only [List.length_append, List.length_cons] at hlength
  have htake : (untilNul path).take s.length = s := by rw [hpath, List.take_left]
  have hnul : (0 : UInt8) ∉ s := fun h =>
    zero_not_mem_untilNul path (hpath ▸ List.mem_append_left _ h)
  have hslash : strrchr (untilNul path) SLASH = some s.length := by
    rw [hpath]
    exact strrchr_append s ht
  have hcopy : mempcpy maxFilenameSize [] 0 s = some (s, s.length) := by
    have hroom : s.length ≤ maxFilenameSize := by omega
    simp [mempcpy, store, hroom]
  have hstore : store maxFilenameSize s s.length [0] = some (s ++ [0]) := by
    have hend : store maxFilenameSize (s ++ []) s.length [0] = some (s ++ [0]) :=
      store_end (by simp) (by simp only [List.length_singleton]; omega)
    rwa [List.append_nil] at hend
  have hpathname : cstring (s ++ [0]) 0 = some s := by
    rw [cstring_append_nul s (Nat.zero_le _), List.drop_zero, untilNul_eq_self hnul]
  have hcommand : cstring (path ++ [0]) (s.length + 1) = some t := by
    rw [cstring_append_nul path (by omega), untilNul_drop (by omega), hpath]
    simp
  rw [execTarget, if_pos hd, cstring_append_nul _ (Nat.zero_le _), List.drop_zero]
  simp only [hslash, htake, hcopy, hstore, hpathname, hcommand, Option.bind_eq_bind,
    Option.bind_some]
  cases openat with
  | none => rfl
  | some e => rfl

theorem execTarget_defined (params : Params) (dirfd : Int) {path : Bytes} (openat : Option Errno)
    (hlen : path.length < maxFilenameSize) :
    ∃ target, execTarget params dirfd (path ++ [0]) openat = some target := by
  by_cases hd : dirfd < 0
  · rcases strrchr_cases (untilNul path) SLASH with ⟨hn, _⟩ | ⟨s, t, hst, ht, _⟩
    · refine ⟨none, ?_⟩
      rw [execTarget, if_pos hd, cstring_append_nul _ (Nat.zero_le _), List.drop_zero]
      simp only [hn]
    · exact ⟨_, execTarget_path params openat hd hlen hst ht⟩
  · exact ⟨_, if_neg hd⟩

/-- Nothing the child does before `execve` is undefined. -/
theorem cgiChild_defined (params : Params) (dirfd : Int) (address query : Bytes)
    (answer : ChildAnswer) {path : Bytes} (h0 : path ≠ []) (hlen : path.length < maxFilenameSize) :
    cgiChild params dirfd address (path ++ [0]) query answer ≠ .undefined := by
  obtain ⟨target, ht⟩ := execTarget_defined params dirfd answer.openat hlen
  have hname : cstring (path ++ [0]) 1 = some (untilNul (path.drop 1)) :=
    cstring_append_nul path (List.length_pos_iff.mpr h0)
  unfold cgiChild
  rw [ht, hname]
  cases target with
  | none => simp
  | some p =>
    dsimp only
    repeat' split
    all_goals simp

/-! ## All of them -/

/-- What happens to the path of a request stays within the arrays: the loop
over the selector, the slash of a directory, and the child's copy. -/
structure PathFits (buffer : Bytes) : Prop where
  parse : ∃ p, parse buffer = some p
  filename : ∀ filename filenameEnd query,
    Server.parse buffer = some (.path filename filenameEnd query) →
      filename.length ≤ maxFilenameSize ∧
      ∃ filename' filenameEnd', stpcpy maxFilenameSize filename filenameEnd [SLASH]
          = some (filename', filenameEnd') ∧ filename'.length ≤ maxFilenameSize ∧
        ∀ params dirfd address answer, ∀ f ∈ [filename, filename'],
          cgiChild params dirfd address f query answer ≠ .undefined

theorem pathFits (hlen : buffer.length ≤ maxRequestSize) : PathFits buffer := by
  refine ⟨parse_total hlen, fun filename filenameEnd query hp => ?_⟩
  obtain ⟨line, rest, hframed, _, rfl, rfl, rfl⟩ := parse_path hlen hp
  have hslash := stpcpy_slash hlen hframed
  dsimp only at hslash
  generalize hpath : relativePath (components (splitTab line).1) = path at *
  have h0 : path ≠ [] := by
    rw [← hpath]
    exact List.cons_ne_nil _ _
  have hroom : (path ++ [SLASH] ++ [0]).length ≤ maxFilenameSize := by
    by_contra hn
    have hnone : store maxFilenameSize (path ++ [0]) path.length ([SLASH] ++ [0]) = none := by
      refine if_neg fun hs => hn ?_
      simpa using hs.2
    simp only [stpcpy, hnone, Option.map_none, reduceCtorEq] at hslash
  simp only [List.length_append, List.length_singleton] at hroom
  refine ⟨by simp only [List.length_append, List.length_singleton]; omega, _, _, hslash, by
    simp only [List.length_append, List.length_singleton]; omega, ?_⟩
  intro params dirfd address answer f hf
  simp only [List.mem_cons, List.not_mem_nil, or_false] at hf
  rcases hf with rfl | rfl
  · exact cgiChild_defined params dirfd address _ answer h0 (by omega)
  · refine cgiChild_defined params dirfd address _ answer (by simp) ?_
    simp only [List.length_append, List.length_singleton]
    omega

/-- **The fixed buffers are large enough.** In every run, however the
requests arrive, no read overruns a client's buffer; and for every request
that fits into it everything that is read is behind its start and before
its end, and everything that is written to `filename` and `pathname` is
within `MAX_FILENAME_SIZE`. -/
theorem buffers_suffice :
    (∀ w, Reachable .any w → BuffersFit w ∧
      ∀ a ans, (fillBuffer a (w.withLoop w.loop.popped) ans).Always BuffersFit) ∧
    (∀ buffer f, frame buffer = some f → f.selectorSize < buffer.length ∧
      (∀ q, f.query = some q → q + f.querySize < buffer.length) ∧
      ∀ pos ∈ strPositions buffer f.selectorSize (f.selectorSize + 1) 0, pos ≤ f.selectorSize) ∧
    ∀ buffer, buffer.length ≤ maxRequestSize → PathFits buffer := by
  refine ⟨fun w h => ⟨h.buffersFit, fun a ans => ?_⟩, fun buffer f hf => ?_, fun _ => pathFits⟩
  · have hw : BuffersFit (w.withLoop w.loop.popped) := h.buffersFit
    exact always_run fillBuffer_buffersFit hw ans
  · obtain ⟨hs, hq⟩ := frame_bounds hf
    refine ⟨by omega, fun q h => ?_, strPositions_le _ 0 (Nat.zero_le _)⟩
    have := hq q h
    omega

/-- The longest selector of one component. -/
def longestRequest : Bytes := List.replicate 511 97 ++ [CR, LF]

theorem buffers_suffice_longest :
    (∃ w, Reachable .any w ∧ w.own.server.clients = [1] ∧ BuffersFit w) ∧
      (∃ f, frame longestRequest = some f ∧ f.selectorSize < longestRequest.length) ∧
      PathFits longestRequest := by
  refine ⟨?_, ⟨⟨511, none, 0⟩, by decide +kernel, ?_⟩, buffers_suffice.2.2 _ ?_⟩
  · have h : ((do register; batches 1 : Program Int) smallWorker (asked.take 9)).Returns
        fun _ w => w.own.server.clients = [1] := by decide +kernel
    obtain ⟨w, hreach, hclients⟩ := reachable_of_batches h
    exact ⟨w, hreach, hclients, (buffers_suffice.1 w hreach).1⟩
  · exact (buffers_suffice.2.1 longestRequest ⟨511, none, 0⟩ (by decide +kernel)).1
  · rw [longestRequest, List.length_append, List.length_replicate]
    decide

end Sgopher.Server
