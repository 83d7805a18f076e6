/-
Sgopher.Gopherlist.ListingTheorems — the run of `gopherlist`.

`Filled sent pending` says that the texts of `sent` were written and those
of `pending` are in the buffer, and that nothing else was pushed. As long
as no flush has failed, every part of `main` takes one such state to
another, where every line fits: a line is shorter than the 4096 bytes that
`sbuffer_checkflush` keeps free. `main_ending` is what is left of this at
the end of a run.

No `sorry`, no `axiom`, no `native_decide`.
-/
import Sgopher.Gopherlist.SbufferTheorems
import Sgopher.Gopherlist.Listing

namespace Sgopher.Gopherlist

open Sgopher.Lib

variable {w w' : World} {sent pending : List Bytes} {t : Bytes}

/-! ## The write buffer of a menu -/

/-- A push that fitted. -/
def fitted (t : Bytes) : Formatted × Pushed := (.text t, .ok t.length)

/-- The texts of `sent` are written, those of `pending` are in the buffer,
and nothing else was pushed. -/
structure Filled (sent pending : List Bytes) (w : World) : Prop where
  law : Law bufferLength w
  pushes : w.pushes = (sent ++ pending).map fitted
  out : w.out = sent.flatten
  writepos : w.sbuffer.writepos = 0
  texts : ∀ t ∈ sent ++ pending, t ≠ []

/-- No flush has failed. -/
def Unbroken (w : World) : Prop := ∀ r ∈ w.flushes, r = .ok ()

instance (w : World) : Decidable (Unbroken w) :=
  inferInstanceAs (Decidable (∀ r ∈ w.flushes, r = .ok ()))

/-- The buffer as it is unless a flush has failed. -/
structure Menu (sent pending : List Bytes) (w : World) : Prop where
  law : Law bufferLength w
  filled : Unbroken w → Filled sent pending w

theorem bufferLength_toNat : bufferLength.toNat = 65536 := by decide

theorem accepted_fitted : ∀ {ts : List Bytes}, (∀ t ∈ ts, t ≠ []) →
    accepted (ts.map fitted) = ts.flatten
  | [], _ => rfl
  | t :: ts, h => by
    have ht : 0 < t.length := List.length_pos_iff.mpr (h t List.mem_cons_self)
    have hts : accepted (ts.map fitted) = ts.flatten :=
      accepted_fitted fun t' ht' => h t' (List.mem_cons_of_mem _ ht')
    rw [List.map_cons, accepted, List.flatMap_cons, ← accepted, hts, List.flatten_cons, fitted,
      added, if_pos ht]

/-- What is pending is what is in the buffer. -/
theorem Filled.pos_eq (h : Filled sent pending w) :
    w.sbuffer.pos = pending.flatten.length := by
  have hstream := h.law.stream
  rw [h.out, h.pushes, accepted_fitted h.texts, List.flatten_append] at hstream
  have hbytes := congrArg List.length (List.append_cancel_left hstream)
  have hstored := h.law.stored
  rw [h.law.unwrittenBytes_eq, h.writepos, List.drop_zero, List.length_take_of_le hstored] at hbytes
  exact hbytes

theorem Filled.remaining_eq (h : Filled sent pending w) :
    w.sbuffer.remaining = 65536 - pending.flatten.length := by
  rw [h.law.remaining_eq, h.pos_eq, bufferLength_toNat]

/-- A text that fits is pending. -/
theorem Filled.push (h : Filled sent pending w) (ht : t ≠ [])
    (hroom : pending.flatten.length + t.length < 65536) (ans : List Answer) :
    ∃ w', sbufferPush (.text t) w ans = .done (.ok t.length) w' ans ∧ w'.flushes = w.flushes ∧
      Filled sent (pending ++ [t]) w' := by
  have hpos : 0 < t.length := List.length_pos_iff.mpr ht
  obtain ⟨r, w', hrun, hw'⟩ := h.law.sbufferPush_run (.text t) ans
  cases hw' with
  | refused mem r hr hunfit hkeep law =>
    have := hunfit t rfl hpos
    rw [h.remaining_eq] at this
    omega
  | accepted mem t' hf ht' hroom law =>
    cases hf
    refine ⟨_, hrun, rfl, law, ?_, h.out, h.writepos, ?_⟩
    · show w.pushes ++ [fitted t] = _
      rw [h.pushes]
      simp
    · rw [← List.append_assoc]
      intro t' ht'
      rcases List.mem_append.mp ht' with ht' | ht'
      · exact h.texts t' ht'
      · exact List.mem_singleton.mp ht' ▸ ht

/-- A flush that succeeds sends what is pending. -/
theorem Filled.flushed {done : List Ret} (h : Filled sent pending w)
    (hw' : Flushed bufferLength w done w') : Filled (sent ++ pending) [] w' := by
  have hbytes : w.sbuffer.unwrittenBytes = pending.flatten := by
    have hstream := h.law.stream
    rw [h.out, h.pushes, accepted_fitted h.texts, List.flatten_append] at hstream
    exact List.append_cancel_left hstream
  refine ⟨hw'.law, ?_, ?_, Nat.le_zero.mp (hw'.pos ▸ hw'.law.ordered), ?_⟩
  · rw [hw'.pushes, h.pushes, List.append_nil]
  · rw [hw'.out, h.out, hbytes, List.flatten_append]
  · rw [List.append_nil]
    exact h.texts

/-! ## The contract -/

/-- Every push fitted. -/
def AllFit (w : World) : Prop := ∀ p ∈ w.pushes, ∃ t, p = fitted t ∧ t ≠ []

/-- What `main` may rely on, and what it owes wherever it waits. Where
`healthy` holds, there is memory and the directory can be opened. -/
def contract (healthy : Prop) : Contract Answer World where
  answers x := healthy → x.memory = true ∧ x.opendir = none
  waits w := Unbroken w → AllFit w

theorem Filled.allFit (h : Filled sent pending w) : AllFit w := by
  intro p hp
  rw [h.pushes] at hp
  obtain ⟨t, ht, rfl⟩ := List.mem_map.mp hp
  exact ⟨t, rfl, h.texts t ht⟩

variable {healthy : Prop}

/-- During a flush, the pushes are those from before. -/
theorem Menu.waits {done : List Ret} {w₀ : World} (h : Menu sent pending w₀)
    (hw : Flushing bufferLength w₀ done w) : (contract healthy).waits w := by
  intro hunbroken
  have hbefore : Unbroken w₀ := fun r hr =>
    hunbroken r (hw.flushes ▸ List.mem_append_left _ hr)
  have hfit := (h.filled hbefore).allFit
  rwa [AllFit, ← hw.pushes] at hfit

theorem sbufferPush_triple (ht : t ≠ []) (hroom : pending.flatten.length + t.length < 65536) :
    Triple (contract healthy) (Menu sent pending) (sbufferPush (.text t))
      (fun _ => Menu sent (pending ++ [t])) := by
  intro w ans h hA
  obtain ⟨r, w₁, hrun, hw₁⟩ := h.law.sbufferPush_run (.text t) ans
  have hlaw : Law bufferLength w₁ ∧ w₁.flushes = w.flushes := by
    cases hw₁ with
    | refused mem r hr hunfit hkeep law => exact ⟨law, rfl⟩
    | accepted mem t' hf ht' hroom law => exact ⟨law, rfl⟩
  rw [hrun]
  refine ⟨⟨hlaw.1, fun hunbroken => ?_⟩, hA⟩
  obtain ⟨w₂, hrun₂, hflushes, hw₂⟩ :=
    (h.filled (by rwa [Unbroken, ← hlaw.2])).push ht hroom ans
  rw [hrun] at hrun₂
  cases hrun₂
  exact hw₂

/-- A flush, if it was not the first to fail. -/
theorem Menu.flushEnd {r : Ret} {w₀ : World} (h : Menu sent pending w₀)
    (hw : FlushEnd bufferLength w₀ r w) : Menu (sent ++ pending) [] w := by
  rcases hw with ⟨rfl, hw⟩ | ⟨e, rfl, hw⟩
  · refine ⟨hw.law, fun hunbroken => (h.filled fun r hr => ?_).flushed hw⟩
    exact hunbroken r (hw.flushes ▸ List.mem_append_left _ hr)
  · refine ⟨hw.law, fun hunbroken => ?_⟩
    have hbroken := hunbroken (.error e) (hw.flushes ▸ by simp)
    cases hbroken

theorem sbufferFlush_menu :
    Triple (contract healthy) (Menu sent pending) sbufferFlush
      (fun _ => Menu (sent ++ pending) []) := by
  intro w ans h hA
  exact ((sbufferFlush_triple fun w' hw' => h.waits hw').post fun r w' hw' => h.flushEnd hw')
    w ans h.law.flushing hA

/-- What `sbuffer_checkflush` sends: everything, if little room is left. -/
def checked (sent pending : List Bytes) : List Bytes × List Bytes :=
  if 65536 - pending.flatten.length < bufferLeftover then (sent ++ pending, []) else (sent, pending)

theorem sbufferCheckflush_menu :
    Triple (contract healthy) (Menu sent pending) (sbufferCheckflush bufferLeftover)
      (fun _ => Menu (checked sent pending).1 (checked sent pending).2) := by
  intro w ans h hA
  refine ((sbufferCheckflush_triple bufferLeftover fun w' hw' => h.waits hw').post
    fun r w' hw' => ?_) w ans ⟨rfl, h.law⟩ hA
  rcases hw' with ⟨rfl, rfl, hroom⟩ | ⟨hfull, hw'⟩
  · refine ⟨h.law, fun hunbroken => ?_⟩
    have hfilled := h.filled hunbroken
    rw [hfilled.remaining_eq] at hroom
    rw [checked, if_neg (Nat.not_lt.mpr hroom)]
    exact hfilled
  · have hend := h.flushEnd hw'
    refine ⟨hend.law, fun hunbroken => ?_⟩
    have hbefore : Unbroken w := by
      rcases hw' with ⟨_, hw'⟩ | ⟨_, _, hw'⟩ <;>
        exact fun r hr => hunbroken r (hw'.flushes ▸ List.mem_append_left _ hr)
    rw [(h.filled hbefore).remaining_eq] at hfull
    rw [checked, if_pos hfull]
    exact hend.filled hunbroken

/-! ## The parts of a menu -/

/-- The lines of the header. -/
def headerLines (env : Env) : List Bytes :=
  [env.titleLine] ++ (if 0 < env.queryBytes.length then [env.queryLine] else []) ++ [blankLine] ++
    env.parentSlash.toList.map env.parentLine

/-- What is pushed behind the items. -/
def footerTexts (env : Env) (filesFound : UInt32) : List Bytes :=
  (if 0 < env.queryBytes.length then [foundLines filesFound] else []) ++ [lastLine]

/-- The names that are left by the filter, sorted. -/
def keptNames (env : Env) (dir : Directory) : List Name := sortNames (dir.entries.filter env.wants)

/-- The items, with their types, up to the first name `stat` fails for. -/
def items (stat : Name → Option UInt32) : List Name → List (UInt8 × Name)
  | [] => []
  | filename :: rest =>
    match stat filename with
    | none => []
    | some mode =>
      match itemType mode filename.bytes with
      | none => items stat rest
      | some type => (type, filename) :: items stat rest

/-- `stat` fails for no name. -/
def complete (stat : Name → Option UInt32) (filenames : List Name) : Bool :=
  filenames.all fun f => (stat f).isSome

section Items

variable {stat : Name → Option UInt32} {filename : Name} {mode : UInt32} {rest : List Name}

theorem items_skip (hstat : stat filename = some mode)
    (htype : itemType mode filename.bytes = none) :
    items stat (filename :: rest) = items stat rest := by
  simp only [items, hstat, htype]

theorem items_cons {type : UInt8} (hstat : stat filename = some mode)
    (htype : itemType mode filename.bytes = some type) :
    items stat (filename :: rest) = (type, filename) :: items stat rest := by
  simp only [items, hstat, htype]

theorem complete_cons (hstat : stat filename = some mode) :
    complete stat (filename :: rest) = complete stat rest := by
  simp [complete, hstat]

/-- The count of the files, one file later. -/
theorem count_succ (n : UInt32) (k : Nat) :
    n + UInt32.ofNat (k + 1) = n + 1 + UInt32.ofNat k := by
  rw [Nat.add_comm k 1, UInt32.ofNat_add, ← UInt32.add_assoc]
  rfl

end Items

def Env.line (env : Env) (item : UInt8 × Name) : Bytes := env.itemLine item.1 item.2.bytes

/-- What is sent and what is pending after some more lines, each followed
by a check. -/
def afterLines (s : List Bytes × List Bytes) (lines : List Bytes) : List Bytes × List Bytes :=
  lines.foldl (fun s line => checked s.1 (s.2 ++ [line])) s

/-- The buffer has the room that is kept free. -/
def Roomy (pending : List Bytes) : Prop := pending.flatten.length + bufferLeftover ≤ 65536

theorem checked_append (sent pending : List Bytes) :
    (checked sent pending).1 ++ (checked sent pending).2 = sent ++ pending := by
  unfold checked
  split
  · exact List.append_nil _
  · rfl

theorem checked_roomy (sent pending : List Bytes) : Roomy (checked sent pending).2 := by
  unfold checked Roomy bufferLeftover
  split
  · simp
  · simp only
    omega

theorem afterLines_append (lines : List Bytes) : ∀ s : List Bytes × List Bytes,
    (afterLines s lines).1 ++ (afterLines s lines).2 = s.1 ++ s.2 ++ lines := by
  induction lines with
  | nil => exact fun s => (List.append_nil _).symm
  | cons line lines ih =>
    intro s
    rw [afterLines, List.foldl_cons, ← afterLines, ih, checked_append]
    simp

/-! ## The loops -/

theorem texts_ne_nil (env : Env) : (∀ t ∈ headerLines env, t ≠ []) ∧
    (∀ item, env.line item ≠ []) ∧ ∀ n, ∀ t ∈ footerTexts env n, t ≠ [] := by
  have hend : ∀ t : Bytes, t ++ crlf ≠ [] := fun t h => by
    have := congrArg List.length h
    simp [crlf] at this
  refine ⟨fun t ht => ?_, fun item => hend _, fun n t ht => ?_⟩
  · simp only [headerLines, List.mem_append, List.mem_map, List.mem_singleton] at ht
    rcases ht with ((rfl | ht) | rfl) | ⟨slash, _, rfl⟩
    · exact hend _
    · split at ht
      · exact List.mem_singleton.mp ht ▸ hend _
      · cases ht
    · exact hend _
    · exact hend _
  · simp only [footerTexts, List.mem_append, List.mem_singleton] at ht
    rcases ht with ht | rfl
    · split at ht
      · exact List.mem_singleton.mp ht ▸ hend _
      · cases ht
    · exact hend _

/-- Push some texts, one after the other. -/
def pushAll : List Bytes → Program Unit
  | [] => pure ()
  | t :: ts => do
    let _ ← sbufferPush (.text t)
    pushAll ts

/-- The header is pushed line by line, and so is the footer. -/
theorem writeHeader_eq (env : Env) : writeHeader env = pushAll (headerLines env) := by
  unfold writeHeader headerLines
  by_cases hq : 0 < env.queryBytes.length
  · cases env.parentSlash <;> simp only [Prog.when, if_pos hq, Prog.bind_assoc] <;> rfl
  · cases env.parentSlash <;> simp only [Prog.when, if_neg hq] <;> rfl

theorem writeFooter_eq (env : Env) (n : UInt32) :
    writeFooter env n = pushAll (footerTexts env n) >>= fun _ => sbufferFlush >>= fun _ =>
      pure () := by
  unfold writeFooter footerTexts
  by_cases hq : 0 < env.queryBytes.length
  · simp only [Prog.when, if_pos hq, Prog.bind_assoc, pushAll, List.singleton_append]
    rfl
  · simp only [Prog.when, if_neg hq, Prog.bind_assoc, pushAll, List.nil_append]
    rfl

/-- Texts that fit together. -/
theorem pushAll_triple : ∀ {ts : List Bytes} {pending : List Bytes}, (∀ t ∈ ts, t ≠ []) →
    (pending ++ ts).flatten.length < 65536 →
    Triple (contract healthy) (Menu sent pending) (pushAll ts) (fun _ => Menu sent (pending ++ ts))
  | [], pending, _, _ => Triple.pure fun w h => by rwa [List.append_nil]
  | t :: ts, pending, hne, hfit => by
    have hroom : pending.flatten.length + t.length < 65536 := by
      simp only [List.flatten_append, List.flatten_cons, List.length_append] at hfit
      omega
    rw [List.append_cons] at hfit ⊢
    refine Triple.bind (sbufferPush_triple (hne t List.mem_cons_self) hroom) fun _ => ?_
    exact pushAll_triple (fun u hu => hne u (List.mem_cons_of_mem _ hu)) hfit

/-- The header fits. -/
theorem writeHeader_triple {env : Env} (hfit : (headerLines env).flatten.length < 65536) :
    Triple (contract healthy) (Menu [] []) (writeHeader env)
      (fun _ => Menu [] (headerLines env)) := by
  rw [writeHeader_eq]
  exact pushAll_triple (texts_ne_nil env).1 hfit

/-- The loop over the names, if their lines are shorter than the room that
is kept free. -/
theorem writeItems_triple {env : Env} {stat : Name → Option UInt32} :
    ∀ (filenames : List Name) (n : UInt32) (s : List Bytes × List Bytes),
      (∀ item ∈ items stat filenames, (env.line item).length < bufferLeftover) → Roomy s.2 →
      Triple (contract healthy) (Menu s.1 s.2) (writeItems env stat filenames n)
        (fun r w => r = (if complete stat filenames then
            some (n + UInt32.ofNat (items stat filenames).length) else none) ∧
          Menu (afterLines s ((items stat filenames).map env.line)).1
            (afterLines s ((items stat filenames).map env.line)).2 w ∧
          Roomy (afterLines s ((items stat filenames).map env.line)).2)
  | [], n, s, _, hroom => Triple.pure fun w h => ⟨by simp [complete, items], h, hroom⟩
  | filename :: rest, n, s, hshort, hroom => by
    rw [writeItems]
    cases hstat : stat filename with
    | none =>
      have hitems : items stat (filename :: rest) = [] := by simp only [items, hstat]
      rw [hitems]
      exact Triple.pure fun w h => ⟨by simp [complete, hstat], h, hroom⟩
    | some mode =>
      cases htype : itemType mode filename.bytes with
      | none =>
        rw [items_skip hstat htype] at hshort ⊢
        rw [complete_cons hstat]
        simp only [htype]
        exact writeItems_triple rest n s hshort hroom
      | some type =>
        rw [items_cons hstat htype] at hshort ⊢
        rw [complete_cons hstat, List.length_cons, count_succ]
        simp only [htype]
        have hline := hshort _ List.mem_cons_self
        refine Triple.bind
          (sbufferPush_triple ((texts_ne_nil env).2.1 (type, filename)) ?_) fun _ => ?_
        · have hroom' := hroom
          simp only [Roomy] at hroom'
          show s.2.flatten.length + (env.line (type, filename)).length < 65536
          omega
        refine Triple.bind sbufferCheckflush_menu fun _ => ?_
        exact writeItems_triple rest (n + 1) (checked s.1 (s.2 ++ [env.line (type, filename)]))
          (fun item hitem => hshort item (List.mem_cons_of_mem _ hitem)) (checked_roomy _ _)

theorem decimal_length_le {n k : Nat} (hk : 0 < k) (h : n < 10 ^ k) : (decimal n).length ≤ k := by
  rw [decimal, List.length_map]
  exact (Nat.length_toDigits_le_iff (by decide) hk).mpr h

theorem foundLines_length (n : UInt32) : (foundLines n).length ≤ 28 := by
  have hdigits : (decimal n.toNat).length ≤ 10 :=
    decimal_length_le (by decide) (Nat.lt_of_lt_of_le n.toNat_lt (by decide))
  have hi : (ascii "i").length = 1 := rfl
  have hfound : (ascii "iFound ").length = 7 := rfl
  have hfiles : (ascii " files").length = 6 := rfl
  have hcrlf : crlf.length = 2 := rfl
  simp only [foundLines, List.length_append, hi, hfound, hfiles, hcrlf]
  omega

/-- The footer fits in the room that is kept free, and then everything is
sent. -/
theorem writeFooter_triple {env : Env} (n : UInt32) (hroom : Roomy pending) :
    Triple (contract healthy) (Menu sent pending) (writeFooter env n)
      (fun _ => Menu (sent ++ pending ++ footerTexts env n) []) := by
  have hlast : lastLine.length = 3 := rfl
  have hfound := foundLines_length n
  have hfooter : (footerTexts env n).flatten.length ≤ 31 := by
    rw [footerTexts]
    split
    · simp only [List.flatten_append, List.length_append, List.flatten_singleton, hlast]
      omega
    · exact Nat.le_add_left 3 28
  have hfit : (pending ++ footerTexts env n).flatten.length < 65536 := by
    simp only [Roomy, bufferLeftover] at hroom
    rw [List.flatten_append, List.length_append]
    omega
  rw [writeFooter_eq, List.append_assoc]
  refine Triple.bind (pushAll_triple ((texts_ne_nil env).2.2 n) hfit) fun _ => ?_
  exact Triple.bind sbufferFlush_menu fun _ => Triple.pure fun w h => h

/-! ## The whole run -/

/-- What the copies of some names take of the stack. -/
def Stack.copies (stack : Stack) : List Name → Nat
  | [] => 0
  | filename :: rest => stack.copySize filename + stack.copies rest

theorem Stack.copies_append (stack : Stack) (ys : List Name) : ∀ xs : List Name,
    stack.copies (xs ++ ys) = stack.copies xs + stack.copies ys
  | [] => (Nat.zero_add _).symm
  | x :: xs => by
    rw [List.cons_append, copies, copies, copies_append stack ys xs, Nat.add_assoc]

/-- There is room for the copies of all of them. -/
def Stack.Fits (stack : Stack) (filenames : List Name) : Prop :=
  stack.copies filenames ≤ stack.room

instance (stack : Stack) (filenames : List Name) : Decidable (stack.Fits filenames) :=
  inferInstanceAs (Decidable (_ ≤ _))

/-- The list holds some names, and has room for one more; their copies are
on the stack. -/
structure FileNames.Collected (stack : Stack) (names : FileNames) (xs : List Name) : Prop where
  holds : names.filenames.Holds xs
  count : names.count = xs.length
  size : names.filenames.length = names.size
  room : names.count < names.size
  takes : names.stack.takes = stack.takes
  copies : stack.copies xs + names.stack.room = stack.room

section

variable {stack stack' : Stack} {names : FileNames} {xs : List Name} {entry : Name}

theorem FileNames.initial_collected (stack : Stack) :
    (FileNames.initial stack).Collected stack [] :=
  ⟨Block.calloc_holds _, rfl, Block.calloc_length _, show 0 < numFilenames by decide, rfl,
    Nat.zero_add _⟩

/-- The names that were copied fit. -/
theorem FileNames.Collected.fits (h : names.Collected stack xs) : stack.Fits xs := by
  have := h.copies
  unfold Stack.Fits
  omega

theorem FileNames.Collected.copySize_eq (h : names.Collected stack xs) (entry : Name) :
    names.stack.copySize entry = stack.copySize entry := by
  rw [Stack.copySize, Stack.copySize, h.takes]

/-- Where there is no room for a copy, there is none for all of them. -/
theorem FileNames.Collected.not_fits (h : names.Collected stack xs)
    (hcopy : names.stack.strdupa entry = none) (rest : List Name) :
    ¬ stack.Fits (xs ++ entry :: rest) := by
  have hfull : names.stack.room < stack.copySize entry := by
    rw [← h.copySize_eq]
    unfold Stack.strdupa at hcopy
    split at hcopy
    · cases hcopy
    · omega
  have hcopies := h.copies
  rw [Stack.Fits, Stack.copies_append, Stack.copies]
  omega

/-- A copy is made. -/
theorem FileNames.Collected.copied (h : names.Collected stack xs)
    (hcopy : names.stack.strdupa entry = some stack') :
    stack'.takes = stack.takes ∧ stack.copies (xs ++ [entry]) + stack'.room = stack.room := by
  unfold Stack.strdupa at hcopy
  split at hcopy
  · rename_i hroom
    cases hcopy
    refine ⟨h.takes, ?_⟩
    have hcopies := h.copies
    rw [h.copySize_eq] at hroom
    rw [Stack.copies_append, Stack.copies, Stack.copies]
    simp only [h.copySize_eq]
    omega
  · cases hcopy

/-- A name is copied and stored, and the list doubled if that has filled
it. -/
theorem FileNames.Collected.stored (h : names.Collected stack xs)
    (hcopy : names.stack.strdupa entry = some stack') :
    ∃ filenames, names.filenames.store names.count entry = some filenames ∧
      FileNames.Collected stack
        ⟨filenames.resized (names.size * 2), names.size * 2, names.count + 1, stack'⟩
        (xs ++ [entry]) ∧
      (names.count + 1 ≠ names.size → FileNames.Collected stack
        ⟨filenames, names.size, names.count + 1, stack'⟩ (xs ++ [entry])) := by
  have hcount := h.count
  have hsize := h.size
  have hroom := h.room
  obtain ⟨htakes, hcopies⟩ := h.copied hcopy
  have hlength : (xs ++ [entry]).length = names.count + 1 := by
    rw [List.length_append, List.length_singleton, hcount]
  obtain ⟨filenames, hstore, hlen, hholds⟩ := h.holds.store (by omega) entry
  refine ⟨filenames, by rw [hcount, hstore], ⟨hholds.resized (by omega), hlength.symm,
    Block.resized_length _ _, ?_, htakes, hcopies⟩, fun hne => ⟨hholds, hlength.symm,
    hlen.trans hsize, ?_, htakes, hcopies⟩⟩
  · show names.count + 1 < names.size * 2
    omega
  · show names.count + 1 < names.size
    omega

/-- The names can be read. -/
theorem FileNames.Collected.first (h : names.Collected stack xs) :
    names.filenames.first names.count = some xs := by
  rw [h.count, h.holds.first]

end

/-- What comes of reading the names: they are collected, or there was no
memory for the list, or no room on the stack for them all. -/
inductive Collecting (healthy : Prop) (stack : Stack) (filenames : List Name) :
    Except ExitStatus FileNames → Prop
  | ok {names : FileNames} (h : names.Collected stack filenames) :
      Collecting healthy stack filenames (.ok names)
  | failure (h : ¬ healthy) : Collecting healthy stack filenames (.error .failure)
  | killed (h : ¬ stack.Fits filenames) : Collecting healthy stack filenames (.error .killed)

/-- The `readdir` loop: the names that are wanted, in the order of the
directory. No store is outside of the list. -/
theorem readNames_triple {X : Contract Answer World} {env : Env} {P : World → Prop}
    {stack : Stack} (hwaits : ∀ w, P w → X.waits w)
    (hmemory : ∀ x, X.answers x → healthy → x.memory = true) :
    ∀ (entries : List Name) (names : FileNames) (xs : List Name), names.Collected stack xs →
      Triple X P (readNames env entries names) (fun r w => P w ∧
        Collecting healthy stack (xs ++ entries.filter env.wants) r)
  | [], names, xs, hnames => Triple.pure fun w h => ⟨h, .ok (by simpa using hnames)⟩
  | entry :: rest, names, xs, hnames => by
    rw [readNames]
    by_cases hwants : env.wants entry = true
    · have hfilter : xs ++ (entry :: rest).filter env.wants =
          xs ++ [entry] ++ rest.filter env.wants := by simp [hwants]
      rw [if_pos hwants, hfilter]
      cases hcopy : names.stack.strdupa entry with
      | none =>
        refine Triple.pure fun w h => ⟨h, .killed ?_⟩
        rw [List.append_assoc, List.singleton_append]
        exact hnames.not_fits hcopy _
      | some stack' =>
        obtain ⟨filenames, hstore, hdoubled, hkept⟩ := hnames.stored hcopy
        simp only [hstore]
        refine Triple.ite (fun hfull => ?_) fun hfull => ?_
        · refine Triple.bind (R := fun x w => P w ∧ (healthy → x.memory = true))
            (Triple.ask hwaits fun w x h hx => ⟨h, hmemory x hx⟩) fun x => ?_
          refine Triple.ite (fun _ => ?_) fun hmem =>
            Triple.pure fun w h => ⟨h.1, .failure fun hh => hmem (h.2 hh)⟩
          exact (readNames_triple hwaits hmemory rest _ _ hdoubled).pre fun w h => h.1
        · exact readNames_triple hwaits hmemory rest _ _ (hkept hfull)
    · rw [if_neg hwants, List.filter_cons_of_neg hwants]
      exact readNames_triple hwaits hmemory rest names xs hnames

/-- The lines of the items of a directory. -/
def itemLines (env : Env) (dir : Directory) : List Bytes :=
  (items dir.stat (keptNames env dir)).map env.line

/-- What a run of `main` ends with: it fails before it writes anything, or
it is killed there because the names do not fit on the stack; it fails at a
name `stat` fails for, with some lines sent and the others lost; or it has
sent the whole menu. -/
inductive Ending (healthy : Prop) (stack : Stack) (env : Env) (dir : Directory) :
    ExitStatus → World → Prop
  | silent {w : World} (hw : w = started) (hhealthy : ¬ healthy) :
      Ending healthy stack env dir .failure w
  | killed {w : World} (hw : w = started) (hstack : ¬ stack.Fits (dir.entries.filter env.wants)) :
      Ending healthy stack env dir .killed w
  | failed {w : World} (hstack : stack.Fits (dir.entries.filter env.wants))
      (hstat : complete dir.stat (keptNames env dir) = false)
      (h : Menu (afterLines ([], headerLines env) (itemLines env dir)).1
        (afterLines ([], headerLines env) (itemLines env dir)).2 w) :
      Ending healthy stack env dir .failure w
  | finished {w : World} (hstack : stack.Fits (dir.entries.filter env.wants))
      (hstat : complete dir.stat (keptNames env dir) = true)
      (h : Menu (headerLines env ++ itemLines env dir ++
        footerTexts env (UInt32.ofNat (itemLines env dir).length)) [] w) :
      Ending healthy stack env dir .success w

/-- The lines of a menu fit: those of the header together, and each item
in the room that is kept free. -/
structure Fits (env : Env) (dir : Directory) : Prop where
  header : Roomy (headerLines env)
  items : ∀ line ∈ itemLines env dir, line.length < bufferLeftover

theorem writeMenu_triple {env : Env} {dir : Directory} {stack : Stack} (hfits : Fits env dir)
    (hstack : stack.Fits (dir.entries.filter env.wants)) :
    Triple (contract healthy) (fun w => w = started)
      (writeMenu env dir.stat (keptNames env dir)) (Ending healthy stack env dir) := by
  have hheader : (headerLines env).flatten.length < 65536 := by
    have := hfits.header
    simp only [Roomy, bufferLeftover] at this
    omega
  refine Triple.bind (R := fun _ => Menu [] []) (Triple.modify ?_) fun _ => ?_
  · rintro w rfl
    have hlaw := created_law bufferLength
    exact ⟨hlaw, fun _ => ⟨hlaw, rfl, rfl, rfl, by simp⟩⟩
  refine Triple.bind (writeHeader_triple hheader) fun _ => ?_
  refine Triple.bind (writeItems_triple _ 0 ([], headerLines env)
    (fun item hitem => hfits.items _ (List.mem_map_of_mem hitem)) hfits.header) fun r => ?_
  refine Triple.assume fun hr => ?_
  subst hr
  cases hstat : complete dir.stat (keptNames env dir) with
  | false => exact Triple.pure fun w h => .failed hstack hstat h.1
  | true =>
    simp only [if_true]
    intro w ans h hA
    refine Triple.bind (writeFooter_triple _ h.2) (fun _ => Triple.pure fun w' h' => ?_)
      w ans h.1 hA
    refine .finished hstack hstat ?_
    have happend := afterLines_append (itemLines env dir) ([], headerLines env)
    have hcount : (0 : UInt32) + UInt32.ofNat (items dir.stat (keptNames env dir)).length =
        UInt32.ofNat (itemLines env dir).length := by
      rw [itemLines, List.length_map, UInt32.zero_add]
    rw [hcount, ← itemLines, happend] at h'
    exact h'

/-- **The run of `gopherlist`.** -/
theorem main_triple (healthy : Prop) {stack : Stack} {environ : List Bytes} {dir : Directory}
    (hfits : Fits (Env.get environ) dir) :
    Triple (contract healthy) (fun w => w = started) (main stack environ dir)
      (Ending healthy stack (Env.get environ) dir) := by
  have hwaits : ∀ w, w = started → (contract healthy).waits w := by
    rintro w rfl _ p hp
    cases hp
  have hask : Triple (contract healthy) (fun w => w = started) systemCall
      (fun x w => w = started ∧ (healthy → x.memory = true ∧ x.opendir = none)) :=
    Triple.ask hwaits fun w x h hx => ⟨h, hx⟩
  refine Triple.bind hask fun x => Triple.ite (fun hmem => Triple.pure fun w h => ?_) fun _ => ?_
  · refine .silent h.1 fun hh => ?_
    rw [(h.2 hh).1] at hmem
    cases hmem
  refine Triple.bind (hask.pre fun w h => h.1) fun x =>
    Triple.ite (fun hdir => Triple.pure fun w h => ?_) fun _ => ?_
  · refine .silent h.1 fun hh => ?_
    rw [(h.2 hh).2] at hdir
    cases hdir
  refine Triple.bind ((readNames_triple hwaits (fun x hx hh => (hx hh).1) dir.entries _ _
    (FileNames.initial_collected stack)).pre fun w h => h.1) fun r w ans h hA => ?_
  obtain ⟨hw, hcollecting⟩ := h
  cases hcollecting with
  | ok hnames =>
    simp only [hnames.first]
    exact writeMenu_triple hfits hnames.fits w ans hw hA
  | failure hh => exact ⟨.silent hw hh, hA⟩
  | killed hstack => exact ⟨.killed hw hstack, hA⟩

end Sgopher.Gopherlist
