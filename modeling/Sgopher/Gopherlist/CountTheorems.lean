/-
Sgopher.Gopherlist.CountTheorems — the list of file names, and the count
at the end of a menu.

The `readdir` loop makes its list larger behind the store that fills it,
so `FileNames.Collected` has room for one more name wherever the loop comes
to an entry. The copies of the names are on the stack, and the loop gets
just as far as there is room for them (`readNames_collects`). The number
that a menu gives is kept by the loop over the sorted names, in an
`unsigned int`. `names_counted_iff` says when there is a menu and its
number is that of its lines. Half a million files are too many for the
usual stack, and a directory with 2^32 files, where they are not, is said
to have none.

What is pushed does not depend on what `write` and `poll` answer, so there
is nothing to assume of them (`main_texts`).

No `sorry`, no `axiom`, no `native_decide`.
-/
import Sgopher.Lib.Total
import Sgopher.Gopherlist.CompleteTheorems
import Sgopher.Gopherlist.ServableTheorems
import Sgopher.Gopherlist.StreamTheorems

namespace Sgopher.Gopherlist

open Sgopher.Lib

variable {healthy : Prop} {stack : Stack} {env : Env} {dir : Directory} {w : World}
  {ts : List Bytes} {t : Bytes}

/-! ## The list of names -/

/-- Any answers; no fault. -/
def anyAnswers : Contract Answer World where
  answers := fun _ => True
  waits := fun _ => True

/-- The loop over the rest of a stream, if it is not over. -/
def goOn (env : Env) (after : List Name) :
    Except ExitStatus FileNames → Program (Except ExitStatus FileNames)
  | .ok names => readNames env after names
  | .error status => pure (.error status)

/-- In every run of the `readdir` loop over a stream no store is outside of
the list; and behind every part of the stream, from where the loop goes on
with the rest, the list holds the names that have passed the filter, in the
order of the stream, with room for one more, and their copies are on the
stack. It is killed in a part only if there is no room for these. -/
structure Collects (stack : Stack) (env : Env) (entries : List Name) : Prop where
  stores : ∀ w ans, readNames env entries (.initial stack) w ans ≠ .fault
  parts : ∀ before after, before ++ after = entries → readNames env entries (.initial stack) =
    readNames env before (.initial stack) >>= goOn env after
  names : ∀ before, before <+: entries → ∀ w ans names w' rest,
    readNames env before (.initial stack) w ans = .done (.ok names) w' rest →
      names.Collected stack (before.filter env.wants)
  killed : ∀ before, before <+: entries → ∀ w ans w' rest,
    readNames env before (.initial stack) w ans = .done (.error .killed) w' rest →
      ¬ stack.Fits (before.filter env.wants)

theorem readNames_any (stack : Stack) (env : Env) (entries : List Name) :
    Triple anyAnswers (fun _ => True) (readNames env entries (.initial stack))
      (fun r _ => Collecting False stack (entries.filter env.wants) r) := by
  have hmemory : ∀ x, anyAnswers.answers x → False → x.memory = true := fun _ _ => False.elim
  exact (readNames_triple (fun _ _ => trivial) hmemory entries _ _
    (FileNames.initial_collected stack)).post fun r w h => h.2

/-- The loop over a stream is the loop over a part of it, and over the
rest. -/
theorem readNames_append (env : Env) (after : List Name) : ∀ (before : List Name)
    (names : FileNames), readNames env (before ++ after) names =
      readNames env before names >>= goOn env after
  | [], _ => rfl
  | entry :: rest, names => by
    rw [List.cons_append, readNames, readNames]
    split
    · cases names.stack.strdupa entry with
      | none => rfl
      | some stack =>
        cases names.filenames.store names.count entry with
        | none => rfl
        | some filenames =>
          dsimp only
          split
          · rw [Prog.bind_assoc]
            refine congrArg (systemCall >>= ·) (funext fun x => ?_)
            split
            · exact readNames_append env after rest _
            · rfl
          · exact readNames_append env after rest _
    · exact readNames_append env after rest names

/-- **The list grows in time**, and as far as the stack allows. -/
theorem readNames_collects (stack : Stack) (env : Env) (entries : List Name) :
    Collects stack env entries where
  stores _ _ := (readNames_any stack env entries).not_fault trivial (fun _ _ => trivial) id
  parts before after h := h ▸ readNames_append env after before (.initial stack)
  names before _ _ _ names _ _ hrun := by
    have h := ((readNames_any stack env before).done trivial (fun _ _ => trivial) hrun).1
    cases h with
    | ok h => exact h
  killed before _ _ _ _ _ hrun := by
    have h := ((readNames_any stack env before).done trivial (fun _ _ => trivial) hrun).1
    cases h with
    | killed h => exact h

/-! ## What is pushed -/

/-- The texts that were pushed, whether there was room for them or not. -/
def Texts (ts : List Bytes) (w : World) : Prop := w.pushes.map Prod.fst = ts.map .text

/-- Any faults, and any answers about the descriptor; where `healthy`
holds there is memory and the directory can be opened. -/
def anyRun (healthy : Prop) : Contract Answer World where
  answers := (contract healthy).answers
  waits := fun _ => True
  mayFault := True

theorem sbufferPush_texts :
    Triple (anyRun healthy) (Texts ts) (sbufferPush (.text t)) (fun _ => Texts (ts ++ [t])) := by
  refine Triple.step_map trivial fun w p h _ => ?_
  show (w.pushes ++ [(Formatted.text t, p.2)]).map Prod.fst = _
  rw [List.map_append, h, List.map_append]
  rfl

theorem getSbuffer_texts : Triple (anyRun healthy) (Texts ts) getSbuffer (fun _ => Texts ts) :=
  Triple.bind (R := fun _ => Texts ts) (Triple.get.post fun _ _ h => h.1) fun _ =>
    Triple.pure fun _ h => h

theorem flushTurn_texts : Triple (anyRun healthy) (Texts ts) flushTurn (fun _ => Texts ts) := by
  have hask : Triple (anyRun healthy) (Texts ts) systemCall (fun _ => Texts ts) :=
    Triple.ask (fun _ _ => trivial) fun _ _ h _ => h
  refine Triple.bind getSbuffer_texts fun b => ?_
  refine Triple.ite (fun _ => Triple.bind hask fun x => ?_) fun _ =>
    Triple.bind (R := fun _ => Texts ts) (Triple.modify fun _ h => h) fun _ =>
      Triple.pure fun _ h => h
  cases x.write with
  | error e =>
    refine Triple.ite (fun _ => Triple.bind hask fun y => ?_) fun _ => Triple.pure fun _ h => h
    cases y.poll with
    | error e => exact Triple.pure fun _ h => h
    | ok ready => cases ready <;> exact Triple.pure fun _ h => h
  | ok n =>
    refine Triple.bind (R := fun _ => Texts ts) ?_ fun _ => Triple.pure fun _ h => h
    refine Triple.step_partial trivial fun w w' _ h hw => ?_
    split at hw
    · cases hw
      exact h
    · cases hw

theorem sbufferFlush_texts :
    Triple (anyRun healthy) (Texts ts) sbufferFlush (fun _ => Texts ts) := by
  refine Triple.bind (Triple.iterate (I := fun _ => Texts ts) (Q := fun _ => Texts ts)
    (fun _ _ _ => trivial) (fun _ => flushTurn_texts.post fun r w h => ?_) ()) fun r => ?_
  · cases r <;> exact h
  · exact Triple.bind (R := fun _ => Texts ts) (Triple.modify fun _ h => h) fun _ =>
      Triple.pure fun _ h => h

theorem sbufferCheckflush_texts (leftover : Nat) :
    Triple (anyRun healthy) (Texts ts) (sbufferCheckflush leftover) (fun _ => Texts ts) := by
  refine Triple.bind getSbuffer_texts fun b => ?_
  exact Triple.ite (fun _ => sbufferFlush_texts) fun _ => Triple.pure fun _ h => h

theorem pushAll_texts : ∀ (us : List Bytes) {ts : List Bytes},
    Triple (anyRun healthy) (Texts ts) (pushAll us) (fun _ => Texts (ts ++ us))
  | [], _ => Triple.pure fun w h => by rwa [List.append_nil]
  | u :: us, ts => by
    rw [List.append_cons]
    exact Triple.bind sbufferPush_texts fun _ => pushAll_texts us

theorem writeItems_texts {stat : Name → Option UInt32} :
    ∀ (filenames : List Name) (n : UInt32) (ts : List Bytes),
      Triple (anyRun healthy) (Texts ts) (writeItems env stat filenames n) (fun r w =>
        (r = none → complete stat filenames = false) ∧ ∀ m, r = some m →
          complete stat filenames = true ∧ m = n + UInt32.ofNat (items stat filenames).length ∧
            Texts (ts ++ (items stat filenames).map env.line) w)
  | [], n, ts => Triple.pure fun w h => ⟨nofun, fun m hm => by
      cases hm
      exact ⟨rfl, (UInt32.add_zero n).symm, by simpa [items] using h⟩⟩
  | filename :: rest, n, ts => by
    rw [writeItems]
    cases hstat : stat filename with
    | none =>
      exact Triple.pure fun w h => ⟨fun _ => by simp [complete, hstat], fun m hm => by cases hm⟩
    | some mode =>
      rw [complete_cons hstat]
      cases htype : itemType mode filename.bytes with
      | none =>
        rw [items_skip hstat htype]
        simp only [htype]
        exact writeItems_texts rest n ts
      | some type =>
        rw [items_cons hstat htype, List.length_cons, count_succ, List.map_cons, List.append_cons]
        simp only [htype]
        refine Triple.bind sbufferPush_texts fun _ => ?_
        refine Triple.bind (sbufferCheckflush_texts _) fun _ => ?_
        exact writeItems_texts rest (n + 1) _

theorem writeFooter_texts (env : Env) (n : UInt32) :
    Triple (anyRun healthy) (Texts ts) (writeFooter env n)
      (fun _ => Texts (ts ++ footerTexts env n)) := by
  rw [writeFooter_eq]
  refine Triple.bind (pushAll_texts _) fun _ => ?_
  exact Triple.bind sbufferFlush_texts fun _ => Triple.pure fun _ h => h

/-- The texts of a menu, in order. -/
def menuTexts (env : Env) (dir : Directory) : List Bytes :=
  headerLines env ++ itemLines env dir ++
    footerTexts env (UInt32.ofNat (itemLines env dir).length)

/-- How a run ends, and what was pushed if it ends well. -/
inductive Told (healthy : Prop) (stack : Stack) (env : Env) (dir : Directory) :
    ExitStatus → World → Prop
  | success {w : World} (hstack : stack.Fits (dir.entries.filter env.wants))
      (hcomplete : complete dir.stat (keptNames env dir) = true)
      (h : Texts (menuTexts env dir) w) : Told healthy stack env dir .success w
  | failure {w : World} (h : healthy → stack.Fits (dir.entries.filter env.wants) ∧
      complete dir.stat (keptNames env dir) = false) : Told healthy stack env dir .failure w
  | killed {w : World} (hstack : ¬ stack.Fits (dir.entries.filter env.wants)) :
      Told healthy stack env dir .killed w

theorem writeMenu_texts (hstack : stack.Fits (dir.entries.filter env.wants)) :
    Triple (anyRun healthy) (Texts []) (writeMenu env dir.stat (keptNames env dir))
      (Told healthy stack env dir) := by
  refine Triple.bind (R := fun _ => Texts []) (Triple.modify fun _ h => h) fun _ => ?_
  rw [writeHeader_eq]
  refine Triple.bind (pushAll_texts _) fun _ => ?_
  refine Triple.bind (writeItems_texts _ 0 _) fun r => ?_
  cases r with
  | none => exact Triple.pure fun _ h => .failure fun _ => ⟨hstack, h.1 rfl⟩
  | some n =>
    intro w ans h hA
    obtain ⟨hcomplete, rfl, htexts⟩ := h.2 n rfl
    refine Triple.bind (writeFooter_texts env _) (fun _ => Triple.pure fun w' h' =>
      .success hstack hcomplete ?_) w ans htexts hA
    have hlength : (items dir.stat (keptNames env dir)).length = (itemLines env dir).length :=
      (List.length_map _).symm
    rw [UInt32.zero_add, hlength, ← itemLines] at h'
    exact h'

/-- **What is pushed**, in a run that exits with success: the menu. -/
theorem main_texts (stack : Stack) (environ : List Bytes) (dir : Directory) :
    Triple (anyRun healthy) (fun w => w = started) (main stack environ dir)
      (Told healthy stack (Env.get environ) dir) := by
  have hask : Triple (anyRun healthy) (fun w => w = started) systemCall
      (fun x w => w = started ∧ (healthy → x.memory = true ∧ x.opendir = none)) :=
    Triple.ask (fun _ _ => trivial) fun _ _ h hx => ⟨h, hx⟩
  refine Triple.bind hask fun x => Triple.ite (fun hmem => Triple.pure fun w h => ?_) fun _ => ?_
  · refine .failure fun hh => ?_
    rw [(h.2 hh).1] at hmem
    cases hmem
  refine Triple.bind (hask.pre fun w h => h.1) fun x =>
    Triple.ite (fun hdir => Triple.pure fun w h => ?_) fun _ => ?_
  · refine .failure fun hh => ?_
    rw [(h.2 hh).2] at hdir
    cases hdir
  refine Triple.bind ((readNames_triple (fun _ _ => trivial) (fun x hx hh => (hx hh).1) dir.entries
    _ _ (FileNames.initial_collected stack)).pre fun w h => h.1) fun r w ans h hA => ?_
  obtain ⟨rfl, hcollecting⟩ := h
  cases hcollecting with
  | ok hnames =>
    simp only [hnames.first]
    exact (writeMenu_texts hnames.fits) started ans rfl hA
  | failure hh => exact ⟨.failure fun h => absurd h hh, hA⟩
  | killed hstack => exact ⟨.killed hstack, hA⟩

/-! ## Counting -/

/-- The text of a push. -/
def Formatted.text? : Formatted → Option Bytes
  | .text t => some t
  | .error _ _ => none

open Classical in
/-- The lines of items that were pushed. -/
noncomputable def pushedItems (env : Env) (w : World) : List Bytes :=
  (w.pushes.filterMap fun p => p.1.text?).filter fun t => ∃ f, IsItemLine env f t

/-- The line of an item is one. -/
theorem isItemLine_of_mem (h : t ∈ itemLines env dir) : ∃ f, IsItemLine env f t := by
  obtain ⟨item, hitem, rfl⟩ := List.mem_map.mp h
  obtain ⟨mode, -, htype⟩ := itemType_of_mem_items hitem
  exact ⟨item.2, mode, item.1, htype, rfl⟩

theorem Texts.filterMap (h : Texts ts w) : (w.pushes.filterMap fun p => p.1.text?) = ts := by
  have hmap : (w.pushes.map Prod.fst).filterMap Formatted.text? = ts := by
    rw [h, List.filterMap_map]
    exact List.filterMap_some
  rwa [List.filterMap_map] at hmap

open Classical in
/-- The lines of the items of a menu are the lines of items. -/
theorem Texts.pushedItems (h : Texts (menuTexts env dir) w) :
    pushedItems env w = itemLines env dir := by
  have hheader : (headerLines env).filter (fun t => ∃ f, IsItemLine env f t) = [] :=
    List.filter_eq_nil_iff.mpr fun t ht => by
      simpa using fun f hf => isItemLine_header hf ht
  have hfooter : ∀ n, (footerTexts env n).filter (fun t => ∃ f, IsItemLine env f t) = [] :=
    fun n => List.filter_eq_nil_iff.mpr fun t ht => by
      simpa using fun f hf => isItemLine_footer hf n ht
  have hitems : (itemLines env dir).filter (fun t => ∃ f, IsItemLine env f t)
      = itemLines env dir :=
    List.filter_eq_self.mpr fun t ht => decide_eq_true (isItemLine_of_mem ht)
  rw [Gopherlist.pushedItems, h.filterMap, menuTexts, List.filter_append, List.filter_append,
    hheader, hfooter, hitems, List.append_nil, List.nil_append]

/-- A menu says how many files it has just if there is a query, and then
that is the number of the lines. -/
def Counted (env : Env) (w : World) : Prop :=
  ∀ n : UInt32, .text (foundLines n) ∈ w.pushes.map Prod.fst ↔
    0 < env.queryBytes.length ∧ n.toNat = (pushedItems env w).length

theorem foundLines_inj {m n : UInt32} (h : foundLines m = foundLines n) : m = n := by
  simp only [foundLines, List.append_cancel_right_eq, List.append_cancel_left_eq] at h
  exact UInt32.toNat_inj.mp (decimal_inj h)

/-- No other line of a menu says how many files there are. -/
theorem foundLines_mem {m : UInt32} : foundLines m ∈ menuTexts env dir ↔
    0 < env.queryBytes.length ∧ m = UInt32.ofNat (itemLines env dir).length := by
  have hother : ∀ (u : Bytes) (b : UInt8), u[1]? = some b → b ≠ 13 → foundLines m ≠ u := by
    rintro u b hu hb rfl
    exact hb (Option.some.inj hu).symm
  have hblank : foundLines m ≠ blankLine := fun h => by
    have hfourth := congrArg (fun u : Bytes => u[3]?) h
    cases hfourth
  have hheader : foundLines m ∉ headerLines env := by
    intro h
    simp only [headerLines, List.mem_append, List.mem_map, List.mem_singleton] at h
    rcases h with ((h | h) | h) | ⟨slash, -, h⟩
    · exact hother env.titleLine 68 rfl (by decide) h
    · split at h
      · exact hother env.queryLine 83 rfl (by decide) (List.mem_singleton.mp h)
      · cases h
    · exact hblank h
    · exact hother (env.parentLine slash) 80 rfl (by decide) h.symm
  have hitems : foundLines m ∉ itemLines env dir := by
    intro h
    obtain ⟨f, mode, type, htype, hline⟩ := isItemLine_of_mem h
    exact (itemType_ne htype).1 (Option.some.inj (congrArg List.head? hline)).symm
  have hlast : foundLines m ≠ lastLine := fun h => by
    cases congrArg List.head? h
  rw [menuTexts, List.mem_append, List.mem_append, footerTexts, List.mem_append,
    List.mem_singleton]
  by_cases hq : 0 < env.queryBytes.length
  · rw [if_pos hq, List.mem_singleton]
    simp only [hheader, hitems, hlast, hq, false_or, or_false, true_and]
    exact ⟨foundLines_inj, congrArg foundLines⟩
  · rw [if_neg hq]
    simp [hheader, hitems, hlast, hq]

/-- When the number is right. -/
theorem Texts.counted_iff (h : Texts (menuTexts env dir) w) :
    Counted env w ↔ env.queryBytes = [] ∨ (itemLines env dir).length < 2 ^ 32 := by
  have hpushed : ∀ n, Formatted.text (foundLines n) ∈ w.pushes.map Prod.fst ↔
      0 < env.queryBytes.length ∧ n = UInt32.ofNat (itemLines env dir).length := fun n => by
    rw [h, List.mem_map_of_injective fun _ _ => Formatted.text.inj]
    exact foundLines_mem
  have hquery : env.queryBytes = [] ↔ ¬ 0 < env.queryBytes.length := by
    rw [List.length_pos_iff, not_not]
  rw [Counted, h.pushedItems, hquery, ← imp_iff_not_or]
  simp only [hpushed]
  constructor
  · intro hcount hq
    rw [← ((hcount (UInt32.ofNat _)).mp ⟨hq, rfl⟩).2]
    exact UInt32.toNat_lt _
  · intro hlt n
    refine and_congr_right fun hq => ⟨?_, fun hn => ?_⟩
    · rintro rfl
      rw [UInt32.toNat_ofNat', Nat.mod_eq_of_lt (hlt hq)]
    · rw [← hn, UInt32.ofNat_toNat]

/-! ## The number of the lines -/

/-- The lines are the items of the regular files and directories among the
names that passed the filter. -/
theorem itemLines_length (h : complete dir.stat (keptNames env dir) = true) :
    (itemLines env dir).length = (listable env dir).length := by
  rw [itemLines, List.length_map, items_complete h, listable]

/-- When a run that ends well has counted right. -/
theorem Texts.counted_iff_listable (h : Texts (menuTexts env dir) w)
    (hcomplete : complete dir.stat (keptNames env dir) = true) :
    Counted env w ↔ env.queryBytes = [] ∨ (listable env dir).length < 2 ^ 32 := by
  rw [h.counted_iff, itemLines_length hcomplete]

/-- **The names, and their number.** The list is grown in time in every run
over every stream, and the loop gets as far as the stack allows. Where
there is memory and every `stat` succeeds, there is a menu and a query is
told the number of its lines if and only if the names that passed the
filter fit on the stack and there are fewer than 2^32 files to list. The
lines are those that the loop over the names pushes; they are all emitted
where they fit and no flush fails. -/
theorem names_counted_iff (stack : Stack) (environ : List Bytes) (dir : Directory) :
    Collects stack (Env.get environ) dir.entries ∧
    ∀ ans code w rest, main stack environ dir started ans = .done code w rest →
      ((∀ x ∈ ans, x.memory = true ∧ x.opendir = none) →
        (∀ f ∈ dir.entries, (Env.get environ).wants f = true → (dir.stat f).isSome = true) →
        (code = .success ∧ Counted (Env.get environ) w ↔
          stack.Fits (dir.entries.filter (Env.get environ).wants) ∧
            ((Env.get environ).queryBytes = [] ∨
              (listable (Env.get environ) dir).length < 2 ^ 32))) ∧
      (code = .success →
        (Counted (Env.get environ) w ↔ (Env.get environ).queryBytes = [] ∨
          (listable (Env.get environ) dir).length < 2 ^ 32) ∧
        (ShortEnviron environ → (∀ f ∈ dir.entries, f.bytes.length ≤ 255) → Unbroken w →
          ∀ t ∈ pushedItems (Env.get environ) w, Emitted w t)) := by
  refine ⟨readNames_collects _ _ _, fun ans code w rest hrun => ⟨fun hans hstat => ?_, ?_⟩⟩
  · have htexts : Triple (anyRun True) _ _ _ := main_texts stack environ dir
    cases (htexts.done rfl (fun x hx _ => hans x hx) hrun).1 with
    | success hstack hcomplete h =>
      rw [h.counted_iff_listable hcomplete]
      exact ⟨fun h => ⟨hstack, h.2⟩, fun h => ⟨rfl, h.2⟩⟩
    | failure h =>
      have := (h trivial).2
      rw [complete_iff.mpr hstat] at this
      cases this
    | killed hstack => exact iff_of_false (fun h => by cases h.1) fun h => hstack h.1
  · rintro rfl
    have htexts : Triple (anyRun False) _ _ _ := main_texts stack environ dir
    cases (htexts.done rfl (fun _ _ => False.elim) hrun).1 with
    | success hstack hcomplete h =>
      refine ⟨h.counted_iff_listable hcomplete, fun henviron hnames hunbroken t ht => ?_⟩
      rw [h.pushedItems] at ht
      have hend := ((main_triple False (henviron.short.fits hnames)).done rfl
        (fun _ _ => False.elim) hrun).1
      cases hend with
      | finished _ hstat h =>
        refine (h.filled hunbroken).emitted_iff.mpr ?_
        simp [ht]

/-! ## A run that returns -/

/-- There is memory, the directory can be opened, and a `write` takes the
whole buffer. -/
def obliging : Answer := { write := .ok 65536 }

/-- So many obliging answers at least. -/
def Answered (n : Nat) (ans : List Answer) : Prop := ∃ k, n ≤ k ∧ ans = List.replicate k obliging

/-- A write buffer, and so many obliging answers. -/
def Ample (n : Nat) (w : World) (ans : List Answer) : Prop := Law bufferLength w ∧ Answered n ans

variable {n : Nat}

theorem Answered.cons {ans : List Answer} (h : Answered (n + 1) ans) :
    ∃ rest, ans = obliging :: rest ∧ Answered n rest := by
  obtain ⟨k, hk, rfl⟩ := h
  cases k with
  | zero => exact absurd hk (Nat.not_succ_le_zero n)
  | succ k => exact ⟨List.replicate k obliging, rfl, k, Nat.le_of_succ_le_succ hk, rfl⟩

theorem Answered.mono {m : Nat} {ans : List Answer} (h : Answered m ans) (hn : n ≤ m) :
    Answered n ans := by
  obtain ⟨k, hk, rfl⟩ := h
  exact ⟨k, hn.trans hk, rfl⟩

theorem Answered.less {ans : List Answer} (h : Answered (n + 1) ans) : Answered n ans :=
  h.mono (Nat.le_succ n)

theorem Answered.memory {ans : List Answer} (h : Answered n ans) :
    ∀ x ∈ ans, x.memory = true ∧ x.opendir = none := by
  obtain ⟨k, -, rfl⟩ := h
  intro x hx
  rw [List.eq_of_mem_replicate hx]
  exact ⟨rfl, rfl⟩

theorem sbufferPush_total (f : Formatted) :
    Total (Ample n) (sbufferPush f) (fun _ => Ample n) := by
  rintro w ans ⟨h, hans⟩
  obtain ⟨r, w', hrun, hw'⟩ := h.sbufferPush_run f ans
  exact ⟨r, w', ans, hrun, Nat.le_refl _, hw'.law, hans⟩

/-- One `write` at most. -/
theorem sbufferFlush_total : Total (Ample (n + 1)) sbufferFlush (fun _ => Ample n) := by
  rintro w ans ⟨h, hans⟩
  by_cases h0 : 0 < w.sbuffer.unwritten
  · obtain ⟨rest, rfl, hrest⟩ := hans.cons
    have hunwritten : w.sbuffer.unwritten ≤ 65536 := by
      have hpos := h.pos_le
      rw [bufferLength_toNat] at hpos
      rw [h.unwritten_eq]
      omega
    obtain ⟨w', hrun, hw'⟩ := h.sbufferFlush_once h0 hunwritten rest
    exact ⟨_, w', rest, hrun, Nat.le_succ _, hw'.law, hrest⟩
  · obtain ⟨w', hrun, hw'⟩ := h.sbufferFlush_empty h0 ans
    exact ⟨_, w', ans, hrun, Nat.le_refl _, hw'.law, hans.less⟩

theorem sbufferCheckflush_total (leftover : Nat) :
    Total (Ample (n + 1)) (sbufferCheckflush leftover) (fun _ => Ample n) := by
  refine Total.bind (R := fun _ => Ample (n + 1))
    (Total.bind Total.get fun _ => Total.pure fun _ _ h => h.1) fun b => ?_
  exact Total.ite (fun _ => sbufferFlush_total) fun _ => Total.pure fun _ _ h => ⟨h.1, h.2.less⟩

/-- One call of `reallocarray` at most for a name. -/
theorem readNames_total : ∀ (entries : List Name) (names : FileNames) (xs : List Name),
    names.Collected stack xs →
      Total (fun w ans => w = started ∧ Answered (entries.length + n) ans)
        (readNames env entries names) (fun r w ans =>
          Collecting True stack (xs ++ entries.filter env.wants) r ∧ w = started ∧ Answered n ans)
  | [], names, xs, hnames => Total.pure fun w ans h => by
    rw [List.length_nil, Nat.zero_add] at h
    exact ⟨.ok (by simpa using hnames), h⟩
  | entry :: rest, names, xs, hnames => by
    rw [readNames, List.length_cons, Nat.add_right_comm]
    by_cases hwants : env.wants entry = true
    · have hfilter : xs ++ (entry :: rest).filter env.wants =
          xs ++ [entry] ++ rest.filter env.wants := by simp [hwants]
      rw [if_pos hwants, hfilter]
      cases hcopy : names.stack.strdupa entry with
      | none =>
        refine Total.pure fun w ans h => ⟨.killed ?_, h.1, h.2.mono (by omega)⟩
        rw [List.append_assoc, List.singleton_append]
        exact hnames.not_fits hcopy _
      | some stack' =>
        obtain ⟨filenames, hstore, hdoubled, hkept⟩ := hnames.stored hcopy
        simp only [hstore]
        refine Total.ite (fun _ => ?_) fun hfull => ?_
        · refine Total.bind (R := fun x w ans => x = obliging ∧ w = started ∧
            Answered (rest.length + n) ans) (Total.ask fun w ans h => ?_) fun x => ?_
          · obtain ⟨left, rfl, hleft⟩ := h.2.cons
            exact ⟨obliging, left, rfl, rfl, h.1, hleft⟩
          · refine Total.assume fun hx => ?_
            subst hx
            exact readNames_total rest _ _ hdoubled
        · exact (readNames_total rest _ _ (hkept hfull)).pre fun w ans h => ⟨h.1, h.2.less⟩
    · rw [if_neg hwants, List.filter_cons_of_neg hwants]
      exact (readNames_total rest names xs hnames).pre fun w ans h => ⟨h.1, h.2.less⟩

theorem pushAll_total : ∀ ts : List Bytes, Total (Ample n) (pushAll ts) (fun _ => Ample n)
  | [] => Total.pure fun _ _ h => h
  | _ :: ts => Total.bind (sbufferPush_total _) fun _ => pushAll_total ts

/-- One `write` at most for an item. -/
theorem writeItems_total {stat : Name → Option UInt32} : ∀ (filenames : List Name) (m : UInt32),
    complete stat filenames = true →
      Total (Ample (filenames.length + n)) (writeItems env stat filenames m)
        (fun r w ans => (∃ m', r = some m') ∧ Ample n w ans)
  | [], m, _ => Total.pure fun w ans h => by
    rw [List.length_nil, Nat.zero_add] at h
    exact ⟨⟨m, rfl⟩, h⟩
  | filename :: rest, m, hcomplete => by
    have hboth := hcomplete
    rw [complete, List.all_cons, Bool.and_eq_true] at hboth
    obtain ⟨mode, hstat⟩ := Option.isSome_iff_exists.mp hboth.1
    rw [writeItems, List.length_cons, Nat.add_right_comm]
    simp only [hstat]
    cases itemType mode filename.bytes with
    | none => exact (writeItems_total rest m hboth.2).pre fun w ans h => ⟨h.1, h.2.less⟩
    | some type =>
      refine Total.bind (sbufferPush_total _) fun _ => ?_
      refine Total.bind (sbufferCheckflush_total _) fun _ => ?_
      exact writeItems_total rest (m + 1) hboth.2

theorem writeFooter_total (env : Env) (m : UInt32) :
    Total (Ample (n + 1)) (writeFooter env m) (fun _ => Ample n) := by
  rw [writeFooter_eq]
  refine Total.bind (pushAll_total _) fun _ => ?_
  exact Total.bind sbufferFlush_total fun _ => Total.pure fun _ _ h => h

theorem writeMenu_total (env : Env) {stat : Name → Option UInt32} {filenames : List Name}
    (hcomplete : complete stat filenames = true) :
    Total (fun w ans => w = started ∧ Answered (filenames.length + 1) ans)
      (writeMenu env stat filenames) (fun code _ _ => code = .success) := by
  refine Total.bind (R := fun _ => Ample (filenames.length + 1)) (Total.modify ?_) fun _ => ?_
  · rintro w ans ⟨rfl, hans⟩
    exact ⟨created_law bufferLength, hans⟩
  rw [writeHeader_eq]
  refine Total.bind (pushAll_total _) fun _ => ?_
  refine Total.bind (writeItems_total filenames 0 hcomplete) fun r => ?_
  rintro w ans ⟨⟨m, rfl⟩, h⟩
  exact Total.bind (writeFooter_total (n := 0) env m) (fun _ => Total.pure fun _ _ _ => rfl) w ans h

/-- Where all goes well the program ends: a call for the list, one for the
directory, and two at most for each of its entries. -/
theorem main_total (stack : Stack) (environ : List Bytes) {dir : Directory}
    (hstat : ∀ f ∈ dir.entries, (dir.stat f).isSome = true) :
    Total (fun w ans => w = started ∧ Answered (2 * dir.entries.length + 3) ans)
      (main stack environ dir) (fun _ _ _ => True) := by
  have hask : ∀ m, Total (fun w ans => w = started ∧ Answered (m + 1) ans) systemCall
      (fun x w ans => x = obliging ∧ w = started ∧ Answered m ans) := fun m =>
    Total.ask fun w ans h => by
      obtain ⟨rest, rfl, hrest⟩ := h.2.cons
      exact ⟨obliging, rest, rfl, rfl, h.1, hrest⟩
  have hcomplete : complete dir.stat (keptNames (Env.get environ) dir) = true :=
    List.all_eq_true.mpr fun f hf => hstat f (mem_keptNames.mp hf).1
  have hlength : (keptNames (Env.get environ) dir).length ≤ dir.entries.length := by
    rw [keptNames, sortNames, List.length_insertionSort]
    exact List.length_filter_le _ _
  refine Total.bind (hask _) fun x => Total.assume fun hx => ?_
  subst hx
  refine Total.bind (hask _) fun x => Total.assume fun hx => ?_
  subst hx
  refine Total.bind ((readNames_total (n := dir.entries.length + 1) dir.entries _ _
    (FileNames.initial_collected stack)).pre fun w ans h => ?_) fun r => ?_
  · refine ⟨h.1, ?_⟩
    have hsum : dir.entries.length + (dir.entries.length + 1) = 2 * dir.entries.length + 1 := by
      omega
    rw [hsum]
    exact h.2
  rintro w ans ⟨hcollecting, rfl, hans⟩
  cases hcollecting with
  | ok hnames =>
    simp only [hnames.first]
    obtain ⟨code, w, rest, hrun, hrest, -⟩ := writeMenu_total (Env.get environ) hcomplete
      started ans ⟨rfl, hans.mono (Nat.succ_le_succ hlength)⟩
    exact ⟨code, w, rest, hrun, hrest, trivial⟩
  | failure h => exact absurd trivial h
  | killed h => exact ⟨_, started, ans, rfl, Nat.le_refl _, trivial⟩

/-! ## Small and large directories -/

/-- The environment of a program that was sent a query. -/
def queryEnviron : List Bytes :=
  [ascii "SCRIPT_NAME=/", ascii "QUERY_STRING=a", ascii "SERVER_NAME=h", ascii "SERVER_PORT=70",
    ascii "REMOTE_ADDR="]

/-- "a0", "a1", ... -/
def numberedName (k : Nat) : Name where
  bytes := 97 :: decimal k
  ne_nil := List.cons_ne_nil _ _
  no_nul h := by
    have hdigit := decimal_digit ((List.mem_cons.mp h).resolve_left (by decide))
    exact absurd hdigit.1 (by decide)
  no_slash h := by
    have hdigit := decimal_digit ((List.mem_cons.mp h).resolve_left (by decide))
    exact absurd hdigit.1 (by decide)

theorem numberedName_inj : Function.Injective numberedName := fun _ _ h =>
  decimal_inj (List.cons.inj (congrArg Name.bytes h)).2

/-- So many files that everybody may read. -/
def crowd (n : Nat) : Directory where
  entries := (List.range n).map numberedName
  nodup := List.nodup_range.map numberedName_inj
  stat _ := some (S_IFREG ||| S_IROTH)

theorem queryEnviron_execve : Server.cgiChild smallParams 5 [] (ascii "./" ++ [0]) (ascii "a") {} =
    .execve .opened (ascii "index") [ascii "index"] queryEnviron := by decide +kernel

theorem queryEnviron_query : (Env.get queryEnviron).queryBytes = [97] := by decide

/-- They all pass the filter. -/
theorem crowd_wanted (n : Nat) :
    (crowd n).entries.filter (Env.get queryEnviron).wants = (crowd n).entries := by
  refine List.filter_eq_self.mpr fun f hf => ?_
  obtain ⟨k, -, rfl⟩ := List.mem_map.mp hf
  have hhidden : (97 : UInt8) ≠ DOT := by decide
  refine wants_iff.mpr ⟨fun h => hhidden (Option.some.inj h), fun _ => ?_⟩
  rw [queryEnviron_query]
  exact ⟨[], (decimal k).map tolower, rfl⟩

theorem crowd_complete (n : Nat) :
    complete (crowd n).stat (keptNames (Env.get queryEnviron) (crowd n)) = true :=
  complete_iff.mpr fun _ _ _ => rfl

/-- They are all found. -/
theorem crowd_listable (n : Nat) : (listable (Env.get queryEnviron) (crowd n)).length = n := by
  have hitem : itemOf (crowd n).stat = fun f => some (extensionType f.bytes, f) := rfl
  rw [listable, hitem, List.filterMap_eq_map', List.length_map, keptNames, sortNames,
    List.length_insertionSort, crowd_wanted]
  exact (List.length_map _).trans List.length_range

/-- What they take of the stack, from below and from above. -/
theorem crowd_copies (n : Nat) :
    16 * n ≤ usualStack.copies ((crowd n).entries.filter (Env.get queryEnviron).wants) ∧
      (n ≤ 10 ^ 10 →
        usualStack.copies ((crowd n).entries.filter (Env.get queryEnviron).wants) ≤ 32 * n) := by
  rw [crowd_wanted]
  have hsize : ∀ k, 16 ≤ usualStack.copySize (numberedName k) := fun k => by
    show 16 ≤ (_ + 23) / 16 * 16
    omega
  have hsize' : ∀ k, k < 10 ^ 10 → usualStack.copySize (numberedName k) ≤ 32 := fun k hk => by
    have hdigits : (decimal k).length ≤ 10 := decimal_length_le (by decide) hk
    show ((decimal k).length + 1 + 1 + 23) / 16 * 16 ≤ 32
    omega
  induction n with
  | zero => exact ⟨Nat.le_refl _, fun _ => Nat.le_refl _⟩
  | succ n ih =>
    have hsplit : usualStack.copies (crowd (n + 1)).entries =
        usualStack.copies (crowd n).entries + usualStack.copySize (numberedName n) := by
      simp [Stack.copies, Stack.copies_append, crowd, List.range_succ]
    rw [hsplit]
    have hn := hsize n
    exact ⟨by omega, fun hle => by have := hsize' n (by omega); have := ih.2 (by omega); omega⟩

/-- How much room there is does not matter for what copies take. -/
theorem copies_roomy (room : Nat) : ∀ filenames : List Name,
    Stack.copies ⟨room, stack.takes⟩ filenames = stack.copies filenames
  | [] => rfl
  | filename :: rest => congrArg (stack.copySize filename + ·) (copies_roomy room rest)

/-- There is a run over them that is given its memory. -/
theorem crowd_run (stack : Stack) (n : Nat) : ∃ ans code w rest,
    main stack queryEnviron (crowd n) started ans = .done code w rest ∧
      Told True stack (Env.get queryEnviron) (crowd n) code w := by
  have hans : Answered (2 * (crowd n).entries.length + 3)
      (List.replicate (2 * (crowd n).entries.length + 3) obliging) := ⟨_, Nat.le_refl _, rfl⟩
  obtain ⟨code, w, rest, hrun, -, -⟩ := main_total stack queryEnviron (fun _ _ => rfl)
    started _ ⟨rfl, hans⟩
  have htexts : Triple (anyRun True) _ _ _ := main_texts stack queryEnviron (crowd n)
  exact ⟨_, code, w, rest, hrun, (htexts.done rfl (fun x hx _ => hans.memory x hx) hrun).1⟩

/-- Half a million files are the end of the program on the usual stack,
and 2^32 files are not counted right on one they fit on. -/
theorem crowd_miscounted :
    (∃ ans w rest, main usualStack queryEnviron (crowd (2 ^ 19 + 1)) started ans =
      .done .killed w rest) ∧
    ∃ ans w rest, main ⟨2 ^ 37, usualStack.takes⟩ queryEnviron (crowd (2 ^ 32)) started ans =
      .done .success w rest ∧ ¬ Counted (Env.get queryEnviron) w := by
  constructor
  · obtain ⟨ans, code, w, rest, hrun, htold⟩ := crowd_run usualStack (2 ^ 19 + 1)
    have hunfit : ¬ usualStack.Fits
        ((crowd (2 ^ 19 + 1)).entries.filter (Env.get queryEnviron).wants) := by
      have := (crowd_copies (2 ^ 19 + 1)).1
      have hroom : usualStack.room = 8388608 := rfl
      unfold Stack.Fits
      omega
    cases htold with
    | success hstack => exact absurd hstack hunfit
    | failure h => exact absurd (h trivial).1 hunfit
    | killed => exact ⟨ans, w, rest, hrun⟩
  · obtain ⟨ans, code, w, rest, hrun, htold⟩ := crowd_run ⟨2 ^ 37, usualStack.takes⟩ (2 ^ 32)
    have hfit : Stack.Fits ⟨2 ^ 37, usualStack.takes⟩
        ((crowd (2 ^ 32)).entries.filter (Env.get queryEnviron).wants) := by
      have hcopies := (crowd_copies (2 ^ 32)).2 (by omega)
      rw [Stack.Fits, copies_roomy]
      exact hcopies.trans (by decide)
    have hcomplete := crowd_complete (2 ^ 32)
    cases htold with
    | killed h => exact absurd hfit h
    | failure h =>
      rw [(h trivial).2] at hcomplete
      cases hcomplete
    | success _ _ htexts =>
      refine ⟨ans, w, rest, hrun, ?_⟩
      rw [htexts.counted_iff_listable hcomplete, crowd_listable, queryEnviron_query]
      simp

theorem names_counted_small : ∃ w rest,
    main usualStack queryEnviron (smallDirectory (S_IFREG ||| S_IROTH)) started smallAnswers =
      .done .success w rest ∧ Counted (Env.get queryEnviron) w ∧
      ∀ t ∈ pushedItems (Env.get queryEnviron) w, Emitted w t := by
  have h : (main usualStack queryEnviron (smallDirectory (S_IFREG ||| S_IROTH)) started
      smallAnswers).Returns fun code w => code = .success ∧ Unbroken w := by decide +kernel
  obtain ⟨code, w, rest, hrun, rfl, hunbroken⟩ := h.state
  obtain ⟨hcounted, hemitted⟩ := ((names_counted_iff usualStack queryEnviron
    (smallDirectory (S_IFREG ||| S_IROTH))).2 smallAnswers .success w rest hrun).2 rfl
  exact ⟨w, rest, hrun, hcounted.mpr (Or.inr (by decide)),
    hemitted (cgiChild_short queryEnviron_execve) (by decide) hunbroken⟩

end Sgopher.Gopherlist
