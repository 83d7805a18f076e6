/-
Sgopher.Gopherlist.ServableTheorems — which entries of a directory are in
its menu.

The documentation promises that an entry is listed if and only if it can
be served: it is world-readable, and world-executable if it is a
directory. `main` looks at neither bit, and where `stat` fails for one
name it exits with whatever lines are still in its buffer.
`listing_servable` says which directories this does no harm to.

No `sorry`, no `axiom`, no `native_decide`.
-/
import Sgopher.Gopherlist.FitTheorems

namespace Sgopher.Gopherlist

open Sgopher.Lib

variable {w : World} {sent pending : List Bytes} {t : Bytes} {env : Env} {dir : Directory}
  {f g : Name} {item : UInt8 × Name}

/-! ## What is emitted -/

/-- A push whose whole text was written. -/
def Emitted (w : World) (t : Bytes) : Prop :=
  t ≠ [] ∧ ∃ before after, w.pushes = before ++ fitted t :: after ∧
    accepted (before ++ [fitted t]) <+: w.out

/-- A program that has pushed nothing has emitted nothing. -/
theorem started_silent : ¬ Emitted started t := by
  rintro ⟨-, before, after, hpushes, -⟩
  have hnil : ([] : List (Formatted × Pushed)) = before ++ fitted t :: after := hpushes
  simp at hnil

theorem Filled.emitted_iff (h : Filled sent pending w) : Emitted w t ↔ t ∈ sent := by
  constructor
  · rintro ⟨ht, before, after, hpushes, hout⟩
    rw [h.pushes] at hpushes
    obtain ⟨ts, us, hts, hbefore, hus⟩ := List.map_eq_append_iff.mp hpushes
    obtain ⟨u, us, rfl, he, -⟩ := List.map_eq_cons_iff.mp hus
    cases Formatted.text.inj (Prod.mk.inj he).1
    have hne : ∀ u ∈ ts ++ [t], u ≠ [] := fun u hu => h.texts u (by
      rw [hts]
      simp only [List.mem_append, List.mem_cons, List.not_mem_nil, or_false] at hu ⊢
      tauto)
    have hlist : before ++ [fitted t] = (ts ++ [t]).map fitted := by
      rw [List.map_append, hbefore]
      rfl
    rw [hlist, accepted_fitted hne, h.out] at hout
    -- the texts up to this one are no longer than those that were sent
    have hlen := hout.length_le
    rcases List.append_eq_append_iff.mp hts with ⟨vs, rfl, hvs⟩ | ⟨vs, rfl, hvs⟩
    · simp only [List.flatten_append, List.length_append, List.flatten_singleton] at hlen
      have := List.length_pos_iff.mpr ht
      omega
    · cases vs with
      | nil =>
        simp only [List.flatten_append, List.length_append, List.flatten_singleton,
          List.append_nil] at hlen
        have := List.length_pos_iff.mpr ht
        omega
      | cons v vs =>
        cases (List.cons.inj hvs).1
        simp
  · intro ht
    obtain ⟨a, b, rfl⟩ := List.append_of_mem ht
    refine ⟨h.texts t (by simp), a.map fitted, (b ++ pending).map fitted, ?_, ?_⟩
    · rw [h.pushes]
      simp
    · have hne : ∀ u ∈ a ++ [t], u ≠ [] := fun u hu => h.texts u (by
        simp only [List.mem_append, List.mem_cons, List.not_mem_nil, or_false] at hu ⊢
        tauto)
      have hlist : a.map fitted ++ [fitted t] = (a ++ [t]).map fitted := by simp
      rw [hlist, accepted_fitted hne, h.out]
      exact ⟨b.flatten, by simp⟩

/-! ## Lines of items -/

/-- The line of an item for a name, of any type a file of that name can
have. -/
def IsItemLine (env : Env) (f : Name) (t : Bytes) : Prop :=
  ∃ mode type, itemType mode f.bytes = some type ∧ t = env.line (type, f)

/-- The types an item can have: "0179Ighs". -/
def itemTypes : Bytes := [48, 49, 55, 57, 73, 103, 104, 115]

theorem itemType_mem {mode : UInt32} {filename : Bytes} {type : UInt8}
    (h : itemType mode filename = some type) : type ∈ itemTypes := by
  have htable : ∀ p ∈ extTable, p.2 ∈ itemTypes := by decide
  have hextension : extensionType filename ∈ itemTypes := by
    unfold extensionType
    split
    · decide
    · split
      · decide
      · rename_i found hfound
        exact htable _ (bsearch_some hfound).1
  unfold itemType at h
  split at h
  · split at h
    · cases h
      decide
    · cases h
      exact hextension
  · split at h
    · cases h
      decide
    · cases h

/-- No file has the type of a line that is only text, or of the last
line. -/
theorem itemType_ne {mode : UInt32} {filename : Bytes} {type : UInt8}
    (h : itemType mode filename = some type) : type ≠ 105 ∧ type ≠ 46 := by
  have hall : itemTypes.all (fun t => t != 105 && t != 46) = true := by decide
  simpa using List.all_eq_true.mp hall type (itemType_mem h)

theorem Name.ext' (h : f.bytes = g.bytes) : f = g := by
  cases f
  cases g
  cases h
  rfl

/-- The line tells the name. -/
theorem line_inj {item' : UInt8 × Name} (h : env.line item = env.line item') :
    item.2 = item'.2 := by
  have hlen := congrArg List.length h
  rw [line_length, line_length] at hlen
  simp only [Env.line, Env.itemLine, List.append_assoc, List.singleton_append] at h
  exact Name.ext' (List.append_inj (List.cons.inj h).2 (by omega)).1

/-- The selector of the parent directory ends with a slash. -/
theorem parentSlash_prefix {slash : Nat} (hslash : env.parentSlash = some slash) :
    ∃ a, env.selectorPrefix (slash + 1) = a ++ [SLASH] := by
  unfold Env.parentSlash at hslash
  split at hslash
  · rename_i selector last hselector _
    rcases strrchr_cases (selector.take last) SLASH with ⟨hnone, -⟩ | ⟨a, b, htake, -, hsome⟩
    · rw [memrchr, hnone] at hslash
      cases hslash
    · rw [memrchr, hsome] at hslash
      cases hslash
      have hselector' : selector = a ++ SLASH :: (b ++ selector.drop last) := by
        rw [← List.cons_append, ← List.append_assoc, ← htake, List.take_append_drop]
      refine ⟨a, ?_⟩
      rw [Env.selectorPrefix, hselector, Option.getD_some, hselector', List.append_cons]
      exact List.take_left' (by simp)
  · cases hslash

/-- A link to the parent directory ends its selector with a slash, and the
line of an item with a name. -/
theorem line_ne_parentLine {slash : Nat} (hslash : env.parentSlash = some slash) :
    env.line item ≠ env.parentLine slash := by
  intro h
  obtain ⟨a, ha⟩ := parentSlash_prefix hslash
  rw [Env.line, Env.itemLine, Env.parentLine, ha] at h
  simp only [List.append_cancel_right_eq] at h
  obtain ⟨name, last, hname⟩ := (List.eq_nil_or_concat item.2.bytes).resolve_left item.2.ne_nil
  have hlast := congrArg List.getLast? h
  rw [hname, List.concat_eq_append, ← List.append_assoc, List.getLast?_concat, ← List.append_assoc,
    List.getLast?_concat, Option.some.injEq] at hlast
  refine item.2.no_slash ?_
  rw [hname, ← hlast]
  simp

/-- No line of the header is that of an item, and none of the footer. -/
theorem isItemLine_header (h : IsItemLine env f t) : t ∉ headerLines env := by
  obtain ⟨mode, type, htype, rfl⟩ := h
  have hhead : ∀ u : Bytes, u.head? = some 105 → env.line (type, f) ≠ u := by
    rintro u hu rfl
    exact (itemType_ne htype).1 (Option.some.inj hu)
  intro hmem
  simp only [headerLines, List.mem_append, List.mem_map, List.mem_singleton] at hmem
  rcases hmem with ((hmem | hmem) | hmem) | ⟨slash, hslash, hmem⟩
  · exact hhead _ rfl hmem
  · split at hmem
    · exact hhead _ rfl (List.mem_singleton.mp hmem)
    · cases hmem
  · exact hhead _ rfl hmem
  · exact line_ne_parentLine (Option.mem_toList.mp hslash) hmem.symm

theorem isItemLine_footer (h : IsItemLine env f t) (n : UInt32) : t ∉ footerTexts env n := by
  obtain ⟨mode, type, htype, rfl⟩ := h
  intro hmem
  simp only [footerTexts, List.mem_append, List.mem_singleton] at hmem
  rcases hmem with hmem | hmem
  · split at hmem
    · exact (itemType_ne htype).1
        (Option.some.inj (congrArg List.head? (List.mem_singleton.mp hmem)))
    · cases hmem
  · exact (itemType_ne htype).2 (Option.some.inj (congrArg List.head? hmem))

/-! ## What ought to be listed -/

/-- The requirements on a file's mode. -/
structure Readable (mode : UInt32) : Prop where
  kind : isReg mode = true ∨ isDir mode = true
  readable : mode &&& S_IROTH ≠ 0
  searchable : isDir mode = true → mode &&& S_IXOTH ≠ 0

instance (mode : UInt32) : Decidable (Readable mode) :=
  decidable_of_iff ((isReg mode = true ∨ isDir mode = true) ∧ mode &&& S_IROTH ≠ 0 ∧
    (isDir mode = true → mode &&& S_IXOTH ≠ 0))
    ⟨fun h => ⟨h.1, h.2.1, h.2.2⟩, fun h => ⟨h.kind, h.readable, h.searchable⟩⟩

/-- The documented requirements on an entry. -/
structure Servable (env : Env) (dir : Directory) (f : Name) : Prop where
  entry : f ∈ dir.entries
  visible : f.bytes.head? ≠ some DOT
  contains : env.queryBytes ≠ [] → env.queryBytes.map tolower <:+: f.bytes.map tolower
  mode : ∃ mode, dir.stat f = some mode ∧ Readable mode

/-- Every line of an item that is emitted is for an entry that meets the
requirements, and every entry that meets them is listed. -/
structure ListsServable (env : Env) (dir : Directory) (w : World) : Prop where
  only : ∀ f t, IsItemLine env f t → Emitted w t → Servable env dir f
  all : ∀ f, Servable env dir f → ∃ t, IsItemLine env f t ∧ Emitted w t

theorem strcasestr_isSome {haystack needle : Bytes} (hn : needle ≠ []) :
    (strcasestr haystack needle).isSome = true ↔ needle.map tolower <:+: haystack.map tolower := by
  have hn' : needle.map tolower ≠ [] := by simpa using hn
  rw [strcasestr]
  cases hm : memmem (needle.map tolower) (haystack.map tolower) with
  | none =>
    have hnone := (memmem_eq_none_iff hn').mp hm
    simp only [Option.isSome_none, Bool.false_eq_true, false_iff]
    rintro ⟨a, b, hab⟩
    refine hnone a.length ⟨b, ?_⟩
    rw [← hab, List.append_assoc, List.drop_left]
  | some i =>
    obtain ⟨hpre, -⟩ := (memmem_eq_some_iff hn').mp hm
    simp only [Option.isSome_some, true_iff]
    exact hpre.isInfix.trans (List.drop_suffix i _).isInfix

/-- The filter on names is the documented one. -/
theorem wants_iff : env.wants f = true ↔ f.bytes.head? ≠ some DOT ∧
    (env.queryBytes ≠ [] → env.queryBytes.map tolower <:+: f.bytes.map tolower) := by
  rw [Env.wants, Bool.and_eq_true, Bool.or_eq_true]
  refine and_congr (by simp) ?_
  by_cases hq : env.queryBytes = []
  · simp [hq]
  · rw [strcasestr_isSome hq]
    simp [hq]

theorem servable_iff : Servable env dir f ↔
    f ∈ keptNames env dir ∧ ∃ mode, dir.stat f = some mode ∧ Readable mode := by
  rw [mem_keptNames, wants_iff]
  exact ⟨fun h => ⟨⟨h.entry, h.visible, h.contains⟩, h.mode⟩,
    fun ⟨⟨he, hv, hc⟩, hm⟩ => ⟨he, hv, hc, hm⟩⟩

/-- A file has a type if it is a regular file or a directory. -/
theorem itemType_isSome {mode : UInt32} {filename : Bytes} :
    (∃ type, itemType mode filename = some type) ↔ isReg mode = true ∨ isDir mode = true := by
  unfold itemType
  by_cases hreg : isReg mode = true
  · rw [if_pos hreg]
    refine ⟨fun _ => Or.inl hreg, fun _ => ?_⟩
    split <;> exact ⟨_, rfl⟩
  · rw [if_neg hreg]
    by_cases hdir : isDir mode = true
    · simp [hdir]
    · simp [hreg, hdir]

/-- The type of an item is that of its file. -/
theorem itemType_of_mem_items {stat : Name → Option UInt32} :
    ∀ {filenames : List Name}, item ∈ items stat filenames →
      ∃ mode, stat item.2 = some mode ∧ itemType mode item.2.bytes = some item.1
  | [], h => by cases h
  | filename :: rest, h => by
    rw [items] at h
    split at h
    · cases h
    · rename_i mode hstat
      split at h
      · exact itemType_of_mem_items h
      · rename_i type htype
        rcases List.mem_cons.mp h with rfl | h
        · exact ⟨mode, hstat, htype⟩
        · exact itemType_of_mem_items h

/-- Where `stat` fails for no name, every file that has a type is an item. -/
theorem mem_items_of_complete {stat : Name → Option UInt32} {mode : UInt32} {type : UInt8} :
    ∀ {filenames : List Name}, complete stat filenames = true → f ∈ filenames →
      stat f = some mode → itemType mode f.bytes = some type → (type, f) ∈ items stat filenames
  | [], _, hf, _, _ => by cases hf
  | filename :: rest, hcomplete, hf, hstat, htype => by
    rw [complete, List.all_cons, Bool.and_eq_true] at hcomplete
    obtain ⟨mode', hstat'⟩ := Option.isSome_iff_exists.mp hcomplete.1
    rw [items]
    simp only [hstat']
    rcases List.mem_cons.mp hf with rfl | hf
    · rw [hstat] at hstat'
      cases hstat'
      simp [htype]
    · have hrest := mem_items_of_complete hcomplete.2 hf hstat htype
      split
      · exact hrest
      · exact List.mem_cons_of_mem _ hrest

/-! ## What has left the buffer -/

/-- How many lines of the given lengths have left the buffer, if `used`
bytes were in it before: the last of them is the last one that left fewer
than 4096 of the 65536 bytes free. -/
def departed : Nat → List Nat → Nat
  | _, [] => 0
  | used, n :: ns =>
    if 65536 - (used + n) < bufferLeftover then departed 0 ns + 1
    else if departed (used + n) ns = 0 then 0 else departed (used + n) ns + 1

theorem afterLines_sent (lines : List Bytes) : ∀ s : List Bytes × List Bytes,
    (afterLines s lines).1 =
      if departed s.2.flatten.length (lines.map List.length) = 0 then s.1
      else s.1 ++ s.2 ++ lines.take (departed s.2.flatten.length (lines.map List.length)) := by
  induction lines with
  | nil => exact fun s => rfl
  | cons line lines ih =>
    intro s
    have hlen : (s.2 ++ [line]).flatten.length = s.2.flatten.length + line.length := by simp
    rw [afterLines, List.foldl_cons, ← afterLines, ih, List.map_cons, departed, checked, hlen]
    by_cases hfull : 65536 - (s.2.flatten.length + line.length) < bufferLeftover
    · simp only [if_pos hfull, List.flatten_nil, List.length_nil, Nat.add_one_ne_zero, if_false,
        List.take_succ_cons, List.append_nil]
      split
      · rename_i h0
        rw [h0, List.take_zero, List.append_assoc]
      · simp
    · simp only [if_neg hfull, hlen]
      split
      · rfl
      · simp

/-! ## When a menu lists what it should -/

/-- Where the names that pass the filter do not fit on the stack, no entry
meets the requirements. Where `stat` fails for none of these names, every
regular file and directory among them meets the requirements on its mode.
Where it fails for one, those that were listed before it and had left the
buffer by then are just the entries that meet the requirements. -/
def OnlyServable (stack : Stack) (env : Env) (dir : Directory) : Prop :=
  if ¬ stack.Fits (dir.entries.filter env.wants) then ∀ f, ¬ Servable env dir f
  else if complete dir.stat (keptNames env dir) then
    ∀ f ∈ keptNames env dir, ∀ mode, dir.stat f = some mode →
      isReg mode = true ∨ isDir mode = true → Readable mode
  else
    ∀ f, Servable env dir f ↔ f ∈ ((items dir.stat (keptNames env dir)).take
      (departed (headerLines env).flatten.length
        ((itemLines env dir).map List.length))).map Prod.snd

/-- The entries whose lines were emitted, against those that should be
listed. -/
theorem listsServable_iff {its : List (UInt8 × Name)}
    (htypes : ∀ item ∈ its, ∃ mode, itemType mode item.2.bytes = some item.1)
    (hsent : ∀ f t, IsItemLine env f t → (Emitted w t ↔ t ∈ its.map env.line)) :
    ListsServable env dir w ↔ ∀ f, Servable env dir f ↔ f ∈ its.map Prod.snd := by
  have hname : ∀ f t, IsItemLine env f t → Emitted w t → f ∈ its.map Prod.snd := by
    intro f t ht hemitted
    obtain ⟨item, hitem, hline⟩ := List.mem_map.mp ((hsent f t ht).mp hemitted)
    obtain ⟨mode, type, -, rfl⟩ := ht
    exact List.mem_map.mpr ⟨item, hitem, line_inj hline⟩
  have hline : ∀ f ∈ its.map Prod.snd, ∃ t, IsItemLine env f t ∧ Emitted w t := by
    intro f hf
    obtain ⟨item, hitem, rfl⟩ := List.mem_map.mp hf
    obtain ⟨mode, htype⟩ := htypes item hitem
    have ht : IsItemLine env item.2 (env.line item) := ⟨mode, item.1, htype, rfl⟩
    exact ⟨_, ht, (hsent _ _ ht).mpr (List.mem_map_of_mem hitem)⟩
  constructor
  · intro h f
    constructor
    · intro hf
      obtain ⟨t, ht, hemitted⟩ := h.all f hf
      exact hname f t ht hemitted
    · intro hf
      obtain ⟨t, ht, hemitted⟩ := hline f hf
      exact h.only f t ht hemitted
  · intro h
    exact ⟨fun f t ht hemitted => (h f).mpr (hname f t ht hemitted),
      fun f hf => hline f ((h f).mp hf)⟩

/-- Where `stat` fails for no name, the items are the regular files and
directories among the names. -/
theorem mem_listed (hcomplete : complete dir.stat (keptNames env dir) = true) :
    f ∈ (items dir.stat (keptNames env dir)).map Prod.snd ↔
      f ∈ keptNames env dir ∧ ∃ mode, dir.stat f = some mode ∧
        (isReg mode = true ∨ isDir mode = true) := by
  constructor
  · intro hf
    obtain ⟨item, hitem, rfl⟩ := List.mem_map.mp hf
    obtain ⟨mode, hstat, htype⟩ := itemType_of_mem_items hitem
    exact ⟨mem_of_mem_items hitem, mode, hstat, itemType_isSome.mp ⟨_, htype⟩⟩
  · rintro ⟨hf, mode, hstat, hkind⟩
    obtain ⟨type, htype⟩ : ∃ type, itemType mode f.bytes = some type := itemType_isSome.mpr hkind
    exact List.mem_map.mpr ⟨_, mem_items_of_complete hcomplete hf hstat htype, rfl⟩

/-- All of them are listed then, so the question is only whether they meet
the requirements. -/
theorem servable_iff_listed (hcomplete : complete dir.stat (keptNames env dir) = true) :
    (∀ f, Servable env dir f ↔ f ∈ (items dir.stat (keptNames env dir)).map Prod.snd) ↔
      ∀ f ∈ keptNames env dir, ∀ mode, dir.stat f = some mode →
        isReg mode = true ∨ isDir mode = true → Readable mode := by
  constructor
  · intro h f hf mode hstat hkind
    have hlisted := (mem_listed hcomplete).mpr ⟨hf, mode, hstat, hkind⟩
    obtain ⟨mode', hstat', hreadable⟩ := ((h f).mpr hlisted).mode
    rw [hstat] at hstat'
    cases hstat'
    exact hreadable
  · intro h f
    rw [servable_iff, mem_listed hcomplete]
    refine and_congr_right fun hf => exists_congr fun mode => and_congr_right fun hstat => ?_
    exact ⟨fun hreadable => hreadable.kind, h f hf mode hstat⟩

/-- **Which directories are listed as documented.** Of a run that was given
the memory it asked for and did not fail to write: every line of an item it
has written is for an entry that meets the requirements, and every entry
that meets them has such a line, if and only if the modes of the files are
as `OnlyServable` says. -/
theorem listing_servable {stack : Stack} {environ : List Bytes} {dir : Directory}
    {ans rest : List Answer} {code : ExitStatus} {w : World} (henviron : ShortEnviron environ)
    (hnames : ∀ f ∈ dir.entries, f.bytes.length ≤ 255)
    (hans : ∀ x ∈ ans, x.memory = true ∧ x.opendir = none)
    (hrun : main stack environ dir started ans = .done code w rest) (hunbroken : Unbroken w) :
    ListsServable (Env.get environ) dir w ↔ OnlyServable stack (Env.get environ) dir := by
  have hend := ((main_triple True (henviron.short.fits hnames)).done rfl
    (fun x hx _ => hans x hx) hrun).1
  cases hend with
  | silent hw hhealthy => exact absurd trivial hhealthy
  | killed hw hstack =>
    rw [OnlyServable, if_pos hstack]
    have hlists : ListsServable (Env.get environ) dir w ↔
        ∀ f, Servable (Env.get environ) dir f ↔ f ∈ ([] : List (UInt8 × Name)).map Prod.snd :=
      listsServable_iff (fun item hitem => by cases hitem) fun f t ht =>
        ⟨fun h => absurd (hw ▸ h) started_silent, fun h => by cases h⟩
    rw [hlists]
    exact forall_congr' fun f => iff_false_right List.not_mem_nil
  | finished hstack hstat h =>
    have hfilled := h.filled hunbroken
    rw [OnlyServable, if_neg (not_not_intro hstack), if_pos hstat, ← servable_iff_listed hstat]
    refine listsServable_iff (fun item hitem => ?_) fun f t ht => ?_
    · obtain ⟨mode, -, htype⟩ := itemType_of_mem_items hitem
      exact ⟨mode, htype⟩
    · rw [hfilled.emitted_iff, List.mem_append, List.mem_append]
      have hheader := isItemLine_header ht
      have hfooter := isItemLine_footer ht (UInt32.ofNat (itemLines (Env.get environ) dir).length)
      exact ⟨fun hmem => (hmem.resolve_right hfooter).resolve_left hheader,
        fun hmem => Or.inl (Or.inr hmem)⟩
  | failed hstack hstat h =>
    have hfilled := h.filled hunbroken
    rw [OnlyServable, if_neg (not_not_intro hstack), if_neg (by rw [hstat]; decide)]
    refine listsServable_iff (fun item hitem => ?_) fun f t ht => ?_
    · obtain ⟨mode, -, htype⟩ := itemType_of_mem_items (List.mem_of_mem_take hitem)
      exact ⟨mode, htype⟩
    · have hsent := afterLines_sent (itemLines (Env.get environ) dir)
        ([], headerLines (Env.get environ))
      have hheader := isItemLine_header ht
      rw [hfilled.emitted_iff, hsent, List.map_take]
      split
      · rename_i h0
        rw [h0, List.take_zero]
      · rw [List.nil_append, List.mem_append]
        exact ⟨fun hmem => hmem.resolve_left hheader, Or.inr⟩

/-- The menu of a directory whose file can be served. -/
theorem listing_servable_small :
    ∃ w rest, main usualStack smallEnviron (smallDirectory (S_IFREG ||| S_IROTH)) started
      smallAnswers = .done .success w rest ∧
      ListsServable (Env.get smallEnviron) (smallDirectory (S_IFREG ||| S_IROTH)) w := by
  have h : (main usualStack smallEnviron (smallDirectory (S_IFREG ||| S_IROTH)) started
      smallAnswers).Returns fun code w => code = .success ∧ Unbroken w := by decide +kernel
  obtain ⟨code, w, rest, hrun, rfl, hunbroken⟩ := h.state
  refine ⟨w, rest, hrun, (listing_servable (cgiChild_short smallEnviron_execve) (by decide)
    (by decide) hrun hunbroken).mpr ?_⟩
  have hcomplete : complete (smallDirectory (S_IFREG ||| S_IROTH)).stat
      (keptNames (Env.get smallEnviron) (smallDirectory (S_IFREG ||| S_IROTH))) = true := by
    decide +kernel
  have hstack : usualStack.Fits
      ((smallDirectory (S_IFREG ||| S_IROTH)).entries.filter (Env.get smallEnviron).wants) := by
    decide +kernel
  rw [OnlyServable, if_neg (not_not_intro hstack), if_pos hcomplete]
  intro f hf mode hmode hkind
  cases hmode
  decide

/-- A file that only its owner may read is listed. -/
theorem listing_unreadable :
    ∃ w rest, main usualStack smallEnviron (smallDirectory (S_IFREG ||| 0o600)) started
      smallAnswers = .done .success w rest ∧ Unbroken w ∧
      ¬ ListsServable (Env.get smallEnviron) (smallDirectory (S_IFREG ||| 0o600)) w := by
  have h : (main usualStack smallEnviron (smallDirectory (S_IFREG ||| 0o600)) started
      smallAnswers).Returns fun code w => code = .success ∧ Unbroken w ∧
        w.pushes = [fitted (ascii "iDirectory listing of h:70/\r\n"), fitted (ascii "i\r\n")] ++
          fitted ((Env.get smallEnviron).line (48, smallName)) :: [fitted (ascii ".\r\n")] ∧
        w.out = accepted w.pushes := by decide +kernel
  obtain ⟨code, w, rest, hrun, rfl, hunbroken, hpushes, hout⟩ := h.state
  refine ⟨w, rest, hrun, hunbroken, fun hlists => ?_⟩
  have hline : IsItemLine (Env.get smallEnviron) smallName
      ((Env.get smallEnviron).line (48, smallName)) :=
    ⟨S_IFREG ||| 0o600, 48, by decide +kernel, rfl⟩
  have hemitted : Emitted w ((Env.get smallEnviron).line (48, smallName)) := by
    refine ⟨by decide +kernel, _, _, hpushes, ?_⟩
    rw [hout, hpushes]
    decide +kernel
  obtain ⟨mode, hmode, hreadable⟩ := (hlists.only _ _ hline hemitted).mode
  cases hmode
  exact absurd hreadable.readable (by decide)

end Sgopher.Gopherlist
