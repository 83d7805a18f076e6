/-
Sgopher.Server.RequestTheorems — what the request parser accepts, and
which path it makes of it.

A selector is the list of its components, the non-empty pieces between
slashes. `normalise_spec` says that the loop terminates, refuses exactly
the selectors with a component that begins with a period, and otherwise
leaves "." followed by a slash and each component, with one NUL behind.
The loop is followed by induction on its fuel, with the rest of the
selector in place of `str_pos`.

The kernel reads the path only up to its first NUL, which a component may
contain. `confined_path` is about that string.

No `sorry`, no `axiom`, no `native_decide`.
-/
import Sgopher.Lib.Pieces
import Sgopher.Server.Request

namespace Sgopher.Server

open Sgopher.Lib

/-! ## Components -/

/-- The non-empty pieces of a selector between slashes. -/
def components (selector : Bytes) : List Bytes := pieces SLASH selector

/-- Begins with a period: "..", or the name of a hidden file. -/
def Hidden (component : Bytes) : Prop := component.head? = some DOT

instance (component : Bytes) : Decidable (Hidden component) := by
  unfold Hidden
  infer_instance

theorem Hidden.ne_nil {c : Bytes} (h : Hidden c) : c ≠ [] := by
  rintro rfl
  cases h

/-- The path a list of components stands for. -/
def relativePath (cs : List Bytes) : Bytes := DOT :: led SLASH cs

/-! ## The loop -/

/-- What the loop should end with for a rest of the selector, when `keep`
is written already. -/
def pathSpec (keep rest : Bytes) : PathResult :=
  if ∃ c ∈ components rest, Hidden c then .forbidden
  else .filename (keep ++ led SLASH (components rest) ++ [0])
    (keep ++ led SLASH (components rest)).length

theorem pathSpec_nil (keep : Bytes) : pathSpec keep [] = .filename (keep ++ [0]) keep.length := by
  simp [pathSpec, components]

/-- A turn that copies nothing. -/
theorem pathSpec_sep (keep b : Bytes) : pathSpec keep (SLASH :: b) = pathSpec keep b := by
  simp [pathSpec, components]

/-- A turn that copies a component. -/
theorem pathSpec_cons {keep a b : Bytes} (ha : SLASH ∉ a) (hne : a ≠ []) (hh : ¬ Hidden a) :
    pathSpec keep (a ++ SLASH :: b) = pathSpec (keep ++ [SLASH] ++ a) b := by
  simp [pathSpec, components, pieces_cons b ha, hne, hh]

/-- The last turn. -/
theorem pathSpec_last {keep a : Bytes} (ha : SLASH ∉ a) (hne : a ≠ []) (hh : ¬ Hidden a) :
    pathSpec keep a
      = .filename (keep ++ [SLASH] ++ a ++ [0]) (keep ++ [SLASH] ++ a).length := by
  simp [pathSpec, components, pieces_last ha, hne, hh]

theorem pathSpec_hidden (keep b : Bytes) {a : Bytes} (ha : SLASH ∉ a) (hh : Hidden a) :
    pathSpec keep (a ++ SLASH :: b) = .forbidden := by
  refine if_pos ⟨a, ?_, hh⟩
  simp [components, pieces_cons b ha, hh.ne_nil]

theorem pathSpec_hidden_last (keep : Bytes) {a : Bytes} (ha : SLASH ∉ a) (hh : Hidden a) :
    pathSpec keep a = .forbidden := by
  refine if_pos ⟨a, ?_, hh⟩
  simp [components, pieces_last ha, hh.ne_nil]

/-- What one turn appends to `filename`. -/
theorem copyComponent_end {keep tail a : Bytes} (htail : tail.length ≤ 1) (hne : a ≠ [])
    (hcap : keep.length + 1 + a.length + 1 ≤ maxFilenameSize) :
    copyComponent (keep ++ tail) keep.length a
      = some (keep ++ [SLASH] ++ a, (keep ++ [SLASH] ++ a).length) := by
  have hpos : 0 < a.length := List.length_pos_iff.mpr hne
  have hslash : stpcpy maxFilenameSize (keep ++ tail) keep.length [SLASH]
      = some (keep ++ [SLASH] ++ [0], (keep ++ [SLASH]).length) :=
    stpcpy_end (by simp only [List.length_singleton]; omega)
      (by simp only [List.length_singleton]; omega)
  simp only [copyComponent, hslash, Option.bind_eq_bind, Option.bind_some]
  exact mempcpy_end (by simp only [List.length_singleton]; omega)
    (by simp only [List.length_append, List.length_singleton]; omega)

/-- The last turn: what is left is one component, or nothing behind a
slash. -/
theorem pathLoop_last {buffer : Bytes} {selectorSize fuel strPos : Nat} {keep tail : Bytes}
    (hsize : selectorSize ≤ buffer.length) (htail : tail.length ≤ 1)
    (hcap : keep.length + (selectorSize - strPos) + 2 ≤ maxFilenameSize)
    (hnone : memchr buffer strPos SLASH (selectorSize - strPos) = none)
    (hmem : SLASH ∉ (buffer.drop strPos).take (selectorSize - strPos)) :
    pathLoop buffer selectorSize (fuel + 1) strPos (keep ++ tail) keep.length
      = some (pathSpec keep ((buffer.drop strPos).take (selectorSize - strPos))) := by
  have hlen : ((buffer.drop strPos).take (selectorSize - strPos)).length
      = selectorSize - strPos := by
    simp only [List.length_take, List.length_drop]
    omega
  simp only [pathLoop, hnone]
  cases hwindow : (buffer.drop strPos).take (selectorSize - strPos) with
  | nil =>
    rw [hwindow, List.length_nil] at hlen
    rw [if_neg (by omega), store_end (by simpa using htail)
      (by simp only [List.length_singleton]; omega), pathSpec_nil]
    rfl
  | cons x a =>
    rw [hwindow] at hlen hmem
    rw [if_pos (by rw [← hlen]; simp), getElem?_of_window hwindow]
    by_cases hx : x = DOT
    · simp only [if_pos hx]
      rw [pathSpec_hidden_last keep hmem (by rw [hx]; rfl)]
    · have hfit : keep.length + 1 + (x :: a).length + 1 ≤ maxFilenameSize := by
        rw [hlen]
        omega
      simp only [if_neg hx, copyComponent_end htail (List.cons_ne_nil x a) hfit,
        Option.bind_some]
      rw [pathSpec_last hmem (List.cons_ne_nil x a) (by simpa [Hidden] using hx)]
      have hstore : store maxFilenameSize (keep ++ [SLASH] ++ x :: a ++ [])
          (keep ++ [SLASH] ++ x :: a).length [0] = some (keep ++ [SLASH] ++ x :: a ++ [0]) :=
        store_end (by simp) (by simp only [List.length_append, List.length_singleton]; omega)
      rw [List.append_nil] at hstore
      rw [hstore]
      rfl

/-- The loop keeps what it copied before the component at hand, and a NUL
behind it at most. -/
theorem pathLoop_spec {buffer : Bytes} {selectorSize : Nat}
    (hsize : selectorSize ≤ buffer.length) :
    ∀ (fuel strPos : Nat) (keep tail : Bytes), strPos ≤ selectorSize →
      selectorSize - strPos < fuel → tail.length ≤ 1 →
      keep.length + (selectorSize - strPos) + 2 ≤ maxFilenameSize →
      pathLoop buffer selectorSize fuel strPos (keep ++ tail) keep.length
        = some (pathSpec keep ((buffer.drop strPos).take (selectorSize - strPos)))
  | 0, strPos, keep, tail, _, hfuel, _, _ => by omega
  | fuel + 1, strPos, keep, tail, hpos, hfuel, htail, hcap => by
    rcases memchr_cases buffer strPos SLASH (selectorSize - strPos) with
      ⟨hn, hmem⟩ | ⟨a, b, hwindow, ha, hf⟩
    · exact pathLoop_last hsize htail hcap hn hmem
    -- a component, perhaps an empty one, with a slash behind it
    have hlen : a.length + 1 + b.length = selectorSize - strPos := by
      have hlength := congrArg List.length hwindow
      simp only [List.length_take, List.length_drop, List.length_append,
        List.length_cons] at hlength
      omega
    have hb := drop_of_window hwindow
    rw [show selectorSize - strPos - (a.length + 1) = selectorSize - (strPos + a.length + 1) by
      omega] at hb
    rw [pathLoop]
    simp only [hf, hwindow]
    rw [show strPos + a.length - strPos = a.length by omega]
    cases a with
    | nil =>
      simp only [List.length_nil, lt_irrefl, if_false, Nat.add_zero, List.nil_append,
        pathSpec_sep]
      rw [pathLoop_spec hsize fuel (strPos + 1) keep tail (by omega) (by omega) htail (by omega)]
      simp only [List.length_nil, Nat.add_zero] at hb
      rw [hb]
    | cons x a =>
      rw [if_pos (by simp), getElem?_of_window hwindow]
      by_cases hx : x = DOT
      · simp only [if_pos hx]
        rw [pathSpec_hidden keep b ha (by rw [hx]; rfl)]
      · have hend : copyComponent (keep ++ tail) keep.length (x :: a)
            = some (keep ++ [SLASH] ++ x :: a, (keep ++ [SLASH] ++ x :: a).length) :=
          copyComponent_end htail (List.cons_ne_nil x a) (by omega)
        simp only [if_neg hx, take_of_window hwindow, hend, Option.bind_some]
        have ih := pathLoop_spec hsize fuel (strPos + (x :: a).length + 1)
          (keep ++ [SLASH] ++ x :: a) [] (by omega) (by omega) (by simp)
          (by simp only [List.length_append, List.length_singleton]; omega)
        rw [List.append_nil, hb] at ih
        rw [ih, pathSpec_cons ha (List.cons_ne_nil x a) (by simpa [Hidden] using hx)]

/-- **Path normalisation.** For a selector that leaves room for its CRLF
in the buffer the loop terminates within its arrays; it refuses exactly
the selectors with a hidden component, and otherwise the path of the
selector's components stands in `filename`, with one NUL behind it. -/
theorem normalise_spec {buffer : Bytes} {selectorSize : Nat}
    (hsize : selectorSize ≤ buffer.length) (hmax : selectorSize + 2 ≤ maxRequestSize) :
    normalise buffer selectorSize = some (
      if ∃ c ∈ components (buffer.take selectorSize), Hidden c then .forbidden
      else .filename (relativePath (components (buffer.take selectorSize)) ++ [0])
        (relativePath (components (buffer.take selectorSize))).length) := by
  have hdot : stpcpy maxFilenameSize [] 0 [DOT] = some ([DOT] ++ [0], 1) := by decide
  have hmax' : selectorSize ≤ 511 := by
    unfold maxRequestSize at hmax
    omega
  have hspec : pathSpec [DOT] (buffer.take selectorSize)
      = if ∃ c ∈ components (buffer.take selectorSize), Hidden c then .forbidden
        else .filename (relativePath (components (buffer.take selectorSize)) ++ [0])
          (relativePath (components (buffer.take selectorSize))).length := rfl
  rw [normalise, hdot, ← hspec]
  simp only [Option.bind_eq_bind, Option.bind_some]
  by_cases h0 : 0 < selectorSize
  · rw [if_pos h0]
    have hloop := pathLoop_spec hsize (selectorSize + 1) 0 [DOT] [0] (by omega) (by omega)
      (by simp) (by simp [maxFilenameSize, maxRequestSize]; omega)
    simpa using hloop
  · have hz : selectorSize = 0 := by omega
    rw [if_neg h0, hz, List.take_zero, pathSpec_nil]
    rfl

/-! ## Framing -/

/-- A buffer with a CRLF in it, split at the first one. -/
structure Framed (buffer line rest : Bytes) : Prop where
  eq : buffer = line ++ CR :: LF :: rest
  first : ∀ j < line.length, ¬ [CR, LF] <+: buffer.drop j

/-- There is only one line before the first CRLF. -/
theorem Framed.line_eq {buffer line rest line' rest' : Bytes} (h : Framed buffer line rest)
    (h' : Framed buffer line' rest') : line = line' := by
  have hlen : line.length = line'.length := by
    rcases Nat.lt_trichotomy line.length line'.length with hlt | heq | hgt
    · exact absurd ⟨rest, by rw [h.eq, List.drop_left]; rfl⟩ (h'.first _ hlt)
    · exact heq
    · exact absurd ⟨rest', by rw [h'.eq, List.drop_left]; rfl⟩ (h.first _ hgt)
  have := h.eq.symm.trans h'.eq
  exact List.append_inj_left this hlen

/-- The line of a request, split at its first TAB: selector and query. -/
def splitTab (line : Bytes) : Bytes × Bytes :=
  (line.takeWhile (· ≠ TAB), (line.dropWhile (· ≠ TAB)).drop 1)

theorem framed_or (buffer : Bytes) :
    (memmem [CR, LF] buffer = none ∧ ∀ j, ¬ [CR, LF] <+: buffer.drop j) ∨
      ∃ line rest, Framed buffer line rest ∧ memmem [CR, LF] buffer = some line.length := by
  cases hm : memmem [CR, LF] buffer with
  | none => exact Or.inl ⟨rfl, (memmem_eq_none_iff (by simp)).mp hm⟩
  | some i =>
    obtain ⟨⟨rest, hrest⟩, hfirst⟩ := (memmem_eq_some_iff (by simp)).mp hm
    have hi : i ≤ buffer.length := by
      by_contra hlt
      rw [List.drop_eq_nil_of_le (by omega)] at hrest
      simp at hrest
    have hlen : (buffer.take i).length = i := by simp [hi]
    refine Or.inr ⟨buffer.take i, rest, ⟨?_, by rwa [hlen]⟩, by rw [hlen]⟩
    conv_lhs => rw [← List.take_append_drop i buffer, ← hrest]
    rfl

theorem splitTab_of_not_mem {line : Bytes} (h : TAB ∉ line) : splitTab line = (line, []) := by
  have hall : ∀ b ∈ line, decide (b ≠ TAB) = true := fun b hb => by
    simpa using fun he : b = TAB => h (he ▸ hb)
  rw [splitTab, List.takeWhile_eq_self_iff.mpr hall, List.dropWhile_eq_nil_iff.mpr hall]
  rfl

theorem splitTab_append {a b : Bytes} (h : TAB ∉ a) : splitTab (a ++ TAB :: b) = (a, b) := by
  have hall : ∀ x ∈ a, decide (x ≠ TAB) = true := fun x hx => by
    simpa using fun he : x = TAB => h (he ▸ hx)
  rw [splitTab, List.takeWhile_append_of_pos hall, List.dropWhile_append_of_pos hall]
  simp

/-- What `frame` finds in a buffer with a CRLF. -/
theorem frame_spec {buffer line rest : Bytes} (h : Framed buffer line rest) :
    ∃ f, frame buffer = some f ∧ f.selectorSize = (splitTab line).1.length ∧
      buffer.take f.selectorSize = (splitTab line).1 ∧ f.queryBytes buffer = (splitTab line).2 := by
  have hline : buffer.take line.length = line := by rw [h.eq, List.take_left]
  rcases framed_or buffer with ⟨_, hnone⟩ | ⟨line', rest', h', hmem⟩
  · exact absurd ⟨rest, by rw [h.eq, List.drop_left]; rfl⟩ (hnone line.length)
  rw [h'.line_eq h] at hmem
  have hbuf : (buffer.drop 0).take buffer.length = buffer := by simp
  have hplain : TAB ∉ line →
      (⟨line.length, none, 0⟩ : Framing).selectorSize = (splitTab line).1.length ∧
      buffer.take line.length = (splitTab line).1 ∧
      (⟨line.length, none, 0⟩ : Framing).queryBytes buffer = (splitTab line).2 := by
    intro ht
    rw [splitTab_of_not_mem ht]
    exact ⟨rfl, hline, rfl⟩
  rcases memchr_cases buffer 0 TAB buffer.length with ⟨hn, ht⟩ | ⟨a, b, hab, ha, hf⟩
  · rw [hbuf] at ht
    refine ⟨⟨line.length, none, 0⟩, by simp only [frame, hmem, hn], hplain fun hm => ht ?_⟩
    rw [h.eq]
    simp [hm]
  · rw [hbuf] at hab
    rw [Nat.zero_add] at hf
    by_cases hlt : a.length < line.length
    · -- the TAB is in the line
      obtain ⟨q, hq⟩ : ∃ q, line = a ++ TAB :: q := by
        refine ⟨b.take (line.length - a.length - 1), ?_⟩
        rw [← hline, hab, List.take_append, List.take_of_length_le (by omega),
          show line.length - a.length = (line.length - a.length - 1) + 1 by omega,
          List.take_succ_cons]
        simp
      have hqlen : line.length - a.length - 1 = q.length := by
        rw [hq]
        simp only [List.length_append, List.length_cons]
        omega
      rw [hq, splitTab_append ha]
      refine ⟨⟨a.length, if 0 < q.length then some (a.length + 1) else none, q.length⟩,
        by simp only [frame, hmem, hf, if_pos hlt, hqlen], rfl, ?_, ?_⟩
      · show buffer.take a.length = a
        rw [hab, List.take_left]
      · simp only [Framing.queryBytes]
        by_cases hq0 : 0 < q.length
        · simp only [if_pos hq0]
          have : buffer = (a ++ [TAB]) ++ q ++ CR :: LF :: rest := by
            rw [h.eq, hq]
            simp
          simp only [this, List.append_assoc]
          rw [← List.append_assoc a, List.drop_left' (by simp), List.take_left]
        · simp only [if_neg hq0]
          exact (List.eq_nil_of_length_eq_zero (by omega)).symm
    · -- the TAB stands behind the CRLF
      refine ⟨⟨line.length, none, 0⟩, by simp only [frame, hmem, hf, if_neg hlt],
        hplain fun hm => ha ?_⟩
      have : line <+: a := by
        have hline : line <+: buffer := ⟨_, h.eq.symm⟩
        exact List.prefix_of_prefix_length_le hline ⟨_, hab.symm⟩ (by omega)
      exact this.subset hm

/-! ## The request as a whole -/

/-- **What a buffer parses to.** A buffer without CRLF is a bad request.
Otherwise the line before the first CRLF is split at its first TAB, and
the selector decides: a hidden component anywhere in it is forbidden, and
any other selector gives the path of its components. -/
theorem parse_spec {buffer : Bytes} (hmax : buffer.length ≤ maxRequestSize) :
    (parse buffer = some .badRequest ∧ ∀ j, ¬ [CR, LF] <+: buffer.drop j) ∨
      ∃ line rest, Framed buffer line rest ∧ parse buffer = some (
        if ∃ c ∈ components (splitTab line).1, Hidden c then .forbidden
        else .path (relativePath (components (splitTab line).1) ++ [0])
          (relativePath (components (splitTab line).1)).length (splitTab line).2) := by
  rcases framed_or buffer with ⟨hn, hnone⟩ | ⟨line, rest, h, _⟩
  · exact Or.inl ⟨by simp only [parse, frame, hn], hnone⟩
  · refine Or.inr ⟨line, rest, h, ?_⟩
    obtain ⟨f, hf, hsize, htake, hquery⟩ := frame_spec h
    have hblen := congrArg List.length h.eq
    have hle : (splitTab line).1.length ≤ line.length := (List.takeWhile_prefix _).length_le
    simp only [List.length_append, List.length_cons] at hblen
    simp only [parse, hf]
    rw [normalise_spec (by omega) (by omega), htake, hquery]
    split <;> rfl

/-- A buffer that parses to a path. -/
theorem parse_path {buffer filename query : Bytes} {filenameEnd : Nat}
    (hmax : buffer.length ≤ maxRequestSize)
    (h : parse buffer = some (.path filename filenameEnd query)) :
    ∃ line rest, Framed buffer line rest ∧
      (∀ c ∈ components (splitTab line).1, ¬ Hidden c) ∧
      filename = relativePath (components (splitTab line).1) ++ [0] ∧
      filenameEnd = (relativePath (components (splitTab line).1)).length ∧
      query = (splitTab line).2 := by
  rcases parse_spec hmax with ⟨hp, _⟩ | ⟨line, rest, hf, hp⟩
  · rw [hp] at h
    cases h
  · rw [hp] at h
    split at h
    · cases h
    · rename_i hvis
      cases h
      exact ⟨line, rest, hf, fun c hc hh => hvis ⟨c, hc, hh⟩, rfl, rfl, rfl⟩

/-- There is room behind the path for the slash of a directory. -/
theorem stpcpy_slash {buffer line rest : Bytes} (hmax : buffer.length ≤ maxRequestSize)
    (h : Framed buffer line rest) :
    let path := relativePath (components (splitTab line).1)
    stpcpy maxFilenameSize (path ++ [0]) path.length [SLASH]
      = some (path ++ [SLASH] ++ [0], (path ++ [SLASH]).length) := by
  refine stpcpy_end (by simp) ?_
  have hled : (led SLASH (pieces SLASH (splitTab line).1)).length ≤ (splitTab line).1.length + 1 :=
    length_led_pieces _
  have hle : (splitTab line).1.length ≤ line.length := (List.takeWhile_prefix _).length_le
  have hblen := congrArg List.length h.eq
  simp only [List.length_append, List.length_cons] at hblen
  simp only [maxRequestSize] at hmax
  simp only [relativePath, List.length_cons, components, maxFilenameSize, maxRequestSize,
    List.length_nil]
  omega

/-- A hidden component is enough to refuse a request that has a CRLF. -/
theorem parse_forbidden {buffer line rest c : Bytes} (h : Framed buffer line rest)
    (hmax : buffer.length ≤ maxRequestSize) (hc : c ∈ components (splitTab line).1)
    (hh : Hidden c) : parse buffer = some .forbidden := by
  rcases parse_spec hmax with ⟨_, hnone⟩ | ⟨line', rest', h', hp⟩
  · exact absurd ⟨rest, by rw [h.eq, List.drop_left]; rfl⟩ (hnone line.length)
  · rw [hp, h'.line_eq h, if_pos ⟨c, hc, hh⟩]

/-- The parser stays within its arrays on every buffer. -/
theorem parse_total {buffer : Bytes} (hmax : buffer.length ≤ maxRequestSize) :
    ∃ p, parse buffer = some p := by
  rcases parse_spec hmax with ⟨h, _⟩ | ⟨_, _, _, h⟩
  · exact ⟨_, h⟩
  · exact ⟨_, h⟩

/-! ## Confinement -/

/-- A path that stays below the directory it is relative to and enters
nothing hidden: "." or "./" and components none of which begins with a
period, where only the last may be empty. -/
structure Confined (path : Bytes) : Prop where
  start : path = [DOT] ∨ [DOT, SLASH] <+: path
  visible : ∀ c ∈ (path.splitOn SLASH).tail, ¬ Hidden c
  empty_last : ∀ c ∈ (path.splitOn SLASH).tail.dropLast, c ≠ []

/-- No component of a confined path is "..". -/
theorem Confined.no_parent {path : Bytes} (h : Confined path) :
    [DOT, DOT] ∉ (path.splitOn SLASH).tail := fun hm => h.visible _ hm rfl

/-- A list of components cut off inside one of them is again one, whose
last component may have become empty. -/
theorem untilNul_led : ∀ {cs : List Bytes}, (∀ c ∈ cs, c ≠ [] ∧ SLASH ∉ c ∧ ¬ Hidden c) →
    ∃ ds, untilNul (led SLASH cs) = led SLASH ds ∧ (∀ d ∈ ds, SLASH ∉ d ∧ ¬ Hidden d) ∧
      ∀ d ∈ ds.dropLast, d ≠ []
  | [], _ => ⟨[], rfl, by simp, by simp⟩
  | c :: cs, h => by
    obtain ⟨hne, hs, hh⟩ := h c (by simp)
    rw [led_cons, List.cons_append, untilNul_cons _ (by decide), untilNul_append]
    by_cases h0 : 0 ∈ c
    · have hpre := untilNul_initial c
      refine ⟨[untilNul c], by simp [h0], ?_, by simp⟩
      intro d hd
      rw [List.mem_singleton] at hd
      subst hd
      refine ⟨fun hm => hs (hpre.subset hm), fun hd => hh ?_⟩
      obtain ⟨t, ht⟩ := hpre
      rw [Hidden, ← ht, List.head?_append, show (untilNul c).head? = some DOT from hd]
      rfl
    · have hcs : ∀ d ∈ cs, d ≠ [] ∧ SLASH ∉ d ∧ ¬ Hidden d := fun d hd => h d (by simp [hd])
      obtain ⟨ds, hds, hall, hlast⟩ := untilNul_led hcs
      refine ⟨c :: ds, by rw [if_neg h0, hds]; simp, ?_, ?_⟩
      · intro d hd
        rcases List.mem_cons.mp hd with rfl | hd
        · exact ⟨hs, hh⟩
        · exact hall d hd
      · intro d hd
        cases ds with
        | nil => simp at hd
        | cons e ds =>
          rw [List.dropLast_cons_cons] at hd
          rcases List.mem_cons.mp hd with rfl | hd
          · exact hne
          · exact hlast d hd

/-- The string the kernel sees of the path of visible components. -/
theorem confined_path {cs : List Bytes} (h : ∀ c ∈ cs, c ≠ [] ∧ SLASH ∉ c ∧ ¬ Hidden c) :
    Confined (untilNul (relativePath cs)) := by
  obtain ⟨ds, hds, hall, hlast⟩ := untilNul_led h
  have hpath : untilNul (relativePath cs) = [DOT] ++ led SLASH ds := by
    rw [relativePath, untilNul_cons _ (by decide), hds]
    rfl
  have hsplit : (untilNul (relativePath cs)).splitOn SLASH = [DOT] :: ds := by
    rw [hpath]
    exact splitOn_led (by decide) fun d hd => (hall d hd).1
  refine ⟨?_, ?_, ?_⟩
  · rw [hpath]
    cases ds with
    | nil => exact Or.inl rfl
    | cons d ds => exact Or.inr ⟨d ++ led SLASH ds, rfl⟩
  · rw [hsplit]
    exact fun d hd => (hall d hd).2
  · rw [hsplit]
    exact hlast

/-- Whatever path a buffer parses to, the string in `filename` is
confined. -/
theorem parse_confined {buffer filename query : Bytes} {filenameEnd : Nat}
    (hmax : buffer.length ≤ maxRequestSize)
    (h : parse buffer = some (.path filename filenameEnd query)) :
    ∃ path, cstring filename 0 = some path ∧ Confined path := by
  obtain ⟨line, rest, _, hvis, rfl, _, _⟩ := parse_path hmax h
  refine ⟨_, cstring_append_nul _ (Nat.zero_le _), ?_⟩
  exact confined_path fun c hc => ⟨(mem_pieces hc).1, (mem_pieces hc).2, hvis c hc⟩

end Sgopher.Server
