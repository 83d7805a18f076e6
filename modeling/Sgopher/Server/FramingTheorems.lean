/-
Sgopher.Server.FramingTheorems — the request parser against its
specification: the framing decodes what `encode` writes, and the path loop
computes the path of the selector's components, whatever stands around
them.

The two searches of the framing look at the whole buffer, the bytes behind
the first CRLF included. `Framed` pins that CRLF down, so both directions
come from `frame_spec`: a buffer is split at it, or an encoded request is
shown to be framed there.

No `sorry`, no `axiom`, no `native_decide`.
-/
import Sgopher.Server.RequestTheorems

namespace Sgopher.Server

open Sgopher.Lib

variable {buffer line rest selector trailing : Bytes}

/-! ## Framing -/

/-- A request as a client writes it: the selector, a TAB and a query if
there is one, and CRLF; the server ignores what follows. -/
def encode (selector : Bytes) (query : Option Bytes) (trailing : Bytes) : Bytes :=
  (selector ++ query.elim [] (TAB :: ·)) ++ CR :: LF :: trailing

/-- Selector and query, as the bytes `frame` points at. -/
def decode (buffer : Bytes) : Option (Bytes × Bytes) :=
  (frame buffer).map fun f => (buffer.take f.selectorSize, f.queryBytes buffer)

/-- The bytes before the first CRLF hold none, and do not end inside it. -/
theorem framed_iff :
    Framed buffer line rest ↔ buffer = line ++ CR :: LF :: rest ∧ ¬ [CR, LF] <:+: line := by
  constructor
  · rintro ⟨rfl, hfirst⟩
    refine ⟨rfl, ?_⟩
    rintro ⟨a, b, hab⟩
    have hlen := congrArg List.length hab
    simp only [List.length_append, List.length_cons, List.length_nil] at hlen
    refine hfirst a.length (by omega) ⟨b ++ CR :: LF :: rest, ?_⟩
    rw [← hab]
    simp
  · rintro ⟨rfl, hline⟩
    refine ⟨rfl, fun j hj hp => hline ?_⟩
    rw [List.drop_append_of_le_length (by omega)] at hp
    obtain ⟨t, ht⟩ := hp
    cases hd : line.drop j with
    | nil => simp at hd; omega
    | cons b tail =>
      rw [hd] at ht
      cases tail with
      | nil =>
        -- a CR at the end of the line is followed by the CR of the CRLF
        simp only [List.cons_append, List.nil_append, List.cons.injEq] at ht
        exact absurd ht.2.1 (by decide)
      | cons b' tail =>
        simp only [List.cons_append, List.cons.injEq] at ht
        obtain ⟨rfl, rfl, -⟩ := ht
        exact ⟨line.take j, tail, by rw [List.append_assoc]; simp [← hd]⟩

/-- A buffer is framed if and only if there is a CRLF in it. -/
theorem frame_eq_none_iff : frame buffer = none ↔ ¬ [CR, LF] <:+: buffer := by
  rcases framed_or buffer with ⟨hn, hnone⟩ | ⟨line, rest, h, _⟩
  · refine iff_of_true (by simp only [frame, hn]) ?_
    rintro ⟨a, b, rfl⟩
    exact hnone a.length ⟨b, by simp⟩
  · obtain ⟨f, hf, -⟩ := frame_spec h
    refine iff_of_false (by simp [hf]) (not_not_intro ⟨line, rest, ?_⟩)
    rw [h.eq]
    simp

theorem decode_framed (h : Framed buffer line rest) : decode buffer = some (splitTab line) := by
  obtain ⟨f, hf, _, htake, hquery⟩ := frame_spec h
  rw [decode, hf, Option.map_some, htake, hquery]

/-- A line with a TAB in it, split at the first one. -/
theorem splitTab_cases (line : Bytes) :
    (TAB ∉ line ∧ splitTab line = (line, [])) ∨
      ∃ a b, line = a ++ TAB :: b ∧ TAB ∉ a ∧ splitTab line = (a, b) := by
  by_cases h : TAB ∈ line
  · obtain ⟨a, b, rfl, ha⟩ := List.eq_append_cons_of_mem h
    exact Or.inr ⟨a, b, rfl, ha, splitTab_append ha⟩
  · exact Or.inl ⟨h, splitTab_of_not_mem h⟩

/-- A request is bad if and only if the buffer holds no CRLF. Otherwise
the buffer is an encoded request, and every encoded request is decoded to
its selector and query. -/
theorem framing :
    (∀ buffer, parse buffer = some .badRequest ↔ ¬ [CR, LF] <:+: buffer) ∧
    (∀ buffer, [CR, LF] <:+: buffer → ∃ selector query trailing,
      buffer = encode selector query trailing ∧ TAB ∉ selector ∧
      ¬ [CR, LF] <:+: selector ++ query.elim [] (TAB :: ·) ∧
      decode buffer = some (selector, query.getD [])) ∧
    (∀ selector query trailing, TAB ∉ selector → ¬ [CR, LF] <:+: selector →
      (∀ q, query = some q → ¬ [CR, LF] <:+: q) →
      decode (encode selector query trailing) = some (selector, query.getD [])) := by
  refine ⟨fun buffer => ?_, fun buffer hcrlf => ?_, fun selector query trailing ht hs hq => ?_⟩
  · rw [← frame_eq_none_iff]
    unfold parse
    cases frame buffer with
    | none => simp
    | some f =>
      simp only [reduceCtorEq, iff_false, Option.map_eq_some_iff, not_exists, not_and]
      rintro (_ | _) - <;> simp
  · rcases framed_or buffer with ⟨_, hnone⟩ | ⟨line, rest, h, _⟩
    · obtain ⟨a, b, rfl⟩ := hcrlf
      exact absurd ⟨b, by simp⟩ (hnone a.length)
    obtain ⟨heq, hline⟩ := framed_iff.mp h
    rcases splitTab_cases line with ⟨ht, hsplit⟩ | ⟨a, b, rfl, ha, hsplit⟩
    · refine ⟨line, none, rest, by simpa [encode] using heq, ht, by simpa using hline, ?_⟩
      rw [decode_framed h, hsplit]
      rfl
    · refine ⟨a, some b, rest, by simpa [encode] using heq, ha, by simpa using hline, ?_⟩
      rw [decode_framed h, hsplit]
      rfl
  · have hline : ¬ [CR, LF] <:+: selector ++ query.elim [] (TAB :: ·) := by
      cases query with
      | none => simpa using hs
      | some q =>
        intro h
        exact (infix_of_infix_append_cons (by decide) h).elim hs (hq q rfl)
    have h : Framed (encode selector query trailing) (selector ++ query.elim [] (TAB :: ·))
        trailing :=
      framed_iff.mpr ⟨rfl, hline⟩
    rw [decode_framed h]
    cases query with
    | none => simpa using splitTab_of_not_mem ht
    | some q => exact congrArg some (splitTab_append ht)

/-! ## Path normalisation -/

/-- The components do not depend on a slash at the end. -/
theorem components_append_slash (s : Bytes) : components (s ++ [SLASH]) = components s := by
  unfold components
  induction s using split_induction SLASH with
  | last a ha => rw [pieces_cons [] ha, pieces_nil, List.append_nil, pieces_last ha]
  | cons a b ha ih =>
    rw [List.append_assoc, List.cons_append, pieces_cons _ ha, pieces_cons _ ha, ih]

/-- What is behind the period of a path has the path's components. -/
theorem components_led (s : Bytes) : components (led SLASH (components s)) = components s :=
  pieces_led fun _ hc => mem_pieces hc

/-- **Path normalisation equals its specification.** Within the length a
request leaves for it a selector is refused if and only if one of its
components begins with a period, and otherwise the path of its components
is left in `filename`, with a NUL behind it. So selectors with the same
components give the same result, and what stands behind the period, with a
slash at the end or without, gives the same path again. -/
theorem normalise_exact :
    (∀ selector rest, selector.length + 2 ≤ maxRequestSize →
      (normalise (selector ++ rest) selector.length = some .forbidden ↔
        ∃ c ∈ components selector, c.head? = some DOT) ∧
      ((∀ c ∈ components selector, c.head? ≠ some DOT) →
        normalise (selector ++ rest) selector.length = some (.filename
          (DOT :: (components selector).flatMap (SLASH :: ·) ++ [0])
          (DOT :: (components selector).flatMap (SLASH :: ·)).length))) ∧
    (∀ selector selector' rest rest', selector.length + 2 ≤ maxRequestSize →
      selector'.length + 2 ≤ maxRequestSize → components selector = components selector' →
      normalise (selector ++ rest) selector.length
        = normalise (selector' ++ rest') selector'.length) ∧
    (∀ selector rest rest' filename filenameEnd, selector.length + 2 ≤ maxRequestSize →
      normalise (selector ++ rest) selector.length = some (.filename filename filenameEnd) →
      ∀ again ∈ [(filename.take filenameEnd).tail, (filename.take filenameEnd).tail ++ [SLASH]],
        again.length + 2 ≤ maxRequestSize →
        normalise (again ++ rest') again.length = some (.filename filename filenameEnd)) := by
  have hspec : ∀ selector rest : Bytes, selector.length + 2 ≤ maxRequestSize →
      normalise (selector ++ rest) selector.length = some (
        if ∃ c ∈ components selector, Hidden c then .forbidden
        else .filename (relativePath (components selector) ++ [0])
          (relativePath (components selector)).length) := by
    intro selector rest hmax
    have hsize : selector.length ≤ (selector ++ rest).length := by simp
    have hrun := normalise_spec hsize hmax
    rwa [List.take_left] at hrun
  refine ⟨fun selector rest hmax => ⟨?_, fun hvis => ?_⟩, ?_, ?_⟩
  · rw [hspec selector rest hmax, Option.some.injEq]
    constructor
    · intro h
      by_contra hn
      rw [if_neg (show ¬ ∃ c ∈ components selector, Hidden c from hn)] at h
      cases h
    · exact fun h => if_pos h
  · rw [hspec selector rest hmax, if_neg (by rintro ⟨c, hc, hh⟩; exact hvis c hc hh)]
    rfl
  · intro selector selector' rest rest' hmax hmax' heq
    rw [hspec selector rest hmax, hspec selector' rest' hmax', heq]
  · intro selector rest rest' filename filenameEnd hmax hrun again hagain hfit
    rw [hspec selector rest hmax, Option.some.injEq] at hrun
    have hvis : ¬ ∃ c ∈ components selector, Hidden c := fun h => by
      rw [if_pos h] at hrun
      cases hrun
    rw [if_neg hvis, PathResult.filename.injEq] at hrun
    obtain ⟨rfl, rfl⟩ := hrun
    have htail : ((relativePath (components selector) ++ [0]).take
        (relativePath (components selector)).length).tail = led SLASH (components selector) := by
      rw [List.take_left]
      rfl
    have hcomponents : components again = components selector := by
      rw [htail] at hagain
      simp only [List.mem_cons, List.not_mem_nil, or_false] at hagain
      rcases hagain with rfl | rfl
      · exact components_led selector
      · rw [components_append_slash, components_led]
    rw [hspec again rest' hfit, hcomponents, if_neg hvis]

/-- Slashes at the start, doubled and at the end, and back again. -/
theorem normalise_exact_again :
    normalise ([SLASH, 97, SLASH, SLASH, 98, SLASH] ++ [CR, LF]) 6
        = some (.filename [DOT, SLASH, 97, SLASH, 98, 0] 5) ∧
      normalise ([SLASH, 97, SLASH, 98, SLASH] ++ [CR, LF]) 5
        = some (.filename [DOT, SLASH, 97, SLASH, 98, 0] 5) := by
  have h := (normalise_exact.1 [SLASH, 97, SLASH, SLASH, 98, SLASH] [CR, LF] (by decide)).2
    (by decide)
  exact ⟨h, normalise_exact.2.2 _ _ [CR, LF] _ _ (by decide) h _ (by decide) (by decide)⟩

end Sgopher.Server
