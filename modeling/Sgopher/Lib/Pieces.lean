/-
Sgopher.Lib.Pieces — lists cut at separators.

`pieces sep s` are the non-empty pieces; it forgets how many separators
stand between two pieces and at the ends. `led sep cs` writes a list of
pieces down again, each led by one separator. `pieces_led` says that the
first undoes the second, and `split_induction` is how statements about the
pieces are proved: a list either has no separator, or is a first part
without one, a separator, and the rest.

`splitPair x y` cuts a list wherever `x` is followed by `y`. The two are
different, so a part that ends with `x` does no harm to the separator
behind it, and lines written one after the other are read back if none of
them has the separator inside.

No `sorry`, no `axiom`, no `native_decide`.
-/
import Mathlib.Data.List.Basic

namespace Sgopher.Lib

variable {α : Type} {sep : α}

/-! ## Writing pieces down -/

/-- Each piece, led by a separator. -/
def led (sep : α) (cs : List (List α)) : List α := cs.flatMap fun c => sep :: c

@[simp] theorem led_nil : led sep [] = [] := rfl

@[simp] theorem led_cons (c : List α) (cs : List (List α)) :
    led sep (c :: cs) = sep :: c ++ led sep cs := rfl

@[simp] theorem led_append (cs ds : List (List α)) :
    led sep (cs ++ ds) = led sep cs ++ led sep ds := List.flatMap_append

/-- What `led` writes holds nothing but the separator and the pieces. -/
theorem not_mem_led {x : α} {cs : List (List α)} (hx : x ≠ sep) (hcs : ∀ c ∈ cs, x ∉ c) :
    x ∉ led sep cs := by
  intro h
  obtain ⟨c, hc, hin⟩ := List.mem_flatMap.mp h
  exact (List.mem_cons.mp hin).elim hx (hcs c hc)

/-! ## Patterns -/

/-- A pattern without the separator stands on one side of it. -/
theorem infix_of_infix_append_cons {p a b : List α} (hsep : sep ∉ p)
    (h : p <:+: a ++ sep :: b) : p <:+: a ∨ p <:+: b := by
  obtain ⟨s, t, hst⟩ := h
  rcases List.append_eq_append_iff.mp hst with ⟨c, ha, _⟩ | ⟨c, hsp, hc⟩
  · exact Or.inl ⟨s, c, ha.symm⟩
  cases c with
  | nil => exact Or.inl ⟨s, [], by simpa using hsp⟩
  | cons y c =>
    obtain ⟨rfl, rfl⟩ := List.cons.inj hc
    rcases List.append_eq_append_iff.mp hsp with ⟨d, _, hp⟩ | ⟨d, _, hd⟩
    · exact absurd (by rw [hp]; exact List.mem_append_right d List.mem_cons_self) hsep
    · cases d with
      | nil =>
        rw [List.nil_append] at hd
        exact absurd (hd ▸ List.mem_cons_self) hsep
      | cons z d =>
        obtain ⟨-, rfl⟩ := List.cons.inj hd
        exact Or.inr ⟨d, t, rfl⟩

theorem not_infix_append_cons {p a b : List α} (hsep : sep ∉ p) (ha : ¬ p <:+: a)
    (hb : ¬ p <:+: b) : ¬ p <:+: a ++ sep :: b :=
  fun h => (infix_of_infix_append_cons hsep h).elim ha hb

/-- A pattern without the separator that is in none of the parts is not in
what `led` writes behind the first of them. -/
theorem not_infix_append_led {p : List α} (hsep : sep ∉ p) :
    ∀ {a : List α} {cs : List (List α)}, ¬ p <:+: a → (∀ c ∈ cs, ¬ p <:+: c) →
      ¬ p <:+: a ++ led sep cs
  | a, [], ha, _ => by rwa [led_nil, List.append_nil]
  | a, c :: cs, ha, hcs => by
    rw [led_cons, List.cons_append]
    refine not_infix_append_cons hsep ha ?_
    exact not_infix_append_led hsep (hcs c List.mem_cons_self) fun d hd =>
      hcs d (List.mem_cons_of_mem _ hd)

variable [DecidableEq α]

/-! ## Reading pieces -/

/-- Induction along the separators. -/
theorem split_induction (sep : α) {motive : List α → Prop}
    (last : ∀ a, sep ∉ a → motive a)
    (cons : ∀ a b, sep ∉ a → motive b → motive (a ++ sep :: b)) : ∀ s, motive s := by
  intro s
  induction hn : s.length using Nat.strongRecOn generalizing s with
  | _ n ih =>
    by_cases hs : sep ∈ s
    · obtain ⟨a, b, rfl, ha⟩ := List.eq_append_cons_of_mem hs
      refine cons a b ha (ih b.length ?_ b rfl)
      rw [← hn, List.length_append, List.length_cons]
      omega
    · exact last s hs

/-- The non-empty pieces between separators. -/
def pieces (sep : α) (s : List α) : List (List α) := (s.splitOn sep).filter (· ≠ [])

theorem pieces_last {a : List α} (ha : sep ∉ a) : pieces sep a = if a = [] then [] else [a] := by
  rw [pieces, List.splitOn_eq_singleton ha]
  by_cases h : a = [] <;> simp [h]

theorem pieces_cons {a : List α} (b : List α) (ha : sep ∉ a) :
    pieces sep (a ++ sep :: b) = (if a = [] then [] else [a]) ++ pieces sep b := by
  rw [pieces, List.splitOn_append_cons_self_of_not_mem ha, List.filter_cons]
  by_cases h : a = [] <;> simp [h, pieces]

/-- A separator anywhere parts the pieces. -/
theorem pieces_append_cons (a b : List α) :
    pieces sep (a ++ sep :: b) = pieces sep a ++ pieces sep b := by
  induction a using split_induction sep with
  | last a ha => rw [pieces_cons b ha, pieces_last ha]
  | cons a c ha ih =>
    rw [List.append_assoc, List.cons_append, pieces_cons _ ha, pieces_cons _ ha, ih,
      List.append_assoc]

@[simp] theorem pieces_nil : pieces sep [] = [] := by simp [pieces_last]

@[simp] theorem pieces_sep_cons (b : List α) : pieces sep (sep :: b) = pieces sep b := by
  simpa using pieces_cons (a := []) b (List.not_mem_nil)

/-- Pieces are not empty and hold no separator. -/
theorem mem_pieces {s c : List α} (h : c ∈ pieces sep s) : c ≠ [] ∧ sep ∉ c := by
  induction s using split_induction sep with
  | last a ha =>
    rw [pieces_last ha] at h
    split at h
    · cases h
    · rename_i hne
      rw [List.mem_singleton.mp h]
      exact ⟨hne, ha⟩
  | cons a b ha ih =>
    rw [pieces_cons b ha] at h
    rcases List.mem_append.mp h with h | h
    · split at h
      · cases h
      · rename_i hne
        rw [List.mem_singleton.mp h]
        exact ⟨hne, ha⟩
    · exact ih h

/-- A piece stands in the list as it is. -/
theorem infix_of_mem_pieces {s c : List α} (h : c ∈ pieces sep s) : c <:+: s := by
  induction s using split_induction sep with
  | last a ha =>
    rw [pieces_last ha] at h
    split at h
    · cases h
    · exact List.mem_singleton.mp h ▸ List.infix_rfl
  | cons a b ha ih =>
    rw [pieces_cons b ha] at h
    rcases List.mem_append.mp h with h | h
    · split at h
      · cases h
      · exact List.mem_singleton.mp h ▸ (List.prefix_append a _).isInfix
    · exact (ih h).trans ⟨a ++ [sep], [], by simp⟩

/-- Whatever is in a piece is in the list. -/
theorem subset_of_mem_pieces {s c : List α} (h : c ∈ pieces sep s) : c ⊆ s :=
  (infix_of_mem_pieces h).subset

/-- What is not a separator is in one of the pieces. -/
theorem exists_mem_pieces {s : List α} {x : α} (hx : x ∈ s) (hne : x ≠ sep) :
    ∃ c ∈ pieces sep s, x ∈ c := by
  induction s using split_induction sep with
  | last a ha =>
    rw [pieces_last ha, if_neg (List.ne_nil_of_mem hx)]
    exact ⟨a, by simp, hx⟩
  | cons a b ha ih =>
    rw [pieces_cons b ha]
    rcases List.mem_append.mp hx with h | h
    · exact ⟨a, by simp [List.ne_nil_of_mem h], h⟩
    · rcases List.mem_cons.mp h with rfl | h
      · exact absurd rfl hne
      · obtain ⟨c, hc, hxc⟩ := ih h
        exact ⟨c, List.mem_append_right _ hc, hxc⟩

/-! ## Reading what was written -/

/-- Splitting what `led` wrote behind a first part gives the parts back. -/
theorem splitOn_led : ∀ {a : List α} {cs : List (List α)}, sep ∉ a → (∀ c ∈ cs, sep ∉ c) →
    (a ++ led sep cs).splitOn sep = a :: cs
  | a, [], ha, _ => by rw [led_nil, List.append_nil, List.splitOn_eq_singleton ha]
  | a, c :: cs, ha, hcs => by
    rw [led_cons, List.cons_append, List.splitOn_append_cons_self_of_not_mem ha,
      splitOn_led (hcs c (by simp)) fun d hd => hcs d (by simp [hd])]

/-- Splitting at the last separator and before it. -/
theorem splitOn_append_last (a : List α) {b : List α} (hb : sep ∉ b) :
    (a ++ sep :: b).splitOn sep = a.splitOn sep ++ [b] := by
  induction a using split_induction sep with
  | last a ha =>
    rw [List.splitOn_append_cons_self_of_not_mem ha, List.splitOn_eq_singleton ha,
      List.splitOn_eq_singleton hb]
    rfl
  | cons a c ha ih =>
    rw [List.append_assoc, List.cons_append, List.splitOn_append_cons_self_of_not_mem ha, ih,
      List.splitOn_append_cons_self_of_not_mem ha, List.cons_append]

/-- Reading back what `led` wrote. -/
theorem pieces_led {cs : List (List α)} (h : ∀ c ∈ cs, c ≠ [] ∧ sep ∉ c) :
    pieces sep (led sep cs) = cs := by
  have := splitOn_led (a := []) (List.not_mem_nil) fun c hc => (h c hc).2
  rw [List.nil_append] at this
  rw [pieces, this, List.filter_cons]
  simpa using fun c hc => (h c hc).1

/-- What is written is not longer than what it was read from, with one
separator in front. -/
theorem length_led_pieces (s : List α) : (led sep (pieces sep s)).length ≤ s.length + 1 := by
  induction s using split_induction sep with
  | last a ha =>
    rw [pieces_last ha]
    split <;> simp
  | cons a b ha ih =>
    rw [pieces_cons b ha]
    split
    · simp only [List.nil_append, List.length_append, List.length_cons]
      omega
    · simp only [List.singleton_append, led_cons, List.length_append, List.length_cons]
      omega

/-! ## Separators of two elements -/

section Pairs

variable {x y : α}

omit [DecidableEq α] in
/-- A first part without `x` has nothing of the separator. -/
theorem not_infix_append_of_not_mem {a b : List α} (ha : x ∉ a) (hb : ¬ [x, y] <:+: b) :
    ¬ [x, y] <:+: a ++ b := by
  induction a with
  | nil => exact hb
  | cons c a ih =>
    rw [List.cons_append, List.infix_cons_iff]
    rintro (⟨t, ht⟩ | h)
    · cases (List.cons.inj ht).1
      exact ha List.mem_cons_self
    · exact ih (fun hx => ha (List.mem_cons_of_mem c hx)) h

/-- An element in front of the first part. -/
def consHead (b : α) : List (List α) → List (List α)
  | [] => [[b]]
  | part :: parts => (b :: part) :: parts

/-- The parts between the places where `x` is followed by `y`. -/
def splitPair (x y : α) : List α → List (List α)
  | [] => [[]]
  | [b] => [[b]]
  | b :: c :: rest =>
    if b = x ∧ c = y then [] :: splitPair x y rest else consHead b (splitPair x y (c :: rest))

/-- The first part ends at the first separator. -/
theorem splitPair_line (hxy : x ≠ y) (rest : List α) :
    ∀ {a : List α}, ¬ [x, y] <:+: a → splitPair x y (a ++ x :: y :: rest) = a :: splitPair x y rest
  | [], _ => by simp [splitPair]
  | [b], _ => by
    -- an `x` at the end is not followed by `y`, but by the `x` of the separator
    have hb : ¬ (b = x ∧ x = y) := fun h => hxy h.2
    simp [splitPair, hb, consHead]
  | b :: c :: a, h => by
    have hbc : ¬ (b = x ∧ c = y) := by
      rintro ⟨rfl, rfl⟩
      exact h ⟨[], a, rfl⟩
    have ha : ¬ [x, y] <:+: c :: a := fun hi => h (hi.trans (List.suffix_cons b _).isInfix)
    have ih := splitPair_line hxy rest ha
    rw [List.cons_append] at ih
    rw [List.cons_append, List.cons_append, splitPair, if_neg hbc, ih, consHead]

/-- Lines are read back. -/
theorem splitPair_lines (hxy : x ≠ y) : ∀ {lines : List (List α)},
    (∀ line ∈ lines, ¬ [x, y] <:+: line) →
      splitPair x y (lines.flatMap (· ++ [x, y])) = lines ++ [[]]
  | [], _ => rfl
  | line :: lines, h => by
    have hline := h line List.mem_cons_self
    have hlines := splitPair_lines hxy fun l hl => h l (List.mem_cons_of_mem _ hl)
    rw [List.flatMap_cons, List.append_assoc, List.cons_append, List.cons_append, List.nil_append,
      splitPair_line hxy _ hline, hlines, List.cons_append]

end Pairs

end Sgopher.Lib
