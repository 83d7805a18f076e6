/-
Sgopher.Gopherlist.SbufferTheorems — the stream law of the write buffer.

`Law` says that what the descriptor was given, followed by what is not
written yet, is the concatenation of the texts of the pushes that returned
a positive value. Every call keeps it, in whatever way `write` and `poll`
answer, so it holds wherever a run waits or ends; in particular after a
flush that failed halfway, which is why a later one resumes.

No `sorry`, no `axiom`, no `native_decide`.
-/
import Sgopher.Gopherlist.Sbuffer

namespace Sgopher.Gopherlist

open Sgopher.Lib

/-! ## The law -/

/-- The text a push has added to the stream. -/
def added : Formatted × Pushed → Bytes
  | (.text bytes, .ok n) => if 0 < n then bytes else []
  | _ => []

/-- The texts of the pushes that returned a positive value, in order. -/
def accepted (pushes : List (Formatted × Pushed)) : Bytes := pushes.flatMap added

/-- What holds between the buffer, the descriptor and the pushes. -/
structure Law (len : UInt64) (w : World) : Prop where
  cap : w.sbuffer.len = len
  ordered : w.sbuffer.writepos ≤ w.sbuffer.pos
  stored : w.sbuffer.pos ≤ w.sbuffer.mem.length
  within : w.sbuffer.mem.length ≤ len.toNat
  room : 0 < len.toNat → w.sbuffer.pos < len.toNat
  stream : w.out ++ w.sbuffer.unwrittenBytes = accepted w.pushes
  written : w.sbuffer.written = UInt64.ofNat w.out.length

variable {len : UInt64} {w w' : World} {b b' : Sbuffer} {f : Formatted} {r : Pushed}

theorem sizeDiff_eq {a b : Nat} (hle : b ≤ a) (ha : a < 2 ^ 64) : sizeDiff a b = a - b := by
  unfold sizeDiff
  omega

theorem Law.pos_le (h : Law len w) : w.sbuffer.pos ≤ len.toNat := h.stored.trans h.within

theorem Law.remaining_eq (h : Law len w) :
    w.sbuffer.remaining = len.toNat - w.sbuffer.pos := by
  rw [Sbuffer.remaining, h.cap]
  exact sizeDiff_eq h.pos_le len.toNat_lt

theorem Law.unwritten_eq (h : Law len w) :
    w.sbuffer.unwritten = w.sbuffer.pos - w.sbuffer.writepos :=
  sizeDiff_eq h.ordered (Nat.lt_of_le_of_lt h.pos_le len.toNat_lt)

theorem Law.unwrittenBytes_eq (h : Law len w) :
    w.sbuffer.unwrittenBytes = (w.sbuffer.mem.take w.sbuffer.pos).drop w.sbuffer.writepos := by
  rw [Sbuffer.unwrittenBytes, h.unwritten_eq, List.drop_take]

theorem created_law (len : UInt64) : Law len (created len) := by
  refine ⟨rfl, Nat.le_refl 0, Nat.le_refl 0, Nat.zero_le _, id, rfl, rfl⟩

/-! ## Pushing -/

/-- A push that was not accepted: it is an error, or returns 0. -/
def Refused (r : Pushed) : Prop := ∀ n, r = .ok n → n = 0

/-- The text of a push is not empty, but there is no room for it and its
NUL, or its length is no `int`. -/
def Unfit (room : Nat) (f : Formatted) : Prop :=
  ∀ t, f = .text t → 0 < t.length → room ≤ t.length ∨ 2 ^ 31 ≤ t.length

/-- What `vsnprintf` stores fits. -/
theorem vsnprintf_length (size : Nat) (f : Formatted) : (vsnprintf size f).1.length ≤ size := by
  cases f with
  | text bytes =>
    simp only [vsnprintf]
    split
    · exact Nat.zero_le _
    · simp only [snprintf, List.length_append, List.length_take, List.length_singleton]
      omega
  | error e stored => exact List.length_take_le ..

/-- **`sbuffer_push`** appends the whole text, or it moves nothing and
touches no byte before `pos`. -/
theorem Law.push_spec (h : Law len w) (f : Formatted) :
    ∃ mem pos r, w.sbuffer.push f = some ({ w.sbuffer with mem := mem, pos := pos }, r) ∧
      mem.length ≤ len.toNat ∧ w.sbuffer.mem.take w.sbuffer.pos <+: mem ∧
      ((Refused r ∧ Unfit w.sbuffer.remaining f ∧ pos = w.sbuffer.pos) ∨
        ∃ t, f = .text t ∧ 0 < t.length ∧ t.length < w.sbuffer.remaining ∧ r = .ok t.length ∧
          pos = w.sbuffer.pos + t.length ∧ w.sbuffer.mem.take w.sbuffer.pos ++ t <+: mem) := by
  have hfit : w.sbuffer.pos + (vsnprintf w.sbuffer.remaining f).1.length ≤ len.toNat := by
    have := vsnprintf_length w.sbuffer.remaining f
    have := h.remaining_eq
    have := h.pos_le
    omega
  obtain ⟨mem, hstore, hmem, hpre⟩ := store_spec h.stored hfit h.within
  have hkeep : w.sbuffer.mem.take w.sbuffer.pos <+: mem := (List.prefix_append _ _).trans hpre
  unfold Sbuffer.push
  simp only [h.cap, hstore, Option.map_some]
  cases f with
  | error e stored =>
    exact ⟨mem, _, .error e, rfl, hmem, hkeep, Or.inl ⟨by simp [Refused], by simp [Unfit], rfl⟩⟩
  | text t =>
    simp only [vsnprintf] at hpre ⊢
    by_cases hint : t.length < 2 ^ 31
    · rw [if_pos hint]
      dsimp only
      by_cases h0 : 0 < t.length
      · rw [if_pos h0]
        by_cases hroom : w.sbuffer.remaining ≤ t.length
        · refine ⟨mem, _, .ok 0, ?_, hmem, hkeep, Or.inl ⟨by simp [Refused], ?_, rfl⟩⟩
          · exact congrArg some (if_pos (by simpa [Sbuffer.remaining, h.cap] using hroom))
          · rintro _ ⟨⟩ _
            exact Or.inl hroom
        · refine ⟨mem, _, .ok t.length, ?_, hmem, hkeep,
            Or.inr ⟨t, rfl, h0, by omega, rfl, rfl, ?_⟩⟩
          · exact congrArg some (if_neg (by simpa [Sbuffer.remaining, h.cap] using hroom))
          · have hwhole : t.length ≤ w.sbuffer.remaining - 1 := by omega
            rw [if_neg (by omega), snprintf, List.take_of_length_le hwhole, ← List.append_assoc]
              at hpre
            exact (List.prefix_append _ _).trans hpre
      · rw [if_neg h0]
        refine ⟨mem, _, .ok t.length, rfl, hmem, hkeep, Or.inl ⟨?_, ?_, rfl⟩⟩
        · rintro _ ⟨⟩
          exact Nat.eq_zero_of_not_pos h0
        · rintro _ ⟨⟩ hpos
          exact absurd hpos h0
    · rw [if_neg hint]
      refine ⟨mem, _, .error EOVERFLOW, rfl, hmem, hkeep, Or.inl ⟨by simp [Refused], ?_, rfl⟩⟩
      rintro _ ⟨⟩ _
      exact Or.inr (Nat.not_lt.mp hint)

/-- The world after a push. -/
def pushedTo (w : World) (f : Formatted) (mem : Bytes) (pos : Nat) (r : Pushed) : World :=
  { w with sbuffer := { w.sbuffer with mem := mem, pos := pos }, pushes := w.pushes ++ [(f, r)] }

theorem take_of_prefix {a l : Bytes} (h : a <+: l) : l.take a.length = a :=
  (List.prefix_iff_eq_take.mp h).symm

theorem Law.take_pos_length (h : Law len w) :
    (w.sbuffer.mem.take w.sbuffer.pos).length = w.sbuffer.pos :=
  List.length_take_of_le h.stored

theorem added_refused (hr : Refused r) : added (f, r) = [] := by
  cases f with
  | error e stored => rfl
  | text t =>
    cases r with
    | error e => rfl
    | ok n =>
      rw [hr n rfl]
      rfl

/-- A refused push keeps the law: the stream is what it was. -/
theorem Law.refused (h : Law len w) {mem : Bytes} (hmem : mem.length ≤ len.toNat)
    (hkeep : w.sbuffer.mem.take w.sbuffer.pos <+: mem) (hr : Refused r) :
    Law len (pushedTo w f mem w.sbuffer.pos r) := by
  have htake : mem.take w.sbuffer.pos = w.sbuffer.mem.take w.sbuffer.pos := by
    have := take_of_prefix hkeep
    rwa [h.take_pos_length] at this
  have hstored : w.sbuffer.pos ≤ mem.length := h.take_pos_length ▸ hkeep.length_le
  have hsame : (pushedTo w f mem w.sbuffer.pos r).sbuffer.unwrittenBytes =
      w.sbuffer.unwrittenBytes := by
    rw [h.unwrittenBytes_eq, Sbuffer.unwrittenBytes, ← htake, List.drop_take]
    exact congrArg (List.take · _) h.unwritten_eq
  refine ⟨h.cap, h.ordered, hstored, hmem, h.room, ?_, h.written⟩
  have hnone : accepted (pushedTo w f mem w.sbuffer.pos r).pushes = accepted w.pushes := by
    simp [pushedTo, accepted, added_refused hr]
  rw [hsame, hnone]
  exact h.stream

/-- A push that is accepted adds its text to what is not written yet. -/
theorem Law.pushed (h : Law len w) {mem t : Bytes} (hmem : mem.length ≤ len.toNat)
    (ht : 0 < t.length) (hroom : t.length < w.sbuffer.remaining)
    (hpre : w.sbuffer.mem.take w.sbuffer.pos ++ t <+: mem) :
    Law len (pushedTo w (.text t) mem (w.sbuffer.pos + t.length) (.ok t.length)) := by
  have hlength : (w.sbuffer.mem.take w.sbuffer.pos ++ t).length = w.sbuffer.pos + t.length := by
    rw [List.length_append, h.take_pos_length]
  have hstored : w.sbuffer.pos + t.length ≤ mem.length := hlength ▸ hpre.length_le
  have htake : mem.take (w.sbuffer.pos + t.length) = w.sbuffer.mem.take w.sbuffer.pos ++ t := by
    have := take_of_prefix hpre
    rwa [hlength] at this
  have hordered : w.sbuffer.writepos ≤ w.sbuffer.pos + t.length :=
    h.ordered.trans (Nat.le_add_right _ _)
  have hroom' : w.sbuffer.pos + t.length < len.toNat := by
    have := h.remaining_eq
    omega
  have hmore : (pushedTo w (.text t) mem (w.sbuffer.pos + t.length)
      (.ok t.length)).sbuffer.unwrittenBytes = w.sbuffer.unwrittenBytes ++ t := by
    have hdiff : sizeDiff (w.sbuffer.pos + t.length) w.sbuffer.writepos =
        w.sbuffer.pos + t.length - w.sbuffer.writepos :=
      sizeDiff_eq hordered (hroom'.trans len.toNat_lt)
    have hle : w.sbuffer.writepos ≤ (w.sbuffer.mem.take w.sbuffer.pos).length := by
      rw [h.take_pos_length]
      exact h.ordered
    rw [h.unwrittenBytes_eq, ← List.drop_append_of_le_length hle, ← htake, List.drop_take]
    exact congrArg (List.take · _) hdiff
  refine ⟨h.cap, hordered, hstored, hmem, fun _ => hroom', ?_, h.written⟩
  have hadded : accepted (pushedTo w (.text t) mem (w.sbuffer.pos + t.length)
      (.ok t.length)).pushes = accepted w.pushes ++ t := by
    simp [pushedTo, accepted, added, ht]
  rw [hmore, hadded, ← h.stream, List.append_assoc]
  rfl

/-- What `sbuffer_push` does to a buffer that keeps the law. -/
inductive AfterPush (len : UInt64) (w : World) (f : Formatted) : Pushed → World → Prop
  | refused (mem : Bytes) (r : Pushed) (hr : Refused r) (hunfit : Unfit w.sbuffer.remaining f)
      (hkeep : w.sbuffer.mem.take w.sbuffer.pos <+: mem)
      (law : Law len (pushedTo w f mem w.sbuffer.pos r)) :
      AfterPush len w f r (pushedTo w f mem w.sbuffer.pos r)
  | accepted (mem t : Bytes) (hf : f = .text t) (ht : 0 < t.length)
      (hroom : t.length < w.sbuffer.remaining)
      (law : Law len (pushedTo w f mem (w.sbuffer.pos + t.length) (.ok t.length))) :
      AfterPush len w f (.ok t.length)
        (pushedTo w f mem (w.sbuffer.pos + t.length) (.ok t.length))

/-- The push as a step of a program: it reads no answer. -/
theorem Law.sbufferPush_run (h : Law len w) (f : Formatted) (ans : List Answer) :
    ∃ r w', sbufferPush f w ans = .done r w' ans ∧ AfterPush len w f r w' := by
  obtain ⟨mem, pos, r, hpush, hmem, hkeep,
    ⟨hr, hunfit, rfl⟩ | ⟨t, rfl, ht, hroom, rfl, rfl, hpre⟩⟩ :=
    h.push_spec f
  · exact ⟨r, _, Prog.step_done (by rw [hpush]; rfl) ans,
      .refused mem r hr hunfit hkeep (h.refused hmem hkeep hr)⟩
  · exact ⟨_, _, Prog.step_done (by rw [hpush]; rfl) ans,
      .accepted mem t rfl ht hroom (h.pushed hmem ht hroom hpre)⟩

/-! ## Flushing -/

/-- A flush that started from `w₀`, under way or with the result in
`done`: bytes have gone from the buffer to the descriptor, and none was
lost or repeated. -/
structure Flushing (len : UInt64) (w₀ : World) (done : List Ret) (w : World) : Prop where
  law : Law len w
  mem : w.sbuffer.mem = w₀.sbuffer.mem
  pos : w.sbuffer.pos = w₀.sbuffer.pos
  pushes : w.pushes = w₀.pushes
  flushes : w.flushes = w₀.flushes ++ done
  out : w₀.out <+: w.out
  stream : w.out ++ w.sbuffer.unwrittenBytes = w₀.out ++ w₀.sbuffer.unwrittenBytes

/-- A flush that started from `w₀` and wrote everything. -/
structure Flushed (len : UInt64) (w₀ : World) (done : List Ret) (w : World) : Prop where
  law : Law len w
  pos : w.sbuffer.pos = 0
  pushes : w.pushes = w₀.pushes
  flushes : w.flushes = w₀.flushes ++ done
  out : w.out = w₀.out ++ w₀.sbuffer.unwrittenBytes

variable {w₀ : World} {done : List Ret}

theorem Law.flushing (h : Law len w) : Flushing len w [] w :=
  ⟨h, rfl, rfl, rfl, (List.append_nil _).symm, List.prefix_rfl, rfl⟩

theorem taken_le {n count : Nat} (h : 0 < count) : taken n count ≤ count := by
  unfold taken
  omega

/-- A `write` reads what is in the buffer. -/
theorem Law.advance_run (h : Law len w) (n : Nat) (ans : List Answer) :
    advance n w ans = .done () (w.advanced n) ans := by
  have := h.unwritten_eq
  have := h.ordered
  have := h.stored
  unfold advance
  refine Prog.step_done ?_ ans
  rw [if_pos (by omega)]

theorem Law.advanced_unwritten (h : Law len w) {n : Nat} (hn : n ≤ w.sbuffer.unwritten) :
    (w.advanced n).sbuffer.unwritten = w.sbuffer.unwritten - n := by
  have hordered := h.ordered
  rw [h.unwritten_eq] at hn ⊢
  rw [Nat.sub_sub]
  exact sizeDiff_eq (by show w.sbuffer.writepos + n ≤ w.sbuffer.pos; omega)
    (Nat.lt_of_le_of_lt h.pos_le len.toNat_lt)

/-- A `write` that took `n` bytes. -/
theorem Flushing.advanced (h : Flushing len w₀ done w) {n : Nat} (hn : n ≤ w.sbuffer.unwritten) :
    Flushing len w₀ done (w.advanced n) := by
  have hdiff := h.law.unwritten_eq
  have hordered := h.law.ordered
  have hstored := h.law.stored
  have hbytes : (w.sbuffer.unwrittenBytes.take n).length = n := by
    rw [Sbuffer.unwrittenBytes, List.length_take, List.length_take, List.length_drop]
    omega
  have hrest : (w.advanced n).sbuffer.unwrittenBytes = w.sbuffer.unwrittenBytes.drop n := by
    rw [Sbuffer.unwrittenBytes, Sbuffer.unwrittenBytes, h.law.advanced_unwritten hn, List.drop_take,
      List.drop_drop]
    rfl
  have hstream : w.out ++ w.sbuffer.unwrittenBytes.take n ++ w.sbuffer.unwrittenBytes.drop n =
      w.out ++ w.sbuffer.unwrittenBytes := by
    rw [List.append_assoc, List.take_append_drop]
  refine ⟨⟨h.law.cap, ?_, hstored, h.law.within, h.law.room, ?_, ?_⟩, h.mem, h.pos, h.pushes,
    h.flushes, h.out.trans (List.prefix_append _ _), ?_⟩
  · show w.sbuffer.writepos + n ≤ w.sbuffer.pos
    omega
  · rw [hrest]
    exact hstream.trans h.law.stream
  · show w.sbuffer.written + UInt64.ofNat n = UInt64.ofNat (w.out ++ _).length
    rw [List.length_append, hbytes, h.law.written, UInt64.ofNat_add]
  · rw [hrest]
    exact hstream.trans h.stream

/-- The end of a flush: nothing is left to write. -/
theorem Flushing.reset (h : Flushing len w₀ done w) (h0 : ¬ 0 < w.sbuffer.unwritten) :
    Flushed len w₀ done { w with sbuffer := { w.sbuffer with pos := 0, writepos := 0 } } := by
  have hnone : w.sbuffer.unwrittenBytes = [] := by
    rw [Sbuffer.unwrittenBytes, Nat.eq_zero_of_not_pos h0, List.take_zero]
  have hout := h.stream
  rw [hnone, List.append_nil] at hout
  have hlaw := h.law.stream
  rw [hnone, List.append_nil] at hlaw
  refine ⟨⟨h.law.cap, Nat.le_refl 0, Nat.zero_le _, h.law.within, id, ?_, h.law.written⟩, rfl,
    h.pushes, h.flushes, hout⟩
  exact (List.append_nil _).trans hlaw

variable {X : Contract Answer World}

/-- A law is about neither list, so their results may be noted. -/
theorem Law.noted (h : Law len w) (fs : List Ret) : Law len { w with flushes := fs } :=
  ⟨h.cap, h.ordered, h.stored, h.within, h.room, h.stream, h.written⟩

/-- The loop of `sbuffer_flush`. -/
theorem flushLoop_triple (hX : ∀ w, Flushing len w₀ [] w → X.waits w) :
    Triple X (Flushing len w₀ []) (Prog.iterate (fun _ => flushTurn) ())
      (fun r w => (r = .ok () ∧ Flushed len w₀ [] w) ∨
        ((∃ e, r = .error e) ∧ Flushing len w₀ [] w)) := by
  refine Triple.iterate (I := fun _ => Flushing len w₀ []) (fun _ => hX) (fun _ => ?_) ()
  refine Triple.bind (R := fun b w => Flushing len w₀ [] w ∧ w.sbuffer = b)
    (Triple.bind Triple.get fun _ => Triple.pure fun w h => ⟨h.1, by rw [h.2]⟩) fun b => ?_
  refine Triple.ite (fun h0 => ?_) fun h0 => ?_
  · refine Triple.bind (R := fun _ w => Flushing len w₀ [] w ∧ w.sbuffer = b)
      (Triple.ask (fun w h => hX w h.1) fun _ _ h _ => h) fun x => ?_
    cases x.write with
    | error e =>
      refine Triple.ite (fun _ => ?_) fun _ => Triple.pure fun w h => Or.inr ⟨⟨e, rfl⟩, h.1⟩
      refine Triple.bind (R := fun _ w => Flushing len w₀ [] w)
        (Triple.ask (fun w h => hX w h.1) fun _ _ h _ => h.1) fun y => ?_
      cases y.poll with
      | error e => exact Triple.pure fun w h => Or.inr ⟨⟨e, rfl⟩, h⟩
      | ok ready =>
        cases ready with
        | false => exact Triple.pure fun w h => Or.inr ⟨⟨.EAGAIN, rfl⟩, h⟩
        | true => exact Triple.pure fun w h => h
    | ok n =>
      refine Triple.bind (R := fun _ => Flushing len w₀ []) (fun w ans h hA => ?_) fun _ =>
        Triple.pure fun w h => h
      obtain ⟨h, rfl⟩ := h
      rw [h.law.advance_run]
      exact ⟨h.advanced (taken_le h0), hA⟩
  · refine Triple.bind (R := fun _ => Flushed len w₀ [])
      (Triple.modify fun w ⟨h, hb⟩ => ?_) fun _ =>
      Triple.pure fun w h => Or.inl ⟨rfl, h⟩
    exact h.reset (hb ▸ h0)

/-- How a flush ends: everything is written, or it failed somewhere on the
way. -/
def FlushEnd (len : UInt64) (w₀ : World) (r : Ret) (w : World) : Prop :=
  (r = .ok () ∧ Flushed len w₀ [.ok ()] w) ∨ ∃ e, r = .error e ∧ Flushing len w₀ [.error e] w

/-- **`sbuffer_flush`**. -/
theorem sbufferFlush_triple (hX : ∀ w, Flushing len w₀ [] w → X.waits w) :
    Triple X (Flushing len w₀ []) sbufferFlush (FlushEnd len w₀) := by
  refine Triple.bind (flushLoop_triple hX) fun r => ?_
  refine Triple.bind (R := fun _ => FlushEnd len w₀ r) (Triple.modify fun w h => ?_) fun _ =>
    Triple.pure fun w h => h
  rcases h with ⟨rfl, h⟩ | ⟨⟨e, rfl⟩, h⟩
  · have hflushes := h.flushes
    rw [List.append_nil] at hflushes
    exact Or.inl ⟨rfl, h.law.noted _, h.pos, h.pushes, by rw [hflushes], h.out⟩
  · have hflushes := h.flushes
    rw [List.append_nil] at hflushes
    exact Or.inr ⟨e, rfl, h.law.noted _, h.mem, h.pos, h.pushes, by rw [hflushes], h.out, h.stream⟩

/-- `sbuffer_checkflush`: there is room enough, or it flushes. -/
theorem sbufferCheckflush_triple (leftover : Nat) (hX : ∀ w, Flushing len w₀ [] w → X.waits w) :
    Triple X (fun w => w = w₀ ∧ Law len w) (sbufferCheckflush leftover)
      (fun r w => (r = .ok () ∧ w = w₀ ∧ leftover ≤ w.sbuffer.remaining) ∨
        w₀.sbuffer.remaining < leftover ∧ FlushEnd len w₀ r w) := by
  refine Triple.bind (R := fun b w => (w = w₀ ∧ Law len w) ∧ w.sbuffer = b)
    (Triple.bind Triple.get fun _ => Triple.pure fun w h => ⟨h.1, by rw [h.2]⟩) fun b => ?_
  refine Triple.ite (fun hfull w ans h hA => ?_) fun hroom => Triple.pure fun w ⟨⟨hw, _⟩, hb⟩ =>
    Or.inl ⟨rfl, hw, hb ▸ Nat.not_lt.mp hroom⟩
  obtain ⟨⟨rfl, h⟩, rfl⟩ := h
  exact ((sbufferFlush_triple hX).post fun r w h => Or.inr ⟨hfull, h⟩) w ans h.flushing hA

/-- The turn that finds nothing to write. -/
theorem flushTurn_end (h0 : ¬ 0 < w.sbuffer.unwritten) (ans : List Answer) :
    flushTurn w ans = .done (.inr (.ok ()))
      { w with sbuffer := { w.sbuffer with pos := 0, writepos := 0 } } ans := by
  simp only [flushTurn, getSbuffer, Prog.bind_run, Prog.get_run, Prog.pure_run, if_neg h0,
    resetSbuffer, Prog.modify_run]

/-- A flush of an empty buffer makes no call. -/
theorem Law.sbufferFlush_empty (h : Law len w) (h0 : ¬ 0 < w.sbuffer.unwritten)
    (ans : List Answer) :
    ∃ w', sbufferFlush w ans = .done (.ok ()) w' ans ∧ Flushed len w [.ok ()] w' := by
  have hloop : Prog.iterate (fun _ => flushTurn) () w ans = .done (.ok ())
      { w with sbuffer := { w.sbuffer with pos := 0, writepos := 0 } } ans := by
    rw [Prog.iterate, Prog.iterateN_succ, flushTurn_end h0]
  obtain ⟨hlaw, hpos, hpushes, -, hout⟩ := h.flushing.reset h0
  refine ⟨_, ?_, hlaw.noted (w.flushes ++ [.ok ()]), hpos, hpushes, rfl, hout⟩
  rw [sbufferFlush, Prog.bind_done hloop]
  rfl

/-- A flush with one `write` that takes everything. -/
theorem Law.sbufferFlush_once (h : Law len w) (h0 : 0 < w.sbuffer.unwritten) {n : Nat}
    (hn : w.sbuffer.unwritten ≤ n) (ans : List Answer) :
    ∃ w', sbufferFlush w ({ write := .ok n } :: ans) = .done (.ok ()) w' ans ∧
      Flushed len w [.ok ()] w' := by
  have htaken : taken n w.sbuffer.unwritten = w.sbuffer.unwritten := by
    unfold taken
    omega
  have hfirst : flushTurn w ({ write := .ok n } :: ans) =
      .done (.inl ()) (w.advanced w.sbuffer.unwritten) ans := by
    have hadvance := h.advance_run w.sbuffer.unwritten ans
    rw [← htaken] at hadvance
    simp only [flushTurn, getSbuffer, Prog.bind_run, Prog.get_run, Prog.pure_run, if_pos h0,
      systemCall, Prog.ask_cons, hadvance]
    rw [htaken]
  have hnone : ¬ 0 < (w.advanced w.sbuffer.unwritten).sbuffer.unwritten := by
    rw [h.advanced_unwritten (Nat.le_refl _), Nat.sub_self]
    exact Nat.lt_irrefl 0
  have hloop : Prog.iterate (fun _ => flushTurn) () w ({ write := .ok n } :: ans) =
      .done (.ok ()) { w.advanced w.sbuffer.unwritten with
        sbuffer := { (w.advanced w.sbuffer.unwritten).sbuffer with pos := 0, writepos := 0 } }
        ans := by
    rw [Prog.iterate, List.length_cons, Prog.iterateN_succ, hfirst]
    dsimp only
    rw [Prog.iterateN_succ, flushTurn_end hnone]
  obtain ⟨hlaw, hpos, hpushes, -, hout⟩ := (h.flushing.advanced (Nat.le_refl _)).reset hnone
  refine ⟨_, ?_, hlaw.noted (w.flushes ++ [.ok ()]), hpos, hpushes, rfl, hout⟩
  rw [sbufferFlush, Prog.bind_done hloop]
  rfl

end Sgopher.Gopherlist
