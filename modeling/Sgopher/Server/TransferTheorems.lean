/-
Sgopher.Server.TransferTheorems — when the `sendfile` loop of
`client_socket` comes to an end.

Each turn of the loop makes one call of `sendfile`. It leaves for an
error, and where the whole file, as large as it was when the transfer was
settled on, is sent; so it does not leave while the calls succeed and send
nothing. `leaves` is the loop without the worker around it, a function of
the results alone, and `sendFile_leaves` says that the loop returns when
that does. Over an endless sequence of results the offset only grows, and
is bounded, so there is one way not to leave: from some call on all of
them send nothing (`Stalls`). That is what happens when the file is cut
off below the offset.

No `sorry`, no `axiom`, no `native_decide`.
-/
import Sgopher.Server.ConfinementTheorems

namespace Sgopher.Server

open Sgopher.Lib Sgopher.Sepoll

variable {y : Context} {a : Nat} {c : Client} {f : File} {m : Option Registration} {n k : Int}
  {w : World} {xs : ℕ → Answer} {x : Answer} {ans rest : List Answer}

/-! ## The results -/

/-- The bytes one call sends at an offset, of a file that was as large as
`f.size` and has the bytes `f.content`. -/
def moved (f : File) (offset : Int) (x : Answer) : Nat :=
  match x.sendfile with
  | .ok n => (sendfileBytes (.file f) offset (sendCount f.size offset) n).length
  | .error _ => 0

/-- Where the transfer is after that many calls. -/
def offsetAfter (f : File) (offset : Int) (xs : ℕ → Answer) : ℕ → Int
  | 0 => offset
  | i + 1 => offsetAfter f offset xs i + moved f (offsetAfter f offset xs i) (xs i)

/-- No call fails, and from some call on, which does not complete the file,
none of them sends anything. -/
def Stalls (f : File) (offset : Int) (xs : ℕ → Answer) : Prop :=
  (∀ i e, (xs i).sendfile ≠ .error e) ∧
    ∃ k, offsetAfter f offset xs (k + 1) < f.size ∧
      ∀ i, k ≤ i → moved f (offsetAfter f offset xs k) (xs i) = 0

/-- The loop leaves within these calls. -/
def leaves (f : File) : Int → List Answer → Bool
  | _, [] => false
  | offset, x :: rest =>
    match x.sendfile with
    | .error _ => true
    | .ok _ =>
      let offset := offset + moved f offset x
      if offset < f.size then leaves f offset rest else true

/-- One call ends the loop: it fails, or completes the file. -/
def EndsAt (f : File) (offset : Int) (xs : ℕ → Answer) (i : ℕ) : Prop :=
  (∃ e, (xs i).sendfile = .error e) ∨ f.size ≤ offsetAfter f offset xs (i + 1)

theorem offsetAfter_shift (f : File) (offset : Int) (xs : ℕ → Answer) (i : ℕ) :
    offsetAfter f (offset + moved f offset (xs 0)) (fun j => xs (j + 1)) i
      = offsetAfter f offset xs (i + 1) := by
  induction i with
  | zero => rfl
  | succ i ih => rw [offsetAfter, ih, ← offsetAfter]

/-- The loop leaves within a number of calls if and only if one of them
ends it. -/
theorem leaves_iff (f : File) (N : ℕ) : ∀ (offset : Int) (xs : ℕ → Answer),
    leaves f offset ((List.range N).map xs) = true ↔ ∃ i < N, EndsAt f offset xs i := by
  induction N with
  | zero => simp [leaves]
  | succ N ih =>
    intro offset xs
    have hsplit : (∃ i < N + 1, EndsAt f offset xs i) ↔ EndsAt f offset xs 0 ∨
        ∃ i < N, EndsAt f offset xs (i + 1) := by
      constructor
      · rintro ⟨i, hi, h⟩
        cases i with
        | zero => exact Or.inl h
        | succ i => exact Or.inr ⟨i, by omega, h⟩
      · rintro (h | ⟨i, hi, h⟩)
        · exact ⟨0, by omega, h⟩
        · exact ⟨i + 1, by omega, h⟩
    have hshift : ∀ i, EndsAt f (offset + moved f offset (xs 0)) (fun j => xs (j + 1)) i
        ↔ EndsAt f offset xs (i + 1) := fun i => by
      rw [EndsAt, EndsAt, offsetAfter_shift]
    rw [hsplit, List.range_succ_eq_map, List.map_cons, List.map_map]
    cases hx : (xs 0).sendfile with
    | error e =>
      rw [leaves, hx]
      exact iff_of_true rfl (Or.inl (Or.inl ⟨e, hx⟩))
    | ok r =>
      rw [leaves, hx]
      dsimp only
      have hzero : EndsAt f offset xs 0 ↔ f.size ≤ offset + moved f offset (xs 0) :=
        ⟨fun h => h.elim (fun ⟨e, he⟩ => absurd (hx.symm.trans he) (by simp)) id, Or.inr⟩
      split
      · rename_i hlt
        have hrest := ih (offset + moved f offset (xs 0)) fun j => xs (j + 1)
        simp only [hshift] at hrest
        rw [show (xs ∘ Nat.succ) = fun j => xs (j + 1) from rfl, hrest, hzero]
        exact ⟨Or.inr, fun h => h.resolve_left (by omega)⟩
      · rename_i hge
        exact iff_of_true rfl (Or.inl (hzero.mpr (by omega)))

/-! ## Not leaving -/

theorem offsetAfter_le (f : File) (offset : Int) (xs : ℕ → Answer) {i j : ℕ} (h : i ≤ j) :
    offsetAfter f offset xs i ≤ offsetAfter f offset xs j := by
  induction j, h using Nat.le_induction with
  | base => exact le_refl _
  | succ j _ ih => exact ih.trans (by rw [offsetAfter]; omega)

/-- Where nothing is sent from a call on, the offset stays. -/
theorem offsetAfter_stalled {offset : Int} {i j : ℕ}
    (h : ∀ i, j ≤ i → moved f (offsetAfter f offset xs j) (xs i) = 0) (hij : j ≤ i) :
    offsetAfter f offset xs i = offsetAfter f offset xs j := by
  induction i, hij using Nat.le_induction with
  | base => rfl
  | succ i hi ih =>
    have hnone := h i hi
    rw [offsetAfter, ih, hnone]
    simp

/-- An offset that only grows and stays below the size stays where it is
in the end. -/
theorem offsetAfter_settles {offset : Int}
    (h : ∀ i, offsetAfter f offset xs (i + 1) < f.size) :
    ∃ k, ∀ i, k ≤ i → offsetAfter f offset xs i = offsetAfter f offset xs k := by
  let left : ℕ → ℕ := fun i => (f.size - offsetAfter f offset xs i).toNat
  obtain ⟨k, hk⟩ : ∃ k, ∀ i, left k ≤ left i := ⟨_, fun i => Function.argmin_le left i⟩
  refine ⟨k, fun i hi => ?_⟩
  have hle : (f.size - offsetAfter f offset xs k).toNat
      ≤ (f.size - offsetAfter f offset xs i).toNat := hk i
  have hmono := offsetAfter_le f offset xs hi
  have hlt := h i
  have hstep := offsetAfter_le f offset xs (i.le_add_right 1)
  omega

/-- Stalling is the one way not to leave. -/
theorem stalls_iff (f : File) (offset : Int) (xs : ℕ → Answer) :
    Stalls f offset xs ↔ ∀ i, ¬ EndsAt f offset xs i := by
  constructor
  · rintro ⟨hok, k, hlt, hstall⟩ i (⟨e, he⟩ | hge)
    · exact hok i e he
    · have hsame := offsetAfter_stalled hstall (k.le_add_right 1)
      rcases Nat.le_total i k with hi | hi
      · have := offsetAfter_le f offset xs (Nat.add_le_add_right hi 1)
        omega
      · have := offsetAfter_stalled hstall (Nat.le_add_right_of_le (k := 1) hi)
        omega
  · intro h
    have hlt : ∀ i, offsetAfter f offset xs (i + 1) < f.size := fun i => by
      by_contra hge
      exact h i (Or.inr (by omega))
    refine ⟨fun i e he => h i (Or.inl ⟨e, he⟩), ?_⟩
    obtain ⟨k, hk⟩ := offsetAfter_settles hlt
    refine ⟨k, hlt k, fun i hi => ?_⟩
    have hnext := hk (i + 1) (by omega)
    rw [offsetAfter, hk i hi] at hnext
    omega

/-! ## The loop -/

/-- The client is being sent the file, and the transfer is at an offset. -/
def SendsFrom (y : Context) (a : Nat) (c : Client) (f : File) (m : Option Registration)
    (n : Int) (w : World) : Prop :=
  ∃ L, Sending { c with sentsize := n } L f ∧ ¬ y.strict ∧
    Held y a { c with sentsize := n } (some f) m L w

/-- The menu and `client_disconnect`, after an error, make no call that
waits. -/
theorem sendFile_error (hc : c.Apart) (h : SendsFrom y a c f m n w) (e : Errno)
    (rest : List Answer) : ∃ r w' rest',
      (do
        Prog.when (e ≠ .EPIPE ∧ n = 0) (sendMenu c.socket .internal)
        let more ← hangUp a
        pure (.inr more) : Program (Unit ⊕ Bool)) w rest = .done (.inr r) w' rest' := by
  obtain ⟨L, hs, _, hheld⟩ := h
  have hleave : Triple noCall (Held y a { c with sentsize := n } (some f) m L)
      (do
        Prog.when (e ≠ .EPIPE ∧ n = 0) (sendMenu c.socket .internal)
        let more ← hangUp a
        pure (.inr more) : Program (Unit ⊕ Bool)) (fun r _ => ∃ b, r = .inr b) := by
    refine Triple.bind (R := fun _ w => ∃ L, Held y a { c with sentsize := n } (some f) m L w)
      ?_ fun _ => ?_
    · refine Triple.when (fun hmenu => ?_) fun _ w h => ⟨L, h⟩
      exact (note_held fun h => h.menu ((hs.silent hmenu.2).menu _)).post fun _ w h => ⟨_, h⟩
    · refine Triple.exists_pre fun L => ?_
      exact Triple.bind (hangUp_triple (Φ := fun _ => True) hc) fun more =>
        Triple.pure fun _ _ => ⟨more, rfl⟩
  obtain ⟨_, w', rest', hrun, b, rfl⟩ := returns_of_noCall hleave hheld rest
  exact ⟨b, w', rest', hrun⟩

/-- What was sent is written down, and the transfer is that much further. -/
theorem sendFile_sent (h : SendsFrom y a c f m n w) {x : Answer} {r : Nat}
    (hx : x.sendfile = .ok r) (rest : List Answer) :
    ∃ w₁ w', SendsFrom y a c f m (n + moved f n x) w' ∧
      note c.socket (.data (sendfileBytes (.file f) n (sendCount f.size n) r)) w rest
        = .done () w₁ rest ∧
      setClient a { c with sentsize := n + moved f n x } w₁ rest = .done () w' rest := by
  obtain ⟨L, hs, hstrict, hheld⟩ := h
  have hmore := hs.more r
  have hmoved : moved f n x = (sendfileBytes (.file f) n (sendCount f.size n) r).length := by
    rw [moved, hx]
  rw [hmoved]
  generalize sendfileBytes (.file f) n (sendCount f.size n) r = bytes at hmore ⊢
  have hnoted : Triple noCall (Held y a { c with sentsize := n } (some f) m L)
      (note c.socket (.data bytes))
      (fun _ => Held y a { c with sentsize := n } (some f) m (L ++ [.data bytes])) :=
    note_held fun hl => hl.snoc hmore.reply (by simp) (by simp)
  have hgrown : Triple noCall
      (Held y a { c with sentsize := n } (some f) m (L ++ [.data bytes]))
      (setClient a { c with sentsize := n + bytes.length })
      (fun _ => Held y a { c with sentsize := n + bytes.length } (some f) m
        (L ++ [.data bytes])) := setClient_held rfl rfl rfl rfl
  obtain ⟨_, w₁, hnote, h₁⟩ := Triple.step_run hnoted id hheld rest fun _ _ => trivial
  obtain ⟨_, w', hset, h'⟩ := Triple.step_run hgrown id h₁ rest fun _ _ => trivial
  exact ⟨w₁, w', ⟨_, hmore, hstrict, h'⟩, hnote, hset⟩

/-- One turn of the loop: it waits for an answer, leaves for an error, and
otherwise moves on and leaves if the file is complete. -/
theorem sendFile_turn (hc : c.Apart) : ∃ body : Unit → Program (Unit ⊕ Bool),
    sendFile a = Prog.iterate body () ∧
    ∀ n w, SendsFrom y a c f m n w →
      (∃ w', body () w [] = .stopped w') ∧
      (∀ (x : Answer) rest e, x.sendfile = .error e →
        ∃ r w' rest', body () w (x :: rest) = .done (.inr r) w' rest') ∧
      ∀ (x : Answer) rest r, x.sendfile = .ok r →
        ∃ w', SendsFrom y a c f m (n + moved f n x) w' ∧ body () w (x :: rest)
          = .done (if n + moved f n x < f.size then .inl () else .inr true) w' rest := by
  refine ⟨_, rfl, fun n w hsends => ?_⟩
  have ⟨L, hs, _, h⟩ := hsends
  have hsize : c.filesize = some (f.size : Int) := hs.filesize
  refine ⟨⟨w, ?_⟩, fun x rest e hx => ?_, fun x rest r hx => ?_⟩
  all_goals
    rw [Prog.bind_done (getClient_run h.busy.cell _)]
    simp only [hsize]
    rw [Prog.bind_done (useFd_run h.kinds.socket _), Prog.bind_done (useFd_run (h.opened f rfl) _)]
  · rfl
  · rw [Prog.bind_done (systemCall_run w x rest)]
    simp only [hx]
    split
    · exact ⟨true, w, rest, rfl⟩
    · exact sendFile_error hc hsends e rest
  · rw [Prog.bind_done (systemCall_run w x rest)]
    simp only [hx]
    obtain ⟨w₁, w', hsends', hnote, hset⟩ := sendFile_sent hsends hx rest
    have hmoved : moved f n x = (sendfileBytes (.file f) n (sendCount f.size n) r).length := by
      rw [moved, hx]
    rw [hmoved] at hsends' hset ⊢
    refine ⟨w', hsends', ?_⟩
    rw [Prog.bind_done hnote, ← hsize, Prog.bind_done hset]
    split <;> rfl

/-- The loop returns on the answers on which it leaves, and waits on all
others. -/
theorem sendFile_leaves (hc : c.Apart) (h : SendsFrom y a c f m n w) (ans : List Answer) :
    if leaves f n ans then ∃ r w' rest, sendFile a w ans = .done r w' rest
    else ∃ w', sendFile a w ans = .stopped w' := by
  obtain ⟨body, hbody, hturn⟩ := sendFile_turn (y := y) (f := f) (m := m) hc
  rw [hbody]
  have key : ∀ (ans : List Answer) (fuel : ℕ) n w, SendsFrom y a c f m n w → ans.length < fuel →
      if leaves f n ans then ∃ r w' rest, Prog.iterateN body fuel () w ans = .done r w' rest
      else ∃ w', Prog.iterateN body fuel () w ans = .stopped w' := by
    intro ans
    induction ans with
    | nil =>
      intro fuel n w h hfuel
      obtain ⟨fuel, rfl⟩ := Nat.exists_eq_add_of_lt hfuel
      obtain ⟨w', hw'⟩ := (hturn n w h).1
      simp only [leaves, Bool.false_eq_true, if_false]
      exact ⟨w', by rw [Prog.iterateN_succ, hw']⟩
    | cons x rest ih =>
      intro fuel n w h hfuel
      obtain ⟨fuel, rfl⟩ := Nat.exists_eq_add_of_lt hfuel
      rw [leaves, Prog.iterateN_succ]
      cases hx : x.sendfile with
      | error e =>
        obtain ⟨r, w', rest', hrun⟩ := (hturn n w h).2.1 x rest e hx
        rw [hrun]
        exact ⟨r, w', rest', rfl⟩
      | ok r =>
        obtain ⟨w', h', hrun⟩ := (hturn n w h).2.2 x rest r hx
        rw [hrun]
        dsimp only
        by_cases hlt : n + moved f n x < f.size
        · simp only [hlt, if_true]
          exact ih _ _ _ h' (by simp only [List.length_cons]; omega)
        · simp only [hlt, if_false, if_true]
          exact ⟨true, w', rest, rfl⟩
  exact key ans _ n w h (Nat.lt_succ_self _)

theorem sendFile_ends_iff (hc : c.Apart) (h : SendsFrom y a c f m n w) (xs : ℕ → Answer) :
    (sendFile a).Ends w xs ↔ ¬ Stalls f n xs := by
  rw [stalls_iff, not_forall_not]
  constructor
  · rintro ⟨N, r, w', rest, hrun⟩
    have hleave := sendFile_leaves hc h ((List.range N).map xs)
    by_cases hl : leaves f n ((List.range N).map xs) = true
    · obtain ⟨i, _, hi⟩ := (leaves_iff f N n xs).mp hl
      exact ⟨i, hi⟩
    · rw [if_neg hl] at hleave
      obtain ⟨w'', hstop⟩ := hleave
      rw [hstop] at hrun
      cases hrun
  · rintro ⟨i, hi⟩
    have hleave := sendFile_leaves hc h ((List.range (i + 1)).map xs)
    rw [if_pos ((leaves_iff f (i + 1) n xs).mpr ⟨i, by omega, hi⟩)] at hleave
    obtain ⟨r, w', rest, hrun⟩ := hleave
    exact ⟨i + 1, r, w', rest, hrun⟩

/-- A file that is still as large as it was does not stall, where every
call that succeeds sends something of what is left. -/
theorem not_stalls {offset : Int} (h0 : 0 ≤ offset) (hsize : f.size < 2 ^ 63)
    (hwhole : f.size ≤ f.content.length) (hsome : ∀ i r, (xs i).sendfile = .ok r → 0 < r) :
    ¬ Stalls f offset xs := by
  rintro ⟨hok, k, hlt, hstall⟩
  have hmoved := hstall k (le_refl k)
  have hpos := offsetAfter_le f offset xs (k.zero_le)
  have hstep := offsetAfter_le f offset xs (k.le_add_right 1)
  rw [offsetAfter] at hpos
  cases hx : (xs k).sendfile with
  | error e => exact hok k e hx
  | ok r =>
    have hr := hsome k r hx
    simp only [moved, hx, sendfileBytes, sendCount, List.length_take, List.length_drop] at hmoved
    omega

/-! ## One call of `client_socket` -/

/-- `client_socket` is called for an event of a worker's batch that says
that the client's socket can be written to. -/
structure Writable (w : World) (e : EpollEvent) (a : Nat) (c : Client) (f : File) : Prop where
  reachable : Reachable .any w
  called : ∃ rest cb, w.loop.pending = e :: rest ∧ w.loop.heap.cell e.ptr = some cb ∧
    cb.function = some .clientSocket ∧ cb.userdata2 = .client a
  writable : hasEvent e.events EPOLLOUT = true
  cell : w.own.mem.cell a = some c
  file : w.own.fds.object c.file = some (.file f)

/-- The client is being sent its file. -/
theorem Writable.sendsFrom {e : EpollEvent} (h : Writable w e a c f) :
    c.Apart ∧ ∃ y m, SendsFrom y a c f m c.sentsize (w.withLoop w.loop.popped) := by
  obtain ⟨x, hx, hrest⟩ := h.reachable.resting
  obtain ⟨rest, cb, hp, hcb, hf, hu⟩ := h.called
  obtain ⟨y, d, r, L, hy, hheld, hstand, hrep, hset⟩ := hrest.called hp hcb hf hu
  obtain rfl : c = d := Option.some.inj (h.cell.symm.trans hheld.busy.cell)
  have hstrict : ¬ y.strict := by
    rw [Context.strict, hy, hx]
    exact id
  have hmask : ∀ mask : UInt32, r.events = mask →
      (mask ||| EPOLLERR ||| EPOLLHUP) &&& EPOLLOUT ≠ 0 := fun mask hm h0 => by
    have hrep' : Reported e mask := hm ▸ hrep
    exact absurd h.writable (by simp [hrep'.hasEvent h0])
  refine ⟨hset.apart, y, some r, ?_⟩
  cases hstand with
  | reading hm _ _ _ => exact (hmask (EPOLLIN ||| EPOLLET) (by simpa using hm) (by decide)).elim
  | cgi hm _ _ _ => exact (hmask EPOLLET (Option.some.inj hm) (by decide)).elim
  | sending g _ ho hs _ =>
    obtain rfl : f = g := Object.file.inj (Option.some.inj (h.file.symm.trans ho))
    exact ⟨L, hs, hstrict, hheld.busy, hheld.kinds, fun g hg => by cases hg; exact ho⟩

/-- **The transfer loop ends** unless it stalls. Whatever size was
recorded, whatever is left of the file and whatever `sendfile` answers,
the loop comes to an end if and only if it does not happen that the calls
succeed and, from one on that does not complete the file, send nothing. -/
theorem transfer_ends {e : EpollEvent} (h : Writable w e a c f) (xs : ℕ → Answer) :
    (sendFile a).Ends (w.withLoop w.loop.popped) xs ↔ ¬ Stalls f c.sentsize xs := by
  obtain ⟨hc, y, m, hs⟩ := h.sendsFrom
  exact sendFile_ends_iff hc hs xs

/-- A file of two bytes of which the first is left, and a client that is
being sent it. -/
def cutFile : File := ⟨S_IFREG, 2, ascii "h"⟩

def sendingCutFile : List Answer :=
  asked ++ [{ openat := .ok (9, cutFile) }, again, again, again,
    { loop := { wait := .ready [(8, EPOLLOUT)] } }]

/-- The worker when the client can be written to. -/
theorem writable_cutFile : ∃ w c, Writable w ⟨EPOLLOUT, 4⟩ 1 c cutFile ∧ c.sentsize = 0 := by
  have h : ((do register; batches 2 : Program Int) smallWorker sendingCutFile).Returns fun _ w =>
      w.loop.pending = [⟨EPOLLOUT, 4⟩] ∧
      (w.loop.heap.cell 4).map (fun cb => (cb.function, cb.userdata2))
        = some (some .clientSocket, .client 1) ∧
      (w.own.mem.cell 1).map (fun c => (c.sentsize, w.own.fds.object c.file))
        = some (0, some (.file cutFile)) := by decide +kernel
  obtain ⟨w, hreach, hp, hcb, hcell⟩ := reachable_of_batches h
  obtain ⟨cb, hc, hcb⟩ := Option.map_eq_some_iff.mp hcb
  obtain ⟨c, hcell, hfile⟩ := Option.map_eq_some_iff.mp hcell
  exact ⟨w, c, ⟨hreach, ⟨[], cb, hp, hc, (Prod.mk.inj hcb).1, (Prod.mk.inj hcb).2⟩, by decide,
    hcell, (Prod.mk.inj hfile).2⟩, (Prod.mk.inj hfile).1⟩

/-- The first call sends one byte, and the next one fails. -/
theorem transfer_ends_failed : ∃ w c, Writable w ⟨EPOLLOUT, 4⟩ 1 c cutFile ∧
    (sendFile 1).Ends (w.withLoop w.loop.popped) fun i =>
      { sendfile := if i = 0 then .ok 1 else .error .EPIPE } := by
  obtain ⟨w, c, h, _⟩ := writable_cutFile
  exact ⟨w, c, h, (transfer_ends h _).mpr fun hs => hs.1 1 .EPIPE rfl⟩

/-- The first call sends one byte, and the others none, since the file
ends there. -/
theorem transfer_stalls : ∃ w c, Writable w ⟨EPOLLOUT, 4⟩ 1 c cutFile ∧
    ¬ (sendFile 1).Ends (w.withLoop w.loop.popped) fun i =>
      { sendfile := .ok (if i = 0 then 1 else 0) } := by
  obtain ⟨w, c, h, h0⟩ := writable_cutFile
  refine ⟨w, c, h, fun hends => ?_⟩
  obtain ⟨hc, y, m, hs⟩ := h.sendsFrom
  refine (sendFile_ends_iff hc hs _).mp hends ⟨fun i e => by simp, 1, ?_, fun i hi => ?_⟩
  · rw [h0]
    decide +kernel
  · have hne : i ≠ 0 := by omega
    simp [moved, hne, sendfileBytes]

end Sgopher.Server
