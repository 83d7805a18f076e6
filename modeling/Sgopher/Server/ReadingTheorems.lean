/-
Sgopher.Server.ReadingTheorems — what the read loop of `client_socket`
makes of a request, however it arrives.

The bytes of a request come in any number of parts (`Delivers`), and then
the loop ends in one of three ways: the buffer is full, the read would
block, or it reads nothing, at the end of the stream. After the first two
the worker is in a state that depends on the bytes alone (`buffered`), and
the request is parsed. At the end of the stream the client is disconnected
at once, with its request in the buffer.

No `sorry`, no `axiom`, no `native_decide`.
-/
import Sgopher.Server.CgiTheorems

namespace Sgopher.Server

open Sgopher.Lib Sgopher.Sepoll

variable {a : Nat} {c : Client} {o : Object} {w : World} {bytes b p : Bytes} {x : Answer}
  {xs ys ans rest : List Answer}

/-! ## How a request arrives -/

/-- The answers to `read` that deliver some bytes, in parts of at least
one byte. -/
inductive Delivers : Bytes → List Answer → Prop
  | nil : Delivers [] []
  | cons {x : Answer} {p bytes : Bytes} {xs : List Answer} (hx : x.read = .ok p) (hp : p ≠ [])
      (h : Delivers bytes xs) : Delivers (p ++ bytes) (x :: xs)

theorem Delivers.eq_nil (h : Delivers [] xs) : xs = [] := by
  generalize hb : ([] : Bytes) = bytes at h
  cases h with
  | nil => rfl
  | cons _ hp _ => exact absurd (List.append_eq_nil_iff.mp hb.symm).1 hp

/-- How the loop ends: the buffer is full, the read would block, or the
stream is at its end. -/
inductive ReadEnd where
  | full
  | wouldBlock
  | closed
  deriving DecidableEq

/-- The answer the loop ends with, if it has to read once more. -/
def ReadEnd.Answered (bytes : Bytes) : ReadEnd → List Answer → Prop
  | .full, ys => ys = [] ∧ bytes.length = maxRequestSize
  | .wouldBlock, ys =>
    bytes.length < maxRequestSize ∧ ∃ y : Answer, ys = [y] ∧ y.read = .error .EAGAIN
  | .closed, ys => bytes.length < maxRequestSize ∧ ∃ y : Answer, ys = [y] ∧ y.read = .ok []

/-! ## The loop -/

/-- The worker, with some bytes in a client's buffer. -/
def buffered (w : World) (a : Nat) (c : Client) (ha : a ∈ w.own.mem.live) (buffer : Bytes) :
    World :=
  { w with own := { w.own with mem := w.own.mem.writeLive a { c with buffer := buffer } ha } }

variable {ha : a ∈ w.own.mem.live}

theorem getClient_buffered (ans : List Answer) :
    getClient a (buffered w a c ha b) ans
      = .done { c with buffer := b } (buffered w a c ha b) ans :=
  getClient_run (Heap.writeLive_cell_self w.own.mem a _ ha) ans

theorem setClient_buffered (b' : Bytes) (ans : List Answer) :
    setClient a { c with buffer := b' } (buffered w a c ha b) ans
      = .done () (buffered w a c ha b') ans := by
  refine Prog.step_done ?_ ans
  have hmem : (buffered w a c ha b).own.mem.write a { c with buffer := b' }
      = some (w.own.mem.writeLive a { c with buffer := b' } ha) := by
    rw [Heap.write_eq (show a ∈ (buffered w a c ha b).own.mem.live from ha)]
    simp [buffered, Heap.writeLive]
  rw [hmem]
  rfl

/-- One turn of the loop, by what is read. -/
theorem readRequest_turn (ha : a ∈ w.own.mem.live) (hsocket : w.own.fds.object c.socket = some o) :
    ∃ body : Unit → Program (Unit ⊕ Bool), readRequest a = Prog.iterate body () ∧
      ∀ b x rest,
        (x.read = .error .EAGAIN → body () (buffered w a c ha b) (x :: rest)
          = .done (.inr true) (buffered w a c ha b) rest) ∧
        (x.read = .ok [] → body () (buffered w a c ha b) (x :: rest)
          = (do let more ← hangUp a; pure (.inr more) : Program (Unit ⊕ Bool))
              (buffered w a c ha b) rest) ∧
        ∀ p, x.read = .ok p → p ≠ [] → b.length + p.length ≤ maxRequestSize →
          body () (buffered w a c ha b) (x :: rest)
            = .done (if b.length + p.length < maxRequestSize then .inl () else .inr true)
                (buffered w a c ha (b ++ p)) rest := by
  refine ⟨_, rfl, fun b x rest => ?_⟩
  have huse : ∀ ans, useFd c.socket (buffered w a c ha b) ans = .done o (buffered w a c ha b) ans :=
    useFd_run hsocket
  refine ⟨fun hx => ?_, fun hx => ?_, fun p hx hp hlen => ?_⟩
  all_goals
    rw [Prog.bind_done (getClient_buffered _), Prog.bind_done (huse _),
      Prog.bind_done (systemCall_run _ _ _)]
    simp only [hx]
  · rfl
  · rw [if_pos List.take_nil]
  · have htake : p.take (maxRequestSize - b.length) = p := List.take_of_length_le (by omega)
    rw [htake, if_neg hp, Prog.bind_done (setClient_buffered _ _), List.length_append]
    split <;> rfl

/-- The turns that read the parts of a request. They are the last ones if
the buffer is full then. -/
theorem iterateN_delivers {body : Unit → Program (Unit ⊕ Bool)}
    (hbody : ∀ b x rest p, x.read = .ok p → p ≠ [] → b.length + p.length ≤ maxRequestSize →
      body () (buffered w a c ha b) (x :: rest)
        = .done (if b.length + p.length < maxRequestSize then .inl () else .inr true)
            (buffered w a c ha (b ++ p)) rest) (h : Delivers bytes xs)
    (ans : List Answer) : ∀ b fuel, b.length < maxRequestSize →
      b.length + bytes.length ≤ maxRequestSize →
      Prog.iterateN body (fuel + xs.length) () (buffered w a c ha b) (xs ++ ans)
        = if b.length + bytes.length < maxRequestSize then
            Prog.iterateN body fuel () (buffered w a c ha (b ++ bytes)) ans
          else .done true (buffered w a c ha (b ++ bytes)) ans := by
  induction h with
  | nil =>
    intro b fuel hb _
    rw [if_pos (by simpa using hb), List.append_nil]
    rfl
  | @cons x p bytes xs hx hp h ih =>
    intro b fuel hb hle
    rw [List.length_append] at hle
    have hturn := hbody b x (xs ++ ans) p hx hp (by omega)
    rw [List.length_cons, ← Nat.add_assoc, List.cons_append, Prog.iterateN_succ, hturn,
      List.length_append, ← Nat.add_assoc, ← List.append_assoc]
    by_cases hlt : b.length + p.length < maxRequestSize
    · simp only [hlt, if_true]
      have hnext := ih (b ++ p) fuel (by simpa using hlt) (by rw [List.length_append]; omega)
      rw [hnext, List.length_append]
    · -- nothing is left once the buffer is full
      have hnil : bytes = [] := List.length_eq_zero_iff.mp (by omega)
      subst hnil
      obtain rfl := h.eq_nil
      simp only [hlt, List.length_nil, Nat.add_zero, if_false, List.append_nil, List.nil_append]

/-- **The read loop**, from an empty buffer on. -/
theorem readRequest_run (ha : a ∈ w.own.mem.live) (hsocket : w.own.fds.object c.socket = some o)
    (h : Delivers bytes xs)
    {e : ReadEnd} (he : e.Answered bytes ys) (rest : List Answer) :
    readRequest a (buffered w a c ha []) (xs ++ ys ++ rest)
      = if e = .closed then hangUp a (buffered w a c ha bytes) rest
        else .done true (buffered w a c ha bytes) rest := by
  obtain ⟨body, hbody, hturn⟩ := readRequest_turn ha hsocket
  have hfuel : ∃ fuel, (xs ++ ys ++ rest).length + 1 = (fuel + 1) + xs.length :=
    ⟨(ys ++ rest).length, by simp only [List.length_append]; omega⟩
  obtain ⟨fuel, hfuel⟩ := hfuel
  have hmax : 0 < maxRequestSize := by decide
  rw [hbody, Prog.iterate, hfuel, List.append_assoc]
  have hrun := iterateN_delivers (fun b x rest => (hturn b x rest).2.2) h
    (ys ++ rest) [] (fuel + 1) hmax
  rw [List.length_nil, Nat.zero_add, List.nil_append] at hrun
  cases e with
  | full =>
    obtain ⟨rfl, hlen⟩ := he
    rw [hrun (by omega), if_neg (by omega)]
    rfl
  | wouldBlock =>
    obtain ⟨hlen, y, rfl, hy⟩ := he
    rw [hrun (by omega), if_pos hlen, Prog.iterateN_succ, List.singleton_append,
      (hturn bytes y rest).1 hy]
    rfl
  | closed =>
    obtain ⟨hlen, y, rfl, hy⟩ := he
    rw [hrun (by omega), if_pos hlen, Prog.iterateN_succ, List.singleton_append,
      (hturn bytes y rest).2.1 hy, if_pos rfl, Prog.bind_run]
    cases hangUp a (buffered w a c ha bytes) rest <;> rfl

/-! ## One EPOLLIN branch -/

theorem buffered_self (hcell : w.own.mem.cell a = some c) :
    buffered w a c (Heap.mem_live_of_cell hcell) c.buffer = w := by
  have hmem : w.own.mem.writeLive a c (Heap.mem_live_of_cell hcell) = w.own.mem := by
    simp [Heap.writeLive, ← hcell]
  show { w with own := { w.own with mem := w.own.mem.writeLive a c _ } } = w
  rw [hmem]

/-- Where the caller does not go on, it was not for a full buffer. -/
theorem hangUp_ne_true {w₁ : World} : hangUp a w ans ≠ .done true w₁ rest := by
  intro h
  have hstays := ((hangUp_stays (P := fun _ => True)).done trivial (fun _ _ => trivial) h).1
  cases hstays

/-- **A complete request is answered** unless the end of the stream is
read behind it. For a client that has sent nothing so far, whatever bytes
arrive at once and in whatever parts, the worker goes on to parse them if
and only if reading does not end with a `read` of no bytes; and then what
it does depends on the bytes alone. -/
theorem request_answered (hcell : w.own.mem.cell a = some c) (hempty : c.buffer = [])
    (hsocket : w.own.fds.object c.socket = some o) (bytes : Bytes) :
    ∃ w', w'.own.mem.cell a = some { c with buffer := bytes } ∧
      ∀ xs ys (e : ReadEnd) rest, Delivers bytes xs → e.Answered bytes ys →
        ((∃ w₁ rest₁, fillBuffer a w (xs ++ ys ++ rest) = .done true w₁ rest₁) ↔ e ≠ .closed) ∧
        (e ≠ .closed → clientReadable a w (xs ++ ys ++ rest) = serveRequest a w' rest) := by
  obtain ⟨w₀, hnote, hmem, hfds⟩ : ∃ w₀, (∀ ans, note c.socket .readable w ans = .done () w₀ ans) ∧
      w₀.own.mem = w.own.mem ∧ w₀.own.fds = w.own.fds := by
    exact ⟨_, fun ans => note_run _ hsocket ans, rfl, rfl⟩
  have hcell₀ : w₀.own.mem.cell a = some c := hmem ▸ hcell
  have ha := Heap.mem_live_of_cell hcell₀
  have hself : buffered w₀ a c ha [] = w₀ := by
    rw [← hempty]
    exact buffered_self hcell₀
  have hfill : ∀ ans,
      fillBuffer a w ans = readRequest a (buffered w₀ a c ha []) ans := fun ans => by
    rw [fillBuffer, Prog.bind_done (getClient_run hcell ans), Prog.bind_done (hnote ans), hself]
  refine ⟨buffered w₀ a c ha bytes, Heap.writeLive_cell_self w₀.own.mem a _ ha, ?_⟩
  intro xs ys e rest hdelivers hend
  have hrun := readRequest_run ha (hfds ▸ hsocket) hdelivers hend rest
  rw [← hfill] at hrun
  refine ⟨⟨?_, fun he => ?_⟩, fun he => ?_⟩
  · rintro ⟨w₁, rest₁, htrue⟩ rfl
    rw [if_pos rfl, htrue] at hrun
    exact hangUp_ne_true hrun.symm
  · rw [if_neg he] at hrun
    exact ⟨_, _, hrun⟩
  · rw [if_neg he] at hrun
    rw [clientReadable_eq, Prog.bind_done hrun, if_pos rfl]

/-- A request in two parts, behind which the read would block. -/
theorem request_answered_parts :
    ∃ w w', ∀ rest, clientReadable 1 w
        ([{ read := .ok (ascii "a") }, { read := .ok [CR, LF] }] ++ [again] ++ rest)
      = serveRequest 1 w' rest := by
  have h : ((do register; batches 1 : Program Int) smallWorker (asked.take 9)).Returns fun _ w =>
      (w.own.mem.cell 1).map (fun c => (c.buffer, w.own.fds.object c.socket))
        = some ([], some .connection) := by decide +kernel
  obtain ⟨w, -, hw⟩ := reachable_of_batches h
  obtain ⟨c, hcell, hc⟩ := Option.map_eq_some_iff.mp hw
  obtain ⟨hempty, hsocket⟩ := Prod.mk.inj hc
  obtain ⟨w', -, hall⟩ := request_answered hcell hempty hsocket (ascii "a" ++ [CR, LF])
  refine ⟨w, w', fun rest => (hall _ [again] .wouldBlock rest ?_ ?_).2 (by simp)⟩
  · exact .cons rfl (by decide) (show Delivers ([CR, LF] ++ []) _ from .cons rfl (by simp) .nil)
  · exact ⟨by decide, again, rfl, rfl⟩

/-- A complete request, and then the end of the stream: the client is
disconnected, and nothing was written to it. -/
theorem request_unanswered :
    ∃ w, serverLoop smallWorker
        (asked.take 9 ++ [{ read := .ok (ascii "a" ++ [CR, LF]) }, { read := .ok [] }]) =
          .stopped w ∧
      w.own.server.clients = [] ∧ w.own.log 5 = [.readable] := by
  have h : (serverLoop smallWorker
      (asked.take 9 ++
        [{ read := .ok (ascii "a" ++ [CR, LF]) }, { read := .ok [] }])).Stops fun w =>
        w.own.server.clients = [] ∧ w.own.log 5 = [.readable] := by decide +kernel
  exact h.state

end Sgopher.Server
