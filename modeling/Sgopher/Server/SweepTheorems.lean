/-
Sgopher.Server.SweepTheorems — one call of `server_timer`.

`Sweep` says what a call is given, and `Swept` what it should do with each
client: come to it once, and leave it as it is, disconnect it, or have its
program killed. The walk of the source does that, with one difference. The
time a connection was idle is in milliseconds, and `timeout * 1000` is
computed in 32 bits; so for a timeout of 4294968 seconds or more the walk
measures it against another number. `Wraps` are the times that lie between
the two.

Each client is dealt with while everybody else is spared, so the walk over
several is put together from the walk over each (`Swept.append`).

No `sorry`, no `axiom`, no `native_decide`.
-/
import Sgopher.Server.FootprintTheorems
import Sgopher.Server.Traced

namespace Sgopher.Server

open Sgopher.Lib Sgopher.Sepoll

variable {x : Context} {a : Nat} {c : Client} {w : World}

/-! ## What a call should do -/

/-- What one call is given: the timeout in seconds, the time, what the
kernel tells of each connection, by its number, and whether the program
that has it can be killed; and what counts as idle. -/
structure Sweep where
  timeout : UInt32
  now : Int
  tcp : Nat → Except Errno UInt32
  kill : Nat → Option Errno
  idle : Except Errno UInt32 → Bool

/-- Nothing was sent for `timeout` seconds, or the kernel cannot tell. -/
def idleFor (timeout : UInt32) : Except Errno UInt32 → Bool
  | .error _ => true
  | .ok lastDataSent => decide (1000 * timeout.toNat ≤ lastDataSent.toNat)

/-- What the source compares with. -/
def idleWrapped (timeout : UInt32) : Except Errno UInt32 → Bool
  | .error _ => true
  | .ok lastDataSent => decide (timeout * 1000 ≤ lastDataSent)

namespace Sweep

/-- The call as it is meant, and as the source has it. -/
abbrev meant (timeout : UInt32) (now : Int) (tcp : Nat → Except Errno UInt32)
    (kill : Nat → Option Errno) : Sweep := ⟨timeout, now, tcp, kill, idleFor timeout⟩
abbrev source (timeout : UInt32) (now : Int) (tcp : Nat → Except Errno UInt32)
    (kill : Nat → Option Errno) : Sweep := ⟨timeout, now, tcp, kill, idleWrapped timeout⟩

variable (s : Sweep)

/-- The client's timestamp is `timeout` seconds old. -/
def due (c : Client) : Bool := decide ((s.timeout.toNat : Int) ≤ s.now - c.timestamp)

/-- The client is to be disconnected. -/
def gone (m : Nat) (c : Client) : Bool :=
  s.due c && if 0 ≤ c.pidfd then s.idle (s.tcp m) && (s.kill m).isSome else true

/-- What is to be written down about the client. -/
def events (m : Nat) (c : Client) : List Event :=
  .visited m :: if s.due c ∧ 0 ≤ c.pidfd then
    .tcpInfo m (s.tcp m) :: if s.idle (s.tcp m) then [.killed m (s.kill m)] else []
  else []

/-- What is to be written to the client's socket. -/
def reply (c : Client) : List Action :=
  if s.due c ∧ c.pidfd < 0 ∧ c.sentsize = 0 then [.menu .timeout] else []

variable {s} {m n : Nat}

theorem tcpInfo_mem_events {info : Except Errno UInt32} :
    Event.tcpInfo n info ∈ s.events m c ↔
      n = m ∧ info = s.tcp m ∧ s.due c = true ∧ 0 ≤ c.pidfd := by
  by_cases hon : s.due c = true ∧ 0 ≤ c.pidfd
  · by_cases hi : s.idle (s.tcp m) = true <;> simp [events, hon, hi]
  · simp only [events, if_neg hon]
    simp [hon]

theorem killed_mem_events {error : Option Errno} :
    Event.killed n error ∈ s.events m c ↔
      n = m ∧ error = s.kill m ∧ s.due c = true ∧ 0 ≤ c.pidfd ∧ s.idle (s.tcp m) = true := by
  by_cases hon : s.due c = true ∧ 0 ≤ c.pidfd
  · by_cases hi : s.idle (s.tcp m) = true <;> simp [events, hon, hi]
  · simp only [events, if_neg hon]
    simp only [List.mem_singleton, reduceCtorEq, false_iff]
    rintro ⟨-, -, hdue, h0, -⟩
    exact hon ⟨hdue, h0⟩

/-- What the kernel told matters only for a program that was started a
timeout ago, and whether the program can be killed only if it is to be. -/
theorem congr {s' : Sweep} (ht : s'.timeout = s.timeout) (hn : s'.now = s.now)
    (h : s.due c = true → 0 ≤ c.pidfd → s'.tcp m = s.tcp m ∧
      s'.idle (s.tcp m) = s.idle (s.tcp m) ∧ (s.idle (s.tcp m) = true → s'.kill m = s.kill m)) :
    s'.events m c = s.events m c ∧ s'.gone m c = s.gone m c ∧ s'.reply c = s.reply c := by
  have hdue : s'.due c = s.due c := by rw [due, due, ht, hn]
  by_cases hon : s.due c = true ∧ 0 ≤ c.pidfd
  · obtain ⟨htcp, hidle, hkill⟩ := h hon.1 hon.2
    by_cases hi : s.idle (s.tcp m) = true
    · simp [events, gone, reply, hdue, hon, htcp, hidle, hi, hkill hi]
    · simp [events, gone, reply, hdue, hon, htcp, hidle, hi]
  · refine ⟨?_, ?_, by rw [reply, reply, hdue]⟩
    · rw [events, events, hdue, if_neg hon, if_neg hon]
    · rw [gone, gone, hdue]
      by_cases h0 : 0 ≤ c.pidfd
      · have hfalse : s.due c = false := by simpa [h0] using hon
        rw [hfalse, Bool.false_and, Bool.false_and]
      · rw [if_neg h0, if_neg h0]

end Sweep

/-- Something for each client of a list. -/
def Worker.each {β : Type} (k : Worker) (todo : List Nat) (f : Nat → Client → List β) : List β :=
  todo.flatMap fun a => (k.mem.cell a).elim [] fun c => f (k.fds.serialOf c.socket) c

/-- Whether the client at an address is to be disconnected. -/
def Worker.goes (k : Worker) (s : Sweep) (a : Nat) : Bool :=
  (k.mem.cell a).any fun c => s.gone (k.fds.serialOf c.socket) c

/-- From `k` to `k'` the clients of `todo` were dealt with, one after
another, and `trace` was written down. A client that stayed is as it was,
and so are its descriptors and what its socket is watched for. -/
structure Swept (s : Sweep) (todo : List Nat) (w : World) (trace : List Event) (w' : World) :
    Prop where
  trace : trace = w.own.each todo s.events
  clients : w'.own.server.clients =
    w.own.server.clients.filter fun a => !(todo.contains a && w.own.goes s a)
  others : ∀ a, a ∉ todo → w'.own.mem.cell a = w.own.mem.cell a
  gone : ∀ a ∈ todo, w.own.goes s a → w'.own.mem.cell a = none ∧
    ∀ fd ∈ w.own.clientPlaces a, w'.own.fds.object fd = none
  stayed : ∀ a c, w.own.mem.cell a = some c → (a ∈ todo → ¬ w.own.goes s a) →
    w'.own.mem.cell a = some c ∧ (∀ fd ∈ c.places, w'.own.fds.object fd = w.own.fds.object fd) ∧
      w'.loop.interest c.socket = w.loop.interest c.socket
  closed : ∀ fd, w.own.fds.object fd = none → w'.own.fds.object fd = none
  serials : w'.own.fds.serialOf = w.own.fds.serialOf
  log : ∀ n, w'.own.log n =
    w.own.log n ++ w.own.each todo fun m c => if m = n then s.reply c else []
  params : w'.own.server.params = w.own.server.params

/-! ## One part of the walk after another -/

variable {s : Sweep} {xs ys : List Nat} {tr tr' : List Event} {w₁ w₂ : World}

theorem Worker.each_append {β : Type} (k : Worker) (f : Nat → Client → List β) :
    k.each (xs ++ ys) f = k.each xs f ++ k.each ys f := List.flatMap_append

theorem Worker.each_single {β : Type} {k : Worker} (f : Nat → Client → List β)
    (hc : k.mem.cell a = some c) : k.each [a] f = f (k.fds.serialOf c.socket) c := by
  simp [Worker.each, hc]

theorem Worker.mem_each {β : Type} {k : Worker} {f : Nat → Client → List β} {e : β} :
    e ∈ k.each xs f ↔
      ∃ a ∈ xs, ∃ c, k.mem.cell a = some c ∧ e ∈ f (k.fds.serialOf c.socket) c := by
  unfold Worker.each
  rw [List.mem_flatMap]
  refine exists_congr fun a => and_congr_right fun _ => ?_
  cases k.mem.cell a with
  | none => simp
  | some c => simp

namespace Swept

/-- The clients that are still to come are as they were. -/
theorem each_eq {β : Type} (h : Swept s xs w tr w₁) (hd : xs.Disjoint ys)
    (f : Nat → Client → List β) : w₁.own.each ys f = w.own.each ys f := by
  refine List.flatMap_congr fun b hb => ?_
  rw [h.others b fun hm => hd hm hb, h.serials]

theorem goes_eq (h : Swept s xs w tr w₁) (ha : a ∉ xs) : w₁.own.goes s a = w.own.goes s a := by
  rw [Worker.goes, Worker.goes, h.others a ha, h.serials]

theorem nil (s : Sweep) (w : World) : Swept s [] w [] w where
  trace := rfl
  clients := by simp
  others _ _ := rfl
  gone := nofun
  stayed _ _ hc _ := ⟨hc, fun _ _ => rfl, rfl⟩
  closed _ h := h
  serials := rfl
  log n := (List.append_nil _).symm
  params := rfl

theorem append (h : Swept s xs w tr w₁) (h' : Swept s ys w₁ tr' w₂) (hd : xs.Disjoint ys) :
    Swept s (xs ++ ys) w (tr ++ tr') w₂ where
  trace := by rw [h.trace, h'.trace, h.each_eq hd, Worker.each_append]
  clients := by
    rw [h'.clients, h.clients, List.filter_filter]
    refine List.filter_congr fun b _ => ?_
    by_cases hb : b ∈ xs
    · have hb' : b ∉ ys := fun hm => hd hb hm
      simp [hb, hb']
    · simp [hb, h.goes_eq hb]
  others b hb := by
    rw [List.mem_append, not_or] at hb
    rw [h'.others b hb.2, h.others b hb.1]
  gone b hb hg := by
    rcases List.mem_append.mp hb with hb | hb
    · obtain ⟨hcell, hfds⟩ := h.gone b hb hg
      exact ⟨(h'.others b fun hm => hd hb hm).trans hcell, fun fd hfd => h'.closed fd (hfds fd hfd)⟩
    · have hb' : b ∉ xs := fun hm => hd hm hb
      have hplaces : w₁.own.clientPlaces b = w.own.clientPlaces b := by
        rw [Worker.clientPlaces, Worker.clientPlaces, h.others b hb']
      rw [← hplaces]
      exact h'.gone b hb ((h.goes_eq hb').trans hg)
  stayed b d hd' hg := by
    obtain ⟨hcell, hfds, hmask⟩ := h.stayed b d hd' fun hb => hg (List.mem_append_left _ hb)
    have hg' : b ∈ ys → ¬ w₁.own.goes s b := fun hb => by
      rw [h.goes_eq fun hm => hd hm hb]
      exact hg (List.mem_append_right _ hb)
    obtain ⟨hcell', hfds', hmask'⟩ := h'.stayed b d hcell hg'
    exact ⟨hcell', fun fd hfd => (hfds' fd hfd).trans (hfds fd hfd), hmask'.trans hmask⟩
  closed fd hfd := h'.closed fd (h.closed fd hfd)
  serials := h'.serials.trans h.serials
  log n := by rw [h'.log, h.log, h.each_eq hd, Worker.each_append, List.append_assoc]
  params := h'.params.trans h.params

/-- What a call does depends on what it is given only through these. -/
theorem congr {s' : Sweep} {w' : World} {todo : List Nat} (h : Swept s todo w tr w')
    (hs : ∀ a ∈ todo, ∀ c, w.own.mem.cell a = some c →
      let m := w.own.fds.serialOf c.socket
      s'.events m c = s.events m c ∧ s'.gone m c = s.gone m c ∧ s'.reply c = s.reply c) :
    Swept s' todo w tr w' := by
  have heach : ∀ {β : Type} (f f' : Nat → Client → List β),
      (∀ a ∈ todo, ∀ c, w.own.mem.cell a = some c →
        f' (w.own.fds.serialOf c.socket) c = f (w.own.fds.serialOf c.socket) c) →
      w.own.each todo f' = w.own.each todo f := by
    intro β f f' hf
    refine List.flatMap_congr fun a ha => ?_
    cases hc : w.own.mem.cell a with
    | none => rfl
    | some c => exact hf a ha c hc
  have hgoes : ∀ a ∈ todo, w.own.goes s' a = w.own.goes s a := by
    intro a ha
    unfold Worker.goes
    cases hc : w.own.mem.cell a with
    | none => rfl
    | some c => exact (hs a ha c hc).2.1
  refine { h with trace := ?_, clients := ?_, gone := ?_, stayed := ?_, log := ?_ }
  · rw [h.trace]
    exact (heach _ _ fun a ha c hc => (hs a ha c hc).1).symm
  · rw [h.clients]
    refine List.filter_congr fun a _ => ?_
    by_cases ha : a ∈ todo
    · simp [ha, hgoes a ha]
    · simp [ha]
  · exact fun a ha hg => h.gone a ha ((hgoes a ha).symm.trans hg)
  · exact fun a c hc hg => h.stayed a c hc fun ha => hgoes a ha ▸ hg ha
  · intro n
    rw [h.log, heach _ _ fun a ha c hc => ?_]
    rw [(hs a ha c hc).2.2]

/-! ## One client -/

/-- A client that stays. -/
theorem stays (hc : w.own.mem.cell a = some c)
    (hg : s.gone (w.own.fds.serialOf c.socket) c = false) (hr : s.reply c = []) :
    Swept s [a] w (s.events (w.own.fds.serialOf c.socket) c) w where
  trace := (Worker.each_single s.events hc).symm
  clients := by
    have hgoes : w.own.goes s a = false := by simp [Worker.goes, hc, hg]
    refine (List.filter_eq_self.mpr fun b _ => ?_).symm
    by_cases hb : b = a
    · simp [hb, hgoes]
    · simp [hb]
  others _ _ := rfl
  gone b hb hgoes := by
    obtain rfl := List.mem_singleton.mp hb
    simp [Worker.goes, hc, hg] at hgoes
  stayed _ _ hd _ := ⟨hd, fun _ _ => rfl, rfl⟩
  closed _ h := h
  serials := rfl
  log n := by simp [Worker.each_single _ hc, hr]
  params := rfl

/-- A client that is disconnected, after something was written to it. -/
theorem leaves {w' : World} {log : Nat → List Action} (h : AtRest x w)
    (hc : w.own.mem.cell a = some c) (hg : s.gone (w.own.fds.serialOf c.socket) c = true)
    (hlog : ∀ n, log n = w.own.log n ++ if w.own.fds.serialOf c.socket = n then s.reply c else [])
    (hclients : w'.own.server.clients = w.own.server.clients.erase a)
    (hcell : w'.own.mem.cell a = none)
    (hs : Spared { w with own := { w.own with log := log } } a c.places c.places w') :
    Swept s [a] w (s.events (w.own.fds.serialOf c.socket) c) w' where
  trace := (Worker.each_single s.events hc).symm
  clients := by
    have hgoes : w.own.goes s a = true := by simp [Worker.goes, hc, hg]
    rw [hclients, h.clients_nodup.erase_eq_filter]
    refine List.filter_congr fun b _ => ?_
    by_cases hb : b = a
    · simp [hb, hgoes]
    · simp [hb]
  others b hb := hs.cells b (by simpa using hb)
  gone b hb _ := by
    obtain rfl := List.mem_singleton.mp hb
    refine ⟨hcell, ?_⟩
    rw [Worker.clientPlaces, hc]
    exact hs.closed
  stayed b d hd hb := by
    have hne : b ≠ a := by
      rintro rfl
      exact hb (by simp) (by simp [Worker.goes, hc, hg])
    have hapart : ∀ fd ∈ d.places, fd ∉ c.places := fun fd => h.places_apart hc hd hne
    exact ⟨(hs.cells b hne).trans hd, fun fd hfd => hs.objects fd (hapart fd hfd),
      hs.interest _ (hapart _ d.socket_mem)⟩
  closed fd hfd := by
    by_cases hm : fd ∈ c.places
    · exact hs.closed fd hm
    · exact (hs.objects fd hm).trans hfd
  serials := hs.serials
  log n := by rw [hs.log, Worker.each_single _ hc]; exact hlog n
  params := hs.params

end Swept

/-! ## What the walk does -/

/-- What was written down is what the kernel told. -/
structure Recorded (tcp : Nat → Except Errno UInt32) (kill : Nat → Option Errno)
    (trace : List Event) : Prop where
  tcp : ∀ m info, Event.tcpInfo m info ∈ trace → info = tcp m
  kill : ∀ m error, Event.killed m error ∈ trace → error = kill m

/-- A run that may wait anywhere, but does not fault. -/
def defined : Contract Answer Traced.World where
  answers := fun _ => True
  waits := fun _ => True

/-- The account with one more line. -/
def Traced.noted (t : Traced.World) (e : Event) : Traced.World :=
  { t with own := { t.own with trace := t.own.trace ++ [e] } }

open Traced (part quietly emit noted)

variable {t t' t₁ t₂ : Traced.World} {now : Int}

theorem quietly_look {α : Type} {m : Program α} {v : α}
    (h : ∀ ans, m (part.get t) ans = .done v (part.get t) ans) :
    Triple defined (fun t' => t' = t) (quietly m) (fun r t' => r = v ∧ t' = t) := by
  rintro _ ans rfl hA
  rw [quietly, Prog.within_done (h ans)]
  exact ⟨⟨rfl, rfl⟩, hA⟩

theorem systemCall_look :
    Triple defined (fun t' => t' = t) (quietly systemCall) (fun _ t' => t' = t) := by
  rintro _ ans rfl hA
  cases ans with
  | nil => trivial
  | cons y rest => exact ⟨rfl, fun _ _ => trivial⟩

theorem emit_look {e : Nat → Event} (hc : t.own.worker.mem.cell a = some c) :
    Triple defined (fun t' => t' = t) (emit a e)
      (fun _ t' => t' = noted t (e (t.own.worker.fds.serialOf c.socket))) :=
  Triple.modify fun _ h => by rw [h, hc]; rfl

/-- The clients of `todo` were dealt with, as the source compares. -/
def SweptFrom (timeout : UInt32) (now : Int) (todo : List Nat) (t t' : Traced.World) : Prop :=
  ∃ tcp kill trace, t'.own.trace = t.own.trace ++ trace ∧
    Swept (.source timeout now tcp kill) todo (part.get t) trace (part.get t')

/-- The clients have different connections, so what was told of the first
and what was told of the others can be told together. -/
theorem SweptFrom.append {timeout : UInt32} (h : SweptFrom timeout now xs t t₁)
    (hrest : AtRest x (part.get t)) (h' : SweptFrom timeout now ys t₁ t₂)
    (hd : xs.Disjoint ys) : SweptFrom timeout now (xs ++ ys) t t₂ := by
  obtain ⟨tcp, kill, tr, htr, hs⟩ := h
  obtain ⟨tcp', kill', tr', htr', hs'⟩ := h'
  let first : Nat → Prop := fun m => ∃ a ∈ xs, ∃ c, t.own.worker.mem.cell a = some c ∧
    t.own.worker.fds.serialOf c.socket = m
  classical
  let tell := fun m => if first m then tcp m else tcp' m
  let obey := fun m => if first m then kill m else kill' m
  have hxs : Swept (.source timeout now tell obey) xs (part.get t) tr (part.get t₁) := by
    refine hs.congr fun a ha c hc => ?_
    have hfirst : first (t.own.worker.fds.serialOf c.socket) := ⟨a, ha, c, hc, rfl⟩
    exact Sweep.congr rfl rfl fun _ _ => ⟨if_pos hfirst, rfl, fun _ => if_pos hfirst⟩
  have hys : Swept (.source timeout now tell obey) ys (part.get t₁) tr' (part.get t₂) := by
    refine hs'.congr fun b hb d hd' => ?_
    have hcell : (part.get t).own.mem.cell b = some d :=
      (hs.others b fun hm => hd hm hb).symm.trans hd'
    have hnot : ¬ first ((part.get t₁).own.fds.serialOf d.socket) := by
      rintro ⟨a, ha, c, hc, hm⟩
      rw [hs.serials] at hm
      exact hd ha (hrest.serial_inj hc hcell hm ▸ hb)
    exact Sweep.congr rfl rfl fun _ _ => ⟨if_neg hnot, rfl, fun _ => if_neg hnot⟩
  exact ⟨tell, obey, tr ++ tr', by rw [htr', htr, List.append_assoc], hxs.append hys hd⟩

/-- A client that a handler works on is disconnected. -/
theorem disconnect_look {o : Option File} {m : Option Registration} {L : List Action}
    (h : Held x a c o m L (part.get t)) (hc : c.Apart) :
    Triple defined (fun t' => t' = t) (quietly (clientDisconnect a))
      (fun _ t' => ∃ w', t' = part.set t w' ∧ Disconnected x a c (part.get t) w') := by
  rintro _ ans rfl hA
  obtain ⟨w', hrun, hgone⟩ := h.disconnects hc ans
  rw [quietly, Prog.within_done hrun]
  exact ⟨⟨w', rfl, hgone⟩, hA⟩

/-- `pidfd_kill_client`: what was told of the kill is written down, and the
client is disconnected if it failed. -/
theorem pidfdKillClient_look {o : Option File} {m : Option Registration} {L : List Action}
    (h : Held x a c o m L (part.get t)) (hc : c.Apart) (h0 : 0 ≤ c.pidfd) :
    Triple defined (fun t' => t' = t) (Traced.pidfdKillClient a) (fun _ t' => ∃ error,
      let t₁ := noted t (.killed (t.own.worker.fds.serialOf c.socket) error)
      error = none ∧ t' = t₁ ∨
        error ≠ none ∧ ∃ w', t' = part.set t₁ w' ∧ Disconnected x a c (part.get t) w') := by
  obtain ⟨ob, hob⟩ :=
    Heap.object_of_mem_openFds (h.busy.mem_openFds (Client.pidfd_mem h0))
  refine Triple.bind_eq (quietly_look (getClient_run h.busy.cell)) ?_
  refine Triple.bind_eq (quietly_look (useFd_run hob)) ?_
  refine Triple.bind systemCall_look fun y => Triple.bind (emit_look h.busy.cell) fun _ => ?_
  refine Triple.when (fun hk => ?_) fun hk t' ht => ⟨y.kill, Or.inl ⟨by simpa using hk, ht⟩⟩
  have hheld : Held x a c o m L
      (part.get (noted t (.killed (t.own.worker.fds.serialOf c.socket) y.kill))) := h
  refine (disconnect_look hheld hc).post fun _ t' ht => ⟨y.kill, Or.inr ⟨?_, ht⟩⟩
  rintro he
  rw [he] at hk
  cases hk

/-- The timer has come to a client and is through with it. -/
structure TimedOut (x : Context) (now : Int) (a : Nat) (t t' : Traced.World) : Prop where
  rest : AtRest x (part.get t')
  params : t'.own.worker.server.params = t.own.worker.server.params
  clients : t'.own.worker.server.clients = t.own.worker.server.clients ∨
    t'.own.worker.server.clients = t.own.worker.server.clients.erase a
  swept : SweptFrom t.own.worker.server.params.timeout now [a] t t'

theorem TimedOut.stays (trace : List Event) (info : Except Errno UInt32) (error : Option Errno)
    (h : AtRest x (part.get t))
    (hc : t.own.worker.mem.cell a = some c) (hw : part.get t' = part.get t)
    (htrace : t'.own.trace = t.own.trace ++ trace)
    (hs :
      let s := Sweep.source t.own.worker.server.params.timeout now (fun _ => info) fun _ => error
      let m := t.own.worker.fds.serialOf c.socket
      s.events m c = trace ∧ s.gone m c = false ∧ s.reply c = []) :
    TimedOut x now a t t' where
  rest := hw ▸ h
  params := congrArg (fun w : World => w.own.server.params) hw
  clients := Or.inl (congrArg (fun w : World => w.own.server.clients) hw)
  swept := by
    obtain ⟨rfl, hg, hr⟩ := hs
    refine ⟨fun _ => info, fun _ => error, _, htrace, ?_⟩
    rw [hw]
    exact Swept.stays hc hg hr

theorem TimedOut.leaves {trace : List Event} {w' : World} (log : Nat → List Action)
    (info : Except Errno UInt32) (error : Option Errno)
    (h : AtRest x (part.get t)) (hc : t.own.worker.mem.cell a = some c)
    (hw : Disconnected { x with server := t.own.worker.server } a c
      { part.get t with own := { (part.get t).own with log := log } } w')
    (ht : part.get t' = w') (htrace : t'.own.trace = t.own.trace ++ trace)
    (hs :
      let s := Sweep.source t.own.worker.server.params.timeout now (fun _ => info) fun _ => error
      let m := t.own.worker.fds.serialOf c.socket
      s.events m c = trace ∧ s.gone m c = true ∧
        ∀ n, log n = t.own.worker.log n ++ if m = n then s.reply c else []) :
    TimedOut x now a t t' := by
  subst ht
  obtain ⟨rfl, hg, hlog⟩ := hs
  exact ⟨hw.rest.recontext x.server, hw.spared.params, Or.inr hw.clients, fun _ => info,
    fun _ => error, _, htrace, Swept.leaves h hc hg hlog hw.clients hw.cell hw.spared⟩

/-- A client whose program is sent `SIGKILL`. -/
theorem timerKill_swept {info : Except Errno UInt32} (h : AtRest x (part.get t))
    (hc : t.own.worker.mem.cell a = some c)
    (hdue : (t.own.worker.server.params.timeout.toNat : Int) ≤ now - c.timestamp)
    (h0 : 0 ≤ c.pidfd) (hidle : idleWrapped t.own.worker.server.params.timeout info = true)
    (hw : part.get t₁ = part.get t) (htrace : t₁.own.trace = t.own.trace ++
      [.visited (t.own.worker.fds.serialOf c.socket),
        .tcpInfo (t.own.worker.fds.serialOf c.socket) info]) :
    Triple defined (fun t' => t' = t₁) (Traced.pidfdKillClient a)
      (fun _ t' => TimedOut x now a t t') := by
  obtain ⟨o, hheld, _, hset⟩ := h.focus hc
  have hworker : t₁.own.worker = t.own.worker := congrArg Sepoll.World.own hw
  rw [← hw] at hheld
  refine (pidfdKillClient_look hheld hset.apart h0).post fun _ t' ⟨error, ht⟩ => ?_
  rw [hworker] at ht
  have htr : t₁.own.trace ++ [.killed (t.own.worker.fds.serialOf c.socket) error]
      = t.own.trace ++ [.visited (t.own.worker.fds.serialOf c.socket),
        .tcpInfo (t.own.worker.fds.serialOf c.socket) info,
        .killed (t.own.worker.fds.serialOf c.socket) error] := by
    simp [htrace]
  rcases ht with ⟨rfl, rfl⟩ | ⟨hne, w', rfl, hgone⟩
  · refine TimedOut.stays _ info none h hc hw htr ?_
    simp [Sweep.events, Sweep.gone, Sweep.reply, Sweep.due, hdue, h0, hidle, Int.not_lt.mpr h0]
  · rw [hw] at hgone
    refine TimedOut.leaves t.own.worker.log info error h hc hgone rfl htr ?_
    have hsome : error.isSome = true := Option.isSome_iff_ne_none.mpr hne
    simp [Sweep.events, Sweep.gone, Sweep.reply, Sweep.due, hdue, h0, hidle, hsome,
      Int.not_lt.mpr h0]

/-- The error is sent if nothing else was. -/
theorem scold_run {o : Option File} {m : Option Registration} {L : List Action}
    (h : Held x a c o m L w) (hq : c.sentsize = 0 → Silent L) :
    ∃ log L', (∀ n, log n = w.own.log n ++
        if w.own.fds.serialOf c.socket = n ∧ c.sentsize = 0 then [.menu .timeout] else []) ∧
      Held x a c o m L' { w with own := { w.own with log := log } } ∧
      ∀ ans, Prog.when (c.sentsize = 0) (sendMenu c.socket .timeout) w ans
        = .done () { w with own := { w.own with log := log } } ans := by
  by_cases hz : c.sentsize = 0
  · have hrun := note_run (.menu .timeout) h.kinds.socket
    have hheld := ((note_held (X := always fun _ => True)
      fun h => h.menu ((hq hz).menu .timeout)).done h (fun _ _ => trivial) (hrun [])).1
    refine ⟨_, _, fun n => ?_, hheld, fun ans => ?_⟩
    · by_cases hn : w.own.fds.serialOf c.socket = n
      · subst hn
        simp [hz]
      · rw [Function.update_of_ne (Ne.symm hn)]
        simp [hn]
    · rw [Prog.when, if_pos hz]
      exact hrun ans
  · refine ⟨w.own.log, L, by simp [hz], h, fun ans => ?_⟩
    rw [Prog.when, if_neg hz]
    rfl

/-- A client without a program gets an error, if nothing was sent to it,
and is disconnected. -/
theorem timerDismiss_swept (h : AtRest x (part.get t)) (hc : t.own.worker.mem.cell a = some c)
    (hdue : (t.own.worker.server.params.timeout.toNat : Int) ≤ now - c.timestamp)
    (h0 : c.pidfd < 0) (hw : part.get t₁ = part.get t)
    (htrace : t₁.own.trace = t.own.trace ++ [.visited (t.own.worker.fds.serialOf c.socket)]) :
    Triple defined (fun t' => t' = t₁)
      (do
        quietly (Prog.when (c.sentsize = 0) (sendMenu c.socket .timeout))
        quietly (clientDisconnect a))
      (fun _ t' => TimedOut x now a t t') := by
  obtain ⟨o, hheld, _, hset⟩ := h.focus hc
  obtain ⟨log, L, hlog, hheld, hrun⟩ :=
    scold_run hheld fun hz => (h.parts.standing a c (by simp) hc).silent hz
  let w₁ : World := { part.get t with own := { (part.get t).own with log := log } }
  refine Triple.bind (R := fun _ t' => t' = part.set t₁ w₁) ?_ fun _ => ?_
  · rintro _ ans rfl hA
    rw [quietly, Prog.within_done (s := w₁) (by rw [hw]; exact hrun ans)]
    exact ⟨rfl, hA⟩
  refine (disconnect_look (t := part.set t₁ w₁) hheld hset.apart).post
    fun _ t' ⟨w', ht, hgone⟩ => ?_
  subst ht
  refine TimedOut.leaves log (.ok 0) none h hc hgone rfl htrace ⟨?_, ?_, fun n => ?_⟩
  · simp [Sweep.events, Sweep.due, hdue, Int.not_le.mpr h0]
  · simp [Sweep.gone, Sweep.due, hdue, Int.not_le.mpr h0]
  · have hlog' : log n = t.own.worker.log n ++ if t.own.worker.fds.serialOf c.socket = n ∧
        c.sentsize = 0 then [.menu .timeout] else [] := hlog n
    rw [hlog', ite_and]
    simp [Sweep.reply, Sweep.due, hdue, h0]

/-- **What the timer does with one client.** -/
theorem timerClient_swept (h : AtRest x (part.get t)) (hc : t.own.worker.mem.cell a = some c) :
    Triple defined (fun t' => t' = t) (Traced.timerClient now a)
      (fun _ t' => TimedOut x now a t t') := by
  obtain ⟨o, hheld, _, hset⟩ := h.focus hc
  let m := t.own.worker.fds.serialOf c.socket
  let timeout := t.own.worker.server.params.timeout
  refine Triple.bind_eq (quietly_look fun ans => getServer_run _ ans) ?_
  refine Triple.bind_eq (quietly_look (getClient_run hc)) ?_
  refine Triple.bind (R := fun _ t' => t' = noted t (.visited m)) (emit_look hc) fun _ => ?_
  refine Triple.when (fun hdue => Triple.ite (fun h0 => ?_) fun h0 => ?_) fun hdue t' ht => ?_
  · refine Triple.bind_eq (quietly_look (useFd_run hheld.kinds.socket)) ?_
    refine Triple.bind systemCall_look fun y => ?_
    refine Triple.bind (R := fun _ t' => t' = noted (noted t (.visited m)) (.tcpInfo m y.tcpInfo))
      (emit_look hc) fun _ => ?_
    generalize y.tcpInfo = info
    have hkill : idleWrapped timeout info = true → Triple defined
        (fun t' => t' = noted (noted t (.visited m)) (.tcpInfo m info))
        (Traced.pidfdKillClient a) (fun _ t' => TimedOut x now a t t') := fun hidle =>
      timerKill_swept h hc hdue h0 hidle rfl (by simp [noted, m])
    cases info with
    | error e => exact hkill rfl
    | ok lastDataSent =>
      refine Triple.when (fun hidle => hkill (decide_eq_true hidle)) fun hidle t' ht => ?_
      subst ht
      refine TimedOut.stays [.visited m, .tcpInfo m (.ok lastDataSent)]
        (.ok lastDataSent) none h hc rfl (by simp [noted]) ?_
      have hdue' : (t.own.worker.server.params.timeout.toNat : Int) ≤ now - c.timestamp := hdue
      have hnot : ¬ t.own.worker.server.params.timeout * 1000 ≤ lastDataSent := hidle
      simp [Sweep.events, Sweep.gone, Sweep.reply, Sweep.due, m, hdue', h0, idleWrapped, hnot,
        Int.not_lt.mpr h0]
  · exact timerDismiss_swept h hc hdue (by omega) rfl rfl
  · subst ht
    refine TimedOut.stays _ (.ok 0) none h hc rfl rfl ?_
    have hnot : ¬ (t.own.worker.server.params.timeout.toNat : Int) ≤ now - c.timestamp := hdue
    simp [Sweep.events, Sweep.gone, Sweep.reply, Sweep.due, m, hnot]

/-- The walk from the first of the clients it has not come to. -/
theorem timerWalk_swept {todo : List Nat} {fuel : Nat} (seen : List Nat)
    (h : AtRest x (part.get t)) (hcl : t.own.worker.server.clients = seen ++ todo)
    (hlen : todo.length ≤ fuel) :
    Triple defined (fun t' => t' = t) (Traced.timerWalk now fuel todo.head?)
      (fun _ t' => SweptFrom t.own.worker.server.params.timeout now todo t t') := by
  induction todo generalizing fuel t seen with
  | nil =>
    have hend : Traced.timerWalk now fuel none = pure () := by cases fuel <;> rfl
    rw [List.head?_nil, hend]
    refine Triple.pure fun t' ht => ⟨fun _ => .ok 0, fun _ => none, [], ?_, ?_⟩
    · rw [ht, List.append_nil]
    · rw [ht]
      exact Swept.nil _ _
  | cons a todo ih =>
    obtain ⟨fuel, rfl⟩ : ∃ n, fuel = n + 1 := ⟨fuel - 1, by simp at hlen; omega⟩
    have hnd : (seen ++ a :: todo).Nodup := hcl ▸ h.clients_nodup
    have hseen : a ∉ seen := fun hm => (List.nodup_append.mp hnd).2.2 a hm a (by simp) rfl
    have htodo : a ∉ todo := (List.nodup_cons.mp (List.nodup_append.mp hnd).2.1).1
    obtain ⟨c, hc⟩ := h.cell_of_mem (show a ∈ t.own.worker.server.clients by simp [hcl])
    -- the link is read while the client is still there
    rw [List.head?_cons, Traced.timerWalk]
    refine Triple.bind_eq (quietly_look (h.listNext_run hcl)) ?_
    refine Triple.bind (timerClient_swept h hc) fun _ => ?_
    intro t₁ ans ht₁ hA
    obtain ⟨seen', hcl₁⟩ : ∃ seen', t₁.own.worker.server.clients = seen' ++ todo := by
      rcases ht₁.clients with he | he
      · exact ⟨seen ++ [a], by simp [he, hcl]⟩
      · exact ⟨seen, by rw [he, hcl, List.erase_append_right _ hseen, List.erase_cons_head]⟩
    refine ((ih seen' ht₁.rest hcl₁ (Nat.le_of_succ_le_succ hlen)).post fun _ t' ht' => ?_)
      t₁ ans rfl hA
    rw [ht₁.params] at ht'
    exact ht₁.swept.append h ht' (by simpa using htodo)

/-! ## The call -/

theorem quietly_run {α : Type} {m : Program α} {v : α} {ans rest : List Answer}
    (h : m (part.get t) ans = .done v (part.get t) rest) : quietly m t ans = .done v t rest :=
  Prog.within_done h

theorem AtRest.timerfd (h : AtRest x w) :
    ∃ o, w.own.fds.object w.own.server.timerfd = some o :=
  Heap.object_of_mem_openFds (h.parts.isOpen (by simp [ServerState.places]))

/-- The timer is read, and the time asked for, before the walk. -/
theorem serverTimer_run (h : AtRest x (part.get t)) (y z : Answer) (ans : List Answer) :
    Traced.serverTimer t (y :: z :: ans) =
      Traced.timerWalk z.time t.own.worker.server.clients.length
        t.own.worker.server.clients.head? t ans := by
  obtain ⟨o, ho⟩ := h.timerfd
  rw [Traced.serverTimer, Prog.bind_done (quietly_run (getServer_run _ _)),
    Prog.bind_done (quietly_run (useFd_run ho _)),
    Prog.bind_done (quietly_run (systemCall_run _ _ _)),
    Prog.bind_done (quietly_run (systemCall_run _ _ _)),
    Prog.bind_done (quietly_run (getServer_run _ _))]
  rfl

theorem pidfdKillClient_atMost (a : Nat) : Prog.AtMost 1 (Traced.pidfdKillClient a) := by
  have hdisconnect := (clientDisconnect_asks a).atMost.within (v := part)
  refine Prog.AtMost.bind (j := 0) (k := 1) Prog.Asks.step.atMost.within fun c => ?_
  refine Prog.AtMost.bind (j := 0) (k := 1) Prog.Asks.step.atMost.within fun _ => ?_
  refine Prog.AtMost.bind (j := 1) (k := 0) Prog.Asks.ask.atMost.within fun y => ?_
  refine Prog.AtMost.bind (j := 0) (k := 0) Prog.Asks.modify.atMost fun _ => ?_
  exact Prog.AtMost.ite hdisconnect Prog.Asks.pure.atMost

theorem timerClient_atMost (a : Nat) : Prog.AtMost 2 (Traced.timerClient now a) := by
  have hkill := pidfdKillClient_atMost a
  have hpure : Prog.AtMost 1 (Prog.pure () : Traced.Program Unit) :=
    Prog.Asks.pure.atMost.mono (Nat.zero_le 1)
  refine Prog.AtMost.bind (j := 0) (k := 2)
    (Prog.Asks.after Prog.Asks.get fun _ => Prog.Asks.pure).atMost.within fun s => ?_
  refine Prog.AtMost.bind (j := 0) (k := 2) Prog.Asks.step.atMost.within fun c => ?_
  refine Prog.AtMost.bind (j := 0) (k := 2) Prog.Asks.modify.atMost fun _ => ?_
  refine Prog.AtMost.ite (Prog.AtMost.ite ?_ ?_) (hpure.mono (by omega))
  · refine Prog.AtMost.bind (j := 0) (k := 2) Prog.Asks.step.atMost.within fun _ => ?_
    refine Prog.AtMost.bind (j := 1) (k := 1) Prog.Asks.ask.atMost.within fun y => ?_
    refine Prog.AtMost.bind (j := 0) (k := 1) Prog.Asks.modify.atMost fun _ => ?_
    cases y.tcpInfo with
    | error e => exact hkill
    | ok n => exact Prog.AtMost.ite hkill hpure
  · refine (Prog.AtMost.bind (j := 0) (k := 0) ?_ fun _ => ?_).mono (by omega)
    · exact (Prog.Asks.when Prog.Asks.step).atMost.within
    · exact (clientDisconnect_asks a).atMost.within

theorem timerWalk_atMost (now : Int) : ∀ (fuel : Nat) (cur : Option Nat),
    Prog.AtMost (2 * fuel) (Traced.timerWalk now fuel cur)
  | fuel, none => by
    cases fuel <;> exact Prog.Asks.pure.atMost.mono (Nat.zero_le _)
  | 0, some _ => by
    have hfault : Prog.AtMost 0 (fault : Program Unit) := Prog.Asks.step.atMost
    exact hfault.within (v := part)
  | fuel + 1, some a => by
    refine (Prog.AtMost.bind (j := 0) (k := 2 + 2 * fuel) Prog.Asks.step.atMost.within
      fun next => ?_).mono (by omega)
    exact Prog.AtMost.bind (timerClient_atMost a) fun _ => timerWalk_atMost now fuel next

/-! ## When the comparison is the one that is meant -/

/-- `timeout * 1000` is not 1000 times the timeout, and the time the
connection was idle lies between the two. -/
def Wraps (timeout : UInt32) : Except Errno UInt32 → Prop
  | .error _ => False
  | .ok lastDataSent => (timeout * 1000).toNat ≤ lastDataSent.toNat ∧
      lastDataSent.toNat < 1000 * timeout.toNat

theorem wrapped_toNat (timeout : UInt32) :
    (timeout * 1000).toNat = timeout.toNat * 1000 % 2 ^ 32 := UInt32.toNat_mul timeout 1000

/-- The source never takes a connection for less idle than it was. -/
theorem wrapped_le (timeout : UInt32) : (timeout * 1000).toNat ≤ 1000 * timeout.toNat := by
  rw [wrapped_toNat, Nat.mul_comm 1000]
  exact Nat.mod_le _ _

theorem idleWrapped_of_idleFor {timeout : UInt32} {info : Except Errno UInt32}
    (h : idleFor timeout info = true) : idleWrapped timeout info = true := by
  cases info with
  | error e => rfl
  | ok lastDataSent =>
    have hle : 1000 * timeout.toNat ≤ lastDataSent.toNat := of_decide_eq_true h
    exact decide_eq_true (UInt32.le_iff_toNat_le.mpr ((wrapped_le timeout).trans hle))

/-- The two differ exactly between the two numbers. -/
theorem wraps_iff {timeout : UInt32} {info : Except Errno UInt32} :
    Wraps timeout info ↔ idleWrapped timeout info = true ∧ idleFor timeout info = false := by
  cases info with
  | error e => simp [Wraps, idleFor]
  | ok lastDataSent => simp [Wraps, idleWrapped, idleFor, UInt32.le_iff_toNat_le]

theorem idleFor_eq {timeout : UInt32} {info : Except Errno UInt32} (h : ¬ Wraps timeout info) :
    idleFor timeout info = idleWrapped timeout info := by
  cases hf : idleFor timeout info with
  | true => exact (idleWrapped_of_idleFor hf).symm
  | false =>
    cases hw : idleWrapped timeout info with
    | true => exact absurd (wraps_iff.mpr ⟨hw, hf⟩) h
    | false => rfl

/-- A timeout of less than fifty days is not wrapped. -/
theorem not_wraps {timeout : UInt32} (h : timeout.toNat ≤ 4294967) (info : Except Errno UInt32) :
    ¬ Wraps timeout info := by
  cases info with
  | error e => exact id
  | ok lastDataSent =>
    rintro ⟨hle, hlt⟩
    rw [wrapped_toNat] at hle
    omega

/-- A client whose program was started `timeout` seconds ago, and whose
connection was idle for a time that lies between. -/
def Worker.Wronged (k : Worker) (s : Sweep) (a : Nat) : Prop :=
  ∃ c, k.mem.cell a = some c ∧ s.due c ∧ 0 ≤ c.pidfd ∧
    Wraps s.timeout (s.tcp (k.fds.serialOf c.socket))

section

variable {timeout : UInt32} {tcp tcp' : Nat → Except Errno UInt32} {kill kill' : Nat → Option Errno}
  {todo : List Nat} {w' : World}

/-- What was told can be read off the account. -/
theorem Swept.recorded (h : Swept (.source timeout now tcp kill) todo w tr w') :
    Recorded tcp kill tr := by
  rw [h.trace]
  refine ⟨fun m info he => ?_, fun m error he => ?_⟩
  · obtain ⟨a, _, c, _, hm⟩ := Worker.mem_each.mp he
    obtain ⟨rfl, hinfo, _⟩ := Sweep.tcpInfo_mem_events.mp hm
    exact hinfo
  · obtain ⟨a, _, c, _, hm⟩ := Worker.mem_each.mp he
    obtain ⟨rfl, herror, _⟩ := Sweep.killed_mem_events.mp hm
    exact herror

/-- Only what was asked for matters. -/
theorem Swept.reread (h : Swept (.source timeout now tcp kill) todo w tr w')
    (told : Recorded tcp' kill' tr) : Swept (.source timeout now tcp' kill') todo w tr w' := by
  refine h.congr fun a ha c hc => ?_
  let s := Sweep.source timeout now tcp kill
  let m := w.own.fds.serialOf c.socket
  have hmem : ∀ e ∈ s.events m c, e ∈ tr := fun e he => by
    rw [h.trace]
    exact Worker.mem_each.mpr ⟨a, ha, c, hc, he⟩
  refine Sweep.congr rfl rfl fun hdue h0 => ⟨?_, rfl, fun hi => ?_⟩
  · exact (told.tcp m (tcp m)
      (hmem _ (Sweep.tcpInfo_mem_events.mpr ⟨rfl, rfl, hdue, h0⟩))).symm
  · exact (told.kill m (kill m)
      (hmem _ (Sweep.killed_mem_events.mpr ⟨rfl, rfl, hdue, h0, hi⟩))).symm

/-- The walk does what is meant exactly if it wrongs nobody. -/
theorem Swept.meant_iff (h : Swept (.source timeout now tcp kill) w.own.server.clients w tr w') :
    Swept (.meant timeout now tcp kill) w.own.server.clients w tr w' ↔
      ∀ a ∈ w.own.server.clients, ¬ w.own.Wronged (.meant timeout now tcp kill) a := by
  constructor
  · rintro hmeant a ha ⟨c, hc, hdue, h0, hwraps⟩
    obtain ⟨hwrapped, hnot⟩ := wraps_iff.mp hwraps
    -- the program was sent a signal, so it should have been
    have hkilled : Event.killed (w.own.fds.serialOf c.socket)
        (kill (w.own.fds.serialOf c.socket)) ∈ tr := by
      rw [h.trace]
      refine Worker.mem_each.mpr ⟨a, ha, c, hc, ?_⟩
      exact Sweep.killed_mem_events.mpr ⟨rfl, rfl, hdue, h0, hwrapped⟩
    rw [hmeant.trace] at hkilled
    obtain ⟨b, _, d, _, hb⟩ := Worker.mem_each.mp hkilled
    obtain ⟨hserial, -, -, -, hidle⟩ := Sweep.killed_mem_events.mp hb
    rw [← hserial] at hidle
    exact absurd (hidle.symm.trans hnot) (by simp)
  · intro hnone
    refine h.congr fun a ha c hc => ?_
    refine Sweep.congr rfl rfl fun hdue h0 => ⟨rfl, ?_, fun _ => rfl⟩
    exact idleFor_eq fun hw => hnone a ha ⟨c, hc, hdue, h0, hw⟩

end

/-- A worker that has taken an event of the timer off its batch. -/
def TimerRuns (w : World) : Prop :=
  ∃ w₀ e rest cb, Reachable .any w₀ ∧ w₀.loop.pending = e :: rest ∧
    w₀.loop.heap.cell e.ptr = some cb ∧ cb.function = some .serverTimer ∧
    w = w₀.withLoop w₀.loop.popped

theorem TimerRuns.atRest (h : TimerRuns w) : ∃ x, AtRest x w := by
  obtain ⟨w₀, e, rest, cb, hreach, _, _, _, rfl⟩ := h
  obtain ⟨x, _, hrest⟩ := hreach.resting
  exact ⟨_, hrest.parts.popped, hrest.holding⟩

/-- A worker whose account is empty. -/
def unwritten (w : World) : Traced.World := ⟨w.loop, ⟨w.own, []⟩⟩

/-- The walk over all clients, in a worker that is called for its timer. -/
theorem TimerRuns.walk (h : TimerRuns w) (now : Int) :
    Triple defined (fun t' => t' = unwritten w)
      (Traced.timerWalk now w.own.server.clients.length w.own.server.clients.head?)
      (fun _ t' => SweptFrom w.own.server.params.timeout now w.own.server.clients
        (unwritten w) t') := by
  obtain ⟨x, hrest⟩ := h.atRest
  exact timerWalk_swept (t := unwritten w) [] hrest rfl (Nat.le_refl _)

theorem TimerRuns.defined (h : TimerRuns w) :
    Triple defined (fun t' => t' = unwritten w) Traced.serverTimer (fun _ _ => True) := by
  obtain ⟨x, hrest⟩ := h.atRest
  obtain ⟨o, ho⟩ := hrest.timerfd
  refine Triple.bind_eq (quietly_look fun ans => getServer_run _ ans) ?_
  refine Triple.bind_eq (quietly_look (useFd_run ho)) ?_
  refine Triple.bind systemCall_look fun _ => Triple.bind systemCall_look fun z => ?_
  refine Triple.bind_eq (quietly_look fun ans => getServer_run _ ans) ?_
  exact (h.walk z.time).post fun _ _ _ => trivial

/-- **The timeout sweep**, for every list of clients, every timeout, every
time and whatever the kernel tells. A call of `server_timer` returns, and
it does what it should exactly if no program was started a timeout ago on
a connection that was idle for a time between `timeout * 1000` as it is
computed and 1000 times the timeout. -/
theorem timeout_sweep (w : World) (h : TimerRuns w) :
    (∀ ans, Traced.serverTimer (unwritten w) ans ≠ .fault) ∧
    (∀ ans, 2 + 2 * w.own.server.clients.length ≤ ans.length →
      (Traced.serverTimer (unwritten w) ans).Returns fun _ _ => True) ∧
    ∀ y z ans t' rest, Traced.serverTimer (unwritten w) (y :: z :: ans) = .done () t' rest →
      (∃ tcp kill, Recorded tcp kill t'.own.trace) ∧
      ∀ tcp kill, Recorded tcp kill t'.own.trace →
        let s := Sweep.meant w.own.server.params.timeout z.time tcp kill
        (Swept s w.own.server.clients w t'.own.trace (part.get t') ↔
          ∀ a ∈ w.own.server.clients, ¬ w.own.Wronged s a) := by
  obtain ⟨x, hrest⟩ := h.atRest
  have hrun := serverTimer_run (t := unwritten w) hrest
  refine ⟨fun ans => h.defined.not_fault rfl (fun _ _ => trivial) id, fun ans hlen => ?_,
    fun y z ans t' rest hdone => ?_⟩
  · obtain ⟨y, z, ans, rfl⟩ : ∃ y z ans', ans = y :: z :: ans' := by
      rcases ans with - | ⟨y, - | ⟨z, ans⟩⟩
      · simp at hlen
      · simp only [List.length_singleton] at hlen
        omega
      · exact ⟨y, z, ans, rfl⟩
    rw [hrun]
    have hwalk := (h.walk z.time).post fun _ _ _ => trivial
    refine hwalk.returns id (timerWalk_atMost _ _ _) rfl (fun _ _ => trivial) ?_
    simp only [List.length_cons] at hlen
    omega
  · rw [hrun] at hdone
    obtain ⟨tcp, kill, tr, htr, hs⟩ := ((h.walk z.time).done rfl (fun _ _ => trivial) hdone).1
    obtain rfl : t'.own.trace = tr := htr
    exact ⟨⟨tcp, kill, hs.recorded⟩, fun _ _ told => (hs.reread told).meant_iff⟩

/-! ## A timeout that wraps -/

/-- A timeout of 4294968 seconds is 704 milliseconds in 32 bits. -/
def patientParams : Params := { smallParams with timeout := 4294968 }

abbrev patientWorker : World := started 5 patientParams 3 4 5 6 7

/-- A program is started at time 0, and then the timer expires. -/
def attended : List Answer :=
  asked ++ [{ openat := .ok (9, smallProgram) }, again, { fork := some ⟨10, {}⟩ }, again,
    { loop := { malloc := some 5 } }, again, { loop := { wait := .ready [(5, EPOLLIN)] } }]

/-- It is time, and the program has sent something a second ago. -/
def busySecond : List Answer := [again, { time := 4294968 }, { tcpInfo := .ok 1000 }, again]

/-- The worker when its timer expires. -/
theorem timerRuns_attended : ∃ w, TimerRuns w ∧ w.own.server.params.timeout = 4294968 ∧
    w.own.server.clients = [1] ∧
    (Traced.serverTimer (unwritten w) busySecond).Returns fun _ t' => t'.own.trace =
      [.visited 5, .tcpInfo 5 (.ok 1000), .killed 5 none] := by
  have h : ((do register; batches 2 : Program Int) patientWorker attended).Returns fun _ w =>
      w.loop.pending = [⟨EPOLLIN, 2⟩] ∧
      (w.loop.heap.cell 2).map Callback.function = some (some .serverTimer) ∧
      w.own.server.params.timeout = 4294968 ∧ w.own.server.clients = [1] ∧
      (Traced.serverTimer (unwritten (w.withLoop w.loop.popped)) busySecond).Returns fun _ t' =>
        t'.own.trace = [.visited 5, .tcpInfo 5 (.ok 1000), .killed 5 none] := by
    decide +kernel
  obtain ⟨w, hreach, hp, hcb, hw⟩ := reachable_after (.started False.elim ..) h
  obtain ⟨cb, hc, hf⟩ := Option.map_eq_some_iff.mp hcb
  exact ⟨w.withLoop w.loop.popped, ⟨w, _, [], cb, hreach, hp, hc, hf, rfl⟩, hw⟩

theorem timeout_sweep_attended : ∃ w, TimerRuns w ∧ w.own.server.clients.length = 1 ∧
    ∀ ans, Traced.serverTimer (unwritten w) ans ≠ .fault := by
  obtain ⟨w, hw, _, hclients, _⟩ := timerRuns_attended
  exact ⟨w, hw, by rw [hclients]; rfl, (timeout_sweep w hw).1⟩

/-- The program is sent `SIGKILL` a second after it has sent something. -/
theorem timeout_sweep_wrapped : ∃ w t' rest, TimerRuns w ∧
    w.own.server.params.timeout = 4294968 ∧
    Traced.serverTimer (unwritten w) busySecond = .done () t' rest ∧
    Recorded (fun _ => .ok 1000) (fun _ => none) t'.own.trace ∧
    ¬ Swept (.meant 4294968 4294968 (fun _ => .ok 1000) fun _ => none) w.own.server.clients w
      t'.own.trace (part.get t') := by
  obtain ⟨w, hw, htimeout, _, hrun⟩ := timerRuns_attended
  obtain ⟨_, t', rest, hrun, htrace⟩ := hrun.state
  refine ⟨w, t', rest, hw, htimeout, hrun, ?_, fun hs => ?_⟩
  · rw [htrace]
    constructor <;> simp
  · have hkilled : Event.killed 5 none ∈ t'.own.trace := by simp [htrace]
    rw [hs.trace] at hkilled
    obtain ⟨_, _, _, _, hm⟩ := Worker.mem_each.mp hkilled
    obtain ⟨-, -, -, -, hidle⟩ := Sweep.killed_mem_events.mp hm
    have hidle' : idleFor 4294968 (.ok 1000) = true := hidle
    exact absurd hidle' (by decide)

end Sgopher.Server
