/-
Sgopher.Server.SocketTheorems — `client_socket` keeps the invariant.

The EPOLLOUT branch resumes a transfer where it stopped: what was sent so
far is the file up to `sentsize`, and each `sendfile` appends the bytes
that follow. Which branch an event enters is decided by the mask of the
registration, of which an event carries no other bits; so a client that
waits for its request is never written to, and one that is being sent a
file is never read from.

No `sorry`, no `axiom`, no `native_decide`.
-/
import Mathlib.Tactic.NormNum
import Sgopher.Server.ReadableTheorems

namespace Sgopher.Server

open Sgopher.Lib Sgopher.Sepoll

variable {x : Context} {a : Nat} {c : Client} {o : Option File} {r : Registration}
  {m : Option Registration} {L : List Action} {f : File} {w : World} {Φ : World → Prop}

/-! ## The transfer -/

/-- The count is what is left of the file, or less. -/
theorem sendCount_le {filesize sentsize : Int} (h : sentsize ≤ filesize) :
    (sendCount filesize sentsize : Int) ≤ filesize - sentsize := by
  have hpow : (2 : Int) ^ 64 = 18446744073709551616 := by norm_num
  rw [sendCount, hpow]
  omega

/-- Before the first byte was sent nothing was written. -/
theorem Sending.silent (h : Sending c L f) (h0 : c.sentsize = 0) : Silent L := by
  refine ⟨h.menus, ?_, h.finished⟩
  rw [h.sent, h0]
  rfl

/-- One `sendfile` sends the bytes that follow. -/
theorem Sending.more (h : Sending c L f) (n : Nat) :
    let bytes := sendfileBytes (.file f) c.sentsize (sendCount f.size c.sentsize) n
    Sending { c with sentsize := c.sentsize + bytes.length } (L ++ [.data bytes]) f := by
  intro bytes
  obtain ⟨hz, hn, hle, hlen, ht, hm, hs, hf⟩ := h
  have hbytes : bytes = (f.content.drop c.sentsize.toNat).take
      (min n (sendCount f.size c.sentsize)) := rfl
  have hcount := sendCount_le hle
  have hblen : bytes.length ≤ sendCount f.size c.sentsize := by
    rw [hbytes, List.length_take]
    omega
  have hroom : bytes.length ≤ f.content.length - c.sentsize.toNat := by
    rw [hbytes, List.length_take, List.length_drop]
    omega
  have hnat : (c.sentsize + (bytes.length : Int)).toNat = c.sentsize.toNat + bytes.length := by
    omega
  have hpart : bytes = (f.content.drop c.sentsize.toNat).take bytes.length := by
    rw [hbytes]
    simp
  refine ⟨hz, ?_, ?_, ?_, by simp [ht], by rw [menus_append, hm]; rfl, ?_, by simp [hf]⟩
  · show 0 ≤ c.sentsize + (bytes.length : Int)
    omega
  · show c.sentsize + (bytes.length : Int) ≤ f.size
    omega
  · show (c.sentsize + (bytes.length : Int)).toNat ≤ f.content.length
    omega
  · show Server.sent (L ++ [.data bytes]) = f.content.take (c.sentsize + (bytes.length : Int)).toNat
    rw [sent_append, hs, hnat, List.take_add, ← hpart]
    simp [Server.sent]

/-- Regarding the file as sent when it is. -/
theorem Sending.done (h : Sending c L f) (hd : f.size ≤ c.sentsize) :
    ReplyOk (L ++ [.finished]) := by
  refine .file f c.sentsize.toNat (by simp [h.transmit]) ?_ h.le_length ?_ ?_ fun _ => ?_
  · rw [menus_append, h.menus]
    rfl
  · have := h.le_size
    omega
  · rw [sent_append, h.sent]
    exact List.append_nil _
  · have := h.le_size
    omega

/-- The client is being sent the file. -/
def Sends (x : Context) (a : Nat) (c : Client) (f : File) (m : Option Registration) (w : World) :
    Prop :=
  ∃ n L, (Sending { c with sentsize := n } L f ∧ (x.strict → ∀ child, Action.cgi child ∉ L)) ∧
    Held x a { c with sentsize := n } (some f) m L w

/-- The loop sends what it can. -/
theorem sendFile_triple (hc : c.Apart) :
    Triple (contract x.mode) (Sends x a c f m) (sendFile a) (GoesOn x (Sends x a c f m)) := by
  refine Triple.iterate (I := fun _ => Sends x a c f m)
    (fun _ w ⟨_, _, _, h⟩ => h.waits) (fun _ => ?_) ()
  refine Triple.exists_pre fun n => Triple.exists_pre fun L => Triple.assume fun ⟨hs, hg⟩ => ?_
  refine Triple.bind_eq getClient_held ?_
  split
  · rename_i hz
    exact absurd (hs.filesize.symm.trans hz) (by simp)
  rename_i filesize hz
  obtain rfl : filesize = f.size := Option.some.inj (hz.symm.trans hs.filesize)
  refine Triple.bind (useFd_held (Client.socket_mem _)) fun _ => ?_
  refine Triple.bind_eq useFile_held ?_
  refine Triple.bind systemCall_held fun y => ?_
  cases y.sendfile with
  | error e =>
    refine Triple.ite (fun _ => ?_) fun _ => ?_
    · exact Triple.pure fun w h => ⟨n, L, ⟨hs, hg⟩, h⟩
    · refine Triple.bind (R := fun _ w => ∃ L, Held x a { c with sentsize := n } (some f) m L w)
        ?_ fun _ => ?_
      · refine Triple.when (fun hmenu => ?_) fun _ w h => ⟨L, h⟩
        -- nothing was sent yet, so the menu is the whole reply
        exact (note_held fun h => h.menu ((hs.silent hmenu.2).menu _)).post fun _ w h => ⟨_, h⟩
      · refine Triple.exists_pre fun L => ?_
        exact Triple.bind (hangUp_triple hc) fun _ => Triple.pure fun w h => h
  | ok k =>
    have hmore := hs.more k
    have hg' : x.strict → ∀ child, Action.cgi child
        ∉ L ++ [.data (sendfileBytes (.file f) n (sendCount f.size n) k)] := by
      simpa using hg
    refine Triple.bind (note_held fun h => h.snoc hmore.reply (by simp) (by simp)) fun _ => ?_
    refine Triple.bind (setClient_held rfl rfl rfl rfl) fun _ => ?_
    refine Triple.ite (fun _ => ?_) fun _ => ?_
    · exact Triple.pure fun w h => ⟨_, _, ⟨hmore, hg'⟩, h⟩
    · exact Triple.pure fun w h => ⟨_, _, ⟨hmore, hg'⟩, h⟩

/-- The client stays until all of the file is sent. -/
theorem checkSent_triple (hr : r.events = EPOLLOUT ||| EPOLLET) (hc : Settled c)
    (hp : x.strict → c.pidfd = -1) :
    Triple (contract x.mode) (Sends x a c f (some r)) (checkSent a)
      (GoesOn x (Stands x a r)) := by
  refine Triple.exists_pre fun n => Triple.exists_pre fun L => Triple.assume fun ⟨hs, hg⟩ => ?_
  refine Triple.bind_eq getClient_held ?_
  split
  · rename_i hz
    exact absurd (hs.filesize.symm.trans hz) (by simp)
  rename_i filesize hz
  obtain rfl : filesize = f.size := Option.some.inj (hz.symm.trans hs.filesize)
  refine Triple.ite (fun _ => ?_) fun hdone => ?_
  · refine Triple.bind systemCall_held fun y => ?_
    refine Triple.bind (setClient_held rfl rfl rfl rfl) fun _ => Triple.pure fun w h => ?_
    refine ⟨{ c with sentsize := n, timestamp := y.time }, some f, r.events, L,
      ⟨⟨hc.dirfd, hc.buffer⟩, fun fds hfds => ?_⟩, h⟩
    exact .sending f (congrArg some hr) (hfds f rfl) { hs with } fun h => ⟨hp h, hg h⟩
  · refine Triple.bind (note_held fun h => h.snoc (hs.done (by omega)) (by simp) (by simp))
      fun _ => ?_
    exact hangUp_triple hc.apart

/-- **The EPOLLOUT branch.** -/
theorem clientWritable_triple (hr : r.events = EPOLLOUT ||| EPOLLET) (hc : Settled c)
    (hp : x.strict → c.pidfd = -1) :
    Triple (contract x.mode) (Sends x a c f (some r)) (clientWritable a)
      (GoesOn x (Stands x a r)) :=
  Triple.goesOn (sendFile_triple fun _ => by have := hc.dirfd; omega) (checkSent_triple hr hc hp)

/-! ## The handler -/

/-- An event carries no bit that its mask lacks. -/
theorem Reported.hasEvent {e : EpollEvent} {mask flag : UInt32} (h : Reported e mask)
    (hf : (mask ||| EPOLLERR ||| EPOLLHUP) &&& flag = 0) : hasEvent e.events flag = false := by
  obtain ⟨bits, hb⟩ := h
  simp [Sgopher.hasEvent, hb, UInt32.and_assoc, hf]

/-- A client is put back where it may be left. -/
theorem Held.atRest (h : Held x a c o m L w) (hc : Settled c)
    (hs : Stance x.strict c o (m.map Reg.events) L) : AtRest x w := by
  refine ⟨h.busy.parts.unfocus h.busy.cell h.kinds hc ?_, h.busy.holding⟩
  rw [h.busy.reg, h.busy.log]
  exact hs _ h.opened

/-- The branch for EPOLLERR and EPOLLHUP. -/
theorem clientError_triple :
    Triple (contract x.mode) (Stands x a r) (clientError a) (fun _ w => AtRest x w) := by
  refine Triple.exists_pre fun c => Triple.exists_pre fun o => Triple.exists_pre fun mask =>
    Triple.exists_pre fun L => Triple.assume fun ⟨hc, hs⟩ => ?_
  refine Triple.bind_eq getClient_held ?_
  refine Triple.ite (fun h0 => ?_) fun _ => ?_
  · refine (pidfdKillClient_triple hc.apart h0).post fun _ w h => ?_
    exact h.elim (fun h => h.1) fun h => h.atRest hc hs
  · refine Triple.ghost (fun w => w.own.log) fun log => ?_
    exact (clientDisconnect_triple hc.apart).post fun _ w h => h.1

/-- What follows the two branches. -/
theorem clientRest_triple {φ : Prop} [Decidable φ] :
    Triple (contract x.mode) (Stands x a r) (Prog.when φ (clientError a))
      (fun _ w => AtRest x w) := by
  refine Triple.when (fun _ => clientError_triple) fun _ w h => ?_
  obtain ⟨c, o, mask, L, ⟨hc, hs⟩, h⟩ := h
  exact h.atRest hc hs

/-- A branch that is entered only if its event is there. -/
theorem branch_triple {R : World → Prop} {b : Bool} {m : Program Bool}
    (ht : b = true → Triple (contract x.mode) R m (GoesOn x (Stands x a r)))
    (hf : b = false → ∀ w, R w → Stands x a r w) :
    Triple (contract x.mode) R (if b then m else pure true) (GoesOn x (Stands x a r)) := by
  refine Triple.ite ht fun hb => Triple.pure fun w h => ?_
  exact hf (by simpa using hb) w h

/-- **`client_socket`** leaves the worker at rest, whatever the event. -/
theorem clientSocket_triple {e : EpollEvent} (hr : ∀ e ∈ x.pending, r.ptr ≠ e.ptr)
    (he : Reported e r.events) (hc : Settled c) :
    Triple (contract x.mode) (fun w => Held x a c none (some r) L w ∧
      Standing x.strict w.own.fds c (some r.events) L) (clientSocket e.events a)
      (fun _ w => AtRest x w) := by
  intro w ans ⟨h, hs⟩ hA
  -- after the EPOLLIN branch: only a client that is being sent a file is written to
  have hafter : ∀ {R : World → Prop}, (∀ w, R w → Stands x a r w) →
      (hasEvent e.events EPOLLOUT = true →
        Triple (contract x.mode) R (clientWritable a) (GoesOn x (Stands x a r))) →
      ∀ more, Triple (contract x.mode) (GoesOn x R more)
        (if more then do
          let more ← (if hasEvent e.events EPOLLOUT then clientWritable a else pure true)
          if more then
            Prog.when (hasEvent e.events EPOLLERR ∨ hasEvent e.events EPOLLHUP) (clientError a)
          else pure ()
        else pure ()) (fun _ w => AtRest x w) := by
    intro R hstay hbranch more
    cases more with
    | false => exact Triple.pure fun w h => h
    | true =>
      refine Triple.bind (branch_triple hbranch fun _ => hstay) fun more => ?_
      cases more with
      | false => exact Triple.pure fun w h => h
      | true => exact clientRest_triple
  have hpass : ∀ {R : World → Prop}, hasEvent e.events EPOLLIN = false →
      Triple (contract x.mode) R
        (if hasEvent e.events EPOLLIN then clientReadable a else pure true) (GoesOn x R) :=
    fun hin => Triple.ite (fun hn => absurd hn (by simp [hin])) fun _ => Triple.pure fun w h => h
  cases hs with
  | reading hm h0 hq hs =>
    have hev : r.events = EPOLLIN ||| EPOLLET := by simpa using hm
    have hask : Asking x.strict c r L := ⟨hev, h0, hq, hc.buffer, fun hn => (hs hn).pidfd,
      fun hn f hm => by simpa using (hs hn).log _ hm,
      fun hn g hm => by simpa using (hs hn).log _ hm⟩
    have hout : hasEvent e.events EPOLLOUT = false := he.hasEvent (by rw [hev]; decide)
    refine Triple.bind (R := GoesOn x (Stands x a r)) (branch_triple (fun _ => ?_) fun _ w h => ?_)
      (hafter (fun _ h => h) fun hn => absurd hn (by simp [hout])) w ans h hA
    · exact clientReadable_triple hr hask (fun hn => (hs hn).file) hc.dirfd fun hn => (hs hn).unread
    · exact ⟨c, none, r.events, L, ⟨hc, fun _ _ => .reading hm h0 hq hs⟩, h⟩
  | sending f hm ho hf hs =>
    have hev : r.events = EPOLLOUT ||| EPOLLET := by simpa using hm
    have hin : hasEvent e.events EPOLLIN = false := he.hasEvent (by rw [hev]; decide)
    refine Triple.bind (R := GoesOn x (Sends x a c f (some r))) (hpass hin)
      (hafter ?_ fun _ => ?_) w ans ?_ hA
    · rintro w ⟨n, L, ⟨hf, hg⟩, h⟩
      refine ⟨{ c with sentsize := n }, some f, r.events, L,
        ⟨⟨hc.dirfd, hc.buffer⟩, fun fds hfds => ?_⟩, h⟩
      exact .sending f hm (hfds f rfl) hf fun hn => ⟨(hs hn).1, hg hn⟩
    · exact clientWritable_triple hev hc fun hn => (hs hn).1
    · refine ⟨c.sentsize, L, ⟨hf, fun hn => (hs hn).2⟩, h.busy, h.kinds, ?_⟩
      rintro g hg
      cases hg
      exact ho
  | cgi hm h0 hq hs =>
    have hev : r.events = EPOLLET := by simpa using hm
    have hin : hasEvent e.events EPOLLIN = false := he.hasEvent (by rw [hev]; decide)
    have hout : hasEvent e.events EPOLLOUT = false := he.hasEvent (by rw [hev]; decide)
    refine Triple.bind (R := GoesOn x (Stands x a r)) (hpass hin)
      (hafter (fun _ h => h) fun hn => absurd hn (by simp [hout])) w ans ?_ hA
    exact ⟨c, none, r.events, L, ⟨hc, fun _ _ => .cgi hm h0 hq hs⟩, h⟩

end Sgopher.Server
