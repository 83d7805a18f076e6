/-
Sgopher.Tester.MainTheorems — the totals the benchmark reports.

`benchmark_adds_up` is over every run: any number of workers, any forks
that fail, any order in which the workers end, and for each worker any
answers of the system. The process table is one invariant (`Table`): an
entry is one of a worker that was never spawned, of one that is not
waited for yet, or of one that was, and then it holds the status and the
results the worker ended with. Process numbers are not used twice, so the
search finds the entry of the worker that `wait` reported.

At the end there is no worker left to wait for. The sum is over those
whose status is 0, and such a worker exited behind its last score, where
its books are balanced (`Ends.balanced`); balanced results add up to
balanced results.

No `sorry`, no `axiom`, no `native_decide`.
-/
import Mathlib.Algebra.Order.BigOperators.Group.List
import Mathlib.Algebra.Order.Group.Nat
import Mathlib.Data.List.Nodup
import Sgopher.Tester.Main
import Sgopher.Tester.WorkerTheorems

namespace Sgopher.Tester

open Sgopher.Lib

variable {args : Args} {s : MainState args}

/-! ## How a worker ends -/

/-- A status of 0 is that of a worker that stopped between two attempts. -/
theorem Ends.balanced {r : Results} (h : Ends args r 0) : r.Balanced := by
  generalize hstatus : (0 : Int) = status at h
  cases h with
  | exited ans rest code w hrun =>
    cases code with
    | success =>
      exact (((workerProcess_triple args).done Books.start (fun _ _ => trivial) hrun).1.2
        rfl).balanced
    | failure => cases hstatus
  | killed _ _ h => exact absurd hstatus.symm h

theorem Results.Balanced.plus {a b : Results} (ha : a.Balanced) (hb : b.Balanced) :
    (a.plus b).Balanced := by
  unfold Results.Balanced at *
  simp only [Results.plus, ha, hb]
  grind

/-! ## The sum -/

/-- What an entry adds to the sum, if it does. -/
def WorkerEntry.counted (e : WorkerEntry) : Option Results :=
  if e.status = 0 then some e.results else none

/-- What a worker that ended adds to the sum, if it exited with status
0. -/
def ChildEnd.counted (x : ChildEnd args) : Option Results :=
  if x.status = 0 then some x.results else none

/-- The results of the workers that exited with status 0, in the order of
their numbers. -/
def MainState.successful (s : MainState args) : List Results :=
  (List.range args.numWorkers.toNat).filterMap fun i => (s.ended i).bind ChildEnd.counted

theorem sumResults_eq (workers : List WorkerEntry) :
    sumResults workers = ⟨(workers.filterMap WorkerEntry.counted).foldl Results.plus .zero,
      UInt32.ofNat (workers.filterMap WorkerEntry.counted).length⟩ := by
  have key : ∀ (workers : List WorkerEntry) (r : Results) (n : Nat),
      workers.foldl (fun sum e =>
        if e.status = 0 then (⟨sum.results.plus e.results, sum.successes + 1⟩ : Report) else sum)
        ⟨r, UInt32.ofNat n⟩
      = ⟨(workers.filterMap WorkerEntry.counted).foldl Results.plus r,
        UInt32.ofNat (n + (workers.filterMap WorkerEntry.counted).length)⟩ := by
    intro workers
    induction workers with
    | nil => intro r n; rfl
    | cons e rest ih =>
      intro r n
      by_cases he : e.status = 0
      · have hc : e.counted = some e.results := if_pos he
        have hn : (UInt32.ofNat n + 1 : UInt32) = UInt32.ofNat (n + 1) :=
          (UInt32.ofNat_add n 1).symm
        simp only [List.foldl_cons, he, if_true, hn, ih, List.filterMap_cons, hc,
          List.length_cons]
        rw [Nat.add_right_comm, Nat.add_assoc]
      · have hc : e.counted = none := if_neg he
        simp only [List.foldl_cons, he, if_false, ih, List.filterMap_cons, hc]
  have h := key workers .zero 0
  rwa [Nat.zero_add] at h

/-- A list and a function of its positions that keep the same parts. -/
theorem filterMap_eq_range {α β : Type} (f : α → Option β) (g : Nat → Option β) :
    ∀ (l : List α) (k : Nat), (∀ i a, l[i]? = some a → f a = g (k + i)) →
      l.filterMap f = (List.range' k l.length).filterMap g
  | [], _, _ => rfl
  | a :: rest, k, h => by
    have h0 : f a = g k := h 0 a rfl
    have hrest := filterMap_eq_range f g rest (k + 1) fun i b hb => by
      rw [h (i + 1) b hb, Nat.add_assoc, Nat.add_comm 1 i]
    rw [List.length_cons, List.range'_succ, List.filterMap_cons, List.filterMap_cons, h0, hrest]

theorem foldl_plus_balanced : ∀ (rs : List Results) (r : Results), r.Balanced →
    (∀ r' ∈ rs, r'.Balanced) → (rs.foldl Results.plus r).Balanced
  | [], _, hr, _ => hr
  | r' :: rest, r, hr, hrs =>
    foldl_plus_balanced rest (r.plus r') (hr.plus (hrs r' (by simp)))
      fun x hx => hrs x (by simp [hx])

theorem MainState.successful_balanced (s : MainState args) :
    ∀ r ∈ s.successful, r.Balanced := by
  intro r hr
  obtain ⟨i, _, hi⟩ := List.mem_filterMap.mp hr
  obtain ⟨x, _, hx⟩ := Option.bind_eq_some_iff.mp hi
  unfold ChildEnd.counted at hx
  split at hx
  · rename_i h0
    exact Option.some.inj hx ▸ Ends.balanced (h0 ▸ x.ends)
  · cases hx

/-! ## The process table -/

/-- The entry of worker `i`: it was never spawned, it is not waited for
yet, or it was, and how it ended is in the entry. -/
inductive Phase (s : MainState args) (i : Nat) : WorkerEntry → Prop where
  | unspawned (h : s.ended i = none) : Phase s i .initial
  | running (pid : Nat) (h : s.ended i = none) (hc : (i, pid) ∈ s.children) :
      Phase s i ⟨pid, -1, .zero⟩
  | waited (pid : Nat) (hpid : 0 < pid) (x : ChildEnd args) (h : s.ended i = some x) :
      Phase s i ⟨pid, x.status, x.results⟩

/-- The process table, and what the kernel knows of the workers. -/
structure Table (s : MainState args) : Prop where
  length : s.workers.length = args.numWorkers.toNat
  phase : ∀ i e, s.workers[i]? = some e → Phase s i e
  children : ∀ i pid, (i, pid) ∈ s.children → 0 < pid ∧ s.ended i = none ∧
    s.workers[i]? = some ⟨pid, -1, .zero⟩
  nodup : s.children.Nodup
  pids : ∀ (i j : Nat) (e e' : WorkerEntry), s.workers[i]? = some e → s.workers[j]? = some e' →
    0 < e.pid → e.pid = e'.pid → i = j

/-- One entry of the table is written, and everything else stays. -/
theorem Table.written (h : Table s) {s' : MainState args} {i : Nat} {new : WorkerEntry}
    (hlen : s'.workers.length = s.workers.length)
    (hget : ∀ j, s'.workers[j]? = if i = j then some new else s.workers[j]?)
    (hended : ∀ j, i ≠ j → s'.ended j = s.ended j)
    (hchildren : ∀ j pid, i ≠ j → ((j, pid) ∈ s'.children ↔ (j, pid) ∈ s.children))
    (hnodup : s'.children.Nodup) (hphase : Phase s' i new)
    (hchild : ∀ pid, (i, pid) ∈ s'.children →
      0 < pid ∧ s'.ended i = none ∧ new = ⟨pid, -1, .zero⟩)
    (hpid : ∀ j e, i ≠ j → s.workers[j]? = some e → e.pid ≠ new.pid) : Table s' := by
  refine ⟨hlen.trans h.length, fun j e he => ?_, fun j pid hc => ?_, hnodup,
    fun j j' e e' he he' hp heq => ?_⟩
  · rw [hget] at he
    split at he
    · rename_i hj
      rw [Option.some.injEq] at he
      exact he ▸ hj ▸ hphase
    · rename_i hj
      cases h.phase j e he with
      | unspawned h' => exact .unspawned ((hended j hj).trans h')
      | running pid h' hc =>
        exact .running pid ((hended j hj).trans h') ((hchildren j pid hj).mpr hc)
      | waited pid h0 x h' => exact .waited pid h0 x ((hended j hj).trans h')
  · by_cases hj : i = j
    · subst hj
      obtain ⟨h0, h1, h2⟩ := hchild pid hc
      exact ⟨h0, h1, by rw [hget, if_pos rfl, h2]⟩
    · obtain ⟨h0, h1, h2⟩ := h.children j pid ((hchildren j pid hj).mp hc)
      exact ⟨h0, (hended j hj).trans h1, by rw [hget, if_neg hj, h2]⟩
  · rw [hget] at he he'
    split at he <;> split at he'
    · omega
    · rename_i hj'
      rw [Option.some.injEq] at he
      exact absurd (heq.symm.trans (congrArg WorkerEntry.pid he.symm)) (hpid j' e' hj' he')
    · rename_i hj _
      rw [Option.some.injEq] at he'
      exact absurd (heq.trans (congrArg WorkerEntry.pid he'.symm)) (hpid j e hj he)
    · exact h.pids j j' e e' he he' hp heq

/-- The table while workers are spawned, from number `k` on. -/
structure Spawning (k : Nat) (s : MainState args) : Prop where
  table : Table s
  ended : ∀ i, s.ended i = none
  fresh : ∀ i e, k ≤ i → s.workers[i]? = some e → e = .initial

theorem Spawning.start (s : MainState args) (he : s.ended = fun _ => none)
    (hc : s.children = []) : Spawning 0 { s with
      workers := List.replicate args.numWorkers.toNat .initial } := by
  have hget : ∀ i (e : WorkerEntry),
      (List.replicate args.numWorkers.toNat WorkerEntry.initial)[i]? = some e → e = .initial :=
    fun i e h => List.eq_of_mem_replicate (List.mem_of_getElem? h)
  refine ⟨⟨List.length_replicate, fun i e h => ?_, ?_, ?_, ?_⟩, fun i => ?_,
    fun i e _ h => hget i e h⟩
  · obtain rfl := hget i e h
    exact Phase.unspawned (congrFun he i)
  · simp [hc]
  · simp [hc]
  · intro i j e e' h _ hpos
    rw [hget i e h] at hpos
    cases hpos
  · exact congrFun he i

theorem freshPid_pos (want : Nat) (children : List (Nat × Nat)) : 0 < freshPid want children := by
  unfold freshPid
  split <;> omega

theorem freshPid_not_mem (want : Nat) (children : List (Nat × Nat)) :
    freshPid want children ∉ children.map Prod.snd := by
  unfold freshPid
  split
  · rename_i h; exact h.2
  · intro hm
    have := List.le_sum_of_mem hm
    omega

/-! ## Spawning -/

/-- A worker is spawned. -/
theorem Spawning.spawned {k : Nat} (h : Spawning k s) (hk : k < args.numWorkers.toNat)
    (want : Nat) (n : UInt32) : Spawning (k + 1) { s with
      workers := s.workers.modify k fun e => { e with pid := freshPid want s.children }
      activeWorkers := n
      children := s.children ++ [(k, freshPid want s.children)] } := by
  have hpos := freshPid_pos want s.children
  have hnew := freshPid_not_mem want s.children
  generalize freshPid want s.children = pid at hpos hnew
  have hlt : k < s.workers.length := h.table.length ▸ hk
  have hself : s.workers[k]? = some .initial := by
    rw [List.getElem?_eq_getElem hlt]
    exact congrArg some (h.fresh k _ (Nat.le_refl k) (List.getElem?_eq_getElem hlt))
  -- the table, position by position
  have hget : ∀ i, (s.workers.modify k fun e => { e with pid := (pid : Int) })[i]?
      = if k = i then some ⟨pid, -1, .zero⟩ else s.workers[i]? := fun i => by
    rw [List.getElem?_modify]
    split
    · rename_i hi
      rw [← hi, hself]
      rfl
    · simp
  -- no entry has the new process number
  have hunused : ∀ (i : Nat) (e : WorkerEntry), s.workers[i]? = some e → e.pid ≠ (pid : Int) := by
    intro i e he hp
    cases h.table.phase i e he with
    | unspawned _ =>
      have : (-1 : Int) = pid := hp
      omega
    | running pid' _ hc =>
      have : pid' = pid := Int.ofNat.inj hp
      exact hnew (List.mem_map.mpr ⟨_, hc, this⟩)
    | waited _ _ x hx =>
      rw [h.ended i] at hx
      cases hx
  refine ⟨h.table.written (List.length_modify ..) hget (fun _ _ => rfl)
    (fun i pid' hi => ?_) ?_ (.running pid (h.ended k) (by simp)) (fun pid' hc => ?_)
    fun i e _ he => hunused i e he, h.ended, fun i e hi he => ?_⟩
  · simp [Ne.symm hi]
  · refine List.nodup_append.mpr ⟨h.table.nodup, by simp, fun c hc c' hc' => ?_⟩
    rw [List.mem_singleton.mp hc']
    rintro rfl
    exact hnew (List.mem_map.mpr ⟨_, hc, rfl⟩)
  · -- worker `k` was not among the children
    rcases List.mem_append.mp hc with hc | hc
    · obtain ⟨-, -, h2⟩ := h.table.children k pid' hc
      rw [hself, Option.some.injEq] at h2
      have : (-1 : Int) = pid' := congrArg WorkerEntry.pid h2
      omega
    · obtain ⟨-, rfl⟩ := Prod.mk.inj (List.mem_singleton.mp hc)
      exact ⟨hpos, h.ended k, rfl⟩
  · simp only [hget, if_neg (show k ≠ i by omega)] at he
    exact h.fresh i e (by omega) he

/-- A fork that failed leaves the worker as it was. -/
theorem Spawning.next {k : Nat} (h : Spawning k s) : Spawning (k + 1) s :=
  ⟨h.table, h.ended, fun i e hi => h.fresh i e (by omega)⟩

/-! ## Waiting -/

/-- The search of the process table finds the entry of the worker, since
no other has its process number. -/
theorem setStatus_getElem? (pid status : Int) : ∀ (workers : List WorkerEntry) (i : Nat),
    (∃ e, workers[i]? = some e ∧ e.pid = pid) →
    (∀ j e, workers[j]? = some e → e.pid = pid → j = i) →
    ∀ j, (setStatus pid status workers)[j]?
      = if i = j then workers[j]?.map fun e => { e with status := status } else workers[j]?
  | [], i, ⟨e, he, _⟩, _, _ => by simp at he
  | e :: rest, i, hex, huniq, j => by
    unfold setStatus
    by_cases hp : e.pid = pid
    · obtain rfl : 0 = i := huniq 0 e rfl hp
      rw [if_pos hp]
      cases j with
      | zero => simp
      | succ j => simp
    · rw [if_neg hp]
      cases i with
      | zero =>
        obtain ⟨e', he', hp'⟩ := hex
        rw [List.getElem?_cons_zero, Option.some.injEq] at he'
        exact absurd (he' ▸ hp') hp
      | succ i =>
        cases j with
        | zero => simp
        | succ j =>
          have ih := setStatus_getElem? pid status rest i hex
            (fun j e he hpe => Nat.succ.inj (huniq (j + 1) e he hpe)) j
          simp only [List.getElem?_cons_succ, ih, Nat.add_right_cancel_iff]

theorem setStatus_length (pid status : Int) (workers : List WorkerEntry) :
    (setStatus pid status workers).length = workers.length := by
  induction workers with
  | nil => rfl
  | cons e rest ih =>
    unfold setStatus
    split
    · rfl
    · rw [List.length_cons, List.length_cons, ih]

/-- The state after a turn of the wait loop. -/
def MainState.recorded (s : MainState args) (k i pid : Nat) (x : ChildEnd args) : MainState args :=
  { s.reap k i x with workers := setStatus pid x.status (s.reap k i x).workers }

/-- A worker is waited for, and its status recorded. -/
theorem Table.recorded (h : Table s) {k i pid : Nat} (hk : s.children[k]? = some (i, pid))
    (x : ChildEnd args) : Table (s.recorded k i pid x) := by
  have hmem := List.mem_of_getElem? hk
  obtain ⟨hpos, hnone, hself⟩ := h.children i pid hmem
  have hreaped : ∀ j, (s.reap k i x).workers[j]?
      = if i = j then some ⟨pid, -1, x.results⟩ else s.workers[j]? := fun j => by
    rw [MainState.reap, List.getElem?_modify]
    split
    · rename_i hj
      rw [← hj, hself]
      rfl
    · simp
  -- no other worker has the process number
  have hunused : ∀ j e, i ≠ j → s.workers[j]? = some e → e.pid ≠ (pid : Int) :=
    fun j e hj he hp => hj (h.pids j i e _ he hself (by omega) hp).symm
  have huniq : ∀ (j : Nat) (e : WorkerEntry), (s.reap k i x).workers[j]? = some e →
      e.pid = (pid : Int) → j = i := by
    intro j e he hp
    rw [hreaped] at he
    split at he
    · omega
    · rename_i hj
      exact absurd hp (hunused j e hj he)
  have hget : ∀ j, (s.recorded k i pid x).workers[j]?
      = if i = j then some ⟨pid, x.status, x.results⟩ else s.workers[j]? := fun j => by
    rw [MainState.recorded, setStatus_getElem? pid x.status _ i
      ⟨⟨pid, -1, x.results⟩, by rw [hreaped, if_pos rfl], rfl⟩ huniq j, hreaped]
    split <;> rfl
  -- who is still waited for
  have hchildren : (s.recorded k i pid x).children = s.children.erase (i, pid) := by
    obtain ⟨hlt, he⟩ := List.getElem?_eq_some_iff.mp hk
    rw [← he, List.Nodup.erase_getElem h.nodup]
    rfl
  refine h.written ?_ hget (fun j hj => Function.update_of_ne (Ne.symm hj) _ _)
    (fun j pid' hj => ?_) ?_ (.waited pid hpos x (Function.update_self ..)) (fun pid' hc => ?_)
    hunused
  · rw [MainState.recorded, setStatus_length, MainState.reap, List.length_modify]
  · rw [hchildren, h.nodup.mem_erase_iff]
    simp [Ne.symm hj]
  · rw [hchildren]
    exact h.nodup.erase _
  · -- worker `i` was waited for under one process number only
    rw [hchildren, h.nodup.mem_erase_iff] at hc
    obtain ⟨-, -, h2⟩ := h.children i pid' hc.2
    rw [hself, Option.some.injEq] at h2
    have hpid : pid = pid' := Int.ofNat.inj (congrArg WorkerEntry.pid h2)
    exact absurd (by rw [hpid]) hc.1

/-! ## The run -/

/-- Any answers; no fault. -/
def anyMain : Contract (MainAnswer args) (MainState args) where
  answers := fun _ => True
  waits := fun _ => True

theorem ask_main {P : MainState args → Prop} : Triple anyMain P Prog.ask (fun _ => P) :=
  Triple.ask (fun _ _ => trivial) fun _ _ h _ => h

/-- No worker is spawned yet, and there is no memory. -/
def Bare (s : MainState args) : Prop := s.ended = (fun _ => none) ∧ s.children = []

theorem allocateWorkers_triple :
    Triple anyMain (Bare : MainState args → Prop) allocateWorkers
      (fun ok s => ok = true → Spawning 0 s) := by
  refine Triple.bind ask_main fun x => ?_
  cases (scalloc args.numWorkers.toUInt64 SIZEOF_WORKER_T x.mmap ⟨[], fun _ => 0⟩).2 with
  | error e => exact Triple.pure fun _ _ => nofun
  | ok p =>
    exact Triple.bind (R := fun _ => Spawning 0) (Triple.modify fun s h => Spawning.start s h.1 h.2)
      fun _ => Triple.pure fun _ h _ => h

theorem spawnTester_triple {k : Nat} (hk : k < args.numWorkers.toNat) :
    Triple anyMain (Spawning k : MainState args → Prop) (spawnTester k)
      (fun _ => Spawning (k + 1)) := by
  refine Triple.bind ask_main fun x => ?_
  cases x.fork with
  | none => exact Triple.pure fun _ h => h.next
  | some want => exact Triple.modify fun s h => h.spawned hk want _

theorem spawnTesters_triple : ∀ k i : Nat, i + k = args.numWorkers.toNat →
    Triple anyMain (Spawning i : MainState args → Prop) (spawnTesters k i) (fun _ => Table)
  | 0, _, _ => Triple.pure fun _ h => h.table
  | k + 1, i, hi =>
    (spawnTester_triple (by omega)).bind fun _ => spawnTesters_triple k (i + 1) (by omega)

/-- What the wait loop leaves: no child. -/
def Waited (s : MainState args) : Prop := Table s ∧ s.children = []

theorem waitAll_triple :
    Triple anyMain (Table : MainState args → Prop) waitAll (fun _ => Waited) := by
  refine Triple.iterate (I := fun _ => Table) (fun _ _ _ => trivial) (fun _ => ?_) ()
  refine Triple.bind (R := fun r s => (r.1 = -1 ∧ Waited s) ∨
      0 < r.1 ∧ Table { s with workers := setStatus r.1 r.2 s.workers }) ?_ fun r => ?_
  · refine Triple.bind ask_main fun x => ?_
    refine Triple.bind Triple.get fun s0 => ?_
    dsimp only
    cases hk : s0.children[x.child % s0.children.length]? with
    | none =>
      refine Triple.pure fun s ⟨h, he⟩ => Or.inl ⟨rfl, h, ?_⟩
      subst he
      have hlen := List.getElem?_eq_none_iff.mp hk
      rcases Nat.eq_zero_or_pos s0.children.length with h0 | h0
      · exact List.length_eq_zero_iff.mp h0
      · have := Nat.mod_lt x.child h0
        omega
    | some c =>
      obtain ⟨i, pid⟩ := c
      refine Triple.bind (R := fun _ s => 0 < (pid : Int) ∧
        Table { s with workers := setStatus pid x.ending.status s.workers })
        (Triple.modify fun s ⟨h, he⟩ => ?_) fun _ => Triple.pure fun s h => Or.inr h
      subst he
      have hpos := (h.children i pid (List.mem_of_getElem? hk)).1
      exact ⟨by omega, h.recorded hk x.ending⟩
  · refine Triple.ite (fun hpos => ?_) fun hneg => ?_
    · refine Triple.bind (R := fun _ => Table) (Triple.modify fun s h => ?_) fun _ =>
        Triple.pure fun _ h => h
      rcases h with ⟨h, _⟩ | ⟨_, h⟩
      · omega
      · exact h
    · refine Triple.pure fun s h => ?_
      rcases h with ⟨_, h⟩ | ⟨h, _⟩
      · exact h
      · exact absurd h hneg

/-- The entries add to the sum what the workers that ended do. -/
theorem Waited.counted (h : Waited s) :
    s.workers.filterMap WorkerEntry.counted = s.successful := by
  rw [filterMap_eq_range _ (fun i => (s.ended i).bind ChildEnd.counted) _ 0, h.1.length,
    ← List.range_eq_range', MainState.successful]
  intro i e he
  rw [Nat.zero_add]
  cases h.1.phase i e he with
  | unspawned hn => rw [hn]; rfl
  | running pid hn hc => rw [h.2] at hc; cases hc
  | waited pid _ x hx => rw [hx]; rfl

/-- What `main` reports, and the state it reports it in. -/
structure Reported (report : Report) (s : MainState args) : Prop where
  /-- Every worker that was spawned has ended, and no other. -/
  waited : ∀ (i : Nat) (e : WorkerEntry), s.workers[i]? = some e →
    (0 < e.pid ↔ (s.ended i).isSome = true)
  results : report.results = s.successful.foldl Results.plus .zero
  successes : report.successes = UInt32.ofNat s.successful.length
  balanced : report.results.Balanced

theorem Waited.reported (h : Waited s) : Reported (sumResults s.workers) s := by
  have hsum := sumResults_eq s.workers
  rw [h.counted] at hsum
  refine ⟨fun i e he => ?_, by rw [hsum], by rw [hsum], ?_⟩
  · cases h.1.phase i e he with
    | unspawned hn => simp [hn, WorkerEntry.initial]
    | running pid hn hc => rw [h.2] at hc; cases hc
    | waited pid hpid x hx => simpa [hx] using hpid
  · rw [hsum]
    exact foldl_plus_balanced _ _ rfl s.successful_balanced

theorem testerMain_triple :
    Triple anyMain (Bare : MainState args → Prop) testerMain
      (fun r s => ∀ report, r = some report → Reported report s) := by
  refine Triple.bind allocateWorkers_triple fun ok => ?_
  refine Triple.ite (fun hok => ?_) fun _ => Triple.pure fun _ _ => nofun
  refine Triple.pre ?_ fun s (h : ok = true → Spawning 0 s) => h hok
  refine Triple.bind (spawnTesters_triple _ 0 (Nat.zero_add _)) fun _ => ?_
  refine Triple.bind (R := fun _ => Table) (Triple.get.post fun _ _ h => h.1) fun s0 => ?_
  refine Triple.ite (fun _ => Triple.pure fun _ _ => nofun) fun _ => ?_
  refine Triple.bind waitAll_triple fun _ => ?_
  refine Triple.bind Triple.get fun s1 => ?_
  refine Triple.ite (fun _ => Triple.pure fun _ _ => nofun) fun _ => ?_
  refine Triple.pure fun s ⟨h, he⟩ report hr => ?_
  rw [Option.some.injEq] at hr
  exact hr ▸ he ▸ h.reported

/-- In every run of a worker its books are kept wherever it waits: every
attempt is scored in exactly one way, and at the start of each the
counters added up. When it exits successfully no attempt is in progress.
In every run of `main` the totals it reports are the sums over exactly
the workers that exited with status 0, and they add up. -/
theorem benchmark_adds_up (args : Args) :
    (∀ ans, (workerProcess args .start ans).Always fun w => ∃ b, Books b w) ∧
    (∀ ans w rest, workerProcess args .start ans = .done .success w rest →
      Books false w ∧ w.results.Balanced) ∧
    ∀ ans report s rest,
      testerMain (.start args) ans = .done (some report) s rest → Reported report s := by
  refine ⟨fun ans => ?_, fun ans w rest hrun => ?_, fun ans report s rest hrun => ?_⟩
  · exact (workerProcess_triple args .start ans Books.start fun _ _ => trivial).always
      (fun _ h => h) fun _ _ h => h.1
  · have hbooks := ((workerProcess_triple args).done Books.start (fun _ _ => trivial) hrun).1.2 rfl
    exact ⟨hbooks, hbooks.balanced⟩
  · exact (testerMain_triple.done (⟨rfl, rfl⟩ : Bare (.start args)) (fun _ _ => trivial) hrun).1
      report rfl

/-- A worker that makes one attempt, during which the timer ticks. -/
def oneAttempt : List WorkerAnswer :=
  [{}, {}, {}, {}, { poll := .ready POLLIN POLLOUT }, { write := .ok 3 },
    { poll := .ready 0 POLLIN }, { read := .ok 5 }, { read := .ok 0 }]

/-- Two workers that read what they get, of any size. -/
def twoWorkers : Args := ⟨65536, [SLASH], 0, 1000, 2⟩

def attemptedOnce : WorkerState where
  results := ⟨1, 1, 0, 0⟩
  running := false
  timerPolled := false
  events := POLLIN
  received := 5
  starts := [.zero]
  scores := [.successful]

theorem oneAttempt_run :
    workerProcess twoWorkers .start oneAttempt = .done .success attemptedOnce [] := rfl

/-- The second fork fails; the first worker makes its attempt. -/
def oneOfTwo : List (MainAnswer twoWorkers) :=
  let ending : ChildEnd twoWorkers := ⟨_, _, .exited _ _ _ _ oneAttempt_run⟩
  [{ ending := ending }, { fork := some 100, ending := ending }, { ending := ending },
    { ending := ending }, { ending := ending }]

theorem benchmark_adds_up_once :
    ∃ s, testerMain (.start twoWorkers) oneOfTwo = .done (some ⟨⟨1, 1, 0, 0⟩, 1⟩) s [] ∧
      Reported ⟨⟨1, 1, 0, 0⟩, 1⟩ s :=
  ⟨_, rfl, (benchmark_adds_up twoWorkers).2.2 oneOfTwo _ _ [] rfl⟩

end Sgopher.Tester
