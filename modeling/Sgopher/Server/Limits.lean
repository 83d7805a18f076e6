/-
Sgopher.Server.Limits — how the worker provides for its clients before it
serves any: the descriptor limit it raises and the size of its event
loop.

Both are computed from `maxClients`, an `unsigned int` that the command
line takes as it comes. The number of descriptors is computed in 32 bits
and then widened to `rlim_t`; the size of the loop is computed in `int`.
`capacity_secured_iff` says exactly when the worker that gets past
`increasefdlimit` has what its clients may need: wherever neither
computation wraps around, and, where the first one does, if the soft
limit was high enough already. From 1073741822 clients on the number
wraps around to a small one (`capacity_unsecured`).

No `sorry`, no `axiom`, no `native_decide`.
-/
import Sgopher.Server.OwnershipTheorems

namespace Sgopher.Server

/-! ## The source -/

/-- `struct rlimit`, with the 64-bit `rlim_t`. -/
structure Rlimit where
  rlimCur : UInt64
  rlimMax : UInt64

/-- What the system answers to the two calls of `increasefdlimit`: the
error, if any. -/
structure LimitAnswer where
  getrlimit : Option Errno := none
  setrlimit : Option Errno := none

/-- `increasefdlimit`: the limits afterwards, and the value returned. -/
def increasefdlimit (inc : UInt64) (ans : LimitAnswer) (limit : Rlimit) : Rlimit × Int :=
  if ans.getrlimit.isSome then (limit, -1)
  else if inc < limit.rlimCur then (limit, 0)
  else if limit.rlimMax < inc then (limit, -1)
  else if ans.setrlimit.isSome then (limit, -1)
  else ({ limit with rlimCur := inc }, 0)

/-- `FDS_SERVER + params->maxClients * FDS_CLIENT`, in `unsigned int`, as
the argument of type `rlim_t`. -/
def fdsNeeded (maxClients : UInt32) : UInt64 :=
  (UInt32.ofNat FDS_SERVER + maxClients * UInt32.ofNat FDS_CLIENT).toUInt64

/-- `(int)params->maxClients + 3`: the conversion wraps around, and the
addition is undefined where it overflows. -/
def eventLoopSize (maxClients : UInt32) : Option Int :=
  let n : Int := if maxClients.toNat < 2 ^ 31 then maxClients.toNat else maxClients.toNat - 2 ^ 32
  if 2 ^ 31 - 1 < n + 3 then none else some (n + 3)

/-- `server_process`, as far as the capacity goes: `none` where it exits
because of the limit, else the limits it serves under and the size it
hands to `sepoll_create`. -/
def capacity (maxClients : UInt32) (ans : LimitAnswer) (limit : Rlimit) :
    Option (Rlimit × Option Int) :=
  let (limit, r) := increasefdlimit (fdsNeeded maxClients) ans limit
  if r < 0 then none else some (limit, eventLoopSize maxClients)

/-! ## What the clients need -/

/-- The descriptors that many clients may need, in exact arithmetic. -/
def fdsOf (maxClients : UInt32) : Nat := FDS_SERVER + FDS_CLIENT * maxClients.toNat

/-- A worker that gets past the limit has secured what its clients need,
and sizes its loop for one event from each and three more. -/
def Secured (maxClients : UInt32) (ans : LimitAnswer) (limit : Rlimit) : Prop :=
  ∀ limit' size, capacity maxClients ans limit = some (limit', size) →
    fdsOf maxClients ≤ limit'.rlimCur.toNat ∧
      size = some ((maxClients.toNat : Int) + 3) ∧ 0 < (maxClients.toNat : Int) + 3

/-- The worker exits because of the limit. -/
def Refused (maxClients : UInt32) (ans : LimitAnswer) (limit : Rlimit) : Prop :=
  ans.getrlimit.isSome ∨ limit.rlimCur ≤ fdsNeeded maxClients ∧
    (limit.rlimMax < fdsNeeded maxClients ∨ ans.setrlimit.isSome)

/-! ## The computations -/

theorem fdsNeeded_toNat (maxClients : UInt32) :
    (fdsNeeded maxClients).toNat = fdsOf maxClients % 2 ^ 32 := by
  have h : (UInt32.ofNat FDS_SERVER + maxClients * UInt32.ofNat FDS_CLIENT).toNat
      = fdsOf maxClients % 2 ^ 32 := by
    rw [UInt32.toNat_add, UInt32.toNat_mul]
    simp only [FDS_SERVER, FDS_CLIENT, fdsOf, UInt32.toNat_ofNat']
    omega
  rw [fdsNeeded, UInt32.toNat_toUInt64, h]

/-- The size of the loop is the one meant as long as `int` has room for
it. -/
theorem eventLoopSize_eq_iff (maxClients : UInt32) :
    eventLoopSize maxClients = some ((maxClients.toNat : Int) + 3) ↔
      maxClients.toNat + 3 < 2 ^ 31 := by
  have hlt := maxClients.toNat_lt
  unfold eventLoopSize
  dsimp only
  split
  · split
    · constructor
      · nofun
      · omega
    · exact ⟨fun _ => by omega, fun _ => rfl⟩
  · split
    · constructor
      · nofun
      · omega
    · constructor
      · intro h
        have := Option.some.inj h
        omega
      · omega

/-- What `capacity` can do. -/
theorem capacity_cases (maxClients : UInt32) (ans : LimitAnswer) (limit : Rlimit) :
    (Refused maxClients ans limit ∧ capacity maxClients ans limit = none) ∨
    (¬ Refused maxClients ans limit ∧ fdsNeeded maxClients < limit.rlimCur ∧
      capacity maxClients ans limit = some (limit, eventLoopSize maxClients)) ∨
    (¬ Refused maxClients ans limit ∧ limit.rlimCur ≤ fdsNeeded maxClients ∧
      capacity maxClients ans limit
        = some ({ limit with rlimCur := fdsNeeded maxClients }, eventLoopSize maxClients)) := by
  unfold Refused capacity increasefdlimit
  by_cases hget : ans.getrlimit.isSome = true
  · exact Or.inl ⟨Or.inl hget, by simp [hget]⟩
  · by_cases hcur : fdsNeeded maxClients < limit.rlimCur
    · have hle := UInt64.not_le.mpr hcur
      exact Or.inr (Or.inl ⟨by simp [hget, hle], hcur, by simp [hget, hcur]⟩)
    · have hle := UInt64.not_lt.mp hcur
      by_cases hmax : limit.rlimMax < fdsNeeded maxClients
      · exact Or.inl ⟨Or.inr ⟨hle, Or.inl hmax⟩, by simp [hget, hcur, hmax]⟩
      · by_cases hset : ans.setrlimit.isSome = true
        · exact Or.inl ⟨Or.inr ⟨hle, Or.inr hset⟩, by simp [hget, hcur, hmax, hset]⟩
        · exact Or.inr (Or.inr ⟨by simp [hget, hmax, hset], hle, by simp [hget, hcur, hmax, hset]⟩)

/-! ## When the capacity is secured -/

/-- A worker that gets past the limit, by the limit it serves under. -/
theorem secured_iff_of_capacity {maxClients : UInt32} {ans : LimitAnswer} {limit limit' : Rlimit}
    (hc : capacity maxClients ans limit = some (limit', eventLoopSize maxClients)) :
    Secured maxClients ans limit ↔
      fdsOf maxClients ≤ limit'.rlimCur.toNat ∧ maxClients.toNat + 3 < 2 ^ 31 := by
  have hsize := eventLoopSize_eq_iff maxClients
  constructor
  · intro h
    obtain ⟨hfds, hs, _⟩ := h _ _ hc
    exact ⟨hfds, hsize.mp hs⟩
  · rintro ⟨hfds, hs⟩ limit'' size hc'
    rw [hc, Option.some.injEq, Prod.mk.injEq] at hc'
    obtain ⟨rfl, rfl⟩ := hc'
    exact ⟨hfds, hsize.mpr hs, by omega⟩

/-- A worker secures what its clients may need exactly when it does not
get past the limit; or the number of descriptors does not wrap around; or
it does, but the soft limit is high enough already and the size of the
loop fits in `int`. -/
theorem capacity_secured_iff (maxClients : UInt32) (ans : LimitAnswer) (limit : Rlimit) :
    Secured maxClients ans limit ↔
      Refused maxClients ans limit ∨ fdsOf maxClients < 2 ^ 32 ∨
        fdsOf maxClients ≤ limit.rlimCur.toNat ∧ maxClients.toNat + 3 < 2 ^ 31 := by
  have hneed := fdsNeeded_toNat maxClients
  -- without a wrap there is room in `int` as well
  have hint : fdsOf maxClients < 2 ^ 32 → maxClients.toNat + 3 < 2 ^ 31 := by
    unfold fdsOf FDS_SERVER FDS_CLIENT
    omega
  have hwrap := Nat.mod_lt (fdsOf maxClients) (show 0 < 2 ^ 32 by decide)
  have hmod : fdsOf maxClients < 2 ^ 32 → fdsOf maxClients % 2 ^ 32 = fdsOf maxClients :=
    Nat.mod_eq_of_lt
  rcases capacity_cases maxClients ans limit with ⟨hr, hc⟩ | ⟨hr, hlt, hc⟩ | ⟨hr, hle, hc⟩
  · simp [Secured, hc, hr]
  · rw [UInt64.lt_iff_toNat_lt, hneed] at hlt
    rw [secured_iff_of_capacity hc]
    constructor
    · exact fun h => Or.inr (Or.inr h)
    · rintro (h | h | h)
      · exact absurd h hr
      · rw [hmod h] at hlt
        exact ⟨by omega, hint h⟩
      · exact h
  · rw [UInt64.le_iff_toNat_le, hneed] at hle
    rw [secured_iff_of_capacity hc]
    simp only [hneed]
    constructor
    · exact fun h => Or.inr (Or.inl (by omega))
    · rintro (h | h | h)
      · exact absurd h hr
      · exact ⟨(hmod h).ge, hint h⟩
      · -- the wrapped number is at least the soft limit, so it was not one
        exact ⟨by omega, h.2⟩

/-- With the usual limit of 1024 descriptors and 1073741822 clients the
worker needs one descriptor, as it reckons. -/
theorem capacity_unsecured : ¬ Secured 1073741822 {} ⟨1024, 4096⟩ := by
  intro h
  have := (h ⟨1024, 4096⟩ _ rfl).1
  revert this
  decide

end Sgopher.Server
