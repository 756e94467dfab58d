import TransparentOffload.Clock

set_option autoImplicit false

/- The deadlines that the timed waits store, against what their callers asked for:
as instants in nanoseconds, and in the signed 64-bit arithmetic of the source. -/
namespace TransparentOffload

/-- The largest `long`, which is also the largest `time_t`. -/
abbrev longMax : Int := 9223372036854775807

/-- A signed 64-bit operation has a result only when it fits. -/
def long (x : Int) : Option Int :=
  if -longMax - 1 ≤ x ∧ x ≤ longMax then some x else none

theorem long_eq_some {x : Int} (fits : -longMax - 1 ≤ x ∧ x ≤ longMax) : long x = some x :=
  if_pos fits

theorem long_eq_none {x : Int} (large : longMax < x) : long x = none := by
  apply if_neg
  omega

namespace Timespec

/-- The instant as a number of nanoseconds. -/
def ns (t : Timespec) : Int := t.tvSec * 1000000000 + t.tvNsec

def Normalized (t : Timespec) : Prop := 0 ≤ t.tvNsec ∧ t.tvNsec < 1000000000

/-- What a clock can read, and what a wait may be given: a normalized instant from
the epoch on, in 64 bits. -/
def Valid (t : Timespec) : Prop := t.Normalized ∧ 0 ≤ t.tvSec ∧ t.tvSec ≤ longMax

instance (t : Timespec) : Decidable t.Normalized :=
  inferInstanceAs (Decidable (_ ∧ _))

instance (t : Timespec) : Decidable t.Valid :=
  inferInstanceAs (Decidable (_ ∧ _))

/-- The carrier's comparison orders normalized instants as numbers. -/
theorem reached_iff {deadline now : Timespec} (norm : deadline.Normalized)
    (norm' : now.Normalized) : deadline.reached now = true ↔ deadline.ns ≤ now.ns := by
  unfold Normalized at norm norm'
  unfold reached ns
  simp only [Bool.or_eq_true, Bool.and_eq_true, decide_eq_true_eq]
  omega

/-- `afterMs` as `yield_io_to` computes it, operation by operation. -/
def afterMs64 (now : Timespec) (timeoutMs : Int) : Option Timespec := do
  let sec ← long (now.tvSec + timeoutMs.tdiv 1000)
  let add ← long (timeoutMs.tmod 1000 * 1000000)
  let nsec ← long (now.tvNsec + add)
  if nsec ≥ 1000000000 then
    let sec ← long (sec + 1)
    let nsec ← long (nsec - 1000000000)
    return ⟨sec, nsec⟩
  else return ⟨sec, nsec⟩

/-- `toRealtime` operation by operation. -/
def toRealtime64 (abs : Timespec) (clk : Clock) (nm nr : Timespec) : Option Timespec :=
  match clk with
  | .realtime => some abs
  | .monotonic => do
    let ds ← long (abs.tvSec - nm.tvSec)
    let dn ← long (abs.tvNsec - nm.tvNsec)
    let sec ← long (nr.tvSec + ds)
    let nsec ← long (nr.tvNsec + dn)
    if nsec ≥ 1000000000 then
      let sec ← long (sec + 1)
      let nsec ← long (nsec - 1000000000)
      return ⟨sec, nsec⟩
    else if nsec < 0 then
      let sec ← long (sec - 1)
      let nsec ← long (nsec + 1000000000)
      return ⟨sec, nsec⟩
    else return ⟨sec, nsec⟩

end Timespec

/-- What the two clocks read at one moment. -/
structure Readings where
  real : Timespec
  mono : Timespec
  deriving DecidableEq, Repr

namespace Readings

def on (a : Readings) : Clock → Timespec
  | .realtime => a.real
  | .monotonic => a.mono

def Valid (a : Readings) : Prop := a.real.Valid ∧ a.mono.Valid

instance (a : Readings) : Decidable a.Valid := inferInstanceAs (Decidable (_ ∧ _))

end Readings

/-- What a timed wait was asked for: `timeout_ms` from now on, or an instant of a clock. -/
inductive Requested
  | lasting (timeoutMs : Int)
  | instant (clk : Clock) (abs : Timespec)
  deriving DecidableEq, Repr

namespace Requested

/-- A timeout is never negative, an instant is a valid one. -/
def Valid : Requested → Prop
  | .lasting timeoutMs => 0 ≤ timeoutMs
  | .instant _ abs => abs.Valid

instance : ∀ r : Requested, Decidable r.Valid
  | .lasting timeoutMs => inferInstanceAs (Decidable (0 ≤ timeoutMs))
  | .instant _ abs => inferInstanceAs (Decidable abs.Valid)

/-- The clock the wait is expressed in. -/
def clock : Requested → Clock
  | .lasting _ => .monotonic
  | .instant clk _ => clk

/-- The instant asked for, on that clock, when the clocks read `a` at the park. -/
def due : Requested → Readings → Int
  | .lasting timeoutMs, a => a.mono.ns + timeoutMs * 1000000
  | .instant _ abs, _ => abs.ns

/-- How much of the clock's time lies between the park and that instant. -/
def span (r : Requested) (a : Readings) : Int := r.due a - (a.on r.clock).ns

/-- The deadline stored at the park. -/
def stored : Requested → Readings → Timespec
  | .lasting timeoutMs, a => a.real.afterMs timeoutMs
  | .instant clk abs, a => abs.toRealtime clk (a.on clk) a.real

/-- The same in 64-bit arithmetic. -/
def computed : Requested → Readings → Option Timespec
  | .lasting timeoutMs, a => a.real.afterMs64 timeoutMs
  | .instant clk abs, a => abs.toRealtime64 clk (a.on clk) a.real

/-- The seconds of the wall-clock sum, its carry included, stay within a `time_t`. -/
def Room : Requested → Readings → Prop
  | .lasting timeoutMs, a =>
    a.real.tvSec + timeoutMs / 1000 +
      (if 1000000000 ≤ a.real.tvNsec + timeoutMs % 1000 * 1000000 then 1 else 0) ≤ longMax
  | .instant .realtime _, _ => True
  | .instant .monotonic abs, a =>
    a.real.tvSec + (abs.tvSec - a.mono.tvSec) +
      (if 1000000000 ≤ a.real.tvNsec + (abs.tvNsec - a.mono.tvNsec) then 1 else 0) ≤ longMax

/-- From readings `a` to readings `b` the wall clock has not gone through the time of
the wait ahead of the clock that the wait is expressed in. -/
def InStep (r : Requested) (a b : Readings) : Prop :=
  r.span a ≤ b.real.ns - a.real.ns → r.span a ≤ (b.on r.clock).ns - (a.on r.clock).ns

/-- By the readings `b` the wait's own clock has reached the instant asked for. -/
def ReachedBy (r : Requested) (a b : Readings) : Prop := r.due a ≤ (b.on r.clock).ns

instance (r : Requested) (a b : Readings) : Decidable (r.ReachedBy a b) :=
  inferInstanceAs (Decidable (_ ≤ _))

variable {r : Requested} {a b : Readings}

/-- Whole milliseconds of a timeout that is not negative. -/
theorem split_ms {timeoutMs : Int} (start : 0 ≤ timeoutMs) :
    timeoutMs.tdiv 1000 = timeoutMs / 1000 ∧ timeoutMs.tmod 1000 = timeoutMs % 1000 :=
  ⟨Int.tdiv_eq_ediv_of_nonneg start, Int.tmod_eq_emod_of_nonneg start⟩

theorem stored_normalized (asked : r.Valid) (parked : a.Valid) : (r.stored a).Normalized := by
  obtain ⟨⟨norm, _⟩, norm', _⟩ := parked
  unfold Timespec.Normalized at *
  cases r with
  | lasting timeoutMs =>
    have split := split_ms asked
    unfold stored Timespec.afterMs
    dsimp only
    rw [split.2]
    split
    · dsimp only
      omega
    · dsimp only
      omega
  | instant clk abs =>
    have norm'' : abs.Normalized := asked.1
    unfold Timespec.Normalized at norm''
    cases clk with
    | realtime => exact norm''
    | monotonic =>
      unfold stored Timespec.toRealtime Readings.on
      dsimp only
      split
      · dsimp only
        omega
      · split
        · dsimp only
          omega
        · dsimp only
          omega

/-- The stored deadline lies the span of the wait after the wall clock's reading. -/
theorem stored_ns (asked : r.Valid) : (r.stored a).ns = a.real.ns + r.span a := by
  cases r with
  | lasting timeoutMs =>
    have split := split_ms asked
    unfold stored Timespec.afterMs span due clock Readings.on Timespec.ns
    dsimp only
    rw [split.1, split.2]
    split
    · dsimp only
      omega
    · dsimp only
      omega
  | instant clk abs =>
    cases clk with
    | realtime =>
      unfold stored Timespec.toRealtime span due clock Readings.on
      dsimp only
      omega
    | monotonic =>
      unfold stored Timespec.toRealtime span due clock Readings.on Timespec.ns
      dsimp only
      split
      · dsimp only
        omega
      · split
        · dsimp only
          omega
        · dsimp only
          omega

/-- A timeout's deadline overflows only in its seconds. -/
theorem afterMs64_iff {now : Timespec} {timeoutMs : Int} (start : 0 ≤ timeoutMs)
    (valid : now.Valid) : now.afterMs64 timeoutMs = some (now.afterMs timeoutMs) ↔
      now.tvSec + timeoutMs / 1000 +
        (if 1000000000 ≤ now.tvNsec + timeoutMs % 1000 * 1000000 then 1 else 0) ≤ longMax := by
  obtain ⟨norm, sec⟩ := valid
  unfold Timespec.Normalized at norm
  have max : longMax = 9223372036854775807 := rfl
  have split := split_ms start
  unfold Timespec.afterMs64 Timespec.afterMs
  rw [split.1, split.2]
  have add := long_eq_some (x := timeoutMs % 1000 * 1000000) (by omega)
  have nsec := long_eq_some (x := now.tvNsec + timeoutMs % 1000 * 1000000) (by omega)
  by_cases room : now.tvSec + timeoutMs / 1000 ≤ longMax
  · rw [long_eq_some (by omega), add]
    simp only [Option.bind_eq_bind, Option.bind_some, nsec]
    by_cases carry : 1000000000 ≤ now.tvNsec + timeoutMs % 1000 * 1000000
    · have less := long_eq_some (x := now.tvNsec + timeoutMs % 1000 * 1000000 - 1000000000)
        (by omega)
      rw [if_pos carry, if_pos carry, if_pos carry, less]
      by_cases next : now.tvSec + timeoutMs / 1000 + 1 ≤ longMax
      · rw [long_eq_some (by omega)]
        simp [next]
      · rw [long_eq_none (by omega)]
        simp [next]
    · simp [carry, room]
  · rw [long_eq_none (by omega)]
    simp only [Option.bind_eq_bind, Option.bind_none, reduceCtorEq, false_iff]
    split <;> omega

/-- So does that of an instant of the monotonic clock. -/
theorem toRealtime64_iff {abs nm nr : Timespec} (asked : abs.Valid) (valid : nm.Valid)
    (valid' : nr.Valid) : abs.toRealtime64 .monotonic nm nr =
        some (abs.toRealtime .monotonic nm nr) ↔
      nr.tvSec + (abs.tvSec - nm.tvSec) +
        (if 1000000000 ≤ nr.tvNsec + (abs.tvNsec - nm.tvNsec) then 1 else 0) ≤ longMax := by
  obtain ⟨norm, sec⟩ := asked
  obtain ⟨normM, secM⟩ := valid
  obtain ⟨normR, secR⟩ := valid'
  unfold Timespec.Normalized at norm normM normR
  have max : longMax = 9223372036854775807 := rfl
  unfold Timespec.toRealtime64 Timespec.toRealtime
  have ds := long_eq_some (x := abs.tvSec - nm.tvSec) (by omega)
  have dn := long_eq_some (x := abs.tvNsec - nm.tvNsec) (by omega)
  have nsec := long_eq_some (x := nr.tvNsec + (abs.tvNsec - nm.tvNsec)) (by omega)
  dsimp only
  rw [ds, dn]
  simp only [Option.bind_eq_bind, Option.bind_some]
  by_cases room : nr.tvSec + (abs.tvSec - nm.tvSec) ≤ longMax
  · rw [long_eq_some (by omega), nsec]
    simp only [Option.bind_some]
    by_cases carry : 1000000000 ≤ nr.tvNsec + (abs.tvNsec - nm.tvNsec)
    · have less := long_eq_some (x := nr.tvNsec + (abs.tvNsec - nm.tvNsec) - 1000000000) (by omega)
      rw [if_pos carry, if_pos carry, if_pos carry, less]
      by_cases next : nr.tvSec + (abs.tvSec - nm.tvSec) + 1 ≤ longMax
      · rw [long_eq_some (by omega)]
        simp [next]
      · rw [long_eq_none (by omega)]
        simp [next]
    · rw [if_neg carry, if_neg carry, if_neg carry]
      by_cases borrow : nr.tvNsec + (abs.tvNsec - nm.tvNsec) < 0
      · have more := long_eq_some (x := nr.tvNsec + (abs.tvNsec - nm.tvNsec) + 1000000000)
          (by omega)
        rw [if_pos borrow, if_pos borrow, more, long_eq_some (by omega)]
        simp [room]
      · rw [if_neg borrow, if_neg borrow]
        simp [room]
  · rw [long_eq_none (by omega)]
    simp only [Option.bind_none, reduceCtorEq, false_iff]
    split <;> omega

/-- The source computes the deadline without overflow exactly when there is room. -/
theorem computed_iff (asked : r.Valid) (parked : a.Valid) :
    r.computed a = some (r.stored a) ↔ r.Room a := by
  cases r with
  | lasting timeoutMs => exact afterMs64_iff asked parked.1
  | instant clk abs =>
    cases clk with
    | realtime => exact ⟨fun _ => trivial, fun _ => rfl⟩
    | monotonic => exact toRealtime64_iff asked parked.2 parked.1

/-- A deadline passes when the wall clock has advanced by the span of the wait. -/
theorem stored_reached_iff (asked : r.Valid) (parked : a.Valid) (now : b.Valid) :
    (r.stored a).reached b.real = true ↔ r.span a ≤ b.real.ns - a.real.ns := by
  rw [Timespec.reached_iff (stored_normalized asked parked) now.1.1, stored_ns asked]
  omega

theorem reachedBy_iff : r.ReachedBy a b ↔ r.span a ≤ (b.on r.clock).ns - (a.on r.clock).ns := by
  unfold ReachedBy span
  omega

end Requested

end TransparentOffload
