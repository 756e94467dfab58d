import Mathlib.Data.Int.Basic

set_option autoImplicit false

/- `struct timespec` and the deadline arithmetic of the runtime. -/
namespace TransparentOffload

structure Timespec where
  tvSec : Int
  tvNsec : Int
  deriving DecidableEq, Repr

/-- The two clocks a condition wait can name. -/
inductive Clock
  | realtime
  | monotonic
  deriving DecidableEq, Repr

namespace Timespec

def zero : Timespec := ⟨0, 0⟩

/-- The carrier's comparison of `now` with a stored deadline. -/
def reached (deadline now : Timespec) : Bool :=
  decide (now.tvSec > deadline.tvSec) ||
    (decide (now.tvSec = deadline.tvSec) && decide (now.tvNsec ≥ deadline.tvNsec))

/-- The deadline of `yield_io_to`: the current time plus `timeout_ms`, carried once. -/
def afterMs (now : Timespec) (timeoutMs : Int) : Timespec :=
  let sec := now.tvSec + timeoutMs.tdiv 1000
  let nsec := now.tvNsec + timeoutMs.tmod 1000 * 1000000
  if nsec ≥ 1000000000 then ⟨sec + 1, nsec - 1000000000⟩ else ⟨sec, nsec⟩

/-- `to_realtime`: an instant of `clk` as an instant of `CLOCK_REALTIME`, given
the readings `nm` of `clk` and `nr` of the wall clock. -/
def toRealtime (abs : Timespec) (clk : Clock) (nm nr : Timespec) : Timespec :=
  match clk with
  | .realtime => abs
  | .monotonic =>
    let ds := abs.tvSec - nm.tvSec
    let dn := abs.tvNsec - nm.tvNsec
    let sec := nr.tvSec + ds
    let nsec := nr.tvNsec + dn
    if nsec ≥ 1000000000 then ⟨sec + 1, nsec - 1000000000⟩
    else if nsec < 0 then ⟨sec - 1, nsec + 1000000000⟩
    else ⟨sec, nsec⟩

end Timespec

end TransparentOffload
