import Mathlib.Algebra.BigOperators.Group.Finset.Basic
import TransparentOffload.GpuStreams
import TransparentOffload.Lib.Run

set_option autoImplicit false

/- `gpu_runtime_verify`: fibers on one thread, each with a stream and an event of its
own, that offload a message, park, and compare what comes back. The streams and the
timer go on between any two steps of the thread. -/
namespace TransparentOffload.GpuRuntime

open GpuStream (Bufs Issued cipher recorded)
open LibAccelGpu (Op opsOfSubmit)
open Streams (Queue)

/-- `N` and `MSG`: a launch encrypts whole blocks, and `tmp` at startup has 8192 bytes. -/
structure Config where
  n : Nat
  msg : Nat
  blocks : msg % 16 = 0
  fits : msg ≤ 8192

/-- `memset(c.h,(uint8_t)(id+1),MSG)`. -/
def message (c : Config) (id : Nat) : Bytes := List.replicate c.msg (UInt8.ofNat (id + 1))

/-- Where `body` is: at its loop test, in `submit_offload`, behind its switch, or
behind its loop. -/
inductive Body
  | top
  | issue (rest : List Op)
  | resumed
  | ended
  deriving DecidableEq, Repr

/-- `struct Conn`, with the place of its fiber. -/
structure Conn where
  stream : Queue Bufs Op
  waiting : Bool
  finished : Bool
  ops : Nat
  body : Body
  deriving DecidableEq, Repr

/-- Where `run_coro` is: in the loop over events, in the loop over fibers with its
counters, in fiber `i`, or behind its loop with the total. -/
inductive Pc
  | poll (i : Nat)
  | run (i ran parked fin : Nat)
  | fiber (i ran parked fin : Nat)
  | done (total : Nat)
  deriving DecidableEq, Repr

structure State where
  conns : Nat → Conn
  stop : Bool
  mismatch : Nat
  pc : Pc

/-- `run_coro` at its start; the buffers hold what startup left in them. -/
def State.init (bufs : Nat → Bufs) : State :=
  { conns := fun i => ⟨⟨[], bufs i⟩, false, false, 0, .top⟩, stop := false, mismatch := 0
    pc := .poll 0 }

namespace State

def setConn (s : State) (i : Nat) (conn : Conn) : State :=
  { s with conns := Function.update s.conns i conn }

/-- The loop over events, for one connection. -/
def poll (c : Config) (s : State) (i : Nat) : State :=
  if i < c.n then
    let conn := s.conns i
    let s := { s with pc := .poll (i + 1) }
    if conn.waiting && recorded conn.stream then s.setConn i { conn with waiting := false } else s
  else { s with pc := .run 0 0 0 0 }

/-- The loop over fibers, for one connection, and what follows it. -/
def run (c : Config) (s : State) (i ran parked fin : Nat) : State :=
  if i < c.n then
    if (s.conns i).finished then { s with pc := .run (i + 1) ran parked (fin + 1) }
    else if (s.conns i).waiting then { s with pc := .run (i + 1) ran (parked + 1) fin }
    else { s with pc := .fiber i ran parked fin }
  else if fin = c.n then
    { s with pc := .done (∑ j ∈ Finset.range c.n, (s.conns j).ops) }
  else { s with pc := .poll 0 }

/-- A fiber's next step: the loop test and `memset`, a CUDA call, the switch, and the
comparison after it. -/
def body (c : Config) (expect : Nat → Bytes) (s : State) (i ran parked fin : Nat) : Option State :=
  let conn := s.conns i
  match conn.body with
  | .top =>
    if s.stop then
      some { s.setConn i { conn with finished := true, body := .ended } with
        pc := .run (i + 1) (ran + 1) parked fin }
    else
      let mem := { conn.stream.mem with h := message c i }
      some (s.setConn i { conn with
        stream := { conn.stream with mem := mem }, body := .issue opsOfSubmit })
  | .issue (op :: rest) =>
    some (s.setConn i { conn with stream := conn.stream.issue op, body := .issue rest })
  | .issue [] =>
    some { s.setConn i { conn with waiting := true, body := .resumed } with
      pc := .run (i + 1) (ran + 1) parked fin }
  | .resumed =>
    some { s.setConn i { conn with ops := conn.ops + 1, body := .top } with
      mismatch := if conn.stream.mem.h ≠ expect i then s.mismatch + 1 else s.mismatch }
  | .ended => none

/-- The next step of the thread. -/
def turn (c : Config) (expect : Nat → Bytes) (s : State) : Option State :=
  match s.pc with
  | .poll i => some (s.poll c i)
  | .run i ran parked fin => some (s.run c i ran parked fin)
  | .fiber i ran parked fin => s.body c expect i ran parked fin
  | .done _ => none

/-- The stream of connection `i` carries out its next operation. -/
def device (c : Config) (s : State) (i : Nat) : Option State :=
  ((s.conns i).stream.execute (GpuStream.apply c.msg)).map fun stream =>
    s.setConn i { s.conns i with stream := stream }

end State

inductive GpuAct
  | turn
  | device (i : Nat)
  | timer
  deriving DecidableEq, Repr

def step (c : Config) (expect : Nat → Bytes) (s : State) : GpuAct → Option State
  | .turn => s.turn c expect
  | .device i => s.device c i
  | .timer => some { s with stop := true }

/-- `conns[i].expect`, which startup has made with OpenSSL. -/
def expect (evp : Bytes → Bytes → Bytes → Bytes) (c : Config) (i : Nat) : Bytes :=
  evp LibAccelGpu.key (List.replicate 16 0) (message c i)

theorem length_message (c : Config) (i : Nat) : (message c i).length = c.msg :=
  List.length_replicate

theorem expect_eq_cipher (evp : Bytes → Bytes → Bytes → Bytes)
    (documented : ∀ key iv data, key.length = 16 → iv.length = 16 →
      evp key iv data = LibAccel.aes128Ctr key iv data) (c : Config) (i : Nat) :
    expect evp c i = cipher c.msg (message c i) := by
  have fits := c.fits
  exact GpuStream.evp_eq_cipher evp documented (length_message c i) c.blocks (by omega)

/-- A connection, by the place of its fiber. -/
def Stands (c : Config) (i : Nat) (conn : Conn) : Prop :=
  match conn.body with
  | .top => conn.stream.pending = [] ∧ conn.waiting = false ∧ conn.finished = false
  | .issue rest => conn.waiting = false ∧ conn.finished = false ∧
      ∃ d issued, issued ++ rest = opsOfSubmit ∧ Issued c.msg ⟨message c i, d⟩ issued conn.stream
  | .resumed => conn.finished = false ∧ (conn.waiting = false → conn.stream.pending = []) ∧
      ∃ d, Issued c.msg ⟨message c i, d⟩ opsOfSubmit conn.stream
  | .ended => conn.stream.pending = [] ∧ conn.waiting = false ∧ conn.finished = true

/-- The counters of the loop over fibers: `fin` counts finished fibers. -/
def Counting (s : State) (i fin : Nat) : Prop :=
  fin ≤ i ∧ (fin = i → ∀ j < i, (s.conns j).finished = true)

/-- What is known at a place of `run_coro`. -/
def Pc.Knows (c : Config) (s : State) : Pc → Prop
  | .poll _ => True
  | .run i _ _ fin => i ≤ c.n ∧ Counting s i fin
  | .fiber i _ _ fin => i < c.n ∧ (s.conns i).waiting = false ∧ Counting s i fin
  | .done total => (∀ j < c.n, (s.conns j).finished = true) ∧
      total = ∑ j ∈ Finset.range c.n, (s.conns j).ops

structure Inv (c : Config) (s : State) : Prop where
  stands : ∀ i, Stands c i (s.conns i)
  knows : s.pc.Knows c s
  matched : s.mismatch = 0

theorem init_inv (c : Config) (bufs : Nat → Bufs) : Inv c (.init bufs) where
  stands := fun _ => ⟨rfl, rfl, rfl⟩
  knows := trivial
  matched := rfl

/-- The stream of a connection goes on; nobody else looks at its buffers meanwhile. -/
theorem Stands.device {c : Config} {i : Nat} {conn : Conn} {stream : Queue Bufs Op}
    (stands : Stands c i conn) (taken : conn.stream.execute (GpuStream.apply c.msg) = some stream) :
    Stands c i { conn with stream := stream } := by
  have busy := GpuStream.busy taken
  unfold Stands at stands ⊢
  cases at_ : conn.body with
  | top | ended =>
    rw [at_] at stands
    exact absurd stands.1 busy
  | issue rest =>
    rw [at_] at stands
    obtain ⟨waiting, finished, d, issued, all, progress⟩ := stands
    exact ⟨waiting, finished, d, issued, all, progress.execute taken⟩
  | resumed =>
    rw [at_] at stands
    obtain ⟨finished, awake, d, progress⟩ := stands
    exact ⟨finished, fun waiting => absurd (awake waiting) busy, d, progress.execute taken⟩

theorem Counting.mono {s t : State} {i fin : Nat} (counting : Counting s i fin)
    (kept : ∀ j, (s.conns j).finished = true → (t.conns j).finished = true) : Counting t i fin :=
  ⟨counting.1, fun all j inside => kept j (counting.2 all j inside)⟩

/-- A finished fiber is counted, another is not. -/
theorem Counting.finished {s t : State} {i fin : Nat} (counting : Counting s i fin)
    (same : t.conns = s.conns) (done : (s.conns i).finished = true) :
    Counting t (i + 1) (fin + 1) := by
  refine ⟨Nat.succ_le_succ counting.1, ?_⟩
  intro all j inside
  rw [same]
  by_cases last : j = i
  · rw [last]
    exact done
  · exact counting.2 (by omega) j (by omega)

theorem Counting.skip {s t : State} {i fin : Nat} (counting : Counting s i fin) :
    Counting t (i + 1) fin := by
  have bound := counting.1
  exact ⟨by omega, fun all => by omega⟩

section Steps

variable {c : Config} {s t : State} {i : Nat} {conn : Conn}

/-- The connections after one of them has changed. -/
theorem stands_update (all : ∀ j, Stands c j (s.conns j)) (stands : Stands c i conn) :
    ∀ j, Stands c j (Function.update s.conns i conn j) := by
  intro j
  by_cases same : j = i
  · rw [same, Function.update_self]
    exact stands
  · rw [Function.update_of_ne same]
    exact all j

theorem finished_update (finished : (s.conns i).finished = true → conn.finished = true) :
    ∀ j, (s.conns j).finished = true → (Function.update s.conns i conn j).finished = true := by
  intro j
  by_cases same : j = i
  · rw [same, Function.update_self]
    exact finished
  · rw [Function.update_of_ne same]
    exact id

theorem device_inv (inv : Inv c s) (taken : s.device c i = some t) : Inv c t := by
  obtain ⟨stream, moved, rfl⟩ := Option.map_eq_some_iff.mp taken
  have kept : ∀ j, (s.conns j).finished = true →
      (Function.update s.conns i { s.conns i with stream := stream } j).finished = true :=
    finished_update id
  refine ⟨stands_update inv.stands ((inv.stands i).device moved), ?_, inv.matched⟩
  have knows := inv.knows
  change s.pc.Knows c (s.setConn i { s.conns i with stream := stream })
  cases pc : s.pc with
  | poll => trivial
  | run k ran parked fin =>
    rw [pc] at knows
    exact ⟨knows.1, knows.2.mono kept⟩
  | fiber k ran parked fin =>
    rw [pc] at knows
    refine ⟨knows.1, ?_, knows.2.2.mono kept⟩
    change (Function.update s.conns i { s.conns i with stream := stream } k).waiting = false
    by_cases same : k = i
    · rw [same, Function.update_self, ← same]
      exact knows.2.1
    · rw [Function.update_of_ne same]
      exact knows.2.1
  | done total =>
    rw [pc] at knows
    refine ⟨fun j inside => kept j (knows.1 j inside), ?_⟩
    rw [knows.2]
    apply Finset.sum_congr rfl
    intro j _
    change (s.conns j).ops = (Function.update s.conns i { s.conns i with stream := stream } j).ops
    by_cases same : j = i
    · rw [same, Function.update_self]
    · rw [Function.update_of_ne same]

theorem poll_inv (inv : Inv c s) : Inv c (s.poll c i) := by
  unfold State.poll
  split
  · dsimp only
    split
    · rename_i ready
      rw [Bool.and_eq_true] at ready
      refine ⟨?_, trivial, inv.matched⟩
      refine stands_update inv.stands ?_
      have stands := inv.stands i
      unfold Stands at stands ⊢
      cases at_ : (s.conns i).body with
      | resumed =>
        rw [at_] at stands
        obtain ⟨finished, _, d, progress⟩ := stands
        exact ⟨finished, fun _ => progress.idle rfl ready.2, d, progress⟩
      | top | ended =>
        rw [at_] at stands
        exact absurd (stands.2.1.symm.trans ready.1) nofun
      | issue rest =>
        rw [at_] at stands
        exact absurd (stands.1.symm.trans ready.1) nofun
    · exact ⟨inv.stands, trivial, inv.matched⟩
  · refine ⟨inv.stands, ⟨Nat.zero_le _, Nat.le_refl 0, ?_⟩, inv.matched⟩
    exact fun _ j inside => absurd inside (Nat.not_lt_zero j)

theorem run_inv {ran parked fin : Nat} (inv : Inv c s) (bound : i ≤ c.n)
    (counting : Counting s i fin) : Inv c (s.run c i ran parked fin) := by
  unfold State.run
  split
  · rename_i inside
    split
    · rename_i done
      exact ⟨inv.stands, ⟨inside, counting.finished rfl done⟩, inv.matched⟩
    · split
      · exact ⟨inv.stands, ⟨inside, counting.skip⟩, inv.matched⟩
      · rename_i awake
        exact ⟨inv.stands, ⟨inside, by simpa using awake, counting⟩, inv.matched⟩
  · rename_i last
    split
    · rename_i all
      refine ⟨inv.stands, ⟨?_, rfl⟩, inv.matched⟩
      intro j inside
      exact counting.2 (by omega) j (by omega)
    · exact ⟨inv.stands, trivial, inv.matched⟩

theorem body_inv {expect : Nat → Bytes} {ran parked fin : Nat}
    (right : ∀ i, expect i = cipher c.msg (message c i)) (inv : Inv c s)
    (pc : s.pc = .fiber i ran parked fin)
    (taken : s.body c expect i ran parked fin = some t) : Inv c t := by
  have knows := inv.knows
  rw [pc] at knows
  obtain ⟨inside, awake, counting⟩ := knows
  have stands := inv.stands i
  have here : ∀ {conn : Conn}, Function.update s.conns i conn i = conn := Function.update_self ..
  unfold Stands at stands
  unfold State.body at taken
  dsimp only at taken
  cases at_ : (s.conns i).body with
  | top =>
    rw [at_] at stands taken
    dsimp only at taken
    obtain ⟨idle, waiting, finished⟩ := stands
    split at taken
    · rw [Option.some.injEq] at taken
      subst taken
      exact ⟨stands_update inv.stands ⟨idle, waiting, rfl⟩, ⟨inside, counting.skip⟩, inv.matched⟩
    · rw [Option.some.injEq] at taken
      subst taken
      refine ⟨stands_update inv.stands ?_, ?_, inv.matched⟩
      · exact ⟨waiting, finished, (s.conns i).stream.mem.d, [], rfl, Queue.settled_idle idle,
          Or.inl idle⟩
      · change Pc.Knows c _ s.pc
        rw [pc]
        refine ⟨inside, ?_, counting.mono (finished_update fun done => ?_)⟩
        · change (Function.update s.conns i _ i).waiting = false
          rw [here]
          exact waiting
        · exact done
  | issue rest =>
    rw [at_] at stands taken
    obtain ⟨waiting, finished, d, issued, all, progress⟩ := stands
    cases rest with
    | nil =>
      rw [List.append_nil] at all
      rw [Option.some.injEq] at taken
      subst taken
      refine ⟨stands_update inv.stands ⟨finished, nofun, d, all ▸ progress⟩, ?_, inv.matched⟩
      exact ⟨inside, counting.skip⟩
    | cons op rest =>
      rw [Option.some.injEq] at taken
      subst taken
      refine ⟨stands_update inv.stands ?_, ?_, inv.matched⟩
      · refine ⟨waiting, finished, d, issued ++ [op], ?_, progress.issue op⟩
        rw [List.append_assoc]
        exact all
      · change Pc.Knows c _ s.pc
        rw [pc]
        refine ⟨inside, ?_, counting.mono (finished_update fun done => done)⟩
        change (Function.update s.conns i _ i).waiting = false
        rw [here]
        exact waiting
  | resumed =>
    rw [at_] at stands taken
    obtain ⟨finished, idle, d, progress⟩ := stands
    have result : (s.conns i).stream.mem.h = cipher c.msg (message c i) := by
      rw [progress.mem_eq (idle awake)]
      rfl
    rw [Option.some.injEq] at taken
    subst taken
    refine ⟨stands_update inv.stands ⟨idle awake, awake, finished⟩, ?_, ?_⟩
    · change Pc.Knows c _ s.pc
      rw [pc]
      refine ⟨inside, ?_, counting.mono (finished_update fun done => done)⟩
      change (Function.update s.conns i _ i).waiting = false
      rw [here]
      exact awake
    · change (if (s.conns i).stream.mem.h ≠ expect i then s.mismatch + 1 else s.mismatch) = 0
      rw [if_neg (not_not.mpr (result.trans (right i).symm))]
      exact inv.matched
  | ended =>
    rw [at_] at taken
    cases taken

theorem step_inv {expect : Nat → Bytes} (right : ∀ i, expect i = cipher c.msg (message c i))
    {a : GpuAct} (inv : Inv c s) (taken : step c expect s a = some t) : Inv c t := by
  cases a with
  | device i => exact device_inv inv taken
  | timer =>
    rw [step, Option.some.injEq] at taken
    subst taken
    refine ⟨inv.stands, ?_, inv.matched⟩
    have knows := inv.knows
    change s.pc.Knows c { s with stop := true }
    cases pc : s.pc with
    | poll => trivial
    | run | fiber | done =>
      rw [pc] at knows
      exact knows
  | turn =>
    rw [step, State.turn] at taken
    have knows := inv.knows
    split at taken
    · rw [Option.some.injEq] at taken
      exact taken ▸ poll_inv inv
    · rename_i i ran parked fin pc
      rw [pc] at knows
      rw [Option.some.injEq] at taken
      exact taken ▸ run_inv inv knows.1 knows.2
    · rename_i i ran parked fin pc
      exact body_inv right inv pc taken
    · cases taken

end Steps

/-- Whatever the streams and the timer do between the steps of the thread: no fiber
finds anything but OpenSSL's ciphertext of its message when it goes on, and when
`run_coro` returns, each fiber has ended, no stream has anything left to do, and the
total counts the offloads that were compared. -/
theorem offloads_match_openssl (evp : Bytes → Bytes → Bytes → Bytes)
    (documented : ∀ key iv data, key.length = 16 → iv.length = 16 →
      evp key iv data = LibAccel.aes128Ctr key iv data)
    (c : Config) (bufs : Nat → Bufs) (acts : List GpuAct) (s : State)
    (reached : Machine.run (step c (expect evp c)) (.init bufs) acts = some s) :
    s.mismatch = 0 ∧ ∀ total, s.pc = .done total →
      total = ∑ i ∈ Finset.range c.n, (s.conns i).ops ∧
      ∀ i < c.n, (s.conns i).body = .ended ∧ (s.conns i).stream.pending = [] := by
  have inv : Inv c s := Machine.invariant_reached
    (fun _ _ _ inv taken => step_inv (expect_eq_cipher evp documented c) inv taken)
    (init_inv c bufs) reached
  refine ⟨inv.matched, ?_⟩
  intro total pc
  have knows := inv.knows
  rw [pc] at knows
  refine ⟨knows.2, ?_⟩
  intro i inside
  have finished := knows.1 i inside
  have stands := inv.stands i
  unfold Stands at stands
  cases at_ : (s.conns i).body with
  | ended =>
    rw [at_] at stands
    exact ⟨rfl, stands.1⟩
  | top =>
    rw [at_] at stands
    exact absurd (stands.2.2.symm.trans finished) nofun
  | issue rest =>
    rw [at_] at stands
    exact absurd (stands.2.1.symm.trans finished) nofun
  | resumed =>
    rw [at_] at stands
    exact absurd (stands.1.symm.trans finished) nofun

/-- Two fibers with a message of one block each. -/
def twoFibers : Config := ⟨2, 16, rfl, by decide⟩

/-- Both fibers submit and park, the streams take turns, both are resumed, the timer
stops them, and the loop ends. -/
def bothServed : List GpuAct :=
  List.replicate 17 .turn ++ [.device 0, .device 1, .device 1, .device 0, .device 0, .device 1,
    .device 1, .device 0, .timer] ++ List.replicate 17 .turn

def afterBothServed : State :=
  (Machine.run (step twoFibers (expect LibAccel.aes128Ctr twoFibers)) (.init fun _ => ⟨[], []⟩)
    bothServed).get (by decide +kernel)

theorem bothServed_match : afterBothServed.pc = .done 2 ∧
    afterBothServed.mismatch = 0 ∧ ∀ total, afterBothServed.pc = .done total →
      total = ∑ i ∈ Finset.range twoFibers.n, (afterBothServed.conns i).ops ∧
      ∀ i < twoFibers.n, (afterBothServed.conns i).body = .ended ∧
        (afterBothServed.conns i).stream.pending = [] :=
  ⟨by decide +kernel, offloads_match_openssl LibAccel.aes128Ctr (fun _ _ _ _ _ => rfl) twoFibers
    (fun _ => ⟨[], []⟩) bothServed afterBothServed (Option.some_get _).symm⟩

end TransparentOffload.GpuRuntime
