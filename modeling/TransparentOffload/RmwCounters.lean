import TransparentOffload.RmwReset
import TransparentOffload.Lib.History

set_option autoImplicit false

/- `ph` and `pt` as the 32-bit counters they are. They only grow between two resets, so
what they can hold bounds the jobs that may be queued on a gate in that time, however
few of them wait at once. -/
namespace TransparentOffload

namespace DetModule

/-- `ph[g]` and `pt[g]`. -/
def ph (m : DetModule) (g : Nat) : Int32 := Int32.ofNat (m.pend g).head

def pt (m : DetModule) (g : Nat) : Int32 := Int32.ofNat (m.pend g).tail

/-- The gate in whose ring a command stores its job. -/
def storesIn (mode : RmwMode) (m : DetModule) : DetAct → Option Nat
  | .rmw [_, key] =>
    if mode = .naive ∨ m.inflight (mode.gate (slotOf key)) = 0 then none
    else some (mode.gate (slotOf key))
  | _ => none

/-- The gate from whose ring a reply callback takes the next job. -/
def takesFrom (mode : RmwMode) (m : DetModule) : DetAct → Option Nat
  | .reply p =>
    if mode = .naive ∨ p ∉ m.unblocked then none
    else (m.jobs p).bind fun j =>
      if (m.pend (mode.gate j.slot)).head = (m.pend (mode.gate j.slot)).tail then none
      else some (mode.gate j.slot)
  | _ => none

end DetModule

/-- What happens to a ring. -/
inductive RingEvent
  | queued (g p : Nat)
  | taken (g : Nat)
  | reset
  deriving DecidableEq, Repr

namespace Resettable

def ringEvents (mode : RmwMode) (s : Resettable) : ResetAct → List RingEvent
  | .reset => [.reset]
  | .det a =>
    match s.m.storesIn mode a, s.m.takesFrom mode a with
    | some g, _ => [.queued g s.m.allocated]
    | none, some g => [.taken g]
    | none, none => []

/-- How many jobs have been queued on a gate since the latest reset. -/
def queuedSince (g : Nat) : List RingEvent → Nat
  | [] => 0
  | .queued g' _ :: h => if g' = g then queuedSince g h + 1 else queuedSince g h
  | .taken _ :: h => queuedSince g h
  | .reset :: _ => 0

/-- The jobs among them that still wait, the first one in front. -/
def waitingSince (g : Nat) : List RingEvent → List Nat
  | [] => []
  | .queued g' p :: h => if g' = g then waitingSince g h ++ [p] else waitingSince g h
  | .taken g' :: h => if g' = g then (waitingSince g h).tail else waitingSince g h
  | .reset :: _ => []

/-- The module with the history of its rings. -/
abbrev ringStep (mode : RmwMode) (nw : Nat) :
    Resettable × List RingEvent → ResetAct → Option (Resettable × List RingEvent) :=
  Machine.noted (step mode nw) (ringEvents mode)

/-- A counter can be used as `pend[g][c%PENDN]` and then incremented. -/
def Usable (c : Int32) : Prop :=
  0 ≤ (c % 4096).toInt ∧ (c % 4096).toInt < jobPendN ∧ (c + 1).toInt = c.toInt + 1

/-- What the counters promise at a step: the ones it uses are usable, and the test
`ph[g]!=pt[g]` tells whether a job waits in the ring. -/
def InRange (mode : RmwMode) (s : Resettable × List RingEvent) (a : ResetAct) : Prop :=
  (∀ g < kslots, s.1.m.ph g ≠ s.1.m.pt g ↔ waitingSince g s.2 ≠ []) ∧
    match a with
    | .det a => (∀ g ∈ s.1.m.storesIn mode a, Usable (s.1.m.ph g)) ∧
        ∀ g ∈ s.1.m.takesFrom mode a, Usable (s.1.m.pt g)
    | .reset => True

/-- A command that has to wait finds fewer than `INT_MAX` jobs queued on its gate since
the latest reset. -/
def Below (mode : RmwMode) (s : Resettable × List RingEvent) : ResetAct → Prop
  | .det a => ∀ g ∈ s.1.m.storesIn mode a, queuedSince g s.2 < intMax
  | .reset => True

/-- At most `PENDN` jobs wait on a gate. -/
def FewWait (s : Resettable × List RingEvent) : Prop :=
  ∀ g < kslots, (waitingSince g s.2).length ≤ jobPendN

theorem toInt_counter {n : Nat} (int : n ≤ intMax) : (Int32.ofNat n).toInt = n := by
  apply Int32.toInt_ofNat_of_lt
  unfold intMax at int
  omega

theorem usable_iff {n : Nat} (int : n ≤ intMax) : Usable (Int32.ofNat n) ↔ n < intMax := by
  have value := toInt_counter int
  have width : (4096 : Int32).toInt = 4096 := by decide
  have one : (1 : Int32).toInt = 1 := by decide
  have index : (Int32.ofNat n % 4096).toInt = ((n % 4096 : Nat) : Int) := by
    rw [Int32.toInt_mod, value, width]
    exact Int.ofNat_tmod n 4096
  have low : n % 4096 < 4096 := Nat.mod_lt n (by decide)
  unfold Usable
  rw [index, Int32.toInt_add, value, one]
  unfold intMax jobPendN at *
  constructor
  · intro ⟨_, _, next⟩
    by_contra last
    have same : n = 2147483647 := by omega
    rw [same] at next
    exact absurd next (by decide)
  · intro below
    refine ⟨by omega, by omega, ?_⟩
    apply Int.bmod_eq_of_le <;> omega

end Resettable

namespace DetModule

variable {mode : RmwMode} {nw : Nat} {m t : DetModule}

/-- Every job is for one of the counters. -/
def Slotted (m : DetModule) : Prop := ∀ p j, m.jobs p = some j → j.slot < kslots

theorem Slotted.store {p : Nat} {j : Job} (slotted : Slotted m)
    (jobs : t.jobs = Function.update m.jobs p (some j)) (slot : j.slot < kslots) : Slotted t := by
  intro p' j' live
  rw [jobs] at live
  by_cases here : p' = p
  · rw [here, Function.update_self, Option.some.injEq] at live
    exact live ▸ slot
  · rw [Function.update_of_ne here] at live
    exact slotted p' j' live

theorem Slotted.free (slotted : Slotted m) (p : Nat) : Slotted (m.free p) := by
  intro p' j' live
  by_cases here : p' = p
  · have gone : (m.free p).jobs p = none := Function.update_self ..
    rw [here, gone] at live
    cases live
  · have kept : (m.free p).jobs p' = m.jobs p' := Function.update_of_ne here ..
    exact slotted p' j' (kept ▸ live)

theorem alloc_slotted (slotted : Slotted m) {k : Nat} (slot : k < kslots) : Slotted (m.alloc k) :=
  slotted.store rfl slot

theorem begin_slotted {p : Nat} (slotted : Slotted m) (taken : m.begin mode p = some t) :
    Slotted t := by
  unfold begin at taken
  split at taken
  · cases taken
  · rename_i j live
    cases taken
    exact slotted.store rfl (slotted p j live)

theorem storesIn_lt {a : DetAct} {g : Nat} (stores : m.storesIn mode a = some g) : g < kslots := by
  unfold storesIn at stores
  split at stores
  · split at stores <;> cases stores
    exact gate_lt (slotOf_lt _)
  · cases stores

theorem takesFrom_spec {a : DetAct} {g : Nat} (slotted : Slotted m)
    (takes : m.takesFrom mode a = some g) :
    g < kslots ∧ (m.pend g).head ≠ (m.pend g).tail := by
  unfold takesFrom at takes
  split at takes
  · split at takes
    · cases takes
    · obtain ⟨j, live, tests⟩ := Option.bind_eq_some_iff.mp takes
      split at tests
      · cases tests
      · rename_i more
        cases tests
        exact ⟨gate_lt (slotted _ j live), more⟩
  · cases takes

/-- What a step does to the rings: it stores a job, takes one, or leaves them alone. -/
inductive Rings (mode : RmwMode) (m t : DetModule) (a : DetAct) : Prop
  | stored (g : Nat) (gate : g < kslots) (stores : m.storesIn mode a = some g)
      (takes : m.takesFrom mode a = none) (room : (m.pend g).head ≠ intMax)
      (ends : t.pend = Function.update m.pend g ((m.pend g).push jobPendN m.allocated))
  | took (g : Nat) (gate : g < kslots) (stores : m.storesIn mode a = none)
      (takes : m.takesFrom mode a = some g) (more : (m.pend g).head ≠ (m.pend g).tail)
      (ends : t.pend = Function.update m.pend g (m.pend g).advance)
  | other (stores : m.storesIn mode a = none) (takes : m.takesFrom mode a = none)
      (ends : t.pend = m.pend)

theorem cmdRmw_rings {argv : List Bytes} (slotted : Slotted m)
    (taken : m.cmdRmw mode argv = some t) : Slotted t ∧ Rings mode m t (.rmw argv) := by
  unfold cmdRmw at taken
  split at taken
  · rename_i name key
    have slot := slotOf_lt key
    have fresh := alloc_slotted slotted slot
    dsimp only at taken
    split at taken
    · rename_i naive
      have frame := begin_frame taken
      exact ⟨begin_slotted fresh taken, .other (if_pos (.inl naive)) rfl frame.1⟩
    · rename_i gated
      split at taken
      · rename_i idle
        have opened : Slotted (m.opened mode (slotOf key)) := fresh
        have frame := begin_frame taken
        exact ⟨begin_slotted opened taken, .other (if_pos (.inr idle)) rfl frame.1⟩
      · rename_i busy
        unfold queueJob at taken
        split at taken
        · cases taken
        · rename_i room
          cases taken
          have stores : m.storesIn mode (.rmw [name, key]) = some (mode.gate (slotOf key)) :=
            if_neg (not_or.mpr ⟨gated, busy⟩)
          exact ⟨fresh, .stored _ (gate_lt slot) stores rfl room rfl⟩
  · rename_i shape
    cases taken
    have none_ : m.storesIn mode (.rmw argv) = none := by
      unfold storesIn
      split
      · rename_i name key same
        cases same
        exact absurd rfl (shape name key)
      · rfl
    exact ⟨slotted, .other none_ rfl rfl⟩

theorem replyCb_rings {p : Nat} (slotted : Slotted m) (finished : p ∈ m.unblocked)
    (taken : m.replyCb mode p = some t) : Slotted t ∧ Rings mode m t (.reply p) := by
  unfold replyCb at taken
  split at taken
  · cases taken
  · rename_i j live
    have slot : mode.gate j.slot < kslots := gate_lt (slotted p j live)
    have written : Slotted ({ m with unblocked := m.unblocked.erase p }.writeBack mode j) :=
      slotted
    dsimp only at taken
    split at taken
    · rename_i naive
      cases taken
      exact ⟨written.free p, .other rfl (if_pos (.inl naive)) rfl⟩
    · rename_i gated
      obtain ⟨u, advanced, rfl⟩ := Option.map_eq_some_iff.mp taken
      have tests : m.takesFrom mode (.reply p) =
          if (m.pend (mode.gate j.slot)).head = (m.pend (mode.gate j.slot)).tail then none
          else some (mode.gate j.slot) := by
        unfold takesFrom
        dsimp only
        rw [if_neg (not_or.mpr ⟨gated, not_not.mpr finished⟩), live]
        rfl
      unfold advanceGate at advanced
      split at advanced
      · rename_i more
        have popped : Slotted
            (({ m with unblocked := m.unblocked.erase p }.writeBack mode j).popped
              (mode.gate j.slot)) := slotted
        have frame := begin_frame advanced
        refine ⟨(begin_slotted popped advanced).free p, .took _ slot rfl ?_ more frame.1⟩
        rw [tests]
        exact if_neg more
      · rename_i last
        cases advanced
        refine ⟨written.free p, .other rfl ?_ rfl⟩
        rw [tests]
        exact if_pos (not_not.mp last)

theorem step_rings {a : DetAct} (slotted : Slotted m) (taken : m.step mode nw a = some t) :
    Slotted t ∧ Rings mode m t a := by
  cases a with
  | rmw argv => exact cmdRmw_rings slotted taken
  | take w =>
    rw [step] at taken
    split at taken
    · unfold take at taken
      split at taken <;> cases taken
      exact ⟨slotted, .other rfl rfl rfl⟩
    · cases taken
  | unblock w p =>
    rw [step] at taken
    unfold unblock at taken
    split at taken <;> cases taken
    exact ⟨slotted, .other rfl rfl rfl⟩
  | reply p =>
    rw [step] at taken
    split at taken
    · rename_i finished
      exact replyCb_rings slotted finished taken
    · cases taken

end DetModule

namespace Resettable

open DetModule (Slotted Rings)

variable {mode : RmwMode} {nw : Nat} {s t : Resettable × List RingEvent}

/-- The counters count what the history says. -/
structure Counted (s : Resettable × List RingEvent) : Prop where
  slotted : Slotted s.1.m
  head : ∀ g < kslots, (s.1.m.pend g).head = queuedSince g s.2
  tail : ∀ g < kslots, (waitingSince g s.2).length + (s.1.m.pend g).tail = (s.1.m.pend g).head
  int : ∀ g < kslots, (s.1.m.pend g).head ≤ intMax

theorem start_counted (mode : RmwMode) : Counted (start mode, []) := by
  refine ⟨?_, fun _ _ => rfl, fun _ _ => rfl, fun _ _ => Nat.zero_le _⟩
  intro p j live
  cases live

theorem Counted.reset (counted : Counted s) :
    Counted (⟨s.1.m.cmdReset, s.1.m.flight ++ s.1.stale⟩, .reset :: s.2) := by
  have empty : ∀ g < kslots,
      (s.1.m.cmdReset.pend g).head = 0 ∧ (s.1.m.cmdReset.pend g).tail = 0 := by
    intro g inside
    unfold DetModule.cmdReset
    dsimp only
    rw [if_pos inside]
    exact ⟨rfl, rfl⟩
  refine ⟨counted.slotted, ?_, ?_, ?_⟩
  · intro g inside
    exact (empty g inside).1
  · intro g inside
    show 0 + (s.1.m.cmdReset.pend g).tail = _
    rw [(empty g inside).1, (empty g inside).2]
  · intro g inside
    show (s.1.m.cmdReset.pend g).head ≤ intMax
    rw [(empty g inside).1]
    exact Nat.zero_le _

/-- Something happens to the ring of gate `g`, and the history says what. -/
theorem Counted.ring {m : DetModule} {g : Nat} {e : RingEvent} {r : Tickets.Ring Nat}
    (counted : Counted s) (slotted : Slotted m)
    (ends : m.pend = Function.update s.1.m.pend g r)
    (others : ∀ g', g' ≠ g → queuedSince g' (e :: s.2) = queuedSince g' s.2 ∧
      waitingSince g' (e :: s.2) = waitingSince g' s.2)
    (head : r.head = queuedSince g (e :: s.2))
    (tail : (waitingSince g (e :: s.2)).length + r.tail = r.head) (int : r.head ≤ intMax) :
    Counted ({ s.1 with m := m }, e :: s.2) := by
  constructor
  · exact slotted
  all_goals
    intro g' inside
    have before := counted.head g' inside
    have between := counted.tail g' inside
    have bound := counted.int g' inside
    by_cases same : g' = g
    · simp only [same, ends, Function.update_self]
      assumption
    · simp only [ends, Function.update_of_ne same, (others g' same).1, (others g' same).2]
      assumption

/-- A job is stored in the ring of gate `g`. -/
theorem Counted.stored {m : DetModule} {g p : Nat} (counted : Counted s) (slotted : Slotted m)
    (gate : g < kslots) (room : (s.1.m.pend g).head ≠ intMax)
    (ends : m.pend = Function.update s.1.m.pend g ((s.1.m.pend g).push jobPendN p)) :
    Counted ({ s.1 with m := m }, .queued g p :: s.2) := by
  have head := counted.head g gate
  have tail := counted.tail g gate
  have int := counted.int g gate
  apply counted.ring slotted ends
  · intro g' different
    have other : ¬ g = g' := Ne.symm different
    simp only [queuedSince, waitingSince, if_neg other, and_self]
  all_goals
    simp only [queuedSince, waitingSince, if_true, Tickets.Ring.push_head, Tickets.Ring.push_tail,
      List.length_append, List.length_singleton]
    omega

/-- The first job of the ring of gate `g` is taken. -/
theorem Counted.took {m : DetModule} {g : Nat} (counted : Counted s) (slotted : Slotted m)
    (gate : g < kslots) (more : (s.1.m.pend g).head ≠ (s.1.m.pend g).tail)
    (ends : m.pend = Function.update s.1.m.pend g (s.1.m.pend g).advance) :
    Counted ({ s.1 with m := m }, .taken g :: s.2) := by
  have head := counted.head g gate
  have tail := counted.tail g gate
  have int := counted.int g gate
  apply counted.ring slotted ends
  · intro g' different
    have other : ¬ g = g' := Ne.symm different
    simp only [queuedSince, waitingSince, if_neg other, and_self]
  all_goals
    simp only [queuedSince, waitingSince, if_true, Tickets.Ring.advance_head,
      Tickets.Ring.advance_tail, List.length_tail]
    omega

theorem Counted.step {a : ResetAct} (counted : Counted s) (taken : ringStep mode nw s a = some t) :
    Counted t := by
  obtain ⟨moved, history⟩ := Machine.noted_eq_some.mp taken
  have ends : t = (t.1, (ringEvents mode s.1 a).reverse ++ s.2) := by rw [← history]
  rw [ends]
  cases a with
  | reset =>
    rw [Resettable.step, Option.some.injEq] at moved
    rw [← moved]
    exact counted.reset
  | det a =>
    obtain ⟨m, took, same⟩ := Option.map_eq_some_iff.mp moved
    rw [← same]
    obtain ⟨slotted, rings⟩ := DetModule.step_rings counted.slotted took
    unfold ringEvents
    cases rings with
    | stored g gate stores takes room ends =>
      simp only [stores]
      exact counted.stored slotted gate room ends
    | took g gate stores takes more ends =>
      simp only [stores, takes]
      exact counted.took slotted gate more ends
    | other stores takes ends =>
      simp only [stores, takes]
      refine ⟨slotted, ?_, ?_, ?_⟩
      all_goals
        show ∀ g < kslots, _
        rw [ends]
      · exact counted.head
      · exact counted.tail
      · exact counted.int

/-- The 32-bit test sees whether a job waits. -/
theorem Counted.test (counted : Counted s) {g : Nat} (inside : g < kslots) :
    s.1.m.ph g ≠ s.1.m.pt g ↔ waitingSince g s.2 ≠ [] := by
  have tail := counted.tail g inside
  have int := counted.int g inside
  have counters : s.1.m.ph g = s.1.m.pt g ↔ (s.1.m.pend g).head = (s.1.m.pend g).tail := by
    unfold DetModule.ph DetModule.pt
    rw [← Int32.toInt_inj, toInt_counter int, toInt_counter (by omega), Int.natCast_inj]
  rw [Ne, Ne, counters, ← List.length_eq_zero_iff]
  omega

/-- At one step, the counters keep what they promise exactly below their limit. -/
theorem Counted.inRange_iff (counted : Counted s) (a : ResetAct) :
    InRange mode s a ↔ Below mode s a := by
  have test := fun g inside => counted.test (g := g) inside
  cases a with
  | reset => exact ⟨fun _ => trivial, fun _ => ⟨test, trivial⟩⟩
  | det a =>
    constructor
    · intro ⟨_, stores, _⟩ g here
      have inside := DetModule.storesIn_lt here
      have used := (usable_iff (counted.int g inside)).mp (stores g here)
      rw [counted.head g inside] at used
      exact used
    · intro below
      refine ⟨test, ?_, ?_⟩
      · intro g here
        have inside := DetModule.storesIn_lt here
        apply (usable_iff (counted.int g inside)).mpr
        rw [counted.head g inside]
        exact below g here
      · intro g here
        obtain ⟨inside, more⟩ := DetModule.takesFrom_spec counted.slotted here
        have tail := counted.tail g inside
        have int := counted.int g inside
        apply (usable_iff (n := (s.1.m.pend g).tail) (by omega)).mpr
        omega

/-- The counters stay in range, with a test that tells whether a job waits, exactly in the
runs in which no gate is to queue more than `INT_MAX` jobs between two resets. -/
theorem inRange_iff_below (mode : RmwMode) (nw : Nat) (acts : List ResetAct) :
    Machine.Guarded (ringStep mode nw) (InRange mode) (start mode, []) acts ↔
      Machine.Guarded (ringStep mode nw) (Below mode) (start mode, []) acts := by
  apply Machine.guarded_congr (I := Counted)
  · intro s a counted
    exact counted.inRange_iff a
  · intro s a t counted taken
    exact counted.step taken
  · exact start_counted mode

end Resettable

namespace DetModule

/-- In the mode `lock`, `n` jobs have been queued and taken again, job `n` is at the
accelerator, and none waits. -/
structure Turning (n : Nat) (m : DetModule) : Prop where
  busy : m.inflight 0 ≠ 0
  head : (m.pend 0).head = n
  tail : (m.pend 0).tail = n
  others : ∀ g, g ≠ 0 → (m.pend g).head = (m.pend g).tail
  allocated : m.allocated = n + 1
  qhead : m.q.head = n + 1
  qtail : m.q.tail = n
  front : m.q.front workQn = n
  running : m.running = []
  unblocked : m.unblocked = []
  job : ∃ j, m.jobs n = some j

variable {n : Nat} {m : DetModule}

/-- The next command has to wait. -/
theorem Turning.waits (turning : Turning n m) (nw : Nat) :
    m.step .lock nw (.rmw [[], []]) = (m.alloc (slotOf [])).queueJob 0 m.allocated := by
  have busy : ¬ m.inflight (RmwMode.gate .lock (slotOf [])) = 0 := turning.busy
  rw [step, cmdRmw, if_neg (by decide), if_neg busy]
  rfl

theorem Turning.queue (turning : Turning n m) (below : n < intMax) (nw : Nat) :
    m.step .lock nw (.rmw [[], []]) = some (m.queued .lock (slotOf [])) := by
  have room : ¬ ((m.alloc (slotOf [])).pend 0).head = intMax := by
    show ¬ (m.pend 0).head = intMax
    rw [turning.head]
    omega
  rw [turning.waits, queueJob, if_neg room]
  rfl

theorem Turning.overflows (turning : Turning intMax m) (nw : Nat) :
    m.step .lock nw (.rmw [[], []]) = none := by
  have last : ((m.alloc (slotOf [])).pend 0).head = intMax := turning.head
  rw [turning.waits, queueJob, if_pos last]

/-- The reply to a job has written, and gate 0 goes to the next one. -/
def handedOver (m : DetModule) (p : Nat) (j : Job) : DetModule :=
  (({ m with unblocked := m.unblocked.erase p }).writeBack .lock j).popped 0

/-- The reply to a job in the mode `lock`, with another one waiting. -/
theorem reply_passes (nw : Nat) {p q : Nat} {j k : Job} (finished : p ∈ m.unblocked)
    (live : m.jobs p = some j) (more : (m.pend 0).head ≠ (m.pend 0).tail)
    (front : (m.pend 0).front jobPendN = q) (waiting : m.jobs q = some k) (apart : q ≠ p) :
    ∃ t, m.step .lock nw (.reply p) = some t ∧ t.inflight = m.inflight ∧
      t.pend = Function.update m.pend 0 (m.pend 0).advance ∧ t.allocated = m.allocated ∧
      t.q = m.q.push workQn q ∧ t.running = m.running ∧ t.unblocked = m.unblocked.erase p ∧
      ∃ j', t.jobs q = some j' := by
  have still : (m.handedOver p j).jobs q = some k := waiting
  have next : ∃ u, (m.handedOver p j).begin .lock q = some u := by
    rw [begin, still]
    exact ⟨_, rfl⟩
  obtain ⟨u, begun⟩ := next
  obtain ⟨pend, inflight, allocated, _, _, queue, running, unblocked⟩ := begin_frame begun
  have job := begin_job still begun
  have taken : m.step .lock nw (.reply p) = some (u.free p) := by
    rw [step, if_pos finished, replyCb, live]
    dsimp only
    rw [if_neg (by decide)]
    have advanced : (({ m with unblocked := m.unblocked.erase p }).writeBack .lock j).advanceGate
        .lock (RmwMode.gate .lock j.slot) = some u := by
      rw [← front] at begun
      exact (if_pos more).trans begun
    rw [advanced]
    rfl
  have kept : (u.free p).jobs q = u.jobs q := Function.update_of_ne apart ..
  exact ⟨u.free p, taken, inflight, pend, allocated, queue, running, unblocked, _, kept.trans job⟩

/-- One more command comes, and the worker finishes the job at the accelerator. -/
def cycle (n : Nat) : List ResetAct :=
  [.det (.rmw [[], []]), .det (.take 0), .det (.unblock 0 n), .det (.reply n)]

/-- The states of one round and the step between each two of them. -/
theorem Turning.cycle (turning : Turning n m) (below : n < intMax) : ∃ m₁ m₂ m₃ m₄,
    m.step .lock 1 (.rmw [[], []]) = some m₁ ∧ m₁.step .lock 1 (.take 0) = some m₂ ∧
      m₂.step .lock 1 (.unblock 0 n) = some m₃ ∧ m₃.step .lock 1 (.reply n) = some m₄ ∧
      m₂.pend = m₁.pend ∧ m₃.pend = m₁.pend ∧
      (∀ g, (m₁.pend g).head ≤ (m₁.pend g).tail + 1) ∧ Turning (n + 1) m₄ := by
  obtain ⟨j, live⟩ := turning.job
  have ring : (m.queued .lock (slotOf [])).pend =
      Function.update m.pend 0 ((m.pend 0).push jobPendN m.allocated) := rfl
  let m₁ := m.queued .lock (slotOf [])
  let m₂ := { m₁ with running := [(0, n)], q := m.q.advance }
  let m₃ := { m₂ with running := [], unblocked := [n] }
  have take : m₁.step .lock 1 (.take 0) = some m₂ := by
    have some_ : ¬ ((0 : Nat) ∈ m₁.running.map Prod.fst ∨ m₁.q.head = m₁.q.tail) := by
      show ¬ (0 ∈ m.running.map Prod.fst ∨ m.q.head = m.q.tail)
      rw [turning.running, turning.qhead, turning.qtail]
      simp
    have first : m₁.q.front workQn = n := turning.front
    have none_ : m₁.running = [] := turning.running
    rw [step, if_pos (by decide), DetModule.take, if_neg some_, first, none_]
    rfl
  have unblock : m₂.step .lock 1 (.unblock 0 n) = some m₃ := by
    have held : ((0 : Nat), n) ∈ m₂.running := List.mem_singleton.mpr rfl
    have none_ : m₂.unblocked = [] := turning.unblocked
    have gone : m₂.running.erase (0, n) = [] := List.erase_cons_head ..
    rw [step, DetModule.unblock, if_pos held, none_, gone]
  have stored : m₃.jobs (n + 1) = some ⟨slotOf [], 0, ⟨0, false⟩, false⟩ := by
    show Function.update m.jobs m.allocated _ (n + 1) = _
    rw [turning.allocated, Function.update_self]
  have old : m₃.jobs n = some j := by
    show Function.update m.jobs m.allocated _ n = _
    rw [turning.allocated, Function.update_of_ne (by omega)]
    exact live
  have here : m₃.pend 0 = (m.pend 0).push jobPendN m.allocated := by
    show (m.queued .lock (slotOf [])).pend 0 = _
    rw [ring, Function.update_self]
  have elsewhere : ∀ g, g ≠ 0 → m₃.pend g = m.pend g := by
    intro g other
    show (m.queued .lock (slotOf [])).pend g = _
    rw [ring, Function.update_of_ne other]
  have more : (m₃.pend 0).head ≠ (m₃.pend 0).tail := by
    rw [here, Tickets.Ring.push_head, Tickets.Ring.push_tail, turning.head, turning.tail]
    omega
  have front : (m₃.pend 0).front jobPendN = n + 1 := by
    have same : (m.pend 0).head = (m.pend 0).tail := by rw [turning.head, turning.tail]
    rw [here, Tickets.Ring.front, Tickets.Ring.push_tail, ← same, ← turning.allocated]
    exact Function.update_self ..
  obtain ⟨m₄, reply, inflight, pend, allocated, queue, running, unblocked, job⟩ :=
    reply_passes 1 (List.mem_singleton.mpr rfl) old more front stored (by omega)
  refine ⟨m₁, m₂, m₃, m₄, turning.queue below 1, take, unblock, reply, rfl, rfl, ?_, ?_⟩
  · intro g
    by_cases zero : g = 0
    · show (m₃.pend g).head ≤ (m₃.pend g).tail + 1
      rw [zero, here, Tickets.Ring.push_head, Tickets.Ring.push_tail, turning.head, turning.tail]
    · show (m₃.pend g).head ≤ (m₃.pend g).tail + 1
      rw [elsewhere g zero, turning.others g zero]
      omega
  · have ring₄ : m₄.pend 0 = (m₃.pend 0).advance := by rw [pend, Function.update_self]
    have queue₄ : m₄.q = m.q.advance.push workQn (n + 1) := queue
    constructor
    · rw [inflight]
      exact turning.busy
    · rw [ring₄, here, Tickets.Ring.advance_head, Tickets.Ring.push_head, turning.head]
    · rw [ring₄, here, Tickets.Ring.advance_tail, Tickets.Ring.push_tail, turning.tail]
    · intro g other
      rw [pend, Function.update_of_ne other, elsewhere g other]
      exact turning.others g other
    · rw [allocated]
      show m.allocated + 1 = _
      rw [turning.allocated]
    · rw [queue₄, Tickets.Ring.push_head, Tickets.Ring.advance_head, turning.qhead]
    · rw [queue₄, Tickets.Ring.push_tail, Tickets.Ring.advance_tail, turning.qtail]
    · have same : m.q.head = m.q.tail + 1 := by rw [turning.qhead, turning.qtail]
      rw [queue₄, Tickets.Ring.front, Tickets.Ring.push_tail, Tickets.Ring.advance_tail, ← same]
      exact Function.update_self ..
    · rw [running]
    · rw [unblocked]
      exact List.erase_cons_head ..
    · exact job

end DetModule

namespace Resettable

open DetModule (Turning cycle)

variable {mode : RmwMode} {nw n : Nat} {s : Resettable × List RingEvent}

theorem Counted.fewWait (counted : Counted s)
    (few : ∀ g, (s.1.m.pend g).head ≤ (s.1.m.pend g).tail + jobPendN) : FewWait s := by
  intro g inside
  have tail := counted.tail g inside
  have bound := few g
  omega

theorem Counted.ringStep {a : DetAct} {m : DetModule} (counted : Counted s)
    (taken : s.1.m.step mode nw a = some m) :
    ∃ t, ringStep mode nw s (.det a) = some t ∧ t.1.m = m ∧ Counted t := by
  have moved : Resettable.step mode nw s.1 (.det a) = some { s.1 with m := m } := by
    rw [Resettable.step, taken]
    rfl
  have noted : Resettable.ringStep mode nw s (.det a) =
      some ({ s.1 with m := m }, (ringEvents mode s.1 (.det a)).reverse ++ s.2) :=
    Machine.noted_eq_some.mpr ⟨moved, rfl⟩
  exact ⟨_, noted, rfl, counted.step noted⟩

theorem round_runs (turning : Turning n s.1.m) (counted : Counted s) (below : n < intMax) :
    ∃ t, Machine.run (ringStep .lock 1) s (cycle n) = some t ∧ Turning (n + 1) t.1.m ∧
      Counted t ∧ Machine.Always (ringStep .lock 1) FewWait s (cycle n) := by
  obtain ⟨m₁, m₂, m₃, m₄, first, second, third, fourth, pend₂, pend₃, few, next⟩ :=
    turning.cycle below
  have room : 1 ≤ jobPendN := by decide
  have bound : ∀ g, (m₁.pend g).head ≤ (m₁.pend g).tail + jobPendN :=
    fun g => Nat.le_trans (few g) (Nat.add_le_add_left room _)
  obtain ⟨t₁, taken₁, here₁, counted₁⟩ := counted.ringStep first
  rw [← here₁] at second
  obtain ⟨t₂, taken₂, here₂, counted₂⟩ := counted₁.ringStep second
  rw [← here₂] at third
  obtain ⟨t₃, taken₃, here₃, counted₃⟩ := counted₂.ringStep third
  rw [← here₃] at fourth
  obtain ⟨t₄, taken₄, here₄, counted₄⟩ := counted₃.ringStep fourth
  have rest : ∀ {n} {u : Resettable × List RingEvent}, Turning n u.1.m → Counted u → FewWait u := by
    intro n u turning counted
    apply counted.fewWait
    intro g
    by_cases zero : g = 0
    · rw [zero, turning.head, turning.tail]
      exact Nat.le_add_right _ _
    · rw [turning.others g zero]
      exact Nat.le_add_right _ _
  rw [← here₄] at next
  refine ⟨t₄, ?_, next, counted₄, ?_⟩
  · rw [cycle, Machine.run_cons_of_step taken₁, Machine.run_cons_of_step taken₂,
      Machine.run_cons_of_step taken₃, Machine.run_one, taken₄]
  · apply Machine.always_of_step (rest turning counted) taken₁
    apply Machine.always_of_step (counted₁.fewWait (by rwa [here₁])) taken₂
    apply Machine.always_of_step (counted₂.fewWait (by rwa [here₂, pend₂])) taken₃
    apply Machine.always_of_step (counted₃.fewWait (by rwa [here₃, pend₃])) taken₄
    exact rest next counted₄

/-- A command, and then `n` times one more command and the reply to the one before. -/
def longRun (n : Nat) : List ResetAct := .det (.rmw [[], []]) :: (List.range n).flatMap cycle

theorem longRun_runs (limit : n ≤ intMax) :
    ∃ t, Machine.run (ringStep .lock 1) (start .lock, []) (longRun n) = some t ∧
      Turning n t.1.m ∧ Counted t ∧
      Machine.Always (ringStep .lock 1) FewWait (start .lock, []) (longRun n) := by
  induction n with
  | zero =>
    have initial := start_counted .lock
    obtain ⟨m, opens⟩ : ∃ m, (start .lock).m.step .lock 1 (.rmw [[], []]) = some m := ⟨_, rfl⟩
    obtain ⟨t, taken, here, counted⟩ := initial.ringStep (s := (start .lock, [])) opens
    have turning : Turning 0 t.1.m := by
      rw [here]
      cases opens
      refine ⟨by decide, rfl, rfl, fun _ _ => rfl, rfl, rfl, rfl, rfl, rfl, rfl, _, rfl⟩
    have empty : ∀ g, (t.1.m.pend g).head = (t.1.m.pend g).tail := by
      intro g
      rw [here]
      cases opens
      rfl
    refine ⟨t, ?_, turning, counted, ?_⟩
    · exact (Machine.run_one _ _).trans taken
    · apply Machine.always_of_step (initial.fewWait fun _ => Nat.zero_le _) taken
      apply counted.fewWait
      intro g
      rw [empty g]
      exact Nat.le_add_right _ _
  | succ n ih =>
    obtain ⟨s, ran, turning, counted, few⟩ := ih (by omega)
    obtain ⟨t, round, next, counted', few'⟩ := round_runs turning counted (by omega)
    have split : longRun (n + 1) = longRun n ++ cycle n := by
      simp [longRun, List.range_succ]
    refine ⟨t, ?_, next, counted', ?_⟩
    · rw [split, Machine.run_append_of_run ran, round]
    · rw [split]
      exact few.append ran few'

/-- One job waits at a time, and the counter of the ring overflows all the same. -/
theorem longRun_overflows :
    ¬ ∀ acts, Machine.Always (ringStep .lock 1) FewWait (start .lock, []) acts →
      Machine.Guarded (ringStep .lock 1) (InRange .lock) (start .lock, []) acts := by
  intro claimed
  obtain ⟨t, ran, turning, counted, few⟩ := longRun_runs (Nat.le_refl intMax)
  have stores : t.1.m.storesIn .lock (.rmw [[], []]) = some 0 := by
    have busy : t.1.m.inflight (RmwMode.gate .lock (slotOf [])) ≠ 0 := turning.busy
    exact if_neg (not_or.mpr ⟨by decide, busy⟩)
  have last : ringStep .lock 1 t (.det (.rmw [[], []])) = none := by
    rw [ringStep, Machine.noted, step, turning.overflows]
    rfl
  have here : FewWait t := Machine.always_iff_reached.mp few _ List.prefix_rfl t ran
  have all : Machine.Always (ringStep .lock 1) FewWait (start .lock, [])
      (longRun intMax ++ [.det (.rmw [[], []])]) := by
    apply few.append ran
    refine ⟨here, ?_⟩
    intro u taken
    rw [last] at taken
    cases taken
  have guarded := (Machine.Guarded.append ran).mp (claimed _ all)
  have used := (counted.inRange_iff _).mp guarded.2.1 0 stores
  rw [← counted.head 0 (by decide), turning.head] at used
  exact Nat.lt_irrefl _ used

end Resettable

end TransparentOffload
