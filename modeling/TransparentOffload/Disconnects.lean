import TransparentOffload.RmwTurns

set_option autoImplicit false

/- `detector_module` with clients that disconnect while they are blocked: their
`reply_cb` is never run, and nothing else advances a gate. -/
namespace TransparentOffload

/-- The module, and the jobs whose client has gone. -/
structure Clients where
  m : DetModule
  gone : List Nat

/-- A step of the module, a blocked client that disconnects, or an unblocked one that
Redis finds gone and drops without a callback. -/
inductive ClientAct
  | det (a : DetAct)
  | disconnect (p : Nat)
  | drop (p : Nat)
  deriving DecidableEq, Repr

namespace Clients

def start (mode : RmwMode) : Clients := ⟨.onLoad mode, []⟩

/-- The job whose `reply_cb` an action is. -/
def replying : DetAct → Option Nat
  | .reply p => some p
  | _ => none

def step (mode : RmwMode) (nw : Nat) (s : Clients) : ClientAct → Option Clients
  | .det a =>
    if ∃ p ∈ replying a, p ∈ s.gone then none
    else (s.m.step mode nw a).map fun m => { s with m := m }
  | .disconnect p =>
    if s.m.jobs p ≠ none ∧ p ∉ s.gone then some { s with gone := p :: s.gone } else none
  | .drop p =>
    if p ∈ s.m.unblocked ∧ p ∈ s.gone then
      some { s with m := { s.m with unblocked := s.m.unblocked.erase p } }
    else none

/-- The job is on its way to its callback, on gate `g`. -/
def OnWay (mode : RmwMode) (m : DetModule) (g p : Nat) : Prop :=
  p ∈ m.flight ∧ ∃ j, m.jobs p = some j ∧ mode.gate j.slot = g

/-- A gate that is closed, or has jobs waiting, has a job on its way to a callback. -/
def GatesOpen (mode : RmwMode) (s : Clients) : Prop :=
  ∀ g, s.m.inflight g = 1 ∨ (s.m.pend g).head ≠ (s.m.pend g).tail →
    ∃ p, OnWay mode s.m g p ∧ p ∉ s.gone

/-- No client disconnects whose job is begun, and no job is begun whose client has gone. -/
def StaysForReply (mode : RmwMode) (s : Clients) : ClientAct → Prop
  | .disconnect p => p ∉ s.m.flight
  | .det (.reply p) => ∀ j, s.m.jobs p = some j →
    (s.m.pend (mode.gate j.slot)).head ≠ (s.m.pend (mode.gate j.slot)).tail →
      (s.m.pend (mode.gate j.slot)).front jobPendN ∉ s.gone
  | _ => True

instance (mode : RmwMode) (s : Clients) : ∀ a, Decidable (s.StaysForReply mode a)
  | .disconnect p => inferInstanceAs (Decidable (p ∉ s.m.flight))
  | .det (.reply p) => decidable_of_iff (∀ j ∈ s.m.jobs p,
      (s.m.pend (mode.gate j.slot)).head ≠ (s.m.pend (mode.gate j.slot)).tail →
        (s.m.pend (mode.gate j.slot)).front jobPendN ∉ s.gone) Iff.rfl
  | .det (.rmw _) | .det (.take _) | .det (.unblock _ _) | .drop _ => isTrue trivial

end Clients

namespace DetModule

open Clients (OnWay)

variable {mode : RmwMode} {s t : DetModule}

/-- A ticket that is stored and not yet taken. -/
def InLine (r : Tickets.Ring Nat) (ticket : Nat) : Prop := r.tail ≤ ticket ∧ ticket < r.head

/-- What holds of the gates even when a ring of waiting jobs has overrun: a busy gate
has one job on its way, and what is stored on a gate's ring is a job of that gate that
is not on its way, except for the place right behind the reader. -/
structure Lively (mode : RmwMode) (s : DetModule) : Prop where
  ordered : s.q.tail ≤ s.q.head
  distinct : s.flight.Nodup
  flying : ∀ p ∈ s.flight, ∃ j, s.jobs p = some j
  one : ∀ g p p', OnWay mode s g p → OnWay mode s g p' → p = p'
  busy : ∀ g, s.inflight g = 1 ↔ ∃ p, OnWay mode s g p
  flag : ∀ g, s.inflight g = 0 ∨ s.inflight g = 1
  waits : ∀ g, (s.pend g).head ≠ (s.pend g).tail → s.inflight g = 1
  pendOrdered : ∀ g, (s.pend g).tail ≤ (s.pend g).head
  queuedGate : ∀ g t, InLine (s.pend g) t → ∀ j,
    s.jobs ((s.pend g).slots (t % jobPendN)) = some j → mode.gate j.slot = g
  queuedOld : ∀ g t, InLine (s.pend g) t → (s.pend g).slots (t % jobPendN) < s.allocated
  apart : ∀ g t t', InLine (s.pend g) t → InLine (s.pend g) t' →
    (s.pend g).slots (t % jobPendN) = (s.pend g).slots (t' % jobPendN) →
      t % jobPendN = t' % jobPendN
  behind : ∀ g t, InLine (s.pend g) t → (s.pend g).slots (t % jobPendN) ∈ s.flight →
    (t + 1) % jobPendN = (s.pend g).tail % jobPendN
  fresh : ∀ p, s.allocated ≤ p → s.jobs p = none
  slots : ∀ p j, s.jobs p = some j → j.slot < kslots

theorem onLoad_lively (mode : RmwMode) : Lively mode (onLoad mode) := by
  refine ⟨Nat.le_refl _, ?_, ?_, ?_, ?_, fun _ => Or.inl rfl, ?_, fun _ => Nat.le_refl _, ?_,
    ?_, ?_, ?_, ?_, ?_⟩
  all_goals simp [onLoad, flight, OnWay, InLine, Tickets.Ring.contents]

theorem Lively.flight_short (lively : Lively mode s) : s.flight.length ≤ kslots := by
  apply DetModule.flight_short lively.distinct _ lively.one
  intro p member
  obtain ⟨j, live⟩ := lively.flying p member
  exact ⟨mode.gate j.slot, gate_lt (lively.slots p j live), member, j, live, rfl⟩

theorem Lively.queueRoom (lively : Lively mode s) : s.q.head < s.q.tail + workQn := by
  have short := queue_short lively.flight_short
  have ordered := lively.ordered
  unfold kslots at short
  unfold workQn
  omega

theorem Lively.known (lively : Lively mode s) {p : Nat} (member : p ∈ s.flight) :
    p < s.allocated := by
  by_contra above
  obtain ⟨j, live⟩ := lively.flying p member
  rw [lively.fresh p (Nat.le_of_not_lt above)] at live
  cases live

/-- The job whose turn it is on a gate is not the one that holds the gate. -/
theorem Lively.front_ne (lively : Lively mode s) {p g : Nat} (finished : p ∈ s.unblocked)
    (more : (s.pend g).head ≠ (s.pend g).tail) : (s.pend g).front jobPendN ≠ p := by
  intro same
  have ordered := lively.pendOrdered g
  have line : InLine (s.pend g) (s.pend g).tail := ⟨Nat.le_refl _, by omega⟩
  have flying : p ∈ s.flight := List.mem_append_right _ (List.mem_append_right _ finished)
  have next := lively.behind g _ line (show (s.pend g).front jobPendN ∈ s.flight from same ▸ flying)
  unfold jobPendN at next
  omega

theorem onWay_congr {g p : Nat} (flight : p ∈ t.flight ↔ p ∈ s.flight)
    (jobs : t.jobs p = s.jobs p) : OnWay mode t g p ↔ OnWay mode s g p := by
  unfold Clients.OnWay
  rw [flight, jobs]

/-- A job is on its way to one gate only. -/
theorem onWay_gate {g p : Nat} {j : Job} (live : s.jobs p = some j) (on : OnWay mode s g p) :
    g = mode.gate j.slot := by
  obtain ⟨_, j', live', gate⟩ := on
  rw [live, Option.some.injEq] at live'
  subst live'
  exact gate.symm

/-- A worker moves a job on. -/
theorem worker_lively {q : Tickets.Ring Nat} {running : List (Nat × Nat)} {unblocked : List Nat}
    (lively : Lively mode s)
    (ends : t = { s with q := q, running := running, unblocked := unblocked })
    (ordered : q.tail ≤ q.head) (flight : t.flight.Perm s.flight) : Lively mode t := by
  subst ends
  have onWay : ∀ g p, OnWay mode
      { s with q := q, running := running, unblocked := unblocked } g p ↔ OnWay mode s g p :=
    fun g p => onWay_congr flight.mem_iff rfl
  refine ⟨ordered, flight.nodup_iff.mpr lively.distinct, ?_, ?_, ?_, lively.flag, lively.waits,
    lively.pendOrdered, lively.queuedGate, lively.queuedOld, lively.apart, ?_, lively.fresh,
    lively.slots⟩
  · exact fun p member => lively.flying p (flight.mem_iff.mp member)
  · intro g p p' first second
    exact lively.one g p p' ((onWay g p).mp first) ((onWay g p').mp second)
  · intro g
    simp only [onWay]
    exact lively.busy g
  · exact fun g t line member => lively.behind g t line (flight.mem_iff.mp member)

/-- A job that is begun is on its way, and the others as they were. -/
theorem begin_onWay {p : Nat} {j : Job} (ordered : s.q.tail ≤ s.q.head)
    (room : s.q.head < s.q.tail + workQn) (live : s.jobs p = some j)
    (taken : s.begin mode p = some t) (g p' : Nat) :
    OnWay mode t g p' ↔ (p' = p ∧ g = mode.gate j.slot) ∨ (p' ≠ p ∧ OnWay mode s g p') := by
  have flight := begin_flight ordered room taken
  have here := begin_job live taken
  by_cases same : p' = p
  · subst same
    constructor
    · rintro ⟨_, j', live', gate⟩
      rw [here, Option.some.injEq] at live'
      subst live'
      exact Or.inl ⟨rfl, gate.symm⟩
    · rintro (⟨_, rfl⟩ | ⟨differs, _⟩)
      · exact ⟨flight.mem_iff.mpr List.mem_cons_self, _, here, rfl⟩
      · exact absurd rfl differs
  · have member := flight.mem_iff (a := p')
    rw [List.mem_cons, or_iff_right same] at member
    rw [onWay_congr member (begin_job_other live taken same)]
    simp [same]

/-- The job that ends leaves, and the others stay. -/
theorem ended_onWay {p : Nat} {j : Job} (distinct : s.flight.Nodup) (finished : p ∈ s.unblocked)
    (g p' : Nat) : OnWay mode (s.ended mode p j) g p' ↔ p' ≠ p ∧ OnWay mode s g p' := by
  have flight : s.flight.Perm (p :: (s.ended mode p j).flight) := ended_flight finished
  have gone := flight.nodup_iff.mp distinct
  rw [List.nodup_cons] at gone
  by_cases same : p' = p
  · subst same
    simp only [ne_eq, not_true, false_and, iff_false]
    exact fun on => gone.1 on.1
  · have member := flight.mem_iff (a := p')
    rw [List.mem_cons, or_iff_right same] at member
    have kept : (s.ended mode p j).jobs p' = s.jobs p' := Function.update_of_ne same ..
    rw [onWay_congr member.symm kept]
    simp [same]

/-- A command whose gate is free. -/
theorem start_lively {k : Nat} (lively : Lively mode s) (slot : k < kslots)
    (idle : s.inflight (mode.gate k) = 0)
    (taken : (s.opened mode k).begin mode s.allocated = some t) : Lively mode t := by
  obtain ⟨pend, inflight, allocated, _, _, q, _⟩ := begin_frame taken
  have live : (s.opened mode k).jobs s.allocated = some ⟨k, 0, ⟨0, false⟩, false⟩ :=
    Function.update_self ..
  have here := begin_job live taken
  have other : ∀ p, p ≠ s.allocated → t.jobs p = s.jobs p := by
    intro p new
    rw [begin_job_other live taken new]
    exact Function.update_of_ne new ..
  have flight : t.flight.Perm (s.allocated :: s.flight) :=
    begin_flight (s := s.opened mode k) lively.ordered lively.queueRoom taken
  have unused : s.allocated ∉ s.flight := fun member => Nat.lt_irrefl _ (lively.known member)
  have onWay : ∀ g p, OnWay mode t g p ↔
      (p = s.allocated ∧ g = mode.gate k) ∨ OnWay mode s g p := by
    intro g p
    rw [begin_onWay (s := s.opened mode k) lively.ordered lively.queueRoom live taken]
    by_cases new : p = s.allocated
    · have never : ¬ OnWay mode s g s.allocated := fun on => unused on.1
      simp [new, never]
    · have same : OnWay mode (s.opened mode k) g p ↔ OnWay mode s g p :=
        onWay_congr Iff.rfl (Function.update_of_ne new ..)
      simp [new, same]
  have free : ∀ p, ¬ OnWay mode s (mode.gate k) p := Holders.Flagged.free lively.busy idle
  have below : t.allocated = s.allocated + 1 := allocated
  have kept : t.inflight = Function.update s.inflight (mode.gate k) 1 := inflight
  have ring : t.pend = s.pend := pend
  refine ⟨?_, ?_, ?_, ?_, ?_, ?_, ?_, ?_, ?_, ?_, ?_, ?_, ?_, ?_⟩
  · rw [q, Tickets.Ring.push_head, Tickets.Ring.push_tail]
    exact Nat.le_succ_of_le lively.ordered
  · rw [flight.nodup_iff, List.nodup_cons]
    exact ⟨unused, lively.distinct⟩
  · intro p member
    rcases List.mem_cons.mp (flight.mem_iff.mp member) with rfl | old
    · exact ⟨_, here⟩
    · have new : p ≠ s.allocated := fun same => unused (same ▸ old)
      rw [other p new]
      exact lively.flying p old
  · exact Holders.Single.enter lively.one free onWay
  · exact Holders.Flagged.enter lively.busy kept onWay
  · rw [kept]
    exact Holders.flags_update lively.flag (Or.inr rfl)
  · intro g more
    rw [ring] at more
    have busy := lively.waits g more
    have same : g ≠ mode.gate k := by
      rintro rfl
      omega
    rw [kept, Function.update_of_ne same]
    exact busy
  · rw [ring]
    exact lively.pendOrdered
  · rw [ring]
    intro g ticket line j' live'
    have old := lively.queuedOld g ticket line
    rw [other _ (Nat.ne_of_lt old)] at live'
    exact lively.queuedGate g ticket line j' live'
  · rw [ring, below]
    exact fun g ticket line => Nat.lt_succ_of_lt (lively.queuedOld g ticket line)
  · rw [ring]
    exact lively.apart
  · rw [ring]
    intro g ticket line member
    rcases List.mem_cons.mp (flight.mem_iff.mp member) with new | old
    · have known := lively.queuedOld g ticket line
      rw [new] at known
      exact absurd known (Nat.lt_irrefl _)
    · exact lively.behind g ticket line old
  · intro p above
    rw [below] at above
    rw [other p (by omega)]
    exact lively.fresh p (by omega)
  · intro p j' live'
    by_cases new : p = s.allocated
    · subst new
      rw [here, Option.some.injEq] at live'
      rw [← live']
      exact slot
    · rw [other p new] at live'
      exact lively.slots p j' live'

theorem queued_ring_self (s : DetModule) (k : Nat) : (s.queued mode k).pend (mode.gate k) =
    (s.pend (mode.gate k)).push jobPendN s.allocated := Function.update_self ..

theorem queued_ring_other {k g : Nat} (apart : g ≠ mode.gate k) :
    (s.queued mode k).pend g = s.pend g := Function.update_of_ne apart ..

theorem queued_job_other {k p : Nat} (old : p ≠ s.allocated) :
    (s.queued mode k).jobs p = s.jobs p := Function.update_of_ne old ..

/-- A ticket of the ring after a command waits has the new job or is a ticket of before. -/
theorem queued_stored {k g ticket : Nat} (line : InLine ((s.queued mode k).pend g) ticket) :
    (g = mode.gate k ∧ ticket % jobPendN = (s.pend g).head % jobPendN ∧
      ((s.queued mode k).pend g).slots (ticket % jobPendN) = s.allocated) ∨
    (InLine (s.pend g) ticket ∧ ((s.queued mode k).pend g).slots (ticket % jobPendN) =
      (s.pend g).slots (ticket % jobPendN)) := by
  by_cases same : g = mode.gate k
  · subst same
    rw [queued_ring_self] at line ⊢
    by_cases hit : ticket % jobPendN = (s.pend (mode.gate k)).head % jobPendN
    · exact Or.inl ⟨rfl, hit, by rw [hit]; exact Function.update_self ..⟩
    · refine Or.inr ⟨⟨line.1, ?_⟩, Function.update_of_ne hit ..⟩
      have high : ticket < (s.pend (mode.gate k)).head + 1 := line.2
      have last : ticket ≠ (s.pend (mode.gate k)).head := fun equal => hit (by rw [equal])
      omega
  · rw [queued_ring_other same] at line ⊢
    exact Or.inr ⟨line, rfl⟩

/-- A command that waits is not on its way. -/
theorem queued_onWay (lively : Lively mode s) (k g p : Nat) :
    OnWay mode (s.queued mode k) g p ↔ OnWay mode s g p := by
  by_cases new : p = s.allocated
  · subst new
    have unused : s.allocated ∉ s.flight := fun member => Nat.lt_irrefl _ (lively.known member)
    exact ⟨fun on => absurd on.1 unused, fun on => absurd on.1 unused⟩
  · exact onWay_congr Iff.rfl (queued_job_other new)

/-- A command that waits, whatever its place in the ring held before. -/
theorem queue_lively {k : Nat} (lively : Lively mode s) (slot : k < kslots)
    (busy : s.inflight (mode.gate k) ≠ 0) (ends : t = s.queued mode k) : Lively mode t := by
  subst ends
  have here : (s.queued mode k).jobs s.allocated = some ⟨k, 0, ⟨0, false⟩, false⟩ :=
    Function.update_self ..
  have unused : s.allocated ∉ s.flight := fun member => Nat.lt_irrefl _ (lively.known member)
  have onWay := queued_onWay lively k
  have flag : s.inflight (mode.gate k) = 1 := (lively.flag _).resolve_left busy
  refine ⟨lively.ordered, lively.distinct, ?_, ?_, ?_, lively.flag, ?_, ?_, ?_, ?_, ?_, ?_, ?_,
    ?_⟩
  · intro p member
    have new : p ≠ s.allocated := fun same => unused (same ▸ member)
    rw [queued_job_other new]
    exact lively.flying p member
  · intro g p p' first second
    exact lively.one g p p' ((onWay g p).mp first) ((onWay g p').mp second)
  · intro g
    simp only [onWay]
    exact lively.busy g
  · intro g more
    by_cases same : g = mode.gate k
    · exact same ▸ flag
    · rw [queued_ring_other same] at more
      exact lively.waits g more
  · intro g
    by_cases same : g = mode.gate k
    · subst same
      rw [queued_ring_self]
      exact Nat.le_succ_of_le (lively.pendOrdered _)
    · rw [queued_ring_other same]
      exact lively.pendOrdered g
  · intro g t line j' live'
    rcases queued_stored line with ⟨gate, _, new⟩ | ⟨old, same⟩
    · rw [new, here, Option.some.injEq] at live'
      rw [← live']
      exact gate.symm
    · have known := lively.queuedOld g t old
      rw [same, queued_job_other (Nat.ne_of_lt known)] at live'
      exact lively.queuedGate g t old j' live'
  · intro g t line
    change _ < s.allocated + 1
    rcases queued_stored line with ⟨_, _, new⟩ | ⟨old, same⟩
    · rw [new]
      exact Nat.lt_succ_self _
    · rw [same]
      exact Nat.lt_succ_of_lt (lively.queuedOld g t old)
  · intro g t t' line line' equal
    rcases queued_stored line with ⟨_, hit, new⟩ | ⟨old, same⟩
    · rcases queued_stored line' with ⟨_, hit', _⟩ | ⟨old', same'⟩
      · rw [hit, hit']
      · have known := lively.queuedOld g t' old'
        rw [← same', ← equal, new] at known
        exact absurd known (Nat.lt_irrefl _)
    · rcases queued_stored line' with ⟨_, _, new'⟩ | ⟨old', same'⟩
      · have known := lively.queuedOld g t old
        rw [← same, equal, new'] at known
        exact absurd known (Nat.lt_irrefl _)
      · rw [same, same'] at equal
        exact lively.apart g t t' old old' equal
  · intro g t line member
    have tail : ((s.queued mode k).pend g).tail = (s.pend g).tail := by
      by_cases same : g = mode.gate k
      · subst same
        rw [queued_ring_self, Tickets.Ring.push_tail]
      · rw [queued_ring_other same]
    rw [tail]
    rcases queued_stored line with ⟨_, _, new⟩ | ⟨old, same⟩
    · rw [new] at member
      exact absurd member unused
    · rw [same] at member
      exact lively.behind g t old member
  · intro p above
    change s.allocated + 1 ≤ p at above
    rw [queued_job_other (by omega)]
    exact lively.fresh p (by omega)
  · intro p j' live'
    by_cases new : p = s.allocated
    · subst new
      rw [here, Option.some.injEq] at live'
      rw [← live']
      exact slot
    · rw [queued_job_other new] at live'
      exact lively.slots p j' live'

/-- A reply with nobody waiting on its gate. -/
theorem close_lively {p : Nat} {j : Job} (lively : Lively mode s) (finished : p ∈ s.unblocked)
    (live : s.jobs p = some j)
    (last : (s.pend (mode.gate j.slot)).head = (s.pend (mode.gate j.slot)).tail)
    (ends : t = (s.ended mode p j).closed (mode.gate j.slot)) : Lively mode t := by
  subst ends
  have flight : s.flight.Perm (p :: (s.ended mode p j).flight) := ended_flight finished
  have distinct := flight.nodup_iff.mp lively.distinct
  rw [List.nodup_cons] at distinct
  have own : OnWay mode s (mode.gate j.slot) p :=
    ⟨flight.mem_iff.mpr List.mem_cons_self, j, live, rfl⟩
  have onWay : ∀ g p', OnWay mode ((s.ended mode p j).closed (mode.gate j.slot)) g p' ↔
      p' ≠ p ∧ OnWay mode s g p' := ended_onWay lively.distinct finished
  refine ⟨lively.ordered, distinct.2, ?_, ?_, ?_, ?_, ?_, lively.pendOrdered, ?_,
    lively.queuedOld, lively.apart, ?_, ?_, ?_⟩
  · intro p' member
    obtain ⟨j', live'⟩ := lively.flying p' (flight.mem_iff.mpr (List.mem_cons_of_mem p member))
    have differs : p' ≠ p := fun same => distinct.1 (same ▸ member)
    exact ⟨j', (Function.update_of_ne differs ..).trans live'⟩
  · exact Holders.Single.leave lively.one onWay
  · exact Holders.Flagged.leave lively.busy rfl (fun p' there => lively.one _ p' p there own)
      (fun g there => onWay_gate live there) onWay
  · exact Holders.flags_update lively.flag (Or.inl rfl)
  · intro g more
    have same : g ≠ mode.gate j.slot := fun equal => more (equal ▸ last)
    unfold closed
    dsimp only
    rw [Function.update_of_ne same]
    exact lively.waits g more
  · intro g ticket line j' live'
    exact lively.queuedGate g ticket line j' (ended_jobs live').2
  · intro g ticket line member
    exact lively.behind g ticket line (flight.mem_iff.mpr (List.mem_cons_of_mem p member))
  · intro p' above
    by_cases same : p' = p
    · exact same ▸ Function.update_self ..
    · exact (Function.update_of_ne same ..).trans (lively.fresh p' above)
  · exact fun p' j' live' => lively.slots p' j' (ended_jobs live').2

/-- The reply of `p` begins the next job of its gate. -/
structure Passing (mode : RmwMode) (s t : DetModule) (p : Nat) (j : Job) : Prop where
  lively : Lively mode s
  finished : p ∈ s.unblocked
  live : s.jobs p = some j
  more : (s.pend (mode.gate j.slot)).head ≠ (s.pend (mode.gate j.slot)).tail
  taken : ((s.ended mode p j).popped (mode.gate j.slot)).begin mode
    ((s.pend (mode.gate j.slot)).front jobPendN) = some t

section Passing

variable {p : Nat} {j : Job}

theorem Passing.own (passing : Passing mode s t p j) : OnWay mode s (mode.gate j.slot) p :=
  ⟨List.mem_append_right _ (List.mem_append_right _ passing.finished), j, passing.live, rfl⟩

theorem Passing.line (passing : Passing mode s t p j) :
    InLine (s.pend (mode.gate j.slot)) (s.pend (mode.gate j.slot)).tail := by
  have ordered := passing.lively.pendOrdered (mode.gate j.slot)
  have more := passing.more
  exact ⟨Nat.le_refl _, by omega⟩

theorem Passing.left (passing : Passing mode s t p j) :
    s.flight.Perm (p :: (s.ended mode p j).flight) := ended_flight passing.finished

theorem Passing.gone (passing : Passing mode s t p j) :
    p ∉ (s.ended mode p j).flight ∧ (s.ended mode p j).flight.Nodup := by
  rw [← List.nodup_cons]
  exact passing.left.nodup_iff.mp passing.lively.distinct

/-- The next job is a job of the same gate, and another one. -/
theorem Passing.next (passing : Passing mode s t p j) : ∃ j',
    ((s.ended mode p j).popped (mode.gate j.slot)).jobs
      ((s.pend (mode.gate j.slot)).front jobPendN) = some j' ∧
    (s.pend (mode.gate j.slot)).front jobPendN ≠ p ∧
    s.jobs ((s.pend (mode.gate j.slot)).front jobPendN) = some j' ∧
    mode.gate j'.slot = mode.gate j.slot := by
  cases next : ((s.ended mode p j).popped (mode.gate j.slot)).jobs
      ((s.pend (mode.gate j.slot)).front jobPendN) with
  | none =>
    have taken := passing.taken
    unfold begin at taken
    rw [next] at taken
    cases taken
  | some j' =>
    obtain ⟨differs, next'⟩ := ended_jobs next
    exact ⟨j', rfl, differs, next', passing.lively.queuedGate _ _ passing.line j' next'⟩

theorem Passing.flight (passing : Passing mode s t p j) : t.flight.Perm
    ((s.pend (mode.gate j.slot)).front jobPendN :: (s.ended mode p j).flight) :=
  begin_flight (s := (s.ended mode p j).popped (mode.gate j.slot)) passing.lively.ordered
    passing.lively.queueRoom passing.taken

/-- The next job is not on its way yet: there is but one on its gate. -/
theorem Passing.unused (passing : Passing mode s t p j) :
    (s.pend (mode.gate j.slot)).front jobPendN ∉ (s.ended mode p j).flight := by
  obtain ⟨j', _, differs, next', gate⟩ := passing.next
  intro member
  have old := passing.left.mem_iff.mpr (List.mem_cons_of_mem p member)
  exact differs (passing.lively.one _ _ p ⟨old, j', next', gate⟩ passing.own)

/-- What a reply that passes its gate on does to the jobs on their way. -/
theorem Passing.onWay (passing : Passing mode s t p j) (g p' : Nat) :
    OnWay mode t g p' ↔ (p' = (s.pend (mode.gate j.slot)).front jobPendN ∧
      g = mode.gate j.slot) ∨ (p' ≠ p ∧ OnWay mode s g p') := by
  obtain ⟨j', next, _, next', gate⟩ := passing.next
  have lively := passing.lively
  rw [begin_onWay (s := (s.ended mode p j).popped (mode.gate j.slot)) lively.ordered
    lively.queueRoom next passing.taken, gate]
  have rest : ∀ p', OnWay mode ((s.ended mode p j).popped (mode.gate j.slot)) g p' ↔
      p' ≠ p ∧ OnWay mode s g p' := ended_onWay lively.distinct passing.finished g
  rw [rest p']
  constructor
  · rintro (⟨rfl, rfl⟩ | ⟨_, both⟩)
    · exact Or.inl ⟨rfl, rfl⟩
    · exact Or.inr both
  · rintro (⟨rfl, rfl⟩ | both)
    · exact Or.inl ⟨rfl, rfl⟩
    · refine Or.inr ⟨?_, both⟩
      rintro rfl
      have place := onWay_gate next' both.2
      rw [gate] at place
      exact both.1 (lively.one _ _ p (place ▸ both.2) passing.own)

/-- The jobs after the step are those of before, the one that is begun with its counter
read. -/
theorem Passing.jobs (passing : Passing mode s t p j) {p' : Nat} {j₁ : Job}
    (live₁ : t.jobs p' = some j₁) : ∃ j₂, s.jobs p' = some j₂ ∧ j₁.slot = j₂.slot := by
  obtain ⟨j', next, _, next', _⟩ := passing.next
  by_cases same : p' = (s.pend (mode.gate j.slot)).front jobPendN
  · rw [same, begin_job next passing.taken, Option.some.injEq] at live₁
    subst live₁
    exact ⟨j', same ▸ next', rfl⟩
  · rw [begin_job_other next passing.taken same] at live₁
    exact ⟨j₁, (ended_jobs live₁).2, rfl⟩

theorem Passing.flying (passing : Passing mode s t p j) {p' : Nat} (member : p' ∈ t.flight) :
    ∃ j', t.jobs p' = some j' := by
  obtain ⟨_, next, _⟩ := passing.next
  rcases List.mem_cons.mp (passing.flight.mem_iff.mp member) with rfl | old
  · exact ⟨_, begin_job next passing.taken⟩
  · have new : p' ≠ (s.pend (mode.gate j.slot)).front jobPendN :=
      fun same => passing.unused (same ▸ old)
    have differs : p' ≠ p := fun same => passing.gone.1 (same ▸ old)
    obtain ⟨j₁, live₁⟩ :=
      passing.lively.flying p' (passing.left.mem_iff.mpr (List.mem_cons_of_mem p old))
    rw [begin_job_other next passing.taken new]
    exact ⟨j₁, (Function.update_of_ne differs ..).trans live₁⟩

theorem Passing.fresh (passing : Passing mode s t p j) {p' : Nat} (above : s.allocated ≤ p') :
    t.jobs p' = none := by
  obtain ⟨_, next, _, next', _⟩ := passing.next
  have new : p' ≠ (s.pend (mode.gate j.slot)).front jobPendN := by
    rintro rfl
    rw [passing.lively.fresh _ above] at next'
    cases next'
  rw [begin_job_other next passing.taken new]
  by_cases same : p' = p
  · exact same ▸ Function.update_self ..
  · exact (Function.update_of_ne same ..).trans (passing.lively.fresh p' above)

theorem Passing.ring_self (passing : Passing mode s t p j) :
    t.pend (mode.gate j.slot) = (s.pend (mode.gate j.slot)).advance := by
  rw [(begin_frame passing.taken).1]
  exact Function.update_self ..

theorem Passing.ring_other (passing : Passing mode s t p j) {g : Nat}
    (apart : g ≠ mode.gate j.slot) : t.pend g = s.pend g := by
  rw [(begin_frame passing.taken).1]
  exact Function.update_of_ne apart ..

/-- No ring gets anything new. -/
theorem Passing.ring (passing : Passing mode s t p j) {g ticket : Nat}
    (inside : InLine (t.pend g) ticket) :
    InLine (s.pend g) ticket ∧ (t.pend g).slots = (s.pend g).slots := by
  by_cases same : g = mode.gate j.slot
  · subst same
    rw [passing.ring_self] at inside ⊢
    exact ⟨⟨Nat.le_of_succ_le inside.1, inside.2⟩, rfl⟩
  · rw [passing.ring_other same] at inside ⊢
    exact ⟨inside, rfl⟩

/-- A ticket of a job that is on its way is right behind the reader. -/
theorem Passing.behind (passing : Passing mode s t p j) {g ticket : Nat}
    (inside : InLine (t.pend g) ticket)
    (member : (s.pend g).slots (ticket % jobPendN) ∈ t.flight) :
    (ticket + 1) % jobPendN = (t.pend g).tail % jobPendN := by
  obtain ⟨j', _, _, next', gate⟩ := passing.next
  obtain ⟨old, _⟩ := passing.ring inside
  have lively := passing.lively
  rcases List.mem_cons.mp (passing.flight.mem_iff.mp member) with first | rest
  · -- the job that is begun was at the ring's front, which is behind the reader now
    have same : g = mode.gate j.slot := by
      rw [← lively.queuedGate g ticket old j' (first ▸ next'), gate]
    subst same
    have slot := lively.apart _ ticket _ old passing.line first
    rw [passing.ring_self, Tickets.Ring.advance_tail]
    rw [Nat.add_mod, slot, ← Nat.add_mod]
  · have flying := passing.left.mem_iff.mpr (List.mem_cons_of_mem p rest)
    obtain ⟨j₁, live₁⟩ := lively.flying _ flying
    have gate₁ := lively.queuedGate g ticket old j₁ live₁
    by_cases same : g = mode.gate j.slot
    · have equal := lively.one g _ p ⟨flying, j₁, live₁, gate₁⟩ (same ▸ passing.own)
      rw [equal] at rest
      exact absurd rest passing.gone.1
    · rw [passing.ring_other same]
      exact lively.behind g ticket old flying

theorem pass_lively (passing : Passing mode s t p j) : Lively mode t := by
  obtain ⟨_, inflight, allocated, _, _, q, _⟩ := begin_frame passing.taken
  have lively := passing.lively
  have below : t.allocated = s.allocated := allocated
  have kept : t.inflight = s.inflight := inflight
  have busy : s.inflight (mode.gate j.slot) = 1 := (lively.busy _).mpr ⟨p, passing.own⟩
  refine ⟨?_, ?_, fun _ => passing.flying, ?_, ?_, ?_, ?_, ?_, ?_, ?_, ?_, ?_, ?_, ?_⟩
  · rw [q, Tickets.Ring.push_head, Tickets.Ring.push_tail]
    exact Nat.le_succ_of_le lively.ordered
  · rw [passing.flight.nodup_iff, List.nodup_cons]
    exact ⟨passing.unused, passing.gone.2⟩
  · exact Holders.Single.pass lively.one passing.own passing.onWay
  · rw [kept]
    exact Holders.Flagged.pass lively.busy busy
      (fun g there => onWay_gate passing.live there) passing.onWay
  · rw [kept]
    exact lively.flag
  · intro g waiting
    rw [kept]
    by_cases same : g = mode.gate j.slot
    · exact same ▸ busy
    · rw [passing.ring_other same] at waiting
      exact lively.waits g waiting
  · intro g
    by_cases same : g = mode.gate j.slot
    · have line := passing.line.2
      rw [same, passing.ring_self, Tickets.Ring.advance_head, Tickets.Ring.advance_tail]
      omega
    · rw [passing.ring_other same]
      exact lively.pendOrdered g
  · intro g ticket inside j₁ live₁
    obtain ⟨old, slots⟩ := passing.ring inside
    rw [slots] at live₁
    obtain ⟨j₂, live₂, slot⟩ := passing.jobs live₁
    rw [slot]
    exact lively.queuedGate g ticket old j₂ live₂
  · intro g ticket inside
    obtain ⟨old, slots⟩ := passing.ring inside
    rw [slots, below]
    exact lively.queuedOld g ticket old
  · intro g ticket ticket' inside inside' equal
    obtain ⟨old, slots⟩ := passing.ring inside
    rw [slots] at equal
    exact lively.apart g ticket ticket' old (passing.ring inside').1 equal
  · intro g ticket inside member
    rw [(passing.ring inside).2] at member
    exact passing.behind inside member
  · intro p' above
    rw [below] at above
    exact passing.fresh above
  · intro p' j₁ live₁
    obtain ⟨j₂, live₂, slot⟩ := passing.jobs live₁
    rw [slot]
    exact lively.slots p' j₂ live₂

end Passing

/-- What a step of the module does to its gates, overrun rings or not. -/
theorem Lively.turned {nw : Nat} {a : DetAct} (protects : mode ≠ .naive) (lively : Lively mode s)
    (taken : s.step mode nw a = some t) : Turned mode s t a := by
  cases a with
  | rmw argv => exact cmdRmw_turned protects taken
  | take w =>
    change (if w < nw then s.take w else none) = some t at taken
    split at taken
    · exact take_turned lively.ordered taken
    · cases taken
  | unblock w p => exact unblock_turned lively.ordered taken
  | reply p =>
    change (if p ∈ s.unblocked then s.replyCb mode p else none) = some t at taken
    split at taken
    · rename_i finished
      exact reply_turned protects finished (fun j _ more => lively.front_ne finished more) taken
    · cases taken

theorem step_lively {nw : Nat} {a : DetAct} (protects : mode ≠ .naive) (lively : Lively mode s)
    (taken : s.step mode nw a = some t) : Lively mode t := by
  cases lively.turned protects taken with
  | arity argv act wrong ends => exact ends ▸ lively
  | start name key act idle begins => exact start_lively lively (slotOf_lt key) idle begins
  | queue name key act busy stored ends => exact queue_lively lively (slotOf_lt key) busy ends
  | worker q running unblocked command reply ends ordered flight =>
    exact worker_lively lively ends ordered flight
  | pass p j act finished live more begins =>
    exact pass_lively ⟨lively, finished, live, more, begins⟩
  | close p j act finished live last ends => exact close_lively lively finished live last ends

end DetModule

namespace Clients

open DetModule (Lively Turned)

variable {mode : RmwMode} {s t : Clients}

/-- No job on its way has lost its client. -/
def Served (s : Clients) : Prop := ∀ p ∈ s.m.flight, p ∉ s.gone

/-- Clients that have gone were blocked on a job. -/
def GoneKnown (s : Clients) : Prop := ∀ p ∈ s.gone, p < s.m.allocated

theorem step_det {nw : Nat} {a : DetAct} (taken : s.step mode nw (.det a) = some t) :
    (∀ p, replying a = some p → p ∉ s.gone) ∧ s.m.step mode nw a = some t.m ∧ t.gone = s.gone := by
  rw [step] at taken
  split at taken
  · cases taken
  · rename_i present
    obtain ⟨m, moved, rfl⟩ := Option.map_eq_some_iff.mp taken
    refine ⟨?_, moved, rfl⟩
    intro p reply member
    exact present ⟨p, reply, member⟩

/-- A gate whose only job on its way has lost its client is never opened again. -/
theorem not_gatesOpen {g p : Nat} (lively : Lively mode s.m) (on : OnWay mode s.m g p)
    (gone : p ∈ s.gone) : ¬ GatesOpen mode s := by
  intro open_
  obtain ⟨p', on', here⟩ := open_ g (Or.inl ((lively.busy g).mpr ⟨p, on⟩))
  exact here (lively.one g p' p on' on ▸ gone)

theorem gatesOpen (lively : Lively mode s.m) (served : Served s) : GatesOpen mode s := by
  intro g closed
  have busy : s.m.inflight g = 1 := closed.elim id (lively.waits g)
  obtain ⟨p, on⟩ := (lively.busy g).mp busy
  exact ⟨p, on, served p on.1⟩

/-- What a step of the module adds to the jobs on their way. -/
theorem turned_flight {m m' : DetModule} {a : DetAct} (lively : Lively mode m)
    (turned : Turned mode m m' a) (p : Nat) (member : p ∈ m'.flight) :
    p ∈ m.flight ∨ p = m.allocated ∨ ∃ p' j, a = .reply p' ∧ m.jobs p' = some j ∧
      (m.pend (mode.gate j.slot)).head ≠ (m.pend (mode.gate j.slot)).tail ∧
      p = (m.pend (mode.gate j.slot)).front jobPendN := by
  cases turned with
  | arity argv act wrong ends => exact Or.inl (ends ▸ member)
  | start name key act idle begins =>
    have flight := DetModule.begin_flight (s := m.opened mode (slotOf key)) lively.ordered
      lively.queueRoom begins
    rcases List.mem_cons.mp (flight.mem_iff.mp member) with new | old
    · exact Or.inr (Or.inl new)
    · exact Or.inl old
  | queue name key act busy stored ends => exact Or.inl (by rw [ends] at member; exact member)
  | worker q running unblocked command reply ends ordered flight =>
    exact Or.inl (flight.mem_iff.mp member)
  | pass p' j act finished live more begins =>
    have flight := DetModule.begin_flight
      (s := (m.ended mode p' j).popped (mode.gate j.slot)) lively.ordered lively.queueRoom begins
    have left : m.flight.Perm (p' :: (m.ended mode p' j).flight) := DetModule.ended_flight finished
    rcases List.mem_cons.mp (flight.mem_iff.mp member) with new | old
    · exact Or.inr (Or.inr ⟨p', j, act, live, more, new⟩)
    · exact Or.inl (left.mem_iff.mpr (List.mem_cons_of_mem p' old))
  | close p' j act finished live last ends =>
    have left : m.flight.Perm (p' :: (m.ended mode p' j).flight) := DetModule.ended_flight finished
    rw [ends] at member
    exact Or.inl (left.mem_iff.mpr (List.mem_cons_of_mem p' member))

theorem turned_allocated {m m' : DetModule} {a : DetAct} (turned : Turned mode m m' a) :
    m.allocated ≤ m'.allocated := by
  cases turned with
  | arity argv act wrong ends => rw [ends]
  | start name key act idle begins =>
    rw [(DetModule.begin_frame begins).2.2.1]
    exact Nat.le_succ _
  | queue name key act busy stored ends =>
    rw [ends]
    exact Nat.le_succ _
  | worker q running unblocked command reply ends ordered flight => rw [ends]
  | pass p' j act finished live more begins =>
    rw [(DetModule.begin_frame begins).2.2.1]
    exact Nat.le_refl _
  | close p' j act finished live last ends =>
    rw [ends]
    exact Nat.le_refl _

theorem step_served {nw : Nat} {a : ClientAct} (protects : mode ≠ .naive)
    (lively : Lively mode s.m) (served : Served s) (known : GoneKnown s)
    (stays : s.StaysForReply mode a) (taken : s.step mode nw a = some t) :
    Lively mode t.m ∧ Served t ∧ GoneKnown t := by
  cases a with
  | det a =>
    obtain ⟨_, moved, gone⟩ := step_det taken
    have turned := lively.turned protects moved
    refine ⟨DetModule.step_lively protects lively moved, ?_, ?_⟩
    · intro p member
      rw [gone]
      rcases turned_flight lively turned p member with old | rfl | ⟨p', j, rfl, live, more, rfl⟩
      · exact served p old
      · exact fun lost => Nat.lt_irrefl _ (known _ lost)
      · exact stays j live more
    · intro p member
      rw [gone] at member
      exact Nat.lt_of_lt_of_le (known p member) (turned_allocated turned)
  | disconnect p =>
    rw [step] at taken
    split at taken
    · rename_i able
      rw [Option.some.injEq] at taken
      subst taken
      refine ⟨lively, ?_, ?_⟩
      · intro p' member
        rw [List.mem_cons, not_or]
        exact ⟨fun same => stays (same ▸ member), served p' member⟩
      · intro p' member
        rcases List.mem_cons.mp member with rfl | old
        · by_contra above
          exact able.1 (lively.fresh p' (Nat.le_of_not_lt above))
        · exact known p' old
    · cases taken
  | drop p =>
    rw [step] at taken
    split at taken
    · rename_i able
      have flying : p ∈ s.m.flight := List.mem_append_right _ (List.mem_append_right _ able.1)
      exact absurd able.2 (served p flying)
    · cases taken

/-- A client that leaves its begun job, or a job that is begun for nobody, closes its
gate for good. -/
theorem leave_closes_gate {nw : Nat} {a : ClientAct} (protects : mode ≠ .naive)
    (lively : Lively mode s.m) (leaves : ¬ s.StaysForReply mode a)
    (taken : s.step mode nw a = some t) : ¬ GatesOpen mode t := by
  cases a with
  | det a =>
    obtain ⟨_, moved, gone⟩ := step_det taken
    cases a with
    | reply p =>
      unfold StaysForReply at leaves
      push Not at leaves
      obtain ⟨j, live, more, lost⟩ := leaves
      have next := DetModule.step_lively protects lively moved
      cases lively.turned protects moved with
      | pass p' j' act finished live' more' begins =>
        cases act
        rw [live, Option.some.injEq] at live'
        subst live'
        have passing : DetModule.Passing mode s.m t.m p j :=
          ⟨lively, finished, live, more, begins⟩
        have on : OnWay mode t.m (mode.gate j.slot)
            ((s.m.pend (mode.gate j.slot)).front jobPendN) :=
          (passing.onWay _ _).mpr (Or.inl ⟨rfl, rfl⟩)
        exact not_gatesOpen next on (gone ▸ lost)
      | close p' j' act finished live' last ends =>
        cases act
        rw [live, Option.some.injEq] at live'
        subst live'
        exact absurd last more
      | worker q running unblocked command reply => exact absurd rfl (reply p)
      | arity argv act | start name key act | queue name key act => cases act
    | rmw argv | take w | unblock w p => exact absurd trivial leaves
  | disconnect p =>
    have flying : p ∈ s.m.flight := not_not.mp leaves
    obtain ⟨j, live⟩ := lively.flying p flying
    rw [step] at taken
    split at taken
    · rw [Option.some.injEq] at taken
      subst taken
      exact not_gatesOpen (g := mode.gate j.slot) (p := p) lively ⟨flying, j, live, rfl⟩
        List.mem_cons_self
    · cases taken
  | drop p => exact absurd trivial leaves

/-- In the modes `detect` and `lock`, a gate that is closed or has jobs waiting always
has a job on its way to a callback, if and only if no client disconnects while its job
is begun, and no job is begun whose client has disconnected while it waited. -/
theorem gates_open_iff_stay (mode : RmwMode) (protects : mode ≠ .naive) (nw : Nat)
    (acts : List ClientAct) (s : Clients)
    (ran : Machine.run (step mode nw) (start mode) acts = some s) :
    Machine.Always (step mode nw) (GatesOpen mode) (start mode) acts ↔
      Machine.Guarded (step mode nw) (StaysForReply mode) (start mode) acts := by
  apply Machine.always_iff_guarded (H := fun _ _ => True)
    (I := fun s => Lively mode s.m ∧ Served s ∧ GoneKnown s)
  · exact fun s inv => gatesOpen inv.1 inv.2.1
  · rintro s a t ⟨lively, served, known⟩ _ stays taken
    exact step_served protects lively served known stays taken
  · rintro s a t ⟨lively, _, _⟩ _ leaves taken
    exact leave_closes_gate protects lively leaves taken
  · refine ⟨DetModule.onLoad_lively mode, ?_, ?_⟩
    · intro p _
      nofun
    · nofun
  · exact Machine.guarded_of_mem (fun _ _ _ => trivial) _
  · exact ran

/-- Three commands on one key; the client of the third gives up while it waits, and
nothing is begun for it before the run ends. -/
def impatientWaiter : List ClientAct :=
  let rmw : ClientAct := .det (.rmw [[], [1]])
  [rmw, rmw, rmw, .disconnect 2, .det (.take 0), .det (.unblock 0 0), .det (.reply 0),
    .det (.take 0)]

theorem impatientWaiter_open : ∃ s,
    Machine.run (step .detect 1) (start .detect) impatientWaiter = some s ∧
      Machine.Always (step .detect 1) (GatesOpen .detect) (start .detect) impatientWaiter :=
  ⟨_, rfl, (gates_open_iff_stay .detect (by decide) 1 impatientWaiter _ rfl).mpr
    (by decide +kernel)⟩

/-- A client that disconnects while its job is at the accelerator, and one behind it. -/
def leftInFlight : List ClientAct :=
  let rmw : ClientAct := .det (.rmw [[], [1]])
  [rmw, rmw, .det (.take 0), .disconnect 0, .det (.unblock 0 0), .drop 0]

/-- Nothing is on its way any more, and the second client's job waits on a closed gate. -/
theorem leftInFlight_closes : ∃ s,
    Machine.run (step .detect 1) (start .detect) leftInFlight = some s ∧
      s.m.flight = [] ∧ ¬ GatesOpen .detect s := by
  refine ⟨_, rfl, rfl, ?_⟩
  intro open_
  obtain ⟨p, ⟨flying, _⟩, _⟩ := open_ (slotOf [1]) (Or.inl rfl)
  cases flying

end Clients

end TransparentOffload
