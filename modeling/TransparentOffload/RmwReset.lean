import TransparentOffload.RmwTurns

set_option autoImplicit false

/- `detector_module` with `DET.RESET`: the command rewrites counters, gates and rings
while jobs that have read the old counters are still on their way. -/
namespace TransparentOffload

/-- `cmd_reset`. The arena is made writable, so its stores fault on no page. -/
def DetModule.cmdReset (s : DetModule) : DetModule :=
  { s with
    cnt := fun k => if k < kslots then 0 else s.cnt k
    gTotal := 0
    det := { s.det with
      detConflicts := 0, detFaults := 0
      writable := fun k => if s.det.detOn ∧ k < kslots then false else s.det.writable k }
    inflight := fun g => if g < kslots then 0 else s.inflight g
    pend := fun g => if g < kslots then { s.pend g with head := 0, tail := 0 } else s.pend g }

/-- The module; `stale` is history: the jobs that were begun before the latest reset. -/
structure Resettable where
  m : DetModule
  stale : List Nat

/-- A step of the module, or `DET.RESET`. -/
inductive ResetAct
  | det (a : DetAct)
  | reset
  deriving DecidableEq, Repr

namespace Resettable

def start (mode : RmwMode) : Resettable := ⟨.onLoad mode, []⟩

def step (mode : RmwMode) (nw : Nat) (s : Resettable) : ResetAct → Option Resettable
  | .det a => (s.m.step mode nw a).map fun m => { s with m := m }
  | .reset => some ⟨s.m.cmdReset, s.m.flight ++ s.stale⟩

/-- What the counters, the gates and the rings promise: the counters add up to the
completed commands, one job of a gate is between its read and its write, and every
accepted job waits, is on its way, or is replied to and freed. -/
structure Promises (mode : RmwMode) (m : DetModule) : Prop where
  total : m.sum = m.gTotal
  one : ∀ g p p', m.OnGate mode g p → m.OnGate mode g p' → p = p'
  placed : ∀ p < m.allocated, (∃ g, p ∈ m.waitingOn g) ∨ p ∈ m.flight ∨ m.jobs p = none

/-- A reset finds no job waiting; a command on a gate that is marked idle finds no job of
that gate on its way, and one on a busy gate finds room in its ring; and a job that was
begun before the latest reset replies only if it had read 0. -/
def Harmless (mode : RmwMode) (s : Resettable) : ResetAct → Prop
  | .reset => ∀ g < kslots, (s.m.pend g).head = (s.m.pend g).tail
  | .det (.rmw [_, key]) =>
    (s.m.inflight (mode.gate (slotOf key)) = 0 →
      ∀ p ∈ s.m.flight, ∀ j, s.m.jobs p = some j → mode.gate j.slot ≠ mode.gate (slotOf key)) ∧
    (s.m.inflight (mode.gate (slotOf key)) ≠ 0 →
      (s.m.pend (mode.gate (slotOf key))).head <
        (s.m.pend (mode.gate (slotOf key))).tail + jobPendN)
  | .det (.reply p) => p ∈ s.stale → ∀ j, s.m.jobs p = some j → j.v = 0
  | _ => True

instance (mode : RmwMode) (s : Resettable) : ∀ a, Decidable (s.Harmless mode a)
  | .reset => inferInstanceAs (Decidable (∀ g < kslots, _))
  | .det (.rmw [_, key]) => decidable_of_iff
      ((s.m.inflight (mode.gate (slotOf key)) = 0 → ∀ p ∈ s.m.flight, ∀ j ∈ s.m.jobs p,
        mode.gate j.slot ≠ mode.gate (slotOf key)) ∧
      (s.m.inflight (mode.gate (slotOf key)) ≠ 0 →
        (s.m.pend (mode.gate (slotOf key))).head <
          (s.m.pend (mode.gate (slotOf key))).tail + jobPendN)) Iff.rfl
  | .det (.reply p) => decidable_of_iff (p ∈ s.stale → ∀ j ∈ s.m.jobs p, j.v = 0) Iff.rfl
  | .det (.rmw []) | .det (.rmw [_]) | .det (.rmw (_ :: _ :: _ :: _)) | .det (.take _)
  | .det (.unblock _ _) => isTrue trivial

end Resettable

namespace DetModule

variable {mode : RmwMode} {s t : DetModule} {stale : List Nat}

/-- What holds of the gates across resets; a stale job has no flag, and its counter is 0
until it replies. -/
structure Steady (mode : RmwMode) (s : DetModule) (stale : List Nat) : Prop where
  sound : Sound mode s
  one : ∀ g p p', s.OnGate mode g p → s.OnGate mode g p' → p = p'
  busy : ∀ g, s.inflight g = 1 ↔ ∃ p, s.OnGate mode g p ∧ p ∉ stale
  flag : ∀ g, s.inflight g = 0 ∨ s.inflight g = 1
  waits : ∀ g, (s.pend g).head ≠ (s.pend g).tail → s.inflight g = 1
  current : ∀ p j, s.jobs p = some j → j.begun = true → p ∉ stale → j.v = s.cnt j.slot
  zero : ∀ p j, s.jobs p = some j → j.begun = true → p ∈ stale → s.cnt j.slot = 0
  total : s.sum = s.gTotal
  placed : ∀ p j, s.jobs p = some j → j.begun = false → ∃ g, p ∈ s.waitingOn g
  old : ∀ p ∈ stale, p < s.allocated
  read : ∀ p ∈ stale, ∀ j, s.jobs p = some j → j.begun = true

theorem onLoad_steady (mode : RmwMode) : Steady mode (onLoad mode) [] := by
  refine ⟨onLoad_sound mode, ?_, ?_, fun _ => Or.inl rfl, ?_, ?_, ?_, ?_, ?_, ?_, ?_⟩
  all_goals simp [onLoad, OnGate, sum]

theorem Steady.promises (steady : Steady mode s stale) : Resettable.Promises mode s := by
  refine ⟨steady.total, steady.one, ?_⟩
  intro p _
  cases live : s.jobs p with
  | none => exact Or.inr (Or.inr rfl)
  | some j =>
    cases begun : j.begun with
    | false => exact Or.inl (steady.placed p j live begun)
    | true => exact Or.inr (Or.inl ((steady.sound.flying p).mpr ⟨j, live, begun⟩))

theorem Steady.flight_short (steady : Steady mode s stale) : s.flight.length ≤ kslots := by
  apply DetModule.flight_short steady.sound.distinct _ steady.one
  intro p member
  obtain ⟨j, live, begun⟩ := (steady.sound.flying p).mp member
  exact ⟨mode.gate j.slot, gate_lt (steady.sound.slots p j live), j, live, begun, rfl⟩

/-- A command whose gate has no job on its way, stale or not. -/
theorem start_steady {k : Nat} (steady : Steady mode s stale) (slot : k < kslots)
    (idle : s.inflight (mode.gate k) = 0) (free : ∀ p, ¬ s.OnGate mode (mode.gate k) p)
    (queue : t.WithinQueue)
    (taken : (s.opened mode k).begin mode s.allocated = some t) : Steady mode t stale := by
  obtain ⟨pend, inflight, allocated, cnt, gTotal, _⟩ := begin_frame taken
  have live : (s.opened mode k).jobs s.allocated = some ⟨k, 0, ⟨0, false⟩, false⟩ :=
    Function.update_self ..
  have unqueued : ∀ g, s.allocated ∉ (s.opened mode k).waitingOn g := alloc_unqueued steady.sound
  have fresh := alloc_sound steady.sound slot
  have opened : Sound mode (s.opened mode k) :=
    fresh.moved fresh.ordered (List.Perm.refl _) rfl rfl rfl
  have sound := begin_sound opened live rfl unqueued queue taken
  have here := begin_job live taken
  have other : ∀ p, p ≠ s.allocated → t.jobs p = s.jobs p := by
    intro p new
    rw [begin_job_other live taken new]
    exact Function.update_of_ne new ..
  have onGate : ∀ g p, t.OnGate mode g p ↔
      (p = s.allocated ∧ g = mode.gate k) ∨ s.OnGate mode g p := by
    intro g p
    rw [begin_onGate live rfl taken]
    unfold OnGate
    simp only [← and_assoc]
    exact or_congr Iff.rfl
      (exists_congr fun j => and_congr (alloc_begun steady.sound k p j) Iff.rfl)
  have unused : s.allocated ∉ stale := fun member => Nat.lt_irrefl _ (steady.old _ member)
  have kept : t.inflight = Function.update s.inflight (mode.gate k) 1 := inflight
  have ring : t.pend = s.pend := pend
  refine ⟨sound, ?_, ?_, ?_, ?_, ?_, ?_, ?_, ?_, ?_, ?_⟩
  · exact Holders.Single.enter steady.one free onGate
  · have moves : ∀ g p, (t.OnGate mode g p ∧ p ∉ stale) ↔
        (p = s.allocated ∧ g = mode.gate k) ∨ (s.OnGate mode g p ∧ p ∉ stale) := by
      intro g p
      rw [onGate, or_and_right]
      refine or_congr (and_iff_left_of_imp ?_) Iff.rfl
      rintro ⟨rfl, _⟩
      exact unused
    exact Holders.Flagged.enter steady.busy kept moves
  · rw [kept]
    exact Holders.flags_update steady.flag (Or.inr rfl)
  · intro g more
    rw [ring] at more
    have busy := steady.waits g more
    have same : g ≠ mode.gate k := by
      rintro rfl
      omega
    rw [kept, Function.update_of_ne same]
    exact busy
  · intro p j live' begun recent
    rw [cnt]
    by_cases new : p = s.allocated
    · subst new
      rw [here, Option.some.injEq] at live'
      rw [← live']
      rfl
    · rw [other p new] at live'
      exact steady.current p j live' begun recent
  · intro p j live' begun before
    rw [cnt]
    have new : p ≠ s.allocated := fun same => unused (same ▸ before)
    rw [other p new] at live'
    exact steady.zero p j live' begun before
  · unfold sum
    rw [cnt, gTotal]
    exact steady.total
  · intro p j live' waiting
    have new : p ≠ s.allocated := by
      rintro rfl
      rw [here, Option.some.injEq] at live'
      subst live'
      cases waiting
    rw [other p new] at live'
    obtain ⟨g, member⟩ := steady.placed p j live' waiting
    exact ⟨g, (waitingOn_congr ring g).symm ▸ member⟩
  · intro p before
    rw [allocated]
    exact Nat.lt_succ_of_lt (steady.old p before)
  · intro p before j live'
    have new : p ≠ s.allocated := fun same => unused (same ▸ before)
    rw [other p new] at live'
    exact steady.read p before j live'

/-- A command that waits behind its gate. -/
theorem queue_steady {k : Nat} (steady : Steady mode s stale) (slot : k < kslots)
    (busy : s.inflight (mode.gate k) ≠ 0)
    (room : (s.pend (mode.gate k)).head < (s.pend (mode.gate k)).tail + jobPendN)
    (stored : (s.alloc k).queueJob (mode.gate k) s.allocated = some t)
    (ends : t = s.queued mode k) : Steady mode t stale := by
  have here : (s.alloc k).jobs s.allocated = some ⟨k, 0, ⟨0, false⟩, false⟩ :=
    Function.update_self ..
  have flag : s.inflight (mode.gate k) = 1 := (steady.flag _).resolve_left busy
  have ring : t.pend (mode.gate k) = (s.pend (mode.gate k)).push jobPendN s.allocated := by
    rw [ends]
    exact Function.update_self ..
  have bound : (t.pend (mode.gate k)).head - (t.pend (mode.gate k)).tail ≤ jobPendN := by
    rw [ring, Tickets.Ring.push_head, Tickets.Ring.push_tail]
    omega
  have sound := queueJob_sound (alloc_sound steady.sound slot) here rfl rfl
    (alloc_unqueued steady.sound _) bound stored
  have last := queued_waitingOn (steady.sound.pendOrdered (mode.gate k)) room
  have onGate : ∀ g p, t.OnGate mode g p ↔ s.OnGate mode g p := by
    intro g p
    rw [ends]
    unfold OnGate
    simp only [← and_assoc]
    exact exists_congr fun j => and_congr (alloc_begun steady.sound k p j) Iff.rfl
  have begun : ∀ p j, t.jobs p = some j → j.begun = true → s.jobs p = some j := by
    intro p j live started
    rw [ends] at live
    exact ((alloc_begun steady.sound k p j).mp ⟨live, started⟩).1
  refine ⟨sound, ?_, ?_, ?_, ?_, ?_, ?_, ?_, ?_, ?_, ?_⟩
  · intro g p p' first second
    exact steady.one g p p' ((onGate g p).mp first) ((onGate g p').mp second)
  · intro g
    rw [show t.inflight = s.inflight by rw [ends]; rfl]
    simp only [onGate]
    exact steady.busy g
  · rw [show t.inflight = s.inflight by rw [ends]; rfl]
    exact steady.flag
  · intro g more
    rw [show t.inflight = s.inflight by rw [ends]; rfl]
    by_cases same : g = mode.gate k
    · exact same ▸ flag
    · rw [ends] at more
      unfold queued at more
      dsimp only at more
      rw [Function.update_of_ne same] at more
      exact steady.waits g more
  · intro p j live started recent
    rw [show t.cnt = s.cnt by rw [ends]; rfl]
    exact steady.current p j (begun p j live started) started recent
  · intro p j live started before
    rw [show t.cnt = s.cnt by rw [ends]; rfl]
    exact steady.zero p j (begun p j live started) started before
  · rw [show t.sum = s.sum by rw [ends]; rfl, show t.gTotal = s.gTotal by rw [ends]; rfl]
    exact steady.total
  · intro p j live waiting
    by_cases new : p = s.allocated
    · subst new
      refine ⟨mode.gate k, ?_⟩
      rw [ends, last]
      exact List.mem_append_right _ List.mem_cons_self
    · rw [ends] at live
      have old : s.jobs p = some j := (Function.update_of_ne new ..).symm.trans live
      obtain ⟨g, member⟩ := steady.placed p j old waiting
      refine ⟨g, ?_⟩
      rw [ends]
      by_cases same : g = mode.gate k
      · subst same
        rw [last]
        exact List.mem_append_left _ member
      · rw [queued_waitingOn_of_ne same]
        exact member
  · intro p before
    rw [ends]
    exact Nat.lt_succ_of_lt (steady.old p before)
  · intro p before j live
    have new : p ≠ s.allocated := Nat.ne_of_lt (steady.old p before)
    rw [ends] at live
    exact steady.read p before j ((Function.update_of_ne new ..).symm.trans live)

/-- A worker moves a job on. -/
theorem worker_steady {q : Tickets.Ring Nat} {running : List (Nat × Nat)} {unblocked : List Nat}
    (steady : Steady mode s stale)
    (ends : t = { s with q := q, running := running, unblocked := unblocked })
    (ordered : q.tail ≤ q.head) (flight : t.flight.Perm s.flight) : Steady mode t stale := by
  have sound : Sound mode t :=
    steady.sound.moved (by rw [ends]; exact ordered) flight (by rw [ends]) (by rw [ends])
      (by rw [ends])
  subst ends
  exact ⟨sound, steady.one, steady.busy, steady.flag, steady.waits, steady.current, steady.zero,
    steady.total, steady.placed, steady.old, steady.read⟩

/-- The write of a reply raises its counter by one and touches no other job's. -/
theorem ended_steady {p : Nat} {j : Job} (steady : Steady mode s stale)
    (finished : p ∈ s.unblocked) (live : s.jobs p = some j) (harmless : p ∈ stale → j.v = 0) :
    (∀ p', ¬ (s.ended mode p j).OnGate mode (mode.gate j.slot) p') ∧
    (s.ended mode p j).sum = s.sum + 1 ∧
    (∀ p' j', (s.ended mode p j).jobs p' = some j' → j'.begun = true →
      s.jobs p' = some j' ∧ (s.ended mode p j).cnt j'.slot = s.cnt j'.slot) := by
  obtain ⟨j₁, live₁, begun⟩ := steady.sound.unblocked finished
  rw [live, Option.some.injEq] at live₁
  subst live₁
  have own : s.OnGate mode (mode.gate j.slot) p := ⟨j, live, begun, rfl⟩
  have read : j.v = s.cnt j.slot := by
    by_cases before : p ∈ stale
    · rw [harmless before, steady.zero p j live begun before]
    · exact steady.current p j live begun before
  have cnt : (s.ended mode p j).cnt = Function.update s.cnt j.slot (s.cnt j.slot + 1) := by
    rw [← read]
    rfl
  refine ⟨?_, ?_, ?_⟩
  · intro p' on
    obtain ⟨differs, old⟩ := (ended_onGate _ p').mp on
    exact differs (steady.one _ p' p old own)
  · unfold sum
    rw [cnt]
    exact Counters.sum_raise (steady.sound.slots p j live) s.cnt 1
  · intro p' j' live' begun'
    obtain ⟨differs, old⟩ := ended_jobs live'
    have apart : j'.slot ≠ j.slot := by
      intro same
      exact differs (steady.one _ p' p ⟨j', old, begun', congrArg mode.gate same⟩ own)
    refine ⟨old, ?_⟩
    rw [cnt, Function.update_of_ne apart]

/-- A job that waits when another one ends still waits. -/
theorem ended_placed {p : Nat} {j : Job} (steady : Steady mode s stale) {p' : Nat} {j' : Job}
    (live' : (s.ended mode p j).jobs p' = some j') (waiting : j'.begun = false) :
    ∃ g, p' ∈ s.waitingOn g :=
  steady.placed p' j' (ended_jobs live').2 waiting

/-- A reply that leaves its gate idle. -/
theorem close_steady {p : Nat} {j : Job} (steady : Steady mode s stale)
    (finished : p ∈ s.unblocked) (live : s.jobs p = some j) (harmless : p ∈ stale → j.v = 0)
    (last : (s.pend (mode.gate j.slot)).head = (s.pend (mode.gate j.slot)).tail)
    (ends : t = (s.ended mode p j).closed (mode.gate j.slot)) : Steady mode t stale := by
  subst ends
  obtain ⟨free, total, others⟩ := ended_steady steady finished live harmless
  have ended := ended_sound (j := j) steady.sound finished
  have sound : Sound mode ((s.ended mode p j).closed (mode.gate j.slot)) :=
    ended.moved ended.ordered (List.Perm.refl _) rfl rfl rfl
  have onGate : ∀ g p', ((s.ended mode p j).closed (mode.gate j.slot)).OnGate mode g p' ↔
      p' ≠ p ∧ s.OnGate mode g p' := fun g p' => ended_onGate g p'
  refine ⟨sound, ?_, ?_, ?_, ?_, ?_, ?_, ?_, ?_, steady.old, ?_⟩
  · exact Holders.Single.leave steady.one onGate
  · refine Holders.Flagged.leave (p := p) steady.busy rfl ?_
      (fun g there => onGate_gate live there.1) ?_
    · intro p' there
      by_contra apart
      exact free p' ((ended_onGate _ p').mpr ⟨apart, there.1⟩)
    · intro g p'
      rw [onGate, and_assoc]
  · exact Holders.flags_update steady.flag (Or.inl rfl)
  · intro g more
    have same : g ≠ mode.gate j.slot := fun equal => more (equal ▸ last)
    unfold closed
    dsimp only
    rw [Function.update_of_ne same]
    exact steady.waits g more
  · intro p' j' live' begun' recent
    obtain ⟨old, cnt⟩ := others p' j' live' begun'
    exact (steady.current p' j' old begun' recent).trans cnt.symm
  · intro p' j' live' begun' before
    obtain ⟨old, cnt⟩ := others p' j' live' begun'
    exact cnt.trans (steady.zero p' j' old begun' before)
  · refine total.trans ?_
    rw [steady.total]
    rfl
  · exact fun p' j' live' waiting => ended_placed steady live' waiting
  · exact fun p' before j' live' => steady.read p' before j' (ended_jobs live').2

/-- A reply that begins the next job of its gate. -/
theorem pass_steady {p : Nat} {j : Job} (steady : Steady mode s stale)
    (finished : p ∈ s.unblocked) (live : s.jobs p = some j) (harmless : p ∈ stale → j.v = 0)
    (more : (s.pend (mode.gate j.slot)).head ≠ (s.pend (mode.gate j.slot)).tail)
    (queue : t.WithinQueue)
    (taken : ((s.ended mode p j).popped (mode.gate j.slot)).begin mode
      ((s.pend (mode.gate j.slot)).front jobPendN) = some t) : Steady mode t stale := by
  obtain ⟨pend, inflight, allocated, cnt, gTotal, _⟩ := begin_frame taken
  obtain ⟨free, total, others⟩ := ended_steady steady finished live harmless
  have ended := ended_sound (j := j) steady.sound finished
  obtain ⟨popped, j', front, idle, gate, unqueued⟩ := popped_sound ended more
    (t := (s.ended mode p j).popped (mode.gate j.slot)) rfl
  have next : ((s.ended mode p j).popped (mode.gate j.slot)).jobs
      ((s.pend (mode.gate j.slot)).front jobPendN) = some j' := front
  have sound := begin_sound popped next idle unqueued queue taken
  have here := begin_job next taken
  have onGate : ∀ g p', t.OnGate mode g p' ↔
      (p' = (s.pend (mode.gate j.slot)).front jobPendN ∧ g = mode.gate j.slot) ∨
        (p' ≠ p ∧ s.OnGate mode g p') := by
    intro g p'
    rw [begin_onGate next idle taken, gate]
    exact or_congr Iff.rfl (ended_onGate g p')
  have recent : (s.pend (mode.gate j.slot)).front jobPendN ∉ stale := by
    intro before
    have begun := steady.read _ before j' (ended_jobs next).2
    rw [begun] at idle
    cases idle
  have own : s.OnGate mode (mode.gate j.slot) p := by
    obtain ⟨j₁, live₁, begun⟩ := steady.sound.unblocked finished
    rw [live, Option.some.injEq] at live₁
    subst live₁
    exact ⟨j, live, begun, rfl⟩
  have kept : t.inflight = s.inflight := inflight
  have busy := steady.waits _ more
  refine ⟨sound, ?_, ?_, ?_, ?_, ?_, ?_, ?_, ?_, ?_, ?_⟩
  · exact Holders.Single.pass steady.one own onGate
  · rw [kept]
    have moves : ∀ g p', (t.OnGate mode g p' ∧ p' ∉ stale) ↔
        (p' = (s.pend (mode.gate j.slot)).front jobPendN ∧ g = mode.gate j.slot) ∨
          (p' ≠ p ∧ s.OnGate mode g p' ∧ p' ∉ stale) := by
      intro g p'
      rw [onGate, or_and_right]
      refine or_congr (and_iff_left_of_imp ?_) and_assoc
      rintro ⟨rfl, _⟩
      exact recent
    exact Holders.Flagged.pass steady.busy busy (fun g there => onGate_gate live there.1) moves
  · rw [kept]
    exact steady.flag
  · intro g waiting
    rw [kept]
    by_cases same : g = mode.gate j.slot
    · exact same ▸ busy
    · rw [pend] at waiting
      unfold DetModule.popped at waiting
      dsimp only at waiting
      rw [Function.update_of_ne same] at waiting
      exact steady.waits g waiting
  · intro p' j₁ live₁ begun₁ recent₁
    rw [cnt]
    by_cases same : p' = (s.pend (mode.gate j.slot)).front jobPendN
    · rw [same, here, Option.some.injEq] at live₁
      rw [← live₁]
      rfl
    · rw [begin_job_other next taken same] at live₁
      obtain ⟨old, counter⟩ := others p' j₁ live₁ begun₁
      exact (steady.current p' j₁ old begun₁ recent₁).trans counter.symm
  · intro p' j₁ live₁ begun₁ before₁
    rw [cnt]
    have same : p' ≠ (s.pend (mode.gate j.slot)).front jobPendN :=
      fun equal => recent (equal ▸ before₁)
    rw [begin_job_other next taken same] at live₁
    obtain ⟨old, counter⟩ := others p' j₁ live₁ begun₁
    exact counter.trans (steady.zero p' j₁ old begun₁ before₁)
  · rw [show t.sum = (s.ended mode p j).sum by unfold sum; rw [cnt]; rfl, total, steady.total,
      gTotal]
    rfl
  · intro p' j₁ live₁ waiting
    have same : p' ≠ (s.pend (mode.gate j.slot)).front jobPendN := by
      rintro rfl
      rw [here, Option.some.injEq] at live₁
      subst live₁
      cases waiting
    rw [begin_job_other next taken same] at live₁
    obtain ⟨g, member⟩ := ended_placed steady live₁ waiting
    refine ⟨g, ?_⟩
    rw [waitingOn_congr pend]
    by_cases gate₁ : g = mode.gate j.slot
    · subst gate₁
      rw [popped_waitingOn (steady.sound.pendOrdered _) more] at member
      exact (List.mem_cons.mp member).resolve_left same
    · exact (popped_waitingOn_of_ne (s := s) gate₁).symm ▸ member
  · intro p' before
    rw [allocated]
    exact steady.old p' before
  · intro p' before j₁ live₁
    have same : p' ≠ (s.pend (mode.gate j.slot)).front jobPendN :=
      fun equal => recent (equal ▸ before)
    rw [begin_job_other next taken same] at live₁
    exact steady.read p' before j₁ (ended_jobs live₁).2

theorem reset_waitingOn {g : Nat} (inside : g < kslots) : s.cmdReset.waitingOn g = [] := by
  unfold waitingOn cmdReset
  dsimp only
  rw [if_pos inside]
  rfl

theorem reset_waitingOn_outside {g : Nat} (outside : ¬ g < kslots) :
    s.cmdReset.waitingOn g = s.waitingOn g := by
  unfold waitingOn cmdReset
  dsimp only
  rw [if_neg outside]

theorem reset_sum (s : DetModule) : s.cmdReset.sum = 0 := by
  apply Finset.sum_eq_zero
  intro k member
  exact if_pos (Finset.mem_range.mp member)

/-- Only the gates of counters have jobs waiting. -/
theorem Sound.waits_inside (sound : Sound mode s) {g p : Nat} (member : p ∈ s.waitingOn g) :
    g < kslots := by
  obtain ⟨j, live, _, gate⟩ := sound.queued g p member
  exact gate ▸ gate_lt (sound.slots p j live)

/-- A reset while no job waits. -/
theorem reset_steady (steady : Steady mode s stale)
    (none_ : ∀ g < kslots, (s.pend g).head = (s.pend g).tail) :
    Steady mode s.cmdReset (s.flight ++ stale) := by
  have sound := steady.sound
  have smaller : ∀ g p, p ∈ s.cmdReset.waitingOn g → p ∈ s.waitingOn g := by
    intro g p member
    by_cases inside : g < kslots
    · rw [reset_waitingOn inside] at member
      cases member
    · rwa [reset_waitingOn_outside inside] at member
  have flying : ∀ p j, s.jobs p = some j → j.begun = true → p ∈ s.flight ++ stale :=
    fun p j live begun => List.mem_append_left _ ((sound.flying p).mpr ⟨j, live, begun⟩)
  have noGate : ∀ g, ¬ g < kslots → ∀ p, ¬ s.OnGate mode g p := by
    rintro g outside p ⟨j, live, _, rfl⟩
    exact outside (gate_lt (sound.slots p j live))
  refine ⟨⟨sound.ordered, ?_, sound.distinct, sound.flying, ?_, ?_, sound.fresh, sound.slots⟩,
    steady.one, ?_, ?_, ?_, ?_, ?_, reset_sum s, ?_, ?_, ?_⟩
  · intro g
    unfold cmdReset
    dsimp only
    split
    · exact Nat.le_refl _
    · exact sound.pendOrdered g
  · exact fun g p member => sound.queued g p (smaller g p member)
  · intro g
    by_cases inside : g < kslots
    · rw [reset_waitingOn inside]
      exact List.nodup_nil
    · rw [reset_waitingOn_outside inside]
      exact sound.queuedDistinct g
  · intro g
    have stale_ : ¬ ∃ p, s.OnGate mode g p ∧ p ∉ s.flight ++ stale := by
      rintro ⟨p, ⟨j, live, begun, _⟩, recent⟩
      exact recent (flying p j live begun)
    refine iff_of_false ?_ stale_
    unfold cmdReset
    dsimp only
    split
    · exact Nat.zero_ne_one
    · rename_i outside
      intro busy
      obtain ⟨p, on, _⟩ := (steady.busy g).mp busy
      exact noGate g outside p on
  · intro g
    unfold cmdReset
    dsimp only
    split
    · exact Or.inl rfl
    · exact steady.flag g
  · intro g more
    unfold cmdReset at more ⊢
    dsimp only at more ⊢
    split at more
    · exact absurd rfl more
    · rename_i outside
      rw [if_neg outside]
      exact steady.waits g more
  · intro p j live begun recent
    exact absurd (flying p j live begun) recent
  · intro p j live _ _
    exact if_pos (sound.slots p j live)
  · intro p j live waiting
    obtain ⟨g, member⟩ := steady.placed p j live waiting
    unfold waitingOn Tickets.Ring.contents at member
    rw [none_ g (sound.waits_inside member), Nat.sub_self] at member
    cases member
  · intro p member
    rcases List.mem_append.mp member with member | before
    · obtain ⟨j, live, _⟩ := (sound.flying p).mp member
      exact sound.known live
    · exact steady.old p before
  · intro p member j live
    rcases List.mem_append.mp member with member | before
    · obtain ⟨j', live', begun⟩ := (sound.flying p).mp member
      have same : j' = j := Option.some.inj (live'.symm.trans live)
      exact same ▸ begun
    · exact steady.read p before j live

/-- A job that waits is lost to a reset. -/
theorem reset_loses (steady : Steady mode s stale) {g : Nat}
    (more : (s.pend g).head ≠ (s.pend g).tail) : ¬ Resettable.Promises mode s.cmdReset := by
  intro promises
  have sound := steady.sound
  have first : (s.pend g).front jobPendN ∈ s.waitingOn g := by
    rw [popped_waitingOn (sound.pendOrdered g) more]
    exact List.mem_cons_self
  obtain ⟨j, live, idle, gate⟩ := sound.queued g _ first
  have known := sound.known live
  rcases promises.placed _ known with ⟨g', member⟩ | member | freed
  · by_cases inside' : g' < kslots
    · rw [reset_waitingOn inside'] at member
      cases member
    · rw [reset_waitingOn_outside inside'] at member
      exact inside' (sound.waits_inside member)
  · obtain ⟨j', live', begun⟩ := (sound.flying _).mp member
    rw [live, Option.some.injEq] at live'
    rw [live', begun] at idle
    cases idle
  · have gone : s.jobs ((s.pend g).front jobPendN) = none := freed
    rw [live] at gone
    cases gone

/-- A job that is stored into a full ring displaces one that is nowhere else. -/
theorem queue_loses {k : Nat} (steady : Steady mode s stale)
    (full : (s.pend (mode.gate k)).tail + jobPendN ≤ (s.pend (mode.gate k)).head) :
    ¬ Resettable.Promises mode (s.queued mode k) := by
  intro promises
  have sound := steady.sound
  have ordered := sound.pendOrdered (mode.gate k)
  have positive : 0 < jobPendN := by decide
  have shared : (s.pend (mode.gate k)).slots
      ((s.pend (mode.gate k)).head % jobPendN) ∈ s.waitingOn (mode.gate k) := by
    apply List.mem_map.mpr
    refine ⟨(s.pend (mode.gate k)).head - jobPendN, ?_, ?_⟩
    · rw [List.mem_range'_1]
      omega
    · rw [← Nat.mod_eq_sub_mod (by omega)]
  obtain ⟨j, live, idle, gate⟩ := sound.queued _ _ shared
  have old : (s.pend (mode.gate k)).slots ((s.pend (mode.gate k)).head % jobPendN) ≠
      s.allocated := by
    intro same
    exact alloc_unqueued sound (mode.gate k) (same ▸ shared)
  have unfit : ¬ (s.pend (mode.gate k)).Fits jobPendN s.allocated := by
    rintro (below | same)
    · omega
    · exact old same
  have known := sound.known live
  have fewer := Tickets.Ring.push_loses positive ordered unfit
  have once := List.nodup_iff_count_le_one.mp (sound.queuedDistinct (mode.gate k))
    ((s.pend (mode.gate k)).slots ((s.pend (mode.gate k)).head % jobPendN))
  rcases promises.placed _ (Nat.lt_succ_of_lt known) with ⟨g, member⟩ | member | freed
  · by_cases same : g = mode.gate k
    · subst same
      unfold waitingOn queued at member
      dsimp only at member
      rw [Function.update_self] at member
      have positive := List.count_pos_iff.mpr member
      unfold waitingOn at once
      omega
    · rw [queued_waitingOn_of_ne same] at member
      obtain ⟨j', live', _, gate'⟩ := sound.queued g _ member
      rw [live, Option.some.injEq] at live'
      exact same (by rw [← gate', ← live', gate])
  · obtain ⟨j', live', begun⟩ := (sound.flying _).mp member
    rw [live, Option.some.injEq] at live'
    rw [live', begun] at idle
    cases idle
  · have gone := (Function.update_of_ne old ..).symm.trans freed
    rw [live] at gone
    cases gone

/-- A job begun beside one of its gate that a reset has hidden. -/
theorem start_doubles {k p : Nat} (steady : Steady mode s stale) {j : Job}
    (flying : p ∈ s.flight) (live : s.jobs p = some j) (gate : mode.gate j.slot = mode.gate k)
    (taken : (s.opened mode k).begin mode s.allocated = some t) :
    ¬ Resettable.Promises mode t := by
  intro promises
  have fresh : (s.opened mode k).jobs s.allocated = some ⟨k, 0, ⟨0, false⟩, false⟩ :=
    Function.update_self ..
  obtain ⟨j', live', begun⟩ := (steady.sound.flying p).mp flying
  rw [live, Option.some.injEq] at live'
  subst live'
  have new : p ≠ s.allocated := Nat.ne_of_lt (steady.sound.known live)
  have here := begin_onGate fresh rfl taken
  have first : t.OnGate mode (mode.gate k) p :=
    (here _ p).mpr (Or.inr ⟨j, (Function.update_of_ne new ..).trans live, begun, gate⟩)
  have second : t.OnGate mode (mode.gate k) s.allocated := (here _ _).mpr (Or.inl ⟨rfl, rfl⟩)
  exact new (promises.one _ p s.allocated first second)

/-- A job that has read a counter before it was reset writes too much. -/
theorem stale_miscounts {p : Nat} {j : Job} (steady : Steady mode s stale)
    (finished : p ∈ s.unblocked) (live : s.jobs p = some j) (before : p ∈ stale) (read : j.v ≠ 0)
    (cnt : t.cnt = (s.ended mode p j).cnt) (gTotal : t.gTotal = s.gTotal + 1) :
    ¬ Resettable.Promises mode t := by
  intro promises
  obtain ⟨j₁, live₁, begun⟩ := steady.sound.unblocked finished
  rw [live, Option.some.injEq] at live₁
  subst live₁
  have zero := steady.zero p j live begun before
  have raised := Counters.sum_raise (steady.sound.slots p j live) s.cnt (j.v + 1)
  rw [zero, Nat.zero_add] at raised
  have total := promises.total
  have sum : t.sum = s.sum + (j.v + 1) := by
    unfold sum
    rw [cnt]
    exact raised
  rw [sum, gTotal, steady.total] at total
  omega

end DetModule

namespace Resettable

open DetModule (Steady Turned)

variable {mode : RmwMode} {s t : Resettable}

theorem step_steady {nw : Nat} {a : ResetAct} (protects : mode ≠ .naive)
    (steady : Steady mode s.m s.stale) (harmless : s.Harmless mode a)
    (taken : s.step mode nw a = some t) : Steady mode t.m t.stale := by
  cases a with
  | reset =>
    rw [step, Option.some.injEq] at taken
    subst taken
    exact DetModule.reset_steady steady harmless
  | det a =>
    obtain ⟨m, moved, rfl⟩ := Option.map_eq_some_iff.mp taken
    have turned := DetModule.step_turned protects steady.sound moved
    have queue := turned.withinQueue steady.flight_short
    cases turned with
    | arity argv act wrong ends => exact ends ▸ steady
    | start name key act idle begins =>
      subst act
      refine DetModule.start_steady steady (slotOf_lt key) idle ?_ queue begins
      rintro p ⟨j, live, begun, gate⟩
      exact harmless.1 idle p ((steady.sound.flying p).mpr ⟨j, live, begun⟩) j live gate
    | queue name key act busy stored ends =>
      subst act
      exact DetModule.queue_steady steady (slotOf_lt key) busy (harmless.2 busy) stored ends
    | worker q running unblocked command reply ends ordered flight =>
      exact DetModule.worker_steady steady ends ordered flight
    | pass p j act finished live more begins =>
      subst act
      exact DetModule.pass_steady steady finished live (fun before => harmless before j live)
        more queue begins
    | close p j act finished live last ends =>
      subst act
      exact DetModule.close_steady steady finished live (fun before => harmless before j live)
        last ends

theorem harm_breaks {nw : Nat} {a : ResetAct} (protects : mode ≠ .naive)
    (steady : Steady mode s.m s.stale) (harms : ¬ s.Harmless mode a)
    (taken : s.step mode nw a = some t) : ¬ Promises mode t.m := by
  cases a with
  | reset =>
    rw [step, Option.some.injEq] at taken
    subst taken
    unfold Harmless at harms
    push Not at harms
    obtain ⟨g, _, more⟩ := harms
    exact DetModule.reset_loses steady more
  | det a =>
    obtain ⟨m, moved, rfl⟩ := Option.map_eq_some_iff.mp taken
    cases DetModule.step_turned protects steady.sound moved with
    | arity argv act wrong ends =>
      subst act
      exfalso
      match argv, wrong with
      | [], _ => exact harms trivial
      | [_], _ => exact harms trivial
      | [_, _], wrong => exact wrong rfl
      | _ :: _ :: _ :: _, _ => exact harms trivial
    | start name key act idle begins =>
      subst act
      have occupied : ∃ p ∈ s.m.flight, ∃ j, s.m.jobs p = some j ∧
          mode.gate j.slot = mode.gate (slotOf key) := by
        by_contra free
        push Not at free
        exact harms ⟨fun _ => free, fun busy => absurd idle busy⟩
      obtain ⟨p, flying, j, live, gate⟩ := occupied
      exact DetModule.start_doubles steady flying live gate begins
    | queue name key act busy stored ends =>
      subst act
      have full : (s.m.pend (mode.gate (slotOf key))).tail + jobPendN ≤
          (s.m.pend (mode.gate (slotOf key))).head := by
        by_contra room
        exact harms ⟨fun idle => absurd idle busy, fun _ => Nat.lt_of_not_le room⟩
      rw [ends]
      exact DetModule.queue_loses steady full
    | worker q running unblocked command reply ends ordered flight =>
      cases a with
      | rmw argv => exact absurd rfl (command argv)
      | reply p => exact absurd rfl (reply p)
      | take | unblock => exact absurd trivial harms
    | pass p j act finished live more begins =>
      subst act
      unfold Harmless at harms
      push Not at harms
      obtain ⟨before, j', live', read⟩ := harms
      rw [live, Option.some.injEq] at live'
      subst live'
      obtain ⟨_, _, _, cnt, gTotal, _⟩ := DetModule.begin_frame begins
      exact DetModule.stale_miscounts steady finished live before read cnt gTotal
    | close p j act finished live last ends =>
      subst act
      unfold Harmless at harms
      push Not at harms
      obtain ⟨before, j', live', read⟩ := harms
      rw [live, Option.some.injEq] at live'
      subst live'
      exact DetModule.stale_miscounts steady finished live before read (by rw [ends]; rfl)
        (by rw [ends]; rfl)

/-- In the modes `detect` and `lock` the counters, the gates and the rings keep what
they promise across resets if and only if every step is harmless. -/
theorem promises_iff_harmless (mode : RmwMode) (protects : mode ≠ .naive) (nw : Nat)
    (acts : List ResetAct) (s : Resettable)
    (ran : Machine.run (step mode nw) (start mode) acts = some s) :
    Machine.Always (step mode nw) (fun s => Promises mode s.m) (start mode) acts ↔
      Machine.Guarded (step mode nw) (Harmless mode) (start mode) acts := by
  apply Machine.always_iff_guarded (H := fun _ _ => True)
    (I := fun s => Steady mode s.m s.stale)
  · exact fun s steady => steady.promises
  · exact fun s a t steady _ harmless taken => step_steady protects steady harmless taken
  · exact fun s a t steady _ harms taken => harm_breaks protects steady harms taken
  · exact DetModule.onLoad_steady mode
  · exact Machine.guarded_of_mem (fun _ _ _ => trivial) _
  · exact ran

/-- A reset while a job that has read 0 is on its way, and one on an idle server. -/
def quietResets : List ResetAct :=
  let rmw (key : UInt8) : ResetAct := .det (.rmw [[], [key]])
  [rmw 1, rmw 2, .det (.take 0), .reset, .det (.unblock 0 0), .det (.reply 0), rmw 1,
    .det (.take 0), .det (.unblock 0 1), .det (.reply 1), .det (.take 0), .det (.unblock 0 2),
    .det (.reply 2), .reset, rmw 1]

theorem quietResets_keep : ∃ s,
    Machine.run (step .detect 1) (start .detect) quietResets = some s ∧
      Machine.Always (step .detect 1) (fun s => Promises .detect s.m) (start .detect) quietResets :=
  ⟨_, rfl, (promises_iff_harmless .detect (by decide) 1 quietResets _ rfl).mpr
    (by decide +kernel)⟩

/-- A reset between two commands on one key, the first of which is at the accelerator. -/
def resetInFlight : List ResetAct :=
  let rmw : ResetAct := .det (.rmw [[], [1]])
  [rmw, .det (.take 0), .reset, rmw]

/-- Two jobs of one gate are between their read and their write. -/
theorem resetInFlight_doubles : ∃ s,
    Machine.run (step .detect 1) (start .detect) resetInFlight = some s ∧
      ¬ Promises .detect s.m := by
  refine ⟨_, rfl, ?_⟩
  intro promises
  have both : (0 : Nat) = 1 := by
    apply promises.one (slotOf [1]) 0 1
    · exact ⟨_, rfl, rfl, rfl⟩
    · exact ⟨_, rfl, rfl, rfl⟩
  cases both

end Resettable

end TransparentOffload
