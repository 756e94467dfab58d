import TransparentOffload.Lib.History
import TransparentOffload.RmwTurns

set_option autoImplicit false

/- The life of each `DET.RMW` in the modes `detect` and `lock`: as long as no ring of
waiting jobs is full when a job is stored into it, every command is begun once, in
its gate's order, and replied to once. -/
namespace TransparentOffload.DetModule

/-- A job is allocated for a gate, begun on it, or replied to and freed. -/
inductive JobEvent
  | accept (g p : Nat)
  | begin (g p : Nat)
  | reply (p : Nat)
  deriving DecidableEq, Repr

/-- The events of one step, in their order. -/
def jobEvents (mode : RmwMode) (s : DetModule) : DetAct → List JobEvent
  | .rmw [_, key] =>
    .accept (mode.gate (slotOf key)) s.allocated ::
      if s.inflight (mode.gate (slotOf key)) = 0
        then [.begin (mode.gate (slotOf key)) s.allocated] else []
  | .reply p =>
    match s.jobs p with
    | none => []
    | some j =>
      .reply p ::
        if (s.pend (mode.gate j.slot)).head ≠ (s.pend (mode.gate j.slot)).tail
          then [.begin (mode.gate j.slot) ((s.pend (mode.gate j.slot)).front jobPendN)] else []
  | _ => []

/-- The module with the history of its jobs, the newest event first. -/
abbrev notedStep (mode : RmwMode) (nw : Nat) :
    DetModule × List JobEvent → DetAct → Option (DetModule × List JobEvent) :=
  Machine.noted (step mode nw) (jobEvents mode)

/-- The jobs a history tells of, in the order of its events. -/
def told (pick : JobEvent → Option Nat) (h : List JobEvent) : List Nat := (h.filterMap pick).reverse

def JobEvent.accepted : JobEvent → Option Nat
  | .accept _ p => some p
  | _ => none

def JobEvent.acceptedOn (g : Nat) : JobEvent → Option Nat
  | .accept g' p => if g' = g then some p else none
  | _ => none

def JobEvent.begun : JobEvent → Option Nat
  | .begin _ p => some p
  | _ => none

def JobEvent.begunOn (g : Nat) : JobEvent → Option Nat
  | .begin g' p => if g' = g then some p else none
  | _ => none

def JobEvent.replied : JobEvent → Option Nat
  | .reply p => some p
  | _ => none

/-- Every accepted job has its turn: the jobs of a gate are begun in the order of their
arrival, each accepted job once; the begun ones are replied to, each once, or still on
their way; nothing that is still to be touched is freed; and whoever waits, waits for a
job that is on its way. -/
structure ExactlyOnce (mode : RmwMode) (own : DetModule × List JobEvent) : Prop where
  inOrder : ∀ g, told (JobEvent.acceptedOn g) own.2 =
    told (JobEvent.begunOn g) own.2 ++ own.1.waitingOn g
  distinct : (told JobEvent.accepted own.2).Nodup
  replies : (told JobEvent.begun own.2).Perm (told JobEvent.replied own.2 ++ own.1.flight)
  live : ∀ p, (p ∈ own.1.flight ∨ ∃ g, p ∈ own.1.waitingOn g) → own.1.jobs p ≠ none
  awaited : ∀ g, own.1.waitingOn g ≠ [] → ∃ p ∈ own.1.flight, own.1.OnGate mode g p

/-- A command that has to wait finds a free place in the ring of its gate. -/
def RoomToWait (mode : RmwMode) (s : DetModule) : DetAct → Prop
  | .rmw [_, key] =>
    s.inflight (mode.gate (slotOf key)) ≠ 0 →
      (s.pend (mode.gate (slotOf key))).head < (s.pend (mode.gate (slotOf key))).tail + jobPendN
  | _ => True

instance (mode : RmwMode) (s : DetModule) : ∀ a, Decidable (RoomToWait mode s a)
  | .rmw [_, _] => inferInstanceAs (Decidable (_ → _))
  | .rmw [] | .rmw [_] | .rmw (_ :: _ :: _ :: _) | .take _ | .unblock _ _ | .reply _ =>
    isTrue trivial

variable {mode : RmwMode} {s t : DetModule} {h : List JobEvent}

theorem told_cons (pick : JobEvent → Option Nat) (e : JobEvent) (h : List JobEvent) :
    told pick (e :: h) = told pick h ++ (pick e).toList := by
  unfold told
  rw [List.filterMap_cons]
  cases pick e with
  | none => simp
  | some p => simp

@[simp] theorem told_nil (pick : JobEvent → Option Nat) : told pick [] = [] := rfl

/-- What holds of the module and the history of its jobs. -/
structure Recorded (mode : RmwMode) (s : DetModule) (h : List JobEvent) : Prop where
  gated : Gated mode none s
  gates : s.WithinGates
  waits : ∀ g, s.waitingOn g ≠ [] → s.inflight g = 1
  inOrder : ∀ g, told (JobEvent.acceptedOn g) h = told (JobEvent.begunOn g) h ++ s.waitingOn g
  distinct : (told JobEvent.accepted h).Nodup
  below : ∀ p ∈ told JobEvent.accepted h, p < s.allocated
  replies : (told JobEvent.begun h).Perm (told JobEvent.replied h ++ s.flight)

theorem onLoad_recorded (mode : RmwMode) : Recorded mode (onLoad mode) [] := by
  refine ⟨onLoad_gated mode, fun _ _ => Nat.zero_le _, ?_, ?_, List.nodup_nil, ?_, ?_⟩
  all_goals simp [onLoad, waitingOn, flight, Tickets.Ring.contents]

theorem Recorded.exactlyOnce (recorded : Recorded mode s h) : ExactlyOnce mode (s, h) := by
  have sound := recorded.gated.sound
  refine ⟨recorded.inOrder, recorded.distinct, recorded.replies, ?_, ?_⟩
  · rintro p (flying | ⟨g, waiting⟩)
    · obtain ⟨j, live, _⟩ := (sound.flying p).mp flying
      rw [live]
      nofun
    · obtain ⟨j, live, _⟩ := sound.queued g p waiting
      rw [live]
      nofun
  · intro g waiting
    rcases (recorded.gated.busy g).mp (recorded.waits g waiting) with impossible | ⟨p, on⟩
    · cases impossible
    · obtain ⟨j, live, begun, gate⟩ := on
      exact ⟨p, (sound.flying p).mpr ⟨j, live, begun⟩, j, live, begun, gate⟩

/-- The room in the work queue that `begin` needs is always there. -/
theorem Gated.queueRoom (gated : Gated mode none s) : s.q.head < s.q.tail + workQn := by
  have short := queue_short gated.flight_short
  have ordered := gated.sound.ordered
  unfold kslots at short
  unfold workQn
  omega

/-- A command that finds room keeps every ring within its bound. -/
theorem Turned.withinGates {a : DetAct} (gates : s.WithinGates)
    (room : RoomToWait mode s a) (turned : Turned mode s t a) : t.WithinGates := by
  have kept : t.pend = s.pend → t.WithinGates := by
    intro same
    unfold WithinGates
    rw [same]
    exact gates
  cases turned with
  | arity argv act wrong ends => exact kept (by rw [ends])
  | start name key act idle taken => exact kept (begin_frame taken).1
  | queue name key act busy stored ends =>
    subst act
    have free := room busy
    rw [ends]
    intro g inside
    unfold queued
    dsimp only
    by_cases same : g = mode.gate (slotOf key)
    · subst same
      rw [Function.update_self, Tickets.Ring.push_head, Tickets.Ring.push_tail]
      omega
    · rw [Function.update_of_ne same]
      exact gates g inside
  | worker q running unblocked command reply ends => exact kept (by rw [ends])
  | pass p j act finished live more taken =>
    intro g inside
    rw [(begin_frame taken).1]
    unfold popped
    dsimp only
    have bound := gates g inside
    by_cases same : g = mode.gate j.slot
    · rw [← same, Function.update_self, Tickets.Ring.advance_head, Tickets.Ring.advance_tail]
      exact Nat.le_trans (Nat.sub_le_sub_left (Nat.le_succ _) _) bound
    · rw [Function.update_of_ne same]
      exact bound
  | close p j act finished live last ends => exact kept (by rw [ends]; rfl)

/-- A fresh job that is begun at once is the whole backlog of its gate. -/
theorem start_recorded {key : Bytes} (recorded : Recorded mode s h) (gated : Gated mode none t)
    (gates : t.WithinGates) (idle : s.inflight (mode.gate (slotOf key)) = 0)
    (taken : (s.opened mode (slotOf key)).begin mode s.allocated = some t) :
    Recorded mode t (.begin (mode.gate (slotOf key)) s.allocated ::
      .accept (mode.gate (slotOf key)) s.allocated :: h) := by
  obtain ⟨pend, inflight, allocated, _⟩ := begin_frame taken
  have flight : t.flight.Perm (s.allocated :: s.flight) :=
    begin_flight (s := s.opened mode (slotOf key)) recorded.gated.sound.ordered
      recorded.gated.queueRoom taken
  have waiting : ∀ g, t.waitingOn g = s.waitingOn g := waitingOn_congr pend
  have none : s.waitingOn (mode.gate (slotOf key)) = [] := by
    by_contra waits
    have busy := recorded.waits _ waits
    omega
  refine ⟨gated, gates, ?_, ?_, ?_, ?_, ?_⟩
  · intro g waits
    rw [waiting] at waits
    have busy := recorded.waits g waits
    rw [inflight]
    unfold opened
    dsimp only
    by_cases same : g = mode.gate (slotOf key)
    · rw [same, Function.update_self]
    · rw [Function.update_of_ne same]
      exact busy
  · intro g
    have order := recorded.inOrder g
    rw [waiting]
    simp only [told_cons, JobEvent.acceptedOn, JobEvent.begunOn]
    by_cases same : mode.gate (slotOf key) = g
    · subst same
      rw [none, List.append_nil] at order
      simp [none, order]
    · simp [same, order]
  · have fresh : s.allocated ∉ told JobEvent.accepted h := fun old =>
      Nat.lt_irrefl _ (recorded.below _ old)
    simp only [told_cons, JobEvent.accepted, Option.toList_some, Option.toList_none,
      List.append_nil]
    exact recorded.distinct.append (List.nodup_singleton _) (by simpa using fresh)
  · intro p member
    simp only [told_cons, JobEvent.accepted, Option.toList_some, Option.toList_none,
      List.append_nil, List.mem_append, List.mem_singleton] at member
    rw [allocated]
    change p < s.allocated + 1
    rcases member with old | rfl
    · exact Nat.lt_succ_of_lt (recorded.below p old)
    · exact Nat.lt_succ_self _
  · simp only [told_cons, JobEvent.begun, JobEvent.replied, Option.toList_some,
      Option.toList_none, List.append_nil]
    refine (recorded.replies.append_right _).trans ?_
    rw [List.append_assoc]
    apply List.Perm.append_left
    exact (List.perm_append_singleton _ _).trans flight.symm

/-- A job that has to wait is the last one of its gate. -/
theorem queue_recorded {key : Bytes} (recorded : Recorded mode s h) (gated : Gated mode none t)
    (gates : t.WithinGates) (busy : s.inflight (mode.gate (slotOf key)) ≠ 0)
    (room : (s.pend (mode.gate (slotOf key))).head <
      (s.pend (mode.gate (slotOf key))).tail + jobPendN)
    (ends : t = s.queued mode (slotOf key)) :
    Recorded mode t (.accept (mode.gate (slotOf key)) s.allocated :: h) := by
  subst ends
  have flag : s.inflight (mode.gate (slotOf key)) = 1 :=
    (recorded.gated.flag _).resolve_left busy
  have here := queued_waitingOn (recorded.gated.sound.pendOrdered _) room
  refine ⟨gated, gates, ?_, ?_, ?_, ?_, ?_⟩
  · intro g waits
    by_cases same : g = mode.gate (slotOf key)
    · exact same ▸ flag
    · rw [queued_waitingOn_of_ne same] at waits
      exact recorded.waits g waits
  · intro g
    have order := recorded.inOrder g
    simp only [told_cons, JobEvent.acceptedOn, JobEvent.begunOn, Option.toList_none,
      List.append_nil]
    by_cases same : mode.gate (slotOf key) = g
    · subst same
      rw [if_pos rfl, here, order, Option.toList_some, List.append_assoc]
    · rw [if_neg same, queued_waitingOn_of_ne (Ne.symm same), order, Option.toList_none,
        List.append_nil]
  · have fresh : s.allocated ∉ told JobEvent.accepted h := fun old =>
      Nat.lt_irrefl _ (recorded.below _ old)
    simp only [told_cons, JobEvent.accepted, Option.toList_some]
    exact recorded.distinct.append (List.nodup_singleton _) (by simpa using fresh)
  · intro p member
    simp only [told_cons, JobEvent.accepted, Option.toList_some, List.mem_append,
      List.mem_singleton] at member
    change p < s.allocated + 1
    rcases member with old | rfl
    · exact Nat.lt_succ_of_lt (recorded.below p old)
    · exact Nat.lt_succ_self _
  · simp only [told_cons, JobEvent.begun, JobEvent.replied, Option.toList_none, List.append_nil]
    exact recorded.replies

/-- A reply begins the job that has waited longest. -/
theorem pass_recorded {p : Nat} {j : Job} (recorded : Recorded mode s h)
    (gated : Gated mode none t) (gates : t.WithinGates) (finished : p ∈ s.unblocked)
    (more : (s.pend (mode.gate j.slot)).head ≠ (s.pend (mode.gate j.slot)).tail)
    (taken : ((s.ended mode p j).popped (mode.gate j.slot)).begin mode
      ((s.pend (mode.gate j.slot)).front jobPendN) = some t) :
    Recorded mode t (.begin (mode.gate j.slot) ((s.pend (mode.gate j.slot)).front jobPendN) ::
      .reply p :: h) := by
  obtain ⟨pend, inflight, allocated, _⟩ := begin_frame taken
  have waiting : ∀ g, t.waitingOn g = (s.popped (mode.gate j.slot)).waitingOn g :=
    waitingOn_congr pend
  have here := popped_waitingOn (recorded.gated.sound.pendOrdered _) more
  have submitted : t.flight.Perm
      ((s.pend (mode.gate j.slot)).front jobPendN :: (s.ended mode p j).flight) :=
    begin_flight (s := (s.ended mode p j).popped (mode.gate j.slot))
      recorded.gated.sound.ordered recorded.gated.queueRoom taken
  have left : s.flight.Perm (p :: (s.ended mode p j).flight) := ended_flight finished
  have busy : s.inflight (mode.gate j.slot) = 1 := by
    apply recorded.waits
    rw [here]
    nofun
  refine ⟨gated, gates, ?_, ?_, ?_, ?_, ?_⟩
  · intro g waits
    rw [inflight]
    by_cases same : g = mode.gate j.slot
    · exact same ▸ busy
    · rw [waiting, popped_waitingOn_of_ne same] at waits
      exact recorded.waits g waits
  · intro g
    have order := recorded.inOrder g
    simp only [told_cons, JobEvent.acceptedOn, JobEvent.begunOn, Option.toList_none,
      List.append_nil]
    rw [waiting]
    by_cases same : mode.gate j.slot = g
    · subst same
      rw [order, here, if_pos rfl, Option.toList_some, List.append_assoc, List.singleton_append]
    · rw [if_neg same, popped_waitingOn_of_ne (Ne.symm same), order, Option.toList_none,
        List.append_nil]
  · simp only [told_cons, JobEvent.accepted, Option.toList_none, List.append_nil]
    exact recorded.distinct
  · intro p' member
    simp only [told_cons, JobEvent.accepted, Option.toList_none, List.append_nil] at member
    rw [allocated]
    exact recorded.below p' member
  · simp only [told_cons, JobEvent.begun, JobEvent.replied, Option.toList_some,
      Option.toList_none, List.append_nil]
    rw [List.perm_iff_count]
    intro x
    have before := recorded.replies.count_eq x
    have after := submitted.count_eq x
    have without := left.count_eq x
    simp only [List.count_append, List.count_cons, List.count_nil] at before after without ⊢
    omega

/-- A reply on whose gate nobody waits. -/
theorem close_recorded {p : Nat} {j : Job} (recorded : Recorded mode s h)
    (gated : Gated mode none t) (gates : t.WithinGates) (finished : p ∈ s.unblocked)
    (last : (s.pend (mode.gate j.slot)).head = (s.pend (mode.gate j.slot)).tail)
    (ends : t = (s.ended mode p j).closed (mode.gate j.slot)) :
    Recorded mode t (.reply p :: h) := by
  subst ends
  have left : s.flight.Perm (p :: (s.ended mode p j).flight) := ended_flight finished
  have none : s.waitingOn (mode.gate j.slot) = [] := by
    unfold waitingOn Tickets.Ring.contents
    rw [last, Nat.sub_self]
    rfl
  refine ⟨gated, gates, ?_, ?_, ?_, ?_, ?_⟩
  · intro g waits
    change s.waitingOn g ≠ [] at waits
    have apart : g ≠ mode.gate j.slot := by
      rintro rfl
      exact waits none
    unfold closed
    dsimp only
    rw [Function.update_of_ne apart]
    exact recorded.waits g waits
  · intro g
    simp only [told_cons, JobEvent.acceptedOn, JobEvent.begunOn, Option.toList_none,
      List.append_nil]
    exact recorded.inOrder g
  · simp only [told_cons, JobEvent.accepted, Option.toList_none, List.append_nil]
    exact recorded.distinct
  · intro p' member
    simp only [told_cons, JobEvent.accepted, Option.toList_none, List.append_nil] at member
    exact recorded.below p' member
  · simp only [told_cons, JobEvent.begun, JobEvent.replied, Option.toList_some,
      Option.toList_none, List.append_nil]
    refine recorded.replies.trans ?_
    rw [List.append_assoc]
    exact left.append_left _

theorem jobEvents_arity {argv : List Bytes} (wrong : argv.length ≠ 2) :
    jobEvents mode s (.rmw argv) = [] := by
  match argv, wrong with
  | [], _ => rfl
  | [_], _ => rfl
  | [_, _], wrong => exact absurd rfl wrong
  | _ :: _ :: _ :: _, _ => rfl

theorem jobEvents_worker {a : DetAct} (command : ∀ argv, a ≠ .rmw argv)
    (reply : ∀ p, a ≠ .reply p) : jobEvents mode s a = [] := by
  cases a with
  | rmw argv => exact absurd rfl (command argv)
  | reply p => exact absurd rfl (reply p)
  | take | unblock => rfl

theorem jobEvents_start {name key : Bytes} (idle : s.inflight (mode.gate (slotOf key)) = 0) :
    jobEvents mode s (.rmw [name, key]) =
      [.accept (mode.gate (slotOf key)) s.allocated,
        .begin (mode.gate (slotOf key)) s.allocated] := by
  rw [jobEvents, if_pos idle]

theorem jobEvents_queue {name key : Bytes} (busy : s.inflight (mode.gate (slotOf key)) ≠ 0) :
    jobEvents mode s (.rmw [name, key]) = [.accept (mode.gate (slotOf key)) s.allocated] := by
  rw [jobEvents, if_neg busy]

theorem jobEvents_pass {p : Nat} {j : Job} (live : s.jobs p = some j)
    (more : (s.pend (mode.gate j.slot)).head ≠ (s.pend (mode.gate j.slot)).tail) :
    jobEvents mode s (.reply p) = [.reply p,
      .begin (mode.gate j.slot) ((s.pend (mode.gate j.slot)).front jobPendN)] := by
  unfold jobEvents
  dsimp only
  rw [live]
  dsimp only
  rw [if_pos more]

theorem jobEvents_close {p : Nat} {j : Job} (live : s.jobs p = some j)
    (last : (s.pend (mode.gate j.slot)).head = (s.pend (mode.gate j.slot)).tail) :
    jobEvents mode s (.reply p) = [.reply p] := by
  unfold jobEvents
  dsimp only
  rw [live]
  dsimp only
  rw [if_neg (not_not.mpr last)]

theorem step_recorded {nw : Nat} {a : DetAct} (protects : mode ≠ .naive)
    (recorded : Recorded mode s h) (room : RoomToWait mode s a)
    (taken : s.step mode nw a = some t) :
    Recorded mode t ((jobEvents mode s a).reverse ++ h) := by
  have turned := step_turned protects recorded.gated.sound taken
  have queue := turned.withinQueue recorded.gated.flight_short
  have gates := turned.withinGates recorded.gates room
  have gated := step_gated protects recorded.gated queue gates taken
  cases turned with
  | arity argv act wrong ends =>
    subst act ends
    rw [jobEvents_arity wrong]
    exact recorded
  | start name key act idle begins =>
    subst act
    rw [jobEvents_start idle]
    exact start_recorded recorded gated gates idle begins
  | queue name key act busy stored ends =>
    subst act
    rw [jobEvents_queue busy]
    exact queue_recorded recorded gated gates busy (room busy) ends
  | worker q running unblocked command reply ends ordered flight =>
    rw [jobEvents_worker command reply]
    subst ends
    exact ⟨gated, gates, recorded.waits, recorded.inOrder, recorded.distinct, recorded.below,
      recorded.replies.trans (flight.symm.append_left _)⟩
  | pass p j act finished live more begins =>
    subst act
    rw [jobEvents_pass live more]
    exact pass_recorded recorded gated gates finished more begins
  | close p j act finished live last ends =>
    subst act
    rw [jobEvents_close live last]
    exact close_recorded recorded gated gates finished last ends

/-- A job stored into a full ring takes the place of one that was to be begun. -/
theorem overrun_loses_turn {nw : Nat} {a : DetAct} (protects : mode ≠ .naive)
    (recorded : Recorded mode s h) (full : ¬ RoomToWait mode s a)
    (taken : s.step mode nw a = some t) :
    ¬ ExactlyOnce mode (t, (jobEvents mode s a).reverse ++ h) := by
  intro once
  have other : ∀ {p : Prop}, RoomToWait mode s a → p := fun room => absurd room full
  cases step_turned protects recorded.gated.sound taken with
  | arity argv act wrong ends =>
    subst act
    apply other
    match argv, wrong with
    | [], _ => trivial
    | [_], _ => trivial
    | [_, _], wrong => exact absurd rfl wrong
    | _ :: _ :: _ :: _, _ => trivial
  | start name key act idle taken =>
    subst act
    exact other fun busy => absurd idle busy
  | queue name key act busy stored ends =>
    subst act ends
    have order := once.inOrder (mode.gate (slotOf key))
    rw [jobEvents_queue busy] at order
    simp only [List.reverse_singleton, List.singleton_append, told_cons, JobEvent.acceptedOn,
      JobEvent.begunOn, if_true, Option.toList_some, Option.toList_none, List.append_nil] at order
    rw [recorded.inOrder, List.append_assoc, List.append_cancel_left_eq] at order
    -- the ring would have to hold all it held before, and the new job
    have unfit : ¬ (s.pend (mode.gate (slotOf key))).Fits jobPendN s.allocated := by
      rintro (below | same)
      · exact full fun _ => below
      · have fresh := alloc_unqueued recorded.gated.sound (mode.gate (slotOf key))
        apply fresh
        have ordered := recorded.gated.sound.pendOrdered (mode.gate (slotOf key))
        rw [← same]
        unfold RoomToWait at full
        push Not at full
        have low := full.2
        apply List.mem_map.mpr
        refine ⟨(s.pend (mode.gate (slotOf key))).head - jobPendN, ?_, ?_⟩
        · rw [List.mem_range'_1]
          unfold jobPendN at *
          omega
        · rw [← Nat.mod_eq_sub_mod (by omega)]
    have fewer := Tickets.Ring.push_loses (by decide) (recorded.gated.sound.pendOrdered _) unfit
    have contents : (s.queued mode (slotOf key)).waitingOn (mode.gate (slotOf key)) =
        ((s.pend (mode.gate (slotOf key))).push jobPendN s.allocated).contents jobPendN := by
      unfold waitingOn queued
      dsimp only
      rw [Function.update_self]
    rw [← contents, ← order, List.count_append] at fewer
    unfold waitingOn at fewer
    omega
  | worker q running unblocked command reply ends ordered flight =>
    apply other
    cases a with
    | rmw argv => exact absurd rfl (command argv)
    | take | unblock | reply => trivial
  | pass p j act => exact other (act ▸ trivial)
  | close p j act => exact other (act ▸ trivial)

/-- In the modes `detect` and `lock` every accepted command is begun once, in its gate's
order, and replied to once, if and only if every command that has to wait finds fewer
than `PENDN` others waiting on its gate. -/
theorem exactly_once_iff_room (mode : RmwMode) (protects : mode ≠ .naive) (nw : Nat)
    (acts : List DetAct) (own : DetModule × List JobEvent)
    (ran : Machine.run (notedStep mode nw) (onLoad mode, []) acts = some own) :
    Machine.Always (notedStep mode nw) (ExactlyOnce mode) (onLoad mode, []) acts ↔
      Machine.Guarded (notedStep mode nw) (fun own a => RoomToWait mode own.1 a)
        (onLoad mode, []) acts := by
  apply Machine.always_iff_guarded (H := fun _ _ => True)
    (I := fun own => Recorded mode own.1 own.2)
  · exact fun own recorded => recorded.exactlyOnce
  · intro own a next recorded _ room taken
    obtain ⟨taken, events⟩ := Machine.noted_eq_some.mp taken
    rw [events]
    exact step_recorded protects recorded room taken
  · intro own a next recorded _ full taken
    obtain ⟨taken, events⟩ := Machine.noted_eq_some.mp taken
    have same : next = (next.1, (jobEvents mode own.1 a).reverse ++ own.2) := by
      rw [← events]
    rw [same]
    exact overrun_loses_turn protects recorded full taken
  · exact onLoad_recorded mode
  · exact Machine.guarded_of_mem (fun _ _ _ => trivial) _
  · exact ran

/-- Three commands on one key, with two workers. -/
def threeInTurn : List DetAct :=
  let rmw : DetAct := .rmw [[], [1]]
  [rmw, rmw, .take 1, .unblock 1 0, rmw, .reply 0, .take 0, .unblock 0 1, .reply 1, .take 1,
    .unblock 1 2, .reply 2]

theorem threeInTurn_once : ∃ own,
    Machine.run (notedStep .detect 2) (onLoad .detect, []) threeInTurn = some own ∧
    told JobEvent.replied own.2 = [0, 1, 2] ∧
    Machine.Always (notedStep .detect 2) (ExactlyOnce .detect) (onLoad .detect, []) threeInTurn :=
  ⟨_, rfl, rfl, (exactly_once_iff_room .detect (by decide) 2 threeInTurn _ rfl).mpr
    (by decide +kernel)⟩

/-- A command in the mode `lock`. -/
def lockRmw : DetAct := .rmw [[], []]

/-- The gate of the mode `lock` is taken and `n` commands wait. -/
structure Crowded (n : Nat) (s : DetModule) (h : List JobEvent) : Prop where
  recorded : Recorded .lock s h
  busy : s.inflight 0 ≠ 0
  head : (s.pend 0).head = n
  tail : (s.pend 0).tail = 0

theorem Crowded.step {n : Nat} (crowded : Crowded n s h) (below : n < intMax) :
    ∃ t, s.step .lock 4 lockRmw = some t ∧ (t.pend 0).head = n + 1 ∧ (t.pend 0).tail = 0 ∧
      t.inflight 0 ≠ 0 := by
  have more : (s.pend 0).head ≠ intMax := by
    rw [crowded.head]
    omega
  have taken : s.step .lock 4 lockRmw = some (s.queued .lock (slotOf [])) := by
    change s.cmdRmw .lock [[], []] = _
    unfold cmdRmw
    dsimp only
    rw [if_neg (by decide), if_neg (show s.inflight (RmwMode.gate .lock (slotOf [])) ≠ 0 from
      crowded.busy)]
    unfold queueJob
    rw [if_neg (show ((s.alloc (slotOf [])).pend (RmwMode.gate .lock (slotOf []))).head ≠ intMax
      from more)]
    rfl
  have ring : (s.queued .lock (slotOf [])).pend 0 = (s.pend 0).push jobPendN s.allocated := by
    have gate : RmwMode.gate .lock (slotOf []) = 0 := rfl
    unfold queued
    dsimp only
    rw [gate, Function.update_self]
  refine ⟨_, taken, ?_, ?_, crowded.busy⟩
  · rw [ring, Tickets.Ring.push_head, crowded.head]
  · rw [ring, Tickets.Ring.push_tail, crowded.tail]

theorem crowded_run (n : Nat) (below : n ≤ jobPendN) : ∃ s h,
    Machine.run (notedStep .lock 4) (onLoad .lock, []) (lockRmw :: List.replicate n lockRmw) =
      some (s, h) ∧ Crowded n s h := by
  induction n with
  | zero =>
    obtain ⟨t, taken⟩ : ∃ t, (onLoad .lock).step .lock 4 lockRmw = some t := ⟨_, rfl⟩
    have room : RoomToWait .lock (onLoad .lock) lockRmw := fun _ => by decide
    have recorded := step_recorded (by decide) (onLoad_recorded .lock) room taken
    refine ⟨t, _, ?_, recorded, ?_, ?_, ?_⟩
    · rw [List.replicate_zero, Machine.run_one]
      exact Machine.noted_eq_some.mpr ⟨taken, rfl⟩
    all_goals
      cases taken
      decide
  | succ n ih =>
    obtain ⟨s, h, ran, crowded⟩ := ih (by omega)
    obtain ⟨t, taken, head, tail, busy⟩ := crowded.step (by unfold jobPendN intMax at *; omega)
    have room : RoomToWait .lock s lockRmw := by
      intro _
      change (s.pend 0).head < (s.pend 0).tail + jobPendN
      rw [crowded.head, crowded.tail]
      omega
    have recorded := step_recorded (by decide) crowded.recorded room taken
    refine ⟨t, _, ?_, recorded, busy, head, tail⟩
    rw [List.replicate_succ', ← List.cons_append, Machine.run_snoc ran]
    exact Machine.noted_eq_some.mpr ⟨taken, rfl⟩

/-- In the mode `lock`, one command at the accelerator and `PENDN + 1` behind it: the
first one that waits loses its place to the last and is never begun. -/
theorem crowd_loses_turn : ∃ acts own,
    Machine.run (notedStep .lock 4) (onLoad .lock, []) acts = some own ∧
      ¬ ExactlyOnce .lock own := by
  obtain ⟨s, h, ran, crowded⟩ := crowded_run jobPendN (Nat.le_refl _)
  obtain ⟨t, taken, _⟩ := crowded.step (by decide)
  have full : ¬ RoomToWait .lock s lockRmw := by
    intro room
    have below : (s.pend 0).head < (s.pend 0).tail + jobPendN := room crowded.busy
    rw [crowded.head, crowded.tail] at below
    omega
  refine ⟨lockRmw :: List.replicate jobPendN lockRmw ++ [lockRmw], (t, _), ?_,
    overrun_loses_turn (by decide) crowded.recorded full taken⟩
  rw [Machine.run_snoc ran]
  exact Machine.noted_eq_some.mpr ⟨taken, rfl⟩

end TransparentOffload.DetModule
