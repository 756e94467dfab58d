import TransparentOffload.Lib.Run
import TransparentOffload.Lib.WaitPool

set_option autoImplicit false

/- The Redis module: `cmd_async` blocks a client and hands it to the pool, and the
worker that takes it unblocks it behind its offload. A client is named by the number of
those blocked before it. -/
namespace TransparentOffload

/-- The workers with their queue. `unblocked` is history: the clients that
`RedisModule_UnblockClient` was called for. -/
structure AccelModule where
  crew : WaitPool.Crew Nat
  blocked : Nat
  unblocked : List Nat

/-- The event loop runs `cmd_async`, a wait ends by itself, or a worker goes on. -/
inductive AccelAct
  | cmdAsync (woken : Option Nat)
  | wake (w : Nat)
  | look (w : Nat)
  | unblock (w : Nat)
  deriving DecidableEq, Repr

/-- A worker does it, and no other thread has to. -/
def AccelAct.OfWorker : AccelAct → Prop
  | .look _ | .unblock _ => True
  | .cmdAsync _ | .wake _ => False

namespace AccelModule

/-- `QN`. -/
def qn : Nat := 65536

def start : AccelModule := ⟨.start 0, 0, []⟩

/-- `RedisModule_BlockClient`, and the store and `pthread_cond_signal` under `qmx`. -/
def cmdAsync (s : AccelModule) (woken : Option Nat) : Option AccelModule :=
  (s.crew.submit qn s.blocked woken).map fun crew =>
    { s with crew := crew, blocked := s.blocked + 1 }

/-- `worker` under `qmx`: it waits, or has its job. -/
def look (nw : Nat) (s : AccelModule) (w : Nat) : Option AccelModule :=
  (s.crew.look qn nw w).map fun crew => { s with crew := crew }

/-- `accel_encrypt` is done, and `worker` calls `RedisModule_UnblockClient`. -/
def unblock (s : AccelModule) (w : Nat) : Option AccelModule :=
  (s.crew.pool.held w).map fun bc =>
    { s with crew := s.crew.finish w bc, unblocked := bc :: s.unblocked }

def step (nw : Nat) (s : AccelModule) : AccelAct → Option AccelModule
  | .cmdAsync woken => s.cmdAsync woken
  | .wake w => (s.crew.wake w).map fun crew => { s with crew := crew }
  | .look w => s.look nw w
  | .unblock w => s.unblock w

/-- The clients that are queued or whose offload runs. -/
def outstanding (s : AccelModule) : List Nat := s.crew.pool.outstanding qn

/-- Every blocked client is unblocked once, or will be. -/
def Accounted (s : AccelModule) : Prop :=
  (s.unblocked ++ s.outstanding).Perm (List.range s.blocked)

/-- The queue has the clients in the order of their commands, the last one at its end. -/
def InOrder (s : AccelModule) : Prop :=
  s.crew.pool.q.contents qn = List.range' (s.blocked - s.crew.waiting) s.crew.waiting

/-- `cmd_async` finds a slot whose job is taken. -/
def HasRoom (s : AccelModule) : AccelAct → Prop
  | .cmdAsync _ => s.crew.waiting < qn
  | _ => True

instance (s : AccelModule) (a : AccelAct) : Decidable (s.HasRoom a) :=
  match a with
  | .cmdAsync _ => inferInstanceAs (Decidable (_ < _))
  | .wake _ | .look _ | .unblock _ => isTrue trivial

/-- What one step does. -/
inductive Turn (nw : Nat) (s t : AccelModule) (a : AccelAct) : Prop
  | queued (woken : Option Nat) (act : a = .cmdAsync woken)
      (taken : s.crew.submit qn s.blocked woken = some t.crew)
      (blocked : t.blocked = s.blocked + 1) (unblocked : t.unblocked = s.unblocked)
  | woke (w : Nat) (act : a = .wake w) (taken : s.crew.wake w = some t.crew)
      (blocked : t.blocked = s.blocked) (unblocked : t.unblocked = s.unblocked)
  | looked (w : Nat) (act : a = .look w) (taken : s.crew.look qn nw w = some t.crew)
      (blocked : t.blocked = s.blocked) (unblocked : t.unblocked = s.unblocked)
  | answered (w bc : Nat) (act : a = .unblock w) (held : s.crew.pool.held w = some bc)
      (crew : t.crew = s.crew.finish w bc) (blocked : t.blocked = s.blocked)
      (unblocked : t.unblocked = bc :: s.unblocked)

/-- The clients are numbered as the slots of the queue are. -/
structure Staffed (nw : Nat) (s : AccelModule) : Prop where
  crew : s.crew.Staffed nw
  numbered : s.crew.pool.q.head = s.blocked

variable {nw : Nat} {s t : AccelModule} {a : AccelAct}

theorem step_turn (taken : s.step nw a = some t) : Turn nw s t a := by
  cases a with
  | cmdAsync woken =>
    obtain ⟨crew, queued, rfl⟩ := Option.map_eq_some_iff.mp taken
    exact .queued woken rfl queued rfl rfl
  | wake w =>
    obtain ⟨crew, woke, rfl⟩ := Option.map_eq_some_iff.mp taken
    exact .woke w rfl woke rfl rfl
  | look w =>
    obtain ⟨crew, looked, rfl⟩ := Option.map_eq_some_iff.mp taken
    exact .looked w rfl looked rfl rfl
  | unblock w =>
    obtain ⟨bc, held, rfl⟩ := Option.map_eq_some_iff.mp taken
    exact .answered w bc rfl held rfl rfl rfl

theorem start_staffed (nw : Nat) : Staffed nw start := ⟨WaitPool.Crew.start_staffed nw 0, rfl⟩

theorem step_staffed (staffed : Staffed nw s) (taken : s.step nw a = some t) :
    Staffed nw t := by
  obtain ⟨crew, numbered⟩ := staffed
  cases step_turn taken with
  | queued woken act taken blocked =>
    refine ⟨crew.submit taken, ?_⟩
    rw [(WaitPool.Crew.submit_spec taken).1, blocked, ← numbered]
    rfl
  | woke w act taken blocked =>
    refine ⟨crew.wake taken, ?_⟩
    rw [(WaitPool.Crew.wake_spec taken).2.1, blocked, numbered]
  | looked w act taken blocked =>
    refine ⟨crew.look taken, ?_⟩
    rw [blocked, ← numbered]
    obtain ⟨_, _, _, ⟨_, pool, _⟩ | ⟨took, _⟩⟩ := WaitPool.Crew.look_spec taken
    · rw [pool]
    · rw [(WorkPool.Pool.take_spec took).2.2]
      rfl
  | answered w bc act held ends blocked =>
    refine ⟨ends ▸ crew.finish held, ?_⟩
    rw [ends, blocked, ← numbered]
    rfl

theorem waiting_lt (room : s.HasRoom (.cmdAsync none)) :
    s.crew.pool.q.head < s.crew.pool.q.tail + qn := by
  have few : s.crew.pool.q.head - s.crew.pool.q.tail < qn := room
  omega

/-- The next client to be taken is the oldest one of the queue. -/
theorem Staffed.next (staffed : Staffed nw s) :
    s.blocked - s.crew.waiting = s.crew.pool.q.tail := by
  have below : s.crew.pool.q.tail ≤ s.crew.pool.q.head := staffed.crew.ordered
  have numbered := staffed.numbered
  show s.blocked - (s.crew.pool.q.head - s.crew.pool.q.tail) = _
  omega

theorem step_accounted (staffed : Staffed nw s) (accounted : Accounted s) (room : s.HasRoom a)
    (taken : s.step nw a = some t) : Accounted t := by
  have ordered := staffed.crew.ordered
  unfold Accounted at accounted ⊢
  cases step_turn taken with
  | queued woken act queued blocked unblocked =>
    subst act
    have pool := (WaitPool.Crew.submit_spec queued).1
    have jobs := WorkPool.Pool.submit_outstanding (x := s.blocked) ordered
      (Or.inl (waiting_lt room))
    rw [← pool] at jobs
    rw [blocked, unblocked, List.range_succ]
    have before : (s.blocked :: (s.unblocked ++ s.outstanding)).Perm
        (List.range s.blocked ++ [s.blocked]) :=
      (accounted.cons s.blocked).trans (List.perm_append_singleton _ _).symm
    exact ((jobs.append_left s.unblocked).trans List.perm_middle).trans before
  | woke w act taken blocked unblocked =>
    have pool := (WaitPool.Crew.wake_spec taken).2.1
    rw [blocked, unblocked, outstanding, pool]
    exact accounted
  | looked w act taken blocked unblocked =>
    have jobs := WaitPool.Crew.look_outstanding ordered taken
    rw [blocked, unblocked]
    exact (jobs.append_left s.unblocked).trans accounted
  | answered w bc act held crew blocked unblocked =>
    have jobs : s.outstanding.Perm (bc :: t.outstanding) := by
      unfold outstanding
      rw [crew]
      exact WorkPool.Pool.finish_outstanding (WorkPool.Pool.held_mem held)
    rw [blocked, unblocked]
    exact (List.perm_middle.symm.trans (jobs.symm.append_left s.unblocked)).trans accounted

theorem step_inOrder (staffed : Staffed nw s) (inOrder : InOrder s) (room : s.HasRoom a)
    (taken : s.step nw a = some t) : InOrder t := by
  have below : s.crew.pool.q.tail ≤ s.crew.pool.q.head := staffed.crew.ordered
  have after := (step_staffed staffed taken).next
  unfold InOrder at inOrder ⊢
  rw [staffed.next] at inOrder
  rw [after]
  cases step_turn taken with
  | queued woken act queued blocked unblocked =>
    subst act
    have pool := (WaitPool.Crew.submit_spec queued).1
    have stored := Tickets.Ring.contents_push below (waiting_lt room) s.blocked
    have count : t.crew.waiting = s.crew.waiting + 1 := by
      rw [WaitPool.Crew.waiting, WaitPool.Crew.waiting, pool]
      show s.crew.pool.q.head + 1 - s.crew.pool.q.tail = _
      omega
    have last : s.crew.pool.q.tail + 1 * s.crew.waiting = s.blocked := by
      rw [← staffed.numbered, WaitPool.Crew.waiting]
      omega
    rw [count, pool]
    show (s.crew.pool.q.push qn s.blocked).contents qn = List.range' s.crew.pool.q.tail _
    rw [stored, inOrder, List.range'_concat, last]
  | woke w act taken blocked unblocked =>
    have pool := (WaitPool.Crew.wake_spec taken).2.1
    rw [WaitPool.Crew.waiting, pool]
    exact inOrder
  | looked w act taken blocked unblocked =>
    obtain ⟨_, _, _, ⟨_, pool, _⟩ | ⟨took, _⟩⟩ := WaitPool.Crew.look_spec taken
    · rw [WaitPool.Crew.waiting, pool]
      exact inOrder
    · obtain ⟨_, more, ends⟩ := WorkPool.Pool.take_spec took
      have split : s.crew.pool.q.contents qn = _ :=
        Tickets.Ring.contents_advance (Nat.lt_of_le_of_ne below more.symm)
      have count : s.crew.waiting = t.crew.waiting + 1 := by
        rw [WaitPool.Crew.waiting, WaitPool.Crew.waiting, ends]
        show s.crew.pool.q.head - s.crew.pool.q.tail =
          s.crew.pool.q.head - (s.crew.pool.q.tail + 1) + 1
        omega
      rw [split, count, List.range'_succ] at inOrder
      rw [ends]
      exact (List.cons.inj inOrder).2
  | answered w bc act held crew blocked unblocked =>
    rw [WaitPool.Crew.waiting, crew]
    exact inOrder

/-- A command that finds the queue full costs another client its answer. -/
theorem full_unaccounted (staffed : Staffed nw s) (accounted : Accounted s)
    (full : ¬ s.HasRoom a) (taken : s.step nw a = some t) : ¬ Accounted t := by
  intro after
  cases step_turn taken with
  | queued woken act queued blocked unblocked =>
    subst act
    have below : s.crew.pool.q.tail ≤ s.crew.pool.q.head := staffed.crew.ordered
    have many : qn ≤ s.crew.pool.q.head - s.crew.pool.q.tail := Nat.not_lt.mp full
    have lost : ¬ s.crew.pool.q.Fits qn s.blocked := by
      rintro (room | same)
      · omega
      · have unread : _ ∈ s.crew.pool.q.contents qn :=
          Tickets.Ring.mem_contents_of_full (by decide) (by omega)
        have known := accounted.subset
          (List.mem_append_right s.unblocked (List.mem_append_left _ unread))
        rw [same, List.mem_range] at known
        exact Nat.lt_irrefl _ known
    obtain ⟨y, _, fewer⟩ :=
      WorkPool.Pool.submit_loses (by decide) staffed.crew.ordered lost
    have before := accounted.count_eq y
    have later := after.count_eq y
    rw [List.count_append] at before
    rw [blocked, unblocked, List.range_succ, List.count_append, List.count_append, outstanding,
      (WaitPool.Crew.submit_spec queued).1] at later
    have here : s.outstanding.count y = (s.crew.pool.outstanding qn).count y := rfl
    omega
  | woke w act => exact full (act ▸ trivial)
  | looked w act => exact full (act ▸ trivial)
  | answered w bc act => exact full (act ▸ trivial)

/-- What holds of the module as long as no command finds the queue full. -/
structure Sound (nw : Nat) (s : AccelModule) : Prop where
  staffed : Staffed nw s
  accounted : Accounted s
  inOrder : InOrder s

theorem start_sound (nw : Nat) : Sound nw start := ⟨start_staffed nw, List.Perm.refl [], rfl⟩

theorem step_sound (sound : Sound nw s) (room : s.HasRoom a) (taken : s.step nw a = some t) :
    Sound nw t :=
  ⟨step_staffed sound.staffed taken, step_accounted sound.staffed sound.accounted room taken,
    step_inOrder sound.staffed sound.inOrder room taken⟩

theorem reached_sound {acts : List AccelAct} (sound : Sound nw s)
    (guarded : Machine.Guarded (step nw) HasRoom s acts)
    (reached : Machine.run (step nw) s acts = some t) : Sound nw t :=
  Machine.invariant_run (fun _ _ _ sound room taken => step_sound sound room taken) sound guarded
    reached

/-- The clients that are unblocked, queued or at an offload are those that were blocked,
each once and at all times, if and only if no command finds the queue full. The queue is
then first in, first out. -/
theorem unblocked_once_iff_room {acts : List AccelAct}
    (reached : Machine.run (step nw) start acts = some s) :
    (Machine.Always (step nw) Accounted start acts ↔
      Machine.Guarded (step nw) HasRoom start acts) ∧
    (Machine.Guarded (step nw) HasRoom start acts →
      Machine.Always (step nw) InOrder start acts) := by
  constructor
  · apply Machine.always_iff_guarded (H := fun _ _ => True) (I := Sound nw)
    · exact fun s sound => sound.accounted
    · exact fun s a t sound _ room taken => step_sound sound room taken
    · exact fun s a t sound _ full taken =>
        full_unaccounted sound.staffed sound.accounted full taken
    · exact start_sound nw
    · exact Machine.guarded_of_mem (fun _ _ _ => trivial) start
    · exact reached
  · intro guarded
    have all := Machine.always_of_invariant
      (fun _ _ _ sound room taken => step_sound sound room taken) (start_sound nw) guarded
    exact all.mono fun s sound => sound.inOrder

/-- From where no client is lost, the workers alone can finish all there is. -/
theorem Sound.drains (positive : 0 < nw) (sound : Sound nw s) :
    ∃ acts t, (∀ a ∈ acts, a.OfWorker) ∧ Machine.run (step nw) s acts = some t ∧
      t.unblocked.Perm (List.range s.blocked) := by
  -- on the steps that the workers have before them
  induction measure : s.crew.work using Nat.strongRecOn generalizing s with
  | ind left ih =>
    have onward : ∀ a t, a.OfWorker → s.HasRoom a → s.step nw a = some t →
        t.blocked = s.blocked → t.crew.work < s.crew.work →
        ∃ acts t, (∀ a ∈ acts, a.OfWorker) ∧ Machine.run (step nw) s acts = some t ∧
          t.unblocked.Perm (List.range s.blocked) := by
      intro a t works room taken blocked fewer
      obtain ⟨acts, u, all, reached, done⟩ :=
        ih _ (measure ▸ fewer) (step_sound sound room taken) rfl
      refine ⟨a :: acts, u, ?_, ?_, blocked ▸ done⟩
      · intro a' member
        rcases List.mem_cons.mp member with rfl | later
        · exact works
        · exact all a' later
      · rw [Machine.run_cons_of_step taken]
        exact reached
    by_cases busy : s.outstanding = []
    · have accounted := sound.accounted
      rw [Accounted, busy, List.append_nil] at accounted
      exact ⟨[], s, fun _ member => absurd member List.not_mem_nil, rfl, accounted⟩
    · rcases sound.staffed.crew.able positive busy with ⟨w, bc, held⟩ | ⟨w, crew, looked, fewer⟩
      · have taken : s.step nw (.unblock w) = some { s with
            crew := s.crew.finish w bc, unblocked := bc :: s.unblocked } := by
          show s.unblock w = _
          rw [unblock, held]
          rfl
        exact onward (.unblock w) _ trivial trivial taken rfl (WaitPool.Crew.finish_work held)
      · have taken : s.step nw (.look w) = some { s with crew := crew } := by
          show s.look nw w = _
          rw [AccelModule.look, looked]
          rfl
        exact onward (.look w) _ trivial trivial taken rfl fewer

/-- No client is stranded behind a sleeping worker. While one waits there is for each queued
client another that is up and without a job; so when all of them wait every client is
unblocked, and from wherever the module is the workers can get there without any other
signal. -/
theorem no_client_stranded {acts : List AccelAct} (positive : 0 < nw)
    (guarded : Machine.Guarded (step nw) HasRoom start acts)
    (reached : Machine.run (step nw) start acts = some s) :
    (s.crew.asleep ≠ [] →
      s.crew.waiting + s.crew.asleep.length + s.crew.pool.running.length ≤ nw) ∧
    ((∀ w < nw, w ∈ s.crew.asleep) → s.unblocked.Perm (List.range s.blocked)) ∧
    ∃ later t, (∀ a ∈ later, a.OfWorker) ∧
      Machine.run (step nw) s later = some t ∧ t.unblocked.Perm (List.range s.blocked) := by
  have sound := reached_sound (start_sound nw) guarded reached
  refine ⟨sound.staffed.crew.enough, ?_, sound.drains positive⟩
  intro all
  have accounted := sound.accounted
  have quiet : s.outstanding = [] := sound.staffed.crew.quiet positive all
  rwa [Accounted, quiet, List.append_nil] at accounted

/-- Two workers wait, are woken for two clients, and one of them waits again. -/
def twoClients : List AccelAct :=
  [.look 0, .look 1, .cmdAsync (some 0), .cmdAsync (some 1), .look 1, .look 0, .unblock 0,
    .look 0]

theorem twoClients_room : Machine.Guarded (step 2) HasRoom start twoClients := by decide +kernel

theorem twoClients_accounted : ∃ s, Machine.run (step 2) start twoClients = some s ∧
    Machine.Always (step 2) Accounted start twoClients :=
  ⟨_, rfl, (unblocked_once_iff_room rfl).1.mpr twoClients_room⟩

theorem twoClients_drain : ∃ s later t, Machine.run (step 2) start twoClients = some s ∧
    Machine.run (step 2) s later = some t ∧ t.unblocked.Perm [0, 1] := by
  obtain ⟨_, _, later, t, _, reached, all⟩ :=
    no_client_stranded (s := _) (by decide) twoClients_room rfl
  exact ⟨_, later, t, rfl, reached, all⟩

end AccelModule

end TransparentOffload
