import TransparentOffload.Formed
import TransparentOffload.Lib.History

set_option autoImplicit false

/- The turns the carrier's run loop gives: which fibers it switches in, in which
order, and how long a runnable fiber can be kept waiting for its own turn. -/
namespace TransparentOffload

variable {σ γ : Type}

/-- A switch-in, and the end of the run loop. -/
inductive Turn
  | fiber (i : Nat)
  | passEnd
  deriving DecidableEq, Repr

/-- The slot the run loop looks at next; every other part of the loop is ahead of it. -/
def Pc.next : Pc → Nat
  | .run i => i
  | .slice i | .back i => i + 1
  | .intake | .epoll | .offloads _ | .drain | .deadlines _ _ => 0

/-- The run loop, and the fiber it has switched in. -/
def Pc.inRunLoop : Pc → Bool
  | .run _ | .slice _ | .back _ => true
  | .intake | .epoll | .offloads _ | .drain | .deadlines _ _ => false

/-- The turn given in a step, if the run loop takes it. -/
def turns (s : Runtime σ γ) (a : Act) : List Turn :=
  match a, s.pc with
  | .carrier _, .run i =>
    if i < s.nfib then
      match s.fibs i with
      | none => []
      | some f => if f.state = .new ∨ f.state = .run then [.fiber i] else []
    else [.passEnd]
  | _, _ => []

/-- What a step does to the place of the run loop. -/
inductive Advance (s : Runtime σ γ) (a : Act) (t : Runtime σ γ) : Prop
  | stay (quiet : turns s a = []) (same : t.pc.next = s.pc.next)
      (running : s.pc.inRunLoop = true → t.pc.inRunLoop = true)
  | skip {i : Nat} (quiet : turns s a = []) (pc : s.pc = .run i) (inside : i < s.nfib)
      (idle : ∀ f, s.fibs i = some f → ¬ f.Runnable) (next : t.pc = .run (i + 1))
  | turn {i : Nat} {f : Fiber σ} (given : turns s a = [.fiber i]) (pc : s.pc = .run i)
      (live : s.fibs i = some f) (runnable : f.Runnable) (next : t.pc = .slice i)
  | finish {i : Nat} (ended : turns s a = [.passEnd]) (pc : s.pc = .run i) (past : s.nfib ≤ i)
      (next : t.pc.next = 0)

theorem turns_other {s : Runtime σ γ} {a : Act}
    (other : ∀ out i, a = .carrier out → s.pc ≠ .run i) : turns s a = [] := by
  unfold turns
  split
  · rename_i out i pc
    exact absurd pc (other out i rfl)
  · rfl

/-- The run loop at slot `i`. -/
theorem runStep_advance {c : Config σ γ} {s : Runtime σ γ} {i : Nat} (out : Out)
    (pc : s.pc = .run i) : Advance s (.carrier out) (s.runStep c i) := by
  by_cases inside : i < s.nfib
  · cases there : s.fibs i with
    | none =>
      refine .skip (i := i) ?_ pc inside (by simp [there]) ?_
      · simp [turns, pc, inside, there]
      · simp [Runtime.runStep, inside, there]
    | some f =>
      by_cases runnable : f.state = .new ∨ f.state = .run
      · refine .turn (f := f) ?_ pc there runnable ?_
        · simp [turns, pc, inside, there, runnable]
        · simp [Runtime.runStep, inside, there, runnable]
      · refine .skip (i := i) ?_ pc inside ?_ ?_
        · simp [turns, pc, inside, there, runnable]
        · intro g live
          rw [there, Option.some.injEq] at live
          exact live ▸ runnable
        · simp [Runtime.runStep, inside, there, runnable]
  · refine .finish (i := i) ?_ pc (Nat.le_of_not_lt inside) ?_
    · simp [turns, pc, inside]
    · simp [Runtime.runStep, inside, Pc.next]

theorem offloadStep_next (s : Runtime σ γ) (i : Nat) (done : Bool) :
    (s.offloadStep i done).pc.next = 0 := by
  unfold Runtime.offloadStep
  split
  · dsimp only
    split
    · rfl
    · split <;> rfl
  · rfl

theorem deadlineStep_next (s : Runtime σ γ) (i : Nat) (now : Option Timespec) (clock : Timespec) :
    (s.deadlineStep i now clock).pc.next = 0 := by
  unfold Runtime.deadlineStep
  split
  · split
    · rfl
    · split
      · dsimp only
        split <;> rfl
      · rfl
  · rfl

theorem reap_pc (s : Runtime σ γ) (i : Nat) : (s.reap i).pc = .run (i + 1) := by
  unfold Runtime.reap
  dsimp only
  split
  · rfl
  · split <;> rfl

theorem step_advance {c : Config σ γ} {s t : Runtime σ γ} {a : Act} (taken : step c s a = some t) :
    Advance s a t := by
  by_cases other : ∀ out, a ≠ .carrier out
  · have same := (step_other taken other).1
    exact .stay (turns_other fun out _ carrier => absurd carrier (other out)) (by rw [same])
      (by rw [same]; exact id)
  rw [not_forall_not] at other
  obtain ⟨out, rfl⟩ := other
  have quiet : (∀ i, s.pc ≠ .run i) → turns s (.carrier out) = [] :=
    fun outside => turns_other fun _ i _ => outside i
  cases pc : s.pc with
  | intake =>
    change s.carrier c out = some t at taken
    rw [Runtime.carrier, pc] at taken
    refine .stay (quiet (by simp [pc])) ?_ (by simp [pc, Pc.inRunLoop])
    rw [← Option.some.inj taken, Runtime.intake_eq, pc]
    rfl
  | epoll =>
    change s.carrier c out = some t at taken
    rw [Runtime.carrier, pc] at taken
    refine .stay (quiet (by simp [pc])) ?_ (by simp [pc, Pc.inRunLoop])
    rw [← Option.some.inj taken, pc]
    rfl
  | offloads i =>
    change s.carrier c out = some t at taken
    rw [Runtime.carrier, pc] at taken
    refine .stay (quiet (by simp [pc])) ?_ (by simp [pc, Pc.inRunLoop])
    rw [← Option.some.inj taken, offloadStep_next, pc]
    rfl
  | drain =>
    change s.carrier c out = some t at taken
    rw [Runtime.carrier, pc] at taken
    refine .stay (quiet (by simp [pc])) ?_ (by simp [pc, Pc.inRunLoop])
    rw [← Option.some.inj taken]
    unfold Runtime.drainStep
    split
    · rfl
    · rw [pc]
      rfl
  | deadlines i now =>
    change s.carrier c out = some t at taken
    rw [Runtime.carrier, pc] at taken
    refine .stay (quiet (by simp [pc])) ?_ (by simp [pc, Pc.inRunLoop])
    rw [← Option.some.inj taken, deadlineStep_next, pc]
    rfl
  | run i =>
    change s.carrier c out = some t at taken
    rw [Runtime.carrier, pc] at taken
    rw [← Option.some.inj taken]
    exact runStep_advance out pc
  | slice i =>
    obtain ⟨f, live, slice⟩ := step_slice pc taken
    obtain ⟨_, _, _, _, _, back | ⟨same, _⟩⟩ := slice_fibs slice
    · exact .stay (quiet (by simp [pc])) (by rw [back, pc]; rfl) fun _ => by rw [back]; rfl
    · exact .stay (quiet (by simp [pc])) (by rw [same]) fun running => same ▸ running
  | back i =>
    change s.carrier c out = some t at taken
    rw [Runtime.carrier, pc] at taken
    rw [← Option.some.inj taken]
    refine .stay (quiet (by simp [pc])) ?_ ?_
    · rw [reap_pc, pc]
      rfl
    · rw [reap_pc]
      exact fun _ => rfl

/-- The carrier with the turns it has given. -/
abbrev turnStep (c : Config σ γ) :
    Runtime σ γ × List Turn → Act → Option (Runtime σ γ × List Turn) := Machine.noted (step c) turns

/-- Fiber `i` waits for its turn with the context `ctx`. -/
def Awaits (s : Runtime σ γ) (i : Nat) (ctx : σ) : Prop :=
  (∃ f, s.fibs i = some f ∧ f.Runnable ∧ f.ctx = ctx) ∧ s.pc ≠ .slice i

/-- A fiber that waits for its turn is not switched in without being given it. -/
theorem Awaits.outside {c : Config σ γ} {s t : Runtime σ γ} {a : Act} {i : Nat} {ctx : σ}
    (awaits : Awaits s i ctx) (taken : step c s a = some t)
    (untaken : Turn.fiber i ∉ turns s a) : t.pc ≠ .slice i := by
  intro pc
  have next : t.pc.next = i + 1 := by rw [pc]; rfl
  rcases step_switched taken pc with ⟨inside, _⟩ | ⟨inside, _⟩ | ⟨reached, f, live, runnable, _⟩
  · exact awaits.2 inside
  · exact awaits.2 inside
  · cases step_advance taken with
    | stay quiet same =>
      rw [next, reached] at same
      change i + 1 = i at same
      omega
    | skip _ pc _ idle =>
      rw [reached, Pc.run.injEq] at pc
      exact idle f (pc ▸ live) runnable
    | turn given pc =>
      rw [reached, Pc.run.injEq] at pc
      exact untaken (by rw [given, pc]; exact List.mem_singleton_self _)
    | finish _ _ _ zero => omega

/-- It waits, runnable and with its context untouched, until it is given its turn. -/
theorem Awaits.step {c : Config σ γ} {s t : Runtime σ γ} {a : Act} {i : Nat} {ctx : σ}
    (awaits : Awaits s i ctx) (formed : Formed c s) (taken : step c s a = some t)
    (untaken : Turn.fiber i ∉ turns s a) : Awaits t i ctx := by
  have outside := awaits.outside taken untaken
  refine ⟨?_, outside⟩
  obtain ⟨⟨f, live, runnable, rfl⟩, _⟩ := awaits
  rcases step_keeps formed taken live with ⟨f', live'⟩ | ⟨_, done⟩
  · refine ⟨f', live', ?_⟩
    cases step_moved formed taken live live' with
    | keep => exact ⟨runnable, rfl⟩
    | event _ waiting => exact absurd waiting (runnable.ne nofun nofun)
    | offloaded _ waiting => exact absurd waiting (runnable.ne nofun nofun)
    | woken waiting => exact absurd waiting (runnable.ne nofun nofun)
    | expired _ waiting =>
      rcases waiting with waiting | waiting
      · exact absurd waiting (runnable.ne nofun nofun)
      · exact absurd waiting (runnable.ne nofun nofun)
    | switchIn pc =>
      rw [step_run formed pc live runnable, Option.some.injEq] at taken
      exact absurd (taken ▸ Runtime.switchIn_pc c s i f) outside
    | slice pc => exact absurd pc (by assumption)
  · exact absurd done (runnable.ne nofun nofun)

/-- What fiber `i` has seen pass while it waited: up to the end of the run loop only
fibers behind it, and after that, before the loop comes to it, one turn each. -/
structure Overtaken (i : Nat) (pc : Pc) (h : List Turn) : Prop where
  single : h.Nodup
  first : Turn.passEnd ∉ h → ∀ j, Turn.fiber j ∈ h → j < pc.next ∧ (i < pc.next → i < j)
  second : Turn.passEnd ∈ h → pc.next ≤ i ∧ ∀ j, Turn.fiber j ∈ h → j < pc.next ∨ i < j

theorem Overtaken.start (i : Nat) (pc : Pc) : Overtaken i pc [] := by
  refine ⟨List.nodup_nil, ?_, ?_⟩
  · intro _ j member
    cases member
  · intro member
    cases member

/-- One step, as long as the fiber of slot `i` is runnable and has not had its turn. -/
theorem Overtaken.step {c : Config σ γ} {s t : Runtime σ γ} {a : Act} {i : Nat} {ctx : σ}
    {h : List Turn} (seen : Overtaken i s.pc h) (awaits : Awaits s i ctx) (formed : Formed c s)
    (taken : TransparentOffload.step c s a = some t) (untaken : Turn.fiber i ∉ turns s a) :
    Overtaken i t.pc ((turns s a).reverse ++ h) := by
  obtain ⟨⟨f, live, runnable, rfl⟩, _⟩ := awaits
  have inside := (formed.slots i f live).2
  cases step_advance taken with
  | stay quiet same =>
    rw [quiet, List.reverse_nil, List.nil_append]
    refine ⟨seen.single, ?_, ?_⟩
    · rw [same]
      exact seen.first
    · rw [same]
      exact seen.second
  | @skip k quiet pc _ idle after =>
    have here : s.pc.next = k := by rw [pc]; rfl
    have next : t.pc.next = k + 1 := by rw [after]; rfl
    have other : k ≠ i := by
      intro same
      exact idle f (same ▸ live) runnable
    rw [quiet, List.reverse_nil, List.nil_append]
    refine ⟨seen.single, ?_, ?_⟩
    · intro same j member
      have bound := seen.first same j member
      omega
    · intro again
      have bound := seen.second again
      refine ⟨by omega, ?_⟩
      intro j member
      have := bound.2 j member
      omega
  | @turn k g given pc there awake next =>
    have here : s.pc.next = k := by rw [pc]; rfl
    have there' : t.pc.next = k + 1 := by rw [next]; rfl
    have other : k ≠ i := by
      intro same
      exact untaken (by rw [given, same]; exact List.mem_singleton_self _)
    rw [given, List.reverse_singleton, List.singleton_append]
    have fresh : Turn.fiber k ∉ h := by
      intro member
      by_cases again : Turn.passEnd ∈ h
      · have bound := seen.second again
        have := bound.2 k member
        omega
      · have bound := seen.first again k member
        omega
    refine ⟨List.nodup_cons.mpr ⟨fresh, seen.single⟩, ?_, ?_⟩
    · intro same j member
      have same' : Turn.passEnd ∉ h := fun old => same (List.mem_cons_of_mem _ old)
      rcases List.mem_cons.mp member with new | old
      · have : j = k := by simpa using new
        omega
      · have bound := seen.first same' j old
        omega
    · intro again
      have again' : Turn.passEnd ∈ h := by simpa using again
      have bound := seen.second again'
      refine ⟨by omega, ?_⟩
      intro j member
      rcases List.mem_cons.mp member with new | old
      · have : j = k := by simpa using new
        omega
      · have := bound.2 j old
        omega
  | @finish k ended pc past next =>
    have here : s.pc.next = k := by rw [pc]; rfl
    rw [ended, List.reverse_singleton, List.singleton_append]
    have fresh : Turn.passEnd ∉ h := by
      intro again
      have bound := seen.second again
      omega
    refine ⟨List.nodup_cons.mpr ⟨fresh, seen.single⟩, ?_, ?_⟩
    · intro same
      exact absurd List.mem_cons_self same
    · intro _
      refine ⟨by omega, ?_⟩
      intro j member
      have old : Turn.fiber j ∈ h := by simpa using member
      have bound := seen.first fresh j old
      omega

/-- The run so far, as long as fiber `i` has not had its turn. -/
def Waited (c : Config σ γ) (i : Nat) (ctx : σ) (p : Runtime σ γ × List Turn) : Prop :=
  Formed c p.1 ∧ (Turn.fiber i ∉ p.2 → Awaits p.1 i ctx ∧ Overtaken i p.1.pc p.2)

theorem step_waited {c : Config σ γ} {i : Nat} {ctx : σ} {p q : Runtime σ γ × List Turn} {a : Act}
    (waited : Waited c i ctx p) (taken : turnStep c p a = some q) : Waited c i ctx q := by
  obtain ⟨moved, history⟩ := Machine.noted_eq_some.mp taken
  refine ⟨step_formed waited.1 moved, ?_⟩
  intro untaken
  rw [history, List.mem_append, List.mem_reverse, not_or] at untaken
  obtain ⟨awaits, seen⟩ := waited.2 untaken.2
  rw [history]
  exact ⟨awaits.step waited.1 moved untaken.1, seen.step awaits waited.1 moved untaken.1⟩

/-- While a runnable fiber has not been switched in, it stays runnable, no other fiber
is switched in twice, and the run loop does not end twice. -/
theorem runnable_fiber_overtaken_once (c : Config σ γ) (mem : γ) (detOn : Bool)
    (kinds : MutexId → MutexKind) (acts later : List Act) (s : Runtime σ γ)
    (reached : runActs c (.init mem detOn kinds) acts = some s) (i : Nat) (f : Fiber σ)
    (live : s.fibs i = some f) (runnable : f.Runnable) (outside : s.pc ≠ .slice i)
    (t : Runtime σ γ) (h : List Turn) (ran : Machine.run (turnStep c) (s, []) later = some (t, h))
    (untaken : Turn.fiber i ∉ h) :
    h.Nodup ∧ ∃ f', t.fibs i = some f' ∧ f'.Runnable ∧ f'.ctx = f.ctx := by
  have start : Waited c i f.ctx (s, []) :=
    ⟨reached_formed (init_formed c mem detOn kinds) reached,
      fun _ => ⟨⟨⟨f, live, runnable, rfl⟩, outside⟩, .start i s.pc⟩⟩
  have waited : Waited c i f.ctx (t, h) :=
    Machine.invariant_reached (fun _ _ _ waited taken => step_waited waited taken) start ran
  obtain ⟨awaits, seen⟩ := waited.2 untaken
  exact ⟨seen.single, awaits.1⟩

/-- Fiber `i` was runnable when the pass began, or waited on a condition that a fiber
which has had its turn can have signalled. -/
def Due (start : Runtime σ γ) (given : List Nat) (i : Nat) : Prop :=
  ∃ f, start.fibs i = some f ∧
    (f.Runnable ∨ (f.state = .waitCond ∧ ∃ j, j < i ∧ j ∈ given))

theorem Due.mono {start : Runtime σ γ} {given : List Nat} {i : Nat} (due : Due start given i)
    (k : Nat) : Due start (k :: given) i := by
  obtain ⟨f, live, runnable | ⟨waiting, j, below, member⟩⟩ := due
  · exact ⟨f, live, Or.inl runnable⟩
  · exact ⟨f, live, Or.inr ⟨waiting, j, below, List.mem_cons_of_mem k member⟩⟩

/-- One pass of the run loop, from `start` on, with the turns given so far. -/
structure Passing (start s : Runtime σ γ) (given : List Nat) : Prop where
  running : s.pc.inRunLoop = true
  inside : ∀ k, s.pc = .slice k → k ∈ given
  sorted : given.Pairwise (· > ·)
  below : ∀ j ∈ given, j < s.pc.next
  due : ∀ j ∈ given, Due start given j
  passed : ∀ i f, start.fibs i = some f → f.Runnable → i < s.pc.next → i ∈ given
  ahead : ∀ i f, start.fibs i = some f → f.Runnable → s.pc.next ≤ i →
    ∃ f', s.fibs i = some f' ∧ f'.Runnable
  origin : ∀ i f', s.fibs i = some f' → s.pc.next ≤ i → ∃ f, start.fibs i = some f ∧
    (f.state = f'.state ∨ f.state = .waitCond ∧ ∃ j, j < i ∧ j ∈ given)

theorem Passing.begin {s : Runtime σ γ} (pc : s.pc = .run 0) : Passing s s [] where
  running := by rw [pc]; rfl
  inside := by simp [pc]
  sorted := .nil
  below := by simp
  due := by simp
  passed := by simp [pc, Pc.next]
  ahead := fun i f live runnable _ => ⟨f, live, runnable⟩
  origin := fun i f live _ => ⟨f, live, Or.inl rfl⟩

/-- In the run loop a fiber that the loop has not come to keeps its state, or is woken
from a condition by the fiber that is switched in. -/
theorem ahead_move {c : Config σ γ} {s t : Runtime σ γ} {a : Act} {i : Nat} {f' : Fiber σ}
    (formed : Formed c s) (taken : step c s a = some t) (running : s.pc.inRunLoop = true)
    (live : t.fibs i = some f') (ahead : t.pc.next ≤ i) (reached : s.pc.next ≤ i) :
    ∃ f, s.fibs i = some f ∧ (f.state = f'.state ∨
      f.state = .waitCond ∧ f'.state = .run ∧ ∃ j, j < i ∧ s.pc = .slice j) := by
  rcases step_fiber taken live with ⟨f, was, moved⟩ | ⟨_, _, _, _, _, pc⟩
  · refine ⟨f, was, ?_⟩
    cases moved with
    | keep => exact Or.inl rfl
    | event pc | offloaded pc | expired pc =>
      rw [pc] at running
      cases running
    | @woken _ cv waiting on waker =>
      have fits := formed.fits i f was
      unfold Fiber.Fits at fits
      rw [waiting] at fits
      obtain ⟨cv', named⟩ := Option.ne_none_iff_exists'.mp fits.2
      cases waker cv' (on.symm.trans named) with
      | ring pc =>
        rw [pc] at running
        cases running
      | @fiber j _ _ pc =>
        rw [pc] at reached
        exact Or.inr ⟨waiting, rfl, j, reached, pc⟩
    | switchIn pc runnable =>
      have switched := taken
      rw [step_run formed pc was runnable, Option.some.injEq] at switched
      have next : t.pc.next = i + 1 := by rw [← switched, Runtime.switchIn_pc]; rfl
      omega
    | slice pc =>
      have next : s.pc.next = i + 1 := by rw [pc]; rfl
      omega
  · rw [pc] at running
    cases running

/-- Where the run loop stands after a step that does not end it. -/
theorem Advance.next_le {s t : Runtime σ γ} {a : Act} (advance : Advance s a t)
    (open_ : Turn.passEnd ∉ turns s a) : s.pc.next ≤ t.pc.next := by
  cases advance with
  | stay _ same => omega
  | @skip k _ pc _ _ after =>
    rw [pc, after]
    exact Nat.le_succ k
  | @turn k f _ pc _ _ after =>
    rw [pc, after]
    exact Nat.le_succ k
  | finish ended => exact absurd (ended ▸ List.mem_singleton_self _) open_

/-- The fibers the loop has not come to, one step later. -/
theorem Passing.later {c : Config σ γ} {start s t : Runtime σ γ} {a : Act} {given : List Nat}
    (passing : Passing start s given) (formed : Formed c s) (taken : step c s a = some t)
    (advance : s.pc.next ≤ t.pc.next) :
    (∀ i f, start.fibs i = some f → f.Runnable → t.pc.next ≤ i →
      ∃ f', t.fibs i = some f' ∧ f'.Runnable) ∧
    ∀ i f', t.fibs i = some f' → t.pc.next ≤ i → ∃ f, start.fibs i = some f ∧
      (f.state = f'.state ∨ f.state = .waitCond ∧ ∃ j, j < i ∧ j ∈ given) := by
  constructor
  · intro i f began runnable ahead
    obtain ⟨g, live, awake⟩ := passing.ahead i f began runnable (by omega)
    rcases step_keeps formed taken live with ⟨f', live'⟩ | ⟨_, done⟩
    · refine ⟨f', live', ?_⟩
      obtain ⟨g', was, same | ⟨waiting, _⟩⟩ :=
        ahead_move formed taken passing.running live' ahead (by omega)
      · rw [live, Option.some.injEq] at was
        unfold Fiber.Runnable at awake ⊢
        rwa [← same, ← was]
      · rw [live, Option.some.injEq] at was
        have asleep : g.state = .waitCond := was ▸ waiting
        exact absurd asleep (awake.ne nofun nofun)
    · exact absurd done (awake.ne nofun nofun)
  · intro i f' live ahead
    obtain ⟨g, was, same | ⟨waiting, _, j, below, pc⟩⟩ :=
      ahead_move formed taken passing.running live ahead (by omega)
    · obtain ⟨f, began, kept | woken⟩ := passing.origin i g was (by omega)
      · exact ⟨f, began, Or.inl (kept.trans same)⟩
      · exact ⟨f, began, Or.inr woken⟩
    · obtain ⟨f, began, kept | woken⟩ := passing.origin i g was (by omega)
      · exact ⟨f, began, Or.inr ⟨kept.trans waiting, j, below, passing.inside j pc⟩⟩
      · exact ⟨f, began, Or.inr woken⟩

/-- One step of the pass; `turns` is the fiber it switches in, if any. -/
theorem Passing.step {c : Config σ γ} {start s t : Runtime σ γ} {a : Act} {given : List Nat}
    (passing : Passing start s given) (formed : Formed c s)
    (taken : TransparentOffload.step c s a = some t) (open_ : Turn.passEnd ∉ turns s a) :
    ∃ given', (turns s a).reverse ++ given.map Turn.fiber = given'.map Turn.fiber ∧
      Passing start t given' := by
  have advance := step_advance taken
  obtain ⟨ahead, origin⟩ := passing.later formed taken (advance.next_le open_)
  cases advance with
  | stay quiet same running =>
    refine ⟨given, by rw [quiet]; rfl, ?_⟩
    refine ⟨running passing.running, ?_, passing.sorted, ?_, passing.due, ?_, ahead, origin⟩
    · intro k pc
      rcases step_switched taken pc with ⟨inside, _⟩ | ⟨inside, _⟩ | ⟨reached, _⟩
      · exact passing.inside k inside
      · exact passing.inside k inside
      · rw [pc, reached] at same
        change k + 1 = k at same
        omega
    · rw [same]
      exact passing.below
    · rw [same]
      exact passing.passed
  | @skip k quiet pc _ idle after =>
    have here : s.pc.next = k := by rw [pc]; rfl
    have next : t.pc.next = k + 1 := by rw [after]; rfl
    refine ⟨given, by rw [quiet]; rfl, ?_⟩
    refine ⟨by rw [after]; rfl, ?_, passing.sorted, ?_, passing.due, ?_, ahead, origin⟩
    · intro k' inside
      rw [after] at inside
      cases inside
    · intro j member
      have := passing.below j member
      omega
    · intro i f began runnable below
      by_cases last : i = k
      · obtain ⟨g, live, awake⟩ := passing.ahead i f began runnable (by omega)
        exact absurd awake (idle g (last ▸ live))
      · exact passing.passed i f began runnable (by omega)
  | @turn k g turned pc live awake after =>
    have here : s.pc.next = k := by rw [pc]; rfl
    have next : t.pc.next = k + 1 := by rw [after]; rfl
    refine ⟨k :: given, by rw [turned]; rfl, ?_⟩
    refine ⟨by rw [after]; rfl, ?_, ?_, ?_, ?_, ?_, ahead, ?_⟩
    · intro k' inside
      rw [after, Pc.slice.injEq] at inside
      exact inside ▸ List.mem_cons_self
    · refine List.pairwise_cons.mpr ⟨?_, passing.sorted⟩
      intro j member
      have := passing.below j member
      omega
    · intro j member
      rcases List.mem_cons.mp member with rfl | old
      · omega
      · have := passing.below j old
        omega
    · intro j member
      rcases List.mem_cons.mp member with rfl | old
      · obtain ⟨f, began, kept | ⟨waiting, i, below, member⟩⟩ := passing.origin j g live (by omega)
        · exact ⟨f, began, Or.inl (by unfold Fiber.Runnable at awake ⊢; rwa [kept])⟩
        · exact ⟨f, began, Or.inr ⟨waiting, i, below, List.mem_cons_of_mem j member⟩⟩
      · exact (passing.due j old).mono k
    · intro i f began runnable below
      by_cases last : i = k
      · exact last ▸ List.mem_cons_self
      · exact List.mem_cons_of_mem k (passing.passed i f began runnable (by omega))
    · intro i f' there beyond
      obtain ⟨f, began, kept | ⟨waiting, j, below, member⟩⟩ := origin i f' there beyond
      · exact ⟨f, began, Or.inl kept⟩
      · exact ⟨f, began, Or.inr ⟨waiting, j, below, List.mem_cons_of_mem k member⟩⟩
  | finish ended => exact absurd (ended ▸ List.mem_singleton_self _) open_

/-- The pass so far, until the run loop ends. -/
def Passed (c : Config σ γ) (start : Runtime σ γ) (p : Runtime σ γ × List Turn) : Prop :=
  Formed c p.1 ∧ (Turn.passEnd ∉ p.2 → ∃ given, p.2 = given.map Turn.fiber ∧
    Passing start p.1 given)

theorem step_passed {c : Config σ γ} {start : Runtime σ γ} {p q : Runtime σ γ × List Turn}
    {a : Act} (passed : Passed c start p) (taken : turnStep c p a = some q) :
    Passed c start q := by
  obtain ⟨moved, history⟩ := Machine.noted_eq_some.mp taken
  refine ⟨step_formed passed.1 moved, ?_⟩
  intro open_
  rw [history, List.mem_append, List.mem_reverse, not_or] at open_
  obtain ⟨given, same, passing⟩ := passed.2 open_.2
  obtain ⟨given', same', passing'⟩ := passing.step passed.1 moved open_.1
  exact ⟨given', by rw [history, same, same'], passing'⟩

/-- A pass of the run loop, up to the slot it has come to, switches fibers in once each
and in slot order: every fiber that was runnable when the pass began, and of the others
only those that a fiber ahead of them in the pass can have woken from a condition. -/
theorem pass_serves_in_slot_order (c : Config σ γ) (mem : γ) (detOn : Bool)
    (kinds : MutexId → MutexKind) (acts later : List Act) (s : Runtime σ γ)
    (reached : runActs c (.init mem detOn kinds) acts = some s) (began : s.pc = .run 0)
    (t : Runtime σ γ) (h : List Turn) (ran : Machine.run (turnStep c) (s, []) later = some (t, h))
    (open_ : Turn.passEnd ∉ h) :
    ∃ given, h = given.map Turn.fiber ∧ given.Pairwise (· > ·) ∧
      (∀ i ∈ given, i < t.pc.next ∧ Due s given i) ∧
      ∀ i f, s.fibs i = some f → f.Runnable → i < t.pc.next → i ∈ given := by
  have start : Passed c s (s, []) :=
    ⟨reached_formed (init_formed c mem detOn kinds) reached, fun _ => ⟨[], rfl, .begin began⟩⟩
  have passed : Passed c s (t, h) :=
    Machine.invariant_reached (fun _ _ _ passed taken => step_passed passed taken) start ran
  obtain ⟨given, same, passing⟩ := passed.2 open_
  refine ⟨given, same, passing.sorted, ?_, passing.passed⟩
  exact fun i member => ⟨passing.below i member, passing.due i member⟩

/-- A thread function that returns at once. -/
def returner : Config Unit Unit :=
  { app := { entry := fun _ => (), code := fun _ => .ret }
    gEnforce := false, gRealmutex := false, ssl := .absent, transform := id }

/-- Two fibers are created and taken in. -/
def twoCreated : List Act := [.create 0, .create 1, .carrier .quiet]

/-- The loop comes to its run loop, where fiber 0 has its turn and is freed. -/
def firstServed : List Act := List.replicate 11 (.carrier .quiet)

theorem firstServed_overtakes_once : ∃ s t f h,
    runActs returner (.init () false fun _ => .normal) twoCreated = some s ∧
    s.fibs 1 = some f ∧ f.Runnable ∧
    Machine.run (turnStep returner) (s, []) firstServed = some (t, h) ∧ h = [.fiber 0] ∧
    h.Nodup ∧ ∃ f', t.fibs 1 = some f' ∧ f'.Runnable ∧ f'.ctx = f.ctx := by
  refine ⟨_, _, _, _, rfl, rfl, Or.inl rfl, rfl, rfl, ?_⟩
  exact runnable_fiber_overtaken_once returner () false (fun _ => .normal) twoCreated firstServed _
    rfl 1 _ rfl (Or.inl rfl) (by decide) _ _ rfl (by decide)

/-- The two fibers are taken in and the carrier comes to its run loop. -/
def passBegun : List Act := twoCreated ++ List.replicate 8 (.carrier .quiet)

theorem passBegun_serves_both : ∃ s t h,
    runActs returner (.init () false fun _ => .normal) passBegun = some s ∧ s.pc = .run 0 ∧
    Machine.run (turnStep returner) (s, []) (List.replicate 6 (.carrier .quiet)) = some (t, h) ∧
    h = [.fiber 1, .fiber 0] ∧
    ∃ given, h = given.map Turn.fiber ∧ given.Pairwise (· > ·) ∧
      (∀ i ∈ given, i < t.pc.next ∧ Due s given i) ∧
      ∀ i f, s.fibs i = some f → f.Runnable → i < t.pc.next → i ∈ given :=
  ⟨_, _, _, rfl, rfl, rfl, rfl, pass_serves_in_slot_order returner () false (fun _ => .normal)
    passBegun (List.replicate 6 (.carrier .quiet)) _ rfl rfl _ _ rfl (by decide)⟩

end TransparentOffload
