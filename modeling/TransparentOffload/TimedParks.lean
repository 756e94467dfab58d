import TransparentOffload.Deadlines
import TransparentOffload.Formed

set_option autoImplicit false

/- Runs of the runtime with the readings of both clocks kept beside it, and when a
timed wait is marked timed out. -/
namespace TransparentOffload

variable {σ γ : Type}

/-- What the clocks read at a step of the carrier. -/
def Out.readings (out : Out) : Readings := ⟨out.real, out.mono⟩

/-- The timed wait that a call asks for, if it asks for one. -/
def Call.requested : Call σ γ → Option Requested
  | .poll _ _ timeout _ => if timeout < 0 then none else some (.lasting timeout)
  | .condWait _ _ (.timedwait abs) _ => some (.instant .realtime abs)
  | .condWait _ _ (.clockwait clk abs) _ => some (.instant clk abs)
  | _ => none

/-- Every instant that a thread function waits for is a valid one. -/
def App.ValidTimes (app : App σ γ) : Prop :=
  ∀ ctx r, (app.code ctx).requested = some r → r.Valid

/-- The fiber is about to make the timed wait `r`; a `poll` for none of the two
events, or with no timeout, is passed through. -/
structure Fiber.Parks (c : Config σ γ) (f : Fiber σ) (r : Requested) : Prop where
  place : f.place = .app
  asked : (c.app.code f.ctx).requested = some r
  waits : ∀ fd events timeout k, c.app.code f.ctx = .poll fd events timeout k →
    Runtime.pollEvents events ≠ .empty ∧ timeout ≠ 0

/-- The fiber is parked with a deadline. -/
def Fiber.TimedWait (f : Fiber σ) : Prop :=
  (f.state = .waitCond ∨ f.state = .waitIo) ∧ f.hasDeadline = true

/-- The runtime with readings of the clocks beside it: of each slot those at its latest
slice, which is where its fiber parks, and those that the deadline pass goes by. -/
structure Timed (σ γ : Type) where
  rt : Runtime σ γ
  parked : Nat → Readings
  pass : Readings

namespace Timed

def init (mem : γ) (detOn : Bool) (kinds : MutexId → MutexKind) : Timed σ γ :=
  ⟨.init mem detOn kinds, fun _ => ⟨.zero, .zero⟩, ⟨.zero, .zero⟩⟩

def parkedAfter (s : Timed σ γ) (a : Act) : Nat → Readings :=
  match a, s.rt.pc with
  | .carrier out, .slice i => Function.update s.parked i out.readings
  | _, _ => s.parked

theorem parkedAfter_aside (s : Timed σ γ) {a : Act} {i : Nat} (aside : s.rt.pc ≠ .slice i) :
    s.parkedAfter a i = s.parked i := by
  unfold parkedAfter
  cases a with
  | carrier out =>
    cases pc : s.rt.pc with
    | slice j =>
      have other : i ≠ j := by
        intro same
        exact aside (same ▸ pc)
      exact Function.update_of_ne other ..
    | _ => rfl
  | _ => rfl

/-- A pass that has read the clock goes on by that reading. -/
def passReadings (s : Timed σ γ) (out : Out) : Readings :=
  match s.rt.pc with
  | .deadlines _ (some _) => s.pass
  | _ => out.readings

def passAfter (s : Timed σ γ) (a : Act) : Readings :=
  match a with
  | .carrier out => s.passReadings out
  | _ => s.pass

end Timed

/-- One step of any party; the readings are kept and no step reads them. -/
def timedStep (c : Config σ γ) (s : Timed σ γ) (a : Act) : Option (Timed σ γ) :=
  (step c s.rt a).map fun t => ⟨t, s.parkedAfter a, s.passAfter a⟩

theorem timedStep_eq_some {c : Config σ γ} {s t : Timed σ γ} {a : Act} :
    timedStep c s a = some t ↔
      step c s.rt a = some t.rt ∧ t.parked = s.parkedAfter a ∧ t.pass = s.passAfter a := by
  rw [timedStep, Option.map_eq_some_iff]
  constructor
  · intro found
    obtain ⟨u, taken, rfl⟩ := found
    exact ⟨taken, rfl, rfl⟩
  · intro all
    obtain ⟨taken, parked, pass⟩ := all
    refine ⟨t.rt, taken, ?_⟩
    rw [← parked, ← pass]

theorem timedStep_of_step {c : Config σ γ} {s : Timed σ γ} {t : Runtime σ γ} {a : Act}
    (ran : step c s.rt a = some t) :
    timedStep c s a = some ⟨t, s.parkedAfter a, s.passAfter a⟩ := by
  rw [timedStep, ran, Option.map_some]

/-- Timed parks measure the requested time: a park stores a normalized deadline that
its arithmetic computes without overflow, and a wait is marked timed out only when its
own clock has reached the instant it asked for. -/
structure Measures (c : Config σ γ) (s : Timed σ γ) (a : Act) : Prop where
  park : ∀ out i f r, a = .carrier out → s.rt.pc = .slice i → s.rt.fibs i = some f →
    f.Parks c r → ∀ t, timedStep c s a = some t → ∃ f', t.rt.fibs i = some f' ∧ f'.TimedWait ∧
      f'.deadline.Normalized ∧ r.computed out.readings = some f'.deadline
  expire : ∀ i f f' t, s.rt.fibs i = some f → f.TimedWait → timedStep c s a = some t →
    t.rt.fibs i = some f' → f'.timedOut = true →
      ∃ r, (c.app.code f.ctx).requested = some r ∧ r.ReachedBy (s.parked i) t.pass

/-- There is room for every deadline, and whenever one is checked the wall clock is not
ahead of the clock that the wait is expressed in by the whole of the wait. -/
structure ClocksInStep (c : Config σ γ) (s : Timed σ γ) (a : Act) : Prop where
  room : ∀ out i f r, a = .carrier out → s.rt.pc = .slice i → s.rt.fibs i = some f →
    f.Parks c r → r.Room out.readings
  inStep : ∀ out i now f r, a = .carrier out → s.rt.pc = .deadlines i now →
    s.rt.fibs i = some f → f.TimedWait → (c.app.code f.ctx).requested = some r →
      r.InStep (s.parked i) (s.passReadings out)

/-- What a parked fiber's fields keep of its request, when `V` holds of the readings. -/
structure Fiber.Kept (c : Config σ γ) (V : Readings → Prop) (f : Fiber σ) (at_ : Readings) :
    Prop where
  flag : f.timedOut = false
  asked : ∃ r, (c.app.code f.ctx).requested = some r ∧ f.deadline = r.stored at_
  reads : V at_

/-- A runnable fiber is not in a timed wait. -/
theorem Fiber.Runnable.untimed {f : Fiber σ} (runnable : f.Runnable) : ¬ f.TimedWait := by
  intro parked
  rcases parked.1 with cond | io
  · exact absurd cond (runnable.ne nofun nofun)
  · exact absurd io (runnable.ne nofun nofun)

namespace Runtime

/-- One check of the deadline pass hands on the reading it used. -/
theorem deadlineStep_clock {s : Runtime σ γ} {i j : Nat} {before : Option Timespec}
    {clock now : Timespec} (pc : (s.deadlineStep i before clock).pc = .deadlines j (some now)) :
    now = before.getD clock := by
  unfold deadlineStep at pc
  split at pc
  · split at pc
    · cases pc
      rfl
    · split at pc
      · dsimp only at pc
        split at pc <;> (cases pc; rfl)
      · cases pc
        rfl
  · cases pc

/-- The deadline pass keeps the reading it has, or takes the clock's. -/
theorem carrier_clock {c : Config σ γ} {s s' : Runtime σ γ} {out : Out} {j : Nat}
    {now : Timespec} (taken : s.carrier c out = some s') (pc : s'.pc = .deadlines j (some now)) :
    ∃ i before, s.pc = .deadlines i before ∧ now = before.getD out.real := by
  cases here : s.pc with
  | deadlines i before =>
    refine ⟨i, before, rfl, ?_⟩
    rw [carrier, here, Option.some.injEq] at taken
    subst taken
    exact deadlineStep_clock pc
  | slice i =>
    obtain ⟨f, live, slice⟩ := step_slice here taken
    obtain ⟨_, _, _, _, _, back | ⟨same, _⟩⟩ := slice_fibs slice
    · rw [back] at pc
      cases pc
    · rw [same, here] at pc
      cases pc
  | intake =>
    rw [carrier, here, Option.some.injEq, intake_eq] at taken
    rw [← taken] at pc
    cases pc
  | epoll =>
    rw [carrier, here, Option.some.injEq] at taken
    rw [← taken] at pc
    cases pc
  | offloads i =>
    rw [carrier, here, Option.some.injEq] at taken
    rw [← taken] at pc
    unfold offloadStep at pc
    split at pc
    · dsimp only at pc
      split at pc
      · cases pc
      · split at pc <;> cases pc
    · cases pc
  | drain =>
    rw [carrier, here, Option.some.injEq] at taken
    rw [← taken] at pc
    unfold drainStep at pc
    split at pc
    · change s.pc = _ at pc
      rw [here] at pc
      cases pc
    · cases pc
  | run i =>
    rw [carrier, here, Option.some.injEq] at taken
    rw [← taken] at pc
    unfold runStep at pc
    split at pc
    · split at pc
      · cases pc
      · split at pc
        · rw [switchIn_pc] at pc
          cases pc
        · cases pc
    · cases pc
  | back i =>
    rw [carrier, here, Option.some.injEq] at taken
    rw [← taken] at pc
    unfold reap at pc
    dsimp only at pc
    split at pc
    · cases pc
    · split at pc <;> cases pc

end Runtime

/-- A slice leaves its fiber in a timed wait only if it parks it, with the readings
of that very step. -/
theorem SliceMove.kept {c : Config σ γ} {V : Readings → Prop} {f f' : Fiber σ} {out : Out}
    (moved : SliceMove c f out f') (awake : f.Runnable) (reads : V out.readings)
    (parked : f'.TimedWait) : f'.Kept c V out.readings := by
  cases moved with
  | back => exact absurd parked awake.untimed
  | io => cases parked.2
  | poll => cases parked.2
  | @pollTimed fd events timeout k code timed =>
    refine ⟨rfl, ⟨.lasting timeout, ?_, rfl⟩, reads⟩
    change (c.app.code f.ctx).requested = _
    rw [code]
    exact if_neg timed
  | offload => rcases parked.1 with other | other <;> cases other
  | run => rcases parked.1 with other | other <;> cases other
  | @cond cv m call k code =>
    refine ⟨rfl, ?_, reads⟩
    dsimp only
    rw [code]
    cases call with
    | wait => cases parked.2
    | timedwait abs => exact ⟨_, rfl, rfl⟩
    | clockwait clk abs =>
      refine ⟨_, rfl, ?_⟩
      cases clk with
      | realtime => rfl
      | monotonic => rfl
  | done => rcases parked.1 with other | other <;> cases other

/-- The clocks read what `V` allows. -/
def ClocksRead (V : Readings → Prop) : Act → Prop
  | .carrier out => V out.readings
  | _ => True

instance (V : Readings → Prop) [DecidablePred V] : DecidablePred (ClocksRead V)
  | .carrier out => inferInstanceAs (Decidable (V out.readings))
  | .create _ | .condReserve _ | .condPublish _ _ | .threadLock _ _ | .threadUnlock _ _ =>
    isTrue trivial
  | .arrive _ _ | .hangup _ | .device _ => isTrue trivial

theorem FiberMove.kept {c : Config σ γ} {V : Readings → Prop} {s : Timed σ γ} {i : Nat}
    {f f' : Fiber σ} {a : Act} (moved : FiberMove c s.rt i f a f')
    (running : s.rt.pc = .slice i → f.Runnable) (clocks : ClocksRead V a)
    (kept : f.TimedWait → f.Kept c V (s.parked i)) (parked : f'.TimedWait) :
    f'.Kept c V (s.parkedAfter a i) := by
  cases moved with
  | keep =>
    have aside : s.rt.pc ≠ .slice i := fun pc => (running pc).untimed parked
    rw [s.parkedAfter_aside aside]
    exact kept parked
  | event | offloaded | woken | expired => rcases parked.1 with other | other <;> cases other
  | switchIn pc runnable => exact absurd parked (Fiber.Runnable.switchedIn runnable).untimed
  | @slice out _ pc moved =>
    have here : s.parkedAfter (.carrier out) i = out.readings := by
      unfold Timed.parkedAfter
      rw [pc]
      exact Function.update_self ..
    rw [here]
    exact moved.kept (running pc) clocks parked

/-- In every reachable state a parked fiber's deadline is the one of its request, and
the reading that a pass goes by is one of the wall clock. -/
structure TimedInv (c : Config σ γ) (V : Readings → Prop) (s : Timed σ γ) : Prop where
  formed : Formed c s.rt
  kept : ∀ i f, s.rt.fibs i = some f → f.TimedWait → f.Kept c V (s.parked i)
  clock : ∀ j now, s.rt.pc = .deadlines j (some now) → s.pass.real = now ∧ V s.pass

theorem init_timedInv (c : Config σ γ) (V : Readings → Prop) (mem : γ) (detOn : Bool)
    (kinds : MutexId → MutexKind) : TimedInv c V (.init mem detOn kinds) := by
  refine ⟨init_formed c mem detOn kinds, ?_, ?_⟩
  · intro i f live
    cases live
  · intro j now pc
    cases pc

theorem TimedInv.passReadings {c : Config σ γ} {V : Readings → Prop} {s : Timed σ γ}
    (inv : TimedInv c V s) {out : Out} (reads : V out.readings) {i : Nat} {now : Option Timespec}
    (pc : s.rt.pc = .deadlines i now) :
    (s.passReadings out).real = now.getD out.real ∧ V (s.passReadings out) := by
  unfold Timed.passReadings
  rw [pc]
  cases now with
  | none => exact ⟨rfl, reads⟩
  | some read => exact inv.clock i read pc

theorem step_timedInv {c : Config σ γ} {V : Readings → Prop} {s t : Timed σ γ} {a : Act}
    (inv : TimedInv c V s) (clocks : ClocksRead V a) (taken : timedStep c s a = some t) :
    TimedInv c V t := by
  obtain ⟨ran, parked, pass⟩ := timedStep_eq_some.mp taken
  refine ⟨step_formed inv.formed ran, ?_, ?_⟩
  · intro i f' live timed
    rw [parked]
    rcases step_fiber ran live with ⟨f, was, moved⟩ | ⟨g, waiting, rfl, _⟩
    · exact moved.kept (inv.formed.runnable was) clocks (inv.kept i f was) timed
    · obtain ⟨arg, number, rfl⟩ := inv.formed.queue g waiting
      rcases timed.1 with other | other <;> cases other
  · intro j now pc
    rw [pass]
    by_cases other : ∀ out, a ≠ .carrier out
    · rw [(step_other ran other).1] at pc
      have same : s.passAfter a = s.pass := by
        unfold Timed.passAfter
        split
        · rename_i out
          exact absurd rfl (other out)
        · rfl
      rw [same]
      exact inv.clock j now pc
    · rw [not_forall_not] at other
      obtain ⟨out, rfl⟩ := other
      obtain ⟨i, before, was, rfl⟩ := Runtime.carrier_clock ran pc
      exact inv.passReadings clocks was

/-- A timed wait that is about to be made is made, with the deadline of its request. -/
theorem Fiber.Parks.stores {c : Config σ γ} {s : Runtime σ γ} {i : Nat} {f : Fiber σ}
    {r : Requested} (parks : f.Parks c r) (pc : s.pc = .slice i) (live : s.fibs i = some f)
    (out : Out) : ∃ t f', step c s (.carrier out) = some t ∧ t.fibs i = some f' ∧
      f'.TimedWait ∧ f'.deadline = r.stored out.readings := by
  have executed : step c s (.carrier out) = s.exec c i f out := by
    change s.carrier c out = _
    rw [Runtime.carrier, pc]
    dsimp only
    rw [live]
  rw [executed, Runtime.exec, parks.place]
  have asked := parks.asked
  cases code : c.app.code f.ctx with
  | poll fd events timeout k =>
    rw [code] at asked
    obtain ⟨events', timeout'⟩ := parks.waits fd events timeout k code
    have waits : ¬ (Runtime.pollEvents events = .empty ∨ timeout = 0) :=
      not_or.mpr ⟨events', timeout'⟩
    change (if timeout < 0 then none else some (Requested.lasting timeout)) = some r at asked
    by_cases timed : timeout < 0
    · rw [if_pos timed] at asked
      cases asked
    · rw [if_neg timed, Option.some.injEq] at asked
      subst asked
      dsimp only
      unfold Runtime.poll Runtime.yieldIoTo
      rw [if_neg waits, if_neg timed]
      exact ⟨_, _, rfl, Function.update_self .., ⟨Or.inr rfl, rfl⟩, rfl⟩
  | condWait cv m call k =>
    rw [code] at asked
    cases call with
    | wait => cases asked
    | timedwait abs =>
      cases asked
      exact ⟨_, _, rfl, Function.update_self .., ⟨Or.inl rfl, rfl⟩, rfl⟩
    | clockwait clk abs =>
      cases asked
      refine ⟨_, _, rfl, Function.update_self .., ⟨Or.inl rfl, rfl⟩, ?_⟩
      cases clk with
      | realtime => rfl
      | monotonic => rfl
  | _ =>
    rw [code] at asked
    cases asked

/-- A timed wait is marked timed out by the deadline pass alone, past its deadline. -/
theorem TimedInv.marked {c : Config σ γ} {V : Readings → Prop} {s : Timed σ γ}
    {t : Runtime σ γ} {a : Act} {i : Nat} {f f' : Fiber σ} (inv : TimedInv c V s)
    (ran : step c s.rt a = some t) (live : s.rt.fibs i = some f) (parked : f.TimedWait)
    (live' : t.fibs i = some f') (flag : f'.timedOut = true) : ∃ out now, a = .carrier out ∧ s.rt.pc = .deadlines i now ∧
      f.deadline.reached (now.getD out.real) = true := by
  have unmarked := (inv.kept i f live parked).flag
  have moved := step_moved inv.formed ran live live'
  cases moved with
  | keep =>
    rw [unmarked] at flag
    cases flag
  | event | offloaded | woken =>
    change f.timedOut = true at flag
    rw [unmarked] at flag
    cases flag
  | @expired out now pc waiting timed past => exact ⟨out, now, rfl, pc, past⟩
  | switchIn pc runnable => exact absurd parked (Fiber.Runnable.untimed runnable)
  | slice pc => exact absurd parked (inv.formed.runnable live pc).untimed

/-- The deadline pass marks a wait that is past its deadline. -/
theorem Runtime.expire_marks {c : Config σ γ} {s : Runtime σ γ} {i : Nat} {f : Fiber σ}
    {now : Option Timespec} {out : Out} (formed : Formed c s) (pc : s.pc = .deadlines i now)
    (live : s.fibs i = some f) (parked : f.TimedWait)
    (past : f.deadline.reached (now.getD out.real) = true) :
    ∃ t f', step c s (.carrier out) = some t ∧ t.fibs i = some f' ∧ f'.timedOut = true := by
  have inside := (formed.slots i f live).2
  have ran : step c s (.carrier out) = some (s.deadlineStep i now out.real) := by
    change s.carrier c out = _
    rw [carrier, pc]
  have marked : (s.deadlineStep i now out.real).fibs i =
      some { f with timedOut := true, state := .run, waitcond := none, wake := .deadline } := by
    unfold Fiber.TimedWait at parked
    unfold deadlineStep
    rw [if_pos inside, live]
    dsimp only
    rw [if_pos parked, if_pos past]
    exact Function.update_self ..
  exact ⟨_, _, ran, marked, rfl⟩

/-- With room for its deadline a park stores it right. -/
theorem Fiber.Parks.stores_iff {c : Config σ γ} {s : Timed σ γ} {i : Nat} {f : Fiber σ}
    {r : Requested} {out : Out} (parks : f.Parks c r) (asked : r.Valid)
    (clocks : out.readings.Valid) (pc : s.rt.pc = .slice i) (live : s.rt.fibs i = some f) :
    (∀ t, timedStep c s (.carrier out) = some t → ∃ f', t.rt.fibs i = some f' ∧ f'.TimedWait ∧
      f'.deadline.Normalized ∧ r.computed out.readings = some f'.deadline) ↔
    r.Room out.readings := by
  obtain ⟨t, f', ran, live', parked, deadline⟩ := parks.stores pc live out
  rw [← Requested.computed_iff asked clocks]
  constructor
  · intro stored
    obtain ⟨g, live'', _, _, computed⟩ := stored _ (timedStep_of_step ran)
    have same : g = f' := Option.some.inj (live''.symm.trans live')
    rw [computed, same, deadline]
  · intro computed u taken
    have same : u.rt = t := Option.some.inj ((timedStep_eq_some.mp taken).1.symm.trans ran)
    refine ⟨f', same ▸ live', parked, ?_, ?_⟩
    · rw [deadline]
      exact Requested.stored_normalized asked clocks
    · rw [computed, deadline]

/-- A check marks no wait too early exactly when the wall clock is not ahead by the
whole wait. -/
theorem TimedInv.inStep_iff {c : Config σ γ} {s : Timed σ γ} {i : Nat} {now : Option Timespec}
    {f : Fiber σ} {r : Requested} {out : Out} (inv : TimedInv c Readings.Valid s)
    (valid : r.Valid) (clocks : out.readings.Valid) (pc : s.rt.pc = .deadlines i now)
    (live : s.rt.fibs i = some f) (parked : f.TimedWait)
    (asked : (c.app.code f.ctx).requested = some r) :
    (f.deadline.reached (now.getD out.real) = true →
      r.ReachedBy (s.parked i) (s.passReadings out)) ↔
    r.InStep (s.parked i) (s.passReadings out) := by
  have kept := inv.kept i f live parked
  obtain ⟨r', asked', deadline⟩ := kept.asked
  have same : r' = r := Option.some.inj (asked'.symm.trans asked)
  subst same
  obtain ⟨real, reads⟩ := inv.passReadings clocks pc
  rw [deadline, ← real, Requested.stored_reached_iff valid kept.reads reads,
    Requested.reachedBy_iff]
  rfl

theorem TimedInv.agree {c : Config σ γ} {s : Timed σ γ} {a : Act}
    (inv : TimedInv c Readings.Valid s) (times : c.app.ValidTimes)
    (clocks : ClocksRead Readings.Valid a) : Measures c s a ↔ ClocksInStep c s a := by
  constructor
  · intro measures
    constructor
    · intro out i f r same pc live parks
      have stored := measures.park out i f r same pc live parks
      subst same
      exact (parks.stores_iff (times f.ctx r parks.asked) clocks pc live).mp stored
    · intro out i now f r same pc live parked asked
      subst same
      apply (inv.inStep_iff (times f.ctx r asked) clocks pc live parked asked).mp
      intro past
      obtain ⟨t, f', ran, live', flag⟩ := Runtime.expire_marks inv.formed pc live parked past
      obtain ⟨r', asked', reached⟩ :=
        measures.expire i f f' _ live parked (timedStep_of_step ran) live' flag
      have same : r' = r := Option.some.inj (asked'.symm.trans asked)
      exact same ▸ reached
  · intro inStep
    constructor
    · intro out i f r same pc live parks
      have room := inStep.room out i f r same pc live parks
      subst same
      exact (parks.stores_iff (times f.ctx r parks.asked) clocks pc live).mpr room
    · intro i f f' t live parked taken live' flag
      obtain ⟨ran, _, pass⟩ := timedStep_eq_some.mp taken
      obtain ⟨out, now, rfl, pc, past⟩ := inv.marked ran live parked live' flag
      obtain ⟨r, asked, _⟩ := (inv.kept i f live parked).asked
      have checked := inStep.inStep out i now f r rfl pc live parked asked
      refine ⟨r, asked, ?_⟩
      rw [pass]
      exact (inv.inStep_iff (times f.ctx r asked) clocks pc live parked asked).mpr checked past

/-- The readings of a wall clock that keeps its distance from the monotonic clock. -/
def Readings.Apart (distance : Int) (a : Readings) : Prop :=
  a.Valid ∧ a.real.ns - a.mono.ns = distance

instance (distance : Int) : DecidablePred (Readings.Apart distance) := fun a =>
  inferInstanceAs (Decidable (a.Valid ∧ a.real.ns - a.mono.ns = distance))

/-- A wall clock that is never stepped is never ahead. -/
theorem TimedInv.inStep_of_apart {c : Config σ γ} {distance : Int} {s : Timed σ γ} {i : Nat}
    {now : Option Timespec} {f : Fiber σ} {r : Requested} {out : Out}
    (inv : TimedInv c (Readings.Apart distance) s) (clocks : out.readings.Apart distance)
    (pc : s.rt.pc = .deadlines i now) (live : s.rt.fibs i = some f) (parked : f.TimedWait) :
    r.InStep (s.parked i) (s.passReadings out) := by
  have before := (inv.kept i f live parked).reads.2
  have later := (inv.passReadings clocks pc).2.2
  unfold Requested.InStep Readings.on
  intro passed
  split
  · exact passed
  · omega

/-- So where the deadlines have room, an unstepped wall clock is all that the condition
asks for. -/
theorem clocksInStep_of_apart {c : Config σ γ} {mem : γ} {detOn : Bool}
    {kinds : MutexId → MutexKind} {acts : List Act} {distance : Int}
    (clocks : ∀ a ∈ acts, ClocksRead (Readings.Apart distance) a)
    (room : ∀ f r, Fiber.Parks c f r → ∀ out, .carrier out ∈ acts → r.Room out.readings) :
    Machine.Guarded (timedStep c) (ClocksInStep c) (.init mem detOn kinds) acts := by
  have always : Machine.Guarded (timedStep c) (fun _ _ => True) (.init mem detOn kinds) acts :=
    Machine.guarded_of_mem (fun _ _ _ => trivial) _
  refine (Machine.guarded_congr_of_allowed (H := fun _ a => a ∈ acts)
    (I := TimedInv c (Readings.Apart distance)) ?_ ?_ ?_ ?_).mp always
  · intro s a inv member
    refine ⟨fun _ => ⟨?_, ?_⟩, fun _ => trivial⟩
    · intro out i f r same pc live parks
      subst same
      exact room f r parks out member
    · intro out i now f r same pc live parked asked
      subst same
      exact inv.inStep_of_apart (clocks _ member) pc live parked
  · exact fun _ _ _ inv member taken => step_timedInv inv (clocks _ member) taken
  · exact init_timedInv c _ mem detOn kinds
  · exact Machine.guarded_of_mem (fun _ member _ => member) _

/-- In every run, whatever the clocks read, the timed parks measure the time they were
asked to exactly when every deadline has room in a `time_t` and at no check has the wall
clock gone through a wait ahead of the clock that the wait is expressed in. -/
theorem timed_parks_measure_iff (c : Config σ γ) (mem : γ) (detOn : Bool)
    (kinds : MutexId → MutexKind) (acts : List Act) (times : c.app.ValidTimes)
    (clocks : ∀ a ∈ acts, ClocksRead Readings.Valid a) :
    Machine.Guarded (timedStep c) (Measures c) (.init mem detOn kinds) acts ↔
      Machine.Guarded (timedStep c) (ClocksInStep c) (.init mem detOn kinds) acts := by
  apply Machine.guarded_congr_of_allowed (H := fun _ a => ClocksRead Readings.Valid a)
    (I := TimedInv c Readings.Valid)
  · exact fun _ _ inv clocks => inv.agree times clocks
  · exact fun _ _ _ inv clocks taken => step_timedInv inv clocks taken
  · exact init_timedInv c _ mem detOn kinds
  · exact Machine.guarded_of_mem (fun a member _ => clocks a member) _

/-- A thread function that takes a mutex and then makes one call. -/
def oneCall (call : Call Nat Unit) : Config Nat Unit :=
  { app :=
      { entry := id
        code := fun at_ => match at_ with
          | 0 => .mutexLock 0 fun _ => 1
          | 1 => call
          | _ => .ret }
    gEnforce := false, gRealmutex := false, ssl := .absent, transform := id }

/-- A `poll` of descriptor 3 for at most 5 milliseconds. -/
def shortPoll : Config Nat Unit := oneCall (.poll 3 1 5 fun result _ => 2 + result.toNat)

/-- A condition wait that is never to time out. -/
def endlessWait : Config Nat Unit :=
  oneCall (.condWait 0 0 (.clockwait .monotonic ⟨longMax, 0⟩) fun result => 2 + result)

/-- A step of the carrier with both clocks so many milliseconds on. -/
def clocksAt (real mono : Int) : Act :=
  .carrier { Out.quiet with
    real := ⟨100 + real / 1000, real % 1000 * 1000000⟩
    mono := ⟨50 + mono / 1000, mono % 1000 * 1000000⟩ }

/-- The fiber is created and comes to its call. -/
def toTheCall : List Act := .create 0 :: List.replicate 9 (clocksAt 0 0)

/-- It parks, and the carrier comes round to the deadlines. -/
def toTheDeadlines : List Act := .create 0 :: List.replicate 17 (clocksAt 0 0)

theorem oneCall_validTimes {call : Call Nat Unit} {r : Requested}
    (asks : call.requested = some r) (valid : r.Valid) : (oneCall call).app.ValidTimes := by
  intro ctx r' asked
  match ctx with
  | 0 => cases asked
  | 1 =>
    change call.requested = some r' at asked
    rw [asks, Option.some.injEq] at asked
    exact asked ▸ valid
  | n + 2 => cases asked

theorem shortPoll_validTimes : shortPoll.app.ValidTimes :=
  oneCall_validTimes (r := .lasting 5) rfl (by decide)

theorem shortPoll_room {r : Requested} {f : Fiber Nat} (parks : f.Parks shortPoll r)
    {a : Readings} (early : a.real.tvSec ≤ 100) : r.Room a := by
  have asked := parks.asked
  have max : longMax = 9223372036854775807 := rfl
  match at_ : f.ctx with
  | 0 =>
    rw [at_] at asked
    cases asked
  | 1 =>
    rw [at_] at asked
    cases asked
    unfold Requested.Room
    dsimp only
    split <;> omega
  | n + 2 =>
    rw [at_] at asked
    cases asked

/-- With both clocks 5 milliseconds on the poll has timed out, and rightly so. -/
theorem timed_parks_measure_iff_steady :
    (∃ s f, Machine.run (timedStep shortPoll) (.init () false fun _ => .normal)
        (toTheDeadlines ++ [clocksAt 5 5]) = some s ∧
      s.rt.fibs 0 = some f ∧ f.timedOut = true) ∧
    Machine.Guarded (timedStep shortPoll) (Measures shortPoll) (.init () false fun _ => .normal)
      (toTheDeadlines ++ [clocksAt 5 5]) := by
  have clocks : ∀ a ∈ toTheDeadlines ++ [clocksAt 5 5],
      ClocksRead (Readings.Apart 50000000000) a := by decide
  have valid : ∀ a ∈ toTheDeadlines ++ [clocksAt 5 5], ClocksRead Readings.Valid a := by decide
  have early : ∀ a ∈ toTheDeadlines ++ [clocksAt 5 5],
      ClocksRead (fun reads => reads.real.tvSec ≤ 100) a := by decide
  refine ⟨⟨_, _, rfl, rfl, rfl⟩, ?_⟩
  apply (timed_parks_measure_iff shortPoll () false (fun _ => .normal) _ shortPoll_validTimes
    valid).mpr
  exact clocksInStep_of_apart clocks fun f r parks out member =>
    shortPoll_room parks (early _ member)

/-- The state in which the poll is about to be checked. -/
def checkedPoll : Timed Nat Unit :=
  (Machine.run (timedStep shortPoll) (.init () false fun _ => .normal) toTheDeadlines).get
    (by decide +kernel)

/-- The state in which the endless wait is about to be made. -/
def madeWait : Timed Nat Unit :=
  (Machine.run (timedStep endlessWait) (.init () false fun _ => .normal) toTheCall).get
    (by decide +kernel)

/-- An hour's step of the wall clock ends a poll of 5 milliseconds after one of them, and
a wait for the last instant of the monotonic clock overflows. -/
theorem stepped_clock_ends_poll :
    (shortPoll.app.ValidTimes ∧
      (∀ a ∈ toTheDeadlines ++ [clocksAt 3600000 1], ClocksRead Readings.Valid a) ∧
      ¬ Machine.Guarded (timedStep shortPoll) (Measures shortPoll)
        (.init () false fun _ => .normal) (toTheDeadlines ++ [clocksAt 3600000 1])) ∧
    endlessWait.app.ValidTimes ∧
      (∀ a ∈ toTheCall ++ [clocksAt 0 0], ClocksRead Readings.Valid a) ∧
      ¬ Machine.Guarded (timedStep endlessWait) (Measures endlessWait)
        (.init () false fun _ => .normal) (toTheCall ++ [clocksAt 0 0]) := by
  refine ⟨⟨shortPoll_validTimes, by decide, ?_⟩, ?_, by decide, ?_⟩
  · intro guarded
    have reached : Machine.run (timedStep shortPoll) (.init () false fun _ => .normal)
        toTheDeadlines = some checkedPoll := (Option.some_get _).symm
    have measures : Measures shortPoll checkedPoll (clocksAt 3600000 1) :=
      ((Machine.Guarded.append reached).mp guarded).2.1
    obtain ⟨r, asked, late⟩ :=
      measures.expire 0 _ _ _ rfl ⟨Or.inr rfl, rfl⟩ rfl rfl rfl
    cases asked
    exact absurd late (by decide +kernel)
  · exact oneCall_validTimes (r := .instant .monotonic ⟨longMax, 0⟩) rfl (by decide)
  · intro guarded
    have reached : Machine.run (timedStep endlessWait) (.init () false fun _ => .normal)
        toTheCall = some madeWait := (Option.some_get _).symm
    have measures : Measures endlessWait madeWait (clocksAt 0 0) :=
      ((Machine.Guarded.append reached).mp guarded).2.1
    obtain ⟨f', _, _, _, computed⟩ :=
      measures.park _ 0 _ (.instant .monotonic ⟨longMax, 0⟩) rfl rfl rfl ⟨rfl, rfl, nofun⟩ _ rfl
    cases computed

end TransparentOffload
