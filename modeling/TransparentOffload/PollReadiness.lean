import TransparentOffload.TimedParks
import TransparentOffload.Wakeups

set_option autoImplicit false

/- What a fiber's `poll` reports, against the conditions that held of its descriptor
when its wait ended. The conditions are bits as in `events`, and change at will. -/
namespace TransparentOffload

variable {σ γ : Type}

/-- `POLLERR`, `POLLHUP` and `POLLNVAL`, which `poll` reports unasked. -/
def pollUnasked : Nat := 0x038

/-- Every bit of the first mask is in the second. -/
def Within (bits mask : Nat) : Prop := bits &&& mask = bits

instance (bits mask : Nat) : Decidable (Within bits mask) :=
  inferInstanceAs (Decidable (_ = _))

/-- What ended the latest wait of a slot: an event, with the conditions that held of the
descriptor at that moment, or the readings of the clocks at the pass that found its deadline
to be over. -/
inductive Ended
  | event (ready : Nat)
  | deadline (now : Readings)
  deriving DecidableEq, Repr

/-- The runtime, with the readings of the clocks and what ended the waits on descriptors kept
beside it. -/
structure Watched (σ γ : Type) where
  timed : Timed σ γ
  ended : Nat → Option Ended

namespace Watched

def init (mem : γ) (detOn : Bool) (kinds : MutexId → MutexKind) : Watched σ γ :=
  ⟨.init mem detOn kinds, fun _ => none⟩

abbrev rt (s : Watched σ γ) : Runtime σ γ := s.timed.rt

/-- A slot's entry is written at each pass that may end its wait. -/
def note (s : Watched σ γ) (i : Nat) (e : Fiber σ → Ended) : Option Ended :=
  match s.rt.fibs i with
  | some f => if f.state = .waitIo then some (e f) else s.ended i
  | none => s.ended i

def endedAfter (s : Watched σ γ) (a : Act) (ready : Fd → Nat) (i : Nat) : Option Ended :=
  match a, s.rt.pc with
  | .carrier _, .epoll => s.note i fun f => .event (ready f.fd)
  | .carrier out, .deadlines j _ =>
    if i = j then s.note i fun _ => .deadline (s.timed.passReadings out) else s.ended i
  | _, _ => s.ended i

theorem note_waiting {s : Watched σ γ} {i : Nat} {f : Fiber σ} (e : Fiber σ → Ended)
    (live : s.rt.fibs i = some f) (waiting : f.state = .waitIo) : s.note i e = some (e f) := by
  rw [note, live]
  exact if_pos waiting

theorem note_awake {s : Watched σ γ} {i : Nat} {f : Fiber σ} (e : Fiber σ → Ended)
    (live : s.rt.fibs i = some f) (awake : f.state ≠ .waitIo) : s.note i e = s.ended i := by
  rw [note, live]
  exact if_neg awake

/-- Nothing is written for a fiber that does not wait on a descriptor. -/
theorem endedAfter_awake {s : Watched σ γ} {a : Act} {ready : Fd → Nat} {i : Nat} {f : Fiber σ}
    (live : s.rt.fibs i = some f) (awake : f.state ≠ .waitIo) :
    s.endedAfter a ready i = s.ended i := by
  unfold endedAfter
  cases a with
  | carrier out =>
    cases s.rt.pc with
    | epoll => exact note_awake _ live awake
    | deadlines j now =>
      dsimp only
      split
      · exact note_awake _ live awake
      · rfl
    | _ => rfl
  | _ => rfl

end Watched

/-- One step of any party, with the conditions that hold of each descriptor then. -/
def watchedStep (c : Config σ γ) (s : Watched σ γ) (a : Act × (Fd → Nat)) :
    Option (Watched σ γ) :=
  (timedStep c s.timed a.1).map fun t => ⟨t, s.endedAfter a.1 a.2⟩

theorem watchedStep_eq_some {c : Config σ γ} {s t : Watched σ γ} {a : Act × (Fd → Nat)} :
    watchedStep c s a = some t ↔
      timedStep c s.timed a.1 = some t.timed ∧ t.ended = s.endedAfter a.1 a.2 := by
  rw [watchedStep, Option.map_eq_some_iff]
  constructor
  · intro found
    obtain ⟨u, taken, rfl⟩ := found
    exact ⟨taken, rfl⟩
  · intro both
    obtain ⟨taken, ended⟩ := both
    refine ⟨t.timed, taken, ?_⟩
    rw [← ended]

/-- What `poll` returns after its park, and the `revents` it leaves. -/
def Fiber.pollAnswer (f : Fiber σ) (events : Nat) (timeout : Int) : Int × Nat :=
  if decide (timeout < 0) || !f.timedOut then (1, events) else (0, 0)

theorem Runtime.pollRet_eq (s : Runtime σ γ) (i : Nat) (f : Fiber σ) (events : Nat)
    (timeout : Int) (k : Int → Nat → σ) : s.pollRet i f events timeout k =
      s.resumeApp i f (k (f.pollAnswer events timeout).1 (f.pollAnswer events timeout).2) := by
  unfold pollRet Fiber.pollAnswer
  dsimp only
  split <;> rfl

/-- The fiber of slot `i` is about to return from the `poll` it was parked in. -/
structure Returning (c : Config σ γ) (s : Runtime σ γ) (i : Nat) (f : Fiber σ) (fd : Fd)
    (events : Nat) (timeout : Int) (k : Int → Nat → σ) : Prop where
  pc : s.pc = .slice i
  live : s.fibs i = some f
  place : f.place = .poll
  code : c.app.code f.ctx = .poll fd events timeout k

/-- A `poll` reports only readiness that exists: with 1 it returns conditions that held
when its wait was woken, of those asked for and those reported unasked, and with 0 it
returns none and its timeout had expired, by the monotonic clock, since it parked. -/
def ReportsReadiness (c : Config σ γ) (s : Watched σ γ) (a : Act × (Fd → Nat)) : Prop :=
  ∀ out i f fd events timeout k, a.1 = .carrier out →
    Returning c s.rt i f fd events timeout k → ∀ t, watchedStep c s a = some t →
      ∃ answer : Int × Nat,
        t.rt.fibs i = some { f with ctx := k answer.1 answer.2, place := .app } ∧
        answer = f.pollAnswer events timeout ∧ f.fd = fd ∧
        ((answer.1 = 1 ∧ ∃ ready, s.ended i = some (.event ready) ∧ Within answer.2 ready ∧
            Within answer.2 (events ||| pollUnasked)) ∨
          answer = (0, 0) ∧ 0 ≤ timeout ∧ ∃ now, s.ended i = some (.deadline now) ∧
            (Requested.lasting timeout).ReachedBy (s.timed.parked i) now)

/-- Where an event ended the wait, all the conditions that were asked for held; and where
the deadline pass did, the wall clock had not gone through the timeout ahead of the
monotonic clock. -/
structure EndedRight (c : Config σ γ) (s : Watched σ γ) (a : Act × (Fd → Nat)) : Prop where
  ready : ∀ out i f fd events timeout k, a.1 = .carrier out →
    Returning c s.rt i f fd events timeout k →
      ∀ ready, s.ended i = some (.event ready) → Within events ready
  inStep : ∀ out i f fd events timeout k, a.1 = .carrier out →
    Returning c s.rt i f fd events timeout k →
      ∀ now, s.ended i = some (.deadline now) →
        (Requested.lasting timeout).InStep (s.timed.parked i) now

/-- What is kept of a wait in `poll`, which parked when the clocks read `at_`, when `V` holds
of the readings. -/
structure Fiber.Polled (c : Config σ γ) (V : Readings → Prop) (e : Option Ended)
    (at_ : Readings) (f : Fiber σ) : Prop where
  fd : ∀ fd events timeout k, c.app.code f.ctx = .poll fd events timeout k → f.fd = fd
  stored : ∀ fd events timeout k, c.app.code f.ctx = .poll fd events timeout k → 0 ≤ timeout →
    f.deadline = (Requested.lasting timeout).stored at_ ∧ V at_
  event : f.wake = .event → ∃ ready, e = some (.event ready)
  deadline : f.wake = .deadline →
    ∃ now, e = some (.deadline now) ∧ V now ∧ f.deadline.reached now.real = true
  woken : f.Runnable → f.wake = .event ∨ f.wake = .deadline

/-- The step in which a `poll` returns. -/
theorem Returning.step {c : Config σ γ} {s : Runtime σ γ} {i : Nat} {f : Fiber σ} {fd : Fd}
    {events : Nat} {timeout : Int} {k : Int → Nat → σ}
    (returning : Returning c s i f fd events timeout k) (out : Out) :
    step c s (.carrier out) = some (s.resumeApp i f
      (k (f.pollAnswer events timeout).1 (f.pollAnswer events timeout).2)) := by
  change s.carrier c out = _
  rw [Runtime.carrier, returning.pc]
  dsimp only
  rw [returning.live]
  dsimp only
  rw [Runtime.exec, returning.place, returning.code]
  dsimp only
  rw [Runtime.pollRet_eq]

/-- A fiber that stays in its `poll` has had no slice. -/
theorem parkedAfter_of_stays {c : Config σ γ} {s : Timed σ γ} {t : Runtime σ γ} {a : Act} {i : Nat}
    {f : Fiber σ} {fd : Fd} {events : Nat} {timeout : Int} {k : Int → Nat → σ}
    (live : s.rt.fibs i = some f) (place : f.place = .poll)
    (code : c.app.code f.ctx = .poll fd events timeout k) (ran : step c s.rt a = some t)
    (stays : t.fibs i = some f) : s.parkedAfter a i = s.parked i := by
  by_cases pc : s.rt.pc = .slice i
  · cases a with
    | carrier out =>
      rw [(Returning.mk pc live place code).step out, Option.some.injEq] at ran
      have resumed : t.fibs i = some { f with
          ctx := k (f.pollAnswer events timeout).1 (f.pollAnswer events timeout).2
          place := .app } := by
        rw [← ran]
        exact Function.update_self ..
      rw [stays, Option.some.injEq] at resumed
      have moved : f.place = .app := by rw [resumed]
      rw [place] at moved
      cases moved
    | _ => rfl
  · exact s.parkedAfter_aside pc

/-- A fiber that has just parked in its `poll`. -/
theorem Fiber.Polled.parks {c : Config σ γ} {V : Readings → Prop} {e : Option Ended}
    {at_ : Readings} {f : Fiber σ} {events : Nat} {timeout : Int} {k : Int → Nat → σ}
    (code : c.app.code f.ctx = .poll f.fd events timeout k)
    (stored : 0 ≤ timeout → f.deadline = (Requested.lasting timeout).stored at_ ∧ V at_)
    (wake : f.wake = .none) (waiting : f.state = .waitIo) : f.Polled c V e at_ := by
  refine ⟨?_, ?_, ?_, ?_, ?_⟩
  · intro fd events' timeout' k' code'
    rw [code] at code'
    cases code'
    rfl
  · intro fd events' timeout' k' code'
    rw [code] at code'
    cases code'
    exact stored
  · intro event
    rw [wake] at event
    cases event
  · intro deadline
    rw [wake] at deadline
    cases deadline
  · intro runnable
    rcases runnable with other | other <;> rw [waiting] at other <;> cases other

theorem SliceMove.polled {c : Config σ γ} {V : Readings → Prop} {e : Option Ended}
    {at_ : Readings} {f f' : Fiber σ} {out : Out} (moved : SliceMove c f out f')
    (clocks : V out.readings) (polled : f.place = .poll → f.Polled c V e at_)
    (place : f'.place = .poll) : f'.Polled c V e out.readings := by
  cases moved with
  | back => cases place
  | io => cases place
  | poll code forever => exact .parks code (fun timed => by omega) rfl rfl
  | pollTimed code => exact .parks code (fun _ => ⟨rfl, clocks⟩) rfl rfl
  | offload => cases place
  | run parked =>
    change _ = Place.poll at place
    rcases parked with rfl | rfl | ⟨_, _, rfl⟩ <;> cases place
  | cond => cases place
  | done code =>
    have before := polled place
    refine ⟨before.fd, ?_, before.event, before.deadline, ?_⟩
    · intro fd events timeout k code'
      change c.app.code f.ctx = _ at code'
      rw [code] at code'
      cases code'
    · intro runnable
      rcases runnable with other | other <;> cases other

/-- A fiber that waits for something else is in no `poll`. -/
theorem Fiber.Fits.place_ne_poll {f : Fiber σ} (fits : f.Fits)
    (waiting : f.state = .waitOff ∨ f.state = .waitCond) : f.place ≠ .poll := by
  intro place
  unfold Fiber.Fits at fits
  rcases waiting with off | cond
  · rw [off, place] at fits
    cases fits
  · rw [cond, place] at fits
    cases fits.1

/-- A fiber that is switched back to finds its `poll` as it was woken. -/
theorem Fiber.Polled.switchedIn {c : Config σ γ} {V : Readings → Prop} {f : Fiber σ}
    {e : Option Ended} {at_ : Readings} (before : f.Polled c V e at_) (runnable : f.Runnable) :
    f.switchedIn.Polled c V e at_ := by
  have same : f.switchedIn.fd = f.fd ∧ f.switchedIn.deadline = f.deadline := by
    unfold Fiber.switchedIn
    dsimp only
    split <;> exact ⟨rfl, rfl⟩
  refine ⟨?_, ?_, ?_, ?_, ?_⟩
  · rw [Fiber.switchedIn_ctx, same.1]
    exact before.fd
  · rw [Fiber.switchedIn_ctx, same.2]
    exact before.stored
  · rw [Fiber.switchedIn_wake]
    exact before.event
  · rw [Fiber.switchedIn_wake, same.2]
    exact before.deadline
  · rw [Fiber.switchedIn_wake]
    exact fun _ => before.woken runnable

/-- In every reachable state what ended a `poll`'s wait is the one kept beside it. -/
structure PollInv (c : Config σ γ) (V : Readings → Prop) (s : Watched σ γ) : Prop where
  timed : TimedInv c V s.timed
  truthful : ∀ i f, s.rt.fibs i = some f → f.Truthful c
  polled : ∀ i f, s.rt.fibs i = some f → f.place = .poll →
    f.Polled c V (s.ended i) (s.timed.parked i)

theorem init_pollInv (c : Config σ γ) (V : Readings → Prop) (mem : γ) (detOn : Bool)
    (kinds : MutexId → MutexKind) : PollInv c V (.init mem detOn kinds) := by
  refine ⟨init_timedInv c _ mem detOn kinds, ?_, ?_⟩
  · intro i f live
    cases live
  · intro i f live
    cases live

theorem FiberMove.polled {c : Config σ γ} {V : Readings → Prop} {s : Watched σ γ} {i : Nat}
    {f f' : Fiber σ} {a : Act} (moved : FiberMove c s.rt i f a f') (inv : PollInv c V s)
    (live : s.rt.fibs i = some f) (clocks : ClocksRead V a) (stays : ∀ fd events timeout k, f' = f →
      c.app.code f.ctx = .poll fd events timeout k →
        s.timed.parkedAfter a i = s.timed.parked i)
    (ready : Fd → Nat) (place : f'.place = .poll) :
    f'.Polled c V (s.endedAfter a ready i) (s.timed.parkedAfter a i) := by
  have fits := inv.timed.formed.fits i f live
  have polled := inv.polled i f live
  cases moved with
  | keep =>
    have before := polled place
    have stored : ∀ fd events timeout k, c.app.code f.ctx = .poll fd events timeout k →
        0 ≤ timeout → f.deadline = (Requested.lasting timeout).stored (s.timed.parkedAfter a i) ∧
          V (s.timed.parkedAfter a i) := by
      intro fd events timeout k code timed
      rw [stays fd events timeout k rfl code]
      exact before.stored fd events timeout k code timed
    by_cases waiting : f.state = .waitIo
    · -- a waiting fiber has been ended by nothing yet
      have none := (inv.truthful i f live).pending (Or.inl waiting)
      refine ⟨before.fd, stored, ?_, ?_, ?_⟩
      · intro wake
        rw [none] at wake
        cases wake
      · intro wake
        rw [none] at wake
        cases wake
      · exact fun runnable => absurd waiting (runnable.ne nofun nofun)
    · rw [Watched.endedAfter_awake live waiting]
      exact ⟨before.fd, stored, before.event, before.deadline, before.woken⟩
  | @event out fd pc waiting =>
    have before := polled place
    have noted : s.endedAfter (.carrier out) ready i = some (.event (ready f.fd)) := by
      unfold Watched.endedAfter
      rw [pc]
      exact Watched.note_waiting (fun f => .event (ready f.fd)) live waiting
    rw [noted, s.timed.parkedAfter_aside (by rw [pc]; nofun)]
    exact ⟨before.fd, before.stored, fun _ => ⟨_, rfl⟩, nofun, fun _ => Or.inl rfl⟩
  | offloaded pc waiting => exact absurd place (fits.place_ne_poll (Or.inl waiting))
  | woken waiting => exact absurd place (fits.place_ne_poll (Or.inr waiting))
  | @expired out now pc waiting timed past =>
    have before := polled place
    rcases waiting with cond | io
    · exact absurd place (fits.place_ne_poll (Or.inr cond))
    · have noted : s.endedAfter (.carrier out) ready i =
          some (.deadline (s.timed.passReadings out)) := by
        unfold Watched.endedAfter
        rw [pc]
        dsimp only
        rw [if_pos rfl]
        exact Watched.note_waiting (fun _ => .deadline (s.timed.passReadings out)) live io
      obtain ⟨real, valid⟩ := inv.timed.passReadings clocks pc
      rw [noted, s.timed.parkedAfter_aside (by rw [pc]; nofun)]
      exact ⟨before.fd, before.stored, nofun, fun _ => ⟨_, rfl, valid, real ▸ past⟩,
        fun _ => Or.inr rfl⟩
  | switchIn pc runnable =>
    have awake : f.state ≠ .waitIo := Fiber.Runnable.ne runnable nofun nofun
    rw [Watched.endedAfter_awake live awake, s.timed.parkedAfter_aside (by rw [pc]; nofun)]
    rw [Fiber.switchedIn_place] at place
    split at place
    · cases place
    · exact (polled place).switchedIn runnable
  | @slice out _ pc moved =>
    have awake : f.state ≠ .waitIo := (inv.timed.formed.runnable live pc).ne nofun nofun
    have here : s.timed.parkedAfter (.carrier out) i = out.readings := by
      unfold Timed.parkedAfter
      rw [pc]
      exact Function.update_self ..
    rw [Watched.endedAfter_awake live awake, here]
    exact moved.polled clocks polled place

theorem step_pollInv {c : Config σ γ} {V : Readings → Prop} {s t : Watched σ γ}
    {a : Act × (Fd → Nat)} (inv : PollInv c V s) (clocks : ClocksRead V a.1)
    (taken : watchedStep c s a = some t) : PollInv c V t := by
  obtain ⟨timed, ended⟩ := watchedStep_eq_some.mp taken
  obtain ⟨ran, parked, _⟩ := timedStep_eq_some.mp timed
  refine ⟨step_timedInv inv.timed clocks timed,
    Runtime.step_truthful inv.timed.formed inv.truthful ran, ?_⟩
  intro i f' live place
  rw [ended, parked]
  rcases step_fiber ran live with ⟨f, was, moved⟩ | ⟨g, waiting, rfl, _⟩
  · apply moved.polled inv was clocks _ a.2 place
    rintro fd events timeout k rfl code
    exact parkedAfter_of_stays was place code ran live
  · obtain ⟨arg, number, rfl⟩ := inv.timed.formed.queue g waiting
    cases place

/-- What a returning `poll` answers goes by what ended its wait. -/
theorem Fiber.Truthful.pollAnswer {c : Config σ γ} {f : Fiber σ} {fd : Fd} {events : Nat}
    {timeout : Int} {k : Int → Nat → σ} (truth : f.Truthful c) (place : f.place = .poll)
    (code : c.app.code f.ctx = .poll fd events timeout k) :
    f.pollAnswer events timeout = if f.wake = .deadline then (0, 0) else (1, events) := by
  unfold Fiber.pollAnswer
  by_cases forever : timeout < 0
  · have other := (truth.forever fd events timeout k place code forever).1
    simp [forever, other]
  · have flag := truth.timed fd events timeout k place code forever
    by_cases expired : f.wake = .deadline
    · simp [forever, flag, expired]
    · simp [forever, flag, expired]

theorem within_or_left (bits mask : Nat) : Within bits (bits ||| mask) := by
  unfold Within
  apply Nat.eq_of_testBit_eq
  intro i
  simp only [Nat.testBit_and, Nat.testBit_or]
  cases bits.testBit i <;> rfl

/-- A `poll` that the deadline pass ended had its timeout expire exactly when the wall clock
was not ahead. -/
theorem Fiber.Polled.expired_iff {c : Config σ γ} {f : Fiber σ} {e : Option Ended}
    {at_ now : Readings} {fd : Fd} {events : Nat} {timeout : Int} {k : Int → Nat → σ}
    (polled : f.Polled c Readings.Valid e at_) (code : c.app.code f.ctx = .poll fd events timeout k)
    (timed : 0 ≤ timeout) (valid : now.Valid) (past : f.deadline.reached now.real = true) :
    (Requested.lasting timeout).ReachedBy at_ now ↔
      (Requested.lasting timeout).InStep at_ now := by
  obtain ⟨deadline, parked⟩ := polled.stored fd events timeout k code timed
  have asked : (Requested.lasting timeout).Valid := timed
  rw [deadline, Requested.stored_reached_iff asked parked valid] at past
  rw [Requested.reachedBy_iff]
  exact ⟨fun reached _ => reached, fun inStep => inStep past⟩

/-- A `poll` that its deadline has ended was not to wait forever. -/
theorem Returning.timed {c : Config σ γ} {s : Runtime σ γ} {i : Nat} {f : Fiber σ} {fd : Fd}
    {events : Nat} {timeout : Int} {k : Int → Nat → σ}
    (returning : Returning c s i f fd events timeout k) (truth : f.Truthful c)
    (expired : f.wake = .deadline) : 0 ≤ timeout := by
  by_contra forever
  exact (truth.forever fd events timeout k returning.place returning.code (by omega)).1 expired

/-- The answer of a `poll` that reports only what exists. -/
theorem ReportsReadiness.answered {c : Config σ γ} {s : Watched σ γ} {a : Act × (Fd → Nat)}
    {out : Out} {i : Nat} {f : Fiber σ} {fd : Fd} {events : Nat} {timeout : Int}
    {k : Int → Nat → σ} (reports : ReportsReadiness c s a) (same : a.1 = .carrier out)
    (returning : Returning c s.rt i f fd events timeout k) :
    ((f.pollAnswer events timeout).1 = 1 ∧ ∃ ready, s.ended i = some (.event ready) ∧
        Within (f.pollAnswer events timeout).2 ready) ∨
      f.pollAnswer events timeout = (0, 0) ∧ ∃ now, s.ended i = some (.deadline now) ∧
        (Requested.lasting timeout).ReachedBy (s.timed.parked i) now := by
  have ran : timedStep c s.timed a.1 = some _ := same ▸ timedStep_of_step (returning.step out)
  obtain ⟨answer, _, rfl, _, reported⟩ := reports out i f fd events timeout k same returning
    ⟨_, s.endedAfter a.1 a.2⟩ (watchedStep_eq_some.mpr ⟨ran, rfl⟩)
  rcases reported with ⟨one, ready, ended, within, _⟩ | ⟨zero, _, now, ended, reached⟩
  · exact Or.inl ⟨one, ready, ended, within⟩
  · exact Or.inr ⟨zero, now, ended, reached⟩

theorem ReportsReadiness.endedRight {c : Config σ γ} {s : Watched σ γ} {a : Act × (Fd → Nat)}
    (reports : ReportsReadiness c s a) (truthful : ∀ i f, s.rt.fibs i = some f → f.Truthful c) :
    EndedRight c s a := by
  constructor
  · intro out i f fd events timeout k same returning ready ended
    rcases reports.answered same returning with ⟨one, ready', ended', within⟩ | ⟨_, now, ended', _⟩
    · rw [ended, Option.some.injEq, Ended.event.injEq] at ended'
      have truth := (truthful i f returning.live).pollAnswer returning.place returning.code
      have other : f.wake ≠ .deadline := by
        intro expired
        rw [truth, if_pos expired] at one
        cases one
      rw [truth, if_neg other] at within
      exact ended' ▸ within
    · rw [ended] at ended'
      cases ended'
  · intro out i f fd events timeout k same returning now ended
    rcases reports.answered same returning with ⟨_, ready, ended', _⟩ | ⟨_, now', ended', reached⟩
    · rw [ended] at ended'
      cases ended'
    · rw [ended, Option.some.injEq, Ended.deadline.injEq] at ended'
      rw [ended']
      intro _
      exact Requested.reachedBy_iff.mp reached

theorem PollInv.reportsReadiness {c : Config σ γ} {s : Watched σ γ} {a : Act × (Fd → Nat)}
    (inv : PollInv c Readings.Valid s) (right : EndedRight c s a) : ReportsReadiness c s a := by
  intro out i f fd events timeout k same returning t taken
  have live := returning.live
  have truth := inv.truthful i f live
  have polled := inv.polled i f live returning.place
  have ran := (timedStep_eq_some.mp (watchedStep_eq_some.mp taken).1).1
  rw [same, returning.step out, Option.some.injEq] at ran
  refine ⟨_, ?_, rfl, polled.fd fd events timeout k returning.code, ?_⟩
  · show t.timed.rt.fibs i = _
    rw [← ran]
    exact Function.update_self ..
  · rw [truth.pollAnswer returning.place returning.code]
    rcases polled.woken (inv.timed.formed.runnable live returning.pc) with event | deadline
    · have other : f.wake ≠ .deadline := by
        rw [event]
        exact nofun
      obtain ⟨ready, ended⟩ := polled.event event
      rw [if_neg other]
      exact Or.inl ⟨rfl, ready, ended,
        right.ready out i f fd events timeout k same returning ready ended,
        within_or_left events pollUnasked⟩
    · have timed := returning.timed truth deadline
      obtain ⟨now, ended, valid, past⟩ := polled.deadline deadline
      rw [if_pos deadline]
      refine Or.inr ⟨rfl, timed, now, ended, ?_⟩
      exact (polled.expired_iff returning.code timed valid past).mpr
        (right.inStep out i f fd events timeout k same returning now ended)

/-- What events have found is what the descriptors were ready for. -/
def FoundReady (R : Nat → Prop) (s : Watched σ γ) : Prop :=
  ∀ i ready, s.ended i = some (.event ready) → R ready

theorem step_foundReady {c : Config σ γ} {R : Nat → Prop} {s t : Watched σ γ}
    {a : Act × (Fd → Nat)} (found : FoundReady R s) (allowed : ∀ fd, R (a.2 fd))
    (taken : watchedStep c s a = some t) : FoundReady R t := by
  have noted : ∀ i e, (∀ f ready, e f = .event ready → R ready) →
      ∀ ready, s.note i e = some (.event ready) → R ready := by
    intro i e all ready ended
    unfold Watched.note at ended
    split at ended
    · rename_i f live
      split at ended
      · exact all f ready (Option.some.inj ended)
      · exact found i ready ended
    · exact found i ready ended
  intro i ready ended
  rw [(watchedStep_eq_some.mp taken).2] at ended
  unfold Watched.endedAfter at ended
  split at ended
  · apply noted i _ _ ready ended
    intro f ready same
    cases same
    exact allowed f.fd
  · split at ended
    · apply noted i _ _ ready ended
      intro f mask same
      cases same
    · exact found i ready ended
  · exact found i ready ended

/-- A wall clock that is never stepped is not ahead when it ends a `poll`. -/
theorem PollInv.inStep_of_apart {c : Config σ γ} {distance : Int} {s : Watched σ γ} {i : Nat}
    {f : Fiber σ} {fd : Fd} {events : Nat} {timeout : Int} {k : Int → Nat → σ} {now : Readings}
    (inv : PollInv c (Readings.Apart distance) s)
    (returning : Returning c s.rt i f fd events timeout k)
    (ended : s.ended i = some (.deadline now)) :
    (Requested.lasting timeout).InStep (s.timed.parked i) now := by
  have polled := inv.polled i f returning.live returning.place
  have truth := inv.truthful i f returning.live
  have runnable := inv.timed.formed.runnable returning.live returning.pc
  rcases polled.woken runnable with event | expired
  · obtain ⟨mask, ended'⟩ := polled.event event
    rw [ended] at ended'
    cases ended'
  · have timed := returning.timed truth expired
    obtain ⟨now', ended', later, _⟩ := polled.deadline expired
    rw [ended, Option.some.injEq, Ended.deadline.injEq] at ended'
    have before := (polled.stored fd events timeout k returning.code timed).2.2
    have after := later.2
    rw [← ended'] at after
    unfold Requested.InStep Readings.on Requested.clock
    dsimp only
    intro passed
    omega

/-- So where the wall clock is never stepped, and each descriptor is only ever ready for all
that a `poll` may ask for or for nothing that ends it, the condition is met. -/
theorem endedRight_of_apart {c : Config σ γ} {mem : γ} {detOn : Bool}
    {kinds : MutexId → MutexKind} {acts : List (Act × (Fd → Nat))} {distance : Int}
    {R : Nat → Prop} (clocks : ∀ a ∈ acts, ClocksRead (Readings.Apart distance) a.1)
    (ready : ∀ a ∈ acts, ∀ fd, R (a.2 fd))
    (asked : ∀ ctx fd events timeout k, c.app.code ctx = .poll fd events timeout k →
      ∀ mask, R mask → Within events mask) :
    Machine.Guarded (watchedStep c) (EndedRight c) (.init mem detOn kinds) acts := by
  have always : Machine.Guarded (watchedStep c) (fun _ _ => True) (.init mem detOn kinds) acts :=
    Machine.guarded_of_mem (fun _ _ _ => trivial) _
  refine (Machine.guarded_congr_of_allowed (H := fun _ a => a ∈ acts)
    (I := fun s => PollInv c (Readings.Apart distance) s ∧ FoundReady R s) ?_ ?_ ?_ ?_).mp always
  · rintro s a ⟨inv, found⟩ member
    refine ⟨fun _ => ⟨?_, ?_⟩, fun _ => trivial⟩
    · intro out i f fd events timeout k _ returning mask ended
      exact asked f.ctx fd events timeout k returning.code mask (found i mask ended)
    · intro out i f fd events timeout k _ returning now ended
      exact inv.inStep_of_apart returning ended
  · rintro s a t ⟨inv, found⟩ member taken
    exact ⟨step_pollInv inv (clocks a member) taken, step_foundReady found (ready a member) taken⟩
  · refine ⟨init_pollInv c _ mem detOn kinds, ?_⟩
    intro i mask ended
    cases ended
  · exact Machine.guarded_of_mem (fun _ member _ => member) _

/-- In every run, whatever the descriptors are ready for and the clocks read, `poll` reports
only readiness that exists, and an expired timeout only when it has expired, exactly when
every event that ends a `poll` finds all the conditions it asked for, and no deadline ends
one because the wall clock is ahead. -/
theorem poll_reports_readiness_iff (c : Config σ γ) (mem : γ) (detOn : Bool)
    (kinds : MutexId → MutexKind) (acts : List (Act × (Fd → Nat)))
    (clocks : ∀ a ∈ acts, ClocksRead Readings.Valid a.1) :
    Machine.Guarded (watchedStep c) (ReportsReadiness c) (.init mem detOn kinds) acts ↔
      Machine.Guarded (watchedStep c) (EndedRight c) (.init mem detOn kinds) acts := by
  apply Machine.guarded_congr_of_allowed (H := fun _ a => ClocksRead Readings.Valid a.1)
    (I := PollInv c Readings.Valid)
  · exact fun _ _ inv _ => ⟨fun reports => reports.endedRight inv.truthful, inv.reportsReadiness⟩
  · exact fun _ _ _ inv clocks taken => step_pollInv inv clocks taken
  · exact init_pollInv c _ mem detOn kinds
  · exact Machine.guarded_of_mem (fun a member _ => clocks a member) _

/-- A thread function that polls descriptor 3, without end, for `POLLIN` or `POLLOUT`
and keeps the answer. -/
def streamPoller : Config (Int × Nat) Unit :=
  { app :=
      { entry := fun _ => (-1, 0)
        code := fun answered =>
          if answered.1 < 0 then .poll 3 5 (-1) fun result revents => (result, revents)
          else .ret }
    gEnforce := false, gRealmutex := false, ssl := .absent, transform := id }

/-- A step of the carrier at which every descriptor is ready for the conditions of the mask;
`epoll_wait` reports those of `events`. -/
def readyFor (mask : Nat) (events : List Fd) : Act × (Fd → Nat) :=
  (.carrier { Out.quiet with events := events }, fun _ => mask)

/-- The poll parks, its descriptor is reported, and its fiber is switched in again. -/
def toTheAnswer (mask : Nat) : List (Act × (Fd → Nat)) :=
  (.create 0, fun _ => mask) :: (List.replicate 12 (readyFor mask []) ++
    readyFor mask [3] :: List.replicate 6 (readyFor mask []))

/-- On a descriptor that is ready for both the poll reports both. -/
theorem both_reported : (∃ s f, Machine.run (watchedStep streamPoller)
      (.init () false fun _ => .normal) (toTheAnswer 5 ++ [readyFor 5 []]) = some s ∧
    s.rt.fibs 0 = some f ∧ f.ctx = (1, 5)) ∧
    Machine.Guarded (watchedStep streamPoller) (ReportsReadiness streamPoller)
      (.init () false fun _ => .normal) (toTheAnswer 5 ++ [readyFor 5 []]) := by
  have clocks : ∀ a ∈ toTheAnswer 5 ++ [readyFor 5 []],
      ClocksRead (Readings.Apart 0) a.1 := by decide
  have valid : ∀ a ∈ toTheAnswer 5 ++ [readyFor 5 []], ClocksRead Readings.Valid a.1 := by decide
  have ready : ∀ a ∈ toTheAnswer 5 ++ [readyFor 5 []], ∀ fd, a.2 fd = 5 := by
    intro a member fd
    simp only [toTheAnswer, readyFor, List.cons_append, List.append_assoc, List.mem_cons,
      List.mem_append, List.mem_replicate, List.not_mem_nil, or_false] at member
    rcases member with rfl | ⟨_, rfl⟩ | rfl | ⟨_, rfl⟩ | rfl <;> rfl
  refine ⟨⟨_, _, rfl, rfl, rfl⟩, ?_⟩
  apply (poll_reports_readiness_iff streamPoller () false (fun _ => .normal) _ valid).mpr
  apply endedRight_of_apart (R := fun mask => mask = 5) clocks ready
  intro ctx fd events timeout k code mask held
  change (if ctx.1 < 0 then Call.poll 3 5 (-1) fun result revents => (result, revents)
    else Call.ret) = Call.poll fd events timeout k at code
  split at code
  · cases code
    rw [held]
    decide
  · cases code

/-- The state in which the poll is about to return. -/
def returningPoll : Watched (Int × Nat) Unit :=
  (Machine.run (watchedStep streamPoller) (.init () false fun _ => .normal)
    (toTheAnswer 4)).get (by decide +kernel)

/-- The poll of 5 milliseconds of `shortPoll`, with the clocks so many milliseconds on when
its deadline is checked, and its fiber switched in again. -/
def toTheTimeout (real mono : Int) : List (Act × (Fd → Nat)) :=
  (toTheDeadlines ++ List.replicate 3 (clocksAt real mono)).map fun a => (a, fun _ => 0)

/-- The state in which it is about to return. -/
def expiredPoll : Watched Nat Unit :=
  (Machine.run (watchedStep shortPoll) (.init () false fun _ => .normal)
    (toTheTimeout 3600000 1)).get (by decide +kernel)

/-- On a descriptor that is never readable `poll` reports `POLLIN` beside `POLLOUT`, and an
hour's step of the wall clock makes it return 0 after one of its 5 milliseconds. -/
theorem writable_reported_readable :
    ((∃ s f, Machine.run (watchedStep streamPoller) (.init () false fun _ => .normal)
          (toTheAnswer 4 ++ [readyFor 4 []]) = some s ∧
        s.rt.fibs 0 = some f ∧ f.ctx = (1, 5)) ∧
      ¬ Machine.Guarded (watchedStep streamPoller) (ReportsReadiness streamPoller)
        (.init () false fun _ => .normal) (toTheAnswer 4 ++ [readyFor 4 []])) ∧
    ¬ Machine.Guarded (watchedStep shortPoll) (ReportsReadiness shortPoll)
      (.init () false fun _ => .normal)
      (toTheTimeout 3600000 1 ++ [(clocksAt 3600000 1, fun _ => 0)]) := by
  refine ⟨⟨⟨_, _, rfl, rfl, rfl⟩, ?_⟩, ?_⟩
  · intro guarded
    have reached : Machine.run (watchedStep streamPoller) (.init () false fun _ => .normal)
        (toTheAnswer 4) = some returningPoll := (Option.some_get _).symm
    have reports : ReportsReadiness streamPoller returningPoll (readyFor 4 []) :=
      ((Machine.Guarded.append reached).mp guarded).2.1
    obtain ⟨answer, _, rfl, _, reported⟩ :=
      reports _ 0 _ 3 5 (-1) _ rfl ⟨rfl, rfl, rfl, rfl⟩ _ rfl
    rcases reported with ⟨_, ready, ended, within, _⟩ | ⟨zero, _⟩
    · have held : ready = 4 := by
        cases ended
        rfl
      subst held
      exact absurd within (by decide +kernel)
    · cases zero
  · intro guarded
    have reached : Machine.run (watchedStep shortPoll) (.init () false fun _ => .normal)
        (toTheTimeout 3600000 1) = some expiredPoll := (Option.some_get _).symm
    have reports : ReportsReadiness shortPoll expiredPoll (clocksAt 3600000 1, fun _ => 0) :=
      ((Machine.Guarded.append reached).mp guarded).2.1
    obtain ⟨answer, _, rfl, _, reported⟩ :=
      reports _ 0 _ 3 1 5 _ rfl ⟨rfl, rfl, rfl, rfl⟩ _ rfl
    rcases reported with ⟨one, _⟩ | ⟨_, _, now, ended, late⟩
    · cases one
    · cases ended
      exact absurd late (by decide +kernel)

end TransparentOffload
