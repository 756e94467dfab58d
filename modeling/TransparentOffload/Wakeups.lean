import TransparentOffload.Offloads
import TransparentOffload.Readiness

set_option autoImplicit false

/- Why a parked fiber is resumed, and what its call then reports. `wake` is what
ended the last wait; the flags the code goes by agree with it. -/
namespace TransparentOffload

variable {σ γ : Type}

/-- The fiber is parked in `F_WAIT_IO`, `F_WAIT_OFF` or `F_WAIT_COND`. -/
def Fiber.Waiting (f : Fiber σ) : Prop :=
  f.state = .waitIo ∨ f.state = .waitOff ∨ f.state = .waitCond

theorem Fiber.Runnable.not_waiting {f : Fiber σ} (runnable : f.Runnable) : ¬ f.Waiting := by
  unfold Fiber.Waiting
  rw [not_or, not_or]
  exact ⟨runnable.ne nofun nofun, runnable.ne nofun nofun, runnable.ne nofun nofun⟩

/-- The flags of a fiber agree with what it waits for and with what ended its wait. -/
structure Fiber.Truthful (c : Config σ γ) (f : Fiber σ) : Prop where
  pending : f.Waiting → f.wake = .none
  due : f.state = .waitIo ∨ f.state = .waitCond →
    f.due = if f.hasDeadline then some f.deadline else none
  forever : ∀ fd events timeout k, f.place = .poll →
    c.app.code f.ctx = .poll fd events timeout k → timeout < 0 →
      f.wake ≠ .deadline ∧ (f.state = .waitIo → f.hasDeadline = false)
  timed : ∀ fd events timeout k, f.place = .poll →
    c.app.code f.ctx = .poll fd events timeout k → ¬ timeout < 0 →
      f.timedOut = decide (f.wake = .deadline)
  cond : f.place = .cond → f.timedOut = decide (f.wake = .deadline)
  relock : ∀ expired, f.place = .relock expired → expired = decide (f.wake = .deadline)

/-- At plain code nothing is left to report. -/
theorem Fiber.truthful_app {c : Config σ γ} {f : Fiber σ} (place : f.place = .app)
    (awake : ¬ f.Waiting) : f.Truthful c := by
  have io : ¬ (f.state = .waitIo ∨ f.state = .waitCond) := by
    rintro (io | cond)
    · exact awake (Or.inl io)
    · exact awake (Or.inr (Or.inr cond))
  refine ⟨fun waiting => absurd waiting awake, fun waiting => absurd waiting io, ?_, ?_, ?_, ?_⟩
  all_goals simp [place]

@[simp] theorem Fiber.switchedIn_wake (f : Fiber σ) : f.switchedIn.wake = f.wake := by
  unfold switchedIn; dsimp only; split <;> rfl

@[simp] theorem Fiber.switchedIn_timedOut (f : Fiber σ) :
    f.switchedIn.timedOut = f.timedOut := by
  unfold switchedIn; dsimp only; split <;> rfl

/-- A condition wait takes its `timed_out` along when it is switched in. -/
theorem Fiber.Truthful.switchedIn {c : Config σ γ} {f : Fiber σ} (truth : f.Truthful c)
    (runnable : f.Runnable) : f.switchedIn.Truthful c := by
  have awake : ¬ f.switchedIn.Waiting := runnable.switchedIn.not_waiting
  have asleep : ¬ (f.switchedIn.state = .waitIo ∨ f.switchedIn.state = .waitCond) := by
    rintro (io | cond)
    · exact awake (Or.inl io)
    · exact awake (Or.inr (Or.inr cond))
  have wake := f.switchedIn_wake
  have timedOut := f.switchedIn_timedOut
  have place := f.switchedIn_place
  refine ⟨fun waiting => absurd waiting awake, fun waiting => absurd waiting asleep, ?_, ?_, ?_, ?_⟩
  · intro fd events timeout k at_ code forever
    rw [Fiber.switchedIn_ctx] at code
    rw [place] at at_
    split at at_
    · cases at_
    · rw [wake]
      refine ⟨(truth.forever fd events timeout k at_ code forever).1, ?_⟩
      exact fun io => absurd (Or.inl io) asleep
  · intro fd events timeout k at_ code timed
    rw [Fiber.switchedIn_ctx] at code
    rw [place] at at_
    split at at_
    · cases at_
    · rw [wake, timedOut]
      exact truth.timed fd events timeout k at_ code timed
  · intro at_
    rw [place] at at_
    split at at_
    · cases at_
    · rename_i other
      exact absurd at_ other
  · intro expired at_
    rw [place] at at_
    rw [wake]
    split at at_
    · rename_i waited
      cases at_
      exact truth.cond waited
    · exact truth.relock expired at_

namespace FiberMove

variable {c : Config σ γ} {s : Runtime σ γ} {i : Nat} {f f' : Fiber σ} {a : Act}

theorem slice_truthful {out : Out} (truth : f.Truthful c) (awake : f.Runnable)
    (moved : SliceMove c f out f') : f'.Truthful c := by
  cases moved with
  | back ctx got => exact Fiber.truthful_app rfl awake.not_waiting
  | io =>
    refine ⟨fun _ => rfl, fun _ => rfl, ?_, ?_, ?_, ?_⟩
    all_goals simp [Fiber.tlsSave]
  | poll code forever =>
    refine ⟨fun _ => rfl, fun _ => rfl, ?_, ?_, ?_, ?_⟩
    · exact fun _ _ _ _ _ _ _ => ⟨nofun, fun _ => rfl⟩
    · intro fd events timeout k _ code' timed
      change c.app.code f.ctx = _ at code'
      rw [code] at code'
      cases code'
      exact absurd forever timed
    · simp [Fiber.tlsSave]
    · simp [Fiber.tlsSave]
  | pollTimed code timed =>
    refine ⟨fun _ => rfl, fun _ => rfl, ?_, ?_, ?_, ?_⟩
    · intro fd events timeout k _ code' forever
      change c.app.code f.ctx = _ at code'
      rw [code] at code'
      cases code'
      exact absurd forever timed
    · exact fun _ _ _ _ _ _ _ => rfl
    · simp [Fiber.tlsSave]
    · simp [Fiber.tlsSave]
  | offload =>
    refine ⟨fun _ => rfl, ?_, ?_, ?_, ?_, ?_⟩
    all_goals simp [Fiber.tlsSave]
  | run parked =>
    refine ⟨?_, ?_, ?_, ?_, ?_, ?_⟩
    · simp [Fiber.Waiting, Fiber.tlsSave]
    · simp [Fiber.tlsSave]
    · rcases parked with rfl | rfl | ⟨_, _, rfl⟩ <;> simp [Fiber.tlsSave]
    · rcases parked with rfl | rfl | ⟨_, _, rfl⟩ <;> simp [Fiber.tlsSave]
    · rcases parked with rfl | rfl | ⟨_, _, rfl⟩ <;> simp [Fiber.tlsSave]
    · rcases parked with rfl | rfl | ⟨expired, was, rfl⟩
      · simp [Fiber.tlsSave]
      · simp [Fiber.tlsSave]
      · intro expired' same
        change Place.relock expired = .relock expired' at same
        exact truth.relock expired' (was.trans same)
  | cond =>
    refine ⟨fun _ => rfl, ?_, ?_, ?_, fun _ => rfl, ?_⟩
    · intro _
      dsimp only
      cases Runtime.condDeadline _ out <;> rfl
    all_goals simp
  | done code =>
    refine ⟨?_, ?_, ?_, ?_, ?_, ?_⟩
    · simp [Fiber.Waiting]
    · simp
    · intro fd events timeout k _ code'
      change c.app.code f.ctx = _ at code'
      rw [code] at code'
      cases code'
    · intro fd events timeout k _ code'
      change c.app.code f.ctx = _ at code'
      rw [code] at code'
      cases code'
    · exact truth.cond
    · exact truth.relock

/-- A fiber whose wait ends without its deadline has no time-out to report. -/
theorem woken_truthful {wake : Wake} {waitcond : Option CondId} (truth : f.Truthful c)
    (waiting : f.Waiting) (other : wake ≠ .deadline) :
    Fiber.Truthful c { f with state := .run, waitcond := waitcond, wake := wake } := by
  have none := truth.pending waiting
  refine ⟨?_, ?_, ?_, ?_, ?_, ?_⟩
  · simp [Fiber.Waiting]
  · simp
  · intro fd events timeout k place code forever
    exact ⟨other, nofun⟩
  · intro fd events timeout k place code timed
    have before := truth.timed fd events timeout k place code timed
    rw [none] at before
    simpa [other] using before
  · intro place
    have before := truth.cond place
    rw [none] at before
    simpa [other] using before
  · intro expired place
    have before := truth.relock expired place
    rw [none] at before
    simpa [other] using before

theorem truthful (moved : FiberMove c s i f a f') (truth : f.Truthful c) (fits : f.Fits)
    (running : s.pc = .slice i → f.Runnable) : f'.Truthful c := by
  cases moved with
  | keep => exact truth
  | event pc waiting => exact woken_truthful truth (Or.inl waiting) nofun
  | offloaded pc waiting => exact woken_truthful truth (Or.inr (Or.inl waiting)) nofun
  | woken waiting => exact woken_truthful truth (Or.inr (Or.inr waiting)) nofun
  | expired pc waiting timed past =>
    unfold Fiber.Fits at fits
    refine ⟨?_, ?_, ?_, ?_, fun _ => rfl, ?_⟩
    · simp [Fiber.Waiting]
    · simp
    · -- an endless `poll` has no deadline that could pass
      intro fd events timeout k place code forever
      rcases waiting with cond | io
      · rw [cond] at fits
        change f.place = .poll at place
        rw [fits.1] at place
        cases place
      · have none := (truth.forever fd events timeout k place code forever).2 io
        rw [none] at timed
        cases timed
    · exact fun _ _ _ _ _ _ _ => rfl
    · intro expired place
      change f.place = .relock expired at place
      rcases waiting with cond | io
      · rw [cond] at fits
        rw [fits.1] at place
        cases place
      · rw [io] at fits
        rcases fits with other | other
        · rw [other] at place
          cases place
        · rw [other] at place
          cases place
  | switchIn pc runnable => exact truth.switchedIn runnable
  | slice pc moved => exact slice_truthful truth (running pc) moved

end FiberMove

namespace Runtime

structure WakeInv (c : Config σ γ) (s : Runtime σ γ) : Prop where
  ready : ReadyInv c s
  offloads : OffloadInv s
  truthful : ∀ i f, s.fibs i = some f → f.Truthful c

theorem init_wakeInv (c : Config σ γ) (mem : γ) (detOn : Bool) (kinds : MutexId → MutexKind) :
    WakeInv c (init mem detOn kinds) := by
  refine ⟨init_readyInv c mem detOn kinds, init_offloadInv mem detOn kinds, ?_⟩
  simp [init]

/-- Whatever descriptors the fibers wait on, their flags stay truthful. -/
theorem step_truthful {c : Config σ γ} {s s' : Runtime σ γ} {a : Act} (formed : Formed c s)
    (truthful : ∀ i f, s.fibs i = some f → f.Truthful c) (taken : step c s a = some s') :
    ∀ i f', s'.fibs i = some f' → f'.Truthful c := by
  intro i f' live
  rcases step_fiber taken live with ⟨f, was, moved⟩ | ⟨g, waiting, rfl, _⟩
  · exact moved.truthful (truthful i f was) (formed.fits i f was) (formed.runnable was)
  · obtain ⟨arg, number, rfl⟩ := formed.queue g waiting
    exact Fiber.truthful_app rfl (Fiber.Runnable.not_waiting (Or.inl rfl))

theorem step_wakeInv {c : Config σ γ} {s s' : Runtime σ γ} {a : Act} (inv : WakeInv c s)
    (own : OwnDescriptor c s a) (taken : step c s a = some s') : WakeInv c s' := by
  have formed := inv.ready.formed
  refine ⟨step_readyInv inv.ready own taken, step_offloadInv formed inv.offloads taken, ?_⟩
  exact step_truthful formed inv.truthful taken

/-- What ends the wait of fiber `f` in this step, by the name the fiber records. -/
inductive Cause (c : Config σ γ) (s : Runtime σ γ) (i : Nat) (f : Fiber σ) (s' : Runtime σ γ) :
    Act → Wake → Prop
  | event {out : Out} (waiting : f.state = .waitIo) (pc : s.pc = .epoll)
      (reported : f.fd ∈ out.events) (pending : s.epoll.pending f.fd = some i) :
      Cause c s i f s' (.carrier out) .event
  | offload {out : Out} (waiting : f.state = .waitOff) (pc : s.pc = .offloads i)
      (done : out.done = true)
      (calls : s'.accel.calls = s.accel.calls ++ [.done f.offId, .release f.offId]) :
      Cause c s i f s' (.carrier out) .offload
  | cond {out : Out} {cv : CondId} (waiting : f.state = .waitCond) (on : f.waitcond = some cv)
      (waker : CondWaker c s cv) : Cause c s i f s' (.carrier out) .cond
  | deadline {out : Out} {now : Option Timespec} {d : Timespec}
      (waiting : f.state = .waitIo ∨ f.state = .waitCond) (pc : s.pc = .deadlines i now)
      (due : f.due = some d) (past : d.reached (now.getD out.real) = true) :
      Cause c s i f s' (.carrier out) .deadline

/-- A waiting fiber stays as it is until one of its causes ends the wait; any other
fiber keeps what ended its last wait until it starts the next one. -/
def OwnReasons (c : Config σ γ) (s : Runtime σ γ) (a : Act) (s' : Runtime σ γ) : Prop :=
  ∀ i f, s.fibs i = some f →
    (f.Waiting → ∃ f', s'.fibs i = some f' ∧ (f' = f ∨
      f'.state = .run ∧ f'.waits = f.waits ∧ Cause c s i f s' a f'.wake)) ∧
    (¬ f.Waiting → ∀ f', s'.fibs i = some f' →
      (¬ f'.Waiting ∧ f'.waits = f.waits ∧ f'.wake = f.wake) ∨
        f'.Waiting ∧ f'.waits = f.waits + 1 ∧ f'.wake = .none)

/-- The completion loop releases what it has seen done. -/
theorem step_offloadDone {c : Config σ γ} {s s' : Runtime σ γ} {i : Nat} {f : Fiber σ}
    {out : Out} (formed : Formed c s) (pc : s.pc = .offloads i) (live : s.fibs i = some f)
    (waiting : f.state = .waitOff) (done : out.done = true)
    (taken : step c s (.carrier out) = some s') :
    s'.accel.calls = s.accel.calls ++ [.done f.offId, .release f.offId] := by
  have inside : i < s.nfib := (formed.slots i f live).2
  change s.carrier c out = some s' at taken
  rw [carrier, pc] at taken
  dsimp only at taken
  rw [Option.some.injEq, offloadStep, if_pos inside] at taken
  dsimp only at taken
  rw [live] at taken
  dsimp only at taken
  rw [if_pos ⟨waiting, done⟩] at taken
  rw [← taken]
  rfl

theorem waiting_move {c : Config σ γ} {s s' : Runtime σ γ} {a : Act} {i : Nat} {f f' : Fiber σ}
    (inv : WakeInv c s) (taken : step c s a = some s') (live : s.fibs i = some f)
    (moved : FiberMove c s i f a f') (waiting : f.Waiting) :
    f' = f ∨ f'.state = .run ∧ f'.waits = f.waits ∧ Cause c s i f s' a f'.wake := by
  have formed := inv.ready.formed
  cases moved with
  | keep => exact Or.inl rfl
  | @event out fd pc state reported pending =>
    -- the registration is the one of the fiber's current wait
    obtain ⟨r, registered, armed, ptr⟩ := Epoll.pending_eq_some.mp pending
    obtain ⟨ev, waits⟩ := inv.ready.matched.alive fd r registered armed
    rw [ptr] at waits
    obtain ⟨g, there, _, same, _⟩ := ioWaits_eq_some.mp waits
    rw [live, Option.some.injEq] at there
    subst there
    subst same
    exact Or.inr ⟨rfl, rfl, .event state pc reported pending⟩
  | offloaded pc state done =>
    have calls := step_offloadDone formed pc live state done taken
    exact Or.inr ⟨rfl, rfl, .offload state pc done calls⟩
  | woken state on waker =>
    have fits := formed.fits i f live
    unfold Fiber.Fits at fits
    rw [state] at fits
    obtain ⟨cv, some⟩ := Option.ne_none_iff_exists'.mp fits.2
    exact Or.inr ⟨rfl, rfl, .cond state some (waker cv (on ▸ some))⟩
  | expired pc state timed past =>
    have due := (inv.truthful i f live).due state.symm
    rw [if_pos timed] at due
    exact Or.inr ⟨rfl, rfl, .deadline state.symm pc due past⟩
  | switchIn pc runnable => exact absurd waiting (Fiber.Runnable.not_waiting runnable)
  | slice pc => exact absurd waiting (formed.runnable live pc).not_waiting

theorem awake_move {c : Config σ γ} {s : Runtime σ γ} {a : Act} {i : Nat} {f f' : Fiber σ}
    (moved : FiberMove c s i f a f') (awake : ¬ f.Waiting) :
    (¬ f'.Waiting ∧ f'.waits = f.waits ∧ f'.wake = f.wake) ∨
      f'.Waiting ∧ f'.waits = f.waits + 1 ∧ f'.wake = .none := by
  cases moved with
  | keep => exact Or.inl ⟨awake, rfl, rfl⟩
  | event pc waiting => exact absurd (Or.inl waiting) awake
  | offloaded pc waiting => exact absurd (Or.inr (Or.inl waiting)) awake
  | woken waiting => exact absurd (Or.inr (Or.inr waiting)) awake
  | expired pc waiting =>
    rcases waiting with cond | io
    · exact absurd (Or.inr (Or.inr cond)) awake
    · exact absurd (Or.inl io) awake
  | switchIn pc runnable =>
    refine Or.inl ⟨?_, f.switchedIn_waits, f.switchedIn_wake⟩
    exact (Fiber.Runnable.switchedIn runnable).not_waiting
  | slice pc moved =>
    cases moved with
    | back => exact Or.inl ⟨awake, rfl, rfl⟩
    | run => exact Or.inl ⟨by simp [Fiber.Waiting, Fiber.tlsSave], rfl, rfl⟩
    | done => exact Or.inl ⟨by simp [Fiber.Waiting], rfl, rfl⟩
    | io | poll | pollTimed => exact Or.inr ⟨Or.inl rfl, rfl, rfl⟩
    | offload => exact Or.inr ⟨Or.inr (Or.inl rfl), rfl, rfl⟩
    | cond => exact Or.inr ⟨Or.inr (Or.inr rfl), rfl, rfl⟩

theorem WakeInv.ownReasons {c : Config σ γ} {s s' : Runtime σ γ} {a : Act} (inv : WakeInv c s)
    (taken : step c s a = some s') : s.OwnReasons c a s' := by
  have formed := inv.ready.formed
  intro i f live
  constructor
  · intro waiting
    rcases step_keeps formed taken live with ⟨f', live'⟩ | ⟨_, done⟩
    · exact ⟨f', live', waiting_move inv taken live (step_moved formed taken live live') waiting⟩
    · rcases waiting with io | off | cond
      · rw [io] at done
        cases done
      · rw [off] at done
        cases done
      · rw [cond] at done
        cases done
  · intro awake f' live'
    exact awake_move (step_moved formed taken live live') awake

/-- Every armed registration carries the pointer of a fiber that is in the table and
waits on its descriptor. -/
def EventsReachLive (s : Runtime σ γ) : Prop :=
  ∀ fd r, s.epoll fd = some r → r.armed = true →
    ∃ f, s.fibs r.ptr = some f ∧ f.state = .waitIo ∧ f.fd = fd

theorem WakeInv.eventsReachLive {c : Config σ γ} {s : Runtime σ γ} (inv : WakeInv c s) :
    s.EventsReachLive := by
  intro fd r registered armed
  obtain ⟨ev, waits⟩ := inv.ready.matched.alive fd r registered armed
  obtain ⟨f, live, waiting, same, _⟩ := ioWaits_eq_some.mp waits
  exact ⟨f, live, waiting, same⟩

/-- `poll` returns 0 and a timed condition wait `ETIMEDOUT` exactly when the deadline
of that very wait ended it; a condition wait may first wait for its mutex again. -/
def ReportsTruthfully (c : Config σ γ) (s s' : Runtime σ γ) : Prop :=
  ∀ i f, s.pc = .slice i → s.fibs i = some f →
    (∀ fd events timeout k, c.app.code f.ctx = .poll fd events timeout k → f.place = .poll →
      ∃ f', s'.fibs i = some f' ∧ f'.place = .app ∧
        f'.ctx = if f.wake = .deadline then k 0 0 else k 1 events) ∧
    (∀ cv m call k expired, c.app.code f.ctx = .condWait cv m call k →
      f.place = .relock expired → ∃ f', s'.fibs i = some f' ∧
        ((f'.place = f.place ∧ f'.ctx = f.ctx ∧ f'.wake = f.wake) ∨
          f'.place = .app ∧
            f'.ctx = k (if call ≠ .wait ∧ f.wake = .deadline then etimedout else 0)))

/-- A fiber's `pthread_cond_signal` or `pthread_cond_broadcast` returns with every
fiber that was parked on the condition made runnable. -/
def SignalsWake (c : Config σ γ) (s s' : Runtime σ γ) : Prop :=
  ∀ j g cv k, s.pc = .slice j → s.fibs j = some g → g.place = .app →
    (c.app.code g.ctx = .condSignal cv k ∨ c.app.code g.ctx = .condBroadcast cv k) →
    s'.fibs j = some { g with ctx := k } ∧
      ∀ i f, s.fibs i = some f → f.state = .waitCond → f.waitcond = some cv →
        s'.fibs i = some { f with state := .run, waitcond := none, wake := .cond }

/-- A slice is one step of the fiber that is switched in. -/
theorem step_exec {c : Config σ γ} {s s' : Runtime σ γ} {i : Nat} {f : Fiber σ} {out : Out}
    (pc : s.pc = .slice i) (live : s.fibs i = some f)
    (taken : step c s (.carrier out) = some s') : s.exec c i f out = some s' := by
  change s.carrier c out = some s' at taken
  rw [carrier, pc] at taken
  dsimp only at taken
  rw [live] at taken
  exact taken

theorem pollRet_truthful {c : Config σ γ} {s : Runtime σ γ} {i : Nat} {f : Fiber σ} {fd : Fd}
    {events : Nat} {timeout : Int} {k : Int → Nat → σ} (truth : f.Truthful c)
    (place : f.place = .poll) (code : c.app.code f.ctx = .poll fd events timeout k) :
    s.pollRet i f events timeout k =
      s.resumeApp i f (if f.wake = .deadline then k 0 0 else k 1 events) := by
  unfold pollRet
  dsimp only
  by_cases forever : timeout < 0
  · have other := (truth.forever fd events timeout k place code forever).1
    simp [forever, other]
  · have flag := truth.timed fd events timeout k place code forever
    by_cases expired : f.wake = .deadline
    · simp [forever, flag, expired]
    · simp [forever, flag, expired]

/-- Taking the mutex again leaves the result of the wait alone. -/
theorem mutexLock_fiber {c : Config σ γ} {s s' : Runtime σ γ} {i : Nat} {f : Fiber σ}
    {m : MutexId} {place : Place} {ctx : σ}
    (taken : s.mutexLock c i f m place (fun _ => ctx) = some s') :
    ∃ f', s'.fibs i = some f' ∧ ((f'.place = place ∧ f'.ctx = f.ctx ∧ f'.wake = f.wake) ∨
      f'.place = .app ∧ f'.ctx = ctx) := by
  unfold mutexLock at taken
  split at taken
  · split at taken
    · cases taken
    · rw [Option.some.injEq] at taken
      subst taken
      exact ⟨_, Function.update_self .., Or.inr ⟨rfl, rfl⟩⟩
    · rw [Option.some.injEq] at taken
      subst taken
      exact ⟨_, Function.update_self .., Or.inr ⟨rfl, rfl⟩⟩
  · rw [Option.some.injEq] at taken
    subst taken
    unfold mutexLockLoop
    dsimp only
    split
    · exact ⟨_, Function.update_self .., Or.inr ⟨rfl, rfl⟩⟩
    · exact ⟨_, Function.update_self .., Or.inl ⟨rfl, rfl, rfl⟩⟩

theorem condResult_truthful {call : CondCall} {f : Fiber σ} {expired : Bool}
    (flag : expired = decide (f.wake = .deadline)) :
    condResult call expired = if call ≠ .wait ∧ f.wake = .deadline then etimedout else 0 := by
  subst flag
  cases call with
  | wait => simp [condResult]
  | timedwait | clockwait => simp [condResult]

theorem WakeInv.reportsTruthfully {c : Config σ γ} {s s' : Runtime σ γ} {out : Out}
    (inv : WakeInv c s) (taken : step c s (.carrier out) = some s') :
    ReportsTruthfully c s s' := by
  intro i f pc live
  have executed := step_exec pc live taken
  constructor
  · intro fd events timeout k code place
    rw [exec, place, code] at executed
    dsimp only at executed
    rw [Option.some.injEq, pollRet_truthful (inv.truthful i f live) place code] at executed
    subst executed
    exact ⟨_, Function.update_self .., rfl, rfl⟩
  · intro cv m call k expired code place
    rw [exec, place, code] at executed
    dsimp only at executed
    have flag := (inv.truthful i f live).relock expired place
    rw [place, ← condResult_truthful flag]
    exact mutexLock_fiber executed

theorem WakeInv.signalsWake {c : Config σ γ} {s s' : Runtime σ γ} {out : Out}
    (inv : WakeInv c s) (taken : step c s (.carrier out) = some s') : SignalsWake c s s' := by
  intro j g cv k pc live place code
  have executed := step_exec pc live taken
  have woke : s' = s.condWake j g cv k := by
    rcases code with signal | broadcast
    · rw [exec, place, signal] at executed
      exact (Option.some.inj executed).symm
    · rw [exec, place, broadcast] at executed
      exact (Option.some.inj executed).symm
  subst woke
  constructor
  · rw [condWake, resumeApp, setFiber_fibs, Function.update_self, ← place]
  · intro i f there waiting on
    have other : i ≠ j := by
      intro same
      subst same
      exact (inv.ready.formed.runnable there pc).not_waiting (Or.inr (Or.inr waiting))
    rw [condWake, resumeApp, setFiber_fibs, Function.update_of_ne other]
    exact wakeFibers_wakes (inv.ready.formed.slots i f there).2 there waiting on

end Runtime

open TransparentOffload.Runtime

/-- Whatever the fibers wait for, in whatever order, as long as each waits on
descriptors of its own: a parked fiber is resumed for its own reason alone, what it
is told is what ended its wait, and each offload is released once. -/
theorem parked_fiber_resumed_for_own_reason (c : Config σ γ) (mem : γ) (detOn : Bool)
    (kinds : MutexId → MutexKind) (acts : List Act) (s : Runtime σ γ)
    (ran : runActs c (init mem detOn kinds) acts = some s)
    (own : Machine.Guarded (step c) (OwnDescriptor c) (init mem detOn kinds) acts) :
    (∀ a s', step c s a = some s' → s.OwnReasons c a s') ∧
    s.EventsReachLive ∧
    (∀ out s', step c s (.carrier out) = some s' → ReportsTruthfully c s s' ∧ SignalsWake c s s') ∧
    ∀ id, s.accel.calls.count (.release id) = s.accel.calls.count (.done id) ∧
      s.accel.calls.count (.release id) ≤ 1 := by
  have inv : WakeInv c s :=
    Machine.invariant_run (fun _ _ _ inv own taken => step_wakeInv inv own taken)
      (init_wakeInv c mem detOn kinds) own ran
  refine ⟨fun a s' taken => inv.ownReasons taken, inv.eventsReachLive, ?_, inv.offloads.once⟩
  exact fun out s' taken => ⟨inv.reportsTruthfully taken, inv.signalsWake taken⟩

/-- A thread function that polls descriptor 3 for at most 5 milliseconds. -/
def poller : Config Nat Unit :=
  { app :=
      { entry := id
        code := fun at_ => match at_ with
          | 0 => .poll 3 1 5 fun result _ => 1 + result.toNat
          | _ => .ret }
    gEnforce := false, gRealmutex := false, ssl := .absent, transform := id }

/-- The poll parks, its deadline passes, and the fiber is switched in again. -/
def pollExpires : List Act :=
  .create 0 :: List.replicate 16 (.carrier .quiet) ++
    List.replicate 3 (.carrier { Out.quiet with real := ⟨1, 0⟩ })

/-- A fiber alone in the table waits on descriptors of its own. -/
theorem ownDescriptor_of_alone {c : Config σ γ} {s : Runtime σ γ} (formed : Formed c s)
    (alone : s.nfib ≤ 1) (a : Act) : OwnDescriptor c s a := by
  cases a with
  | carrier out =>
    intro i f fd pc live _ j ev apart waits
    obtain ⟨g, there, _⟩ := ioWaits_eq_some.mp waits
    have first := (formed.slots i f live).2
    have second := (formed.slots j g there).2
    omega
  | _ => trivial

theorem pollExpires_resumed_for_own_reason : ∃ s f,
    runActs poller (init () false fun _ => .normal) pollExpires = some s ∧
    s.pc = .slice 0 ∧ s.fibs 0 = some f ∧ f.wake = .deadline ∧
    (∀ a s', step poller s a = some s' → s.OwnReasons poller a s') ∧
    s.EventsReachLive ∧
    (∀ out s', step poller s (.carrier out) = some s' →
      ReportsTruthfully poller s s' ∧ SignalsWake poller s s') ∧
    ∀ id, s.accel.calls.count (.release id) = s.accel.calls.count (.done id) ∧
      s.accel.calls.count (.release id) ≤ 1 := by
  have alone : Machine.Guarded (step poller) (fun s _ => s.nfib ≤ 1)
      (init () false fun _ => .normal) pollExpires := by decide +kernel
  have own : Machine.Guarded (step poller) (OwnDescriptor poller)
      (init () false fun _ => .normal) pollExpires :=
    alone.mono (fun _ a formed few => ownDescriptor_of_alone formed few a)
      (fun _ _ _ formed taken => step_formed formed taken) (init_formed _ _ _ _)
  exact ⟨_, _, rfl, rfl, rfl, rfl,
    parked_fiber_resumed_for_own_reason poller () false (fun _ => .normal) pollExpires _ rfl own⟩

end TransparentOffload
