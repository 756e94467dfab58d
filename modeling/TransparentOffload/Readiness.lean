import TransparentOffload.Formed

set_option autoImplicit false

/- Waiting fibers and epoll registrations. A registration is keyed by descriptor
and a waiter by fiber, so the two agree as long as no fiber registers or closes a
descriptor another fiber waits on. -/
namespace TransparentOffload

variable {σ γ : Type}

/-- The descriptor and the events a fiber in `F_WAIT_IO` waits for. -/
def Fiber.ioWait (f : Fiber σ) : Option (Fd × Events) :=
  if f.state = .waitIo then some (f.fd, f.asked) else none

namespace Fiber

theorem ioWait_eq_some {f : Fiber σ} {fd : Fd} {ev : Events} :
    f.ioWait = some (fd, ev) ↔ f.state = .waitIo ∧ f.fd = fd ∧ f.asked = ev := by
  unfold ioWait
  split
  · rename_i waiting
    rw [Option.some.injEq, Prod.mk.injEq]
    exact ⟨fun same => ⟨waiting, same⟩, And.right⟩
  · rename_i other
    exact ⟨nofun, fun waiting => absurd waiting.1 other⟩

theorem ioWait_eq_none {f : Fiber σ} (other : f.state ≠ .waitIo) : f.ioWait = none :=
  if_neg other

end Fiber

/-- Waiters and registrations agree: each waiter has an armed registration that
covers its events and carries its pointer, and each armed registration is a waiter's. -/
structure Matched (waits : Nat → Option (Fd × Events)) (epoll : Epoll) : Prop where
  armed : ∀ i fd ev, waits i = some (fd, ev) →
    ∃ r, epoll fd = some r ∧ r.armed = true ∧ r.ptr = i ∧ r.events.covers ev
  alive : ∀ fd r, epoll fd = some r → r.armed = true → ∃ ev, waits r.ptr = some (fd, ev)

namespace Matched

variable {waits : Nat → Option (Fd × Events)} {epoll : Epoll} {i : Nat} {fd : Fd} {ev : Events}

theorem empty : Matched (fun _ => none) Epoll.empty := ⟨nofun, nofun⟩

/-- Two fibers never wait on one descriptor. -/
theorem once (matched : Matched waits epoll) {j : Nat} {ev' : Events}
    (first : waits i = some (fd, ev)) (second : waits j = some (fd, ev')) : i = j := by
  obtain ⟨r, registered, _, ptr, _⟩ := matched.armed i fd ev first
  obtain ⟨r', registered', _, ptr', _⟩ := matched.armed j fd ev' second
  rw [registered, Option.some.injEq] at registered'
  rw [← ptr, ← ptr', registered']

/-- `yield_io` on a descriptor nobody waits on. -/
theorem arm (matched : Matched waits epoll) (idle : waits i = none)
    (free : ∀ j ev', waits j ≠ some (fd, ev')) :
    Matched (Function.update waits i (some (fd, ev)))
      (Function.update epoll fd (some ⟨ev, i, true⟩)) := by
  constructor
  · intro j fd' ev' waiting
    by_cases here : j = i
    · subst here
      rw [Function.update_self, Option.some.injEq, Prod.mk.injEq] at waiting
      obtain ⟨rfl, rfl⟩ := waiting
      exact ⟨_, Function.update_self .., rfl, rfl, ev.covers_refl⟩
    · rw [Function.update_of_ne here] at waiting
      have apart : fd' ≠ fd := fun same => free j ev' (same ▸ waiting)
      rw [Function.update_of_ne apart]
      exact matched.armed j fd' ev' waiting
  · intro fd' r registered armed
    by_cases same : fd' = fd
    · subst same
      rw [Function.update_self, Option.some.injEq] at registered
      subst registered
      exact ⟨ev, Function.update_self ..⟩
    · rw [Function.update_of_ne same] at registered
      obtain ⟨ev', waiting⟩ := matched.alive fd' r registered armed
      refine ⟨ev', ?_⟩
      have other : r.ptr ≠ i := by
        intro here
        rw [here, idle] at waiting
        cases waiting
      rw [Function.update_of_ne other]
      exact waiting

/-- The registration of `fd` no longer wakes anybody, and its waiter waits no more. -/
theorem leave (matched : Matched waits epoll) {waits' : Nat → Option (Fd × Events)}
    {epoll' : Epoll} (gone : ∀ j ev', waits' j ≠ some (fd, ev'))
    (others : ∀ j fd' ev', fd' ≠ fd → (waits' j = some (fd', ev') ↔ waits j = some (fd', ev')))
    (quiet : ∀ r, epoll' fd = some r → r.armed = false)
    (kept : ∀ fd', fd' ≠ fd → epoll' fd' = epoll fd') : Matched waits' epoll' := by
  constructor
  · intro j fd' ev' waiting
    have apart : fd' ≠ fd := fun same => gone j ev' (same ▸ waiting)
    rw [kept fd' apart]
    exact matched.armed j fd' ev' ((others j fd' ev' apart).mp waiting)
  · intro fd' r registered armed
    by_cases same : fd' = fd
    · rw [same] at registered
      rw [quiet r registered] at armed
      cases armed
    · rw [kept fd' same] at registered
      obtain ⟨ev', waiting⟩ := matched.alive fd' r registered armed
      exact ⟨ev', (others r.ptr fd' ev' same).mpr waiting⟩

/-- The waiter `i` of `fd` stops waiting and its registration is disarmed or deleted. -/
theorem wake (matched : Matched waits epoll) {epoll' : Epoll} (waiting : waits i = some (fd, ev))
    (quiet : ∀ r, epoll' fd = some r → r.armed = false)
    (kept : ∀ fd', fd' ≠ fd → epoll' fd' = epoll fd') :
    Matched (Function.update waits i none) epoll' := by
  refine matched.leave ?_ ?_ quiet kept
  · intro j ev' waiting'
    by_cases here : j = i
    · rw [here, Function.update_self] at waiting'
      cases waiting'
    · rw [Function.update_of_ne here] at waiting'
      exact here (matched.once waiting' waiting)
  · intro j fd' ev' apart
    by_cases here : j = i
    · subst here
      rw [Function.update_self, waiting, Option.some.injEq, Prod.mk.injEq]
      exact ⟨nofun, fun same => absurd same.1.symm apart⟩
    · rw [Function.update_of_ne here]

/-- `close` of a descriptor nobody waits on. -/
theorem del (matched : Matched waits epoll) (free : ∀ j ev', waits j ≠ some (fd, ev')) :
    Matched waits (epoll.ctlDel fd) := by
  refine matched.leave free (fun _ _ _ _ => Iff.rfl) ?_ ?_
  · intro r registered
    rw [Epoll.ctlDel, Function.update_self] at registered
    cases registered
  · exact fun fd' apart => Function.update_of_ne apart ..

end Matched

namespace Runtime

/-- Who waits for which events of which descriptor. -/
def ioWaits (s : Runtime σ γ) : Nat → Option (Fd × Events) :=
  fun i => (s.fibs i).bind Fiber.ioWait

theorem ioWaits_eq_some {s : Runtime σ γ} {i : Nat} {fd : Fd} {ev : Events} :
    s.ioWaits i = some (fd, ev) ↔
      ∃ f, s.fibs i = some f ∧ f.state = .waitIo ∧ f.fd = fd ∧ f.asked = ev := by
  unfold ioWaits
  simp only [Option.bind_eq_some_iff, Fiber.ioWait_eq_some]

theorem ioWaits_update {s s' : Runtime σ γ} {i : Nat} {f' : Fiber σ}
    (fibs : s'.fibs = Function.update s.fibs i (some f')) :
    s'.ioWaits = Function.update s.ioWaits i f'.ioWait := by
  funext j
  unfold ioWaits
  rw [fibs]
  by_cases here : j = i
  · subst here
    simp
  · simp [here]

theorem ioWaits_waiting {s s' : Runtime σ γ} {i : Nat} {f' : Fiber σ} {fd : Fd} {ev : Events}
    (fibs : s'.fibs = Function.update s.fibs i (some f'))
    (waiting : f'.state = .waitIo ∧ f'.fd = fd ∧ f'.asked = ev) :
    s'.ioWaits = Function.update s.ioWaits i (some (fd, ev)) := by
  rw [ioWaits_update fibs, Fiber.ioWait_eq_some.mpr waiting]

theorem ioWaits_idle {s s' : Runtime σ γ} {i : Nat} {f' : Fiber σ}
    (fibs : s'.fibs = Function.update s.fibs i (some f')) (idle : f'.state ≠ .waitIo) :
    s'.ioWaits = Function.update s.ioWaits i none := by
  rw [ioWaits_update fibs, Fiber.ioWait_eq_none idle]

/-- A fiber that neither waits for I/O before nor after is no waiter. -/
theorem ioWaits_same {s s' : Runtime σ γ} {i : Nat} {f f' : Fiber σ} (live : s.fibs i = some f)
    (fibs : s'.fibs = Function.update s.fibs i (some f')) (same : f'.ioWait = f.ioWait) :
    s'.ioWaits = s.ioWaits := by
  rw [ioWaits_update fibs, same]
  have here : s.ioWaits i = f.ioWait := by simp [ioWaits, live]
  rw [← here, Function.update_eq_self]

theorem wakeOne_ioWait (c : Option CondId) (f : Fiber σ) : (wakeOne c f).ioWait = f.ioWait := by
  unfold wakeOne
  split
  · rename_i waiting
    rw [Fiber.ioWait_eq_none (by simp), Fiber.ioWait_eq_none (by simp [waiting.1])]
  · rfl

theorem wakeFibers_ioWaits (s : Runtime σ γ) (c : Option CondId) :
    (s.wakeFibers c).ioWaits = s.ioWaits := by
  funext j
  change (if j < s.nfib then (s.fibs j).map (wakeOne c) else s.fibs j).bind Fiber.ioWait = _
  split
  · unfold ioWaits
    cases s.fibs j with
    | none => rfl
    | some f => exact wakeOne_ioWait c f
  · rfl

/-- Delivering an event wakes the waiter of its descriptor. -/
theorem deliver_matched {s : Runtime σ γ} (matched : Matched s.ioWaits s.epoll) (fd : Fd) :
    Matched (s.deliver fd).ioWaits (s.deliver fd).epoll := by
  unfold deliver
  split
  · exact matched
  · rename_i i reported
    obtain ⟨r, registered, armed, rfl⟩ := Epoll.pending_eq_some.mp reported
    obtain ⟨ev, waiting⟩ := matched.alive fd r registered armed
    obtain ⟨f, live, state, _⟩ := ioWaits_eq_some.mp waiting
    have fibs : Function.update s.fibs r.ptr ((s.fibs r.ptr).map wakeIo) =
        Function.update s.fibs r.ptr (some { f with state := .run, wake := .event }) := by
      rw [live, Option.map_some, wakeIo, if_pos state]
    rw [ioWaits_update fibs, Fiber.ioWait_eq_none (by simp)]
    refine matched.wake waiting ?_ ?_
    · intro r' disarmed
      dsimp only [Epoll.disarm] at disarmed
      rw [Function.update_self] at disarmed
      obtain ⟨_, _, rfl⟩ := Option.map_eq_some_iff.mp disarmed
      rfl
    · exact fun fd' apart => Function.update_of_ne apart ..

theorem deliverAll_matched {s : Runtime σ γ} (matched : Matched s.ioWaits s.epoll)
    (fds : List Fd) :
    Matched (fds.foldl deliver s).ioWaits (fds.foldl deliver s).epoll := by
  induction fds generalizing s with
  | nil => exact matched
  | cons fd rest ih => exact ih (deliver_matched matched fd)

/-- A `read` of `f` waits for the handler lock. -/
def Blocked (c : Config σ γ) (s : Runtime σ γ) (f : Fiber σ) : Prop :=
  ((f.place = .app ∧ s.enforcing c.gEnforce = true) ∨ f.place = .handlerLock) ∧
    s.handlerBusy f.slot = true

/-- The next step of `f` registers the descriptor `fd` anew or closes it. -/
def Rearms (c : Config σ γ) (s : Runtime σ γ) (f : Fiber σ) (out : Out) (fd : Fd) : Prop :=
  (∃ op k, c.app.code f.ctx = .io op fd k ∧ out.io = .again ∧
      ∀ n, op = .read n → ¬ Blocked c s f) ∨
    (∃ events timeout k, c.app.code f.ctx = .poll fd events timeout k ∧ f.place = .app ∧
      pollEvents events ≠ .empty ∧ timeout ≠ 0) ∨
    ∃ k, c.app.code f.ctx = .close fd k

/-- No fiber registers or closes a descriptor while another fiber waits on it. -/
def OwnDescriptor (c : Config σ γ) (s : Runtime σ γ) : Act → Prop
  | .carrier out => ∀ i f fd, s.pc = .slice i → s.fibs i = some f → Rearms c s f out fd →
      ∀ j ev, j ≠ i → s.ioWaits j ≠ some (fd, ev)
  | _ => True

/-- The kernel's `EAGAIN` is the answer `again` and no other. -/
theorem real_again {k k' : Socket} {op : IoOp} {out : IoOut} {r : IoRet}
    (answer : op.real k out = some (k', r)) : r = .err eagain ↔ out = .again := by
  have reads : ∀ n dontwait, k.realRead n dontwait out = some (k', r) →
      (r = .err eagain ↔ out = .again) := by
    intro n dontwait answer
    unfold Socket.realRead at answer
    split at answer
    · split at answer <;> cases answer
      exact ⟨fun _ => rfl, fun _ => rfl⟩
    · split at answer <;> cases answer
      exact ⟨nofun, nofun⟩
    · split at answer <;> cases answer
      exact ⟨nofun, nofun⟩
    · rename_i e
      split at answer
      · cases answer
      · rename_i other
        cases answer
        exact ⟨fun same => absurd (IoRet.err.inj same) other, nofun⟩
  have writes : ∀ bs dontwait, k.realWrite bs dontwait out = some (k', r) →
      (r = .err eagain ↔ out = .again) := by
    intro bs dontwait answer
    unfold Socket.realWrite at answer
    split at answer
    · split at answer <;> cases answer
      exact ⟨fun _ => rfl, fun _ => rfl⟩
    · split at answer <;> cases answer
      exact ⟨nofun, nofun⟩
    · cases answer
    · rename_i e
      split at answer
      · cases answer
      · rename_i other
        cases answer
        exact ⟨fun same => absurd (IoRet.err.inj same) other, nofun⟩
  cases op with
  | read | recv | recvfrom => exact reads _ _ answer
  | write | send | sendto => exact writes _ _ answer

/-- What a slice does to the registrations and to its own fiber's wait. -/
inductive EpollEffect (c : Config σ γ) (s : Runtime σ γ) (i : Nat) (f : Fiber σ) (out : Out) :
    Epoll → Option (Fd × Events) → Prop
  | keep (idle : ∀ fd, ¬ Rearms c s f out fd) : EpollEffect c s i f out s.epoll none
  | arm {fd : Fd} {ev : Events} (rearms : Rearms c s f out fd) : EpollEffect c s i f out
      (Function.update s.epoll fd (some ⟨ev, i, true⟩)) (some (fd, ev))
  | del {fd : Fd} (rearms : Rearms c s f out fd) :
      EpollEffect c s i f out (s.epoll.ctlDel fd) none

theorem not_rearms {c : Config σ γ} {s : Runtime σ γ} {f : Fiber σ} {out : Out}
    (io : ∀ op fd k, c.app.code f.ctx ≠ .io op fd k)
    (poll : ∀ fd events timeout k, c.app.code f.ctx ≠ .poll fd events timeout k)
    (close : ∀ fd k, c.app.code f.ctx ≠ .close fd k) (fd : Fd) : ¬ Rearms c s f out fd := by
  rintro (⟨op, k, code, _⟩ | ⟨events, timeout, k, code, _⟩ | ⟨k, code⟩)
  · exact io op fd k code
  · exact poll fd events timeout k code
  · exact close fd k code

theorem Attempts.not_rearms {c : Config σ γ} {s : Runtime σ γ} {f : Fiber σ} {out : Out}
    {m : MutexId} (attempts : Attempts c f m) (fd : Fd) : ¬ Rearms c s f out fd := by
  have locks := attempts.locks
  rintro (⟨op, k, code, _⟩ | ⟨events, timeout, k, code, _⟩ | ⟨k, code⟩)
  all_goals
    rw [code] at locks
    cases locks

theorem Rearms.of_io {c : Config σ γ} {s : Runtime σ γ} {f : Fiber σ} {out : Out} {op : IoOp}
    {fd fd' : Fd} {k : IoRet → σ} (rearms : Rearms c s f out fd')
    (at_ : c.app.code f.ctx = .io op fd k) :
    out.io = .again ∧ ∀ n, op = .read n → ¬ Blocked c s f := by
  rcases rearms with ⟨op', k', code, again, free⟩ | ⟨_, _, _, code, _⟩ | ⟨_, code⟩
  all_goals
    rw [at_] at code
    cases code
  exact ⟨again, free⟩

theorem Rearms.of_poll {c : Config σ γ} {s : Runtime σ γ} {f : Fiber σ} {out : Out}
    {fd fd' : Fd} {events : Nat} {timeout : Int} {k : Int → Nat → σ}
    (rearms : Rearms c s f out fd') (at_ : c.app.code f.ctx = .poll fd events timeout k) :
    f.place = .app ∧ pollEvents events ≠ .empty ∧ timeout ≠ 0 := by
  rcases rearms with ⟨_, _, code, _⟩ | ⟨_, _, _, code, waits⟩ | ⟨_, code⟩
  all_goals
    rw [at_] at code
    cases code
  exact waits

/-- A socket call that gets to the kernel was not blocked on the handler lock. -/
theorem LockMove.not_blocked {c : Config σ γ} {s : Runtime σ γ} {f : Fiber σ} {op : IoOp}
    {owner : Option Nat} (moved : LockMove c s f op owner) {n : Nat} (reading : op = .read n) :
    ¬ Blocked c s f := by
  rintro ⟨start, busy⟩
  have free : s.hlockOwner = none ∨ s.hlockOwner = some f.slot := by
    cases moved with
    | keep own again =>
      rcases start with ⟨app, active⟩ | waiting
      · exact Or.inr (own n reading app active)
      · exact absurd waiting again
    | take _ _ _ free => exact free
    | drop bs writing =>
      rw [reading] at writing
      cases writing
  rcases free with none | own
  · simp [handlerBusy, none] at busy
  · simp [handlerBusy, own] at busy

theorem slice_epoll {c : Config σ γ} {s s' : Runtime σ γ} {i : Nat} {f : Fiber σ} {out : Out}
    (runnable : f.Runnable) (taken : Slice c s i f out s') :
    ∃ wait, s'.ioWaits = Function.update s.ioWaits i wait ∧
      EpollEffect c s i f out s'.epoll wait := by
  have awake : f.state ≠ .waitIo := runnable.ne nofun nofun
  have quiet : ∀ {t : Runtime σ γ} {f' : Fiber σ}, t.fibs = Function.update s.fibs i (some f') →
      f'.state = f.state ∨ f'.state ≠ .waitIo → t.epoll = s.epoll →
      (∀ fd, ¬ Rearms c s f out fd) → ∃ wait, t.ioWaits = Function.update s.ioWaits i wait ∧
        EpollEffect c s i f out t.epoll wait := by
    intro t f' fibs state epoll idle
    refine ⟨none, ioWaits_idle fibs ?_, epoll ▸ .keep idle⟩
    rcases state with same | other
    · rw [same]
      exact awake
    · exact other
  have other : ∀ {call}, c.app.code f.ctx = call → (∀ op fd k, call ≠ .io op fd k) →
      (∀ fd events timeout k, call ≠ .poll fd events timeout k) →
      (∀ fd k, call ≠ .close fd k) → ∀ fd, ¬ Rearms c s f out fd := by
    intro call code io poll close
    subst code
    exact not_rearms io poll close
  cases taken with
  | plain place code | offloadRet place code =>
    exact quiet rfl (Or.inl rfl) rfl (other code nofun nofun nofun)
  | offload place code => exact quiet rfl (Or.inr nofun) rfl (other code nofun nofun nofun)
  | exit place code => exact quiet rfl (Or.inr nofun) rfl (other code nofun nofun nofun)
  | lockBusy place code busy =>
    refine quiet rfl (Or.inr nofun) rfl ?_
    intro fd' rearms
    exact (rearms.of_io code).2 _ rfl ⟨place, busy⟩
  | ioReturn place code moved real ready =>
    refine quiet rfl (Or.inl rfl) rfl ?_
    intro fd' rearms
    exact ready ((real_again real).mpr (rearms.of_io code).1)
  | @ioPark op fd k owner sock place code moved real =>
    refine ⟨some (fd, op.event), ioWaits_waiting rfl ⟨rfl, rfl, rfl⟩, ?_⟩
    change EpollEffect c s i f out (s.epoll.arm fd op.event i) _
    rw [Epoll.arm_eq]
    exact .arm (Or.inl ⟨op, k, code, (real_again real).mp rfl,
      fun n reading => moved.not_blocked reading⟩)
  | @pollPark fd events timeout k place code waits =>
    have rearms : Rearms c s f out fd :=
      Or.inr (Or.inl ⟨events, timeout, k, code, place, waits⟩)
    refine ⟨some (fd, pollEvents events), ?_⟩
    unfold yieldIoTo
    split
    · refine ⟨ioWaits_waiting rfl ⟨rfl, rfl, rfl⟩, ?_⟩
      change EpollEffect c s i f out (s.epoll.arm fd (pollEvents events) i) _
      rw [Epoll.arm_eq]
      exact .arm rearms
    · refine ⟨ioWaits_waiting rfl ⟨rfl, rfl, rfl⟩, ?_⟩
      change EpollEffect c s i f out (s.epoll.arm fd (pollEvents events) i) _
      rw [Epoll.arm_eq]
      exact .arm rearms
  | pollPass place code passes =>
    refine quiet rfl (Or.inl rfl) rfl ?_
    intro fd' rearms
    obtain ⟨_, some, positive⟩ := rearms.of_poll code
    exact passes.elim some positive
  | pollRet place code =>
    refine quiet rfl (Or.inl rfl) rfl ?_
    intro fd' rearms
    have start := (rearms.of_poll code).1
    rw [place] at start
    cases start
  | lockTaken attempts | lockFailed attempts =>
    exact quiet rfl (Or.inl rfl) rfl attempts.not_rearms
  | lockWait attempts => exact quiet rfl (Or.inr nofun) rfl attempts.not_rearms
  | unlock place code =>
    unfold mutexUnlock releaseMutex
    dsimp only
    split <;> exact quiet rfl (Or.inl rfl) rfl (other code nofun nofun nofun)
  | condWait place code =>
    unfold fiberCondWait releaseMutex
    dsimp only
    split <;> exact quiet rfl (Or.inr nofun) rfl (other code nofun nofun nofun)
  | @condWake cv ctx place code =>
    refine ⟨none, ?_, .keep ?_⟩
    · rw [← wakeFibers_ioWaits s (some cv)]
      exact ioWaits_idle (s := s.wakeFibers (some cv)) rfl awake
    · rcases code with code | code
      · exact other code nofun nofun nofun
      · exact other code nofun nofun nofun
  | errQueue place kept =>
    refine quiet rfl (Or.inl rfl) rfl ?_
    rcases kept with ⟨_, _, code, _⟩ | ⟨_, code, _⟩ | ⟨_, code, _⟩
    · exact other code nofun nofun nofun
    · exact other code nofun nofun nofun
    · exact other code nofun nofun nofun
  | @close fd k place code =>
    exact ⟨none, ioWaits_idle rfl awake, .del (Or.inr (Or.inr ⟨k, code⟩))⟩

theorem Rearms.same {c : Config σ γ} {s : Runtime σ γ} {f : Fiber σ} {out : Out} {fd fd' : Fd}
    (first : Rearms c s f out fd) (second : Rearms c s f out fd') : fd = fd' := by
  rcases first with ⟨_, _, code, _⟩ | ⟨_, _, _, code, _⟩ | ⟨_, code⟩
  all_goals
    rcases second with ⟨_, _, code', _⟩ | ⟨_, _, _, code', _⟩ | ⟨_, code'⟩
    all_goals
      rw [code] at code'
      cases code'
  all_goals rfl

theorem Runnable.ioWaits {s : Runtime σ γ} {i : Nat} {f : Fiber σ} (live : s.fibs i = some f)
    (runnable : f.Runnable) : s.ioWaits i = none := by
  unfold Runtime.ioWaits
  rw [live]
  exact Fiber.ioWait_eq_none (runnable.ne nofun nofun)

/-- A slice that touches nobody else's descriptor keeps the agreement. -/
theorem slice_matched {c : Config σ γ} {s s' : Runtime σ γ} {i : Nat} {f : Fiber σ} {out : Out}
    (matched : Matched s.ioWaits s.epoll) (live : s.fibs i = some f) (runnable : f.Runnable)
    (own : ∀ fd, Rearms c s f out fd → ∀ j ev, j ≠ i → s.ioWaits j ≠ some (fd, ev))
    (taken : Slice c s i f out s') : Matched s'.ioWaits s'.epoll := by
  have idle := Runnable.ioWaits live runnable
  have free : ∀ fd, Rearms c s f out fd → ∀ j ev, s.ioWaits j ≠ some (fd, ev) := by
    intro fd rearms j ev
    by_cases here : j = i
    · rw [here, idle]
      exact nofun
    · exact own fd rearms j ev here
  obtain ⟨wait, waits, effect⟩ := slice_epoll runnable taken
  rw [waits]
  generalize s'.epoll = epoll at effect
  cases effect with
  | keep =>
    rw [← idle, Function.update_eq_self]
    exact matched
  | arm rearms => exact matched.arm idle (free _ rearms)
  | del rearms =>
    rw [← idle, Function.update_eq_self]
    exact matched.del (free _ rearms)

/-- A deadline takes its own fiber's registration away, and no other. -/
theorem expire_matched {s : Runtime σ γ} {i : Nat} {f : Fiber σ}
    (matched : Matched s.ioWaits s.epoll) (live : s.fibs i = some f)
    (waiting : f.state = .waitCond ∨ f.state = .waitIo) :
    Matched (s.expire i f).ioWaits (s.expire i f).epoll := by
  unfold expire
  rcases waiting with cond | io
  · rw [if_neg (by simp [cond])]
    rw [ioWaits_same live rfl]
    · exact matched
    · rw [Fiber.ioWait_eq_none (by simp), Fiber.ioWait_eq_none (by simp [cond])]
  · rw [if_pos io, ioWaits_idle (s := s) rfl (by simp)]
    have waits : s.ioWaits i = some (f.fd, f.asked) :=
      ioWaits_eq_some.mpr ⟨f, live, io, rfl, rfl⟩
    refine matched.wake waits ?_ ?_
    · intro r registered
      change s.epoll.ctlDel f.fd f.fd = some r at registered
      rw [Epoll.ctlDel, Function.update_self] at registered
      cases registered
    · exact fun fd' apart => Function.update_of_ne apart ..

theorem intake_ioWaits {c : Config σ γ} {s : Runtime σ γ} (formed : Formed c s) :
    s.intake.ioWaits = s.ioWaits := by
  funext j
  unfold ioWaits
  rw [intake_eq]
  by_cases inside : s.nfib ≤ j ∧ j < s.nfib + s.newq.length
  · have before : s.fibs j = none := formed.untaken inside.1
    rw [before]
    change (s.takenIn s.newq j).bind Fiber.ioWait = _
    cases taken : s.takenIn s.newq j with
    | none => rfl
    | some f =>
      rcases takenIn_some taken with ⟨old, _⟩ | ⟨k, g, found, _, rfl⟩
      · rw [before] at old
        cases old
      · obtain ⟨arg, number, rfl⟩ := formed.queue g (List.mem_of_getElem? found)
        rfl
  · change (s.takenIn s.newq j).bind Fiber.ioWait = _
    rw [takenIn_outside (by omega)]

theorem step_matched {c : Config σ γ} {s s' : Runtime σ γ} {a : Act} (formed : Formed c s)
    (matched : Matched s.ioWaits s.epoll) (own : OwnDescriptor c s a)
    (taken : step c s a = some s') : Matched s'.ioWaits s'.epoll := by
  by_cases other : ∀ out, a ≠ .carrier out
  · obtain ⟨_, fibs, epoll⟩ := step_other taken other
    have same : s'.ioWaits = s.ioWaits := by
      unfold ioWaits
      rw [fibs]
    rw [same, epoll]
    exact matched
  · rw [not_forall_not] at other
    obtain ⟨out, rfl⟩ := other
    cases stepped taken with
    | socket fd k peer => rcases peer with ⟨_, other, _⟩ | ⟨other, _⟩ <;> cases other
    | round taken =>
      cases taken with
      | intake =>
        rw [intake_ioWaits formed, intake_eq]
        exact matched
      | epoll => exact deliverAll_matched matched out.events
      | goOn => exact matched
      | offloadDone pc live waiting =>
        rw [ioWaits_same live rfl]
        · exact matched
        · rw [Fiber.ioWait_eq_none (by simp), Fiber.ioWait_eq_none (by simp [waiting])]
      | drain =>
        rw [wakeFibers_ioWaits]
        exact matched
      | expire pc live waiting => exact expire_matched matched live waiting
      | @switchIn i f pc live runnable =>
        obtain ⟨errno, errq, same⟩ := switchIn_frame c s i f
        rw [same, ioWaits_same live rfl]
        · exact matched
        · have asleep : f.state ≠ .waitIo := Fiber.Runnable.ne runnable nofun nofun
          rw [Fiber.ioWait_eq_none asleep, Fiber.ioWait_eq_none (by simpa using asleep)]
      | slice pc live slice =>
        exact slice_matched matched live (formed.runnable live pc) (fun fd => own _ _ fd pc live)
          slice
      | @free i f pc live done =>
        have same : (fun j => (Function.update s.fibs i none j).bind Fiber.ioWait) =
            s.ioWaits := by
          funext j
          by_cases here : j = i
          · subst here
            rw [Function.update_self, ioWaits, live]
            exact (Fiber.ioWait_eq_none (by simp [done])).symm
          · rw [Function.update_of_ne here]
            rfl
        change Matched (fun j => (Function.update s.fibs i none j).bind Fiber.ioWait) s.epoll
        rw [same]
        exact matched

/-- Each fiber in `F_WAIT_IO` has an armed registration for its descriptor that
covers its events, and an event on the descriptor makes it runnable. -/
def EachArmed (s : Runtime σ γ) : Prop :=
  ∀ i f, s.fibs i = some f → f.state = .waitIo →
    (∃ r, s.epoll f.fd = some r ∧ r.armed = true ∧ r.ptr = i ∧ r.events.covers f.asked) ∧
      ∃ f', (s.deliver f.fd).fibs i = some f' ∧ f'.state = .run

structure ReadyInv (c : Config σ γ) (s : Runtime σ γ) : Prop where
  formed : Formed c s
  matched : Matched s.ioWaits s.epoll

theorem init_readyInv (c : Config σ γ) (mem : γ) (detOn : Bool) (kinds : MutexId → MutexKind) :
    ReadyInv c (init mem detOn kinds) :=
  ⟨init_formed c mem detOn kinds, Matched.empty⟩

theorem step_readyInv {c : Config σ γ} {s s' : Runtime σ γ} {a : Act} (inv : ReadyInv c s)
    (own : OwnDescriptor c s a) (taken : step c s a = some s') : ReadyInv c s' :=
  ⟨step_formed inv.formed taken, step_matched inv.formed inv.matched own taken⟩

theorem ReadyInv.eachArmed {c : Config σ γ} {s : Runtime σ γ} (inv : ReadyInv c s) :
    s.EachArmed := by
  intro i f live waiting
  have waits : s.ioWaits i = some (f.fd, f.asked) :=
    ioWaits_eq_some.mpr ⟨f, live, waiting, rfl, rfl⟩
  obtain ⟨r, registered, armed, ptr, covers⟩ := inv.matched.armed i f.fd f.asked waits
  refine ⟨⟨r, registered, armed, ptr, covers⟩, { f with state := .run, wake := .event }, ?_, rfl⟩
  have pending : s.epoll.pending f.fd = some i :=
    Epoll.pending_eq_some.mpr ⟨r, registered, armed, ptr⟩
  unfold deliver
  rw [pending]
  dsimp only
  rw [Function.update_self, live, Option.map_some, wakeIo, if_pos waiting]

/-- A fiber that takes another waiter's descriptor leaves it without registration. -/
theorem step_not_own {c : Config σ γ} {s s' : Runtime σ γ} {a : Act} (inv : ReadyInv c s)
    (missed : ¬ OwnDescriptor c s a) (taken : step c s a = some s') : ¬ s'.EachArmed := by
  intro armed
  cases a with
  | carrier out =>
    apply missed
    intro i f fd pc live rearms j ev apart waits
    have slice := slice_of_live live pc taken
    obtain ⟨wait, waits', effect⟩ := slice_epoll (inv.formed.runnable live pc) slice
    have still : s'.ioWaits j = some (fd, ev) := by
      rw [waits', Function.update_of_ne apart]
      exact waits
    obtain ⟨g, live', waiting, rfl, _⟩ := ioWaits_eq_some.mp still
    obtain ⟨⟨r, registered, _, ptr, _⟩, _⟩ := armed j g live' waiting
    generalize s'.epoll = epoll at effect registered
    cases effect with
    | keep idle => exact idle g.fd rearms
    | arm rearms' =>
      rw [rearms'.same rearms, Function.update_self, Option.some.injEq] at registered
      subst registered
      exact apart ptr.symm
    | del rearms' =>
      rw [rearms'.same rearms, Epoll.ctlDel, Function.update_self] at registered
      cases registered
  | _ => exact missed trivial

end Runtime

open TransparentOffload.Runtime

/-- Every fiber that waits for I/O is armed in every state of a run, the top of the
carrier's loop included, exactly when no fiber registers or closes a descriptor
while another fiber waits on it. -/
theorem waiters_armed_iff_own_descriptor (c : Config σ γ) (mem : γ) (detOn : Bool)
    (kinds : MutexId → MutexKind) (acts : List Act) (s : Runtime σ γ)
    (ran : runActs c (init mem detOn kinds) acts = some s) :
    Machine.Always (step c) EachArmed (init mem detOn kinds) acts ↔
      Machine.Guarded (step c) (OwnDescriptor c) (init mem detOn kinds) acts :=
  Machine.always_iff_guarded (H := fun _ _ => True) (fun _ inv => inv.eachArmed)
    (fun _ _ _ inv _ own taken => step_readyInv inv own taken)
    (fun _ _ _ inv _ missed taken => step_not_own inv missed taken)
    (init_readyInv c mem detOn kinds) (Machine.guarded_of_mem (fun _ _ _ => trivial) _) ran

/-- Thread functions that read (argument 0) or write (argument 1) on descriptor 0. -/
def duplex : Config Nat Unit :=
  { app :=
      { entry := id
        code := fun at_ => match at_ with
          | 0 => .io (.read 1) 0 fun _ => 2
          | 1 => .io (.write [0]) 0 fun _ => 2
          | _ => .ret }
    gEnforce := false, gRealmutex := false, ssl := .absent, transform := id }

/-- A reader and a writer of one descriptor that both have to wait. -/
def bothWait : List Act :=
  .create 0 :: .create 1 :: List.replicate 16 (.carrier .quiet)

theorem bothWait_armed_iff_own : ∃ s,
    runActs duplex (init () false fun _ => .normal) bothWait = some s ∧
    (Machine.Always (step duplex) EachArmed (init () false fun _ => .normal) bothWait ↔
      Machine.Guarded (step duplex) (OwnDescriptor duplex) (init () false fun _ => .normal)
        bothWait) :=
  ⟨_, rfl, waiters_armed_iff_own_descriptor _ _ _ _ _ _ rfl⟩

/-- At the top of the loop the reader waits while the only registration of its
descriptor is the writer's. -/
theorem second_waiter_disarms_first : ∃ s f,
    runActs duplex (init () false fun _ => .normal) bothWait = some s ∧ s.pc = .intake ∧
    s.fibs 0 = some f ∧ f.state = .waitIo ∧ f.fd = 0 ∧ f.asked = .inp ∧
    s.epoll 0 = some ⟨.out, 1, true⟩ ∧ ¬ s.EachArmed := by
  refine ⟨_, _, rfl, rfl, rfl, rfl, rfl, rfl, rfl, ?_⟩
  intro armed
  obtain ⟨⟨r, registered, _, ptr, _⟩, _⟩ := armed 0 _ rfl rfl
  cases registered
  cases ptr

end TransparentOffload
