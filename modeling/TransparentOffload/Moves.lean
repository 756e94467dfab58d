import TransparentOffload.Table

set_option autoImplicit false

/- What any step can do to one fiber: each step of each party leaves a fiber as it
was, makes one of the moves below, or takes it from the queue into the table. -/
namespace TransparentOffload

variable {σ γ : Type}

/-- The fiber once `fw_fiber_switch` has brought it back and its yield has ended. -/
def Fiber.switchedIn (f : Fiber σ) : Fiber σ :=
  let f := { f with df := { f.df with active := true } }
  match f.place with
  | .cond => { f with hasDeadline := false, place := .relock f.timedOut }
  | .poll => { f with hasDeadline := false }
  | .app | .handlerLock | .io | .offload _ | .lock | .relock _ => f

namespace Runtime

theorem switchIn_fibs (c : Config σ γ) (s : Runtime σ γ) (i : Nat) (f : Fiber σ) :
    (s.switchIn c i f).fibs = Function.update s.fibs i (some f.switchedIn) := by
  unfold switchIn Fiber.switchedIn
  dsimp only
  cases f.place <;> rfl

@[simp] theorem switchIn_pc (c : Config σ γ) (s : Runtime σ γ) (i : Nat) (f : Fiber σ) :
    (s.switchIn c i f).pc = .slice i := by
  unfold switchIn
  dsimp only
  cases f.place <;> rfl

/-- A pass over the reported events touches registrations and fibers alone. -/
theorem deliverAll_frame (s : Runtime σ γ) (fds : List Fd) :
    ∃ epoll fibs, fds.foldl deliver s = { s with epoll := epoll, fibs := fibs } := by
  induction fds generalizing s with
  | nil => exact ⟨s.epoll, s.fibs, rfl⟩
  | cons fd rest ih =>
    obtain ⟨epoll, fibs, same⟩ := ih (s.deliver fd)
    refine ⟨epoll, fibs, ?_⟩
    rw [List.foldl_cons, same]
    unfold deliver
    split <;> rfl

/-- Switching a fiber in touches the detector's pages and the thread-local state. -/
theorem switchIn_frame (c : Config σ γ) (s : Runtime σ γ) (i : Nat) (f : Fiber σ) :
    ∃ errno errq, s.switchIn c i f =
      { s with
        det := s.det.detReprotect, pc := .slice i, errno := errno, errq := errq
        fibs := Function.update s.fibs i (some f.switchedIn) } := by
  unfold switchIn Fiber.switchedIn
  dsimp only
  cases f.place
  case app | cond => exact ⟨s.errno, s.errq, rfl⟩
  all_goals exact ⟨_, _, rfl⟩

/-- Delivering one event only ever disarms a registration. -/
theorem deliver_pending {s : Runtime σ γ} {fd fd' : Fd} {i : Nat}
    (reported : (s.deliver fd).epoll.pending fd' = some i) : s.epoll.pending fd' = some i := by
  unfold deliver at reported
  split at reported
  · exact reported
  · obtain ⟨r, registered, armed, ptr⟩ := Epoll.pending_eq_some.mp reported
    dsimp only [Epoll.disarm] at registered
    by_cases same : fd' = fd
    · subst same
      rw [Function.update_self] at registered
      obtain ⟨r₀, _, rfl⟩ := Option.map_eq_some_iff.mp registered
      cases armed
    · rw [Function.update_of_ne same] at registered
      exact Epoll.pending_eq_some.mpr ⟨r, registered, armed, ptr⟩

theorem deliver_fiber {s : Runtime σ γ} {fd : Fd} {i : Nat} {f' : Fiber σ}
    (live : (s.deliver fd).fibs i = some f') :
    ∃ f, s.fibs i = some f ∧ (f' = f ∨ (f.state = .waitIo ∧
      f' = { f with state := .run, wake := .event } ∧ s.epoll.pending fd = some i)) := by
  unfold deliver at live
  split at live
  · exact ⟨f', live, Or.inl rfl⟩
  · rename_i j reported
    dsimp only at live
    by_cases here : i = j
    · subst here
      rw [Function.update_self] at live
      obtain ⟨f, was, rfl⟩ := Option.map_eq_some_iff.mp live
      unfold wakeIo
      split
      · rename_i waiting
        exact ⟨f, was, Or.inr ⟨waiting, rfl, reported⟩⟩
      · exact ⟨f, was, Or.inl rfl⟩
    · rw [Function.update_of_ne here] at live
      exact ⟨f', live, Or.inl rfl⟩

/-- A fiber that an epoll pass changes had its event reported by an armed
registration that carries its pointer. -/
theorem deliverAll_fiber {s : Runtime σ γ} {fds : List Fd} {i : Nat} {f' : Fiber σ}
    (live : (fds.foldl deliver s).fibs i = some f') :
    ∃ f, s.fibs i = some f ∧ (f' = f ∨ (f.state = .waitIo ∧
      f' = { f with state := .run, wake := .event } ∧
      ∃ fd ∈ fds, s.epoll.pending fd = some i)) := by
  induction fds generalizing s with
  | nil => exact ⟨f', live, Or.inl rfl⟩
  | cons fd rest ih =>
    obtain ⟨g, live', moved⟩ := ih live
    obtain ⟨f, was, woken⟩ := deliver_fiber live'
    refine ⟨f, was, ?_⟩
    rcases woken with rfl | ⟨waiting, rfl, reported⟩
    · rcases moved with same | ⟨waiting, same, fd', member, reported⟩
      · exact Or.inl same
      · exact Or.inr ⟨waiting, same, fd', List.mem_cons_of_mem fd member,
          deliver_pending reported⟩
    · rcases moved with same | ⟨again, _⟩
      · exact Or.inr ⟨waiting, same, fd, List.mem_cons_self, reported⟩
      · cases again

/-- A fiber that `wake_fibers(c)` changes waited on `c`. -/
theorem wakeFibers_fiber {s : Runtime σ γ} {c : Option CondId} {i : Nat} {f' : Fiber σ}
    (live : (s.wakeFibers c).fibs i = some f') :
    ∃ f, s.fibs i = some f ∧ (f' = f ∨ (f.state = .waitCond ∧ f.waitcond = c ∧
      f' = { f with state := .run, waitcond := none, wake := .cond })) := by
  change (if i < s.nfib then (s.fibs i).map (wakeOne c) else s.fibs i) = some f' at live
  split at live
  · obtain ⟨f, was, rfl⟩ := Option.map_eq_some_iff.mp live
    unfold wakeOne
    split
    · rename_i waiting
      exact ⟨f, was, Or.inr ⟨waiting.1, waiting.2, rfl⟩⟩
    · exact ⟨f, was, Or.inl rfl⟩
  · exact ⟨f', live, Or.inl rfl⟩

end Runtime

/-- What a slice leaves of the fiber it runs. -/
inductive SliceMove (c : Config σ γ) (f : Fiber σ) (out : Out) : Fiber σ → Prop
  | back (ctx : σ) (got : Nat) : SliceMove c f out { f with ctx := ctx, place := .app, got := got }
  | io {op : IoOp} {fd : Fd} {k : IoRet → σ} (code : c.app.code f.ctx = .io op fd k)
      (got : Nat) (e : Errno) (q : ErrQueue) : SliceMove c f out (Fiber.tlsSave c.ssl
        { f with
          got := got, fd := fd, state := .waitIo, hasDeadline := false, place := .io
          asked := op.event, due := none, waits := f.waits + 1, wake := .none } e q)
  | poll {fd : Fd} {events : Nat} {timeout : Int} {k : Int → Nat → σ}
      (code : c.app.code f.ctx = .poll fd events timeout k) (forever : timeout < 0)
      (e : Errno) (q : ErrQueue) : SliceMove c f out (Fiber.tlsSave c.ssl
        { f with
          fd := fd, state := .waitIo, hasDeadline := false, place := .poll
          asked := Runtime.pollEvents events, due := none
          waits := f.waits + 1, wake := .none } e q)
  | pollTimed {fd : Fd} {events : Nat} {timeout : Int} {k : Int → Nat → σ}
      (code : c.app.code f.ctx = .poll fd events timeout k) (timed : ¬ timeout < 0)
      (e : Errno) (q : ErrQueue) : SliceMove c f out (Fiber.tlsSave c.ssl
        { f with
          fd := fd, state := .waitIo, timedOut := false
          deadline := out.real.afterMs timeout, hasDeadline := true, place := .poll
          asked := Runtime.pollEvents events, due := some (out.real.afterMs timeout)
          waits := f.waits + 1, wake := .none } e q)
  | offload {buf : Bytes} {k : Bytes → σ} (code : c.app.code f.ctx = .accelEncrypt buf k)
      (id : Nat) (df : DetFib) (e : Errno) (q : ErrQueue) : SliceMove c f out
        { Fiber.tlsSave c.ssl
          { f with
            offId := id, state := .waitOff, place := .offload id
            waits := f.waits + 1, wake := .none } e q with df := df }
  | run {place : Place} (parked : place = .handlerLock ∨ place = .lock ∨
      ∃ expired, f.place = .relock expired ∧ place = .relock expired)
      (e : Errno) (q : ErrQueue) :
      SliceMove c f out (Fiber.tlsSave c.ssl { f with state := .run, place := place } e q)
  | cond {cv : CondId} {m : MutexId} {call : CondCall} {k : Nat → σ}
      (code : c.app.code f.ctx = .condWait cv m call k) : SliceMove c f out
        { f with
          waitcond := some cv, waitmutex := some m, timedOut := false
          deadline := (Runtime.condDeadline call out).getD f.deadline
          hasDeadline := (Runtime.condDeadline call out).isSome
          state := .waitCond, place := .cond, due := Runtime.condDeadline call out
          waits := f.waits + 1, wake := .none }
  | done (code : c.app.code f.ctx = .ret) : SliceMove c f out { f with state := .done }

/-- The other entries of the table after a slice of fiber `f` in slot `i`. -/
def Woken (c : Config σ γ) (s : Runtime σ γ) (f : Fiber σ) (fibs : Nat → Option (Fiber σ)) :
    Prop :=
  fibs = s.fibs ∨ ∃ cv k,
    (c.app.code f.ctx = .condSignal cv k ∨ c.app.code f.ctx = .condBroadcast cv k) ∧
      fibs = (s.wakeFibers (some cv)).fibs

/-- A slice moves its own fiber and of the others can only wake condition waiters;
the fiber stays switched in exactly while its calls come back. -/
theorem slice_fibs {c : Config σ γ} {s s' : Runtime σ γ} {i : Nat} {f : Fiber σ} {out : Out}
    (taken : Runtime.Slice c s i f out s') :
    ∃ f' fibs, SliceMove c f out f' ∧ Woken c s f fibs ∧
      s'.fibs = Function.update fibs i (some f') ∧
      (s'.pc = .back i ∨ s'.pc = s.pc ∧ ∃ ctx got,
        f' = { f with ctx := ctx, place := .app, got := got }) := by
  cases taken with
  | plain | pollPass | pollRet | offloadRet | lockTaken | lockFailed | errQueue | close =>
    exact ⟨_, s.fibs, .back _ f.got, Or.inl rfl, rfl, Or.inr ⟨rfl, _, _, rfl⟩⟩
  | ioReturn => exact ⟨_, s.fibs, .back _ _, Or.inl rfl, rfl, Or.inr ⟨rfl, _, _, rfl⟩⟩
  | lockBusy =>
    exact ⟨_, s.fibs, .run (Or.inl rfl) s.errno s.errq, Or.inl rfl, rfl, Or.inl rfl⟩
  | ioPark place code => exact ⟨_, s.fibs, .io code _ _ _, Or.inl rfl, rfl, Or.inl rfl⟩
  | pollPark place code =>
    unfold Runtime.yieldIoTo
    split
    · rename_i forever
      exact ⟨_, s.fibs, .poll code forever _ s.errq, Or.inl rfl, rfl, Or.inl rfl⟩
    · rename_i timed
      exact ⟨_, s.fibs, .pollTimed code timed _ s.errq, Or.inl rfl, rfl, Or.inl rfl⟩
  | offload place code =>
    exact ⟨_, s.fibs, .offload code s.accel.subHead _ s.errno s.errq, Or.inl rfl, rfl,
      Or.inl rfl⟩
  | lockWait _ _ parked =>
    refine ⟨_, s.fibs, .run ?_ s.errno s.errq, Or.inl rfl, rfl, Or.inl rfl⟩
    rcases parked with ⟨_, lock⟩ | ⟨same, lock | ⟨expired, relock⟩⟩
    · exact Or.inr (Or.inl lock)
    · exact Or.inr (Or.inl lock)
    · exact Or.inr (Or.inr ⟨expired, same.trans relock, relock⟩)
  | @unlock m k =>
    refine ⟨_, s.fibs, .back (k ((s.mutexes m).unlock .carrier).2) f.got, Or.inl rfl, ?_, ?_⟩
    · unfold Runtime.mutexUnlock Runtime.releaseMutex
      dsimp only
      split <;> rfl
    · refine Or.inr ⟨?_, _, _, rfl⟩
      unfold Runtime.mutexUnlock Runtime.releaseMutex
      dsimp only
      split <;> rfl
  | @condWait cv m call k place code =>
    refine ⟨_, s.fibs, .cond code, Or.inl rfl, ?_, Or.inl rfl⟩
    unfold Runtime.fiberCondWait Runtime.releaseMutex
    dsimp only
    split <;> rfl
  | @condWake cv ctx place code =>
    exact ⟨_, _, .back ctx f.got, Or.inr ⟨cv, ctx, code, rfl⟩, rfl, Or.inr ⟨rfl, _, _, rfl⟩⟩
  | exit place code => exact ⟨_, s.fibs, .done code, Or.inl rfl, rfl, Or.inl rfl⟩

/-- Who woke the waiters of `cv`: the drain that reads `cv` from the ring, if only as what
an older lap has left in a slot whose store is late, or the fiber that is switched in. -/
inductive CondWaker (c : Config σ γ) (s : Runtime σ γ) (cv : CondId) : Prop
  | ring (pc : s.pc = .drain) (more : s.pend.tail < s.pend.head)
      (read : s.pend.front pendN = some cv)
  | fiber {j : Nat} {g : Fiber σ} {k : σ} (pc : s.pc = .slice j) (live : s.fibs j = some g)
      (code : c.app.code g.ctx = .condSignal cv k ∨ c.app.code g.ctx = .condBroadcast cv k)

/-- What a step makes of the fiber `f` of slot `i`. -/
inductive FiberMove (c : Config σ γ) (s : Runtime σ γ) (i : Nat) (f : Fiber σ) :
    Act → Fiber σ → Prop
  | keep {a : Act} : FiberMove c s i f a f
  | event {out : Out} {fd : Fd} (pc : s.pc = .epoll) (waiting : f.state = .waitIo)
      (reported : fd ∈ out.events) (pending : s.epoll.pending fd = some i) :
      FiberMove c s i f (.carrier out) { f with state := .run, wake := .event }
  | offloaded {out : Out} (pc : s.pc = .offloads i) (waiting : f.state = .waitOff)
      (done : out.done = true) :
      FiberMove c s i f (.carrier out) { f with state := .run, wake := .offload }
  | woken {out : Out} {cv : Option CondId} (waiting : f.state = .waitCond)
      (on : f.waitcond = cv) (waker : ∀ cv', cv = some cv' → CondWaker c s cv') :
      FiberMove c s i f (.carrier out) { f with state := .run, waitcond := none, wake := .cond }
  | expired {out : Out} {now : Option Timespec} (pc : s.pc = .deadlines i now)
      (waiting : f.state = .waitCond ∨ f.state = .waitIo) (timed : f.hasDeadline = true)
      (past : f.deadline.reached (now.getD out.real) = true) :
      FiberMove c s i f (.carrier out)
        { f with timedOut := true, state := .run, waitcond := none, wake := .deadline }
  | switchIn {out : Out} (pc : s.pc = .run i) (runnable : f.state = .new ∨ f.state = .run) :
      FiberMove c s i f (.carrier out) f.switchedIn
  | slice {out : Out} {f' : Fiber σ} (pc : s.pc = .slice i) (moved : SliceMove c f out f') :
      FiberMove c s i f (.carrier out) f'

theorem update_fiber {fibs : Nat → Option (Fiber σ)} {i j : Nat} {g f' : Fiber σ}
    (live : Function.update fibs i (some g) j = some f') :
    (j = i ∧ f' = g) ∨ (j ≠ i ∧ fibs j = some f') := by
  by_cases here : j = i
  · subst here
    rw [Function.update_self, Option.some.injEq] at live
    exact Or.inl ⟨rfl, live.symm⟩
  · rw [Function.update_of_ne here] at live
    exact Or.inr ⟨here, live⟩

/-- A fiber that is in the table after a step of the carrier was there before and
moved, or has just been taken in. -/
theorem round_fiber {c : Config σ γ} {s s' : Runtime σ γ} {out : Out} {i : Nat}
    {f' : Fiber σ} (taken : Runtime.Round c s out s') (live : s'.fibs i = some f') :
    (∃ f, s.fibs i = some f ∧ FiberMove c s i f (.carrier out) f') ∨
      ∃ g ∈ s.newq, f' = { g with slot := i } ∧ s.nfib ≤ i ∧ i < s'.nfib ∧ s.pc = .intake := by
  cases taken with
  | intake pc =>
    rw [Runtime.intake_eq] at live
    rcases Runtime.takenIn_some live with ⟨old, _⟩ | ⟨k, g, found, rfl, rfl⟩
    · exact Or.inl ⟨f', old, .keep⟩
    · have inside := (List.getElem?_eq_some_iff.mp found).1
      refine Or.inr ⟨g, List.mem_of_getElem? found, rfl, Nat.le_add_right _ _, ?_, pc⟩
      rw [Runtime.intake_eq]
      change s.nfib + k < s.nfib + s.newq.length
      omega
  | epoll pc =>
    left
    obtain ⟨f, was, rfl | ⟨waiting, rfl, fd, member, pending⟩⟩ :=
      Runtime.deliverAll_fiber live
    · exact ⟨_, was, .keep⟩
    · exact ⟨f, was, .event pc waiting member pending⟩
  | goOn => exact Or.inl ⟨f', live, .keep⟩
  | @offloadDone j g pc there waiting done =>
    left
    rcases update_fiber live with ⟨rfl, rfl⟩ | ⟨_, old⟩
    · exact ⟨g, there, .offloaded pc waiting done⟩
    · exact ⟨f', old, .keep⟩
  | drain pc more =>
    left
    obtain ⟨f, was, rfl | ⟨waiting, on, rfl⟩⟩ := Runtime.wakeFibers_fiber live
    · exact ⟨_, was, .keep⟩
    · exact ⟨f, was, .woken waiting on fun cv' read => .ring pc more read⟩
  | @expire j g now pc there waiting timed past =>
    left
    rcases update_fiber live with ⟨rfl, rfl⟩ | ⟨_, old⟩
    · exact ⟨g, there, .expired pc waiting timed past⟩
    · exact ⟨f', old, .keep⟩
  | @switchIn j g pc there runnable =>
    left
    rw [Runtime.switchIn_fibs] at live
    rcases update_fiber live with ⟨rfl, rfl⟩ | ⟨_, old⟩
    · exact ⟨g, there, .switchIn pc runnable⟩
    · exact ⟨f', old, .keep⟩
  | @slice j g _ pc there taken =>
    left
    obtain ⟨g', fibs, moved, woken, same, _⟩ := slice_fibs taken
    rw [same] at live
    rcases update_fiber live with ⟨rfl, rfl⟩ | ⟨_, other⟩
    · exact ⟨g, there, .slice pc moved⟩
    · rcases woken with rfl | ⟨cv, k, code, rfl⟩
      · exact ⟨f', other, .keep⟩
      · obtain ⟨f, was, rfl | ⟨waiting, on, rfl⟩⟩ := Runtime.wakeFibers_fiber other
        · exact ⟨_, was, .keep⟩
        · refine ⟨f, was, .woken waiting on ?_⟩
          intro cv' same
          rw [Option.some.injEq] at same
          exact .fiber pc there (same ▸ code)
  | @free j g pc there done =>
    left
    change Function.update s.fibs j none i = some f' at live
    by_cases here : i = j
    · subst here
      simp at live
    · rw [Function.update_of_ne here] at live
      exact ⟨f', live, .keep⟩

/-- The same for a step of any party. -/
theorem step_fiber {c : Config σ γ} {s s' : Runtime σ γ} {a : Act} {i : Nat}
    {f' : Fiber σ} (taken : step c s a = some s') (live : s'.fibs i = some f') :
    (∃ f, s.fibs i = some f ∧ FiberMove c s i f a f') ∨
      ∃ g ∈ s.newq, f' = { g with slot := i } ∧ s.nfib ≤ i ∧ i < s'.nfib ∧ s.pc = .intake := by
  cases stepped taken with
  | create arg => exact Or.inl ⟨f', by simpa using live, .keep⟩
  | reserveNone | reserve | publish | threadLock | threadUnlock | socket | device =>
    exact Or.inl ⟨f', live, .keep⟩
  | round taken => exact round_fiber taken live

/-- The other parties touch neither the fibers nor the registrations. -/
theorem step_other {c : Config σ γ} {s s' : Runtime σ γ} {a : Act}
    (taken : step c s a = some s') (other : ∀ out, a ≠ .carrier out) :
    s'.pc = s.pc ∧ s'.fibs = s.fibs ∧ s'.epoll = s.epoll := by
  cases stepped taken with
  | create arg =>
    unfold Runtime.pthreadCreate
    dsimp only
    split <;> exact ⟨rfl, rfl, rfl⟩
  | reserveNone | reserve | publish | threadLock | threadUnlock | socket | device =>
    exact ⟨rfl, rfl, rfl⟩
  | @round out => exact absurd rfl (other out)

/-- Who is switched in after a step: the fiber just found runnable, or the one
that was switched in before and whose call came back. -/
theorem step_switched {c : Config σ γ} {s s' : Runtime σ γ} {a : Act} {i : Nat}
    (taken : step c s a = some s') (pc : s'.pc = .slice i) :
    (s.pc = .slice i ∧ s'.fibs = s.fibs) ∨
    (s.pc = .slice i ∧ ∃ f ctx got, s.fibs i = some f ∧
      s'.fibs i = some { f with ctx := ctx, place := .app, got := got }) ∨
    (s.pc = .run i ∧ ∃ f, s.fibs i = some f ∧ (f.state = .new ∨ f.state = .run) ∧
      s'.fibs i = some f.switchedIn) := by
  by_cases other : ∀ out, a ≠ .carrier out
  · obtain ⟨same, fibs, _⟩ := step_other taken other
    exact Or.inl ⟨same ▸ pc, fibs⟩
  rw [not_forall_not] at other
  obtain ⟨out, rfl⟩ := other
  cases stepped taken with
  | socket fd k peer => rcases peer with ⟨_, other, _⟩ | ⟨other, _⟩ <;> cases other
  | round taken =>
    cases taken with
    | intake =>
      rw [Runtime.intake_eq] at pc
      cases pc
    | epoll => cases pc
    | goOn looping next =>
      change _ = Pc.slice i at pc
      subst pc
      cases next
    | offloadDone => cases pc
    | drain pcDrain =>
      change s.pc = .slice i at pc
      rw [pcDrain] at pc
      cases pc
    | expire => cases pc
    | @switchIn j f pcRun live runnable =>
      rw [Runtime.switchIn_pc] at pc
      cases pc
      refine Or.inr (Or.inr ⟨pcRun, f, live, runnable, ?_⟩)
      rw [Runtime.switchIn_fibs, Function.update_self]
    | @slice j f _ pcSlice live taken =>
      obtain ⟨f', fibs, _, _, same, back | ⟨stay, ctx, got, rfl⟩⟩ := slice_fibs taken
      · rw [back] at pc
        cases pc
      · rw [stay, pcSlice] at pc
        cases pc
        refine Or.inr (Or.inl ⟨pcSlice, f, ctx, got, live, ?_⟩)
        rw [same, Function.update_self]
    | free => cases pc

end TransparentOffload
