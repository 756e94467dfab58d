import TransparentOffload.Formed

set_option autoImplicit false

/- The runtime without its detector. While no conflict is counted, nothing the
runtime does depends on the detector's state, so erasing it commutes with every step. -/
namespace TransparentOffload

variable {σ γ : Type}

/-- The fiber without its snapshot of the clock. -/
def Fiber.undetected (f : Fiber σ) : Fiber σ := { f with df := { f.df with parkClk := 0 } }

namespace Runtime

/-- The runtime as it would be with `RT_DETECT` unset. -/
def undetected (s : Runtime σ γ) : Runtime σ γ :=
  { s with
    newq := s.newq.map Fiber.undetected
    fibs := fun i => (s.fibs i).map Fiber.undetected
    det := .off }

/-- Without a conflict the enforcement is the one that was configured. -/
theorem enforcing_undetected {s : Runtime σ γ} (quiet : s.det.detConflicts = 0) (gEnforce : Bool) :
    s.undetected.enforcing gEnforce = s.enforcing gEnforce := by
  unfold enforcing
  rw [quiet]
  rfl

theorem setFiber_undetected (s : Runtime σ γ) (i : Nat) (f : Fiber σ) :
    s.undetected.setFiber i f.undetected = (s.setFiber i f).undetected := by
  have fibs : Function.update (fun j => (s.fibs j).map Fiber.undetected) i (some f.undetected) =
      fun j => (Function.update s.fibs i (some f) j).map Fiber.undetected := by
    funext j
    by_cases here : j = i
    · subst here
      simp
    · simp [Function.update_of_ne here]
  unfold setFiber undetected
  dsimp only
  rw [fibs]

theorem resumeApp_undetected (s : Runtime σ γ) (i : Nat) (f : Fiber σ) (ctx : σ) :
    s.undetected.resumeApp i f.undetected ctx = (s.resumeApp i f ctx).undetected :=
  setFiber_undetected s i { f with ctx := ctx, place := .app }

theorem switchOut_undetected (s : Runtime σ γ) (i : Nat) (f : Fiber σ) :
    s.undetected.switchOut i f.undetected = (s.switchOut i f).undetected := by
  unfold switchOut
  rw [setFiber_undetected]
  rfl

theorem yieldSaved_undetected (ssl : SslSyms) (s : Runtime σ γ) (i : Nat) (f : Fiber σ) :
    s.undetected.yieldSaved ssl i f.undetected = (s.yieldSaved ssl i f).undetected :=
  switchOut_undetected (s.tlsSave ssl) i (f.tlsSave ssl s.errno s.errq)

theorem yieldRun_undetected (ssl : SslSyms) (s : Runtime σ γ) (i : Nat) (f : Fiber σ)
    (place : Place) : s.undetected.yieldRun ssl i f.undetected place =
      (s.yieldRun ssl i f place).undetected :=
  yieldSaved_undetected ssl s i { f with state := .run, place := place }

theorem yieldIo_undetected (ssl : SslSyms) (s : Runtime σ γ) (i : Nat) (f : Fiber σ)
    (place : Place) (fd : Fd) (ev : Events) : s.undetected.yieldIo ssl i f.undetected place fd ev =
      (s.yieldIo ssl i f place fd ev).undetected := by
  unfold yieldIo
  rw [← yieldSaved_undetected]
  rfl

theorem yieldIoTo_undetected (ssl : SslSyms) (s : Runtime σ γ) (i : Nat) (f : Fiber σ)
    (fd : Fd) (ev : Events) (timeoutMs : Int) (now : Timespec) :
    s.undetected.yieldIoTo ssl i f.undetected fd ev timeoutMs now =
      (s.yieldIoTo ssl i f fd ev timeoutMs now).undetected := by
  unfold yieldIoTo
  split
  · exact yieldIo_undetected ssl s i f .poll fd ev
  · rw [← yieldSaved_undetected]
    rfl

/-- `det_park` leaves the fiber with another clock, which is erased with it. -/
theorem yieldOff_undetected (ssl : SslSyms) (s : Runtime σ γ) (i : Nat) (f : Fiber σ)
    (id : Nat) : s.undetected.yieldOff ssl i f.undetected id =
      (s.yieldOff ssl i f id).undetected := by
  have parked : (s.det.detPark f.df).2.active = f.df.active := by
    unfold Detector.detPark
    split <;> rfl
  unfold yieldOff
  dsimp only
  rw [← switchOut_undetected]
  apply congrArg₂ (fun t g => switchOut t i g)
  · rfl
  · unfold Fiber.undetected
    dsimp only
    rw [parked]
    rfl

theorem ioLoop_undetected (ssl : SslSyms) (s : Runtime σ γ) (i : Nat) (f : Fiber σ) (op : IoOp)
    (fd : Fd) (k : IoRet → σ) (out : IoOut) : s.undetected.ioLoop ssl i f.undetected op fd k out =
      (s.ioLoop ssl i f op fd k out).map undetected := by
  have socks : s.undetected.socks = s.socks := rfl
  unfold ioLoop
  rw [socks]
  cases op.real (s.socks fd) out with
  | none => rfl
  | some answer =>
    obtain ⟨sock, r⟩ := answer
    cases r with
    | data bs => exact congrArg some (resumeApp_undetected (s.setSock fd sock) i
      { f with got := f.got + bs.length } (k (.data bs)))
    | count n => exact congrArg some (resumeApp_undetected (s.setSock fd sock) i f (k (.count n)))
    | err e =>
      dsimp only
      split
      · exact congrArg some
          (yieldIo_undetected ssl { s.setSock fd sock with errno := e } i f .io fd op.event)
      · exact congrArg some
          (resumeApp_undetected { s.setSock fd sock with errno := e } i f (k (.err e)))

theorem hlAcquire_undetected (ssl : SslSyms) (s : Runtime σ γ) (i : Nat) (f : Fiber σ) (n : Nat)
    (fd : Fd) (k : IoRet → σ) (out : IoOut) :
    s.undetected.hlAcquire ssl i f.undetected n fd k out =
      (s.hlAcquire ssl i f n fd k out).map undetected := by
  have busy : s.undetected.handlerBusy f.undetected.slot = s.handlerBusy f.slot := rfl
  unfold hlAcquire
  rw [busy]
  split
  · exact congrArg some (yieldRun_undetected ssl s i f .handlerLock)
  · exact ioLoop_undetected ssl ((s.hlTake f.slot).setnb fd) i f (.read n) fd k out

theorem io_undetected {c : Config σ γ} {s : Runtime σ γ} (quiet : s.det.detConflicts = 0) (i : Nat)
    (f : Fiber σ) (op : IoOp) (fd : Fd) (k : IoRet → σ) (out : IoOut) :
    s.undetected.io c i f.undetected op fd k out = (s.io c i f op fd k out).map undetected := by
  cases op with
  | read n =>
    change s.undetected.read c i f.undetected n fd k out = (s.read c i f n fd k out).map undetected
    have owner : s.undetected.hlockOwner = s.hlockOwner := rfl
    have slot : f.undetected.slot = f.slot := rfl
    unfold read
    rw [enforcing_undetected quiet, owner, slot]
    split
    · exact hlAcquire_undetected c.ssl s i f n fd k out
    · exact ioLoop_undetected c.ssl (s.setnb fd) i f (.read n) fd k out
  | write bs =>
    change s.undetected.write c i f.undetected bs fd k out =
      (s.write c i f bs fd k out).map undetected
    have released : s.undetected.hlRelease f.undetected.slot = (s.hlRelease f.slot).undetected := by
      have owner : s.undetected.hlockOwner = s.hlockOwner := rfl
      have slot : f.undetected.slot = f.slot := rfl
      unfold hlRelease
      rw [owner, slot]
      split <;> rfl
    unfold write
    rw [enforcing_undetected quiet, released]
    split
    · exact ioLoop_undetected c.ssl ((s.hlRelease f.slot).setnb fd) i { f with got := 0 }
        (.write bs) fd k out
    · exact ioLoop_undetected c.ssl (s.setnb fd) i { f with got := 0 } (.write bs) fd k out
  | recv n dontwait | recvfrom n dontwait | send bs dontwait | sendto bs dontwait =>
    exact ioLoop_undetected c.ssl (s.setnb fd) i f _ fd k out

theorem poll_undetected (c : Config σ γ) (s : Runtime σ γ) (i : Nat) (f : Fiber σ) (fd : Fd)
    (events : Nat) (timeout : Int) (k : Int → Nat → σ) (out : Out) :
    s.undetected.poll c i f.undetected fd events timeout k out =
      (s.poll c i f fd events timeout k out).undetected := by
  unfold poll
  split
  · exact resumeApp_undetected s i f _
  · exact yieldIoTo_undetected c.ssl s i f fd (pollEvents events) timeout out.real

theorem mutexLockLoop_undetected (ssl : SslSyms) (s : Runtime σ γ) (i : Nat) (f : Fiber σ)
    (m : MutexId) (place : Place) (ctx : σ) :
    s.undetected.mutexLockLoop ssl i f.undetected m place ctx =
      (s.mutexLockLoop ssl i f m place ctx).undetected := by
  have mutexes : s.undetected.mutexes = s.mutexes := rfl
  unfold mutexLockLoop
  rw [mutexes]
  dsimp only
  split
  · rw [← resumeApp_undetected]
    rfl
  · exact yieldRun_undetected ssl s i f place

theorem mutexLock_undetected (c : Config σ γ) (s : Runtime σ γ) (i : Nat) (f : Fiber σ)
    (m : MutexId) (place : Place) (k : Nat → σ) :
    s.undetected.mutexLock c i f.undetected m place k =
      (s.mutexLock c i f m place k).map undetected := by
  have mutexes : s.undetected.mutexes = s.mutexes := rfl
  unfold mutexLock
  rw [mutexes]
  split
  · cases (s.mutexes m).lock .carrier with
    | none => rfl
    | some result =>
      obtain ⟨x, locked⟩ := result
      cases locked
      · exact congrArg some (resumeApp_undetected s i f (k 35))
      · exact congrArg some
          (resumeApp_undetected ((s.setMutex m x).setHeld m i (s.held m i + 1)) i f (k 0))
  · exact congrArg some (mutexLockLoop_undetected c.ssl s i f m place (k 0))

theorem mutexTrylock_undetected (s : Runtime σ γ) (i : Nat) (f : Fiber σ) (m : MutexId)
    (k : Bool → σ) : s.undetected.mutexTrylock i f.undetected m k =
      (s.mutexTrylock i f m k).undetected := by
  have mutexes : s.undetected.mutexes = s.mutexes := rfl
  unfold mutexTrylock
  rw [mutexes]
  dsimp only
  split
  · rw [← resumeApp_undetected]
    rfl
  · exact resumeApp_undetected s i f (k false)

theorem releaseMutex_undetected (s : Runtime σ γ) (i : Nat) (m : MutexId) :
    s.undetected.releaseMutex i m = (s.releaseMutex i m).undetected := by
  have mutexes : s.undetected.mutexes = s.mutexes := rfl
  unfold releaseMutex
  rw [mutexes]
  dsimp only
  split <;> rfl

theorem wakeOne_undetected (c : Option CondId) (f : Fiber σ) :
    wakeOne c f.undetected = (wakeOne c f).undetected := by
  have state : f.undetected.state = f.state := rfl
  have on : f.undetected.waitcond = f.waitcond := rfl
  unfold wakeOne
  rw [state, on]
  split <;> rfl

theorem wakeFibers_undetected (s : Runtime σ γ) (c : Option CondId) :
    s.undetected.wakeFibers c = (s.wakeFibers c).undetected := by
  have fibs : (fun j => if j < s.nfib then ((s.fibs j).map Fiber.undetected).map (wakeOne c)
      else (s.fibs j).map Fiber.undetected) =
      fun j => (if j < s.nfib then (s.fibs j).map (wakeOne c) else s.fibs j).map
        Fiber.undetected := by
    funext j
    split
    · cases s.fibs j with
      | none => rfl
      | some f => exact congrArg some (wakeOne_undetected c f)
    · rfl
  unfold wakeFibers undetected
  dsimp only
  rw [fibs]

theorem plain_undetected (s : Runtime σ γ) (i : Nat) (f : Fiber σ) (writes : List Nat)
    (next : γ → γ × σ) : s.undetected.plain i f.undetected writes next =
      (s.plain i f writes next).undetected := by
  have open_ : Detector.stores .off f.undetected.df writes = .off := by
    induction writes with
    | nil => rfl
    | cons p rest ih => exact ih
  unfold plain
  rw [← resumeApp_undetected]
  change resumeApp { s.undetected with
    det := Detector.stores .off f.undetected.df writes, mem := (next s.mem).1 } i f.undetected _ = _
  rw [open_]
  rfl

/-- Erasing the detector commutes with the step of the fiber that is switched in. -/
theorem exec_undetected {c : Config σ γ} {s : Runtime σ γ} (quiet : s.det.detConflicts = 0)
    (i : Nat) (f : Fiber σ) (out : Out) :
    s.undetected.exec c i f.undetected out = (s.exec c i f out).map undetected := by
  have place : f.undetected.place = f.place := rfl
  have ctx : f.undetected.ctx = f.ctx := rfl
  unfold exec
  rw [place, ctx]
  cases at_ : f.place with
  | app =>
    cases code : c.app.code f.ctx with
    | code writes next => exact congrArg some (plain_undetected s i f writes next)
    | io op fd k => exact io_undetected quiet i f op fd k out.io
    | poll fd events timeout k =>
      exact congrArg some (poll_undetected c s i f fd events timeout k out)
    | accelEncrypt buf k =>
      exact congrArg some (yieldOff_undetected c.ssl (s.accelSubmit buf) i f s.accel.subHead)
    | mutexLock m k => exact mutexLock_undetected c s i f m .lock k
    | mutexTrylock m k => exact congrArg some (mutexTrylock_undetected s i f m k)
    | mutexUnlock m k =>
      dsimp only [Option.map_some]
      unfold mutexUnlock
      rw [releaseMutex_undetected, resumeApp_undetected]
      rfl
    | condWait cv m call k =>
      dsimp only [Option.map_some]
      unfold fiberCondWait
      rw [releaseMutex_undetected, ← switchOut_undetected]
      rfl
    | condSignal cv ctx | condBroadcast cv ctx =>
      dsimp only [Option.map_some]
      unfold condWake
      rw [wakeFibers_undetected, resumeApp_undetected]
    | errPut e ctx | errClear ctx | close fd ctx =>
      dsimp only [Option.map_some]
      rw [← resumeApp_undetected]
      rfl
    | errGet k =>
      dsimp only [Option.map_some]
      rw [← resumeApp_undetected]
      rfl
    | ret => exact congrArg some (switchOut_undetected s i { f with state := .done })
  | handlerLock =>
    cases code : c.app.code f.ctx with
    | io op fd k =>
      cases op with
      | read n => exact hlAcquire_undetected c.ssl s i f n fd k out.io
      | _ => rfl
    | _ => rfl
  | io =>
    cases code : c.app.code f.ctx with
    | io op fd k => exact ioLoop_undetected c.ssl s i f op fd k out.io
    | _ => rfl
  | poll =>
    cases code : c.app.code f.ctx with
    | poll fd events timeout k =>
      exact congrArg some (resumeApp_undetected s i f
        (if decide (timeout < 0) || !f.timedOut then k 1 events else k 0 0))
    | _ => rfl
  | offload id =>
    cases code : c.app.code f.ctx with
    | accelEncrypt buf k =>
      exact congrArg some (resumeApp_undetected s i f (k (s.accel.requests id).buf))
    | _ => rfl
  | lock =>
    cases code : c.app.code f.ctx with
    | mutexLock m k => exact congrArg some (mutexLockLoop_undetected c.ssl s i f m .lock (k 0))
    | _ => rfl
  | cond => cases code : c.app.code f.ctx <;> rfl
  | relock expired =>
    cases code : c.app.code f.ctx with
    | condWait cv m call k =>
      exact mutexLock_undetected c s i f m (.relock expired) fun _ => k (condResult call expired)
    | _ => rfl

theorem intake_undetected (s : Runtime σ γ) : s.undetected.intake = s.intake.undetected := by
  have one : ∀ (t : Runtime σ γ) (g : Fiber σ),
      t.undetected.intakeOne g.undetected = (t.intakeOne g).undetected := by
    intro t g
    have taken := setFiber_undetected { t with
      nfib := t.nfib + 1, fibsStores := t.fibsStores ++ [t.nfib] } t.nfib { g with slot := t.nfib }
    exact taken
  have all : ∀ (queue : List (Fiber σ)) (t : Runtime σ γ),
      (queue.map Fiber.undetected).foldl intakeOne t.undetected =
        (queue.foldl intakeOne t).undetected := by
    intro queue
    induction queue with
    | nil => exact fun t => rfl
    | cons g rest ih =>
      intro t
      rw [List.map_cons, List.foldl_cons, List.foldl_cons, one, ih]
  unfold intake
  change { (s.newq.map Fiber.undetected).foldl intakeOne s.undetected with
    newq := [], pc := .epoll } = _
  rw [all]
  rfl

theorem epollWait_undetected (s : Runtime σ γ) (fds : List Fd) :
    s.undetected.epollWait fds = (s.epollWait fds).undetected := by
  have woken : ∀ f : Fiber σ, wakeIo f.undetected = (wakeIo f).undetected := by
    intro f
    have state : f.undetected.state = f.state := rfl
    unfold wakeIo
    rw [state]
    split <;> rfl
  have one : ∀ (t : Runtime σ γ) (fd : Fd),
      t.undetected.deliver fd = (t.deliver fd).undetected := by
    intro t fd
    have epoll : t.undetected.epoll = t.epoll := rfl
    unfold deliver
    rw [epoll]
    cases t.epoll.pending fd with
    | none => rfl
    | some j =>
      dsimp only
      have fibs : Function.update t.undetected.fibs j ((t.undetected.fibs j).map wakeIo) =
          fun i => (Function.update t.fibs j ((t.fibs j).map wakeIo) i).map Fiber.undetected := by
        funext i
        by_cases here : i = j
        · subst here
          rw [Function.update_self, Function.update_self]
          change ((t.fibs i).map Fiber.undetected).map wakeIo = _
          cases t.fibs i with
          | none => rfl
          | some f => exact congrArg some (woken f)
        · rw [Function.update_of_ne here, Function.update_of_ne here]
          rfl
      rw [fibs]
      rfl
  have all : ∀ (t : Runtime σ γ), fds.foldl deliver t.undetected =
      (fds.foldl deliver t).undetected := by
    induction fds with
    | nil => exact fun t => rfl
    | cons fd rest ih =>
      intro t
      rw [List.foldl_cons, List.foldl_cons, one, ih]
  unfold epollWait
  rw [all]
  rfl

theorem switchIn_undetected (c : Config σ γ) (s : Runtime σ γ) (i : Nat) (f : Fiber σ) :
    s.undetected.switchIn c i f.undetected = (s.switchIn c i f).undetected := by
  have place : f.undetected.place = f.place := rfl
  unfold switchIn
  dsimp only
  rw [place]
  cases f.place
  all_goals
    rw [← setFiber_undetected]
    rfl

section Loops

variable (s : Runtime σ γ) (i : Nat)

theorem undetected_fibs : s.undetected.fibs i = (s.fibs i).map Fiber.undetected := rfl

theorem offloadStep_undetected (done : Bool) :
    s.undetected.offloadStep i done = (s.offloadStep i done).undetected := by
  have nfib : s.undetected.nfib = s.nfib := rfl
  unfold offloadStep
  rw [nfib]
  dsimp only
  rw [undetected_fibs]
  split
  · cases s.fibs i with
    | none => rfl
    | some f =>
      have state : f.undetected.state = f.state := rfl
      dsimp only [Option.map_some]
      rw [state]
      split
      · unfold offloadDone
        dsimp only
        rw [← setFiber_undetected]
        rfl
      · rfl
  · rfl

theorem drainStep_undetected : s.undetected.drainStep = s.drainStep.undetected := by
  have pend : s.undetected.pend = s.pend := rfl
  unfold drainStep
  rw [pend]
  split
  · rw [← wakeFibers_undetected]
    rfl
  · rfl

theorem deadlineStep_undetected (now : Option Timespec) (clock : Timespec) :
    s.undetected.deadlineStep i now clock = (s.deadlineStep i now clock).undetected := by
  have nfib : s.undetected.nfib = s.nfib := rfl
  unfold deadlineStep
  rw [nfib, undetected_fibs]
  split
  · cases s.fibs i with
    | none => rfl
    | some f =>
      have state : f.undetected.state = f.state := rfl
      have timed : f.undetected.hasDeadline = f.hasDeadline := rfl
      have deadline : f.undetected.deadline = f.deadline := rfl
      dsimp only [Option.map_some]
      rw [state, timed, deadline]
      split
      · split
        · unfold expire
          dsimp only
          rw [← setFiber_undetected]
          rfl
        · rfl
      · rfl
  · rfl

theorem runStep_undetected (c : Config σ γ) :
    s.undetected.runStep c i = (s.runStep c i).undetected := by
  have nfib : s.undetected.nfib = s.nfib := rfl
  unfold runStep
  rw [nfib, undetected_fibs]
  split
  · cases s.fibs i with
    | none => rfl
    | some f =>
      have state : f.undetected.state = f.state := rfl
      dsimp only [Option.map_some]
      rw [state]
      split
      · exact switchIn_undetected c s i f
      · rfl
  · rfl

theorem reap_undetected : s.undetected.reap i = (s.reap i).undetected := by
  unfold reap
  dsimp only
  rw [undetected_fibs]
  cases s.fibs i with
  | none => rfl
  | some f =>
    have state : f.undetected.state = f.state := rfl
    dsimp only [Option.map_some]
    rw [state]
    split
    · have fibs : Function.update s.undetected.fibs i none =
          fun j => (Function.update s.fibs i none j).map Fiber.undetected := by
        funext j
        by_cases here : j = i
        · subst here
          simp
        · rw [Function.update_of_ne here, Function.update_of_ne here]
          rfl
      rw [fibs]
      rfl
    · rfl

end Loops

theorem carrier_undetected {c : Config σ γ} {s : Runtime σ γ} (quiet : s.det.detConflicts = 0)
    (out : Out) : s.undetected.carrier c out = (s.carrier c out).map undetected := by
  have pc : s.undetected.pc = s.pc := rfl
  unfold carrier
  rw [pc]
  cases s.pc with
  | intake => exact congrArg some s.intake_undetected
  | epoll => exact congrArg some (s.epollWait_undetected out.events)
  | offloads i => exact congrArg some (s.offloadStep_undetected i out.done)
  | drain => exact congrArg some s.drainStep_undetected
  | deadlines i now => exact congrArg some (s.deadlineStep_undetected i now out.real)
  | run i => exact congrArg some (s.runStep_undetected i c)
  | slice i =>
    dsimp only
    rw [undetected_fibs]
    cases s.fibs i with
    | none => rfl
    | some f => exact exec_undetected quiet i f out
  | back i => exact congrArg some (s.reap_undetected i)

theorem pthreadCreate_undetected (s : Runtime σ γ) (start : σ) :
    s.undetected.pthreadCreate start = (s.pthreadCreate start).undetected := by
  have length : s.undetected.newq.length = s.newq.length := List.length_map _
  unfold pthreadCreate
  dsimp only
  rw [length]
  split
  · unfold undetected
    dsimp only
    rw [List.map_append]
    rfl
  · rfl

end Runtime

open TransparentOffload.Runtime

/-- Erasing the detector commutes with every step taken before the first conflict. -/
theorem step_undetected {c : Config σ γ} {s : Runtime σ γ} (quiet : s.det.detConflicts = 0)
    (a : Act) : step c s.undetected a = (step c s a).map undetected := by
  cases a with
  | create arg => exact congrArg some (s.pthreadCreate_undetected (c.app.entry arg))
  | condReserve cv =>
    have nfib : s.undetected.nfib = s.nfib := rfl
    change some (s.undetected.condReserve cv) = some (s.condReserve cv).undetected
    unfold condReserve
    rw [nfib]
    split <;> rfl
  | condPublish ticket cv =>
    change s.undetected.condPublish ticket cv = (s.condPublish ticket cv).map undetected
    unfold condPublish
    change (if (ticket, cv) ∈ s.reserved then _ else _) = _
    split <;> rfl
  | threadLock t m =>
    have mutexes : s.undetected.mutexes = s.mutexes := rfl
    rw [step, step, mutexes]
    cases (s.mutexes m).lock (.real t) <;> rfl
  | threadUnlock t m | arrive fd bs | hangup fd => rfl
  | device id =>
    change s.undetected.device c id = (s.device c id).map undetected
    unfold device
    change (if id < s.accel.subHead then _ else _) = _
    split <;> rfl
  | carrier out => exact carrier_undetected quiet out

end TransparentOffload
