import TransparentOffload.SocketMode
import TransparentOffload.Transparency

set_option autoImplicit false

/- When the carrier itself has to wait: a fiber that is switched in is at its own
code or back in the call it was parked in, and of the calls that wait inside the runtime
only two can keep the carrier's OS thread. A `poll` that is passed through is answered at
once. `accept` and `accept4` wait in libc and are no calls here, and the switches that pass
calls through (`RT_NOIO`, `RT_NOMUTEX`, `RT_NOCOND`, `RT_PASSIVE`) are off. -/
namespace TransparentOffload

variable {σ γ : Type}

/-- The calls that can be waiting in a place; a retried socket call made its
descriptor non-blocking, or the program has taken that back. -/
def Place.Within (idle : Fd → Prop) : Place → Call σ γ → Prop
  | .app, _ => True
  | .handlerLock, .io (.read _) _ _ => True
  | .io, .io _ fd _ => idle fd
  | .poll, .poll .. => True
  | .offload _, .accelEncrypt .. => True
  | .lock, .mutexLock .. => True
  | .cond, .condWait .. | .relock _, .condWait .. => True
  | _, _ => False

/-- The attempts of the carrier's OS thread on a mutex that never come back while
its owner keeps it. -/
def Mutex.Blocks (m : Mutex) : Prop := m.owner ≠ none ∧ (m.owner = some .carrier → m.kind = .normal)

/-- What keeps the carrier in the call of the fiber `f` it has switched in: under
`RT_REALMUTEX` a mutex that another thread holds, or a normal one that some fiber
holds; or a retried socket call whose descriptor was made blocking in the meantime. -/
inductive Waits (c : Config σ γ) (s : Runtime σ γ) (loose : Fd → Prop) (f : Fiber σ) : Prop
  | mutex {m : MutexId} (real : c.gRealmutex = true)
      (locking : (f.place = .app ∧ ∃ k, c.app.code f.ctx = .mutexLock m k) ∨
        ∃ expired cv call k, f.place = .relock expired ∧
          c.app.code f.ctx = .condWait cv m call k)
      (blocks : (s.mutexes m).Blocks)
  | socket {op : IoOp} {fd : Fd} {k : IoRet → σ} (retrying : f.place = .io)
      (code : c.app.code f.ctx = .io op fd k) (mayWait : op.dontwait = false)
      (blocking : (s.socks fd).nonblock = false) (cleared : loose fd)

namespace Mutex

theorem lock_none_iff (m : Mutex) : m.lock .carrier = none ↔ m.Blocks := by
  obtain ⟨kind, owner, count⟩ := m
  cases owner with
  | none => simp [lock, trylock, Blocks]
  | some t =>
    by_cases own : t = .carrier
    · subst own
      cases kind <;> simp [lock, trylock, Blocks]
    · simp [lock, trylock, Blocks, own]

end Mutex

namespace IoOp

/-- With nothing to read or no room to write, only a blocking call waits. -/
theorem real_again (k : Socket) (op : IoOp) :
    op.real k .again =
      if k.nonblock = false ∧ op.dontwait = false then none else some (k, .err eagain) := by
  have split : ∀ dontwait, (if (k.nonblock || dontwait) = true then some (k, IoRet.err eagain)
      else none) =
      if k.nonblock = false ∧ dontwait = false then none else some (k, .err eagain) := by
    intro dontwait
    cases k.nonblock <;> cases dontwait <;> rfl
  cases op with
  | read | write => exact split false
  | recv n dontwait | recvfrom n dontwait | send bs dontwait | sendto bs dontwait =>
    exact split dontwait

/-- The mode of the descriptor is not the real call's to change. -/
theorem real_nonblock {op : IoOp} {k k' : Socket} {out : IoOut} {r : IoRet}
    (answer : op.real k out = some (k', r)) : k'.nonblock = k.nonblock := by
  have reads : ∀ n dontwait, k.realRead n dontwait out = some (k', r) →
      k'.nonblock = k.nonblock := by
    intro n dontwait answer
    unfold Socket.realRead at answer
    cases out with
    | again | part | eof | fail =>
      dsimp only at answer
      split at answer <;> cases answer
      all_goals rfl
  have writes : ∀ bs dontwait, k.realWrite bs dontwait out = some (k', r) →
      k'.nonblock = k.nonblock := by
    intro bs dontwait answer
    unfold Socket.realWrite at answer
    cases out with
    | again | part | fail =>
      dsimp only at answer
      split at answer <;> cases answer
      all_goals rfl
    | eof => cases answer
  cases op with
  | read | recv | recvfrom => exact reads _ _ answer
  | write | send | sendto => exact writes _ _ answer

end IoOp

namespace Place

variable {idle idle' : Fd → Prop}

theorem Within.mono {place : Place} {call : Call σ γ} (within : place.Within idle call)
    (weaker : ∀ fd, idle fd → idle' fd) : place.Within idle' call := by
  cases place with
  | io =>
    cases call with
    | io op fd k => exact weaker fd within
    | _ => exact within.elim
  | handlerLock =>
    cases call with
    | io op => cases op <;> exact within
    | _ => exact within.elim
  | _ =>
    cases call
    all_goals exact within

@[simp] theorem within_app (call : Call σ γ) : Place.app.Within idle call := by
  cases call <;> trivial

end Place

namespace Runtime

/-- A real call on the descriptor does not wait, or the program may have made it so. -/
def Prompt (s : Runtime σ γ) (loose : Fd → Prop) (fd : Fd) : Prop :=
  (s.socks fd).nonblock = true ∨ loose fd

theorem ioSock_nonblock (s : Runtime σ γ) (place : Place) (fd : Fd)
    (on : (s.socks fd).nonblock = true) : (s.ioSock place fd).nonblock = true := by
  unfold ioSock
  split
  · exact on
  · rfl

theorem ioLoop_quiet (ssl : SslSyms) (s : Runtime σ γ) (i : Nat) (f : Fiber σ) (op : IoOp)
    (fd : Fd) (k : IoRet → σ) : s.ioLoop ssl i f op fd k .again = none ↔
      (s.socks fd).nonblock = false ∧ op.dontwait = false := by
  unfold ioLoop
  rw [IoOp.real_again]
  by_cases waits : (s.socks fd).nonblock = false ∧ op.dontwait = false
  · simp [waits]
  · simp [waits]

/-- The first call of an interposer finds the descriptor non-blocking. -/
theorem ioLoop_setnb (ssl : SslSyms) (s : Runtime σ γ) (i : Nat) (f : Fiber σ) (op : IoOp)
    (fd : Fd) (k : IoRet → σ) : (s.setnb fd).ioLoop ssl i f op fd k .again ≠ none := by
  rw [Ne, ioLoop_quiet, setnb_socks_self]
  simp [Socket.setnb]

theorem hlAcquire_quiet (ssl : SslSyms) (s : Runtime σ γ) (i : Nat) (f : Fiber σ) (n : Nat)
    (fd : Fd) (k : IoRet → σ) : s.hlAcquire ssl i f n fd k .again ≠ none := by
  unfold hlAcquire
  split
  · simp
  · apply ioLoop_setnb

theorem io_quiet (c : Config σ γ) (s : Runtime σ γ) (i : Nat) (f : Fiber σ) (op : IoOp)
    (fd : Fd) (k : IoRet → σ) : s.io c i f op fd k .again ≠ none := by
  cases op with
  | read n =>
    show s.read c i f n fd k .again ≠ none
    unfold read
    split
    · apply hlAcquire_quiet
    · apply ioLoop_setnb
  | write | recv | send | recvfrom | sendto => apply ioLoop_setnb

theorem mutexLock_none_iff (c : Config σ γ) (s : Runtime σ γ) (i : Nat) (f : Fiber σ)
    (m : MutexId) (place : Place) (k : Nat → σ) : s.mutexLock c i f m place k = none ↔
      c.gRealmutex = true ∧ (s.mutexes m).Blocks := by
  rw [← Mutex.lock_none_iff]
  unfold mutexLock
  split
  · rename_i real
    split
    · rename_i stuck
      simp [real, stuck]
    · rename_i taken
      simp [taken]
    · rename_i failed
      simp [failed]
  · rename_i parks
    simp [parks]

/-- Which calls the carrier cannot leave while nothing happens. -/
theorem exec_quiet {c : Config σ γ} {s : Runtime σ γ} {i : Nat} {f : Fiber σ}
    {loose : Fd → Prop} (within : f.place.Within (s.Prompt loose) (c.app.code f.ctx))
    (entered : f.place ≠ .cond) : s.exec c i f .quiet = none ↔ Waits c s loose f := by
  constructor
  · intro stuck
    unfold exec at stuck
    cases place : f.place with
    | app =>
      rw [place] at stuck
      cases code : c.app.code f.ctx with
      | io op fd k =>
        rw [code] at stuck
        exact (io_quiet c s i f op fd k stuck).elim
      | mutexLock m k =>
        rw [code] at stuck
        obtain ⟨real, blocks⟩ := (mutexLock_none_iff ..).mp stuck
        exact .mutex real (Or.inl ⟨place, k, code⟩) blocks
      | _ => simp [code] at stuck
    | handlerLock =>
      rw [place] at stuck within
      cases code : c.app.code f.ctx with
      | io op fd k =>
        rw [code] at stuck within
        cases op with
        | read n => exact (hlAcquire_quiet c.ssl s i f n fd k stuck).elim
        | _ => exact within.elim
      | _ => exact (code ▸ within).elim
    | io =>
      rw [place] at stuck within
      cases code : c.app.code f.ctx with
      | io op fd k =>
        rw [code] at stuck within
        obtain ⟨blocking, mayWait⟩ := (ioLoop_quiet ..).mp stuck
        rcases within with on | cleared
        · rw [blocking] at on
          cases on
        · exact .socket place code mayWait blocking cleared
      | _ => exact (code ▸ within).elim
    | poll | offload | lock =>
      rw [place] at stuck within
      cases code : c.app.code f.ctx <;> rw [code] at stuck within
      all_goals first | exact within.elim | cases stuck
    | cond => exact absurd place entered
    | relock expired =>
      rw [place] at stuck within
      cases code : c.app.code f.ctx with
      | condWait cv m call k =>
        rw [code] at stuck
        obtain ⟨real, blocks⟩ := (mutexLock_none_iff ..).mp stuck
        exact .mutex real (Or.inr ⟨expired, cv, call, k, place, code⟩) blocks
      | _ => exact (code ▸ within).elim
  · intro waits
    unfold exec
    cases waits with
    | mutex real locking blocks =>
      rcases locking with ⟨place, k, code⟩ | ⟨expired, cv, call, k, place, code⟩
      · rw [place, code]
        exact (mutexLock_none_iff ..).mpr ⟨real, blocks⟩
      · rw [place, code]
        exact (mutexLock_none_iff ..).mpr ⟨real, blocks⟩
    | socket retrying code mayWait blocking =>
      rw [retrying, code]
      exact (ioLoop_quiet ..).mpr ⟨blocking, mayWait⟩

section Steps

variable {c : Config σ γ} {s s' : Runtime σ γ} {i : Nat} {f : Fiber σ} {out : Out}

/-- A slice makes no descriptor blocking. -/
theorem slice_nonblock (taken : Slice c s i f out s') (fd : Fd)
    (on : (s.socks fd).nonblock = true) : (s'.socks fd).nonblock = true := by
  have answered : ∀ {op : IoOp} {fd' : Fd} {sock : Socket} {r : IoRet},
      op.real (s.ioSock f.place fd') out.io = some (sock, r) →
      (Function.update s.socks fd' sock fd).nonblock = true := by
    intro op fd' sock r real
    by_cases same : fd = fd'
    · subst same
      rw [Function.update_self, IoOp.real_nonblock real]
      exact s.ioSock_nonblock f.place fd on
    · rw [Function.update_of_ne same]
      exact on
  cases taken with
  | ioReturn place code moved real | ioPark place code moved real => exact answered real
  | pollPark =>
    unfold yieldIoTo
    split <;> exact on
  | unlock =>
    unfold mutexUnlock releaseMutex
    dsimp only
    split <;> exact on
  | condWait =>
    unfold fiberCondWait releaseMutex
    dsimp only
    split <;> exact on
  | _ => exact on

theorem round_nonblock (taken : Round c s out s') (fd : Fd)
    (on : (s.socks fd).nonblock = true) : (s'.socks fd).nonblock = true := by
  cases taken with
  | intake =>
    rw [intake_eq]
    exact on
  | epoll =>
    obtain ⟨epoll, fibs, same⟩ := deliverAll_frame s out.events
    rw [epollWait, same]
    exact on
  | switchIn =>
    obtain ⟨errno, errq, same⟩ := switchIn_frame c s _ _
    rw [same]
    exact on
  | slice pc live slice => exact slice_nonblock slice fd on
  | goOn | offloadDone | drain | expire | free => exact on

theorem mutexTrylock_fibs (s : Runtime σ γ) (i : Nat) (f : Fiber σ) (m : MutexId)
    (k : Bool → σ) : ∃ ctx, (s.mutexTrylock i f m k).fibs =
      Function.update s.fibs i (some { f with ctx := ctx, place := .app }) := by
  unfold mutexTrylock
  dsimp only
  split
  · exact ⟨k true, rfl⟩
  · exact ⟨k false, rfl⟩

/-- Where a slice leaves its fiber, the fiber's next call can be waiting. -/
theorem exec_within {loose : Fd → Prop} {f' : Fiber σ} (ran : s.exec c i f out = some s')
    (live : s'.fibs i = some f')
    (within : f.place.Within (s.Prompt loose) (c.app.code f.ctx)) :
    f'.place.Within (s'.Prompt loose) (c.app.code f'.ctx) := by
  have own : ∀ {fibs : Nat → Option (Fiber σ)} {g : Fiber σ},
      s'.fibs = Function.update fibs i (some g) → f' = g := by
    intro fibs g same
    rw [same, Function.update_self, Option.some.injEq] at live
    exact live.symm
  -- a call that came back: the fiber is at its own code again
  have back : ∀ {fibs : Nat → Option (Fiber σ)} {ctx : σ} {got : Nat},
      s'.fibs = Function.update fibs i (some { f with ctx := ctx, place := .app, got := got }) →
      f'.place.Within (s'.Prompt loose) (c.app.code f'.ctx) := by
    intro fibs ctx got same
    rw [own same]
    exact Place.within_app _
  -- a call that parked: the fiber goes on with the same call
  have parked : ∀ {call : Call σ γ} {g : Fiber σ} {place : Place}, c.app.code f.ctx = call →
      s'.fibs = Function.update s.fibs i (some g) → g.ctx = f.ctx → g.place = place →
      place.Within (s'.Prompt loose) call →
      f'.place.Within (s'.Prompt loose) (c.app.code f'.ctx) := by
    intro call g place code same ctx there here
    rw [own same, ctx, there, code]
    exact here
  cases exec_slice ran with
  | plain | pollPass | pollRet | offloadRet | lockTaken | lockFailed | errQueue | close
  | condWake | ioReturn => exact back rfl
  | unlock =>
    apply back
    unfold mutexUnlock releaseMutex
    dsimp only
    split <;> rfl
  | lockBusy place code => exact parked code rfl rfl rfl trivial
  | @ioPark op fd k owner sock place code moved real =>
    refine parked code rfl rfl rfl ?_
    show (Function.update s.socks fd sock fd).nonblock = true ∨ loose fd
    rw [Function.update_self, IoOp.real_nonblock real]
    rcases place with app | waiting | retrying
    · rw [app]
      exact Or.inl rfl
    · rw [waiting]
      exact Or.inl rfl
    · rw [retrying, code] at within
      rw [retrying]
      exact within
  | @pollPark fd events timeout k place code =>
    have poll : ∃ g, (s.yieldIoTo c.ssl i f fd (pollEvents events) timeout out.real).fibs =
        Function.update s.fibs i (some g) ∧ g.ctx = f.ctx ∧ g.place = .poll := by
      unfold yieldIoTo
      split <;> exact ⟨_, rfl, rfl, rfl⟩
    obtain ⟨g, same, ctx, there⟩ := poll
    exact parked code same ctx there trivial
  | offload place code => exact parked code rfl rfl rfl trivial
  | @lockWait m place attempts held places =>
    rcases attempts with ⟨app, ⟨k, code⟩ | ⟨k, code⟩⟩ | ⟨lock, k, code⟩ |
      ⟨expired, relock, cv, call, k, code⟩
    · rcases places with ⟨_, lock⟩ | ⟨same, lock | ⟨expired, relock⟩⟩
      · exact parked code rfl rfl lock trivial
      · exact parked code rfl rfl lock trivial
      · exact parked code rfl rfl (same.symm.trans app) trivial
    · unfold exec at ran
      rw [app, code] at ran
      obtain ⟨ctx, fibs⟩ := s.mutexTrylock_fibs i f m k
      rw [Option.some.injEq] at ran
      exact back (ran ▸ fibs)
    · rcases places with ⟨app, _⟩ | ⟨same, _⟩
      · rw [app] at lock
        cases lock
      · exact parked code rfl rfl (same.symm.trans lock) trivial
    · rcases places with ⟨app, _⟩ | ⟨same, _⟩
      · rw [app] at relock
        cases relock
      · exact parked code rfl rfl (same.symm.trans relock) trivial
  | @condWait cv m call k place code =>
    have cond : ∃ g, (s.fiberCondWait i f cv m call out).fibs =
        Function.update s.fibs i (some g) ∧ g.ctx = f.ctx ∧ g.place = .cond := by
      unfold fiberCondWait releaseMutex
      dsimp only
      split <;> exact ⟨_, rfl, rfl, rfl⟩
    obtain ⟨g, same, ctx, there⟩ := cond
    exact parked code same ctx there trivial
  | exit place code => exact parked code rfl rfl place (Place.within_app _)

end Steps

end Runtime

open TransparentOffload.Runtime

theorem step_nonblock {c : Config σ γ} {s s' : Runtime σ γ} {a : Act}
    (taken : step c s a = some s') (fd : Fd) (on : (s.socks fd).nonblock = true) :
    (s'.socks fd).nonblock = true := by
  cases stepped taken with
  | create arg =>
    unfold pthreadCreate
    dsimp only
    split <;> exact on
  | reserveNone | reserve | publish | threadLock | threadUnlock | device => exact on
  | socket fd' k peer =>
    show (Function.update s.socks fd' k fd).nonblock = true
    by_cases same : fd = fd'
    · subst same
      rw [Function.update_self]
      rcases peer with ⟨bs, _, rfl⟩ | ⟨_, rfl⟩
      · exact on
      · exact on
    · rw [Function.update_of_ne same]
      exact on
  | round taken => exact round_nonblock taken fd on

/-- Every fiber of the table is at its own code or in a call that can be waiting, and
the one that is switched in has left `fiber_cond_wait`'s switch. -/
structure InCalls (c : Config σ γ) (loose : Fd → Prop) (s : Runtime σ γ) : Prop where
  formed : Formed c s
  within : ∀ i f, s.fibs i = some f → f.place.Within (s.Prompt loose) (c.app.code f.ctx)
  entered : ∀ i f, s.pc = .slice i → s.fibs i = some f → f.place ≠ .cond

namespace InCalls

variable {c : Config σ γ} {loose : Fd → Prop} {s s' : Runtime σ γ}

theorem init (mem : γ) (detOn : Bool) (kinds : MutexId → MutexKind) :
    InCalls c loose (Runtime.init mem detOn kinds) := by
  refine ⟨init_formed c mem detOn kinds, ?_, ?_⟩
  · intro i f live
    cases live
  · intro i f pc
    cases pc

/-- What a fiber makes of its wait leaves it in the call it waits in. -/
theorem aside {f f' : Fiber σ} (aside : f.Aside f')
    (weaker : ∀ fd, s.Prompt loose fd → s'.Prompt loose fd)
    (within : f.place.Within (s.Prompt loose) (c.app.code f.ctx)) :
    f'.place.Within (s'.Prompt loose) (c.app.code f'.ctx) := by
  rw [aside.ctx]
  rcases aside.place with same | ⟨waited, relock⟩
  · rw [same]
    exact within.mono weaker
  · rw [waited] at within
    rw [relock]
    cases code : c.app.code f.ctx with
    | condWait => trivial
    | _ => exact (code ▸ within).elim

theorem step {a : Act} (inv : InCalls c loose s) (taken : step c s a = some s') :
    InCalls c loose s' := by
  refine ⟨step_formed inv.formed taken, ?_, ?_⟩
  · intro i f' live'
    rcases step_fiber taken live' with ⟨f, live, moved⟩ | ⟨g, waiting, rfl, _⟩
    · have within := inv.within i f live
      by_cases sliced : ∃ out, a = .carrier out ∧ s.pc = .slice i
      · obtain ⟨out, rfl, pc⟩ := sliced
        change s.carrier c out = some s' at taken
        unfold carrier at taken
        rw [pc] at taken
        dsimp only at taken
        rw [live] at taken
        exact exec_within taken live' within
      · have still : ∀ out, a = .carrier out → s.pc ≠ .slice i :=
          fun out carrier pc => sliced ⟨out, carrier, pc⟩
        exact aside (moved.aside still)
          (fun fd => Or.imp_left (step_nonblock taken fd)) within
    · obtain ⟨arg, number, rfl⟩ := inv.formed.queue g waiting
      exact Place.within_app _
  · intro i f' pc' live'
    rcases step_switched taken pc' with ⟨pc, same⟩ | ⟨_, f, ctx, got, _, now⟩ |
      ⟨_, f, _, _, now⟩
    · exact inv.entered i f' pc (same ▸ live')
    · rw [now, Option.some.injEq] at live'
      rw [← live']
      simp
    · rw [now, Option.some.injEq] at live'
      rw [← live', Fiber.switchedIn_place]
      split
      · simp
      · assumption

/-- Setting a mode keeps the invariant when a mode taken back is a known one. -/
theorem fcntl (inv : InCalls c loose s) (fd : Fd) (nonblock : Bool)
    (known : nonblock = false → loose fd) :
    InCalls c loose (s.setSock fd { s.socks fd with nonblock := nonblock }) := by
  have weaker : ∀ fd', s.Prompt loose fd' →
      (s.setSock fd { s.socks fd with nonblock := nonblock }).Prompt loose fd' := by
    intro fd' prompt
    by_cases same : fd' = fd
    · subst same
      cases nonblock with
      | false => exact Or.inr (known rfl)
      | true =>
        left
        show (Function.update s.socks fd' _ fd').nonblock = true
        rw [Function.update_self]
    · apply Or.imp_left _ prompt
      intro on
      show (Function.update s.socks fd _ fd').nonblock = true
      rw [Function.update_of_ne same]
      exact on
  refine ⟨?_, ?_, inv.entered⟩
  · exact ⟨inv.formed.slots, inv.formed.queue, inv.formed.running, inv.formed.fits⟩
  · exact fun i f live => (inv.within i f live).mono weaker

/-- The carrier is kept exactly in the calls that `Waits` names. -/
theorem carrier_quiet (inv : InCalls c loose s) :
    s.carrier c .quiet = none ↔
      ∃ i f, s.pc = .slice i ∧ s.fibs i = some f ∧ Waits c s loose f := by
  constructor
  · intro stuck
    unfold carrier at stuck
    cases pc : s.pc with
    | slice i =>
      obtain ⟨f, live, _⟩ := inv.formed.running i pc
      rw [pc] at stuck
      dsimp only at stuck
      rw [live] at stuck
      exact ⟨i, f, rfl, live,
        (exec_quiet (inv.within i f live) (inv.entered i f pc live)).mp stuck⟩
    | _ =>
      rw [pc] at stuck
      cases stuck
  · rintro ⟨i, f, pc, live, waits⟩
    unfold carrier
    rw [pc]
    dsimp only
    rw [live]
    exact (exec_quiet (inv.within i f live) (inv.entered i f pc live)).mpr waits

end InCalls

/-- Whatever a program of these calls, its peers, its real threads and the device have
done, and with nothing to report to the carrier: it cannot go on exactly when the fiber it has
switched in locks, under `RT_REALMUTEX`, a mutex that another thread holds or a normal
one that some fiber holds, or retries a socket call that may wait on a descriptor that
the program has made blocking again. -/
theorem carrier_waits_iff (c : Config σ γ) (mem : γ) (detOn : Bool)
    (kinds : MutexId → MutexKind) (acts : List ModeAct) (s : Moded σ γ)
    (ran : Machine.run (modeStep c) (.init mem detOn kinds) acts = some s) :
    modeStep c s (.act (.carrier .quiet)) = none ↔
      ∃ i f, s.runtime.pc = .slice i ∧ s.runtime.fibs i = some f ∧
        Waits c s.runtime (fun fd => ModeAct.fcntl fd false ∈ acts) f := by
  have inv : InCalls c (fun fd => ModeAct.fcntl fd false ∈ acts) s.runtime := by
    have allowed : Machine.Guarded (modeStep c)
        (fun _ a => ∀ fd, a = .fcntl fd false → ModeAct.fcntl fd false ∈ acts)
        (.init mem detOn kinds) acts :=
      Machine.guarded_of_mem (fun a member _ fd same => same ▸ member) _
    refine Machine.invariant_run (I := fun t : Moded σ γ =>
      InCalls c (fun fd => ModeAct.fcntl fd false ∈ acts) t.runtime) ?_
      (InCalls.init mem detOn kinds) allowed ran
    intro u a t inv known taken
    cases a with
    | fcntl fd nonblock =>
      cases taken
      exact inv.fcntl fd nonblock fun off => known fd (off ▸ rfl)
    | act a =>
      obtain ⟨t', moved, rfl⟩ := Option.map_eq_some_iff.mp taken
      exact inv.step moved
  rw [← inv.carrier_quiet]
  show (s.runtime.carrier c .quiet).map _ = none ↔ _
  rw [Option.map_eq_none_iff]

/-- A read that parked is retried after its descriptor was made blocking. -/
def retriedRead : List ModeAct :=
  firstCall 1 ++ [.act (.carrier .quiet), .fcntl 7 false] ++
    List.replicate 3 (.act (.carrier .quiet)) ++
    [.act (.carrier { Out.quiet with events := [7] })] ++
    List.replicate 6 (.act (.carrier .quiet))

/-- Nothing is there to read: the retried call keeps the carrier. -/
theorem retried_read_keeps_carrier : ∃ s,
    Machine.run (modeStep writerReader) modeStart retriedRead = some s ∧
      modeStep writerReader s (.act (.carrier .quiet)) = none := by
  refine ⟨_, rfl, (carrier_waits_iff writerReader () false (fun _ => .normal) retriedRead _
    rfl).mpr ⟨0, _, rfl, rfl, ?_⟩⟩
  exact .socket rfl rfl rfl rfl (by simp [retriedRead])

end TransparentOffload
