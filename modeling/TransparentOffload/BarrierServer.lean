import TransparentOffload.HandlerLock

set_option autoImplicit false

/- `barrier_server`: each handler counts its request under a mutex, wakes the others and
waits, for 50 milliseconds at most, until another request has been counted. -/
namespace TransparentOffload

section Calls

variable {σ γ : Type} {c : Config σ γ} {s s' : Runtime σ γ} {i : Nat} {f : Fiber σ} {out : Out}

/-- The call came back with the context `ctx`, and the fiber goes on. -/
structure CameBack (s s' : Runtime σ γ) (i : Nat) (f : Fiber σ) (ctx : σ) : Prop where
  mem : s'.mem = s.mem
  pc : s'.pc = s.pc
  fibs : s'.fibs = Function.update s.fibs i (some { f with ctx := ctx, place := .app })

/-- The fiber stays in the call, runnable, in `place`. -/
structure YieldedRun (s s' : Runtime σ γ) (i : Nat) (f : Fiber σ) (place : Place) : Prop where
  mem : s'.mem = s.mem
  pc : s'.pc = .back i
  fiber : ∃ f', s'.fibs = Function.update s.fibs i (some f') ∧ f'.ctx = f.ctx ∧
    f'.state = .run ∧ f'.place = place

theorem mutexLock_cameBack {m : MutexId} {place : Place} {k : Nat → σ}
    (taken : s.mutexLock c i f m place k = some s') :
    (∃ r, CameBack s s' i f (k r)) ∨ YieldedRun s s' i f place := by
  unfold Runtime.mutexLock at taken
  split at taken
  · split at taken
    · cases taken
    · rw [Option.some.injEq] at taken
      exact Or.inl ⟨0, taken ▸ ⟨rfl, rfl, rfl⟩⟩
    · rw [Option.some.injEq] at taken
      exact Or.inl ⟨35, taken ▸ ⟨rfl, rfl, rfl⟩⟩
  · rw [Option.some.injEq] at taken
    subst taken
    unfold Runtime.mutexLockLoop
    dsimp only
    split
    · exact Or.inl ⟨0, rfl, rfl, rfl⟩
    · exact Or.inr ⟨rfl, rfl, _, rfl, rfl, rfl, rfl⟩

theorem exec_mutexLock {m : MutexId} {k : Nat → σ} (code : c.app.code f.ctx = .mutexLock m k)
    (taken : s.exec c i f out = some s') :
    (∃ r, CameBack s s' i f (k r)) ∨ YieldedRun s s' i f .lock := by
  unfold Runtime.exec at taken
  rw [code] at taken
  cases place : f.place with
  | app =>
    rw [place] at taken
    exact mutexLock_cameBack taken
  | lock =>
    rw [place] at taken
    change some (s.mutexLockLoop c.ssl i f m .lock (k 0)) = some s' at taken
    rw [Option.some.injEq] at taken
    subst taken
    unfold Runtime.mutexLockLoop
    dsimp only
    split
    · exact Or.inl ⟨0, rfl, rfl, rfl⟩
    · exact Or.inr ⟨rfl, rfl, _, rfl, rfl, rfl, rfl⟩
  | _ =>
    rw [place] at taken
    cases taken

theorem exec_condWait {cv : CondId} {m : MutexId} {call : CondCall} {k : Nat → σ}
    (code : c.app.code f.ctx = .condWait cv m call k) (taken : s.exec c i f out = some s') :
    (f.place = .app ∧ s' = s.fiberCondWait i f cv m call out) ∨ ∃ expired,
      (∃ r, CameBack s s' i f (k r)) ∨ YieldedRun s s' i f (.relock expired) := by
  unfold Runtime.exec at taken
  rw [code] at taken
  cases place : f.place with
  | app =>
    rw [place] at taken
    exact Or.inl ⟨rfl, (Option.some.inj taken).symm⟩
  | relock expired =>
    rw [place] at taken
    rcases mutexLock_cameBack taken with ⟨r, back⟩ | parked
    · exact Or.inr ⟨expired, Or.inl ⟨_, back⟩⟩
    · exact Or.inr ⟨expired, Or.inr parked⟩
  | _ =>
    rw [place] at taken
    cases taken

theorem exec_condBroadcast {cv : CondId} {k : σ} (code : c.app.code f.ctx = .condBroadcast cv k)
    (taken : s.exec c i f out = some s') : s' = s.condWake i f cv k := by
  unfold Runtime.exec at taken
  rw [code] at taken
  cases place : f.place with
  | app =>
    rw [place] at taken
    exact (Option.some.inj taken).symm
  | _ =>
    rw [place] at taken
    cases taken

theorem exec_mutexUnlock {m : MutexId} {k : Bool → σ}
    (code : c.app.code f.ctx = .mutexUnlock m k) (taken : s.exec c i f out = some s') :
    ∃ r, CameBack s s' i f (k r) := by
  unfold Runtime.exec at taken
  rw [code] at taken
  cases place : f.place with
  | app =>
    rw [place] at taken
    rw [← Option.some.inj taken]
    refine ⟨((s.mutexes m).unlock .carrier).2, ?_⟩
    unfold Runtime.mutexUnlock Runtime.releaseMutex
    dsimp only
    split <;> exact ⟨rfl, rfl, rfl⟩
  | _ =>
    rw [place] at taken
    cases taken

end Calls

namespace BarrierServer

/-- `REQ` of `barrier_server`. -/
def req : Nat := 256

def m : MutexId := 0

def cv : CondId := 0

/-- The globals `counter` and `config`. -/
structure Shared where
  counter : Nat
  config : Nat
  deriving DecidableEq, Repr

/-- Where `conn` is, with its locals: `b` as far as it counts, `cfg` and `mine`. -/
inductive Conn
  | reading (fd : Fd) (b : Bytes)
  | configuring (fd : Fd) (b : Bytes)
  | locking (fd : Fd) (b : Bytes) (cfg : Nat)
  | counting (fd : Fd) (b : Bytes) (cfg : Nat)
  | broadcasting (fd : Fd) (b : Bytes) (cfg mine : Nat)
  | testing (fd : Fd) (b : Bytes) (cfg mine : Nat)
  | waiting (fd : Fd) (b : Bytes) (cfg mine : Nat)
  | unlocking (fd : Fd) (b : Bytes) (cfg mine : Nat)
  | writing (fd : Fd) (b : Bytes) (cfg mine put : Nat)
  | closing (fd : Fd)
  | returned
  deriving DecidableEq, Repr

/-- The eight bytes of a `long` in memory. -/
def longBytes (n : Nat) : Bytes := (List.range 8).map fun k => UInt8.ofNat (n / 256 ^ k)

/-- `memcpy(b,&cfg,8); memcpy(b+8,&mine,8)`. -/
def reply (b : Bytes) (cfg mine : Nat) : Bytes := longBytes cfg ++ longBytes mine ++ b.drop 16

def afterRead (fd : Fd) (b : Bytes) : IoRet → Conn
  | .data bs =>
    if bs = [] then .closing fd
    else if (b ++ bs).length < req then .reading fd (b ++ bs)
    else .configuring fd (b ++ bs)
  | .count _ | .err _ => .closing fd

def afterWrite (fd : Fd) (b : Bytes) (cfg mine put : Nat) : IoRet → Conn
  | .count n =>
    if n = 0 then .closing fd
    else if put + n < req then .writing fd b cfg mine (put + n)
    else .reading fd []
  | .data _ | .err _ => .closing fd

/-- `while(counter < mine+1)`. -/
def afterTest (fd : Fd) (b : Bytes) (cfg mine counter : Nat) : Conn :=
  if counter < mine + 1 then .waiting fd b cfg mine else .unlocking fd b cfg mine

/-- `if(pthread_cond_timedwait(..)!=0) break`. -/
def afterWait (fd : Fd) (b : Bytes) (cfg mine r : Nat) : Conn :=
  if r ≠ 0 then .unlocking fd b cfg mine else .testing fd b cfg mine

/-- The thread function. `clock` is what `clock_gettime` answers in the round of each
number; `rw` has readers alone, who never wait, so reading `config` is plain code. -/
def conn (clock : Nat → Timespec) : Conn → Call Conn Shared
  | .reading fd b => .io (.read (req - b.length)) fd (afterRead fd b)
  | .configuring fd b => .code [] fun g => (g, .locking fd b g.config)
  | .locking fd b cfg => .mutexLock m fun _ => .counting fd b cfg
  | .counting fd b cfg => .code [0] fun g =>
    ({ g with counter := g.counter + 1 }, .broadcasting fd b cfg (g.counter + 1))
  | .broadcasting fd b cfg mine => .condBroadcast cv (.testing fd b cfg mine)
  | .testing fd b cfg mine => .code [] fun g =>
    (g, afterTest fd b cfg mine g.counter)
  | .waiting fd b cfg mine =>
    .condWait cv m (.timedwait ((clock mine).afterMs 50)) (afterWait fd b cfg mine)
  | .unlocking fd b cfg mine => .mutexUnlock m fun _ => .writing fd (reply b cfg mine) cfg mine 0
  | .writing fd b cfg mine put => .io (.write (b.drop put)) fd (afterWrite fd b cfg mine put)
  | .closing fd => .close fd .returned
  | .returned => .ret

def app (clock : Nat → Timespec) : App Conn Shared := ⟨fun fd => .reading fd [], conn clock⟩

namespace Conn

/-- The number the handler has given to the request it serves. -/
def mine : Conn → Option Nat
  | .broadcasting _ _ _ n | .testing _ _ _ n | .waiting _ _ _ n | .unlocking _ _ _ n
  | .writing _ _ _ n _ => some n
  | _ => none

/-- The copy of `config` it has made for that request. -/
def cfg : Conn → Option Nat
  | .locking _ _ k | .counting _ _ k | .broadcasting _ _ k _ | .testing _ _ k _
  | .waiting _ _ k _ | .unlocking _ _ k _ | .writing _ _ k _ _ => some k
  | _ => none

/-- It has counted its request and not yet woken the others. -/
def tells : Conn → Bool
  | .broadcasting .. => true
  | _ => false

/-- It is at its condition wait. -/
def waits : Conn → Bool
  | .waiting .. => true
  | _ => false

/-- The buffer it sends starts with its copy of `config` and its number. -/
def Replies : Conn → Prop
  | .writing _ b k n _ => ∃ rest, b = longBytes k ++ longBytes n ++ rest
  | _ => True

end Conn

variable {clock : Nat → Timespec}

/-- What is known of one handler, in slot `i`. -/
structure Sound (clock : Nat → Timespec) (s : Runtime Conn Shared) (i : Nat) (f : Fiber Conn) :
    Prop where
  cfg : ∀ k, f.ctx.cfg = some k → k = s.mem.config
  mine : ∀ n, f.ctx.mine = some n → 0 < n ∧ n ≤ s.mem.counter
  replies : f.ctx.Replies
  tells : f.ctx.tells = true → s.pc = .slice i
  tested : f.ctx.waits = true → f.place = .app →
    s.pc = .slice i ∧ f.ctx.mine = some s.mem.counter
  asleep : f.state = .waitCond → f.ctx.waits = true ∧ f.waitcond = some cv ∧
    f.hasDeadline = true ∧ ∀ n, f.ctx.mine = some n → f.deadline = (clock n).afterMs 50

/-- The handlers together. -/
structure Counted (clock : Nat → Timespec) (c : Config Conn Shared) (config : Nat)
    (s : Runtime Conn Shared) : Prop where
  formed : Formed c s
  config : s.mem.config = config
  sound : ∀ i f, s.fibs i = some f → Sound clock s i f
  single : ∀ i j f g n, s.fibs i = some f → s.fibs j = some g → f.ctx.mine = some n →
    g.ctx.mine = some n → i = j
  caught : ∀ i f, s.fibs i = some f → f.state = .waitCond → f.ctx.mine = some s.mem.counter ∨
    ∃ j g, s.pc = .slice j ∧ s.fibs j = some g ∧ g.ctx.tells = true

/-- How a slice of handler `i` changes what the others depend on. -/
inductive Turned (s s' : Runtime Conn Shared) (i : Nat) (f f' : Fiber Conn) : Prop
  | plain (mem : s'.mem = s.mem) (quiet : f.ctx.tells = false)
      (mine : f'.ctx.mine = f.ctx.mine ∨ f'.ctx.mine = none)
      (fell : f'.state = .waitCond → f'.ctx.mine = some s.mem.counter)
  | counted (mem : s'.mem = { s.mem with counter := s.mem.counter + 1 })
      (mine : f'.ctx.mine = some (s.mem.counter + 1)) (tells : f'.ctx.tells = true)
      (pc : s'.pc = .slice i) (awake : f'.state ≠ .waitCond)
  | told (mem : s'.mem = s.mem) (mine : f'.ctx.mine = f.ctx.mine) (awake : f'.state ≠ .waitCond)
      (woken : ∀ j, j ≠ i → s'.fibs j = (s.wakeFibers (some cv)).fibs j)

/-- A handler that is not asleep, not at its wait and has nothing to tell. -/
theorem Sound.simple {s : Runtime Conn Shared} {i : Nat} {f : Fiber Conn}
    (cfg : ∀ k, f.ctx.cfg = some k → k = s.mem.config)
    (mine : ∀ n, f.ctx.mine = some n → 0 < n ∧ n ≤ s.mem.counter) (replies : f.ctx.Replies)
    (tells : f.ctx.tells = false) (waits : f.ctx.waits = false) (awake : f.state ≠ .waitCond) :
    Sound clock s i f where
  cfg := cfg
  mine := mine
  replies := replies
  tells := by simp [tells]
  tested := by simp [waits]
  asleep := fun fell => absurd fell awake

section Slices

variable {c : Config Conn Shared} {s s' : Runtime Conn Shared} {i : Nat} {f : Fiber Conn}
  {out : Out}

/-- A call that came back and left the number alone. -/
theorem turned_back {ctx : Conn} (back : CameBack s s' i f ctx) (quiet : f.ctx.tells = false)
    (mine : ctx.mine = f.ctx.mine ∨ ctx.mine = none) (awake : f.state ≠ .waitCond) :
    Turned s s' i f { f with ctx := ctx, place := .app } :=
  .plain back.mem quiet mine fun fell => absurd fell awake

theorem slice_io_answers {op : IoOp} {fd : Fd} {k : IoRet → Conn}
    (code : c.app.code f.ctx = .io op fd k) (taken : Runtime.Slice c s i f out s')
    (awake : f.state ≠ .waitCond) : ∃ f', s'.fibs i = some f' ∧ s'.mem = s.mem ∧
      f'.state ≠ .waitCond ∧ (f'.ctx = f.ctx ∨ ∃ r, f'.ctx = k r) := by
  rcases Runtime.slice_io taken code with ⟨_, rfl⟩ | ⟨owner, sock, r, _, _, _, ⟨_, rfl⟩ | ⟨_, rfl⟩⟩
  · exact ⟨_, Function.update_self .., rfl, nofun, Or.inl rfl⟩
  · exact ⟨_, Function.update_self .., rfl, nofun, Or.inl rfl⟩
  · exact ⟨_, Function.update_self .., rfl, awake, Or.inr ⟨r, rfl⟩⟩

theorem afterRead_plain (fd : Fd) (b : Bytes) (r : IoRet) :
    (afterRead fd b r).cfg = none ∧ (afterRead fd b r).mine = none ∧
      (afterRead fd b r).tells = false ∧ (afterRead fd b r).waits = false ∧
      (afterRead fd b r).Replies := by
  unfold afterRead
  split
  · split
    · exact ⟨rfl, rfl, rfl, rfl, trivial⟩
    · split <;> exact ⟨rfl, rfl, rfl, rfl, trivial⟩
  · exact ⟨rfl, rfl, rfl, rfl, trivial⟩
  · exact ⟨rfl, rfl, rfl, rfl, trivial⟩

theorem afterWrite_plain (fd : Fd) (b : Bytes) (cfg mine put : Nat) (r : IoRet) :
    ((afterWrite fd b cfg mine put r).cfg = none ∧ (afterWrite fd b cfg mine put r).mine = none ∧
      (afterWrite fd b cfg mine put r).tells = false ∧
      (afterWrite fd b cfg mine put r).waits = false ∧ (afterWrite fd b cfg mine put r).Replies) ∨
    ∃ put', afterWrite fd b cfg mine put r = .writing fd b cfg mine put' := by
  unfold afterWrite
  split
  · split
    · exact Or.inl ⟨rfl, rfl, rfl, rfl, trivial⟩
    · split
      · exact Or.inr ⟨_, rfl⟩
      · exact Or.inl ⟨rfl, rfl, rfl, rfl, trivial⟩
  · exact Or.inl ⟨rfl, rfl, rfl, rfl, trivial⟩
  · exact Or.inl ⟨rfl, rfl, rfl, rfl, trivial⟩

/-- A handler that keeps what it knows through a step that leaves the globals alone. -/
theorem Sound.kept {f' : Fiber Conn} (sound : Sound clock s i f) (mem : s'.mem = s.mem)
    (ctx : f'.ctx = f.ctx) (tells : f.ctx.tells = false) (waits : f.ctx.waits = false)
    (awake : f'.state ≠ .waitCond) : Sound clock s' i f' := by
  refine .simple ?_ ?_ ?_ ?_ ?_ awake
  · rw [ctx, mem]
    exact sound.cfg
  · rw [ctx, mem]
    exact sound.mine
  · rw [ctx]
    exact sound.replies
  · rw [ctx]
    exact tells
  · rw [ctx]
    exact waits

/-- A handler without a number and without a copy of `config`. -/
theorem Sound.blank {f' : Fiber Conn} (cfg : f'.ctx.cfg = none) (mine : f'.ctx.mine = none)
    (replies : f'.ctx.Replies) (tells : f'.ctx.tells = false) (waits : f'.ctx.waits = false)
    (awake : f'.state ≠ .waitCond) : Sound clock s' i f' :=
  .simple (by simp [cfg]) (by simp [mine]) replies tells waits awake

/-- The slice has left the handler where it should stand. -/
def Turns (clock : Nat → Timespec) (s s' : Runtime Conn Shared) (i : Nat) (f : Fiber Conn) :
    Prop :=
  ∃ f', s'.fibs i = some f' ∧ Sound clock s' i f' ∧ Turned s s' i f f'

section Places

variable {fd : Fd} {b : Bytes} {cfg mine put : Nat}

/-- It is in the same place of its code, and nothing else has changed. -/
theorem kept_turns {f' : Fiber Conn} (sound : Sound clock s i f) (now : s'.fibs i = some f')
    (mem : s'.mem = s.mem) (same : f'.ctx = f.ctx) (quiet : f.ctx.tells = false)
    (waits : f.ctx.waits = false) (up : f'.state ≠ .waitCond) : Turns clock s s' i f :=
  ⟨f', now, sound.kept mem same quiet waits up,
    .plain mem quiet (Or.inl (by rw [same])) fun fell => absurd fell up⟩

/-- It has found its mutex taken. -/
theorem yielded_turns {place : Place} (sound : Sound clock s i f)
    (parked : YieldedRun s s' i f place) (quiet : f.ctx.tells = false) (apart : place ≠ .app) :
    Turns clock s s' i f := by
  obtain ⟨f', fibs, same, up, there⟩ := parked.fiber
  have up' : f'.state ≠ .waitCond := by rw [up]; decide
  refine ⟨f', by rw [fibs, Function.update_self], ⟨?_, ?_, ?_, ?_, ?_, ?_⟩, ?_⟩
  · rw [same, parked.mem]
    exact sound.cfg
  · rw [same, parked.mem]
    exact sound.mine
  · rw [same]
    exact sound.replies
  · intro tells
    rw [same] at tells
    exact absurd (quiet.symm.trans tells) Bool.false_ne_true
  · intro _ app
    exact absurd (there.symm.trans app) apart
  · exact fun fell => absurd fell up'
  · exact .plain parked.mem quiet (Or.inl (by rw [same])) fun fell => absurd fell up'

theorem reading_turns (sound : Sound clock s i f) (awake : f.state ≠ .waitCond)
    (at_ : f.ctx = .reading fd b) (code : c.app.code f.ctx = conn clock (.reading fd b))
    (slice : Runtime.Slice c s i f out s') : Turns clock s s' i f := by
  have quiet : f.ctx.tells = false := by rw [at_]; rfl
  obtain ⟨f', now, mem, up, same | ⟨r, same⟩⟩ := slice_io_answers code slice awake
  · exact kept_turns sound now mem same quiet (by rw [at_]; rfl) up
  · obtain ⟨cfg, mine, tells, waits, replies⟩ := afterRead_plain fd b r
    rw [← same] at cfg mine tells waits replies
    refine ⟨f', now, .blank cfg mine replies tells waits up, ?_⟩
    exact .plain mem quiet (Or.inr mine) fun fell => absurd fell up

theorem configuring_turns (awake : f.state ≠ .waitCond) (at_ : f.ctx = .configuring fd b)
    (code : c.app.code f.ctx = conn clock (.configuring fd b))
    (slice : Runtime.Slice c s i f out s') : Turns clock s s' i f := by
  rw [Runtime.slice_code slice code]
  refine ⟨_, Function.update_self .., ?_, ?_⟩
  · refine .simple ?_ ?_ trivial rfl rfl awake
    · intro k same
      exact (Option.some.inj same).symm
    · intro n none_
      cases none_
  · exact .plain rfl (by rw [at_]; rfl) (Or.inr rfl) fun fell => absurd fell awake

theorem locking_turns (sound : Sound clock s i f) (awake : f.state ≠ .waitCond)
    (at_ : f.ctx = .locking fd b cfg)
    (code : c.app.code f.ctx = conn clock (.locking fd b cfg))
    (executed : s.exec c i f out = some s') : Turns clock s s' i f := by
  have quiet : f.ctx.tells = false := by rw [at_]; rfl
  have copied := sound.cfg
  rw [at_] at copied
  rcases exec_mutexLock code executed with ⟨r, back⟩ | parked
  · refine ⟨_, by rw [back.fibs, Function.update_self], ?_,
      turned_back back quiet (Or.inr rfl) awake⟩
    refine .simple (by rw [back.mem]; exact copied) ?_ trivial rfl rfl awake
    intro n none_
    cases none_
  · exact yielded_turns sound parked quiet (by decide)

theorem counting_turns (sound : Sound clock s i f) (awake : f.state ≠ .waitCond)
    (pc : s.pc = .slice i) (at_ : f.ctx = .counting fd b cfg)
    (code : c.app.code f.ctx = conn clock (.counting fd b cfg))
    (slice : Runtime.Slice c s i f out s') : Turns clock s s' i f := by
  have copied := sound.cfg
  rw [at_] at copied
  rw [Runtime.slice_code slice code]
  refine ⟨_, Function.update_self .., ?_, .counted rfl rfl rfl pc awake⟩
  refine ⟨copied, ?_, trivial, fun _ => pc, ?_, fun fell => absurd fell awake⟩
  · intro n same
    rw [← Option.some.inj same]
    exact ⟨Nat.succ_pos _, Nat.le_refl _⟩
  · intro waits
    cases waits

theorem broadcasting_turns (sound : Sound clock s i f) (awake : f.state ≠ .waitCond)
    (at_ : f.ctx = .broadcasting fd b cfg mine)
    (code : c.app.code f.ctx = conn clock (.broadcasting fd b cfg mine))
    (executed : s.exec c i f out = some s') : Turns clock s s' i f := by
  have copied := sound.cfg
  have numbered := sound.mine
  rw [at_] at copied numbered
  rw [exec_condBroadcast code executed]
  refine ⟨_, Function.update_self .., .simple copied numbered trivial rfl rfl awake, ?_⟩
  refine .told rfl (by rw [at_]; rfl) awake ?_
  intro j other
  exact Function.update_of_ne other ..

/-- Only the handler with the last number goes to wait. -/
theorem testing_turns (sound : Sound clock s i f) (awake : f.state ≠ .waitCond)
    (pc : s.pc = .slice i) (at_ : f.ctx = .testing fd b cfg mine)
    (code : c.app.code f.ctx = conn clock (.testing fd b cfg mine))
    (slice : Runtime.Slice c s i f out s') : Turns clock s s' i f := by
  have copied := sound.cfg
  have numbered := sound.mine
  rw [at_] at copied numbered
  have bounds := numbered mine rfl
  rw [Runtime.slice_code slice code]
  refine ⟨{ f with ctx := afterTest fd b cfg mine s.mem.counter, place := .app },
    Function.update_self .., ?_, ?_⟩
  · by_cases again : s.mem.counter < mine + 1
    · rw [show afterTest fd b cfg mine s.mem.counter = _ from if_pos again]
      have last : mine = s.mem.counter := by omega
      refine ⟨copied, numbered, trivial, ?_, ?_, fun fell => absurd fell awake⟩
      · intro tells
        cases tells
      · exact fun _ _ => ⟨pc, congrArg some last⟩
    · rw [show afterTest fd b cfg mine s.mem.counter = _ from if_neg again]
      exact .simple copied numbered trivial rfl rfl awake
  · refine .plain rfl (by rw [at_]; rfl) (Or.inl ?_) fun fell => absurd fell awake
    rw [at_]
    change (afterTest fd b cfg mine s.mem.counter).mine = some mine
    unfold afterTest
    split <;> rfl

/-- It goes to sleep, with the number it has just found to be the last one. -/
theorem condWait_turns (sound : Sound clock s i f) (at_ : f.ctx = .waiting fd b cfg mine)
    (place : f.place = .app) :
    Turns clock s (s.fiberCondWait i f cv m (.timedwait ((clock mine).afterMs 50)) out) i f := by
  have quiet : f.ctx.tells = false := by rw [at_]; rfl
  have last := (sound.tested (by rw [at_]; rfl) place).2
  have mem : (s.fiberCondWait i f cv m (.timedwait ((clock mine).afterMs 50)) out).mem =
      s.mem := by
    unfold Runtime.fiberCondWait Runtime.releaseMutex
    dsimp only
    split <;> rfl
  have fibs : (s.fiberCondWait i f cv m (.timedwait ((clock mine).afterMs 50)) out).fibs =
      Function.update s.fibs i (some
        { f with
          waitcond := some cv, waitmutex := some m, timedOut := false
          deadline := (clock mine).afterMs 50, hasDeadline := true
          state := .waitCond, place := .cond, due := some ((clock mine).afterMs 50)
          waits := f.waits + 1, wake := .none }) := by
    unfold Runtime.fiberCondWait Runtime.releaseMutex
    dsimp only
    split <;> rfl
  refine ⟨_, by rw [fibs, Function.update_self], ⟨?_, ?_, ?_, ?_, ?_, ?_⟩, ?_⟩
  · rw [mem]
    exact sound.cfg
  · rw [mem]
    exact sound.mine
  · exact sound.replies
  · intro tells
    exact absurd (quiet.symm.trans tells) Bool.false_ne_true
  · intro _ app
    cases app
  · intro _
    refine ⟨?_, rfl, rfl, ?_⟩
    · change f.ctx.waits = true
      rw [at_]
      rfl
    · intro n same
      change f.ctx.mine = some n at same
      rw [at_] at same
      rw [← Option.some.inj same]
  · exact .plain mem quiet (Or.inl rfl) fun _ => last

theorem waiting_turns (sound : Sound clock s i f) (awake : f.state ≠ .waitCond)
    (at_ : f.ctx = .waiting fd b cfg mine)
    (code : c.app.code f.ctx = conn clock (.waiting fd b cfg mine))
    (executed : s.exec c i f out = some s') : Turns clock s s' i f := by
  have quiet : f.ctx.tells = false := by rw [at_]; rfl
  rcases exec_condWait code executed with ⟨place, rfl⟩ | ⟨expired, ⟨r, back⟩ | parked⟩
  · exact condWait_turns sound at_ place
  · have copied := sound.cfg
    have numbered := sound.mine
    rw [at_, ← back.mem] at copied numbered
    refine ⟨_, by rw [back.fibs, Function.update_self], ?_, ?_⟩
    · unfold afterWait
      split <;> exact .simple copied numbered trivial rfl rfl awake
    · refine turned_back back quiet (Or.inl ?_) awake
      rw [at_]
      unfold afterWait
      split <;> rfl
  · exact yielded_turns sound parked quiet (by simp)

theorem unlocking_turns (sound : Sound clock s i f) (awake : f.state ≠ .waitCond)
    (at_ : f.ctx = .unlocking fd b cfg mine)
    (code : c.app.code f.ctx = conn clock (.unlocking fd b cfg mine))
    (executed : s.exec c i f out = some s') : Turns clock s s' i f := by
  obtain ⟨r, back⟩ := exec_mutexUnlock code executed
  have copied := sound.cfg
  have numbered := sound.mine
  rw [at_, ← back.mem] at copied numbered
  refine ⟨_, by rw [back.fibs, Function.update_self], ?_,
    turned_back back (by rw [at_]; rfl) (Or.inl (by rw [at_]; rfl)) awake⟩
  exact .simple copied numbered ⟨b.drop 16, rfl⟩ rfl rfl awake

theorem writing_turns (sound : Sound clock s i f) (awake : f.state ≠ .waitCond)
    (at_ : f.ctx = .writing fd b cfg mine put)
    (code : c.app.code f.ctx = conn clock (.writing fd b cfg mine put))
    (slice : Runtime.Slice c s i f out s') : Turns clock s s' i f := by
  have quiet : f.ctx.tells = false := by rw [at_]; rfl
  obtain ⟨f', now, mem, up, same | ⟨r, same⟩⟩ := slice_io_answers code slice awake
  · exact kept_turns sound now mem same quiet (by rw [at_]; rfl) up
  · rcases afterWrite_plain fd b cfg mine put r with ⟨cfg, mine, tells, waits, replies⟩ | ⟨_, more⟩
    · rw [← same] at cfg mine tells waits replies
      refine ⟨f', now, .blank cfg mine replies tells waits up, ?_⟩
      exact .plain mem quiet (Or.inr mine) fun fell => absurd fell up
    · have copied := sound.cfg
      have numbered := sound.mine
      have replies := sound.replies
      rw [at_, ← mem] at copied numbered
      rw [at_] at replies
      rw [more] at same
      refine ⟨f', now, .simple ?_ ?_ ?_ ?_ ?_ up, ?_⟩
      · rw [same]
        exact copied
      · rw [same]
        exact numbered
      · rw [same]
        exact replies
      · rw [same]
        rfl
      · rw [same]
        rfl
      · exact .plain mem quiet (Or.inl (by rw [same, at_]; rfl)) fun fell => absurd fell up

end Places

/-- One slice of a handler, by the place its code is at. -/
theorem slice_turned (program : c.app = app clock) (formed : Formed c s)
    (sound : Sound clock s i f) (pc : s.pc = .slice i) (live : s.fibs i = some f)
    (taken : step c s (.carrier out) = some s') :
    ∃ f', s'.fibs i = some f' ∧ Sound clock s' i f' ∧ Turned s s' i f f' := by
  have slice := slice_of_live live pc taken
  have executed : s.exec c i f out = some s' := by
    change s.carrier c out = some s' at taken
    rw [Runtime.carrier, pc] at taken
    dsimp only at taken
    rw [live] at taken
    exact taken
  have runnable : f.Runnable := formed.runnable live pc
  have awake : f.state ≠ .waitCond := runnable.ne (by decide) (by decide)
  have code : ∀ ctx, f.ctx = ctx → c.app.code f.ctx = conn clock ctx := by
    intro ctx same
    rw [same, program]
    rfl
  cases at_ : f.ctx with
  | reading => exact reading_turns sound awake at_ (code _ at_) slice
  | configuring => exact configuring_turns awake at_ (code _ at_) slice
  | locking => exact locking_turns sound awake at_ (code _ at_) executed
  | counting => exact counting_turns sound awake pc at_ (code _ at_) slice
  | broadcasting => exact broadcasting_turns sound awake at_ (code _ at_) executed
  | testing => exact testing_turns sound awake pc at_ (code _ at_) slice
  | waiting => exact waiting_turns sound awake at_ (code _ at_) executed
  | unlocking => exact unlocking_turns sound awake at_ (code _ at_) executed
  | writing => exact writing_turns sound awake at_ (code _ at_) slice
  | closing =>
    rw [Runtime.slice_close slice (code _ at_)]
    refine ⟨_, Function.update_self .., .blank rfl rfl trivial rfl rfl awake, ?_⟩
    exact .plain rfl (by rw [at_]; rfl) (Or.inr rfl) fun fell => absurd fell awake
  | returned =>
    rw [Runtime.slice_ret slice (code _ at_)]
    have up : FState.done ≠ .waitCond := by decide
    exact kept_turns sound (Function.update_self ..) rfl rfl (by rw [at_]; rfl)
      (by rw [at_]; rfl) up

end Slices

section Steps

variable {c : Config Conn Shared} {config : Nat} {s s' : Runtime Conn Shared} {a : Act}

theorem init_counted (c : Config Conn Shared) (config : Nat) (detOn : Bool)
    (kinds : MutexId → MutexKind) : Counted clock c config (.init ⟨0, config⟩ detOn kinds) := by
  refine ⟨init_formed c _ detOn kinds, rfl, ?_, ?_, ?_⟩
  all_goals simp [Runtime.init]

/-- A handler that is not switched in keeps what it knows. -/
theorem Sound.aside {i : Nat} {f f' : Fiber Conn} (sound : Sound clock s i f)
    (moved : FiberMove c s i f a f') (still : ∀ out, a = .carrier out → s.pc ≠ .slice i)
    (mem : s'.mem.config = s.mem.config ∧ s.mem.counter ≤ s'.mem.counter)
    (pc : s.pc = .slice i → s'.pc = .slice i ∧ s'.mem = s.mem) : Sound clock s' i f' := by
  have same := moved.aside still
  refine ⟨?_, ?_, ?_, ?_, ?_, ?_⟩
  · rw [same.ctx, mem.1]
    exact sound.cfg
  · rw [same.ctx]
    intro n number
    have bounds := sound.mine n number
    omega
  · rw [same.ctx]
    exact sound.replies
  · rw [same.ctx]
    exact fun tells => (pc (sound.tells tells)).1
  · rw [same.ctx]
    intro waits app
    rcases same.place with kept | ⟨_, relock⟩
    · obtain ⟨inside, last⟩ := sound.tested waits (kept ▸ app)
      obtain ⟨inside', unchanged⟩ := pc inside
      exact ⟨inside', by rw [unchanged]; exact last⟩
    · rw [relock] at app
      cases app
  · intro fell
    cases moved with
    | keep => exact sound.asleep fell
    | event | offloaded | woken | expired => cases fell
    | switchIn _ runnable =>
      rw [Fiber.switchedIn_state] at fell
      rcases runnable with new | run
      · rw [new] at fell
        cases fell
      · rw [run] at fell
        cases fell
    | slice inside => exact absurd inside (still _ rfl)

/-- A fiber that starts has read nothing. -/
theorem sound_start {i : Nat} (program : c.app = app clock) (fd number : Nat) :
    Sound clock s i { Fiber.make (c.app.entry fd) number with slot := i } := by
  rw [program]
  exact .simple nofun nofun trivial rfl rfl nofun

/-- Where a fiber of the table comes from, in a step that is no slice of it. -/
theorem origin_of_aside (formed : Formed c s) (program : c.app = app clock)
    (taken : step c s a = some s') {i : Nat} {f' : Fiber Conn} (live : s'.fibs i = some f')
    (still : ∀ out, a = .carrier out → s.pc ≠ .slice i) :
    (∃ f, s.fibs i = some f ∧ FiberMove c s i f a f' ∧ f'.ctx = f.ctx ∧
      (f'.state = .waitCond → f.state = .waitCond)) ∨
    (f'.ctx.mine = none ∧ f'.state ≠ .waitCond ∧ Sound clock s' i f') := by
  rcases step_fiber taken live with ⟨f, was, moved⟩ | ⟨g, queued, rfl, _⟩
  · refine Or.inl ⟨f, was, moved, (moved.aside still).ctx, ?_⟩
    intro fell
    cases moved with
    | keep => exact fell
    | event | offloaded | woken | expired => cases fell
    | switchIn => rwa [Fiber.switchedIn_state] at fell
    | slice inside => exact absurd inside (still _ rfl)
  · obtain ⟨fd, number, rfl⟩ := formed.queue g queued
    refine Or.inr ⟨?_, nofun, sound_start program fd number⟩
    change (c.app.entry fd).mine = none
    rw [program]
    rfl

/-- Outside the slices the handlers only sleep, wake and start. -/
theorem background_counted (program : c.app = app clock) (inv : Counted clock c config s)
    (taken : step c s a = some s') (still : ∀ out i, a = .carrier out → s.pc ≠ .slice i) :
    Counted clock c config s' := by
  have mem : s'.mem = s.mem := (Runtime.step_background taken still).2.2
  have pc : ∀ i, s.pc = .slice i → s'.pc = .slice i ∧ s'.fibs = s.fibs := by
    intro i inside
    have other : ∀ out, a ≠ .carrier out := fun out carrier => still out i carrier inside
    obtain ⟨same, fibs, _⟩ := step_other taken other
    exact ⟨same.trans inside, fibs⟩
  have origin : ∀ i f', s'.fibs i = some f' → _ := fun i f' live =>
    origin_of_aside inv.formed program taken live fun out carrier => still out i carrier
  refine ⟨step_formed inv.formed taken, by rw [mem]; exact inv.config, ?_, ?_, ?_⟩
  · intro i f' live
    rcases origin i f' live with ⟨f, was, moved, _⟩ | ⟨_, _, started⟩
    · exact (inv.sound i f was).aside moved (fun out carrier => still out i carrier)
        (by rw [mem]; exact ⟨rfl, Nat.le_refl _⟩) fun inside => ⟨(pc i inside).1, mem⟩
    · exact started
  · intro i j f' g' n first second number number'
    rcases origin i f' first with ⟨f, was, _, ctx, _⟩ | ⟨none, _⟩
    · rcases origin j g' second with ⟨g, was', _, ctx', _⟩ | ⟨none, _⟩
      · exact inv.single i j f g n was was' (ctx ▸ number) (ctx' ▸ number')
      · rw [none] at number'
        cases number'
    · rw [none] at number
      cases number
  · intro i f' live fell
    rcases origin i f' live with ⟨f, was, _, ctx, slept⟩ | ⟨_, awake, _⟩
    · rw [ctx, mem]
      rcases inv.caught i f was (slept fell) with last | ⟨j, g, inside, there, tells⟩
      · exact Or.inl last
      · obtain ⟨inside', fibs⟩ := pc j inside
        exact Or.inr ⟨j, g, inside', by rw [fibs]; exact there, tells⟩
    · exact absurd fell awake

/-- The counter after a slice. -/
theorem Turned.mem_le {i : Nat} {f f' : Fiber Conn} (turned : Turned s s' i f f') :
    s'.mem.config = s.mem.config ∧ s.mem.counter ≤ s'.mem.counter := by
  cases turned with
  | plain mem | told mem => exact ⟨by rw [mem], by rw [mem]⟩
  | counted mem => exact ⟨by rw [mem], by rw [mem]; exact Nat.le_succ _⟩

/-- A slice of one handler, for all of them. -/
theorem slice_counted {out : Out} {i : Nat} {f : Fiber Conn} (program : c.app = app clock)
    (inv : Counted clock c config s) (pc : s.pc = .slice i) (live : s.fibs i = some f)
    (taken : step c s (.carrier out) = some s') : Counted clock c config s' := by
  obtain ⟨f', now, sound, turned⟩ :=
    slice_turned program inv.formed (inv.sound i f live) pc live taken
  have aside : ∀ j, j ≠ i → ∀ out', Act.carrier out = .carrier out' → s.pc ≠ .slice j :=
    fun j other _ _ => other_not_sliced pc other
  have origin : ∀ j g', j ≠ i → s'.fibs j = some g' → _ := fun j g' other there =>
    origin_of_aside inv.formed program taken there (aside j other)
  have numbers : ∀ n, f'.ctx.mine = some n → f.ctx.mine = some n ∨
      s.mem.counter < n := by
    intro n number
    cases turned with
    | plain _ _ mine =>
      rcases mine with same | none
      · exact Or.inl (same ▸ number)
      · rw [none] at number
        cases number
    | counted _ mine =>
      rw [mine, Option.some.injEq] at number
      exact Or.inr (by omega)
    | told _ mine => exact Or.inl (mine ▸ number)
  have alone : ∀ j g' n, j ≠ i → s'.fibs j = some g' → g'.ctx.mine = some n →
      f'.ctx.mine ≠ some n := by
    intro j g' n other there number own
    rcases origin j g' other there with ⟨g, was, _, ctx, _⟩ | ⟨none, _⟩
    · have number' : g.ctx.mine = some n := ctx ▸ number
      rcases numbers n own with before | fresh
      · exact other (inv.single j i g f n was live number' before)
      · have bound := (inv.sound j g was).mine n number'
        omega
    · rw [none] at number
      cases number
  refine ⟨step_formed inv.formed taken, turned.mem_le.1.trans inv.config, ?_, ?_, ?_⟩
  · intro j g' there
    by_cases here : j = i
    · subst here
      rw [now, Option.some.injEq] at there
      exact there ▸ sound
    · rcases origin j g' here there with ⟨g, was, moved, _⟩ | ⟨_, _, started⟩
      · exact (inv.sound j g was).aside moved (aside j here) turned.mem_le fun inside =>
          absurd inside (other_not_sliced pc here)
      · exact started
  · intro j k g' h' n first second number number'
    by_cases here : j = i
    · by_cases here' : k = i
      · rw [here, here']
      · rw [here, now, Option.some.injEq] at first
        exact absurd (first ▸ number) (alone k h' n here' second number')
    · by_cases here' : k = i
      · rw [here', now, Option.some.injEq] at second
        exact absurd (second ▸ number') (alone j g' n here first number)
      · rcases origin j g' here first with ⟨g, was, _, ctx, _⟩ | ⟨none, _⟩
        · rcases origin k h' here' second with ⟨h, was', _, ctx', _⟩ | ⟨none, _⟩
          · exact inv.single j k g h n was was' (ctx ▸ number) (ctx' ▸ number')
          · rw [none] at number'
            cases number'
        · rw [none] at number
          cases number
  · intro j g' there fell
    by_cases here : j = i
    · rw [here, now, Option.some.injEq] at there
      subst there
      cases turned with
      | plain mem _ _ last =>
        rw [mem]
        exact Or.inl (last fell)
      | counted _ _ _ _ awake => exact absurd fell awake
      | told _ _ awake => exact absurd fell awake
    · rcases origin j g' here there with ⟨g, was, _, ctx, slept⟩ | ⟨_, awake, _⟩
      · cases turned with
        | plain mem quiet =>
          rw [ctx, mem]
          rcases inv.caught j g was (slept fell) with last | ⟨k, h, inside, there', tells⟩
          · exact Or.inl last
          · rw [pc, Pc.slice.injEq] at inside
            rw [← inside, live, Option.some.injEq] at there'
            rw [← there', quiet] at tells
            cases tells
        | counted _ _ tells pc' => exact Or.inr ⟨i, f', pc', now, tells⟩
        | told _ _ _ woken =>
          have asleep := slept fell
          have on := ((inv.sound j g was).asleep asleep).2.1
          have inside := (inv.formed.slots j g was).2
          rw [woken j here, Runtime.wakeFibers_wakes inside was asleep on] at there
          rw [← Option.some.inj there] at fell
          cases fell
      · exact absurd fell awake

theorem step_counted (program : c.app = app clock) (inv : Counted clock c config s)
    (taken : step c s a = some s') : Counted clock c config s' := by
  rcases sliced_or_still taken with ⟨out, i, f, rfl, pc, live, _⟩ | still
  · exact slice_counted program inv pc live taken
  · exact background_counted program inv taken still

end Steps

/-- In every run of the server under the runtime, whatever real threads, peers and the
device do: whenever the scheduler runs, a handler that sleeps on the condition has the
last number given out and a deadline 50 milliseconds after its clock reading, so no wake
is lost and no two handlers sleep; numbers are given out once; and what a handler sends
starts with the configuration and its own number. -/
theorem barrier_server_loses_no_wake (c : Config Conn Shared) (program : c.app = app clock)
    (config : Nat) (detOn : Bool) (kinds : MutexId → MutexKind) (acts : List Act)
    (s : Runtime Conn Shared)
    (ran : runActs c (.init ⟨0, config⟩ detOn kinds) acts = some s) :
    (s.pc.idle = true → ∀ i f, s.fibs i = some f → f.state = .waitCond →
      f.ctx.mine = some s.mem.counter ∧ f.hasDeadline = true ∧
        f.deadline = (clock s.mem.counter).afterMs 50) ∧
    (∀ i j f g n, s.fibs i = some f → s.fibs j = some g → f.ctx.mine = some n →
      g.ctx.mine = some n → i = j) ∧
    ∀ i f fd b k n put, s.fibs i = some f → f.ctx = .writing fd b k n put →
      k = config ∧ 0 < n ∧ n ≤ s.mem.counter ∧
        ∃ rest, b = longBytes config ++ longBytes n ++ rest := by
  have inv : Counted clock c config s :=
    Machine.invariant_reached (fun _ _ _ inv taken => step_counted program inv taken)
      (init_counted c config detOn kinds) ran
  refine ⟨?_, inv.single, ?_⟩
  · intro idle i f live fell
    rcases inv.caught i f live fell with last | ⟨j, g, inside, _⟩
    · obtain ⟨_, _, timed, due⟩ := (inv.sound i f live).asleep fell
      exact ⟨last, timed, due _ last⟩
    · rw [inside] at idle
      cases idle
  · intro i f fd b k n put live at_
    have sound := inv.sound i f live
    have copied := sound.cfg
    have numbered := sound.mine
    have replies := sound.replies
    rw [at_] at copied numbered replies
    have same : k = config := (copied k rfl).trans inv.config
    subst same
    exact ⟨rfl, (numbered n rfl).1, (numbered n rfl).2, replies⟩

/-- The server under the runtime, with every clock reading at zero. -/
def atZero : Config Conn Shared :=
  { app := app fun _ => .zero
    gEnforce := false, gRealmutex := false, ssl := .absent, transform := id }

/-- One request arrives whole; its handler counts it and goes to sleep. -/
def oneRequest : List Act :=
  [.create 0, .arrive 0 (List.replicate req 7)] ++ List.replicate 8 (.carrier .quiet) ++
    .carrier { Out.quiet with io := .part req } :: List.replicate 7 (.carrier .quiet)

set_option maxRecDepth 8192 in
theorem oneRequest_loses_no_wake : ∃ s f,
    runActs atZero (.init ⟨0, 0xABCD⟩ false fun _ => .normal) oneRequest = some s ∧
    s.pc = .run 1 ∧ s.fibs 0 = some f ∧ f.state = .waitCond ∧ s.mem.counter = 1 ∧
    (s.pc.idle = true → ∀ i f, s.fibs i = some f → f.state = .waitCond →
      f.ctx.mine = some s.mem.counter ∧ f.hasDeadline = true ∧
        f.deadline = Timespec.zero.afterMs 50) ∧
    (∀ i j f g n, s.fibs i = some f → s.fibs j = some g → f.ctx.mine = some n →
      g.ctx.mine = some n → i = j) ∧
    ∀ i f fd b k n put, s.fibs i = some f → f.ctx = .writing fd b k n put →
      k = 0xABCD ∧ 0 < n ∧ n ≤ s.mem.counter ∧
        ∃ rest, b = longBytes 0xABCD ++ longBytes n ++ rest :=
  ⟨_, _, rfl, rfl, rfl, rfl, rfl, barrier_server_loses_no_wake atZero rfl 0xABCD false
    (fun _ => .normal) oneRequest _ rfl⟩

end BarrierServer

end TransparentOffload
