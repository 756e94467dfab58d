import TransparentOffload.HandlerLock

set_option autoImplicit false

/- Two-phase enforcement from the start: for a server that receives through `read`
alone, the fiber between its first `read` and its next `write` owns the handler
lock. So `hostile_server` loses no update. -/
namespace TransparentOffload

variable {σ γ : Type}

/-- Between the return of its first `read` of a request and its next call of `write`. -/
def Fiber.InHandler (f : Fiber σ) : Prop := 0 < f.got

/-- The fiber owns the handler lock if the enforcement works: it is in a handler,
or `read` has parked it on `EAGAIN`. -/
def Fiber.NeedsLock (c : Config σ γ) (f : Fiber σ) : Prop :=
  f.InHandler ∨ (f.place = .io ∧ ∃ n fd k, c.app.code f.ctx = .io (.read n) fd k)

theorem Fiber.NeedsLock.aside {c : Config σ γ} {f f' : Fiber σ} (needs : f'.NeedsLock c)
    (aside : f.Aside f') : f.NeedsLock c := by
  rcases needs with started | ⟨parked, code⟩
  · left
    unfold Fiber.InHandler at started ⊢
    rwa [aside.got] at started
  · right
    rw [aside.ctx] at code
    rcases aside.place with same | ⟨_, relock⟩
    · exact ⟨same ▸ parked, code⟩
    · rw [relock] at parked
      cases parked

/-- The thread function uses no socket calls but `read` and `write`. -/
def App.ReadsWrites (app : App σ γ) : Prop :=
  ∀ ctx op fd k, app.code ctx = .io op fd k → (∃ n, op = .read n) ∨ ∃ bs, op = .write bs

namespace Runtime

def LockOwned (c : Config σ γ) (s : Runtime σ γ) : Prop :=
  ∀ i f, s.fibs i = some f → f.NeedsLock c → s.hlockOwner = some i

theorem realWrite_got {k k' : Socket} {bs : Bytes} {dontwait : Bool} {out : IoOut} {r : IoRet}
    (answer : k.realWrite bs dontwait out = some (k', r)) : retGot r = 0 := by
  unfold Socket.realWrite at answer
  split at answer
  · split at answer
    · cases answer
      rfl
    · cases answer
  · split at answer
    · cases answer
      rfl
    · cases answer
  · cases answer
  · split at answer
    · cases answer
    · cases answer
      rfl

/-- The handler lock moves only between nobody and the fiber that is switched in. -/
theorem slice_owner {c : Config σ γ} {s s' : Runtime σ γ} {i : Nat} {f : Fiber σ} {out : Out}
    (taken : Slice c s i f out s') :
    s'.hlockOwner = s.hlockOwner ∨ s.hlockOwner = none ∨ s.hlockOwner = some f.slot := by
  obtain ⟨f', _, _, effect⟩ := slice_effect taken
  generalize s'.hlockOwner = owner at effect
  cases effect with
  | steady | write | done => exact Or.inl rfl
  | take takes =>
    right
    by_contra owned
    rw [not_or] at owned
    have busy : s.handlerBusy f.slot = true := by simp [handlerBusy, owned.1, owned.2]
    rw [takes.2.2] at busy
    cases busy
  | drop own => exact Or.inr (Or.inr own)

theorem slice_owner_other {c : Config σ γ} {s s' : Runtime σ γ} {i j : Nat} {f : Fiber σ}
    {out : Out} (taken : Slice c s i f out s') (other : j ≠ f.slot) :
    s'.hlockOwner = some j ↔ s.hlockOwner = some j := by
  obtain ⟨f', _, _, effect⟩ := slice_effect taken
  generalize s'.hlockOwner = owner at effect
  cases effect with
  | steady | write | done => exact Iff.rfl
  | take takes =>
    have idle := takes.2.2
    constructor
    · intro mine
      exact absurd (Option.some.inj mine).symm other
    · intro own
      simp [handlerBusy, own, other] at idle
  | drop own =>
    constructor
    · intro mine
      cases mine
    · intro held
      rw [own] at held
      exact absurd (Option.some.inj held).symm other

/-- Only the socket calls move the lock, count bytes, park in the retry loop or wait
for the lock. -/
theorem slice_not_io {c : Config σ γ} {s s' : Runtime σ γ} {i : Nat} {f : Fiber σ} {out : Out}
    (taken : Slice c s i f out s') (other : ∀ op fd k, c.app.code f.ctx ≠ .io op fd k) :
    s'.hlockOwner = s.hlockOwner ∧ ∃ f', s'.fibs i = some f' ∧ f'.got = f.got ∧
      f'.place ≠ .io ∧ f'.place ≠ .handlerLock := by
  cases taken with
  | lockBusy place code | ioReturn place code | ioPark place code => exact absurd code (other _ _ _)
  | plain | pollPass | pollRet | offloadRet | lockTaken | lockFailed | errQueue | close
  | condWake => exact ⟨rfl, _, Function.update_self .., rfl, nofun, nofun⟩
  | pollPark =>
    unfold yieldIoTo
    split <;> exact ⟨rfl, _, Function.update_self .., rfl, nofun, nofun⟩
  | offload => exact ⟨rfl, _, Function.update_self .., rfl, nofun, nofun⟩
  | lockWait _ _ parked =>
    refine ⟨rfl, _, Function.update_self .., rfl, ?_⟩
    rcases parked with ⟨_, rfl⟩ | ⟨_, rfl | ⟨expired, rfl⟩⟩ <;> exact ⟨nofun, nofun⟩
  | unlock =>
    unfold mutexUnlock releaseMutex
    dsimp only
    split <;> exact ⟨rfl, _, Function.update_self .., rfl, nofun, nofun⟩
  | condWait =>
    unfold fiberCondWait releaseMutex
    dsimp only
    split <;> exact ⟨rfl, _, Function.update_self .., rfl, nofun, nofun⟩
  | exit place =>
    refine ⟨rfl, _, Function.update_self .., rfl, ?_⟩
    change f.place ≠ .io ∧ f.place ≠ .handlerLock
    rw [place]
    exact ⟨nofun, nofun⟩

/-- A socket call that leaves bytes counted, or parks inside a `read`, has the lock. -/
theorem LockMove.owned {c : Config σ γ} {s : Runtime σ γ} {f : Fiber σ} {out : Out} {op : IoOp}
    {fd : Fd} {k : IoRet → σ} {owner : Option Nat} {sock : Socket} {r : IoRet}
    (serves : c.app.ReadsWrites) (active : s.enforcing c.gEnforce = true)
    (owned : f.NeedsLock c → s.hlockOwner = some f.slot)
    (place : f.place = .app ∨ f.place = .handlerLock ∨ f.place = .io)
    (code : c.app.code f.ctx = .io op fd k) (moved : LockMove c s f op owner)
    (real : op.real (s.ioSock f.place fd) out.io = some (sock, r))
    (reason : 0 < ioGot f op + retGot r ∨ ∃ n, op = .read n) : owner = some f.slot := by
  rcases serves _ _ _ _ code with ⟨n, rfl⟩ | ⟨bs, rfl⟩
  · cases moved with
    | take => rfl
    | keep reading again =>
      rcases place with app | waiting | parked
      · exact reading n rfl app active
      · exact absurd waiting again
      · exact owned (Or.inr ⟨parked, n, fd, k, code⟩)
    | drop bs writing => cases writing
  · have counted : 0 < ioGot f (.write bs) := by
      rcases reason with counted | ⟨n, read⟩
      · rw [realWrite_got real] at counted
        exact counted
      · cases read
    have later : f.place ≠ .app := by
      intro app
      have zero : ioGot f (.write bs) = 0 := if_pos ⟨app, rfl⟩
      omega
    cases moved with
    | take n read => cases read
    | keep =>
      have same : ioGot f (.write bs) = f.got := if_neg fun first => later first.1
      rw [same] at counted
      exact owned (Or.inl counted)
    | drop _ _ start => exact absurd start later

theorem slice_needs {c : Config σ γ} {s s' : Runtime σ γ} {i : Nat} {f f' : Fiber σ} {out : Out}
    (serves : c.app.ReadsWrites) (active : s.enforcing c.gEnforce = true)
    (owned : f.NeedsLock c → s.hlockOwner = some f.slot) (taken : Slice c s i f out s')
    (live' : s'.fibs i = some f') (needs : f'.NeedsLock c) : s'.hlockOwner = some f.slot := by
  by_cases socket : ∃ op fd k, c.app.code f.ctx = .io op fd k
  · obtain ⟨op, fd, k, code⟩ := socket
    rcases slice_io taken code with ⟨⟨⟨n, rfl⟩, _⟩, rfl⟩ |
      ⟨owner, sock, r, place, moved, real, ⟨rfl, rfl⟩ | ⟨ready, rfl⟩⟩
    · have now := Option.some.inj (live'.symm.trans (Function.update_self ..))
      subst now
      rcases needs with started | ⟨parked, _⟩
      · exact owned (Or.inl started)
      · cases parked
    · have now := Option.some.inj (live'.symm.trans (Function.update_self ..))
      subst now
      apply moved.owned serves active owned place code real
      rcases needs with started | ⟨_, n, fd', k', reads⟩
      · exact Or.inl started
      · have same := code.symm.trans reads
        cases same
        exact Or.inr ⟨n, rfl⟩
    · have now := Option.some.inj (live'.symm.trans (Function.update_self ..))
      subst now
      apply moved.owned serves active owned place code real
      rcases needs with started | ⟨parked, _⟩
      · exact Or.inl started
      · cases parked
  · have other : ∀ op fd k, c.app.code f.ctx ≠ .io op fd k :=
      fun op fd k code => socket ⟨op, fd, k, code⟩
    obtain ⟨owner, g, now, count, elsewhere, _⟩ := slice_not_io taken other
    rw [live', Option.some.injEq] at now
    subst now
    rw [owner]
    apply owned
    rcases needs with started | ⟨parked, _⟩
    · left
      unfold Fiber.InHandler at started ⊢
      rwa [count] at started
    · exact absurd parked elsewhere

theorem step_lockOwned {c : Config σ γ} {s s' : Runtime σ γ} {a : Act} (formed : Formed c s)
    (serves : c.app.ReadsWrites) (enforced : c.gEnforce = true) (owned : LockOwned c s)
    (taken : step c s a = some s') : LockOwned c s' := by
  have active : s.enforcing c.gEnforce = true := by simp [enforcing, enforced]
  intro i f' live' needs
  rcases step_fiber taken live' with ⟨f, live, moved⟩ | ⟨g, queued, rfl, _⟩
  · rcases sliced_or_aside taken live with ⟨out, rfl, pc, slice⟩ | still
    · have slot := (formed.slots i f live).1
      rw [← slot]
      apply slice_needs serves active _ slice live' needs
      rw [slot]
      exact owned i f live
    · have own := owned i f live (needs.aside (moved.aside still))
      rcases sliced_or_still taken with ⟨out, j, g, rfl, pc, there, slice⟩ | background
      · rcases slice_owner slice with same | none | taker
        · exact same.trans own
        · rw [none] at own
          cases own
        · rw [own, (formed.slots j g there).1, Option.some.injEq] at taker
          exact absurd (taker ▸ pc) (still out rfl)
      · rw [(step_background taken background).1]
        exact own
  · obtain ⟨arg, number, rfl⟩ := formed.queue g queued
    rcases needs with started | ⟨parked, _⟩
    · exact absurd started (Nat.lt_irrefl 0)
    · cases parked

end Runtime

end TransparentOffload
