import TransparentOffload.Carrier

set_option autoImplicit false

/- What one step of the carrier can do, said once: `Slice` for the fiber that is
switched in, `Round` for the scheduler. Every invariant is proved from these. -/
namespace TransparentOffload

variable {σ γ : Type}

/-- The mutex a call may take before it returns. -/
def Call.locks : Call σ γ → Option MutexId
  | .mutexLock m _ | .mutexTrylock m _ | .condWait _ m _ _ => some m
  | _ => none

/-- The places of the loop between two fibers. -/
def Pc.idle : Pc → Bool
  | .slice _ | .back _ => false
  | _ => true

/-- The places where the loop can just go on to its next round. -/
def Pc.looping : Pc → Bool
  | .intake | .epoll | .slice _ => false
  | _ => true

namespace Runtime

/-- The socket as the real call of a fiber in `place` finds it: every interposer
has made it non-blocking when it calls for the first time. -/
def ioSock (s : Runtime σ γ) (place : Place) (fd : Fd) : Socket :=
  if place = .io then s.socks fd else (s.socks fd).setnb

/-- The bytes counted as received by a fiber before the real call of `op`. -/
def ioGot (f : Fiber σ) (op : IoOp) : Nat :=
  if f.place = .app ∧ op.isWrite then 0 else f.got

/-- What a returning call adds to that count. -/
def retGot : IoRet → Nat
  | .data bs => bs.length
  | _ => 0

def retErrno (errno : Errno) : IoRet → Errno
  | .err e => e
  | _ => errno

/-- The next step of `f` tries to lock `m`. -/
def Attempts (c : Config σ γ) (f : Fiber σ) (m : MutexId) : Prop :=
  (f.place = .app ∧ ((∃ k, c.app.code f.ctx = .mutexLock m k) ∨
      ∃ k, c.app.code f.ctx = .mutexTrylock m k)) ∨
    (f.place = .lock ∧ ∃ k, c.app.code f.ctx = .mutexLock m k) ∨
    ∃ expired, f.place = .relock expired ∧ ∃ cv call k, c.app.code f.ctx = .condWait cv m call k

theorem Attempts.locks {c : Config σ γ} {f : Fiber σ} {m : MutexId} (attempts : Attempts c f m) :
    (c.app.code f.ctx).locks = some m := by
  rcases attempts with ⟨_, ⟨k, code⟩ | ⟨k, code⟩⟩ | ⟨_, k, code⟩ | ⟨_, _, _, _, _, code⟩
  all_goals
    rw [code]
    rfl

/-- The `read` of `f` stays in `hl_acquire` and makes no real call. -/
def WaitsForLock (c : Config σ γ) (s : Runtime σ γ) (f : Fiber σ) (op : IoOp) : Prop :=
  (∃ n, op = .read n) ∧ s.handlerBusy f.slot = true ∧
    ((f.place = .app ∧ s.enforcing c.gEnforce = true) ∨ f.place = .handlerLock)

/-- How a socket call moves the handler lock before its first real call. -/
inductive LockMove (c : Config σ γ) (s : Runtime σ γ) (f : Fiber σ) (op : IoOp) :
    Option Nat → Prop
  | keep (reading : ∀ n, op = .read n → f.place = .app → s.enforcing c.gEnforce = true →
        s.hlockOwner = some f.slot)
      (again : f.place ≠ .handlerLock)
      (writing : ∀ bs, op = .write bs → f.place = .app → s.enforcing c.gEnforce = true →
        s.hlockOwner ≠ some f.slot) :
      LockMove c s f op s.hlockOwner
  | take (n : Nat) (reading : op = .read n)
      (start : (f.place = .app ∧ s.enforcing c.gEnforce = true) ∨ f.place = .handlerLock)
      (free : s.hlockOwner = none ∨ s.hlockOwner = some f.slot) :
      LockMove c s f op (some f.slot)
  | drop (bs : Bytes) (writing : op = .write bs) (start : f.place = .app)
      (enforcing : s.enforcing c.gEnforce = true) (own : s.hlockOwner = some f.slot) :
      LockMove c s f op none

/-- The state in which the real call of a socket interposer has answered. -/
def ioDone (s : Runtime σ γ) (owner : Option Nat) (fd : Fd) (sock : Socket) (errno : Errno) :
    Runtime σ γ :=
  { s with hlockOwner := owner, socks := Function.update s.socks fd sock, errno := errno }

inductive Slice (c : Config σ γ) (s : Runtime σ γ) (i : Nat) (f : Fiber σ) (out : Out) :
    Runtime σ γ → Prop
  | plain {writes : List Nat} {next : γ → γ × σ} (place : f.place = .app)
      (code : c.app.code f.ctx = .code writes next) : Slice c s i f out (s.plain i f writes next)
  | lockBusy {n : Nat} {fd : Fd} {k : IoRet → σ}
      (place : (f.place = .app ∧ s.enforcing c.gEnforce = true) ∨ f.place = .handlerLock)
      (code : c.app.code f.ctx = .io (.read n) fd k) (busy : s.handlerBusy f.slot = true) :
      Slice c s i f out (s.yieldRun c.ssl i f .handlerLock)
  | ioReturn {op : IoOp} {fd : Fd} {k : IoRet → σ} {owner : Option Nat} {sock : Socket}
      {r : IoRet} (place : f.place = .app ∨ f.place = .handlerLock ∨ f.place = .io)
      (code : c.app.code f.ctx = .io op fd k) (moved : LockMove c s f op owner)
      (real : op.real (s.ioSock f.place fd) out.io = some (sock, r)) (ready : r ≠ .err eagain) :
      Slice c s i f out
        ((s.ioDone owner fd sock (retErrno s.errno r)).setFiber i
          { f with ctx := k r, place := .app, got := ioGot f op + retGot r })
  | ioPark {op : IoOp} {fd : Fd} {k : IoRet → σ} {owner : Option Nat} {sock : Socket}
      (place : f.place = .app ∨ f.place = .handlerLock ∨ f.place = .io)
      (code : c.app.code f.ctx = .io op fd k) (moved : LockMove c s f op owner)
      (real : op.real (s.ioSock f.place fd) out.io = some (sock, .err eagain)) :
      Slice c s i f out
        ((s.ioDone owner fd sock eagain).yieldIo c.ssl i { f with got := ioGot f op } .io fd
          op.event)
  | pollPass {fd : Fd} {events : Nat} {timeout : Int} {k : Int → Nat → σ}
      (place : f.place = .app) (code : c.app.code f.ctx = .poll fd events timeout k)
      (passes : pollEvents events = .empty ∨ timeout = 0) :
      Slice c s i f out (s.resumeApp i f (k out.poll.1 out.poll.2))
  | pollPark {fd : Fd} {events : Nat} {timeout : Int} {k : Int → Nat → σ}
      (place : f.place = .app) (code : c.app.code f.ctx = .poll fd events timeout k)
      (waits : pollEvents events ≠ .empty ∧ timeout ≠ 0) :
      Slice c s i f out (s.yieldIoTo c.ssl i f fd (pollEvents events) timeout out.real)
  | pollRet {fd : Fd} {events : Nat} {timeout : Int} {k : Int → Nat → σ}
      (place : f.place = .poll) (code : c.app.code f.ctx = .poll fd events timeout k) :
      Slice c s i f out (s.pollRet i f events timeout k)
  | offload {buf : Bytes} {k : Bytes → σ} (place : f.place = .app)
      (code : c.app.code f.ctx = .accelEncrypt buf k) :
      Slice c s i f out (s.accelEncrypt c i f buf)
  | offloadRet {id : Nat} {buf : Bytes} {k : Bytes → σ} (place : f.place = .offload id)
      (code : c.app.code f.ctx = .accelEncrypt buf k) :
      Slice c s i f out (s.resumeApp i f (k (s.accel.requests id).buf))
  | lockTaken {m : MutexId} {x : Mutex} {ctx : σ}
      (attempts : Attempts c f m)
      (attempt : (s.mutexes m).lock .carrier = some (x, true)) :
      Slice c s i f out (((s.setMutex m x).setHeld m i (s.held m i + 1)).resumeApp i f ctx)
  | lockWait {m : MutexId} {place : Place} (attempts : Attempts c f m)
      (held : ((s.mutexes m).trylock .carrier).2 = false)
      (parked : (f.place = .app ∧ place = .lock) ∨ f.place = place ∧
        (place = .lock ∨ ∃ expired, place = .relock expired)) :
      Slice c s i f out (s.yieldRun c.ssl i f place)
  | lockFailed {m : MutexId} {ctx : σ} (attempts : Attempts c f m)
      (held : ((s.mutexes m).trylock .carrier).2 = false) :
      Slice c s i f out (s.resumeApp i f ctx)
  | unlock {m : MutexId} {k : Bool → σ} (place : f.place = .app)
      (code : c.app.code f.ctx = .mutexUnlock m k) : Slice c s i f out (s.mutexUnlock i f m k)
  | condWait {cv : CondId} {m : MutexId} {call : CondCall} {k : Nat → σ} (place : f.place = .app)
      (code : c.app.code f.ctx = .condWait cv m call k) :
      Slice c s i f out (s.fiberCondWait i f cv m call out)
  | condWake {cv : CondId} {ctx : σ} (place : f.place = .app)
      (code : c.app.code f.ctx = .condSignal cv ctx ∨ c.app.code f.ctx = .condBroadcast cv ctx) :
      Slice c s i f out (s.condWake i f cv ctx)
  | errQueue {q : ErrQueue} {ctx : σ} (place : f.place = .app)
      (kept : (∃ e k, c.app.code f.ctx = .errPut e k ∧ q = s.errq.put ⟨e.packed, f.slot⟩) ∨
        (∃ k, c.app.code f.ctx = .errGet k ∧ q = s.errq.get.2) ∨
        (∃ k, c.app.code f.ctx = .errClear k ∧ q = [])) :
      Slice c s i f out ({ s with errq := q }.resumeApp i f ctx)
  | close {fd : Fd} {k : σ} (place : f.place = .app) (code : c.app.code f.ctx = .close fd k) :
      Slice c s i f out ({ s with epoll := s.epoll.ctlDel fd }.resumeApp i f k)
  | exit (place : f.place = .app) (code : c.app.code f.ctx = .ret) :
      Slice c s i f out (s.exit i f)

@[simp] theorem setnb_socks_self (s : Runtime σ γ) (fd : Fd) :
    (s.setnb fd).socks fd = (s.socks fd).setnb := Function.update_self ..

/-- The retry loop, for a base state that differs from `s` in the handler lock
and in the descriptor's own socket. -/
theorem ioLoop_slice {c : Config σ γ} {s s' : Runtime σ γ} {i : Nat} {f : Fiber σ}
    {op : IoOp} {fd : Fd} {k : IoRet → σ} {out : Out} (base : Runtime σ γ)
    (owner : Option Nat) (place : f.place = .app ∨ f.place = .handlerLock ∨ f.place = .io)
    (code : c.app.code f.ctx = .io op fd k) (moved : LockMove c s f op owner)
    (sock : base.socks fd = s.ioSock f.place fd)
    (shape : ∀ x e, { base.setSock fd x with errno := e } = s.ioDone owner fd x e)
    (errno : base.errno = s.errno)
    (taken : base.ioLoop c.ssl i { f with got := ioGot f op } op fd k out.io = some s') :
    Slice c s i f out s' := by
  unfold ioLoop at taken
  rw [sock] at taken
  have plainShape : ∀ x, base.setSock fd x = s.ioDone owner fd x s.errno := by
    intro x
    rw [← shape x s.errno, ← errno]
    rfl
  split at taken
  · cases taken
  · rename_i x e real
    rw [shape] at taken
    split at taken
    · rename_i wouldBlock
      subst wouldBlock
      rw [Option.some.injEq] at taken
      exact taken ▸ .ioPark place code moved real
    · rename_i failed
      rw [Option.some.injEq] at taken
      subst taken
      have ready : IoRet.err e ≠ .err eagain := by
        intro same
        exact failed (IoRet.err.inj same)
      exact .ioReturn place code moved real ready
  · rename_i x bs real
    rw [plainShape, Option.some.injEq] at taken
    exact taken ▸ .ioReturn place code moved real (by simp)
  · rename_i x n real
    rw [plainShape, Option.some.injEq] at taken
    exact taken ▸ .ioReturn place code moved real (by simp)

/-- A first call: the descriptor is made non-blocking, the lock has moved. -/
theorem ioFirst_slice {c : Config σ γ} {s s' : Runtime σ γ} {i : Nat} {f : Fiber σ}
    {op : IoOp} {fd : Fd} {k : IoRet → σ} {out : Out} {owner : Option Nat}
    (place : f.place = .app ∨ f.place = .handlerLock)
    (code : c.app.code f.ctx = .io op fd k) (moved : LockMove c s f op owner)
    (taken : (setnb { s with hlockOwner := owner } fd).ioLoop c.ssl i
      { f with got := ioGot f op } op fd k out.io = some s') :
    Slice c s i f out s' := by
  have notIo : f.place ≠ .io := by
    rcases place with app | waiting
    · simp [app]
    · simp [waiting]
  refine ioLoop_slice (setnb { s with hlockOwner := owner } fd) owner
    (place.imp_right Or.inl) code moved ?_ ?_ rfl taken
  · simp [ioSock, notIo]
  · intro x e
    simp [setnb, setSock, ioDone]

theorem hlAcquire_slice {c : Config σ γ} {s s' : Runtime σ γ} {i : Nat} {f : Fiber σ}
    {n : Nat} {fd : Fd} {k : IoRet → σ} {out : Out}
    (place : (f.place = .app ∧ s.enforcing c.gEnforce = true) ∨ f.place = .handlerLock)
    (code : c.app.code f.ctx = .io (.read n) fd k)
    (taken : s.hlAcquire c.ssl i f n fd k out.io = some s') : Slice c s i f out s' := by
  unfold hlAcquire at taken
  split at taken
  · rename_i busy
    rw [Option.some.injEq] at taken
    exact taken ▸ .lockBusy place code busy
  · rename_i idle
    have free : s.hlockOwner = none ∨ s.hlockOwner = some f.slot := by
      by_contra owned
      rw [not_or] at owned
      exact idle (by simp [handlerBusy, owned.1, owned.2])
    have count : ioGot f (.read n) = f.got := by simp [ioGot, IoOp.isWrite]
    apply ioFirst_slice (place.imp_left And.left) code (.take n rfl place free)
    rw [count]
    exact taken

theorem io_slice {c : Config σ γ} {s s' : Runtime σ γ} {i : Nat} {f : Fiber σ}
    {op : IoOp} {fd : Fd} {k : IoRet → σ} {out : Out} (place : f.place = .app)
    (code : c.app.code f.ctx = .io op fd k) (taken : s.io c i f op fd k out.io = some s') :
    Slice c s i f out s' := by
  have notWaiting : f.place ≠ .handlerLock := by simp [place]
  cases op with
  | read n =>
    change s.read c i f n fd k out.io = some s' at taken
    unfold read at taken
    have count : ioGot f (.read n) = f.got := by simp [ioGot, IoOp.isWrite]
    split at taken
    · rename_i start
      rw [Bool.and_eq_true] at start
      exact hlAcquire_slice (Or.inl ⟨place, start.1⟩) code taken
    · rename_i skip
      have reading : ∀ m, IoOp.read n = .read m → f.place = .app →
          s.enforcing c.gEnforce = true → s.hlockOwner = some f.slot := by
        intro m _ _ enforcing
        by_contra other
        exact skip (by simp [enforcing, other])
      apply ioFirst_slice (Or.inl place) code (.keep reading notWaiting (by simp))
      rw [count]
      exact taken
  | write bs =>
    change s.write c i f bs fd k out.io = some s' at taken
    unfold write at taken
    have count : ioGot f (.write bs) = 0 := by simp [ioGot, IoOp.isWrite, place]
    by_cases start : s.enforcing c.gEnforce = true ∧ s.hlockOwner = some f.slot
    · apply ioFirst_slice (Or.inl place) code (.drop bs rfl place start.1 start.2)
      rw [count]
      simpa only [hlRelease, start.1, start.2, ↓reduceIte] using taken
    · have same : (if s.enforcing c.gEnforce then s.hlRelease f.slot else s) = s := by
        unfold hlRelease
        split
        · rename_i enforcing
          exact if_neg fun own => start ⟨enforcing, own⟩
        · rfl
      rw [same] at taken
      have writing : ∀ bs', IoOp.write bs = .write bs' → f.place = .app →
          s.enforcing c.gEnforce = true → s.hlockOwner ≠ some f.slot :=
        fun _ _ _ enforcing own => start ⟨enforcing, own⟩
      apply ioFirst_slice (Or.inl place) code (.keep (by simp) notWaiting writing)
      rw [count]
      exact taken
  | recv n dontwait | recvfrom n dontwait | send bs dontwait | sendto bs dontwait =>
    apply ioFirst_slice (Or.inl place) code (.keep (by simp) notWaiting (by simp))
    rw [show ioGot f _ = f.got by simp [ioGot, IoOp.isWrite]]
    exact taken

theorem mutexLockLoop_slice {c : Config σ γ} {s : Runtime σ γ} {i : Nat} {f : Fiber σ}
    {m : MutexId} {place : Place} {ctx : σ} {out : Out}
    (attempts : Attempts c f m)
    (parked : (f.place = .app ∧ place = .lock) ∨ f.place = place ∧
      (place = .lock ∨ ∃ expired, place = .relock expired)) :
    Slice c s i f out (s.mutexLockLoop c.ssl i f m place ctx) := by
  unfold mutexLockLoop
  dsimp only
  split
  · rename_i taken
    refine .lockTaken attempts ?_
    rw [Mutex.lock, if_pos taken, ← taken]
  · rename_i failed
    exact .lockWait attempts (by simpa using failed) parked

theorem mutexLock_slice {c : Config σ γ} {s s' : Runtime σ γ} {i : Nat} {f : Fiber σ}
    {m : MutexId} {place : Place} {k : Nat → σ} {out : Out}
    (attempts : Attempts c f m)
    (parked : (f.place = .app ∧ place = .lock) ∨ f.place = place ∧
      (place = .lock ∨ ∃ expired, place = .relock expired))
    (taken : s.mutexLock c i f m place k = some s') : Slice c s i f out s' := by
  unfold mutexLock at taken
  split at taken
  · split at taken
    · cases taken
    · rename_i x attempt
      rw [Option.some.injEq] at taken
      exact taken ▸ .lockTaken attempts attempt
    · rename_i x failed
      rw [Option.some.injEq] at taken
      exact taken ▸ .lockFailed attempts (Mutex.lock_failed failed)
  · rw [Option.some.injEq] at taken
    exact taken ▸ mutexLockLoop_slice attempts parked

/-- Every step of a switched-in fiber is one of the slices. -/
theorem exec_slice {c : Config σ γ} {s s' : Runtime σ γ} {i : Nat} {f : Fiber σ} {out : Out}
    (taken : s.exec c i f out = some s') : Slice c s i f out s' := by
  unfold exec at taken
  split at taken
  case h_1 place code => exact Option.some.inj taken ▸ .plain place code
  case h_2 place code => exact io_slice place code taken
  case h_3 place code => exact hlAcquire_slice (Or.inr place) code taken
  case h_4 op fd k place code =>
    have sock : s.socks fd = s.ioSock f.place fd := by simp [ioSock, place]
    have count : ioGot f op = f.got := by simp [ioGot, place]
    refine ioLoop_slice s s.hlockOwner (Or.inr (Or.inr place)) code
      (.keep ?_ ?_ ?_) sock (fun _ _ => rfl) rfl ?_
    · simp [place]
    · simp [place]
    · simp [place]
    · rw [count]
      exact taken
  case h_5 fd events timeout k place code =>
    rw [Option.some.injEq] at taken
    subst taken
    unfold poll
    split
    · rename_i passes
      exact .pollPass place code passes
    · rename_i waits
      exact .pollPark place code (not_or.mp waits)
  case h_6 place code => exact Option.some.inj taken ▸ .pollRet place code
  case h_7 place code => exact Option.some.inj taken ▸ .offload place code
  case h_8 place code => exact Option.some.inj taken ▸ .offloadRet place code
  case h_9 m k place code =>
    exact mutexLock_slice (Or.inl ⟨place, Or.inl ⟨k, code⟩⟩) (Or.inl ⟨place, rfl⟩) taken
  case h_10 m k place code =>
    exact Option.some.inj taken ▸
      mutexLockLoop_slice (Or.inr (Or.inl ⟨place, k, code⟩)) (Or.inr ⟨place, Or.inl rfl⟩)
  case h_11 m k place code =>
    rw [Option.some.injEq] at taken
    subst taken
    unfold mutexTrylock
    dsimp only
    have attempts : Attempts c f m := Or.inl ⟨place, Or.inr ⟨k, code⟩⟩
    split
    · rename_i taken
      refine .lockTaken attempts ?_
      rw [Mutex.lock, if_pos taken, ← taken]
    · rename_i failed
      exact .lockFailed attempts (by simpa using failed)
  case h_12 place code => exact Option.some.inj taken ▸ .unlock place code
  case h_13 place code => exact Option.some.inj taken ▸ .condWait place code
  case h_14 expired cv m call k place code =>
    exact mutexLock_slice (Or.inr (Or.inr ⟨expired, place, cv, call, k, code⟩))
      (Or.inr ⟨place, Or.inr ⟨expired, rfl⟩⟩) taken
  case h_15 place code => exact Option.some.inj taken ▸ .condWake place (Or.inl code)
  case h_16 place code => exact Option.some.inj taken ▸ .condWake place (Or.inr code)
  case h_17 e k place code =>
    exact Option.some.inj taken ▸ .errQueue place (Or.inl ⟨e, k, code, rfl⟩)
  case h_18 k place code =>
    exact Option.some.inj taken ▸ .errQueue place (Or.inr (Or.inl ⟨k, code, rfl⟩))
  case h_19 k place code =>
    exact Option.some.inj taken ▸ .errQueue place (Or.inr (Or.inr ⟨k, code, rfl⟩))
  case h_20 place code => exact Option.some.inj taken ▸ .close place code
  case h_21 place code => exact Option.some.inj taken ▸ .exit place code
  case h_22 => cases taken

section OneCall

variable {c : Config σ γ} {s s' : Runtime σ γ} {i : Nat} {f : Fiber σ} {out : Out}

/-- What a slice can do, by the call its fiber is at. -/
def ByCall (c : Config σ γ) (s : Runtime σ γ) (i : Nat) (f : Fiber σ) (out : Out)
    (s' : Runtime σ γ) : Call σ γ → Prop
  | .code writes next => s' = s.plain i f writes next
  | .io op fd k =>
    (WaitsForLock c s f op ∧ s' = s.yieldRun c.ssl i f .handlerLock) ∨
    ∃ owner sock r, (f.place = .app ∨ f.place = .handlerLock ∨ f.place = .io) ∧
      LockMove c s f op owner ∧ op.real (s.ioSock f.place fd) out.io = some (sock, r) ∧
      ((r = .err eagain ∧ s' = (s.ioDone owner fd sock eagain).yieldIo c.ssl i
          { f with got := ioGot f op } .io fd op.event) ∨
        r ≠ .err eagain ∧ s' = (s.ioDone owner fd sock (retErrno s.errno r)).setFiber i
          { f with ctx := k r, place := .app, got := ioGot f op + retGot r })
  | .accelEncrypt buf k =>
    (f.place = .app ∧ s' = s.accelEncrypt c i f buf) ∨
      ∃ id, f.place = .offload id ∧ s' = s.resumeApp i f (k (s.accel.requests id).buf)
  | .close fd k => s' = { s with epoll := s.epoll.ctlDel fd }.resumeApp i f k
  | .ret => s' = s.exit i f
  | _ => True

theorem ByCall.of_locks {m : MutexId} {call : Call σ γ} (locks : call.locks = some m) :
    ByCall c s i f out s' call := by
  cases call
  case mutexLock | mutexTrylock | condWait => trivial
  all_goals cases locks

theorem slice_byCall (taken : Slice c s i f out s') :
    ByCall c s i f out s' (c.app.code f.ctx) := by
  cases taken with
  | plain place code =>
    rw [code]
    rfl
  | lockBusy place code busy =>
    rw [code]
    exact Or.inl ⟨⟨⟨_, rfl⟩, busy, place⟩, rfl⟩
  | ioReturn place code moved real ready =>
    rw [code]
    exact Or.inr ⟨_, _, _, place, moved, real, Or.inr ⟨ready, rfl⟩⟩
  | ioPark place code moved real =>
    rw [code]
    exact Or.inr ⟨_, _, _, place, moved, real, Or.inl ⟨rfl, rfl⟩⟩
  | offload place code =>
    rw [code]
    exact Or.inl ⟨place, rfl⟩
  | offloadRet place code =>
    rw [code]
    exact Or.inr ⟨_, place, rfl⟩
  | close place code =>
    rw [code]
    rfl
  | exit place code =>
    rw [code]
    rfl
  | lockTaken attempts | lockWait attempts | lockFailed attempts =>
    exact ByCall.of_locks attempts.locks
  | condWake place code =>
    rcases code with code | code
    all_goals
      rw [code]
      trivial
  | errQueue place kept =>
    rcases kept with ⟨_, _, code, _⟩ | ⟨_, code, _⟩ | ⟨_, code, _⟩
    all_goals
      rw [code]
      trivial
  | pollPass place code | pollPark place code | pollRet place code | unlock place code
  | condWait place code =>
    rw [code]
    trivial

/-- What a slice can do while its fiber is at plain code. -/
theorem slice_code {writes : List Nat} {next : γ → γ × σ} (taken : Slice c s i f out s')
    (at_ : c.app.code f.ctx = .code writes next) : s' = s.plain i f writes next := by
  have byCall := slice_byCall taken
  rw [at_] at byCall
  exact byCall

/-- What it can do at a socket call: wait for the handler lock, park on `EAGAIN`
or return the kernel's answer. -/
theorem slice_io {op : IoOp} {fd : Fd} {k : IoRet → σ} (taken : Slice c s i f out s')
    (at_ : c.app.code f.ctx = .io op fd k) :
    (WaitsForLock c s f op ∧ s' = s.yieldRun c.ssl i f .handlerLock) ∨
    ∃ owner sock r, (f.place = .app ∨ f.place = .handlerLock ∨ f.place = .io) ∧
      LockMove c s f op owner ∧ op.real (s.ioSock f.place fd) out.io = some (sock, r) ∧
      ((r = .err eagain ∧ s' = (s.ioDone owner fd sock eagain).yieldIo c.ssl i
          { f with got := ioGot f op } .io fd op.event) ∨
        r ≠ .err eagain ∧ s' = (s.ioDone owner fd sock (retErrno s.errno r)).setFiber i
          { f with ctx := k r, place := .app, got := ioGot f op + retGot r }) := by
  have byCall := slice_byCall taken
  rw [at_] at byCall
  exact byCall

theorem slice_accel {buf : Bytes} {k : Bytes → σ} (taken : Slice c s i f out s')
    (at_ : c.app.code f.ctx = .accelEncrypt buf k) :
    (f.place = .app ∧ s' = s.accelEncrypt c i f buf) ∨
      ∃ id, f.place = .offload id ∧ s' = s.resumeApp i f (k (s.accel.requests id).buf) := by
  have byCall := slice_byCall taken
  rw [at_] at byCall
  exact byCall

theorem slice_close {fd : Fd} {k : σ} (taken : Slice c s i f out s')
    (at_ : c.app.code f.ctx = .close fd k) :
    s' = { s with epoll := s.epoll.ctlDel fd }.resumeApp i f k := by
  have byCall := slice_byCall taken
  rw [at_] at byCall
  exact byCall

theorem slice_ret (taken : Slice c s i f out s') (at_ : c.app.code f.ctx = .ret) :
    s' = s.exit i f := by
  have byCall := slice_byCall taken
  rw [at_] at byCall
  exact byCall

end OneCall

/-- One step of the scheduler. -/
inductive Round (c : Config σ γ) (s : Runtime σ γ) (out : Out) : Runtime σ γ → Prop
  | intake (pc : s.pc = .intake) : Round c s out s.intake
  | epoll (pc : s.pc = .epoll) : Round c s out (s.epollWait out.events)
  | goOn {pc : Pc} (looping : s.pc.looping = true) (next : pc.idle = true) :
      Round c s out { s with pc := pc }
  | offloadDone {i : Nat} {f : Fiber σ} (pc : s.pc = .offloads i) (live : s.fibs i = some f)
      (waiting : f.state = .waitOff) (done : out.done = true) :
      Round c s out ({ s with pc := .offloads (i + 1) }.offloadDone i f)
  | drain (pc : s.pc = .drain) (more : s.pend.tail < s.pend.head) :
      Round c s out ({ s with pend := s.pend.advance }.wakeFibers (s.pend.front pendN))
  | expire {i : Nat} {f : Fiber σ} {now : Option Timespec} (pc : s.pc = .deadlines i now)
      (live : s.fibs i = some f) (waiting : f.state = .waitCond ∨ f.state = .waitIo)
      (timed : f.hasDeadline = true) (past : f.deadline.reached (now.getD out.real) = true) :
      Round c s out
        ({ s with pc := .deadlines (i + 1) (some (now.getD out.real)) }.expire i f)
  | switchIn {i : Nat} {f : Fiber σ} (pc : s.pc = .run i) (live : s.fibs i = some f)
      (runnable : f.state = .new ∨ f.state = .run) : Round c s out (s.switchIn c i f)
  | slice {i : Nat} {f : Fiber σ} {s' : Runtime σ γ} (pc : s.pc = .slice i)
      (live : s.fibs i = some f) (taken : Slice c s i f out s') : Round c s out s'
  | free {i : Nat} {f : Fiber σ} (pc : s.pc = .back i) (live : s.fibs i = some f)
      (done : f.state = .done) :
      Round c s out
        { s with
          pc := .run (i + 1), fibs := Function.update s.fibs i none
          fibsStores := s.fibsStores ++ [i], freed := s.freed ++ [f.number] }

/-- Every step of the carrier is one of the rounds. -/
theorem carrier_round {c : Config σ γ} {s s' : Runtime σ γ} {out : Out}
    (taken : s.carrier c out = some s') : Round c s out s' := by
  unfold carrier at taken
  split at taken
  case h_1 pc => exact Option.some.inj taken ▸ .intake pc
  case h_2 pc => exact Option.some.inj taken ▸ .epoll pc
  case h_3 i pc =>
    have looping : s.pc.looping = true := by rw [pc]; rfl
    rw [Option.some.injEq] at taken
    subst taken
    unfold offloadStep
    split
    · dsimp only
      split
      · exact .goOn looping rfl
      · rename_i f live
        split
        · rename_i found
          exact .offloadDone pc live found.1 found.2
        · exact .goOn looping rfl
    · exact .goOn looping rfl
  case h_4 pc =>
    have looping : s.pc.looping = true := by rw [pc]; rfl
    rw [Option.some.injEq] at taken
    subst taken
    unfold drainStep
    split
    · rename_i more
      exact .drain pc more
    · exact .goOn looping rfl
  case h_5 i now pc =>
    have looping : s.pc.looping = true := by rw [pc]; rfl
    rw [Option.some.injEq] at taken
    subst taken
    unfold deadlineStep
    split
    · split
      · exact .goOn looping rfl
      · rename_i f live
        split
        · rename_i armed
          dsimp only
          split
          · rename_i past
            exact .expire pc live armed.1 armed.2 past
          · exact .goOn looping rfl
        · exact .goOn looping rfl
    · exact .goOn looping rfl
  case h_6 i pc =>
    have looping : s.pc.looping = true := by rw [pc]; rfl
    rw [Option.some.injEq] at taken
    subst taken
    unfold runStep
    split
    · split
      · exact .goOn looping rfl
      · rename_i f live
        split
        · rename_i runnable
          exact .switchIn pc live runnable
        · exact .goOn looping rfl
    · exact .goOn looping rfl
  case h_7 i pc =>
    split at taken
    · cases taken
    · rename_i f live
      exact .slice pc live (exec_slice taken)
  case h_8 i pc =>
    have looping : s.pc.looping = true := by rw [pc]; rfl
    rw [Option.some.injEq] at taken
    subst taken
    unfold reap
    dsimp only
    split
    · exact .goOn looping rfl
    · rename_i f live
      split
      · rename_i done
        exact .free pc live done
      · exact .goOn looping rfl

/-- The entries of `fibs` after the intake loop. -/
def takenIn (s : Runtime σ γ) (q : List (Fiber σ)) : Nat → Option (Fiber σ) := fun j =>
  if s.nfib ≤ j ∧ j < s.nfib + q.length then (q[j - s.nfib]?).map fun g => { g with slot := j }
  else s.fibs j

theorem takenIn_inside {s : Runtime σ γ} {q : List (Fiber σ)} {j : Nat} (low : s.nfib ≤ j)
    (high : j < s.nfib + q.length) :
    s.takenIn q j = (q[j - s.nfib]?).map fun g => { g with slot := j } :=
  if_pos ⟨low, high⟩

theorem takenIn_outside {s : Runtime σ γ} {q : List (Fiber σ)} {j : Nat}
    (outside : j < s.nfib ∨ s.nfib + q.length ≤ j) : s.takenIn q j = s.fibs j :=
  if_neg (by omega)

theorem takenIn_intakeOne (s : Runtime σ γ) (g : Fiber σ) (rest : List (Fiber σ)) :
    (s.intakeOne g).takenIn rest = s.takenIn (g :: rest) := by
  have nfib : (s.intakeOne g).nfib = s.nfib + 1 := rfl
  have length : (g :: rest).length = rest.length + 1 := rfl
  funext j
  by_cases first : j = s.nfib
  · subst first
    rw [takenIn_outside (by omega), takenIn_inside (Nat.le_refl _) (by simp)]
    simp [intakeOne]
  · have other : (s.intakeOne g).fibs j = s.fibs j := Function.update_of_ne first ..
    by_cases inside : s.nfib ≤ j ∧ j < s.nfib + (g :: rest).length
    · rw [takenIn_inside inside.1 inside.2]
      have shift : j - s.nfib = (j - (s.intakeOne g).nfib) + 1 := by omega
      rw [takenIn_inside (by omega) (by omega), shift, List.getElem?_cons_succ]
    · rw [takenIn_outside (by omega)]
      rw [takenIn_outside (by omega), other]

/-- The intake loop appends the queue to the table and touches nothing else. -/
theorem foldl_intakeOne (s : Runtime σ γ) (q : List (Fiber σ)) :
    q.foldl intakeOne s =
      { s with
        fibs := s.takenIn q, nfib := s.nfib + q.length
        fibsStores := s.fibsStores ++ List.range' s.nfib q.length } := by
  induction q generalizing s with
  | nil =>
    have same : s.takenIn [] = s.fibs := by
      funext j
      apply takenIn_outside
      simp only [List.length_nil]
      omega
    simp [same]
  | cons g rest ih =>
    rw [List.foldl_cons, ih, takenIn_intakeOne]
    simp [intakeOne, List.range'_succ, Nat.add_assoc, Nat.add_comm 1]

theorem intake_eq (s : Runtime σ γ) :
    s.intake =
      { s with
        fibs := s.takenIn s.newq, nfib := s.nfib + s.newq.length, newq := []
        fibsStores := s.fibsStores ++ List.range' s.nfib s.newq.length, pc := .epoll } := by
  rw [intake, foldl_intakeOne]

/-- An entry of the table after an intake is an old one or came from the queue. -/
theorem takenIn_some {s : Runtime σ γ} {q : List (Fiber σ)} {j : Nat} {f : Fiber σ}
    (live : s.takenIn q j = some f) :
    (s.fibs j = some f ∧ ¬ (s.nfib ≤ j ∧ j < s.nfib + q.length)) ∨
      ∃ k g, q[k]? = some g ∧ j = s.nfib + k ∧ f = { g with slot := j } := by
  unfold takenIn at live
  split at live
  · rename_i inside
    obtain ⟨g, found, rfl⟩ := Option.map_eq_some_iff.mp live
    exact Or.inr ⟨j - s.nfib, g, found, by omega, rfl⟩
  · rename_i outside
    exact Or.inl ⟨live, outside⟩

end Runtime

/-- One step of any party. -/
inductive Stepped (c : Config σ γ) (s : Runtime σ γ) : Act → Runtime σ γ → Prop
  | create (arg : Nat) : Stepped c s (.create arg) (s.pthreadCreate (c.app.entry arg))
  | reserveNone (cv : CondId) (empty : s.nfib = 0) : Stepped c s (.condReserve cv) s
  | reserve (cv : CondId) (fibers : s.nfib ≠ 0) : Stepped c s (.condReserve cv)
      { s with pend := s.pend.reserve, reserved := s.reserved ++ [(s.pend.head, cv)] }
  | publish (ticket : Nat) (cv : CondId) (reserved : (ticket, cv) ∈ s.reserved) :
      Stepped c s (.condPublish ticket cv)
        { s with
          pend := s.pend.publish pendN ticket (some cv)
          reserved := s.reserved.erase (ticket, cv) }
  | threadLock {t : Nat} {m : MutexId} {x : Mutex} {ok : Bool}
      (attempt : (s.mutexes m).lock (.real t) = some (x, ok)) :
      Stepped c s (.threadLock t m) (s.setMutex m x)
  | threadUnlock (t : Nat) (m : MutexId) : Stepped c s (.threadUnlock t m)
      (s.setMutex m ((s.mutexes m).unlock (.real t)).1)
  | socket {a : Act} (fd : Fd) (k : Socket)
      (peer : (∃ bs, a = .arrive fd bs ∧ k = (s.socks fd).arrive bs) ∨
        a = .hangup fd ∧ k = (s.socks fd).hangup) : Stepped c s a (s.setSock fd k)
  | device (id : Nat) (submitted : id < s.accel.subHead) : Stepped c s (.device id)
      { s with accel := { s.accel with
          requests := Function.update s.accel.requests id
            ⟨c.transform (s.accel.requests id).buf, (s.accel.requests id).runs + 1⟩ } }
  | round {out : Out} {s' : Runtime σ γ} (taken : Runtime.Round c s out s') :
      Stepped c s (.carrier out) s'

theorem stepped {c : Config σ γ} {s s' : Runtime σ γ} {a : Act}
    (taken : step c s a = some s') : Stepped c s a s' := by
  cases a with
  | create arg => exact Option.some.inj taken ▸ .create arg
  | condReserve cv =>
    rw [step, Option.some.injEq] at taken
    subst taken
    unfold Runtime.condReserve
    split
    · rename_i empty
      exact .reserveNone cv empty
    · rename_i fibers
      exact .reserve cv fibers
  | condPublish ticket cv =>
    change s.condPublish ticket cv = some s' at taken
    unfold Runtime.condPublish at taken
    split at taken
    · rename_i reserved
      exact Option.some.inj taken ▸ .publish ticket cv reserved
    · cases taken
  | threadLock t m =>
    rw [step] at taken
    split at taken
    · cases taken
    · rename_i attempt
      exact Option.some.inj taken ▸ .threadLock attempt
  | threadUnlock t m => exact Option.some.inj taken ▸ .threadUnlock t m
  | arrive fd bs =>
    exact Option.some.inj taken ▸ .socket fd _ (Or.inl ⟨bs, rfl, rfl⟩)
  | hangup fd => exact Option.some.inj taken ▸ .socket fd _ (Or.inr ⟨rfl, rfl⟩)
  | device id =>
    change s.device c id = some s' at taken
    unfold Runtime.device at taken
    split at taken
    · rename_i submitted
      exact Option.some.inj taken ▸ .device id submitted
    · cases taken
  | carrier out => exact .round (Runtime.carrier_round taken)

/-- A step of the carrier while a fiber is switched in is a slice of that fiber. -/
theorem step_slice {c : Config σ γ} {s s' : Runtime σ γ} {out : Out} {i : Nat}
    (pc : s.pc = .slice i) (taken : step c s (.carrier out) = some s') :
    ∃ f, s.fibs i = some f ∧ Runtime.Slice c s i f out s' := by
  change s.carrier c out = some s' at taken
  unfold Runtime.carrier at taken
  rw [pc] at taken
  dsimp only at taken
  split at taken
  · cases taken
  · rename_i f live
    exact ⟨f, live, Runtime.exec_slice taken⟩

theorem slice_of_live {c : Config σ γ} {s s' : Runtime σ γ} {out : Out} {i : Nat} {f : Fiber σ}
    (live : s.fibs i = some f) (pc : s.pc = .slice i)
    (taken : step c s (.carrier out) = some s') : Runtime.Slice c s i f out s' := by
  obtain ⟨g, there, slice⟩ := step_slice pc taken
  rw [live, Option.some.injEq] at there
  exact there ▸ slice

/-- Every step is a slice of the fiber that is switched in, or no fiber is. -/
theorem sliced_or_still {c : Config σ γ} {s s' : Runtime σ γ} {a : Act}
    (taken : step c s a = some s') :
    (∃ out i f, a = .carrier out ∧ s.pc = .slice i ∧ s.fibs i = some f ∧
        Runtime.Slice c s i f out s') ∨
      ∀ out i, a = .carrier out → s.pc ≠ .slice i := by
  by_cases sliced : ∃ out i, a = .carrier out ∧ s.pc = .slice i
  · obtain ⟨out, i, rfl, pc⟩ := sliced
    obtain ⟨f, live, slice⟩ := step_slice pc taken
    exact Or.inl ⟨out, i, f, rfl, pc, live, slice⟩
  · exact Or.inr fun out i carrier pc => sliced ⟨out, i, carrier, pc⟩

/-- The same, for a given fiber. -/
theorem sliced_or_aside {c : Config σ γ} {s s' : Runtime σ γ} {a : Act} {i : Nat}
    {f : Fiber σ} (taken : step c s a = some s') (live : s.fibs i = some f) :
    (∃ out, a = .carrier out ∧ s.pc = .slice i ∧ Runtime.Slice c s i f out s') ∨
      ∀ out, a = .carrier out → s.pc ≠ .slice i := by
  by_cases sliced : ∃ out, a = .carrier out ∧ s.pc = .slice i
  · obtain ⟨out, rfl, pc⟩ := sliced
    exact Or.inl ⟨out, rfl, pc, slice_of_live live pc taken⟩
  · exact Or.inr fun out carrier pc => sliced ⟨out, carrier, pc⟩

/-- At most one fiber is switched in. -/
theorem other_not_sliced {s : Runtime σ γ} {i j : Nat} (pc : s.pc = .slice j) (apart : i ≠ j) :
    s.pc ≠ .slice i := by
  rw [pc]
  intro same
  exact apart (Pc.slice.inj same).symm

end TransparentOffload
