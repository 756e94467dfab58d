import TransparentOffload.Formed

set_option autoImplicit false

/- The kernel's answer to the real socket call a fiber makes in one step: what the
interposer makes of it, and which call it is. -/
namespace TransparentOffload

variable {σ γ : Type}

namespace Runtime

/-- In this step of the carrier the kernel answers `r` to the socket call that
the fiber in slot `i` is in. -/
structure Answered (c : Config σ γ) (s : Runtime σ γ) (out : Out) (i : Nat) (f : Fiber σ)
    (op : IoOp) (fd : Fd) (k : IoRet → σ) (r : IoRet) : Prop where
  pc : s.pc = .slice i
  live : s.fibs i = some f
  code : c.app.code f.ctx = .io op fd k
  place : f.place = .app ∨ f.place = .io ∨ (f.place = .handlerLock ∧ ∃ n, op = .read n)
  past : ¬ WaitsForLock c s f op
  real : ∃ sock, op.real (s.ioSock f.place fd) out.io = some (sock, r)

/-- The code of the fiber in slot `i` goes on with `ctx`, in the same slice. -/
def Returned (s : Runtime σ γ) (i : Nat) (ctx : σ) : Prop :=
  s.pc = .slice i ∧ ∃ f, s.fibs i = some f ∧ f.place = .app ∧ f.ctx = ctx

theorem ioLoop_answered {ssl : SslSyms} {s : Runtime σ γ} {i : Nat} {f : Fiber σ} {op : IoOp}
    {fd : Fd} {k : IoRet → σ} {out : IoOut} {sock : Socket} {r : IoRet}
    (real : op.real (s.socks fd) out = some (sock, r)) (pc : s.pc = .slice i) :
    ∃ t, s.ioLoop ssl i f op fd k out = some t ∧
      ((r = .err eagain ∧ t.pc = .back i) ∨ (r ≠ .err eagain ∧ t.Returned i (k r))) := by
  unfold ioLoop
  rw [real]
  cases r with
  | err e =>
    dsimp only
    by_cases again : e = eagain
    · rw [if_pos again]
      exact ⟨_, rfl, Or.inl ⟨again ▸ rfl, rfl⟩⟩
    · rw [if_neg again]
      have failed : IoRet.err e ≠ .err eagain := by
        intro same
        exact again (IoRet.err.inj same)
      exact ⟨_, rfl, Or.inr ⟨failed, pc, _, Function.update_self .., rfl, rfl⟩⟩
  | data bs | count n =>
    exact ⟨_, rfl, Or.inr ⟨by simp, pc, _, Function.update_self .., rfl, rfl⟩⟩

/-- A first call gets the kernel's answer whatever `read` and `write` do with the handler
lock before. -/
theorem firstCall_answered {c : Config σ γ} {s : Runtime σ γ} {i : Nat} {op : IoOp} {fd : Fd}
    {k : IoRet → σ} {out : Out} {sock : Socket} {r : IoRet} (owner : Option Nat) (f : Fiber σ)
    (pc : s.pc = .slice i) (real : op.real (s.socks fd).setnb out.io = some (sock, r)) :
    ∃ t, (setnb { s with hlockOwner := owner } fd).ioLoop c.ssl i f op fd k out.io = some t ∧
      ((r = .err eagain ∧ t.pc = .back i) ∨ (r ≠ .err eagain ∧ t.Returned i (k r))) := by
  have base : op.real ((setnb { s with hlockOwner := owner } fd).socks fd) out.io =
      some (sock, r) := by
    rw [setnb_socks_self]
    exact real
  exact ioLoop_answered base pc

/-- The carrier can always take the step in which the kernel answers: the call
returns the answer, except that `EAGAIN` parks the fiber. -/
theorem Answered.taken {c : Config σ γ} {s : Runtime σ γ} {out : Out} {i : Nat} {f : Fiber σ}
    {op : IoOp} {fd : Fd} {k : IoRet → σ} {r : IoRet}
    (answered : Answered c s out i f op fd k r) :
    ∃ t, step c s (.carrier out) = some t ∧
      ((r = .err eagain ∧ t.pc = .back i) ∨ (r ≠ .err eagain ∧ t.Returned i (k r))) := by
  obtain ⟨pc, live, code, place, past, sock, real⟩ := answered
  have sliced : step c s (.carrier out) = s.exec c i f out := by
    change s.carrier c out = _
    rw [carrier, pc]
    dsimp only
    rw [live]
  rw [sliced, exec]
  rcases place with app | parked | ⟨waiting, n, rfl⟩
  · rw [ioSock, if_neg (by simp [app])] at real
    rw [app, code]
    cases op with
    | read n =>
      change ∃ t, s.read c i f n fd k out.io = some t ∧ _
      unfold read
      split
      · rename_i start
        rw [Bool.and_eq_true] at start
        have free : ¬ s.handlerBusy f.slot = true :=
          fun busy => past ⟨⟨n, rfl⟩, busy, Or.inl ⟨app, start.1⟩⟩
        rw [hlAcquire, if_neg free]
        exact firstCall_answered (some f.slot) f pc real
      · exact firstCall_answered s.hlockOwner f pc real
    | write bs =>
      change ∃ t, s.write c i f bs fd k out.io = some t ∧ _
      unfold write hlRelease
      split
      · split
        · exact firstCall_answered none { f with got := 0 } pc real
        · exact firstCall_answered s.hlockOwner { f with got := 0 } pc real
      · exact firstCall_answered s.hlockOwner { f with got := 0 } pc real
    | recv n dontwait | recvfrom n dontwait | send bs dontwait | sendto bs dontwait =>
      exact firstCall_answered s.hlockOwner f pc real
  · rw [ioSock, if_pos parked] at real
    rw [parked, code]
    exact ioLoop_answered real pc
  · rw [ioSock, if_neg (by simp [waiting])] at real
    have free : ¬ s.handlerBusy f.slot = true :=
      fun busy => past ⟨⟨n, rfl⟩, busy, Or.inr waiting⟩
    rw [waiting, code]
    dsimp only
    rw [hlAcquire, if_neg free]
    exact firstCall_answered (some f.slot) f pc real

def makesCall (c : Config σ γ) (s : Runtime σ γ) (f : Fiber σ) (op : IoOp) : Bool :=
  match f.place, op with
  | .app, .read _ => !(s.enforcing c.gEnforce && s.handlerBusy f.slot)
  | .handlerLock, .read _ => !s.handlerBusy f.slot
  | .app, _ | .io, _ => true
  | _, _ => false

/-- The slot and state of the fiber that makes a real socket call in this step of the
carrier, and the kernel's answer. -/
def answer (c : Config σ γ) (s : Runtime σ γ) (out : Out) : Option (Nat × σ × IoRet) :=
  match s.pc with
  | .slice i =>
    match s.fibs i with
    | some f =>
      match c.app.code f.ctx with
      | .io op fd _ =>
        if s.makesCall c f op then
          (op.real (s.ioSock f.place fd) out.io).map fun x => (i, f.ctx, x.2)
        else none
      | _ => none
    | none => none
  | _ => none

theorem makesCall_iff {c : Config σ γ} {s : Runtime σ γ} {f : Fiber σ} {op : IoOp} :
    s.makesCall c f op = true ↔
      (f.place = .app ∨ f.place = .io ∨ (f.place = .handlerLock ∧ ∃ n, op = .read n)) ∧
        ¬ WaitsForLock c s f op := by
  cases place : f.place with
  | app =>
    cases op with
    | read n =>
      simp only [makesCall, WaitsForLock, place]
      cases s.enforcing c.gEnforce <;> cases s.handlerBusy f.slot <;> simp
    | _ => simp [makesCall, WaitsForLock, place]
  | handlerLock => cases op <;> simp [makesCall, WaitsForLock, place]
  | io => simp [makesCall, WaitsForLock, place]
  | poll | offload | lock | cond | relock => cases op <;> simp [makesCall, place]

theorem answer_eq_some {c : Config σ γ} {s : Runtime σ γ} {out : Out} {i : Nat} {ctx : σ}
    {r : IoRet} : answer c s out = some (i, ctx, r) ↔
      ∃ f op fd k, Answered c s out i f op fd k r ∧ f.ctx = ctx := by
  constructor
  · intro found
    unfold answer at found
    split at found
    · rename_i j pc
      split at found
      · rename_i f live
        split at found
        · rename_i op fd k code
          split at found
          · rename_i calls
            obtain ⟨place, past⟩ := makesCall_iff.mp calls
            obtain ⟨⟨sock, r'⟩, real, same⟩ := Option.map_eq_some_iff.mp found
            cases same
            exact ⟨f, op, fd, k, ⟨pc, live, code, place, past, sock, real⟩, rfl⟩
          · cases found
        · cases found
      · cases found
    · cases found
  · intro answers
    obtain ⟨f, op, fd, k, ⟨pc, live, code, place, past, sock, real⟩, rfl⟩ := answers
    have calls : s.makesCall c f op = true := makesCall_iff.mpr ⟨place, past⟩
    simp only [answer, pc, live, code, if_pos calls, real, Option.map_some]

theorem Answered.moved {c : Config σ γ} {s s' : Runtime σ γ} {out : Out} {i : Nat} {f : Fiber σ}
    {op : IoOp} {fd : Fd} {k : IoRet → σ} {r : IoRet} (answered : Answered c s out i f op fd k r)
    (taken : step c s (.carrier out) = some s') : LockMove c s f op s'.hlockOwner := by
  have slice := slice_of_live answered.live answered.pc taken
  rcases slice_io slice answered.code with ⟨waits, _⟩ | ⟨owner, sock, r', _, moved, _, ends⟩
  · exact absurd waits answered.past
  · rcases ends with ⟨_, rfl⟩ | ⟨_, rfl⟩
    · exact moved
    · exact moved

end Runtime

end TransparentOffload
