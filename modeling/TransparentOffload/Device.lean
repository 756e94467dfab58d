import TransparentOffload.Formed

set_option autoImplicit false

/- What `accel_encrypt` gives back to a fiber when the device keeps its contract:
it transforms each buffer once, and before it says it is done. -/
namespace TransparentOffload

variable {σ γ : Type}

namespace Runtime

/-- The fiber the completion loop looks at. -/
def polled (s : Runtime σ γ) : Option (Fiber σ) :=
  match s.pc with
  | .offloads i => s.fibs i
  | _ => none

/-- The device transforms no buffer twice, and a request that is done has been
transformed. -/
def DeviceContract (s : Runtime σ γ) : Act → Prop
  | .device id => (s.accel.requests id).runs = 0
  | .carrier out => ∀ f ∈ s.polled, f.state = .waitOff → out.done = true →
      (s.accel.requests f.offId).runs = 1
  | _ => True

instance (s : Runtime σ γ) (a : Act) : Decidable (DeviceContract s a) :=
  match a with
  | .device id => inferInstanceAs (Decidable ((s.accel.requests id).runs = 0))
  | .carrier out => inferInstanceAs (Decidable (∀ f ∈ s.polled, f.state = .waitOff →
      out.done = true → (s.accel.requests f.offId).runs = 1))
  | .create _ | .condReserve _ | .condPublish .. | .threadLock .. | .threadUnlock ..
  | .arrive .. | .hangup _ => inferInstanceAs (Decidable True)

/-- The request of a fiber's offload holds its buffer until the device has
transformed it, and the transformed buffer from then on. -/
def ResultOf (c : Config σ γ) (s : Runtime σ γ) (f : Fiber σ) (id : Nat) : Prop :=
  id < s.accel.subHead ∧ ∃ buf k, c.app.code f.ctx = .accelEncrypt buf k ∧
    ((s.accel.requests id = ⟨buf, 0⟩ ∧ f.state = .waitOff) ∨
      s.accel.requests id = ⟨c.transform buf, 1⟩)

def OffloadResults (c : Config σ γ) (s : Runtime σ γ) : Prop :=
  ∀ i f id, s.fibs i = some f → f.place = .offload id → ResultOf c s f id

/-- Who changes the requests: the device, and the fiber that submits one. -/
inductive RequestStep (c : Config σ γ) (s s' : Runtime σ γ) : Act → Prop
  | keep {a : Act} (same : s'.accel.requests = s.accel.requests)
      (subHead : s'.accel.subHead = s.accel.subHead) : RequestStep c s s' a
  | device {id : Nat} (fibs : s'.fibs = s.fibs) (subHead : s'.accel.subHead = s.accel.subHead)
      (requests : s'.accel.requests = Function.update s.accel.requests id
        ⟨c.transform (s.accel.requests id).buf, (s.accel.requests id).runs + 1⟩) :
      RequestStep c s s' (.device id)
  | submit {out : Out} {i : Nat} {f : Fiber σ} {buf : Bytes} {k : Bytes → σ}
      (pc : s.pc = .slice i) (live : s.fibs i = some f)
      (code : c.app.code f.ctx = .accelEncrypt buf k) (taken : s' = s.accelEncrypt c i f buf) :
      RequestStep c s s' (.carrier out)

theorem slice_requests {c : Config σ γ} {s s' : Runtime σ γ} {i : Nat} {f : Fiber σ} {out : Out}
    (pc : s.pc = .slice i) (live : s.fibs i = some f) (taken : Slice c s i f out s') :
    RequestStep c s s' (.carrier out) := by
  cases taken with
  | offload place code => exact .submit pc live code rfl
  | plain | pollPass | pollRet | offloadRet | lockTaken | lockFailed | errQueue | close | ioReturn
  | lockBusy | ioPark | lockWait | condWake | exit => exact .keep rfl rfl
  | pollPark =>
    unfold yieldIoTo
    split <;> exact .keep rfl rfl
  | unlock =>
    unfold mutexUnlock releaseMutex
    dsimp only
    split <;> exact .keep rfl rfl
  | condWait =>
    unfold fiberCondWait releaseMutex
    dsimp only
    split <;> exact .keep rfl rfl

theorem step_requests {c : Config σ γ} {s s' : Runtime σ γ} {a : Act}
    (taken : step c s a = some s') : RequestStep c s s' a := by
  cases stepped taken with
  | create arg =>
    unfold pthreadCreate
    dsimp only
    split <;> exact .keep rfl rfl
  | reserveNone | reserve | publish | threadLock | threadUnlock | socket => exact .keep rfl rfl
  | device id => exact .device rfl rfl rfl
  | @round out _ taken =>
    cases taken with
    | intake =>
      rw [intake_eq]
      exact .keep rfl rfl
    | epoll =>
      obtain ⟨epoll, fibs, same⟩ := deliverAll_frame s out.events
      rw [epollWait, same]
      exact .keep rfl rfl
    | switchIn =>
      obtain ⟨errno, errq, same⟩ := switchIn_frame c s _ _
      rw [same]
      exact .keep rfl rfl
    | slice pc live slice => exact slice_requests pc live slice
    | goOn | offloadDone | drain | expire | free => exact .keep rfl rfl

/-- A fiber's request only changes by its own submission and by the device. -/
theorem ResultOf.keep {c : Config σ γ} {s s' : Runtime σ γ} {f f' : Fiber σ} {id : Nat}
    (result : ResultOf c s f id) (subHead : s.accel.subHead ≤ s'.accel.subHead)
    (same : s'.accel.requests id = s.accel.requests id) (ctx : f'.ctx = f.ctx)
    (waits : f.state = .waitOff → f'.state = .waitOff ∨ (s.accel.requests id).runs = 1) :
    ResultOf c s' f' id := by
  obtain ⟨below, buf, k, code, kept⟩ := result
  refine ⟨Nat.lt_of_lt_of_le below subHead, buf, k, by rw [ctx]; exact code, ?_⟩
  rw [same]
  rcases kept with ⟨pending, waiting⟩ | transformed
  · rcases waits waiting with still | done
    · exact Or.inl ⟨pending, still⟩
    · rw [pending] at done
      cases done
  · exact Or.inr transformed

theorem ResultOf.device {c : Config σ γ} {s s' : Runtime σ γ} {f : Fiber σ} {id id' : Nat}
    (result : ResultOf c s f id) (fresh : (s.accel.requests id').runs = 0)
    (subHead : s'.accel.subHead = s.accel.subHead)
    (requests : s'.accel.requests = Function.update s.accel.requests id'
      ⟨c.transform (s.accel.requests id').buf, (s.accel.requests id').runs + 1⟩) :
    ResultOf c s' f id := by
  obtain ⟨below, buf, k, code, kept⟩ := result
  refine ⟨subHead ▸ below, buf, k, code, ?_⟩
  rw [requests]
  by_cases here : id = id'
  · subst here
    rw [Function.update_self]
    rcases kept with ⟨pending, _⟩ | transformed
    · exact Or.inr (by rw [pending])
    · rw [transformed] at fresh
      cases fresh
  · rw [Function.update_of_ne here]
    exact kept

/-- A fiber in the middle of an offload was in it before, or has just submitted. -/
theorem offloading_move {c : Config σ γ} {s : Runtime σ γ} {a : Act} {i id : Nat}
    {f f' : Fiber σ} (moved : FiberMove c s i f a f') (fits : f.Fits)
    (running : s.pc = .slice i → f.Runnable) (place : f'.place = .offload id) :
    (f.place = .offload id ∧ f'.ctx = f.ctx ∧ (f.state = .waitOff → f'.state = .waitOff ∨
      ∃ out, a = .carrier out ∧ s.pc = .offloads i ∧ out.done = true)) ∨
      ∃ out buf k, a = .carrier out ∧ s.pc = .slice i ∧
        c.app.code f.ctx = .accelEncrypt buf k := by
  unfold Fiber.Fits at fits
  cases moved with
  | keep => exact Or.inl ⟨place, rfl, Or.inl⟩
  | event pc waiting =>
    rw [waiting] at fits
    rcases fits with other | other
    · exact absurd (other.symm.trans place) nofun
    · exact absurd (other.symm.trans place) nofun
  | offloaded pc waiting done =>
    exact Or.inl ⟨place, rfl, fun _ => Or.inr ⟨_, rfl, pc, done⟩⟩
  | woken waiting =>
    rw [waiting] at fits
    exact absurd (fits.1.symm.trans place) nofun
  | expired pc waiting =>
    rcases waiting with cond | io
    · rw [cond] at fits
      exact absurd (fits.1.symm.trans place) nofun
    · rw [io] at fits
      rcases fits with other | other
      · exact absurd (other.symm.trans place) nofun
      · exact absurd (other.symm.trans place) nofun
  | switchIn =>
    rw [Fiber.switchedIn_place] at place
    split at place
    · cases place
    · exact Or.inl ⟨place, f.switchedIn_ctx, fun waiting => Or.inl (by simpa using waiting)⟩
  | slice pc moved =>
    cases moved with
    | offload code => exact Or.inr ⟨_, _, _, rfl, pc, code⟩
    | run parked =>
      rcases parked with rfl | rfl | ⟨_, _, rfl⟩
      · cases place
      · cases place
      · cases place
    | done =>
      refine Or.inl ⟨place, rfl, fun waiting => ?_⟩
      exact absurd waiting ((running pc).ne nofun nofun)
    | back | io | poll | pollTimed | cond => cases place

/-- A submitted request holds the buffer of the call. -/
theorem accelEncrypt_result {c : Config σ γ} {s : Runtime σ γ} {i id : Nat} {f f' : Fiber σ}
    {buf : Bytes} {k : Bytes → σ} (code : c.app.code f.ctx = .accelEncrypt buf k)
    (live : (s.accelEncrypt c i f buf).fibs i = some f') (place : f'.place = .offload id) :
    ResultOf c (s.accelEncrypt c i f buf) f' id := by
  have fibs : (s.accelEncrypt c i f buf).fibs = Function.update s.fibs i (some _) := rfl
  rw [fibs, Function.update_self, Option.some.injEq] at live
  subst live
  cases place
  refine ⟨Nat.lt_succ_self _, buf, k, code, Or.inl ⟨?_, rfl⟩⟩
  show Function.update s.accel.requests s.accel.subHead _ s.accel.subHead = _
  rw [Function.update_self]

theorem submit_results {c : Config σ γ} {s : Runtime σ γ} {i : Nat} {f : Fiber σ} {buf : Bytes}
    {k : Bytes → σ} (results : OffloadResults c s)
    (code : c.app.code f.ctx = .accelEncrypt buf k) :
    OffloadResults c (s.accelEncrypt c i f buf) := by
  intro j g id live place
  by_cases here : j = i
  · subst here
    exact accelEncrypt_result code live place
  · have fibs : (s.accelEncrypt c i f buf).fibs = Function.update s.fibs i (some _) := rfl
    rw [fibs, Function.update_of_ne here] at live
    have result := results j g id live place
    have other : id ≠ s.accel.subHead := Nat.ne_of_lt result.1
    refine result.keep (Nat.le_succ _) ?_ rfl Or.inl
    show Function.update s.accel.requests s.accel.subHead _ id = _
    rw [Function.update_of_ne other]

theorem step_offloadResults {c : Config σ γ} {s s' : Runtime σ γ} {a : Act} (formed : Formed c s)
    (results : OffloadResults c s) (contract : DeviceContract s a)
    (taken : step c s a = some s') : OffloadResults c s' := by
  cases step_requests taken with
  | submit pc live code same =>
    subst same
    exact submit_results results code
  | @device id fibs subHead requests =>
    intro i f id' live place
    rw [fibs] at live
    exact (results i f id' live place).device contract subHead requests
  | keep same subHead =>
    intro i f' id live' place
    rcases step_fiber taken live' with ⟨f, live, moved⟩ | ⟨g, waiting, rfl, _⟩
    · have fits := formed.fits i f live
      rcases offloading_move moved fits (formed.runnable live) place with
        ⟨was, ctx, waits⟩ | ⟨out, buf, k, rfl, pc, code⟩
      · refine (results i f id live was).keep (Nat.le_of_eq subHead.symm) (by rw [same]) ctx ?_
        intro waiting
        rcases waits waiting with still | ⟨out, rfl, pc, done⟩
        · exact Or.inl still
        · have polled : f ∈ s.polled := by
            unfold Runtime.polled
            rw [pc]
            exact live
          have transformed := contract f polled waiting done
          unfold Fiber.Fits at fits
          rw [waiting] at fits
          cases fits.symm.trans was
          exact Or.inr transformed
      · -- a submission takes the next id, and here none was taken
        have slice := slice_of_live live pc taken
        rcases slice_accel slice code with ⟨_, rfl⟩ | ⟨_, _, rfl⟩
        · exact absurd subHead (Nat.succ_ne_self _)
        · rw [resumeApp, setFiber_fibs, Function.update_self, Option.some.injEq] at live'
          subst live'
          cases place
    · obtain ⟨arg, number, rfl⟩ := formed.queue g waiting
      cases place

theorem init_offloadResults (c : Config σ γ) (mem : γ) (detOn : Bool)
    (kinds : MutexId → MutexKind) : OffloadResults c (init mem detOn kinds) := by
  simp [OffloadResults, init]

/-- A fiber that goes on after its offload finds its buffer transformed once. -/
theorem OffloadResults.resumed {c : Config σ γ} {s : Runtime σ γ} {i id : Nat} {f : Fiber σ}
    {buf : Bytes} {k : Bytes → σ} (results : OffloadResults c s) (live : s.fibs i = some f)
    (runnable : f.Runnable) (place : f.place = .offload id)
    (code : c.app.code f.ctx = .accelEncrypt buf k) :
    (s.accel.requests id).buf = c.transform buf := by
  obtain ⟨_, buf', k', code', kept⟩ := results i f id live place
  rw [code] at code'
  cases code'
  rcases kept with ⟨_, waiting⟩ | transformed
  · exact absurd waiting (runnable.ne nofun nofun)
  · rw [transformed]

end Runtime

end TransparentOffload
