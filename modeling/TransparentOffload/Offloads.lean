import TransparentOffload.Formed

set_option autoImplicit false

/- Offloads and the calls into the accelerator: each request belongs to the fiber
that submitted it until the carrier has seen it done and released it, once. -/
namespace TransparentOffload

variable {σ γ : Type}

/-- The request a call names. -/
def AccelCall.id : AccelCall → Nat
  | .submit id | .done id | .release id => id

/-- The request a fiber has offloaded, and whether it still waits for it. -/
def Fiber.request (f : Fiber σ) : Option (Nat × Bool) :=
  match f.place with
  | .offload id => some (id, decide (f.state = .waitOff))
  | _ => none

namespace Runtime

/-- Which fiber has offloaded which request. -/
def requests (s : Runtime σ γ) : Nat → Option (Nat × Bool) :=
  fun i => (s.fibs i).bind Fiber.request

theorem requests_update {s s' : Runtime σ γ} {i : Nat} {f' : Fiber σ}
    (fibs : s'.fibs = Function.update s.fibs i (some f')) :
    s'.requests = Function.update s.requests i f'.request := by
  funext j
  unfold requests
  rw [fibs]
  by_cases here : j = i
  · subst here
    simp
  · simp [here]

theorem requests_same {s s' : Runtime σ γ} {i : Nat} {f f' : Fiber σ} (live : s.fibs i = some f)
    (fibs : s'.fibs = Function.update s.fibs i (some f')) (same : f'.request = f.request) :
    s'.requests = s.requests := by
  have here : s.requests i = f.request := by simp [requests, live]
  rw [requests_update fibs, same, ← here, Function.update_eq_self]

/-- A fiber that changes between two states without an offload keeps its request. -/
theorem request_state {f f' : Fiber σ} (place : f'.place = f.place)
    (before : f.state ≠ .waitOff) (after : f'.state ≠ .waitOff) : f'.request = f.request := by
  unfold Fiber.request
  rw [place]
  split
  · simp [before, after]
  · rfl

theorem wakeOne_request (c : Option CondId) (f : Fiber σ) :
    (wakeOne c f).request = f.request := by
  unfold wakeOne
  split
  · rename_i waiting
    exact request_state rfl (by simp [waiting.1]) (by simp)
  · rfl

theorem wakeIo_request (f : Fiber σ) : (wakeIo f).request = f.request := by
  unfold wakeIo
  split
  · rename_i waiting
    exact request_state rfl (by simp [waiting]) (by simp)
  · rfl

theorem switchedIn_request (f : Fiber σ) : f.switchedIn.request = f.request := by
  unfold Fiber.request Fiber.switchedIn
  cases f.place <;> rfl

theorem wakeFibers_requests (s : Runtime σ γ) (c : Option CondId) :
    (s.wakeFibers c).requests = s.requests := by
  funext j
  change (if j < s.nfib then (s.fibs j).map (wakeOne c) else s.fibs j).bind Fiber.request = _
  split
  · unfold requests
    cases s.fibs j with
    | none => rfl
    | some f => exact wakeOne_request c f
  · rfl

theorem deliver_requests (s : Runtime σ γ) (fd : Fd) : (s.deliver fd).requests = s.requests := by
  unfold deliver
  split
  · rfl
  · rename_i i reported
    funext j
    change (Function.update s.fibs i ((s.fibs i).map wakeIo) j).bind Fiber.request = _
    unfold requests
    by_cases here : j = i
    · subst here
      rw [Function.update_self]
      cases s.fibs j with
      | none => rfl
      | some f => exact wakeIo_request f
    · rw [Function.update_of_ne here]

theorem deliverAll_requests (s : Runtime σ γ) (fds : List Fd) :
    (fds.foldl deliver s).requests = s.requests := by
  induction fds generalizing s with
  | nil => rfl
  | cons fd rest ih => exact (ih (s.deliver fd)).trans (deliver_requests s fd)

/-- What a step does to the calls into the accelerator and to the requests. -/
inductive AccelStep (s s' : Runtime σ γ) : Prop
  | keep (calls : s'.accel.calls = s.accel.calls) (subHead : s'.accel.subHead = s.accel.subHead)
      (requests : s'.requests = s.requests ∨
        ∃ i, s'.requests = Function.update s.requests i none)
  | submit {i : Nat} (calls : s'.accel.calls = s.accel.calls ++ [.submit s.accel.subHead])
      (subHead : s'.accel.subHead = s.accel.subHead + 1)
      (requests : s'.requests = Function.update s.requests i (some (s.accel.subHead, true)))
  | done {i id : Nat} (waiting : s.requests i = some (id, true))
      (calls : s'.accel.calls = s.accel.calls ++ [.done id, .release id])
      (subHead : s'.accel.subHead = s.accel.subHead)
      (requests : s'.requests = Function.update s.requests i (some (id, false)))

/-- A slice submits at most one request, and its fiber then waits for that one. -/
theorem slice_accelStep {c : Config σ γ} {s s' : Runtime σ γ} {i : Nat} {f : Fiber σ} {out : Out}
    (taken : Slice c s i f out s') : AccelStep s s' := by
  have elsewhere : ∀ {t : Runtime σ γ} {g : Fiber σ}, t.accel = s.accel →
      t.fibs = Function.update s.fibs i (some g) → g.request = none → AccelStep s t := by
    intro t g accel fibs none
    refine .keep (by rw [accel]) (by rw [accel]) (Or.inr ⟨i, ?_⟩)
    rw [requests_update fibs, none]
  cases taken with
  | plain | pollPass | pollRet | offloadRet | lockTaken | lockFailed | errQueue | close | ioReturn
  | lockBusy | ioPark => exact elsewhere rfl rfl rfl
  | @offload buf k =>
    have fibs : (s.accelEncrypt c i f buf).fibs = Function.update s.fibs i (some _) := rfl
    exact .submit rfl rfl (requests_update fibs)
  | pollPark =>
    unfold yieldIoTo
    split <;> exact elsewhere rfl rfl rfl
  | lockWait _ _ parked =>
    refine elsewhere rfl rfl ?_
    rcases parked with ⟨_, rfl⟩ | ⟨_, rfl | ⟨expired, rfl⟩⟩ <;> rfl
  | unlock =>
    unfold mutexUnlock releaseMutex
    dsimp only
    split <;> exact elsewhere rfl rfl rfl
  | condWait =>
    unfold fiberCondWait releaseMutex
    dsimp only
    split <;> exact elsewhere rfl rfl rfl
  | @condWake cv ctx =>
    have fibs : (s.condWake i f cv ctx).fibs =
        Function.update (s.wakeFibers (some cv)).fibs i (some _) := rfl
    refine .keep rfl rfl (Or.inr ⟨i, ?_⟩)
    rw [requests_update fibs, wakeFibers_requests]
    rfl
  | exit place =>
    refine elsewhere rfl rfl ?_
    unfold Fiber.request
    rw [place]

theorem intake_requests {c : Config σ γ} {s : Runtime σ γ} (formed : Formed c s) :
    s.intake.requests = s.requests := by
  funext j
  unfold requests
  rw [intake_eq]
  change (s.takenIn s.newq j).bind Fiber.request = _
  by_cases inside : s.nfib ≤ j ∧ j < s.nfib + s.newq.length
  · have before : s.fibs j = none := formed.untaken inside.1
    rw [before]
    cases taken : s.takenIn s.newq j with
    | none => rfl
    | some f =>
      rcases takenIn_some taken with ⟨old, _⟩ | ⟨k, g, found, _, rfl⟩
      · rw [before] at old
        cases old
      · obtain ⟨arg, number, rfl⟩ := formed.queue g (List.mem_of_getElem? found)
        rfl
  · rw [takenIn_outside (by omega)]

theorem step_accelStep {c : Config σ γ} {s s' : Runtime σ γ} {a : Act} (formed : Formed c s)
    (taken : step c s a = some s') : AccelStep s s' := by
  cases stepped taken with
  | create arg =>
    have fibs := s.pthreadCreate_fibs (c.app.entry arg)
    refine .keep ?_ ?_ (Or.inl ?_)
    · unfold pthreadCreate
      dsimp only
      split <;> rfl
    · unfold pthreadCreate
      dsimp only
      split <;> rfl
    · unfold requests
      rw [fibs]
  | reserveNone | reserve | publish | threadLock | threadUnlock | socket | device =>
    exact .keep rfl rfl (Or.inl rfl)
  | @round out _ taken =>
    cases taken with
    | intake =>
      refine .keep ?_ ?_ (Or.inl (intake_requests formed))
      · rw [intake_eq]
      · rw [intake_eq]
    | epoll =>
      obtain ⟨epoll, fibs, same⟩ := deliverAll_frame s out.events
      refine .keep ?_ ?_ (Or.inl (deliverAll_requests s out.events))
      · rw [epollWait, same]
      · rw [epollWait, same]
    | goOn => exact .keep rfl rfl (Or.inl rfl)
    | @offloadDone i f pc live waiting =>
      have place : f.place = .offload f.offId := by
        have fits := formed.fits i f live
        unfold Fiber.Fits at fits
        rw [waiting] at fits
        exact fits
      have submitted : s.requests i = some (f.offId, true) := by
        simp [requests, live, Fiber.request, place, waiting]
      refine .done submitted rfl rfl ?_
      refine (requests_update (s := s) rfl).trans ?_
      simp [Fiber.request, place]
    | drain => exact .keep rfl rfl (Or.inl (wakeFibers_requests _ _))
    | @expire i f now pc live waiting =>
      refine .keep rfl rfl (Or.inl (requests_same live rfl ?_))
      refine request_state rfl ?_ (by simp)
      rcases waiting with cond | io
      · simp [cond]
      · simp [io]
    | @switchIn i f pc live =>
      obtain ⟨errno, errq, same⟩ := switchIn_frame c s i f
      rw [same]
      exact .keep rfl rfl (Or.inl (requests_same live rfl (switchedIn_request f)))
    | slice pc live slice => exact slice_accelStep slice
    | @free i =>
      refine .keep rfl rfl (Or.inr ⟨i, ?_⟩)
      funext j
      change (Function.update s.fibs i none j).bind Fiber.request = _
      by_cases here : j = i
      · subst here
        simp
      · simp [requests, here]

/-- Every request is released at most once, after its `accel_done`, and only for the
fiber that waits for it. -/
structure OffloadInv (s : Runtime σ γ) : Prop where
  called : ∀ call ∈ s.accel.calls, call.id < s.accel.subHead
  submitted : ∀ i id waiting, s.requests i = some (id, waiting) → id < s.accel.subHead
  apart : ∀ i j id waiting waiting', s.requests i = some (id, waiting) →
    s.requests j = some (id, waiting') → i = j
  pending : ∀ i id, s.requests i = some (id, true) → AccelCall.release id ∉ s.accel.calls
  resumed : ∀ i id, s.requests i = some (id, false) → AccelCall.release id ∈ s.accel.calls
  once : ∀ id, s.accel.calls.count (.release id) = s.accel.calls.count (.done id) ∧
    s.accel.calls.count (.release id) ≤ 1

theorem init_offloadInv (mem : γ) (detOn : Bool) (kinds : MutexId → MutexKind) :
    OffloadInv (init mem detOn kinds : Runtime σ γ) := by
  refine ⟨?_, ?_, ?_, ?_, ?_, ?_⟩
  all_goals simp [init, requests, Accel.empty]

/-- Forgetting requests keeps the account. -/
theorem OffloadInv.forget {s s' : Runtime σ γ} (inv : OffloadInv s)
    (calls : s'.accel.calls = s.accel.calls) (subHead : s'.accel.subHead = s.accel.subHead)
    (fewer : ∀ i r, s'.requests i = some r → s.requests i = some r) : OffloadInv s' := by
  refine ⟨?_, ?_, ?_, ?_, ?_, ?_⟩
  · rw [calls, subHead]
    exact inv.called
  · rw [subHead]
    exact fun i id waiting has => inv.submitted i id waiting (fewer i _ has)
  · exact fun i j id _ _ first second => inv.apart i j id _ _ (fewer i _ first) (fewer j _ second)
  · rw [calls]
    exact fun i id has => inv.pending i id (fewer i _ has)
  · rw [calls]
    exact fun i id has => inv.resumed i id (fewer i _ has)
  · rw [calls]
    exact inv.once

theorem OffloadInv.submit {s s' : Runtime σ γ} {i : Nat} (inv : OffloadInv s)
    (calls : s'.accel.calls = s.accel.calls ++ [.submit s.accel.subHead])
    (subHead : s'.accel.subHead = s.accel.subHead + 1)
    (requests : s'.requests = Function.update s.requests i (some (s.accel.subHead, true))) :
    OffloadInv s' := by
  have fresh : ∀ call : AccelCall, call.id = s.accel.subHead → call ∉ s.accel.calls := by
    intro call same member
    have below := inv.called call member
    omega
  have cases : ∀ j id waiting, s'.requests j = some (id, waiting) →
      (j = i ∧ id = s.accel.subHead ∧ waiting = true) ∨
        (j ≠ i ∧ s.requests j = some (id, waiting)) := by
    intro j id waiting has
    rw [requests] at has
    by_cases here : j = i
    · subst here
      rw [Function.update_self, Option.some.injEq, Prod.mk.injEq] at has
      exact Or.inl ⟨rfl, has.1.symm, has.2.symm⟩
    · rw [Function.update_of_ne here] at has
      exact Or.inr ⟨here, has⟩
  have release : ∀ id, AccelCall.release id ∈ s'.accel.calls ↔
      AccelCall.release id ∈ s.accel.calls := by
    intro id
    simp [calls]
  refine ⟨?_, ?_, ?_, ?_, ?_, ?_⟩
  · intro call member
    rw [calls, List.mem_append, List.mem_singleton] at member
    rw [subHead]
    rcases member with old | new
    · exact Nat.lt_succ_of_lt (inv.called call old)
    · rw [new]
      exact Nat.lt_succ_self _
  · intro j id waiting has
    rw [subHead]
    rcases cases j id waiting has with ⟨_, same, _⟩ | ⟨_, old⟩
    · omega
    · exact Nat.lt_succ_of_lt (inv.submitted j id waiting old)
  · intro j k id waiting waiting' first second
    rcases cases j id waiting first with ⟨here, same, _⟩ | ⟨_, old⟩
    · rcases cases k id waiting' second with ⟨here', _⟩ | ⟨_, old'⟩
      · rw [here, here']
      · have below := inv.submitted k id waiting' old'
        omega
    · rcases cases k id waiting' second with ⟨_, same, _⟩ | ⟨_, old'⟩
      · have below := inv.submitted j id waiting old
        omega
      · exact inv.apart j k id waiting waiting' old old'
  · intro j id has
    rw [release]
    rcases cases j id true has with ⟨_, same, _⟩ | ⟨_, old⟩
    · exact fresh _ same
    · exact inv.pending j id old
  · intro j id has
    rw [release]
    rcases cases j id false has with ⟨_, _, waiting⟩ | ⟨_, old⟩
    · cases waiting
    · exact inv.resumed j id old
  · intro id
    simpa [calls] using inv.once id

theorem OffloadInv.done {s s' : Runtime σ γ} {i id : Nat} (inv : OffloadInv s)
    (waiting : s.requests i = some (id, true))
    (calls : s'.accel.calls = s.accel.calls ++ [.done id, .release id])
    (subHead : s'.accel.subHead = s.accel.subHead)
    (requests : s'.requests = Function.update s.requests i (some (id, false))) :
    OffloadInv s' := by
  have others : ∀ j r, j ≠ i → s'.requests j = some r → s.requests j = some r := by
    intro j r other has
    rwa [requests, Function.update_of_ne other] at has
  have here : s'.requests i = some (id, false) := by rw [requests, Function.update_self]
  have was : ∀ j id' b, s'.requests j = some (id', b) → ∃ b', s.requests j = some (id', b') := by
    intro j id' b has
    by_cases own : j = i
    · subst own
      rw [here, Option.some.injEq, Prod.mk.injEq] at has
      exact ⟨true, has.1 ▸ waiting⟩
    · exact ⟨b, others j _ own has⟩
  have below := inv.submitted i id true waiting
  refine ⟨?_, ?_, ?_, ?_, ?_, ?_⟩
  · intro call member
    rw [calls, List.mem_append] at member
    rw [subHead]
    rcases member with old | new
    · exact inv.called call old
    · simp only [List.mem_cons, List.not_mem_nil, or_false] at new
      rcases new with rfl | rfl
      · exact below
      · exact below
  · intro j id' b has
    rw [subHead]
    obtain ⟨b', old⟩ := was j id' b has
    exact inv.submitted j id' b' old
  · intro j k id' b b' first second
    obtain ⟨c, old⟩ := was j id' b first
    obtain ⟨c', old'⟩ := was k id' b' second
    exact inv.apart j k id' c c' old old'
  · intro j id' has
    have other : j ≠ i := by
      rintro rfl
      rw [here] at has
      cases has
    have old := others j _ other has
    have different : id' ≠ id := fun same => other (inv.apart j i id true true (same ▸ old) waiting)
    simpa [calls, different] using inv.pending j id' old
  · intro j id' has
    rw [calls, List.mem_append]
    by_cases own : j = i
    · subst own
      rw [here, Option.some.injEq, Prod.mk.injEq] at has
      exact Or.inr (by simp [has.1])
    · exact Or.inl (inv.resumed j id' (others j _ own has))
  · intro id'
    have before := inv.once id'
    have first : s.accel.calls.count (.release id) = 0 :=
      List.count_eq_zero.mpr (inv.pending i id waiting)
    rw [calls, List.count_append, List.count_append]
    by_cases same : id' = id
    · subst same
      simp [first, ← before.1]
    · have apart : id ≠ id' := Ne.symm same
      have counts : ∀ call : AccelCall, call.id = id' →
          [AccelCall.done id, AccelCall.release id].count call = 0 := by
        intro call names
        apply List.count_eq_zero.mpr
        simp only [List.mem_cons, List.not_mem_nil, or_false, not_or]
        exact ⟨fun eq => apart (by rw [← names, eq]; rfl),
          fun eq => apart (by rw [← names, eq]; rfl)⟩
      rw [counts (.release id') rfl, counts (.done id') rfl]
      exact before

theorem step_offloadInv {c : Config σ γ} {s s' : Runtime σ γ} {a : Act} (formed : Formed c s)
    (inv : OffloadInv s) (taken : step c s a = some s') : OffloadInv s' := by
  cases step_accelStep formed taken with
  | keep calls subHead requests =>
    apply inv.forget calls subHead
    intro j r has
    rcases requests with same | ⟨i, same⟩
    · rwa [same] at has
    · rw [same] at has
      by_cases here : j = i
      · subst here
        rw [Function.update_self] at has
        cases has
      · rwa [Function.update_of_ne here] at has
  | submit calls subHead requests => exact inv.submit calls subHead requests
  | done waiting calls subHead requests => exact inv.done waiting calls subHead requests

end Runtime

end TransparentOffload
