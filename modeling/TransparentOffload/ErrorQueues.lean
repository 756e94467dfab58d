import TransparentOffload.Formed

set_option autoImplicit false

/- The OpenSSL error queue across a yield. `tls_save` empties the queue of the
carrier's OS thread; with `ssl_err_put` unresolved, `tls_restore` puts nothing back. -/
namespace TransparentOffload

variable {σ γ : Type}

/-- The places a fiber is left in by `yield_io`, `yield_io_to`, `yield_off` and
`yield_run`, which save and restore the queue. -/
def Place.yields : Place → Bool
  | .handlerLock | .io | .poll | .offload _ | .lock | .relock _ => true
  | .app | .cond => false

namespace Runtime

/-- When a fiber is resumed from a yield, the queue shows what it showed at the
yield, and holds no code pushed by another fiber. -/
def QueueKept (c : Config σ γ) (s : Runtime σ γ) : Act → Prop
  | .carrier out => ∀ i f s', s.pc = .run i → s.fibs i = some f → f.Runnable →
      f.place.yields = true → step c s (.carrier out) = some s' →
      s'.errq.shown = f.saved.shown ∧ ∀ e ∈ s'.errq, e.pusher = i
  | _ => True

/-- A fiber resumed from a yield had an empty queue there, and the queue is empty now. -/
def QueueQuiet (s : Runtime σ γ) : Act → Prop
  | .carrier _ => ∀ i f, s.pc = .run i → s.fibs i = some f → f.Runnable →
      f.place.yields = true → f.saved = [] ∧ s.errq = []
  | _ => True

/-- No code of a fiber that has yielded is left in the queue. -/
structure QueueInv (c : Config σ γ) (s : Runtime σ γ) : Prop where
  formed : Formed c s
  valid : s.errq.Valid
  drained : ∀ i f, s.fibs i = some f → f.place.yields = true → s.pc ≠ .slice i →
    ∀ e ∈ s.errq, e.pusher ≠ i

theorem init_queueInv (c : Config σ γ) (mem : γ) (detOn : Bool) (kinds : MutexId → MutexKind) :
    QueueInv c (init mem detOn kinds) := by
  refine ⟨init_formed c mem detOn kinds, ErrQueue.valid_nil, ?_⟩
  simp [init]

theorem tlsSave_errq {s : Runtime σ γ} (valid : s.errq.Valid) :
    (s.tlsSave SslSyms.init).errq = [] := by
  change (s.errq.drain []).2 = []
  rw [valid.drain]

theorem switchIn_errq {c : Config σ γ} (ssl : c.ssl = SslSyms.init) (s : Runtime σ γ) (i : Nat)
    (f : Fiber σ) : (s.switchIn c i f).errq = s.errq := by
  unfold switchIn
  rw [ssl]
  dsimp only
  cases f.place <;> rfl

/-- A slice that comes back to the code, or parks without a yield, keeps the queue
up to what its fiber pushes. -/
theorem errq_returned {s s' : Runtime σ γ} {i : Nat} {f g : Fiber σ} (valid : s'.errq.Valid)
    (codes : ∀ e ∈ s'.errq, e ∈ s.errq ∨ e.pusher = f.slot) (live : s'.fibs i = some g)
    (place : g.place.yields = false) :
    s'.errq.Valid ∧ (∀ e ∈ s'.errq, e ∈ s.errq ∨ e.pusher = f.slot) ∧
      ∀ f', s'.fibs i = some f' → f'.place.yields = true → s'.errq = [] := by
  refine ⟨valid, codes, ?_⟩
  intro f' live' yields
  rw [live, Option.some.injEq] at live'
  rw [live', yields] at place
  cases place

theorem errq_yielded {s s' : Runtime σ γ} {i : Nat} {f : Fiber σ} (empty : s'.errq = []) :
    s'.errq.Valid ∧ (∀ e ∈ s'.errq, e ∈ s.errq ∨ e.pusher = f.slot) ∧
      ∀ f', s'.fibs i = some f' → f'.place.yields = true → s'.errq = [] := by
  refine ⟨empty ▸ ErrQueue.valid_nil, ?_, fun _ _ _ => empty⟩
  rw [empty]
  intro e member
  cases member

/-- A slice leaves the queue to the fiber it runs: a yield empties it, and only
codes of that fiber are added. -/
theorem slice_errq {c : Config σ γ} {s s' : Runtime σ γ} {i : Nat} {f : Fiber σ} {out : Out}
    (ssl : c.ssl = SslSyms.init) (valid : s.errq.Valid) (taken : Slice c s i f out s') :
    s'.errq.Valid ∧ (∀ e ∈ s'.errq, e ∈ s.errq ∨ e.pusher = f.slot) ∧
      ∀ f', s'.fibs i = some f' → f'.place.yields = true → s'.errq = [] := by
  have same : ∀ e ∈ s.errq, e ∈ s.errq ∨ e.pusher = f.slot := fun _ member => Or.inl member
  have drained : ∀ {t : Runtime σ γ}, t.errq = s.errq → (t.tlsSave c.ssl).errq = [] := by
    intro t kept
    rw [ssl]
    exact tlsSave_errq (kept ▸ valid)
  cases taken with
  | plain | pollPass | pollRet | offloadRet | lockTaken | lockFailed | ioReturn | close
  | condWake =>
    exact errq_returned valid same (Function.update_self ..) rfl
  | lockBusy | ioPark | lockWait | offload => exact errq_yielded (drained rfl)
  | pollPark =>
    unfold yieldIoTo
    split <;> exact errq_yielded (drained rfl)
  | unlock =>
    unfold mutexUnlock releaseMutex
    dsimp only
    split <;> exact errq_returned valid same (Function.update_self ..) rfl
  | condWait =>
    unfold fiberCondWait releaseMutex
    dsimp only
    split <;> exact errq_returned valid same (Function.update_self ..) rfl
  | exit place =>
    refine errq_returned valid same (Function.update_self ..) ?_
    change f.place.yields = false
    rw [place]
    rfl
  | errQueue place kept =>
    rcases kept with ⟨e, k, _, rfl⟩ | ⟨k, _, rfl⟩ | ⟨k, _, rfl⟩
    · refine errq_returned (valid.put e f.slot) ?_ (Function.update_self ..) rfl
      intro e' member
      change e' ∈ s.errq.put ⟨e.packed, f.slot⟩ at member
      rcases List.mem_append.mp (ErrQueue.mem_put member) with old | new
      · exact Or.inl old
      · rw [List.mem_singleton] at new
        exact Or.inr (new ▸ rfl)
    · refine errq_returned valid.get ?_ (Function.update_self ..) rfl
      exact fun e member => Or.inl (ErrQueue.mem_get member)
    · exact errq_returned ErrQueue.valid_nil nofun (Function.update_self ..) rfl

/-- Outside the slices nobody touches the queue, as long as nothing is restored. -/
theorem step_errq {c : Config σ γ} {s s' : Runtime σ γ} {a : Act} (ssl : c.ssl = SslSyms.init)
    (taken : step c s a = some s') (still : ∀ out i, a = .carrier out → s.pc ≠ .slice i) :
    s'.errq = s.errq := by
  cases stepped taken with
  | create arg =>
    unfold pthreadCreate
    dsimp only
    split <;> rfl
  | reserveNone | reserve | publish | threadLock | threadUnlock | socket | device => rfl
  | @round out _ taken =>
    cases taken with
    | intake => rw [intake_eq]
    | epoll =>
      obtain ⟨epoll, fibs, same⟩ := deliverAll_frame s out.events
      rw [epollWait, same]
    | goOn | offloadDone | drain | expire | free => rfl
    | @switchIn i f => exact switchIn_errq ssl s i f
    | slice pc => exact absurd pc (still out _ rfl)

/-- A fiber that is not switched in after a step it did not make has its old place. -/
theorem yields_before {c : Config σ γ} {s s' : Runtime σ γ} {a : Act} {i : Nat} {f' : Fiber σ}
    (inv : Formed c s) (taken : step c s a = some s') (live' : s'.fibs i = some f')
    (yields : f'.place.yields = true) (away : s'.pc ≠ .slice i)
    (still : ∀ out, a = .carrier out → s.pc ≠ .slice i) :
    ∃ f, s.fibs i = some f ∧ f.place.yields = true := by
  rcases step_fiber taken live' with ⟨f, live, _⟩ | ⟨g, queued, rfl, _⟩
  · refine ⟨f, live, ?_⟩
    rcases step_place inv taken live live' still with same | here
    · exact same ▸ yields
    · exact absurd here away
  · obtain ⟨arg, number, rfl⟩ := inv.queue g queued
    cases yields

theorem step_queueInv {c : Config σ γ} {s s' : Runtime σ γ} {a : Act}
    (ssl : c.ssl = SslSyms.init) (inv : QueueInv c s) (taken : step c s a = some s') :
    QueueInv c s' := by
  have formed := step_formed inv.formed taken
  rcases sliced_or_still taken with ⟨out, j, g, rfl, pc, there, slice⟩ | still
  · obtain ⟨valid, codes, yielded⟩ := slice_errq ssl inv.valid slice
    refine ⟨formed, valid, ?_⟩
    intro i f' live' yields away e member
    by_cases here : i = j
    · subst here
      rw [yielded f' live' yields] at member
      cases member
    · have apart := other_not_sliced pc here
      rcases codes e member with old | new
      · obtain ⟨f, live, before⟩ :=
          yields_before inv.formed taken live' yields away fun _ _ => apart
        exact inv.drained i f live before apart e old
      · rw [new, (inv.formed.slots j g there).1]
        exact fun same => here same.symm
  · have same := step_errq ssl taken still
    refine ⟨formed, same ▸ inv.valid, ?_⟩
    intro i f' live' yields away e member
    rw [same] at member
    obtain ⟨f, live, before⟩ := yields_before inv.formed taken live' yields away
      fun out carrier => still out i carrier
    refine inv.drained i f live before ?_ e member
    intro here
    by_cases carrier : ∃ out, a = .carrier out
    · obtain ⟨out, rfl⟩ := carrier
      exact still out i rfl here
    · exact away ((step_other taken fun out same => carrier ⟨out, same⟩).1 ▸ here)

/-- At a resume the queue is kept exactly when it was empty and still is. -/
theorem kept_iff_quiet {c : Config σ γ} (ssl : c.ssl = SslSyms.init) {s : Runtime σ γ}
    (inv : QueueInv c s) (a : Act) : QueueKept c s a ↔ QueueQuiet s a := by
  cases a with
  | carrier out =>
    constructor
    · intro kept i f pc live runnable yields
      obtain ⟨shown, own⟩ :=
        kept i f _ pc live runnable yields (step_run inv.formed pc live runnable)
      rw [switchIn_errq ssl] at shown own
      have empty : s.errq = [] := by
        apply List.eq_nil_iff_forall_not_mem.mpr
        intro e member
        exact inv.drained i f live yields (by simp [pc]) e member (own e member)
      refine ⟨?_, empty⟩
      rw [empty] at shown
      exact List.map_eq_nil_iff.mp shown.symm
    · intro quiet i f s' pc live runnable yields taken
      obtain ⟨saved, empty⟩ := quiet i f pc live runnable yields
      rw [step_run inv.formed pc live runnable, Option.some.injEq] at taken
      rw [← taken, switchIn_errq ssl, saved, empty]
      exact ⟨rfl, nofun⟩
  | _ => exact Iff.rfl

end Runtime

open TransparentOffload.Runtime

/-- With the symbols `init` resolves, every fiber of a run gets its error queue
back from every yield exactly when no yield finds a code in the queue and none is
in it when the fiber is resumed. -/
theorem error_queue_private_iff_quiet (c : Config σ γ) (ssl : c.ssl = SslSyms.init) (mem : γ)
    (detOn : Bool) (kinds : MutexId → MutexKind) (acts : List Act) :
    Machine.Guarded (step c) (QueueKept c) (init mem detOn kinds) acts ↔
      Machine.Guarded (step c) QueueQuiet (init mem detOn kinds) acts :=
  Machine.guarded_congr (fun _ a inv => kept_iff_quiet ssl inv a)
    (fun _ _ _ inv taken => step_queueInv ssl inv taken) (init_queueInv c mem detOn kinds)

/-- A thread function that raises an error, offloads and returns. -/
def raiser : Config Nat Unit :=
  { app :=
      { entry := fun _ => 0
        code := fun at_ => match at_ with
          | 0 => .errPut ⟨errPack 20 257, by decide⟩ 1
          | 1 => .accelEncrypt [] fun _ => 2
          | _ => .ret }
    gEnforce := false, gRealmutex := false, ssl := .init, transform := id }

/-- One such thread up to the moment its offload is done. -/
def raised : List Act :=
  .create 0 :: (List.replicate 12 (.carrier .quiet) ++
    .device 0 :: List.replicate 7 (.carrier { Out.quiet with done := true }))

/-- The state in which it is about to be resumed. -/
def resuming : Runtime Nat Unit :=
  (Machine.run (step raiser) (init () false fun _ => .normal) raised).get (by decide +kernel)

theorem resuming_not_kept : ¬ QueueKept raiser resuming (.carrier .quiet) := by
  intro kept
  have lost := (kept 0 _ _ rfl rfl (Or.inr rfl) rfl rfl).1
  revert lost
  decide +kernel

theorem raised_private_iff_quiet :
    (Machine.Guarded (step raiser) (QueueKept raiser) (init () false fun _ => .normal)
        (raised ++ [.carrier .quiet]) ↔
      Machine.Guarded (step raiser) QueueQuiet (init () false fun _ => .normal)
        (raised ++ [.carrier .quiet])) ∧
    ¬ Machine.Guarded (step raiser) (QueueKept raiser) (init () false fun _ => .normal)
      (raised ++ [.carrier .quiet]) := by
  refine ⟨error_queue_private_iff_quiet raiser rfl () false (fun _ => .normal) _, ?_⟩
  intro guarded
  have reached : Machine.run (step raiser) (init () false fun _ => .normal) raised =
      some resuming := (Option.some_get _).symm
  exact resuming_not_kept ((Machine.Guarded.append reached).mp guarded).2.1

/-- The fiber yields with one code in its queue and is resumed with none. -/
theorem offload_drops_error_queue : ∃ s s' f,
    runActs raiser (init () false fun _ => .normal) raised = some s ∧
    s.pc = .run 0 ∧ s.fibs 0 = some f ∧ f.place = .offload 0 ∧ f.saved.shown = [(20, 257)] ∧
    step raiser s (.carrier .quiet) = some s' ∧ s'.pc = .slice 0 ∧ s'.errq.shown = [] ∧
    ¬ QueueKept raiser s (.carrier .quiet) := by
  exact ⟨resuming, _, _, (Option.some_get _).symm, rfl, rfl, rfl, by decide +kernel, rfl, rfl, rfl,
    resuming_not_kept⟩

end TransparentOffload
