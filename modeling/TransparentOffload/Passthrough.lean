import TransparentOffload.Preload

set_option autoImplicit false

/- A process without fibers under the preloaded library: every interposed function
passes its call on, except `pthread_detach`, which the library answers itself. -/
namespace TransparentOffload.Preload

/-- The globals of a process without fibers. -/
structure Idle (nodetach : Bool) (g : Globals) : Prop where
  nfib : g.nfib = 0
  newn : g.newn = 0
  created : g.gConnFibers = 0
  ready : g.runtimeReady = true
  detach : g.gNodetach = nodetach

variable {nodetach : Bool}

/-- The rest of a call returns `r` and creates no fiber. -/
def Ends (nodetach : Bool) (p : Prog) (r : Int) : Prop :=
  ∀ g, Idle nodetach g → ∃ g', Idle nodetach g' ∧ p.exec g = (g', .returned r)

/-- The call is passed on as it is, and so is its result. -/
def Passes (p : Prog) (nodetach : Bool) (c : LibCall) (g : Globals) : Prop :=
  ∃ k, p.exec g = (g, .waits c k) ∧ ∀ r, Ends nodetach (k r) r

theorem ends_ret (r : Int) : Ends nodetach (.ret r) r := fun g idle => ⟨g, idle, rfl⟩

theorem tail_passes (c : LibCall) (g : Globals) : Passes (.tail c) nodetach c g :=
  ⟨.ret, rfl, ends_ret⟩

theorem accept_passes (c : LibCall) (g : Globals) : Passes (acceptCall c) nodetach c g := by
  refine ⟨_, rfl, ?_⟩
  intro r g idle
  split
  · exact ⟨{ g with gServing := true }, ⟨idle.nfib, idle.newn, idle.created, idle.ready,
      idle.detach⟩, rfl⟩
  · exact ⟨g, idle, rfl⟩

/-- No fiber is in the table, so the ring of wakes is left alone. -/
theorem condWake_passes (cv : Nat) (c : LibCall) (g : Globals) :
    Passes (condWake none cv c) nodetach c g := by
  unfold condWake Passes
  simp only [Prog.exec]
  split
  · exact tail_passes c g
  · refine ⟨_, rfl, ?_⟩
    intro r g idle
    refine ⟨g, idle, ?_⟩
    simp [Prog.exec, idle.nfib]

/-- What an interposer does for a thread of a process without fibers. -/
theorem interpose_idle (c : LibCall) {g : Globals} (idle : Idle nodetach g) :
    ((c.isDetach = true → nodetach = true) ∧ Passes (interpose none c) nodetach c g) ∨
      (∃ g' r, (interpose none c).exec g = (g', .returned r) ∧ 0 < g'.gConnFibers) ∨
      (c.isDetach = true ∧ nodetach = false ∧
        (interpose none c).exec g = (g, .returned 0)) := by
  have plain : c.isDetach = false → Passes (interpose none c) nodetach c g →
      (c.isDetach = true → nodetach = true) ∧ Passes (interpose none c) nodetach c g := by
    intro other passes
    refine ⟨?_, passes⟩
    intro detach
    rw [other] at detach
    cases detach
  cases c with
  | pthreadCreate thread attr fn arg =>
    simp only [interpose, pthreadCreate, Prog.exec]
    split
    · rename_i passes
      refine Or.inl (plain rfl ?_)
      simp only [Passes, interpose, pthreadCreate, Prog.exec]
      rw [if_pos passes]
      exact tail_passes _ g
    · exact Or.inr (Or.inl ⟨_, 0, rfl, Nat.succ_pos _⟩)
  | pthreadDetach t =>
    have detach := idle.detach
    by_cases off : nodetach = true
    · refine Or.inl ⟨fun _ => off, ?_⟩
      simp only [Passes, interpose, pthreadDetach, Prog.exec]
      rw [if_pos (detach.trans off)]
      exact tail_passes _ g
    · refine Or.inr (Or.inr ⟨rfl, by simpa using off, ?_⟩)
      simp only [interpose, pthreadDetach, Prog.exec]
      rw [if_neg (detach ▸ off), if_pos idle.ready]
      rfl
  | pthreadGetattrNp t attr =>
    refine Or.inl (plain rfl ⟨_, rfl, ?_⟩)
    intro r g idle
    exact ⟨g, idle, by simp [Prog.exec]⟩
  | accept fd a l => exact Or.inl (plain rfl (accept_passes _ g))
  | accept4 fd a l fl => exact Or.inl (plain rfl (accept_passes _ g))
  | pthreadCondSignal c => exact Or.inl (plain rfl (condWake_passes c _ g))
  | pthreadCondBroadcast c => exact Or.inl (plain rfl (condWake_passes c _ g))
  | pthreadMutexTrylock | pthreadMutexUnlock | pthreadKeyCreate | pthreadRwlockUnlock
  | pthreadRwlockTryrdlock | pthreadRwlockTrywrlock | accelEncrypt =>
    exact Or.inl (plain rfl (tail_passes _ g))
  | read | write | recv | send | recvfrom | sendto | pthreadMutexLock =>
    refine Or.inl (plain rfl ?_)
    simp only [interpose, read, write, recv, send, recvfrom, sendto, ioCall, pthreadMutexLock,
      Passes, Prog.exec, Option.isNone_none, if_true, ite_self]
    exact tail_passes _ g
  | poll | pthreadSelf | pthreadSetspecific | pthreadGetspecific | pthreadCondWait
  | pthreadCondTimedwait | pthreadCondClockwait | pthreadRwlockRdlock | pthreadRwlockWrlock =>
    refine Or.inl (plain rfl ?_)
    simp only [interpose, poll, pthreadSelf, pthreadSetspecific, pthreadGetspecific, keyCall,
      pthreadCondWait, pthreadCondTimedwait, pthreadCondClockwait, condWait,
      pthreadRwlockRdlock, pthreadRwlockWrlock, rwlockCall, Passes, Prog.exec,
      Option.isNone_none, Option.isSome_none, Bool.or_true, Bool.true_or, Bool.and_false,
      Bool.false_and, if_true, Bool.false_eq_true, if_false]
    exact tail_passes _ g

/-- A process without fibers under the library. -/
structure Idling (nodetach : Bool) (s : Process) : Prop where
  idle : Idle nodetach s.globals
  threads : ∀ t, s.curFib t = none
  rest : ∀ t k, s.pending t = some k → ∀ r, Ends nodetach (k r) r

theorem init_idling (env : Env) :
    Idling (env.rtNodetach || env.rtPassive) (Process.init env) :=
  ⟨⟨rfl, rfl, rfl, rfl, rfl⟩, fun _ => rfl, fun _ _ pending => by cases pending⟩

/-- The process without the library is at the same point of each thread's calls. -/
structure Matches (s s' : Process) : Prop where
  log : s'.log = s.log
  pending : ∀ t, s'.pending t = (s.pending t).map fun _ => Prog.ret

theorem settle_returned {s : Process} {t : Nat} {p : Prog} {g : Globals} {r : Int}
    (stops : p.exec s.globals = (g, .returned r)) : s.settle t p =
      some { s with
        globals := g, pending := Function.update s.pending t none
        log := s.log ++ [.returned t r] } := by
  unfold Process.settle
  rw [stops]

theorem settle_waits {s : Process} {t : Nat} {p : Prog} {g : Globals} {c : LibCall}
    {k : Int → Prog} (stops : p.exec s.globals = (g, .waits c k)) : s.settle t p =
      some { s with
        globals := g, pending := Function.update s.pending t (some k)
        log := s.log ++ [.called t c] } := by
  unfold Process.settle
  rw [stops]

theorem update_rest {pending : Nat → Option (Int → Prog)} {t : Nat} {x : Option (Int → Prog)}
    (rest : ∀ t k, pending t = some k → ∀ r, Ends nodetach (k r) r)
    (new : ∀ k, x = some k → ∀ r, Ends nodetach (k r) r) :
    ∀ t' k, Function.update pending t x t' = some k → ∀ r, Ends nodetach (k r) r := by
  intro t' k found
  by_cases here : t' = t
  · rw [here, Function.update_self] at found
    exact new k found
  · rw [Function.update_of_ne here] at found
    exact rest t' k found

/-- What a step of such a process can be. -/
inductive Idled (nodetach : Bool) (s : Process) : Act → Process → Prop
  | passed {t : Nat} {c : LibCall} {k : Int → Prog} (free : s.pending t = none)
      (kept : c.isDetach = true → nodetach = true) (ends : ∀ r, Ends nodetach (k r) r) :
      Idled nodetach s (.call t c)
        { s with
          pending := Function.update s.pending t (some k), log := s.log ++ [.called t c] }
  | answered {t : Nat} {c : LibCall} (free : s.pending t = none) (detach : c.isDetach = true)
      (on : nodetach = false) : Idled nodetach s (.call t c)
        { s with
          pending := Function.update s.pending t none, log := s.log ++ [.returned t 0] }
  | returned {t : Nat} {r : Int} {k : Int → Prog} {g : Globals} (waits : s.pending t = some k)
      (idle : Idle nodetach g) : Idled nodetach s (.ret t r)
        { s with
          globals := g, pending := Function.update s.pending t none
          log := s.log ++ [.returned t r] }
  | carrier {a : Act} (calls : ∀ t c, a ≠ .call t c) (returns : ∀ t r, a ≠ .ret t r) :
      Idled nodetach s a s

/-- Without fibers the carrier's steps change nothing. -/
theorem step_idled {s u : Process} {a : Act} (idling : Idling nodetach s)
    (noFiber : u.globals.gConnFibers = 0) (taken : step interpose s a = some u) :
    Idled nodetach s a u := by
  cases a with
  | call t c =>
    rw [step] at taken
    split at taken
    · rename_i free
      rw [idling.threads t] at taken
      rcases interpose_idle c idling.idle with ⟨kept, k, stops, ends⟩ | ⟨g, r, stops, created⟩ |
        ⟨detach, on, stops⟩
      · rw [settle_waits stops, Option.some.injEq] at taken
        exact taken ▸ .passed free kept ends
      · rw [settle_returned stops, Option.some.injEq] at taken
        rw [← taken] at noFiber
        dsimp only at noFiber
        omega
      · rw [settle_returned stops, Option.some.injEq] at taken
        exact taken ▸ .answered free detach on
    · cases taken
  | ret t r =>
    rw [step] at taken
    split at taken
    · cases taken
    · rename_i k waits
      obtain ⟨g, idle, stops⟩ := idling.rest t k waits r s.globals idling.idle
      rw [settle_returned stops, Option.some.injEq] at taken
      exact taken ▸ .returned waits idle
  | intake =>
    have globals : ({ s.globals with
        nfib := s.globals.nfib + s.globals.newn, newn := 0 } : Globals) = s.globals := by
      have nfib := idling.idle.nfib
      have newn := idling.idle.newn
      cases shape : s.globals
      simp_all
    rw [step, globals, Option.some.injEq] at taken
    exact taken ▸ .carrier (by simp) (by simp)
  | resume t i =>
    rw [step, idling.idle.nfib, if_neg (Nat.not_lt_zero i), Option.some.injEq] at taken
    exact taken ▸ .carrier (by simp) (by simp)
  | back t =>
    rw [step, Option.some.injEq] at taken
    have same : Function.update s.curFib t none = s.curFib := by
      rw [← idling.threads t, Function.update_eq_self]
    rw [same] at taken
    exact taken ▸ .carrier (by simp) (by simp)

theorem Idled.idling {s u : Process} {a : Act} (idled : Idled nodetach s a u)
    (idling : Idling nodetach s) : Idling nodetach u := by
  cases idled with
  | passed free kept ends =>
    refine ⟨idling.idle, idling.threads, update_rest idling.rest ?_⟩
    intro k same
    cases same
    exact ends
  | answered =>
    exact ⟨idling.idle, idling.threads, update_rest idling.rest fun k same => by cases same⟩
  | returned waits idle =>
    exact ⟨idle, idling.threads, update_rest idling.rest fun k same => by cases same⟩
  | carrier => exact idling

/-- A step that answers no `pthread_detach` is a step of the process without the
library, with the same underlying call or the same result. -/
theorem Idled.matches_ {s u s' : Process} {a : Act} (idled : Idled nodetach s a u)
    (passes : ∀ t c, a = .call t c → c.isDetach = true → nodetach = true)
    (same : Matches s s') : ∃ u', step direct s' a = some u' ∧ Matches u u' := by
  cases idled with
  | @passed t c k free =>
    have free' : s'.pending t = none := by rw [same.pending, free]; rfl
    have taken : step direct s' (.call t c) = some { s' with
        pending := Function.update s'.pending t (some .ret)
        log := s'.log ++ [.called t c] } := by
      rw [step, free']
      exact settle_waits rfl
    refine ⟨_, taken, ?_, ?_⟩
    · dsimp only
      rw [same.log]
    · intro t'
      dsimp only
      by_cases here : t' = t
      · rw [here, Function.update_self, Function.update_self]
        rfl
      · rw [Function.update_of_ne here, Function.update_of_ne here, same.pending]
  | answered free detach on =>
    rw [passes _ _ rfl detach] at on
    cases on
  | @returned t r k g waits idle =>
    have waits' : s'.pending t = some .ret := by rw [same.pending, waits]; rfl
    have taken : step direct s' (.ret t r) = some { s' with
        pending := Function.update s'.pending t none
        log := s'.log ++ [.returned t r] } := by
      rw [step, waits']
      exact settle_returned rfl
    refine ⟨_, taken, ?_, ?_⟩
    · dsimp only
      rw [same.log]
    · intro t'
      dsimp only
      by_cases here : t' = t
      · rw [here, Function.update_self, Function.update_self]
        rfl
      · rw [Function.update_of_ne here, Function.update_of_ne here, same.pending]
  | carrier calls returns =>
    cases a with
    | call t c => exact absurd rfl (calls t c)
    | ret t r => exact absurd rfl (returns t r)
    | intake => exact ⟨_, rfl, same.log, same.pending⟩
    | resume t i =>
      rw [step]
      split
      · exact ⟨_, rfl, same.log, same.pending⟩
      · exact ⟨_, rfl, same⟩
    | back t => exact ⟨_, rfl, same.log, same.pending⟩

/-- No thread has created a fiber. -/
def NoFiber (s : Process) : Prop := s.globals.gConnFibers = 0

instance (s : Process) : Decidable (NoFiber s) := inferInstanceAs (Decidable (_ = _))

/-- A call the library may answer itself is not made. -/
def PassesOn (nodetach : Bool) (a : Act) : Prop :=
  ∀ t c, a = .call t c → c.isDetach = true → nodetach = true

theorem run_matches {acts : List Act} {s u s' : Process} (idling : Idling nodetach s)
    (same : Matches s s') (noFiber : Machine.Always (step interpose) NoFiber s acts)
    (passes : ∀ a ∈ acts, PassesOn nodetach a)
    (ran : Machine.run (step interpose) s acts = some u) :
    ∃ u', Machine.run (step direct) s' acts = some u' ∧ Matches u u' := by
  induction acts generalizing s s' with
  | nil =>
    rw [Machine.run_nil, Option.some.injEq] at ran
    exact ⟨s', rfl, ran ▸ same⟩
  | cons a rest ih =>
    obtain ⟨v, taken, ran⟩ := Machine.run_cons_eq_some.mp ran
    have later := noFiber.2 v taken
    have idled := step_idled idling later.head taken
    obtain ⟨v', taken', same'⟩ := idled.matches_ (passes a List.mem_cons_self) same
    obtain ⟨u', ran', last⟩ := ih (idled.idling idling) same' later
      (fun a' member => passes a' (List.mem_cons_of_mem a member)) ran
    exact ⟨u', by rw [Machine.run_cons_of_step taken', ran'], last⟩

/-- The library's own answer leaves no trace of the call. -/
theorem run_hides_detach {acts : List Act} {s u : Process} (idling : Idling false s)
    (noFiber : Machine.Always (step interpose) NoFiber s acts)
    (hidden : ∀ t c, .called t c ∈ s.log → c.isDetach = false)
    (ran : Machine.run (step interpose) s acts = some u) :
    ∀ t c, .called t c ∈ u.log → c.isDetach = false := by
  induction acts generalizing s with
  | nil =>
    rw [Machine.run_nil, Option.some.injEq] at ran
    exact ran ▸ hidden
  | cons a rest ih =>
    obtain ⟨v, taken, ran⟩ := Machine.run_cons_eq_some.mp ran
    have later := noFiber.2 v taken
    have idled := step_idled idling later.head taken
    refine ih (idled.idling idling) later ?_ ran
    intro t c member
    cases idled with
    | @passed t' c' k free kept =>
      rw [List.mem_append, List.mem_singleton] at member
      rcases member with old | new
      · exact hidden t c old
      · cases new
        exact Bool.eq_false_iff.mpr fun detach => by cases kept detach
    | answered | returned =>
      rw [List.mem_append, List.mem_singleton] at member
      rcases member with old | new
      · exact hidden t c old
      · cases new
    | carrier => exact hidden t c member

theorem step_direct_log {s u : Process} {a : Act} (taken : step direct s a = some u)
    {e : Event} (member : e ∈ s.log) : e ∈ u.log := by
  have settled : ∀ {t p}, s.settle t p = some u → e ∈ u.log := by
    intro t p taken
    unfold Process.settle at taken
    split at taken
    · rw [Option.some.injEq] at taken
      rw [← taken]
      exact List.mem_append_left _ member
    · rw [Option.some.injEq] at taken
      rw [← taken]
      exact List.mem_append_left _ member
    · cases taken
  cases a with
  | call t c =>
    rw [step] at taken
    split at taken
    · exact settled taken
    · cases taken
  | ret t r =>
    rw [step] at taken
    split at taken
    · cases taken
    · exact settled taken
  | intake | back =>
    rw [step, Option.some.injEq] at taken
    exact taken ▸ member
  | resume t i =>
    rw [step] at taken
    split at taken
    all_goals
      rw [Option.some.injEq] at taken
      exact taken ▸ member

/-- Without the library every call reaches its libc function. -/
theorem run_direct_calls {acts : List Act} {s u : Process} {t : Nat} {c : LibCall}
    (ran : Machine.run (step direct) s acts = some u)
    (made : .call t c ∈ acts ∨ .called t c ∈ s.log) : .called t c ∈ u.log := by
  induction acts generalizing s with
  | nil =>
    rw [Machine.run_nil, Option.some.injEq] at ran
    simpa [← ran] using made
  | cons a rest ih =>
    obtain ⟨v, taken, ran⟩ := Machine.run_cons_eq_some.mp ran
    refine ih ran ?_
    rcases made with made | made
    · rcases List.mem_cons.mp made with here | later
      · subst here
        rw [step] at taken
        split at taken
        · rw [settle_waits rfl, Option.some.injEq] at taken
          rw [← taken]
          exact Or.inr (List.mem_append_right _ List.mem_cons_self)
        · cases taken
      · exact Or.inl later
    · exact Or.inr (step_direct_log taken made)

/-- In a process that creates no fiber, the library makes the underlying calls of
the process without it and gives its threads the same results exactly when no thread
calls `pthread_detach` or `RT_NODETACH` (or `RT_PASSIVE`) is set. -/
theorem passthrough_iff_no_detach (env : Env) (acts : List Act) (s : Process)
    (noFiber : Machine.Always (step interpose) NoFiber (.init env) acts)
    (ran : Machine.run (step interpose) (.init env) acts = some s) :
    (∃ s', Machine.run (step direct) (.init env) acts = some s' ∧ s'.log = s.log) ↔
      (env.rtNodetach || env.rtPassive) = true ∨ ∀ t x, .call t (.pthreadDetach x) ∉ acts := by
  constructor
  · rintro ⟨s', ran', same⟩
    by_contra missed
    rw [not_or, not_forall] at missed
    obtain ⟨off, t, found⟩ := missed
    rw [not_forall] at found
    obtain ⟨x, found⟩ := found
    rw [not_not] at found
    have called := run_direct_calls ran' (Or.inl found)
    rw [same] at called
    have idling := init_idling env
    rw [Bool.not_eq_true] at off
    rw [off] at idling
    have hidden :=
      run_hides_detach idling noFiber (fun t c member => by cases member) ran _ _ called
    cases hidden
  · intro passes
    have all : ∀ a ∈ acts, PassesOn (env.rtNodetach || env.rtPassive) a := by
      rintro a member t c rfl detach
      rcases passes with on | none
      · exact on
      · cases c with
        | pthreadDetach x => exact absurd member (none t x)
        | _ => cases detach
    obtain ⟨s', ran', same⟩ := run_matches (init_idling env) ⟨rfl, fun _ => rfl⟩ noFiber all ran
    exact ⟨s', ran', same.log⟩

/-- No environment variable but `RT_NOFIBER`. -/
def noFiberEnv : Env :=
  { rtNofiber := true, rtPool := false, rtNocond := false, rtNorw := false, rtNotls := false
    rtFiberself := false, rtNodetach := false, rtNomutex := false, rtNoio := false
    rtPassive := false }

/-- A server that accepts a connection, starts a detached thread and reads. -/
def acceptDetached : List Act :=
  [.call 1 (.accept 3 0 0), .ret 1 7, .call 1 (.pthreadCreate 16 0 32 7), .ret 1 0,
    .call 1 (.pthreadDetach 2), .call 2 (.read 7 64 512)]

theorem acceptDetached_iff : ∃ s,
    Machine.run (step interpose) (.init noFiberEnv) acceptDetached = some s ∧
    ((∃ s', Machine.run (step direct) (.init noFiberEnv) acceptDetached = some s' ∧
        s'.log = s.log) ↔
      (noFiberEnv.rtNodetach || noFiberEnv.rtPassive) = true ∨
        ∀ t x, .call t (.pthreadDetach x) ∉ acceptDetached) :=
  ⟨_, rfl, passthrough_iff_no_detach noFiberEnv acceptDetached _ (by decide) rfl⟩

/-- The thread gets 0 from `pthread_detach` without a call of the libc function, so
the process without the library has another log. -/
theorem detach_not_passed_on : ∃ s,
    Machine.run (step interpose) (.init noFiberEnv) acceptDetached = some s ∧
    Machine.Always (step interpose) NoFiber (.init noFiberEnv) acceptDetached ∧
    s.log = [.called 1 (.accept 3 0 0), .returned 1 7, .called 1 (.pthreadCreate 16 0 32 7),
      .returned 1 0, .returned 1 0, .called 2 (.read 7 64 512)] ∧
    (∃ s', Machine.run (step direct) (.init noFiberEnv) acceptDetached = some s' ∧
      s'.log = [.called 1 (.accept 3 0 0), .returned 1 7, .called 1 (.pthreadCreate 16 0 32 7),
        .returned 1 0, .called 1 (.pthreadDetach 2), .called 2 (.read 7 64 512)]) ∧
    ¬ ∃ s', Machine.run (step direct) (.init noFiberEnv) acceptDetached = some s' ∧
      s'.log = s.log := by
  refine ⟨_, rfl, by decide, rfl, ⟨_, rfl, rfl⟩, ?_⟩
  rintro ⟨s', ran, same⟩
  cases ran
  revert same
  decide

end TransparentOffload.Preload
