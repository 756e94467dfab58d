import TransparentOffload.Formed
import TransparentOffload.PageHistory

set_option autoImplicit false

/- The history of the pages along a run of the runtime: the events of each step, and
that the detector is always as the history explains it. -/
namespace TransparentOffload

open PageHistory

variable {σ γ : Type}

/-- The `det_fib` of each fiber of the table. -/
def Runtime.dfs (s : Runtime σ γ) (i : Nat) : Option DetFib := (s.fibs i).map Fiber.df

/-- The fiber that is switched in. -/
def Pc.running : Pc → Option Nat
  | .slice i => some i
  | _ => none

/-- The events of a step. `reads` says which pages a stretch of code reads, before
its writes; the runtime never knows. -/
def pageEvents (c : Config σ γ) (reads : σ → List Nat) (s : Runtime σ γ) :
    Act → List PageEvent
  | .carrier _ =>
    match s.pc with
    | .run i =>
      match s.fibs i with
      | some f => if f.state = .new ∨ f.state = .run then [.resume i] else []
      | none => []
    | .slice i =>
      match s.fibs i with
      | some f =>
        match f.place, c.app.code f.ctx with
        | .app, .code writes _ =>
          (reads f.ctx).map (.read i) ++ s.det.writeEvents i f.df writes
        | .app, .accelEncrypt .. => [.park i]
        | _, _ => []
      | none => []
    | _ => []
  | _ => []

/-- The runtime with the history of its pages. -/
abbrev pageStep (c : Config σ γ) (reads : σ → List Nat) :
    Runtime σ γ × PageHistory → Act → Option (Runtime σ γ × PageHistory) :=
  Machine.noted (step c) (pageEvents c reads)

/-- The runtime with `RT_DETECT` on, and no event yet. -/
def detecting (mem : γ) (kinds : MutexId → MutexKind) : Runtime σ γ × PageHistory :=
  (Runtime.init mem true kinds, [])

/-- The history explains the runtime. -/
structure PagesInv (c : Config σ γ) (s : Runtime σ γ × PageHistory) : Prop where
  formed : Formed c s.1
  tracked : Tracked s.1.det s.1.dfs s.1.nfib s.1.pc.running s.2

theorem detecting_pagesInv (c : Config σ γ) (mem : γ) (kinds : MutexId → MutexKind) :
    PagesInv c (detecting mem kinds) := by
  refine ⟨init_formed c mem true kinds, rfl, ?_, ?_, ?_, ?_, ?_, ?_, ?_, ?_, explained_nil, rfl⟩
  all_goals simp [detecting, Runtime.init, Runtime.dfs, Detector.off, Pc.running]

namespace Runtime

/-- Only plain code and an offload touch the detector in a slice. -/
theorem slice_det {c : Config σ γ} {s s' : Runtime σ γ} {i : Nat} {f : Fiber σ} {out : Out}
    (taken : Slice c s i f out s')
    (plain : ∀ writes next, f.place = .app → c.app.code f.ctx ≠ .code writes next)
    (offloads : ∀ buf k, f.place = .app → c.app.code f.ctx ≠ .accelEncrypt buf k) :
    s'.det = s.det ∧ ∃ f', s'.fibs i = some f' ∧ f'.df = f.df := by
  cases taken with
  | plain place code => exact absurd code (plain _ _ place)
  | offload place code => exact absurd code (offloads _ _ place)
  | lockBusy | ioReturn | ioPark | pollPass | pollRet | offloadRet | lockTaken | lockFailed
  | lockWait | errQueue | close | condWake | exit =>
    exact ⟨rfl, _, Function.update_self .., rfl⟩
  | pollPark =>
    unfold yieldIoTo
    split <;> exact ⟨rfl, _, Function.update_self .., rfl⟩
  | unlock =>
    unfold mutexUnlock releaseMutex
    dsimp only
    split <;> exact ⟨rfl, _, Function.update_self .., rfl⟩
  | condWait =>
    unfold fiberCondWait releaseMutex
    dsimp only
    split <;> exact ⟨rfl, _, Function.update_self .., rfl⟩

theorem dfs_eq_some {s : Runtime σ γ} {i : Nat} {df : DetFib} :
    s.dfs i = some df ↔ ∃ f, s.fibs i = some f ∧ f.df = df := by
  rw [dfs, Option.map_eq_some_iff]

theorem wakeFibers_dfs (s : Runtime σ γ) (c : Option CondId) : (s.wakeFibers c).dfs = s.dfs := by
  funext j
  change (if j < s.nfib then (s.fibs j).map (wakeOne c) else s.fibs j).map Fiber.df = _
  split
  · rw [Option.map_map]
    apply congrArg (fun g => (s.fibs j).map g)
    funext f
    unfold wakeOne
    dsimp only [Function.comp]
    split <;> rfl
  · rfl

theorem update_dfs (fibs : Nat → Option (Fiber σ)) (i : Nat) (f : Fiber σ) :
    (fun j => (Function.update fibs i (some f) j).map Fiber.df) =
      Function.update (fun j => (fibs j).map Fiber.df) i (some f.df) := by
  funext j
  by_cases here : j = i
  · subst here
    simp
  · simp [Function.update_of_ne here]

/-- A slice changes the `det_fib` of the fiber it runs alone. -/
theorem slice_dfs {c : Config σ γ} {s s' : Runtime σ γ} {i : Nat} {f : Fiber σ} {out : Out}
    (taken : Slice c s i f out s') :
    ∃ f', s'.fibs i = some f' ∧ s'.dfs = Function.update s.dfs i (some f'.df) := by
  obtain ⟨f', fibs, _, woken, same, _⟩ := slice_fibs taken
  refine ⟨f', by rw [same, Function.update_self], ?_⟩
  unfold dfs
  rw [same, update_dfs]
  rcases woken with rfl | ⟨cv, k, _, rfl⟩
  · rfl
  · exact congrArg (fun g => Function.update g i _) (wakeFibers_dfs s (some cv))

section Background

variable {c : Config σ γ} {s s' : Runtime σ γ} {a : Act}

/-- The step neither runs a fiber nor switches one in. -/
def Aside (s : Runtime σ γ) (a : Act) : Prop :=
  ∀ out i, a = .carrier out →
    s.pc ≠ .slice i ∧ ∀ f, s.pc = .run i → s.fibs i = some f → ¬ f.Runnable

theorem aside_det (taken : step c s a = some s') (aside : s.Aside a) : s'.det = s.det := by
  cases stepped taken with
  | create arg =>
    unfold pthreadCreate
    dsimp only
    split <;> rfl
  | reserveNone | reserve | publish | threadLock | threadUnlock | socket | device => rfl
  | @round out _ taken =>
    cases taken with
    | intake => rw [intake_eq]
    | epoll =>
      obtain ⟨epoll, fibs, same⟩ := deliverAll_frame s out.events
      rw [epollWait, same]
    | goOn | offloadDone | drain | expire | free => rfl
    | @switchIn i f pc live runnable => exact absurd runnable ((aside out i rfl).2 f pc live)
    | @slice i _ _ pc => exact absurd pc (aside out i rfl).1

theorem aside_dfs (formed : Formed c s) (taken : step c s a = some s') (aside : s.Aside a)
    {j : Nat} {df : DetFib} (live : s'.dfs j = some df) :
    s.dfs j = some df ∨ (s.nfib ≤ j ∧ j < s'.nfib ∧ df.parkClk = 0) := by
  obtain ⟨f', live', rfl⟩ := dfs_eq_some.mp live
  rcases step_fiber taken live' with ⟨f, was, moved⟩ | ⟨g, queued, rfl, above, below, _⟩
  · left
    refine dfs_eq_some.mpr ⟨f, was, ?_⟩
    cases moved with
    | keep | event | offloaded | woken | expired => rfl
    | switchIn pc runnable => exact absurd runnable ((aside _ j rfl).2 f pc was)
    | slice pc => exact absurd pc (aside _ j rfl).1
  · obtain ⟨arg, number, rfl⟩ := formed.queue g queued
    exact Or.inr ⟨above, below, rfl⟩

theorem aside_running (taken : step c s a = some s') (aside : s.Aside a) {out : Out}
    (carrier : a = .carrier out) : s'.pc.running = none := by
  cases pc : s'.pc with
  | slice i =>
    rcases step_switched taken pc with ⟨old, _⟩ | ⟨old, _⟩ | ⟨old, f, live, runnable, _⟩
    · exact absurd old (aside out i carrier).1
    · exact absurd old (aside out i carrier).1
    · exact absurd runnable ((aside out i carrier).2 f old live)
  | _ => rfl

theorem aside_events (reads : σ → List Nat) (aside : s.Aside a) : pageEvents c reads s a = [] := by
  unfold pageEvents
  cases a with
  | carrier out =>
    dsimp only
    cases pc : s.pc with
    | run i =>
      dsimp only
      cases live : s.fibs i with
      | none => rfl
      | some f => exact if_neg ((aside out i rfl).2 f pc live)
    | slice i => exact absurd pc (aside out i rfl).1
    | _ => rfl
  | _ => rfl

end Background

end Runtime

open TransparentOffload.Runtime

/-- What a slice of fiber `i` does to the history. -/
theorem slice_tracked {c : Config σ γ} {reads : σ → List Nat} {s s' : Runtime σ γ} {i : Nat}
    {f : Fiber σ} {out : Out} {h : PageHistory} (live : s.fibs i = some f) (pc : s.pc = .slice i)
    (tracked : Tracked s.det s.dfs s.nfib s.pc.running h) (taken : Slice c s i f out s') :
    Tracked s'.det s'.dfs s'.nfib s'.pc.running
      ((pageEvents c reads s (.carrier out)).reverse ++ h) := by
  have df : s.dfs i = some f.df := dfs_eq_some.mpr ⟨f, live, rfl⟩
  have same : Function.update s.dfs i (some f.df) = s.dfs := by rw [← df, Function.update_eq_self]
  rw [pc] at tracked
  by_cases plain : f.place = .app ∧ ∃ writes next, c.app.code f.ctx = .code writes next
  · obtain ⟨place, writes, next, code⟩ := plain
    have events : pageEvents c reads s (.carrier out) =
        (reads f.ctx).map (.read i) ++ s.det.writeEvents i f.df writes := by
      simp only [pageEvents, pc, live, place, code]
    obtain ⟨df', found, active⟩ := tracked.active i rfl
    rw [df, Option.some.injEq] at found
    have after := (tracked.reads (reads f.ctx)).writes df (found ▸ active) writes
    rw [slice_code taken code, events, List.reverse_append, List.append_assoc]
    change Tracked (s.det.stores f.df writes) (fun j => (Function.update s.fibs i _ j).map Fiber.df)
      s.nfib s.pc.running _
    rw [update_dfs, pc]
    change Tracked _ (Function.update s.dfs i (some f.df)) _ _ _
    rw [same]
    exact after
  by_cases offloads : f.place = .app ∧ ∃ buf k, c.app.code f.ctx = .accelEncrypt buf k
  · obtain ⟨place, buf, k, code⟩ := offloads
    have events : pageEvents c reads s (.carrier out) = [.park i] := by
      simp only [pageEvents, pc, live, place, code]
    rcases slice_accel taken code with ⟨_, rfl⟩ | ⟨id, elsewhere, _⟩
    · rw [events]
      change Tracked (s.det.detPark f.df).1
        (fun j => (Function.update s.fibs i _ j).map Fiber.df) s.nfib none _
      rw [update_dfs]
      exact tracked.park df
    · rw [place] at elsewhere
      cases elsewhere
  · obtain ⟨det, g, there, kept⟩ := slice_det taken
      (fun writes next place code => plain ⟨place, writes, next, code⟩)
      (fun buf k place code => offloads ⟨place, buf, k, code⟩)
    obtain ⟨f', now, dfs⟩ := slice_dfs taken
    rw [there, Option.some.injEq] at now
    rw [← now, kept, same] at dfs
    have events : pageEvents c reads s (.carrier out) = [] := by
      simp only [pageEvents, pc, live]
      split
      · rename_i writes next place code
        exact absurd ⟨place, writes, next, code⟩ plain
      · rename_i buf k place code
        exact absurd ⟨place, buf, k, code⟩ offloads
      · rfl
    rw [events, det, dfs, (Steady.slice live taken).nfib]
    obtain ⟨_, _, _, _, _, ended | ⟨stays, _⟩⟩ := slice_fibs taken
    · rw [ended]
      exact tracked.background (Nat.le_refl _) fun j df' live => Or.inl live
    · rw [stays, pc]
      exact tracked

/-- One step keeps the history in agreement with the runtime. -/
theorem step_pagesInv {c : Config σ γ} {reads : σ → List Nat} {s s' : Runtime σ γ × PageHistory}
    {a : Act} (inv : PagesInv c s) (taken : pageStep c reads s a = some s') : PagesInv c s' := by
  obtain ⟨taken, history⟩ := Machine.noted_eq_some.mp taken
  refine ⟨step_formed inv.formed taken, ?_⟩
  rw [history]
  rcases sliced_or_still taken with ⟨out, i, f, rfl, pc, live, slice⟩ | still
  · exact slice_tracked live pc inv.tracked slice
  by_cases switched : ∃ out i f, a = .carrier out ∧ s.1.pc = .run i ∧ s.1.fibs i = some f ∧
      f.Runnable
  · obtain ⟨out, i, f, rfl, pc, live, runnable⟩ := switched
    have events : pageEvents c reads s.1 (.carrier out) = [.resume i] := by
      simp only [pageEvents, pc, live]
      exact if_pos runnable
    have tracked := inv.tracked
    rw [pc] at tracked
    have switched : f.switchedIn.df = { f.df with active := true } := by
      unfold Fiber.switchedIn
      dsimp only
      split <;> rfl
    rw [step_run inv.formed pc live runnable, Option.some.injEq] at taken
    obtain ⟨errno, errq, same⟩ := switchIn_frame c s.1 i f
    rw [events, ← taken, same]
    change Tracked s.1.det.detReprotect
      (fun j => (Function.update s.1.fibs i (some f.switchedIn) j).map Fiber.df) s.1.nfib (some i) _
    rw [update_dfs, switched]
    exact tracked.resume (dfs_eq_some.mpr ⟨f, live, rfl⟩)
  · have aside : s.1.Aside a := by
      intro out i carrier
      refine ⟨still out i carrier, ?_⟩
      exact fun f pc live runnable => switched ⟨out, i, f, carrier, pc, live, runnable⟩
    rw [aside_events reads aside, aside_det taken aside]
    by_cases carrier : ∃ out, a = .carrier out
    · obtain ⟨out, carrier⟩ := carrier
      rw [aside_running taken aside carrier]
      exact inv.tracked.background (step_growing taken).1
        fun j df live => aside_dfs inv.formed taken aside live
    · obtain ⟨pc, fibs, _⟩ := step_other taken fun out same => carrier ⟨out, same⟩
      have grows := (step_growing taken).1
      unfold dfs
      rw [pc, fibs]
      exact { inv.tracked with
        untaken := fun j above => inv.tracked.untaken j (Nat.le_trans grows above) }

end TransparentOffload
