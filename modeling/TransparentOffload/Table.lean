import TransparentOffload.Steps

set_option autoImplicit false

/- The fiber table over a whole run: `newq`, `fibs` with `nfib`, and the fibers
freed. Only three steps touch them; every other step is `Steady`. -/
namespace TransparentOffload

variable {σ γ : Type}

/-- What the table says of a fiber: which one it is, and its `slot`. -/
def Fiber.tag (f : Fiber σ) : Nat × Nat := (f.number, f.slot)

/-- The table entries up to everything that is not the fibers' identity. -/
def tags (fibs : Nat → Option (Fiber σ)) : Nat → Option (Nat × Nat) :=
  fun j => (fibs j).map Fiber.tag

theorem tags_update {fibs : Nat → Option (Fiber σ)} {i : Nat} {f f' : Fiber σ}
    (live : fibs i = some f) (same : f'.tag = f.tag) :
    tags (Function.update fibs i (some f')) = tags fibs := by
  funext j
  by_cases here : j = i
  · subst here
    simp [tags, live, same]
  · simp [tags, here]

theorem tags_map {fibs : Nat → Option (Fiber σ)} {g : Fiber σ → Fiber σ} (i : Nat)
    (same : ∀ f, (g f).tag = f.tag) :
    tags (Function.update fibs i ((fibs i).map g)) = tags fibs := by
  funext j
  by_cases here : j = i
  · subst here
    cases live : fibs j with
    | none => simp [tags, live]
    | some f => simp [tags, live, same]
  · simp [tags, here]

theorem wakeOne_tag (c : Option CondId) (f : Fiber σ) : (Runtime.wakeOne c f).tag = f.tag := by
  unfold Runtime.wakeOne
  split <;> rfl

theorem wakeIo_tag (f : Fiber σ) : (Runtime.wakeIo f).tag = f.tag := by
  unfold Runtime.wakeIo
  split <;> rfl

/-- A step that moves no fiber between the queue, the table and the free list. -/
structure Steady (s s' : Runtime σ γ) : Prop where
  newq : s'.newq = s.newq
  nfib : s'.nfib = s.nfib
  created : s'.gConnFibers = s.gConnFibers
  freed : s'.freed = s.freed
  newqStores : s'.newqStores = s.newqStores
  fibsStores : s'.fibsStores = s.fibsStores
  tags : TransparentOffload.tags s'.fibs = TransparentOffload.tags s.fibs

namespace Steady

theorem refl (s : Runtime σ γ) : Steady s s := ⟨rfl, rfl, rfl, rfl, rfl, rfl, rfl⟩

theorem trans {s t u : Runtime σ γ} (first : Steady s t) (second : Steady t u) : Steady s u :=
  ⟨second.newq.trans first.newq, second.nfib.trans first.nfib,
    second.created.trans first.created, second.freed.trans first.freed,
    second.newqStores.trans first.newqStores, second.fibsStores.trans first.fibsStores,
    second.tags.trans first.tags⟩

theorem wakeFibers (s : Runtime σ γ) (c : Option CondId) : Steady s (s.wakeFibers c) := by
  refine ⟨rfl, rfl, rfl, rfl, rfl, rfl, ?_⟩
  funext j
  change ((if j < s.nfib then (s.fibs j).map (Runtime.wakeOne c) else s.fibs j).map Fiber.tag) = _
  split
  · cases live : s.fibs j with
    | none => simp [TransparentOffload.tags, live]
    | some f => simp [TransparentOffload.tags, live, wakeOne_tag]
  · rfl

theorem deliver (s : Runtime σ γ) (fd : Fd) : Steady s (s.deliver fd) := by
  unfold Runtime.deliver
  split
  · exact refl s
  · rename_i i reported
    exact ⟨rfl, rfl, rfl, rfl, rfl, rfl, tags_map i wakeIo_tag⟩

theorem deliverAll (s : Runtime σ γ) (fds : List Fd) :
    Steady s (fds.foldl Runtime.deliver s) := by
  induction fds generalizing s with
  | nil => exact refl s
  | cons fd rest ih => exact (deliver s fd).trans (ih _)

/-- Every slice writes back the running fiber under its own tag. -/
theorem slice {c : Config σ γ} {s s' : Runtime σ γ} {i : Nat} {f : Fiber σ} {out : Out}
    (live : s.fibs i = some f) (taken : Runtime.Slice c s i f out s') : Steady s s' := by
  have setBack : ∀ f' : Fiber σ, f'.tag = f.tag →
      TransparentOffload.tags (Function.update s.fibs i (some f')) =
        TransparentOffload.tags s.fibs := fun f' same => tags_update live same
  cases taken with
  | plain => exact ⟨rfl, rfl, rfl, rfl, rfl, rfl, setBack _ rfl⟩
  | lockBusy => exact ⟨rfl, rfl, rfl, rfl, rfl, rfl, setBack _ rfl⟩
  | ioReturn => exact ⟨rfl, rfl, rfl, rfl, rfl, rfl, setBack _ rfl⟩
  | ioPark => exact ⟨rfl, rfl, rfl, rfl, rfl, rfl, setBack _ rfl⟩
  | pollPass => exact ⟨rfl, rfl, rfl, rfl, rfl, rfl, setBack _ rfl⟩
  | pollPark =>
    unfold Runtime.yieldIoTo
    split <;> exact ⟨rfl, rfl, rfl, rfl, rfl, rfl, setBack _ rfl⟩
  | pollRet => exact ⟨rfl, rfl, rfl, rfl, rfl, rfl, setBack _ rfl⟩
  | offload =>
    refine ⟨rfl, rfl, rfl, rfl, rfl, rfl, setBack _ ?_⟩
    rfl
  | offloadRet => exact ⟨rfl, rfl, rfl, rfl, rfl, rfl, setBack _ rfl⟩
  | lockTaken => exact ⟨rfl, rfl, rfl, rfl, rfl, rfl, setBack _ rfl⟩
  | lockWait => exact ⟨rfl, rfl, rfl, rfl, rfl, rfl, setBack _ rfl⟩
  | lockFailed => exact ⟨rfl, rfl, rfl, rfl, rfl, rfl, setBack _ rfl⟩
  | unlock =>
    unfold Runtime.mutexUnlock Runtime.releaseMutex
    dsimp only
    split <;> exact ⟨rfl, rfl, rfl, rfl, rfl, rfl, setBack _ rfl⟩
  | condWait =>
    unfold Runtime.fiberCondWait Runtime.releaseMutex
    dsimp only
    split <;> exact ⟨rfl, rfl, rfl, rfl, rfl, rfl, setBack _ rfl⟩
  | @condWake cv ctx =>
    refine (wakeFibers s (some cv)).trans ⟨rfl, rfl, rfl, rfl, rfl, rfl, ?_⟩
    have woken : TransparentOffload.tags (s.wakeFibers (some cv)).fibs i = some f.tag := by
      rw [(wakeFibers s (some cv)).tags]
      simp [TransparentOffload.tags, live]
    obtain ⟨g, live', same⟩ := Option.map_eq_some_iff.mp woken
    exact tags_update live' same.symm
  | errQueue => exact ⟨rfl, rfl, rfl, rfl, rfl, rfl, setBack _ rfl⟩
  | close => exact ⟨rfl, rfl, rfl, rfl, rfl, rfl, setBack _ rfl⟩
  | exit => exact ⟨rfl, rfl, rfl, rfl, rfl, rfl, setBack _ rfl⟩

end Steady

/-- What a step of any party does to the fiber table. -/
inductive TableStep (s : Runtime σ γ) : Act → Runtime σ γ → Prop
  | create {arg : Nat} (start : σ) : TableStep s (.create arg) (s.pthreadCreate start)
  | intake {out : Out} (pc : s.pc = .intake) : TableStep s (.carrier out) s.intake
  | free {out : Out} {s' : Runtime σ γ} {i : Nat} {f : Fiber σ} (pc : s.pc = .back i)
      (live : s.fibs i = some f) (done : f.state = .done)
      (fibs : s'.fibs = Function.update s.fibs i none)
      (freed : s'.freed = s.freed ++ [f.number])
      (stores : s'.fibsStores = s.fibsStores ++ [i])
      (rest : s'.newq = s.newq ∧ s'.nfib = s.nfib ∧ s'.gConnFibers = s.gConnFibers ∧
        s'.newqStores = s.newqStores) : TableStep s (.carrier out) s'
  | steady {a : Act} {s' : Runtime σ γ} (creates : ∀ arg, a ≠ .create arg)
      (intakes : ∀ out, a = .carrier out → s.pc ≠ .intake) (same : Steady s s') :
      TableStep s a s'

theorem round_table {c : Config σ γ} {s s' : Runtime σ γ} {out : Out}
    (taken : Runtime.Round c s out s') : TableStep s (.carrier out) s' := by
  have notIntake : ∀ p, p ≠ Pc.intake → s.pc = p →
      ∀ out', Act.carrier out = .carrier out' → s.pc ≠ .intake :=
    fun p other pc _ _ => pc ▸ other
  cases taken with
  | intake pc => exact .intake pc
  | epoll pc =>
    refine .steady (by simp) (notIntake _ (by simp) pc) ?_
    have same := Steady.deliverAll s out.events
    exact ⟨same.newq, same.nfib, same.created, same.freed, same.newqStores, same.fibsStores,
      same.tags⟩
  | goOn looping =>
    refine .steady (by simp) ?_ ⟨rfl, rfl, rfl, rfl, rfl, rfl, rfl⟩
    intro _ _ pc
    rw [pc] at looping
    cases looping
  | offloadDone pc live =>
    exact .steady (by simp) (notIntake _ (by simp) pc)
      ⟨rfl, rfl, rfl, rfl, rfl, rfl, tags_update live rfl⟩
  | drain pc =>
    refine .steady (by simp) (notIntake _ (by simp) pc) ?_
    have same := Steady.wakeFibers { s with pend := s.pend.advance } (s.pend.front pendN)
    exact ⟨same.newq, same.nfib, same.created, same.freed, same.newqStores, same.fibsStores,
      same.tags⟩
  | expire pc live =>
    exact .steady (by simp) (notIntake _ (by simp) pc)
      ⟨rfl, rfl, rfl, rfl, rfl, rfl, tags_update live rfl⟩
  | @switchIn i f pc live =>
    refine .steady (by simp) (notIntake _ (by simp) pc) ?_
    unfold Runtime.switchIn
    dsimp only
    split <;> exact ⟨rfl, rfl, rfl, rfl, rfl, rfl, tags_update live rfl⟩
  | slice pc live taken =>
    exact .steady (by simp) (notIntake _ (by simp) pc) (.slice live taken)
  | free pc live done => exact .free pc live done rfl rfl rfl ⟨rfl, rfl, rfl, rfl⟩

/-- Only a create, an intake and a reap touch the table. -/
theorem step_table {c : Config σ γ} {s s' : Runtime σ γ} {a : Act}
    (taken : step c s a = some s') : TableStep s a s' := by
  cases stepped taken with
  | create arg => exact .create _
  | reserveNone | reserve | publish | threadLock | threadUnlock | device =>
    exact .steady (by simp) (by simp) ⟨rfl, rfl, rfl, rfl, rfl, rfl, rfl⟩
  | socket fd k peer =>
    rcases peer with ⟨bs, rfl, rfl⟩ | ⟨rfl, rfl⟩
    · exact .steady (by simp) (by simp) ⟨rfl, rfl, rfl, rfl, rfl, rfl, rfl⟩
    · exact .steady (by simp) (by simp) ⟨rfl, rfl, rfl, rfl, rfl, rfl, rfl⟩
  | round taken => exact round_table taken

end TransparentOffload
