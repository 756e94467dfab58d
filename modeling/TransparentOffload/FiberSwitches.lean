import TransparentOffload.FwFiber

set_option autoImplicit false

/- What a fiber finds when it is resumed, in runs with any number of fibers, whatever
the others did meanwhile. A fiber is named by the address of its `fw_fiber`. -/
namespace TransparentOffload.FwFiber

open ByteMemory Coroutines

variable {R : Type}

/-- The acts take the thread from `s` to `s'` without running fiber `f`. -/
def Aside (P : Port R) (f : Word) (s s' : Sys R) (acts : List (Act R)) : Prop :=
  Machine.run (step P) s acts = some s' ∧
    Machine.Always (step P) (fun u => u.cur.cell ≠ f) s acts

/-- Fiber `f` switches away with the act `a`, and it is next resumed with the act `b`. -/
structure Away (P : Port R) (f : Word) (s₁ : Sys R) (a : Act R) (s₂ : Sys R)
    (between : List (Act R)) (s₃ : Sys R) (b : Act R) (s₄ : Sys R) : Prop where
  running : s₁.cur.cell = f
  out : step P s₁ a = some s₂
  aside : Aside P f s₂ s₃ between
  back : step P s₃ b = some s₄
  resumed : s₄.cur.cell = f

/-- Fiber `f` is made with the act `a`, and it is first switched to with the act `b`. -/
structure FirstIn (P : Port R) (f : Word) (s₁ : Sys R) (a : Act R) (s₂ : Sys R)
    (between : List (Act R)) (s₃ : Sys R) (b : Act R) (s₄ : Sys R) : Prop where
  makes : ∃ stackSize entry arg link base, a = .make f stackSize entry arg link base
  made : step P s₁ a = some s₂
  aside : Aside P f s₂ s₃ between
  back : step P s₃ b = some s₄
  resumed : s₄.cur.cell = f

/-- In the run, `f` switches away from `s₁` and is next resumed from `s₃`. -/
inductive Resumes (P : Port R) (s₀ : Sys R) :
    List (Act R) → Word → Sys R → List (Act R) → Sys R → Prop
  | intro {front between rest : List (Act R)} {a b : Act R} {f : Word} {s₁ s₂ s₃ s₄ : Sys R}
      (reached : Machine.run (step P) s₀ front = some s₁)
      (away : Away P f s₁ a s₂ between s₃ b s₄) :
      Resumes P s₀ (front ++ a :: (between ++ b :: rest)) f s₁ between s₃

/-- In the run, `f` is made and is first switched to from `s₃`. -/
inductive Starts (P : Port R) (s₀ : Sys R) : List (Act R) → Word → Sys R → Prop
  | intro {front between rest : List (Act R)} {a b : Act R} {f : Word} {s₁ s₂ s₃ s₄ : Sys R}
      (reached : Machine.run (step P) s₀ front = some s₁)
      (first : FirstIn P f s₁ a s₂ between s₃ b s₄) :
      Starts P s₀ (front ++ a :: (between ++ b :: rest)) f s₃

/-- The processor as the `fw_fiber_switch` to `f` returns, on the stack of `f`. -/
def returned (P : Port R) (s : Sys R) (f : Word) : Cpu R := fwFiberSwitch P s.cpu s.cur.cell f

theorem init_wellFormed (P : Port R) (cpu : Cpu R) (self : Word) (stack : Region)
    (separate : (Region.mk self fwFiberBytes).Apart stack) :
    WellFormed P.toSwitcher (init cpu self stack separate) := by
  have only : ∀ t ∈ (init cpu self stack separate).tasks, t = fiberTask self stack separate :=
    fun t known => List.mem_singleton.mp known
  refine ⟨List.mem_singleton_self _, ?_, ?_⟩
  · intro t known u known' different
    exact absurd ((only t known).trans (only u known').symm) different
  · intro t known other
    exact absurd (only t known) other

section Steps

variable {P : Port R} {s s' : Sys R} {a : Act R} {f : Word}

theorem step_wellFormed (formed : WellFormed P.toSwitcher s) (taken : step P s a = some s') :
    WellFormed P.toSwitcher s' := (step_coroutine formed taken).wellFormed formed

theorem run_wellFormed {acts : List (Act R)} (formed : WellFormed P.toSwitcher s)
    (ran : Machine.run (step P) s acts = some s') : WellFormed P.toSwitcher s' :=
  Machine.invariant_reached (fun _ _ _ formed taken => step_wellFormed formed taken) formed ran

/-- A step that makes another fiber run is a switch to it. -/
theorem step_switches (taken : step P s a = some s') (left : s.cur.cell ≠ f)
    (resumed : s'.cur.cell = f) : switchTo P s f = some s' := by
  cases a with
  | make =>
    obtain ⟨_, _, _, _, rfl⟩ := step_make_eq_some taken
    exact absurd resumed left
  | work =>
    obtain ⟨_, rfl⟩ := step_work_eq_some taken
    exact absurd resumed left
  | switch to_ =>
    have switched : switchTo P s to_ = some s' := taken
    obtain ⟨t, _, cell, _, _, rfl⟩ := switchTo_eq_some switched
    rwa [← resumed, cell]
  | finish =>
    have switched := step_finish_eq_some taken
    obtain ⟨t, _, cell, _, _, rfl⟩ := switchTo_eq_some switched
    rwa [← resumed, cell]

/-- Another fiber can always be switched to while the stack does not overflow. -/
theorem switchTo_of_known {t : Task} (known : t ∈ s.tasks) (other : t.cell ≠ s.cur.cell)
    (room : (below (P.sp s.cpu.regs) P.frame).Sub s.cur.stack) :
    ∃ s', switchTo P s t.cell = some s' ∧ s'.cur.cell = t.cell := by
  unfold switchTo
  cases found : s.tasks.find? fun u => u.cell = t.cell with
  | none =>
    have missed := List.find?_eq_none.mp found t known
    simp at missed
  | some u =>
    dsimp only
    rw [if_pos ⟨other, room⟩]
    exact ⟨_, rfl, (mem_of_find found).2⟩

/-- A fiber that rests goes on resting while it does not run. -/
theorem rests_aside {t : Task} {ws : List Word} {sp : Word} (formed : WellFormed P.toSwitcher s)
    (known : t ∈ s.tasks) (rests : Rests P.toSwitcher s.cpu.mem t ws sp)
    {acts : List (Act R)} (aside : Aside P t.cell s s' acts) :
    WellFormed P.toSwitcher s' ∧ t ∈ s'.tasks ∧ s'.cur.cell ≠ t.cell ∧
      Rests P.toSwitcher s'.cpu.mem t ws sp := by
  obtain ⟨ran, always⟩ := aside
  induction acts generalizing s with
  | nil =>
    cases ran
    exact ⟨formed, known, always, rests⟩
  | cons a rest ih =>
    obtain ⟨u, taken, ran⟩ := Machine.run_cons_eq_some.mp ran
    obtain ⟨here, later⟩ := always
    have next := later u taken
    have moved := step_coroutine formed taken
    have before : t ≠ s.cur := fun same => here (same ▸ rfl)
    have after : t ≠ u.cur := fun same => next.head (same ▸ rfl)
    exact ih (moved.wellFormed formed) (moved.known known)
      (moved.aside formed known before after rests) ran next

/-- A fiber that rests is resumed with what it was to find. -/
theorem switchTo_resumes {t : Task} {ws : List Word} {sp : Word}
    (formed : WellFormed P.toSwitcher s) (known : t ∈ s.tasks)
    (rests : Rests P.toSwitcher s.cpu.mem t ws sp) (switched : switchTo P s t.cell = some s') :
    P.kept (returned P s t.cell).regs = ws ∧ P.sp (returned P s t.cell).regs = sp ∧
      s'.cpu = P.land (returned P s t.cell) := by
  obtain ⟨u, _, _, different, room, rfl⟩ := switchTo_eq_some switched
  have other : t ≠ s.cur := fun same => different (same ▸ rfl)
  have resumed := call_resumes (formed.apart t known s.cur formed.current other) room rests
  exact ⟨resumed.1, resumed.2, rfl⟩

end Steps

/-- A resumed fiber finds the registers and the stack pointer of its last switch-out. -/
theorem Away.returned {P : Port R} {f : Word} {s₁ s₂ s₃ s₄ : Sys R} {a b : Act R}
    {between : List (Act R)} (formed : WellFormed P.toSwitcher s₁)
    (away : Away P f s₁ a s₂ between s₃ b s₄) :
    P.kept (FwFiber.returned P s₃ f).regs = P.kept s₁.cpu.regs ∧
      P.sp (FwFiber.returned P s₃ f).regs = P.sp s₁.cpu.regs ∧
      s₄.cpu = P.land (FwFiber.returned P s₃ f) := by
  obtain ⟨rfl, out, aside, back, resumed⟩ := away
  have moved := step_coroutine formed out
  have left : s₂.cur ≠ s₁.cur := by
    exact fun same => aside.2.head (same ▸ rfl)
  obtain ⟨formed', known, other, rests⟩ := rests_aside (moved.wellFormed formed)
    (moved.known formed.current) (moved.away formed left) aside
  exact switchTo_resumes formed' known rests (step_switches back other resumed)

/-- A fiber that is run for the first time finds its first frame, at the end of its
stack. -/
theorem FirstIn.returned {P : Port R} {f : Word} {s₁ s₂ s₃ s₄ : Sys R} {a b : Act R}
    {between : List (Act R)} (formed : WellFormed P.toSwitcher s₁)
    (first : FirstIn P f s₁ a s₂ between s₃ b s₄) :
    P.kept (FwFiber.returned P s₃ f).regs = P.firstWords f ∧
      s₄.cpu = P.land (FwFiber.returned P s₃ f) := by
  obtain ⟨⟨stackSize, entry, arg, link, base, rfl⟩, made, aside, back, resumed⟩ := first
  have moved := step_coroutine formed made
  obtain ⟨bound, aligned, separate, _, rfl⟩ := step_make_eq_some made
  obtain ⟨formed', known, other, rests⟩ := rests_aside
    (t := fiberTask f ⟨base, (allocSize stackSize).toNat⟩ separate) (moved.wellFormed formed)
    List.mem_cons_self (fwFiberMake_rests bound aligned separate) aside
  obtain ⟨kept, _, landed⟩ :=
    switchTo_resumes formed' known rests (step_switches back other resumed)
  exact ⟨kept, landed⟩

/-- A run changes nothing of an object but its cell. -/
theorem run_object {P : Port R} {s s' : Sys R} {acts : List (Act R)} {t : Task}
    (formed : WellFormed P.toSwitcher s) (known : t ∈ s.tasks)
    (ran : Machine.run (step P) s acts = some s') {x : Word} (own : x ∈ t.object)
    (rest : x ∉ wordAt t.cell) : s'.cpu.mem x = s.cpu.mem x := by
  induction acts generalizing s with
  | nil =>
    cases ran
    rfl
  | cons a later ih =>
    obtain ⟨u, taken, ran⟩ := Machine.run_cons_eq_some.mp ran
    have moved := step_coroutine formed taken
    rw [ih (moved.wellFormed formed) (moved.known known) ran]
    exact moved.object formed known own rest

/-- The bytes of the link are in the `fw_fiber`, behind its `sp`. -/
theorem link_inside {f x : Word} (member : x ∈ wordAt (f + linkOffset)) :
    x ∈ Region.mk f fwFiberBytes ∧ x ∉ wordAt f := by
  change (x - (f + 40)).toNat < 8 at member
  constructor
  · change (x - f).toNat < 48
    bv_omega
  · intro cell
    change (x - f).toNat < 8 at cell
    bv_omega

/-- `fw_fiber_make` stores the link. -/
theorem fwFiberMake_link {P : Port R} {m : Mem} {f stackSize entry arg link base : Word}
    (bound : stackSize.toNat ≤ 2 ^ 63) (aligned : base.toNat % 4096 = 0)
    (separate : (Region.mk f fwFiberBytes).Apart ⟨base, (allocSize stackSize).toNat⟩) :
    readWord (fwFiberMake P m f stackSize entry arg link base) (f + linkOffset) = link := by
  have stored := stored_storeWords (fill m ⟨base, (allocSize stackSize).toNat⟩ 0) (f + 8)
    [base, allocSize stackSize, entry, arg, link] (by simp)
  have at_ : f + 8 + 8 + 8 + 8 + 8 = f + linkOffset := by
    unfold linkOffset
    bv_omega
  have fifth := stored.2.2.2.2.1
  rw [at_] at fifth
  refine Eq.trans (readWord_congr ?_) fifth
  intro x member
  obtain ⟨object, cell⟩ := link_inside member
  have framed : x ∉ below (base + allocSize stackSize) P.firstBytes :=
    fun inside => separate.not_mem object ((firstFrame_inside bound).mem inside)
  rw [fwFiberMake, writeWord_outside _ _ cell, top_eq bound aligned,
    P.firstFrame_outside _ _ _ _ framed]

/-- A fiber whose entry returns switches to the link it was made with, whatever has
happened since it was made. -/
theorem finish_switches {P : Port R} {f stackSize entry arg link base : Word} {s₁ s₂ s₃ : Sys R}
    {acts : List (Act R)} (formed : WellFormed P.toSwitcher s₁)
    (made : step P s₁ (.make f stackSize entry arg link base) = some s₂)
    (ran : Machine.run (step P) s₂ acts = some s₃) (running : s₃.cur.cell = f) (linked : link ≠ 0) :
    step P s₃ .finish = step P s₃ (.switch link) := by
  have formed' := step_wellFormed formed made
  obtain ⟨bound, aligned, separate, _, rfl⟩ := step_make_eq_some made
  have stored : readWord (fwFiberMake P s₁.cpu.mem f stackSize entry arg link base)
      (f + linkOffset) = link := fwFiberMake_link bound aligned separate
  have kept : readWord s₃.cpu.mem (f + linkOffset) = link := by
    refine Eq.trans (readWord_congr ?_) stored
    intro x member
    obtain ⟨object, cell⟩ := link_inside member
    exact run_object (t := fiberTask f _ separate) formed' List.mem_cons_self ran object cell
  rw [step, step, running, kept, if_neg linked]

end TransparentOffload.FwFiber
