import TransparentOffload.Lib.Coroutines
import TransparentOffload.Lib.Run

set_option autoImplicit false

/- The fibers of `fw_fiber.c` and `fw_fiber.h`, but for what depends on the processor,
and the runs of one thread that makes fibers and switches between them. -/
namespace TransparentOffload.FwFiber

open ByteMemory Coroutines

/-- `sizeof(fw_fiber)`. Its fields are `sp`, `stack_base`, `stack_size`, `entry`, `arg`
and `link`, in this order. -/
abbrev fwFiberBytes : Nat := 48

def linkOffset : Word := 40

/-- `fw_fiber_init_self`. -/
def fwFiberInitSelf (m : Mem) (self : Word) : Mem := storeWords m self [0, 0, 0, 0, 0, 0]

/-- The stack size that `fw_fiber_make` allocates. -/
def allocSize (stackSize : Word) : Word :=
  let stackSize := if stackSize < 16384 then 16384 else stackSize
  (stackSize + 4095) &&& ~~~4095

/-- Where the linker has put the trampoline, the instruction behind its call, and the
function it calls. -/
structure Symbols where
  fwFiberTrampoline : Word
  afterCall : Word
  fwFiberStart : Word

/-- What is compiled for one processor: the switch, the block of `fw_fiber_make` under
its `#if`, which returns the memory and `f->sp`, and the trampoline, which `land` runs
when a switch has returned to its address. -/
structure Port (R : Type) extends Switcher R where
  firstFrame : Mem → Word → Word → Mem × Word
  firstBytes : Nat
  firstWords : Word → List Word
  land : Cpu R → Cpu R
  firstBytes_bounds : frame ≤ firstBytes ∧ firstBytes ≤ 16384
  firstWords_length : ∀ f, (firstWords f).length = words
  firstFrame_outside : ∀ m top f x, x ∉ below top firstBytes → (firstFrame m top f).1 x = m x
  firstFrame_sp : ∀ m top f, (firstFrame m top f).2 = top - BitVec.ofNat 64 firstBytes
  firstFrame_stored : ∀ m top f, Stored (firstFrame m top f).1 (firstFrame m top f).2 (firstWords f)
  land_outside : ∀ cpu x, x ∉ below (sp cpu.regs) frame → (land cpu).mem x = cpu.mem x

variable {R : Type}

/-- `fw_fiber_make`, with `base` the answer of `posix_memalign`. -/
def fwFiberMake (P : Port R) (m : Mem) (f stackSize entry arg link base : Word) : Mem :=
  let stackSize := allocSize stackSize
  let m := fill m ⟨base, stackSize.toNat⟩ 0
  let m := storeWords m (f + 8) [base, stackSize, entry, arg, link]
  let top := (base + stackSize) &&& ~~~0xF
  let framed := P.firstFrame m top f
  writeWord framed.1 f framed.2

/-- `fw_fiber_switch`. -/
def fwFiberSwitch (P : Port R) (cpu : Cpu R) (from_ to_ : Word) : Cpu R :=
  P.call cpu from_ (readWord cpu.mem to_)

/-- A fiber with its `fw_fiber` at `f`. -/
def fiberTask (f : Word) (stack : Region) (separate : (Region.mk f fwFiberBytes).Apart stack) :
    Task :=
  { object := ⟨f, fwFiberBytes⟩, stack := stack, separate := separate
    cellInside := Nat.le_of_ble_eq_true rfl }

/-- What can happen next: a fiber is made; the running fiber changes registers and bytes
of memory; it switches to another fiber; or its entry returns to `fw_fiber_start`. -/
inductive Act (R : Type)
  | make (f stackSize entry arg link base : Word)
  | work (regs : R) (writes : List (Word × BitVec 8))
  | switch (to_ : Word)
  | finish

def poke (m : Mem) (writes : List (Word × BitVec 8)) : Mem :=
  writes.foldl (fun m w => Function.update m w.1 w.2) m

/-- The running fiber switches to the fiber at `to_`, its stack not overflowing. No
caller switches from a fiber to itself. -/
def switchTo (P : Port R) (s : Sys R) (to_ : Word) : Option (Sys R) :=
  match s.tasks.find? fun t => t.cell = to_ with
  | none => none
  | some t =>
    if to_ ≠ s.cur.cell ∧ (below (P.sp s.cpu.regs) P.frame).Sub s.cur.stack then
      some { s with cpu := P.land (fwFiberSwitch P s.cpu s.cur.cell to_), cur := t }
    else none

/-- The byte belongs to a fiber, other than as a byte of the running one's stack. -/
def Foreign (s : Sys R) (x : Word) : Prop :=
  ∃ t ∈ s.tasks, x ∈ t.object ∨ (t.cell ≠ s.cur.cell ∧ x ∈ t.stack)

instance (s : Sys R) (x : Word) : Decidable (Foreign s x) :=
  inferInstanceAs (Decidable (∃ t ∈ s.tasks, _))

/-- The running fiber may make these writes. -/
def Own (s : Sys R) (writes : List (Word × BitVec 8)) : Prop := ∀ w ∈ writes, ¬ Foreign s w.1

instance (s : Sys R) (writes : List (Word × BitVec 8)) : Decidable (Own s writes) :=
  List.decidableBAll (fun w : Word × BitVec 8 => ¬ Foreign s w.1) writes

def step (P : Port R) (s : Sys R) : Act R → Option (Sys R)
  | .make f stackSize entry arg link base =>
    if made : f ≠ 0 ∧ stackSize.toNat ≤ 2 ^ 63 ∧ base.toNat % 4096 = 0 ∧
        (Region.mk f fwFiberBytes).Apart ⟨base, (allocSize stackSize).toNat⟩ then
      let t := fiberTask f ⟨base, (allocSize stackSize).toNat⟩ made.2.2.2
      if ∀ u ∈ s.tasks, t.Apart u then
        some { s with
          cpu := { s.cpu with mem := fwFiberMake P s.cpu.mem f stackSize entry arg link base }
          tasks := t :: s.tasks }
      else none
    else none
  | .work regs writes =>
    if Own s writes then some { s with cpu := ⟨regs, poke s.cpu.mem writes⟩ } else none
  | .switch to_ => switchTo P s to_
  | .finish =>
    let link := readWord s.cpu.mem (s.cur.cell + linkOffset)
    if link = 0 then none else switchTo P s link

/-- The bootstrap fiber runs first; its stack is the thread's. -/
def init (cpu : Cpu R) (self : Word) (stack : Region)
    (separate : (Region.mk self fwFiberBytes).Apart stack) : Sys R :=
  { cpu := { cpu with mem := fwFiberInitSelf cpu.mem self }
    cur := fiberTask self stack separate, tasks := [fiberTask self stack separate] }

/-- A requested size is rounded up to pages without overflow. -/
theorem allocSize_bounds {stackSize : Word} (bound : stackSize.toNat ≤ 2 ^ 63) :
    stackSize.toNat ≤ (allocSize stackSize).toNat ∧ 16384 ≤ (allocSize stackSize).toNat ∧
      (allocSize stackSize).toNat ≤ 2 ^ 63 ∧ (allocSize stackSize).toNat % 4096 = 0 := by
  have rounded : ∀ size : Word, ((size + 4095) &&& ~~~4095).toNat =
      (size + 4095).toNat - (size + 4095).toNat % 4096 := fun size =>
    toNat_and_not (size + 4095) (k := 12) (by omega)
  unfold allocSize
  dsimp only
  rw [rounded]
  split
  · rename_i small
    have least : ((16384 : Word) + 4095).toNat = 20479 := by decide
    rw [least]
    change stackSize.toNat < 16384 at small
    omega
  · rename_i large
    change ¬ stackSize.toNat < 16384 at large
    have sum : (stackSize + 4095).toNat = stackSize.toNat + 4095 := by bv_omega
    rw [sum]
    omega

/-- The top of a fresh stack is its end, which is aligned already. -/
theorem top_eq {stackSize base : Word} (bound : stackSize.toNat ≤ 2 ^ 63)
    (aligned : base.toNat % 4096 = 0) :
    (base + allocSize stackSize) &&& ~~~0xF = base + allocSize stackSize := by
  have size := allocSize_bounds bound
  apply BitVec.eq_of_toNat_eq
  have rounded := toNat_and_not (base + allocSize stackSize) (k := 4) (by omega)
  have whole : (base + allocSize stackSize).toNat % 16 = 0 := by
    rw [BitVec.toNat_add]
    omega
  change ((base + allocSize stackSize) &&& ~~~0xF).toNat = _ at rounded
  omega

section Make

variable {P : Port R} {m : Mem} {f stackSize entry arg link base : Word}

/-- The first frame lies at the end of the stack. -/
theorem firstFrame_inside (bound : stackSize.toNat ≤ 2 ^ 63) :
    (below (base + allocSize stackSize) P.firstBytes).Sub ⟨base, (allocSize stackSize).toNat⟩ := by
  have size := allocSize_bounds bound
  have bytes := P.firstBytes_bounds
  unfold below Region.Sub
  bv_omega

/-- Making a fiber writes its `fw_fiber` and its stack. -/
theorem fwFiberMake_outside (bound : stackSize.toNat ≤ 2 ^ 63) (aligned : base.toNat % 4096 = 0)
    {x : Word} (object : x ∉ Region.mk f fwFiberBytes)
    (stack : x ∉ Region.mk base (allocSize stackSize).toNat) :
    fwFiberMake P m f stackSize entry arg link base x = m x := by
  have cell : x ∉ wordAt f := by
    intro member
    apply object
    change (x - f).toNat < 8 at member
    change (x - f).toNat < 48
    omega
  have fields : x ∉ Region.mk (f + 8) 40 := by
    intro member
    apply object
    change (x - (f + 8)).toNat < 40 at member
    change (x - f).toNat < 48
    bv_omega
  have framed : x ∉ below (base + allocSize stackSize) P.firstBytes :=
    fun member => stack ((firstFrame_inside bound).mem member)
  rw [fwFiberMake, writeWord_outside _ _ cell, top_eq bound aligned,
    P.firstFrame_outside _ _ _ _ framed,
    storeWords_outside _ (n := 40) (by simp) (by omega) fields, fill_outside _ _ stack]

/-- A fiber that has just been made rests in its first frame. -/
theorem fwFiberMake_rests (bound : stackSize.toNat ≤ 2 ^ 63) (aligned : base.toNat % 4096 = 0)
    (separate : (Region.mk f fwFiberBytes).Apart ⟨base, (allocSize stackSize).toNat⟩) :
    Rests P.toSwitcher (fwFiberMake P m f stackSize entry arg link base)
      (fiberTask f ⟨base, (allocSize stackSize).toNat⟩ separate) (P.firstWords f)
      (base + allocSize stackSize - BitVec.ofNat 64 (P.firstBytes - P.frame)) := by
  have size := allocSize_bounds bound
  have bytes := P.firstBytes_bounds
  have pointer : base + allocSize stackSize - BitVec.ofNat 64 (P.firstBytes - P.frame) -
      BitVec.ofNat 64 P.frame = base + allocSize stackSize - BitVec.ofNat 64 P.firstBytes := by
    bv_omega
  have inside : (below (base + allocSize stackSize - BitVec.ofNat 64 (P.firstBytes - P.frame))
      P.frame).Sub ⟨base, (allocSize stackSize).toNat⟩ := by
    unfold below Region.Sub
    dsimp only
    rw [pointer]
    bv_omega
  have words : 8 * (P.firstWords f).length ≤ P.frame := P.firstWords_length f ▸ P.fits
  refine ⟨?_, P.firstWords_length f, ?_, inside⟩
  · change readWord (writeWord _ f _) f = _
    rw [readWord_writeWord, P.firstFrame_sp, top_eq bound aligned, pointer]
  · rw [pointer, fwFiberMake]
    have stored := P.firstFrame_stored (storeWords (fill m ⟨base, (allocSize stackSize).toNat⟩ 0)
      (f + 8) [base, allocSize stackSize, entry, arg, link])
      ((base + allocSize stackSize) &&& ~~~0xF) f
    rw [top_eq bound aligned] at stored ⊢
    rw [P.firstFrame_sp] at stored ⊢
    apply stored.congr words P.bounded
    intro x framed
    symm
    apply writeWord_outside
    intro cell
    apply separate.not_mem (Task.cell_inside (fiberTask f _ separate) cell)
    rw [← pointer] at framed
    exact inside.mem framed

end Make

theorem mem_of_find {s : Sys R} {to_ : Word} {t : Task}
    (found : (s.tasks.find? fun t => t.cell = to_) = some t) : t ∈ s.tasks ∧ t.cell = to_ :=
  ⟨List.mem_of_find?_eq_some found, by simpa using List.find?_some found⟩

theorem poke_outside {m : Mem} {writes : List (Word × BitVec 8)} {x : Word}
    (outside : ∀ w ∈ writes, w.1 ≠ x) : poke m writes x = m x := by
  unfold poke
  induction writes generalizing m with
  | nil => rfl
  | cons w rest ih =>
    have here := outside w List.mem_cons_self
    rw [List.foldl_cons, ih fun w' later => outside w' (List.mem_cons_of_mem w later)]
    exact Function.update_of_ne here.symm ..

/-- What a switch does, and when it can be made. -/
theorem switchTo_eq_some {P : Port R} {s s' : Sys R} {to_ : Word}
    (switched : switchTo P s to_ = some s') : ∃ t ∈ s.tasks, t.cell = to_ ∧ to_ ≠ s.cur.cell ∧
      (below (P.sp s.cpu.regs) P.frame).Sub s.cur.stack ∧
      s' = { s with cpu := P.land (fwFiberSwitch P s.cpu s.cur.cell to_), cur := t } := by
  unfold switchTo at switched
  split at switched
  · cases switched
  · rename_i t found
    split at switched
    · rename_i able
      obtain ⟨known, cell⟩ := mem_of_find found
      exact ⟨t, known, cell, able.1, able.2, (Option.some.inj switched).symm⟩
    · cases switched

section Inversion

variable {P : Port R} {s s' : Sys R}

theorem step_make_eq_some {f stackSize entry arg link base : Word}
    (taken : step P s (.make f stackSize entry arg link base) = some s') :
    stackSize.toNat ≤ 2 ^ 63 ∧ base.toNat % 4096 = 0 ∧
      ∃ separate : (Region.mk f fwFiberBytes).Apart ⟨base, (allocSize stackSize).toNat⟩,
        (∀ u ∈ s.tasks, (fiberTask f _ separate).Apart u) ∧
        s' = { s with
          cpu := { s.cpu with mem := fwFiberMake P s.cpu.mem f stackSize entry arg link base }
          tasks := fiberTask f _ separate :: s.tasks } := by
  rw [step] at taken
  split at taken
  · rename_i made
    dsimp only at taken
    split at taken
    · rename_i apart
      rw [Option.some.injEq] at taken
      exact ⟨made.2.1, made.2.2.1, made.2.2.2, apart, taken.symm⟩
    · cases taken
  · cases taken

theorem step_work_eq_some {regs : R} {writes : List (Word × BitVec 8)}
    (taken : step P s (.work regs writes) = some s') :
    Own s writes ∧ s' = { s with cpu := ⟨regs, poke s.cpu.mem writes⟩ } := by
  rw [step] at taken
  split at taken
  · rename_i own
    exact ⟨own, (Option.some.inj taken).symm⟩
  · cases taken

theorem step_finish_eq_some (taken : step P s .finish = some s') :
    switchTo P s (readWord s.cpu.mem (s.cur.cell + linkOffset)) = some s' := by
  rw [step] at taken
  split at taken
  · cases taken
  · exact taken

end Inversion

theorem switchTo_coroutine {P : Port R} {s s' : Sys R} {to_ : Word}
    (formed : WellFormed P.toSwitcher s) (switched : switchTo P s to_ = some s') :
    Coroutines.Step P.toSwitcher s s' := by
  obtain ⟨t, known, rfl, different, room, rfl⟩ := switchTo_eq_some switched
  have other : t ≠ s.cur := fun same => different (same ▸ rfl)
  have apart := formed.apart t known s.cur formed.current other
  refine .switch known other room ?_
  intro x outside
  -- the trampoline runs only where a frame has just been taken from the stack
  apply P.land_outside
  intro landing
  obtain ⟨ws, sp, rests⟩ := formed.rests t known other
  have resumed := (call_resumes apart room rests).2
  unfold fwFiberSwitch at landing
  rw [resumed] at landing
  exact outside (rests.inside.mem landing)

/-- Each step is one of the steps of tasks that switch to each other. -/
theorem step_coroutine {P : Port R} {s s' : Sys R} {a : Act R}
    (formed : WellFormed P.toSwitcher s) (taken : step P s a = some s') :
    Coroutines.Step P.toSwitcher s s' := by
  cases a with
  | make f stackSize entry arg link base =>
    obtain ⟨bound, aligned, separate, apart, rfl⟩ := step_make_eq_some taken
    apply Coroutines.Step.create apart
    · exact fun x object stack => fwFiberMake_outside bound aligned object stack
    · exact fwFiberMake_rests bound aligned separate
  | work regs writes =>
    obtain ⟨own, rfl⟩ := step_work_eq_some taken
    apply Coroutines.Step.work
    intro t known x foreign
    apply poke_outside
    intro w member same
    apply own w member
    subst same
    rcases foreign with object | ⟨other, stack⟩
    · exact ⟨t, known, Or.inl object⟩
    · have apart := formed.apart t known s.cur formed.current other
      exact ⟨t, known, Or.inr ⟨apart.cell_ne, stack⟩⟩
  | switch to_ => exact switchTo_coroutine formed taken
  | finish => exact switchTo_coroutine formed (step_finish_eq_some taken)

end TransparentOffload.FwFiber
