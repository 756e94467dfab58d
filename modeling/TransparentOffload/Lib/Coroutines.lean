import TransparentOffload.Lib.ByteMemory

set_option autoImplicit false

/- Tasks that share one processor and switch to each other by a call which saves
registers in a frame below the stack pointer. A task that rests keeps its frame, and
finds the saved registers again, whatever the others do meanwhile. -/
namespace Coroutines

open ByteMemory

structure Cpu (R : Type) where
  regs : R
  mem : Mem

/-- The `n` bytes below an address. -/
def below (sp : Word) (n : Nat) : Region := ⟨sp - BitVec.ofNat 64 n, n⟩

/-- A context switch: `call cpu save restore` calls it, with the cell that takes the
stack pointer of the caller and the one of the task to go on with. `kept` lists, as
the frame stores them, the registers that it brings back, the return address among
them. -/
structure Switcher (R : Type) where
  sp : R → Word
  kept : R → List Word
  words : Nat
  frame : Nat
  call : Cpu R → Word → Word → Cpu R
  kept_length : ∀ r, (kept r).length = words
  fits : 8 * words ≤ frame
  bounded : frame < 2 ^ 64
  outside : ∀ cpu save restore x, x ∉ below (sp cpu.regs) frame → x ∉ wordAt save →
    (call cpu save restore).mem x = cpu.mem x
  saves : ∀ cpu save restore, (∀ x ∈ wordAt save, x ∉ below (sp cpu.regs) frame) →
    readWord (call cpu save restore).mem save = sp cpu.regs - BitVec.ofNat 64 frame ∧
    Stored (call cpu save restore).mem (sp cpu.regs - BitVec.ofNat 64 frame) (kept cpu.regs)
  restores : ∀ cpu save restore ws, ws.length = words →
    Stored (call cpu save restore).mem restore ws →
      kept (call cpu save restore).regs = ws ∧
      sp (call cpu save restore).regs = restore + BitVec.ofNat 64 frame

/-- A task has an object, which starts with the cell of its stack pointer, and a stack. -/
structure Task where
  object : Region
  stack : Region
  cellInside : 8 ≤ object.size
  separate : object.Apart stack

namespace Task

def cell (t : Task) : Word := t.object.lo

/-- Two tasks share no byte. -/
def Apart (t u : Task) : Prop :=
  t.object.Apart u.object ∧ t.object.Apart u.stack ∧ t.stack.Apart u.object ∧
    t.stack.Apart u.stack

instance (t u : Task) : Decidable (t.Apart u) := inferInstanceAs (Decidable (_ ∧ _ ∧ _ ∧ _))

theorem Apart.symm {t u : Task} (apart : t.Apart u) : u.Apart t :=
  ⟨apart.1.symm, apart.2.2.1.symm, apart.2.1.symm, apart.2.2.2.symm⟩

/-- Tasks that are apart have different cells. -/
theorem Apart.cell_ne {t u : Task} (apart : t.Apart u) : t.cell ≠ u.cell := by
  intro same
  have inside := t.cellInside
  have distance := apart.1.1
  change t.object.size ≤ (u.cell - t.cell).toNat at distance
  rw [same, BitVec.sub_self] at distance
  change t.object.size ≤ 0 at distance
  omega

theorem cell_inside (t : Task) {x : Word} (member : x ∈ wordAt t.cell) : x ∈ t.object := by
  have inside := t.cellInside
  change (x - t.object.lo).toNat < 8 at member
  change (x - t.object.lo).toNat < t.object.size
  omega

end Task

/-- The processor, the task that runs on it, and all tasks. -/
structure Sys (R : Type) where
  cpu : Cpu R
  cur : Task
  tasks : List Task

variable {R : Type}

/-- The task rests on its stack: its cell has the address of a frame in which `ws` is
stored, and its stack pointer is to be `sp` again. -/
structure Rests (A : Switcher R) (m : Mem) (t : Task) (ws : List Word) (sp : Word) : Prop where
  cell : readWord m t.cell = sp - BitVec.ofNat 64 A.frame
  length : ws.length = A.words
  stored : Stored m (sp - BitVec.ofNat 64 A.frame) ws
  inside : (below sp A.frame).Sub t.stack

theorem Rests.congr {A : Switcher R} {m m' : Mem} {t : Task} {ws : List Word} {sp : Word}
    (rests : Rests A m t ws sp) (object : ∀ x ∈ t.object, m' x = m x)
    (stack : ∀ x ∈ t.stack, m' x = m x) : Rests A m' t ws sp := by
  refine ⟨?_, rests.length, ?_, rests.inside⟩
  · rw [← rests.cell]
    exact readWord_congr fun x member => object x (t.cell_inside member)
  · have inside : 8 * ws.length ≤ A.frame := rests.length ▸ A.fits
    apply Stored.congr inside A.bounded _ rests.stored
    exact fun x member => (stack x (rests.inside.mem member)).symm

/-- What any party can do. A task may be added at any time, by anyone; the running task
changes its registers, its stack and memory of no task as it likes; and it switches to
another task, which may go on from there on its own stack. -/
inductive Step (A : Switcher R) (s : Sys R) : Sys R → Prop
  | create {t : Task} {m : Mem} {ws : List Word} {sp : Word} (apart : ∀ u ∈ s.tasks, t.Apart u)
      (outside : ∀ x, x ∉ t.object → x ∉ t.stack → m x = s.cpu.mem x) (rests : Rests A m t ws sp) :
      Step A s { s with cpu := { s.cpu with mem := m }, tasks := t :: s.tasks }
  | work {cpu : Cpu R} (others : ∀ t ∈ s.tasks, ∀ x, x ∈ t.object ∨ (t ≠ s.cur ∧ x ∈ t.stack) →
        cpu.mem x = s.cpu.mem x) : Step A s { s with cpu := cpu }
  | switch {t : Task} {cpu : Cpu R} (known : t ∈ s.tasks) (other : t ≠ s.cur)
      (room : (below (A.sp s.cpu.regs) A.frame).Sub s.cur.stack)
      (landed : ∀ x, x ∉ t.stack →
        cpu.mem x = (A.call s.cpu s.cur.cell (readWord s.cpu.mem t.cell)).mem x) :
      Step A s { s with cpu := cpu, cur := t }

/-- The tasks are apart, and each one that does not run rests. -/
structure WellFormed (A : Switcher R) (s : Sys R) : Prop where
  current : s.cur ∈ s.tasks
  apart : ∀ t ∈ s.tasks, ∀ u ∈ s.tasks, t ≠ u → t.Apart u
  rests : ∀ t ∈ s.tasks, t ≠ s.cur → ∃ ws sp, Rests A s.cpu.mem t ws sp

section Steps

variable {A : Switcher R} {s s' : Sys R} {t : Task}

/-- The call touches neither the object nor the stack of a task that rests. -/
theorem call_aside (apart : t.Apart s.cur)
    (room : (below (A.sp s.cpu.regs) A.frame).Sub s.cur.stack) (restore : Word) {x : Word}
    (own : x ∈ t.object ∨ x ∈ t.stack) :
    (A.call s.cpu s.cur.cell restore).mem x = s.cpu.mem x := by
  apply A.outside
  · intro framed
    rcases own with object | stack
    · exact apart.2.1.not_mem object (room.mem framed)
    · exact apart.2.2.2.not_mem stack (room.mem framed)
  · intro saved
    rcases own with object | stack
    · exact apart.1.not_mem object (s.cur.cell_inside saved)
    · exact apart.2.2.1.not_mem stack (s.cur.cell_inside saved)

/-- The running task rests when it has switched away. -/
theorem call_rests (room : (below (A.sp s.cpu.regs) A.frame).Sub s.cur.stack) (restore : Word) :
    Rests A (A.call s.cpu s.cur.cell restore).mem s.cur (A.kept s.cpu.regs) (A.sp s.cpu.regs) := by
  have separate : ∀ x ∈ wordAt s.cur.cell, x ∉ below (A.sp s.cpu.regs) A.frame := by
    intro x saved framed
    exact s.cur.separate.not_mem (s.cur.cell_inside saved) (room.mem framed)
  obtain ⟨cell, stored⟩ := A.saves s.cpu s.cur.cell restore separate
  exact ⟨cell, A.kept_length _, stored, room⟩

/-- A task that rests comes back with what it was to find. -/
theorem call_resumes {ws : List Word} {sp : Word} (apart : t.Apart s.cur)
    (room : (below (A.sp s.cpu.regs) A.frame).Sub s.cur.stack)
    (rests : Rests A s.cpu.mem t ws sp) :
    A.kept (A.call s.cpu s.cur.cell (readWord s.cpu.mem t.cell)).regs = ws ∧
    A.sp (A.call s.cpu s.cur.cell (readWord s.cpu.mem t.cell)).regs = sp := by
  have after := rests.congr
    (fun x own => call_aside apart room (readWord s.cpu.mem t.cell) (Or.inl own))
    fun x own => call_aside apart room _ (Or.inr own)
  rw [rests.cell] at after ⊢
  obtain ⟨kept, pointer⟩ := A.restores s.cpu s.cur.cell _ ws rests.length after.stored
  refine ⟨kept, ?_⟩
  rw [pointer, BitVec.sub_add_cancel]

/-- What a step leaves of a task that neither ran nor runs after it. -/
theorem Step.aside {ws : List Word} {sp : Word} (taken : Step A s s') (formed : WellFormed A s)
    (known : t ∈ s.tasks) (before : t ≠ s.cur) (after : t ≠ s'.cur)
    (rests : Rests A s.cpu.mem t ws sp) : Rests A s'.cpu.mem t ws sp := by
  have apart := formed.apart t known s.cur formed.current before
  cases taken with
  | create new outside _ =>
    have clear := new t known
    apply rests.congr
    · intro x own
      exact outside x (fun other => clear.1.not_mem other own)
        fun other => clear.2.2.1.not_mem other own
    · intro x own
      exact outside x (fun other => clear.2.1.not_mem other own)
        fun other => clear.2.2.2.not_mem other own
  | work others =>
    apply rests.congr
    · exact fun x object => others t known x (Or.inl object)
    · exact fun x stack => others t known x (Or.inr ⟨before, stack⟩)
  | @switch u cpu there other room landed =>
    have clear := formed.apart t known u there after
    apply rests.congr
    · intro x object
      rw [landed x (clear.2.1.not_mem object)]
      exact call_aside apart room _ (Or.inl object)
    · intro x stack
      rw [landed x (clear.2.2.2.not_mem stack)]
      exact call_aside apart room _ (Or.inr stack)

/-- The task that a step switches away from rests as it was. -/
theorem Step.away (taken : Step A s s') (formed : WellFormed A s) (left : s'.cur ≠ s.cur) :
    Rests A s'.cpu.mem s.cur (A.kept s.cpu.regs) (A.sp s.cpu.regs) := by
  cases taken with
  | create => exact absurd rfl left
  | work => exact absurd rfl left
  | @switch u cpu there other room landed =>
    have clear := formed.apart s.cur formed.current u there other.symm
    apply (call_rests room (readWord s.cpu.mem u.cell)).congr
    · exact fun x object => landed x (clear.2.1.not_mem object)
    · exact fun x stack => landed x (clear.2.2.2.not_mem stack)

theorem Step.known (taken : Step A s s') (known : t ∈ s.tasks) : t ∈ s'.tasks := by
  cases taken with
  | create => exact List.mem_cons_of_mem _ known
  | work | switch => exact known

theorem Step.wellFormed (taken : Step A s s') (formed : WellFormed A s) : WellFormed A s' := by
  have rests : ∀ u ∈ s.tasks, u ≠ s'.cur → ∃ ws sp, Rests A s'.cpu.mem u ws sp := by
    intro u known other
    by_cases running : u = s.cur
    · subst running
      exact ⟨_, _, taken.away formed other.symm⟩
    · obtain ⟨ws, sp, rests⟩ := formed.rests u known running
      exact ⟨ws, sp, taken.aside formed known running other rests⟩
  cases taken with
  | @create t m ws sp apart outside new =>
    refine ⟨List.mem_cons_of_mem _ formed.current, ?_, ?_⟩
    · intro u known v known' different
      rcases List.mem_cons.mp known with rfl | old
      · rcases List.mem_cons.mp known' with rfl | old'
        · exact absurd rfl different
        · exact apart v old'
      · rcases List.mem_cons.mp known' with rfl | old'
        · exact (apart u old).symm
        · exact formed.apart u old v old' different
    · intro u known other
      rcases List.mem_cons.mp known with rfl | known
      · exact ⟨ws, sp, new⟩
      · exact rests u known other
  | work => exact ⟨formed.current, formed.apart, rests⟩
  | switch there => exact ⟨there, formed.apart, rests⟩

/-- No step changes an object, save for the cell of the task that switches away. -/
theorem Step.object (taken : Step A s s') (formed : WellFormed A s) (known : t ∈ s.tasks)
    {x : Word} (own : x ∈ t.object) (rest : x ∉ wordAt t.cell) : s'.cpu.mem x = s.cpu.mem x := by
  have offStack : x ∉ s.cur.stack := by
    by_cases running : t = s.cur
    · exact running ▸ t.separate.not_mem own
    · exact (formed.apart t known s.cur formed.current running).2.1.not_mem own
  cases taken with
  | create new outside _ =>
    have clear := new t known
    exact outside x (fun other => clear.1.not_mem other own)
      fun other => clear.2.2.1.not_mem other own
  | work others => exact others t known x (Or.inl own)
  | @switch u cpu there other room landed =>
    have offLanding : x ∉ u.stack := by
      by_cases same : t = u
      · exact same ▸ t.separate.not_mem own
      · exact (formed.apart t known u there same).2.1.not_mem own
    rw [landed x offLanding]
    apply A.outside
    · exact fun framed => offStack (room.mem framed)
    · intro saved
      by_cases running : t = s.cur
      · exact rest (running ▸ saved)
      · exact (formed.apart t known s.cur formed.current running).1.not_mem own
          (s.cur.cell_inside saved)

end Steps

end Coroutines
