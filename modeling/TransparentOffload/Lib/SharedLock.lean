import Mathlib.Data.List.Basic
import Mathlib.Data.List.Count

set_option autoImplicit false

/- A readers–writer lock through the holds of its parties. What the lock keeps itself is
a count of readers and the thread of the writer, and several parties can be one thread. -/
namespace SharedLock

inductive Mode
  | read
  | write
  deriving DecidableEq, Repr

variable {π τ : Type*}

def isRead (e : π × Mode) : Bool := e.2 = .read

def isWrite (e : π × Mode) : Bool := e.2 = .write

/-- A writer is alone, and holds the lock once. -/
def Exclusive (holds : List (π × Mode)) : Prop :=
  ∀ p, (p, Mode.write) ∈ holds → holds = [(p, .write)]

/-- The writer's thread, as the lock knows it. -/
def writerOf (thread : π → τ) (holds : List (π × Mode)) : Option τ :=
  (holds.find? isWrite).map fun e => thread e.1

/-- What the lock keeps says who holds it. -/
structure Agrees (thread : π → τ) (readers : Nat) (writer : Option τ) (holds : List (π × Mode)) :
    Prop where
  exclusive : Exclusive holds
  readers : readers = holds.countP isRead
  writer : writer = writerOf thread holds

section Rules

variable {thread : π → τ} {readers : Nat} {writer : Option τ} {holds : List (π × Mode)} {p : π}

theorem Agrees.nil : Agrees thread 0 none ([] : List (π × Mode)) := ⟨nofun, rfl, rfl⟩

theorem Agrees.no_writer (agrees : Agrees thread readers none holds) (p : π) :
    (p, Mode.write) ∉ holds := by
  intro member
  have found := agrees.writer
  rw [writerOf, agrees.exclusive p member] at found
  cases found

/-- Another reader comes while there is no writer. -/
theorem Agrees.share (agrees : Agrees thread readers none holds) (p : π) :
    Agrees thread (readers + 1) none ((p, .read) :: holds) := by
  refine ⟨?_, ?_, ?_⟩
  · intro q member
    rcases List.mem_cons.mp member with here | there
    · cases here
    · exact absurd there (agrees.no_writer q)
  · rw [agrees.readers, List.countP_cons_of_pos rfl]
  · rw [agrees.writer]
    rfl

/-- A lock with no readers and no writer is held by nobody. -/
theorem Agrees.unheld (agrees : Agrees thread 0 none holds) : holds = [] := by
  apply List.eq_nil_iff_forall_not_mem.mpr
  intro e member
  obtain ⟨p, mode⟩ := e
  cases mode with
  | read => exact List.countP_eq_zero.mp agrees.readers.symm (p, .read) member rfl
  | write => exact agrees.no_writer p member

theorem Agrees.take (agrees : Agrees thread 0 none holds) (p : π) :
    Agrees thread 0 (some (thread p)) ((p, .write) :: holds) := by
  rw [agrees.unheld]
  refine ⟨?_, rfl, rfl⟩
  intro q member
  rw [List.mem_singleton] at member
  rw [member]

/-- The thread the lock knows as its writer is the caller's own just if the caller is
the writer, even where the parties share a thread. -/
theorem Agrees.writer_iff {mode : Mode} (agrees : Agrees thread readers writer holds)
    (own : (p, mode) ∈ holds) : writer = some (thread p) ↔ mode = .write := by
  constructor
  · intro same
    rw [agrees.writer, writerOf, Option.map_eq_some_iff] at same
    obtain ⟨e, found, _⟩ := same
    obtain ⟨q, m⟩ := e
    have writes : m = .write := by simpa [isWrite] using List.find?_some found
    subst writes
    have alone := agrees.exclusive q (List.mem_of_find?_eq_some found)
    rw [alone, List.mem_singleton] at own
    exact congrArg Prod.snd own
  · intro writes
    subst writes
    rw [agrees.writer, writerOf, agrees.exclusive p own]
    rfl

variable [DecidableEq π]

/-- The writer leaves. -/
theorem Agrees.leave_write (agrees : Agrees thread readers writer holds)
    (own : (p, Mode.write) ∈ holds) : Agrees thread readers none (holds.erase (p, .write)) := by
  have count := agrees.readers
  rw [agrees.exclusive p own] at count ⊢
  rw [List.erase_cons_head]
  rw [count]
  exact .nil

/-- A reader leaves. -/
theorem Agrees.leave_read (agrees : Agrees thread readers writer holds)
    (own : (p, Mode.read) ∈ holds) :
    Agrees thread (readers - 1) writer (holds.erase (p, .read)) := by
  have alone : ∀ q, (q, Mode.write) ∉ holds := by
    intro q member
    rw [agrees.exclusive q member, List.mem_singleton] at own
    cases own
  have none : ∀ {l : List (π × Mode)}, (∀ e ∈ l, e ∈ holds) → writerOf thread l = none := by
    intro l inside
    rw [writerOf, Option.map_eq_none_iff, List.find?_eq_none]
    intro e member writes
    obtain ⟨q, m⟩ := e
    have same : m = .write := by simpa [isWrite] using writes
    exact alone q (same ▸ inside _ member)
  refine ⟨?_, ?_, ?_⟩
  · intro q member
    exact absurd (List.mem_of_mem_erase member) (alone q)
  · rw [agrees.readers, (List.perm_cons_erase own).countP_eq isRead, List.countP_cons_of_pos rfl]
    rfl
  · rw [agrees.writer, none fun _ member => member,
      none fun _ member => List.mem_of_mem_erase member]

end Rules

end SharedLock
