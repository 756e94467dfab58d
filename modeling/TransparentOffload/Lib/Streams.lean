import Mathlib.Data.List.Basic

set_option autoImplicit false

/- A queue of operations on a memory that its issuer fills and an engine works off, one
operation at a time and in order. What the memory will be once the engine has caught up
is known from the moment of issue. -/
namespace Streams

variable {μ ω : Type*}

/-- The operations still to come, and the memory they work on. -/
structure Queue (μ ω : Type*) where
  pending : List ω
  mem : μ
  deriving DecidableEq, Repr

namespace Queue

/-- The engine carries out the next operation. -/
def execute (apply : ω → μ → μ) (s : Queue μ ω) : Option (Queue μ ω) :=
  match s.pending with
  | [] => none
  | op :: rest => some ⟨rest, apply op s.mem⟩

def issue (s : Queue μ ω) (op : ω) : Queue μ ω := { s with pending := s.pending ++ [op] }

/-- The memory once the engine has caught up. -/
def settled (apply : ω → μ → μ) (s : Queue μ ω) : μ :=
  s.pending.foldl (fun m op => apply op m) s.mem

theorem execute_eq_some {apply : ω → μ → μ} {s t : Queue μ ω} :
    s.execute apply = some t ↔ ∃ op, s.pending = op :: t.pending ∧ t.mem = apply op s.mem := by
  unfold execute
  cases pending : s.pending with
  | nil => simp
  | cons op rest =>
    rw [Option.some.injEq]
    constructor
    · intro same
      subst same
      exact ⟨op, rfl, rfl⟩
    · intro found
      obtain ⟨op', same, mem⟩ := found
      rw [List.cons.injEq] at same
      obtain ⟨rfl, rfl⟩ := same
      rw [← mem]

/-- The engine only does what was issued. -/
theorem settled_execute {apply : ω → μ → μ} {s t : Queue μ ω} (taken : s.execute apply = some t) :
    t.settled apply = s.settled apply := by
  obtain ⟨op, pending, mem⟩ := execute_eq_some.mp taken
  unfold settled
  rw [pending, mem]
  rfl

theorem settled_issue (apply : ω → μ → μ) (s : Queue μ ω) (op : ω) :
    (s.issue op).settled apply = apply op (s.settled apply) := by
  unfold settled issue
  rw [List.foldl_append]
  rfl

/-- An engine that has nothing to do has caught up. -/
theorem settled_idle {apply : ω → μ → μ} {s : Queue μ ω} (idle : s.pending = []) :
    s.settled apply = s.mem := by
  unfold settled
  rw [idle]
  rfl

/-- The engine leaves the last operation for the end. -/
theorem getLast_execute {apply : ω → μ → μ} {s t : Queue μ ω} {op : ω}
    (taken : s.execute apply = some t) (last : s.pending.getLast? = some op) :
    t.pending = [] ∨ t.pending.getLast? = some op := by
  obtain ⟨first, pending, _⟩ := execute_eq_some.mp taken
  cases rest : t.pending with
  | nil => exact Or.inl rfl
  | cons next more =>
    right
    rw [pending, rest, List.getLast?_cons_cons] at last
    exact last

end Queue

end Streams
