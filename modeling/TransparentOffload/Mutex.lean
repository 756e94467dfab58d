import Mathlib.Logic.Function.Basic

set_option autoImplicit false

/- A glibc mutex as the runtime sees it: a lock word, the owning OS thread and,
for the recursive kind, a count. Every fiber is the same OS thread, `carrier`. -/
namespace TransparentOffload

inductive MutexKind
  | normal
  | errorcheck
  | recursive
  deriving DecidableEq, Repr

inductive OsThread
  | carrier
  | real (t : Nat)
  deriving DecidableEq, Repr

/-- `owner = none` is a free lock word. -/
structure Mutex where
  kind : MutexKind
  owner : Option OsThread
  count : Nat
  deriving DecidableEq, Repr

namespace Mutex

def fresh (kind : MutexKind) : Mutex := ⟨kind, none, 0⟩

/-- `pthread_mutex_trylock`: the lock word decides, except that the owner of a
recursive mutex succeeds and counts up. -/
def trylock (m : Mutex) (t : OsThread) : Mutex × Bool :=
  if m.kind = .recursive ∧ m.owner = some t then ({ m with count := m.count + 1 }, true)
  else if m.owner = none then ({ m with owner := some t, count := 1 }, true)
  else (m, false)

/-- `pthread_mutex_lock`: `none` while the calling OS thread is blocked, `false`
for the `EDEADLK` of an errorcheck mutex. -/
def lock (m : Mutex) (t : OsThread) : Option (Mutex × Bool) :=
  if (m.trylock t).2 then some (m.trylock t)
  else if m.kind = .errorcheck ∧ m.owner = some t then some (m, false)
  else none

/-- `pthread_mutex_unlock`: `false` for the `EPERM` of the checking kinds. A
normal mutex is released whoever calls. -/
def unlock (m : Mutex) (t : OsThread) : Mutex × Bool :=
  match m.kind with
  | .normal => ({ m with owner := none, count := 0 }, true)
  | .errorcheck =>
    if m.owner = some t then ({ m with owner := none, count := 0 }, true) else (m, false)
  | .recursive =>
    if m.owner = some t then
      if m.count ≤ 1 then ({ m with owner := none, count := 0 }, true)
      else ({ m with count := m.count - 1 }, true)
    else (m, false)

/-- A successful attempt found the word free, or a recursive mutex of its own. -/
theorem trylock_taken {m : Mutex} {t : OsThread} (taken : (m.trylock t).2 = true) :
    (m.trylock t).1.owner = some t ∧
      (m.owner = none ∨ (m.kind = .recursive ∧ m.owner = some t)) := by
  unfold trylock at taken ⊢
  split
  · rename_i own
    exact ⟨own.2, Or.inr own⟩
  · rename_i notOwn
    simp only [notOwn, ↓reduceIte] at taken
    split
    · rename_i free
      exact ⟨rfl, Or.inl free⟩
    · rename_i busy
      simp [busy] at taken

theorem lock_taken {m x : Mutex} {t : OsThread} (locked : m.lock t = some (x, true)) :
    (m.trylock t).2 = true ∧ x = (m.trylock t).1 := by
  unfold lock at locked
  split at locked
  · rename_i taken
    rw [Option.some.injEq] at locked
    exact ⟨taken, by rw [locked]⟩
  · split at locked
    · cases locked
    · cases locked

theorem lock_failed {m x : Mutex} {t : OsThread} (locked : m.lock t = some (x, false)) :
    (m.trylock t).2 = false := by
  unfold lock at locked
  split at locked
  · rw [Option.some.injEq] at locked
    rw [locked]
  · rename_i failed
    simpa using failed

end Mutex

end TransparentOffload
