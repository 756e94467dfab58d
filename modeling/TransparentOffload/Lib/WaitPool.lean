import TransparentOffload.Lib.WorkPool

set_option autoImplicit false

/- A pool whose workers sleep on a condition variable while they find no job. What a
worker does with the lock is one step; a signal wakes one sleeper if there is any, and a
sleeper may wake by itself. -/
namespace WaitPool

variable {α : Type*}

/-- The jobs, and the workers that are in their wait. -/
structure Crew (α : Type*) where
  pool : WorkPool.Pool α
  asleep : List Nat

namespace Crew

/-- No job yet, and every worker is up. -/
def start (x : α) : Crew α := ⟨.idle x, []⟩

/-- The number of the jobs that nobody has taken. -/
def waiting (s : Crew α) : Nat := s.pool.q.head - s.pool.q.tail

/-- A store and the signal behind it, which wakes the given worker, or none if none is
asleep. -/
def submit (width : Nat) (s : Crew α) (x : α) : Option Nat → Option (Crew α)
  | some w =>
    if w ∈ s.asleep then some ⟨s.pool.submit width x, s.asleep.erase w⟩ else none
  | none => if s.asleep = [] then some ⟨s.pool.submit width x, []⟩ else none

/-- A wait ends without a signal. -/
def wake (s : Crew α) (w : Nat) : Option (Crew α) :=
  if w ∈ s.asleep then some { s with asleep := s.asleep.erase w } else none

/-- A worker that is up and has no job looks for one; it takes the next one, or waits. -/
def look (width nw : Nat) (s : Crew α) (w : Nat) : Option (Crew α) :=
  if w < nw ∧ w ∉ s.asleep ∧ w ∉ s.pool.running.map Prod.fst then
    if s.pool.q.head = s.pool.q.tail then some { s with asleep := w :: s.asleep }
    else (s.pool.take width w).map fun pool => { s with pool := pool }
  else none

/-- The worker is done with its job. -/
def finish [DecidableEq α] (s : Crew α) (w : Nat) (x : α) : Crew α :=
  { s with pool := s.pool.finish w x }

/-- No worker is at two places, and while one is asleep there is for each job another one
that is up and without a job. -/
structure Staffed (nw : Nat) (s : Crew α) : Prop where
  ordered : s.pool.Ordered
  apart : (s.asleep ++ s.pool.running.map Prod.fst).Nodup
  known : ∀ w ∈ s.asleep ++ s.pool.running.map Prod.fst, w < nw
  enough : s.asleep ≠ [] → s.waiting + s.asleep.length + s.pool.running.length ≤ nw

variable {width nw w : Nat} {s t : Crew α} {x : α}

theorem start_staffed (nw : Nat) (x : α) : Staffed nw (start x) := by
  refine ⟨WorkPool.Pool.idle_ordered, List.nodup_nil, ?_, ?_⟩
  · intro w member
    cases member
  · intro sleepers
    exact absurd rfl sleepers

/-- There are no more workers at their places than there are. -/
theorem length_le_of_known {ws : List Nat} (apart : ws.Nodup) (known : ∀ w ∈ ws, w < nw) :
    ws.length ≤ nw := by
  have inside : ws ⊆ List.range nw := fun w member => List.mem_range.mpr (known w member)
  have fits := (List.subperm_of_subset apart inside).length_le
  rwa [List.length_range] at fits

theorem submit_spec {woken : Option Nat} (taken : s.submit width x woken = some t) :
    t.pool = s.pool.submit width x ∧
      ((∃ w, woken = some w ∧ w ∈ s.asleep ∧ t.asleep = s.asleep.erase w) ∨
        woken = none ∧ s.asleep = [] ∧ t.asleep = []) := by
  cases woken with
  | some w =>
    rw [submit] at taken
    split at taken
    · rename_i member
      cases taken
      exact ⟨rfl, Or.inl ⟨w, rfl, member, rfl⟩⟩
    · cases taken
  | none =>
    rw [submit] at taken
    split at taken
    · rename_i nobody
      cases taken
      exact ⟨rfl, Or.inr ⟨rfl, nobody, rfl⟩⟩
    · cases taken

theorem wake_spec (taken : s.wake w = some t) :
    w ∈ s.asleep ∧ t.pool = s.pool ∧ t.asleep = s.asleep.erase w := by
  rw [wake] at taken
  split at taken
  · rename_i member
    cases taken
    exact ⟨member, rfl, rfl⟩
  · cases taken

theorem look_spec (taken : s.look width nw w = some t) :
    w < nw ∧ w ∉ s.asleep ∧ w ∉ s.pool.running.map Prod.fst ∧
      ((s.pool.q.head = s.pool.q.tail ∧ t.pool = s.pool ∧ t.asleep = w :: s.asleep) ∨
        s.pool.take width w = some t.pool ∧ t.asleep = s.asleep) := by
  rw [look] at taken
  split at taken
  · rename_i able
    refine ⟨able.1, able.2.1, able.2.2, ?_⟩
    split at taken
    · rename_i empty
      cases taken
      exact Or.inl ⟨empty, rfl, rfl⟩
    · obtain ⟨pool, took, rfl⟩ := Option.map_eq_some_iff.mp taken
      exact Or.inr ⟨took, rfl⟩
  · cases taken

theorem look_outstanding (ordered : s.pool.Ordered) (taken : s.look width nw w = some t) :
    (t.pool.outstanding width).Perm (s.pool.outstanding width) := by
  obtain ⟨_, _, _, ⟨_, pool, _⟩ | ⟨took, _⟩⟩ := look_spec taken
  · rw [pool]
  · exact WorkPool.Pool.take_outstanding ordered took

/-- A signal takes one worker from the sleepers to those that are up. -/
theorem Staffed.submit {woken : Option Nat} (staffed : Staffed nw s)
    (taken : s.submit width x woken = some t) : Staffed nw t := by
  obtain ⟨pool, woke⟩ := submit_spec taken
  have running : t.pool.running = s.pool.running := by
    rw [pool]
    rfl
  have more : t.waiting ≤ s.waiting + 1 := by
    rw [waiting, waiting, pool]
    show s.pool.q.head + 1 - s.pool.q.tail ≤ _
    omega
  have ordered : t.pool.Ordered := by
    rw [pool]
    exact WorkPool.Pool.submit_ordered staffed.ordered
  rcases woke with ⟨w, _, member, asleep⟩ | ⟨_, nobody, asleep⟩
  · have fewer := List.length_erase_of_mem member
    have positive := List.length_pos_of_mem member
    have sub : (s.asleep.erase w ++ s.pool.running.map Prod.fst).Sublist
        (s.asleep ++ s.pool.running.map Prod.fst) :=
      List.erase_sublist.append_right _
    refine ⟨ordered, ?_, ?_, ?_⟩
    · rw [running, asleep]
      exact staffed.apart.sublist sub
    · rw [running, asleep]
      exact fun w' inside => staffed.known w' (sub.subset inside)
    · intro _
      have before := staffed.enough (List.ne_nil_of_mem member)
      rw [running, asleep]
      omega
  · have apart := staffed.apart
    have known := staffed.known
    rw [nobody] at apart known
    refine ⟨ordered, ?_, ?_, ?_⟩
    · rw [running, asleep]
      exact apart
    · rw [running, asleep]
      exact known
    · intro sleepers
      exact absurd asleep sleepers

theorem Staffed.wake (staffed : Staffed nw s) (taken : s.wake w = some t) : Staffed nw t := by
  obtain ⟨member, pool, asleep⟩ := wake_spec taken
  have fewer := List.length_erase_of_mem member
  have sub : (s.asleep.erase w ++ s.pool.running.map Prod.fst).Sublist
      (s.asleep ++ s.pool.running.map Prod.fst) :=
    List.erase_sublist.append_right _
  refine ⟨pool ▸ staffed.ordered, ?_, ?_, ?_⟩
  · rw [pool, asleep]
    exact staffed.apart.sublist sub
  · rw [pool, asleep]
    exact fun w' inside => staffed.known w' (sub.subset inside)
  · intro _
    have before := staffed.enough (List.ne_nil_of_mem member)
    rw [waiting, pool, asleep]
    rw [waiting] at before
    omega

/-- A worker falls asleep when there is no job, and else a job goes with its worker. -/
theorem Staffed.look (staffed : Staffed nw s) (taken : s.look width nw w = some t) :
    Staffed nw t := by
  obtain ⟨inside, up, free, next⟩ := look_spec taken
  have fresh : w ∉ s.asleep ++ s.pool.running.map Prod.fst := by
    rw [List.mem_append]
    exact not_or.mpr ⟨up, free⟩
  have apart : (w :: (s.asleep ++ s.pool.running.map Prod.fst)).Nodup :=
    List.nodup_cons.mpr ⟨fresh, staffed.apart⟩
  have known : ∀ w' ∈ w :: (s.asleep ++ s.pool.running.map Prod.fst), w' < nw := by
    intro w' member
    rcases List.mem_cons.mp member with rfl | old
    · exact inside
    · exact staffed.known w' old
  rcases next with ⟨empty, pool, asleep⟩ | ⟨took, asleep⟩
  · refine ⟨pool ▸ staffed.ordered, ?_, ?_, ?_⟩
    · rw [pool, asleep]
      exact apart
    · rw [pool, asleep]
      exact known
    · intro _
      have all := length_le_of_known apart known
      rw [List.length_cons, List.length_append, List.length_map] at all
      rw [waiting, pool, asleep, List.length_cons]
      omega
  · have ordered := WorkPool.Pool.take_ordered staffed.ordered took
    obtain ⟨_, more, ends⟩ := WorkPool.Pool.take_spec took
    have running : t.pool.running.map Prod.fst = w :: s.pool.running.map Prod.fst := by
      rw [ends]
      rfl
    have count : t.pool.running.length = s.pool.running.length + 1 := by
      rw [ends]
      rfl
    have fewer : t.waiting = s.waiting - 1 := by
      rw [waiting, waiting, ends]
      show s.pool.q.head - (s.pool.q.tail + 1) = _
      omega
    have unread : 0 < s.waiting := by
      have below := staffed.ordered
      rw [WorkPool.Pool.Ordered] at below
      rw [waiting]
      omega
    have shuffled : (s.asleep ++ w :: s.pool.running.map Prod.fst).Perm
        (w :: (s.asleep ++ s.pool.running.map Prod.fst)) := List.perm_middle
    refine ⟨ordered, ?_, ?_, ?_⟩
    · rw [running, asleep]
      exact shuffled.nodup_iff.mpr apart
    · rw [running, asleep]
      exact fun w' member => known w' (shuffled.mem_iff.mp member)
    · intro sleepers
      rw [asleep] at sleepers
      have before := staffed.enough sleepers
      rw [asleep, count, fewer]
      omega

theorem Staffed.finish [DecidableEq α] (staffed : Staffed nw s)
    (held : s.pool.held w = some x) : Staffed nw (s.finish w x) := by
  have sub : (s.asleep ++ (s.finish w x).pool.running.map Prod.fst).Sublist
      (s.asleep ++ s.pool.running.map Prod.fst) :=
    (List.erase_sublist.map Prod.fst).append_left _
  have fewer := List.length_erase_of_mem (WorkPool.Pool.held_mem held)
  refine ⟨staffed.ordered, staffed.apart.sublist sub, ?_, ?_⟩
  · exact fun w' member => staffed.known w' (sub.subset member)
  · intro sleepers
    have before := staffed.enough sleepers
    show s.waiting + s.asleep.length + (s.pool.running.erase (w, x)).length ≤ nw
    omega

theorem exists_absent {ws : List Nat} (few : ws.length < nw) : ∃ w < nw, w ∉ ws := by
  by_contra absent
  have inside : List.range nw ⊆ ws := by
    intro w member
    by_contra missing
    exact absent ⟨w, List.mem_range.mp member, missing⟩
  have many := (List.subperm_of_subset List.nodup_range inside).length_le
  rw [List.length_range] at many
  omega

theorem outstanding_eq_nil (empty : s.waiting = 0) (nobody : s.pool.running = []) :
    s.pool.outstanding width = [] := by
  have contents : s.pool.q.contents width = [] := by
    rw [← List.length_eq_zero_iff, Tickets.Ring.length_contents]
    exact empty
  rw [WorkPool.Pool.outstanding, nobody, contents]
  rfl

/-- When all workers are asleep there is nothing to do. -/
theorem Staffed.quiet (staffed : Staffed nw s) (positive : 0 < nw)
    (all : ∀ w < nw, w ∈ s.asleep) : s.pool.outstanding width = [] := by
  have many : nw ≤ s.asleep.length := by
    by_contra few
    obtain ⟨w, inside, up⟩ := exists_absent (Nat.not_le.mp few)
    exact up (all w inside)
  have before := staffed.enough (List.ne_nil_of_mem (all 0 positive))
  have nobody : s.pool.running = [] := List.length_eq_zero_iff.mp (by omega)
  exact outstanding_eq_nil (by omega) nobody

/-- The steps that the workers have before them. -/
def work (s : Crew α) : Nat := 2 * s.waiting + s.pool.running.length

theorem finish_work [DecidableEq α] (held : s.pool.held w = some x) :
    (s.finish w x).work < s.work := by
  have member := WorkPool.Pool.held_mem held
  have fewer := List.length_erase_of_mem member
  have positive := List.length_pos_of_mem member
  show 2 * s.waiting + (s.pool.running.erase (w, x)).length < 2 * s.waiting + _
  omega

/-- As long as a job is left some worker can go on with one, whoever is asleep. -/
theorem Staffed.able (staffed : Staffed nw s) (positive : 0 < nw)
    (busy : s.pool.outstanding width ≠ []) :
    (∃ w x, s.pool.held w = some x) ∨ ∃ w t, s.look width nw w = some t ∧ t.work < s.work := by
  cases running : s.pool.running with
  | cons own rest =>
    left
    refine ⟨own.1, own.2, ?_⟩
    rw [WorkPool.Pool.held, running, List.find?_cons_of_pos (by simp)]
    rfl
  | nil =>
    right
    have unread : s.waiting ≠ 0 := fun empty => busy (outstanding_eq_nil empty running)
    have more : s.pool.q.head ≠ s.pool.q.tail := by
      intro same
      rw [waiting, same, Nat.sub_self] at unread
      exact unread rfl
    have few : s.asleep.length < nw := by
      by_cases nobody : s.asleep = []
      · rw [nobody]
        exact positive
      · have before := staffed.enough nobody
        omega
    obtain ⟨w, inside, up⟩ := exists_absent few
    have free : w ∉ s.pool.running.map Prod.fst := by
      rw [running]
      exact List.not_mem_nil
    refine ⟨w, { s with pool := ⟨s.pool.q.advance, [(w, s.pool.q.front width)]⟩ }, ?_, ?_⟩
    · rw [Crew.look, if_pos ⟨inside, up, free⟩, if_neg more, WorkPool.Pool.take,
        if_neg (not_or.mpr ⟨free, more⟩), running]
      rfl
    · show 2 * (s.pool.q.head - (s.pool.q.tail + 1)) + 1 <
        2 * (s.pool.q.head - s.pool.q.tail) + s.pool.running.length
      rw [waiting] at unread
      omega

end Crew

end WaitPool
