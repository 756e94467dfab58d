import Mathlib.Data.List.Perm.Basic
import TransparentOffload.Lib.TicketRing

set_option autoImplicit false

/- A pool of workers on a ring of jobs. Producers store without looking at the
workers' counter; a worker takes one job, works on it, and is done with it. -/
namespace WorkPool

variable {α : Type*}

/-- The ring, and the jobs in the workers' hands, each with its worker. -/
structure Pool (α : Type*) where
  q : Tickets.Ring α
  running : List (Nat × α)

namespace Pool

/-- No job yet; what the slots hold is never read. -/
def idle (x : α) : Pool α := ⟨⟨fun _ => x, 0, 0⟩, []⟩

def submit (width : Nat) (p : Pool α) (x : α) : Pool α := { p with q := p.q.push width x }

/-- A worker with empty hands takes the next job, if there is one. -/
def take (width : Nat) (p : Pool α) (w : Nat) : Option (Pool α) :=
  if w ∈ p.running.map Prod.fst ∨ p.q.head = p.q.tail then none
  else some ⟨p.q.advance, (w, p.q.front width) :: p.running⟩

/-- What a worker has in its hands. -/
def held (p : Pool α) (w : Nat) : Option α := (p.running.find? fun own => own.1 == w).map Prod.snd

/-- The worker is done with its job. -/
def finish [DecidableEq α] (p : Pool α) (w : Nat) (x : α) : Pool α :=
  { p with running := p.running.erase (w, x) }

/-- The jobs that are queued or in a worker's hands. -/
def outstanding (width : Nat) (p : Pool α) : List α :=
  p.q.contents width ++ p.running.map Prod.snd

/-- Workers never run ahead of the producers. -/
def Ordered (p : Pool α) : Prop := p.q.tail ≤ p.q.head

variable {width w : Nat} {p p' : Pool α} {x y : α}

theorem idle_ordered : (idle x).Ordered := Nat.le_refl 0

theorem held_mem (held : p.held w = some x) : (w, x) ∈ p.running := by
  obtain ⟨own, found, rfl⟩ := Option.map_eq_some_iff.mp held
  have same : own.1 = w := by simpa using List.find?_some found
  rw [← same]
  exact List.mem_of_find?_eq_some found

theorem mem_outstanding_of_held (held : p.held w = some x) : x ∈ p.outstanding width :=
  List.mem_append_right _ (List.mem_map.mpr ⟨(w, x), held_mem held, rfl⟩)

theorem submit_ordered (ordered : p.Ordered) : (p.submit width x).Ordered :=
  Nat.le_succ_of_le ordered

theorem take_spec (taken : p.take width w = some p') :
    w ∉ p.running.map Prod.fst ∧ p.q.head ≠ p.q.tail ∧
      p' = ⟨p.q.advance, (w, p.q.front width) :: p.running⟩ := by
  unfold take at taken
  split at taken
  · cases taken
  · rename_i able
    rw [not_or] at able
    exact ⟨able.1, able.2, (Option.some.inj taken).symm⟩

theorem take_ordered (ordered : p.Ordered) (taken : p.take width w = some p') : p'.Ordered := by
  obtain ⟨_, more, rfl⟩ := take_spec taken
  exact Nat.lt_of_le_of_ne ordered (Ne.symm more)

/-- Whatever is overwritten, the jobs after a store are among those before and its own. -/
theorem mem_outstanding_submit (ordered : p.Ordered)
    (member : y ∈ (p.submit width x).outstanding width) : y = x ∨ y ∈ p.outstanding width := by
  rcases List.mem_append.mp member with queued | running
  · exact (Tickets.Ring.mem_contents_push ordered queued).imp_right (List.mem_append_left _)
  · exact Or.inr (List.mem_append_right _ running)

theorem submit_outstanding (ordered : p.Ordered) (fits : p.q.Fits width x) :
    ((p.submit width x).outstanding width).Perm (x :: p.outstanding width) := by
  unfold outstanding submit
  rw [Tickets.Ring.contents_push_of_fits ordered fits, List.append_assoc]
  exact List.perm_middle

/-- A store that does not fit loses a job that nobody has taken. -/
theorem submit_loses [DecidableEq α] (positive : 0 < width) (ordered : p.Ordered)
    (lost : ¬ p.q.Fits width x) :
    ∃ y, x ≠ y ∧ ((p.submit width x).outstanding width).count y <
      (p.outstanding width).count y := by
  refine ⟨p.q.slots (p.q.head % width), ?_, ?_⟩
  · intro same
    exact lost (Or.inr same.symm)
  · have fewer := Tickets.Ring.push_loses positive ordered lost
    unfold outstanding submit
    rw [List.count_append, List.count_append]
    exact Nat.add_lt_add_right fewer _

theorem take_outstanding (ordered : p.Ordered) (taken : p.take width w = some p') :
    (p'.outstanding width).Perm (p.outstanding width) := by
  obtain ⟨_, more, rfl⟩ := take_spec taken
  unfold outstanding
  rw [Tickets.Ring.contents_advance (Nat.lt_of_le_of_ne ordered (Ne.symm more))]
  exact List.perm_middle

theorem finish_outstanding [DecidableEq α] (held : (w, x) ∈ p.running) :
    (p.outstanding width).Perm (x :: (p.finish w x).outstanding width) := by
  have apart : (p.running.map Prod.snd).Perm (x :: (p.finish w x).running.map Prod.snd) :=
    (List.perm_cons_erase held).map Prod.snd
  exact (apart.append_left (p.q.contents width)).trans List.perm_middle

theorem finish_ordered [DecidableEq α] (ordered : p.Ordered) : (p.finish w x).Ordered := ordered

/-- No worker has two jobs in its hands. -/
def Single (p : Pool α) : Prop := (p.running.map Prod.fst).Nodup

theorem held_eq_none : p.held w = none ↔ w ∉ p.running.map Prod.fst := by
  unfold held
  rw [Option.map_eq_none_iff, List.find?_eq_none]
  constructor
  · intro others member
    obtain ⟨own, inside, same⟩ := List.mem_map.mp member
    exact others own inside (by simpa using same)
  · intro absent own inside same
    apply absent
    have key : own.1 = w := by simpa using same
    exact key ▸ List.mem_map_of_mem inside

theorem idle_single : (idle x).Single := List.nodup_nil

theorem take_single (single : p.Single) (taken : p.take width w = some p') : p'.Single := by
  obtain ⟨free, _, rfl⟩ := take_spec taken
  exact List.nodup_cons.mpr ⟨free, single⟩

theorem finish_single [DecidableEq α] (single : p.Single) : (p.finish w x).Single :=
  single.sublist (List.erase_sublist.map Prod.fst)

/-- A worker that takes a job has that job, and the others keep theirs. -/
theorem take_held (taken : p.take width w = some p') (w' : Nat) :
    p'.held w' = if w' = w then some (p.q.front width) else p.held w' := by
  obtain ⟨_, _, rfl⟩ := take_spec taken
  unfold held
  by_cases same : w' = w
  · subst same
    rw [if_pos rfl, List.find?_cons_of_pos (by simp)]
    rfl
  · rw [if_neg same, List.find?_cons_of_neg (by simpa using Ne.symm same)]

/-- A worker that is done with its job has none, and the others keep theirs. -/
theorem finish_held [DecidableEq α] (single : p.Single) (held : p.held w = some x) (w' : Nat) :
    (p.finish w x).held w' = if w' = w then none else p.held w' := by
  have member := held_mem held
  by_cases same : w' = w
  · subst same
    rw [if_pos rfl, held_eq_none]
    have apart := (List.perm_cons_erase member).map Prod.fst
    exact (List.nodup_cons.mp (apart.nodup_iff.mp single)).1
  · rw [if_neg same]
    obtain ⟨front, back, _, split, erased⟩ := List.exists_erase_eq member
    have later : ((w, x) :: back).find? (fun own => own.1 == w') =
        back.find? fun own => own.1 == w' :=
      List.find?_cons_of_neg (by simpa using Ne.symm same)
    unfold finish Pool.held
    rw [erased, split, List.find?_append, List.find?_append, later]

end Pool

end WorkPool
