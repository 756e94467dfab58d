import TransparentOffload.OpenLoop
import Mathlib.Data.List.Nodup
import Mathlib.Data.List.Perm.Subperm

set_option autoImplicit false

/- Where each task is between any two steps of the three threads: on one of the lists, in
the dispatcher's hands, or in flight, with the device and the completion ring. -/
namespace TransparentOffload.OpenLoop

/-- The tasks in the dispatcher's hands. -/
def Pc.hand : Pc → List Nat
  | .drained id => [id]
  | .run todo => todo
  | .clearDone id todo | .record id todo | .release id todo => id :: todo
  | .setDeadline _ todo | .setActive _ todo | .park _ todo => todo
  | _ => []

/-- The task whose fiber has cleared `done` and is not parked yet. -/
def Pc.submitting : Pc → Option Nat
  | .setDeadline id _ | .setActive id _ | .park id _ => some id
  | _ => none

/-- The tasks that are ready in the dispatcher's hands. -/
def Pc.readies : Pc → List Nat
  | .run todo => todo
  | .clearDone id todo | .record id todo | .release id todo | .setDeadline id todo
  | .setActive id todo | .park id todo => id :: todo
  | _ => []

/-- The request of a task is on its way through the device. -/
def Flying (s : State) (i : Nat) : Prop :=
  (s.tasks i).state = .waitOff ∧ s.pc ≠ .drained i ∨ s.pc.submitting = some i

instance (s : State) (i : Nat) : Decidable (Flying s i) :=
  inferInstanceAs (Decidable (_ ∨ _))

/-- Every task is in one place, and its state says in which. -/
structure Placed (s : State) : Prop where
  once : ∀ i, s.freelist.count i + s.ready.count i + s.pc.hand.count i +
    (if Flying s i then 1 else 0) = if i < pool then 1 else 0
  free : ∀ i ∈ s.freelist, (s.tasks i).state = .free
  ready : ∀ i ∈ s.ready, (s.tasks i).state = .ready
  hand : ∀ i ∈ s.pc.readies, (s.tasks i).state = .ready
  drained : ∀ i, s.pc = .drained i → (s.tasks i).state = .waitOff

/-- The slot that the device has seen active and is not through with. -/
def Dev.seen : Dev → Option Nat
  | .done _ i | .deadline _ i | .setDone _ i => some i
  | _ => none

/-- The slot that the device has also seen not done. -/
def Dev.aim : Dev → Option Nat
  | .deadline _ i | .setDone _ i => some i
  | _ => none

/-- Every request in flight is reported once, from its store of `done` on. -/
structure Completing (s : State) : Prop where
  ordered : s.comp.tail ≤ s.comp.head
  once : ∀ i, (s.comp.contents cqn).count i + (if s.device.reporting = some i then 1 else 0) =
    if Flying s i ∧ (s.slots i).done = true then 1 else 0
  idle : ∀ i, ¬ Flying s i → (s.slots i).done = false →
    (s.slots i).active = false ∧ s.device.seen ≠ some i
  aimed : ∀ i, s.device.aim = some i → Flying s i ∧ (s.slots i).done = false
  active : ∀ i, (s.tasks i).state = .waitOff ∨ (∃ todo, s.pc = .park i todo) →
    (s.slots i).active = true
  stored : ∀ t i, s.device = .publish t i → s.comp.slots (s.comp.head % cqn) = i
  popping : s.pc = .pop → s.comp.tail < s.comp.head

variable {s t : State} {i now : Nat}

theorem init_placed (warmUntil : Nat) : Placed (.init warmUntil) := by
  refine ⟨?_, ?_, nofun, nofun, nofun⟩
  · intro i
    have nothing : ¬ Flying (.init warmUntil) i := by
      rintro (⟨state, _⟩ | submitting)
      · cases state
      · cases submitting
    have free : (State.init warmUntil).freelist.count i = if i < pool then 1 else 0 := by
      simp only [State.init, List.count_reverse, List.nodup_range.count, List.mem_range]
    have ready : (State.init warmUntil).ready = [] := rfl
    have hand : (State.init warmUntil).pc.hand = [] := rfl
    rw [if_neg nothing, free, ready, hand, List.count_nil]
    simp only [Nat.add_zero]
  · intro i _
    rfl

theorem init_completing (warmUntil : Nat) : Completing (.init warmUntil) := by
  refine ⟨Nat.le_refl 0, ?_, ?_, ?_, ?_, nofun, nofun⟩
  · intro i
    rw [if_neg nofun, if_neg fun both => Bool.noConfusion both.2]
    rfl
  · intro i _ _
    exact ⟨rfl, nofun⟩
  · exact fun i aims => nomatch aims
  · rintro i (state | ⟨todo, pc⟩)
    · cases state
    · cases pc

theorem Placed.flying_inside (placed : Placed s) (flying : Flying s i) : i < pool := by
  have once := placed.once i
  rw [if_pos flying] at once
  by_contra outside
  rw [if_neg outside] at once
  omega

/-- A task is in the completion ring only while its request is in flight. -/
theorem Completing.flying_of_mem (completing : Completing s)
    (member : i ∈ s.comp.contents cqn) : Flying s i ∧ (s.slots i).done = true := by
  have once := completing.once i
  have positive := List.count_pos_iff.mpr member
  by_contra not
  rw [if_neg not] at once
  omega

/-- A list with each number below a bound at most once is no longer than the bound. -/
theorem length_le_of_count {l : List Nat} {n : Nat}
    (once : ∀ i, l.count i ≤ if i < n then 1 else 0) : l.Nodup ∧ l.length ≤ n := by
  have nodup : l.Nodup := by
    rw [List.nodup_iff_count_le_one]
    intro i
    have here := once i
    split at here <;> omega
  have inside : l ⊆ List.range n := by
    intro i member
    have positive := List.count_pos_iff.mpr member
    have here := once i
    rw [List.mem_range]
    by_contra outside
    rw [if_neg outside] at here
    omega
  have fits := (List.Nodup.subperm nodup inside).length_le
  rw [List.length_range] at fits
  exact ⟨nodup, fits⟩

theorem Placed.free_le (placed : Placed s) : s.freelist.Nodup ∧ s.freelist.length ≤ pool := by
  apply length_le_of_count
  intro i
  have all := placed.once i
  omega

theorem Placed.ready_le (placed : Placed s) : s.ready.Nodup ∧ s.ready.length ≤ pool := by
  apply length_le_of_count
  intro i
  have all := placed.once i
  omega

/-- The completion ring never holds more than all tasks. -/
theorem completions_le (placed : Placed s) (completing : Completing s) :
    s.comp.head - s.comp.tail ≤ pool := by
  have fits := length_le_of_count (l := s.comp.contents cqn) (n := pool) (by
    intro i
    have reported := completing.once i
    have all := placed.once i
    by_cases done : Flying s i ∧ (s.slots i).done = true
    · rw [if_pos done] at reported
      rw [if_pos done.1] at all
      omega
    · rw [if_neg done] at reported
      omega)
  rw [Tickets.Ring.length_contents] at fits
  exact fits.2

theorem completions_room (placed : Placed s) (completing : Completing s) :
    s.comp.head < s.comp.tail + cqn := by
  have few := completions_le placed completing
  have ordered := completing.ordered
  have larger : pool < cqn := by decide
  omega

/-- The device goes on after a load. What it has now seen of a slot is true of it. -/
theorem Completing.looked (completing : Completing s) {d : Dev}
    (quiet : s.device.reporting = none) (quiet' : d.reporting = none)
    (seen : ∀ j, d.seen = some j → ¬ Flying s j → (s.slots j).done = true)
    (aim : ∀ j, d.aim = some j → Flying s j ∧ (s.slots j).done = false) :
    Completing { s with device := d } := by
  refine ⟨completing.ordered, ?_, ?_, aim, completing.active, ?_, completing.popping⟩
  · intro j
    have once := completing.once j
    rw [quiet] at once
    dsimp only
    rw [quiet']
    exact once
  · intro j waiting done
    refine ⟨(completing.idle j waiting done).1, ?_⟩
    intro sees
    have finished := seen j sees waiting
    rw [done] at finished
    cases finished
  · intro t i same
    dsimp only at same
    rw [same] at quiet'
    cases quiet'

/-- The device goes on with its scan, having seen nothing. -/
theorem Completing.scanning (completing : Completing s) (t i : Nat)
    (quiet : s.device.reporting = none) : Completing { s with device := .active t i } :=
  completing.looked quiet rfl nofun nofun

/-- A slot that is seen active is in flight or done. -/
theorem Completing.seen_active {t i : Nat} (completing : Completing s)
    (quiet : s.device.reporting = none) (active : (s.slots i).active = true) :
    Completing { s with device := .done t i } := by
  refine completing.looked quiet rfl ?_ nofun
  intro j sees waiting
  cases sees
  by_contra open_
  have idle := (completing.idle i waiting ((Bool.not_eq_true _).mp open_)).1
  rw [active] at idle
  cases idle

/-- A slot that was seen active and is not done is in flight, and stays so. -/
theorem Completing.seen_open {t i : Nat} (completing : Completing s)
    (device : s.device = .done t i) (done : (s.slots i).done = false) :
    Completing { s with device := .deadline t i } := by
  have quiet : s.device.reporting = none := by rw [device]; rfl
  have flying : Flying s i := by
    by_contra waiting
    exact (completing.idle i waiting done).2 (by rw [device]; rfl)
  refine completing.looked quiet rfl ?_ ?_
  · intro j sees waiting
    cases sees
    exact absurd flying waiting
  · intro j aims
    cases aims
    exact ⟨flying, done⟩

theorem Completing.seen_due {t i : Nat} (completing : Completing s)
    (device : s.device = .deadline t i) : Completing { s with device := .setDone t i } := by
  have quiet : s.device.reporting = none := by rw [device]; rfl
  have aimed := completing.aimed i (by rw [device]; rfl)
  refine completing.looked quiet rfl ?_ ?_
  · intro j sees waiting
    cases sees
    exact absurd aimed.1 waiting
  · intro j aims
    cases aims
    exact aimed

/-- The store of `done`, from which on the request counts as reported. -/
theorem Completing.finished {t i : Nat} (completing : Completing s)
    (device : s.device = .setDone t i) :
    Completing { s.setSlot i { s.slots i with done := true } with device := .push t i } := by
  have quiet : s.device.reporting = none := by rw [device]; rfl
  obtain ⟨flying, open_⟩ := completing.aimed i (by rw [device]; rfl)
  have other : ∀ j, j ≠ i → (s.setSlot i { s.slots i with done := true }).slots j = s.slots j :=
    fun j apart => Function.update_of_ne apart ..
  have own : (s.setSlot i { s.slots i with done := true }).slots i =
      { s.slots i with done := true } := Function.update_self ..
  refine ⟨completing.ordered, ?_, ?_, ?_, ?_, nofun, completing.popping⟩
  · intro j
    have once := completing.once j
    rw [quiet, if_neg (by nofun)] at once
    by_cases mine : j = i
    · subst mine
      rw [if_neg fun both => Bool.noConfusion (open_.symm.trans both.2)] at once
      refine (congrArg₂ (· + ·) once (if_pos rfl)).trans (if_pos ⟨flying, ?_⟩).symm
      exact congrArg Slot.done own
    · refine Eq.trans (congrArg₂ (· + ·) rfl (if_neg ?_)) (once.trans ?_)
      · exact fun same => mine (Option.some.inj same).symm
      · dsimp only
        rw [other j mine]
        rfl
  · intro j waiting done
    dsimp only at done ⊢
    have apart : j ≠ i := fun same => waiting (same ▸ flying)
    rw [other j apart] at done ⊢
    exact ⟨(completing.idle j waiting done).1, nofun⟩
  · exact fun j aims => nomatch aims
  · intro j waits
    have active := completing.active j waits
    dsimp only
    by_cases mine : j = i
    · subst mine
      rw [own]
      exact active
    · rw [other j mine]
      exact active

/-- The store into the completion ring, which has room. -/
theorem Completing.pushed {t i : Nat} (placed : Placed s) (completing : Completing s)
    (device : s.device = .push t i) :
    Completing { s with
      comp := s.comp.publish cqn s.comp.head i, device := .publish t i } := by
  have room := completions_room placed completing
  refine ⟨completing.ordered, ?_, ?_, ?_, completing.active, ?_, completing.popping⟩
  · intro j
    have once := completing.once j
    rw [device] at once
    dsimp only
    rw [Tickets.Ring.contents_publish room]
    exact once
  · exact fun j waiting done => ⟨(completing.idle j waiting done).1, nofun⟩
  · exact fun j aims => nomatch aims
  · intro t' j same
    cases same
    exact Function.update_self ..

/-- The store of `comp_head`, which hands the completion over. -/
theorem Completing.published {t i : Nat} (completing : Completing s)
    (device : s.device = .publish t i) :
    Completing { s with comp := s.comp.reserve, device := .active t (i + 1) } := by
  refine ⟨Nat.le_succ_of_le completing.ordered, ?_, ?_, ?_, completing.active, nofun,
    fun pc => Nat.lt_succ_of_lt (completing.popping pc)⟩
  · intro j
    have once := completing.once j
    rw [device] at once
    dsimp only
    rw [Tickets.Ring.contents_reserve completing.ordered, completing.stored t i device,
      List.count_append, List.count_singleton]
    refine Eq.trans ?_ once
    by_cases mine : i = j
    · simp [Dev.reporting, mine]
    · simp [Dev.reporting, mine]
  · exact fun j waiting done => ⟨(completing.idle j waiting done).1, nofun⟩
  · exact fun j aims => nomatch aims

theorem devStep_completing (placed : Placed s) (completing : Completing s) :
    Completing (s.devStep now) := by
  unfold State.devStep
  split
  · rename_i t i device
    have quiet : s.device.reporting = none := by rw [device]; rfl
    split
    · split
      · rename_i active
        exact completing.seen_active quiet active
      · exact completing.scanning t (i + 1) quiet
    · exact completing.scanning now 0 quiet
  · rename_i t i device
    split
    · exact completing.scanning t (i + 1) (by rw [device]; rfl)
    · rename_i open_
      exact completing.seen_open device ((Bool.not_eq_true _).mp open_)
  · rename_i t i device
    split
    · exact completing.seen_due device
    · exact completing.scanning t (i + 1) (by rw [device]; rfl)
  · rename_i t i device
    exact completing.finished device
  · rename_i t i device
    exact completing.pushed placed device
  · rename_i t i device
    exact completing.published device

/-- A free task is nowhere else. -/
theorem Placed.only_free (placed : Placed s) (member : i ∈ s.freelist) :
    s.freelist.count i = 1 ∧ i ∉ s.ready ∧ i ∉ s.pc.hand ∧ ¬ Flying s i := by
  have once := placed.once i
  have positive := List.count_pos_iff.mpr member
  have bound : (if i < pool then 1 else 0) ≤ 1 := by split <;> omega
  refine ⟨by omega, ?_, ?_, ?_⟩
  · intro other
    have more := List.count_pos_iff.mpr other
    omega
  · intro other
    have more := List.count_pos_iff.mpr other
    omega
  · intro flying
    rw [if_pos flying] at once
    omega

/-- A task in the dispatcher's hands is nowhere else. -/
theorem Placed.only_hand (placed : Placed s) (member : i ∈ s.pc.hand) :
    i ∉ s.freelist ∧ i ∉ s.ready ∧ s.pc.hand.count i = 1 ∧ ¬ Flying s i := by
  have once := placed.once i
  have positive := List.count_pos_iff.mpr member
  have bound : (if i < pool then 1 else 0) ≤ 1 := by split <;> omega
  refine ⟨?_, ?_, by omega, ?_⟩
  · intro other
    have more := List.count_pos_iff.mpr other
    omega
  · intro other
    have more := List.count_pos_iff.mpr other
    omega
  · intro flying
    rw [if_pos flying] at once
    omega

/-- A task in flight is nowhere else. -/
theorem Placed.only_flying (placed : Placed s) (flying : Flying s i) :
    i ∉ s.freelist ∧ i ∉ s.ready ∧ i ∉ s.pc.hand := by
  refine ⟨?_, ?_, ?_⟩
  · exact fun member => (placed.only_free member).2.2.2 flying
  · intro other
    have once := placed.once i
    have more := List.count_pos_iff.mpr other
    rw [if_pos flying] at once
    split at once <;> omega
  · exact fun member => (placed.only_hand member).2.2.2 flying

/-- The device's side does not change. -/
theorem Completing.aside (completing : Completing s) (slots : t.slots = s.slots)
    (comp : t.comp = s.comp) (device : t.device = s.device)
    (flying : ∀ j, Flying t j ↔ Flying s j)
    (active : ∀ j, (t.tasks j).state = .waitOff ∨ (∃ todo, t.pc = .park j todo) →
      (s.slots j).active = true)
    (popping : t.pc = .pop → s.comp.tail < s.comp.head) : Completing t := by
  refine ⟨?_, ?_, ?_, ?_, ?_, ?_, ?_⟩
  · rw [comp]
    exact completing.ordered
  · intro j
    rw [comp, device, slots]
    simp only [flying]
    exact completing.once j
  · intro j
    rw [flying, slots, device]
    exact completing.idle j
  · intro j
    rw [flying, slots, device]
    exact completing.aimed j
  · intro j
    rw [slots]
    exact active j
  · rw [comp, device]
    exact completing.stored
  · rw [comp]
    exact popping

/-- The dispatcher goes on with the same tasks in its hands, and a store it makes to a
slot is not of `done`, and of `active` only for a task in flight. -/
theorem holding {old new : Pc} (placed : Placed s) (completing : Completing s)
    (before : s.pc = old) (after : t.pc = new) (hand : new.hand = old.hand)
    (readies : new.readies = old.readies) (submitting : new.submitting = old.submitting)
    (undrained : ∀ j, old ≠ .drained j) (undrained' : ∀ j, new ≠ .drained j)
    (freelist : t.freelist = s.freelist) (ready : t.ready = s.ready) (tasks : t.tasks = s.tasks)
    (comp : t.comp = s.comp) (device : t.device = s.device)
    (slots : ∀ j, (t.slots j).done = (s.slots j).done ∧
      ((t.slots j).active = (s.slots j).active ∨ Flying s j ∧ (t.slots j).active = true))
    (park : ∀ j todo, new = .park j todo → (t.slots j).active = true)
    (popping : new = .pop → s.comp.tail < s.comp.head) : Placed t ∧ Completing t := by
  have flying : ∀ j, Flying t j ↔ Flying s j := by
    intro j
    have apart : new ≠ .drained j ↔ old ≠ .drained j := iff_of_true (undrained' j) (undrained j)
    unfold Flying
    rw [before, after, tasks, submitting, apart]
  constructor
  · refine ⟨?_, ?_, ?_, ?_, ?_⟩
    · intro j
      rw [freelist, ready, after, hand, ← before]
      simp only [flying]
      exact placed.once j
    · rw [freelist, tasks]
      exact placed.free
    · rw [ready, tasks]
      exact placed.ready
    · rw [after, readies, ← before, tasks]
      exact placed.hand
    · intro j same
      exact absurd (after.symm.trans same) (undrained' j)
  · refine ⟨?_, ?_, ?_, ?_, ?_, ?_, ?_⟩
    · rw [comp]
      exact completing.ordered
    · intro j
      rw [comp, device, (slots j).1]
      simp only [flying]
      exact completing.once j
    · intro j
      rw [flying, (slots j).1, device]
      intro waiting done
      rcases (slots j).2 with same | ⟨there, _⟩
      · rw [same]
        exact completing.idle j waiting done
      · exact absurd there waiting
    · intro j
      rw [flying, (slots j).1, device]
      exact completing.aimed j
    · rintro j (state | ⟨todo, pc⟩)
      · rw [tasks] at state
        rcases (slots j).2 with same | ⟨_, set⟩
        · rw [same]
          exact completing.active j (Or.inl state)
        · exact set
      · exact park j todo (after.symm.trans pc)
    · rw [comp, device]
      exact completing.stored
    · rw [after, comp]
      exact popping

variable {id : Nat} {todo : List Nat} {x : Task}

/-- One task changes its state and moves from one list to another, or stays in flight; a
store that is made to its slot is only that it is not active any more. -/
theorem relocate (placed : Placed s) (completing : Completing s)
    (tasks : t.tasks = Function.update s.tasks id x) (comp : t.comp = s.comp)
    (device : t.device = s.device) (flying : Flying t id ↔ Flying s id)
    (counts : ∀ j, t.freelist.count j + t.ready.count j + t.pc.hand.count j =
      s.freelist.count j + s.ready.count j + s.pc.hand.count j)
    (free : ∀ j ∈ t.freelist, if j = id then x.state = .free else j ∈ s.freelist)
    (ready : ∀ j ∈ t.ready, if j = id then x.state = .ready else j ∈ s.ready)
    (hand : ∀ j ∈ t.pc.readies, if j = id then x.state = .ready else j ∈ s.pc.readies)
    (submitting : ∀ j, j ≠ id → (t.pc.submitting = some j ↔ s.pc.submitting = some j))
    (drained : ∀ j, j ≠ id → s.pc ≠ .drained j) (drained' : ∀ j, t.pc ≠ .drained j)
    (park : ∀ j todo, t.pc ≠ .park j todo) (unpop : t.pc ≠ .pop)
    (slots : ∀ j, (t.slots j).done = (s.slots j).done ∧
      ((t.slots j).active = (s.slots j).active ∨ j = id ∧ (t.slots j).active = false))
    (active : x.state = .waitOff → (t.slots id).active = true) : Placed t ∧ Completing t := by
  have own : t.tasks id = x := by rw [tasks, Function.update_self]
  have other : ∀ j, j ≠ id → t.tasks j = s.tasks j := by
    intro j apart
    rw [tasks, Function.update_of_ne apart]
  have same : ∀ j, Flying t j ↔ Flying s j := by
    intro j
    by_cases mine : j = id
    · rw [mine]
      exact flying
    · have kept : t.pc ≠ .drained j ↔ s.pc ≠ .drained j :=
        iff_of_true (drained' j) (drained j mine)
      unfold Flying
      rw [other j mine, kept, submitting j mine]
  have state : ∀ j (st : TState) (old : Prop), (if j = id then x.state = st else old) →
      (old → (s.tasks j).state = st) → (t.tasks j).state = st := by
    intro j st old place before
    by_cases mine : j = id
    · rw [if_pos mine] at place
      rw [mine, own]
      exact place
    · rw [if_neg mine] at place
      rw [other j mine]
      exact before place
  constructor
  · refine ⟨?_, ?_, ?_, ?_, fun j pc => absurd pc (drained' j)⟩
    · intro j
      rw [counts]
      simp only [same]
      exact placed.once j
    · exact fun j member => state j _ _ (free j member) (placed.free j)
    · exact fun j member => state j _ _ (ready j member) (placed.ready j)
    · exact fun j member => state j _ _ (hand j member) (placed.hand j)
  · refine ⟨?_, ?_, ?_, ?_, ?_, ?_, ?_⟩
    · rw [comp]
      exact completing.ordered
    · intro j
      rw [comp, device, (slots j).1]
      simp only [same]
      exact completing.once j
    · intro j
      rw [same, (slots j).1, device]
      intro waiting done
      obtain ⟨idle, unseen⟩ := completing.idle j waiting done
      refine ⟨?_, unseen⟩
      rcases (slots j).2 with kept | ⟨_, cleared⟩
      · rw [kept]
        exact idle
      · exact cleared
    · intro j
      rw [same, (slots j).1, device]
      exact completing.aimed j
    · rintro j (waits | ⟨todo, parks⟩)
      · by_cases mine : j = id
        · rw [mine, own] at waits
          rw [mine]
          exact active waits
        · rw [other j mine] at waits
          rcases (slots j).2 with kept | ⟨same, _⟩
          · rw [kept]
            exact completing.active j (Or.inl waits)
          · exact absurd same mine
      · exact absurd parks (park j todo)
    · rw [comp, device]
      exact completing.stored
    · exact fun pc => absurd pc unpop

/-- A task that is neither suspended nor being submitted has nothing in flight. -/
theorem grounded (state : (t.tasks id).state ≠ .waitOff) (submitting : t.pc.submitting ≠ some id) :
    ¬ Flying t id := by
  rintro (⟨waits, _⟩ | submits)
  · exact state waits
  · exact submitting submits

/-- A free task is given an arrival. -/
theorem give_kept {arr : Nat} {rest : List Nat} (placed : Placed s) (completing : Completing s)
    (pc : s.pc = .give arr) (top : s.freelist = id :: rest) (state : x.state = .ready) :
    Placed { s.setTask id x with freelist := rest, ready := s.ready ++ [id], pc := .assign } ∧
      Completing { s.setTask id x with
        freelist := rest, ready := s.ready ++ [id], pc := .assign } := by
  obtain ⟨alone, _, _, before⟩ :=
    placed.only_free (i := id) (by rw [top]; exact List.mem_cons_self)
  have once : id ∉ rest := by
    intro member
    have more := List.count_pos_iff.mpr member
    rw [top, List.count_cons_self] at alone
    omega
  have own : (s.setTask id x).tasks id = x := Function.update_self ..
  refine relocate placed completing rfl rfl rfl ?_ ?_ ?_ ?_ nofun ?_ ?_ nofun nofun nofun
    (fun j => ⟨rfl, Or.inl rfl⟩) ?_
  · refine iff_of_false (grounded ?_ nofun) before
    dsimp only
    rw [own, state]
    nofun
  · intro j
    simp only [top, pc, Pc.hand, List.count_append, List.count_cons, List.count_nil]
    omega
  · intro j member
    rw [if_neg (fun same : j = id => once (same ▸ member)), top]
    exact List.mem_cons_of_mem id member
  · intro j member
    by_cases mine : j = id
    · rwa [if_pos mine]
    · rw [if_neg mine]
      rcases List.mem_append.mp member with old | new
      · exact old
      · exact absurd (List.mem_singleton.mp new) mine
  · intro j _
    rw [pc]
    exact Iff.rfl
  · intro j _
    rw [pc]
    nofun
  · rw [state]
    nofun

/-- A completed task goes to the ready list. -/
theorem drained_kept (placed : Placed s) (completing : Completing s) (pc : s.pc = .drained id)
    (state : x.state = .ready) :
    Placed { (s.setTask id x).setSlot id { s.slots id with active := false } with
        ready := s.ready ++ [id], pc := .drain } ∧
      Completing { (s.setTask id x).setSlot id { s.slots id with active := false } with
        ready := s.ready ++ [id], pc := .drain } := by
  obtain ⟨unfree, _, _, before⟩ :=
    placed.only_hand (i := id) (by rw [pc]; exact List.mem_cons_self)
  have own : (s.setTask id x).tasks id = x := Function.update_self ..
  refine relocate placed completing rfl rfl rfl ?_ ?_ ?_ ?_ nofun ?_ ?_ nofun nofun nofun
    ?_ ?_
  · refine iff_of_false (grounded ?_ nofun) before
    change ((s.setTask id x).tasks id).state ≠ .waitOff
    rw [own, state]
    nofun
  · intro j
    simp only [pc, Pc.hand, List.count_append, List.count_nil]
    change s.freelist.count j + _ + 0 = s.freelist.count j + _ + _
    omega
  · intro j member
    rw [if_neg (fun same : j = id => unfree (same ▸ member))]
    exact member
  · intro j member
    by_cases mine : j = id
    · rwa [if_pos mine]
    · rw [if_neg mine]
      rcases List.mem_append.mp member with old | new
      · exact old
      · exact absurd (List.mem_singleton.mp new) mine
  · intro j _
    rw [pc]
    exact Iff.rfl
  · intro j apart same
    rw [pc, Pc.drained.injEq] at same
    exact apart same.symm
  · intro j
    have slots : ∀ j, j ≠ id → ((s.setTask id x).setSlot id
        { s.slots id with active := false }).slots j = s.slots j :=
      fun j apart => Function.update_of_ne apart ..
    have here : ((s.setTask id x).setSlot id { s.slots id with active := false }).slots id =
        { s.slots id with active := false } := Function.update_self ..
    dsimp only
    by_cases mine : j = id
    · subst mine
      rw [here]
      exact ⟨rfl, Or.inr ⟨rfl, rfl⟩⟩
    · rw [slots j mine]
      exact ⟨rfl, Or.inl rfl⟩
  · rw [state]
    nofun

/-- A task that is through goes to the free list. -/
theorem release_kept (placed : Placed s) (completing : Completing s)
    (pc : s.pc = .release id todo) (state : x.state = .free) :
    Placed { s.setTask id x with freelist := id :: s.freelist, pc := .run todo } ∧
      Completing { s.setTask id x with freelist := id :: s.freelist, pc := .run todo } := by
  obtain ⟨_, unready, alone, before⟩ :=
    placed.only_hand (i := id) (by rw [pc]; exact List.mem_cons_self)
  have once : id ∉ todo := by
    intro member
    have more := List.count_pos_iff.mpr member
    rw [pc, Pc.hand, List.count_cons_self] at alone
    omega
  have own : (s.setTask id x).tasks id = x := Function.update_self ..
  refine relocate placed completing rfl rfl rfl ?_ ?_ ?_ ?_ ?_ ?_ ?_ nofun nofun nofun
    (fun j => ⟨rfl, Or.inl rfl⟩) ?_
  · refine iff_of_false (grounded ?_ nofun) before
    dsimp only
    rw [own, state]
    nofun
  · intro j
    simp only [pc, Pc.hand, List.count_cons]
    change _ + s.ready.count j + _ = _ + s.ready.count j + _
    omega
  · intro j member
    by_cases mine : j = id
    · rwa [if_pos mine]
    · rw [if_neg mine]
      rcases List.mem_cons.mp member with new | old
      · exact absurd new mine
      · exact old
  · intro j member
    rw [if_neg (fun same : j = id => unready (same ▸ member))]
    exact member
  · intro j member
    rw [if_neg (fun same : j = id => once (same ▸ member)), pc]
    exact List.mem_cons_of_mem id member
  · intro j _
    rw [pc]
    exact Iff.rfl
  · intro j _
    rw [pc]
    nofun
  · rw [state]
    nofun

/-- A fiber parks behind its submission. -/
theorem park_kept (placed : Placed s) (completing : Completing s) (pc : s.pc = .park id todo)
    (state : x.state = .waitOff) :
    Placed { s.setTask id x with pc := .run todo } ∧
      Completing { s.setTask id x with pc := .run todo } := by
  have flying : Flying s id := Or.inr (by rw [pc]; rfl)
  obtain ⟨unfree, unready, unheld⟩ := placed.only_flying flying
  rw [pc] at unheld
  have own : (s.setTask id x).tasks id = x := Function.update_self ..
  refine relocate placed completing rfl rfl rfl ?_ ?_ ?_ ?_ ?_ ?_ ?_ nofun nofun nofun
    (fun j => ⟨rfl, Or.inl rfl⟩) ?_
  · refine iff_of_true (Or.inl ⟨?_, nofun⟩) flying
    dsimp only
    rw [own, state]
  · intro j
    rw [pc]
    rfl
  · intro j member
    rw [if_neg (fun same : j = id => unfree (same ▸ member))]
    exact member
  · intro j member
    rw [if_neg (fun same : j = id => unready (same ▸ member))]
    exact member
  · intro j member
    rw [if_neg (fun same : j = id => unheld (same ▸ member)), pc]
    exact List.mem_cons_of_mem id member
  · intro j apart
    rw [pc]
    exact iff_of_false nofun fun same => apart (Option.some.inj same).symm
  · intro j _
    rw [pc]
    nofun
  · exact fun _ => completing.active id (Or.inr ⟨todo, pc⟩)

/-- The dispatcher has taken an entry of the completion ring. -/
def State.popped (s : State) : State :=
  { s with comp := s.comp.advance, pc := .drained (s.comp.front cqn) }

theorem Completing.contents_eq (completing : Completing s) (pc : s.pc = .pop) :
    s.comp.contents cqn = s.comp.front cqn :: s.comp.advance.contents cqn :=
  Tickets.Ring.contents_advance (completing.popping pc)

/-- The first completion in the ring is of a suspended task. -/
theorem Completing.front_waits (completing : Completing s) (pc : s.pc = .pop) :
    (s.tasks (s.comp.front cqn)).state = .waitOff ∧ Flying s (s.comp.front cqn) ∧
      (s.slots (s.comp.front cqn)).done = true := by
  obtain ⟨flying, done⟩ := completing.flying_of_mem (i := s.comp.front cqn)
    (by rw [completing.contents_eq pc]; exact List.mem_cons_self)
  refine ⟨?_, flying, done⟩
  rcases flying with ⟨waits, _⟩ | submits
  · exact waits
  · rw [pc] at submits
    cases submits

/-- The task that is taken from the ring is not in flight any more. -/
theorem flying_popped (pc : s.pc = .pop) :
    Flying s.popped i ↔ Flying s i ∧ i ≠ s.comp.front cqn := by
  unfold Flying
  rw [pc]
  constructor
  · rintro (⟨state, other⟩ | submits)
    · exact ⟨Or.inl ⟨state, nofun⟩, fun same => other (same ▸ rfl)⟩
    · cases submits
  · rintro ⟨⟨state, _⟩ | submits, other⟩
    · exact Or.inl ⟨state, fun same => other (Pc.drained.inj same).symm⟩
    · cases submits

theorem popped_placed (placed : Placed s) (completing : Completing s) (pc : s.pc = .pop) :
    Placed s.popped := by
  obtain ⟨waits, flying, _⟩ := completing.front_waits pc
  refine ⟨?_, placed.free, placed.ready, nofun, ?_⟩
  · intro j
    have once := placed.once j
    rw [pc] at once
    simp only [flying_popped pc]
    change s.freelist.count j + s.ready.count j + [s.comp.front cqn].count j + _ = _
    simp only [Pc.hand, List.count_cons, List.count_nil] at once ⊢
    by_cases mine : j = s.comp.front cqn
    · subst mine
      rw [if_pos flying] at once
      simpa using once
    · rw [if_neg (by simpa using Ne.symm mine)]
      simpa [mine] using once
  · intro j same
    cases same
    exact waits

theorem popped_completing (completing : Completing s) (pc : s.pc = .pop) :
    Completing s.popped := by
  obtain ⟨_, flying, done⟩ := completing.front_waits pc
  have finished : ∀ j, (s.slots j).done = false → j ≠ s.comp.front cqn := by
    rintro j open_ rfl
    rw [done] at open_
    cases open_
  refine ⟨completing.popping pc, ?_, ?_, ?_, ?_, completing.stored, nofun⟩
  · intro j
    have once := completing.once j
    rw [completing.contents_eq pc, List.count_cons] at once
    simp only [flying_popped pc]
    change (s.comp.advance.contents cqn).count j +
      (if s.device.reporting = some j then 1 else 0) =
        if (Flying s j ∧ j ≠ s.comp.front cqn) ∧ (s.slots j).done = true then 1 else 0
    by_cases mine : j = s.comp.front cqn
    · subst mine
      have taken : ¬ ((Flying s (s.comp.front cqn) ∧ s.comp.front cqn ≠ s.comp.front cqn) ∧
          (s.slots (s.comp.front cqn)).done = true) := fun both => both.1.2 rfl
      simp only [beq_self_eq_true, flying, done, and_self, if_true] at once
      rw [if_neg taken]
      omega
    · rw [if_neg (by simpa using Ne.symm mine)] at once
      simpa [mine] using once
  · intro j waiting open_
    apply completing.idle j _ open_
    intro flies
    exact waiting ((flying_popped pc).mpr ⟨flies, finished j open_⟩)
  · intro j aims
    obtain ⟨flies, open_⟩ := completing.aimed j aims
    exact ⟨(flying_popped pc).mpr ⟨flies, finished j open_⟩, open_⟩
  · rintro j (state | ⟨todo, parks⟩)
    · exact completing.active j (Or.inl state)
    · cases parks

/-- The dispatcher turns to the ready fibers. -/
theorem ready_kept (placed : Placed s) (completing : Completing s) (pc : s.pc = .drain) :
    Placed { s with ready := [], pc := .run s.ready } ∧
      Completing { s with ready := [], pc := .run s.ready } := by
  have flying : ∀ j, Flying { s with ready := [], pc := .run s.ready } j ↔ Flying s j := by
    intro j
    unfold Flying
    rw [pc]
    exact or_congr (and_congr_right fun _ => iff_of_true nofun nofun) (iff_of_false nofun nofun)
  constructor
  · refine ⟨?_, placed.free, nofun, placed.ready, nofun⟩
    intro j
    have once := placed.once j
    rw [pc] at once
    simp only [flying]
    simp only [Pc.hand, List.count_nil] at once ⊢
    omega
  · refine completing.aside rfl rfl rfl flying ?_ nofun
    rintro j (state | ⟨todo, parks⟩)
    · exact completing.active j (Or.inl state)
    · cases parks

/-- A fiber has cleared `done` of its slot. -/
def State.opened (s : State) (id : Nat) (todo : List Nat) : State :=
  (s.setSlot id { s.slots id with done := false }).goto (.setDeadline id todo)

theorem opened_slot (id : Nat) (todo : List Nat) :
    (s.opened id todo).slots id = { s.slots id with done := false } := Function.update_self ..

theorem opened_slot_of_ne (todo : List Nat) (apart : i ≠ id) :
    (s.opened id todo).slots i = s.slots i := Function.update_of_ne apart ..

/-- From then on its request is in flight. -/
theorem flying_opened (pc : s.pc = .clearDone id todo) :
    Flying (s.opened id todo) i ↔ Flying s i ∨ i = id := by
  unfold Flying
  rw [pc]
  constructor
  · rintro (⟨state, _⟩ | submits)
    · exact Or.inl (Or.inl ⟨state, nofun⟩)
    · exact Or.inr (Option.some.inj submits).symm
  · rintro ((⟨state, _⟩ | submits) | same)
    · exact Or.inl ⟨state, nofun⟩
    · cases submits
    · exact Or.inr (same ▸ rfl)

theorem opened_placed (placed : Placed s) (pc : s.pc = .clearDone id todo) :
    Placed (s.opened id todo) := by
  obtain ⟨_, _, _, before⟩ :=
    placed.only_hand (i := id) (by rw [pc]; exact List.mem_cons_self)
  refine ⟨?_, placed.free, placed.ready, ?_, nofun⟩
  · intro j
    have once := placed.once j
    rw [pc] at once
    simp only [flying_opened pc]
    change s.freelist.count j + s.ready.count j + todo.count j + _ = _
    simp only [Pc.hand, List.count_cons] at once
    by_cases mine : j = id
    · subst mine
      simp only [before, false_or, if_true, if_false, beq_self_eq_true] at once ⊢
      omega
    · rw [if_neg (by simpa using Ne.symm mine)] at once
      simpa [mine] using once
  · intro j member
    apply placed.hand j
    rw [pc]
    exact member

theorem opened_completing (placed : Placed s) (completing : Completing s)
    (pc : s.pc = .clearDone id todo) : Completing (s.opened id todo) := by
  obtain ⟨_, _, _, before⟩ :=
    placed.only_hand (i := id) (by rw [pc]; exact List.mem_cons_self)
  refine ⟨completing.ordered, ?_, ?_, ?_, ?_, completing.stored, nofun⟩
  · intro j
    have once := completing.once j
    change (s.comp.contents cqn).count j + (if s.device.reporting = some j then 1 else 0) = _
    by_cases mine : j = id
    · subst mine
      have none : ¬ (Flying s j ∧ (s.slots j).done = true) := fun both => before both.1
      rw [if_neg none] at once
      rw [once, opened_slot]
      simp only [Bool.false_eq_true, and_false, if_false]
    · rw [opened_slot_of_ne todo mine, once]
      simp only [flying_opened pc, mine, or_false]
  · intro j waiting done
    rw [flying_opened pc, not_or] at waiting
    rw [opened_slot_of_ne todo waiting.2] at done ⊢
    exact completing.idle j waiting.1 done
  · intro j aims
    obtain ⟨flies, done⟩ := completing.aimed j aims
    refine ⟨(flying_opened pc).mpr (Or.inl flies), ?_⟩
    by_cases mine : j = id
    · subst mine
      rw [opened_slot]
    · rw [opened_slot_of_ne todo mine]
      exact done
  · rintro j (state | ⟨todo', parks⟩)
    · have active := completing.active j (Or.inl state)
      by_cases mine : j = id
      · subst mine
        rw [opened_slot]
        exact active
      · rw [opened_slot_of_ne todo mine]
        exact active
    · cases parks

/-- The dispatcher goes on without a store. -/
theorem goto_kept {old new : Pc} (placed : Placed s) (completing : Completing s)
    (before : s.pc = old) (hand : new.hand = old.hand) (readies : new.readies = old.readies)
    (submitting : new.submitting = old.submitting) (undrained : ∀ j, old ≠ .drained j)
    (undrained' : ∀ j, new ≠ .drained j) (park : ∀ j todo, new ≠ .park j todo)
    (popping : new = .pop → s.comp.tail < s.comp.head) :
    Placed (s.goto new) ∧ Completing (s.goto new) :=
  holding placed completing before rfl hand readies submitting undrained undrained'
    rfl rfl rfl rfl rfl (fun _ => ⟨rfl, Or.inl rfl⟩) (fun j todo same => absurd same (park j todo))
    popping

theorem assigning_kept (placed : Placed s) (completing : Completing s)
    (run : s.assigning s.pc = some t) : Placed t ∧ Completing t := by
  unfold State.assigning at run
  split at run
  · rename_i pc
    cases run
    split
    · exact goto_kept placed completing pc rfl rfl rfl nofun nofun nofun nofun
    · exact goto_kept placed completing pc rfl rfl rfl nofun nofun nofun nofun
  · rename_i pc
    cases run
    exact goto_kept placed completing pc rfl rfl rfl nofun nofun nofun nofun
  · rename_i arr pc
    cases run
    exact holding placed completing pc rfl rfl rfl rfl nofun nofun rfl rfl rfl rfl rfl
      (fun j => ⟨rfl, Or.inl rfl⟩) nofun nofun
  · rename_i arr pc
    split at run
    · rename_i id rest top
      cases run
      exact give_kept placed completing pc top rfl
    · cases run
  · cases run

theorem draining_kept (placed : Placed s) (completing : Completing s)
    (run : s.draining s.pc = some t) : Placed t ∧ Completing t := by
  unfold State.draining at run
  split at run
  · rename_i pc
    cases run
    split
    · rename_i more
      exact goto_kept placed completing pc rfl rfl rfl nofun nofun nofun fun _ => more
    · exact ready_kept placed completing pc
  · rename_i pc
    cases run
    exact ⟨popped_placed placed completing pc, popped_completing completing pc⟩
  · rename_i id pc
    rw [if_pos (placed.drained id pc)] at run
    cases run
    exact drained_kept placed completing pc rfl
  · cases run

theorem running_kept (placed : Placed s) (completing : Completing s)
    (run : s.running s.pc = some t) : Placed t ∧ Completing t := by
  unfold State.running at run
  split at run
  · rename_i pc
    cases run
    exact goto_kept placed completing pc rfl rfl rfl nofun nofun nofun nofun
  · rename_i id todo pc
    have state : (s.tasks id).state = .ready :=
      placed.hand id (by rw [pc]; exact List.mem_cons_self)
    rw [if_pos state] at run
    cases run
    split
    · exact goto_kept placed completing pc rfl rfl rfl nofun nofun nofun nofun
    · exact goto_kept placed completing pc rfl rfl rfl nofun nofun nofun nofun
  · cases run

theorem taskBody_kept (placed : Placed s) (completing : Completing s)
    (run : s.taskBody now s.pc = some t) : Placed t ∧ Completing t := by
  unfold State.taskBody at run
  split at run
  · rename_i id todo pc
    cases run
    exact ⟨opened_placed placed pc, opened_completing placed completing pc⟩
  · rename_i id todo pc
    cases run
    refine holding placed completing pc rfl rfl rfl rfl nofun nofun rfl rfl rfl rfl rfl ?_ nofun
      nofun
    · intro j
      change ((Function.update s.slots id _ j).done = _) ∧
        ((Function.update s.slots id _ j).active = _ ∨ _)
      by_cases mine : j = id
      · subst mine
        rw [Function.update_self]
        exact ⟨rfl, Or.inl rfl⟩
      · rw [Function.update_of_ne mine]
        exact ⟨rfl, Or.inl rfl⟩
  · rename_i id todo pc
    cases run
    have flying : Flying s id := Or.inr (by rw [pc]; rfl)
    refine holding placed completing pc rfl rfl rfl rfl nofun nofun rfl rfl rfl rfl rfl ?_ ?_ nofun
    · intro j
      change ((Function.update s.slots id _ j).done = _) ∧
        ((Function.update s.slots id _ j).active = _ ∨
          _ ∧ (Function.update s.slots id _ j).active = true)
      by_cases mine : j = id
      · subst mine
        rw [Function.update_self]
        exact ⟨rfl, Or.inr ⟨flying, rfl⟩⟩
      · rw [Function.update_of_ne mine]
        exact ⟨rfl, Or.inl rfl⟩
    · intro j rest same
      cases same
      change (Function.update s.slots id _ id).active = true
      rw [Function.update_self]
  · rename_i id todo pc
    cases run
    exact park_kept placed completing pc rfl
  · rename_i id todo pc
    cases run
    exact holding placed completing pc rfl rfl rfl rfl nofun nofun rfl rfl rfl rfl rfl
      (fun j => ⟨rfl, Or.inl rfl⟩) nofun nofun
  · rename_i id todo pc
    cases run
    exact release_kept placed completing pc rfl
  · cases run

theorem dispatch_kept (placed : Placed s) (completing : Completing s)
    (run : s.dispatch now = some t) : Placed t ∧ Completing t := by
  unfold State.dispatch at run
  split at run
  · rename_i pc
    cases run
    exact goto_kept placed completing pc rfl rfl rfl nofun nofun nofun nofun
  all_goals first
    | exact assigning_kept placed completing run
    | exact draining_kept placed completing run
    | exact running_kept placed completing run
    | exact taskBody_kept placed completing run

/-- The producer has its own part of the state, and `r_head`. -/
theorem produce_writes (s : State) (now : Nat) : ∃ ring arrived dropped producer,
    s.produce now = { s with
      ring := ring, arrived := arrived, dropped := dropped, producer := producer } := by
  unfold State.produce
  split
  · exact ⟨_, _, _, _, rfl⟩
  · split
    · exact ⟨_, _, _, _, rfl⟩
    · exact ⟨_, _, _, _, rfl⟩
  · exact ⟨_, _, _, _, rfl⟩

/-- The device has the slots and the completion ring. -/
theorem devStep_writes (s : State) (now : Nat) : ∃ slots comp device,
    s.devStep now = { s with slots := slots, comp := comp, device := device } := by
  unfold State.devStep
  split
  · split
    · split
      · exact ⟨_, _, _, rfl⟩
      · exact ⟨_, _, _, rfl⟩
    · exact ⟨_, _, _, rfl⟩
  · split
    · exact ⟨_, _, _, rfl⟩
    · exact ⟨_, _, _, rfl⟩
  · split
    · exact ⟨_, _, _, rfl⟩
    · exact ⟨_, _, _, rfl⟩
  · exact ⟨_, _, _, rfl⟩
  · exact ⟨_, _, _, rfl⟩
  · exact ⟨_, _, _, rfl⟩

/-- No step of the three threads loses a task or has it twice. -/
theorem step_kept {act : OpenAct} (placed : Placed s) (completing : Completing s)
    (run : step s act = some t) : Placed t ∧ Completing t := by
  cases act with
  | produce now =>
    cases run
    obtain ⟨ring, arrived, dropped, producer, writes⟩ := produce_writes s now
    rw [writes]
    exact ⟨⟨placed.once, placed.free, placed.ready, placed.hand, placed.drained⟩,
      completing.aside rfl rfl rfl (fun _ => Iff.rfl) completing.active completing.popping⟩
  | device now =>
    cases run
    refine ⟨?_, devStep_completing placed completing⟩
    obtain ⟨slots, comp, device, writes⟩ := devStep_writes s now
    rw [writes]
    exact ⟨placed.once, placed.free, placed.ready, placed.hand, placed.drained⟩
  | dispatch now => exact dispatch_kept placed completing run

end TransparentOffload.OpenLoop
