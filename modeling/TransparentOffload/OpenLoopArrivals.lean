import TransparentOffload.OpenLoopTasks

set_option autoImplicit false

/- Where each arrival is between any two steps of the three threads: unread in the ring,
with the one task it was given to, or recorded. -/
namespace TransparentOffload.OpenLoop

/-- What is unread in the ring are the latest arrivals, in their order, and the producer
knows of no more room than there is. -/
structure Arriving (s : State) : Prop where
  ordered : s.ring.tail ≤ s.ring.head ∧ s.ring.head ≤ s.ring.tail + ringLen
  counted : s.arrived.length = s.ring.head
  unread : s.ring.contents ringLen = s.arrived.drop s.ring.tail
  loaded : ∀ now h t, s.producer = .loaded now h t → h = s.ring.head ∧ t ≤ s.ring.tail
  stored : ∀ now h, s.producer = .stored now h → h = s.ring.head ∧
    s.ring.head < s.ring.tail + ringLen ∧ s.ring.slots (s.ring.head % ringLen) = now

variable {s t : State} {id now : Nat} {todo : List Nat}

theorem init_arriving (warmUntil : Nat) : Arriving (.init warmUntil) :=
  ⟨⟨Nat.le_refl 0, Nat.zero_le _⟩, rfl, rfl, nofun, nofun⟩

theorem Arriving.congr (arriving : Arriving s) (ring : t.ring = s.ring)
    (arrived : t.arrived = s.arrived) (producer : t.producer = s.producer) : Arriving t := by
  refine ⟨?_, ?_, ?_, ?_, ?_⟩
  · rw [ring]
    exact arriving.ordered
  · rw [ring, arrived]
    exact arriving.counted
  · rw [ring, arrived]
    exact arriving.unread
  · rw [ring, producer]
    exact arriving.loaded
  · rw [ring, producer]
    exact arriving.stored

theorem produce_arriving (arriving : Arriving s) : Arriving (s.produce now) := by
  obtain ⟨low, high⟩ := arriving.ordered
  unfold State.produce
  split
  · refine ⟨arriving.ordered, arriving.counted, arriving.unread, ?_, nofun⟩
    intro now' h t same
    cases same
    exact ⟨rfl, Nat.le_refl _⟩
  · rename_i now' h t producer
    obtain ⟨head, behind⟩ := arriving.loaded now' h t producer
    subst head
    split
    · rename_i room
      have free : s.ring.head < s.ring.tail + ringLen := by omega
      refine ⟨arriving.ordered, arriving.counted, ?_, nofun, ?_⟩
      · dsimp only
        rw [Tickets.Ring.contents_publish free]
        exact arriving.unread
      · intro now'' h' same
        cases same
        exact ⟨rfl, free, Function.update_self ..⟩
    · exact ⟨arriving.ordered, arriving.counted, arriving.unread, nofun, nofun⟩
  · rename_i now' h producer
    obtain ⟨head, room, slot⟩ := arriving.stored now' h producer
    subst head
    have counted := arriving.counted
    refine ⟨⟨Nat.le_succ_of_le low, room⟩, ?_, ?_, nofun, nofun⟩
    · dsimp only
      rw [List.length_append, counted, List.length_singleton]
    · refine (Tickets.Ring.contents_reserve low).trans ?_
      dsimp only
      rw [arriving.unread, slot, List.drop_append_of_le_length (by omega)]

/-- The dispatcher reads the oldest arrival that is unread. -/
theorem Arriving.front (arriving : Arriving s) (more : s.ring.tail < s.ring.head) :
    s.arrived[s.ring.tail]? = some (s.ring.front ringLen) := by
  have unread := arriving.unread
  rw [Tickets.Ring.contents_advance more] at unread
  rw [← List.head?_drop, ← unread]
  rfl

theorem Arriving.advance (arriving : Arriving s) (more : s.ring.tail < s.ring.head)
    (ring : t.ring = s.ring.advance) (arrived : t.arrived = s.arrived)
    (producer : t.producer = s.producer) : Arriving t := by
  obtain ⟨low, high⟩ := arriving.ordered
  refine ⟨?_, ?_, ?_, ?_, ?_⟩
  · rw [ring, Tickets.Ring.advance_tail, Tickets.Ring.advance_head]
    omega
  · rw [ring, arrived]
    exact arriving.counted
  · have unread := arriving.unread
    rw [Tickets.Ring.contents_advance more] at unread
    rw [ring, arrived, Tickets.Ring.advance_tail, ← List.tail_drop, ← unread]
    rfl
  · intro now' h t' same
    rw [producer] at same
    obtain ⟨head, behind⟩ := arriving.loaded now' h t' same
    rw [ring]
    exact ⟨head, Nat.le_succ_of_le behind⟩
  · intro now' h same
    rw [producer] at same
    obtain ⟨head, room, slot⟩ := arriving.stored now' h same
    rw [ring]
    refine ⟨head, ?_, slot⟩
    rw [Tickets.Ring.advance_tail, Tickets.Ring.advance_head]
    omega

/-- The arrival that was taken and not yet given to a task. -/
def Pc.given : Pc → Nat
  | .give _ => 1
  | _ => 0

/-- The task that is through and not yet on the free list. -/
def Pc.releasing : Pc → Nat
  | .release _ _ => 1
  | _ => 0

/-- What the loop over arrivals has tested, and what it has read. -/
def Pc.Fetching (s : State) : Pc → Prop
  | .take => s.ring.tail < s.ring.head ∧ s.freelist ≠ []
  | .taken arr =>
    s.ring.tail < s.ring.head ∧ s.freelist ≠ [] ∧ s.arrived[s.ring.tail]? = some arr
  | .give arr =>
    0 < s.ring.tail ∧ s.freelist ≠ [] ∧ s.arrived[s.ring.tail - 1]? = some arr
  | _ => True

/-- The arrival of the task is still to be recorded. -/
def Due (s : State) (id : Nat) : Prop :=
  (s.tasks id).state ≠ .free ∧ ∀ todo, s.pc ≠ .release id todo

/-- Every arrival that was taken has been given to one task, and is recorded or due. -/
structure Numbered (s : State) : Prop where
  due : ∀ id, Due s id → (s.tasks id).number + s.pc.given < s.ring.tail ∧
    (s.tasks id).number ∉ s.recorded.map Prod.fst ∧
    s.arrived[(s.tasks id).number]? = some (s.tasks id).arr
  apart : ∀ id id', Due s id → Due s id' → (s.tasks id).number = (s.tasks id').number → id = id'
  past : ∀ n ∈ s.recorded.map Prod.fst, n + s.pc.given < s.ring.tail
  own : ∀ n arr, (n, arr) ∈ s.recorded → s.arrived[n]? = some arr
  nodup : (s.recorded.map Prod.fst).Nodup
  length : s.recorded.length = s.completed
  fetching : s.pc.Fetching s
  balance : s.ring.tail + s.freelist.length + s.pc.releasing =
    s.completed + pool + s.pc.given

theorem init_numbered (warmUntil : Nat) : Numbered (.init warmUntil) := by
  have nothing : ∀ id, ¬ Due (.init warmUntil) id := fun id due => due.1 rfl
  refine ⟨fun id due => absurd due (nothing id), fun id id' due => absurd due (nothing id),
    nofun, nofun, List.nodup_nil, rfl, trivial, ?_⟩
  have free : (State.init warmUntil).freelist.length = pool := by
    simp only [State.init, List.length_reverse, List.length_range]
  rw [free]
  change 0 + pool + 0 = 0 + pool + 0
  omega

/-- An arrival keeps its place when later ones come. -/
theorem arrived_grows {arrived : List Nat} {n x : Nat} (place : arrived[n]? = some x) (y : Nat) :
    (arrived ++ [y])[n]? = some x := by
  obtain ⟨below, _⟩ := List.getElem?_eq_some_iff.mp place
  rw [List.getElem?_append_left below]
  exact place

theorem Pc.Fetching.mono {pc : Pc} (fetching : pc.Fetching s) (tail : t.ring.tail = s.ring.tail)
    (head : s.ring.head ≤ t.ring.head) (freelist : t.freelist = s.freelist)
    (arrived : ∀ n x : Nat, s.arrived[n]? = some x → t.arrived[n]? = some x) : pc.Fetching t := by
  cases pc with
  | take =>
    obtain ⟨more, free⟩ := fetching
    refine ⟨?_, freelist ▸ free⟩
    omega
  | taken arr =>
    obtain ⟨more, free, place⟩ := fetching
    refine ⟨?_, freelist ▸ free, ?_⟩
    · omega
    · rw [tail]
      exact arrived _ _ place
  | give arr =>
    obtain ⟨taken, free, place⟩ := fetching
    refine ⟨?_, freelist ▸ free, ?_⟩
    · omega
    · rw [tail]
      exact arrived _ _ place
  | _ => trivial

/-- The other threads move nothing but `r_head`, over a new arrival. -/
theorem Numbered.aside (numbered : Numbered s) (tail : t.ring.tail = s.ring.tail)
    (head : s.ring.head ≤ t.ring.head)
    (arrived : ∀ n x : Nat, s.arrived[n]? = some x → t.arrived[n]? = some x)
    (tasks : t.tasks = s.tasks) (freelist : t.freelist = s.freelist)
    (recorded : t.recorded = s.recorded) (completed : t.completed = s.completed)
    (pc : t.pc = s.pc) : Numbered t := by
  have due : ∀ id, Due t id → Due s id := by
    intro id due
    unfold Due at due
    rwa [tasks, pc] at due
  refine ⟨?_, ?_, ?_, ?_, ?_, ?_, ?_, ?_⟩
  · intro id waits
    obtain ⟨below, new, place⟩ := numbered.due id (due id waits)
    rw [tasks, pc, tail, recorded]
    exact ⟨below, new, arrived _ _ place⟩
  · intro id id' waits waits'
    rw [tasks]
    exact numbered.apart id id' (due id waits) (due id' waits')
  · rw [recorded, pc, tail]
    exact numbered.past
  · intro n arr member
    rw [recorded] at member
    exact arrived _ _ (numbered.own n arr member)
  · rw [recorded]
    exact numbered.nodup
  · rw [recorded, completed]
    exact numbered.length
  · rw [pc]
    exact numbered.fetching.mono tail head freelist arrived
  · rw [tail, freelist, pc, completed]
    exact numbered.balance

theorem produce_numbered (arriving : Arriving s) (numbered : Numbered s) :
    Numbered (s.produce now) := by
  unfold State.produce
  split
  · exact numbered.aside rfl (Nat.le_refl _) (fun _ _ place => place) rfl rfl rfl rfl rfl
  · split
    · exact numbered.aside rfl (Nat.le_refl _) (fun _ _ place => place) rfl rfl rfl rfl rfl
    · exact numbered.aside rfl (Nat.le_refl _) (fun _ _ place => place) rfl rfl rfl rfl rfl
  · rename_i now' h producer
    obtain ⟨head, _, _⟩ := arriving.stored now' h producer
    subst head
    exact numbered.aside rfl (Nat.le_succ _) (fun n x place => arrived_grows place now')
      rfl rfl rfl rfl rfl

/-- The dispatcher goes on without taking an arrival, giving it to a task or recording it. -/
theorem Numbered.along {old new : Pc} (numbered : Numbered s) (before : s.pc = old)
    (after : t.pc = new) (given : new.given = old.given) (ring : t.ring = s.ring)
    (arrived : t.arrived = s.arrived) (recorded : t.recorded = s.recorded)
    (completed : t.completed = s.completed)
    (tasks : ∀ id, Due t id → Due s id ∧ (t.tasks id).number = (s.tasks id).number ∧
      (t.tasks id).arr = (s.tasks id).arr)
    (fetching : new.Fetching t)
    (balance : t.freelist.length + new.releasing = s.freelist.length + old.releasing) :
    Numbered t := by
  subst before
  refine ⟨?_, ?_, ?_, ?_, ?_, ?_, ?_, ?_⟩
  · intro id waits
    obtain ⟨due, number, arr⟩ := tasks id waits
    rw [number, arr, after, given, ring, recorded, arrived]
    exact numbered.due id due
  · intro id id' waits waits'
    obtain ⟨due, number, _⟩ := tasks id waits
    obtain ⟨due', number', _⟩ := tasks id' waits'
    rw [number, number']
    exact numbered.apart id id' due due'
  · rw [recorded, after, given, ring]
    exact numbered.past
  · rw [recorded, arrived]
    exact numbered.own
  · rw [recorded]
    exact numbered.nodup
  · rw [recorded, completed]
    exact numbered.length
  · rw [after]
    exact fetching
  · have balanced := numbered.balance
    rw [ring, after, given, completed]
    omega

/-- A step that changes no task, before which no task is through. -/
theorem due_kept (tasks : t.tasks = s.tasks) (before : ∀ j todo, s.pc ≠ .release j todo) :
    ∀ j, Due t j → Due s j ∧ (t.tasks j).number = (s.tasks j).number ∧
      (t.tasks j).arr = (s.tasks j).arr := by
  intro j due
  have held := due.1
  rw [tasks] at held ⊢
  exact ⟨⟨held, before j⟩, rfl, rfl⟩

/-- A step that changes the state of a task that is not free. -/
theorem due_changed {x : Task} (tasks : t.tasks = Function.update s.tasks id x)
    (number : x.number = (s.tasks id).number) (arr : x.arr = (s.tasks id).arr)
    (held : (s.tasks id).state ≠ .free) (before : ∀ j todo, s.pc ≠ .release j todo) :
    ∀ j, Due t j → Due s j ∧ (t.tasks j).number = (s.tasks j).number ∧
      (t.tasks j).arr = (s.tasks j).arr := by
  intro j due
  by_cases mine : j = id
  · subst mine
    rw [tasks, Function.update_self]
    exact ⟨⟨held, before j⟩, number, arr⟩
  · have here := due.1
    rw [tasks, Function.update_of_ne mine] at here ⊢
    exact ⟨⟨here, before j⟩, rfl, rfl⟩

/-- A task that is through becomes free. -/
theorem due_released {x : Task} (tasks : t.tasks = Function.update s.tasks id x)
    (state : x.state = .free) (before : s.pc = .release id todo) :
    ∀ j, Due t j → Due s j ∧ (t.tasks j).number = (s.tasks j).number ∧
      (t.tasks j).arr = (s.tasks j).arr := by
  intro j due
  have here := due.1
  by_cases mine : j = id
  · rw [tasks, mine, Function.update_self] at here
    exact absurd state here
  · rw [tasks, Function.update_of_ne mine] at here ⊢
    refine ⟨⟨here, ?_⟩, rfl, rfl⟩
    rw [before]
    rintro todo' same
    cases same
    exact mine rfl

theorem goto_numbered {old new : Pc} (numbered : Numbered s) (before : s.pc = old)
    (given : new.given = old.given) (releasing : new.releasing = old.releasing)
    (unreleased : ∀ j todo, old ≠ .release j todo) (fetching : new.Fetching s) :
    Numbered (s.goto new) := by
  have due := due_kept (s := s) (t := s.goto new) rfl (by rw [before]; exact unreleased)
  refine numbered.along before rfl given rfl rfl rfl rfl due ?_ ?_
  · exact fetching.mono rfl (Nat.le_refl _) rfl (fun _ _ place => place)
  · change s.freelist.length + new.releasing = _
    rw [releasing]

/-- A free task is given the arrival that was taken last. -/
theorem give_numbered {arr : Nat} (numbered : Numbered s)
    (before : s.pc = .give arr) (after : t.pc = .assign)
    (tasks : t.tasks = Function.update s.tasks id
      { s.tasks id with state := .ready, arr := arr, number := s.ring.tail - 1 })
    (freelist : s.freelist = id :: t.freelist) (ring : t.ring = s.ring)
    (arrived : t.arrived = s.arrived) (recorded : t.recorded = s.recorded)
    (completed : t.completed = s.completed) : Numbered t := by
  have given : s.pc.given = 1 := by rw [before]; rfl
  obtain ⟨taken, _, place⟩ : 0 < s.ring.tail ∧ s.freelist ≠ [] ∧
      s.arrived[s.ring.tail - 1]? = some arr := by
    have fetching := numbered.fetching
    rwa [before] at fetching
  have past := numbered.past
  rw [given] at past
  have own : t.tasks id =
      { s.tasks id with state := .ready, arr := arr, number := s.ring.tail - 1 } := by
    rw [tasks, Function.update_self]
  have other : ∀ j, j ≠ id → t.tasks j = s.tasks j := by
    intro j apart
    rw [tasks, Function.update_of_ne apart]
  have due : ∀ j, j ≠ id → Due t j → Due s j := by
    intro j apart waits
    refine ⟨?_, ?_⟩
    · rw [← other j apart]
      exact waits.1
    · rw [before]
      nofun
  -- the number of the new arrival is above all that were given out
  have older : ∀ j, j ≠ id → Due t j → (s.tasks j).number + 1 < s.ring.tail := by
    intro j apart waits
    obtain ⟨below, _, _⟩ := numbered.due j (due j apart waits)
    rwa [given] at below
  refine ⟨?_, ?_, ?_, ?_, ?_, ?_, ?_, ?_⟩
  · intro j waits
    rw [after, ring, recorded, arrived]
    by_cases mine : j = id
    · rw [mine, own]
      refine ⟨?_, ?_, place⟩
      · change s.ring.tail - 1 + 0 < _
        omega
      · intro member
        have below := past _ member
        change s.ring.tail - 1 + 1 < _ at below
        omega
    · obtain ⟨_, new, spot⟩ := numbered.due j (due j mine waits)
      have below := older j mine waits
      rw [other j mine]
      refine ⟨?_, new, spot⟩
      change (s.tasks j).number + 0 < _
      omega
  · intro j k waits waits' same
    by_cases mine : j = id
    · by_cases mine' : k = id
      · rw [mine, mine']
      · have below := older k mine' waits'
        rw [mine, own, other k mine'] at same
        change s.ring.tail - 1 = _ at same
        omega
    · by_cases mine' : k = id
      · have below := older j mine waits
        rw [mine', own, other j mine] at same
        change _ = s.ring.tail - 1 at same
        omega
      · rw [other j mine, other k mine'] at same
        exact numbered.apart j k (due j mine waits) (due k mine' waits') same
  · intro n member
    rw [recorded] at member
    have below := past n member
    rw [after, ring]
    change n + 0 < _
    omega
  · rw [recorded, arrived]
    exact numbered.own
  · rw [recorded]
    exact numbered.nodup
  · rw [recorded, completed]
    exact numbered.length
  · rw [after]
    trivial
  · have balance := numbered.balance
    rw [given, before, freelist, List.length_cons] at balance
    rw [after, ring, completed]
    change _ + _ + 0 = _ + _ + 0
    change _ + _ + 0 = _ at balance
    omega

/-- A task records its arrival, and is through. -/
theorem record_numbered (numbered : Numbered s) (held : (s.tasks id).state ≠ .free)
    (before : s.pc = .record id todo) (after : t.pc = .release id todo)
    (tasks : t.tasks = s.tasks) (freelist : t.freelist = s.freelist) (ring : t.ring = s.ring)
    (arrived : t.arrived = s.arrived)
    (recorded : t.recorded = ((s.tasks id).number, (s.tasks id).arr) :: s.recorded)
    (completed : t.completed = s.completed + 1) : Numbered t := by
  have given : s.pc.given = 0 := by rw [before]; rfl
  have was : Due s id := ⟨held, by rw [before]; nofun⟩
  obtain ⟨below, new, place⟩ := numbered.due id was
  have due : ∀ j, Due t j → Due s j ∧ j ≠ id := by
    intro j waits
    refine ⟨⟨?_, ?_⟩, ?_⟩
    · rw [← tasks]
      exact waits.1
    · rw [before]
      nofun
    · rintro rfl
      exact waits.2 todo after
  refine ⟨?_, ?_, ?_, ?_, ?_, ?_, ?_, ?_⟩
  · intro j waits
    obtain ⟨still, apart⟩ := due j waits
    obtain ⟨below', new', place'⟩ := numbered.due j still
    rw [given] at below'
    rw [after, tasks, ring, arrived, recorded, List.map_cons, List.mem_cons, not_or]
    exact ⟨below', ⟨fun same => apart (numbered.apart j id still was same), new'⟩, place'⟩
  · intro j k waits waits' same
    rw [tasks] at same
    exact numbered.apart j k (due j waits).1 (due k waits').1 same
  · intro n member
    rw [recorded, List.map_cons, List.mem_cons] at member
    rw [after, ring]
    rw [given] at below
    rcases member with rfl | old
    · exact below
    · have earlier := numbered.past n old
      rwa [given] at earlier
  · intro n arr member
    rw [recorded, List.mem_cons] at member
    rw [arrived]
    rcases member with same | old
    · cases same
      exact place
    · exact numbered.own n arr old
  · rw [recorded, List.map_cons, List.nodup_cons]
    exact ⟨new, numbered.nodup⟩
  · rw [recorded, completed, List.length_cons, numbered.length]
  · rw [after]
    trivial
  · have balance := numbered.balance
    rw [given, before] at balance
    change _ + _ + 0 = _ at balance
    rw [after, ring, completed, freelist]
    change _ + _ + 1 = _ + _ + 0
    omega

/-- The dispatcher takes the arrival that it has read. -/
theorem taken_numbered {arr : Nat} (numbered : Numbered s) (before : s.pc = .taken arr)
    (after : t.pc = .give arr) (tasks : t.tasks = s.tasks) (freelist : t.freelist = s.freelist)
    (ring : t.ring = s.ring.advance) (arrived : t.arrived = s.arrived)
    (recorded : t.recorded = s.recorded) (completed : t.completed = s.completed) :
    Numbered t := by
  have given : s.pc.given = 0 := by rw [before]; rfl
  obtain ⟨_, free, place⟩ : s.ring.tail < s.ring.head ∧ s.freelist ≠ [] ∧
      s.arrived[s.ring.tail]? = some arr := by
    have fetching := numbered.fetching
    rwa [before] at fetching
  have due : ∀ j, Due t j → Due s j :=
    fun j waits => (due_kept tasks (by rw [before]; nofun) j waits).1
  refine ⟨?_, ?_, ?_, ?_, ?_, ?_, ?_, ?_⟩
  · intro j waits
    obtain ⟨below, new, spot⟩ := numbered.due j (due j waits)
    rw [given] at below
    rw [after, tasks, ring, recorded, arrived]
    exact ⟨Nat.succ_lt_succ below, new, spot⟩
  · intro j k waits waits'
    rw [tasks]
    exact numbered.apart j k (due j waits) (due k waits')
  · intro n member
    rw [recorded] at member
    have below := numbered.past n member
    rw [given] at below
    rw [after, ring]
    exact Nat.succ_lt_succ below
  · rw [recorded, arrived]
    exact numbered.own
  · rw [recorded]
    exact numbered.nodup
  · rw [recorded, completed]
    exact numbered.length
  · rw [after]
    change 0 < t.ring.tail ∧ t.freelist ≠ [] ∧ t.arrived[t.ring.tail - 1]? = some arr
    rw [ring, freelist, arrived, Tickets.Ring.advance_tail, Nat.add_sub_cancel]
    exact ⟨Nat.succ_pos _, free, place⟩
  · have balance := numbered.balance
    rw [given, before] at balance
    change _ + _ + 0 = _ at balance
    rw [after, ring, completed, freelist, Tickets.Ring.advance_tail]
    change _ + _ + 0 = _ + _ + 1
    omega

theorem assigning_arrivals (arriving : Arriving s) (numbered : Numbered s)
    (run : s.assigning s.pc = some t) : Arriving t ∧ Numbered t := by
  have fetching := numbered.fetching
  unfold State.assigning at run
  split at run
  · rename_i pc
    cases run
    split
    · rename_i fetches
      exact ⟨arriving.congr rfl rfl rfl, goto_numbered numbered pc rfl rfl nofun fetches⟩
    · exact ⟨arriving.congr rfl rfl rfl, goto_numbered numbered pc rfl rfl nofun trivial⟩
  · rename_i pc
    cases run
    rw [pc] at fetching
    obtain ⟨more, free⟩ := fetching
    exact ⟨arriving.congr rfl rfl rfl,
      goto_numbered numbered pc rfl rfl nofun ⟨more, free, arriving.front more⟩⟩
  · rename_i arr pc
    cases run
    rw [pc] at fetching
    exact ⟨arriving.advance fetching.1 rfl rfl rfl,
      taken_numbered numbered pc rfl rfl rfl rfl rfl rfl rfl⟩
  · rename_i arr pc
    split at run
    · rename_i id rest top
      cases run
      exact ⟨arriving.congr rfl rfl rfl,
        give_numbered numbered pc rfl rfl top rfl rfl rfl rfl⟩
    · cases run
  · cases run

theorem draining_arrivals (placed : Placed s) (arriving : Arriving s) (numbered : Numbered s)
    (run : s.draining s.pc = some t) : Arriving t ∧ Numbered t := by
  unfold State.draining at run
  split at run
  · rename_i pc
    cases run
    split
    · exact ⟨arriving.congr rfl rfl rfl, goto_numbered numbered pc rfl rfl nofun trivial⟩
    · exact ⟨arriving.congr rfl rfl rfl, numbered.along pc rfl rfl rfl rfl rfl rfl
        (due_kept rfl (by rw [pc]; nofun)) trivial rfl⟩
  · rename_i pc
    cases run
    exact ⟨arriving.congr rfl rfl rfl, numbered.along pc rfl rfl rfl rfl rfl rfl
      (due_kept rfl (by rw [pc]; nofun)) trivial rfl⟩
  · rename_i id pc
    have state := placed.drained id pc
    rw [if_pos state] at run
    cases run
    refine ⟨arriving.congr rfl rfl rfl, numbered.along pc rfl rfl rfl rfl rfl rfl
      (due_changed rfl rfl rfl ?_ (by rw [pc]; nofun)) trivial rfl⟩
    rw [state]
    nofun
  · cases run

theorem running_arrivals (placed : Placed s) (arriving : Arriving s) (numbered : Numbered s)
    (run : s.running s.pc = some t) : Arriving t ∧ Numbered t := by
  unfold State.running at run
  split at run
  · rename_i pc
    cases run
    exact ⟨arriving.congr rfl rfl rfl, goto_numbered numbered pc rfl rfl nofun trivial⟩
  · rename_i id todo pc
    have state : (s.tasks id).state = .ready :=
      placed.hand id (by rw [pc]; exact List.mem_cons_self)
    rw [if_pos state] at run
    cases run
    split
    · exact ⟨arriving.congr rfl rfl rfl, goto_numbered numbered pc rfl rfl nofun trivial⟩
    · exact ⟨arriving.congr rfl rfl rfl, goto_numbered numbered pc rfl rfl nofun trivial⟩
  · cases run

theorem taskBody_arrivals (placed : Placed s) (arriving : Arriving s) (numbered : Numbered s)
    (run : s.taskBody now s.pc = some t) : Arriving t ∧ Numbered t := by
  have held : ∀ id ∈ s.pc.readies, (s.tasks id).state ≠ .free := by
    intro id member
    rw [placed.hand id member]
    nofun
  unfold State.taskBody at run
  split at run
  · rename_i id todo pc
    cases run
    exact ⟨arriving.congr rfl rfl rfl, numbered.along pc rfl rfl rfl rfl rfl rfl
      (due_kept rfl (by rw [pc]; nofun)) trivial rfl⟩
  · rename_i id todo pc
    cases run
    exact ⟨arriving.congr rfl rfl rfl, numbered.along pc rfl rfl rfl rfl rfl rfl
      (due_kept rfl (by rw [pc]; nofun)) trivial rfl⟩
  · rename_i id todo pc
    cases run
    exact ⟨arriving.congr rfl rfl rfl, numbered.along pc rfl rfl rfl rfl rfl rfl
      (due_kept rfl (by rw [pc]; nofun)) trivial rfl⟩
  · rename_i id todo pc
    cases run
    rw [pc] at held
    exact ⟨arriving.congr rfl rfl rfl, numbered.along pc rfl rfl rfl rfl rfl rfl
      (due_changed rfl rfl rfl (held id List.mem_cons_self) (by rw [pc]; nofun)) trivial rfl⟩
  · rename_i id todo pc
    cases run
    rw [pc] at held
    exact ⟨arriving.congr rfl rfl rfl,
      record_numbered numbered (held id List.mem_cons_self) pc rfl rfl rfl rfl rfl rfl rfl⟩
  · rename_i id todo pc
    cases run
    exact ⟨arriving.congr rfl rfl rfl, numbered.along pc rfl rfl rfl rfl rfl rfl
      (due_released rfl rfl pc) trivial rfl⟩
  · cases run

theorem dispatch_arrivals (placed : Placed s) (arriving : Arriving s) (numbered : Numbered s)
    (run : s.dispatch now = some t) : Arriving t ∧ Numbered t := by
  unfold State.dispatch at run
  split at run
  · rename_i pc
    cases run
    exact ⟨arriving.congr rfl rfl rfl, goto_numbered numbered pc rfl rfl nofun trivial⟩
  all_goals first
    | exact assigning_arrivals arriving numbered run
    | exact draining_arrivals placed arriving numbered run
    | exact running_arrivals placed arriving numbered run
    | exact taskBody_arrivals placed arriving numbered run

/-- What holds between any two steps. -/
structure Sound (s : State) : Prop where
  placed : Placed s
  completing : Completing s
  arriving : Arriving s
  numbered : Numbered s

theorem init_sound (warmUntil : Nat) : Sound (.init warmUntil) :=
  ⟨init_placed warmUntil, init_completing warmUntil, init_arriving warmUntil,
    init_numbered warmUntil⟩

theorem step_sound {act : OpenAct} (sound : Sound s) (run : step s act = some t) : Sound t := by
  obtain ⟨placed, completing, arriving, numbered⟩ := sound
  obtain ⟨placed', completing'⟩ := step_kept placed completing run
  suffices both : Arriving t ∧ Numbered t from ⟨placed', completing', both.1, both.2⟩
  cases act with
  | produce now =>
    cases run
    exact ⟨produce_arriving arriving, produce_numbered arriving numbered⟩
  | device now =>
    cases run
    obtain ⟨slots, comp, device, writes⟩ := devStep_writes s now
    rw [writes]
    exact ⟨arriving.congr rfl rfl rfl,
      numbered.aside rfl (Nat.le_refl _) (fun _ _ place => place) rfl rfl rfl rfl rfl⟩
  | dispatch now => exact dispatch_arrivals placed arriving numbered run

end TransparentOffload.OpenLoop
