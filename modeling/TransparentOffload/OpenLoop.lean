import TransparentOffload.Lib.Run
import TransparentOffload.Lib.TicketRing

set_option autoImplicit false

/- `openloop` in its coroutine mode: a producer that injects arrivals, the device, and
the dispatcher with its fibers. Every load and store that another thread can see is a
step of its own; `stop` is 0. Times are what the clock gives. -/
namespace TransparentOffload.OpenLoop

/-- `POOL`. -/
def pool : Nat := 1024

/-- `RING`. -/
def ringLen : Nat := 65536

/-- `CQN`. -/
def cqn : Nat := pool * 4

/-- The length of `lat`. -/
def latLen : Nat := 300000

structure Slot where
  deadline : Nat
  active : Bool
  done : Bool
  deriving DecidableEq, Repr

inductive TState
  | free
  | ready
  | waitOff
  deriving DecidableEq, Repr

/-- `struct task`. `parked` is the place of its fiber: at the top of the loop of
`task_body`, or behind the switch at its offload. `number` is history: the place of its
arrival among all arrivals. -/
structure Task where
  state : TState
  arr : Nat
  parked : Bool
  number : Nat
  deriving DecidableEq, Repr

/-- The producer: before its next arrival, with `r_head` and `r_tail` read, or with the
arrival stored. -/
inductive Producer
  | idle
  | loaded (now h t : Nat)
  | stored (now h : Nat)
  deriving DecidableEq, Repr

/-- The device in its scan at time `t`: before its loads of `active`, `done` and
`deadline` of a slot, before its store of `done`, and before the two stores of the
completion ring. -/
inductive Dev
  | active (t i : Nat)
  | done (t i : Nat)
  | deadline (t i : Nat)
  | setDone (t i : Nat)
  | push (t i : Nat)
  | publish (t i : Nat)
  deriving DecidableEq, Repr

/-- The dispatcher: at the head of its loop; in its loop over arrivals before the test,
the read of the ring, the store of `r_tail` and the assignment; in its loop over
completions before the test and the read of the ring, and with an id in its hand; in its
loop over the ready fibers; and in a fiber before each of its stores. -/
inductive Pc
  | boundary
  | assign
  | take
  | taken (arr : Nat)
  | give (arr : Nat)
  | drain
  | pop
  | drained (id : Nat)
  | run (todo : List Nat)
  | clearDone (id : Nat) (todo : List Nat)
  | setDeadline (id : Nat) (todo : List Nat)
  | setActive (id : Nat) (todo : List Nat)
  | park (id : Nat) (todo : List Nat)
  | record (id : Nat) (todo : List Nat)
  | release (id : Nat) (todo : List Nat)
  deriving DecidableEq, Repr

/-- The state of the three threads. `freelist` and `ready` hold what the two arrays have
below `freen` and `rn`, the former with its top first. `arrived` lists the times of all
arrivals and `recorded` what was recorded, with the number of the arrival. -/
structure State where
  slots : Nat → Slot
  comp : Tickets.Ring Nat
  ring : Tickets.Ring Nat
  tasks : Nat → Task
  freelist : List Nat
  ready : List Nat
  completed : Nat
  latn : Nat
  lat : Nat → Nat
  warmUntil : Nat
  dropped : Nat
  arrived : List Nat
  recorded : List (Nat × Nat)
  producer : Producer
  device : Dev
  pc : Pc

def State.init (warmUntil : Nat) : State :=
  { slots := fun _ => ⟨0, false, false⟩, comp := ⟨fun _ => 0, 0, 0⟩, ring := ⟨fun _ => 0, 0, 0⟩
    tasks := fun _ => ⟨.free, 0, false, 0⟩, freelist := (List.range pool).reverse, ready := []
    completed := 0, latn := 0, lat := fun _ => 0, warmUntil := warmUntil, dropped := 0
    arrived := [], recorded := [], producer := .idle, device := .active 0 0, pc := .boundary }

namespace State

def goto (s : State) (pc : Pc) : State := { s with pc := pc }

def setSlot (s : State) (i : Nat) (x : Slot) : State :=
  { s with slots := Function.update s.slots i x }

def setTask (s : State) (id : Nat) (x : Task) : State :=
  { s with tasks := Function.update s.tasks id x }

/-- The next step of `producer`; at its idle place the clock says `now` and an arrival is
due. -/
def produce (s : State) (now : Nat) : State :=
  match s.producer with
  | .idle => { s with producer := .loaded now s.ring.head s.ring.tail }
  | .loaded now h t =>
    if h - t < ringLen then
      { s with ring := s.ring.publish ringLen h now, producer := .stored now h }
    else { s with dropped := s.dropped + 1, producer := .idle }
  | .stored now h =>
    { s with
      ring := { s.ring with head := h + 1 }, arrived := s.arrived ++ [now], producer := .idle }

/-- The scan goes on to the next slot. -/
def scanOn (s : State) (t i : Nat) : State := { s with device := .active t (i + 1) }

/-- The next step of `device_fn`; at the end of a scan the clock says `now`. -/
def devStep (s : State) (now : Nat) : State :=
  match s.device with
  | .active t i =>
    if i < pool then
      if (s.slots i).active then { s with device := .done t i } else s.scanOn t i
    else { s with device := .active now 0 }
  | .done t i => if (s.slots i).done then s.scanOn t i else { s with device := .deadline t i }
  | .deadline t i =>
    if (s.slots i).deadline ≤ t then { s with device := .setDone t i } else s.scanOn t i
  | .setDone t i => { s.setSlot i { s.slots i with done := true } with device := .push t i }
  | .push t i =>
    { s with comp := s.comp.publish cqn s.comp.head i, device := .publish t i }
  | .publish t i => { s with comp := s.comp.reserve, device := .active t (i + 1) }

/-- The loop over arrivals. -/
def assigning (s : State) : Pc → Option State
  | .assign =>
    some (if s.ring.tail < s.ring.head ∧ s.freelist ≠ [] then s.goto .take else s.goto .drain)
  | .take => some (s.goto (.taken (s.ring.front ringLen)))
  | .taken arr => some { s with ring := s.ring.advance, pc := .give arr }
  | .give arr =>
    match s.freelist with
    | id :: rest =>
      some { s.setTask id
          { s.tasks id with state := .ready, arr := arr, number := s.ring.tail - 1 } with
        freelist := rest, ready := s.ready ++ [id], pc := .assign }
    | [] => none
  | _ => none

/-- The loop over completions. -/
def draining (s : State) : Pc → Option State
  | .drain =>
    some (if s.comp.tail < s.comp.head then s.goto .pop
    else { s with ready := [], pc := .run s.ready })
  | .pop => some { s with comp := s.comp.advance, pc := .drained (s.comp.front cqn) }
  | .drained id =>
    some (if (s.tasks id).state = .waitOff then
      { (s.setTask id { s.tasks id with state := .ready }).setSlot id
          { s.slots id with active := false } with
        ready := s.ready ++ [id], pc := .drain }
    else s.goto .drain)
  | _ => none

/-- The loop over the ready fibers, which goes into the fiber where it was left. -/
def running (s : State) : Pc → Option State
  | .run [] => some (s.goto .boundary)
  | .run (id :: todo) =>
    some (if (s.tasks id).state = .ready then
      s.goto (if (s.tasks id).parked then .record id todo else .clearDone id todo)
    else s.goto (.run todo))
  | _ => none

/-- `record` at time `now`: in the warm-up there is no latency to be stored. -/
def record (s : State) (arr now : Nat) : State :=
  { s with
    completed := s.completed + 1
    latn := if now < s.warmUntil then s.latn else s.latn + 1
    lat := if now < s.warmUntil then s.lat
      else Function.update s.lat (s.latn % latLen) (now - arr) }

/-- `task_body`, from one switch to the next; `now` is the new deadline, or the time of
the record. -/
def taskBody (s : State) (now : Nat) : Pc → Option State
  | .clearDone id todo =>
    some ((s.setSlot id { s.slots id with done := false }).goto (.setDeadline id todo))
  | .setDeadline id todo =>
    some ((s.setSlot id { s.slots id with deadline := now }).goto (.setActive id todo))
  | .setActive id todo =>
    some ((s.setSlot id { s.slots id with active := true }).goto (.park id todo))
  | .park id todo =>
    some ((s.setTask id { s.tasks id with state := .waitOff, parked := true }).goto (.run todo))
  | .record id todo =>
    some { s.record (s.tasks id).arr now with
      recorded := ((s.tasks id).number, (s.tasks id).arr) :: s.recorded
      pc := .release id todo }
  | .release id todo =>
    some { s.setTask id { s.tasks id with state := .free, parked := false } with
      freelist := id :: s.freelist, pc := .run todo }
  | _ => none

/-- The next step of `srv_coro`. -/
def dispatch (s : State) (now : Nat) : Option State :=
  match s.pc with
  | .boundary => some (s.goto .assign)
  | .assign | .take | .taken _ | .give _ => s.assigning s.pc
  | .drain | .pop | .drained _ => s.draining s.pc
  | .run _ => s.running s.pc
  | .clearDone _ _ | .setDeadline _ _ | .setActive _ _ | .park _ _ | .record _ _ | .release _ _ =>
    s.taskBody now s.pc

end State

/-- A step of one of the three threads, with what the clock says. -/
inductive OpenAct
  | produce (now : Nat)
  | device (now : Nat)
  | dispatch (now : Nat)
  deriving DecidableEq, Repr

def step (s : State) : OpenAct → Option State
  | .produce now => some (s.produce now)
  | .device now => some (s.devStep now)
  | .dispatch now => s.dispatch now

/-- The device has stored `done` and not yet `comp_head`. -/
def Dev.reporting : Dev → Option Nat
  | .push _ i | .publish _ i => some i
  | _ => none

/-- A request for the device that it has not reported: the store of `done` has still to
come, or a store of the completion ring. -/
def State.atDevice (s : State) (id : Nat) : Bool :=
  (s.slots id).active && !(s.slots id).done || s.device.reporting == some id

/-- Every task is in one place, free, waiting for its offload at the device or in the
completion ring, or ready, and its state says which. -/
structure State.Partitioned (s : State) : Prop where
  once : (s.freelist ++ ((List.range pool).filter s.atDevice ++ s.comp.contents cqn) ++
    s.ready).Perm (List.range pool)
  free : ∀ id ∈ s.freelist, (s.tasks id).state = .free
  waiting : ∀ id ∈ (List.range pool).filter s.atDevice ++ s.comp.contents cqn,
    (s.tasks id).state = .waitOff
  ready : ∀ id ∈ s.ready, (s.tasks id).state = .ready

/-- The tasks that are not free. -/
def State.nonFree (s : State) : List Nat :=
  (List.range pool).filter fun id => (s.tasks id).state ≠ .free

/-- No array is overrun or underrun: what the lists hold, what is unread in the two rings,
the slots that are about to be stored to, and the top of the free list that is taken. -/
structure State.Bounded (s : State) : Prop where
  free : s.freelist.length ≤ pool
  ready : s.ready.length ≤ pool
  arrivals : s.ring.tail ≤ s.ring.head ∧ s.ring.head ≤ s.ring.tail + ringLen
  arrivalStore : ∀ now h t, s.producer = .loaded now h t → h - t < ringLen →
    h < s.ring.tail + ringLen
  completions : s.comp.tail ≤ s.comp.head ∧ s.comp.head ≤ s.comp.tail + cqn
  completionStore : ∀ t i, s.device = .push t i → s.comp.head < s.comp.tail + cqn
  top : ∀ arr, s.pc = .give arr → s.freelist ≠ []

/-- Arrivals that were taken are recorded or with a task that is not free, and the others
are unread in the ring, each in its place. -/
def State.Conserved (s : State) : Prop :=
  s.ring.tail = s.completed + s.nonFree.length ∧
    s.ring.contents ringLen = s.arrived.drop s.ring.tail ∧ s.arrived.length = s.ring.head

/-- Each arrival is recorded at most once, and with its own time. -/
def State.RecordedOnce (s : State) : Prop :=
  (s.recorded.map Prod.fst).Nodup ∧ s.recorded.length = s.completed ∧
    ∀ n arr, (n, arr) ∈ s.recorded → s.arrived[n]? = some arr

end TransparentOffload.OpenLoop
