import TransparentOffload.RmwGates

set_option autoImplicit false

/- What one step of `detector_module` does to the gates in the modes `detect` and
`lock`: a command starts its job or queues it, a reply passes the gate on or closes it. -/
namespace TransparentOffload.DetModule

variable {mode : RmwMode} {s t : DetModule}

/-- The next job of gate `g` is taken from its ring. -/
def popped (s : DetModule) (g : Nat) : DetModule :=
  { s with pend := Function.update s.pend g (s.pend g).advance }

/-- A fresh job for counter `k`, and its gate set busy. -/
def opened (mode : RmwMode) (s : DetModule) (k : Nat) : DetModule :=
  { s.alloc k with inflight := Function.update s.inflight (mode.gate k) 1 }

/-- A fresh job for counter `k` at the end of its gate's ring. -/
def queued (mode : RmwMode) (s : DetModule) (k : Nat) : DetModule :=
  { s.alloc k with
    pend := Function.update s.pend (mode.gate k)
      ((s.pend (mode.gate k)).push jobPendN s.allocated) }

/-- The gate gets idle. -/
def closed (s : DetModule) (g : Nat) : DetModule :=
  { s with inflight := Function.update s.inflight g 0 }

/-- What a step does to the gates. -/
inductive Turned (mode : RmwMode) (s t : DetModule) (a : DetAct) : Prop
  | arity (argv : List Bytes) (act : a = .rmw argv) (wrong : argv.length ≠ 2) (ends : t = s)
  | start (name key : Bytes) (act : a = .rmw [name, key])
      (idle : s.inflight (mode.gate (slotOf key)) = 0)
      (taken : (s.opened mode (slotOf key)).begin mode s.allocated = some t)
  | queue (name key : Bytes) (act : a = .rmw [name, key])
      (busy : s.inflight (mode.gate (slotOf key)) ≠ 0)
      (taken : (s.alloc (slotOf key)).queueJob (mode.gate (slotOf key)) s.allocated = some t)
      (ends : t = s.queued mode (slotOf key))
  | worker (q : Tickets.Ring Nat) (running : List (Nat × Nat)) (unblocked : List Nat)
      (command : ∀ argv, a ≠ .rmw argv) (reply : ∀ p, a ≠ .reply p)
      (ends : t = { s with q := q, running := running, unblocked := unblocked })
      (ordered : q.tail ≤ q.head) (flight : t.flight.Perm s.flight)
  | pass (p : Nat) (j : Job) (act : a = .reply p) (finished : p ∈ s.unblocked)
      (live : s.jobs p = some j)
      (more : (s.pend (mode.gate j.slot)).head ≠ (s.pend (mode.gate j.slot)).tail)
      (taken : ((s.ended mode p j).popped (mode.gate j.slot)).begin mode
        ((s.pend (mode.gate j.slot)).front jobPendN) = some t)
  | close (p : Nat) (j : Job) (act : a = .reply p) (finished : p ∈ s.unblocked)
      (live : s.jobs p = some j)
      (last : (s.pend (mode.gate j.slot)).head = (s.pend (mode.gate j.slot)).tail)
      (ends : t = (s.ended mode p j).closed (mode.gate j.slot))

theorem cmdRmw_turned {argv : List Bytes} (protects : mode ≠ .naive)
    (taken : s.cmdRmw mode argv = some t) : Turned mode s t (.rmw argv) := by
  unfold cmdRmw at taken
  split at taken
  · rename_i name key
    dsimp only at taken
    rw [if_neg protects] at taken
    split at taken
    · rename_i idle
      exact .start name key rfl idle taken
    · rename_i busy
      refine .queue name key rfl busy taken ?_
      unfold queueJob at taken
      split at taken
      · cases taken
      · exact (Option.some.inj taken).symm
  · rename_i other
    refine .arity argv rfl ?_ (Option.some.inj taken).symm
    intro two
    obtain ⟨name, key, rfl⟩ := List.length_eq_two.mp two
    exact other name key rfl

theorem take_turned {w : Nat} (ordered : s.q.tail ≤ s.q.head) (taken : s.take w = some t) :
    Turned mode s t (.take w) := by
  unfold take at taken
  split at taken
  · cases taken
  · rename_i able
    rw [not_or] at able
    have more : s.q.tail < s.q.head := Nat.lt_of_le_of_ne ordered (Ne.symm able.2)
    refine .worker s.q.advance ((w, s.q.front workQn) :: s.running) s.unblocked (by nofun)
      (by nofun) (Option.some.inj taken).symm more ?_
    rw [← Option.some.inj taken]
    unfold flight
    rw [Tickets.Ring.contents_advance more]
    exact List.perm_middle

theorem unblock_turned {w p : Nat} (ordered : s.q.tail ≤ s.q.head)
    (taken : s.unblock w p = some t) : Turned mode s t (.unblock w p) := by
  unfold unblock at taken
  split at taken
  · rename_i held
    refine .worker s.q (s.running.erase (w, p)) (p :: s.unblocked) (by nofun) (by nofun)
      (Option.some.inj taken).symm ordered ?_
    rw [← Option.some.inj taken]
    unfold flight
    apply List.Perm.append_left
    have apart : (s.running.map Prod.snd).Perm (p :: (s.running.erase (w, p)).map Prod.snd) :=
      (List.perm_cons_erase held).map Prod.snd
    exact List.perm_middle.trans (apart.symm.append_right s.unblocked)
  · cases taken

/-- A reply whose gate does not go to the very job that ends. -/
theorem reply_turned {p : Nat} (protects : mode ≠ .naive) (finished : p ∈ s.unblocked)
    (apart : ∀ j, s.jobs p = some j →
      (s.pend (mode.gate j.slot)).head ≠ (s.pend (mode.gate j.slot)).tail →
      (s.pend (mode.gate j.slot)).front jobPendN ≠ p)
    (taken : s.replyCb mode p = some t) : Turned mode s t (.reply p) := by
  unfold replyCb at taken
  cases live : s.jobs p with
  | none =>
    rw [live] at taken
    cases taken
  | some j =>
    rw [live] at taken
    dsimp only at taken
    rw [if_neg protects] at taken
    have order : _ = (s.ended mode p j).advanceGate mode (mode.gate j.slot) :=
      advanceGate_free (s := { s with unblocked := s.unblocked.erase p }.writeBack mode j)
        (apart j live)
    have gate : (s.ended mode p j).advanceGate mode (mode.gate j.slot) = some t :=
      order.symm.trans taken
    unfold advanceGate at gate
    split at gate
    · rename_i more
      exact .pass p j rfl finished live more gate
    · rename_i last
      exact .close p j rfl finished live (not_not.mp last) (Option.some.inj gate).symm

theorem Sound.known (sound : Sound mode s) {p : Nat} {j : Job} (live : s.jobs p = some j) :
    p < s.allocated := by
  by_contra above
  rw [sound.fresh p (Nat.le_of_not_lt above)] at live
  cases live

theorem Sound.front_ne (sound : Sound mode s) {p g : Nat} (finished : p ∈ s.unblocked)
    (more : (s.pend g).head ≠ (s.pend g).tail) : (s.pend g).front jobPendN ≠ p := by
  intro same
  obtain ⟨_, j, live, idle, _⟩ := popped_sound sound more rfl
  obtain ⟨j', live', begun⟩ := sound.unblocked finished
  rw [same, live', Option.some.injEq] at live
  rw [← live, begun] at idle
  cases idle

theorem step_turned {nw : Nat} {a : DetAct} (protects : mode ≠ .naive) (sound : Sound mode s)
    (taken : s.step mode nw a = some t) : Turned mode s t a := by
  cases a with
  | rmw argv => exact cmdRmw_turned protects taken
  | take w =>
    change (if w < nw then s.take w else none) = some t at taken
    split at taken
    · exact take_turned sound.ordered taken
    · cases taken
  | unblock w p => exact unblock_turned sound.ordered taken
  | reply p =>
    change (if p ∈ s.unblocked then s.replyCb mode p else none) = some t at taken
    split at taken
    · rename_i finished
      exact reply_turned protects finished (fun j _ more => sound.front_ne finished more) taken
    · cases taken

/-- `begin` only submits its job. -/
theorem begin_frame {p : Nat} (taken : s.begin mode p = some t) :
    t.pend = s.pend ∧ t.inflight = s.inflight ∧ t.allocated = s.allocated ∧
      t.cnt = s.cnt ∧ t.gTotal = s.gTotal ∧ t.q = s.q.push workQn p ∧
      t.running = s.running ∧ t.unblocked = s.unblocked := by
  unfold begin at taken
  split at taken
  · cases taken
  · rw [Option.some.injEq] at taken
    subst taken
    exact ⟨rfl, rfl, rfl, rfl, rfl, rfl, rfl, rfl⟩

theorem begin_flight {p : Nat} (ordered : s.q.tail ≤ s.q.head)
    (room : s.q.head < s.q.tail + workQn) (taken : s.begin mode p = some t) :
    t.flight.Perm (p :: s.flight) := by
  obtain ⟨_, _, _, _, _, q, running, unblocked⟩ := begin_frame taken
  exact flight_push ordered room q running unblocked

theorem ended_flight {p : Nat} {j : Job} (finished : p ∈ s.unblocked) :
    s.flight.Perm (p :: (s.ended mode p j).flight) := by
  have apart : s.unblocked.Perm (p :: s.unblocked.erase p) := List.perm_cons_erase finished
  have outer := (apart.append_left (s.running.map Prod.snd)).trans List.perm_middle
  exact (outer.append_left (s.q.contents workQn)).trans List.perm_middle

theorem popped_waitingOn {g : Nat} (ordered : (s.pend g).tail ≤ (s.pend g).head)
    (more : (s.pend g).head ≠ (s.pend g).tail) :
    s.waitingOn g = (s.pend g).front jobPendN :: (s.popped g).waitingOn g := by
  unfold waitingOn popped
  dsimp only
  rw [Function.update_self]
  exact Tickets.Ring.contents_advance (by omega)

theorem popped_waitingOn_of_ne {g g' : Nat} (apart : g' ≠ g) :
    (s.popped g).waitingOn g' = s.waitingOn g' := by
  unfold waitingOn popped
  dsimp only
  rw [Function.update_of_ne apart]

theorem queued_waitingOn_of_ne {k g : Nat} (apart : g ≠ mode.gate k) :
    (s.queued mode k).waitingOn g = s.waitingOn g := by
  unfold waitingOn queued
  dsimp only
  rw [Function.update_of_ne apart]

theorem queued_waitingOn {k : Nat}
    (ordered : (s.pend (mode.gate k)).tail ≤ (s.pend (mode.gate k)).head)
    (room : (s.pend (mode.gate k)).head < (s.pend (mode.gate k)).tail + jobPendN) :
    (s.queued mode k).waitingOn (mode.gate k) = s.waitingOn (mode.gate k) ++ [s.allocated] := by
  unfold waitingOn queued
  dsimp only
  rw [Function.update_self]
  exact Tickets.Ring.contents_push ordered room s.allocated

theorem gate_lt {k : Nat} (slot : k < kslots) : mode.gate k < kslots := by
  unfold RmwMode.gate
  split
  · decide
  · exact slot

/-- With at most one job in flight for each gate, few are in flight. -/
theorem flight_short (distinct : s.flight.Nodup) {on : Nat → Nat → Prop}
    (gateOf : ∀ p ∈ s.flight, ∃ g < kslots, on g p)
    (one : ∀ g p p', on g p → on g p' → p = p') : s.flight.length ≤ kslots := by
  choose! gate inside own using gateOf
  have injective : (s.flight.map gate).Nodup := by
    apply List.Nodup.map_on _ distinct
    intro p member p' member' same
    exact one (gate p) p p' (own p member) (same ▸ own p' member')
  have subset : s.flight.map gate ⊆ List.range kslots := by
    intro g member
    obtain ⟨p, flying, rfl⟩ := List.mem_map.mp member
    exact List.mem_range.mpr (inside p flying)
  have bound := (List.subperm_of_subset injective subset).length_le
  rwa [List.length_map, List.length_range] at bound

theorem queue_short (short : s.flight.length ≤ kslots) : s.q.head - s.q.tail ≤ kslots := by
  unfold flight Tickets.Ring.contents at short
  rw [List.length_append, List.length_map, List.length_range'] at short
  omega

/-- With few jobs in flight the work queue is never overfull. -/
theorem Turned.withinQueue {a : DetAct} (whole : s.flight.length ≤ kslots)
    (turned : Turned mode s t a) : t.WithinQueue := by
  have short := queue_short whole
  have pushed : ∀ {u : DetModule} {p : Nat}, u.q = s.q → u.begin mode p = some t →
      t.WithinQueue := by
    intro u p same taken
    obtain ⟨_, _, _, _, _, q, _, _⟩ := begin_frame taken
    unfold WithinQueue
    rw [q, same, Tickets.Ring.push_head, Tickets.Ring.push_tail]
    unfold kslots at short
    unfold workQn
    omega
  have kept : t.q = s.q → t.WithinQueue := by
    intro same
    unfold WithinQueue
    rw [same]
    exact Nat.le_trans short (by decide)
  cases turned with
  | arity argv act wrong ends => exact kept (by rw [ends])
  | start name key act idle taken => exact pushed (u := s.opened mode (slotOf key)) rfl taken
  | queue name key act busy stored ends =>
    rw [ends]
    exact Nat.le_trans short (by decide)
  | worker q running unblocked command reply ends ordered flight =>
    rw [← flight.length_eq, ends] at whole
    unfold DetModule.flight Tickets.Ring.contents at whole
    rw [List.length_append, List.length_map, List.length_range'] at whole
    rw [ends]
    unfold WithinQueue
    unfold kslots at whole
    unfold workQn
    dsimp only at whole ⊢
    omega
  | pass p j act finished live more taken =>
    exact pushed (u := (s.ended mode p j).popped (mode.gate j.slot)) rfl taken
  | close p j act finished live last ends =>
    rw [ends]
    exact Nat.le_trans short (by decide)

theorem Gated.flight_short (gated : Gated mode none s) : s.flight.length ≤ kslots := by
  apply DetModule.flight_short gated.sound.distinct _ gated.one
  intro p member
  obtain ⟨j, live, begun⟩ := (gated.sound.flying p).mp member
  exact ⟨mode.gate j.slot, gate_lt (gated.sound.slots p j live), j, live, begun, rfl⟩

end TransparentOffload.DetModule
