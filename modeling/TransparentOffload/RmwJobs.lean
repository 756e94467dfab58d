import TransparentOffload.DetectorModule

set_option autoImplicit false

/- Where the jobs of `detector_module` are: every job whose counter has been read
is in the work queue, in a worker's hands or unblocked, exactly once, and every
job queued on a gate is still to be begun. -/
namespace TransparentOffload.DetModule

/-- The jobs that are begun and not replied, by the place they have reached. -/
def flight (s : DetModule) : List Nat :=
  s.q.contents workQn ++ (s.running.map Prod.snd ++ s.unblocked)

/-- The jobs queued on a gate. -/
def waitingOn (s : DetModule) (g : Nat) : List Nat := (s.pend g).contents jobPendN

/-- At most `QN` jobs are in the work queue. -/
def WithinQueue (s : DetModule) : Prop := s.q.head - s.q.tail ≤ workQn

/-- At most `PENDN` jobs are queued on each gate. -/
def WithinGates (s : DetModule) : Prop :=
  ∀ g < kslots, (s.pend g).head - (s.pend g).tail ≤ jobPendN

instance (s : DetModule) : Decidable s.WithinQueue := inferInstanceAs (Decidable (_ ≤ _))

instance (s : DetModule) : Decidable s.WithinGates :=
  inferInstanceAs (Decidable (∀ g < kslots, _))

/-- What holds of the jobs of the module, and of the rings that hold them. -/
structure Sound (mode : RmwMode) (s : DetModule) : Prop where
  ordered : s.q.tail ≤ s.q.head
  pendOrdered : ∀ g, (s.pend g).tail ≤ (s.pend g).head
  distinct : s.flight.Nodup
  flying : ∀ p, p ∈ s.flight ↔ ∃ j, s.jobs p = some j ∧ j.begun = true
  queued : ∀ g p, p ∈ s.waitingOn g →
    ∃ j, s.jobs p = some j ∧ j.begun = false ∧ mode.gate j.slot = g
  queuedDistinct : ∀ g, (s.waitingOn g).Nodup
  fresh : ∀ p, s.allocated ≤ p → s.jobs p = none
  slots : ∀ p j, s.jobs p = some j → j.slot < kslots

theorem onLoad_sound (mode : RmwMode) : Sound mode (onLoad mode) := by
  refine ⟨Nat.le_refl _, fun _ => Nat.le_refl _, ?_, ?_, ?_, ?_, ?_, ?_⟩
  all_goals simp [onLoad, flight, waitingOn, Tickets.Ring.contents]

variable {mode : RmwMode} {s t : DetModule}

/-- The detector and the job's clock after the park in `begin`. -/
def parked (mode : RmwMode) (s : DetModule) (j : Job) : Detector × DetFib :=
  if mode = .lock then (s.det, j.df) else s.det.detPark j.df

theorem parked_watched (watched : mode ≠ .lock) (on : s.det.detOn = true) (j : Job) :
    s.parked mode j = (s.det.protectRegions, { j.df with parkClk := s.det.gclk }) := by
  unfold parked Detector.detPark
  rw [if_neg watched, if_pos on]

/-- A park changes nothing of the detector but the protection. -/
theorem parked_det (j : Job) :
    ∃ writable, (s.parked mode j).1 = { s.det with writable := writable } := by
  unfold parked Detector.detPark Detector.protectRegions
  split
  · exact ⟨_, rfl⟩
  · split <;> exact ⟨_, rfl⟩

/-- The job `begin` submits. -/
def beginJob (mode : RmwMode) (s : DetModule) (j : Job) : Job :=
  { j with v := s.cnt j.slot, df := (s.parked mode j).2, begun := true }

theorem begin_spec {p : Nat} {j : Job} (live : s.jobs p = some j)
    (taken : s.begin mode p = some t) :
    t = { s with
      det := (s.parked mode j).1
      jobs := Function.update s.jobs p (some (s.beginJob mode j))
      q := s.q.push workQn p } := by
  unfold begin at taken
  rw [live] at taken
  exact (Option.some.inj taken).symm

theorem begin_job {p : Nat} {j : Job} (live : s.jobs p = some j)
    (taken : s.begin mode p = some t) : t.jobs p = some (s.beginJob mode j) := by
  rw [begin_spec live taken]
  exact Function.update_self ..

theorem begin_job_other {p p' : Nat} {j : Job} (live : s.jobs p = some j)
    (taken : s.begin mode p = some t) (apart : p' ≠ p) : t.jobs p' = s.jobs p' := by
  rw [begin_spec live taken]
  exact Function.update_of_ne apart ..

/-- A job that `begin` has room for joins the flight. -/
theorem flight_push {p : Nat} (ordered : s.q.tail ≤ s.q.head)
    (room : s.q.head < s.q.tail + workQn) {u : DetModule} (q : u.q = s.q.push workQn p)
    (running : u.running = s.running) (unblocked : u.unblocked = s.unblocked) :
    u.flight.Perm (p :: s.flight) := by
  unfold flight
  rw [q, running, unblocked, Tickets.Ring.contents_push ordered room, List.append_assoc]
  exact List.perm_middle

theorem waitingOn_congr (pend : t.pend = s.pend) (g : Nat) : t.waitingOn g = s.waitingOn g := by
  unfold waitingOn
  rw [pend]

/-- Moving a job on within the flight keeps what holds of the jobs. -/
theorem Sound.moved (sound : Sound mode s) (ordered : t.q.tail ≤ t.q.head)
    (flight : t.flight.Perm s.flight) (pend : t.pend = s.pend) (jobs : t.jobs = s.jobs)
    (allocated : t.allocated = s.allocated) : Sound mode t := by
  have waiting := waitingOn_congr pend
  refine ⟨ordered, ?_, flight.nodup_iff.mpr sound.distinct, ?_, ?_, ?_, ?_, ?_⟩
  · rw [pend]
    exact sound.pendOrdered
  · intro p
    rw [flight.mem_iff, jobs]
    exact sound.flying p
  · intro g p member
    rw [jobs]
    exact sound.queued g p (waiting g ▸ member)
  · intro g
    rw [waiting]
    exact sound.queuedDistinct g
  · rw [allocated, jobs]
    exact sound.fresh
  · rw [jobs]
    exact sound.slots

theorem take_sound {w : Nat} (sound : Sound mode s) (taken : s.take w = some t) :
    Sound mode t := by
  unfold take at taken
  split at taken
  · cases taken
  · rename_i able
    rw [not_or] at able
    rw [Option.some.injEq] at taken
    subst taken
    have ordered := sound.ordered
    have more : s.q.tail < s.q.head := Nat.lt_of_le_of_ne ordered (Ne.symm able.2)
    refine sound.moved more ?_ rfl rfl rfl
    unfold flight
    rw [Tickets.Ring.contents_advance more]
    exact List.perm_middle

theorem unblock_sound {w p : Nat} (sound : Sound mode s) (taken : s.unblock w p = some t) :
    Sound mode t := by
  unfold unblock at taken
  split at taken
  · rename_i held
    rw [Option.some.injEq] at taken
    subst taken
    refine sound.moved sound.ordered ?_ rfl rfl rfl
    unfold flight
    apply List.Perm.append_left
    have apart : (s.running.map Prod.snd).Perm (p :: (s.running.erase (w, p)).map Prod.snd) :=
      (List.perm_cons_erase held).map Prod.snd
    exact List.perm_middle.trans (apart.symm.append_right s.unblocked)
  · cases taken

/-- A fresh job is neither in flight nor queued. -/
theorem alloc_sound (sound : Sound mode s) {k : Nat} (slot : k < kslots) :
    Sound mode (s.alloc k) := by
  have unused : s.jobs s.allocated = none := sound.fresh _ (Nat.le_refl _)
  have other : ∀ p, p ≠ s.allocated → (s.alloc k).jobs p = s.jobs p :=
    fun p apart => Function.update_of_ne apart ..
  have here : (s.alloc k).jobs s.allocated = some ⟨k, 0, ⟨0, false⟩, false⟩ :=
    Function.update_self ..
  refine ⟨sound.ordered, sound.pendOrdered, sound.distinct, ?_, ?_, sound.queuedDistinct,
    ?_, ?_⟩
  · intro p
    refine (sound.flying p).trans ?_
    by_cases new : p = s.allocated
    · rw [new, unused, here]
      simp
    · rw [other p new]
  · intro g p member
    obtain ⟨j, live, rest⟩ := sound.queued g p member
    have apart : p ≠ s.allocated := by
      intro new
      rw [new, unused] at live
      cases live
    exact ⟨j, (other p apart).trans live, rest⟩
  · intro p above
    change s.allocated + 1 ≤ p at above
    rw [other p (by omega)]
    exact sound.fresh p (by omega)
  · intro p j live
    by_cases new : p = s.allocated
    · rw [new, here, Option.some.injEq] at live
      exact live ▸ slot
    · rw [other p new] at live
      exact sound.slots p j live

theorem alloc_begun (sound : Sound mode s) (k : Nat) (p : Nat) (j : Job) :
    ((s.alloc k).jobs p = some j ∧ j.begun = true) ↔ (s.jobs p = some j ∧ j.begun = true) := by
  by_cases new : p = s.allocated
  · subst new
    have here : (s.alloc k).jobs s.allocated = some ⟨k, 0, ⟨0, false⟩, false⟩ :=
      Function.update_self ..
    rw [here, sound.fresh _ (Nat.le_refl _), Option.some.injEq]
    constructor
    · rintro ⟨rfl, started⟩
      cases started
    · rintro ⟨impossible, _⟩
      cases impossible
  · rw [show (s.alloc k).jobs p = s.jobs p from Function.update_of_ne new ..]

theorem alloc_unqueued (sound : Sound mode s) (g : Nat) : s.allocated ∉ s.waitingOn g := by
  intro member
  obtain ⟨j, live, _⟩ := sound.queued g _ member
  rw [sound.fresh _ (Nat.le_refl _)] at live
  cases live

/-- A job joins the flight once it is begun. -/
theorem Sound.joined (sound : Sound mode s) {p : Nat} {j j' : Job} (live : s.jobs p = some j)
    (idle : j.begun = false) (unqueued : ∀ g, p ∉ s.waitingOn g)
    (ordered : t.q.tail ≤ t.q.head) (flight : t.flight.Perm (p :: s.flight))
    (pend : t.pend = s.pend) (jobs : t.jobs = Function.update s.jobs p (some j'))
    (begun : j'.begun = true) (slot : j'.slot = j.slot) (allocated : t.allocated = s.allocated) :
    Sound mode t := by
  have waiting := waitingOn_congr pend
  have outside : p ∉ s.flight := by
    intro member
    obtain ⟨j'', there, started⟩ := (sound.flying p).mp member
    rw [live, Option.some.injEq] at there
    rw [← there, idle] at started
    cases started
  have here : t.jobs p = some j' := by rw [jobs, Function.update_self]
  have other : ∀ p', p' ≠ p → t.jobs p' = s.jobs p' := by
    intro p' apart
    rw [jobs, Function.update_of_ne apart]
  refine ⟨ordered, ?_, ?_, ?_, ?_, ?_, ?_, ?_⟩
  · rw [pend]
    exact sound.pendOrdered
  · rw [flight.nodup_iff, List.nodup_cons]
    exact ⟨outside, sound.distinct⟩
  · intro p'
    rw [flight.mem_iff, List.mem_cons]
    by_cases same : p' = p
    · rw [same, here]
      simp [begun]
    · rw [other p' same]
      simp [same, sound.flying p']
  · intro g p' member
    rw [waiting] at member
    have apart : p' ≠ p := fun same => unqueued g (same ▸ member)
    rw [other p' apart]
    exact sound.queued g p' member
  · intro g
    rw [waiting]
    exact sound.queuedDistinct g
  · intro p' above
    rw [allocated] at above
    have apart : p' ≠ p := by
      rintro rfl
      rw [sound.fresh _ above] at live
      cases live
    rw [other p' apart]
    exact sound.fresh p' above
  · intro p' j'' there
    by_cases same : p' = p
    · rw [same, here, Option.some.injEq] at there
      rw [← there, slot]
      exact sound.slots p j live
    · rw [other p' same] at there
      exact sound.slots p' j'' there

theorem begin_sound {p : Nat} {j : Job} (sound : Sound mode s) (live : s.jobs p = some j)
    (idle : j.begun = false) (unqueued : ∀ g, p ∉ s.waitingOn g)
    (room : t.WithinQueue) (taken : s.begin mode p = some t) :
    Sound mode t := by
  have same := begin_spec live taken
  have q : t.q = s.q.push workQn p := by rw [same]
  have ordered := sound.ordered
  unfold WithinQueue at room
  rw [q, Tickets.Ring.push_head, Tickets.Ring.push_tail] at room
  have joins : t.flight.Perm (p :: s.flight) :=
    flight_push ordered (by omega) q (by rw [same]) (by rw [same])
  have kept : t.q.tail ≤ t.q.head := by
    rw [q, Tickets.Ring.push_head, Tickets.Ring.push_tail]
    omega
  have jobs : t.jobs = Function.update s.jobs p (some (s.beginJob mode j)) := by rw [same]
  exact sound.joined live idle unqueued kept joins (by rw [same]) jobs rfl rfl (by rw [same])

/-- A job leaves the flight when it is freed. -/
theorem Sound.left (sound : Sound mode s) {p : Nat} (flight : s.flight.Perm (p :: t.flight))
    (q : t.q = s.q) (pend : t.pend = s.pend) (jobs : t.jobs = Function.update s.jobs p none)
    (allocated : t.allocated = s.allocated) : Sound mode t := by
  have waiting := waitingOn_congr pend
  have here : t.jobs p = none := by rw [jobs, Function.update_self]
  have other : ∀ p', p' ≠ p → t.jobs p' = s.jobs p' := by
    intro p' apart
    rw [jobs, Function.update_of_ne apart]
  have distinct := flight.nodup_iff.mp sound.distinct
  rw [List.nodup_cons] at distinct
  have flew : ∃ j, s.jobs p = some j ∧ j.begun = true :=
    (sound.flying p).mp (flight.mem_iff.mpr List.mem_cons_self)
  refine ⟨q ▸ sound.ordered, ?_, distinct.2, ?_, ?_, ?_, ?_, ?_⟩
  · rw [pend]
    exact sound.pendOrdered
  · intro p'
    by_cases same : p' = p
    · rw [same, here]
      simp [distinct.1]
    · have member := flight.mem_iff (a := p')
      rw [List.mem_cons, or_iff_right same] at member
      rw [other p' same, ← member]
      exact sound.flying p'
  · intro g p' member
    rw [waiting] at member
    obtain ⟨j', live', idle, gate⟩ := sound.queued g p' member
    have apart : p' ≠ p := by
      rintro rfl
      obtain ⟨j, live, begun⟩ := flew
      rw [live, Option.some.injEq] at live'
      rw [← live', begun] at idle
      cases idle
    exact ⟨j', (other p' apart).trans live', idle, gate⟩
  · intro g
    rw [waiting]
    exact sound.queuedDistinct g
  · intro p' above
    rw [allocated] at above
    by_cases same : p' = p
    · rw [same, here]
    · rw [other p' same]
      exact sound.fresh p' above
  · intro p' j' live'
    by_cases same : p' = p
    · rw [same, here] at live'
      cases live'
    · rw [other p' same] at live'
      exact sound.slots p' j' live'

/-- The module once the reply of job `p` has written and `p` is gone. -/
def ended (mode : RmwMode) (s : DetModule) (p : Nat) (j : Job) : DetModule :=
  ({ s with unblocked := s.unblocked.erase p }.writeBack mode j).free p

/-- The jobs after the reply of `p`. -/
theorem ended_jobs {p p' : Nat} {j j' : Job} (live' : (s.ended mode p j).jobs p' = some j') :
    p' ≠ p ∧ s.jobs p' = some j' := by
  have gone : (s.ended mode p j).jobs p = none := Function.update_self ..
  have apart : p' ≠ p := by
    rintro rfl
    rw [gone] at live'
    cases live'
  have kept : (s.ended mode p j).jobs p' = s.jobs p' := Function.update_of_ne apart ..
  exact ⟨apart, kept ▸ live'⟩

theorem ended_sound {p : Nat} {j : Job} (sound : Sound mode s) (finished : p ∈ s.unblocked) :
    Sound mode (s.ended mode p j) := by
  refine sound.left (p := p) ?_ rfl rfl rfl rfl
  unfold flight
  have apart : s.unblocked.Perm (p :: s.unblocked.erase p) := List.perm_cons_erase finished
  have outer := (apart.append_left (s.running.map Prod.snd)).trans List.perm_middle
  exact (outer.append_left (s.q.contents workQn)).trans List.perm_middle

/-- A job queued on a gate waits behind those that are there. -/
theorem queueJob_sound {g p : Nat} {j : Job} (sound : Sound mode s) (live : s.jobs p = some j)
    (idle : j.begun = false) (gate : mode.gate j.slot = g) (unqueued : p ∉ s.waitingOn g)
    (room : (t.pend g).head - (t.pend g).tail ≤ jobPendN) (taken : s.queueJob g p = some t) :
    Sound mode t := by
  unfold queueJob at taken
  split at taken
  · cases taken
  rw [Option.some.injEq] at taken
  subst taken
  have ordered := sound.pendOrdered g
  dsimp only at room
  rw [Function.update_self, Tickets.Ring.push_head, Tickets.Ring.push_tail] at room
  have here : Tickets.Ring.contents jobPendN ((s.pend g).push jobPendN p) =
      s.waitingOn g ++ [p] :=
    Tickets.Ring.contents_push ordered (by omega) p
  refine ⟨sound.ordered, ?_, sound.distinct, sound.flying, ?_, ?_, sound.fresh, sound.slots⟩
  · intro g'
    dsimp only
    by_cases same : g' = g
    · subst same
      rw [Function.update_self, Tickets.Ring.push_head, Tickets.Ring.push_tail]
      omega
    · rw [Function.update_of_ne same]
      exact sound.pendOrdered g'
  · intro g' p' member
    unfold waitingOn at member
    dsimp only at member
    by_cases same : g' = g
    · subst same
      rw [Function.update_self, here, List.mem_append, List.mem_singleton] at member
      rcases member with old | rfl
      · exact sound.queued g' p' old
      · exact ⟨j, live, idle, gate⟩
    · rw [Function.update_of_ne same] at member
      exact sound.queued g' p' member
  · intro g'
    unfold waitingOn
    dsimp only
    by_cases same : g' = g
    · subst same
      rw [Function.update_self, here]
      exact (sound.queuedDistinct g').append (List.nodup_singleton p) (by simpa using unqueued)
    · rw [Function.update_of_ne same]
      exact sound.queuedDistinct g'

/-- The next job of a gate, once it is taken from the gate's ring. -/
theorem popped_sound {g : Nat} (sound : Sound mode s)
    (more : (s.pend g).head ≠ (s.pend g).tail)
    (popped : t = { s with pend := Function.update s.pend g (s.pend g).advance }) :
    Sound mode t ∧ ∃ j, s.jobs ((s.pend g).front jobPendN) = some j ∧ j.begun = false ∧
      mode.gate j.slot = g ∧ ∀ g', (s.pend g).front jobPendN ∉ t.waitingOn g' := by
  subst popped
  have ordered := sound.pendOrdered g
  have contents : s.waitingOn g =
      (s.pend g).front jobPendN :: Tickets.Ring.contents jobPendN (s.pend g).advance :=
    Tickets.Ring.contents_advance (by omega)
  have distinct := sound.queuedDistinct g
  rw [contents, List.nodup_cons] at distinct
  obtain ⟨j, live, idle, gate⟩ := sound.queued g _ (contents ▸ List.mem_cons_self)
  have smaller : ∀ g' p, p ∈ waitingOn
      { s with pend := Function.update s.pend g (s.pend g).advance } g' → p ∈ s.waitingOn g' := by
    intro g' p member
    unfold waitingOn at member
    dsimp only at member
    by_cases same : g' = g
    · subst same
      rw [Function.update_self] at member
      exact contents ▸ List.mem_cons_of_mem _ member
    · rw [Function.update_of_ne same] at member
      exact member
  refine ⟨⟨sound.ordered, ?_, sound.distinct, sound.flying, ?_, ?_, sound.fresh, sound.slots⟩,
    j, live, idle, gate, ?_⟩
  · intro g'
    dsimp only
    by_cases same : g' = g
    · subst same
      rw [Function.update_self, Tickets.Ring.advance_head, Tickets.Ring.advance_tail]
      omega
    · rw [Function.update_of_ne same]
      exact sound.pendOrdered g'
  · intro g' p member
    exact sound.queued g' p (smaller g' p member)
  · intro g'
    unfold waitingOn
    dsimp only
    by_cases same : g' = g
    · subst same
      rw [Function.update_self]
      exact distinct.2
    · rw [Function.update_of_ne same]
      exact sound.queuedDistinct g'
  · intro g' member
    by_cases same : g' = g
    · subst same
      unfold waitingOn at member
      dsimp only at member
      rw [Function.update_self] at member
      exact distinct.1 member
    · obtain ⟨j', live', _, gate'⟩ := sound.queued g' _ (smaller g' _ member)
      rw [live, Option.some.injEq] at live'
      exact same (by rw [← gate', ← live', gate])

/-- In the modes with the detector, the write of a reply always faults. -/
theorem ended_det (watched : mode ≠ .lock) (on : s.det.detOn = true) {p : Nat} {j : Job}
    (inside : j.slot < maxPg) : (s.ended mode p j).det =
      { s.det with
        detConflicts := if s.det.pver j.slot > j.df.parkClk then s.det.detConflicts + 1
          else s.det.detConflicts
        detFaults := s.det.detFaults + 1
        gclk := s.det.gclk + 1
        pver := Function.update s.det.pver j.slot (s.det.gclk + 1)
        writable := Function.update (fun _ => false) j.slot true } := by
  unfold ended writeBack free
  dsimp only
  rw [if_neg watched, if_neg watched, Detector.store_reprotected on inside]
  simp

/-- A job whose client is unblocked has been begun and not yet freed. -/
theorem Sound.unblocked (sound : Sound mode s) {p : Nat} (finished : p ∈ s.unblocked) :
    ∃ j, s.jobs p = some j ∧ j.begun = true := by
  apply (sound.flying p).mp
  unfold flight
  exact List.mem_append_right _ (List.mem_append_right _ finished)

theorem begin_free {p p' : Nat} (apart : p' ≠ p) :
    (s.begin mode p').map (fun s => s.free p) = (s.free p).begin mode p' := by
  unfold begin
  rw [show (s.free p).jobs p' = s.jobs p' from Function.update_of_ne apart ..]
  cases s.jobs p' with
  | none => rfl
  | some j =>
    simp only [Option.map_some, Option.some.injEq]
    unfold free enqueueOffload
    dsimp only
    rw [Function.update_comm apart.symm]

theorem advanceGate_free {g p : Nat} (apart : (s.pend g).head ≠ (s.pend g).tail →
    (s.pend g).front jobPendN ≠ p) :
    (s.advanceGate mode g).map (fun s => s.free p) = (s.free p).advanceGate mode g := by
  unfold advanceGate
  change _ = if (s.pend g).head ≠ (s.pend g).tail then _ else _
  split
  · rename_i more
    exact begin_free (apart more)
  · rfl

/-- `reply_cb` in the order its effects can be read in: the write, the end of the
job, and then the gate. -/
theorem replyCb_spec {p : Nat} (sound : Sound mode s) (finished : p ∈ s.unblocked)
    (taken : s.replyCb mode p = some t) : ∃ j, s.jobs p = some j ∧ j.begun = true ∧
      (if mode = .naive then t = s.ended mode p j
        else (s.ended mode p j).advanceGate mode (mode.gate j.slot) = some t) := by
  obtain ⟨j, live, begun⟩ := sound.unblocked finished
  refine ⟨j, live, begun, ?_⟩
  unfold replyCb at taken
  rw [live] at taken
  dsimp only at taken
  split
  · rename_i naive
    rw [if_pos naive] at taken
    exact (Option.some.inj taken).symm
  · rename_i gated
    rw [if_neg gated] at taken
    rw [← taken]
    refine (advanceGate_free ?_).symm
    intro more same
    have ordered := sound.pendOrdered (mode.gate j.slot)
    change (s.pend (mode.gate j.slot)).head ≠ (s.pend (mode.gate j.slot)).tail at more
    have waits : p ∈ s.waitingOn (mode.gate j.slot) := by
      unfold waitingOn
      rw [Tickets.Ring.contents_advance (by omega), ← same]
      exact List.mem_cons_self
    obtain ⟨j', live', idle, _⟩ := sound.queued _ p waits
    rw [live, Option.some.injEq] at live'
    rw [← live', begun] at idle
    cases idle

/-- What one step can do: a command, a worker that moves a job on, or a reply. -/
inductive Stepped (mode : RmwMode) (s : DetModule) : DetModule → Prop
  | command {t : DetModule} (argv : List Bytes) (taken : s.cmdRmw mode argv = some t) :
      Stepped mode s t
  | worker (q : Tickets.Ring Nat) (running : List (Nat × Nat)) (unblocked : List Nat)
      (sound : Sound mode { s with q := q, running := running, unblocked := unblocked }) :
      Stepped mode s { s with q := q, running := running, unblocked := unblocked }
  | reply {t : DetModule} (p : Nat) (j : Job) (finished : p ∈ s.unblocked)
      (live : s.jobs p = some j) (begun : j.begun = true)
      (ends : if mode = .naive then t = s.ended mode p j
        else (s.ended mode p j).advanceGate mode (mode.gate j.slot) = some t) :
      Stepped mode s t

theorem stepped {nw : Nat} {a : DetAct} (sound : Sound mode s)
    (taken : s.step mode nw a = some t) : Stepped mode s t := by
  cases a with
  | rmw argv => exact .command argv taken
  | take w =>
    change (if w < nw then s.take w else none) = some t at taken
    split at taken
    · have kept := take_sound sound taken
      unfold take at taken
      split at taken
      · cases taken
      · rw [Option.some.injEq] at taken
        subst taken
        exact .worker s.q.advance ((w, s.q.front workQn) :: s.running) s.unblocked kept
    · cases taken
  | unblock w p =>
    change s.unblock w p = some t at taken
    have kept := unblock_sound sound taken
    unfold unblock at taken
    split at taken
    · rw [Option.some.injEq] at taken
      subst taken
      exact .worker s.q (s.running.erase (w, p)) (p :: s.unblocked) kept
    · cases taken
  | reply p =>
    change (if p ∈ s.unblocked then s.replyCb mode p else none) = some t at taken
    split at taken
    · rename_i finished
      obtain ⟨j, live, begun, ends⟩ := replyCb_spec sound finished taken
      exact .reply p j finished live begun ends
    · cases taken

end TransparentOffload.DetModule
