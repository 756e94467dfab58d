import TransparentOffload.OpenLoopArrivals

set_option autoImplicit false

/- The open-loop server over whole runs: no array is overrun, no task is lost or in two
places, and no arrival is lost or recorded twice. -/
namespace TransparentOffload.OpenLoop

variable {s : State} {i : Nat}

theorem Sound.bounded (sound : Sound s) : s.Bounded := by
  obtain ⟨placed, completing, arriving, numbered⟩ := sound
  have room := completions_room placed completing
  have fetching := numbered.fetching
  refine ⟨placed.free_le.2, placed.ready_le.2, arriving.ordered, ?_,
    ⟨completing.ordered, Nat.le_of_lt room⟩, fun _ _ _ => room, ?_⟩
  · intro now h t producer fits
    obtain ⟨_, behind⟩ := arriving.loaded now h t producer
    omega
  · intro arr pc
    rw [pc] at fetching
    exact fetching.2.1

theorem Sound.recordedOnce (sound : Sound s) : s.RecordedOnce :=
  ⟨sound.numbered.nodup, sound.numbered.length, sound.numbered.own⟩

theorem flying_boundary (pc : s.pc = .boundary) : Flying s i ↔ (s.tasks i).state = .waitOff := by
  unfold Flying
  rw [pc]
  constructor
  · rintro (⟨state, _⟩ | submits)
    · exact state
    · cases submits
  · exact fun state => Or.inl ⟨state, nofun⟩

theorem atDevice_iff : s.atDevice i = true ↔
    (s.slots i).active = true ∧ (s.slots i).done = false ∨ s.device.reporting = some i := by
  unfold State.atDevice
  simp only [Bool.or_eq_true, Bool.and_eq_true, Bool.not_eq_true', beq_iff_eq]

/-- At a boundary a task whose offload is in flight is at the device or in the completion
ring, and no other task is. -/
theorem Completing.device_or_ring (completing : Completing s) (pc : s.pc = .boundary) :
    (if s.atDevice i = true then 1 else 0) + (s.comp.contents cqn).count i =
      if Flying s i then 1 else 0 := by
  have once := completing.once i
  simp only [atDevice_iff]
  by_cases flying : Flying s i
  · have active := completing.active i (Or.inl ((flying_boundary pc).mp flying))
    cases done : (s.slots i).done with
    | true =>
      simp only [flying, done, and_self, if_true] at once
      simp only [flying, Bool.true_eq_false, and_false, false_or, if_true]
      omega
    | false =>
      simp only [done, Bool.false_eq_true, and_false, if_false] at once
      simp only [flying, active, and_self, true_or, if_true]
      omega
  · simp only [flying, false_and, if_false] at once
    have silent : s.device.reporting ≠ some i := by
      intro reports
      rw [if_pos reports] at once
      omega
    have idle : ¬ ((s.slots i).active = true ∧ (s.slots i).done = false) := by
      rintro ⟨active, done⟩
      have never := (completing.idle i flying done).1
      rw [active] at never
      cases never
    simp only [silent, idle, flying, or_self, if_false]
    omega

/-- What is in flight at a boundary is suspended. -/
theorem Sound.waiting (sound : Sound s) (pc : s.pc = .boundary)
    (member : i ∈ (List.range pool).filter s.atDevice ++ s.comp.contents cqn) :
    (s.tasks i).state = .waitOff := by
  have places := sound.completing.device_or_ring (i := i) pc
  rw [← flying_boundary pc]
  by_contra grounded
  rw [if_neg grounded] at places
  rcases List.mem_append.mp member with device | ring
  · rw [if_pos (List.mem_filter.mp device).2] at places
    omega
  · have positive := List.count_pos_iff.mpr ring
    omega

theorem Sound.partitioned (sound : Sound s) (pc : s.pc = .boundary) : s.Partitioned := by
  have placed := sound.placed
  refine ⟨?_, placed.free, fun id member => sound.waiting pc member, placed.ready⟩
  rw [List.perm_iff_count]
  intro i
  have once := placed.once i
  have places := sound.completing.device_or_ring (i := i) pc
  have below : Flying s i → i < pool := fun flying => placed.flying_inside flying
  have device : ((List.range pool).filter s.atDevice).count i =
      if i < pool ∧ s.atDevice i = true then 1 else 0 := by
    rw [(List.nodup_range.filter _).count]
    simp only [List.mem_filter, List.mem_range]
  have range : (List.range pool).count i = if i < pool then 1 else 0 := by
    rw [List.nodup_range.count]
    simp only [List.mem_range]
  rw [pc] at once
  change _ + 0 + _ = _ at once
  simp only [List.count_append]
  rw [device, range, ← once]
  by_cases flying : Flying s i
  · simp only [below flying, true_and]
    omega
  · rw [if_neg flying] at places ⊢
    have away : ¬ s.atDevice i = true := by
      intro there
      rw [if_pos there] at places
      omega
    rw [if_neg fun both => away both.2]
    omega

theorem Sound.free_iff (sound : Sound s) (pc : s.pc = .boundary) :
    i ∈ s.freelist ↔ i < pool ∧ (s.tasks i).state = .free := by
  have placed := sound.placed
  have once := placed.once i
  rw [pc] at once
  change _ + 0 + _ = _ at once
  constructor
  · intro member
    have positive := List.count_pos_iff.mpr member
    refine ⟨?_, placed.free i member⟩
    by_contra outside
    rw [if_neg outside] at once
    omega
  · rintro ⟨inside, free⟩
    have grounded : ¬ Flying s i := by
      rw [flying_boundary pc, free]
      nofun
    have unready : s.ready.count i = 0 := by
      rw [List.count_eq_zero]
      intro member
      have ready := placed.ready i member
      rw [free] at ready
      cases ready
    rw [if_neg grounded, if_pos inside, unready] at once
    rw [← List.count_pos_iff]
    omega

/-- The tasks are free or not. -/
theorem Sound.free_length (sound : Sound s) (pc : s.pc = .boundary) :
    s.freelist.length + s.nonFree.length = pool := by
  have free : s.freelist.Perm ((List.range pool).filter fun id => (s.tasks id).state = .free) := by
    rw [List.perm_ext_iff_of_nodup sound.placed.free_le.1 (List.nodup_range.filter _)]
    intro id
    rw [sound.free_iff pc, List.mem_filter, List.mem_range, decide_eq_true_eq]
  have split := List.length_eq_length_filter_add (l := List.range pool)
    (fun id => decide ((s.tasks id).state = .free))
  rw [List.length_range] at split
  unfold State.nonFree
  simp only [ne_eq, decide_not]
  rw [free.length_eq]
  exact split.symm

theorem Sound.conserved (sound : Sound s) (pc : s.pc = .boundary) : s.Conserved := by
  have balance := sound.numbered.balance
  have split := sound.free_length pc
  rw [pc] at balance
  change _ + _ + 0 = _ + _ + 0 at balance
  exact ⟨by omega, sound.arriving.unread, sound.arriving.counted⟩

/-- In every interleaving of the three threads no array is overrun and each arrival is
recorded at most once, with its own time; and at the head of the dispatcher's loop every
task is in one place and every arrival is unread, with a task, or recorded. -/
theorem open_loop_conserves {warmUntil : Nat} {acts : List OpenAct}
    (reached : Machine.run step (.init warmUntil) acts = some s) :
    s.Bounded ∧ s.RecordedOnce ∧ (s.pc = .boundary → s.Partitioned ∧ s.Conserved) := by
  have sound : Sound s := Machine.invariant_reached
    (fun _ _ _ before run => step_sound before run) (init_sound warmUntil) reached
  exact ⟨sound.bounded, sound.recordedOnce, fun pc => ⟨sound.partitioned pc, sound.conserved pc⟩⟩

/-- One arrival, up to the boundary at which its offload is with the device. -/
def offloaded : State :=
  (Machine.run step (.init 0)
    (List.replicate 3 (.produce 5) ++ List.replicate 13 (.dispatch 9))).get (by decide +kernel)

theorem open_loop_conserves_offloaded :
    offloaded.pc = .boundary ∧ (offloaded.tasks 1023).state = .waitOff ∧
      offloaded.Bounded ∧ offloaded.Partitioned ∧ offloaded.Conserved := by
  have boundary : offloaded.pc = .boundary := by decide +kernel
  obtain ⟨bounded, _, whole⟩ := open_loop_conserves (s := offloaded) (Option.some_get _).symm
  exact ⟨boundary, by decide +kernel, bounded, whole boundary⟩

end TransparentOffload.OpenLoop
