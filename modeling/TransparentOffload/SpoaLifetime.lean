import TransparentOffload.SpoaAgent

set_option autoImplicit false

/- A worker's job refers to the object and the descriptor its NOTIFY came in on, for
as long as no connection is closed that a job still refers to. -/
namespace TransparentOffload.Spoa

/-- The connections that jobs refer to: queued ones, those in a worker's hands, and
those whose ACK is written and whose lock is still held. -/
def referred (s : Spoa) : List Nat :=
  (s.pool.outstanding qn).map SpoaJob.c ++ s.unlocking.map Prod.snd

/-- The object is not freed, and its descriptor still leads to the connection it was
made for, which is the one its frames came in on. -/
def Attached (s : Spoa) (c : Nat) : Prop := ∃ k, s.conns c = some k ∧ s.fds k.fd = some c

instance (s : Spoa) (c : Nat) : Decidable (s.Attached c) :=
  decidable_of_iff (∃ k ∈ s.conns c, s.fds k.fd = some c) Iff.rfl

/-- Every job refers to a connection that is still there. -/
def AllAttached (s : Spoa) : Prop := ∀ c ∈ s.referred, s.Attached c

/-- A thread closes its descriptor only when no job refers to its connection. -/
def ClosesUnused (s : Spoa) : SpoaAct → Prop
  | .close c => c ∉ s.referred
  | _ => True

instance (s : Spoa) : ∀ a, Decidable (s.ClosesUnused a)
  | .close c => inferInstanceAs (Decidable (c ∉ s.referred))
  | .accept _ | .frame _ _ | .leave _ | .free _ | .take _ | .lock _ | .write _ | .unlock _ =>
    isTrue trivial

/-- The connection of the job a worker takes, or that `send_ack` works on. -/
def uses (s : Spoa) : SpoaAct → Option Nat
  | .take _ => if s.pool.q.head = s.pool.q.tail then none else some (s.pool.q.front qn).c
  | .lock w => (s.pool.held w).map SpoaJob.c
  | .write w => (s.pool.held w).map SpoaJob.c
  | .unlock w => s.unlockingOf w
  | _ => none

/-- The job a worker takes, and the job `send_ack` works on, refer to their own
connection. -/
def UsesAttached (s : Spoa) (a : SpoaAct) : Prop := ∀ c, s.uses a = some c → s.Attached c

instance (s : Spoa) (a : SpoaAct) : Decidable (s.UsesAttached a) :=
  decidable_of_iff (∀ c ∈ s.uses a, s.Attached c) Iff.rfl

variable {s t : Spoa} {c w : Nat} {k : SpoaConn}

theorem unlockingOf_mem (own : s.unlockingOf w = some c) : (w, c) ∈ s.unlocking := by
  obtain ⟨pair, found, rfl⟩ := Option.map_eq_some_iff.mp own
  have same : pair.1 = w := by simpa using List.find?_some found
  rw [← same]
  exact List.mem_of_find?_eq_some found

/-- What a worker works on is the connection of a job. -/
theorem uses_referred {a : SpoaAct} (ordered : s.pool.Ordered) (used : s.uses a = some c) :
    c ∈ s.referred := by
  have ofHeld : ∀ w, (s.pool.held w).map SpoaJob.c = some c → c ∈ s.referred := by
    intro w held
    obtain ⟨j, inHand, rfl⟩ := Option.map_eq_some_iff.mp held
    exact List.mem_append_left _
      (List.mem_map_of_mem (WorkPool.Pool.mem_outstanding_of_held inHand))
  cases a with
  | take w =>
    rw [uses] at used
    split at used
    · cases used
    · rename_i more
      rw [Option.some.injEq] at used
      subst used
      have first : s.pool.q.contents qn = s.pool.q.front qn :: s.pool.q.advance.contents qn :=
        Tickets.Ring.contents_advance (Nat.lt_of_le_of_ne ordered (Ne.symm more))
      apply List.mem_append_left
      apply List.mem_map_of_mem
      apply List.mem_append_left
      rw [first]
      exact List.mem_cons_self
  | lock w => exact ofHeld w used
  | write w => exact ofHeld w used
  | unlock w =>
    exact List.mem_append_right _ (List.mem_map.mpr ⟨(w, c), unlockingOf_mem used, rfl⟩)
  | accept | frame | leave | close | free => cases used

theorem Kept.attached (kept : Kept s t) (attached : s.Attached c) : t.Attached c := by
  obtain ⟨k, live, leads⟩ := attached
  obtain ⟨k', live', fd⟩ := kept.live c k live
  exact ⟨k', live', by rw [kept.fds, fd, leads]⟩

/-- Nothing new is referred to, and nothing that was is lost. -/
theorem AllAttached.kept (all : AllAttached s) (kept : ∀ c, s.Attached c → t.Attached c)
    (fewer : ∀ c, c ∈ t.referred → c ∈ s.referred) : AllAttached t :=
  fun c member => kept c (all c (fewer c member))

theorem accept_attached {fd : Fd} (wired : Wired s) (taken : s.accept fd = some t)
    (attached : s.Attached c) : t.Attached c := by
  obtain ⟨k, live, leads⟩ := attached
  unfold accept at taken
  split at taken
  · rename_i unused
    rw [Option.some.injEq] at taken
    subst taken
    have old : c ≠ s.accepted := Nat.ne_of_lt (wired.fresh c k live)
    have apart : k.fd ≠ fd := by
      intro same
      rw [same, unused] at leads
      cases leads
    exact ⟨k, (setConn_of_ne old).trans live, (Function.update_of_ne apart ..).trans leads⟩
  · cases taken

theorem close_attached {c' : Nat} (wired : Wired s) (taken : s.close c = some t) (apart : c' ≠ c)
    (attached : s.Attached c') : t.Attached c' := by
  obtain ⟨k', live', leads⟩ := attached
  obtain ⟨k, live, phase, rfl⟩ := close_spec taken
  have open_ : s.fds k.fd = some c := wired.open_ c k live (by rw [phase]; nofun)
  have other : k'.fd ≠ k.fd := by
    intro same
    rw [same, open_, Option.some.injEq] at leads
    exact apart leads.symm
  exact ⟨k', (setConn_of_ne apart).trans live', (Function.update_of_ne other ..).trans leads⟩

theorem free_attached {c' : Nat} (wired : Wired s) (taken : s.free c = some t)
    (attached : s.Attached c') : t.Attached c' := by
  obtain ⟨k', live', leads⟩ := attached
  obtain ⟨k, live, phase, rfl⟩ := free_spec taken
  have apart : c' ≠ c := by
    rintro rfl
    rw [live, Option.some.injEq] at live'
    subst live'
    exact wired.closed c' k live phase leads
  exact ⟨k', (Function.update_of_ne apart ..).trans live', leads⟩

theorem referred_congr (pool : t.pool = s.pool) (unlocking : t.unlocking = s.unlocking) :
    t.referred = s.referred := by
  unfold referred
  rw [pool, unlocking]

theorem step_attached {nw : Nat} {a : SpoaAct} (wired : Wired s) (all : AllAttached s)
    (closes : s.ClosesUnused a) (taken : s.step nw a = some t) : AllAttached t := by
  cases step_turn taken with
  | accept fd act taken =>
    have same : t.referred = s.referred := by
      unfold accept at taken
      split at taken
      · rw [Option.some.injEq] at taken
        subst taken
        rfl
      · cases taken
    exact all.kept (fun c => accept_attached wired taken) fun c member => same ▸ member
  | close c act taken =>
    subst act
    have same : t.referred = s.referred := by
      obtain ⟨k, _, _, rfl⟩ := close_spec taken
      rfl
    intro c' member
    rw [same] at member
    have apart : c' ≠ c := fun equal => closes (equal ▸ member)
    exact close_attached wired taken apart (all c' member)
  | free c act taken =>
    have same : t.referred = s.referred := by
      obtain ⟨k, _, _, rfl⟩ := free_spec taken
      rfl
    exact all.kept (fun c' => free_attached wired taken) fun c' member => same ▸ member
  | notify j k payload act ids live reading ends =>
    have kept : Kept s t := kept_of_conns (by rw [ends]) (by rw [ends]) (by rw [ends])
    have own : s.Attached j.c := ⟨k, live, wired.open_ j.c k live (by rw [reading]; nofun)⟩
    intro c member
    rw [ends] at member
    apply kept.attached
    rcases List.mem_append.mp member with job | lock
    · obtain ⟨j', inside, rfl⟩ := List.mem_map.mp job
      rcases WorkPool.Pool.mem_outstanding_submit wired.ordered inside with rfl | old
      · exact own
      · exact all _ (List.mem_append_left _ (List.mem_map_of_mem old))
    · exact all c (List.mem_append_right _ lock)
  | aside quiet open_ kept pool unlocking =>
    exact all.kept (fun c => kept.attached) fun c member => referred_congr pool unlocking ▸ member
  | take w pool act took ends =>
    have kept : Kept s t := kept_of_conns (by rw [ends]) (by rw [ends]) (by rw [ends])
    have jobs := (WorkPool.Pool.take_outstanding wired.ordered took).map SpoaJob.c
    refine all.kept (fun c => kept.attached) fun c member => ?_
    rw [ends] at member
    exact (jobs.append_right _).subset member
  | write w j k act held live ends =>
    rw [writen_spec] at ends
    have kept : Kept s t := kept_of_conns (by rw [ends]) (by rw [ends]) (by rw [ends])
    have mem := WorkPool.Pool.held_mem held
    have finished : (s.pool.outstanding qn).Perm (j :: (s.pool.finish w j).outstanding qn) :=
      WorkPool.Pool.finish_outstanding mem
    have jobs := finished.map SpoaJob.c
    refine all.kept (fun c => kept.attached) fun c member => ?_
    have moved : t.referred =
        ((s.pool.finish w j).outstanding qn).map SpoaJob.c ++ j.c :: s.unlocking.map Prod.snd := by
      rw [ends]
      rfl
    rw [moved] at member
    refine ((jobs.append_right _).trans ?_).mem_iff.mpr member
    exact List.perm_middle.symm
  | unlock w c k act own live ends =>
    have kept : Kept s t := kept_setConn { k with wlk := none } live rfl Iff.rfl (by rw [ends]; rfl)
      (by rw [ends]; rfl) (by rw [ends])
    refine all.kept (fun c => kept.attached) fun c' member => ?_
    rw [ends] at member
    rcases List.mem_append.mp member with job | lock
    · exact List.mem_append_left _ job
    · obtain ⟨pair, inside, rfl⟩ := List.mem_map.mp lock
      exact List.mem_append_right _ (List.mem_map_of_mem (List.mem_of_mem_erase inside))

/-- Closing a connection a job refers to leaves the job without its descriptor. -/
theorem close_detaches (used : c ∈ s.referred) (taken : s.close c = some t) : ¬ AllAttached t := by
  intro all
  obtain ⟨k, live, phase, rfl⟩ := close_spec taken
  obtain ⟨k', live', leads⟩ := all c used
  rw [show _ = _ from setConn_self, Option.some.injEq] at live'
  subst live'
  dsimp only at leads
  rw [Function.update_self] at leads
  cases leads

/-- Every job refers to the object and the descriptor its NOTIFY came in on, at all
times, if and only if no thread closes its descriptor while a job refers to its
connection; and then so does every job that is taken and every ACK that is sent. -/
theorem jobs_attached_iff_closes_unused (nw : Nat) (acts : List SpoaAct) (s : Spoa)
    (ran : Machine.run (step nw) start acts = some s) :
    (Machine.Always (step nw) AllAttached start acts ↔
      Machine.Guarded (step nw) ClosesUnused start acts) ∧
    (Machine.Guarded (step nw) ClosesUnused start acts →
      Machine.Guarded (step nw) UsesAttached start acts) := by
  have none : AllAttached start := by
    intro c member
    cases member
  constructor
  · apply Machine.always_iff_guarded (H := fun _ _ => True) (I := fun s => Wired s ∧ AllAttached s)
    · exact fun s inv => inv.2
    · rintro s a t ⟨wired, all⟩ _ closes taken
      exact ⟨step_wired wired taken, step_attached wired all closes taken⟩
    · rintro s a t ⟨wired, all⟩ _ used taken
      cases a with
      | close c => exact close_detaches (not_not.mp used) taken
      | _ => exact absurd trivial used
    · exact ⟨start_wired, none⟩
    · exact Machine.guarded_of_mem (fun _ _ _ => trivial) start
    · exact ran
  · intro closes
    have all : Machine.Always (step nw) (fun s => Wired s ∧ AllAttached s) start acts := by
      apply Machine.always_of_invariant _ ⟨start_wired, none⟩ closes
      rintro s a t ⟨wired, all⟩ closes taken
      exact ⟨step_wired wired taken, step_attached wired all closes taken⟩
    exact all.guards fun s a inv c used => inv.2 c (uses_referred inv.1.ordered used)

/-- A connection that leaves after its ACK, and one that gets its descriptor. -/
def patient : List SpoaAct :=
  [.accept 4, .frame 0 (shortFrame Spop.ftHaproxyHello 0 0),
    .frame 0 (shortFrame Spop.ftNotify 7 1), .take 0,
    .frame 0 (shortFrame Spop.ftHaproxyDiscon 0 0),
    .lock 0, .write 0, .unlock 0, .close 0, .accept 4, .free 0,
    .frame 1 (shortFrame Spop.ftNotify 9 1), .take 0, .lock 0, .write 0, .unlock 0]

theorem patient_attached : ∃ s, Machine.run (step 1) start patient = some s ∧
    Machine.Always (step 1) AllAttached start patient ∧
    Machine.Guarded (step 1) UsesAttached start patient :=
  have closes : Machine.Guarded (step 1) ClosesUnused start patient := by decide +kernel
  ⟨_, rfl, (jobs_attached_iff_closes_unused 1 patient _ rfl).1.mpr closes,
    (jobs_attached_iff_closes_unused 1 patient _ rfl).2 closes⟩

/-- A connection that leaves while its job is at the accelerator. -/
def impatient : List SpoaAct :=
  [.accept 4, .frame 0 (shortFrame Spop.ftNotify 7 1), .take 0,
    .frame 0 (shortFrame Spop.ftHaproxyDiscon 0 0), .close 0, .accept 4, .lock 0, .write 0]

/-- The ACK of a connection that has gone reaches the one that has its descriptor now. -/
theorem impatient_misdelivers : ∃ s, Machine.run (step 1) start impatient = some s ∧
    s.notifies 1 = [] ∧ s.acks 1 = [(7, 1)] ∧
    ¬ Machine.Guarded (step 1) UsesAttached start impatient :=
  ⟨_, rfl, by decide +kernel, by decide +kernel, by decide +kernel⟩

end TransparentOffload.Spoa
