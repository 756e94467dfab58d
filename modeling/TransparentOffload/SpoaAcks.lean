import TransparentOffload.SpoaAgent

set_option autoImplicit false

/- Every NOTIFY of a connection that stays open is acknowledged once, on that
connection, for as long as the job ring overwrites no job that nobody has taken. -/
namespace TransparentOffload.Spoa

/-- The ids of the jobs of a connection that are queued or in a worker's hands. -/
def outstanding (s : Spoa) (c : Nat) : List (UInt64 × UInt64) :=
  (s.pool.outstanding qn).filterMap fun j => if j.c = c then some (j.sid, j.fid) else none

/-- Each NOTIFY has its ACK, or a job that will send it. -/
def Accounted (s : Spoa) : Prop :=
  ∀ c, (s.acks c ++ s.outstanding c).Perm (s.notifies c)

/-- A NOTIFY finds a slot of the ring that holds no other job. -/
def RoomFor (s : Spoa) (a : SpoaAct) : Prop :=
  ∀ j, a.notified = some j → s.pool.q.Fits qn j

instance (s : Spoa) (a : SpoaAct) : Decidable (s.RoomFor a) :=
  decidable_of_iff (∀ j ∈ a.notified, s.pool.q.Fits qn j) Iff.rfl

/-- No connection is closed. -/
def Open (s : Spoa) : Prop := ∀ c k, s.conns c = some k → k.phase ≠ .closed

variable {s t : Spoa} {c w : Nat} {k : SpoaConn}

theorem count_outstanding (s : Spoa) (j : SpoaJob) :
    (s.outstanding j.c).count (j.sid, j.fid) = (s.pool.outstanding qn).count j := by
  unfold outstanding
  induction s.pool.outstanding qn with
  | nil => rfl
  | cons first rest ih =>
    rw [List.filterMap_cons, List.count_cons, ← ih]
    by_cases same : first.c = j.c
    · rw [if_pos same]
      dsimp only
      rw [List.count_cons]
      congr 1
      by_cases equal : first = j
      · rw [equal, if_pos (by simp), if_pos (by simp)]
      · have other : (first.sid, first.fid) ≠ (j.sid, j.fid) := by
          intro ids
          rw [Prod.mk.injEq] at ids
          obtain ⟨c₁, sid, fid⟩ := first
          obtain ⟨c₂, sid', fid'⟩ := j
          simp_all
        rw [if_neg (by simpa using other), if_neg (by simpa using equal)]
    · have other : first ≠ j := fun equal => same (congrArg SpoaJob.c equal)
      rw [if_neg same, if_neg (by simpa using other)]
      rfl

/-- A NOTIFY is received for its own connection only. -/
theorem notifies_notify {j : SpoaJob} {payload : Bytes}
    (ids : idsOf Spop.ftNotify payload = some (j.sid, j.fid))
    (received : t.received = (j.c, payload) :: s.received) (c : Nat) :
    t.notifies c = if j.c = c then (j.sid, j.fid) :: s.notifies c else s.notifies c := by
  unfold notifies
  rw [received, List.filterMap_cons]
  dsimp only
  by_cases same : j.c = c
  · rw [if_pos same, if_pos same, ids]
  · rw [if_neg same, if_neg same]

/-- An ACK is sent on the connection of its job. -/
theorem acks_write {j : SpoaJob}
    (sent : t.sent = (j.c, Spop.frame (Spop.ackPayload j.sid j.fid)) :: s.sent) (c : Nat) :
    t.acks c = if j.c = c then (j.sid, j.fid) :: s.acks c else s.acks c := by
  unfold acks
  rw [sent, List.filterMap_cons]
  dsimp only
  by_cases same : j.c = c
  · rw [if_pos same, if_pos same, idsOf_ack]
  · rw [if_neg same, if_neg same]

/-- One more job in the pool, or one less. -/
theorem outstanding_cons {j : SpoaJob}
    (more : (t.pool.outstanding qn).Perm (j :: s.pool.outstanding qn)) (c : Nat) :
    (t.outstanding c).Perm
      (if j.c = c then (j.sid, j.fid) :: s.outstanding c else s.outstanding c) := by
  have mapped := more.filterMap fun j => if j.c = c then some (j.sid, j.fid) else none
  rw [List.filterMap_cons] at mapped
  unfold outstanding
  by_cases same : j.c = c
  · rw [if_pos same] at mapped ⊢
    exact mapped
  · rw [if_neg same] at mapped ⊢
    exact mapped

theorem Accounted.moved (accounted : Accounted s) (acks : t.acks = s.acks)
    (notifies : t.notifies = s.notifies)
    (pool : (t.pool.outstanding qn).Perm (s.pool.outstanding qn)) : Accounted t := by
  intro c
  rw [acks, notifies]
  exact ((pool.filterMap _).append_left _).trans (accounted c)

theorem submit_accounted {j : SpoaJob} {payload : Bytes} (wired : Wired s)
    (accounted : Accounted s) (ids : idsOf Spop.ftNotify payload = some (j.sid, j.fid))
    (fits : s.pool.q.Fits qn j)
    (ends : t = { s with
      received := (j.c, payload) :: s.received, pool := s.pool.submit qn j }) :
    Accounted t := by
  intro c
  have pool : (t.pool.outstanding qn).Perm (j :: s.pool.outstanding qn) := by
    rw [ends]
    exact WorkPool.Pool.submit_outstanding wired.ordered fits
  have acks : t.acks c = s.acks c := by
    rw [ends]
    rfl
  have jobs := outstanding_cons pool c
  rw [acks, notifies_notify ids (by rw [ends])]
  by_cases same : j.c = c
  · rw [if_pos same] at jobs ⊢
    exact ((jobs.append_left _).trans List.perm_middle).trans ((accounted c).cons _)
  · rw [if_neg same] at jobs ⊢
    exact (jobs.append_left _).trans (accounted c)

theorem write_accounted {j : SpoaJob} (wired : Wired s) (open_ : Open s)
    (accounted : Accounted s) (held : s.pool.held w = some j) (live : s.conns j.c = some k)
    (ends : t = { s with
      pool := s.pool.finish w j, unlocking := (w, j.c) :: s.unlocking }.writen k.fd
        (Spop.frame (Spop.ackPayload j.sid j.fid))) : Accounted t := by
  intro c
  have leads : s.fds k.fd = some j.c := wired.open_ j.c k live (open_ j.c k live)
  rw [writen_spec] at ends
  dsimp only at ends
  rw [leads] at ends
  have pool : (s.pool.outstanding qn).Perm (j :: t.pool.outstanding qn) := by
    rw [ends]
    exact WorkPool.Pool.finish_outstanding (WorkPool.Pool.held_mem held)
  have notifies : t.notifies c = s.notifies c := by
    rw [ends]
    rfl
  have jobs := outstanding_cons pool c
  rw [notifies, acks_write (s := s) (by rw [ends])]
  refine List.Perm.trans ?_ (accounted c)
  by_cases same : j.c = c
  · rw [if_pos same] at jobs ⊢
    exact (List.perm_middle.symm).trans (jobs.symm.append_left _)
  · rw [if_neg same] at jobs ⊢
    exact jobs.symm.append_left _

theorem step_open {nw : Nat} {a : SpoaAct} (open_ : Open s) (stays : ∀ c, a ≠ .close c)
    (taken : s.step nw a = some t) : Open t := by
  have kept : ∀ {u : Spoa}, Kept s u → Open u := by
    intro u kept c k there
    obtain ⟨k', here, _, same⟩ := kept.same c k there
    exact mt same.mp (open_ c k' here)
  cases step_turn taken with
  | accept fd act taken =>
    unfold accept at taken
    split at taken
    · rw [Option.some.injEq] at taken
      subst taken
      intro c k there
      by_cases new : c = s.accepted
      · subst new
        rw [show _ = _ from setConn_self, Option.some.injEq] at there
        subst there
        nofun
      · rw [show _ = _ from setConn_of_ne new] at there
        exact open_ c k there
    · cases taken
  | close c act taken => exact absurd act (stays c)
  | free c act taken =>
    obtain ⟨k, live, phase, _⟩ := free_spec taken
    exact absurd phase (open_ c k live)
  | notify j k payload act ids live reading ends =>
    exact kept (kept_of_conns (by rw [ends]) (by rw [ends]) (by rw [ends]))
  | aside quiet stays' kept' => exact kept kept'
  | take w pool act took ends =>
    exact kept (kept_of_conns (by rw [ends]) (by rw [ends]) (by rw [ends]))
  | write w j k act held live ends =>
    rw [writen_spec] at ends
    exact kept (kept_of_conns (by rw [ends]) (by rw [ends]) (by rw [ends]))
  | unlock w c k act own live ends =>
    exact kept (kept_setConn { k with wlk := none } live rfl Iff.rfl (by rw [ends]; rfl)
      (by rw [ends]; rfl) (by rw [ends]))

theorem step_accounted {nw : Nat} {a : SpoaAct} (wired : Wired s) (open_ : Open s)
    (accounted : Accounted s) (stays : ∀ c, a ≠ .close c) (room : s.RoomFor a)
    (taken : s.step nw a = some t) : Accounted t := by
  cases step_turn taken with
  | accept fd act taken =>
    unfold accept at taken
    split at taken
    · rw [Option.some.injEq] at taken
      subst taken
      exact accounted
    · cases taken
  | close c act taken => exact absurd act (stays c)
  | free c act taken =>
    obtain ⟨k, live, phase, _⟩ := free_spec taken
    exact absurd phase (open_ c k live)
  | notify j k payload act ids live reading ends =>
    have notified : a.notified = some j := by
      rw [act, SpoaAct.notified, ids]
      rfl
    exact submit_accounted wired accounted ids (room j notified) ends
  | aside quiet stays' kept pool unlocking notifies acks =>
    exact accounted.moved acks notifies (by rw [pool])
  | take w pool act took ends =>
    refine accounted.moved (by rw [ends]; rfl) (by rw [ends]; rfl) ?_
    rw [ends]
    exact WorkPool.Pool.take_outstanding wired.ordered took
  | write w j k act held live ends =>
    exact write_accounted wired open_ accounted held live ends
  | unlock w c k act own live ends =>
    exact accounted.moved (by rw [ends]; rfl) (by rw [ends]; rfl) (by rw [ends]; rfl)

/-- A NOTIFY that overwrites another job leaves that one without an ACK. -/
theorem overwrite_unaccounted {nw : Nat} {a : SpoaAct} (wired : Wired s)
    (accounted : Accounted s) (full : ¬ s.RoomFor a) (taken : s.step nw a = some t) :
    ¬ Accounted t := by
  intro after
  unfold RoomFor at full
  push Not at full
  obtain ⟨x, notified, lost⟩ := full
  have quiet : a.notified ≠ none := by
    rw [notified]
    nofun
  cases step_turn taken with
  | accept fd act => exact quiet (act ▸ rfl)
  | close c act => exact quiet (act ▸ rfl)
  | free c act => exact quiet (act ▸ rfl)
  | notify j k payload act ids live reading ends =>
    rw [act, SpoaAct.notified, ids, Option.map_some, Option.some.injEq] at notified
    have same : j = x := notified
    subst same
    obtain ⟨y, apart, fewer⟩ := WorkPool.Pool.submit_loses (by decide) wired.ordered lost
    have before := (accounted y.c).count_eq (y.sid, y.fid)
    have later := (after y.c).count_eq (y.sid, y.fid)
    have pool : t.pool = s.pool.submit qn j := by rw [ends]
    have acks : t.acks = s.acks := by
      rw [ends]
      rfl
    -- the job that is lost is not the one that was received
    have received : (t.notifies y.c).count (y.sid, y.fid) =
        (s.notifies y.c).count (y.sid, y.fid) := by
      rw [notifies_notify ids (by rw [ends])]
      by_cases own : j.c = y.c
      · have other : (j.sid, j.fid) ≠ (y.sid, y.fid) := by
          intro equal
          rw [Prod.mk.injEq] at equal
          apply apart
          cases j
          cases y
          simp_all
        rw [if_pos own, List.count_cons, if_neg (by simpa using other), Nat.add_zero]
      · rw [if_neg own]
    rw [List.count_append, count_outstanding] at before later
    rw [pool, acks, received] at later
    omega
  | aside quiet' => exact quiet quiet'
  | take w pool act => exact quiet (act ▸ rfl)
  | write w j k act => exact quiet (act ▸ rfl)
  | unlock w c k act => exact quiet (act ▸ rfl)

/-- On connections that stay open the ACKs sent and the jobs outstanding are the
NOTIFYs received, at all times, if and only if no NOTIFY is stored into a slot of the
job ring that still holds another one. -/
theorem acked_once_iff_room (nw : Nat) (acts : List SpoaAct) (s : Spoa)
    (stays : ∀ c, .close c ∉ acts) (ran : Machine.run (step nw) start acts = some s) :
    Machine.Always (step nw) Accounted start acts ↔
      Machine.Guarded (step nw) RoomFor start acts := by
  apply Machine.always_iff_guarded (H := fun _ a => ∀ c, a ≠ .close c)
    (I := fun s => Wired s ∧ Open s ∧ Accounted s)
  · exact fun s inv => inv.2.2
  · rintro s a t ⟨wired, open_, accounted⟩ stays room taken
    exact ⟨step_wired wired taken, step_open open_ stays taken,
      step_accounted wired open_ accounted stays room taken⟩
  · rintro s a t ⟨wired, _, accounted⟩ _ full taken
    exact overwrite_unaccounted wired accounted full taken
  · refine ⟨start_wired, ?_, ?_⟩
    · nofun
    · intro c
      exact List.Perm.refl _
  · apply Machine.guarded_of_mem
    intro a member _ c same
    exact stays c (same ▸ member)
  · exact ran

/-- Two connections whose frames come before any ACK, and two workers. -/
def pipelined : List SpoaAct :=
  [.accept 4, .accept 5, .frame 0 (shortFrame Spop.ftNotify 7 1),
    .frame 0 (shortFrame Spop.ftNotify 7 2), .frame 1 (shortFrame Spop.ftNotify 7 1), .take 1,
    .take 0, .lock 0, .write 0, .unlock 0, .take 0, .lock 0, .lock 1, .write 1, .write 0,
    .unlock 1, .unlock 0]

theorem pipelined_acked_once : ∃ s, Machine.run (step 2) start pipelined = some s ∧
    Machine.Always (step 2) Accounted start pipelined :=
  ⟨_, rfl, (acked_once_iff_room 2 pipelined _ (by simp [pipelined]) rfl).mpr (by decide +kernel)⟩

/-- A backlog of `n + 1` NOTIFYs of which only the first has the ids `(0, 0)`. -/
structure Backlog (n : Nat) (s : Spoa) : Prop where
  wired : Wired s
  open_ : Open s
  accounted : Accounted s
  live : ∃ k, s.conns 0 = some k ∧ k.phase = .reading
  head : s.pool.q.head = n + 1
  tail : s.pool.q.tail = 0
  first : s.pool.q.slots 0 = ⟨0, 0, 0⟩

theorem notify_step (nw : Nat) (live : s.conns 0 = some k) (reading : k.phase = .reading) :
    s.step nw (.frame 0 (shortFrame Spop.ftNotify 1 0)) = some { s with
      received := (0, shortFrame Spop.ftNotify 1 0) :: s.received
      pool := s.pool.submit qn ⟨0, 1, 0⟩ } := by
  have parsed : Spop.parse (shortFrame Spop.ftNotify 1 0) = some (Spop.ftNotify, 1, 0) := rfl
  change s.readFrame 0 (shortFrame Spop.ftNotify 1 0) = _
  unfold readFrame
  rw [live, parsed]
  dsimp only
  rw [if_pos ⟨reading, by decide⟩]
  rfl

theorem Backlog.more {n : Nat} (nw : Nat) (backlog : Backlog n s) (below : n + 1 < qn) :
    ∃ t, s.step nw (.frame 0 (shortFrame Spop.ftNotify 1 0)) = some t ∧ Backlog (n + 1) t := by
  obtain ⟨k, live, reading⟩ := backlog.live
  have taken := notify_step nw live reading
  have room : s.RoomFor (.frame 0 (shortFrame Spop.ftNotify 1 0)) := by
    intro j _
    left
    rw [backlog.head, backlog.tail]
    omega
  refine ⟨_, taken, step_wired backlog.wired taken, step_open backlog.open_ (by nofun) taken,
    step_accounted backlog.wired backlog.open_ backlog.accounted (by nofun) room taken,
    ⟨k, live, reading⟩, congrArg (· + 1) backlog.head, backlog.tail, ?_⟩
  have apart : 0 ≠ s.pool.q.head % qn := by
    rw [backlog.head, Nat.mod_eq_of_lt below]
    omega
  exact (Function.update_of_ne apart ..).trans backlog.first

theorem backlog_run (nw : Nat) (n : Nat) (below : n < qn) :
    ∃ s, Machine.run (step nw) start (.accept 4 :: .frame 0 (shortFrame Spop.ftNotify 0 0) ::
      List.replicate n (.frame 0 (shortFrame Spop.ftNotify 1 0))) = some s ∧ Backlog n s := by
  induction n with
  | zero =>
    have opened : Open start := by nofun
    have accounted : Accounted start := fun _ => List.Perm.refl _
    obtain ⟨s, taken⟩ : ∃ s, start.step nw (.accept 4) = some s := ⟨_, rfl⟩
    obtain ⟨t, next⟩ : ∃ t, s.step nw (.frame 0 (shortFrame Spop.ftNotify 0 0)) = some t := by
      cases taken
      exact ⟨_, rfl⟩
    have wired := step_wired start_wired taken
    have open_ := step_open opened (by nofun) taken
    have standing := step_accounted start_wired opened accounted (by nofun) (by nofun) taken
    have room : s.RoomFor (.frame 0 (shortFrame Spop.ftNotify 0 0)) := by
      intro j _
      cases taken
      exact Or.inl (by decide)
    refine ⟨t, ?_, step_wired wired next, step_open open_ (by nofun) next,
      step_accounted wired open_ standing (by nofun) room next, ?_, ?_, ?_, ?_⟩
    · rw [Machine.run_cons_of_step taken, Machine.run_cons_of_step next]
      rfl
    · cases taken
      cases next
      exact ⟨_, rfl, rfl⟩
    all_goals
      cases taken
      cases next
      rfl
  | succ n ih =>
    obtain ⟨s, ran, backlog⟩ := ih (by omega)
    obtain ⟨t, taken, more⟩ := backlog.more nw below
    refine ⟨t, ?_, more⟩
    have last := Machine.run_snoc ran (.frame 0 (shortFrame Spop.ftNotify 1 0))
    rw [taken, List.cons_append, List.cons_append, ← List.replicate_succ'] at last
    exact last

/-- With `QN` NOTIFYs waiting, the next one takes the place of the first, which never
gets its ACK. -/
theorem backlog_loses_notify : ∃ acts s, (∀ c, SpoaAct.close c ∉ acts) ∧
    Machine.run (step 64) start acts = some s ∧ ¬ Accounted s := by
  obtain ⟨s, ran, backlog⟩ := backlog_run 64 (qn - 1) (by decide)
  obtain ⟨k, live, reading⟩ := backlog.live
  have taken := notify_step 64 live reading
  have full : ¬ s.RoomFor (.frame 0 (shortFrame Spop.ftNotify 1 0)) := by
    intro room
    have head := backlog.head
    have tail := backlog.tail
    have slot : s.pool.q.head % qn = 0 := by
      rw [head]
      decide
    rcases room ⟨0, 1, 0⟩ rfl with below | same
    · unfold qn at *
      omega
    · rw [slot, backlog.first] at same
      exact absurd same (by decide)
  refine ⟨_, _, ?_, (Machine.run_snoc ran _).trans taken,
    overwrite_unaccounted backlog.wired backlog.accounted full taken⟩
  intro c
  simp

end TransparentOffload.Spoa
