import TransparentOffload.SpoaAcks
import TransparentOffload.SpoaLifetime

set_option autoImplicit false

/- Who has the lock of a connection: a worker whose job has come in on it, or one that has
written its ACK and is about to give the lock back. -/
namespace TransparentOffload.Spoa

/-- The worker that has `wlk`. -/
def lockOf (s : Spoa) (c : Nat) : Option Nat := (s.conns c).bind SpoaConn.wlk

/-- A worker has one job and one lock at most, and a lock that is taken has its worker. -/
structure Locked (s : Spoa) : Prop where
  single : s.pool.Single
  once : s.unlocking.Nodup
  written : ∀ w c, (w, c) ∈ s.unlocking → s.pool.held w = none ∧ s.lockOf c = some w
  owned : ∀ c w, s.lockOf c = some w →
    (∃ j, s.pool.held w = some j ∧ j.c = c) ∨ (w, c) ∈ s.unlocking

variable {s t : Spoa} {c w : Nat} {k : SpoaConn}

theorem start_locked : Locked start := by
  refine ⟨WorkPool.Pool.idle_single, List.nodup_nil, ?_, ?_⟩
  · intro w c member
    cases member
  · intro c w taken
    cases taken

theorem lockOf_eq (live : s.conns c = some k) : s.lockOf c = k.wlk := by
  rw [lockOf, live, Option.bind_some]

theorem lockOf_setConn (c' : Nat) :
    (s.setConn c k).lockOf c' = if c' = c then k.wlk else s.lockOf c' := by
  by_cases same : c' = c
  · subst same
    rw [if_pos rfl, lockOf_eq setConn_self]
  · rw [if_neg same, lockOf, setConn_of_ne same]
    rfl

/-- The job of a worker that has the lock of a connection came in on it. -/
theorem Locked.job (locked : Locked s) {j : SpoaJob} (own : s.lockOf c = some w)
    (held : s.pool.held w = some j) : j.c = c := by
  rcases locked.owned c w own with ⟨j', held', same⟩ | member
  · rw [held, Option.some.injEq] at held'
    exact held' ▸ same
  · rw [(locked.written w c member).1] at held
    cases held

/-- A worker without a job that has no lock to give back has none. -/
theorem Locked.lockless (locked : Locked s) (idle : s.pool.held w = none)
    (absent : w ∉ s.unlocking.map Prod.fst) : s.lockOf c ≠ some w := by
  intro own
  rcases locked.owned c w own with ⟨j, held, _⟩ | member
  · rw [idle] at held
    cases held
  · exact absent (List.mem_map_of_mem member)

/-- A step that leaves the locks and the workers alone. -/
theorem Locked.same (locked : Locked s) (pool : t.pool.running = s.pool.running)
    (unlocking : t.unlocking = s.unlocking) (locks : ∀ c, t.lockOf c = s.lockOf c) :
    Locked t := by
  have held : ∀ w, t.pool.held w = s.pool.held w := by
    intro w
    rw [WorkPool.Pool.held, pool]
    rfl
  refine ⟨?_, ?_, ?_, ?_⟩
  · rw [WorkPool.Pool.Single, pool]
    exact locked.single
  · rw [unlocking]
    exact locked.once
  · intro w c member
    rw [unlocking] at member
    rw [held, locks]
    exact locked.written w c member
  · intro c w own
    rw [locks] at own
    rw [held, unlocking]
    exact locked.owned c w own

/-- A connection is accepted unlocked. -/
theorem accept_lockOf {fd : Fd} (wired : Wired s) (taken : s.accept fd = some t) (c : Nat) :
    t.lockOf c = s.lockOf c := by
  unfold accept at taken
  split at taken
  · cases taken
    show (s.setConn s.accepted ⟨fd, none, .reading⟩).lockOf c = s.lockOf c
    rw [lockOf_setConn]
    split
    · rename_i same
      cases live : s.conns c with
      | none => rw [lockOf, live, Option.bind_none]
      | some k =>
        have old := wired.fresh c k live
        omega
    · rfl
  · cases taken

theorem accept_eq {fd : Fd} (taken : s.accept fd = some t) : t.pool = s.pool ∧
    t.unlocking = s.unlocking ∧ t.received = s.received ∧ t.sent = s.sent := by
  unfold accept at taken
  split at taken
  · cases taken
    exact ⟨rfl, rfl, rfl, rfl⟩
  · cases taken

theorem leave_spec (taken : s.leave c = some t) :
    ∃ k, s.conns c = some k ∧ k.phase = .reading ∧
      t = s.setConn c { k with phase := .leaving } := by
  unfold leave at taken
  split at taken
  · rename_i k live
    split at taken
    · rename_i reading
      exact ⟨k, live, reading, (Option.some.inj taken).symm⟩
    · cases taken
  · cases taken

theorem leave_lockOf (taken : s.leave c = some t) (c' : Nat) : t.lockOf c' = s.lockOf c' := by
  obtain ⟨k, live, _, rfl⟩ := leave_spec taken
  rw [lockOf_setConn]
  split
  · rename_i same
    rw [same, lockOf_eq live]
  · rfl

/-- A frame is read once; nothing is written but for a HELLO, with the lock free. -/
theorem readFrame_spec {payload : Bytes} (wired : Wired s)
    (taken : s.readFrame c payload = some t) :
    (∀ c, t.lockOf c = s.lockOf c) ∧ t.pool.running = s.pool.running ∧
      t.unlocking = s.unlocking ∧ t.received = (c, payload) :: s.received ∧
      t.sent = if (Spop.parse payload).map Prod.fst = some Spop.ftHaproxyHello then
        (c, Spop.frame (Spop.agentHelloPayload 16380)) :: s.sent else s.sent := by
  unfold readFrame at taken
  split at taken
  · rename_i k type sid fid live parsed
    split at taken
    · rename_i able
      have leads : s.fds k.fd = some c := by
        apply wired.open_ c k live
        rw [able.1]
        nofun
      rw [parsed, Option.map_some]
      unfold dispatch at taken
      by_cases hello : type = Spop.ftHaproxyHello
      · rw [if_pos hello] at taken
        split at taken
        · rw [Option.some.injEq, writen_spec] at taken
          subst taken
          dsimp only
          rw [leads, if_pos (congrArg some hello)]
          exact ⟨fun _ => rfl, rfl, rfl, rfl, rfl⟩
        · cases taken
      · rw [if_neg hello] at taken
        have other : ¬ some type = some Spop.ftHaproxyHello := by simpa using hello
        rw [if_neg other]
        split at taken
        · cases taken
          exact ⟨fun _ => rfl, rfl, rfl, rfl, rfl⟩
        · split at taken
          · cases taken
            refine ⟨?_, rfl, rfl, rfl, rfl⟩
            intro c'
            rw [lockOf_setConn]
            split
            · rename_i same
              rw [same, ← lockOf_eq live]
            · rfl
          · cases taken
            exact ⟨fun _ => rfl, rfl, rfl, rfl, rfl⟩
    · cases taken
  · cases taken

theorem take_spec (taken : s.take w = some t) : w ∉ s.unlocking.map Prod.fst ∧
    ∃ pool, s.pool.take qn w = some pool ∧ t = { s with pool := pool } := by
  unfold take at taken
  split at taken
  · cases taken
  · rename_i free
    obtain ⟨pool, took, ends⟩ := Option.map_eq_some_iff.mp taken
    exact ⟨free, pool, took, ends.symm⟩

theorem take_locked (locked : Locked s) (taken : s.take w = some t) : Locked t := by
  obtain ⟨free, pool, took, rfl⟩ := take_spec taken
  have idle : s.pool.held w = none :=
    WorkPool.Pool.held_eq_none.mpr (WorkPool.Pool.take_spec took).1
  refine ⟨WorkPool.Pool.take_single locked.single took, locked.once, ?_, ?_⟩
  · intro w' c member
    have other : w' ≠ w := by
      rintro rfl
      exact free (List.mem_map_of_mem member)
    show pool.held w' = none ∧ s.lockOf c = some w'
    rw [WorkPool.Pool.take_held took, if_neg other]
    exact locked.written w' c member
  · intro c w' own
    have other : w' ≠ w := by
      rintro rfl
      exact locked.lockless idle free own
    show (∃ j, pool.held w' = some j ∧ j.c = c) ∨ (w', c) ∈ s.unlocking
    rw [WorkPool.Pool.take_held took, if_neg other]
    exact locked.owned c w' own

theorem lock_spec (taken : s.lock w = some t) : ∃ j k, s.pool.held w = some j ∧
    s.conns j.c = some k ∧ k.wlk = none ∧ t = s.setConn j.c { k with wlk := some w } := by
  obtain ⟨j, held, rest⟩ := Option.bind_eq_some_iff.mp taken
  obtain ⟨k, live, rest⟩ := Option.bind_eq_some_iff.mp rest
  split at rest
  · rename_i free
    exact ⟨j, k, held, live, free, (Option.some.inj rest).symm⟩
  · cases rest

theorem lock_locked (locked : Locked s) (taken : s.lock w = some t) : Locked t := by
  obtain ⟨j, k, held, live, free, rfl⟩ := lock_spec taken
  refine ⟨locked.single, locked.once, ?_, ?_⟩
  · intro w' c member
    obtain ⟨idle, own⟩ := locked.written w' c member
    refine ⟨idle, ?_⟩
    rw [lockOf_setConn, if_neg, own]
    rintro rfl
    rw [lockOf_eq live, free] at own
    cases own
  · intro c w' own
    rw [lockOf_setConn] at own
    split at own
    · rename_i same
      cases own
      exact Or.inl ⟨j, held, same.symm⟩
    · exact locked.owned c w' own

/-- An ACK goes to the connection of its job. -/
theorem write_spec (wired : Wired s) (open_ : Open s) (taken : s.write w = some t) :
    ∃ j, s.pool.held w = some j ∧ s.lockOf j.c = some w ∧ (∀ c, t.lockOf c = s.lockOf c) ∧
      t.pool = s.pool.finish w j ∧ t.unlocking = (w, j.c) :: s.unlocking ∧
      t.received = s.received ∧
      t.sent = (j.c, Spop.frame (Spop.ackPayload j.sid j.fid)) :: s.sent := by
  obtain ⟨j, held, rest⟩ := Option.bind_eq_some_iff.mp taken
  obtain ⟨k, live, rest⟩ := Option.bind_eq_some_iff.mp rest
  split at rest
  · rename_i own
    rw [Option.some.injEq, writen_spec] at rest
    subst rest
    have leads : s.fds k.fd = some j.c := wired.open_ j.c k live (open_ j.c k live)
    dsimp only
    rw [leads]
    exact ⟨j, held, (lockOf_eq live).trans own, fun _ => rfl, rfl, rfl, rfl, rfl⟩
  · cases rest

theorem write_locked (wired : Wired s) (open_ : Open s) (locked : Locked s)
    (taken : s.write w = some t) : Locked t := by
  obtain ⟨j, held, own, locks, pool, unlocking, _⟩ := write_spec wired open_ taken
  have busy : w ∉ s.unlocking.map Prod.fst := by
    intro member
    obtain ⟨⟨w', c⟩, inside, rfl⟩ := List.mem_map.mp member
    rw [(locked.written w' c inside).1] at held
    cases held
  have held' := WorkPool.Pool.finish_held locked.single held
  refine ⟨?_, ?_, ?_, ?_⟩
  · rw [pool]
    exact WorkPool.Pool.finish_single locked.single
  · rw [unlocking]
    exact List.nodup_cons.mpr ⟨fun member => busy (List.mem_map_of_mem member), locked.once⟩
  · intro w' c member
    rw [unlocking] at member
    rw [pool, held', locks]
    rcases List.mem_cons.mp member with same | old
    · cases same
      exact ⟨if_pos rfl, own⟩
    · obtain ⟨idle, own'⟩ := locked.written w' c old
      refine ⟨?_, own'⟩
      rw [idle, ite_self]
  · intro c w' own'
    rw [locks] at own'
    rw [pool, held', unlocking]
    by_cases same : w' = w
    · subst same
      exact Or.inr (locked.job own' held ▸ List.mem_cons_self)
    · rw [if_neg same]
      exact (locked.owned c w' own').imp_right (List.mem_cons_of_mem _)

theorem unlock_spec (taken : s.unlock w = some t) : ∃ c k, (w, c) ∈ s.unlocking ∧
    s.conns c = some k ∧
    t = { s.setConn c { k with wlk := none } with unlocking := s.unlocking.erase (w, c) } := by
  obtain ⟨c, own, rest⟩ := Option.bind_eq_some_iff.mp taken
  obtain ⟨k, live, ends⟩ := Option.map_eq_some_iff.mp rest
  exact ⟨c, k, unlockingOf_mem own, live, ends.symm⟩

theorem unlock_locked (locked : Locked s) (taken : s.unlock w = some t) : Locked t := by
  obtain ⟨c, k, member, live, rfl⟩ := unlock_spec taken
  have own := (locked.written w c member).2
  have locks : ∀ c', (s.setConn c { k with wlk := none }).lockOf c' =
      if c' = c then none else s.lockOf c' := fun c' => lockOf_setConn c'
  refine ⟨locked.single, locked.once.erase _, ?_, ?_⟩
  · intro w' c' rest
    obtain ⟨other, old⟩ := (List.Nodup.mem_erase_iff locked.once).mp rest
    obtain ⟨idle, own'⟩ := locked.written w' c' old
    refine ⟨idle, ?_⟩
    have apart : c' ≠ c := by
      rintro rfl
      rw [own, Option.some.injEq] at own'
      exact other (by rw [own'])
    exact (locks c').trans ((if_neg apart).trans own')
  · intro c' w' own'
    have before : (if c' = c then none else s.lockOf c') = some w' := (locks c').symm.trans own'
    split at before
    · cases before
    · rename_i apart
      refine (locked.owned c' w' before).imp_right fun old => ?_
      apply (List.Nodup.mem_erase_iff locked.once).mpr
      refine ⟨?_, old⟩
      intro same
      exact apart (congrArg Prod.snd same)

theorem step_locked {nw : Nat} {a : SpoaAct} (wired : Wired s) (open_ : Open s)
    (locked : Locked s) (stays : ∀ c, a ≠ .close c) (taken : s.step nw a = some t) :
    Locked t := by
  cases a with
  | accept fd =>
    obtain ⟨pool, unlocking, _⟩ := accept_eq taken
    exact locked.same (congrArg _ pool) unlocking (accept_lockOf wired taken)
  | frame c payload =>
    obtain ⟨locks, running, unlocking, _⟩ := readFrame_spec wired taken
    exact locked.same running unlocking locks
  | leave c =>
    have locks := leave_lockOf taken
    obtain ⟨k, _, _, rfl⟩ := leave_spec taken
    exact locked.same rfl rfl locks
  | close c => exact absurd rfl (stays c)
  | free c =>
    obtain ⟨k, live, phase, _⟩ := free_spec taken
    exact absurd phase (open_ c k live)
  | take w =>
    rw [step] at taken
    split at taken
    · exact take_locked locked taken
    · cases taken
  | lock w => exact lock_locked locked taken
  | write w => exact write_locked wired open_ locked taken
  | unlock w => exact unlock_locked locked taken

/-- The payload of the ACK that the owner of a lock has to write. -/
def acking (s : Spoa) (c : Nat) : Option Bytes :=
  (s.lockOf c).bind fun w => (s.pool.held w).map fun j => Spop.ackPayload j.sid j.fid

theorem acking_same (running : t.pool.running = s.pool.running)
    (locks : ∀ c, t.lockOf c = s.lockOf c) (c : Nat) : t.acking c = s.acking c := by
  unfold acking WorkPool.Pool.held
  rw [running, locks]

theorem take_acking (locked : Locked s) (taken : s.take w = some t) (c : Nat) :
    t.acking c = s.acking c := by
  obtain ⟨free, pool, took, rfl⟩ := take_spec taken
  have idle : s.pool.held w = none :=
    WorkPool.Pool.held_eq_none.mpr (WorkPool.Pool.take_spec took).1
  show ((s.lockOf c).bind fun w => (pool.held w).map _) = _
  rw [acking]
  cases own : s.lockOf c with
  | none => rfl
  | some w' =>
    have other : w' ≠ w := by
      rintro rfl
      exact locked.lockless idle free own
    rw [Option.bind_some, Option.bind_some, WorkPool.Pool.take_held took, if_neg other]

/-- A worker with the lock has its ACK to write. -/
theorem lock_acking (taken : s.lock w = some t) : ∃ j, s.pool.held w = some j ∧
    s.lockOf j.c = none ∧ t.pool = s.pool ∧ t.received = s.received ∧ t.sent = s.sent ∧
    (∀ c, t.lockOf c = if c = j.c then some w else s.lockOf c) ∧
    ∀ c, t.acking c = if c = j.c then some (Spop.ackPayload j.sid j.fid) else s.acking c := by
  obtain ⟨j, k, held, live, free, rfl⟩ := lock_spec taken
  refine ⟨j, held, (lockOf_eq live).trans free, rfl, rfl, rfl, lockOf_setConn, ?_⟩
  intro c
  rw [acking, lockOf_setConn]
  split
  · show (s.pool.held w).map _ = _
    rw [held]
    rfl
  · rfl

/-- Behind the write it has none. -/
theorem write_acking (wired : Wired s) (open_ : Open s) (locked : Locked s)
    (taken : s.write w = some t) {j : SpoaJob} (held : s.pool.held w = some j) (c : Nat) :
    t.acking c = if c = j.c then none else s.acking c := by
  obtain ⟨j', held', own, locks, pool, _⟩ := write_spec wired open_ taken
  rw [held, Option.some.injEq] at held'
  subst held'
  rw [acking, acking, locks, pool]
  cases owner : s.lockOf c with
  | none => rw [Option.bind_none, Option.bind_none, ite_self]
  | some w' =>
    rw [Option.bind_some, Option.bind_some, WorkPool.Pool.finish_held locked.single held]
    by_cases same : w' = w
    · subst same
      rw [if_pos rfl, if_pos (locked.job owner held).symm]
      rfl
    · rw [if_neg same, if_neg]
      rintro rfl
      rw [own, Option.some.injEq] at owner
      exact same owner.symm

theorem unlock_acking (locked : Locked s) (taken : s.unlock w = some t) (c : Nat) :
    t.acking c = s.acking c ∧ (s.lockOf c = none → t.lockOf c = none) := by
  obtain ⟨c', k, member, live, rfl⟩ := unlock_spec taken
  obtain ⟨idle, own⟩ := locked.written w c' member
  have locks : (s.setConn c' { k with wlk := none }).lockOf c =
      if c = c' then none else s.lockOf c := lockOf_setConn c
  show ((s.setConn c' { k with wlk := none }).lockOf c).bind _ = _ ∧
    (_ → (s.setConn c' { k with wlk := none }).lockOf c = none)
  rw [locks, acking]
  split
  · rename_i same
    rw [same, own, Option.bind_none, Option.bind_some, idle]
    exact ⟨rfl, fun _ => rfl⟩
  · exact ⟨rfl, id⟩

end TransparentOffload.Spoa
