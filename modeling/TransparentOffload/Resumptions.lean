import TransparentOffload.Memcached

set_option autoImplicit false

/- One suspension, one resumption: as long as each `accelasync` is suspended before its
offload completes, its only readd finds it waiting and gives its only answer. -/
namespace TransparentOffload.Memcached

/-- The numbers of the jobs of a connection. -/
def numbersOf (c : Nat) (jobs : List AccelJob) : List Nat :=
  jobs.filterMap fun j => if j.c = c then some j.n else none

namespace Conn

/-- The command of a connection that is queued or at a worker. -/
def queued (k : Conn) : List Nat := if k.accelPending ∧ k.drive ≠ .enqueue then [k.begun] else []

/-- The command of a connection that is on its way back. -/
def back (k : Conn) : List Nat :=
  if k.drive = .out ∧ k.state = .accelWait ∧ k.accelPending = false then [k.begun] else []

/-- What the flag, the state and the event say of each other. -/
structure Shape (k : Conn) : Prop where
  flag : k.accelPending = true → k.InProgress
  asking : k.drive = .enqueue ∨ k.drive = .setState ∨ k.drive = .eventDel →
    k.accelPending = true
  silent : k.state = .accelWait → k.drive = .out ∨ k.drive = .loop ∧ k.accelPending = true →
    k.event = false
  parking : k.drive = .eventDel → k.state = .accelWait
  numbered : k.InProgress → 0 < k.begun

/-- Each command has one OK, save the one in progress. -/
def Answered (k : Conn) : Prop :=
  ∀ n, k.oks.count n =
    if 0 < n ∧ n ≤ k.begun ∧ ¬ (k.InProgress ∧ n = k.begun) then 1 else 0

end Conn

/-- Each connection's only job is where its flag and its thread say. -/
structure Paired (s : State) : Prop where
  ordered : s.pool.Ordered
  queued : ∀ c, (numbersOf c (s.pool.outstanding accelQn)).Perm (s.conns c).queued
  back : ∀ c, (numbersOf c s.resuming).Perm (s.conns c).back
  shape : ∀ c, (s.conns c).Shape
  answered : ∀ c, (s.conns c).Answered

variable {cfg : Config} {s t : State} {c w : Nat} {j : AccelJob} {jobs jobs' : List AccelJob}
  {k k' : Conn}

theorem numbersOf_perm (same : jobs'.Perm jobs) (c : Nat) :
    (numbersOf c jobs').Perm (numbersOf c jobs) := same.filterMap _

theorem numbersOf_cons (j : AccelJob) (jobs : List AccelJob) (c : Nat) :
    numbersOf c (j :: jobs) = if j.c = c then j.n :: numbersOf c jobs else numbersOf c jobs := by
  unfold numbersOf
  rw [List.filterMap_cons]
  by_cases mine : j.c = c
  · rw [if_pos mine, if_pos mine]
  · rw [if_neg mine, if_neg mine]

theorem mem_numbersOf {n : Nat} : n ∈ numbersOf c jobs ↔ ⟨c, n⟩ ∈ jobs := by
  unfold numbersOf
  rw [List.mem_filterMap]
  constructor
  · rintro ⟨j, member, number⟩
    split at number
    · rename_i mine
      rw [Option.some.injEq] at number
      have same : j = ⟨c, n⟩ := by
        obtain ⟨c', n'⟩ := j
        rw [AccelJob.mk.injEq]
        exact ⟨mine, number⟩
      exact same ▸ member
    · cases number
  · intro member
    exact ⟨⟨c, n⟩, member, if_pos rfl⟩

/-- A queued job is that of its connection's latest command. -/
theorem Paired.of_queued (paired : Paired s) (member : j ∈ s.pool.outstanding accelQn) :
    (s.conns j.c).accelPending = true ∧ (s.conns j.c).drive ≠ .enqueue ∧
      (s.conns j.c).begun = j.n := by
  have number := (paired.queued j.c).subset (mem_numbersOf.mpr member)
  unfold Conn.queued at number
  split at number
  · rename_i able
    exact ⟨able.1, able.2, (List.mem_singleton.mp number).symm⟩
  · cases number

/-- So is one on its way back, and the connection waits for it. -/
theorem Paired.of_back (paired : Paired s) (member : j ∈ s.resuming) :
    (s.conns j.c).drive = .out ∧ (s.conns j.c).state = .accelWait ∧
      (s.conns j.c).accelPending = false ∧ (s.conns j.c).begun = j.n := by
  have number := (paired.back j.c).subset (mem_numbersOf.mpr member)
  unfold Conn.back at number
  split at number
  · rename_i able
    exact ⟨able.1, able.2.1, able.2.2, (List.mem_singleton.mp number).symm⟩
  · cases number

theorem init_paired : Paired .init := by
  refine ⟨WorkPool.Pool.idle_ordered, ?_, ?_, ?_, ?_⟩
  · exact fun _ => List.Perm.refl []
  · exact fun _ => List.Perm.refl []
  · intro c
    refine ⟨nofun, ?_, nofun, nofun, ?_⟩
    · rintro (asking | asking | asking) <;> cases asking
    · rintro (asking | asking | asking | asking) <;> cases asking
  · intro c n
    rw [if_neg]
    · rfl
    · rintro ⟨positive, below, _⟩
      change n ≤ 0 at below
      omega

/-- A step of one connection, with what it does to the jobs of each. -/
theorem Paired.moved (paired : Paired s) (conns : t.conns = Function.update s.conns c k')
    (ordered : t.pool.Ordered)
    (queued : (numbersOf c (t.pool.outstanding accelQn)).Perm k'.queued)
    (back : (numbersOf c t.resuming).Perm k'.back)
    (others : ∀ c', c' ≠ c →
      (numbersOf c' (t.pool.outstanding accelQn)).Perm
        (numbersOf c' (s.pool.outstanding accelQn)) ∧
      (numbersOf c' t.resuming).Perm (numbersOf c' s.resuming))
    (shape : k'.Shape) (answered : k'.Answered) : Paired t := by
  have here : t.conns c = k' := by rw [conns, Function.update_self]
  have other : ∀ c', c' ≠ c → t.conns c' = s.conns c' := by
    intro c' apart
    rw [conns, Function.update_of_ne apart]
  refine ⟨ordered, ?_, ?_, ?_, ?_⟩ <;> intro c' <;> by_cases mine : c' = c
  · rw [mine, here]
    exact queued
  · rw [other c' mine]
    exact (others c' mine).1.trans (paired.queued c')
  · rw [mine, here]
    exact back
  · rw [other c' mine]
    exact (others c' mine).2.trans (paired.back c')
  · rw [mine, here]
    exact shape
  · rw [other c' mine]
    exact paired.shape c'
  · rw [mine, here]
    exact answered
  · rw [other c' mine]
    exact paired.answered c'

/-- A step of one connection's thread that leaves its job where it is. -/
theorem Paired.driven (paired : Paired s) (queued : k'.queued = (s.conns c).queued)
    (back : k'.back = (s.conns c).back) (shape : k'.Shape) (answered : k'.Answered) :
    Paired (s.setConn c k') := by
  refine paired.moved rfl paired.ordered ?_ ?_ (fun _ _ => ⟨List.Perm.rfl, List.Perm.rfl⟩)
    shape answered
  · rw [queued]
    exact paired.queued c
  · rw [back]
    exact paired.back c

theorem Conn.not_inProgress (drive : k.drive = .out ∨ k.drive = .loop)
    (state : k.state ≠ .accelWait) : ¬ k.InProgress := by
  rintro (there | there | there | there)
  all_goals rcases drive with at_ | at_
  all_goals first
    | exact state there
    | (rw [at_] at there; cases there)

/-- Outside of its `accelasync` commands a connection has no flag. -/
theorem Conn.Shape.idle (shape : k.Shape) (drive : k.drive = .out ∨ k.drive = .loop)
    (state : k.state ≠ .accelWait) : k.accelPending = false := by
  by_contra set
  rw [Bool.not_eq_false] at set
  exact Conn.not_inProgress drive state (shape.flag set)

theorem Conn.Shape.of_idle (clear : k.accelPending = false)
    (drive : k.drive = .out ∨ k.drive = .loop) (state : k.state ≠ .accelWait) : k.Shape := by
  refine ⟨?_, ?_, fun there => absurd there state, ?_,
    fun progress => absurd progress (Conn.not_inProgress drive state)⟩
  · rw [clear]
    nofun
  · rintro (asking | asking | asking)
    all_goals rcases drive with at_ | at_
    all_goals rw [at_] at asking; cases asking
  · intro parking
    rcases drive with at_ | at_
    all_goals rw [at_] at parking; cases parking

theorem Conn.Shape.of_inside (flag : k.accelPending = true)
    (inside : k.drive = .enqueue ∨ k.drive = .setState ∨
      k.drive = .eventDel ∧ k.state = .accelWait) (numbered : 0 < k.begun) : k.Shape := by
  refine ⟨fun _ => ?_, fun _ => flag, ?_, ?_, fun _ => numbered⟩
  · rcases inside with at_ | at_ | ⟨at_, _⟩
    · exact Or.inl at_
    · exact Or.inr (Or.inl at_)
    · exact Or.inr (Or.inr (Or.inl at_))
  · rintro _ (out | ⟨loop, _⟩)
    all_goals rcases inside with at_ | at_ | ⟨at_, _⟩
    all_goals first
      | (rw [at_] at out; cases out)
      | (rw [at_] at loop; cases loop)
  · intro parking
    rcases inside with at_ | at_ | ⟨_, state⟩
    · rw [at_] at parking
      cases parking
    · rw [at_] at parking
      cases parking
    · exact state

theorem Conn.queued_of_clear (clear : k.accelPending = false) : k.queued = [] := by
  unfold Conn.queued
  rw [if_neg (by rw [clear]; nofun)]

theorem Conn.queued_of_flag (flag : k.accelPending = true) (drive : k.drive ≠ .enqueue) :
    k.queued = [k.begun] := by
  unfold Conn.queued
  rw [if_pos ⟨flag, drive⟩]

theorem Conn.queued_kept (flag : k'.accelPending = k.accelPending) (begun : k'.begun = k.begun)
    (drive' : k'.drive ≠ .enqueue) (drive : k.drive ≠ .enqueue) : k'.queued = k.queued := by
  simp [Conn.queued, flag, begun, drive', drive]

theorem Conn.back_of_inside (inside : k.drive ≠ .out) : k.back = [] := by
  unfold Conn.back
  rw [if_neg fun all => inside all.1]

theorem Conn.back_of_state (state : k.state ≠ .accelWait) : k.back = [] := by
  unfold Conn.back
  rw [if_neg fun all => state all.2.1]

/-- Answers are not touched while the same command stays in progress or none is. -/
theorem Conn.Answered.kept (answered : k.Answered) (oks : k'.oks = k.oks)
    (begun : k'.begun = k.begun) (same : k'.InProgress ↔ k.InProgress) : k'.Answered := by
  intro n
  rw [oks, begun, answered n]
  simp only [same]

theorem event_paired (paired : Paired s) (taken : s.event c = some t) : Paired t := by
  unfold State.event at taken
  dsimp only at taken
  split at taken
  · rename_i able
    obtain ⟨drive, event⟩ := able
    rw [Option.some.injEq] at taken
    subst taken
    have state : (s.conns c).state ≠ .accelWait := by
      intro waits
      rw [(paired.shape c).silent waits (Or.inl drive)] at event
      cases event
    have clear := (paired.shape c).idle (Or.inl drive) state
    refine paired.driven ?_ ?_ (.of_idle clear (Or.inr rfl) state) ?_
    · rw [Conn.queued_of_clear clear]
      exact Conn.queued_of_clear clear
    · rw [Conn.back_of_state state]
      exact Conn.back_of_state state
    · refine Conn.Answered.kept (paired.answered c) rfl rfl ?_
      exact iff_of_false (Conn.not_inProgress (Or.inr rfl) state)
        (Conn.not_inProgress (Or.inl drive) state)
  · cases taken

theorem own_paired {next : ConnState} {event stop : Bool} (paired : Paired s)
    (taken : s.own c next event stop = some t) : Paired t := by
  unfold State.own at taken
  dsimp only at taken
  split at taken
  · rename_i able
    obtain ⟨drive, state, leaves⟩ := able
    rw [Option.some.injEq] at taken
    subst taken
    have clear := (paired.shape c).idle (Or.inr drive) state
    have outside : (if stop = true then Drive.out else Drive.loop) = .out ∨
        (if stop = true then Drive.out else Drive.loop) = .loop := by
      cases stop
      · exact Or.inr rfl
      · exact Or.inl rfl
    refine paired.driven ?_ ?_ (.of_idle clear outside leaves) ?_
    · rw [Conn.queued_of_clear clear]
      exact Conn.queued_of_clear clear
    · rw [Conn.back_of_state state]
      exact Conn.back_of_state leaves
    · refine Conn.Answered.kept (paired.answered c) rfl rfl ?_
      exact iff_of_false (Conn.not_inProgress outside leaves)
        (Conn.not_inProgress (Or.inr drive) state)
  · cases taken

theorem accelAsync_paired (paired : Paired s) (taken : s.accelAsync c = some t) : Paired t := by
  unfold State.accelAsync at taken
  dsimp only at taken
  split at taken
  · rename_i able
    obtain ⟨drive, state⟩ := able
    rw [Option.some.injEq] at taken
    subst taken
    have clear := (paired.shape c).idle (Or.inr drive) state
    have not := Conn.not_inProgress (Or.inr drive) state
    refine paired.driven ?_ ?_ ?_ ?_
    · rw [Conn.queued_of_clear clear]
      exact if_neg fun all => all.2 rfl
    · rw [Conn.back_of_state state]
      exact Conn.back_of_state state
    · exact .of_inside rfl (Or.inl rfl) (Nat.succ_pos _)
    · -- the new command has no answer, and the one before it keeps its own
      intro n
      have before := paired.answered c n
      have progress : ({ s.conns c with
          accelPending := true, drive := .enqueue, begun := (s.conns c).begun + 1 } :
          Conn).InProgress := Or.inl rfl
      dsimp only at progress ⊢
      rw [before]
      simp only [not, progress, false_and, not_false_eq_true, and_true, true_and]
      congr 1
      apply propext
      omega
  · cases taken

theorem enqueue_paired (paired : Paired s) (drive : (s.conns c).drive = .enqueue)
    (fits : s.pool.q.Fits accelQn ⟨c, (s.conns c).begun⟩) :
    Paired { s.setConn c { s.conns c with drive := .setState } with
      pool := s.pool.submit accelQn ⟨c, (s.conns c).begun⟩ } := by
  have flag := (paired.shape c).asking (Or.inl drive)
  have queued := paired.queued c
  have back := paired.back c
  have more := WorkPool.Pool.submit_outstanding paired.ordered fits
  rw [Conn.back_of_inside (by rw [drive]; nofun)] at back
  refine paired.moved rfl (WorkPool.Pool.submit_ordered paired.ordered) ?_ ?_ ?_ ?_ ?_
  · refine (numbersOf_perm more c).trans ?_
    rw [numbersOf_cons, if_pos rfl]
    unfold Conn.queued at queued
    rw [if_neg fun all => all.2 drive] at queued
    refine List.Perm.trans (queued.cons _) ?_
    rw [Conn.queued_of_flag (k := { s.conns c with drive := .setState }) flag (by simp)]
  · refine back.trans ?_
    rw [Conn.back_of_inside (k := { s.conns c with drive := .setState }) (by simp)]
  · intro c' apart
    refine ⟨?_, List.Perm.rfl⟩
    refine (numbersOf_perm more c').trans ?_
    rw [numbersOf_cons, if_neg (Ne.symm apart)]
  · exact .of_inside flag (Or.inr (Or.inl rfl)) ((paired.shape c).numbered (Or.inl drive))
  · exact Conn.Answered.kept (paired.answered c) rfl rfl
      (iff_of_true (Or.inr (Or.inl rfl)) (Or.inl drive))

theorem accelAsyncNext_paired (paired : Paired s)
    (fits : s.SuspendedFirst (.accelAsyncNext c)) (taken : s.accelAsyncNext c = some t) :
    Paired t := by
  unfold State.accelAsyncNext at taken
  dsimp only at taken
  split at taken
  · rename_i drive
    rw [Option.some.injEq] at taken
    exact taken ▸ enqueue_paired paired drive (fits drive)
  · rename_i drive
    rw [Option.some.injEq] at taken
    subst taken
    have flag := (paired.shape c).asking (Or.inr (Or.inl drive))
    refine paired.driven ?_ ?_ ?_ ?_
    · exact Conn.queued_kept rfl rfl (by simp) (by simp [drive])
    · exact (Conn.back_of_inside (by simp)).trans (Conn.back_of_inside (by simp [drive])).symm
    · exact .of_inside flag (Or.inr (Or.inr ⟨rfl, rfl⟩))
        ((paired.shape c).numbered (Or.inr (Or.inl drive)))
    · exact Conn.Answered.kept (paired.answered c) rfl rfl
        (iff_of_true (Or.inr (Or.inr (Or.inl rfl))) (Or.inr (Or.inl drive)))
  · rename_i drive
    rw [Option.some.injEq] at taken
    subst taken
    have flag := (paired.shape c).asking (Or.inr (Or.inr drive))
    have state := (paired.shape c).parking drive
    refine paired.driven ?_ ?_ ?_ ?_
    · exact Conn.queued_kept rfl rfl (by simp) (by simp [drive])
    · exact (Conn.back_of_inside (by simp)).trans (Conn.back_of_inside (by simp [drive])).symm
    · refine ⟨fun _ => Or.inr (Or.inr (Or.inr state)), fun _ => flag, fun _ _ => rfl, ?_,
        fun _ => (paired.shape c).numbered (Or.inr (Or.inr (Or.inr state)))⟩
      intro parking
      cases parking
    · exact Conn.Answered.kept (paired.answered c) rfl rfl
        (iff_of_true (Or.inr (Or.inr (Or.inr state))) (Or.inr (Or.inr (Or.inl drive))))
  · cases taken

theorem accelWait_paired (paired : Paired s) (taken : s.accelWait c = some t) : Paired t := by
  unfold State.accelWait at taken
  dsimp only at taken
  split at taken
  · rename_i able
    obtain ⟨drive, state⟩ := able
    have waits : (s.conns c).InProgress := Or.inr (Or.inr (Or.inr state))
    split at taken
    · rename_i flag
      rw [Option.some.injEq] at taken
      subst taken
      have event := (paired.shape c).silent state (Or.inr ⟨drive, flag⟩)
      refine paired.driven ?_ ?_ ?_ ?_
      · exact Conn.queued_kept rfl rfl (by simp) (by simp [drive])
      · refine Eq.trans ?_ (Conn.back_of_inside (by simp [drive])).symm
        unfold Conn.back
        rw [if_neg]
        intro all
        exact Bool.noConfusion (flag.symm.trans all.2.2)
      · refine ⟨fun _ => Or.inr (Or.inr (Or.inr state)), fun _ => flag, fun _ _ => event, ?_,
          fun _ => (paired.shape c).numbered waits⟩
        intro parking
        cases parking
      · exact Conn.Answered.kept (paired.answered c) rfl rfl
          (iff_of_true (Or.inr (Or.inr (Or.inr state))) waits)
    · rename_i clear
      rw [Bool.not_eq_true] at clear
      rw [Option.some.injEq] at taken
      subst taken
      have done : ¬ ({ s.conns c with
          state := .newCmd, oks := (s.conns c).begun :: (s.conns c).oks } : Conn).InProgress :=
        Conn.not_inProgress (Or.inr drive) (by simp)
      refine paired.driven ?_ ?_ (.of_idle clear (Or.inr drive) (by simp)) ?_
      · exact Conn.queued_kept rfl rfl (by simp [drive]) (by simp [drive])
      · exact (Conn.back_of_inside (by simp [drive])).trans
          (Conn.back_of_inside (by simp [drive])).symm
      · -- the command in progress gets its one answer
        intro n
        have before := paired.answered c n
        have positive := (paired.shape c).numbered waits
        dsimp only at done ⊢
        rw [List.count_cons, before]
        simp only [waits, done, false_and, not_false_eq_true, and_true, true_and, beq_iff_eq]
        split <;> split <;> split <;> omega
  · cases taken

/-- A step that only moves jobs along, each on its side. -/
theorem Paired.passed (paired : Paired s) (conns : t.conns = s.conns) (ordered : t.pool.Ordered)
    (queued : (t.pool.outstanding accelQn).Perm (s.pool.outstanding accelQn))
    (back : t.resuming.Perm s.resuming) : Paired t := by
  refine ⟨ordered, ?_, ?_, ?_, ?_⟩ <;> intro c <;> rw [conns]
  · exact (numbersOf_perm queued c).trans (paired.queued c)
  · exact (numbersOf_perm back c).trans (paired.back c)
  · exact paired.shape c
  · exact paired.answered c

theorem take_paired (paired : Paired s) (taken : s.take w = some t) : Paired t := by
  unfold State.take at taken
  split at taken
  · cases taken
  · obtain ⟨pool, took, rfl⟩ := Option.map_eq_some_iff.mp taken
    exact paired.passed rfl (WorkPool.Pool.take_ordered paired.ordered took)
      (WorkPool.Pool.take_outstanding paired.ordered took) List.Perm.rfl

/-- A worker is done with the job of a connection that is suspended. -/
theorem clear_paired (paired : Paired s) (suspended : s.SuspendedFirst (.clear w))
    (taken : s.clear w = some t) : Paired t := by
  obtain ⟨j, held, rfl⟩ := Option.map_eq_some_iff.mp taken
  have out : (s.conns j.c).drive = .out := suspended j held
  obtain ⟨flag, drive, number⟩ :=
    paired.of_queued (WorkPool.Pool.mem_outstanding_of_held held)
  have shape := paired.shape j.c
  have state : (s.conns j.c).state = .accelWait := by
    by_contra other
    exact Conn.not_inProgress (Or.inl out) other (shape.flag flag)
  have waits : (s.conns j.c).InProgress := Or.inr (Or.inr (Or.inr state))
  have apart : (s.pool.outstanding accelQn).Perm
      (j :: (s.pool.finish w j).outstanding accelQn) :=
    WorkPool.Pool.finish_outstanding (WorkPool.Pool.held_mem held)
  refine paired.moved rfl (WorkPool.Pool.finish_ordered paired.ordered) ?_ ?_ ?_ ?_ ?_
  · have queued := (numbersOf_perm apart j.c).symm.trans (paired.queued j.c)
    rw [numbersOf_cons, if_pos rfl, Conn.queued_of_flag flag drive, number] at queued
    refine List.Perm.trans queued.cons_inv ?_
    rw [Conn.queued_of_clear (k := { s.conns j.c with accelPending := false }) rfl]
  · have back := paired.back j.c
    have none : (s.conns j.c).back = [] :=
      if_neg fun all => Bool.noConfusion (flag.symm.trans all.2.2)
    have one : ({ s.conns j.c with accelPending := false } : Conn).back = [j.n] :=
      (if_pos ⟨out, state, rfl⟩).trans (by rw [number])
    rw [none] at back
    rw [one]
    refine (List.Perm.refl (numbersOf j.c (j :: s.resuming))).trans ?_
    rw [numbersOf_cons, if_pos rfl]
    exact back.cons j.n
  · intro c' other
    constructor
    · have same := numbersOf_perm apart c'
      rw [numbersOf_cons, if_neg (Ne.symm other)] at same
      exact same.symm
    · refine (List.Perm.refl (numbersOf c' (j :: s.resuming))).trans ?_
      rw [numbersOf_cons, if_neg (Ne.symm other)]
  · refine ⟨fun _ => Or.inr (Or.inr (Or.inr state)), ?_, fun _ _ => shape.silent state (Or.inl out),
      fun _ => state, fun _ => shape.numbered waits⟩
    rintro (asking | asking | asking) <;> exact Drive.noConfusion (out.symm.trans asking)
  · exact Conn.Answered.kept (paired.answered j.c) rfl rfl
      (iff_of_true (Or.inr (Or.inr (Or.inr state))) waits)

theorem redispatch_paired (paired : Paired s) (taken : s.redispatch w = some t) : Paired t := by
  obtain ⟨j, found, rfl⟩ := Option.map_eq_some_iff.mp taken
  obtain ⟨own, first, rfl⟩ := Option.map_eq_some_iff.mp found
  have same : own.1 = w := by simpa using List.find?_some first
  have member : (w, own.2) ∈ s.cleared := by
    rw [← same]
    exact List.mem_of_find?_eq_some first
  refine paired.passed rfl paired.ordered List.Perm.rfl ?_
  have moved := (List.perm_cons_erase member).map Prod.snd
  refine List.Perm.trans (List.perm_middle) ?_
  exact (moved.append_right s.redispatched).symm

/-- The one readd of a command finds its connection waiting for it. -/
theorem readd_matches (paired : Paired s) (taken : s.connWorkerReadd cfg j = some t) :
    s.ReaddMatches (.readd j) ∧ Paired t := by
  unfold State.connWorkerReadd at taken
  dsimp only at taken
  split at taken
  · rename_i able
    obtain ⟨member, _⟩ := able
    obtain ⟨out, state, clear, number⟩ :=
      paired.of_back (List.mem_append_right (s.cleared.map Prod.snd) member)
    rw [state] at taken
    dsimp only at taken
    rw [Option.some.injEq] at taken
    subst taken
    have shape := paired.shape j.c
    have waits : (s.conns j.c).InProgress := Or.inr (Or.inr (Or.inr state))
    have apart : s.resuming.Perm (j :: (s.cleared.map Prod.snd ++ s.redispatched.erase j)) :=
      ((List.perm_cons_erase member).append_left _).trans List.perm_middle
    refine ⟨⟨state, number⟩, ?_⟩
    refine paired.moved rfl paired.ordered ?_ ?_ ?_ ?_ ?_
    · have queued := paired.queued j.c
      rw [Conn.queued_of_clear clear] at queued
      exact queued.trans (by rw [Conn.queued_of_clear]; exact clear)
    · have back := (numbersOf_perm apart j.c).symm.trans (paired.back j.c)
      have one : (s.conns j.c).back = [j.n] := (if_pos ⟨out, state, clear⟩).trans (by rw [number])
      rw [numbersOf_cons, if_pos rfl, one] at back
      refine List.Perm.trans back.cons_inv ?_
      rw [Conn.back_of_inside]
      simp
    · intro c' other
      refine ⟨List.Perm.rfl, ?_⟩
      have same := numbersOf_perm apart c'
      rw [numbersOf_cons, if_neg (Ne.symm other)] at same
      exact same.symm
    · refine ⟨fun _ => Or.inr (Or.inr (Or.inr rfl)), ?_, ?_, fun _ => rfl,
        fun _ => shape.numbered waits⟩
      · rintro (asking | asking | asking) <;> cases asking
      · rintro _ (there | ⟨_, flag⟩)
        · cases there
        · exact Bool.noConfusion (clear.symm.trans flag)
    · exact Conn.Answered.kept (paired.answered j.c) rfl rfl
        (iff_of_true (Or.inr (Or.inr (Or.inr rfl))) waits)
  · cases taken

theorem step_paired {a : McAct} (paired : Paired s) (suspended : s.SuspendedFirst a)
    (taken : step cfg s a = some t) : Paired t := by
  cases a with
  | event c => exact event_paired paired taken
  | own c next event stop => exact own_paired paired taken
  | accelAsync c => exact accelAsync_paired paired taken
  | accelAsyncNext c => exact accelAsyncNext_paired paired suspended taken
  | accelWait c => exact accelWait_paired paired taken
  | take w =>
    rw [step] at taken
    split at taken
    · exact take_paired paired taken
    · cases taken
  | clear w => exact clear_paired paired suspended taken
  | redispatch w => exact redispatch_paired paired taken
  | readd j => exact (readd_matches paired taken).2

theorem Paired.oneOk (paired : Paired s) : s.OneOk := by
  intro c
  refine ⟨paired.answered c, ?_⟩
  intro waits
  by_cases asked : (s.conns c).drive = .enqueue
  · exact Or.inl asked
  by_cases flag : (s.conns c).accelPending = true
  · have queued := paired.queued c
    rw [Conn.queued_of_flag flag asked] at queued
    exact Or.inr (Or.inl (mem_numbersOf.mp (queued.symm.subset List.mem_cons_self)))
  · have clear := Bool.eq_false_of_not_eq_true flag
    have inside : (s.conns c).drive = .out ∨ (s.conns c).drive = .loop := by
      cases drive : (s.conns c).drive with
      | out => exact Or.inl rfl
      | loop => exact Or.inr rfl
      | enqueue => exact absurd drive asked
      | setState => exact absurd ((paired.shape c).asking (Or.inr (Or.inl drive))) flag
      | eventDel => exact absurd ((paired.shape c).asking (Or.inr (Or.inr drive))) flag
    have state : (s.conns c).state = .accelWait := by
      by_contra other
      exact Conn.not_inProgress inside other waits
    rcases inside with out | loop
    · have back := paired.back c
      have one : (s.conns c).back = [(s.conns c).begun] := if_pos ⟨out, state, clear⟩
      rw [one] at back
      exact Or.inr (Or.inr (Or.inl (mem_numbersOf.mp (back.symm.subset List.mem_cons_self))))
    · exact Or.inr (Or.inr (Or.inr ⟨loop, state, clear⟩))

/-- In every run in which each connection is suspended before its offload is reported
done, and the ring has room, every `accelasync` has its one OK, and every readd of a
worker finds its connection waiting for the command it was caused by. -/
theorem one_resumption (cfg : Config) (acts : List McAct)
    (suspended : Machine.Guarded (step cfg) State.SuspendedFirst .init acts) :
    Machine.Always (step cfg) State.OneOk .init acts ∧
      Machine.Guarded (step cfg) (fun s a => ∀ t, step cfg s a = some t → s.ReaddMatches a)
        .init acts := by
  have all : Machine.Always (step cfg) Paired .init acts :=
    Machine.always_of_invariant
      (fun _ _ _ paired suspended taken => step_paired paired suspended taken) init_paired suspended
  refine ⟨all.mono fun s paired => paired.oneOk, ?_⟩
  apply all.guards
  intro s a paired t taken
  cases a with
  | readd j => exact (readd_matches paired taken).1
  | _ => trivial

def twoWorkers : Config := ⟨2, fun _ => false⟩

/-- `process_accel_async`, to its end. -/
def accelAsyncCall (c : Nat) : List McAct := .accelAsync c :: List.replicate 3 (.accelAsyncNext c)

/-- Two pipelined commands, each suspended before its offload is done. -/
def pipelined : List McAct :=
  .event 0 :: accelAsyncCall 0 ++
    [.accelWait 0, .take 0, .clear 0, .redispatch 0, .readd ⟨0, 1⟩, .accelWait 0] ++
    accelAsyncCall 0 ++
    [.take 1, .accelWait 0, .clear 1, .redispatch 1, .readd ⟨0, 2⟩, .accelWait 0]

theorem pipelined_answered : ∃ s, Machine.run (step twoWorkers) .init pipelined = some s ∧
    (s.conns 0).oks = [2, 1] ∧ Machine.Always (step twoWorkers) State.OneOk .init pipelined ∧
    Machine.Guarded (step twoWorkers)
      (fun s a => ∀ t, step twoWorkers s a = some t → s.ReaddMatches a) .init pipelined :=
  ⟨_, rfl, rfl, one_resumption twoWorkers pipelined (by decide +kernel)⟩

/-- The offload is done before `conn_set_state`; the thread answers at once and stops in
the next command, a `set` whose value has not arrived, in the state 7. -/
def earlyCompletion : List McAct :=
  [.event 0, .accelAsync 0, .accelAsyncNext 0, .take 0, .clear 0, .redispatch 0,
    .accelAsyncNext 0, .accelAsyncNext 0, .accelWait 0, .own 0 (.other 7) true true]

/-- The readd of the first command resets the connection in the middle of the second. -/
theorem earlyCompletion_resets : ∃ s t,
    Machine.run (step twoWorkers) .init earlyCompletion = some s ∧
    (s.conns 0).state = .other 7 ∧ (s.conns 0).oks = [1] ∧
    step twoWorkers s (.readd ⟨0, 1⟩) = some t ∧ (t.conns 0).state = .newCmd ∧
    ¬ Machine.Guarded (step twoWorkers)
      (fun s a => ∀ t, step twoWorkers s a = some t → s.ReaddMatches a) .init
      (earlyCompletion ++ [.readd ⟨0, 1⟩]) := by
  refine ⟨_, _, rfl, rfl, rfl, rfl, rfl, ?_⟩
  intro guarded
  have found := ((Machine.Guarded.append rfl).mp guarded).2.1 _ rfl
  cases found.1

end TransparentOffload.Memcached
