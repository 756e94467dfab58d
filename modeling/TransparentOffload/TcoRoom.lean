import TransparentOffload.TcoServer

set_option autoImplicit false

/- The table of the coroutine server along its runs. An entry is given once: `nconns` is
the number of the next entry and never goes back, so the table is full after `MAXCONN`
connections, however many of them are gone. -/
namespace TransparentOffload.Tco.Coro

variable {stateful : Bool}

/-- The connections that are not closed. -/
def live (s : Server) : Nat := (List.range s.nconns).countP fun i => (s.conns i).isSome

/-- Live connections have entries, slots and sockets of their own. -/
def Distinct (s : Server) : Prop :=
  ∀ i j c d, s.conns i = some c → s.conns j = some d → i ≠ j →
    c.idx ≠ d.idx ∧ c.idx < maxConn ∧ d.idx < maxConn ∧ c.fd ≠ d.fd

/-- What the server owes at a step: with room left, a new connection gets an entry with a
fiber at the start of `serve`; and no connection loses its entry before its handler has
left its loop. -/
def Welcomes (s t : Server) (a : TcoAct) : Prop :=
  (∀ fd, a = .accept fd → live s < maxConn →
    ∃ i, s.conns i = none ∧ t.conns i = some ⟨fd, i, .runnable, .empty, 0, .reading []⟩) ∧
  ∀ i c, s.conns i = some c → t.conns i = none → c.state = .dead

/-- The server keeps accepting while it has room, at every step of a run. -/
def KeepsAccepting (stateful : Bool) (acts : List TcoAct) : Prop :=
  Machine.Always (step stateful) Distinct .init acts ∧
    ∀ front a, front ++ [a] <+: acts →
      ∀ s t, Machine.run (step stateful) .init front = some s → step stateful s a = some t →
        Welcomes s t a

def isAccept : TcoAct → Bool
  | .accept _ => true
  | _ => false

/-- No connection comes after the first `MAXCONN` unless these are all still there. -/
def FirstOnes (stateful : Bool) (acts : List TcoAct) : Prop :=
  ∀ front fd, front ++ [.accept fd] <+: acts →
    ∀ s t, Machine.run (step stateful) .init front = some s →
      step stateful s (.accept fd) = some t →
      front.countP isAccept < maxConn ∨ live s = maxConn

/-- The table of a server: entry `i` holds the connection number `i`, whose registration
wakes it. -/
structure Tabled (s : Server) : Prop where
  within : s.nconns ≤ maxConn
  entry : ∀ i c, s.conns i = some c →
    i < s.nconns ∧ c.idx = i ∧ (s.epoll c.fd).map Reg.ptr = some i

/-- What stays with a connection. -/
def Conn.key (c : Conn) : Fd × Nat := (c.fd, c.idx)

/-- A step that leaves the table as it is. -/
structure Kept (s t : Server) : Prop where
  table : ∀ i, (t.conns i).map Conn.key = (s.conns i).map Conn.key
  ptrs : ∀ fd, (t.epoll fd).map Reg.ptr = (s.epoll fd).map Reg.ptr
  count : t.nconns = s.nconns

section

variable {s t : Server} {i : Nat} {c c' : Conn}

theorem Kept.aside (conns : t.conns = s.conns) (epoll : t.epoll = s.epoll)
    (count : t.nconns = s.nconns) : Kept s t := by
  refine ⟨?_, ?_, count⟩
  · rw [conns]
    exact fun _ => rfl
  · rw [epoll]
    exact fun _ => rfl

/-- A connection that moves on in its entry. -/
theorem Kept.moved (here : s.conns i = some c)
    (conns : t.conns = Function.update s.conns i (some c')) (key : c'.key = c.key)
    (ptrs : ∀ fd, (t.epoll fd).map Reg.ptr = (s.epoll fd).map Reg.ptr)
    (count : t.nconns = s.nconns) : Kept s t := by
  refine ⟨?_, ptrs, count⟩
  intro j
  by_cases same : j = i
  · rw [conns, same, Function.update_self, here, Option.map_some, Option.map_some, key]
  · rw [conns, Function.update_of_ne same]

theorem ptr_ctlMod {ep : Epoll} {fd : Fd} (registered : (ep fd).map Reg.ptr = some i)
    (ev : Events) (other : Fd) :
    (((ep.ctlMod fd ⟨ev, i, true⟩).getD ep) other).map Reg.ptr = (ep other).map Reg.ptr := by
  obtain ⟨r, found, ptr⟩ := Option.map_eq_some_iff.mp registered
  rw [Epoll.ctlMod, found, Option.getD_some]
  by_cases same : other = fd
  · rw [same, Function.update_self, found, Option.map_some, Option.map_some, ptr]
  · rw [Function.update_of_ne same]

theorem ptr_disarm (ep : Epoll) (fd other : Fd) :
    ((ep.disarm fd) other).map Reg.ptr = (ep other).map Reg.ptr := by
  by_cases same : other = fd
  · rw [Epoll.disarm, same, Function.update_self]
    cases ep fd <;> rfl
  · rw [Epoll.disarm, Function.update_of_ne same]

theorem kept_afterRead (tabled : Tabled s) (here : s.conns i = some c) (k : Socket)
    (buf : Bytes) (r : IoRet) : Kept s ((s.setSock i k).afterRead i c buf r) := by
  unfold Server.afterRead
  cases r with
  | data bs =>
    dsimp only
    split
    · exact .moved here rfl rfl (fun _ => rfl) rfl
    · split <;> exact .moved here rfl rfl (fun _ => rfl) rfl
  | err e =>
    dsimp only
    split
    · exact .moved here rfl rfl (ptr_ctlMod (tabled.entry i c here).2.2 _) rfl
    · exact .moved here rfl rfl (fun _ => rfl) rfl
  | count n => exact .moved here rfl rfl (fun _ => rfl) rfl

theorem kept_afterWrite (tabled : Tabled s) (here : s.conns i = some c) (k : Socket)
    (buf : Bytes) (put : Nat) (r : IoRet) :
    Kept s ((s.setSock i k).afterWrite i c buf put r) := by
  unfold Server.afterWrite
  cases r with
  | count n =>
    dsimp only
    split <;> exact .moved here rfl rfl (fun _ => rfl) rfl
  | err e =>
    dsimp only
    split
    · exact .moved here rfl rfl (ptr_ctlMod (tabled.entry i c here).2.2 _) rfl
    · exact .moved here rfl rfl (fun _ => rfl) rfl
  | data bs => exact .moved here rfl rfl (fun _ => rfl) rfl

theorem kept_fiber {out : IoOut} (tabled : Tabled s) (here : s.conns i = some c)
    (taken : s.fiber stateful i c out = some t) : Kept s t := by
  unfold Server.fiber at taken
  split at taken
  · obtain ⟨answer, _, rfl⟩ := Option.map_eq_some_iff.mp taken
    exact kept_afterRead tabled here ..
  · cases taken
    exact .moved here rfl rfl (fun _ => rfl) rfl
  · obtain ⟨answer, _, rfl⟩ := Option.map_eq_some_iff.mp taken
    exact kept_afterWrite tabled here ..
  · cases taken

theorem kept_offloads : Kept s (s.offloads i) := by
  unfold Server.offloads
  split
  · split
    · rename_i c here
      split
      · exact .moved here rfl rfl (fun _ => rfl) rfl
      · exact .aside rfl rfl rfl
    · exact .aside rfl rfl rfl
  · exact .aside rfl rfl rfl

theorem kept_run : Kept s (s.run i) := by
  unfold Server.run
  split
  · split
    · split <;> exact .aside rfl rfl rfl
    · exact .aside rfl rfl rfl
  · exact .aside rfl rfl rfl

theorem kept_event {fd : Fd} (taken : s.event fd = some t) : Kept s t := by
  unfold Server.event at taken
  split at taken
  · dsimp only at taken
    split at taken
    · rename_i c here
      split at taken <;> cases taken
      · exact .moved here rfl rfl (ptr_disarm s.epoll fd) rfl
      · exact ⟨fun _ => rfl, ptr_disarm s.epoll fd, rfl⟩
    · cases taken
      exact ⟨fun _ => rfl, ptr_disarm s.epoll fd, rfl⟩
  · cases taken

/-- A step gives the next entry away, takes back the entry of a connection whose handler
has ended, or leaves the table as it is. -/
theorem step_cases {a : TcoAct} (tabled : Tabled s) (taken : step stateful s a = some t) :
    (isAccept a → maxConn ≤ s.nconns) ∧ Kept s t ∨
      (∃ fd, a = .accept fd ∧ s.nconns < maxConn ∧ s.epoll fd = none ∧
        t.conns = Function.update s.conns s.nconns
          (some ⟨fd, s.nconns, .runnable, .empty, 0, .reading []⟩) ∧
        t.epoll = Function.update s.epoll fd (some ⟨.inp, s.nconns, true⟩) ∧
        t.nconns = s.nconns + 1) ∨
      ∃ i c, isAccept a = false ∧ s.conns i = some c ∧ c.state = .dead ∧
        t.conns = Function.update s.conns i none ∧
        t.epoll = Function.update s.epoll c.fd none ∧ t.nconns = s.nconns := by
  cases a with
  | arrive i bs =>
    cases taken
    exact .inl ⟨nofun, .aside rfl rfl rfl⟩
  | hangup i =>
    cases taken
    exact .inl ⟨nofun, .aside rfl rfl rfl⟩
  | device slot =>
    cases taken
    exact .inl ⟨nofun, .aside rfl rfl rfl⟩
  | accept fd =>
    simp only [step, Server.accept] at taken
    split at taken
    · rename_i unused
      split at taken <;> cases taken
      · rename_i room
        refine .inr (.inl ⟨fd, rfl, room, unused, rfl, ?_, rfl⟩)
        show (s.epoll.ctlAdd fd _).getD s.epoll = _
        rw [Epoll.ctlAdd, unused, Option.getD_some]
      · rename_i full
        exact .inl ⟨fun _ => Nat.not_lt.mp full, .aside rfl rfl rfl⟩
    · cases taken
  | event fd => exact .inl ⟨nofun, kept_event taken⟩
  | turn n out =>
    simp only [step, Server.turn] at taken
    split at taken
    · cases taken
      exact .inl ⟨nofun, kept_offloads⟩
    · cases taken
      exact .inl ⟨nofun, .aside rfl rfl rfl⟩
    · cases taken
      exact .inl ⟨nofun, kept_run⟩
    · obtain ⟨c, here, ran⟩ := Option.bind_eq_some_iff.mp taken
      exact .inl ⟨nofun, kept_fiber tabled here ran⟩
    · rename_i i pc
      cases taken
      unfold Server.back
      split
      · rename_i c here
        split
        · rename_i dead
          exact .inr (.inr ⟨i, c, rfl, here, dead, rfl, rfl, rfl⟩)
        · exact .inl ⟨nofun, .aside rfl rfl rfl⟩
      · exact .inl ⟨nofun, .aside rfl rfl rfl⟩

/-- Where two servers have the same keys in an entry, so has one what the other has. -/
theorem Kept.source (kept : Kept s t) (here : t.conns i = some c) :
    ∃ d, s.conns i = some d ∧ d.fd = c.fd ∧ d.idx = c.idx := by
  have key := kept.table i
  rw [here, Option.map_some] at key
  obtain ⟨d, found, same⟩ := Option.map_eq_some_iff.mp key.symm
  exact ⟨d, found, congrArg Prod.fst same, congrArg Prod.snd same⟩

theorem Tabled.apart {j : Nat} {d : Conn} (tabled : Tabled s) (here : s.conns i = some c)
    (there : s.conns j = some d) (different : i ≠ j) : c.fd ≠ d.fd := by
  intro same
  have first := (tabled.entry i c here).2.2
  have second := (tabled.entry j d there).2.2
  rw [same, second] at first
  exact different (Option.some.inj first).symm

theorem Tabled.step {a : TcoAct} (tabled : Tabled s) (taken : step stateful s a = some t) :
    Tabled t := by
  rcases step_cases tabled taken with ⟨_, kept⟩ | ⟨fd, _, room, unused, conns, epoll, count⟩ |
    ⟨i, c, _, here, _, conns, epoll, count⟩
  · refine ⟨by rw [kept.count]; exact tabled.within, ?_⟩
    intro j d there
    obtain ⟨e, found, fd, idx⟩ := kept.source there
    rw [kept.count, kept.ptrs, ← fd, ← idx]
    exact tabled.entry j e found
  · refine ⟨by omega, ?_⟩
    intro j d there
    rw [conns] at there
    rw [epoll, count]
    by_cases new : j = s.nconns
    · rw [new, Function.update_self, Option.some.injEq] at there
      subst there
      rw [new, Function.update_self]
      exact ⟨Nat.lt_succ_self _, rfl, rfl⟩
    · rw [Function.update_of_ne new] at there
      obtain ⟨below, idx, ptr⟩ := tabled.entry j d there
      have other : d.fd ≠ fd := by
        intro same
        rw [same, unused] at ptr
        cases ptr
      rw [Function.update_of_ne other]
      exact ⟨by omega, idx, ptr⟩
  · refine ⟨by rw [count]; exact tabled.within, ?_⟩
    intro j d there
    rw [conns] at there
    rw [epoll, count]
    by_cases gone : j = i
    · rw [gone, Function.update_self] at there
      cases there
    · rw [Function.update_of_ne gone] at there
      rw [Function.update_of_ne (tabled.apart there here gone)]
      exact tabled.entry j d there

theorem init_tabled : Tabled .init := ⟨Nat.zero_le _, fun _ _ here => by cases here⟩

theorem run_tabled {acts : List TcoAct}
    (reached : Machine.run (step stateful) .init acts = some s) : Tabled s :=
  Machine.invariant_reached (fun _ _ _ => Tabled.step) init_tabled reached

theorem Tabled.distinct (tabled : Tabled s) : Distinct s := by
  intro i j c d here there different
  obtain ⟨below, idx, _⟩ := tabled.entry i c here
  obtain ⟨below', idx', _⟩ := tabled.entry j d there
  have within := tabled.within
  refine ⟨?_, ?_, ?_, tabled.apart here there different⟩ <;> omega

theorem Tabled.live_le (tabled : Tabled s) : live s ≤ maxConn := by
  have below : live s ≤ (List.range s.nconns).length := List.countP_le_length
  rw [List.length_range] at below
  exact Nat.le_trans below tabled.within

/-- The counter stops at `MAXCONN`. -/
theorem step_nconns {a : TcoAct} (tabled : Tabled s) (taken : step stateful s a = some t) :
    t.nconns = if isAccept a then min (s.nconns + 1) maxConn else s.nconns := by
  have within := tabled.within
  rcases step_cases tabled taken with ⟨full, kept⟩ | ⟨fd, rfl, room, _, _, _, count⟩ |
    ⟨_, _, other, _, _, _, _, count⟩
  · rw [kept.count]
    split
    · rename_i accepts
      have high := full accepts
      omega
    · rfl
  · show t.nconns = min (s.nconns + 1) maxConn
    omega
  · rw [count, other]
    rfl

/-- It counts the connections that have come, up to there. -/
theorem run_nconns {acts : List TcoAct} (tabled : Tabled s)
    (reached : Machine.run (step stateful) s acts = some t) :
    t.nconns = min (s.nconns + acts.countP isAccept) maxConn := by
  have within := tabled.within
  induction acts generalizing s with
  | nil =>
    cases reached
    rw [List.countP_nil]
    omega
  | cons a acts ih =>
    obtain ⟨mid, taken, rest⟩ := Machine.run_cons_eq_some.mp reached
    have tabledMid := tabled.step taken
    have counted := step_nconns tabled taken
    rw [ih tabledMid rest tabledMid.within, List.countP_cons, counted]
    split <;> omega

/-- What a step does for a newcomer depends on the counter only. -/
theorem welcomes_iff {a : TcoAct} (tabled : Tabled s) (taken : step stateful s a = some t) :
    Welcomes s t a ↔ (isAccept a → live s < maxConn → s.nconns < maxConn) := by
  rcases step_cases tabled taken with ⟨full, kept⟩ | ⟨fd, rfl, room, _, conns, _, _⟩ |
    ⟨i, c, other, here, dead, conns, _, _⟩
  · have stays : ∀ i c, s.conns i = some c → t.conns i = none → c.state = .dead := by
      intro i c here gone
      have key := kept.table i
      rw [here, gone] at key
      cases key
    constructor
    · intro ⟨served, _⟩ accepts room
      cases a with
      | accept fd =>
        obtain ⟨i, free, given⟩ := served fd rfl room
        have key := kept.table i
        rw [free, given] at key
        cases key
      | _ => cases accepts
    · intro counted
      refine ⟨?_, stays⟩
      intro fd accepts room
      rw [accepts] at counted full
      have low := counted rfl room
      have high := full rfl
      omega
  · constructor
    · intro _ _ _
      exact room
    · intro _
      constructor
      · intro fd' same _
        cases same
        refine ⟨s.nconns, ?_, by rw [conns, Function.update_self]⟩
        cases free : s.conns s.nconns with
        | none => rfl
        | some c => exact absurd (tabled.entry _ c free).1 (Nat.lt_irrefl _)
      · intro i c here gone
        by_cases new : i = s.nconns
        · rw [conns, new, Function.update_self] at gone
          cases gone
        · rw [conns, Function.update_of_ne new, here] at gone
          cases gone
  · constructor
    · intro _ accepts
      rw [other] at accepts
      cases accepts
    · intro _
      constructor
      · intro fd same
        rw [same] at other
        cases other
      · intro j d there gone
        by_cases same : j = i
        · rw [same, here] at there
          cases there
          exact dead
        · rw [conns, Function.update_of_ne same, there] at gone
          cases gone

end

/-- The server keeps accepting while it has room, and its connections apart, exactly when
no connection comes after the first `MAXCONN` while one of these is gone. -/
theorem keepsAccepting_iff (stateful : Bool) (acts : List TcoAct) :
    KeepsAccepting stateful acts ↔ FirstOnes stateful acts := by
  constructor
  · intro ⟨_, welcomes⟩ front fd isPrefix s t reached taken
    have tabled := run_tabled reached
    have most := tabled.live_le
    have counted := run_nconns init_tabled reached
    have served := (welcomes_iff tabled taken).mp (welcomes front _ isPrefix s t reached taken) rfl
    have zero : Server.init.nconns = 0 := rfl
    omega
  · intro first
    constructor
    · apply Machine.always_iff_reached.mpr
      intro front _ s reached
      exact (run_tabled reached).distinct
    · intro front a isPrefix s t reached taken
      have tabled := run_tabled reached
      have counted := run_nconns init_tabled reached
      apply (welcomes_iff tabled taken).mpr
      intro accepts room
      cases a with
      | accept fd =>
        have zero : Server.init.nconns = 0 := rfl
        have early := first front fd isPrefix s t reached taken
        omega
      | _ => cases accepts

/-- One connection comes and goes. -/
def oneGone : List TcoAct :=
  [.turn 0 .again, .accept 0, .hangup 0, .turn 0 .again, .turn 0 .again, .turn 0 .eof,
    .turn 0 .again, .turn 0 .again, .turn 0 .again, .turn 0 .again]

/-- A burst of connections at the listening socket. -/
def burst (lo n : Nat) : List TcoAct := (List.range' lo n).map .accept

theorem step_accept (stateful : Bool) {fd left : Nat} {s : Server} (pc : s.pc = .poll left)
    (free : s.epoll fd = none) (room : s.nconns < maxConn) :
    ∃ t, step stateful s (.accept fd) = some t ∧ t.pc = .poll left ∧
      t.nconns = s.nconns + 1 ∧
      t.epoll = Function.update s.epoll fd (some ⟨.inp, s.nconns, true⟩) ∧
      t.conns = Function.update s.conns s.nconns
        (some ⟨fd, s.nconns, .runnable, .empty, 0, .reading []⟩) := by
  have registered : (s.epoll.ctlAdd fd ⟨.inp, s.nconns, true⟩).getD s.epoll =
      Function.update s.epoll fd (some ⟨.inp, s.nconns, true⟩) := by
    rw [Epoll.ctlAdd, free, Option.getD_some]
  simp only [step, Server.accept, pc, free, if_pos room, registered]
  exact ⟨_, rfl, rfl, rfl, rfl, rfl⟩

theorem run_burst (stateful : Bool) (n lo : Nat) {left : Nat} {s : Server} (pc : s.pc = .poll left)
    (room : s.nconns + n ≤ maxConn) (unused : ∀ fd, lo ≤ fd → s.epoll fd = none) :
    ∃ t, Machine.run (step stateful) s (burst lo n) = some t ∧ t.pc = .poll left ∧
      t.nconns = s.nconns + n ∧ (∀ fd, lo + n ≤ fd → t.epoll fd = none) ∧
      ∀ i < s.nconns, t.conns i = s.conns i := by
  induction n generalizing s lo with
  | zero => exact ⟨s, rfl, pc, rfl, unused, fun _ _ => rfl⟩
  | succ n ih =>
    have free : s.epoll lo = none := unused lo (Nat.le_refl lo)
    obtain ⟨mid, taken, pcMid, next, epoll, conns⟩ := step_accept stateful pc free (by omega)
    have later : ∀ fd, lo + 1 ≤ fd → mid.epoll fd = none := by
      intro fd above
      rw [epoll, Function.update_of_ne (Nat.ne_of_gt above)]
      exact unused fd (Nat.le_of_succ_le above)
    obtain ⟨t, reached, pcEnd, count, rest, kept⟩ := ih (lo + 1) pcMid (by omega) later
    refine ⟨t, ?_, pcEnd, by omega, ?_, ?_⟩
    · rw [burst, List.range'_succ, List.map_cons, Machine.run_cons_of_step taken]
      exact reached
    · intro fd above
      exact rest fd (by omega)
    · intro i old
      rw [kept i (by omega), conns, Function.update_of_ne (Nat.ne_of_lt old)]

theorem live_lt {s : Server} {i : Nat} (old : i < s.nconns) (gone : s.conns i = none) :
    live s < s.nconns := by
  have fewer : live s ≠ (List.range s.nconns).length := by
    intro all
    have present := List.countP_eq_length.mp all i (List.mem_range.mpr old)
    rw [gone] at present
    cases present
  have most : live s ≤ (List.range s.nconns).length := List.countP_le_length
  rw [List.length_range] at fewer most
  omega

/-- 4095 connections are live, and the next one is closed. -/
theorem closed_with_room :
    ¬ KeepsAccepting false (oneGone ++ burst 1 4095 ++ [.accept 4096]) := by
  intro keeps
  have first : ∃ s, Machine.run (step false) .init oneGone = some s ∧ s.pc = .poll 256 ∧
      s.nconns = 1 ∧ s.conns 0 = none ∧ ∀ fd, 1 ≤ fd → s.epoll fd = none := by
    refine ⟨_, rfl, rfl, rfl, rfl, ?_⟩
    intro fd above
    show Function.update (Function.update Epoll.empty 0 (some ⟨.inp, 0, true⟩)) 0 none fd = none
    rw [Function.update_of_ne (Nat.ne_of_gt above), Function.update_of_ne (Nat.ne_of_gt above)]
    rfl
  obtain ⟨s, reached, pc, one, gone, unused⟩ := first
  obtain ⟨t, came, pc', count, free, kept⟩ := run_burst false 4095 1 pc
    (by rw [one]; decide) unused
  have full : t.nconns = maxConn := by
    rw [count, one]
    rfl
  have vacant : t.conns 0 = none := by rw [kept 0 (by omega), gone]
  have room : live t < maxConn := by
    rw [← full]
    exact live_lt (by omega) vacant
  have closed : step false t (.accept 4096) = some t := by
    simp [step, Server.accept, pc', free 4096 (by decide), full]
  have before : Machine.run (step false) .init (oneGone ++ burst 1 4095) = some t := by
    rw [Machine.run_append_of_run reached, came]
  have welcomed :=
    keeps.2 (oneGone ++ burst 1 4095) (.accept 4096) List.prefix_rfl t t before closed
  obtain ⟨i, none_, some_⟩ := welcomed.1 4096 rfl room
  rw [none_] at some_
  cases some_

end TransparentOffload.Tco.Coro
