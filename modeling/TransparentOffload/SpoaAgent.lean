import TransparentOffload.Lib.Run
import TransparentOffload.Lib.WorkPool
import TransparentOffload.Spop

set_option autoImplicit false

/- `spoa_agent`: a thread for each connection reads its frames and queues a job for
each NOTIFY; a pool of workers runs the offloads and sends the ACKs. A connection is
named by the number of its object; a step that would read a freed object is `none`. -/
namespace TransparentOffload

/-- `struct job`. -/
structure SpoaJob where
  c : Nat
  sid : UInt64
  fid : UInt64
  deriving DecidableEq, Repr

/-- Where `conn_thread` is: in its loop, behind it, or between `close` and `free`. -/
inductive SpoaPhase
  | reading
  | leaving
  | closed
  deriving DecidableEq, Repr

/-- `struct conn`, with the worker that has `wlk` and the place of its thread. -/
structure SpoaConn where
  fd : Fd
  wlk : Option Nat
  phase : SpoaPhase
  deriving DecidableEq, Repr

/-- The agent's objects and jobs, and the connection each open descriptor leads to.
A worker in `unlocking` has written its ACK and still has the lock. `received` and
`sent` are history: the payloads the threads have read and the frames that were written. -/
structure Spoa where
  conns : Nat → Option SpoaConn
  accepted : Nat
  fds : Fd → Option Nat
  pool : WorkPool.Pool SpoaJob
  unlocking : List (Nat × Nat)
  received : List (Nat × Bytes)
  sent : List (Nat × Bytes)

namespace Spoa

/-- `QN`. -/
def qn : Nat := 65536

/-- The largest frame `conn_thread` takes. -/
def maxFrame : Nat := 1048576

def start : Spoa :=
  { conns := fun _ => none, accepted := 0, fds := fun _ => none, pool := .idle ⟨0, 0, 0⟩
    unlocking := [], received := [], sent := [] }

def setConn (s : Spoa) (c : Nat) (k : SpoaConn) : Spoa :=
  { s with conns := Function.update s.conns c (some k) }

/-- `writen`: the frame goes to whatever the descriptor leads to now. -/
def writen (s : Spoa) (fd : Fd) (bytes : Bytes) : Spoa :=
  match s.fds fd with
  | some c => { s with sent := (c, bytes) :: s.sent }
  | none => s

/-- One round of `main`'s loop. -/
def accept (s : Spoa) (fd : Fd) : Option Spoa :=
  if s.fds fd = none then
    some { s.setConn s.accepted ⟨fd, none, .reading⟩ with
      accepted := s.accepted + 1
      fds := Function.update s.fds fd (some s.accepted) }
  else none

/-- What `conn_thread` does with a frame of its connection `c`. -/
def dispatch (s : Spoa) (c : Nat) (k : SpoaConn) (type : UInt8) (sid fid : UInt64) : Option Spoa :=
  if type = Spop.ftHaproxyHello then
    if k.wlk = none then some (s.writen k.fd (Spop.frame (Spop.agentHelloPayload 16380))) else none
  else if type = Spop.ftNotify then some { s with pool := s.pool.submit qn ⟨c, sid, fid⟩ }
  else if type = Spop.ftHaproxyDiscon then some (s.setConn c { k with phase := .leaving })
  else some s

/-- One round of `conn_thread`'s loop for a frame that it reads to its end. -/
def readFrame (s : Spoa) (c : Nat) (payload : Bytes) : Option Spoa :=
  match s.conns c, Spop.parse payload with
  | some k, some (type, sid, fid) =>
    if k.phase = .reading ∧ payload.length ≤ maxFrame then
      { s with received := (c, payload) :: s.received }.dispatch c k type sid fid
    else none
  | _, _ => none

/-- The socket fails or ends, or a length is out of range: `break`. -/
def leave (s : Spoa) (c : Nat) : Option Spoa :=
  match s.conns c with
  | some k => if k.phase = .reading then some (s.setConn c { k with phase := .leaving }) else none
  | none => none

/-- `close(c->fd)`. -/
def close (s : Spoa) (c : Nat) : Option Spoa :=
  match s.conns c with
  | some k =>
    if k.phase = .leaving then
      some { s.setConn c { k with phase := .closed } with fds := Function.update s.fds k.fd none }
    else none
  | none => none

/-- `free(c)`. -/
def free (s : Spoa) (c : Nat) : Option Spoa :=
  match s.conns c with
  | some k =>
    if k.phase = .closed then some { s with conns := Function.update s.conns c none } else none
  | none => none

/-- `worker` up to its offload. -/
def take (s : Spoa) (w : Nat) : Option Spoa :=
  if w ∈ s.unlocking.map Prod.fst then none
  else (s.pool.take qn w).map fun pool => { s with pool := pool }

/-- The offload is done; `send_ack` takes the lock of the connection. -/
def lock (s : Spoa) (w : Nat) : Option Spoa :=
  (s.pool.held w).bind fun j => (s.conns j.c).bind fun k =>
    if k.wlk = none then some (s.setConn j.c { k with wlk := some w }) else none

/-- `send_ack` writes. -/
def write (s : Spoa) (w : Nat) : Option Spoa :=
  (s.pool.held w).bind fun j => (s.conns j.c).bind fun k =>
    if k.wlk = some w then
      some ({ s with pool := s.pool.finish w j, unlocking := (w, j.c) :: s.unlocking }.writen k.fd
        (Spop.frame (Spop.ackPayload j.sid j.fid)))
    else none

/-- The connection whose lock a worker is about to give back. -/
def unlockingOf (s : Spoa) (w : Nat) : Option Nat :=
  (s.unlocking.find? fun own => own.1 == w).map Prod.snd

/-- `send_ack` gives the lock back. -/
def unlock (s : Spoa) (w : Nat) : Option Spoa :=
  (s.unlockingOf w).bind fun c => (s.conns c).map fun k =>
    { s.setConn c { k with wlk := none } with unlocking := s.unlocking.erase (w, c) }

end Spoa

/-- The steps of `main`, of the connections' threads and of the workers. -/
inductive SpoaAct
  | accept (fd : Fd)
  | frame (c : Nat) (payload : Bytes)
  | leave (c : Nat)
  | close (c : Nat)
  | free (c : Nat)
  | take (w : Nat)
  | lock (w : Nat)
  | write (w : Nat)
  | unlock (w : Nat)
  deriving DecidableEq, Repr

/-- The agent with `nw` workers. -/
def Spoa.step (nw : Nat) (s : Spoa) : SpoaAct → Option Spoa
  | .accept fd => s.accept fd
  | .frame c payload => s.readFrame c payload
  | .leave c => s.leave c
  | .close c => s.close c
  | .free c => s.free c
  | .take w => if w < nw then s.take w else none
  | .lock w => s.lock w
  | .write w => s.write w
  | .unlock w => s.unlock w

namespace Spoa

/-- The descriptors of the connections that are not closed lead to them. -/
structure Wired (s : Spoa) : Prop where
  open_ : ∀ c k, s.conns c = some k → k.phase ≠ .closed → s.fds k.fd = some c
  closed : ∀ c k, s.conns c = some k → k.phase = .closed → s.fds k.fd ≠ some c
  fresh : ∀ c k, s.conns c = some k → c < s.accepted
  known : ∀ fd c, s.fds fd = some c → c < s.accepted
  ordered : s.pool.Ordered

theorem start_wired : Wired start := by
  refine ⟨?_, ?_, ?_, ?_, WorkPool.Pool.idle_ordered⟩
  all_goals simp [start]

variable {s t : Spoa} {c w : Nat} {k k' : SpoaConn}

@[simp] theorem setConn_self : (s.setConn c k).conns c = some k := Function.update_self ..

theorem setConn_of_ne {c' : Nat} (apart : c' ≠ c) : (s.setConn c k).conns c' = s.conns c' :=
  Function.update_of_ne apart ..

/-- A write changes nothing but what was sent. -/
theorem writen_spec (s : Spoa) (fd : Fd) (bytes : Bytes) :
    s.writen fd bytes = { s with
      sent := match s.fds fd with
        | some c => (c, bytes) :: s.sent
        | none => s.sent } := by
  unfold writen
  cases s.fds fd <;> rfl

/-- A step that leaves the descriptors alone, and the phase of each object or moves
one from reading to leaving. -/
theorem Wired.moved (wired : Wired s) (fds : t.fds = s.fds) (accepted : t.accepted = s.accepted)
    (ordered : t.pool.Ordered)
    (conns : ∀ c k', t.conns c = some k' → ∃ k, s.conns c = some k ∧ k'.fd = k.fd ∧
      (k'.phase = .closed ↔ k.phase = .closed)) : Wired t := by
  refine ⟨?_, ?_, ?_, ?_, ordered⟩
  · intro c k' there phase
    obtain ⟨k, here, fd, same⟩ := conns c k' there
    rw [fds, fd]
    exact wired.open_ c k here (mt same.mpr phase)
  · intro c k' there phase
    obtain ⟨k, here, fd, same⟩ := conns c k' there
    rw [fds, fd]
    exact wired.closed c k here (same.mp phase)
  · intro c k' there
    obtain ⟨k, here, _⟩ := conns c k' there
    rw [accepted]
    exact wired.fresh c k here
  · rw [fds, accepted]
    exact wired.known

/-- An object that is replaced keeps its descriptor and stays unclosed. -/
theorem conns_setConn (live : s.conns c = some k) (fd : k'.fd = k.fd)
    (phase : k'.phase = .closed ↔ k.phase = .closed) :
    ∀ c₁ k₁, (s.setConn c k').conns c₁ = some k₁ → ∃ k₂, s.conns c₁ = some k₂ ∧
      k₁.fd = k₂.fd ∧ (k₁.phase = .closed ↔ k₂.phase = .closed) := by
  intro c₁ k₁ there
  by_cases same : c₁ = c
  · subst same
    rw [setConn_self, Option.some.injEq] at there
    subst there
    exact ⟨k, live, fd, phase⟩
  · rw [setConn_of_ne same] at there
    exact ⟨k₁, there, rfl, Iff.rfl⟩

theorem accept_wired {fd : Fd} (wired : Wired s) (taken : s.accept fd = some t) : Wired t := by
  unfold accept at taken
  split at taken
  · rename_i unused
    rw [Option.some.injEq] at taken
    subst taken
    have old : ∀ c k, c ≠ s.accepted →
        (s.setConn s.accepted ⟨fd, none, .reading⟩).conns c = some k → s.conns c = some k := by
      intro c k apart there
      rwa [setConn_of_ne apart] at there
    refine ⟨?_, ?_, ?_, ?_, wired.ordered⟩
    · intro c k there phase
      by_cases new : c = s.accepted
      · subst new
        rw [show _ = _ from setConn_self, Option.some.injEq] at there
        subst there
        exact Function.update_self ..
      · have leads := wired.open_ c k (old c k new there) phase
        have apart : k.fd ≠ fd := by
          intro same
          rw [same, unused] at leads
          cases leads
        exact (Function.update_of_ne apart ..).trans leads
    · intro c k there phase
      by_cases new : c = s.accepted
      · subst new
        rw [show _ = _ from setConn_self, Option.some.injEq] at there
        subst there
        cases phase
      · have leads := wired.closed c k (old c k new there) phase
        dsimp only
        by_cases same : k.fd = fd
        · rw [same, Function.update_self, ne_eq, Option.some.injEq]
          exact Ne.symm new
        · rw [Function.update_of_ne same]
          exact leads
    · intro c k there
      by_cases new : c = s.accepted
      · exact new ▸ Nat.lt_succ_self _
      · exact Nat.lt_succ_of_lt (wired.fresh c k (old c k new there))
    · intro fd' c leads
      dsimp only at leads ⊢
      by_cases same : fd' = fd
      · rw [same, Function.update_self, Option.some.injEq] at leads
        omega
      · rw [Function.update_of_ne same] at leads
        exact Nat.lt_succ_of_lt (wired.known fd' c leads)
  · cases taken

theorem close_spec (taken : s.close c = some t) :
    ∃ k, s.conns c = some k ∧ k.phase = .leaving ∧
      t = { s.setConn c { k with phase := .closed } with
        fds := Function.update s.fds k.fd none } := by
  unfold close at taken
  split at taken
  · rename_i k live
    split at taken
    · rename_i phase
      exact ⟨k, live, phase, (Option.some.inj taken).symm⟩
    · cases taken
  · cases taken

theorem free_spec (taken : s.free c = some t) :
    ∃ k, s.conns c = some k ∧ k.phase = .closed ∧
      t = { s with conns := Function.update s.conns c none } := by
  unfold free at taken
  split at taken
  · rename_i k live
    split at taken
    · rename_i phase
      exact ⟨k, live, phase, (Option.some.inj taken).symm⟩
    · cases taken
  · cases taken

/-- Other connections have other descriptors than one that is not closed. -/
theorem Wired.fd_ne (wired : Wired s) {c' : Nat} (live : s.conns c = some k)
    (phase : k.phase ≠ .closed) (live' : s.conns c' = some k') (phase' : k'.phase ≠ .closed)
    (apart : c' ≠ c) : k'.fd ≠ k.fd := by
  intro same
  have leads := wired.open_ c' k' live' phase'
  rw [same, wired.open_ c k live phase, Option.some.injEq] at leads
  exact apart leads.symm

theorem close_wired (wired : Wired s) (taken : s.close c = some t) : Wired t := by
  obtain ⟨k, live, phase, rfl⟩ := close_spec taken
  have phase' : k.phase ≠ .closed := by
    rw [phase]
    nofun
  refine ⟨?_, ?_, ?_, ?_, wired.ordered⟩
  · intro c' k' there open_
    by_cases same : c' = c
    · subst same
      rw [show _ = _ from setConn_self, Option.some.injEq] at there
      subst there
      exact absurd rfl open_
    · rw [show _ = _ from setConn_of_ne same] at there
      have apart := wired.fd_ne live phase' there open_ same
      exact (Function.update_of_ne apart ..).trans (wired.open_ c' k' there open_)
  · intro c' k' there closed
    dsimp only
    by_cases hit : k'.fd = k.fd
    · rw [hit, Function.update_self]
      nofun
    · rw [Function.update_of_ne hit]
      by_cases same : c' = c
      · subst same
        rw [show _ = _ from setConn_self, Option.some.injEq] at there
        subst there
        exact absurd rfl hit
      · rw [show _ = _ from setConn_of_ne same] at there
        exact wired.closed c' k' there closed
  · intro c' k' there
    by_cases same : c' = c
    · exact same ▸ wired.fresh c k live
    · rw [show _ = _ from setConn_of_ne same] at there
      exact wired.fresh c' k' there
  · intro fd c' leads
    dsimp only at leads
    by_cases same : fd = k.fd
    · rw [same, Function.update_self] at leads
      cases leads
    · rw [Function.update_of_ne same] at leads
      exact wired.known fd c' leads

theorem free_wired (wired : Wired s) (taken : s.free c = some t) : Wired t := by
  obtain ⟨k, live, phase, rfl⟩ := free_spec taken
  refine wired.moved rfl rfl wired.ordered ?_
  intro c' k' there
  dsimp only at there
  by_cases same : c' = c
  · rw [same, Function.update_self] at there
    cases there
  · rw [Function.update_of_ne same] at there
    exact ⟨k', there, rfl, Iff.rfl⟩

/-- A step that changes of the connections only their locks and loops. -/
structure Kept (s t : Spoa) : Prop where
  fds : t.fds = s.fds
  accepted : t.accepted = s.accepted
  same : ∀ c k', t.conns c = some k' → ∃ k, s.conns c = some k ∧ k'.fd = k.fd ∧
    (k'.phase = .closed ↔ k.phase = .closed)
  live : ∀ c k, s.conns c = some k → ∃ k', t.conns c = some k' ∧ k'.fd = k.fd

theorem Kept.refl (s : Spoa) : Kept s s :=
  ⟨rfl, rfl, fun _ k' there => ⟨k', there, rfl, Iff.rfl⟩, fun _ k here => ⟨k, here, rfl⟩⟩

theorem kept_of_conns (fds : t.fds = s.fds) (accepted : t.accepted = s.accepted)
    (conns : t.conns = s.conns) : Kept s t := by
  refine ⟨fds, accepted, ?_, ?_⟩
  · rw [conns]
    exact (Kept.refl s).same
  · rw [conns]
    exact (Kept.refl s).live

theorem kept_setConn (k' : SpoaConn) (live : s.conns c = some k) (fd : k'.fd = k.fd)
    (phase : k'.phase = .closed ↔ k.phase = .closed) (fds : t.fds = s.fds)
    (accepted : t.accepted = s.accepted) (conns : t.conns = (s.setConn c k').conns) :
    Kept s t := by
  refine ⟨fds, accepted, ?_, ?_⟩
  · rw [conns]
    exact conns_setConn live fd phase
  · rw [conns]
    intro c₁ k₁ here
    by_cases same : c₁ = c
    · subst same
      rw [live, Option.some.injEq] at here
      exact ⟨k', setConn_self, here ▸ fd⟩
    · exact ⟨k₁, (setConn_of_ne same).trans here, rfl⟩

theorem Kept.wired (kept : Kept s t) (wired : Wired s) (ordered : t.pool.Ordered) : Wired t :=
  wired.moved kept.fds kept.accepted ordered kept.same

/-- The ids in a payload of one type. -/
def idsOf (type : UInt8) (payload : Bytes) : Option (UInt64 × UInt64) :=
  (Spop.parse payload).bind fun parsed => if parsed.1 = type then some parsed.2 else none

/-- The ids of the NOTIFY frames a connection's thread has read. -/
def notifies (s : Spoa) (c : Nat) : List (UInt64 × UInt64) :=
  s.received.filterMap fun own => if own.1 = c then idsOf Spop.ftNotify own.2 else none

/-- The ids of the ACK frames that were sent on a connection. -/
def acks (s : Spoa) (c : Nat) : List (UInt64 × UInt64) :=
  s.sent.filterMap fun own => if own.1 = c then idsOf Spop.ftAck (own.2.drop 4) else none

theorem idsOf_parse {type type' : UInt8} {ids : UInt64 × UInt64} {payload : Bytes}
    (parsed : Spop.parse payload = some (type, ids)) :
    idsOf type' payload = if type = type' then some ids else none := by
  unfold idsOf
  rw [parsed]
  rfl

/-- The ACK that is sent for a job carries the job's ids. -/
theorem idsOf_ack (sid fid : UInt64) :
    idsOf Spop.ftAck ((Spop.frame (Spop.ackPayload sid fid)).drop 4) = some (sid, fid) := by
  change idsOf Spop.ftAck (Spop.ackPayload sid fid) = _
  rw [idsOf_parse (Spop.parse_ack sid fid), if_pos rfl]

theorem idsOf_hello (mfs : UInt64) :
    idsOf Spop.ftAck ((Spop.frame (Spop.agentHelloPayload mfs)).drop 4) = none := by
  change idsOf Spop.ftAck (Spop.agentHelloPayload mfs) = none
  unfold idsOf Spop.agentHelloPayload Spop.htonl Spop.parse
  dsimp only [List.cons_append, List.nil_append]
  cases Spop.decVarint _ with
  | none => rfl
  | some sid =>
    rw [Option.bind_some]
    cases Spop.decVarint sid.2 <;> rfl

end Spoa

/-- The job a step hands to the workers: that of a NOTIFY frame. -/
def SpoaAct.notified : SpoaAct → Option SpoaJob
  | .frame c payload => (Spoa.idsOf Spop.ftNotify payload).map fun ids => ⟨c, ids.1, ids.2⟩
  | _ => none

namespace Spoa

variable {s t : Spoa} {c w : Nat} {k k' : SpoaConn}

/-- What one step does. -/
inductive Turn (s t : Spoa) (a : SpoaAct) : Prop
  | accept (fd : Fd) (act : a = .accept fd) (taken : s.accept fd = some t)
  | close (c : Nat) (act : a = .close c) (taken : s.close c = some t)
  | free (c : Nat) (act : a = .free c) (taken : s.free c = some t)
  | notify (j : SpoaJob) (k : SpoaConn) (payload : Bytes) (act : a = .frame j.c payload)
      (ids : idsOf Spop.ftNotify payload = some (j.sid, j.fid)) (live : s.conns j.c = some k)
      (reading : k.phase = .reading)
      (ends : t = { s with
        received := (j.c, payload) :: s.received, pool := s.pool.submit qn j })
  | aside (quiet : a.notified = none) (open_ : ∀ c, a ≠ .close c) (kept : Kept s t)
      (pool : t.pool = s.pool) (unlocking : t.unlocking = s.unlocking)
      (notifies : t.notifies = s.notifies) (acks : t.acks = s.acks)
  | take (w : Nat) (pool : WorkPool.Pool SpoaJob) (act : a = .take w)
      (taken : s.pool.take qn w = some pool) (ends : t = { s with pool := pool })
  | write (w : Nat) (j : SpoaJob) (k : SpoaConn) (act : a = .write w)
      (held : s.pool.held w = some j) (live : s.conns j.c = some k)
      (ends : t = { s with
        pool := s.pool.finish w j, unlocking := (w, j.c) :: s.unlocking }.writen k.fd
          (Spop.frame (Spop.ackPayload j.sid j.fid)))
  | unlock (w c : Nat) (k : SpoaConn) (act : a = .unlock w) (own : s.unlockingOf w = some c)
      (live : s.conns c = some k)
      (ends : t = { s.setConn c { k with wlk := none } with
        unlocking := s.unlocking.erase (w, c) })

theorem notifies_cons (s : Spoa) (c₁ : Nat) (payload : Bytes) (c : Nat) :
    { s with received := (c₁, payload) :: s.received }.notifies c =
      (if c₁ = c then idsOf Spop.ftNotify payload else none).toList ++ s.notifies c := by
  unfold notifies
  rw [List.filterMap_cons]
  cases (if c₁ = c then idsOf Spop.ftNotify payload else none) <;> rfl

/-- Any frame but a NOTIFY. -/
theorem dispatch_turn {payload : Bytes} {type : UInt8} {sid fid : UInt64}
    (live : s.conns c = some k) (reading : k.phase = .reading)
    (parsed : Spop.parse payload = some (type, sid, fid))
    (taken : { s with received := (c, payload) :: s.received }.dispatch c k type sid fid =
      some t) : Turn s t (.frame c payload) := by
  have notified : idsOf Spop.ftNotify payload =
      if type = Spop.ftNotify then some (sid, fid) else none := idsOf_parse parsed
  by_cases notify : type = Spop.ftNotify
  · subst notify
    rw [if_pos rfl] at notified
    exact .notify ⟨c, sid, fid⟩ k payload rfl notified live reading (Option.some.inj taken).symm
  · rw [if_neg notify] at notified
    have quiet : (SpoaAct.frame c payload).notified = none := by
      rw [SpoaAct.notified, notified, Option.map_none]
    have notifies : { s with received := (c, payload) :: s.received }.notifies = s.notifies := by
      funext c'
      rw [notifies_cons, notified, ite_self]
      rfl
    unfold dispatch at taken
    rw [if_neg notify] at taken
    by_cases hello : type = Spop.ftHaproxyHello
    · rw [if_pos hello] at taken
      split at taken
      · rw [Option.some.injEq, writen_spec] at taken
        subst taken
        refine .aside quiet (by nofun) (kept_of_conns rfl rfl rfl) rfl rfl notifies ?_
        funext c'
        unfold acks
        dsimp only
        cases s.fds k.fd with
        | none => rfl
        | some c₁ =>
          dsimp only
          rw [List.filterMap_cons, idsOf_hello, ite_self]
      · cases taken
    · rw [if_neg hello] at taken
      split at taken
      · rw [Option.some.injEq] at taken
        subst taken
        have kept : Kept s ({ s with received := (c, payload) :: s.received }.setConn c
            { k with phase := .leaving }) := by
          refine kept_setConn { k with phase := .leaving } live rfl ?_ rfl rfl rfl
          rw [reading]
          exact ⟨nofun, nofun⟩
        exact .aside quiet (by nofun) kept rfl rfl notifies rfl
      · rw [Option.some.injEq] at taken
        subst taken
        exact .aside quiet (by nofun) (kept_of_conns rfl rfl rfl) rfl rfl notifies rfl

theorem step_turn {nw : Nat} {a : SpoaAct} (taken : s.step nw a = some t) : Turn s t a := by
  cases a with
  | accept fd => exact .accept fd rfl taken
  | close c => exact .close c rfl taken
  | free c => exact .free c rfl taken
  | frame c payload =>
    change s.readFrame c payload = some t at taken
    unfold readFrame at taken
    split at taken
    · rename_i k type sid fid live parsed
      split at taken
      · rename_i able
        exact dispatch_turn live able.1 parsed taken
      · cases taken
    · cases taken
  | leave c =>
    change s.leave c = some t at taken
    unfold leave at taken
    split at taken
    · rename_i k live
      split at taken
      · rename_i reading
        rw [Option.some.injEq] at taken
        subst taken
        have kept : Kept s (s.setConn c { k with phase := .leaving }) := by
          refine kept_setConn { k with phase := .leaving } live rfl ?_ rfl rfl rfl
          rw [reading]
          exact ⟨nofun, nofun⟩
        exact .aside rfl (by nofun) kept rfl rfl rfl rfl
      · cases taken
    · cases taken
  | take w =>
    rw [step] at taken
    split at taken
    · unfold Spoa.take at taken
      split at taken
      · cases taken
      · obtain ⟨pool, took, rfl⟩ := Option.map_eq_some_iff.mp taken
        exact .take w pool rfl took rfl
    · cases taken
  | lock w =>
    obtain ⟨j, held, rest⟩ := Option.bind_eq_some_iff.mp taken
    obtain ⟨k, live, rest⟩ := Option.bind_eq_some_iff.mp rest
    split at rest
    · rw [Option.some.injEq] at rest
      subst rest
      exact .aside rfl (by nofun)
        (kept_setConn { k with wlk := some w } live rfl Iff.rfl rfl rfl rfl) rfl rfl rfl rfl
    · cases rest
  | write w =>
    obtain ⟨j, held, rest⟩ := Option.bind_eq_some_iff.mp taken
    obtain ⟨k, live, rest⟩ := Option.bind_eq_some_iff.mp rest
    split at rest
    · exact .write w j k rfl held live (Option.some.inj rest).symm
    · cases rest
  | unlock w =>
    obtain ⟨c, own, rest⟩ := Option.bind_eq_some_iff.mp taken
    obtain ⟨k, live, rfl⟩ := Option.map_eq_some_iff.mp rest
    exact .unlock w c k rfl own live rfl

theorem step_wired {nw : Nat} {a : SpoaAct} (wired : Wired s) (taken : s.step nw a = some t) :
    Wired t := by
  cases step_turn taken with
  | accept fd act taken => exact accept_wired wired taken
  | close c act taken => exact close_wired wired taken
  | free c act taken => exact free_wired wired taken
  | notify j k payload act ids live reading ends =>
    have kept : Kept s t := kept_of_conns (by rw [ends]) (by rw [ends]) (by rw [ends])
    have ordered : t.pool.Ordered := by
      rw [ends]
      exact WorkPool.Pool.submit_ordered wired.ordered
    exact kept.wired wired ordered
  | aside quiet open_ kept pool => exact kept.wired wired (pool ▸ wired.ordered)
  | take w pool act took ends =>
    have kept : Kept s t := kept_of_conns (by rw [ends]) (by rw [ends]) (by rw [ends])
    have ordered : t.pool.Ordered := by
      rw [ends]
      exact WorkPool.Pool.take_ordered wired.ordered took
    exact kept.wired wired ordered
  | write w j k act held live ends =>
    rw [writen_spec] at ends
    have kept : Kept s t := kept_of_conns (by rw [ends]) (by rw [ends]) (by rw [ends])
    have ordered : t.pool.Ordered := by
      rw [ends]
      exact wired.ordered
    exact kept.wired wired ordered
  | unlock w c k act own live ends =>
    have kept : Kept s t := kept_setConn { k with wlk := none } live rfl Iff.rfl (by rw [ends]; rfl)
      (by rw [ends]; rfl) (by rw [ends])
    have ordered : t.pool.Ordered := by
      rw [ends]
      exact wired.ordered
    exact kept.wired wired ordered

/-- A frame whose ids fit into a byte. -/
def shortFrame (type sid fid : UInt8) : Bytes := [type, 0, 0, 0, 1, sid, fid]

end Spoa

end TransparentOffload
