import TransparentOffload.Device
import TransparentOffload.Stock

set_option autoImplicit false

/- The fibers of `conn_server` against its stock threads: each step of a fiber is
the stock thread's next step on the same socket, or no step at all. -/
namespace TransparentOffload

/-- The socket as a thread without the runtime would have it. -/
def Socket.blocking (k : Socket) : Socket := { k with nonblock := false }

/-- A real answer other than `EAGAIN` is one the blocking call can give, too. -/
theorem IoOp.real_blocking {op : IoOp} {k k' : Socket} {out : IoOut} {r : IoRet}
    (answer : op.real k out = some (k', r)) (ready : r ≠ .err eagain) :
    op.real k.blocking out = some (k'.blocking, r) := by
  have reads : ∀ n dontwait, k.realRead n dontwait out = some (k', r) →
      k.blocking.realRead n dontwait out = some (k'.blocking, r) := by
    intro n dontwait answer
    unfold Socket.realRead at answer ⊢
    cases out with
    | again =>
      dsimp only at answer
      split at answer <;> cases answer
      exact absurd rfl ready
    | part m =>
      dsimp only at answer ⊢
      split at answer <;> cases answer
      rename_i possible
      exact if_pos possible
    | eof =>
      dsimp only at answer ⊢
      split at answer <;> cases answer
      rename_i ended
      exact if_pos ended
    | fail e =>
      dsimp only at answer ⊢
      split at answer <;> cases answer
      rename_i other
      exact if_neg other
  have writes : ∀ bs dontwait, k.realWrite bs dontwait out = some (k', r) →
      k.blocking.realWrite bs dontwait out = some (k'.blocking, r) := by
    intro bs dontwait answer
    unfold Socket.realWrite at answer ⊢
    cases out with
    | again =>
      dsimp only at answer
      split at answer <;> cases answer
      exact absurd rfl ready
    | part m =>
      dsimp only at answer ⊢
      split at answer <;> cases answer
      rename_i possible
      exact if_pos possible
    | eof => cases answer
    | fail e =>
      dsimp only at answer ⊢
      split at answer <;> cases answer
      rename_i other
      exact if_neg other
  cases op with
  | read | recv | recvfrom => exact reads _ _ answer
  | write | send | sendto => exact writes _ _ answer

/-- `EAGAIN` leaves the socket as it was. -/
theorem IoOp.real_again_same {op : IoOp} {k k' : Socket} {out : IoOut}
    (answer : op.real k out = some (k', .err eagain)) : k' = k := by
  have reads : ∀ n dontwait, k.realRead n dontwait out = some (k', .err eagain) → k' = k := by
    intro n dontwait answer
    unfold Socket.realRead at answer
    cases out with
    | again | fail =>
      dsimp only at answer
      split at answer <;> cases answer
      rfl
    | part | eof =>
      dsimp only at answer
      split at answer <;> cases answer
  have writes : ∀ bs dontwait, k.realWrite bs dontwait out = some (k', .err eagain) → k' = k := by
    intro bs dontwait answer
    unfold Socket.realWrite at answer
    cases out with
    | again | fail =>
      dsimp only at answer
      split at answer <;> cases answer
      rfl
    | part =>
      dsimp only at answer
      split at answer <;> cases answer
    | eof => cases answer
  cases op with
  | read | recv | recvfrom => exact reads _ _ answer
  | write | send | sendto => exact writes _ _ answer

namespace ConnServer

open TransparentOffload.Runtime

variable {gEnforce : Bool} {ssl : SslSyms} {transform : Bytes → Bytes}

/-- The threads in the table, and those still in the queue. -/
def conns (s : Runtime Conn Unit) (i : Nat) : Option Conn := (s.fibs i).map Fiber.ctx

def queue (s : Runtime Conn Unit) : List Conn := s.newq.map Fiber.ctx

/-- What a step does to the connections. -/
inductive ConnStep (transform : Bytes → Bytes) (s s' : Runtime Conn Unit) : Act → Prop
  | keep {a : Act} (quiet : ∀ arg, a ≠ .create arg)
      (table : ∀ i t, conns s' i = some t → conns s i = some t)
      (queued : queue s' = queue s) (socks : ∀ fd, (s'.socks fd).blocking = (s.socks fd).blocking) :
      ConnStep transform s s' a
  | create {arg : Nat} (table : conns s' = conns s)
      (queued : queue s' = queue s ∨ queue s' = queue s ++ [.reading arg []])
      (socks : s'.socks = s.socks) : ConnStep transform s s' (.create arg)
  | intake {out : Out} (table : ∀ i t, conns s' i = some t →
        conns s i = some t ∨ ∃ k, (queue s)[k]? = some t ∧ i = s.nfib + k)
      (queued : queue s' = []) (socks : s'.socks = s.socks) :
      ConnStep transform s s' (.carrier out)
  | peer {a : Act} {fd : Fd} {b : StockAct} (quiet : ∀ arg, a ≠ .create arg)
      (table : conns s' = conns s) (queued : queue s' = queue s)
      (moved : ∀ t, stockStep transform (t, (s.socks fd).blocking) b =
        some (t, (s'.socks fd).blocking))
      (others : ∀ fd', fd' ≠ fd → s'.socks fd' = s.socks fd') : ConnStep transform s s' a
  | turn {out : Out} {i : Nat} {fd : Fd} {t t' : Conn} {b : StockAct}
      (live : conns s i = some t) (owns : t.fd = some fd)
      (table : conns s' = Function.update (conns s) i (some t')) (queued : queue s' = queue s)
      (moved : stockStep transform (t, (s.socks fd).blocking) b =
        some (t', (s'.socks fd).blocking))
      (others : ∀ fd', fd' ≠ fd → s'.socks fd' = s.socks fd') :
      ConnStep transform s s' (.carrier out)

/-- A step of the carrier that leaves every connection where it is. -/
theorem ConnStep.parked {s s' : Runtime Conn Unit} {out : Out} (table : conns s' = conns s)
    (queued : queue s' = queue s) (socks : ∀ fd, (s'.socks fd).blocking = (s.socks fd).blocking) :
    ConnStep transform s s' (.carrier out) :=
  .keep nofun (fun _ _ there => table ▸ there) queued socks

theorem conns_update {s s' : Runtime Conn Unit} {i : Nat} {f' : Fiber Conn}
    (fibs : s'.fibs = Function.update s.fibs i (some f')) :
    conns s' = Function.update (conns s) i (some f'.ctx) := by
  funext j
  unfold conns
  rw [fibs]
  by_cases here : j = i
  · subst here
    simp
  · simp [here]

theorem conns_same {s s' : Runtime Conn Unit} {i : Nat} {f f' : Fiber Conn}
    (live : s.fibs i = some f) (fibs : s'.fibs = Function.update s.fibs i (some f'))
    (ctx : f'.ctx = f.ctx) : conns s' = conns s := by
  have here : conns s i = some f.ctx := by simp [conns, live]
  rw [conns_update fibs, ctx, ← here, Function.update_eq_self]

/-- Making a descriptor non-blocking changes nothing a blocking thread sees. -/
theorem ioSock_blocking (s : Runtime Conn Unit) (place : Place) (fd : Fd) :
    (s.ioSock place fd).blocking = (s.socks fd).blocking := by
  unfold ioSock
  split <;> rfl

/-- A socket call of a fiber parks with nothing changed or is the stock thread's call. -/
theorem slice_io_connStep {s s' : Runtime Conn Unit} {i : Nat} {f : Fiber Conn} {out : Out}
    {op : IoOp} {fd : Fd} {k : IoRet → Conn} (live : s.fibs i = some f)
    (taken : Slice (config gEnforce ssl transform) s i f out s')
    (code : connThread f.ctx = .io op fd k) (owns : f.ctx.fd = some fd) :
    ConnStep transform s s' (.carrier out) := by
  have here : conns s i = some f.ctx := by simp [conns, live]
  rcases slice_io taken code with ⟨_, rfl⟩ | ⟨owner, sock, r, place, moved, real, parked | done⟩
  · exact .parked (conns_same live rfl rfl) rfl (fun _ => rfl)
  · obtain ⟨rfl, rfl⟩ := parked
    have same := IoOp.real_again_same real
    refine .parked (conns_same live rfl rfl) rfl ?_
    intro fd'
    show (Function.update s.socks fd sock fd').blocking = _
    by_cases other : fd' = fd
    · subst other
      rw [Function.update_self, same, ioSock_blocking]
    · rw [Function.update_of_ne other]
  · obtain ⟨ready, rfl⟩ := done
    have answer := IoOp.real_blocking real ready
    rw [ioSock_blocking] at answer
    refine .turn (b := .turn out.io) here owns (conns_update (s := s) rfl) rfl ?_ ?_
    · show stockStep transform _ _ = some (k r, (Function.update s.socks fd sock fd).blocking)
      rw [stockStep, code, Function.update_self]
      dsimp only
      rw [answer]
      rfl
    · exact fun fd' other => Function.update_of_ne other ..

/-- What a slice of a connection's fiber does. -/
theorem slice_connStep {s s' : Runtime Conn Unit} {i : Nat} {f : Fiber Conn} {out : Out}
    (results : OffloadResults (config gEnforce ssl transform) s) (live : s.fibs i = some f)
    (runnable : f.Runnable) (taken : Slice (config gEnforce ssl transform) s i f out s') :
    ConnStep transform s s' (.carrier out) := by
  have here : conns s i = some f.ctx := by simp [conns, live]
  have own : ∀ {t : Conn}, f.ctx = t → (config gEnforce ssl transform).app.code f.ctx =
      connThread t := by
    intro t same
    rw [same]
    rfl
  cases at_ : f.ctx with
  | reading fd buf =>
    exact slice_io_connStep live taken (own at_) (by rw [at_]; rfl)
  | writing fd buf put =>
    exact slice_io_connStep live taken (own at_) (by rw [at_]; rfl)
  | encrypting fd buf =>
    rcases slice_accel taken (own at_) with ⟨_, rfl⟩ | ⟨id, place, rfl⟩
    · exact .parked (conns_same live rfl rfl) rfl (fun _ => rfl)
    · have result := results.resumed live runnable place (own at_)
      rw [at_] at here
      refine .turn (b := .turn out.io) here rfl (conns_update (s := s) rfl) rfl ?_
        (fun _ _ => rfl)
      rw [result]
      rfl
  | closing fd =>
    have closed := slice_close taken (own at_)
    subst closed
    rw [at_] at here
    exact .turn (b := .turn out.io) here rfl (conns_update (s := s) rfl) rfl rfl
      (fun _ _ => rfl)
  | returned =>
    have returned := slice_ret taken (own at_)
    subst returned
    exact .parked (conns_same live rfl rfl) rfl (fun _ => rfl)

/-- Apart from an intake, only a slice moves a thread on. -/
theorem conns_aside {c : Config Conn Unit} {s s' : Runtime Conn Unit} {a : Act}
    (taken : step c s a = some s') (still : ∀ out i, a = .carrier out → s.pc ≠ .slice i)
    (started : s.pc ≠ .intake) {i : Nat} {t : Conn} (there : conns s' i = some t) :
    conns s i = some t := by
  obtain ⟨f', live', rfl⟩ := Option.map_eq_some_iff.mp there
  rcases step_fiber taken live' with ⟨f, live, moved⟩ | ⟨_, _, _, _, _, pc⟩
  · have aside := moved.aside fun out same => still out i same
    simp [conns, live, aside.ctx]
  · exact absurd pc started

theorem step_connStep {s s' : Runtime Conn Unit} {a : Act}
    (formed : Formed (config gEnforce ssl transform) s)
    (results : OffloadResults (config gEnforce ssl transform) s)
    (taken : step (config gEnforce ssl transform) s a = some s') :
    ConnStep transform s s' a := by
  have kept := taken
  cases stepped taken with
  | create arg =>
    refine .create ?_ ?_ ?_
    · unfold conns
      rw [pthreadCreate_fibs]
    · unfold pthreadCreate queue
      dsimp only
      split
      · right
        simp [Fiber.make, config, app]
      · exact Or.inl rfl
    · unfold pthreadCreate
      dsimp only
      split <;> rfl
  | reserveNone | reserve | publish | threadLock | threadUnlock | device =>
    exact .keep nofun (fun _ _ there => there) rfl (fun _ => rfl)
  | socket fd k peer =>
    have others : ∀ fd', fd' ≠ fd → (s.setSock fd k).socks fd' = s.socks fd' :=
      fun fd' other => Function.update_of_ne other ..
    have self : (s.setSock fd k).socks fd = k := Function.update_self ..
    rcases peer with ⟨bs, rfl, rfl⟩ | ⟨rfl, rfl⟩
    · refine .peer (b := .arrive bs) nofun rfl rfl ?_ others
      intro t
      rw [self]
      rfl
    · refine .peer (b := .hangup) nofun rfl rfl ?_ others
      intro t
      rw [self]
      rfl
  | @round out _ round =>
    cases round with
    | intake pc =>
      rw [intake_eq]
      refine .intake ?_ rfl rfl
      intro i t there
      obtain ⟨f, live, rfl⟩ := Option.map_eq_some_iff.mp there
      rcases takenIn_some live with ⟨old, _⟩ | ⟨k, g, found, place, rfl⟩
      · exact Or.inl (by simp [conns, old])
      · exact Or.inr ⟨k, by simp [queue, found], place⟩
    | slice pc live slice => exact slice_connStep results live (formed.runnable live pc) slice
    | epoll pc =>
      obtain ⟨epoll, fibs, same⟩ := deliverAll_frame s out.events
      refine .keep nofun (fun i t => conns_aside kept (by simp [pc]) (by simp [pc])) ?_ ?_
      · rw [epollWait, same]
        rfl
      · rw [epollWait, same]
        exact fun _ => rfl
    | switchIn pc =>
      obtain ⟨errno, errq, same⟩ := switchIn_frame (config gEnforce ssl transform) s _ _
      refine .keep nofun (fun i t => conns_aside kept (by simp [pc]) (by simp [pc])) ?_ ?_
      · rw [same]
        rfl
      · rw [same]
        exact fun _ => rfl
    | goOn => exact .keep nofun (fun _ _ there => there) rfl (fun _ => rfl)
    | offloadDone pc | drain pc | expire pc | free pc =>
      exact .keep nofun (fun i t => conns_aside kept (by simp [pc]) (by simp [pc])) rfl
        (fun _ => rfl)

/-- A thread never takes another descriptor. -/
theorem stockStep_fd {t t' : Conn} {k k' : Socket} {a : StockAct} {fd : Fd}
    (taken : stockStep transform (t, k) a = some (t', k')) (owns : t'.fd = some fd) :
    t.fd = some fd := by
  cases a with
  | arrive | hangup =>
    cases taken
    exact owns
  | turn out =>
    rw [stockStep] at taken
    cases t with
    | reading fd' buf =>
      obtain ⟨⟨k₁, r⟩, _, answer⟩ := Option.map_eq_some_iff.mp taken
      cases answer
      rwa [afterRead_fd] at owns
    | encrypting fd' buf =>
      cases taken
      exact owns
    | writing fd' buf put =>
      obtain ⟨⟨k₁, r⟩, _, answer⟩ := Option.map_eq_some_iff.mp taken
      cases answer
      rwa [afterWrite_fd] at owns
    | closing =>
      cases taken
      cases owns
    | returned => cases taken

/-- The descriptor that a creation hands to its thread. -/
def created : Act → Option Fd
  | .create arg => some arg
  | _ => none

/-- Each connection stands where a stock run of it can stand, and no two fibers
have a connection in common; `used` lists the descriptors handed out so far. -/
structure Serving (transform : Bytes → Bytes) (used : List Fd) (s : Runtime Conn Unit) :
    Prop where
  stock : ∀ fd, ∃ t, StockReach transform fd t (s.socks fd).blocking ∧
    (.reading fd [] ∈ queue s ∨ fd ∉ used → t = .reading fd []) ∧
    ∀ i t', conns s i = some t' → t'.fd = some fd → t' = t
  queued : ∀ t ∈ queue s, ∃ fd ∈ used, t = .reading fd []
  known : ∀ i t fd, conns s i = some t → t.fd = some fd → fd ∈ used
  once : (queue s).Nodup
  apart : ∀ i j t t' fd, conns s i = some t → conns s j = some t' → t.fd = some fd →
    t'.fd = some fd → i = j
  waiting : ∀ i t fd, conns s i = some t → t.fd = some fd → .reading fd [] ∉ queue s

theorem init_serving (transform : Bytes → Bytes) (detOn : Bool)
    (kinds : MutexId → MutexKind) : Serving transform [] (Runtime.init () detOn kinds) := by
  refine ⟨?_, nofun, nofun, List.nodup_nil, nofun, nofun⟩
  intro fd
  exact ⟨_, .init transform fd, fun _ => rfl, nofun⟩

namespace Serving

variable {used : List Fd} {s s' : Runtime Conn Unit}

/-- Fewer threads on the same sockets. -/
theorem fewer (serving : Serving transform used s)
    (table : ∀ i t, conns s' i = some t → conns s i = some t) (queued : queue s' = queue s)
    (socks : ∀ fd, (s'.socks fd).blocking = (s.socks fd).blocking) :
    Serving transform used s' := by
  refine ⟨?_, ?_, ?_, ?_, ?_, ?_⟩
  · intro fd
    rw [queued, socks]
    obtain ⟨t, reached, start, same⟩ := serving.stock fd
    exact ⟨t, reached, start, fun i t' there => same i t' (table i t' there)⟩
  · rw [queued]
    exact serving.queued
  · exact fun i t fd there => serving.known i t fd (table i t there)
  · rw [queued]
    exact serving.once
  · exact fun i j t t' fd first second =>
      serving.apart i j t t' fd (table i t first) (table j t' second)
  · rw [queued]
    exact fun i t fd there => serving.waiting i t fd (table i t there)

theorem create (serving : Serving transform used s) {arg : Fd} (fresh : arg ∉ used)
    (table : conns s' = conns s)
    (queued : queue s' = queue s ∨ queue s' = queue s ++ [.reading arg []])
    (socks : s'.socks = s.socks) : Serving transform (used ++ [arg]) s' := by
  have member : ∀ t, t ∈ queue s' → t ∈ queue s ∨ t = .reading arg [] := by
    intro t inside
    rcases queued with same | more
    · exact Or.inl (same ▸ inside)
    · rw [more, List.mem_append, List.mem_singleton] at inside
      exact inside
  have absent : Conn.reading arg [] ∉ queue s := by
    intro inside
    obtain ⟨fd, old, same⟩ := serving.queued _ inside
    cases same
    exact fresh old
  refine ⟨?_, ?_, ?_, ?_, ?_, ?_⟩
  · intro fd
    rw [table, socks]
    obtain ⟨t, reached, start, same⟩ := serving.stock fd
    refine ⟨t, reached, ?_, same⟩
    rintro (inside | unused)
    · rcases member _ inside with old | new
      · exact start (Or.inl old)
      · cases new
        exact start (Or.inr fresh)
    · exact start (Or.inr fun old => unused (List.mem_append_left _ old))
  · intro t inside
    rcases member t inside with old | rfl
    · obtain ⟨fd, known, same⟩ := serving.queued t old
      exact ⟨fd, List.mem_append_left _ known, same⟩
    · exact ⟨arg, List.mem_append_right _ List.mem_cons_self, rfl⟩
  · rw [table]
    exact fun i t fd there owns => List.mem_append_left _ (serving.known i t fd there owns)
  · rcases queued with same | more
    · rw [same]
      exact serving.once
    · rw [more]
      apply List.nodup_append.mpr
      refine ⟨serving.once, by simp, ?_⟩
      intro t inside t' new same
      rw [List.mem_singleton] at new
      exact absent (new ▸ same ▸ inside)
  · rw [table]
    exact serving.apart
  · rw [table]
    intro i t fd there owns inside
    rcases member _ inside with old | new
    · exact serving.waiting i t fd there owns old
    · cases new
      exact fresh (serving.known i t arg there owns)

theorem intake (serving : Serving transform used s)
    (table : ∀ i t, conns s' i = some t →
      conns s i = some t ∨ ∃ k, (queue s)[k]? = some t ∧ i = s.nfib + k)
    (queued : queue s' = []) (socks : s'.socks = s.socks) : Serving transform used s' := by
  have taken : ∀ i t fd, conns s' i = some t → t.fd = some fd →
      conns s i = some t ∨ ∃ k, (queue s)[k]? = some (.reading fd []) ∧ i = s.nfib + k ∧
        t = .reading fd [] := by
    intro i t fd there owns
    rcases table i t there with old | ⟨k, found, place⟩
    · exact Or.inl old
    · obtain ⟨fd', _, rfl⟩ := serving.queued t (List.mem_of_getElem? found)
      cases owns
      exact Or.inr ⟨k, found, place, rfl⟩
  refine ⟨?_, ?_, ?_, ?_, ?_, ?_⟩
  · intro fd
    rw [socks]
    obtain ⟨t, reached, start, same⟩ := serving.stock fd
    refine ⟨t, reached, ?_, ?_⟩
    · rintro (inside | unused)
      · rw [queued] at inside
        cases inside
      · exact start (Or.inr unused)
    · intro i t' there owns
      rcases taken i t' fd there owns with old | ⟨k, found, _, rfl⟩
      · exact same i t' old owns
      · exact (start (Or.inl (List.mem_of_getElem? found))).symm
  · rw [queued]
    exact nofun
  · intro i t fd there owns
    rcases taken i t fd there owns with old | ⟨k, found, _, _⟩
    · exact serving.known i t fd old owns
    · obtain ⟨fd', known, same⟩ := serving.queued _ (List.mem_of_getElem? found)
      cases same
      exact known
  · rw [queued]
    exact List.nodup_nil
  · intro i j t t' fd first second owns owns'
    rcases taken i t fd first owns with old | ⟨k, found, place, _⟩
    · rcases taken j t' fd second owns' with old' | ⟨_, found', _⟩
      · exact serving.apart i j t t' fd old old' owns owns'
      · exact absurd (List.mem_of_getElem? found') (serving.waiting i t fd old owns)
    · rcases taken j t' fd second owns' with old' | ⟨l, found', place', _⟩
      · exact absurd (List.mem_of_getElem? found) (serving.waiting j t' fd old' owns')
      · have inside := (List.getElem?_eq_some_iff.mp found).1
        have same : k = l := (List.getElem?_inj inside serving.once).mp (found.trans found'.symm)
        rw [place, place', same]
  · rw [queued]
    exact fun _ _ _ _ _ => List.not_mem_nil

theorem peer (serving : Serving transform used s) {fd : Fd} {act : StockAct}
    (table : conns s' = conns s) (queued : queue s' = queue s)
    (moved : ∀ t, stockStep transform (t, (s.socks fd).blocking) act =
      some (t, (s'.socks fd).blocking))
    (others : ∀ fd', fd' ≠ fd → s'.socks fd' = s.socks fd') : Serving transform used s' := by
  refine ⟨?_, ?_, ?_, ?_, ?_, ?_⟩
  · intro fd'
    rw [queued, table]
    obtain ⟨t, reached, start, same⟩ := serving.stock fd'
    by_cases here : fd' = fd
    · subst here
      exact ⟨t, reached.next (moved t), start, same⟩
    · rw [others fd' here]
      exact ⟨t, reached, start, same⟩
  · rw [queued]
    exact serving.queued
  · rw [table]
    exact serving.known
  · rw [queued]
    exact serving.once
  · rw [table]
    exact serving.apart
  · rw [queued, table]
    exact serving.waiting

/-- A thread that takes its next step keeps its connection to itself. -/
theorem turn (serving : Serving transform used s) {i : Nat} {fd : Fd} {t t' : Conn}
    {act : StockAct} (live : conns s i = some t) (owns : t.fd = some fd)
    (table : conns s' = Function.update (conns s) i (some t')) (queued : queue s' = queue s)
    (moved : stockStep transform (t, (s.socks fd).blocking) act =
      some (t', (s'.socks fd).blocking))
    (others : ∀ fd', fd' ≠ fd → s'.socks fd' = s.socks fd') : Serving transform used s' := by
  have before : ∀ j t₁ fd₁, conns s' j = some t₁ → t₁.fd = some fd₁ →
      ∃ t₀, conns s j = some t₀ ∧ t₀.fd = some fd₁ ∧ (j ≠ i → t₀ = t₁) ∧
        (j = i → t₁ = t' ∧ fd₁ = fd) := by
    intro j t₁ fd₁ there owns₁
    rw [table] at there
    by_cases here : j = i
    · subst here
      rw [Function.update_self, Option.some.injEq] at there
      subst there
      have kept := stockStep_fd moved owns₁
      rw [owns, Option.some.injEq] at kept
      exact ⟨t, live, kept ▸ owns, fun other => absurd rfl other, fun _ => ⟨rfl, kept.symm⟩⟩
    · rw [Function.update_of_ne here] at there
      exact ⟨t₁, there, owns₁, fun _ => rfl, fun same => absurd same here⟩
  refine ⟨?_, ?_, ?_, ?_, ?_, ?_⟩
  · intro fd₁
    rw [queued]
    obtain ⟨t₀, reached, start, same⟩ := serving.stock fd₁
    by_cases here : fd₁ = fd
    · subst here
      have at_ := same i t live owns
      subst at_
      refine ⟨t', reached.next moved, ?_, ?_⟩
      · rintro (inside | unused)
        · exact absurd inside (serving.waiting i t fd₁ live owns)
        · exact absurd (serving.known i t fd₁ live owns) unused
      · intro j t₁ there owns₁
        obtain ⟨t₀, old, owns₀, _, moved_⟩ := before j t₁ fd₁ there owns₁
        exact (moved_ (serving.apart j i t₀ t fd₁ old live owns₀ owns)).1
    · rw [others fd₁ here]
      refine ⟨t₀, reached, start, ?_⟩
      intro j t₁ there owns₁
      obtain ⟨t₂, old, owns₂, still, moved_⟩ := before j t₁ fd₁ there owns₁
      have other : j ≠ i := fun same => here (moved_ same).2
      exact still other ▸ same j t₂ old owns₂
  · rw [queued]
    exact serving.queued
  · intro j t₁ fd₁ there owns₁
    obtain ⟨t₀, old, owns₀, _⟩ := before j t₁ fd₁ there owns₁
    exact serving.known j t₀ fd₁ old owns₀
  · rw [queued]
    exact serving.once
  · intro j k t₁ t₂ fd₁ first second owns₁ owns₂
    obtain ⟨t₃, old, owns₃, _⟩ := before j t₁ fd₁ first owns₁
    obtain ⟨t₄, old', owns₄, _⟩ := before k t₂ fd₁ second owns₂
    exact serving.apart j k t₃ t₄ fd₁ old old' owns₃ owns₄
  · rw [queued]
    intro j t₁ fd₁ there owns₁
    obtain ⟨t₀, old, owns₀, _⟩ := before j t₁ fd₁ there owns₁
    exact serving.waiting j t₀ fd₁ old owns₀

end Serving

theorem ConnStep.serving {used : List Fd} {s s' : Runtime Conn Unit} {a : Act}
    (moved : ConnStep transform s s' a) (serving : Serving transform used s)
    (fresh : ∀ fd, created a = some fd → fd ∉ used) :
    Serving transform (used ++ (created a).toList) s' := by
  have quietly : (∀ arg, a ≠ .create arg) → used ++ (created a).toList = used := by
    intro quiet
    cases a with
    | create arg => exact absurd rfl (quiet arg)
    | _ => exact List.append_nil used
  cases moved with
  | keep quiet table queued socks =>
    rw [quietly quiet]
    exact serving.fewer table queued socks
  | create table queued socks => exact serving.create (fresh _ rfl) table queued socks
  | intake table queued socks =>
    rw [quietly nofun]
    exact serving.intake table queued socks
  | peer quiet table queued moved others =>
    rw [quietly quiet]
    exact serving.peer table queued moved others
  | turn live owns table queued moved others =>
    rw [quietly nofun]
    exact serving.turn live owns table queued moved others

/-- What holds of the server's fibers in every reachable state. -/
structure ServerInv (gEnforce : Bool) (ssl : SslSyms) (transform : Bytes → Bytes)
    (used : List Fd) (s : Runtime Conn Unit) : Prop where
  formed : Formed (config gEnforce ssl transform) s
  results : OffloadResults (config gEnforce ssl transform) s
  serving : Serving transform used s

theorem run_serverInv {acts : List Act} {used : List Fd} {s s' : Runtime Conn Unit}
    (inv : ServerInv gEnforce ssl transform used s)
    (distinct : (used ++ acts.filterMap created).Nodup)
    (contract : Machine.Guarded (step (config gEnforce ssl transform)) DeviceContract s acts)
    (ran : runActs (config gEnforce ssl transform) s acts = some s') :
    ServerInv gEnforce ssl transform (used ++ acts.filterMap created) s' := by
  induction acts generalizing used s with
  | nil =>
    rw [runActs, Machine.run_nil, Option.some.injEq] at ran
    subst ran
    rwa [List.filterMap_nil, List.append_nil]
  | cons a rest ih =>
    obtain ⟨t, taken, ran⟩ := Machine.run_cons_eq_some.mp ran
    have split : used ++ (a :: rest).filterMap created =
        (used ++ (created a).toList) ++ rest.filterMap created := by
      rw [List.append_assoc]
      cases h : created a with
      | none => rw [List.filterMap_cons_none h]; rfl
      | some fd => rw [List.filterMap_cons_some h]; rfl
    rw [split] at distinct ⊢
    have fresh : ∀ fd, created a = some fd → fd ∉ used := by
      intro fd new old
      have once := (List.nodup_append.mp (List.nodup_append.mp distinct).1).2.2
      exact once fd old fd (by simp [new]) rfl
    have next : ServerInv gEnforce ssl transform (used ++ (created a).toList) t :=
      { formed := step_formed inv.formed taken
        results := step_offloadResults inv.formed inv.results contract.1 taken
        serving := (step_connStep inv.formed inv.results taken).serving inv.serving fresh }
    exact ih next distinct (contract.2 t taken) ran

theorem init_serverInv (gEnforce : Bool) (ssl : SslSyms) (transform : Bytes → Bytes)
    (detOn : Bool) (kinds : MutexId → MutexKind) :
    ServerInv gEnforce ssl transform [] (Runtime.init () detOn kinds) where
  formed := init_formed _ () detOn kinds
  results := init_offloadResults _ () detOn kinds
  serving := init_serving transform detOn kinds

/-- Whatever the carrier, the peers and the device do, each connection of the server
is at every moment where its stock thread could be after the same input, and what it
has written is a prefix of the responses to its own requests. The detector and the
enforcement may be on or off. -/
theorem fibers_write_what_stock_threads_write (gEnforce : Bool) (ssl : SslSyms)
    (transform : Bytes → Bytes) (inPlace : ∀ bs, (transform bs).length = bs.length)
    (detOn : Bool) (kinds : MutexId → MutexKind) (acts : List Act) (s : Runtime Conn Unit)
    (ran : runActs (config gEnforce ssl transform) (Runtime.init () detOn kinds) acts = some s)
    (distinct : (acts.filterMap created).Nodup)
    (contract : Machine.Guarded (step (config gEnforce ssl transform)) DeviceContract
      (Runtime.init () detOn kinds) acts) :
    ∀ fd, (∃ t, StockReach transform fd t (s.socks fd).blocking ∧
        ∀ i f, s.fibs i = some f → f.ctx.fd = some fd → f.ctx = t) ∧
      (s.socks fd).tx <+: responses transform (s.socks fd).arrived := by
  have inv := run_serverInv (init_serverInv gEnforce ssl transform detOn kinds)
    (by simpa using distinct) contract ran
  intro fd
  obtain ⟨t, reached, _, same⟩ := inv.serving.stock fd
  have written : (s.socks fd).blocking.tx <+: responses transform (s.socks fd).blocking.arrived :=
    reached.tx_isPrefix inPlace
  refine ⟨⟨t, reached, ?_⟩, written⟩
  intro i f live owns
  exact same i f.ctx (by simp [conns, live]) owns

/-- One connection sends a request and gets its response. -/
def oneRequest : List Act :=
  [.create 5, .arrive 5 (List.replicate 4096 7)] ++ List.replicate 8 (.carrier .quiet) ++
    [.carrier { Out.quiet with io := .part 4096 }] ++ List.replicate 3 (.carrier .quiet) ++
    [.device 0] ++ List.replicate 2 (.carrier .quiet) ++
    [.carrier { Out.quiet with done := true }] ++ List.replicate 6 (.carrier .quiet) ++
    [.carrier { Out.quiet with io := .part 4096 }]

/-- Its four thousand and ninety-six bytes, on a device that leaves each buffer unchanged. -/
theorem oneRequest_written : ∃ s,
    runActs (config false .absent id) (Runtime.init () false fun _ => .normal) oneRequest =
      some s ∧ (s.socks 5).tx.length = 4096 ∧
    ∀ fd, (∃ t, StockReach id fd t (s.socks fd).blocking ∧
        ∀ i f, s.fibs i = some f → f.ctx.fd = some fd → f.ctx = t) ∧
      (s.socks fd).tx <+: responses id (s.socks fd).arrived := by
  have served : (runActs (config false .absent id) (Runtime.init () false fun _ => .normal)
      oneRequest).map (fun s => (s.socks 5).tx.length) = some 4096 := by decide +kernel
  have contract : Machine.Guarded (step (config false .absent id)) DeviceContract
      (Runtime.init () false fun _ => .normal) oneRequest := by decide +kernel
  obtain ⟨s, ran, length⟩ := Option.map_eq_some_iff.mp served
  exact ⟨s, ran, length, fibers_write_what_stock_threads_write false .absent id (fun _ => rfl)
    false (fun _ => .normal) oneRequest s ran (by decide) contract⟩

end ConnServer

end TransparentOffload
