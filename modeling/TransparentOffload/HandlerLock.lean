import TransparentOffload.Formed
import TransparentOffload.Servers

set_option autoImplicit false

/- The handler lock of the two-phase enforcement: `read` takes it, `write` lets it
go, and the slot in `hlock_owner` should be in the middle of a handler. -/
namespace TransparentOffload

variable {σ γ : Type}

namespace Runtime

/-- While enforcement is active, the owner of the handler lock is a live fiber
that has received a byte since its last `write`. -/
def OwnerInHandler (c : Config σ γ) (s : Runtime σ γ) : Prop :=
  s.enforcing c.gEnforce = true → ∀ i, s.hlockOwner = some i →
    ∃ f, s.fibs i = some f ∧ f.state ≠ .done ∧ 0 < f.got

/-- The next step of `f` is a `read` whose `hl_acquire` succeeds. -/
def TakesLock (c : Config σ γ) (s : Runtime σ γ) (f : Fiber σ) : Prop :=
  (∃ n fd k, c.app.code f.ctx = .io (.read n) fd k) ∧
    ((f.place = .app ∧ s.enforcing c.gEnforce = true) ∨ f.place = .handlerLock) ∧
    s.handlerBusy f.slot = false

def Returns (c : Config σ γ) (f : Fiber σ) : Prop :=
  c.app.code f.ctx = .ret ∧ f.place = .app

/-- A `read` takes the lock for a fiber without a byte of a request only when the
kernel has bytes for it, and no thread function returns with the lock. -/
def LockedForData (c : Config σ γ) (s : Runtime σ γ) : Act → Prop
  | .carrier out => ∀ i f, s.pc = .slice i → s.fibs i = some f →
      (TakesLock c s f → f.got = 0 → ∃ m, out.io = .part (m + 1)) ∧
      (Returns c f → s.enforcing c.gEnforce = true → s.hlockOwner ≠ some i)
  | _ => True

/-- What holds of the lock along a run of such steps. -/
structure LockInv (c : Config σ γ) (s : Runtime σ γ) : Prop where
  formed : Formed c s
  owner : s.OwnerInHandler c
  unused : s.enforcing c.gEnforce = false → s.hlockOwner = none
  waiting : ∀ i f, s.fibs i = some f → f.place = .handlerLock → s.enforcing c.gEnforce = true

theorem init_lockInv (c : Config σ γ) (mem : γ) (detOn : Bool) (kinds : MutexId → MutexKind) :
    LockInv c (init mem detOn kinds) := by
  refine ⟨init_formed c mem detOn kinds, ?_, ?_, ?_⟩
  all_goals simp [init, OwnerInHandler]

theorem enforcing_mono {s s' : Runtime σ γ} (gEnforce : Bool)
    (more : s.det.detConflicts ≤ s'.det.detConflicts) (active : s.enforcing gEnforce = true) :
    s'.enforcing gEnforce = true := by
  unfold enforcing at active ⊢
  rw [Bool.or_eq_true, decide_eq_true_eq] at active ⊢
  exact active.imp_right fun some => Nat.lt_of_lt_of_le some more

def ioSize : IoOut → Nat
  | .part m => m
  | _ => 0

theorem realRead_size {k k' : Socket} {n : Nat} {dontwait : Bool} {out : IoOut} {r : IoRet}
    (answer : k.realRead n dontwait out = some (k', r)) : retGot r = ioSize out := by
  unfold Socket.realRead at answer
  split at answer
  · split at answer
    · cases answer
      rfl
    · cases answer
  · rename_i m
    split at answer
    · rename_i fits
      cases answer
      simp [retGot, ioSize, fits.2.1]
    · cases answer
  · split at answer
    · cases answer
      rfl
    · cases answer
  · split at answer
    · cases answer
    · cases answer
      rfl

/-- What a slice does to the lock and to the bytes its fiber counts. -/
inductive LockEffect (c : Config σ γ) (s : Runtime σ γ) (f : Fiber σ) (out : Out) :
    Option Nat → Fiber σ → Prop
  | steady {f' : Fiber σ} (more : f.got ≤ f'.got) (alive : f'.state = f.state ∨ f'.state ≠ .done) :
      LockEffect c s f out s.hlockOwner f'
  | take {f' : Fiber σ} (takes : TakesLock c s f) (got : f'.got = f.got + ioSize out.io)
      (alive : f'.state = f.state ∨ f'.state ≠ .done) : LockEffect c s f out (some f.slot) f'
  | drop {f' : Fiber σ} (own : s.hlockOwner = some f.slot) : LockEffect c s f out none f'
  | write {f' : Fiber σ}
      (foreign : s.enforcing c.gEnforce = true → s.hlockOwner ≠ some f.slot) :
      LockEffect c s f out s.hlockOwner f'
  | done {f' : Fiber σ} (returns : Returns c f) (ended : f'.state = .done) :
      LockEffect c s f out s.hlockOwner f'

/-- The effect of a socket call, whether it returns `r` or parks on `EAGAIN`. -/
theorem LockMove.effect {c : Config σ γ} {s : Runtime σ γ} {f f' : Fiber σ} {out : Out}
    {op : IoOp} {fd : Fd} {k : IoRet → σ} {owner : Option Nat} {sock : Socket} {r : IoRet}
    (code : c.app.code f.ctx = .io op fd k) (moved : LockMove c s f op owner)
    (real : op.real (s.ioSock f.place fd) out.io = some (sock, r))
    (got : f'.got = ioGot f op + retGot r)
    (alive : f'.state = f.state ∨ f'.state ≠ .done) : LockEffect c s f out owner f' := by
  cases moved with
  | keep reading again writing =>
    by_cases resets : f.place = .app ∧ op.isWrite = true
    · obtain ⟨bs, isWrite⟩ : ∃ bs, op = .write bs := by
        cases op with
        | write bs => exact ⟨bs, rfl⟩
        | read | recv | recvfrom | send | sendto => cases resets.2
      exact .write (writing bs isWrite resets.1)
    · have counted : ioGot f op = f.got := if_neg resets
      exact .steady (by omega) alive
  | take n reading start free =>
    subst reading
    have idle : s.handlerBusy f.slot = false := by
      rcases free with none | own
      · simp [handlerBusy, none]
      · simp [handlerBusy, own]
    have counted : ioGot f (.read n) = f.got := if_neg (by simp [IoOp.isWrite])
    refine .take ⟨⟨n, fd, k, code⟩, start, idle⟩ ?_ alive
    rw [got, counted, realRead_size real]
  | drop _ _ _ _ own => exact .drop own

theorem slice_effect {c : Config σ γ} {s s' : Runtime σ γ} {i : Nat} {f : Fiber σ} {out : Out}
    (taken : Slice c s i f out s') :
    ∃ f', s'.fibs i = some f' ∧ s.det.detConflicts ≤ s'.det.detConflicts ∧
      LockEffect c s f out s'.hlockOwner f' := by
  cases taken with
  | @plain writes next =>
    exact ⟨_, Function.update_self .., s.det.le_stores_detConflicts f.df writes,
      .steady (Nat.le_refl _) (Or.inl rfl)⟩
  | pollPass | pollRet | offloadRet | lockTaken | lockFailed | errQueue | close =>
    exact ⟨_, Function.update_self .., Nat.le_refl _, .steady (Nat.le_refl _) (Or.inl rfl)⟩
  | condWake =>
    exact ⟨_, Function.update_self .., Nat.le_refl _, .steady (Nat.le_refl _) (Or.inl rfl)⟩
  | lockBusy | lockWait =>
    exact ⟨_, Function.update_self .., Nat.le_refl _,
      .steady (Nat.le_refl _) (Or.inr (by simp [Fiber.tlsSave]))⟩
  | ioReturn place code moved real ready =>
    exact ⟨_, Function.update_self .., Nat.le_refl _,
      moved.effect code real rfl (Or.inl rfl)⟩
  | ioPark place code moved real =>
    exact ⟨_, Function.update_self .., Nat.le_refl _,
      moved.effect code real rfl (Or.inr (by simp [Fiber.tlsSave]))⟩
  | pollPark =>
    unfold yieldIoTo
    split <;> exact ⟨_, Function.update_self .., Nat.le_refl _,
      .steady (Nat.le_refl _) (Or.inr (by simp [Fiber.tlsSave]))⟩
  | offload =>
    have parked : s.det.detConflicts = (s.det.detPark f.df).1.detConflicts := by simp
    exact ⟨_, Function.update_self .., Nat.le_of_eq parked,
      .steady (Nat.le_refl _) (Or.inr (by simp [Fiber.tlsSave]))⟩
  | unlock =>
    unfold mutexUnlock releaseMutex
    dsimp only
    split <;> exact ⟨_, Function.update_self .., Nat.le_refl _,
      .steady (Nat.le_refl _) (Or.inl rfl)⟩
  | condWait =>
    unfold fiberCondWait releaseMutex
    dsimp only
    split <;> exact ⟨_, Function.update_self .., Nat.le_refl _,
      .steady (Nat.le_refl _) (Or.inr (by simp))⟩
  | exit place code =>
    exact ⟨_, Function.update_self .., Nat.le_refl _, .done ⟨code, place⟩ rfl⟩

theorem slice_waiting {c : Config σ γ} {s s' : Runtime σ γ} {i : Nat} {f f' : Fiber σ}
    {out : Out} (taken : Slice c s i f out s') (live : s'.fibs i = some f')
    (waits : f'.place = .handlerLock) :
    f.place = .handlerLock ∨ s.enforcing c.gEnforce = true := by
  have written : ∀ g, s'.fibs i = some g → g.place = .handlerLock :=
    fun g same => by rw [live, Option.some.injEq] at same; exact same ▸ waits
  cases taken with
  | lockBusy place => exact place.symm.imp_right And.right
  | lockWait _ _ parked =>
    have lock := written _ (Function.update_self ..)
    dsimp only [Fiber.tlsSave] at lock
    rcases parked with ⟨_, same⟩ | ⟨same, _⟩
    · rw [same] at lock
      cases lock
    · exact Or.inl (same.trans lock)
  | pollPark =>
    unfold yieldIoTo at written
    split at written
    · cases written _ (Function.update_self ..)
    · cases written _ (Function.update_self ..)
  | exit =>
    have ended := written _ (Function.update_self ..)
    exact Or.inl ended
  | _ => cases written _ (Function.update_self ..)

/-- Outside the slices nobody touches the lock, the conflict count or the memory of
the program. -/
theorem step_background {c : Config σ γ} {s s' : Runtime σ γ} {a : Act}
    (taken : step c s a = some s') (still : ∀ out i, a = .carrier out → s.pc ≠ .slice i) :
    s'.hlockOwner = s.hlockOwner ∧ s'.det.detConflicts = s.det.detConflicts ∧
      s'.mem = s.mem := by
  cases stepped taken with
  | create arg =>
    unfold pthreadCreate
    dsimp only
    split <;> exact ⟨rfl, rfl, rfl⟩
  | reserveNone | reserve | publish | threadLock | threadUnlock | socket | device =>
    exact ⟨rfl, rfl, rfl⟩
  | @round out _ taken =>
    cases taken with
    | intake =>
      rw [intake_eq]
      exact ⟨rfl, rfl, rfl⟩
    | epoll =>
      obtain ⟨epoll, fibs, same⟩ := deliverAll_frame s out.events
      rw [epollWait, same]
      exact ⟨rfl, rfl, rfl⟩
    | goOn | offloadDone | drain | expire | free => exact ⟨rfl, rfl, rfl⟩
    | @switchIn i f =>
      obtain ⟨errno, errq, same⟩ := switchIn_frame c s i f
      rw [same]
      exact ⟨rfl, s.det.detReprotect_detConflicts, rfl⟩
    | slice pc => exact absurd pc (still out _ rfl)

theorem step_conflicts {c : Config σ γ} {s s' : Runtime σ γ} {a : Act}
    (taken : step c s a = some s') : s.det.detConflicts ≤ s'.det.detConflicts := by
  rcases sliced_or_still taken with ⟨out, i, f, _, _, _, slice⟩ | still
  · obtain ⟨f', _, more, _⟩ := slice_effect slice
    exact more
  · exact Nat.le_of_eq (step_background taken still).2.1.symm

theorem LockInv.active {c : Config σ γ} {s : Runtime σ γ} (inv : LockInv c s) {i : Nat}
    (own : s.hlockOwner = some i) : s.enforcing c.gEnforce = true := by
  by_contra inactive
  rw [inv.unused (by simpa using inactive)] at own
  cases own

theorem LockInv.alive {c : Config σ γ} {s : Runtime σ γ} (inv : LockInv c s) {i : Nat}
    {f : Fiber σ} (pc : s.pc = .slice i) (live : s.fibs i = some f) : f.state ≠ .done :=
  (inv.formed.runnable live pc).ne nofun nofun

/-- The owner in the middle of its handler stays there while it is not switched in. -/
theorem owner_kept {c : Config σ γ} {s s' : Runtime σ γ} {a : Act} {i : Nat}
    (inv : LockInv c s) (taken : step c s a = some s') (own : s.hlockOwner = some i)
    (still : ∀ out, a = .carrier out → s.pc ≠ .slice i) :
    ∃ f', s'.fibs i = some f' ∧ f'.state ≠ .done ∧ 0 < f'.got := by
  obtain ⟨f, live, alive, started⟩ := inv.owner (inv.active own) i own
  rcases step_keeps inv.formed taken live with ⟨f', live'⟩ | ⟨_, ended⟩
  · have aside := (step_moved inv.formed taken live live').aside still
    refine ⟨f', live', fun done => alive (aside.ended done), ?_⟩
    rw [aside.got]
    exact started
  · exact absurd ended alive

/-- A slice that meets the condition leaves the owner, the old or the new one, in the
middle of its handler. -/
theorem slice_ownerInHandler {c : Config σ γ} {s s' : Runtime σ γ} {out : Out} {i j : Nat}
    {f : Fiber σ} (inv : LockInv c s) (data : LockedForData c s (.carrier out))
    (taken : step c s (.carrier out) = some s') (pc : s.pc = .slice j)
    (live : s.fibs j = some f) (slice : Slice c s j f out s') (own : s'.hlockOwner = some i) :
    ∃ f, s'.fibs i = some f ∧ f.state ≠ .done ∧ 0 < f.got := by
  obtain ⟨f', live', _, effect⟩ := slice_effect slice
  have slot := (inv.formed.slots j f live).1
  have alive := inv.alive pc live
  obtain ⟨onData, onReturn⟩ := data j f pc live
  have stillAlive : f'.state = f.state ∨ f'.state ≠ .done → f'.state ≠ .done := by
    rintro (same | other)
    · rw [same]
      exact alive
    · exact other
  have elsewhere : i ≠ j → s.hlockOwner = some i →
      ∃ g, s'.fibs i = some g ∧ g.state ≠ .done ∧ 0 < g.got :=
    fun apart own => owner_kept inv taken own fun _ _ => other_not_sliced pc apart
  generalize s'.hlockOwner = owner at effect own
  cases effect with
  | steady count after =>
    by_cases here : i = j
    · subst here
      obtain ⟨g, there, _, started⟩ := inv.owner (inv.active own) i own
      rw [live, Option.some.injEq] at there
      subst there
      exact ⟨f', live', stillAlive after, by omega⟩
    · exact elsewhere here own
  | take takes count after =>
    rw [slot, Option.some.injEq] at own
    subst own
    refine ⟨f', live', stillAlive after, ?_⟩
    rw [count]
    by_cases started : f.got = 0
    · obtain ⟨m, bytes⟩ := onData takes started
      rw [bytes]
      exact Nat.succ_pos _
    · omega
  | drop => cases own
  | write foreign =>
    apply elsewhere _ own
    rintro rfl
    exact foreign (inv.active own) (slot ▸ own)
  | done returns =>
    apply elsewhere _ own
    rintro rfl
    exact onReturn returns (inv.active own) own

theorem slice_unused {c : Config σ γ} {s s' : Runtime σ γ} {out : Out} {j : Nat} {f : Fiber σ}
    (inv : LockInv c s) (live : s.fibs j = some f) (slice : Slice c s j f out s')
    (inactive : s.enforcing c.gEnforce = false) : s'.hlockOwner = none := by
  obtain ⟨f', _, _, effect⟩ := slice_effect slice
  generalize s'.hlockOwner = owner at effect
  cases effect with
  | steady | write | done => exact inv.unused inactive
  | take takes =>
    have active : s.enforcing c.gEnforce = true := by
      rcases takes.2.1 with ⟨_, active⟩ | waits
      · exact active
      · exact inv.waiting j f live waits
    rw [inactive] at active
    cases active
  | drop => rfl

theorem step_waiting {c : Config σ γ} {s s' : Runtime σ γ} {a : Act} {i : Nat} {f' : Fiber σ}
    (inv : LockInv c s) (taken : step c s a = some s') (live' : s'.fibs i = some f')
    (waits : f'.place = .handlerLock) : s.enforcing c.gEnforce = true := by
  rcases step_fiber taken live' with ⟨f, live, moved⟩ | ⟨g, queued, rfl, _⟩
  · rcases sliced_or_aside taken live with ⟨out, _, _, slice⟩ | still
    · rcases slice_waiting slice live' waits with waiting | active
      · exact inv.waiting i f live waiting
      · exact active
    · apply inv.waiting i f live
      rcases (moved.aside still).place with same | ⟨_, relock⟩
      · exact same ▸ waits
      · rw [relock] at waits
        cases waits
  · obtain ⟨arg, number, rfl⟩ := inv.formed.queue g queued
    cases waits

theorem step_lockInv {c : Config σ γ} {s s' : Runtime σ γ} {a : Act} (inv : LockInv c s)
    (data : LockedForData c s a) (taken : step c s a = some s') : LockInv c s' := by
  have more := step_conflicts taken
  refine ⟨step_formed inv.formed taken, ?_, ?_, ?_⟩
  · intro _ i own
    rcases sliced_or_still taken with ⟨out, j, f, rfl, pc, live, slice⟩ | still
    · exact slice_ownerInHandler inv data taken pc live slice own
    · rw [(step_background taken still).1] at own
      exact owner_kept inv taken own fun out carrier => still out i carrier
  · intro inactive
    have before : s.enforcing c.gEnforce = false := by
      by_contra active
      rw [enforcing_mono c.gEnforce more (by simpa using active)] at inactive
      cases inactive
    rcases sliced_or_still taken with ⟨out, j, f, _, _, live, slice⟩ | still
    · exact slice_unused inv live slice before
    · rw [(step_background taken still).1]
      exact inv.unused before
  · intro i f' live' waits
    exact enforcing_mono c.gEnforce more (step_waiting inv taken live' waits)

/-- A `read` that takes the lock leaves the fiber with the bytes the kernel gave. -/
theorem slice_takes {c : Config σ γ} {s s' : Runtime σ γ} {i : Nat} {f : Fiber σ} {out : Out}
    (taken : Slice c s i f out s') (takes : TakesLock c s f) (free : s.hlockOwner ≠ some f.slot) :
    s'.hlockOwner = some f.slot ∧ s'.det = s.det ∧
      ∃ f', s'.fibs i = some f' ∧ f'.got = f.got + ioSize out.io := by
  obtain ⟨⟨n, fd, k, reads⟩, start, idle⟩ := takes
  rcases slice_io taken reads with ⟨⟨_, busy, _⟩, _⟩ | ⟨owner, sock, r, _, moved, real, ends⟩
  · rw [idle] at busy
    cases busy
  · have took : owner = some f.slot := by
      cases moved with
      | keep own again =>
        rcases start with ⟨app, active⟩ | waiting
        · exact absurd (own n rfl app active) free
        · exact absurd waiting again
      | take => rfl
      | drop bs writing => cases writing
    have counted : ioGot f (.read n) = f.got := if_neg (by simp [IoOp.isWrite])
    have size := realRead_size real
    rcases ends with ⟨rfl, rfl⟩ | ⟨_, rfl⟩
    · refine ⟨took, rfl, _, Function.update_self .., ?_⟩
      change ioGot f (.read n) = _
      rw [counted, ← size]
      rfl
    · refine ⟨took, rfl, _, Function.update_self .., ?_⟩
      change ioGot f (.read n) + retGot r = _
      rw [counted, size]

theorem step_without_data {c : Config σ γ} {s s' : Runtime σ γ} {a : Act} (inv : LockInv c s)
    (missed : ¬ LockedForData c s a) (taken : step c s a = some s') :
    ¬ s'.OwnerInHandler c := by
  intro kept
  cases a with
  | carrier out =>
    apply missed
    intro i f pc live
    have slice := slice_of_live live pc taken
    have slot := (inv.formed.slots i f live).1
    constructor
    · intro takes none
      have active : s.enforcing c.gEnforce = true := by
        rcases takes.2.1 with ⟨_, active⟩ | waits
        · exact active
        · exact inv.waiting i f live waits
      have free : s.hlockOwner ≠ some f.slot := by
        rw [slot]
        intro own
        obtain ⟨g, there, _, started⟩ := inv.owner active i own
        rw [live, Option.some.injEq] at there
        subst there
        omega
      obtain ⟨own, det, f', live', count⟩ := slice_takes slice takes free
      have active' : s'.enforcing c.gEnforce = true :=
        enforcing_mono c.gEnforce (Nat.le_of_eq (by rw [det])) active
      obtain ⟨g, there, _, started⟩ := kept active' i (slot ▸ own)
      rw [live', Option.some.injEq] at there
      subst there
      cases size : out.io with
      | part m =>
        rw [size, none] at count
        cases m with
        | zero =>
          change f'.got = 0 at count
          omega
        | succ m => exact ⟨m, rfl⟩
      | again | eof | fail =>
        rw [size, none] at count
        change f'.got = 0 at count
        omega
    · intro returns active own
      rw [slice_ret slice returns.1] at kept
      obtain ⟨g, there, alive, _⟩ := kept active i own
      have ended : (s.exit i f).fibs i = some { f with state := .done } :=
        Function.update_self ..
      rw [ended, Option.some.injEq] at there
      exact alive (there ▸ rfl)
  | _ => exact missed trivial

end Runtime

open TransparentOffload.Runtime

/-- The owner of the handler lock is a live fiber in the middle of a handler in
every state of a run exactly when each `read` that takes the lock for a fiber
without a byte of a request finds bytes, and no thread function returns with it. -/
theorem owner_in_handler_iff_locked_for_data (c : Config σ γ) (mem : γ) (detOn : Bool)
    (kinds : MutexId → MutexKind) (acts : List Act) (s : Runtime σ γ)
    (ran : runActs c (init mem detOn kinds) acts = some s) :
    Machine.Always (step c) (OwnerInHandler c) (init mem detOn kinds) acts ↔
      Machine.Guarded (step c) (LockedForData c) (init mem detOn kinds) acts :=
  Machine.always_iff_guarded (H := fun _ _ => True) (fun _ inv => inv.owner)
    (fun _ _ _ inv _ data taken => step_lockInv inv data taken)
    (fun _ _ _ inv _ missed taken => step_without_data inv missed taken)
    (init_lockInv c mem detOn kinds) (Machine.guarded_of_mem (fun _ _ _ => trivial) _) ran

/-- Two connections under enforcement; only the second client sends a request. -/
def idleFirst : List Act :=
  [.create 0, .create 1, .arrive 1 (List.replicate req 7)] ++ List.replicate 16 (.carrier .quiet)

/-- The first client then closes its end and the carrier makes one more pass. -/
def hangupFirst : List Act :=
  .hangup 0 :: List.replicate 17 (.carrier { Out.quiet with events := [0], io := .eof })

/-- A thread function that reads four bytes and answers with four, without end. -/
def echoing : Config Nat Unit :=
  { app :=
      { entry := fun _ => 0
        code := fun at_ =>
          if at_ % 2 = 0 then .io (.read 4) 0 fun _ => 1 else .io (.write [1, 2, 3, 4]) 0 fun _ => 0 }
    gEnforce := true, gRealmutex := false, ssl := .absent, transform := id }

/-- Two requests are there before they are read, and the first has been answered. -/
def bothRead : List Act :=
  [.create 0, .arrive 0 [1, 2, 3, 4, 5, 6, 7, 8]] ++
    List.replicate 11 (.carrier { Out.quiet with io := .part 4 })

theorem bothRead_lockedForData :
    Machine.Guarded (step echoing) (LockedForData echoing)
      (init () false fun _ => .normal) bothRead := by
  apply Machine.guarded_of_mem
  intro a member s
  simp only [bothRead, List.cons_append, List.nil_append, List.mem_cons,
    List.mem_replicate] at member
  rcases member with rfl | rfl | ⟨_, rfl⟩
  · trivial
  · trivial
  · intro i f _ _
    refine ⟨fun _ _ => ⟨3, rfl⟩, ?_⟩
    rintro ⟨code, _⟩
    change (if f.ctx % 2 = 0 then _ else _) = _ at code
    split at code <;> cases code

theorem idleFirst_owner_iff : (∃ s,
      runActs (HostileServer.config false true id)
        (init HostileServer.Shared.init false fun _ => .normal) idleFirst = some s ∧
      (Machine.Always (step (HostileServer.config false true id))
          (OwnerInHandler (HostileServer.config false true id))
          (init HostileServer.Shared.init false fun _ => .normal) idleFirst ↔
        Machine.Guarded (step (HostileServer.config false true id))
          (LockedForData (HostileServer.config false true id))
          (init HostileServer.Shared.init false fun _ => .normal) idleFirst)) ∧
    ∃ s, runActs echoing (init () false fun _ => .normal) bothRead = some s ∧
      s.hlockOwner = some 0 ∧ Machine.Always (step echoing) (OwnerInHandler echoing)
        (init () false fun _ => .normal) bothRead :=
  ⟨⟨_, rfl, owner_in_handler_iff_locked_for_data _ _ _ _ _ _ rfl⟩, ⟨_, rfl, rfl,
    (owner_in_handler_iff_locked_for_data _ _ _ _ _ _ rfl).mpr bothRead_lockedForData⟩⟩

/-- The fiber of the idle client owns the lock, parked or ended, and the one with
a complete request waits for it. -/
theorem idle_reader_keeps_handler_lock :
    (∃ s, runActs (HostileServer.config false true id)
        (init HostileServer.Shared.init false fun _ => .normal) idleFirst = some s ∧
      (∃ f g, s.hlockOwner = some 0 ∧ s.fibs 0 = some f ∧ f.state = .waitIo ∧ f.got = 0 ∧
        s.fibs 1 = some g ∧ g.place = .handlerLock ∧ (s.socks 1).rx = List.replicate req 7) ∧
      ¬ s.OwnerInHandler (HostileServer.config false true id)) ∧
    ∃ s, runActs (HostileServer.config false true id)
        (init HostileServer.Shared.init false fun _ => .normal)
        (idleFirst ++ hangupFirst) = some s ∧
      (∃ g, s.hlockOwner = some 0 ∧ s.fibs 0 = none ∧ 0 ∈ s.freed ∧
        s.fibs 1 = some g ∧ g.place = .handlerLock ∧ (s.socks 1).rx = List.replicate req 7) ∧
      ¬ s.OwnerInHandler (HostileServer.config false true id) := by
  refine ⟨⟨_, rfl, ⟨_, _, rfl, rfl, rfl, rfl, rfl, rfl, rfl⟩, ?_⟩,
    ⟨_, rfl, ⟨_, rfl, rfl, by decide, rfl, rfl, rfl⟩, ?_⟩⟩
  · intro kept
    obtain ⟨f, live, _, started⟩ := kept rfl 0 rfl
    cases live
    exact Nat.lt_irrefl 0 started
  · intro kept
    obtain ⟨f, live, _⟩ := kept rfl 0 rfl
    cases live

end TransparentOffload
