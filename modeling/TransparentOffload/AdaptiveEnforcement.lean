import TransparentOffload.Answers
import TransparentOffload.Enforcement

set_option autoImplicit false

/- Enforcement that starts with the first conflict. `read` looks at `det_conflicts`
once, when it is called; a fiber already parked inside it never looks again. -/
namespace TransparentOffload

variable {σ γ : Type}

namespace Runtime

/-- The fiber to which a `read` returns data in this step of the carrier. -/
def readReturns (c : Config σ γ) (s : Runtime σ γ) (out : Out) : Option Nat :=
  match answer c s out with
  | some (i, ctx, .data (_ :: _)) =>
    match c.app.code ctx with
    | .io (.read _) _ _ => some i
    | _ => none
  | _ => none

/-- The socket call that the running fiber makes in this step, and does not go on with. -/
def callsNow (c : Config σ γ) (s : Runtime σ γ) : Option (Nat × IoOp) :=
  match s.pc with
  | .slice i =>
    match s.fibs i with
    | some f =>
      match f.place, c.app.code f.ctx with
      | .app, .io op _ _ => some (i, op)
      | _, _ => none
    | none => none
  | _ => none

end Runtime

open TransparentOffload.Runtime

/-- The runtime and two facts about each fiber that the runtime does not keep: that the
`read` it is in was called before the first conflict, and that it has been given data
since the first conflict and has not called `write` after that. -/
structure Engaged (σ γ : Type) where
  runtime : Runtime σ γ
  early : Nat → Bool
  serving : Nat → Bool

/-- `RT_DETECT` on, before the first step. -/
def Engaged.init (mem : γ) (kinds : MutexId → MutexKind) : Engaged σ γ :=
  ⟨Runtime.init mem true kinds, fun _ => false, fun _ => false⟩

def Engaged.earlyAfter (c : Config σ γ) (s : Engaged σ γ) : Act → Nat → Bool
  | .carrier _ =>
    match callsNow c s.runtime with
    | some (i, .read _) => Function.update s.early i (decide (s.runtime.det.detConflicts = 0))
    | _ => s.early
  | _ => s.early

def Engaged.servingAfter (c : Config σ γ) (s : Engaged σ γ) : Act → Nat → Bool
  | .carrier out =>
    match callsNow c s.runtime, readReturns c s.runtime out with
    | some (i, .write _), _ => Function.update s.serving i false
    | _, some i =>
      if 0 < s.runtime.det.detConflicts then Function.update s.serving i true else s.serving
    | _, none => s.serving
  | _ => s.serving

def engagedStep (c : Config σ γ) (s : Engaged σ γ) (a : Act) : Option (Engaged σ γ) :=
  (step c s.runtime a).map fun t => ⟨t, s.earlyAfter c a, s.servingAfter c a⟩

/-- A `read` that returns data after the first conflict returns it to the owner of the
handler lock. -/
def ReadsOwn (c : Config σ γ) (s : Engaged σ γ) : Act → Prop
  | .carrier out => ∀ i t, readReturns c s.runtime out = some i →
      0 < s.runtime.det.detConflicts → step c s.runtime (.carrier out) = some t →
      t.hlockOwner = some i
  | _ => True

/-- A `read` that returns data after the first conflict was called after it too. -/
def CalledSince (c : Config σ γ) (s : Engaged σ γ) : Act → Prop
  | .carrier out => ∀ i f, readReturns c s.runtime out = some i →
      0 < s.runtime.det.detConflicts → s.runtime.fibs i = some f → f.place = .io →
      s.early i = false
  | _ => True

/-- At most one handler is between the data it was given and its `write`. -/
def ServesAlone (s : Engaged σ γ) : Prop :=
  ∀ i j, s.serving i = true → s.serving j = true → i = j

/-- What holds of the lock in every run that starts without enforcement. -/
structure EngagedInv (c : Config σ γ) (s : Engaged σ γ) : Prop where
  formed : Formed c s.runtime
  unused : s.runtime.det.detConflicts = 0 → s.runtime.hlockOwner = none
  waiting : ∀ i f, s.runtime.fibs i = some f → f.place = .handlerLock →
    s.early i = false ∧ 0 < s.runtime.det.detConflicts
  parked : ∀ i f n fd k, s.runtime.fibs i = some f → f.place = .io →
    c.app.code f.ctx = .io (.read n) fd k →
    (s.early i = false ↔ s.runtime.hlockOwner = some i)

namespace Runtime

theorem readReturns_eq_some {c : Config σ γ} {s : Runtime σ γ} {out : Out} {i : Nat}
    (returns : readReturns c s out = some i) : ∃ f n fd k bs,
      Answered c s out i f (.read n) fd k (.data bs) := by
  unfold readReturns at returns
  split at returns
  · rename_i j ctx b bs found
    obtain ⟨f, op, fd, k, answered, rfl⟩ := answer_eq_some.mp found
    rw [answered.code] at returns
    cases op with
    | read n => exact Option.some.inj returns ▸ ⟨f, n, fd, k, b :: bs, answered⟩
    | _ => cases returns
  · cases returns

theorem enforcing_iff {c : Config σ γ} (off : c.gEnforce = false) (s : Runtime σ γ) :
    s.enforcing c.gEnforce = true ↔ 0 < s.det.detConflicts := by
  simp [enforcing, off]

/-- Where the handler lock is after a `read` that was called in this step, or that has
waited for the lock. -/
theorem LockMove.read_owner {c : Config σ γ} {s : Runtime σ γ} {f : Fiber σ} {n : Nat}
    {owner : Option Nat} (moved : LockMove c s f (.read n) owner)
    (fresh : (f.place = .app ∧ s.enforcing c.gEnforce = true) ∨ f.place = .handlerLock) :
    owner = some f.slot := by
  cases moved with
  | take => rfl
  | keep reading again =>
    rcases fresh with ⟨app, active⟩ | waiting
    · exact reading n rfl app active
    · exact absurd waiting again
  | drop bs writing => cases writing

/-- In the retry loop it stays where it is. -/
theorem LockMove.parked_owner {c : Config σ γ} {s : Runtime σ γ} {f : Fiber σ} {op : IoOp}
    {owner : Option Nat} (moved : LockMove c s f op owner) (parked : f.place = .io) :
    owner = s.hlockOwner := by
  cases moved with
  | keep => rfl
  | take n reading start =>
    rw [parked] at start
    rcases start with ⟨app, _⟩ | waiting
    · cases app
    · cases waiting
  | drop bs writing start =>
    rw [parked] at start
    cases start

/-- Before the first conflict nobody takes it. -/
theorem LockMove.unused {c : Config σ γ} (off : c.gEnforce = false) {s : Runtime σ γ}
    {f : Fiber σ} {op : IoOp} {owner : Option Nat} (moved : LockMove c s f op owner)
    (quiet : s.det.detConflicts = 0) (free : s.hlockOwner = none)
    (elsewhere : f.place ≠ .handlerLock) : owner = none := by
  cases moved with
  | keep => exact free
  | take n reading start =>
    rcases start with ⟨_, active⟩ | waiting
    · have conflict := (enforcing_iff off s).mp active
      omega
    · exact absurd waiting elsewhere
  | drop => rfl

end Runtime

/-- Who owns the lock when `read` returns is decided by when it was called. -/
theorem readsOwn_iff {c : Config σ γ} (off : c.gEnforce = false) {s : Engaged σ γ}
    (inv : EngagedInv c s) (a : Act) : ReadsOwn c s a ↔ CalledSince c s a := by
  cases a with
  | carrier out =>
    constructor
    · intro own i f returns conflict live parked
      obtain ⟨g, n, fd, k, bs, answered⟩ := readReturns_eq_some returns
      have same := answered.live
      rw [live, Option.some.injEq] at same
      subst same
      obtain ⟨t, taken, _⟩ := answered.taken
      have owner := own i t returns conflict taken
      rw [(answered.moved taken).parked_owner parked] at owner
      exact (inv.parked i f n fd k live parked answered.code).mpr owner
    · intro since i t returns conflict taken
      obtain ⟨f, n, fd, k, bs, answered⟩ := readReturns_eq_some returns
      have moved := answered.moved taken
      have slot := (inv.formed.slots i f answered.live).1
      rcases answered.place with app | parked | ⟨waiting, _⟩
      · rw [← slot]
        exact moved.read_owner (Or.inl ⟨app, (enforcing_iff off _).mpr conflict⟩)
      · have late := since i f returns conflict answered.live parked
        rw [moved.parked_owner parked]
        exact (inv.parked i f n fd k answered.live parked answered.code).mp late
      · rw [← slot]
        exact moved.read_owner (Or.inr waiting)
  | _ => exact ⟨fun _ => trivial, fun _ => trivial⟩

theorem callsNow_slice {c : Config σ γ} {s : Runtime σ γ} {i : Nat} {f : Fiber σ}
    (pc : s.pc = .slice i) (live : s.fibs i = some f) : callsNow c s =
      match f.place, c.app.code f.ctx with
      | .app, .io op _ _ => some (i, op)
      | _, _ => none := by
  simp only [callsNow, pc, live]

/-- The two facts change in slices alone. -/
theorem facts_aside {c : Config σ γ} {s : Engaged σ γ} {a : Act}
    (still : ∀ out i, a = .carrier out → s.runtime.pc ≠ .slice i) :
    s.earlyAfter c a = s.early ∧ s.servingAfter c a = s.serving := by
  cases a with
  | carrier out =>
    have calls : callsNow c s.runtime = none := by
      unfold callsNow
      split
      · rename_i i pc
        exact absurd pc (still out i rfl)
      · rfl
    have returns : readReturns c s.runtime out = none := by
      unfold readReturns answer
      cases pc : s.runtime.pc with
      | slice i => exact absurd pc (still out i rfl)
      | _ => rfl
    constructor
    · simp only [Engaged.earlyAfter, calls]
    · simp only [Engaged.servingAfter, calls, returns]
  | _ => exact ⟨rfl, rfl⟩

/-- A call made in the slice of another fiber says nothing of this one. -/
theorem earlyAfter_other {c : Config σ γ} {s : Engaged σ γ} {out : Out} {i j : Nat}
    (pc : s.runtime.pc = .slice j) (other : i ≠ j) :
    s.earlyAfter c (.carrier out) i = s.early i := by
  cases calls : callsNow c s.runtime with
  | none => simp only [Engaged.earlyAfter, calls]
  | some call =>
    obtain ⟨k, op⟩ := call
    have here : k = j := by
      unfold callsNow at calls
      rw [pc] at calls
      dsimp only at calls
      split at calls
      · split at calls
        · exact (congrArg Prod.fst (Option.some.inj calls)).symm
        · cases calls
      · cases calls
    subst here
    simp only [Engaged.earlyAfter, calls]
    cases op with
    | read n => exact Function.update_of_ne other _ _
    | _ => rfl

/-- The slice of fiber `j`, for that fiber itself. -/
theorem slice_engaged {c : Config σ γ} (off : c.gEnforce = false) {s : Engaged σ γ}
    {t : Runtime σ γ} {out : Out} {j : Nat} {g f' : Fiber σ} (inv : EngagedInv c s)
    (pc : s.runtime.pc = .slice j) (live : s.runtime.fibs j = some g)
    (slice : Slice c s.runtime j g out t) (live' : t.fibs j = some f') :
    (f'.place = .handlerLock →
      s.earlyAfter c (.carrier out) j = false ∧ 0 < t.det.detConflicts) ∧
      ∀ n fd k, f'.place = .io → c.app.code f'.ctx = .io (.read n) fd k →
        (s.earlyAfter c (.carrier out) j = false ↔ t.hlockOwner = some j) := by
  have slot : g.slot = j := (inv.formed.slots j g live).1
  by_cases socket : ∃ op fd k, c.app.code g.ctx = .io op fd k
  · obtain ⟨op, fd, k, code⟩ := socket
    have calls := callsNow_slice (c := c) pc live
    rw [code] at calls
    rcases slice_io slice code with ⟨⟨⟨n, rfl⟩, _, start⟩, rfl⟩ |
      ⟨owner, sock, r, place, moved, _, ⟨_, rfl⟩ | ⟨_, rfl⟩⟩
    · have now := Option.some.inj (live'.symm.trans (Function.update_self ..))
      subst now
      refine ⟨fun _ => ?_, fun _ _ _ parked => (by cases parked)⟩
      rcases start with ⟨app, active⟩ | waiting
      · have conflict := (enforcing_iff off _).mp active
        rw [app] at calls
        refine ⟨?_, conflict⟩
        simp only [Engaged.earlyAfter, calls, Function.update_self]
        simp
        omega
      · have old := inv.waiting j g live waiting
        rw [waiting] at calls
        refine ⟨?_, old.2⟩
        simp only [Engaged.earlyAfter, calls]
        exact old.1
    · have now := Option.some.inj (live'.symm.trans (Function.update_self ..))
      subst now
      refine ⟨fun waits => (by cases waits), ?_⟩
      intro n fd' k' _ reads
      have same := code.symm.trans reads
      cases same
      change _ ↔ owner = some j
      rcases place with app | waiting | parked
      · rw [app] at calls
        simp only [Engaged.earlyAfter, calls, Function.update_self]
        by_cases quiet : s.runtime.det.detConflicts = 0
        · have free := moved.unused off quiet (inv.unused quiet) (by simp [app])
          simp [quiet, free]
        · have active := (enforcing_iff off s.runtime).mpr (Nat.pos_of_ne_zero quiet)
          have own := moved.read_owner (Or.inl ⟨app, active⟩)
          simp [quiet, own, slot]
      · rw [waiting] at calls
        simp only [Engaged.earlyAfter, calls]
        have own := moved.read_owner (Or.inr waiting)
        simp [own, slot, (inv.waiting j g live waiting).1]
      · rw [parked] at calls
        simp only [Engaged.earlyAfter, calls]
        rw [moved.parked_owner parked]
        exact inv.parked j g n fd k live parked code
    · have now := Option.some.inj (live'.symm.trans (Function.update_self ..))
      subst now
      exact ⟨fun waits => (by cases waits), fun _ _ _ parked => (by cases parked)⟩
  · have other : ∀ op fd k, c.app.code g.ctx ≠ .io op fd k :=
      fun op fd k code => socket ⟨op, fd, k, code⟩
    obtain ⟨_, f₀, now, _, notIo, notWaiting⟩ := slice_not_io slice other
    rw [live', Option.some.injEq] at now
    subst now
    exact ⟨fun waits => absurd waits notWaiting, fun n fd k parked => absurd parked notIo⟩

/-- A fiber that is not switched in was in its place inside `read` before the step. -/
theorem inside_before {c : Config σ γ} {s t : Runtime σ γ} {a : Act} {i : Nat} {f' : Fiber σ}
    (formed : Formed c s) (ran : step c s a = some t) (live' : t.fibs i = some f')
    (still : ∀ out, a = .carrier out → s.pc ≠ .slice i)
    (inside : f'.place = .io ∨ f'.place = .handlerLock) :
    ∃ f, s.fibs i = some f ∧ f.place = f'.place ∧ f.ctx = f'.ctx := by
  rcases step_fiber ran live' with ⟨f, live, moved⟩ | ⟨g, queued, rfl, _⟩
  · have aside := moved.aside still
    refine ⟨f, live, ?_, aside.ctx.symm⟩
    rcases aside.place with same | ⟨_, relock⟩
    · exact same.symm
    · rw [relock] at inside
      rcases inside with parked | waiting
      · cases parked
      · cases waiting
  · obtain ⟨arg, number, rfl⟩ := formed.queue g queued
    rcases inside with parked | waiting
    · cases parked
    · cases waiting

theorem step_engagedInv {c : Config σ γ} (off : c.gEnforce = false) {s s' : Engaged σ γ}
    {a : Act} (inv : EngagedInv c s) (taken : engagedStep c s a = some s') : EngagedInv c s' := by
  obtain ⟨t, ran, rfl⟩ := Option.map_eq_some_iff.mp taken
  have formed := step_formed inv.formed ran
  have more := step_conflicts ran
  rcases sliced_or_still ran with ⟨out, j, g, rfl, pc, live, slice⟩ | still
  · have slot : g.slot = j := (inv.formed.slots j g live).1
    have elsewhere : ∀ i, i ≠ j → ∀ out', Act.carrier out = .carrier out' →
        s.runtime.pc ≠ .slice i := fun i other _ _ => other_not_sliced pc other
    refine ⟨formed, ?_, ?_, ?_⟩
    · intro quiet
      have before : s.runtime.det.detConflicts = 0 := by
        dsimp only at quiet
        omega
      have free := inv.unused before
      by_cases socket : ∃ op fd k, c.app.code g.ctx = .io op fd k
      · obtain ⟨op, fd, k, code⟩ := socket
        have outside : g.place ≠ .handlerLock := by
          intro waiting
          have conflict := (inv.waiting j g live waiting).2
          omega
        rcases slice_io slice code with ⟨_, rfl⟩ |
          ⟨owner, sock, r, _, moved, _, ⟨_, rfl⟩ | ⟨_, rfl⟩⟩
        · exact free
        · exact moved.unused off before free outside
        · exact moved.unused off before free outside
      · have same := (slice_not_io slice fun op fd k code => socket ⟨op, fd, k, code⟩).1
        exact same.trans free
    · intro i f' live' waiting
      by_cases here : i = j
      · subst here
        exact (slice_engaged off inv pc live slice live').1 waiting
      · obtain ⟨f, was, place, _⟩ :=
          inside_before inv.formed ran live' (elsewhere i here) (Or.inr waiting)
        have old := inv.waiting i f was (place.trans waiting)
        dsimp only
        rw [earlyAfter_other pc here]
        exact ⟨old.1, Nat.lt_of_lt_of_le old.2 more⟩
    · intro i f' n fd k live' parked code
      by_cases here : i = j
      · subst here
        exact (slice_engaged off inv pc live slice live').2 n fd k parked code
      · obtain ⟨f, was, place, ctx⟩ :=
          inside_before inv.formed ran live' (elsewhere i here) (Or.inl parked)
        dsimp only
        rw [earlyAfter_other pc here, slice_owner_other slice (slot ▸ here)]
        exact inv.parked i f n fd k was (place.trans parked) (ctx ▸ code)
  · obtain ⟨owner, conflicts, _⟩ := step_background ran still
    have early := (facts_aside (c := c) still).1
    refine ⟨formed, ?_, ?_, ?_⟩
    · intro quiet
      exact owner.trans (inv.unused (conflicts.symm.trans quiet))
    · intro i f' live' waiting
      obtain ⟨f, was, place, _⟩ := inside_before inv.formed ran live'
        (fun out carrier => still out i carrier) (Or.inr waiting)
      dsimp only
      rw [early, conflicts]
      exact inv.waiting i f was (place.trans waiting)
    · intro i f' n fd k live' parked code
      obtain ⟨f, was, place, ctx⟩ := inside_before inv.formed ran live'
        (fun out carrier => still out i carrier) (Or.inl parked)
      dsimp only
      rw [early, owner]
      exact inv.parked i f n fd k was (place.trans parked) (ctx ▸ code)

theorem init_engagedInv (c : Config σ γ) (mem : γ) (kinds : MutexId → MutexKind) :
    EngagedInv c (.init mem kinds) := by
  refine ⟨init_formed c mem true kinds, fun _ => rfl, ?_, ?_⟩
  all_goals simp [Engaged.init, Runtime.init]

/-- Every handler that was given data since the first conflict owns the lock. -/
def ServingOwn (s : Engaged σ γ) : Prop :=
  ∀ i, s.serving i = true → s.runtime.hlockOwner = some i

theorem ServingOwn.alone {s : Engaged σ γ} (own : ServingOwn s) : ServesAlone s := by
  intro i j first second
  have both := (own i first).symm.trans (own j second)
  exact Option.some.inj both

/-- The owner loses the lock by its own call of `write` alone. -/
theorem owner_until_write {c : Config σ γ} {s t : Runtime σ γ} {out : Out} {j : Nat}
    {g : Fiber σ} (formed : Formed c s) (pc : s.pc = .slice j) (live : s.fibs j = some g)
    (slice : Slice c s j g out t) {i : Nat} (own : s.hlockOwner = some i)
    (quiet : ∀ bs, callsNow c s ≠ some (i, .write bs)) : t.hlockOwner = some i := by
  have slot : g.slot = j := (formed.slots j g live).1
  by_cases here : i = j
  · subst here
    by_cases socket : ∃ op fd k, c.app.code g.ctx = .io op fd k
    · obtain ⟨op, fd, k, code⟩ := socket
      have calls := callsNow_slice (c := c) pc live
      have kept : ∀ owner, LockMove c s g op owner → owner = some i := by
        intro owner moved
        cases moved with
        | keep => exact own
        | take => rw [slot]
        | drop bs writing app =>
          rw [app, code, writing] at calls
          exact absurd calls (quiet bs)
      rcases slice_io slice code with ⟨_, rfl⟩ | ⟨owner, sock, r, _, moved, _, ⟨_, rfl⟩ | ⟨_, rfl⟩⟩
      · exact own
      · exact kept owner moved
      · exact kept owner moved
    · have same := (slice_not_io slice fun op fd k code => socket ⟨op, fd, k, code⟩).1
      exact same.trans own
  · exact (slice_owner_other slice (slot ▸ here)).mpr own

/-- Who serves after a step served before and calls no `write` now, or is given data. -/
theorem servingAfter_cases {c : Config σ γ} {s : Engaged σ γ} {out : Out} {i : Nat}
    (serving : s.servingAfter c (.carrier out) i = true) :
    (s.serving i = true ∧ ∀ bs, callsNow c s.runtime ≠ some (i, .write bs)) ∨
      (readReturns c s.runtime out = some i ∧ 0 < s.runtime.det.detConflicts) := by
  have given : ∀ j, (if 0 < s.runtime.det.detConflicts then Function.update s.serving j true
      else s.serving) i = true → s.serving i = true ∨ (j = i ∧ 0 < s.runtime.det.detConflicts) := by
    intro j now
    split at now
    · rename_i conflict
      by_cases here : i = j
      · exact Or.inr ⟨here.symm, conflict⟩
      · rw [Function.update_of_ne here] at now
        exact Or.inl now
    · exact Or.inl now
  cases calls : callsNow c s.runtime with
  | none =>
    cases returns : readReturns c s.runtime out with
    | none =>
      simp only [Engaged.servingAfter, calls, returns] at serving
      exact Or.inl ⟨serving, by simp⟩
    | some j =>
      simp only [Engaged.servingAfter, calls, returns] at serving
      rcases given j serving with before | ⟨rfl, conflict⟩
      · exact Or.inl ⟨before, by simp⟩
      · exact Or.inr ⟨rfl, conflict⟩
  | some call =>
    obtain ⟨k, op⟩ := call
    by_cases writing : ∃ bs, op = .write bs
    · obtain ⟨bs, rfl⟩ := writing
      simp only [Engaged.servingAfter, calls] at serving
      by_cases here : i = k
      · subst here
        simp at serving
      · rw [Function.update_of_ne here] at serving
        refine Or.inl ⟨serving, ?_⟩
        intro bs' same
        exact here (congrArg Prod.fst (Option.some.inj same)).symm
    · have other : ∀ bs, some (k, op) ≠ some (i, IoOp.write bs) := by
        intro bs same
        exact writing ⟨bs, congrArg Prod.snd (Option.some.inj same)⟩
      cases returns : readReturns c s.runtime out with
      | none =>
        refine Or.inl ⟨?_, other⟩
        cases op with
        | write bs => exact absurd ⟨bs, rfl⟩ writing
        | _ => simpa only [Engaged.servingAfter, calls, returns] using serving
      | some j =>
        have now : (if 0 < s.runtime.det.detConflicts then Function.update s.serving j true
            else s.serving) i = true := by
          cases op with
          | write bs => exact absurd ⟨bs, rfl⟩ writing
          | _ => simpa only [Engaged.servingAfter, calls, returns] using serving
        rcases given j now with before | ⟨rfl, conflict⟩
        · exact Or.inl ⟨before, other⟩
        · exact Or.inr ⟨rfl, conflict⟩

/-- While no `read` of an earlier call returns data, the serving handlers keep the lock. -/
theorem step_servingOwn {c : Config σ γ} (off : c.gEnforce = false) {s s' : Engaged σ γ}
    {a : Act} (inv : EngagedInv c s) (own : ServingOwn s) (since : CalledSince c s a)
    (taken : engagedStep c s a = some s') : ServingOwn s' := by
  have reads := (readsOwn_iff off inv a).mpr since
  obtain ⟨t, ran, rfl⟩ := Option.map_eq_some_iff.mp taken
  intro i serving
  rcases sliced_or_still ran with ⟨out, j, g, rfl, pc, live, slice⟩ | still
  · rcases servingAfter_cases serving with ⟨before, quiet⟩ | ⟨returns, conflict⟩
    · exact owner_until_write inv.formed pc live slice (own i before) quiet
    · exact reads i t returns conflict ran
  · have same := (facts_aside (c := c) still).2
    dsimp only at serving ⊢
    rw [same] at serving
    exact (step_background ran still).1.trans (own i serving)

/-- With `RT_DETECT` on and `RT_ENFORCE` off, in every run each `read` that returns data
after the first conflict returns it to the owner of the handler lock, and the handlers
given data since then exclude each other, exactly when no such `read` had been called
before the first conflict. -/
theorem engaged_iff_called_since (c : Config σ γ) (off : c.gEnforce = false) (mem : γ)
    (kinds : MutexId → MutexKind) (acts : List Act) :
    (Machine.Guarded (engagedStep c) (ReadsOwn c) (.init mem kinds) acts ∧
        Machine.Always (engagedStep c) ServesAlone (.init mem kinds) acts) ↔
      Machine.Guarded (engagedStep c) (CalledSince c) (.init mem kinds) acts := by
  have start := init_engagedInv c mem kinds
  have same : Machine.Guarded (engagedStep c) (ReadsOwn c) (.init mem kinds) acts ↔
      Machine.Guarded (engagedStep c) (CalledSince c) (.init mem kinds) acts :=
    Machine.guarded_congr (fun _ a inv => readsOwn_iff off inv a)
      (fun _ _ _ inv taken => step_engagedInv off inv taken) start
  constructor
  · exact fun both => same.mp both.1
  · intro since
    refine ⟨same.mpr since, ?_⟩
    have kept := Machine.always_of_invariant (I := fun s => EngagedInv c s ∧ ServingOwn s)
      (fun s a t inv here taken => ⟨step_engagedInv off inv.1 taken,
        step_servingOwn off inv.1 inv.2 here taken⟩)
      ⟨start, fun i serving => by cases serving⟩ since
    exact kept.mono fun s inv => inv.2.alone

/-- Two threads that read, offload and write, and two that conflict on page 0. -/
def readersAndWriters : Config Nat Unit :=
  { app :=
      { entry := fun arg => arg
        code := fun at_ => match at_ with
          | 0 => .io (.read 1) 5 fun _ => 4
          | 1 => .io (.read 1) 6 fun _ => 4
          | 2 => .accelEncrypt [] fun _ => 3
          | 3 => .code [0] fun mem => (mem, 6)
          | 4 => .accelEncrypt [] fun _ => 5
          | 5 => .io (.write [1]) 7 fun _ => 6
          | _ => .ret }
    gEnforce := false, gRealmutex := false, ssl := .init, transform := id }

/-- Both readers park in `read`, the writers conflict, and then both requests arrive. -/
def conflictWhileReading : List Act :=
  [.create 0, .create 1, .create 2, .create 3] ++
    (List.replicate 27 (.carrier .quiet) ++
    .device 0 :: List.replicate 22 (.carrier { Out.quiet with done := true }) ++
    [.arrive 5 [7], .arrive 6 [7]] ++
    List.replicate 19 (.carrier { Out.quiet with events := [5, 6], io := .part 1 }))

theorem conflictWhileReading_iff :
    (Machine.Guarded (engagedStep readersAndWriters) (ReadsOwn readersAndWriters)
          (.init () fun _ => .normal) conflictWhileReading ∧
        Machine.Always (engagedStep readersAndWriters) ServesAlone (.init () fun _ => .normal)
          conflictWhileReading) ↔
      Machine.Guarded (engagedStep readersAndWriters) (CalledSince readersAndWriters)
        (.init () fun _ => .normal) conflictWhileReading :=
  engaged_iff_called_since readersAndWriters rfl () (fun _ => .normal) conflictWhileReading

/-- After the first conflict both readers have been given their requests, and nobody owns
the handler lock. -/
theorem parked_readers_serve_together : ∃ s,
    Machine.run (engagedStep readersAndWriters) (.init () fun _ => .normal)
      conflictWhileReading = some s ∧
    s.runtime.det.detConflicts = 1 ∧ s.runtime.hlockOwner = none ∧ s.serving 0 = true ∧
    s.serving 1 = true ∧
    ¬ (Machine.Guarded (engagedStep readersAndWriters) (ReadsOwn readersAndWriters)
          (.init () fun _ => .normal) conflictWhileReading ∧
        Machine.Always (engagedStep readersAndWriters) ServesAlone (.init () fun _ => .normal)
          conflictWhileReading) := by
  have ran : (Machine.run (engagedStep readersAndWriters) (.init () fun _ => .normal)
      conflictWhileReading).map (fun s => (s.runtime.det.detConflicts, s.runtime.hlockOwner,
        s.serving 0, s.serving 1)) = some (1, none, true, true) := by decide +kernel
  obtain ⟨s, reached, values⟩ := Option.map_eq_some_iff.mp ran
  obtain ⟨conflicts, rest⟩ := Prod.mk.inj values
  obtain ⟨owner, rest⟩ := Prod.mk.inj rest
  obtain ⟨first, second⟩ := Prod.mk.inj rest
  refine ⟨s, reached, conflicts, owner, first, second, ?_⟩
  intro both
  have exclusive := Machine.always_iff_reached.mp both.2 _ List.prefix_rfl s reached
  have same := exclusive 0 1 first second
  cases same

end TransparentOffload
