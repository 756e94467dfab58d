import TransparentOffload.Enforcement

set_option autoImplicit false

/- `hostile_server` without its own lock: the copy of `shared` a handler takes
before the offload is still the value it finds when it stores `v+1`. -/
namespace TransparentOffload

namespace HostileServer

/-- Between its request and its response. -/
def Conn.serving : Conn → Bool
  | .locking .. | .loading .. | .encrypting .. | .storing .. | .unlocking .. | .counting .. => true
  | _ => false

/-- The copy of `shared` that will be stored back. -/
def Conn.copy : Conn → Option Nat
  | .encrypting _ _ v | .storing _ _ v => some v
  | _ => none

/-- In one of the two calls that only `LOCKED` makes. -/
def Conn.locks : Conn → Bool
  | .locking .. | .unlocking .. => true
  | _ => false

theorem Conn.serving_of_copy {ctx : Conn} {v : Nat} (copied : ctx.copy = some v) :
    ctx.serving = true := by
  cases ctx <;> first | rfl | cases copied

theorem readsWrites (locked : Bool) : (app locked).ReadsWrites := by
  intro ctx op fd k code
  cases ctx with
  | reading fd buf =>
    cases code
    exact Or.inl ⟨_, rfl⟩
  | writing fd buf put =>
    cases code
    exact Or.inr ⟨_, rfl⟩
  | _ => cases code

/-- After a `read` the request is served only if the call gave bytes. -/
theorem afterRead_serving (fd : Fd) (buf : Bytes) (r : IoRet) :
    (afterRead false fd buf r).locks = false ∧ (afterRead false fd buf r).copy = none ∧
      ((afterRead false fd buf r).serving = true → 0 < Runtime.retGot r) := by
  cases r with
  | count | err => exact ⟨rfl, rfl, nofun⟩
  | data bs =>
    unfold afterRead
    dsimp only
    split
    · exact ⟨rfl, rfl, nofun⟩
    · rename_i some
      split
      · exact ⟨rfl, rfl, nofun⟩
      · exact ⟨rfl, rfl, fun _ => List.length_pos_iff.mpr some⟩

theorem afterWrite_idle (fd : Fd) (buf : Bytes) (put : Nat) (r : IoRet) :
    (afterWrite fd buf put r).locks = false ∧ (afterWrite fd buf put r).copy = none ∧
      (afterWrite fd buf put r).serving = false := by
  cases r with
  | data | err => exact ⟨rfl, rfl, rfl⟩
  | count n =>
    unfold afterWrite
    dsimp only
    split
    · exact ⟨rfl, rfl, rfl⟩
    · split <;> exact ⟨rfl, rfl, rfl⟩

/-- The counters of the server, at any moment. -/
structure CountInv (transform : Bytes → Bytes) (s : Runtime Conn Shared) : Prop where
  formed : Formed (config false true transform) s
  owned : Runtime.LockOwned (config false true transform) s
  unlocked : ∀ i f, s.fibs i = some f → f.ctx.locks = false
  serving : ∀ i f, s.fibs i = some f → f.ctx.serving = true → f.InHandler
  copied : ∀ i f v, s.fibs i = some f → f.ctx.copy = some v → v = s.mem.shared
  counted : s.mem.shared = s.mem.increments

/-- What a slice does to the counters and to its fiber. -/
inductive CountMove (s s' : Runtime Conn Shared) (f f' : Fiber Conn) : Prop
  | keep (shared : s'.mem.shared = s.mem.shared) (increments : s'.mem.increments = s.mem.increments)
      (copied : ∀ v, f'.ctx.copy = some v → f.ctx.copy = some v ∨ v = s.mem.shared)
      (serving : f'.ctx.serving = true → (f.ctx.serving = true ∧ f'.got = f.got) ∨ f'.InHandler)
  | increment {v : Nat} (copied : f.ctx.copy = some v) (shared : s'.mem.shared = v + 1)
      (increments : s'.mem.increments = s.mem.increments + 1) (stored : f'.ctx.copy = none)
      (got : f'.got = f.got)

open TransparentOffload.Runtime

/-- A fiber that is not serving and stays so keeps the counters. -/
theorem CountMove.outside {s s' : Runtime Conn Shared} {f f' : Fiber Conn} (mem : s'.mem = s.mem)
    (copied : f'.ctx.copy = none) (serving : f'.ctx.serving = true → f'.InHandler) :
    CountMove s s' f f' := by
  refine .keep (by rw [mem]) (by rw [mem]) ?_ (fun now => Or.inr (serving now))
  intro v copy
  rw [copied] at copy
  cases copy

theorem slice_count {transform : Bytes → Bytes} {s s' : Runtime Conn Shared} {i : Nat}
    {f : Fiber Conn} {out : Out} (unlocked : f.ctx.locks = false)
    (taken : Slice (config false true transform) s i f out s') :
    ∃ f', s'.fibs i = some f' ∧ f'.ctx.locks = false ∧ CountMove s s' f f' := by
  have calls : ∀ ctx, f.ctx = ctx →
      (config false true transform).app.code f.ctx = conn false ctx := by
    intro ctx same
    rw [same]
    rfl
  cases at_ : f.ctx with
  | locking | unlocking =>
    rw [at_] at unlocked
    cases unlocked
  | reading fd buf =>
    have waiting : f.ctx.serving = true → f.InHandler := by simp [at_, Conn.serving]
    have none : f.ctx.copy = none := by rw [at_]; rfl
    rcases slice_io taken (calls _ at_) with ⟨_, rfl⟩ |
      ⟨owner, sock, r, _, _, _, ⟨_, rfl⟩ | ⟨_, rfl⟩⟩
    · exact ⟨_, Function.update_self .., unlocked, .outside rfl none waiting⟩
    · refine ⟨_, Function.update_self .., unlocked, .outside rfl none ?_⟩
      intro serving
      change f.ctx.serving = true at serving
      rw [at_] at serving
      cases serving
    · obtain ⟨free, copied, bytes⟩ := afterRead_serving fd buf r
      refine ⟨_, Function.update_self .., free, .outside rfl copied ?_⟩
      intro serving
      have some := bytes serving
      change 0 < ioGot f _ + retGot r
      omega
  | writing fd buf put =>
    have idle : f.ctx.serving = true → False := by simp [at_, Conn.serving]
    have none : f.ctx.copy = none := by rw [at_]; rfl
    rcases slice_io taken (calls _ at_) with ⟨_, rfl⟩ |
      ⟨owner, sock, r, _, _, _, ⟨_, rfl⟩ | ⟨_, rfl⟩⟩
    · exact ⟨_, Function.update_self .., unlocked, .outside rfl none fun now => (idle now).elim⟩
    · exact ⟨_, Function.update_self .., unlocked, .outside rfl none fun now => (idle now).elim⟩
    · obtain ⟨free, copied, ended⟩ := afterWrite_idle fd buf put r
      refine ⟨_, Function.update_self .., free, .outside rfl copied ?_⟩
      intro serving
      change (afterWrite fd buf put r).serving = true at serving
      rw [ended] at serving
      cases serving
  | loading fd buf =>
    rw [slice_code taken (calls _ at_)]
    refine ⟨_, Function.update_self .., rfl, .keep rfl rfl ?_ ?_⟩
    · intro v copy
      exact Or.inr (Option.some.inj copy).symm
    · intro _
      exact Or.inl ⟨by rw [at_]; rfl, rfl⟩
  | encrypting fd buf v =>
    rcases slice_accel taken (calls _ at_) with ⟨_, rfl⟩ | ⟨id, _, rfl⟩
    · refine ⟨_, Function.update_self .., unlocked, .keep rfl rfl ?_ ?_⟩
      · exact fun v copy => Or.inl copy
      · exact fun serving => Or.inl ⟨serving, rfl⟩
    · refine ⟨_, Function.update_self .., rfl, .keep rfl rfl ?_ ?_⟩
      · intro w copy
        rw [at_]
        exact Or.inl copy
      · intro _
        exact Or.inl ⟨by rw [at_]; rfl, rfl⟩
  | storing fd buf v =>
    rw [slice_code taken (calls _ at_)]
    exact ⟨_, Function.update_self .., rfl, .increment (v := v) (by rw [at_]; rfl) rfl rfl rfl rfl⟩
  | counting fd buf =>
    rw [slice_code taken (calls _ at_)]
    refine ⟨_, Function.update_self .., rfl, .keep rfl rfl ?_ nofun⟩
    intro v copy
    cases copy
  | closing fd =>
    rw [slice_close taken (calls _ at_)]
    exact ⟨_, Function.update_self .., rfl, .outside rfl rfl nofun⟩
  | returned =>
    rw [slice_ret taken (calls _ at_)]
    refine ⟨_, Function.update_self .., unlocked, .outside rfl ?_ ?_⟩
    · change f.ctx.copy = none
      rw [at_]
      rfl
    · intro serving
      change f.ctx.serving = true at serving
      rw [at_] at serving
      cases serving

theorem init_countInv (transform : Bytes → Bytes) (detOn : Bool)
    (kinds : MutexId → MutexKind) : CountInv transform (init Shared.init detOn kinds) := by
  refine ⟨init_formed _ _ _ _, ?_, ?_, ?_, ?_, rfl⟩
  all_goals simp [init, LockOwned]

/-- A fiber with a copy of `shared` owns the handler lock. -/
theorem CountInv.owner {transform : Bytes → Bytes} {s : Runtime Conn Shared} {i : Nat}
    {f : Fiber Conn} {v : Nat} (inv : CountInv transform s) (live : s.fibs i = some f)
    (copy : f.ctx.copy = some v) : s.hlockOwner = some i :=
  inv.owned i f live (Or.inl (inv.serving i f live (Conn.serving_of_copy copy)))

/-- While another fiber's slice stores, nobody else has a copy of `shared`. -/
theorem CountMove.shared {transform : Bytes → Bytes} {s s' : Runtime Conn Shared} {i j : Nat}
    {f g g' : Fiber Conn} {v : Nat} (inv : CountInv transform s) (live : s.fibs i = some f)
    (copy : f.ctx.copy = some v) (there : s.fibs j = some g) (apart : i ≠ j)
    (moved : CountMove s s' g g') : s'.mem.shared = s.mem.shared := by
  cases moved with
  | keep shared => exact shared
  | increment copied =>
    have own := inv.owner live copy
    rw [inv.owner there copied, Option.some.injEq] at own
    exact absurd own.symm apart

/-- What the counters say of one fiber. -/
structure Counts (shared : Nat) (f : Fiber Conn) : Prop where
  unlocked : f.ctx.locks = false
  serving : f.ctx.serving = true → f.InHandler
  copied : ∀ v, f.ctx.copy = some v → v = shared

theorem CountInv.counts {transform : Bytes → Bytes} {s : Runtime Conn Shared} {i : Nat}
    {f : Fiber Conn} (inv : CountInv transform s) (live : s.fibs i = some f) :
    Counts s.mem.shared f :=
  ⟨inv.unlocked i f live, inv.serving i f live, fun v => inv.copied i f v live⟩

theorem Counts.start {shared : Nat} {f : Fiber Conn} {fd : Fd} (start : f.ctx = .reading fd []) :
    Counts shared f := by
  refine ⟨?_, ?_, ?_⟩
  all_goals
    rw [start]
    simp [Conn.locks, Conn.serving, Conn.copy]

theorem Counts.aside {shared : Nat} {f f' : Fiber Conn} (counts : Counts shared f)
    (aside : f.Aside f') : Counts shared f' := by
  refine ⟨?_, ?_, ?_⟩
  · rw [aside.ctx]
    exact counts.unlocked
  · unfold Fiber.InHandler
    rw [aside.ctx, aside.got]
    exact counts.serving
  · rw [aside.ctx]
    exact counts.copied

/-- The fiber of a slice, after it. -/
theorem CountMove.counts {s s' : Runtime Conn Shared} {f f' : Fiber Conn}
    (moved : CountMove s s' f f') (counts : Counts s.mem.shared f)
    (unlocked : f'.ctx.locks = false) : Counts s'.mem.shared f' := by
  cases moved with
  | keep shared _ copied served =>
    refine ⟨unlocked, ?_, ?_⟩
    · intro serving
      rcases served serving with ⟨before, count⟩ | started
      · unfold Fiber.InHandler
        rw [count]
        exact counts.serving before
      · exact started
    · intro v copy
      rw [shared]
      rcases copied v copy with before | fresh
      · exact counts.copied v before
      · exact fresh
  | increment copied _ _ stored count =>
    refine ⟨unlocked, ?_, ?_⟩
    · intro _
      unfold Fiber.InHandler
      rw [count]
      exact counts.serving (Conn.serving_of_copy copied)
    · intro v copy
      rw [stored] at copy
      cases copy

/-- After a slice of fiber `j` every fiber agrees with the counters. -/
theorem slice_counts {transform : Bytes → Bytes} {s s' : Runtime Conn Shared} {out : Out}
    {i j : Nat} {f' g g' : Fiber Conn} (inv : CountInv transform s)
    (taken : step (config false true transform) s (.carrier out) = some s')
    (pc : s.pc = .slice j) (there : s.fibs j = some g) (now : s'.fibs j = some g')
    (free : g'.ctx.locks = false) (moved : CountMove s s' g g') (live' : s'.fibs i = some f') :
    Counts s'.mem.shared f' := by
  by_cases here : i = j
  · subst here
    rw [now, Option.some.injEq] at live'
    exact live' ▸ moved.counts (inv.counts there) free
  · rcases step_fiber taken live' with ⟨f, live, step⟩ | ⟨_, _, _, _, _, intake⟩
    · have aside := step.aside fun _ _ => other_not_sliced pc here
      have counts := (inv.counts live).aside aside
      refine ⟨counts.unlocked, counts.serving, ?_⟩
      intro v copy
      rw [moved.shared inv live (aside.ctx ▸ copy) there here]
      exact counts.copied v copy
    · rw [pc] at intake
      cases intake

theorem step_countInv {transform : Bytes → Bytes} {s s' : Runtime Conn Shared} {a : Act}
    (inv : CountInv transform s) (taken : step (config false true transform) s a = some s') :
    CountInv transform s' := by
  have formed := step_formed inv.formed taken
  have owned := step_lockOwned inv.formed (readsWrites false) rfl inv.owned taken
  have counts : (∀ i f', s'.fibs i = some f' → Counts s'.mem.shared f') ∧
      s'.mem.shared = s'.mem.increments := by
    rcases sliced_or_still taken with ⟨out, j, g, rfl, pc, there, slice⟩ | still
    · obtain ⟨g', now, free, moved⟩ := slice_count (inv.unlocked j g there) slice
      refine ⟨fun i f' => slice_counts inv taken pc there now free moved, ?_⟩
      cases moved with
      | keep shared increments =>
        rw [shared, increments]
        exact inv.counted
      | increment copied shared increments =>
        rw [shared, increments, ← inv.counted, inv.copied j g _ there copied]
    · rw [(step_background taken still).2.2]
      refine ⟨?_, inv.counted⟩
      intro i f' live'
      rcases step_fiber taken live' with ⟨f, live, step⟩ | ⟨g, queued, rfl, _⟩
      · exact (inv.counts live).aside (step.aside fun out carrier => still out i carrier)
      · obtain ⟨fd, number, rfl⟩ := inv.formed.queue g queued
        exact Counts.start rfl
  exact ⟨formed, owned, fun i f live => (counts.1 i f live).unlocked,
    fun i f live => (counts.1 i f live).serving,
    fun i f v live => (counts.1 i f live).copied v, counts.2⟩

/-- Two-phase enforcement makes the handlers of the unlocked server exclude each
other, from the first `read` of a request to the next `write`, and no increment
of `shared` is lost. -/
theorem enforcement_loses_no_update (transform : Bytes → Bytes) (detOn : Bool)
    (kinds : MutexId → MutexKind) (acts : List Act) (s : Runtime Conn Shared)
    (ran : runActs (config false true transform) (init Shared.init detOn kinds) acts = some s) :
    (∀ i j f g, s.fibs i = some f → s.fibs j = some g → f.InHandler → g.InHandler → i = j) ∧
      (∀ i f, s.fibs i = some f → f.ctx.serving = true → f.InHandler) ∧
      s.mem.shared = s.mem.increments := by
  have inv : CountInv transform s :=
    Machine.invariant_reached (fun _ _ _ inv taken => step_countInv inv taken)
      (init_countInv transform detOn kinds) ran
  refine ⟨?_, inv.serving, inv.counted⟩
  intro i j f g first second started startedToo
  have own := inv.owned i f first (Or.inl started)
  rw [inv.owned j g second (Or.inl startedToo), Option.some.injEq] at own
  exact own.symm

/-- Two clients send the start of a request; the first one's is received. -/
def firstBytes : List Act :=
  [.create 0, .create 1, .arrive 0 [7, 7, 7], .arrive 1 [9, 9]] ++
    List.replicate 10 (.carrier .quiet) ++
    .carrier { Out.quiet with io := .part 3 } :: List.replicate 5 (.carrier .quiet)

theorem firstBytes_loses_no_update : ∃ s,
    runActs (config false true id) (init Shared.init false fun _ => .normal) firstBytes =
      some s ∧
    (∀ i j f g, s.fibs i = some f → s.fibs j = some g → f.InHandler → g.InHandler → i = j) ∧
    (∀ i f, s.fibs i = some f → f.ctx.serving = true → f.InHandler) ∧
    s.mem.shared = s.mem.increments :=
  ⟨_, rfl, enforcement_loses_no_update id false (fun _ => .normal) firstBytes _ rfl⟩

end HostileServer

end TransparentOffload
