import TransparentOffload.Formed
import Mathlib.Data.List.Nodup

set_option autoImplicit false

/- Condition wake-ups from real threads. A signal is a fetch-and-add on `pend_head`
and a later store; it is not lost as long as the store lands in its window of the
ring, neither behind the carrier nor on a slot the carrier has yet to read. -/
namespace TransparentOffload

variable {σ γ : Type}

/-- A move keeps a condition wait, ends it, or enters a later one. -/
theorem FiberMove.wait {c : Config σ γ} {s : Runtime σ γ} {a : Act} {i : Nat}
    {f f' : Fiber σ} (moved : FiberMove c s i f a f') :
    f.waits ≤ f'.waits ∧ (f'.state = .waitCond → f.waits < f'.waits ∨
      (f.state = .waitCond ∧ f'.waits = f.waits ∧ f'.waitcond = f.waitcond)) := by
  cases moved with
  | keep => exact ⟨Nat.le_refl _, fun waiting => Or.inr ⟨waiting, rfl, rfl⟩⟩
  | event | offloaded | woken | expired => exact ⟨Nat.le_refl _, nofun⟩
  | switchIn pc runnable =>
    rw [Fiber.switchedIn_waits, Fiber.switchedIn_state]
    refine ⟨Nat.le_refl _, ?_⟩
    exact fun waiting => absurd waiting (Fiber.Runnable.ne runnable nofun nofun)
  | slice pc moved =>
    cases moved with
    | back => exact ⟨Nat.le_refl _, fun waiting => Or.inr ⟨waiting, rfl, rfl⟩⟩
    | io | poll | pollTimed | offload => exact ⟨Nat.le_succ _, nofun⟩
    | run | done => exact ⟨Nat.le_refl _, nofun⟩
    | cond => exact ⟨Nat.le_succ _, fun _ => Or.inl (Nat.lt_succ_self _)⟩

namespace Runtime

/-- The fiber of slot `i` waits on `cv`, in its wait number `w`. -/
def Waits (s : Runtime σ γ) (i : Nat) (cv : CondId) (w : Nat) : Prop :=
  ∃ f, s.fibs i = some f ∧ f.state = .waitCond ∧ f.waitcond = some cv ∧ f.waits = w

/-- The fiber of slot `i` has left its wait number `w`. -/
structure LeftWait (s : Runtime σ γ) (i w : Nat) : Prop where
  taken : i < s.nfib
  left : ∀ f, s.fibs i = some f → w ≤ f.waits ∧ (f.state = .waitCond → f.waits ≠ w)

theorem step_leftWait {c : Config σ γ} {s s' : Runtime σ γ} {a : Act} {i w : Nat}
    (gone : s.LeftWait i w) (moved : step c s a = some s') : s'.LeftWait i w := by
  refine ⟨Nat.lt_of_lt_of_le gone.taken (step_growing moved).1, ?_⟩
  intro f' live'
  rcases step_fiber moved live' with ⟨f, live, move⟩ | ⟨_, _, _, low, _⟩
  · obtain ⟨reached, left⟩ := gone.left f live
    obtain ⟨more, wait⟩ := move.wait
    refine ⟨Nat.le_trans reached more, ?_⟩
    intro waiting
    rcases wait waiting with later | ⟨still, same, _⟩
    · omega
    · rw [same]
      exact left still
  · have taken := gone.taken
    omega

/-- A waiting fiber waits on, or has left that wait. -/
theorem step_waits {c : Config σ γ} {s s' : Runtime σ γ} {a : Act} {i w : Nat} {cv : CondId}
    (formed : Formed c s) (waits : s.Waits i cv w) (moved : step c s a = some s') :
    s'.Waits i cv w ∨ s'.LeftWait i w := by
  obtain ⟨f, live, waiting, on, rfl⟩ := waits
  have taken := Nat.lt_of_lt_of_le (formed.slots i f live).2 (step_growing moved).1
  rcases step_keeps formed moved live with ⟨f', live'⟩ | ⟨_, done⟩
  · obtain ⟨more, wait⟩ := (step_moved formed moved live live').wait
    by_cases same : f'.state = .waitCond ∧ f'.waits = f.waits
    · obtain ⟨still, count⟩ := same
      rcases wait still with later | ⟨_, _, cond⟩
      · omega
      · exact Or.inl ⟨f', live', still, cond.trans on, count⟩
    · refine Or.inr ⟨taken, ?_⟩
      intro g there
      rw [live', Option.some.injEq] at there
      subst there
      exact ⟨more, fun still count => same ⟨still, count⟩⟩
  · rw [waiting] at done
    cases done

/-- Tickets taken by real threads are distinct and below `pend_head`. -/
structure RingInv (s : Runtime σ γ) : Prop where
  below : ∀ p ∈ s.reserved, p.1 < s.pend.head
  once : (s.reserved.map Prod.fst).Nodup

theorem init_ringInv (mem : γ) (detOn : Bool) (kinds : MutexId → MutexKind) :
    RingInv (init mem detOn kinds : Runtime σ γ) := by
  constructor
  · intro p member
    cases member
  · exact List.nodup_nil

/-- Once a ticket's store is made, no real thread holds that ticket any more. -/
theorem RingInv.published {s : Runtime σ γ} (inv : RingInv s) {p : Nat × CondId}
    (reserved : p ∈ s.reserved) : ∀ q ∈ s.reserved.erase p, q.1 ≠ p.1 := by
  intro q member same
  have apart : q ≠ p := ((inv.once.of_map _).mem_erase_iff.mp member).1
  exact apart (List.inj_on_of_nodup_map inv.once (List.mem_of_mem_erase member) reserved same)

/-- What a step does to the wake ring. -/
inductive RingStep (c : Config σ γ) (s : Runtime σ γ) : Act → Runtime σ γ → Prop
  | reserve (cv : CondId) : RingStep c s (.condReserve cv)
      { s with pend := s.pend.reserve, reserved := s.reserved ++ [(s.pend.head, cv)] }
  | publish (ticket : Nat) (cv : CondId) (reserved : (ticket, cv) ∈ s.reserved) :
      RingStep c s (.condPublish ticket cv)
        { s with
          pend := s.pend.publish pendN ticket (some cv)
          reserved := s.reserved.erase (ticket, cv) }
  | drain {out : Out} (more : s.pend.tail < s.pend.head) : RingStep c s (.carrier out)
      ({ s with pend := s.pend.advance }.wakeFibers (s.pend.front pendN))
  | steady {a : Act} {s' : Runtime σ γ} (pend : s'.pend = s.pend)
      (reserved : s'.reserved = s.reserved) : RingStep c s a s'

theorem slice_ring {c : Config σ γ} {s s' : Runtime σ γ} {i : Nat} {f : Fiber σ} {out : Out}
    (taken : Slice c s i f out s') : s'.pend = s.pend ∧ s'.reserved = s.reserved := by
  cases taken with
  | pollPark =>
    unfold yieldIoTo
    split <;> exact ⟨rfl, rfl⟩
  | unlock =>
    unfold mutexUnlock releaseMutex
    dsimp only
    split <;> exact ⟨rfl, rfl⟩
  | condWait =>
    unfold fiberCondWait releaseMutex
    dsimp only
    split <;> exact ⟨rfl, rfl⟩
  | _ => exact ⟨rfl, rfl⟩

theorem step_ring {c : Config σ γ} {s s' : Runtime σ γ} {a : Act}
    (taken : step c s a = some s') : RingStep c s a s' := by
  cases stepped taken with
  | create arg =>
    unfold pthreadCreate
    dsimp only
    split <;> exact .steady rfl rfl
  | reserve cv => exact .reserve cv
  | publish ticket cv reserved => exact .publish ticket cv reserved
  | reserveNone | threadLock | threadUnlock | socket | device => exact .steady rfl rfl
  | @round out _ taken =>
    cases taken with
    | intake =>
      rw [intake_eq]
      exact .steady rfl rfl
    | epoll =>
      obtain ⟨epoll, fibs, same⟩ := deliverAll_frame s out.events
      rw [epollWait, same]
      exact .steady rfl rfl
    | goOn | offloadDone | expire | free => exact .steady rfl rfl
    | drain _ more => exact .drain more
    | @switchIn i f =>
      obtain ⟨errno, errq, same⟩ := switchIn_frame c s i f
      rw [same]
      exact .steady rfl rfl
    | slice _ _ slice => exact .steady (slice_ring slice).1 (slice_ring slice).2

theorem step_ringInv {c : Config σ γ} {s s' : Runtime σ γ} {a : Act} (inv : RingInv s)
    (taken : step c s a = some s') : RingInv s' := by
  cases step_ring taken with
  | reserve cv =>
    constructor
    · intro p member
      rcases List.mem_append.mp member with old | new
      · exact Nat.lt_succ_of_lt (inv.below p old)
      · rw [List.mem_singleton] at new
        subst new
        exact Nat.lt_succ_self _
    · change ((s.reserved ++ [(s.pend.head, cv)]).map Prod.fst).Nodup
      rw [List.map_append, List.nodup_append]
      refine ⟨inv.once, List.nodup_singleton _, ?_⟩
      intro ticket member head new
      obtain ⟨p, old, rfl⟩ := List.mem_map.mp member
      rw [List.map_singleton, List.mem_singleton] at new
      have below := inv.below p old
      omega
  | publish ticket cv reserved =>
    constructor
    · exact fun p member => inv.below p (List.mem_of_mem_erase member)
    · exact inv.once.sublist ((List.erase_sublist).map Prod.fst)
  | drain => exact ⟨inv.below, inv.once⟩
  | steady pend reserved =>
    constructor
    · rw [pend, reserved]
      exact inv.below
    · rw [reserved]
      exact inv.once

/-- The store of a real thread lands in the window of its ticket. -/
def PublishInTime (s : Runtime σ γ) : Act → Prop
  | .condPublish ticket _ => s.pend.InWindow pendN ticket
  | _ => True

instance (s : Runtime σ γ) : ∀ a, Decidable (s.PublishInTime a)
  | .condPublish ticket _ => inferInstanceAs (Decidable (s.pend.InWindow pendN ticket))
  | .create _ | .condReserve _ | .threadLock .. | .threadUnlock .. | .arrive .. | .hangup _
  | .device _ | .carrier _ => isTrue trivial

/-- The wake-up of a published ticket: still in the ring while the fiber waits. -/
structure Pending (s : Runtime σ γ) (ticket : Nat) (cv : CondId) (i w : Nat) : Prop where
  holds : s.pend.Holds pendN ticket (some cv)
  stored : ∀ p ∈ s.reserved, p.1 ≠ ticket
  waits : s.Waits i cv w

/-- The drain that reads the ticket wakes the fiber; every other step keeps it in
the ring. -/
theorem step_pending {c : Config σ γ} {s s' : Runtime σ γ} {a : Act} {ticket : Nat}
    {cv : CondId} {i w : Nat} (formed : Formed c s) (pending : s.Pending ticket cv i w)
    (inTime : s.PublishInTime a) (taken : step c s a = some s') :
    s'.Pending ticket cv i w ∨ s'.LeftWait i w := by
  rcases step_waits formed pending.waits taken with waits | left
  · left
    cases step_ring taken with
    | reserve cv' =>
      refine ⟨pending.holds.reserve, ?_, waits⟩
      intro p member
      rcases List.mem_append.mp member with old | new
      · exact pending.stored p old
      · rw [List.mem_singleton] at new
        subst new
        exact Nat.ne_of_gt pending.holds.below
    | publish other cv' reserved =>
      refine ⟨pending.holds.publish inTime (pending.stored _ reserved), ?_, waits⟩
      exact fun p member => pending.stored p (List.mem_of_mem_erase member)
    | drain more =>
      refine ⟨?_, pending.stored, waits⟩
      rcases pending.holds.advance with ⟨_, read⟩ | holds
      · obtain ⟨g, there, waiting, on, _⟩ := pending.waits
        obtain ⟨f, live, still, _⟩ := waits
        have woken := wakeFibers_wakes (s := { s with pend := s.pend.advance })
          (formed.slots i g there).2 there waiting on
        rw [← read, live, Option.some.injEq] at woken
        rw [woken] at still
        cases still
      · exact holds
    | steady pend reserved =>
      refine ⟨?_, ?_, waits⟩
      · rw [pend]
        exact pending.holds
      · rw [reserved]
        exact pending.stored
  · exact Or.inr left

/-- A published wake-up along a run whose stores are in time. -/
theorem run_pending {c : Config σ γ} {acts : List Act} {s t : Runtime σ γ} {ticket : Nat}
    {cv : CondId} {i w : Nat} (formed : Formed c s)
    (pending : s.Pending ticket cv i w ∨ s.LeftWait i w)
    (inTime : Machine.Guarded (step c) PublishInTime s acts)
    (ran : runActs c s acts = some t) : t.Pending ticket cv i w ∨ t.LeftWait i w := by
  have kept : ∀ u a v, (Formed c u ∧ (u.Pending ticket cv i w ∨ u.LeftWait i w)) →
      u.PublishInTime a → step c u a = some v →
      Formed c v ∧ (v.Pending ticket cv i w ∨ v.LeftWait i w) := by
    rintro u a v ⟨formed, pending | left⟩ inTime taken
    · exact ⟨step_formed formed taken, step_pending formed pending inTime taken⟩
    · exact ⟨step_formed formed taken, Or.inr (step_leftWait left taken)⟩
  exact (Machine.invariant_run kept ⟨formed, pending⟩ inTime ran).2

end Runtime

open TransparentOffload.Runtime

/-- A signal by a real thread that completes while a fiber waits on its condition
has ended that wait when the ring is next drained, and for good, in every run
whose stores into the ring land in their window. -/
theorem published_wake_ends_wait (c : Config σ γ) (mem : γ) (detOn : Bool)
    (kinds : MutexId → MutexKind) (front back later : List Act) (ticket : Nat) (cv : CondId)
    (s s' t u : Runtime σ γ) (i : Nat) (f f' : Fiber σ)
    (ran : runActs c (init mem detOn kinds) front = some s)
    (published : step c s (.condPublish ticket cv) = some s')
    (ranBack : runActs c s' back = some t) (ranLater : runActs c t later = some u)
    (inTime : Machine.Guarded (step c) PublishInTime (init mem detOn kinds)
      (front ++ .condPublish ticket cv :: back))
    (live : s.fibs i = some f) (waiting : f.state = .waitCond) (on : f.waitcond = some cv)
    (drained : t.pc = .drain ∧ ¬ t.pend.tail < t.pend.head) (live' : u.fibs i = some f') :
    ¬ (f'.state = .waitCond ∧ f'.waits = f.waits) := by
  have formed := reached_formed (init_formed c mem detOn kinds) ran
  have ring : RingInv s := Machine.invariant_reached
    (fun _ _ _ inv taken => step_ringInv inv taken) (init_ringInv mem detOn kinds) ran
  have guards := (Machine.Guarded.append ran).mp inTime
  have window : s.pend.InWindow pendN ticket := guards.2.1
  have reserved : (ticket, cv) ∈ s.reserved ∧ s' =
      { s with
        pend := s.pend.publish pendN ticket (some cv)
        reserved := s.reserved.erase (ticket, cv) } := by
    cases stepped published with
    | publish ticket cv reserved => exact ⟨reserved, rfl⟩
    | socket fd k peer => rcases peer with ⟨_, other, _⟩ | ⟨other, _⟩ <;> cases other
  have below := ring.below _ reserved.1
  have pending : s'.Pending ticket cv i f.waits := by
    rw [reserved.2]
    exact ⟨Tickets.Ring.holds_publish window below, ring.published reserved.1,
      ⟨f, live, waiting, on, rfl⟩⟩
  have left : t.LeftWait i f.waits := by
    rcases run_pending (step_formed formed published) (Or.inl pending) (guards.2.2 s' published)
      ranBack with pending | left
    · have unread := pending.holds.window.1
      have head := pending.holds.below
      exact absurd (Nat.lt_of_le_of_lt unread head) drained.2
    · exact left
  have stays : u.LeftWait i f.waits := Machine.invariant_reached
    (fun _ _ _ gone taken => step_leftWait gone taken) left ranLater
  intro both
  exact (stays.left f' live').2 both.1 both.2

/-- A thread function that waits on condition 0 and returns. -/
def waiter : Config Bool Unit :=
  { app :=
      ⟨fun _ => false, fun waited => if waited then .ret else .condWait 0 0 .wait fun _ => true⟩
    gEnforce := false, gRealmutex := false, ssl := .absent, transform := id }

/-- One fiber starts to wait, and a real thread reserves ticket 0 for its signal. -/
def parked : List Act :=
  .create 0 :: (List.replicate 11 (.carrier .quiet) ++ [.condReserve 0])

theorem parked_wake_ends_wait : ∃ s s' t f,
    runActs waiter (init () false fun _ => .normal) parked = some s ∧
    step waiter s (.condPublish 0 0) = some s' ∧ s.fibs 0 = some f ∧
    runActs waiter s' (List.replicate 5 (.carrier .quiet)) = some t ∧
    ∀ f', t.fibs 0 = some f' → ¬ (f'.state = .waitCond ∧ f'.waits = f.waits) :=
  ⟨_, _, _, _, rfl, rfl, rfl, rfl, fun f' => published_wake_ends_wait waiter () false
    (fun _ => .normal) parked (List.replicate 5 (.carrier .quiet)) [] 0 0 _ _ _ _ 0 _ f' rfl rfl
    rfl rfl (by decide) rfl rfl rfl (by decide)⟩

/-- The carrier reads the slot between the fetch-and-add and the store: after the
signal has completed and the next pass has drained the ring, the fiber still waits. -/
theorem late_store_loses_wake : ∃ s s' t f f',
    runActs waiter (init () false fun _ => .normal)
      (parked ++ List.replicate 5 (.carrier .quiet)) = some s ∧
    s.fibs 0 = some f ∧ f.state = .waitCond ∧ f.waitcond = some 0 ∧
    step waiter s (.condPublish 0 0) = some s' ∧
    runActs waiter s' (List.replicate 9 (.carrier .quiet)) = some t ∧
    t.pc = .drain ∧ ¬ t.pend.tail < t.pend.head ∧
    t.fibs 0 = some f' ∧ f'.state = .waitCond ∧ f'.waits = f.waits :=
  ⟨_, _, _, _, _, rfl, rfl, rfl, rfl, rfl, rfl, rfl, by decide, rfl, rfl, rfl⟩

end TransparentOffload
