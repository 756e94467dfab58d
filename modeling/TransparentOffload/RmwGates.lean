import TransparentOffload.Lib.Counters
import TransparentOffload.Lib.Holders
import TransparentOffload.RmwJobs

set_option autoImplicit false

/- The gates of `DET.RMW` in the modes `detect` and `lock`: one job at a time is
between its read and its write, so no update is lost and no conflict is seen. -/
namespace TransparentOffload.DetModule

/-- Job `p` is on gate `g`, between its read in `begin` and its write in `reply_cb`. -/
def OnGate (mode : RmwMode) (s : DetModule) (g p : Nat) : Prop :=
  ∃ j, s.jobs p = some j ∧ j.begun = true ∧ mode.gate j.slot = g

/-- What the page versions say of the jobs on the gates. -/
structure Unseen (mode : RmwMode) (s : DetModule) : Prop where
  watched : mode ≠ .lock → s.det.detOn = true
  unwatched : mode = .lock → s.det = .off
  clocks : ∀ k, s.det.pver k ≤ s.det.gclk
  unwritten : ∀ p j, s.jobs p = some j → j.begun = true → s.det.pver j.slot ≤ j.df.parkClk
  quiet : s.det.detConflicts = 0

/-- The gates; `handing` is the one that `reply_cb` has still to pass on. -/
structure Gated (mode : RmwMode) (handing : Option Nat) (s : DetModule) : Prop where
  sound : Sound mode s
  one : ∀ g p p', s.OnGate mode g p → s.OnGate mode g p' → p = p'
  busy : ∀ g, s.inflight g = 1 ↔ handing = some g ∨ ∃ p, s.OnGate mode g p
  flag : ∀ g, s.inflight g = 0 ∨ s.inflight g = 1
  handed : ∀ g, handing = some g → ∀ p, ¬ s.OnGate mode g p
  current : ∀ p j, s.jobs p = some j → j.begun = true → j.v = s.cnt j.slot
  total : s.sum = s.gTotal
  unseen : Unseen mode s

theorem onLoad_gated (mode : RmwMode) : Gated mode none (onLoad mode) := by
  refine ⟨onLoad_sound mode, ?_, ?_, ?_, ?_, ?_, ?_, ?_, ?_, ?_, ?_, ?_⟩
  · rintro g p p' ⟨j, live, _⟩
    cases live
  · simp [onLoad, OnGate]
  · exact fun _ => Or.inl rfl
  · exact fun _ impossible => by cases impossible
  · exact fun _ _ live => by cases live
  · simp [onLoad, sum]
  · intro watched
    simp [onLoad, watched]
  · intro unwatched
    simp [onLoad, unwatched]
  · intro k
    cases mode <;> exact Nat.le_refl 0
  · exact fun _ _ live => by cases live
  · cases mode <;> rfl

variable {mode : RmwMode} {s t : DetModule} {handing : Option Nat}

theorem Unseen.moved (unseen : Unseen mode s)
    (begun : ∀ p j, (t.jobs p = some j ∧ j.begun = true) ↔ (s.jobs p = some j ∧ j.begun = true))
    (det : t.det = s.det) : Unseen mode t := by
  refine ⟨det ▸ unseen.watched, det ▸ unseen.unwatched, det ▸ unseen.clocks, ?_,
    det ▸ unseen.quiet⟩
  intro p j live started
  have old := (begun p j).mp ⟨live, started⟩
  rw [det]
  exact unseen.unwritten p j old.1 old.2

/-- Steps that begin no job and end none keep the gates. -/
theorem Gated.moved (gated : Gated mode handing s) (sound : Sound mode t)
    (begun : ∀ p j, (t.jobs p = some j ∧ j.begun = true) ↔ (s.jobs p = some j ∧ j.begun = true))
    (inflight : t.inflight = s.inflight) (cnt : t.cnt = s.cnt) (gTotal : t.gTotal = s.gTotal)
    (det : t.det = s.det) : Gated mode handing t := by
  have onGate : ∀ g p, t.OnGate mode g p ↔ s.OnGate mode g p := by
    intro g p
    apply exists_congr
    intro j
    rw [← and_assoc, ← and_assoc, begun p j]
  refine ⟨sound, ?_, ?_, ?_, ?_, ?_, ?_, gated.unseen.moved begun det⟩
  · intro g p p' first second
    exact gated.one g p p' ((onGate g p).mp first) ((onGate g p').mp second)
  · intro g
    rw [inflight, gated.busy g]
    simp only [onGate]
  · rw [inflight]
    exact gated.flag
  · intro g open_ p on
    exact gated.handed g open_ p ((onGate g p).mp on)
  · intro p j live started
    have old := (begun p j).mp ⟨live, started⟩
    rw [cnt]
    exact gated.current p j old.1 old.2
  · unfold sum
    rw [cnt, gTotal]
    exact gated.total

theorem alloc_gated (gated : Gated mode handing s) {k : Nat} (slot : k < kslots) :
    Gated mode handing (s.alloc k) :=
  gated.moved (alloc_sound gated.sound slot) (alloc_begun gated.sound k) rfl rfl rfl rfl

/-- A job that parks now has not missed any write. -/
theorem Unseen.park_after (unseen : Unseen mode s) (j : Job) :
    s.det.pver j.slot ≤ (s.parked mode j).2.parkClk := by
  by_cases watched : mode = .lock
  · rw [unseen.unwatched watched]
    exact Nat.zero_le _
  · rw [parked_watched watched (unseen.watched watched)]
    exact unseen.clocks j.slot

/-- A job that begins joins the ones on its gate. -/
theorem begin_onGate {p : Nat} {j : Job} (live : s.jobs p = some j) (idle : j.begun = false)
    (taken : s.begin mode p = some t) (g p' : Nat) :
    t.OnGate mode g p' ↔ (p' = p ∧ g = mode.gate j.slot) ∨ s.OnGate mode g p' := by
  have here := begin_job live taken
  by_cases new : p' = p
  · subst new
    constructor
    · rintro ⟨j', live', _, gate⟩
      rw [here, Option.some.injEq] at live'
      rw [← live'] at gate
      exact Or.inl ⟨rfl, gate.symm⟩
    · rintro (⟨_, rfl⟩ | ⟨j', live', started, _⟩)
      · exact ⟨_, here, rfl, rfl⟩
      · rw [live, Option.some.injEq] at live'
        rw [← live', idle] at started
        cases started
  · unfold OnGate
    rw [begin_job_other live taken new]
    simp [new]

/-- No version is past the clock of the job that begins. -/
theorem begin_unseen {p : Nat} {j : Job} (unseen : Unseen mode s) (live : s.jobs p = some j)
    (taken : s.begin mode p = some t) : Unseen mode t := by
  have same := begin_spec live taken
  obtain ⟨writable, protection⟩ : ∃ writable,
      (s.parked mode j).1 = { s.det with writable := writable } := s.parked_det j
  have det : t.det = { s.det with writable := writable } := by rw [same, ← protection]
  refine ⟨?_, ?_, ?_, ?_, ?_⟩
  · rw [det]
    exact unseen.watched
  · intro unwatched
    rw [same]
    dsimp only
    rw [parked, if_pos unwatched]
    exact unseen.unwatched unwatched
  · rw [det]
    exact unseen.clocks
  · intro p' j' live' started
    rw [det]
    dsimp only
    by_cases new : p' = p
    · subst new
      rw [begin_job live taken, Option.some.injEq] at live'
      rw [← live']
      exact unseen.park_after j
    · rw [begin_job_other live taken new] at live'
      exact unseen.unwritten p' j' live' started
  · rw [det]
    exact unseen.quiet

/-- `begin` on a gate that is being handed over. -/
theorem begin_gated {g p : Nat} {j : Job} (gated : Gated mode (some g) s)
    (live : s.jobs p = some j) (idle : j.begun = false) (gate : mode.gate j.slot = g)
    (unqueued : ∀ g', p ∉ s.waitingOn g') (room : t.WithinQueue)
    (taken : s.begin mode p = some t) : Gated mode none t := by
  have sound := begin_sound gated.sound live idle unqueued room taken
  have same := begin_spec live taken
  have onGate := begin_onGate live idle taken
  rw [gate] at onGate
  refine ⟨sound, ?_, ?_, ?_, ?_, ?_, ?_, begin_unseen gated.unseen live taken⟩
  · exact Holders.Single.enter gated.one (gated.handed g rfl) onGate
  · intro g'
    rw [show t.inflight = s.inflight by rw [same], gated.busy g']
    simp only [onGate, Option.some.injEq, reduceCtorEq, false_or]
    constructor
    · rintro (rfl | ⟨p', on⟩)
      · exact ⟨p, Or.inl ⟨rfl, rfl⟩⟩
      · exact ⟨p', Or.inr on⟩
    · rintro ⟨p', ⟨_, rfl⟩ | on⟩
      · exact Or.inl rfl
      · exact Or.inr ⟨p', on⟩
  · rw [show t.inflight = s.inflight by rw [same]]
    exact gated.flag
  · exact fun _ impossible => by cases impossible
  · intro p' j' live' started
    rw [show t.cnt = s.cnt by rw [same]]
    by_cases new : p' = p
    · subst new
      rw [begin_job live taken, Option.some.injEq] at live'
      rw [← live']
      rfl
    · rw [begin_job_other live taken new] at live'
      exact gated.current p' j' live' started
  · rw [show t.sum = s.sum by rw [same]; rfl, show t.gTotal = s.gTotal by rw [same]]
    exact gated.total

/-- A free gate is set busy for a job that has still to begin. -/
theorem open_gated {g : Nat} (gated : Gated mode none s) (idle : s.inflight g = 0)
    (opened : t = { s with inflight := Function.update s.inflight g 1 }) :
    Gated mode (some g) t := by
  subst opened
  have free : ∀ p, ¬ s.OnGate mode g p := by
    intro p on
    have busy := (gated.busy g).mpr (Or.inr ⟨p, on⟩)
    omega
  have sound : Sound mode { s with inflight := Function.update s.inflight g 1 } :=
    gated.sound.moved gated.sound.ordered (List.Perm.refl _) rfl rfl rfl
  refine ⟨sound, gated.one, ?_, ?_, ?_, gated.current, gated.total,
    gated.unseen.moved (fun _ _ => Iff.rfl) rfl⟩
  · intro g'
    dsimp only
    by_cases same : g' = g
    · rw [same, Function.update_self]
      simp
    · rw [Function.update_of_ne same, gated.busy g']
      simp [Ne.symm same]
      rfl
  · exact Holders.flags_update gated.flag (Or.inr rfl)
  · intro g' opened p
    cases opened
    exact free p

theorem ended_onGate {p : Nat} {j : Job} (g p' : Nat) :
    (s.ended mode p j).OnGate mode g p' ↔ p' ≠ p ∧ s.OnGate mode g p' := by
  constructor
  · rintro ⟨j', live', rest⟩
    obtain ⟨apart, live⟩ := ended_jobs live'
    exact ⟨apart, j', live, rest⟩
  · rintro ⟨apart, j', live, rest⟩
    have kept : (s.ended mode p j).jobs p' = s.jobs p' := Function.update_of_ne apart ..
    exact ⟨j', kept.trans live, rest⟩

/-- A job is on one gate only. -/
theorem onGate_gate {g p : Nat} {j : Job} (live : s.jobs p = some j) (on : s.OnGate mode g p) :
    g = mode.gate j.slot := by
  obtain ⟨j', live', _, gate⟩ := on
  rw [live, Option.some.injEq] at live'
  subst live'
  exact gate.symm

/-- The write of a reply is not counted, and the jobs left have other counters. -/
theorem ended_unseen {p : Nat} {j : Job} (unseen : Unseen mode s) (slot : j.slot < kslots)
    (live : s.jobs p = some j) (begun : j.begun = true)
    (later : ∀ p' j', (s.ended mode p j).jobs p' = some j' → j'.begun = true →
      s.jobs p' = some j' ∧ j'.slot ≠ j.slot) : Unseen mode (s.ended mode p j) := by
  by_cases watched : mode = .lock
  · have off : (s.ended mode p j).det = .off := by
      unfold ended writeBack free
      dsimp only
      rw [if_pos watched, if_pos watched, unseen.unwatched watched]
      rfl
    refine ⟨fun other => absurd watched other, fun _ => off, ?_, ?_, ?_⟩
    all_goals simp [off, Detector.off]
  · have inside : j.slot < maxPg := Nat.lt_trans slot (by decide)
    have unread : ¬ s.det.pver j.slot > j.df.parkClk :=
      Nat.not_lt.mpr (unseen.unwritten p j live begun)
    have det := ended_det (p := p) watched (unseen.watched watched) inside
    rw [if_neg unread] at det
    refine ⟨?_, fun lock => absurd lock watched, ?_, ?_, ?_⟩
    · rw [det]
      exact unseen.watched
    · intro k
      rw [det]
      dsimp only
      by_cases same : k = j.slot
      · rw [same, Function.update_self]
      · rw [Function.update_of_ne same]
        exact Nat.le_succ_of_le (unseen.clocks k)
    · intro p' j' live' begun'
      obtain ⟨old, counter⟩ := later p' j' live' begun'
      rw [det]
      dsimp only
      rw [Function.update_of_ne counter]
      exact unseen.unwritten p' j' old begun'
    · rw [det]
      exact unseen.quiet

/-- The write of a reply finds its counter as the job read it, and hands the gate over. -/
theorem ended_gated {p : Nat} {j : Job} (gated : Gated mode none s) (finished : p ∈ s.unblocked)
    (live : s.jobs p = some j) (begun : j.begun = true) :
    Gated mode (some (mode.gate j.slot)) (s.ended mode p j) := by
  have slot := gated.sound.slots p j live
  have own : s.OnGate mode (mode.gate j.slot) p := ⟨j, live, begun, rfl⟩
  -- another job in flight has another counter
  have apart : ∀ p' j', s.jobs p' = some j' → j'.begun = true → p' ≠ p → j'.slot ≠ j.slot := by
    intro p' j' live' begun' new same
    exact new (gated.one _ p' p ⟨j', live', begun', congrArg mode.gate same⟩ own)
  have fresh : j.v = s.cnt j.slot := gated.current p j live begun
  have cnt : (s.ended mode p j).cnt = Function.update s.cnt j.slot (s.cnt j.slot + 1) := by
    rw [← fresh]
    rfl
  have later : ∀ p' j', (s.ended mode p j).jobs p' = some j' → j'.begun = true →
      s.jobs p' = some j' ∧ j'.slot ≠ j.slot := by
    intro p' j' live' begun'
    obtain ⟨new, old⟩ := ended_jobs live'
    exact ⟨old, apart p' j' old begun' new⟩
  refine ⟨ended_sound gated.sound finished, ?_, ?_, ?_, ?_, ?_, ?_,
    ended_unseen gated.unseen slot live begun later⟩
  · exact Holders.Single.leave gated.one ended_onGate
  · intro g
    rw [show (s.ended mode p j).inflight = s.inflight from rfl, gated.busy g]
    simp only [ended_onGate, reduceCtorEq, false_or, Option.some.injEq]
    constructor
    · rintro ⟨p', on⟩
      by_cases same : p' = p
      · exact Or.inl (onGate_gate (same ▸ live) on).symm
      · exact Or.inr ⟨p', same, on⟩
    · rintro (rfl | ⟨p', _, on⟩)
      · exact ⟨p, own⟩
      · exact ⟨p', on⟩
  · exact gated.flag
  · intro g open_ p' on
    cases open_
    exact Holders.Single.left_free gated.one own p' ((ended_onGate _ p').mp on)
  · intro p' j' live' begun'
    obtain ⟨old, counter⟩ := later p' j' live' begun'
    rw [cnt, Function.update_of_ne counter]
    exact gated.current p' j' old begun'
  · have raised : (s.ended mode p j).sum = s.sum + 1 := by
      unfold sum
      rw [cnt]
      exact Counters.sum_raise slot s.cnt 1
    rw [raised, gated.total]
    rfl

/-- The gate of an ended job goes to the next one or gets idle. -/
theorem advanceGate_gated {g : Nat} (gated : Gated mode (some g) s) (room : t.WithinQueue)
    (taken : s.advanceGate mode g = some t) : Gated mode none t := by
  unfold advanceGate at taken
  split at taken
  · rename_i more
    obtain ⟨sound, j, live, idle, gate, unqueued⟩ := popped_sound gated.sound more rfl
    have popped := gated.moved (t := { s with
      pend := Function.update s.pend g (s.pend g).advance }) sound
      (fun _ _ => Iff.rfl) rfl rfl rfl rfl
    exact begin_gated popped live idle gate unqueued room taken
  · rw [Option.some.injEq] at taken
    subst taken
    have sound : Sound mode { s with inflight := Function.update s.inflight g 0 } :=
      gated.sound.moved gated.sound.ordered (List.Perm.refl _) rfl rfl rfl
    refine ⟨sound, gated.one, ?_, ?_, ?_, gated.current, gated.total,
      gated.unseen.moved (fun _ _ => Iff.rfl) rfl⟩
    · intro g'
      dsimp only
      by_cases same : g' = g
      · rw [same, Function.update_self]
        have none := gated.handed g rfl
        simp only [Nat.zero_ne_one, reduceCtorEq, false_or, false_iff, not_exists]
        exact none
      · rw [Function.update_of_ne same, gated.busy g']
        simp [Ne.symm same]
        rfl
    · exact Holders.flags_update gated.flag (Or.inl rfl)
    · intro _ impossible
      cases impossible

theorem cmdRmw_gated {argv : List Bytes} (protects : mode ≠ .naive) (gated : Gated mode none s)
    (queue : t.WithinQueue) (gates : t.WithinGates) (taken : s.cmdRmw mode argv = some t) :
    Gated mode none t := by
  unfold cmdRmw at taken
  split at taken
  · rename_i key
    dsimp only at taken
    rw [if_neg protects] at taken
    have slot := slotOf_lt key
    have unqueued := alloc_unqueued gated.sound
    have allocated := alloc_gated gated slot
    have here : (s.alloc (slotOf key)).jobs s.allocated =
        some ⟨slotOf key, 0, ⟨0, false⟩, false⟩ :=
      Function.update_self ..
    split at taken
    · rename_i idle
      exact begin_gated (open_gated allocated idle rfl) here rfl rfl unqueued queue taken
    · have inside : mode.gate (slotOf key) < kslots := by
        unfold RmwMode.gate
        split
        · decide
        · exact slot
      have sound := queueJob_sound allocated.sound here rfl rfl (unqueued _) (gates _ inside) taken
      unfold queueJob at taken
      split at taken
      · cases taken
      · rw [Option.some.injEq] at taken
        subst taken
        exact allocated.moved sound (fun _ _ => Iff.rfl) rfl rfl rfl rfl
  · rw [Option.some.injEq] at taken
    exact taken ▸ gated

/-- Every step keeps the gates, as long as the rings have room. -/
theorem step_gated {nw : Nat} {a : DetAct} (protects : mode ≠ .naive) (gated : Gated mode none s)
    (queue : t.WithinQueue) (gates : t.WithinGates) (taken : s.step mode nw a = some t) :
    Gated mode none t := by
  cases stepped gated.sound taken with
  | command argv taken => exact cmdRmw_gated protects gated queue gates taken
  | worker q running unblocked sound =>
    exact gated.moved sound (fun _ _ => Iff.rfl) rfl rfl rfl rfl
  | reply p j finished live begun ends =>
    rw [if_neg protects] at ends
    exact advanceGate_gated (ended_gated gated finished live begun) queue ends

/-- With the gates, no reply erases an update: at most one job of a gate is between
its read and its write, its flag says so, the counters add up to the commands that
are through, and the detector has nothing to count. -/
theorem gated_modes_lose_no_update (mode : RmwMode) (protects : mode ≠ .naive) (nw : Nat)
    (acts : List DetAct) (s : DetModule)
    (within : Machine.Always (step mode nw) (fun s => s.WithinQueue ∧ s.WithinGates)
      (onLoad mode) acts)
    (ran : Machine.run (step mode nw) (onLoad mode) acts = some s) :
    (∀ g p p', s.OnGate mode g p → s.OnGate mode g p' → p = p') ∧
      (∀ g, s.inflight g = 1 ↔ ∃ p, s.OnGate mode g p) ∧
      s.sum = s.gTotal ∧ (mode = .detect → s.det.detConflicts = 0) := by
  have gated : Gated mode none s :=
    Machine.invariant_within (fun _ _ _ gated room taken =>
      step_gated protects gated room.1 room.2 taken) (onLoad_gated mode) within ran
  refine ⟨gated.one, ?_, gated.total, fun _ => gated.unseen.quiet⟩
  intro g
  simpa using gated.busy g

/-- Two commands on one key and one on another, with two workers. -/
def sharedKey : List DetAct :=
  let rmw (key : UInt8) : DetAct := .rmw [[], [key]]
  [rmw 1, rmw 1, rmw 2, .take 1, .take 0, .unblock 0 2, .unblock 1 0, .reply 2, .reply 0,
    .take 0, .unblock 0 1, .reply 1]

theorem sharedKey_loses_no_update : ∃ s,
    Machine.run (step .detect 2) (onLoad .detect) sharedKey = some s ∧ s.gTotal = 3 ∧
      (∀ g p p', s.OnGate .detect g p → s.OnGate .detect g p' → p = p') ∧
      (∀ g, s.inflight g = 1 ↔ ∃ p, s.OnGate .detect g p) ∧
      s.sum = s.gTotal ∧ (RmwMode.detect = .detect → s.det.detConflicts = 0) :=
  ⟨_, rfl, rfl, gated_modes_lose_no_update .detect (by decide) 2 sharedKey _
    (by decide +kernel) rfl⟩

end TransparentOffload.DetModule
