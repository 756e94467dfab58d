import TransparentOffload.Lib.Counters
import TransparentOffload.RmwJobs

set_option autoImplicit false

/- `DET.RMW` in the mode `naive`: jobs on one counter overlap, and the page versions
tell exactly the counters that have lost an update. -/
namespace TransparentOffload.DetModule

/-- A parked job whose page is unwritten has the counter's value; any other one has
read a value that later writes have left behind. -/
structure Counted (s : DetModule) : Prop where
  sound : Sound .naive s
  watched : s.det.detOn = true
  clocks : ∀ k, s.det.pver k ≤ s.det.gclk
  parks : ∀ p j, s.jobs p = some j → j.begun = true → j.df.parkClk ≤ s.det.gclk
  fresh : ∀ p j, s.jobs p = some j → j.begun = true → s.det.pver j.slot ≤ j.df.parkClk →
    j.v = s.cnt j.slot
  stale : ∀ p j, s.jobs p = some j → j.begun = true → s.det.pver j.slot > j.df.parkClk →
    j.v < s.writes j.slot
  le : ∀ k, s.cnt k ≤ s.writes k
  exact_ : ∀ k, s.cnt k < s.writes k ↔ 0 < s.pageConflicts k
  total : ∑ k ∈ Finset.range kslots, s.writes k = s.gTotal
  conflicts : ∑ k ∈ Finset.range kslots, s.pageConflicts k = s.det.detConflicts

theorem onLoad_counted : Counted (onLoad .naive) := by
  refine ⟨onLoad_sound .naive, rfl, fun _ => Nat.le_refl 0, ?_, ?_, ?_, fun _ => Nat.le_refl 0,
    ?_, ?_, ?_⟩
  all_goals simp [onLoad, Detector.off]

variable {s t : DetModule}

/-- Steps that begin no job and end none keep the counts. -/
theorem Counted.moved (counted : Counted s) (sound : Sound .naive t)
    (begun : ∀ p j, t.jobs p = some j → j.begun = true → s.jobs p = some j)
    (det : t.det = s.det) (cnt : t.cnt = s.cnt) (writes : t.writes = s.writes)
    (gTotal : t.gTotal = s.gTotal) (pageConflicts : t.pageConflicts = s.pageConflicts) :
    Counted t := by
  refine ⟨sound, ?_, ?_, ?_, ?_, ?_, ?_, ?_, ?_, ?_⟩
  · rw [det]
    exact counted.watched
  · rw [det]
    exact counted.clocks
  · intro p j live started
    rw [det]
    exact counted.parks p j (begun p j live started) started
  · intro p j live started
    rw [det, cnt]
    exact counted.fresh p j (begun p j live started) started
  · intro p j live started
    rw [det, writes]
    exact counted.stale p j (begun p j live started) started
  · rw [cnt, writes]
    exact counted.le
  · rw [cnt, writes, pageConflicts]
    exact counted.exact_
  · rw [writes, gTotal]
    exact counted.total
  · rw [det, pageConflicts]
    exact counted.conflicts

theorem begin_counted {p : Nat} {j : Job} (counted : Counted s) (live : s.jobs p = some j)
    (idle : j.begun = false) (unqueued : ∀ g, p ∉ s.waitingOn g) (room : t.WithinQueue)
    (taken : s.begin .naive p = some t) : Counted t := by
  have sound := begin_sound counted.sound live idle unqueued room taken
  have same := begin_spec live taken
  have watched : RmwMode.naive ≠ .lock := by decide
  have parked := parked_watched watched counted.watched j
  have here : t.jobs p = some { j with
      v := s.cnt j.slot, begun := true, df := { j.df with parkClk := s.det.gclk } } := by
    rw [begin_job live taken, beginJob, parked]
  have other : ∀ p', p' ≠ p → t.jobs p' = s.jobs p' :=
    fun _ apart => begin_job_other live taken apart
  have det : t.det = s.det.protectRegions := by rw [same, parked]
  refine ⟨sound, ?_, ?_, ?_, ?_, ?_, ?_, ?_, ?_, ?_⟩
  · rw [det]
    exact counted.watched
  · rw [det]
    exact counted.clocks
  · intro p' j' live' started
    rw [det]
    by_cases new : p' = p
    · rw [new, here, Option.some.injEq] at live'
      rw [← live']
      exact Nat.le_refl _
    · rw [other p' new] at live'
      exact counted.parks p' j' live' started
  · intro p' j' live' started unwritten
    rw [show t.cnt = s.cnt by rw [same]]
    rw [det] at unwritten
    by_cases new : p' = p
    · rw [new, here, Option.some.injEq] at live'
      rw [← live']
    · rw [other p' new] at live'
      exact counted.fresh p' j' live' started unwritten
  · intro p' j' live' started written
    rw [show t.writes = s.writes by rw [same]]
    rw [det] at written
    by_cases new : p' = p
    · rw [new, here, Option.some.injEq] at live'
      rw [← live'] at written
      exact absurd written (Nat.not_lt.mpr (counted.clocks j.slot))
    · rw [other p' new] at live'
      exact counted.stale p' j' live' started written
  · rw [same]
    exact counted.le
  · rw [same]
    exact counted.exact_
  · rw [same]
    exact counted.total
  · rw [det, show t.pageConflicts = s.pageConflicts by rw [same]]
    exact counted.conflicts

/-- A reply raises its counter by one, or the handler counts a conflict and the
counter stays behind its writes from then on. -/
theorem ended_counted {p : Nat} {j : Job} (counted : Counted s) (finished : p ∈ s.unblocked)
    (live : s.jobs p = some j) (begun : j.begun = true) : Counted (s.ended .naive p j) := by
  have slot := counted.sound.slots p j live
  have later : ∀ p' j', (s.ended .naive p j).jobs p' = some j' → s.jobs p' = some j' :=
    fun p' j' live' => (ended_jobs live').2
  have inside : j.slot < maxPg := Nat.lt_trans slot (by decide)
  have watched : RmwMode.naive ≠ .lock := by decide
  have det := ended_det (p := p) watched counted.watched inside
  have cnt : (s.ended .naive p j).cnt = Function.update s.cnt j.slot (j.v + 1) := rfl
  have writes : (s.ended .naive p j).writes =
      Function.update s.writes j.slot (s.writes j.slot + 1) := rfl
  have counts : (s.ended .naive p j).pageConflicts = Function.update s.pageConflicts j.slot
      (s.pageConflicts j.slot + if s.det.pver j.slot > j.df.parkClk then 1 else 0) := by
    have more : (s.ended .naive p j).det.detConflicts - s.det.detConflicts =
        if s.det.pver j.slot > j.df.parkClk then 1 else 0 := by
      rw [det]
      dsimp only
      split <;> omega
    rw [← more]
    rfl
  have le := counted.le j.slot
  have exact_ := counted.exact_ j.slot
  have fresh := counted.fresh p j live begun
  have stale := counted.stale p j live begun
  have pver : (s.ended .naive p j).det.pver =
      Function.update s.det.pver j.slot (s.det.gclk + 1) := by rw [det]
  have gclk : (s.ended .naive p j).det.gclk = s.det.gclk + 1 := by rw [det]
  refine ⟨ended_sound counted.sound finished, ?_, ?_, ?_, ?_, ?_, ?_, ?_, ?_, ?_⟩
  · rw [det]
    exact counted.watched
  · intro k
    rw [pver, gclk]
    by_cases same : k = j.slot
    · rw [same, Function.update_self]
    · rw [Function.update_of_ne same]
      exact Nat.le_succ_of_le (counted.clocks k)
  · intro p' j' live' started
    rw [gclk]
    exact Nat.le_succ_of_le (counted.parks p' j' (later p' j' live') started)
  · intro p' j' live' started unwritten
    have parked := counted.parks p' j' (later p' j' live') started
    rw [pver] at unwritten
    by_cases same : j'.slot = j.slot
    · rw [same, Function.update_self] at unwritten
      omega
    · rw [Function.update_of_ne same] at unwritten
      rw [cnt, Function.update_of_ne same]
      exact counted.fresh p' j' (later p' j' live') started unwritten
  · -- what another job has read of this counter is behind the new write
    intro p' j' live' started written
    have old := later p' j' live'
    rw [writes]
    rw [pver] at written
    by_cases same : j'.slot = j.slot
    · rw [same, Function.update_self]
      by_cases unwritten : s.det.pver j'.slot ≤ j'.df.parkClk
      · have value := counted.fresh p' j' old started unwritten
        rw [same] at value
        omega
      · have value := counted.stale p' j' old started (Nat.not_le.mp unwritten)
        rw [same] at value
        omega
    · rw [Function.update_of_ne same] at written ⊢
      exact counted.stale p' j' old started written
  · intro k
    rw [cnt, writes]
    by_cases same : k = j.slot
    · rw [same, Function.update_self, Function.update_self]
      by_cases conflict : s.det.pver j.slot > j.df.parkClk
      · have behind := stale conflict
        omega
      · have value := fresh (Nat.not_lt.mp conflict)
        omega
    · rw [Function.update_of_ne same, Function.update_of_ne same]
      exact counted.le k
  · intro k
    rw [cnt, writes, counts]
    by_cases same : k = j.slot
    · rw [same, Function.update_self, Function.update_self, Function.update_self]
      by_cases conflict : s.det.pver j.slot > j.df.parkClk
      · have behind := stale conflict
        rw [if_pos conflict]
        omega
      · have value := fresh (Nat.not_lt.mp conflict)
        rw [if_neg conflict]
        omega
    · rw [Function.update_of_ne same, Function.update_of_ne same, Function.update_of_ne same]
      exact counted.exact_ k
  · rw [writes, Counters.sum_raise slot s.writes 1, counted.total]
    rfl
  · rw [counts, Counters.sum_raise slot s.pageConflicts, counted.conflicts, det]
    dsimp only
    split <;> rfl

/-- Every step keeps the counts, as long as the work queue has room. -/
theorem step_counted {nw : Nat} {a : DetAct} (counted : Counted s) (room : t.WithinQueue)
    (taken : s.step .naive nw a = some t) : Counted t := by
  cases stepped counted.sound taken with
  | command argv taken =>
    unfold cmdRmw at taken
    split at taken
    · rename_i key
      dsimp only at taken
      rw [if_pos rfl] at taken
      have slot := slotOf_lt key
      have sound := alloc_sound counted.sound slot
      have begun := alloc_begun counted.sound (slotOf key)
      have allocated : Counted (s.alloc (slotOf key)) :=
        counted.moved sound (fun p j live started => ((begun p j).mp ⟨live, started⟩).1)
          rfl rfl rfl rfl rfl
      exact begin_counted allocated (Function.update_self ..) rfl (alloc_unqueued counted.sound)
        room taken
    · rw [Option.some.injEq] at taken
      exact taken ▸ counted
  | worker q running unblocked sound =>
    exact counted.moved sound (fun _ _ live _ => live) rfl rfl rfl rfl rfl
  | reply p j finished live begun ends =>
    rw [if_pos rfl] at ends
    rw [ends]
    exact ended_counted counted finished live begun

/-- Without the gates the detector is exact: a counter is behind its writes exactly
when the handler has counted a conflict on its page, so the run has no conflict
exactly when no update is lost. -/
theorem conflicts_iff_lost_updates (nw : Nat) (acts : List DetAct) (s : DetModule)
    (within : Machine.Always (step .naive nw) WithinQueue (onLoad .naive) acts)
    (ran : Machine.run (step .naive nw) (onLoad .naive) acts = some s) :
    (∀ k < kslots, s.cnt k ≤ s.writes k ∧ (s.cnt k < s.writes k ↔ 0 < s.pageConflicts k)) ∧
      (s.det.detConflicts = 0 ↔ s.gTotal = s.sum) := by
  have counted : Counted s :=
    Machine.invariant_within (fun _ _ _ counted room taken => step_counted counted room taken)
      onLoad_counted within ran
  refine ⟨fun k _ => ⟨counted.le k, counted.exact_ k⟩, ?_⟩
  have behind : s.sum = s.gTotal ↔ ∀ k < kslots, s.cnt k = s.writes k := by
    rw [← counted.total]
    exact Counters.sum_eq_iff fun k _ => counted.le k
  rw [← counted.conflicts, eq_comm (a := s.gTotal), behind, Finset.sum_eq_zero_iff]
  constructor
  · intro none k inside
    have zero := none k (Finset.mem_range.mpr inside)
    have le := counted.le k
    have exact_ := counted.exact_ k
    omega
  · intro equal k member
    have same := equal k (Finset.mem_range.mp member)
    have exact_ := counted.exact_ k
    omega

/-- Three commands on one key; two of them read before the first writes. -/
def staleWrites : List DetAct :=
  let rmw (key : UInt8) : DetAct := .rmw [[], [key]]
  [rmw 1, rmw 1, .take 0, .unblock 0 0, .reply 0, rmw 1, .take 0, .take 1, .unblock 1 2,
    .reply 2, .unblock 0 1, .reply 1]

theorem staleWrites_counted : ∃ s,
    Machine.run (step .naive 2) (onLoad .naive) staleWrites = some s ∧ s.gTotal = 3 ∧
      s.det.detConflicts = 1 ∧
      (∀ k < kslots, s.cnt k ≤ s.writes k ∧ (s.cnt k < s.writes k ↔ 0 < s.pageConflicts k)) ∧
      (s.det.detConflicts = 0 ↔ s.gTotal = s.sum) := by
  refine ⟨_, rfl, rfl, by decide +kernel, ?_⟩
  exact conflicts_iff_lost_updates 2 staleWrites _ (by decide +kernel) rfl

end TransparentOffload.DetModule
