import TransparentOffload.PageTracking

set_option autoImplicit false

/- What the detector counts without a cause. Each slice faults anew on a page, while
only an offload moves the fiber's clock past its own writes. The writes are those of the
fibers' code; what the device and real threads write is not in the history. -/
namespace TransparentOffload

open PageHistory

variable {σ γ : Type}

namespace PageHistory

/-- A conflict is counted at a write only if the fiber has parked at an offload and another
fiber wrote the page since its last one. -/
def NoFalseAlarm (h : PageHistory) : Prop :=
  ∀ i p counted before, (.write i p counted :: before) <:+ h → counted = true →
    .park i ∈ before ∧ WroteOther i p (sinceParked i before)

/-- A fiber writes no page again in a later slice before its next offload, unless another
fiber wrote it since the last one. Before its first offload it only writes pages that
nobody has written but itself in the same slice. -/
structure FreshPages (h : PageHistory) : Prop where
  parked : ∀ i p counted before, (.write i p counted :: before) <:+ h → p < maxPg →
    ¬ WroteBy i p (sinceResumed i before) → .park i ∈ before →
      WroteBy i p (sinceParked i before) → WroteOther i p (sinceParked i before)
  unparked : ∀ i p counted before, (.write i p counted :: before) <:+ h → p < maxPg →
    ¬ WroteBy i p (sinceResumed i before) → .park i ∉ before → ¬ Wrote p before

def Private (h : PageHistory) : Prop := ∀ i j p, WroteBy i p h → WroteBy j p h → i = j

theorem sinceParked_eq_self {i : Nat} {h : PageHistory} (none : .park i ∉ h) :
    sinceParked i h = h := by
  apply Machine.since_eq_self
  intro e member
  have other : e ≠ .park i := fun same => none (same ▸ member)
  simpa using other

theorem noFalseAlarm_iff {h : PageHistory} (explained : Explained h) :
    NoFalseAlarm h ↔ FreshPages h := by
  constructor
  · intro quiet
    constructor
    · intro i p counted before suffix inside first _ own
      apply (quiet i p counted before suffix _).2
      exact (explained i p counted before suffix).mpr ⟨inside, first, i, own⟩
    · intro i p counted before suffix inside first none wrote
      rw [← sinceParked_eq_self none] at wrote
      exact none (quiet i p counted before suffix
        ((explained i p counted before suffix).mpr ⟨inside, first, wrote⟩)).1
  · intro fresh i p counted before suffix found
    obtain ⟨inside, first, wrote⟩ := (explained i p counted before suffix).mp found
    by_cases parked : .park i ∈ before
    · refine ⟨parked, ?_⟩
      rcases (wrote_iff i).mp wrote with own | other
      · exact fresh.parked i p counted before suffix inside first parked own
      · exact other
    · rw [sinceParked_eq_self parked] at wrote
      exact absurd wrote (fresh.unparked i p counted before suffix inside first parked)

theorem Private.noFalseAlarm_iff {h : PageHistory} (private_ : Private h) :
    NoFalseAlarm h ↔ h.countP isCounted = 0 := by
  rw [List.countP_eq_zero]
  constructor
  · intro quiet e member counts
    cases e with
    | write i p counted =>
      obtain ⟨later, before, split⟩ := List.append_of_mem member
      have suffix : (.write i p counted :: before) <:+ h := ⟨later, split.symm⟩
      obtain ⟨_, j, other, b, wrote⟩ := quiet i p counted before suffix counts
      have wrote : WroteBy j p h :=
        ⟨b, suffix.subset (List.mem_cons_of_mem _ (Machine.mem_of_mem_since wrote))⟩
      exact other (private_ j i p wrote ⟨counted, member⟩)
    | read | park | resume => cases counts
  · intro none i p counted before suffix found
    exact absurd found (none _ (suffix.subset List.mem_cons_self))

end PageHistory

/-- In every run with `RT_DETECT` on, no conflict is counted at a fiber that has not
offloaded, and none without a foreign write since its last offload, exactly when the fibers
write fresh pages only. In a run without shared pages that is when `det_conflicts` is 0 and
the handlers are not serialized. -/
theorem no_false_alarm_iff_fresh_pages (c : Config σ γ) (reads : σ → List Nat) (mem : γ)
    (kinds : MutexId → MutexKind) (acts : List Act) :
    (Machine.Always (pageStep c reads) (fun s => NoFalseAlarm s.2) (detecting mem kinds) acts ↔
      Machine.Always (pageStep c reads) (fun s => FreshPages s.2) (detecting mem kinds)
        acts) ∧
    ∀ s, Machine.run (pageStep c reads) (detecting mem kinds) acts = some s → Private s.2 →
      ((s.1.det.detConflicts = 0 ∧ s.1.enforcing c.gEnforce = c.gEnforce) ↔
        FreshPages s.2) := by
  constructor
  · exact Machine.always_congr (I := PagesInv c)
      (fun _ inv => noFalseAlarm_iff inv.tracked.explained)
      (fun _ _ _ inv taken => step_pagesInv inv taken) (detecting_pagesInv c mem kinds)
  · intro s reached private_
    have inv : PagesInv c s := Machine.invariant_reached
      (fun _ _ _ inv taken => step_pagesInv inv taken) (detecting_pagesInv c mem kinds) reached
    rw [← noFalseAlarm_iff inv.tracked.explained, private_.noFalseAlarm_iff, ← inv.tracked.total]
    constructor
    · exact And.left
    · intro none
      exact ⟨none, by simp [Runtime.enforcing, none]⟩

/-- A thread that writes page 0, waits in `read`, and writes the page again. -/
def writesTwice : Config Nat Unit :=
  { app :=
      { entry := fun _ => 0
        code := fun at_ => match at_ with
          | 0 => .code [0] fun mem => (mem, 1)
          | 1 => .io (.read 1) 5 fun _ => 2
          | 2 => .code [0] fun mem => (mem, 3)
          | _ => .ret }
    gEnforce := false, gRealmutex := false, ssl := .init, transform := id }

def alone : List Act :=
  .create 0 :: (List.replicate 10 (.carrier .quiet) ++
    .arrive 5 [7] :: List.replicate 12
      (.carrier { Out.quiet with events := [5], io := .part 1 }))

/-- One fiber in the whole run, and a conflict is counted at its own second write. -/
theorem own_write_raises_alarm : ∃ s,
    Machine.run (pageStep writesTwice fun _ => []) (detecting () fun _ => .normal) alone =
      some s ∧
    s.2 = [.write 0 0 true, .resume 0, .write 0 0 false, .resume 0] ∧
    s.1.det.detConflicts = 1 ∧ s.1.enforcing writesTwice.gEnforce = true ∧ Private s.2 ∧
    ¬ NoFalseAlarm s.2 := by
  have ran : (Machine.run (pageStep writesTwice fun _ => []) (detecting () fun _ => .normal)
      alone).map (fun s => (s.2, s.1.det.detConflicts)) =
    some ([.write 0 0 true, .resume 0, .write 0 0 false, .resume 0], 1) := by decide +kernel
  obtain ⟨s, reached, values⟩ := Option.map_eq_some_iff.mp ran
  obtain ⟨history, conflicts⟩ := Prod.mk.inj values
  have only : ∀ {i p : Nat}, WroteBy i p s.2 → i = 0 := by
    intro i p wrote
    rw [history] at wrote
    simp [WroteBy] at wrote
    omega
  refine ⟨s, reached, history, conflicts, by simp [Runtime.enforcing, conflicts], ?_, ?_⟩
  · intro i j p first second
    rw [only first, only second]
  · intro quiet
    rw [history] at quiet
    have parked := (quiet 0 0 true _ List.suffix_rfl rfl).1
    simp at parked

end TransparentOffload
