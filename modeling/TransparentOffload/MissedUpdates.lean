import TransparentOffload.PageTracking

set_option autoImplicit false

/- What the detector misses. `det_park` takes the fiber's clock anew at every
offload, so only the writes since the last one can still be noticed. -/
namespace TransparentOffload

open PageHistory

variable {σ γ : Type}

namespace PageHistory

/-- A write of `p` by fiber `i`, with `before` behind it, loses an update: `i` had read
the page, has parked at an offload since, and another fiber wrote the page since. -/
def Loses (i p : Nat) (before : PageHistory) : Prop :=
  ∃ later earlier, before = later ++ .read i p :: earlier ∧ .park i ∈ later ∧
    WroteOther i p later

def MissesNone (h : PageHistory) : Prop :=
  ∀ i p counted before, (.write i p counted :: before) <:+ h → p < maxPg →
    Loses i p before → counted = true

/-- At every write that loses an update the page is still protected in this slice, and
some write came after the fiber's last offload. -/
def Noticeable (h : PageHistory) : Prop :=
  ∀ i p counted before, (.write i p counted :: before) <:+ h → p < maxPg →
    Loses i p before → ¬ WroteBy i p (sinceResumed i before) ∧ Wrote p (sinceParked i before)

theorem missesNone_iff {h : PageHistory} (explained : Explained h) :
    MissesNone h ↔ Noticeable h := by
  constructor
  · intro misses i p counted before suffix inside loses
    have found := misses i p counted before suffix inside loses
    exact ((explained i p counted before suffix).mp found).2
  · intro noticeable i p counted before suffix inside loses
    apply (explained i p counted before suffix).mpr
    exact ⟨inside, noticeable i p counted before suffix inside loses⟩

end PageHistory

/-- In every run with `RT_DETECT` on, the detector misses no lost update exactly when
every write that loses one is the fiber's first to the page in its slice and follows
some write made after the fiber's last offload. -/
theorem misses_none_iff_noticeable (c : Config σ γ) (reads : σ → List Nat) (mem : γ)
    (kinds : MutexId → MutexKind) (acts : List Act) :
    Machine.Always (pageStep c reads) (fun s => MissesNone s.2) (detecting mem kinds) acts ↔
      Machine.Always (pageStep c reads) (fun s => Noticeable s.2) (detecting mem kinds) acts :=
  Machine.always_congr (I := PagesInv c) (fun _ inv => missesNone_iff inv.tracked.explained)
    (fun _ _ _ inv taken => step_pagesInv inv taken) (detecting_pagesInv c mem kinds)

/-- A handler that reads page 0, offloads twice and writes the page, and a thread that
only writes it. -/
def twoOffloads : Config Nat Unit :=
  { app :=
      { entry := fun arg => arg
        code := fun at_ => match at_ with
          | 0 => .code [] fun mem => (mem, 1)
          | 1 => .accelEncrypt [] fun _ => 2
          | 2 => .accelEncrypt [] fun _ => 3
          | 3 => .code [0] fun mem => (mem, 9)
          | 4 => .code [0] fun mem => (mem, 9)
          | _ => .ret }
    gEnforce := false, gRealmutex := false, ssl := .init, transform := id }

def firstReads (at_ : Nat) : List Nat := if at_ = 0 then [0] else []

def betweenOffloads : List Act :=
  .create 0 :: .create 4 :: (List.replicate 18 (.carrier .quiet) ++
    .device 0 :: List.replicate 15 (.carrier { Out.quiet with done := true }) ++
    .device 1 :: List.replicate 12 (.carrier { Out.quiet with done := true }))

/-- The other thread writes between the two offloads; the second one hides it, so the
update is lost and no conflict is counted. -/
theorem second_offload_hides_update : ∃ s,
    Machine.run (pageStep twoOffloads firstReads) (detecting () fun _ => .normal)
      betweenOffloads = some s ∧
    s.2 = [.write 0 0 false, .resume 0, .park 0, .resume 0, .write 1 0 false, .resume 1,
      .park 0, .read 0 0, .resume 0] ∧
    s.1.det.detConflicts = 0 ∧ ¬ MissesNone s.2 := by
  have ran : (Machine.run (pageStep twoOffloads firstReads) (detecting () fun _ => .normal)
      betweenOffloads).map (fun s => (s.2, s.1.det.detConflicts)) =
    some ([.write 0 0 false, .resume 0, .park 0, .resume 0, .write 1 0 false, .resume 1,
      .park 0, .read 0 0, .resume 0], 0) := by decide +kernel
  obtain ⟨s, reached, values⟩ := Option.map_eq_some_iff.mp ran
  obtain ⟨history, conflicts⟩ := Prod.mk.inj values
  refine ⟨s, reached, history, conflicts, ?_⟩
  rw [history]
  intro misses
  have between : WroteOther 0 0 [.resume 0, .park 0, .resume 0, .write 1 0 false, .resume 1,
      .park 0] := ⟨1, by decide, false, by decide⟩
  have counted := misses 0 0 false _ List.suffix_rfl (by decide)
    ⟨_, [.resume 0], rfl, by decide, between⟩
  cases counted

end TransparentOffload
