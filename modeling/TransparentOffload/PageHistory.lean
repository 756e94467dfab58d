import TransparentOffload.Detector
import TransparentOffload.Lib.History

set_option autoImplicit false

/- The history of the protected pages along a run: who read and wrote which page,
which writes the handler counted, and when fibers parked at an offload and were
switched in. The detector's clocks and page protection are read off it. -/
namespace TransparentOffload

/-- One event; a write carries whether `handler` counted a conflict at it. -/
inductive PageEvent
  | read (i p : Nat)
  | write (i p : Nat) (counted : Bool)
  | park (i : Nat)
  | resume (i : Nat)
  deriving DecidableEq, Repr

/-- A history, the newest event first. -/
abbrev PageHistory := List PageEvent

namespace PageHistory

def WroteBy (i p : Nat) (h : PageHistory) : Prop := ∃ counted, .write i p counted ∈ h

def Wrote (p : Nat) (h : PageHistory) : Prop := ∃ i, WroteBy i p h

/-- A fiber other than `i` wrote the page. -/
def WroteOther (i p : Nat) (h : PageHistory) : Prop := ∃ j, j ≠ i ∧ WroteBy j p h

/-- Since the last offload park of the fiber in slot `i`. -/
def sinceParked (i : Nat) (h : PageHistory) : PageHistory :=
  Machine.since (fun e => e == .park i) h

/-- Since that fiber was last switched in. -/
def sinceResumed (i : Nat) (h : PageHistory) : PageHistory :=
  Machine.since (fun e => e == .resume i) h

def isCounted : PageEvent → Bool
  | .write _ _ counted => counted
  | _ => false

section Equations

variable (i j p q : Nat) (counted : Bool) (h : PageHistory)

@[simp] theorem wroteBy_write : WroteBy i p (.write j q counted :: h) ↔
    (j = i ∧ q = p) ∨ WroteBy i p h := by
  unfold WroteBy
  constructor
  · intro wrote
    obtain ⟨b, member⟩ := wrote
    rcases List.mem_cons.mp member with here | before
    · cases here
      exact Or.inl ⟨rfl, rfl⟩
    · exact Or.inr ⟨b, before⟩
  · intro wrote
    rcases wrote with ⟨rfl, rfl⟩ | ⟨b, before⟩
    · exact ⟨counted, List.mem_cons_self⟩
    · exact ⟨b, List.mem_cons_of_mem _ before⟩

@[simp] theorem wrote_write : Wrote p (.write j q counted :: h) ↔ q = p ∨ Wrote p h := by
  unfold Wrote
  simp [exists_or]

@[simp] theorem not_wroteBy_nil : ¬ WroteBy i p [] := by
  simp [WroteBy]

@[simp] theorem not_wrote_nil : ¬ Wrote p [] := by
  simp [Wrote]

@[simp] theorem sinceParked_write : sinceParked i (.write j q counted :: h) =
    .write j q counted :: sinceParked i h := Machine.since_cons (by simp) h

@[simp] theorem sinceParked_read : sinceParked i (.read j q :: h) = .read j q :: sinceParked i h :=
  Machine.since_cons (by simp) h

@[simp] theorem sinceParked_resume : sinceParked i (.resume j :: h) =
    .resume j :: sinceParked i h := Machine.since_cons (by simp) h

@[simp] theorem sinceParked_park : sinceParked i (.park i :: h) = [] :=
  Machine.since_mark (by simp) h

theorem sinceParked_park_ne (other : j ≠ i) : sinceParked i (.park j :: h) =
    .park j :: sinceParked i h := Machine.since_cons (by simp [other]) h

@[simp] theorem sinceResumed_write : sinceResumed i (.write j q counted :: h) =
    .write j q counted :: sinceResumed i h := Machine.since_cons (by simp) h

@[simp] theorem sinceResumed_read : sinceResumed i (.read j q :: h) =
    .read j q :: sinceResumed i h := Machine.since_cons (by simp) h

@[simp] theorem sinceResumed_resume : sinceResumed i (.resume i :: h) = [] :=
  Machine.since_mark (by simp) h

end Equations

/-- An event that is no write says nothing about who wrote. -/
theorem wroteBy_cons {e : PageEvent} {i p : Nat} {h : PageHistory}
    (other : ∀ b, e ≠ .write i p b) : WroteBy i p (e :: h) ↔ WroteBy i p h := by
  unfold WroteBy
  constructor
  · intro wrote
    obtain ⟨b, member⟩ := wrote
    rcases List.mem_cons.mp member with here | before
    · exact absurd here.symm (other b)
    · exact ⟨b, before⟩
  · intro wrote
    obtain ⟨b, before⟩ := wrote
    exact ⟨b, List.mem_cons_of_mem e before⟩

theorem wrote_cons {e : PageEvent} {p : Nat} {h : PageHistory}
    (other : ∀ i b, e ≠ .write i p b) : Wrote p (e :: h) ↔ Wrote p h := by
  simp only [Wrote, wroteBy_cons (other _)]

theorem WroteOther.wrote {i p : Nat} {h : PageHistory} (wrote : WroteOther i p h) : Wrote p h := by
  obtain ⟨j, _, by_⟩ := wrote
  exact ⟨j, by_⟩

/-- Whoever wrote a page was the fiber itself or another one. -/
theorem wrote_iff {p : Nat} {h : PageHistory} (i : Nat) :
    Wrote p h ↔ WroteBy i p h ∨ WroteOther i p h := by
  constructor
  · intro wrote
    obtain ⟨j, by_⟩ := wrote
    by_cases own : j = i
    · exact Or.inl (own ▸ by_)
    · exact Or.inr ⟨j, own, by_⟩
  · intro wrote
    rcases wrote with own | other
    · exact ⟨i, own⟩
    · exact other.wrote

/-- What the handler makes of each write: it is counted exactly when the page is one
of the first `maxPg`, the fiber has not written it in this slice, and somebody has
written it since the fiber's last offload park. -/
def Explained (h : PageHistory) : Prop :=
  ∀ i p counted before, (.write i p counted :: before) <:+ h →
    (counted = true ↔ p < maxPg ∧ ¬ WroteBy i p (sinceResumed i before) ∧
      Wrote p (sinceParked i before))

theorem explained_nil : Explained [] := by
  intro i p counted before suffix
  cases List.suffix_nil.mp suffix

theorem explained_cons {e : PageEvent} {h : PageHistory} (old : Explained h)
    (other : ∀ i p b, e ≠ .write i p b) : Explained (e :: h) := by
  intro i p counted before suffix
  rcases List.suffix_cons_iff.mp suffix with here | inside
  · exact absurd (List.cons.inj here).1.symm (other i p counted)
  · exact old i p counted before inside

theorem explained_write {i p : Nat} {counted : Bool} {h : PageHistory} (old : Explained h)
    (here : counted = true ↔ p < maxPg ∧ ¬ WroteBy i p (sinceResumed i h) ∧
      Wrote p (sinceParked i h)) : Explained (.write i p counted :: h) := by
  intro j q b before suffix
  rcases List.suffix_cons_iff.mp suffix with same | inside
  · cases same
    exact here
  · exact old j q b before inside

end PageHistory

open PageHistory

/-- The detector, the `det_fib` of each fiber and the fiber that is switched in, as
the history explains them; slots from `nfib` on are not taken yet. -/
structure Tracked (d : Detector) (dfs : Nat → Option DetFib) (nfib : Nat)
    (running : Option Nat) (h : PageHistory) : Prop where
  on : d.detOn = true
  clock : ∀ p, d.pver p ≤ d.gclk
  parked : ∀ i df, dfs i = some df → df.parkClk ≤ d.gclk
  stale : ∀ i df p, dfs i = some df → p < maxPg →
    (df.parkClk < d.pver p ↔ Wrote p (sinceParked i h))
  ever : ∀ p, p < maxPg → (0 < d.pver p ↔ Wrote p h)
  active : ∀ i, running = some i → ∃ df, dfs i = some df ∧ df.active = true
  dirty : ∀ i p, running = some i → (d.writable p = true ↔ WroteBy i p (sinceResumed i h))
  slice : ∀ i j, running = some i → PageEvent.park j ∉ sinceResumed i h
  untaken : ∀ i, nfib ≤ i → dfs i = none ∧ PageEvent.park i ∉ h
  explained : Explained h
  total : d.detConflicts = h.countP isCounted

namespace Tracked

variable {d : Detector} {dfs : Nat → Option DetFib} {nfib : Nat} {running : Option Nat}
  {h : PageHistory} {i p : Nat} {df : DetFib}

/-- A page that is writable was written in this slice, so after every fiber's park. -/
theorem dirty_stale (tracked : Tracked d dfs nfib (some i) h) (writable : d.writable p = true)
    (j : Nat) : WroteBy i p (sinceParked j h) := by
  obtain ⟨b, member⟩ := (tracked.dirty i p rfl).mp writable
  refine ⟨b, Machine.mem_since_of_none ?_ member⟩
  intro e inside
  by_contra park
  rw [Bool.not_eq_false, beq_iff_eq] at park
  exact tracked.slice i j rfl (park ▸ inside)

/-- A write that does not fault. -/
theorem write_dirty (tracked : Tracked d dfs nfib (some i) h) (writable : d.writable p = true) :
    Tracked d dfs nfib (some i) (.write i p false :: h) where
  on := tracked.on
  clock := tracked.clock
  parked := tracked.parked
  stale := by
    intro j df q live inside
    rw [tracked.stale j df q live inside, sinceParked_write, wrote_write]
    constructor
    · exact Or.inr
    · intro wrote
      rcases wrote with rfl | before
      · exact ⟨i, tracked.dirty_stale writable j⟩
      · exact before
  ever := by
    intro q inside
    rw [tracked.ever q inside, wrote_write]
    constructor
    · exact Or.inr
    · intro wrote
      rcases wrote with rfl | before
      · obtain ⟨b, member⟩ := (tracked.dirty i p rfl).mp writable
        exact ⟨i, b, Machine.mem_of_mem_since member⟩
      · exact before
  active := tracked.active
  dirty := by
    intro j q run
    cases run
    rw [tracked.dirty i q rfl, sinceResumed_write, wroteBy_write]
    constructor
    · exact Or.inr
    · intro wrote
      rcases wrote with ⟨_, rfl⟩ | before
      · exact (tracked.dirty i p rfl).mp writable
      · exact before
  slice := by
    intro j k run
    simpa using tracked.slice j k run
  untaken := by
    intro j above
    simpa using tracked.untaken j above
  explained := by
    apply explained_write tracked.explained
    have again := (tracked.dirty i p rfl).mp writable
    simp [again]
  total := by
    rw [tracked.total]
    simp [isCounted]

/-- A write beyond the pages the handler has versions for. -/
theorem write_outside (tracked : Tracked d dfs nfib (some i) h) (outside : ¬ p < maxPg)
    (faults : Nat) : Tracked
      { d with detFaults := faults, writable := Function.update d.writable p true } dfs nfib (some i)
      (.write i p false :: h) where
  on := tracked.on
  clock := tracked.clock
  parked := tracked.parked
  stale := by
    intro j df q live inside
    have apart : p ≠ q := fun same => outside (same ▸ inside)
    rw [sinceParked_write, wrote_write, or_iff_right apart]
    exact tracked.stale j df q live inside
  ever := by
    intro q inside
    have apart : p ≠ q := fun same => outside (same ▸ inside)
    rw [wrote_write, or_iff_right apart]
    exact tracked.ever q inside
  active := tracked.active
  dirty := by
    intro j q run
    cases run
    rw [sinceResumed_write, wroteBy_write, ← tracked.dirty i q rfl]
    by_cases here : q = p
    · subst here
      simp
    · simp [Function.update_of_ne here, Ne.symm here]
  slice := by
    intro j k run
    simpa using tracked.slice j k run
  untaken := by
    intro j above
    simpa using tracked.untaken j above
  explained := by
    apply explained_write tracked.explained
    simp [outside]
  total := by
    rw [show (_ : Detector).detConflicts = _ from tracked.total]
    simp [isCounted]

/-- A write that faults, to a page with a version. -/
theorem write_fault (tracked : Tracked d dfs nfib (some i) h) (live : dfs i = some df)
    (active : df.active = true) (fault : d.writable p = false) (inside : p < maxPg) :
    Tracked (d.store df p) dfs nfib (some i)
      (.write i p (decide (df.parkClk < d.pver p)) :: h) := by
  have first : ¬ WroteBy i p (sinceResumed i h) := by
    rw [← tracked.dirty i p rfl, fault]
    exact Bool.false_ne_true
  rw [Detector.store_inside fault inside]
  refine ⟨tracked.on, ?_, ?_, ?_, ?_, tracked.active, ?_, ?_, ?_, ?_, ?_⟩
  · intro q
    by_cases here : q = p
    · subst here
      simp
    · have old := tracked.clock q
      simp only [Function.update_of_ne here]
      omega
  · intro j df' live'
    exact Nat.le_succ_of_le (tracked.parked j df' live')
  · intro j df' q live' inside'
    rw [sinceParked_write, wrote_write]
    by_cases here : q = p
    · subst here
      have old := tracked.parked j df' live'
      simp only [Function.update_self, true_or, iff_true]
      omega
    · dsimp only
      rw [Function.update_of_ne here, or_iff_right (Ne.symm here)]
      exact tracked.stale j df' q live' inside'
  · intro q inside'
    rw [wrote_write]
    by_cases here : q = p
    · subst here
      simp
    · dsimp only
      rw [Function.update_of_ne here, or_iff_right (Ne.symm here)]
      exact tracked.ever q inside'
  · intro j q run
    cases run
    rw [sinceResumed_write, wroteBy_write, ← tracked.dirty i q rfl]
    by_cases here : q = p
    · subst here
      simp
    · simp [Function.update_of_ne here, Ne.symm here]
  · intro j k run
    simpa using tracked.slice j k run
  · intro j above
    simpa using tracked.untaken j above
  · apply explained_write tracked.explained
    rw [decide_eq_true_eq, tracked.stale i df p live inside]
    simp [first, inside]
  · rw [List.countP_cons, ← tracked.total]
    by_cases stale : df.parkClk < d.pver p
    · simp [isCounted, stale, active]
    · simp [isCounted, stale]

/-- Any write by the fiber that is switched in. -/
theorem write (tracked : Tracked d dfs nfib (some i) h) (live : dfs i = some df)
    (active : df.active = true) (p : Nat) : Tracked (d.store df p) dfs nfib (some i)
      (.write i p (decide (d.detConflicts < (d.store df p).detConflicts)) :: h) := by
  by_cases writable : d.writable p = true
  · simpa [Detector.store_writable writable] using tracked.write_dirty writable
  · rw [Bool.not_eq_true] at writable
    by_cases inside : p < maxPg
    · have counted : decide (d.detConflicts < (d.store df p).detConflicts) =
          decide (df.parkClk < d.pver p) := by
        rw [Detector.store_inside writable inside]
        by_cases stale : df.parkClk < d.pver p
        · simp [stale, active]
        · simp [stale]
      rw [counted]
      exact tracked.write_fault live active writable inside
    · rw [Detector.store_outside writable inside]
      simpa using tracked.write_outside inside (d.detFaults + 1)

theorem read (tracked : Tracked d dfs nfib (some i) h) (p : Nat) :
    Tracked d dfs nfib (some i) (.read i p :: h) where
  on := tracked.on
  clock := tracked.clock
  parked := tracked.parked
  stale := by
    intro j df q live inside
    rw [tracked.stale j df q live inside, sinceParked_read, wrote_cons (by simp)]
  ever := by
    intro q inside
    rw [tracked.ever q inside, wrote_cons (by simp)]
  active := tracked.active
  dirty := by
    intro j q run
    rw [tracked.dirty j q run, sinceResumed_read, wroteBy_cons (by simp)]
  slice := by
    intro j k run
    simpa using tracked.slice j k run
  untaken := by
    intro j above
    simpa using tracked.untaken j above
  explained := explained_cons tracked.explained (by simp)
  total := by
    rw [tracked.total]
    simp [isCounted]

/-- `det_park` and the switch to the scheduler. -/
theorem park (tracked : Tracked d dfs nfib (some i) h) (live : dfs i = some df) :
    Tracked (d.detPark df).1 (Function.update dfs i (some (d.detPark df).2)) nfib none
      (.park i :: h) := by
  have spec : d.detPark df = (d.protectRegions, { df with parkClk := d.gclk }) := by
    rw [Detector.detPark, if_pos tracked.on]
  rw [spec]
  refine ⟨tracked.on, tracked.clock, ?_, ?_, ?_, ?_, ?_, ?_, ?_, ?_, ?_⟩
  · intro j df' live'
    by_cases here : j = i
    · subst here
      rw [Function.update_self, Option.some.injEq] at live'
      exact live' ▸ Nat.le_refl d.gclk
    · rw [Function.update_of_ne here] at live'
      exact tracked.parked j df' live'
  · intro j df' q live' inside
    by_cases here : j = i
    · subst here
      rw [Function.update_self, Option.some.injEq] at live'
      have old := tracked.clock q
      rw [sinceParked_park, ← live']
      simpa [Detector.protectRegions] using old
    · rw [Function.update_of_ne here] at live'
      rw [sinceParked_park_ne j i h (Ne.symm here), wrote_cons (by simp)]
      exact tracked.stale j df' q live' inside
  · intro q inside
    rw [wrote_cons (by simp)]
    exact tracked.ever q inside
  · simp
  · simp
  · simp
  · intro j above
    have old := tracked.untaken j above
    have apart : j ≠ i := by
      intro same
      rw [same, live] at old
      cases old.1
    rw [Function.update_of_ne apart]
    simpa [apart] using old
  · exact explained_cons tracked.explained (by simp)
  · rw [show d.protectRegions.detConflicts = _ from tracked.total]
    simp [isCounted]

/-- The run loop switches a fiber in: `f->df.active=1` and `det_reprotect`. -/
theorem resume (tracked : Tracked d dfs nfib none h) (live : dfs i = some df) :
    Tracked d.detReprotect (Function.update dfs i (some { df with active := true })) nfib (some i)
      (.resume i :: h) := by
  rw [Detector.detReprotect, if_pos tracked.on]
  have same : ∀ j df', Function.update dfs i (some { df with active := true }) j = some df' →
      ∃ old, dfs j = some old ∧ old.parkClk = df'.parkClk := by
    intro j df' live'
    by_cases here : j = i
    · subst here
      rw [Function.update_self, Option.some.injEq] at live'
      exact ⟨df, live, by rw [← live']⟩
    · rw [Function.update_of_ne here] at live'
      exact ⟨df', live', rfl⟩
  refine ⟨tracked.on, tracked.clock, ?_, ?_, ?_, ?_, ?_, ?_, ?_, ?_, ?_⟩
  · intro j df' live'
    obtain ⟨old, was, clk⟩ := same j df' live'
    exact clk ▸ tracked.parked j old was
  · intro j df' q live' inside
    obtain ⟨old, was, clk⟩ := same j df' live'
    rw [sinceParked_resume, wrote_cons (by simp), ← clk]
    exact tracked.stale j old q was inside
  · intro q inside
    rw [wrote_cons (by simp)]
    exact tracked.ever q inside
  · intro j run
    cases run
    exact ⟨_, Function.update_self .., rfl⟩
  · intro j q run
    cases run
    simp [Detector.protectRegions]
  · intro j k run
    cases run
    simp
  · intro j above
    have old := tracked.untaken j above
    have apart : j ≠ i := by
      intro here
      rw [here, live] at old
      cases old.1
    rw [Function.update_of_ne apart]
    simpa using old
  · exact explained_cons tracked.explained (by simp)
  · rw [show d.protectRegions.detConflicts = _ from tracked.total]
    simp [isCounted]

/-- Steps without an event may free fibers, take in new ones and go on in the loop. -/
theorem background {dfs' : Nat → Option DetFib} {nfib' : Nat}
    (tracked : Tracked d dfs nfib running h) (grows : nfib ≤ nfib')
    (fibers : ∀ j df', dfs' j = some df' →
      dfs j = some df' ∨ (nfib ≤ j ∧ j < nfib' ∧ df'.parkClk = 0)) :
    Tracked d dfs' nfib' none h where
  on := tracked.on
  clock := tracked.clock
  parked := by
    intro j df' live
    rcases fibers j df' live with old | ⟨_, _, fresh⟩
    · exact tracked.parked j df' old
    · omega
  stale := by
    intro j df' q live inside
    rcases fibers j df' live with old | ⟨above, _, fresh⟩
    · exact tracked.stale j df' q old inside
    · have never : ∀ e ∈ h, (e == PageEvent.park j) = false := by
        intro e member
        rw [beq_eq_false_iff_ne]
        exact fun same => (tracked.untaken j above).2 (same ▸ member)
      rw [fresh, sinceParked, Machine.since_eq_self never]
      exact tracked.ever q inside
  ever := tracked.ever
  active := by simp
  dirty := by simp
  slice := by simp
  untaken := by
    intro j above
    have old := tracked.untaken j (Nat.le_trans grows above)
    refine ⟨?_, old.2⟩
    by_contra some_
    obtain ⟨df', live⟩ := Option.ne_none_iff_exists'.mp some_
    rcases fibers j df' live with was | ⟨_, below, _⟩
    · rw [old.1] at was
      cases was
    · omega
  explained := tracked.explained
  total := tracked.total

end Tracked

/-- The writes of a stretch of code, each with whether it raised `det_conflicts`. -/
def Detector.writeEvents (i : Nat) (df : DetFib) : Detector → List Nat → List PageEvent
  | _, [] => []
  | d, p :: rest =>
    .write i p (decide (d.detConflicts < (d.store df p).detConflicts)) ::
      (d.store df p).writeEvents i df rest

/-- The writes of a stretch of code, one after the other. -/
theorem Tracked.writes {dfs : Nat → Option DetFib} {nfib i : Nat} {df : DetFib}
    (live : dfs i = some df) (active : df.active = true) {d : Detector} {h : PageHistory}
    (tracked : Tracked d dfs nfib (some i) h) (writes : List Nat) :
    Tracked (d.stores df writes) dfs nfib (some i)
      ((d.writeEvents i df writes).reverse ++ h) := by
  induction writes generalizing d h with
  | nil => exact tracked
  | cons p rest ih =>
    have next := ih (tracked.write live active p)
    rw [Detector.writeEvents, List.reverse_cons, List.append_assoc]
    exact next

theorem Tracked.reads {d : Detector} {dfs : Nat → Option DetFib} {nfib i : Nat}
    {h : PageHistory} (tracked : Tracked d dfs nfib (some i) h) (pages : List Nat) :
    Tracked d dfs nfib (some i) ((pages.map (PageEvent.read i)).reverse ++ h) := by
  induction pages generalizing h with
  | nil => exact tracked
  | cons p rest ih =>
    have next := ih (tracked.read p)
    rw [List.map_cons, List.reverse_cons, List.append_assoc]
    exact next

end TransparentOffload
