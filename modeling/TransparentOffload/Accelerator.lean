import TransparentOffload.LibAccel

set_option autoImplicit false

/- Each request of `libaccel` is served once, as long as no request stores into a
slot that another one still uses. -/
namespace TransparentOffload.LibAccel

/-- What a caller's own stores have left in its slot. -/
def Request.Fits (r : Request) (slot : Slot) : Prop :=
  match r.stage with
  | .storeBuf | .released => True
  | .storeN => slot.buf = r.buf ∧ slot.busy = false
  | .storeDone => slot.buf = r.buf ∧ slot.n = r.n ∧ slot.busy = false
  | .storeDeadline | .storeBusy =>
    slot.buf = r.buf ∧ slot.n = r.n ∧ slot.busy = false ∧ slot.done = false
  | .submitted => slot.buf = r.buf ∧ slot.n = r.n ∧ slot.busy = true
  | .seen => slot.buf = r.buf ∧ slot.n = r.n ∧ slot.busy = true ∧ slot.done = true

/-- The device has transformed the buffer for a caller at this stage. -/
def Stage.served (stage : Stage) (slot : Slot) (scanned : Bool) : Bool :=
  match stage with
  | .submitted => slot.done || scanned
  | .seen | .released => true
  | .storeBuf | .storeN | .storeDone | .storeDeadline | .storeBusy => false

namespace State

/-- The device has transformed the buffer of the request. -/
def served (s : State) (id : Nat) : Bool :=
  (s.requests id).stage.served (s.slotOf id) (decide (s.scanned = some (id % nSlot)))

/-- Its buffer holds the bytes of the call, transformed if the request is served. -/
def Accounted (c : Config) (s : State) (id : Nat) : Prop :=
  let r := s.requests id
  s.transforms r.buf = r.since + (if s.served id then 1 else 0) ∧
    s.mem r.buf = if s.served id then c.transform r.n r.content else r.content

end State

/-- The invariant of the library while every slot is free when it is taken. -/
structure Inv (c : Config) (s : State) : Prop where
  alone : ∀ id id', id < s.subHead → id' < s.subHead → (s.requests id).stage.holds = true →
    (s.requests id').stage.holds = true → id % nSlot = id' % nSlot → id = id'
  fits : ∀ id < s.subHead, (s.requests id).Fits (s.slotOf id)
  busy : ∀ i, (s.slots i).busy = true → ∃ id < s.subHead, id % nSlot = i ∧
    ((s.requests id).stage = .submitted ∨ (s.requests id).stage = .seen)
  scanned : ∀ i, s.scanned = some i → ∃ id < s.subHead, id % nSlot = i ∧
    (s.requests id).stage = .submitted ∧ (s.slots i).done = false
  own : ∀ id < s.subHead, (s.requests id).stage ≠ .released →
    s.last (s.requests id).buf = some id
  account : ∀ id < s.subHead, s.last (s.requests id).buf = some id → s.Accounted c id

theorem init_inv (c : Config) (mem : Buf → Bytes) : Inv c (State.init mem) := by
  refine ⟨?_, ?_, ?_, ?_, ?_, ?_⟩
  all_goals simp [State.init]

theorem holds_of_submitted {stage : Stage} (at_ : stage = .submitted ∨ stage = .seen) :
    stage.holds = true := by
  rcases at_ with rfl | rfl
  · rfl
  · rfl

/-- A request without a slot fits any. -/
theorem fits_of_idle {r : Request} (idle : r.stage.holds ≠ true) (slot : Slot) : r.Fits slot := by
  unfold Request.Fits
  cases at_ : r.stage
  case storeBuf | released => trivial
  all_goals
    rw [at_] at idle
    exact absurd rfl idle

/-- A request without a slot is served or not whatever the slots are. -/
theorem served_of_idle {stage : Stage} (idle : stage.holds ≠ true) (slot slot' : Slot)
    (scanned scanned' : Bool) : stage.served slot scanned = stage.served slot' scanned' := by
  unfold Stage.served
  cases stage
  case submitted => exact absurd rfl idle
  all_goals rfl

namespace Inv

variable {c : Config} {s : State} {id : Nat}

/-- A caller that is the only one in its slot goes on to its next stage. -/
theorem put (inv : Inv c s) {slot : Slot} {stage : Stage} (below : id < s.subHead)
    (sole : ∀ id' < s.subHead, id' ≠ id → (s.requests id').stage.holds = true →
      id' % nSlot ≠ id % nSlot)
    (live : (s.requests id).stage ≠ .released)
    (fits : Request.Fits { s.requests id with stage := stage } slot)
    (busy : slot.busy = true → stage = .submitted ∨ stage = .seen)
    (scanned : s.scanned = some (id % nSlot) → (s.requests id).stage = .submitted →
      stage = .submitted ∧ slot.done = false)
    (served : stage.served slot (decide (s.scanned = some (id % nSlot))) = s.served id) :
    Inv c (s.put id slot stage) := by
  have self := s.put_self id slot stage
  have other : ∀ id', id' ≠ id → (s.put id slot stage).requests id' = s.requests id' :=
    fun _ apart => s.put_other slot stage apart
  have here := s.put_slot id slot stage
  have elsewhere : ∀ i, i ≠ id % nSlot → (s.put id slot stage).slots i = s.slots i :=
    fun _ apart => s.put_slot_other slot stage apart
  refine ⟨?_, ?_, ?_, ?_, ?_, ?_⟩
  · intro id₁ id₂ below₁ below₂ holds₁ holds₂ same
    by_cases first : id₁ = id
    · subst first
      by_contra apart
      rw [other id₂ (Ne.symm apart)] at holds₂
      exact sole id₂ below₂ (Ne.symm apart) holds₂ same.symm
    · rw [other id₁ first] at holds₁
      by_cases second : id₂ = id
      · subst second
        exact absurd same (sole id₁ below₁ first holds₁)
      · rw [other id₂ second] at holds₂
        exact inv.alone id₁ id₂ below₁ below₂ holds₁ holds₂ same
  · intro id' below'
    by_cases same : id' = id
    · subst same
      rw [self, State.slotOf, here]
      exact fits
    · rw [other id' same]
      by_cases shared : id' % nSlot = id % nSlot
      · exact fits_of_idle (fun holds => sole id' below' same holds shared) _
      · rw [State.slotOf, elsewhere _ shared]
        exact inv.fits id' below'
  · intro i isBusy
    by_cases at_ : i = id % nSlot
    · subst at_
      rw [here] at isBusy
      exact ⟨id, below, rfl, by rw [self]; exact busy isBusy⟩
    · rw [elsewhere i at_] at isBusy
      obtain ⟨id', below', slot', stage'⟩ := inv.busy i isBusy
      have apart : id' ≠ id := fun same => at_ (same ▸ slot'.symm)
      exact ⟨id', below', slot', by rwa [other id' apart]⟩
  · intro i scanning
    obtain ⟨id', below', slot', stage', undone⟩ := inv.scanned i scanning
    by_cases at_ : id' = id
    · subst at_
      subst slot'
      obtain ⟨still, undone'⟩ := scanned scanning stage'
      exact ⟨id', below, rfl, by rw [self]; exact still, by rw [here]; exact undone'⟩
    · have shared : id' % nSlot ≠ id % nSlot :=
        sole id' below' at_ (holds_of_submitted (Or.inl stage'))
      refine ⟨id', below', slot', by rwa [other id' at_], ?_⟩
      rw [elsewhere i (slot' ▸ shared)]
      exact undone
  · intro id' below' alive
    rw [State.put_buf]
    refine inv.own id' below' ?_
    by_cases same : id' = id
    · exact same ▸ live
    · rwa [other id' same] at alive
  · intro id' below' latest
    rw [State.put_buf] at latest
    have before := inv.account id' below' latest
    have kept : (s.put id slot stage).served id' = s.served id' := by
      by_cases same : id' = id
      · subst same
        rw [State.served, self, State.slotOf, here]
        exact served
      · rw [State.served, other id' same]
        by_cases shared : id' % nSlot = id % nSlot
        · exact served_of_idle (fun holds => sole id' below' same holds shared) ..
        · rw [State.slotOf, elsewhere _ shared]
          rfl
    unfold State.Accounted at before ⊢
    dsimp only at before ⊢
    rw [kept]
    by_cases same : id' = id
    · subst same
      rw [self]
      exact before
    · rw [other id' same]
      exact before

/-- A caller that already uses its slot is alone in it. -/
theorem sole_of_holds (inv : Inv c s) (below : id < s.subHead)
    (holds : (s.requests id).stage.holds = true) :
    ∀ id' < s.subHead, id' ≠ id → (s.requests id').stage.holds = true →
      id' % nSlot ≠ id % nSlot :=
  fun id' below' apart holds' same => apart (inv.alone id' id below' below holds' holds same)

/-- A slot whose only caller is still in `accel_submit` is not busy. -/
theorem idle_slot (inv : Inv c s)
    (sole : ∀ id' < s.subHead, id' ≠ id → (s.requests id').stage.holds = true →
      id' % nSlot ≠ id % nSlot)
    (early : (s.requests id).stage ≠ .submitted ∧ (s.requests id).stage ≠ .seen) :
    (s.slotOf id).busy = false := by
  by_contra isBusy
  rw [Bool.not_eq_false] at isBusy
  obtain ⟨id', below', slot, at_⟩ := inv.busy _ isBusy
  have apart : id' ≠ id := by
    intro same
    subst same
    rcases at_ with submitted | seen
    · exact early.1 submitted
    · exact early.2 seen
  exact sole id' below' apart (holds_of_submitted at_) slot

/-- The device looks at no slot whose only caller is still in `accel_submit`. -/
theorem not_scanned (inv : Inv c s)
    (sole : ∀ id' < s.subHead, id' ≠ id → (s.requests id').stage.holds = true →
      id' % nSlot ≠ id % nSlot)
    (early : (s.requests id).stage ≠ .submitted) : s.scanned ≠ some (id % nSlot) := by
  intro scanning
  obtain ⟨id', below', slot, at_, _⟩ := inv.scanned _ scanning
  have apart : id' ≠ id := fun same => early (same ▸ at_)
  exact sole id' below' apart (holds_of_submitted (Or.inl at_)) slot

/-- Each store of `accel_submit` keeps the invariant, the first one in a free slot. -/
theorem store {s' : State} {now : Nat} (inv : Inv c s) (below : id < s.subHead)
    (free : SlotFree s (.store id now)) (taken : s.store c id now = some s') : Inv c s' := by
  have fits := inv.fits id below
  unfold Request.Fits at fits
  unfold State.store at taken
  dsimp only at taken
  split at taken
  case h_1 at_ =>
    rw [Option.some.injEq] at taken
    subst taken
    have sole : ∀ id' < s.subHead, id' ≠ id → (s.requests id').stage.holds = true →
        id' % nSlot ≠ id % nSlot := fun id' below' _ holds => free below at_ id' below' holds
    have idle := inv.idle_slot sole (by simp [at_])
    apply inv.put below sole
    · simp [at_]
    · exact ⟨rfl, idle⟩
    · intro isBusy
      rw [show (s.slotOf id).busy = true from isBusy] at idle
      cases idle
    · simp [at_]
    · simp [State.served, Stage.served, at_]
  case h_2 at_ =>
    rw [Option.some.injEq] at taken
    subst taken
    rw [at_] at fits
    have sole := inv.sole_of_holds below (by rw [at_]; rfl)
    apply inv.put below sole
    · simp [at_]
    · exact ⟨fits.1, rfl, fits.2⟩
    · simp [fits.2]
    · simp [at_]
    · simp [State.served, Stage.served, at_]
  case h_3 at_ =>
    rw [Option.some.injEq] at taken
    subst taken
    rw [at_] at fits
    have sole := inv.sole_of_holds below (by rw [at_]; rfl)
    apply inv.put below sole
    · simp [at_]
    · exact ⟨fits.1, fits.2.1, fits.2.2, rfl⟩
    · simp [fits.2.2]
    · simp [at_]
    · simp [State.served, Stage.served, at_]
  case h_4 at_ =>
    rw [Option.some.injEq] at taken
    subst taken
    rw [at_] at fits
    have sole := inv.sole_of_holds below (by rw [at_]; rfl)
    apply inv.put below sole
    · simp [at_]
    · exact fits
    · simp [fits.2.2.1]
    · simp [at_]
    · simp [State.served, Stage.served, at_]
  case h_5 at_ =>
    rw [Option.some.injEq] at taken
    subst taken
    rw [at_] at fits
    have sole := inv.sole_of_holds below (by rw [at_]; rfl)
    have unscanned := inv.not_scanned sole (by simp [at_])
    apply inv.put below sole
    · simp [at_]
    · exact ⟨fits.1, fits.2.1, rfl⟩
    · exact fun _ => Or.inl rfl
    · simp [at_]
    · simp [State.served, Stage.served, at_, fits.2.2.2, unscanned]
  all_goals cases taken

theorem poll {s' : State} (inv : Inv c s) (below : id < s.subHead)
    (taken : s.poll id = some s') : Inv c s' := by
  have fits := inv.fits id below
  unfold Request.Fits at fits
  unfold State.poll at taken
  split at taken
  case h_1 at_ =>
    rw [Option.some.injEq] at taken
    subst taken
    split
    · rename_i done
      rw [State.accelDone] at done
      rw [at_] at fits
      apply inv.put below (inv.sole_of_holds below (by rw [at_]; rfl))
      · simp [at_]
      · exact ⟨fits.1, fits.2.1, fits.2.2, done⟩
      · exact fun _ => Or.inr rfl
      · intro scanning
        obtain ⟨id', _, _, _, undone⟩ := inv.scanned _ scanning
        rw [show (s.slots (id % nSlot)).done = true from done] at undone
        cases undone
      · simp [State.served, Stage.served, at_, done]
    · exact inv
  case h_2 =>
    rw [Option.some.injEq] at taken
    exact taken ▸ inv
  case h_3 => cases taken

theorem release {s' : State} (inv : Inv c s) (below : id < s.subHead)
    (taken : s.accelRelease id = some s') : Inv c s' := by
  unfold State.accelRelease at taken
  split at taken
  case h_1 at_ =>
    rw [Option.some.injEq] at taken
    subst taken
    have sole := inv.sole_of_holds below (by rw [at_]; rfl)
    apply inv.put below sole
    · simp [at_]
    · trivial
    · nofun
    · exact fun scanning => absurd scanning (inv.not_scanned sole (by simp [at_]))
    · simp [State.served, Stage.served, at_]
  case h_2 => cases taken

/-- A busy slot that is not done has one caller, which waits. -/
theorem waiting (inv : Inv c s) {i : Nat} (isBusy : (s.slots i).busy = true)
    (undone : (s.slots i).done = false) :
    ∃ id < s.subHead, id % nSlot = i ∧ (s.requests id).stage = .submitted := by
  obtain ⟨id, below, rfl, at_⟩ := inv.busy i isBusy
  refine ⟨id, below, rfl, ?_⟩
  rcases at_ with submitted | seen
  · exact submitted
  · have fits := inv.fits id below
    unfold Request.Fits at fits
    rw [seen] at fits
    rw [show (s.slots (id % nSlot)).done = true from fits.2.2.2] at undone
    cases undone

/-- The other callers are as much served as before when one slot changes. -/
theorem served_elsewhere {s' : State} {id' : Nat} (inv : Inv c s) (below : id < s.subHead)
    (below' : id' < s.subHead) (apart : id' ≠ id) (holds : (s.requests id).stage.holds = true)
    (requests : s'.requests = s.requests)
    (slots : ∀ i, i ≠ id % nSlot → s'.slots i = s.slots i)
    (scanned : ∀ i, i ≠ id % nSlot → (s'.scanned = some i ↔ s.scanned = some i)) :
    s'.served id' = s.served id' := by
  unfold State.served Stage.served State.slotOf
  rw [requests]
  cases stage : (s.requests id').stage
  case submitted =>
    have other : id' % nSlot ≠ id % nSlot := by
      intro shared
      exact apart (inv.alone id' id below' below (by rw [stage]; rfl) holds shared)
    simp only [slots _ other, scanned _ other]
  all_goals rfl

/-- The device transforms the buffer of the one caller that waits in the slot. -/
theorem transformSlot {i : Nat} (inv : Inv c s) (unscanned : s.scanned = none)
    (isBusy : (s.slots i).busy = true) (undone : (s.slots i).done = false) :
    Inv c (s.transformSlot c i) := by
  obtain ⟨id, below, rfl, waits⟩ := inv.waiting isBusy undone
  have fits := inv.fits id below
  unfold Request.Fits at fits
  rw [waits] at fits
  have buf : (s.slots (id % nSlot)).buf = (s.requests id).buf := fits.1
  have size : (s.slots (id % nSlot)).n = (s.requests id).n := fits.2.1
  have mine := inv.own id below (by simp [waits])
  refine ⟨inv.alone, inv.fits, inv.busy, ?_, inv.own, ?_⟩
  · intro j scanning
    cases scanning
    exact ⟨id, below, rfl, waits, undone⟩
  · intro id' below' latest
    change s.last (s.requests id').buf = some id' at latest
    have before := inv.account id' below' latest
    have mem : (s.transformSlot c (id % nSlot)).mem = Function.update s.mem (s.requests id).buf
        (c.transform (s.requests id).n (s.mem (s.requests id).buf)) := by
      rw [← buf, ← size]
      rfl
    have transforms : (s.transformSlot c (id % nSlot)).transforms =
        Function.update s.transforms (s.requests id).buf
          (s.transforms (s.requests id).buf + 1) := by
      rw [← buf]
      rfl
    unfold State.Accounted at before ⊢
    rw [mem, transforms]
    change s.transforms (s.requests id').buf = _ ∧ _ at before
    change Function.update s.transforms _ _ (s.requests id').buf = (s.requests id').since + _ ∧
      Function.update s.mem _ _ (s.requests id').buf = _
    by_cases same : id' = id
    · subst same
      have unserved : s.served id' = false := by
        rw [State.served, waits, unscanned]
        simp [Stage.served, State.slotOf, undone]
      have served : (s.transformSlot c (id' % nSlot)).served id' = true := by
        rw [State.served, show ((s.transformSlot c (id' % nSlot)).requests id').stage =
          .submitted from waits]
        simp [Stage.served, State.transformSlot]
      rw [unserved] at before
      rw [served, Function.update_self, Function.update_self, before.1, before.2]
      exact ⟨rfl, rfl⟩
    · have otherBuf : (s.requests id').buf ≠ (s.requests id).buf := by
        intro shared
        rw [shared, mine, Option.some.injEq] at latest
        exact same latest.symm
      have kept : (s.transformSlot c (id % nSlot)).served id' = s.served id' := by
        refine inv.served_elsewhere below below' same (by rw [waits]; rfl) rfl
          (fun _ _ => rfl) ?_
        intro j apart
        change some (id % nSlot) = some j ↔ _
        rw [unscanned]
        simp [Ne.symm apart]
      rw [kept, Function.update_of_ne otherBuf, Function.update_of_ne otherBuf]
      exact before

/-- The device's `done=1` reports a transform that has happened. -/
theorem finish {s' : State} (inv : Inv c s) (taken : s.finish = some s') : Inv c s' := by
  unfold State.finish at taken
  split at taken
  case h_1 => cases taken
  case h_2 i scanning =>
    rw [Option.some.injEq] at taken
    obtain ⟨id, below, slot, waits, undone⟩ := inv.scanned i scanning
    have holds : (s.requests id).stage.holds = true := by
      rw [waits]
      rfl
    subst slot
    have here : s'.slots (id % nSlot) = { s.slotOf id with done := true } := by
      subst taken
      exact Function.update_self ..
    have elsewhere : ∀ j, j ≠ id % nSlot → s'.slots j = s.slots j := by
      subst taken
      exact fun j apart => Function.update_of_ne apart ..
    have requests : s'.requests = s.requests := by rw [← taken]
    have scanned : s'.scanned = none := by rw [← taken]
    have subHead : s'.subHead = s.subHead := by rw [← taken]
    have last : s'.last = s.last := by rw [← taken]
    have kept : ∀ id' < s.subHead, s'.served id' = s.served id' := by
      intro id' below'
      by_cases same : id' = id
      · subst same
        unfold State.served
        rw [requests, waits, State.slotOf, here, scanned, scanning]
        simp [Stage.served]
      · refine inv.served_elsewhere below below' same holds requests elsewhere ?_
        intro j apart
        rw [scanned, scanning]
        simp [Ne.symm apart]
    refine ⟨?_, ?_, ?_, ?_, ?_, ?_⟩
    · rw [requests, subHead]
      exact inv.alone
    · rw [requests, subHead]
      intro id' below'
      have fits := inv.fits id' below'
      by_cases shared : id' % nSlot = id % nSlot
      · rw [State.slotOf, shared, here]
        unfold State.slotOf at fits ⊢
        rw [shared] at fits
        unfold Request.Fits at fits ⊢
        by_cases same : id' = id
        · rw [same, waits] at fits ⊢
          exact fits
        · have idle : (s.requests id').stage.holds ≠ true :=
            fun holds' => same (inv.alone id' id below' below holds' holds shared)
          cases stage : (s.requests id').stage
          case storeBuf | released => trivial
          all_goals
            rw [stage] at idle
            exact absurd rfl idle
      · rw [State.slotOf, elsewhere _ shared]
        exact fits
    · intro j isBusy
      rw [requests, subHead]
      refine inv.busy j ?_
      by_cases at_ : j = id % nSlot
      · rw [at_, here] at isBusy
        exact at_ ▸ isBusy
      · rwa [elsewhere j at_] at isBusy
    · intro j scanning'
      rw [scanned] at scanning'
      cases scanning'
    · rw [requests, subHead, last]
      exact inv.own
    · rw [subHead, last, requests]
      intro id' below' latest
      have before := inv.account id' below' latest
      unfold State.Accounted at before ⊢
      rw [kept id' below', requests, ← taken]
      exact before

/-- A new request takes no slot yet and finds its buffer as it is. -/
theorem submit {buf : Buf} {n : Nat} (inv : Inv c s) (own : OwnBuffer s (.submit buf n)) :
    Inv c (s.accelSubmit buf n) := by
  have new : (s.accelSubmit buf n).requests s.subHead =
      ⟨buf, n, .storeBuf, s.mem buf, s.transforms buf⟩ := Function.update_self ..
  have old : ∀ id' < s.subHead, (s.accelSubmit buf n).requests id' = s.requests id' :=
    fun id' below => Function.update_of_ne (Nat.ne_of_lt below) ..
  have below_or : ∀ id' < s.subHead + 1, id' < s.subHead ∨ id' = s.subHead := by
    intro id' below
    omega
  refine ⟨?_, ?_, ?_, ?_, ?_, ?_⟩
  · intro id₁ id₂ below₁ below₂ holds₁ holds₂ same
    rcases below_or id₁ below₁ with first | rfl
    · rcases below_or id₂ below₂ with second | rfl
      · rw [old _ first] at holds₁
        rw [old _ second] at holds₂
        exact inv.alone id₁ id₂ first second holds₁ holds₂ same
      · rw [new] at holds₂
        cases holds₂
    · rw [new] at holds₁
      cases holds₁
  · intro id' below
    rcases below_or id' below with earlier | rfl
    · rw [old _ earlier]
      exact inv.fits id' earlier
    · rw [new]
      trivial
  · intro i isBusy
    obtain ⟨id', earlier, slot, at_⟩ := inv.busy i isBusy
    exact ⟨id', Nat.lt_succ_of_lt earlier, slot, by rwa [old _ earlier]⟩
  · intro i scanning
    obtain ⟨id', earlier, slot, at_, undone⟩ := inv.scanned i scanning
    exact ⟨id', Nat.lt_succ_of_lt earlier, slot, by rwa [old _ earlier], undone⟩
  · intro id' below live
    change Function.update s.last buf (some s.subHead) _ = _
    rcases below_or id' below with earlier | rfl
    · rw [old _ earlier] at live ⊢
      rw [Function.update_of_ne (own id' earlier live)]
      exact inv.own id' earlier live
    · rw [new, Function.update_self]
  · intro id' below latest
    change Function.update s.last buf (some s.subHead) _ = _ at latest
    rcases below_or id' below with earlier | rfl
    · rw [old _ earlier] at latest
      have apart : (s.requests id').buf ≠ buf := by
        intro same
        rw [same, Function.update_self, Option.some.injEq] at latest
        omega
      rw [Function.update_of_ne apart] at latest
      have before := inv.account id' earlier latest
      have kept : (s.accelSubmit buf n).served id' = s.served id' := by
        unfold State.served
        rw [old _ earlier]
        rfl
      unfold State.Accounted at before ⊢
      rw [kept, old _ earlier]
      exact before
    · unfold State.Accounted State.served
      rw [new]
      exact ⟨rfl, rfl⟩

/-- A buffer no request is under way for can be written. -/
theorem fill {buf : Buf} {bs : Bytes} (inv : Inv c s) (own : OwnBuffer s (.fill buf bs)) :
    Inv c (s.fill buf bs) := by
  refine ⟨inv.alone, inv.fits, inv.busy, inv.scanned, ?_, ?_⟩
  · intro id' below live
    change Function.update s.last buf none (s.requests id').buf = _
    rw [Function.update_of_ne (own id' below live)]
    exact inv.own id' below live
  · intro id' below latest
    change Function.update s.last buf none (s.requests id').buf = _ at latest
    have apart : (s.requests id').buf ≠ buf := by
      intro same
      rw [same, Function.update_self] at latest
      cases latest
    rw [Function.update_of_ne apart] at latest
    have before := inv.account id' below latest
    unfold State.Accounted at before ⊢
    refine ⟨before.1, ?_⟩
    change Function.update s.mem buf bs (s.requests id').buf = _
    rw [Function.update_of_ne apart]
    exact before.2

end Inv

theorem step_inv {c : Config} {s s' : State} {a : Act} (inv : Inv c s) (own : OwnBuffer s a)
    (free : SlotFree s a) (taken : step c s a = some s') : Inv c s' := by
  cases a with
  | submit buf n => exact Option.some.inj taken ▸ inv.submit own
  | store id now =>
    rw [step] at taken
    split at taken
    · rename_i below
      exact inv.store below free taken
    · cases taken
  | scan i t =>
    rw [step, State.scan] at taken
    split at taken
    · rename_i ready
      rw [Option.some.injEq] at taken
      exact taken ▸ inv.transformSlot ready.1 ready.2.2.1 ready.2.2.2.1
    · cases taken
  | finish => exact inv.finish taken
  | poll id =>
    rw [step] at taken
    split at taken
    · rename_i below
      exact inv.poll below taken
    · cases taken
  | release id =>
    rw [step] at taken
    split at taken
    · rename_i below
      exact inv.release below taken
    · cases taken
  | fill buf bs => exact Option.some.inj taken ▸ inv.fill own

namespace State

/-- A request that has its id and is not released is done only once its buffer has
been transformed exactly once since it was submitted. -/
def DoneOnce (c : Config) (s : State) : Prop :=
  ∀ id < s.subHead, (s.requests id).stage = .submitted ∨ (s.requests id).stage = .seen →
    s.accelDone id = true →
      s.transforms (s.requests id).buf = (s.requests id).since + 1 ∧
      s.mem (s.requests id).buf = c.transform (s.requests id).n (s.requests id).content

/-- A pending request is still in its slot for the device to find, whatever other
callers have released. -/
def NoneCancelled (s : State) : Prop :=
  ∀ id < s.subHead, (s.requests id).stage = .submitted →
    (s.slotOf id).busy = true ∧ (s.slotOf id).buf = (s.requests id).buf ∧
      (s.slotOf id).n = (s.requests id).n

end State

theorem Inv.doneOnce {c : Config} {s : State} (inv : Inv c s) : s.DoneOnce c := by
  intro id below at_ done
  have live : (s.requests id).stage ≠ .released := by
    rcases at_ with submitted | seen
    · simp [submitted]
    · simp [seen]
  have served : s.served id = true := by
    unfold State.served
    rcases at_ with submitted | seen
    · rw [submitted]
      simp [Stage.served, show (s.slotOf id).done = true from done]
    · rw [seen]
      rfl
  have account := inv.account id below (inv.own id below live)
  unfold State.Accounted at account
  rw [served] at account
  exact account

theorem Inv.noneCancelled {c : Config} {s : State} (inv : Inv c s) : s.NoneCancelled := by
  intro id below submitted
  have fits := inv.fits id below
  unfold Request.Fits at fits
  rw [submitted] at fits
  exact ⟨fits.2.2, fits.1, fits.2.1⟩

/-- The buffers a program submits, with their lengths, in the order of the ids. -/
def submission : Act → Option (Buf × Nat)
  | .submit buf n => some (buf, n)
  | _ => none

def submissions (acts : List Act) : List (Buf × Nat) := acts.filterMap submission

/-- What calls of the synchronous `accel_encrypt`, one after another, leave in memory. -/
def encryptAll (c : Config) (jobs : List (Buf × Nat)) (mem : Buf → Bytes) : Buf → Bytes :=
  jobs.foldl (fun mem job => Function.update mem job.1 (c.transform job.2 (mem job.1))) mem

theorem encryptAll_other {c : Config} {jobs : List (Buf × Nat)} (mem : Buf → Bytes) {buf : Buf}
    (absent : buf ∉ jobs.map Prod.fst) : encryptAll c jobs mem buf = mem buf := by
  induction jobs generalizing mem with
  | nil => rfl
  | cons job rest ih =>
    rw [List.map_cons, List.mem_cons, not_or] at absent
    have later := ih (Function.update mem job.1 (c.transform job.2 (mem job.1))) absent.2
    rw [Function.update_of_ne absent.1] at later
    exact later

theorem encryptAll_job {c : Config} {jobs : List (Buf × Nat)} (mem : Buf → Bytes) {buf : Buf}
    {n : Nat} (distinct : (jobs.map Prod.fst).Nodup) (member : (buf, n) ∈ jobs) :
    encryptAll c jobs mem buf = c.transform n (mem buf) := by
  induction jobs generalizing mem with
  | nil => cases member
  | cons job rest ih =>
    rw [List.map_cons, List.nodup_cons] at distinct
    let next := Function.update mem job.1 (c.transform job.2 (mem job.1))
    show encryptAll c rest next buf = _
    rcases List.mem_cons.mp member with here | later
    · subst here
      rw [encryptAll_other next distinct.1]
      exact Function.update_self ..
    · have apart : buf ≠ job.1 := by
        intro same
        exact distinct.1 (same ▸ List.mem_map.mpr ⟨_, later, rfl⟩)
      rw [ih next distinct.2 later, show next buf = mem buf from Function.update_of_ne apart ..]

/-- The synchronous calls as a program. -/
def encryptAllActs : List (Buf × Nat) → Nat → Nat → Nat → List Act
  | [], _, _, _ => []
  | job :: rest, id, now, t =>
    encryptActs id job.1 job.2 now t ++ encryptAllActs rest (id + 1) now t

/-- The program of synchronous calls does what `encryptAll` says. -/
theorem encryptAllActs_run {c : Config} {jobs : List (Buf × Nat)} {s : State} {now t : Nat}
    (unscanned : s.scanned = none) (late : now + c.accelLatNs ≤ t) :
    ∃ s', runActs c s (encryptAllActs jobs s.subHead now t) = some s' ∧
      s'.mem = encryptAll c jobs s.mem := by
  induction jobs generalizing s with
  | nil => exact ⟨s, rfl, rfl⟩
  | cons job rest ih =>
    obtain ⟨s₁, first, mem, idle, subHead⟩ :=
      encryptActs_run c s job.1 job.2 now t unscanned late
    obtain ⟨s₂, later, mem'⟩ := ih idle
    refine ⟨s₂, ?_, ?_⟩
    · rw [encryptAllActs, runActs, Machine.run_append_of_run first, ← subHead]
      exact later
    · rw [mem', mem]
      rfl

/-- Only submissions change the requests' calls, and only they and writes the latest
request of a buffer. -/
structure SameCalls (s s' : State) : Prop where
  subHead : s'.subHead = s.subHead
  buf : ∀ id, (s'.requests id).buf = (s.requests id).buf
  n : ∀ id, (s'.requests id).n = (s.requests id).n
  content : ∀ id, (s'.requests id).content = (s.requests id).content
  last : s'.last = s.last

theorem put_sameCalls (s : State) (id : Nat) (slot : Slot) (stage : Stage) :
    SameCalls s (s.put id slot stage) := by
  have calls : ∀ {α : Type} (field : Request → α),
      (∀ r stage, field { r with stage := stage } = field r) →
      ∀ id', field ((s.put id slot stage).requests id') = field (s.requests id') := by
    intro α field same id'
    by_cases here : id' = id
    · subst here
      rw [State.put_self, same]
    · rw [State.put_other _ _ _ here]
  exact ⟨rfl, calls Request.buf fun _ _ => rfl, calls Request.n fun _ _ => rfl,
    calls Request.content fun _ _ => rfl, rfl⟩

/-- A step that submits and writes nothing changes memory in a scan alone. -/
theorem step_calls {c : Config} {s s' : State} {a : Act} (quiet : submission a = none)
    (unwritten : ∀ buf bs, a ≠ .fill buf bs) (taken : step c s a = some s') :
    SameCalls s s' ∧ (s'.mem = s.mem ∨ ∃ i, (s.slots i).busy = true ∧ (s.slots i).done = false ∧
      s' = s.transformSlot c i) := by
  have still : SameCalls s s := ⟨rfl, fun _ => rfl, fun _ => rfl, fun _ => rfl, rfl⟩
  cases a with
  | submit => cases quiet
  | fill buf bs => exact absurd rfl (unwritten buf bs)
  | store id now =>
    rw [step] at taken
    split at taken
    · unfold State.store at taken
      dsimp only at taken
      split at taken <;> cases taken
      all_goals exact ⟨put_sameCalls .., Or.inl rfl⟩
    · cases taken
  | scan i t =>
    rw [step, State.scan] at taken
    split at taken
    · rename_i ready
      cases taken
      exact ⟨⟨rfl, fun _ => rfl, fun _ => rfl, fun _ => rfl, rfl⟩,
        Or.inr ⟨i, ready.2.2.1, ready.2.2.2.1, rfl⟩⟩
    · cases taken
  | finish =>
    change s.finish = some s' at taken
    unfold State.finish at taken
    split at taken <;> cases taken
    exact ⟨⟨rfl, fun _ => rfl, fun _ => rfl, fun _ => rfl, rfl⟩, Or.inl rfl⟩
  | poll id =>
    rw [step] at taken
    split at taken
    · unfold State.poll at taken
      split at taken
      · cases taken
        split
        · exact ⟨put_sameCalls .., Or.inl rfl⟩
        · exact ⟨still, Or.inl rfl⟩
      · cases taken
        exact ⟨still, Or.inl rfl⟩
      · cases taken
    · cases taken
  | release id =>
    rw [step] at taken
    split at taken
    · unfold State.accelRelease at taken
      split at taken <;> cases taken
      exact ⟨put_sameCalls .., Or.inl rfl⟩
    · cases taken

/-- What the requests so far, one for each buffer, have to do with the memory they
started from. -/
structure Logged (mem : Buf → Bytes) (jobs : List (Buf × Nat)) (s : State) : Prop where
  count : s.subHead = jobs.length
  entry : ∀ id < s.subHead, jobs[id]? = some ((s.requests id).buf, (s.requests id).n)
  content : ∀ id < s.subHead, (s.requests id).content = mem (s.requests id).buf
  last : ∀ id < s.subHead, s.last (s.requests id).buf = some id
  rest : ∀ buf, buf ∉ jobs.map Prod.fst → s.mem buf = mem buf

theorem init_logged (mem : Buf → Bytes) : Logged mem [] (State.init mem) :=
  ⟨rfl, nofun, nofun, nofun, fun _ _ => rfl⟩

namespace Logged

variable {mem : Buf → Bytes} {jobs : List (Buf × Nat)} {s s' : State}

theorem member (logged : Logged mem jobs s) {id : Nat} (below : id < s.subHead) :
    (s.requests id).buf ∈ jobs.map Prod.fst :=
  List.mem_map.mpr ⟨_, List.mem_of_getElem? (logged.entry id below), rfl⟩

theorem submit (logged : Logged mem jobs s) {buf : Buf} {n : Nat}
    (fresh : buf ∉ jobs.map Prod.fst) : Logged mem (jobs ++ [(buf, n)]) (s.accelSubmit buf n) := by
  have new : (s.accelSubmit buf n).requests s.subHead =
      ⟨buf, n, .storeBuf, s.mem buf, s.transforms buf⟩ := Function.update_self ..
  have old : ∀ id' < s.subHead, (s.accelSubmit buf n).requests id' = s.requests id' :=
    fun id' below => Function.update_of_ne (Nat.ne_of_lt below) ..
  have below_or : ∀ id' < s.subHead + 1, id' < s.subHead ∨ id' = s.subHead := by
    intro id' below
    omega
  refine ⟨?_, ?_, ?_, ?_, ?_⟩
  · change s.subHead + 1 = _
    rw [List.length_append, logged.count]
    rfl
  · intro id below
    rcases below_or id below with earlier | rfl
    · rw [old _ earlier, List.getElem?_append_left (logged.count ▸ earlier)]
      exact logged.entry id earlier
    · rw [new, List.getElem?_append_right (Nat.le_of_eq logged.count.symm), logged.count]
      simp
  · intro id below
    rcases below_or id below with earlier | rfl
    · rw [old _ earlier]
      exact logged.content id earlier
    · rw [new]
      exact logged.rest buf fresh
  · intro id below
    change Function.update s.last buf (some s.subHead) _ = _
    rcases below_or id below with earlier | rfl
    · rw [old _ earlier]
      have apart : (s.requests id).buf ≠ buf := fun same => fresh (same ▸ logged.member earlier)
      rw [Function.update_of_ne apart]
      exact logged.last id earlier
    · rw [new, Function.update_self]
  · intro other absent
    rw [List.map_append, List.mem_append, not_or] at absent
    exact logged.rest other absent.1

theorem quiet {c : Config} {a : Act} (logged : Logged mem jobs s) (inv : Inv c s)
    (quiet : submission a = none) (unwritten : ∀ buf bs, a ≠ .fill buf bs)
    (taken : step c s a = some s') : Logged mem jobs s' := by
  obtain ⟨same, memory⟩ := step_calls quiet unwritten taken
  refine ⟨same.subHead ▸ logged.count, ?_, ?_, ?_, ?_⟩
  · intro id below
    rw [same.buf, same.n]
    exact logged.entry id (same.subHead ▸ below)
  · intro id below
    rw [same.content, same.buf]
    exact logged.content id (same.subHead ▸ below)
  · intro id below
    rw [same.buf, same.last]
    exact logged.last id (same.subHead ▸ below)
  · intro buf absent
    rcases memory with kept | ⟨i, isBusy, undone, rfl⟩
    · rw [kept]
      exact logged.rest buf absent
    · -- the device only ever works on the buffer of a request
      obtain ⟨id, below, rfl, waits⟩ := inv.waiting isBusy undone
      have fits := inv.fits id below
      unfold Request.Fits at fits
      rw [waits] at fits
      have named : (s.slots (id % nSlot)).buf = (s.requests id).buf := fits.1
      have apart : buf ≠ (s.slots (id % nSlot)).buf := by
        intro here
        exact absent (here ▸ named ▸ logged.member below)
      change Function.update s.mem _ _ buf = _
      rw [Function.update_of_ne apart]
      exact logged.rest buf absent

/-- Once every request is released, memory is as the synchronous calls leave it. -/
theorem encrypted {c : Config} (logged : Logged mem jobs s) (inv : Inv c s)
    (distinct : (jobs.map Prod.fst).Nodup)
    (collected : ∀ id < s.subHead, (s.requests id).stage = .released) :
    s.mem = encryptAll c jobs mem := by
  funext buf
  by_cases member : buf ∈ jobs.map Prod.fst
  · obtain ⟨⟨_, n⟩, inside, rfl⟩ := List.mem_map.mp member
    obtain ⟨id, found⟩ := List.mem_iff_getElem?.mp inside
    have below : id < s.subHead := by
      rw [logged.count]
      exact (List.getElem?_eq_some_iff.mp found).1
    have entry := logged.entry id below
    rw [found, Option.some.injEq, Prod.mk.injEq] at entry
    have account := inv.account id below (logged.last id below)
    have served : s.served id = true := by
      rw [State.served, collected id below]
      rfl
    unfold State.Accounted at account
    rw [served] at account
    have transformed := account.2
    change s.mem (s.requests id).buf = c.transform (s.requests id).n (s.requests id).content
      at transformed
    rw [logged.content id below, ← entry.1, ← entry.2] at transformed
    rw [encryptAll_job mem distinct inside]
    exact transformed
  · rw [encryptAll_other mem member]
    exact logged.rest buf member

end Logged

theorem run_logged {c : Config} {mem : Buf → Bytes} {acts : List Act} {jobs : List (Buf × Nat)}
    {s t : State} (logged : Logged mem jobs s) (inv : Inv c s)
    (own : Machine.Guarded (step c) OwnBuffer s acts)
    (free : Machine.Guarded (step c) SlotFree s acts)
    (unwritten : ∀ buf bs, .fill buf bs ∉ acts)
    (distinct : ((jobs ++ submissions acts).map Prod.fst).Nodup)
    (ran : runActs c s acts = some t) : Logged mem (jobs ++ submissions acts) t := by
  induction acts generalizing s jobs with
  | nil =>
    rw [runActs, Machine.run_nil, Option.some.injEq] at ran
    subst ran
    rwa [submissions, List.filterMap_nil, List.append_nil]
  | cons a rest ih =>
    obtain ⟨u, taken, ran⟩ := Machine.run_cons_eq_some.mp ran
    have next := step_inv inv own.1 free.1 taken
    have later : ∀ buf bs, Act.fill buf bs ∉ rest :=
      fun buf bs member => unwritten buf bs (List.mem_cons_of_mem a member)
    cases made : submission a with
    | none =>
      have same : submissions (a :: rest) = submissions rest := List.filterMap_cons_none made
      rw [same] at distinct ⊢
      have here : ∀ buf bs, a ≠ .fill buf bs :=
        fun buf bs eq => unwritten buf bs (eq ▸ List.mem_cons_self)
      exact ih (logged.quiet inv made here taken) next (own.2 u taken) (free.2 u taken) later
        distinct ran
    | some job =>
      have more : submissions (a :: rest) = job :: submissions rest := List.filterMap_cons_some made
      rw [more, List.append_cons] at distinct ⊢
      cases a with
      | submit buf n =>
        cases made
        cases taken
        have fresh : buf ∉ jobs.map Prod.fst := by
          rw [List.map_append, List.map_append] at distinct
          have once := (List.nodup_append.mp (List.nodup_append.mp distinct).1).2.2
          exact fun old => once buf old buf (by simp) rfl
        exact ih (logged.submit fresh) next (own.2 _ rfl) (free.2 _ rfl) later distinct ran
      | _ => cases made

/-- Whatever the callers and the device do, as long as callers use buffers of their own
and each slot is free when a request first stores into it: a request is done only when
its buffer has been transformed once, no release cancels a pending request, and a
program that has collected one request for each of its buffers leaves them as the
synchronous calls do. -/
theorem requests_served_once (c : Config) (mem : Buf → Bytes) (acts : List Act) (s : State)
    (ran : runActs c (State.init mem) acts = some s)
    (own : Machine.Guarded (step c) OwnBuffer (State.init mem) acts)
    (free : Machine.Guarded (step c) SlotFree (State.init mem) acts) :
    s.DoneOnce c ∧ s.NoneCancelled ∧
    ((∀ buf bs, .fill buf bs ∉ acts) → ((submissions acts).map Prod.fst).Nodup →
      (∀ id < s.subHead, (s.requests id).stage = .released) →
      s.mem = encryptAll c (submissions acts) mem) := by
  have both : Machine.Guarded (step c) (fun s a => OwnBuffer s a ∧ SlotFree s a)
      (State.init mem) acts := own.and free
  have inv : Inv c s :=
    Machine.invariant_run (fun _ _ _ inv both taken => step_inv inv both.1 both.2 taken)
      (init_inv c mem) both ran
  refine ⟨inv.doneOnce, inv.noneCancelled, ?_⟩
  intro unwritten distinct collected
  have logged := run_logged (init_logged mem) (init_inv c mem) own free unwritten
    (by simpa using distinct) ran
  rw [List.nil_append] at logged
  exact logged.encrypted inv distinct collected

theorem step_subHead {c : Config} {s s' : State} {a : Act} (taken : step c s a = some s') :
    s'.subHead = s.subHead + (submission a).toList.length := by
  by_cases written : ∃ buf bs, a = .fill buf bs
  · obtain ⟨buf, bs, rfl⟩ := written
    cases taken
    rfl
  · cases made : submission a with
    | none =>
      have unwritten : ∀ buf bs, a ≠ .fill buf bs := fun buf bs eq => written ⟨buf, bs, eq⟩
      exact (step_calls made unwritten taken).1.subHead
    | some job =>
      cases a with
      | submit => cases taken; rfl
      | _ => cases made

/-- A program of at most `NSLOT` requests never takes a slot twice. -/
theorem slotFree_of_few {c : Config} {acts : List Act} {s : State}
    (few : s.subHead + (submissions acts).length ≤ nSlot) :
    Machine.Guarded (step c) SlotFree s acts := by
  induction acts generalizing s with
  | nil => trivial
  | cons a rest ih =>
    constructor
    · cases a with
      | store id now =>
        intro below at_ id' below' holds same
        have inside : id < nSlot := by omega
        have inside' : id' < nSlot := by omega
        rw [Nat.mod_eq_of_lt inside, Nat.mod_eq_of_lt inside'] at same
        subst same
        rw [at_] at holds
        cases holds
      | _ => trivial
    · intro t taken
      apply ih
      have count : (submissions (a :: rest)).length =
          (submission a).toList.length + (submissions rest).length := by
        unfold submissions
        cases made : submission a with
        | none => rw [List.filterMap_cons_none made]; simp
        | some job => rw [List.filterMap_cons_some made]; simp [Nat.add_comm]
      rw [step_subHead taken]
      omega

/-- A device whose key stream is constant, with the default latency. -/
def constantKey : Config :=
  { accelLatNs := 20000
    transform := fun n bs => (bs.take n).map (fun b => b ^^^ 0x5a) ++ bs.drop n }

/-- Two requests in flight, completed and collected one after the other. -/
def twoInFlight : List Act :=
  submitActs 0 0 2 0 ++ submitActs 1 1 2 0 ++
    [.poll 0, .scan 0 20000, .finish, .scan 1 20000, .poll 0, .release 0, .finish, .poll 1,
      .release 1]

theorem twoInFlight_served : ∃ s,
    runActs constantKey (State.init fun _ => [1, 2]) twoInFlight = some s ∧
    s.DoneOnce constantKey ∧ s.NoneCancelled ∧ s.mem 0 = [0x5b, 0x58] ∧
    ∃ t, runActs constantKey (State.init fun _ => [1, 2])
        (encryptAllActs (submissions twoInFlight) 0 0 20000) = some t ∧ s.mem = t.mem := by
  have run : (runActs constantKey (State.init fun _ => [1, 2]) twoInFlight).map (fun s =>
      (s.mem 0, decide (∀ id < s.subHead, (s.requests id).stage = .released))) =
      some ([0x5b, 0x58], true) := by decide +kernel
  obtain ⟨s, ran, result⟩ := Option.map_eq_some_iff.mp run
  rw [Prod.mk.injEq, decide_eq_true_eq] at result
  have own : Machine.Guarded (step constantKey) OwnBuffer (State.init fun _ => [1, 2])
      twoInFlight := by decide +kernel
  have served := requests_served_once constantKey (fun _ => [1, 2]) twoInFlight s ran own
    (slotFree_of_few (by decide))
  have unwritten : ∀ buf bs, Act.fill buf bs ∉ twoInFlight := by
    simp [twoInFlight, submitActs, List.replicate]
  obtain ⟨t, synchronous, mem⟩ : ∃ t, runActs constantKey (State.init fun _ => [1, 2])
      (encryptAllActs (submissions twoInFlight) 0 0 20000) = some t ∧
      t.mem = encryptAll constantKey (submissions twoInFlight) fun _ => [1, 2] :=
    encryptAllActs_run rfl (Nat.le_refl _)
  refine ⟨s, ran, served.1, served.2.1, result.1, t, synchronous, ?_⟩
  rw [mem]
  exact served.2.2 unwritten (by decide) result.2

/-- The first loop of `accel_async(k)`, on buffers `0` to `k-1`. -/
def submitAll (k : Nat) : List Act :=
  (List.range k).flatMap fun i => submitActs i i 4096 0

/-- After its first loop every request waits, and the last one names its slot. -/
theorem submitAll_run (c : Config) (mem : Buf → Bytes) (k : Nat) : ∃ s,
    runActs c (State.init mem) (submitAll k) = some s ∧
    Machine.Guarded (step c) OwnBuffer (State.init mem) (submitAll k) ∧
    s.subHead = k ∧ s.transforms = (fun _ => 0) ∧ s.scanned = none ∧
    (∀ id < k, (s.requests id).buf = id ∧ (s.requests id).stage = .submitted ∧
      (s.requests id).since = 0) ∧
    ∀ i, k = i + 1 → s.slots (i % nSlot) = ⟨i, 4096, c.accelLatNs, true, false⟩ := by
  induction k with
  | zero => exact ⟨State.init mem, rfl, trivial, rfl, rfl, rfl, nofun, nofun⟩
  | succ k ih =>
    obtain ⟨s, ran, own, subHead, transforms, scanned, waiting, _⟩ := ih
    have split : submitAll (k + 1) = submitAll k ++ submitActs k k 4096 0 := by
      simp [submitAll, List.range_succ]
    have block := submitActs_run c s k 4096 0
    rw [subHead] at block
    refine ⟨s.afterSubmit c k 4096 0, ?_, ?_, ?_, transforms, scanned, ?_, ?_⟩
    · rw [split, runActs, Machine.run_append_of_run ran]
      exact block
    · rw [split]
      refine (Machine.Guarded.append ran).mpr ⟨own, ?_, ?_⟩
      · intro id below _ same
        rw [subHead] at below
        rw [(waiting id below).1] at same
        exact Nat.ne_of_lt below same
      · intro t _
        apply Machine.guarded_of_mem
        intro a member s
        rw [List.eq_of_mem_replicate member]
        trivial
    · change s.subHead + 1 = k + 1
      rw [subHead]
    · intro id below
      change (Function.update s.requests s.subHead _ id).buf = id ∧ _
      by_cases new : id = k
      · subst new
        change _ ∧ (Function.update s.requests s.subHead _ id).stage = _ ∧
          (Function.update s.requests s.subHead _ id).since = _
        rw [subHead, Function.update_self, transforms]
        exact ⟨rfl, rfl, rfl⟩
      · change _ ∧ (Function.update s.requests s.subHead _ id).stage = _ ∧
          (Function.update s.requests s.subHead _ id).since = _
        rw [subHead, Function.update_of_ne new]
        exact waiting id (by omega)
    · intro i last
      cases last
      change Function.update s.slots (s.subHead % nSlot) _ (k % nSlot) = _
      rw [subHead, Function.update_self, Nat.zero_add]

/-- The device serves slot 0, whoever it names, and request 0 is polled. -/
theorem report_run {c : Config} {s : State} (unscanned : s.scanned = none)
    (slot : s.slots 0 = ⟨8192, 4096, c.accelLatNs, true, false⟩) (below : 0 < s.subHead)
    (waits : (s.requests 0).stage = .submitted) : ∃ t,
    runActs c s [.scan 0 c.accelLatNs, .finish, .poll 0] = some t ∧ t.subHead = s.subHead ∧
      (t.requests 0).stage = .seen ∧ (t.requests 0).buf = (s.requests 0).buf ∧
      (t.requests 0).since = (s.requests 0).since ∧ t.accelDone 0 = true ∧
      t.transforms = Function.update s.transforms 8192 (s.transforms 8192 + 1) := by
  have inside : 0 < nSlot := by decide
  simp [runActs, Machine.run, step, State.scan, State.transformSlot, State.finish, State.poll,
    State.accelDone, State.put, State.slotOf, unscanned, slot, below, waits, inside]

/-- With one request more than there are slots, the last one stores into the slot of
the first, which is still pending. The device then serves the last one, and the first
is reported done although its buffer has never been transformed. -/
theorem overrun_reports_early (c : Config) (mem : Buf → Bytes) {k : Nat}
    (overrun : k = nSlot + 1) : ∃ s,
    runActs c (State.init mem) (submitAll k ++ [.scan 0 c.accelLatNs, .finish, .poll 0]) = some s ∧
    Machine.Guarded (step c) OwnBuffer (State.init mem)
      (submitAll k ++ [.scan 0 c.accelLatNs, .finish, .poll 0]) ∧
    (s.requests 0).stage = .seen ∧ s.transforms (s.requests 0).buf = 0 ∧ ¬ s.DoneOnce c := by
  obtain ⟨s, ran, own, subHead, transforms, unscanned, waiting, last⟩ := submitAll_run c mem k
  have many : 0 < k := by omega
  obtain ⟨buf, waits, since⟩ := waiting 0 many
  obtain ⟨t, reported, subHead', seen, buf', since', done, transforms'⟩ :=
    report_run unscanned (last nSlot overrun) (subHead ▸ many) waits
  have untouched : t.transforms (t.requests 0).buf = 0 := by
    have apart : (0 : Buf) ≠ 8192 := by decide
    rw [transforms', buf', buf, transforms, Function.update_of_ne apart]
  refine ⟨t, ?_, ?_, seen, untouched, ?_⟩
  · exact (Machine.run_append_of_run ran _).trans reported
  · refine (Machine.Guarded.append ran).mpr ⟨own, ?_⟩
    exact ⟨trivial, fun _ _ => ⟨trivial, fun _ _ => ⟨trivial, fun _ _ => trivial⟩⟩⟩
  · intro once
    have counted := (once 0 (subHead' ▸ subHead ▸ many) (Or.inr seen) done).1
    rw [untouched] at counted
    omega

/-- `accel_async(8193)`. -/
theorem async_reuses_pending_slot : ∃ s,
    runActs constantKey (State.init fun _ => [])
      (submitAll 8193 ++ [.scan 0 20000, .finish, .poll 0]) = some s ∧
    Machine.Guarded (step constantKey) OwnBuffer (State.init fun _ => [])
      (submitAll 8193 ++ [.scan 0 20000, .finish, .poll 0]) ∧
    (s.requests 0).stage = .seen ∧ s.transforms (s.requests 0).buf = 0 ∧
    ¬ s.DoneOnce constantKey :=
  overrun_reports_early constantKey (fun _ => []) rfl

end TransparentOffload.LibAccel
