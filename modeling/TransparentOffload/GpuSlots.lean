import TransparentOffload.LibAccelGpu

set_option autoImplicit false

/- Each caller of `libaccel_gpu` gets its own ciphertext as long as nobody copies into
a staging slot that another request still uses. -/
namespace TransparentOffload.LibAccelGpu

/-- The caller uses its slot: from its copy into it until its result is copied out. -/
def GStage.holds : GStage → Bool
  | .prepare | .copyIn | .returned => false
  | _ => true

/-- What is still to be put on the stream. -/
def GStage.toIssue : GStage → List Op
  | .storeBuf | .storeN => opsOfSubmit
  | .issue rest => rest
  | _ => []

/-- The call that submitted the request, or that waits for it, is not back yet. -/
def Waiting (s : State) (id : Nat) : Prop := id < s.subHead ∧ (s.requests id).stage ≠ .returned

/-- What a step copies into a caller's buffer, and in whose call. -/
def copied (c : Config) (s : State) : GpuAct → Option (Nat × Buf × Bytes)
  | .copyOut id => if id < s.subHead then (s.doneCopy c id).map fun out => (id, out) else none
  | .finish id => if id < s.subHead then (s.encryptCopy c id).map fun out => (id, out) else none
  | _ => none

/-- Whatever is copied into a buffer is the ciphertext of a request that was made with
this buffer and is still waited for. -/
def Owned (c : Config) (s : State) (a : GpuAct) : Prop :=
  ∀ id buf bytes, copied c s a = some (id, buf, bytes) → ∃ q, Waiting s q ∧
    (s.requests q).buf = buf ∧ bytes = transform c (s.requests q).content

/-- And it is copied in the very call that waits for it. -/
def OwnCall (c : Config) (s : State) (a : GpuAct) : Prop :=
  ∀ id buf bytes, copied c s a = some (id, buf, bytes) → Waiting s id ∧
    (s.requests id).buf = buf ∧ bytes = transform c (s.requests id).content

/-- Nobody copies into a slot that another request uses. -/
def AloneOnSlot (s : State) : GpuAct → Prop
  | .copyIn id => ∀ id' < s.subHead, id' ≠ id → id' % nSlot = id % nSlot →
    (s.requests id').stage.holds = false
  | _ => True

instance (s : State) : ∀ a, Decidable (AloneOnSlot s a)
  | .copyIn _ => inferInstanceAs (Decidable (∀ id' < s.subHead, _))
  | .submit _ _ _ | .ready _ _ _ | .advance _ | .device _ | .done _ | .copyOut _ | .synchronize _
  | .finish _ | .user _ _ => isTrue trivial

/-- The request uses its slot. -/
def Using (s : State) (id : Nat) : Prop := id < s.subHead ∧ (s.requests id).stage.holds = true

/-- What the staging buffers hold once `k` operations of a request are executed. -/
structure Stages (c : Config) (r : GRequest) (slot : GSlot) (k : Nat) : Prop where
  plain : k ≤ 1 → slot.h.take (State.cp c r.n) = r.content
  loaded : k = 1 → slot.d.take (State.cp c r.n) = r.content
  masked : k = 2 ∨ k = 3 → slot.d.take (State.cp c r.n) = transform c r.content
  back : 3 ≤ k → slot.h.take (State.cp c r.n) = transform c r.content

/-- How far a request has come on its slot. -/
structure Progress (c : Config) (r : GRequest) (slot : GSlot) : Prop where
  ops : ∃ k ≤ 4, slot.stream ++ r.stage.toIssue = opsOfSubmit.drop k ∧ Stages c r slot k
  buf : r.stage ≠ .storeBuf → slot.ubuf = r.buf
  length : r.stage ≠ .storeBuf → r.stage ≠ .storeN → slot.n = r.n
  waits : ∀ upTo, r.stage = .syncing upTo → upTo = slot.issued
  quiet : r.stage = .copyOut → slot.stream = []

/-- What holds of the slots while every request that uses one is alone on it. -/
structure Staged (c : Config) (s : State) : Prop where
  alone : ∀ id id', Using s id → Using s id' → id % nSlot = id' % nSlot → id = id'
  lengths : ∀ i, (s.slots i).inited = true →
    (s.slots i).h.length = c.sz ∧ (s.slots i).d.length = c.sz
  made : ∀ id < s.subHead, (s.requests id).stage ≠ .prepare → (s.slotOf id).inited = true
  counts : ∀ i, (s.slots i).issued = (s.slots i).completed + (s.slots i).stream.length
  idle : ∀ i, (∀ id, Using s id → id % nSlot ≠ i) → (s.slots i).stream = []
  busy : ∀ id, Using s id → Progress c (s.requests id) (s.slotOf id)

variable {c : Config} {s t : State} {id : Nat}

theorem init_staged (c : Config) (mem : Buf → Bytes) : Staged c (.init mem) := by
  have unused : ∀ id, ¬ Using (.init mem) id := fun id using_ => Nat.not_lt_zero _ using_.1
  refine ⟨fun id _ using_ => absurd using_ (unused id), by nofun, by nofun, fun _ => rfl,
    fun _ _ => rfl, fun id using_ => absurd using_ (unused id)⟩

/-- A request that is done with its operations has its ciphertext in the slot. -/
theorem Progress.ciphertext {r : GRequest} {slot : GSlot} (progress : Progress c r slot)
    (issued : r.stage.toIssue = []) (empty : slot.stream = []) :
    slot.h.take (State.cp c r.n) = transform c r.content := by
  obtain ⟨k, inside, rest, stages⟩ := progress.ops
  rw [issued, empty, List.append_nil] at rest
  have all : 4 ≤ k := by
    have length := congrArg List.length rest
    rw [List.length_drop] at length
    change 0 = 4 - k at length
    omega
  exact stages.back (by omega)

/-- No operation of a submitted request is left once its event is recorded. -/
theorem Progress.recorded {r : GRequest} {slot : GSlot} (progress : Progress c r slot)
    (issued : r.stage.toIssue = []) (event : State.recorded slot = true) : slot.stream = [] := by
  obtain ⟨k, inside, rest, _⟩ := progress.ops
  rw [issued, List.append_nil] at rest
  unfold State.recorded at event
  have last : ∀ k ≤ 4, (!(opsOfSubmit.drop k).contains .record) = true →
      opsOfSubmit.drop k = [] := by decide
  rw [rest] at event ⊢
  exact last k inside event

/-- A step of one request, to the request and to its slot. -/
structure Stores (c : Config) (s t : State) (id : Nat) (slot : GSlot) (r : GRequest) : Prop where
  slots : t.slots = Function.update s.slots (id % nSlot) slot
  requests : t.requests = Function.update s.requests id r
  subHead : t.subHead = s.subHead
  inited : slot.inited = true
  lengths : slot.h.length = c.sz ∧ slot.d.length = c.sz
  counts : slot.issued = slot.completed + slot.stream.length

section Stores

variable {slot : GSlot} {r : GRequest} {i id' : Nat}

theorem Stores.request_self (stores : Stores c s t id slot r) : t.requests id = r := by
  rw [stores.requests, Function.update_self]

theorem Stores.request_other (stores : Stores c s t id slot r) (apart : id' ≠ id) :
    t.requests id' = s.requests id' := by
  rw [stores.requests, Function.update_of_ne apart]

theorem Stores.slot_self (stores : Stores c s t id slot r) : t.slots (id % nSlot) = slot := by
  rw [stores.slots, Function.update_self]

theorem Stores.slot_other (stores : Stores c s t id slot r) (apart : i ≠ id % nSlot) :
    t.slots i = s.slots i := by
  rw [stores.slots, Function.update_of_ne apart]

theorem Stores.using_other (stores : Stores c s t id slot r) (apart : id' ≠ id) :
    Using t id' ↔ Using s id' := by
  unfold Using
  rw [stores.subHead, stores.request_other apart]

theorem Stores.lengths_kept (stores : Stores c s t id slot r) (staged : Staged c s)
    (inited : (t.slots i).inited = true) :
    (t.slots i).h.length = c.sz ∧ (t.slots i).d.length = c.sz := by
  by_cases equal : i = id % nSlot
  · rw [equal, stores.slot_self]
    exact stores.lengths
  · rw [stores.slot_other equal] at inited ⊢
    exact staged.lengths i inited

theorem Stores.made_kept (stores : Stores c s t id slot r) (staged : Staged c s)
    (inside : id' < t.subHead) (stage : (t.requests id').stage ≠ .prepare) :
    (t.slotOf id').inited = true := by
  unfold State.slotOf
  by_cases equal : id' % nSlot = id % nSlot
  · rw [equal, stores.slot_self]
    exact stores.inited
  · have apart : id' ≠ id := fun same => equal (by rw [same])
    rw [stores.slot_other equal]
    rw [stores.request_other apart] at stage
    exact staged.made id' (stores.subHead ▸ inside) stage

theorem Stores.counts_kept (stores : Stores c s t id slot r) (staged : Staged c s) (i : Nat) :
    (t.slots i).issued = (t.slots i).completed + (t.slots i).stream.length := by
  by_cases equal : i = id % nSlot
  · rw [equal, stores.slot_self]
    exact stores.counts
  · rw [stores.slot_other equal]
    exact staged.counts i

end Stores

/-- A step of one request on its slot, after which it uses the slot alone. -/
theorem Staged.mine (staged : Staged c s) {slot : GSlot} {r : GRequest} (below : id < s.subHead)
    (slots : t.slots = Function.update s.slots (id % nSlot) slot)
    (requests : t.requests = Function.update s.requests id r) (subHead : t.subHead = s.subHead)
    (others : ∀ id', Using s id' → id' ≠ id → id' % nSlot ≠ id % nSlot)
    (made : slot.inited = true) (lengths : slot.h.length = c.sz ∧ slot.d.length = c.sz)
    (counts : slot.issued = slot.completed + slot.stream.length)
    (holds : r.stage.holds = true) (progress : Progress c r slot) : Staged c t := by
  have stores : Stores c s t id slot r := ⟨slots, requests, subHead, made, lengths, counts⟩
  have mine : Using t id := ⟨subHead ▸ below, by rw [stores.request_self]; exact holds⟩
  refine ⟨?_, fun _ => stores.lengths_kept staged, fun _ => stores.made_kept staged,
    stores.counts_kept staged, ?_, ?_⟩
  · intro id₁ id₂ first second same
    by_cases equal₁ : id₁ = id
    · by_cases equal₂ : id₂ = id
      · rw [equal₁, equal₂]
      · have before := (stores.using_other equal₂).mp second
        exact absurd (equal₁ ▸ same.symm) (others id₂ before equal₂)
    · have before := (stores.using_other equal₁).mp first
      by_cases equal₂ : id₂ = id
      · exact absurd (equal₂ ▸ same) (others id₁ before equal₁)
      · exact staged.alone id₁ id₂ before ((stores.using_other equal₂).mp second) same
  · intro i free
    have apart : i ≠ id % nSlot := fun equal => free id mine equal.symm
    rw [stores.slot_other apart]
    apply staged.idle i
    intro id' using_
    by_cases same : id' = id
    · exact same ▸ Ne.symm apart
    · exact free id' ((stores.using_other same).mpr using_)
  · intro id' using_
    unfold State.slotOf
    by_cases same : id' = id
    · subst same
      rw [stores.request_self, stores.slot_self]
      exact progress
    · have before := (stores.using_other same).mp using_
      rw [stores.request_other same, stores.slot_other (others id' before same)]
      exact staged.busy id' before

/-- A step of a request that does not use its slot afterwards. -/
theorem Staged.away (staged : Staged c s) {slot : GSlot} {r : GRequest}
    (slots : t.slots = Function.update s.slots (id % nSlot) slot)
    (requests : t.requests = Function.update s.requests id r) (subHead : t.subHead = s.subHead)
    (made : slot.inited = true) (lengths : slot.h.length = c.sz ∧ slot.d.length = c.sz)
    (counts : slot.issued = slot.completed + slot.stream.length)
    (holds : r.stage.holds = false)
    (kept : (∃ id', Using s id' ∧ id' ≠ id ∧ id' % nSlot = id % nSlot) → slot = s.slotOf id)
    (empty : (∀ id', Using s id' → id' ≠ id → id' % nSlot ≠ id % nSlot) → slot.stream = []) :
    Staged c t := by
  have stores : Stores c s t id slot r := ⟨slots, requests, subHead, made, lengths, counts⟩
  have usingOf : ∀ id', Using t id' ↔ id' ≠ id ∧ Using s id' := by
    intro id'
    by_cases same : id' = id
    · subst same
      unfold Using
      rw [stores.request_self, holds]
      simp
    · rw [stores.using_other same]
      simp [same]
  refine ⟨?_, fun _ => stores.lengths_kept staged, fun _ => stores.made_kept staged,
    stores.counts_kept staged, ?_, ?_⟩
  · intro id₁ id₂ first second same
    exact staged.alone id₁ id₂ ((usingOf id₁).mp first).2 ((usingOf id₂).mp second).2 same
  · intro i free
    by_cases equal : i = id % nSlot
    · rw [equal, stores.slot_self]
      apply empty
      intro id' using_ apart same
      exact free id' ((usingOf id').mpr ⟨apart, using_⟩) (same.trans equal.symm)
    · rw [stores.slot_other equal]
      apply staged.idle i
      intro id' using_
      by_cases same : id' = id
      · exact same ▸ Ne.symm equal
      · exact free id' ((usingOf id').mpr ⟨same, using_⟩)
  · intro id' using_
    obtain ⟨apart, before⟩ := (usingOf id').mp using_
    have progress := staged.busy id' before
    unfold State.slotOf at progress ⊢
    rw [stores.request_other apart]
    by_cases equal : id' % nSlot = id % nSlot
    · rw [equal, stores.slot_self, kept ⟨id', before, apart, equal⟩]
      rw [equal] at progress
      exact progress
    · rw [stores.slot_other equal]
      exact progress

theorem length_memcpy {dst src : Bytes} (fits : src.length ≤ dst.length) :
    (memcpy dst src).length = dst.length := by
  unfold memcpy
  rw [List.length_append, List.length_drop]
  omega

theorem take_memcpy {dst src : Bytes} : (memcpy dst src).take src.length = src := by
  unfold memcpy
  rw [List.take_left]

theorem ready_staged {h d : Bytes} (staged : Staged c s)
    (taken : s.ready c id h d = some t) : Staged c t := by
  unfold State.ready at taken
  dsimp only at taken
  split at taken
  · rename_i stage
    have unused : ¬ Using s id := by
      intro using_
      have holds := using_.2
      rw [stage] at holds
      cases holds
    have free : (∀ id', Using s id' → id' ≠ id → id' % nSlot ≠ id % nSlot) →
        (s.slotOf id).stream = [] := by
      intro others
      apply staged.idle
      intro id' using_
      by_cases same : id' = id
      · exact absurd (same ▸ using_) unused
      · exact others id' using_ same
    split at taken
    · rename_i inited
      rw [Option.some.injEq] at taken
      subst taken
      exact staged.away rfl rfl rfl inited (staged.lengths _ inited) (staged.counts _) rfl
        (fun _ => rfl) free
    · rename_i fresh
      split at taken
      · rename_i sizes
        rw [Option.some.injEq] at taken
        subst taken
        refine staged.away rfl rfl rfl rfl sizes (staged.counts _) rfl ?_ free
        -- a slot that somebody uses was made before
        rintro ⟨id', using_, _, same⟩
        have made := staged.made id' using_.1 (by
          intro prepare
          have holds := using_.2
          rw [prepare] at holds
          cases holds)
        unfold State.slotOf at made fresh
        rw [same] at made
        exact absurd made fresh
      · cases taken
  · cases taken

theorem copyIn_staged (staged : Staged c s) (below : id < s.subHead)
    (alone : AloneOnSlot s (.copyIn id)) (taken : s.copyIn c id = some t) : Staged c t := by
  unfold State.copyIn at taken
  dsimp only at taken
  split at taken
  · rename_i able
    obtain ⟨stage, fits⟩ := able
    rw [Option.some.injEq] at taken
    subst taken
    have made := staged.made id below (by rw [stage]; nofun)
    have lengths := staged.lengths _ made
    have size : ((s.mem (s.requests id).buf).take (State.cp c (s.requests id).n)).length =
        State.cp c (s.requests id).n := List.length_take_of_le fits
    have bounded : State.cp c (s.requests id).n ≤ c.sz := Nat.min_le_right ..
    have others : ∀ id', Using s id' → id' ≠ id → id' % nSlot ≠ id % nSlot := by
      intro id' using_ apart same
      have free := alone id' using_.1 apart same
      rw [using_.2] at free
      cases free
    have empty : (s.slotOf id).stream = [] := by
      apply staged.idle
      intro id' using_
      by_cases same : id' = id
      · rw [same, Using, stage] at using_
        cases using_.2
      · exact others id' using_ same
    refine staged.mine below rfl rfl rfl others made ?_ (staged.counts _) rfl ?_
    · rw [length_memcpy (by rw [size, show (s.slotOf id).h.length = c.sz from lengths.1]
                            exact bounded)]
      exact lengths
    · refine ⟨⟨0, by decide, ?_, ?_⟩, fun differs => absurd rfl differs,
        fun differs => absurd rfl differs, nofun, nofun⟩
      · dsimp only
        rw [empty]
        rfl
      · refine ⟨fun _ => ?_, nofun, by omega, by omega⟩
        dsimp only
        have whole := @take_memcpy (s.slotOf id).h
          ((s.mem (s.requests id).buf).take (State.cp c (s.requests id).n))
        rw [size] at whole
        exact whole
  · cases taken

/-- What a request that uses its slot knows of the others. -/
theorem Staged.others (staged : Staged c s) (using_ : Using s id) :
    ∀ id', Using s id' → id' ≠ id → id' % nSlot ≠ id % nSlot :=
  fun id' other apart same => apart (staged.alone id' id other using_ same)

theorem Staged.madeOf (staged : Staged c s) (using_ : Using s id) :
    (s.slotOf id).inited = true := by
  apply staged.made id using_.1
  intro prepare
  have holds := using_.2
  rw [prepare] at holds
  cases holds

theorem advance_staged (staged : Staged c s) (below : id < s.subHead)
    (taken : s.advance id = some t) : Staged c t := by
  unfold State.advance at taken
  dsimp only at taken
  have using_ : (s.requests id).stage.holds = true → Using s id := fun holds => ⟨below, holds⟩
  split at taken
  · rename_i stage
    have own := using_ (by rw [stage]; rfl)
    obtain ⟨⟨k, inside, rest, stages⟩, _, _, _, _⟩ := staged.busy id own
    rw [Option.some.injEq] at taken
    subst taken
    rw [stage] at rest
    refine staged.mine below rfl rfl rfl (staged.others own) (staged.madeOf own)
      (staged.lengths _ (staged.madeOf own)) (staged.counts _) rfl
      ⟨⟨k, inside, rest, stages.plain, stages.loaded, stages.masked, stages.back⟩,
        fun _ => rfl, fun _ differs => absurd rfl differs, nofun, nofun⟩
  · rename_i stage
    have own := using_ (by rw [stage]; rfl)
    obtain ⟨⟨k, inside, rest, stages⟩, buf, _, _, _⟩ := staged.busy id own
    rw [Option.some.injEq] at taken
    subst taken
    rw [stage] at rest buf
    refine staged.mine below rfl rfl rfl (staged.others own) (staged.madeOf own)
      (staged.lengths _ (staged.madeOf own)) (staged.counts _) rfl
      ⟨⟨k, inside, rest, stages.plain, stages.loaded, stages.masked, stages.back⟩,
        fun _ => buf (by nofun), fun _ _ => rfl, nofun, nofun⟩
  · rename_i op left stage
    have own := using_ (by rw [stage]; rfl)
    obtain ⟨⟨k, inside, rest, stages⟩, buf, length, _, _⟩ := staged.busy id own
    rw [stage] at rest buf length
    rw [Option.some.injEq] at taken
    subst taken
    have counts := staged.counts (id % nSlot)
    have counted : (s.slotOf id).issued + 1 =
        (s.slotOf id).completed + ((s.slotOf id).stream ++ [op]).length := by
      rw [List.length_append]
      change (s.slots (id % nSlot)).issued + 1 =
        (s.slots (id % nSlot)).completed + ((s.slots (id % nSlot)).stream.length + 1)
      omega
    have shifted : ((s.slotOf id).stream ++ [op]) ++ left = opsOfSubmit.drop k := by
      rw [List.append_assoc]
      exact rest
    have staying : Stages c (s.requests id) (s.slotOf id) k := stages
    by_cases last : left = []
    · rw [if_pos last]
      rw [last] at shifted
      exact staged.mine below rfl rfl rfl (staged.others own) (staged.madeOf own)
        (staged.lengths _ (staged.madeOf own)) counted rfl
        ⟨⟨k, inside, shifted, staying.plain, staying.loaded, staying.masked, staying.back⟩,
          fun _ => buf (by nofun), fun _ _ => length (by nofun) (by nofun), nofun, nofun⟩
    · rw [if_neg last]
      exact staged.mine below rfl rfl rfl (staged.others own) (staged.madeOf own)
        (staged.lengths _ (staged.madeOf own)) counted rfl
        ⟨⟨k, inside, shifted, staying.plain, staying.loaded, staying.masked, staying.back⟩,
          fun _ => buf (by nofun), fun _ _ => length (by nofun) (by nofun), nofun, nofun⟩
  · cases taken

theorem synchronize_staged (staged : Staged c s) (below : id < s.subHead)
    (taken : s.synchronize id = some t) : Staged c t := by
  unfold State.synchronize at taken
  split at taken
  · rename_i able
    have own : Using s id := ⟨below, by rw [able.1]; rfl⟩
    obtain ⟨⟨k, inside, rest, stages⟩, buf, length, _, _⟩ := staged.busy id own
    rw [able.1] at rest buf length
    rw [Option.some.injEq] at taken
    subst taken
    refine staged.mine below rfl rfl rfl (staged.others own) (staged.madeOf own)
      (staged.lengths _ (staged.madeOf own)) (staged.counts _) rfl
      ⟨⟨k, inside, rest, stages.plain, stages.loaded, stages.masked, stages.back⟩,
        fun _ => buf (by nofun), fun _ _ => length (by nofun) (by nofun), ?_, nofun⟩
    intro upTo same
    exact (GStage.syncing.inj same).symm
  · cases taken

theorem accelDone_staged (staged : Staged c s) (below : id < s.subHead)
    (taken : s.accelDone id = some t) : Staged c t := by
  unfold State.accelDone at taken
  split at taken
  · rename_i able
    split at taken
    · rename_i event
      have own : Using s id := ⟨below, by rw [able.1]; rfl⟩
      have progress := staged.busy id own
      have empty := progress.recorded (by rw [able.1]; rfl) event
      obtain ⟨⟨k, inside, rest, stages⟩, buf, length, _, _⟩ := progress
      rw [able.1] at rest buf length
      rw [Option.some.injEq] at taken
      subst taken
      exact staged.mine below rfl rfl rfl (staged.others own) (staged.madeOf own)
        (staged.lengths _ (staged.madeOf own)) (staged.counts _) rfl
        ⟨⟨k, inside, rest, stages.plain, stages.loaded, stages.masked, stages.back⟩,
          fun _ => buf (by nofun), fun _ _ => length (by nofun) (by nofun), nofun, fun _ => empty⟩
    · rw [Option.some.injEq] at taken
      exact taken ▸ staged
  · cases taken

/-- The result is copied out of a slot whose stream is empty. -/
theorem deliver_staged {buf : Buf} {bytes : Bytes} (staged : Staged c s) (own : Using s id)
    (empty : (s.slotOf id).stream = []) : Staged c (s.deliver id buf bytes) := by
  have same : (s.deliver id buf bytes).slots =
      Function.update s.slots (id % nSlot) (s.slotOf id) :=
    (Function.update_eq_self (id % nSlot) s.slots).symm
  exact staged.away same rfl rfl (staged.madeOf own)
    (staged.lengths _ (staged.madeOf own)) (staged.counts _) rfl (fun _ => rfl) (fun _ => empty)

/-- What `accel_done` finds behind its query. -/
theorem doneCopy_spec {out : Buf × Bytes} (staged : Staged c s) (below : id < s.subHead)
    (copy : s.doneCopy c id = some out) :
    Using s id ∧ (s.slotOf id).stream = [] ∧ out = ((s.requests id).buf,
      transform c (s.requests id).content) := by
  unfold State.doneCopy at copy
  dsimp only at copy
  split at copy
  · rename_i stage
    have own : Using s id := ⟨below, by rw [stage]; rfl⟩
    have progress := staged.busy id own
    have issued : (s.requests id).stage.toIssue = [] := by rw [stage]; rfl
    have empty := progress.quiet stage
    have bytes := progress.ciphertext issued empty
    have buf := progress.buf (by rw [stage]; nofun)
    have length := progress.length (by rw [stage]; nofun) (by rw [stage]; nofun)
    refine ⟨own, empty, ?_⟩
    rw [Option.some.injEq] at copy
    rw [← copy, buf, length, bytes]
  · cases copy

/-- What `accel_encrypt` finds behind its synchronization. -/
theorem encryptCopy_spec {out : Buf × Bytes} (staged : Staged c s) (below : id < s.subHead)
    (copy : s.encryptCopy c id = some out) :
    Using s id ∧ (s.slotOf id).stream = [] ∧ out = ((s.requests id).buf,
      transform c (s.requests id).content) := by
  unfold State.encryptCopy at copy
  dsimp only at copy
  split at copy
  · rename_i upTo stage
    split at copy
    · rename_i reached
      have own : Using s id := ⟨below, by rw [stage]; rfl⟩
      have progress := staged.busy id own
      have issued : (s.requests id).stage.toIssue = [] := by rw [stage]; rfl
      have counts := staged.counts (id % nSlot)
      change (s.slotOf id).issued = (s.slotOf id).completed + (s.slotOf id).stream.length at counts
      have whole := progress.waits upTo stage
      have empty : (s.slotOf id).stream = [] := List.length_eq_zero_iff.mp (by omega)
      have bytes := progress.ciphertext issued empty
      refine ⟨own, empty, ?_⟩
      rw [Option.some.injEq] at copy
      rw [← copy, bytes]
    · cases copy
  · cases copy

/-- One operation further on a slot that is in use. -/
theorem Progress.execute {r : GRequest} {slot : GSlot} {op : Op} {rest : List Op}
    (progress : Progress c r slot) (stream : slot.stream = op :: rest) :
    Progress c r { State.execute c { slot with stream := rest } op with
      completed := slot.completed + 1 } := by
  obtain ⟨⟨k, inside, left, stages⟩, buf, length, waits, quiet⟩ := progress
  rw [stream, List.cons_append] at left
  have more : k < 4 := by
    by_contra last
    have same : k = 4 := by omega
    subst same
    cases left
  have next : opsOfSubmit.drop k = op :: opsOfSubmit.drop (k + 1) := by
    rw [← left, ← List.tail_drop, ← left, List.tail_cons]
  have after : rest ++ r.stage.toIssue = opsOfSubmit.drop (k + 1) := by
    rw [next] at left
    exact (List.cons.inj left).2
  have turn : opsOfSubmit[k]? = some op := by
    have first := congrArg List.head? next
    rwa [List.head?_drop] at first
  refine ⟨⟨k + 1, more, ?_, ?_⟩, ?_, ?_, ?_, ?_⟩
  · cases op <;> exact after
  · match k, more, turn with
    | 0, _, turn =>
      cases turn
      exact ⟨fun _ => stages.plain (by omega), fun _ => stages.plain (by omega), by omega, by omega⟩
    | 1, _, turn =>
      cases turn
      have loaded := stages.loaded rfl
      refine ⟨by omega, by omega, fun _ => ?_, by omega⟩
      change (transform c slot.d).take _ = _
      rw [← loaded]
      exact Aes.aesCtr_take ..
    | 2, _, turn =>
      cases turn
      have masked := stages.masked (Or.inl rfl)
      exact ⟨by omega, by omega, fun _ => masked, fun _ => masked⟩
    | 3, _, turn =>
      cases turn
      exact ⟨by omega, by omega, by omega, fun _ => stages.back (by omega)⟩
  · cases op <;> exact buf
  · cases op <;> exact length
  · cases op <;> exact waits
  · intro stage
    have empty := quiet stage
    rw [stream] at empty
    cases empty

theorem device_staged {i : Nat} (staged : Staged c s) (taken : s.device c i = some t) :
    Staged c t := by
  unfold State.device at taken
  split at taken
  · cases taken
  · rename_i op rest stream
    -- a stream with work is that of a request
    obtain ⟨id, own, rfl⟩ : ∃ id, Using s id ∧ id % nSlot = i := by
      by_contra unused
      push Not at unused
      have empty := staged.idle i unused
      rw [stream] at empty
      cases empty
    rw [Option.some.injEq] at taken
    subst taken
    have made := staged.madeOf own
    obtain ⟨hostLength, deviceLength⟩ := staged.lengths _ made
    have counts := staged.counts (id % nSlot)
    rw [stream, List.length_cons] at counts
    refine staged.mine (r := s.requests id) own.1 rfl
      (Function.update_eq_self id s.requests).symm rfl (staged.others own) ?_ ?_ ?_ own.2
      ((staged.busy id own).execute stream)
    · cases op <;> exact made
    · cases op with
      | copyToDevice => exact ⟨hostLength, hostLength⟩
      | aesCtr => exact ⟨hostLength, (Aes.length_aesCtr ..).trans deviceLength⟩
      | copyToHost => exact ⟨deviceLength, deviceLength⟩
      | record => exact ⟨hostLength, deviceLength⟩
    · cases op <;>
        · change (s.slots (id % nSlot)).issued =
            (s.slots (id % nSlot)).completed + 1 + rest.length
          omega

theorem submit_staged {buf : Buf} {n : Nat} {sync : Bool} (staged : Staged c s) :
    Staged c (s.accelSubmit buf n sync) := by
  have other : ∀ id, id ≠ s.subHead → (s.accelSubmit buf n sync).requests id = s.requests id :=
    fun id apart => Function.update_of_ne apart ..
  have here : (s.accelSubmit buf n sync).requests s.subHead = ⟨buf, n, sync, .prepare, []⟩ :=
    Function.update_self ..
  have usingOf : ∀ id, Using (s.accelSubmit buf n sync) id ↔ Using s id := by
    intro id
    unfold Using
    by_cases new : id = s.subHead
    · rw [new, here]
      simp [GStage.holds]
    · rw [other id new]
      have below : id < (s.accelSubmit buf n sync).subHead ↔ id < s.subHead := by
        change id < s.subHead + 1 ↔ _
        omega
      rw [below]
  refine ⟨?_, staged.lengths, ?_, staged.counts, ?_, ?_⟩
  · intro id id' first second same
    exact staged.alone id id' ((usingOf id).mp first) ((usingOf id').mp second) same
  · intro id below stage
    by_cases new : id = s.subHead
    · rw [new, here] at stage
      exact absurd rfl stage
    · rw [other id new] at stage
      change id < s.subHead + 1 at below
      exact staged.made id (by omega) stage
  · intro i free
    exact staged.idle i fun id using_ => free id ((usingOf id).mpr using_)
  · intro id using_
    have old := (usingOf id).mp using_
    rw [other id (Nat.ne_of_lt old.1)]
    exact staged.busy id old

theorem user_staged {buf : Buf} {bytes : Bytes} (staged : Staged c s) :
    Staged c (s.user buf bytes) :=
  ⟨staged.alone, staged.lengths, staged.made, staged.counts, staged.idle, staged.busy⟩

theorem step_staged {a : GpuAct} (staged : Staged c s) (alone : AloneOnSlot s a)
    (taken : step c s a = some t) : Staged c t := by
  cases a with
  | submit buf n sync =>
    rw [step, Option.some.injEq] at taken
    exact taken ▸ submit_staged staged
  | ready id h d =>
    rw [step] at taken
    split at taken
    · exact ready_staged staged taken
    · cases taken
  | copyIn id =>
    rw [step] at taken
    split at taken
    · exact copyIn_staged staged (by assumption) alone taken
    · cases taken
  | advance id =>
    rw [step] at taken
    split at taken
    · exact advance_staged staged (by assumption) taken
    · cases taken
  | device i => exact device_staged staged taken
  | done id =>
    rw [step] at taken
    split at taken
    · exact accelDone_staged staged (by assumption) taken
    · cases taken
  | copyOut id =>
    rw [step] at taken
    split at taken
    · rename_i below
      obtain ⟨out, copy, rfl⟩ := Option.map_eq_some_iff.mp taken
      obtain ⟨own, empty, _⟩ := doneCopy_spec staged below copy
      exact deliver_staged staged own empty
    · cases taken
  | synchronize id =>
    rw [step] at taken
    split at taken
    · exact synchronize_staged staged (by assumption) taken
    · cases taken
  | finish id =>
    rw [step] at taken
    split at taken
    · rename_i below
      obtain ⟨out, copy, rfl⟩ := Option.map_eq_some_iff.mp taken
      obtain ⟨own, empty, _⟩ := encryptCopy_spec staged below copy
      exact deliver_staged staged own empty
    · cases taken
  | user buf bytes =>
    rw [step, Option.some.injEq] at taken
    exact taken ▸ user_staged staged

/-- A request that uses its slot is waited for. -/
theorem Using.waiting (using_ : Using s id) : Waiting s id := by
  refine ⟨using_.1, ?_⟩
  intro returned
  have holds := using_.2
  rw [returned] at holds
  cases holds

theorem Staged.ownCall (staged : Staged c s) (a : GpuAct) : OwnCall c s a := by
  intro id buf bytes copy
  cases a with
  | copyOut id' =>
    rw [copied] at copy
    split at copy
    · rename_i below
      obtain ⟨out, found, same⟩ := Option.map_eq_some_iff.mp copy
      obtain ⟨own, _, rfl⟩ := doneCopy_spec staged below found
      cases same
      exact ⟨own.waiting, rfl, rfl⟩
    · cases copy
  | finish id' =>
    rw [copied] at copy
    split at copy
    · rename_i below
      obtain ⟨out, found, same⟩ := Option.map_eq_some_iff.mp copy
      obtain ⟨own, _, rfl⟩ := encryptCopy_spec staged below found
      cases same
      exact ⟨own.waiting, rfl, rfl⟩
    · cases copy
  | submit | ready | copyIn | advance | device | done | synchronize | user => cases copy

/-- As long as nobody copies into a slot that another request uses, whatever is copied
into a caller's buffer is the ciphertext of its own request, in the call that waits for
it. -/
theorem own_ciphertext (c : Config) (mem : Buf → Bytes) (acts : List GpuAct)
    (alone : Machine.Guarded (step c) AloneOnSlot (.init mem) acts) :
    Machine.Guarded (step c) (Owned c) (.init mem) acts ∧
      Machine.Guarded (step c) (OwnCall c) (.init mem) acts := by
  have all : Machine.Always (step c) (Staged c) (.init mem) acts :=
    Machine.always_of_invariant (fun _ _ _ staged alone taken => step_staged staged alone taken)
      (init_staged c mem) alone
  constructor
  · apply all.guards
    intro s a staged id buf bytes copy
    obtain ⟨waiting, own, rest⟩ := staged.ownCall a id buf bytes copy
    exact ⟨id, waiting, own, rest⟩
  · exact all.guards fun s a staged => staged.ownCall a

/-- Every call of a request from the copy into its slot to its operations on the stream. -/
def fill (id : Nat) : List GpuAct := .copyIn id :: List.replicate 6 (.advance id)

/-- The smallest block, and three callers with sixteen bytes each. -/
def smallest : Config := ⟨16, by decide, by decide⟩

def plaintexts (buf : Buf) : Bytes := List.replicate 16 (UInt8.ofNat buf)

def unset : Bytes := List.replicate 16 0

/-- One caller that polls and one that waits, each on its own slot. -/
def twoCallers : List GpuAct :=
  [.submit 0 16 false, .submit 1 16 true, .ready 1 unset unset, .ready 0 unset unset] ++ fill 0 ++
    fill 1 ++ [.done 0, .synchronize 1] ++ List.replicate 4 (.device 1) ++ [.finish 1] ++
    List.replicate 4 (.device 0) ++ [.done 0, .copyOut 0]

theorem twoCallers_owned :
    Machine.Guarded (step smallest) (Owned smallest) (.init plaintexts) twoCallers ∧
      Machine.Guarded (step smallest) (OwnCall smallest) (.init plaintexts) twoCallers :=
  own_ciphertext smallest plaintexts twoCallers (by decide +kernel)

/-- The first request is through its stream when the one with the 256th id after it copies
into the same slot. -/
def wrapped : List GpuAct :=
  [.submit 0 16 false, .ready 0 unset unset] ++ fill 0 ++ List.replicate 4 (.device 0) ++
    [.done 0] ++ List.replicate 256 (.submit 1 16 false) ++
    [.ready nSlot unset unset, .copyIn nSlot]

/-- Where that ends. -/
def afterWrap : State :=
  (Machine.run (step smallest) (.init plaintexts) wrapped).get (by decide +kernel)

/-- The first caller gets the plaintext of the other. -/
theorem wrapped_leaks :
    Machine.run (step smallest) (.init plaintexts) wrapped = some afterWrap ∧
      copied smallest afterWrap (.copyOut 0) = some (0, 0, plaintexts 1) ∧
      ¬ Machine.Guarded (step smallest) (Owned smallest) (.init plaintexts)
        (wrapped ++ [.copyOut 0]) := by
  have reached : Machine.run (step smallest) (.init plaintexts) wrapped = some afterWrap :=
    (Option.some_get _).symm
  have copies : copied smallest afterWrap (.copyOut 0) = some (0, 0, plaintexts 1) := by
    decide +kernel
  refine ⟨reached, copies, ?_⟩
  intro guarded
  obtain ⟨q, ⟨below, _⟩, buf, same⟩ :=
    ((Machine.Guarded.append reached).mp guarded).2.1 0 0 (plaintexts 1) copies
  -- the only request with this buffer is the first one
  have drawn : afterWrap.subHead = nSlot + 1 := by decide +kernel
  have others : ∀ q < nSlot + 1, q ≠ 0 → (afterWrap.requests q).buf ≠ 0 := by decide +kernel
  by_cases first : q = 0
  · subst first
    revert same
    decide +kernel
  · exact others q (drawn ▸ below) first buf

end TransparentOffload.LibAccelGpu
