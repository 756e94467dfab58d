import Mathlib.Data.Finset.Prod
import TransparentOffload.ConflictDetector
import TransparentOffload.Lib.Counters

set_option autoImplicit false

/- Each of the protocols `detect`, `serial` and `lock` commits the value that is
there plus one, whatever happened while the coroutine was parked. -/
namespace TransparentOffload.ConflictDetector

/-- The iterations below `n` of coroutine `id` that fall on key `k`. -/
def Params.hits (p : Params) (k id n : Nat) : Nat :=
  ((Finset.range n).filter fun i => p.key id i = k).card

theorem Params.hits_succ (p : Params) (k id n : Nat) :
    p.hits k id (n + 1) = p.hits k id n + if p.key id n = k then 1 else 0 := by
  unfold hits
  rw [Finset.range_add_one, Finset.filter_insert]
  split
  · rw [Finset.card_insert_of_notMem (by simp)]
  · rfl

theorem Params.hits_le (p : Params) (k id n : Nat) : p.hits k id n ≤ n := by
  have le := Finset.card_filter_le (Finset.range n) fun i => p.key id i = k
  rwa [Finset.card_range] at le

theorem Params.key_lt (p : Params) (id i : Nat) : p.key id i < p.nkey := Nat.mod_lt _ p.nkey_pos

/-- The committed iterations of all coroutines that fall on key `k`. -/
def State.progress (p : Params) (s : State) (k : Nat) : Nat :=
  ∑ id ∈ Finset.range p.c, p.hits k id ((s.coros id).committed p.mode)

/-- What holds of a coroutine: where it is in its loop, and that what it has read
agrees with the commits on its key. -/
structure Coro.Fits (p : Params) (s : State) (id : Nat) (co : Coro) : Prop where
  within : co.at_ ≠ .head → (co.i : Int) < p.nIters
  reached : co.i ≤ p.nIters.toNat
  finished : co.finished = true → co.at_ = .head ∧ ¬ (co.i : Int) < p.nIters
  read : p.mode = .detect → ∀ v ver, co.at_ = .offload v ver →
    v ≤ s.commitsOn (p.key id co.i) ∧ ver = v % 2 ^ 64
  held : p.mode = .lock → ∀ v ver, co.at_ = .offload v ver →
    v = s.commitsOn (p.key id co.i) ∧ s.keylock (p.key id co.i) = true
  alone : p.mode = .lock → ∀ id' v ver v' ver', id' ≠ id → co.at_ = .offload v ver →
    (s.coros id').at_ = .offload v' ver' → p.key id co.i ≠ p.key id' (s.coros id').i

/-- Value, version and commits of every key agree. -/
structure Coupled (p : Params) (s : State) : Prop where
  entry : ∀ k, s.cache k = ⟨s.commitsOn k, s.commitsOn k % 2 ^ 64⟩
  total : ∑ k ∈ Finset.range p.nkey, s.commitsOn k = s.gCommits
  progress : ∀ k, s.commitsOn k = s.progress p k
  fits : ∀ id, (s.coros id).Fits p s id

theorem init_coupled (p : Params) : Coupled p .init := by
  refine ⟨?_, ?_, ?_, fun id => ⟨?_, ?_, ?_, ?_, ?_, ?_⟩⟩
  all_goals simp [State.init, State.progress, Coro.committed, Params.hits]

variable {p : Params} {s t : State}

/-- A coroutine has never made more commits than it has iterations. -/
theorem Coupled.committed_le (coupled : Coupled p s) (id : Nat) :
    (s.coros id).committed p.mode ≤ p.nIters.toNat := by
  have reached := (coupled.fits id).reached
  have within := (coupled.fits id).within
  unfold Coro.committed
  split
  · rename_i parked
    have inside := within (by rw [parked]; exact nofun)
    omega
  · exact reached

/-- The versions do not wrap: the loops make fewer than `2 ^ 64` commits. -/
theorem Coupled.commits_lt (coupled : Coupled p s) (k : Nat) : s.commitsOn k < 2 ^ 64 := by
  have each : ∀ id ∈ Finset.range p.c,
      p.hits k id ((s.coros id).committed p.mode) ≤ p.nIters.toNat :=
    fun id _ => Nat.le_trans (p.hits_le k id _) (coupled.committed_le id)
  have sum := Finset.sum_le_card_nsmul _ _ _ each
  rw [Finset.card_range, Nat.nsmul_eq_mul] at sum
  have iters : p.nIters.toNat ≤ 2 ^ 31 := by
    have lt := p.nIters_lt
    omega
  have product := Nat.mul_le_mul p.c_le iters
  have small : maxSlot * 2 ^ 31 < 2 ^ 64 := by decide
  rw [coupled.progress k]
  unfold State.progress
  omega

/-- A step of one coroutine that leaves its commits as they were. -/
theorem progress_kept {id : Nat} {co : Coro} (coros : t.coros = Function.update s.coros id co)
    (same : co.committed p.mode = (s.coros id).committed p.mode) (k : Nat) :
    t.progress p k = s.progress p k := by
  apply Finset.sum_congr rfl
  intro id' _
  rw [coros]
  by_cases here : id' = id
  · rw [here, Function.update_self, same]
  · rw [Function.update_of_ne here]

/-- A step of one coroutine that commits its iteration `n`. -/
theorem progress_raised {id n : Nat} {co : Coro} (inside : id < p.c)
    (coros : t.coros = Function.update s.coros id co)
    (before : (s.coros id).committed p.mode = n) (after : co.committed p.mode = n + 1) (k : Nat) :
    t.progress p k = s.progress p k + if p.key id n = k then 1 else 0 := by
  have terms : ∀ id', p.hits k id' ((t.coros id').committed p.mode) =
      Function.update (fun id' => p.hits k id' ((s.coros id').committed p.mode)) id
        (p.hits k id ((s.coros id).committed p.mode) + if p.key id n = k then 1 else 0) id' := by
    intro id'
    rw [coros]
    by_cases here : id' = id
    · rw [here, Function.update_self, Function.update_self, after, before, p.hits_succ]
    · rw [Function.update_of_ne here, Function.update_of_ne here]
  unfold State.progress
  rw [Finset.sum_congr rfl fun id' _ => terms id']
  exact Counters.sum_raise inside (fun id' => p.hits k id' ((s.coros id').committed p.mode)) _

/-- When one coroutine moves, the others still fit: on their keys the commits only
grow, and in the lock mode nothing changes. -/
theorem fits_update {id : Nat} {co : Coro} (fits : ∀ id, (s.coros id).Fits p s id)
    (coros : t.coros = Function.update s.coros id co) (moved : co.Fits p t id)
    (more : ∀ k, s.commitsOn k ≤ t.commitsOn k)
    (kept : p.mode = .lock → ∀ id' v ver, id' ≠ id → (s.coros id').at_ = .offload v ver →
      t.commitsOn (p.key id' (s.coros id').i) = s.commitsOn (p.key id' (s.coros id').i) ∧
        (s.keylock (p.key id' (s.coros id').i) = true →
          t.keylock (p.key id' (s.coros id').i) = true)) :
    ∀ id, (t.coros id).Fits p t id := by
  have here : t.coros id = co := by rw [coros, Function.update_self]
  have other : ∀ id', id' ≠ id → t.coros id' = s.coros id' := by
    intro id' apart
    rw [coros, Function.update_of_ne apart]
  intro id'
  by_cases same : id' = id
  · rw [same, here]
    exact moved
  have old := fits id'
  rw [other id' same]
  refine ⟨old.within, old.reached, old.finished, ?_, ?_, ?_⟩
  · intro detect v ver at_
    obtain ⟨value, version⟩ := old.read detect v ver at_
    exact ⟨Nat.le_trans value (more _), version⟩
  · intro lock v ver at_
    obtain ⟨value, locked⟩ := old.held lock v ver at_
    obtain ⟨commits, locks⟩ := kept lock id' v ver same at_
    exact ⟨value.trans commits.symm, locks locked⟩
  · intro lock id₂ v ver v' ver' apart first second key
    by_cases same₂ : id₂ = id
    · rw [same₂, here] at second key
      exact moved.alone lock id' v' ver' v ver same second
        ((congrArg Coro.at_ (other id' same)).trans first)
        (by rw [other id' same]; exact key.symm)
    · rw [other id₂ same₂] at second key
      exact old.alone lock id₂ v ver v' ver' apart first second key

/-- A coroutine moves and commits nothing; a lock may be taken. -/
theorem Coupled.moved (coupled : Coupled p s) (id : Nat) {co : Coro}
    (coros : t.coros = Function.update s.coros id co) (fits : co.Fits p t id)
    (same : co.committed p.mode = (s.coros id).committed p.mode)
    (cache : t.cache = s.cache) (commitsOn : t.commitsOn = s.commitsOn)
    (gCommits : t.gCommits = s.gCommits)
    (locks : ∀ k, s.keylock k = true → t.keylock k = true) : Coupled p t := by
  refine ⟨?_, ?_, ?_, fits_update coupled.fits coros fits ?_ ?_⟩
  · rw [cache, commitsOn]
    exact coupled.entry
  · rw [commitsOn, gCommits]
    exact coupled.total
  · intro k
    rw [commitsOn, progress_kept coros same, coupled.progress k]
  · intro k
    rw [commitsOn]
  · intro _ id' _ _ _ _
    rw [commitsOn]
    exact ⟨rfl, locks _⟩

/-- A coroutine commits its iteration `n` with the value that is there. -/
theorem Coupled.commits (coupled : Coupled p s) {id n : Nat} {co : Coro} (inside : id < p.c)
    (coros : t.coros = Function.update s.coros id co) (fits : co.Fits p t id)
    (before : (s.coros id).committed p.mode = n) (after : co.committed p.mode = n + 1)
    (cache : t.cache = (s.commit (p.key id n) (s.cache (p.key id n)).val).cache)
    (commitsOn : t.commitsOn = (s.commit (p.key id n) (s.cache (p.key id n)).val).commitsOn)
    (gCommits : t.gCommits = s.gCommits + 1)
    (locks : ∀ k, k ≠ p.key id n → t.keylock k = s.keylock k)
    (apart : p.mode = .lock → ∀ id' v ver, id' ≠ id → (s.coros id').at_ = .offload v ver →
      p.key id' (s.coros id').i ≠ p.key id n) : Coupled p t := by
  have raised : t.commitsOn =
      Function.update s.commitsOn (p.key id n) (s.commitsOn (p.key id n) + 1) := commitsOn
  refine ⟨?_, ?_, ?_, fits_update coupled.fits coros fits ?_ ?_⟩
  · intro k
    rw [cache, raised]
    change Function.update s.cache _ _ k = _
    by_cases same : k = p.key id n
    · rw [same, Function.update_self, Function.update_self, coupled.entry]
      simp only [Entry.mk.injEq, true_and]
      omega
    · rw [Function.update_of_ne same, Function.update_of_ne same]
      exact coupled.entry k
  · rw [raised, Counters.sum_raise (p.key_lt id n) s.commitsOn 1, coupled.total, gCommits]
  · intro k
    rw [progress_raised inside coros before after, raised, ← coupled.progress k]
    by_cases same : k = p.key id n
    · rw [same, Function.update_self, if_pos rfl]
    · rw [Function.update_of_ne same, if_neg (Ne.symm same)]
      omega
  · intro k
    rw [raised]
    by_cases same : k = p.key id n
    · rw [same, Function.update_self]
      omega
    · rw [Function.update_of_ne same]
  · intro lock id' v ver other at_
    have same := apart lock id' v ver other at_
    rw [raised, Function.update_of_ne same, locks _ same]
    exact ⟨rfl, fun locked => locked⟩

/-- Steps that leave the places of the coroutines, the entries and the locks alone. -/
theorem Coupled.same (coupled : Coupled p s) (cache : t.cache = s.cache)
    (keylock : t.keylock = s.keylock) (gCommits : t.gCommits = s.gCommits)
    (commitsOn : t.commitsOn = s.commitsOn)
    (coros : ∀ id, (t.coros id).i = (s.coros id).i ∧ (t.coros id).at_ = (s.coros id).at_ ∧
      (t.coros id).finished = (s.coros id).finished) : Coupled p t := by
  have i : ∀ id, (t.coros id).i = (s.coros id).i := fun id => (coros id).1
  have at_ : ∀ id, (t.coros id).at_ = (s.coros id).at_ := fun id => (coros id).2.1
  have finished : ∀ id, (t.coros id).finished = (s.coros id).finished := fun id => (coros id).2.2
  refine ⟨?_, ?_, ?_, ?_⟩
  · rw [cache, commitsOn]
    exact coupled.entry
  · rw [commitsOn, gCommits]
    exact coupled.total
  · intro k
    rw [commitsOn, coupled.progress k]
    unfold State.progress Coro.committed
    simp only [i, at_]
  · intro id
    have fits := coupled.fits id
    refine ⟨?_, ?_, ?_, ?_, ?_, ?_⟩
    · rw [i, at_]
      exact fits.within
    · rw [i]
      exact fits.reached
    · rw [i, at_, finished]
      exact fits.finished
    · rw [i, at_, commitsOn]
      exact fits.read
    · rw [i, at_, commitsOn, keylock]
      exact fits.held
    · intro lock id'
      rw [i, at_, i, at_]
      exact fits.alone lock id'

/-- A coroutine that is not in an offload only has its loop to fit. -/
theorem Coro.Fits.of_not_offload {co : Coro} {id : Nat}
    (within : co.at_ ≠ .head → (co.i : Int) < p.nIters) (reached : co.i ≤ p.nIters.toNat)
    (finished : co.finished = true → co.at_ = .head ∧ ¬ (co.i : Int) < p.nIters)
    (free : ∀ v ver, co.at_ ≠ .offload v ver) : co.Fits p s id :=
  ⟨within, reached, finished, fun _ v ver at_ => absurd at_ (free v ver),
    fun _ v ver at_ => absurd at_ (free v ver), fun _ _ v ver _ _ _ at_ => absurd at_ (free v ver)⟩

theorem Coro.committed_of_not_offload {co : Coro} (mode : Mode)
    (free : ∀ v ver, co.at_ ≠ .offload v ver) : co.committed mode = co.i := by
  unfold committed
  split
  · rename_i v ver at_
    exact absurd at_ (free v ver)
  · rfl

theorem Coro.committed_of_not_serial {mode : Mode} (other : mode ≠ .serial) (co : Coro) :
    co.committed mode = co.i := by
  unfold committed
  split
  · exact absurd rfl other
  · rfl

/-- An iteration that starts reads what is there. -/
theorem iterate_coupled (speculates : p.mode ≠ .naive) (coupled : Coupled p s) {id now : Nat}
    (inside : id < p.c) (free : ∀ v ver, (s.coros id).at_ ≠ .offload v ver)
    (more : ((s.coros id).i : Int) < p.nIters) :
    Coupled p (s.iterate p id (s.coros id).i now) := by
  have before := Coro.committed_of_not_offload p.mode free
  have reached := (coupled.fits id).reached
  unfold State.iterate
  dsimp only
  split
  case h_1 lock =>
    split
    · refine coupled.moved id rfl ?_ ?_ rfl rfl rfl fun _ locked => locked
      · exact .of_not_offload (fun _ => more) reached nofun nofun
      · rw [before]
        exact Coro.committed_of_not_offload _ nofun
    · rename_i unlocked
      refine coupled.moved id rfl ⟨fun _ => more, reached, nofun, ?_, ?_, ?_⟩ ?_
        rfl rfl rfl ?_
      · rw [lock]
        exact nofun
      · rintro _ v ver at_
        cases at_
        refine ⟨?_, Function.update_self ..⟩
        exact congrArg Entry.val (coupled.entry _)
      · rintro _ id' v ver v' ver' apart _ there same
        rw [State.coroOffload_other apart] at there same
        have locked := ((coupled.fits id').held lock v' ver' there).2
        rw [← same] at locked
        exact unlocked locked
      · rw [before, lock]
        exact Coro.committed_of_not_serial (by decide) _
      · intro k locked
        by_cases same : k = p.key id (s.coros id).i
        · rw [same]
          exact Function.update_self ..
        · exact (Function.update_of_ne same ..).trans locked
  case h_2 serial =>
    refine coupled.commits (n := (s.coros id).i) inside rfl
      ⟨fun _ => more, reached, nofun, ?_, ?_, ?_⟩ before ?_ rfl rfl rfl (fun _ _ => rfl) ?_
    all_goals rw [serial]
    · exact nofun
    · exact nofun
    · exact nofun
    · rfl
    · exact nofun
  case h_3 naive => exact absurd naive speculates
  case h_4 detect =>
    refine coupled.moved id rfl ⟨fun _ => more, reached, nofun, ?_, ?_, ?_⟩ ?_ rfl rfl rfl
      fun _ locked => locked
    · rintro _ v ver at_
      cases at_
      rw [coupled.entry]
      exact ⟨Nat.le_refl _, rfl⟩
    · rw [detect]
      exact nofun
    · rw [detect]
      exact nofun
    · rw [before, detect]
      exact Coro.committed_of_not_serial (by decide) _

/-- The commit after the offload finds what the coroutine has read, or reads again. -/
theorem afterOffload_coupled (speculates : p.mode ≠ .naive) (coupled : Coupled p s)
    {id v ver : Nat} (inside : id < p.c) (at_ : (s.coros id).at_ = .offload v ver) :
    Coupled p (s.afterOffload p id (s.coros id).i v ver) := by
  have fits := coupled.fits id
  have more : ((s.coros id).i : Int) < p.nIters := fits.within (by rw [at_]; exact nofun)
  have next : ∀ t : State, Coro.Fits p t id ⟨(s.coros id).i + 1, .head, false, false⟩ := by
    intro t
    refine .of_not_offload ?_ ?_ nofun nofun
    · exact fun apart => absurd rfl apart
    · show (s.coros id).i + 1 ≤ p.nIters.toNat
      omega
  have value : (s.cache (p.key id (s.coros id).i)).val = s.commitsOn (p.key id (s.coros id).i) :=
    congrArg Entry.val (coupled.entry _)
  unfold State.afterOffload
  dsimp only
  split
  case h_1 lock =>
    have held := (fits.held lock v ver at_).1
    rw [← value] at held
    refine coupled.commits (n := (s.coros id).i) inside rfl (next _) ?_ ?_ ?_ ?_ rfl ?_ ?_
    · rw [lock]
      exact Coro.committed_of_not_serial (by decide) _
    · rw [lock]
      exact Coro.committed_of_not_serial (by decide) _
    · rw [held]
      rfl
    · rfl
    · exact fun k other => Function.update_of_ne other ..
    · intro _ id' v' ver' other there same
      exact fits.alone lock id' v ver v' ver' other at_ there same.symm
  case h_2 serial =>
    refine coupled.moved id rfl (next _) ?_ rfl rfl rfl fun _ locked => locked
    have before : (s.coros id).committed p.mode = (s.coros id).i + 1 := by
      rw [serial]
      unfold Coro.committed
      rw [at_]
    rw [before]
    exact Coro.committed_of_not_offload _ nofun
  case h_3 naive => exact absurd naive speculates
  case h_4 detect =>
    have before : (s.coros id).committed p.mode = (s.coros id).i := by
      rw [detect]
      exact Coro.committed_of_not_serial (by decide) _
    have alone : p.mode = .lock → ∀ id' v ver, id' ≠ id → (s.coros id').at_ = .offload v ver →
        p.key id' (s.coros id').i ≠ p.key id (s.coros id).i := by
      rw [detect]
      exact nofun
    split
    · refine coupled.commits (n := (s.coros id).i) inside rfl (next _) before ?_ rfl rfl rfl
        (fun _ _ => rfl) alone
      exact Coro.committed_of_not_offload _ nofun
    · rename_i valid
      -- the versions agree and do not wrap, so the value is the one that was read
      have same : v = (s.cache (p.key id (s.coros id).i)).val := by
        obtain ⟨low, version⟩ := fits.read detect v ver at_
        have high := coupled.commits_lt (p.key id (s.coros id).i)
        rw [not_not, coupled.entry] at valid
        rw [coupled.entry]
        dsimp only at valid ⊢
        omega
      refine coupled.commits (n := (s.coros id).i) inside rfl (next _) before ?_ ?_ rfl rfl
        (fun _ _ => rfl) alone
      · exact Coro.committed_of_not_offload _ nofun
      · rw [same]
        rfl

theorem loopHead_coupled (speculates : p.mode ≠ .naive) (coupled : Coupled p s) {id now : Nat}
    (inside : id < p.c) (head : (s.coros id).at_ = .head) : Coupled p (s.loopHead p id now) := by
  have free : ∀ v ver, (s.coros id).at_ ≠ .offload v ver := by
    rw [head]
    exact nofun
  unfold State.loopHead
  dsimp only
  split
  · rename_i more
    exact iterate_coupled speculates coupled inside free more
  · rename_i over_
    refine coupled.moved id rfl ?_ ?_ rfl rfl rfl fun _ locked => locked
    · refine .of_not_offload ?_ (coupled.fits id).reached (fun _ => ⟨rfl, over_⟩) nofun
      exact fun apart => absurd rfl apart
    · rw [Coro.committed_of_not_offload _ free]
      exact Coro.committed_of_not_offload _ nofun

/-- Whatever a coroutine does in a slice, values, versions and commits agree. -/
theorem body_coupled (speculates : p.mode ≠ .naive) (coupled : Coupled p s) {id : Nat}
    (inside : id < p.c) (now : Nat) : Coupled p (s.body p id now) := by
  unfold State.body
  split
  · rename_i head
    exact loopHead_coupled speculates coupled inside head
  · rename_i waits
    have fits := coupled.fits id
    refine iterate_coupled speculates coupled inside ?_ (fits.within ?_)
    all_goals
      rw [waits]
      exact nofun
  · rename_i v ver at_
    refine loopHead_coupled speculates (afterOffload_coupled speculates coupled inside at_)
      inside ?_
    unfold State.afterOffload State.setCoro
    dsimp only
    rw [Function.update_self]

/-- A slice touches no coroutine but its own, and not the loops of `run`. -/
theorem body_frame (p : Params) (s : State) (id now : Nat) :
    (s.body p id now).pc = s.pc ∧ ∀ id', id' ≠ id → (s.body p id now).coros id' = s.coros id' := by
  have start : ∀ (s : State) (i : Nat), (s.iterate p id i now).pc = s.pc ∧
      ∀ id', id' ≠ id → (s.iterate p id i now).coros id' = s.coros id' := by
    intro s i
    unfold State.iterate
    dsimp only
    split
    · split <;> exact ⟨rfl, fun id' apart => Function.update_of_ne apart ..⟩
    all_goals exact ⟨rfl, fun id' apart => Function.update_of_ne apart ..⟩
  have head : ∀ s : State, (s.loopHead p id now).pc = s.pc ∧
      ∀ id', id' ≠ id → (s.loopHead p id now).coros id' = s.coros id' := by
    intro s
    unfold State.loopHead
    dsimp only
    split
    · exact start s _
    · exact ⟨rfl, fun id' apart => Function.update_of_ne apart ..⟩
  have after : ∀ i v ver, (s.afterOffload p id i v ver).pc = s.pc ∧
      ∀ id', id' ≠ id → (s.afterOffload p id i v ver).coros id' = s.coros id' := by
    intro i v ver
    unfold State.afterOffload
    dsimp only
    split
    case h_4 =>
      split <;> exact ⟨rfl, fun id' apart => Function.update_of_ne apart ..⟩
    all_goals exact ⟨rfl, fun id' apart => Function.update_of_ne apart ..⟩
  unfold State.body
  split
  · exact head s
  · exact start s _
  · rename_i v ver at_
    obtain ⟨pc, others⟩ := after (s.coros id).i v ver
    obtain ⟨pc', others'⟩ := head (s.afterOffload p id (s.coros id).i v ver)
    exact ⟨pc'.trans pc, fun id' apart => (others' id' apart).trans (others id' apart)⟩

/-- The coroutines below `i` that have finished. -/
def State.ended (s : State) (i : Nat) : Nat :=
  ((Finset.range i).filter fun id => (s.coros id).finished = true).card

/-- What `fin` counts, and what the end of `run` means. -/
structure Looping (p : Params) (s : State) : Prop where
  counted : ∀ i fin, s.pc = .resume i fin → i ≤ p.c ∧ fin ≤ s.ended i
  ret : s.pc = .ret → ∀ id < p.c, (s.coros id).finished = true

theorem State.ended_succ (s : State) (i : Nat) :
    s.ended (i + 1) = s.ended i + if (s.coros i).finished = true then 1 else 0 := by
  unfold ended
  rw [Finset.range_add_one, Finset.filter_insert]
  split
  · rw [Finset.card_insert_of_notMem (by simp)]
  · rfl

/-- All of `n` coroutines have finished once `n` of them have. -/
theorem State.all_ended {n : Nat} (all : n ≤ s.ended n) {id : Nat} (inside : id < n) :
    (s.coros id).finished = true := by
  have full : (Finset.range n).filter (fun id => (s.coros id).finished = true) =
      Finset.range n := by
    apply Finset.eq_of_subset_of_card_le (Finset.filter_subset _ _)
    rw [Finset.card_range]
    exact all
  have member : id ∈ (Finset.range n).filter fun id => (s.coros id).finished = true := by
    rw [full]
    exact Finset.mem_range.mpr inside
  exact (Finset.mem_filter.mp member).2

/-- The scheduler keeps the agreement and its count of finished coroutines. -/
theorem run_keeps {now : Nat} (speculates : p.mode ≠ .naive) (coupled : Coupled p s)
    (looping : Looping p s) (taken : s.run p now = some t) : Coupled p t ∧ Looping p t := by
  unfold State.run at taken
  split at taken
  case h_1 i pc =>
    split at taken
    · split at taken
      all_goals
        rw [Option.some.injEq] at taken
        subst taken
        refine ⟨coupled.same rfl rfl rfl rfl ?_, nofun, nofun⟩
      · intro id
        dsimp only [State.setCoro]
        by_cases same : id = i
        · rw [same, Function.update_self]
          exact ⟨rfl, rfl, rfl⟩
        · rw [Function.update_of_ne same]
          exact ⟨rfl, rfl, rfl⟩
      · exact fun id => ⟨rfl, rfl, rfl⟩
    · rw [Option.some.injEq] at taken
      subst taken
      refine ⟨coupled.same rfl rfl rfl rfl fun id => ⟨rfl, rfl, rfl⟩, ?_, nofun⟩
      intro i' fin pc'
      cases pc'
      exact ⟨Nat.zero_le _, Nat.zero_le _⟩
  case h_2 i fin pc =>
    obtain ⟨inside, counted⟩ := looping.counted i fin pc
    split at taken
    · rename_i more
      split at taken
      · rename_i finished
        rw [Option.some.injEq] at taken
        subst taken
        refine ⟨coupled.same rfl rfl rfl rfl fun id => ⟨rfl, rfl, rfl⟩, ?_, nofun⟩
        intro i' fin' pc'
        cases pc'
        refine ⟨more, ?_⟩
        rw [State.ended_succ, if_pos finished]
        exact Nat.succ_le_succ counted
      · rename_i running
        split at taken
        all_goals
          rw [Option.some.injEq] at taken
          subst taken
        · refine ⟨coupled.same rfl rfl rfl rfl fun id => ⟨rfl, rfl, rfl⟩, ?_, nofun⟩
          intro i' fin' pc'
          cases pc'
          refine ⟨more, ?_⟩
          rw [State.ended_succ, if_neg running]
          exact counted
        · have moved := body_coupled speculates coupled more now
          obtain ⟨_, others⟩ := body_frame p s i now
          refine ⟨moved.same rfl rfl rfl rfl fun id => ⟨rfl, rfl, rfl⟩, ?_, nofun⟩
          intro i' fin' pc'
          cases pc'
          refine ⟨more, ?_⟩
          have below : (s.body p i now).ended i = s.ended i := by
            unfold State.ended
            congr 1
            apply Finset.filter_congr
            intro id member
            rw [others id (Nat.ne_of_lt (Finset.mem_range.mp member))]
          rw [State.ended_succ]
          change fin ≤ (s.body p i now).ended i + _
          omega
    · rename_i last
      split at taken
      all_goals
        rename_i full
        rw [Option.some.injEq] at taken
        subst taken
        refine ⟨coupled.same rfl rfl rfl rfl fun id => ⟨rfl, rfl, rfl⟩, nofun, ?_⟩
      · intro _ id below
        have whole : i = p.c := by omega
        rw [whole, full] at counted
        exact State.all_ended counted below
      · exact nofun
  case h_3 => cases taken

theorem step_keeps {a : Act} (speculates : p.mode ≠ .naive) (coupled : Coupled p s)
    (looping : Looping p s) (taken : step p s a = some t) : Coupled p t ∧ Looping p t := by
  cases a with
  | run now => exact run_keeps speculates coupled looping taken
  | device i time =>
    change s.deviceFn i time = some t at taken
    unfold State.deviceFn at taken
    split at taken
    · rw [Option.some.injEq] at taken
      subst taken
      exact ⟨coupled.same rfl rfl rfl rfl fun id => ⟨rfl, rfl, rfl⟩, looping.counted, looping.ret⟩
    · cases taken

/-- The pairs of a coroutine and an iteration that fall on key `k`. -/
def Params.pairs (p : Params) (k : Nat) : Finset (Nat × Nat) :=
  (Finset.range p.c ×ˢ Finset.range p.nIters.toNat).filter fun x => p.key x.1 x.2 = k

theorem Params.card_pairs (p : Params) (k : Nat) :
    (p.pairs k).card = ∑ id ∈ Finset.range p.c, p.hits k id p.nIters.toNat := by
  unfold pairs hits
  rw [Finset.card_filter, Finset.sum_product]
  apply Finset.sum_congr rfl
  intro id _
  rw [Finset.card_filter]

/-- In the modes `detect`, `serial` and `lock` the value of every key is the number of
commits on it, whenever the device completes what; so the values add up to the
commits, and when `run` returns each key has been counted once for each iteration of
each coroutine that falls on it. -/
theorem values_count_commits (p : Params) (speculates : p.mode ≠ .naive) (acts : List Act)
    (s : State) (ran : Machine.run (step p) .init acts = some s) :
    (∀ k, (s.cache k).val = s.commitsOn k) ∧
      ∑ k ∈ Finset.range p.nkey, (s.cache k).val = s.gCommits ∧
      (s.pc = .ret → ∀ k, (s.cache k).val = (p.pairs k).card) := by
  have start : Coupled p .init ∧ Looping p .init := ⟨init_coupled p, nofun, nofun⟩
  obtain ⟨coupled, looping⟩ := Machine.invariant_reached
    (fun _ _ _ inv taken => step_keeps speculates inv.1 inv.2 taken) start ran
  have values : ∀ k, (s.cache k).val = s.commitsOn k := by
    intro k
    rw [coupled.entry]
  refine ⟨values, ?_, ?_⟩
  · rw [Finset.sum_congr rfl fun k _ => values k]
    exact coupled.total
  · intro returned k
    rw [values, coupled.progress, p.card_pairs]
    apply Finset.sum_congr rfl
    intro id member
    have below := Finset.mem_range.mp member
    obtain ⟨head, last⟩ := (coupled.fits id).finished (looping.ret returned id below)
    have reached := (coupled.fits id).reached
    have done : (s.coros id).committed p.mode = p.nIters.toNat := by
      rw [Coro.committed_of_not_offload p.mode (by simp [head])]
      omega
    rw [done]

/-- Two coroutines with two iterations on one key. -/
def oneKey (mode : Mode) : Params :=
  { mode := mode, nkey := 1, c := 2, nIters := 2, nkey_pos := by decide, nkey_le := by decide
    c_pos := by decide, c_le := by decide, nIters_lt := by decide }

/-- The device completes the two offloads in the other order, then in this one. -/
def outOfOrder : List Act :=
  List.replicate 6 (.run 0) ++ [.device 1 lNs] ++ List.replicate 6 (.run 0) ++ [.device 0 lNs] ++
    List.replicate 6 (.run 0) ++ [.device 0 lNs, .device 1 lNs] ++ List.replicate 12 (.run 0)

theorem outOfOrder_counts_commits : ∃ s,
    Machine.run (step (oneKey .detect)) .init outOfOrder = some s ∧ s.pc = .ret ∧
      s.gFallbacks = 2 ∧ (∀ k, (s.cache k).val = s.commitsOn k) ∧
      ∑ k ∈ Finset.range 1, (s.cache k).val = s.gCommits ∧
      (s.pc = .ret → ∀ k, (s.cache k).val = ((oneKey .detect).pairs k).card) := by
  have returns : (Machine.run (step (oneKey .detect)) .init outOfOrder).map
      (fun s => (s.pc, s.gFallbacks)) = some (.ret, 2) := by
    decide +kernel
  obtain ⟨s, ran, last⟩ := Option.map_eq_some_iff.mp returns
  obtain ⟨pc, fallbacks⟩ := Prod.mk.inj last
  exact ⟨s, ran, pc, fallbacks, values_count_commits (oneKey .detect) (by decide) outOfOrder s ran⟩

end TransparentOffload.ConflictDetector
