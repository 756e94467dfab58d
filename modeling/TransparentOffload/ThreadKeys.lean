import TransparentOffload.Carrier
import TransparentOffload.Lib.History

set_option autoImplicit false

/- Thread-specific data. Values under the first keys are kept in `struct fiber`, the
others in the storage of the carrier's OS thread, while keys are made and deleted by the
C library alone. -/
namespace TransparentOffload

variable {σ γ : Type}

/-- A value under a key; `NULL` is 0. -/
abbrev Ptr := Nat

def null : Ptr := 0

def einval : Nat := 22

/-- `PTHREAD_KEYS_MAX`. -/
def keysMax : Nat := 1024

/-- The length of `tls` in `struct fiber`. -/
def tlsLen : Nat := 128

/-- The keys of the C library: how often each was created or deleted, which is odd while
the key is in use. -/
abbrev Keys := Nat → Nat

/-- What the C library keeps for a thread under one key, with the count of the key when
the value was stored. -/
structure KeyData where
  seq : Nat
  value : Ptr
  deriving DecidableEq, Repr

namespace Keys

def InUse (keys : Keys) (k : Nat) : Prop := k < keysMax ∧ keys k % 2 = 1

instance (keys : Keys) (k : Nat) : Decidable (keys.InUse k) :=
  inferInstanceAs (Decidable (_ ∧ _))

/-- The library's `pthread_key_create`, which may hand out any key not in use. -/
def create (keys : Keys) (k : Nat) : Option Keys :=
  if k < keysMax ∧ keys k % 2 = 0 then some (Function.update keys k (keys k + 1)) else none

/-- The library's `pthread_key_delete`. -/
def delete (keys : Keys) (k : Nat) : Keys :=
  if keys.InUse k then Function.update keys k (keys k + 1) else keys

/-- The library's `pthread_setspecific` in a thread with the given storage. -/
def setspecific (keys : Keys) (own : Nat → KeyData) (k : Nat) (v : Ptr) :
    Nat × (Nat → KeyData) :=
  if keys.InUse k then (0, Function.update own k ⟨keys k, v⟩) else (einval, own)

/-- The library's `pthread_getspecific`; it forgets a value of an earlier key. -/
def getspecific (keys : Keys) (own : Nat → KeyData) (k : Nat) : Ptr × (Nat → KeyData) :=
  if k < keysMax then
    if (own k).value ≠ null ∧ (own k).seq ≠ keys k then
      (null, Function.update own k { own k with value := null })
    else ((own k).value, own)
  else (null, own)

end Keys

/-- The runtime, `tls` of each fiber by its slot, the library's keys, and what the
library keeps for the carrier's OS thread. -/
structure Specifics (σ γ : Type) where
  runtime : Runtime σ γ
  tls : Nat → Nat → Ptr
  keys : Keys
  carrier : Nat → KeyData

def Specifics.init (mem : γ) (detOn : Bool) (kinds : MutexId → MutexKind) : Specifics σ γ :=
  ⟨Runtime.init mem detOn kinds, fun _ _ => null, fun _ => 0, fun _ => ⟨0, null⟩⟩

/-- The keys whose values are kept in `struct fiber`. -/
def shadowed (gNotls : Bool) (k : Nat) : Bool := !gNotls && k < tlsLen

namespace Specifics

/-- `pthread_setspecific` in the fiber of slot `i`. -/
def pthreadSetspecific (gNotls : Bool) (s : Specifics σ γ) (i k : Nat) (v : Ptr) :
    Nat × Specifics σ γ :=
  if shadowed gNotls k then
    (0, { s with tls := Function.update s.tls i (Function.update (s.tls i) k v) })
  else
    let real := s.keys.setspecific s.carrier k v
    (real.1, { s with carrier := real.2 })

/-- `pthread_getspecific` in the fiber of slot `i`. -/
def pthreadGetspecific (gNotls : Bool) (s : Specifics σ γ) (i k : Nat) : Ptr × Specifics σ γ :=
  if shadowed gNotls k then (s.tls i k, s)
  else
    let real := s.keys.getspecific s.carrier k
    (real.1, { s with carrier := real.2 })

end Specifics

/-- Keys may be made and deleted by any thread; values are stored and read by the fiber
that is switched in. -/
inductive KeyAct
  | keyCreate (k : Nat)
  | keyDelete (k : Nat)
  | setspecific (k : Nat) (v : Ptr)
  | getspecific (k : Nat)
  | act (a : Act)

def keyStep (c : Config σ γ) (gNotls : Bool) (s : Specifics σ γ) :
    KeyAct → Option (Specifics σ γ)
  | .keyCreate k => (s.keys.create k).map fun keys => { s with keys := keys }
  | .keyDelete k => some { s with keys := s.keys.delete k }
  | .setspecific k v =>
    match s.runtime.pc with
    | .slice i => some (s.pthreadSetspecific gNotls i k v).2
    | _ => none
  | .getspecific k =>
    match s.runtime.pc with
    | .slice i => some (s.pthreadGetspecific gNotls i k).2
    | _ => none
  | .act a => (step c s.runtime a).map fun t => { s with runtime := t }

/-- What is said of keys and values: a key is created, and a fiber stores a value. -/
inductive KeyEvent
  | created (k : Nat)
  | stored (i k : Nat) (v : Ptr)
  deriving DecidableEq, Repr

/-- A store counts when `pthread_setspecific` returns 0. -/
def keyEvents (gNotls : Bool) (s : Specifics σ γ) : KeyAct → List KeyEvent
  | .keyCreate k => [.created k]
  | .setspecific k v =>
    match s.runtime.pc with
    | .slice i => if (s.pthreadSetspecific gNotls i k v).1 = 0 then [.stored i k v] else []
    | _ => []
  | _ => []

namespace KeyEvent

def creates (k : Nat) : KeyEvent → Bool
  | .created k' => k' = k
  | .stored .. => false

/-- The value that is stored under a key. -/
def under (k : Nat) : KeyEvent → Option Ptr
  | .stored _ k' v => if k' = k then some v else none
  | .created _ => none

/-- The value that a fiber stores under a key. -/
def underBy (i k : Nat) : KeyEvent → Option Ptr
  | .stored i' k' v => if i' = i ∧ k' = k then some v else none
  | .created _ => none

end KeyEvent

/-- The value the fiber stored last under the key. -/
def lastStored (i k : Nat) (h : List KeyEvent) : Option Ptr := h.findSome? (KeyEvent.underBy i k)

/-- The value the fiber stored last under the key since the key was last created. -/
def lastOwn (i k : Nat) (h : List KeyEvent) : Option Ptr :=
  lastStored i k (Machine.since (KeyEvent.creates k) h)

/-- The value any fiber stored last under the key since the key was last created. -/
def lastShared (k : Nat) (h : List KeyEvent) : Option Ptr :=
  (Machine.since (KeyEvent.creates k) h).findSome? (KeyEvent.under k)

/-- A fiber reads under a key that exists what it stored there last since the key was
last created, and `NULL` if it stored none; and never does it read what another stored. -/
def OwnValue (gNotls : Bool) (s : Specifics σ γ × List KeyEvent) : KeyAct → Prop
  | .getspecific k => ∀ i, s.1.runtime.pc = .slice i →
      (s.1.keys.InUse k →
        (s.1.pthreadGetspecific gNotls i k).1 = (lastOwn i k s.2).getD null) ∧
      ((s.1.pthreadGetspecific gNotls i k).1 = null ∨
        .stored i k (s.1.pthreadGetspecific gNotls i k).1 ∈ s.2)
  | _ => True

/-- Under a key that is kept in `struct fiber`, a fiber that has stored nothing since the
key was created left no value but `NULL` under an earlier key of that number; under any
other key, the latest store by any fiber since then was of the reader's own value. -/
def Unmixed (gNotls : Bool) (s : Specifics σ γ × List KeyEvent) : KeyAct → Prop
  | .getspecific k => ∀ i, s.1.runtime.pc = .slice i → s.1.keys.InUse k →
      if shadowed gNotls k then
        lastOwn i k s.2 = none → (lastStored i k s.2).getD null = null
      else (lastShared k s.2).getD null = (lastOwn i k s.2).getD null
  | _ => True

/-- What the storages hold, in terms of what was stored. -/
structure Kept (gNotls : Bool) (s : Specifics σ γ × List KeyEvent) : Prop where
  shadow : ∀ i k, shadowed gNotls k = true → s.1.tls i k = (lastStored i k s.2).getD null
  shared : ∀ k, shadowed gNotls k = false → s.1.keys.InUse k →
    (s.1.keys.getspecific s.1.carrier k).1 = (lastShared k s.2).getD null
  counts : ∀ k, (s.1.carrier k).value ≠ null →
    (s.1.carrier k).seq % 2 = 1 ∧ (s.1.carrier k).seq ≤ s.1.keys k

section History

variable {i k : Nat} {h : List KeyEvent}

theorem lastStored_stored (i' k' : Nat) (v : Ptr) :
    lastStored i k (.stored i' k' v :: h) =
      if i' = i ∧ k' = k then some v else lastStored i k h := by
  have value : KeyEvent.underBy i k (.stored i' k' v) =
      if i' = i ∧ k' = k then some v else none := rfl
  rw [lastStored, List.findSome?_cons, value]
  by_cases here : i' = i ∧ k' = k
  · rw [if_pos here, if_pos here]
  · rw [if_neg here, if_neg here]
    rfl

theorem lastShared_created_self : lastShared k (.created k :: h) = none := by
  have marks : KeyEvent.creates k (.created k) = true := by simp [KeyEvent.creates]
  rw [lastShared, Machine.since_mark marks]
  rfl

theorem lastShared_created_of_ne {k' : Nat} (other : k' ≠ k) :
    lastShared k (.created k' :: h) = lastShared k h := by
  have plain : KeyEvent.creates k (.created k') = false := by simp [KeyEvent.creates, other]
  rw [lastShared, Machine.since_cons plain, List.findSome?_cons]
  rfl

theorem lastShared_stored (i' k' : Nat) (v : Ptr) :
    lastShared k (.stored i' k' v :: h) = if k' = k then some v else lastShared k h := by
  have plain : KeyEvent.creates k (.stored i' k' v) = false := rfl
  have value : KeyEvent.under k (.stored i' k' v) = if k' = k then some v else none := rfl
  rw [lastShared, Machine.since_cons plain, List.findSome?_cons, value]
  by_cases here : k' = k
  · rw [if_pos here, if_pos here]
  · rw [if_neg here, if_neg here]
    rfl

/-- What was stored since the key was created is the latest there is. -/
theorem lastStored_of_lastOwn {v : Ptr} (own : lastOwn i k h = some v) :
    lastStored i k h = some v := by
  unfold lastOwn lastStored Machine.since at own
  have isPrefix := List.takeWhile_prefix (p := fun e => !KeyEvent.creates k e) (l := h)
  obtain ⟨rest, split⟩ := isPrefix
  unfold lastStored
  rw [← split, List.findSome?_append, own]
  rfl

theorem stored_of_lastStored {v : Ptr} (last : lastStored i k h = some v) :
    .stored i k v ∈ h := by
  obtain ⟨e, member, value⟩ := List.exists_of_findSome?_eq_some last
  cases e with
  | created => cases value
  | stored i' k' v' =>
    change (if i' = i ∧ k' = k then some v' else none) = some v at value
    split at value
    · rename_i here
      rw [Option.some.injEq] at value
      rw [← here.1, ← here.2, ← value]
      exact member
    · cases value

/-- What is read from such a store is `NULL` or what the fiber stored. -/
theorem null_or_stored {v : Ptr} (read : v = (lastStored i k h).getD null) :
    v = null ∨ .stored i k v ∈ h := by
  cases last : lastStored i k h with
  | none =>
    rw [last] at read
    exact Or.inl read
  | some w =>
    rw [last, Option.getD_some] at read
    exact Or.inr (stored_of_lastStored (read ▸ last))

end History

open TransparentOffload.Specifics

variable {gNotls : Bool} {s : Specifics σ γ × List KeyEvent}

theorem init_kept (gNotls : Bool) (mem : γ) (detOn : Bool) (kinds : MutexId → MutexKind) :
    Kept (σ := σ) gNotls (.init mem detOn kinds, []) := by
  refine ⟨fun _ _ _ => rfl, ?_, ?_⟩
  · intro k _ inUse
    cases inUse.2
  · intro k value
    exact absurd rfl value

namespace Keys

variable {keys keys' : Keys} {own own' : Nat → KeyData} {k : Nat}

/-- What is read under a key depends on this key alone. -/
theorem getspecific_congr (same : keys k = keys' k) (data : own k = own' k) :
    (keys.getspecific own k).1 = (keys'.getspecific own' k).1 := by
  unfold getspecific
  simp only [same, data]
  split
  · split <;> rfl
  · rfl

theorem inUse_congr (same : keys k = keys' k) : keys.InUse k ↔ keys'.InUse k := by
  unfold InUse
  rw [same]

/-- Under a key whose count is another than that of the value, `NULL` is read. -/
theorem getspecific_stale (stale : (own k).value ≠ null → (own k).seq ≠ keys k) :
    (keys.getspecific own k).1 = null := by
  unfold getspecific
  split
  · split
    · rfl
    · rename_i current
      by_contra value
      exact current ⟨value, stale value⟩
  · rfl

theorem getspecific_current (inUse : keys.InUse k) (current : (own k).seq = keys k) :
    (keys.getspecific own k).1 = (own k).value := by
  unfold getspecific
  rw [if_pos inUse.1, if_neg (fun both => both.2 current)]

/-- Under a key that is not in use nothing but `NULL` is read. -/
theorem getspecific_unused (dead : ¬ keys.InUse k)
    (counts : (own k).value ≠ null → (own k).seq % 2 = 1) :
    (keys.getspecific own k).1 = null := by
  by_cases below : k < keysMax
  · apply getspecific_stale
    intro value same
    exact dead ⟨below, same ▸ counts value⟩
  · unfold getspecific
    rw [if_neg below]

end Keys

/-- Counts only go up, so no value gets ahead of its key. -/
theorem Kept.raised {k : Nat} (kept : Kept gNotls s) (k' : Nat)
    (value : (s.1.carrier k').value ≠ null) :
    (s.1.carrier k').seq % 2 = 1 ∧
      (s.1.carrier k').seq ≤ Function.update s.1.keys k (s.1.keys k + 1) k' := by
  obtain ⟨odd, before⟩ := kept.counts k' value
  refine ⟨odd, ?_⟩
  by_cases same : k' = k
  · subst same
    rw [Function.update_self]
    omega
  · rw [Function.update_of_ne same]
    exact before

theorem keyCreate_kept {keys : Keys} {k : Nat} (kept : Kept gNotls s)
    (created : s.1.keys.create k = some keys) :
    Kept gNotls ({ s.1 with keys := keys }, .created k :: s.2) := by
  unfold Keys.create at created
  split at created
  · rw [Option.some.injEq] at created
    subst created
    refine ⟨kept.shadow, ?_, kept.raised⟩
    intro k' apart inUse
    by_cases same : k' = k
    · -- whatever is there was stored under an earlier count
      subst same
      rw [lastShared_created_self]
      apply Keys.getspecific_stale
      intro value
      have before := (kept.counts k' value).2
      dsimp only
      rw [Function.update_self]
      omega
    · have unchanged : Function.update s.1.keys k (s.1.keys k + 1) k' = s.1.keys k' :=
        Function.update_of_ne same ..
      rw [lastShared_created_of_ne (Ne.symm same), Keys.getspecific_congr unchanged rfl]
      exact kept.shared k' apart ((Keys.inUse_congr unchanged).mp inUse)
  · cases created

theorem keyDelete_kept {k : Nat} (kept : Kept gNotls s) :
    Kept gNotls ({ s.1 with keys := s.1.keys.delete k }, s.2) := by
  unfold Keys.delete
  split
  · rename_i used
    refine ⟨kept.shadow, ?_, kept.raised⟩
    intro k' apart inUse
    have other : k' ≠ k := by
      rintro rfl
      have odd := inUse.2
      dsimp only at odd
      rw [Function.update_self] at odd
      have before := used.2
      omega
    have unchanged : Function.update s.1.keys k (s.1.keys k + 1) k' = s.1.keys k' :=
      Function.update_of_ne other ..
    rw [Keys.getspecific_congr unchanged rfl]
    exact kept.shared k' apart ((Keys.inUse_congr unchanged).mp inUse)
  · exact kept

/-- A store, which counts when it returns 0. -/
theorem setspecific_kept {i k : Nat} {v : Ptr} (kept : Kept gNotls s) :
    Kept gNotls ((s.1.pthreadSetspecific gNotls i k v).2,
      (if (s.1.pthreadSetspecific gNotls i k v).1 = 0 then [.stored i k v] else []) ++ s.2) := by
  unfold pthreadSetspecific
  split
  · rename_i shadow
    dsimp only
    rw [if_pos rfl, List.singleton_append]
    refine ⟨?_, ?_, kept.counts⟩
    · intro i' k' inside
      rw [lastStored_stored]
      dsimp only
      by_cases mine : i' = i
      · subst mine
        rw [Function.update_self]
        by_cases same : k' = k
        · subst same
          rw [Function.update_self, if_pos ⟨rfl, rfl⟩]
          rfl
        · rw [Function.update_of_ne same, if_neg fun both => same both.2.symm]
          exact kept.shadow i' k' inside
      · rw [Function.update_of_ne mine, if_neg fun both => mine both.1.symm]
        exact kept.shadow i' k' inside
    · intro k' apart inUse
      have other : k ≠ k' := by
        rintro rfl
        rw [apart] at shadow
        cases shadow
      rw [lastShared_stored, if_neg other]
      exact kept.shared k' apart inUse
  · rename_i real
    rw [Bool.not_eq_true] at real
    unfold Keys.setspecific
    split
    · rename_i used
      dsimp only
      rw [if_pos rfl, List.singleton_append]
      refine ⟨?_, ?_, ?_⟩
      · intro i' k' inside
        have other : k ≠ k' := by
          rintro rfl
          rw [real] at inside
          cases inside
        rw [lastStored_stored, if_neg fun both => other both.2]
        exact kept.shadow i' k' inside
      · intro k' apart inUse
        dsimp only at inUse ⊢
        rw [lastShared_stored]
        by_cases same : k' = k
        · subst same
          rw [if_pos rfl, Keys.getspecific_current inUse (by rw [Function.update_self]),
            Function.update_self]
          rfl
        · rw [if_neg (Ne.symm same),
            Keys.getspecific_congr rfl (Function.update_of_ne same ..)]
          exact kept.shared k' apart inUse
      · intro k' value
        dsimp only at value ⊢
        by_cases same : k' = k
        · subst same
          rw [Function.update_self]
          exact ⟨used.2, le_rfl⟩
        · rw [Function.update_of_ne same] at value ⊢
          exact kept.counts k' value
    · dsimp only
      rw [if_neg (by decide), List.nil_append]
      exact kept

/-- Reading only forgets what is `NULL` to its reader already. -/
theorem getspecific_kept {i k : Nat} (kept : Kept gNotls s) :
    Kept gNotls ((s.1.pthreadGetspecific gNotls i k).2, s.2) := by
  unfold pthreadGetspecific
  split
  · exact kept
  · unfold Keys.getspecific
    split
    · split
      · rename_i stale
        refine ⟨kept.shadow, ?_, ?_⟩
        · intro k' apart inUse
          dsimp only at inUse ⊢
          by_cases same : k' = k
          · subst same
            rw [← kept.shared k' apart inUse, Keys.getspecific_stale fun _ => stale.2]
            apply Keys.getspecific_stale
            rw [Function.update_self]
            exact fun value => absurd rfl value
          · rw [Keys.getspecific_congr rfl (Function.update_of_ne same ..)]
            exact kept.shared k' apart inUse
        · intro k' value
          dsimp only at value ⊢
          by_cases same : k' = k
          · subst same
            rw [Function.update_self] at value
            exact absurd rfl value
          · rw [Function.update_of_ne same] at value ⊢
            exact kept.counts k' value
      · exact kept
    · exact kept

theorem keyStep_kept {c : Config σ γ} {t : Specifics σ γ × List KeyEvent} {a : KeyAct}
    (kept : Kept gNotls s)
    (taken : Machine.noted (keyStep c gNotls) (keyEvents gNotls) s a = some t) :
    Kept gNotls t := by
  obtain ⟨ran, events⟩ := Machine.noted_eq_some.mp taken
  obtain ⟨after, history⟩ := t
  dsimp only at ran events
  subst events
  cases a with
  | keyCreate k =>
    obtain ⟨keys, created, rfl⟩ := Option.map_eq_some_iff.mp ran
    exact keyCreate_kept kept created
  | keyDelete k =>
    rw [keyStep, Option.some.injEq] at ran
    exact ran ▸ keyDelete_kept kept
  | setspecific k v =>
    unfold keyStep at ran
    unfold keyEvents
    cases pc : s.1.runtime.pc with
    | slice i =>
      simp only [pc, Option.some.injEq] at ran ⊢
      subst ran
      have whole := setspecific_kept (i := i) (k := k) (v := v) kept
      split at whole <;> rename_i done <;> simp only [done, ↓reduceIte] at whole ⊢
      · exact whole
      · exact whole
    | _ => simp [pc] at ran
  | getspecific k =>
    unfold keyStep at ran
    cases pc : s.1.runtime.pc with
    | slice i =>
      simp only [pc, Option.some.injEq] at ran
      subst ran
      exact getspecific_kept kept
    | _ => simp [pc] at ran
  | act a =>
    obtain ⟨runtime, _, rfl⟩ := Option.map_eq_some_iff.mp ran
    exact ⟨kept.shadow, kept.shared, kept.counts⟩

/-- What `pthread_getspecific` returns, by where it looks. -/
theorem Kept.read_shadowed (kept : Kept gNotls s) {i k : Nat}
    (shadow : shadowed gNotls k = true) :
    (s.1.pthreadGetspecific gNotls i k).1 = (lastStored i k s.2).getD null := by
  unfold pthreadGetspecific
  rw [if_pos shadow]
  exact kept.shadow i k shadow

theorem read_real {i k : Nat} (real : ¬ shadowed gNotls k = true) :
    (s.1.pthreadGetspecific gNotls i k).1 = (s.1.keys.getspecific s.1.carrier k).1 := by
  unfold pthreadGetspecific
  rw [if_neg real]

/-- The reads that are a fiber's own are those after which nothing is mixed up. -/
theorem ownValue_iff (kept : Kept gNotls s) (a : KeyAct) :
    OwnValue gNotls s a ↔ Unmixed gNotls s a := by
  cases a with
  | getspecific k =>
    constructor
    · intro owned i pc inUse
      have read := (owned i pc).1 inUse
      split
      · rename_i shadow
        intro none
        rw [kept.read_shadowed shadow, none] at read
        exact read
      · rename_i real
        rw [read_real real] at read
        rw [← read]
        exact (kept.shared k (Bool.eq_false_of_not_eq_true real) inUse).symm
    · intro unmixed i pc
      have own : s.1.keys.InUse k →
          (s.1.pthreadGetspecific gNotls i k).1 = (lastOwn i k s.2).getD null := by
        intro inUse
        have condition := unmixed i pc inUse
        split at condition
        · rename_i shadow
          rw [kept.read_shadowed shadow]
          cases latest : lastOwn i k s.2 with
          | none => exact condition latest
          | some v => rw [lastStored_of_lastOwn latest]
        · rename_i real
          rw [read_real real, kept.shared k (Bool.eq_false_of_not_eq_true real) inUse]
          exact condition
      refine ⟨own, ?_⟩
      by_cases shadow : shadowed gNotls k = true
      · exact null_or_stored (kept.read_shadowed shadow)
      by_cases inUse : s.1.keys.InUse k
      · cases latest : lastOwn i k s.2 with
        | none =>
          left
          rw [own inUse, latest]
          rfl
        | some v =>
          right
          rw [own inUse, latest]
          exact stored_of_lastStored (lastStored_of_lastOwn latest)
      · left
        rw [read_real shadow]
        exact Keys.getspecific_unused inUse fun value => (kept.counts k value).1
  | keyCreate | keyDelete | setspecific | act => exact Iff.rfl

/-- In every run each fiber reads its own values exactly when no read meets a value from
an earlier key of the same number, or one another fiber stored in the carrier's storage. -/
theorem own_values_iff_unmixed (c : Config σ γ) (gNotls : Bool) (mem : γ) (detOn : Bool)
    (kinds : MutexId → MutexKind) (acts : List KeyAct) :
    Machine.Guarded (Machine.noted (keyStep c gNotls) (keyEvents gNotls)) (OwnValue gNotls)
        (.init mem detOn kinds, []) acts ↔
      Machine.Guarded (Machine.noted (keyStep c gNotls) (keyEvents gNotls)) (Unmixed gNotls)
        (.init mem detOn kinds, []) acts :=
  Machine.guarded_congr (fun _ a kept => ownValue_iff kept a)
    (fun _ _ _ kept taken => keyStep_kept kept taken) (init_kept gNotls mem detOn kinds)

/-- Threads that offload once. -/
def offloadingThreads : Config Nat Unit :=
  { app :=
      { entry := fun arg => arg
        code := fun at_ => match at_ with
          | 0 => .accelEncrypt [] fun _ => 1
          | _ => .ret }
    gEnforce := false, gRealmutex := false, ssl := .init, transform := id }

def keyStart : Specifics Nat Unit × List KeyEvent := (.init () false fun _ => .normal, [])

/-- Two threads, up to the slice of the first. -/
def firstSlice : List KeyAct :=
  [.act (.create 0), .act (.create 0)] ++ List.replicate 10 (.act (.carrier .quiet))

/-- The first thread's value under a key that is deleted and made again. -/
def reusedKey : List KeyAct :=
  firstSlice ++ [.keyCreate 5, .setspecific 5 7, .keyDelete 5, .keyCreate 5]

/-- The first thread's value under a key that is kept in the carrier's storage, up to the
slice of the second. -/
def sharedKey : List KeyAct :=
  firstSlice ++ [.keyCreate 200, .setspecific 200 7] ++ List.replicate 3 (.act (.carrier .quiet))

/-- A value outlives its key, and a fiber reads what another one stored. -/
theorem reused_and_shared_values :
    (∃ s, Machine.run (Machine.noted (keyStep offloadingThreads false) (keyEvents false))
        keyStart reusedKey = some s ∧ s.1.runtime.pc = .slice 0 ∧ s.1.keys.InUse 5 ∧
      (s.1.pthreadGetspecific false 0 5).1 = 7 ∧ lastOwn 0 5 s.2 = none) ∧
    (∃ s, Machine.run (Machine.noted (keyStep offloadingThreads false) (keyEvents false))
        keyStart sharedKey = some s ∧ s.1.runtime.pc = .slice 1 ∧ s.1.keys.InUse 200 ∧
      (s.1.pthreadGetspecific false 1 200).1 = 7 ∧ s.2 = [.stored 0 200 7, .created 200]) ∧
    ¬ Machine.Guarded (Machine.noted (keyStep offloadingThreads false) (keyEvents false))
      (OwnValue false) keyStart (reusedKey ++ [.getspecific 5]) ∧
    ¬ Machine.Guarded (Machine.noted (keyStep offloadingThreads false) (keyEvents false))
      (OwnValue false) keyStart (sharedKey ++ [.getspecific 200]) := by
  refine ⟨⟨_, rfl, rfl, ⟨by decide, rfl⟩, rfl, rfl⟩, ⟨_, rfl, rfl, ⟨by decide, rfl⟩, rfl, rfl⟩,
    ?_, ?_⟩
  · intro guarded
    have read := (((Machine.Guarded.append rfl).mp guarded).2.1 0 rfl).1 ⟨by decide, rfl⟩
    cases read
  · intro guarded
    have read := (((Machine.Guarded.append rfl).mp guarded).2.1 1 rfl).1 ⟨by decide, rfl⟩
    cases read

end TransparentOffload
