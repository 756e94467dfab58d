import TransparentOffload.Table
import Mathlib.Data.List.Nodup

set_option autoImplicit false

/- No fiber is lost or duplicated between `pthread_create` and its end, and no
store leaves the two arrays: exactly in the runs that never find them full. -/
namespace TransparentOffload

variable {σ γ : Type}

namespace Runtime

/-- The fiber numbers in `newq[0..newn)`. -/
def queued (s : Runtime σ γ) : List Nat := s.newq.map Fiber.number

/-- Fiber `n` is an entry of the table. -/
def Tabled (s : Runtime σ γ) (n : Nat) : Prop := ∃ i f, s.fibs i = some f ∧ f.number = n

/-- Every fiber for which `pthread_create` returned 0 is in exactly one place:
one entry of the queue, one entry of the table at its own slot, or freed. -/
structure OnePlace (s : Runtime σ γ) : Prop where
  somewhere : ∀ n < s.gConnFibers, n ∈ s.queued ∨ s.Tabled n ∨ n ∈ s.freed
  queuedOnce : s.queued.Nodup
  tabledOnce : ∀ i j f g, s.fibs i = some f → s.fibs j = some g → f.number = g.number → i = j
  freedOnce : s.freed.Nodup
  queuedNotTabled : ∀ n ∈ s.queued, ¬ s.Tabled n
  queuedNotFreed : ∀ n ∈ s.queued, n ∉ s.freed
  tabledNotFreed : ∀ n, s.Tabled n → n ∉ s.freed
  slots : ∀ i f, s.fibs i = some f → f.slot = i ∧ i < s.nfib

/-- Every store so far used an index of its array. -/
def InBounds (s : Runtime σ γ) : Prop :=
  (∀ k ∈ s.newqStores, k < maxFib) ∧ ∀ k ∈ s.fibsStores, k < maxFib

/-- The arrays have room for what the step puts into them: a create finds the
queue short of `MAXFIB`, an intake finds room for the queue above `nfib`. -/
def RoomFor (s : Runtime σ γ) : Act → Prop
  | .create _ => s.newq.length < maxFib
  | .carrier _ => s.pc = .intake → s.nfib + s.newq.length ≤ maxFib
  | _ => True

/-- What holds of the table along a run that always finds room. -/
structure TableInv (s : Runtime σ γ) : Prop where
  place : s.OnePlace
  bounds : s.InBounds
  created : ∀ n, n ∈ s.queued ∨ s.Tabled n ∨ n ∈ s.freed → n < s.gConnFibers
  full : s.nfib ≤ maxFib

theorem init_tableInv (mem : γ) (detOn : Bool) (kinds : MutexId → MutexKind) :
    (init mem detOn kinds : Runtime σ γ).TableInv := by
  refine ⟨⟨?_, .nil, ?_, .nil, ?_, ?_, ?_, ?_⟩, ⟨?_, ?_⟩, ?_, Nat.zero_le _⟩
  all_goals simp [init, queued, Tabled]

end Runtime

namespace Steady

/-- A fiber after a steady step is the fiber of that slot before it. -/
theorem before {s s' : Runtime σ γ} (same : Steady s s') {i : Nat} {f' : Fiber σ}
    (live : s'.fibs i = some f') :
    ∃ f, s.fibs i = some f ∧ f.number = f'.number ∧ f.slot = f'.slot := by
  have tagged : TransparentOffload.tags s.fibs i = some f'.tag := by
    rw [← same.tags]
    simp [TransparentOffload.tags, live]
  obtain ⟨f, live, equal⟩ := Option.map_eq_some_iff.mp tagged
  exact ⟨f, live, congrArg Prod.fst equal, congrArg Prod.snd equal⟩

theorem symm {s s' : Runtime σ γ} (same : Steady s s') : Steady s' s :=
  ⟨same.newq.symm, same.nfib.symm, same.created.symm, same.freed.symm, same.newqStores.symm,
    same.fibsStores.symm, same.tags.symm⟩

theorem tabled {s s' : Runtime σ γ} (same : Steady s s') (n : Nat) :
    s'.Tabled n ↔ s.Tabled n := by
  constructor
  · rintro ⟨i, f', live, rfl⟩
    obtain ⟨f, live, number, _⟩ := same.before live
    exact ⟨i, f, live, number⟩
  · rintro ⟨i, f, live, rfl⟩
    obtain ⟨f', live, number, _⟩ := same.symm.before live
    exact ⟨i, f', live, number⟩

theorem queued {s s' : Runtime σ γ} (same : Steady s s') : s'.queued = s.queued := by
  rw [Runtime.queued, same.newq, Runtime.queued]

theorem tableInv {s s' : Runtime σ γ} (same : Steady s s') (inv : s.TableInv) :
    s'.TableInv := by
  refine ⟨⟨?_, ?_, ?_, ?_, ?_, ?_, ?_, ?_⟩, ?_, ?_, ?_⟩
  · intro n below
    rw [same.queued, same.tabled, same.freed]
    exact inv.place.somewhere n (same.created ▸ below)
  · exact same.queued ▸ inv.place.queuedOnce
  · intro i j f g first second equal
    obtain ⟨f₀, first₀, numberF, _⟩ := same.before first
    obtain ⟨g₀, second₀, numberG, _⟩ := same.before second
    exact inv.place.tabledOnce i j f₀ g₀ first₀ second₀
      (numberF.trans (equal.trans numberG.symm))
  · exact same.freed ▸ inv.place.freedOnce
  · intro n member
    rw [same.tabled]
    exact inv.place.queuedNotTabled n (same.queued ▸ member)
  · intro n member
    rw [same.freed]
    exact inv.place.queuedNotFreed n (same.queued ▸ member)
  · intro n tabled
    rw [same.freed]
    exact inv.place.tabledNotFreed n ((same.tabled n).mp tabled)
  · intro i f live
    obtain ⟨f₀, live₀, _, slot⟩ := same.before live
    rw [← slot, same.nfib]
    exact inv.place.slots i f₀ live₀
  · unfold Runtime.InBounds
    rw [same.newqStores, same.fibsStores]
    exact inv.bounds
  · intro n somewhere
    rw [same.queued, same.tabled, same.freed] at somewhere
    exact same.created ▸ inv.created n somewhere
  · exact same.nfib ▸ inv.full

end Steady

namespace Runtime

theorem pthreadCreate_tabled (s : Runtime σ γ) (start : σ) (n : Nat) :
    (s.pthreadCreate start).Tabled n ↔ s.Tabled n := by
  simp [Tabled]

theorem pthreadCreate_queued {s : Runtime σ γ} (room : s.newq.length < maxFib) (start : σ) :
    (s.pthreadCreate start).queued = s.queued ++ [s.gConnFibers] := by
  simp [pthreadCreate, queued, room, Fiber.make]

theorem pthreadCreate_newqStores {s : Runtime σ γ} (room : s.newq.length < maxFib) (start : σ) :
    (s.pthreadCreate start).newqStores = s.newqStores ++ [s.newq.length] := by
  simp [pthreadCreate, room]

/-- Without room the new fiber is dropped, though the call returns 0. -/
theorem pthreadCreate_queued_full {s : Runtime σ γ} (full : ¬ s.newq.length < maxFib)
    (start : σ) : (s.pthreadCreate start).queued = s.queued := by
  simp [pthreadCreate, queued, full]

theorem create_tableInv {s : Runtime σ γ} (inv : s.TableInv) (room : s.newq.length < maxFib)
    (start : σ) : (s.pthreadCreate start).TableInv := by
  have fresh : ∀ n, n ∈ s.queued ∨ s.Tabled n ∨ n ∈ s.freed → n ≠ s.gConnFibers :=
    fun n somewhere => Nat.ne_of_lt (inv.created n somewhere)
  refine ⟨⟨?_, ?_, ?_, ?_, ?_, ?_, ?_, ?_⟩, ⟨?_, ?_⟩, ?_, ?_⟩
  · intro n below
    rw [pthreadCreate_queued room, pthreadCreate_tabled, pthreadCreate_freed]
    rw [pthreadCreate_created] at below
    by_cases new : n = s.gConnFibers
    · exact Or.inl (by simp [new])
    · rcases inv.place.somewhere n (by omega) with member | rest
      · exact Or.inl (List.mem_append_left _ member)
      · exact Or.inr rest
  · rw [pthreadCreate_queued room, List.nodup_append]
    refine ⟨inv.place.queuedOnce, List.nodup_singleton _, ?_⟩
    intro n member m new
    rw [List.mem_singleton] at new
    exact new ▸ fresh n (Or.inl member)
  · simpa using inv.place.tabledOnce
  · simpa using inv.place.freedOnce
  · intro n member
    rw [pthreadCreate_tabled]
    rw [pthreadCreate_queued room, List.mem_append, List.mem_singleton] at member
    rcases member with old | new
    · exact inv.place.queuedNotTabled n old
    · exact fun tabled => fresh n (Or.inr (Or.inl tabled)) new
  · intro n member
    rw [pthreadCreate_freed]
    rw [pthreadCreate_queued room, List.mem_append, List.mem_singleton] at member
    rcases member with old | new
    · exact inv.place.queuedNotFreed n old
    · exact fun freed => fresh n (Or.inr (Or.inr freed)) new
  · intro n tabled
    rw [pthreadCreate_freed]
    exact inv.place.tabledNotFreed n ((s.pthreadCreate_tabled start n).mp tabled)
  · simpa using inv.place.slots
  · rw [pthreadCreate_newqStores room]
    intro k member
    rw [List.mem_append, List.mem_singleton] at member
    rcases member with old | new
    · exact inv.bounds.1 k old
    · exact new ▸ room
  · simpa using inv.bounds.2
  · intro n somewhere
    rw [pthreadCreate_queued room, pthreadCreate_tabled, pthreadCreate_freed, List.mem_append,
      List.mem_singleton, or_assoc] at somewhere
    rw [pthreadCreate_created]
    rcases somewhere with old | new | old
    · exact Nat.lt_succ_of_lt (inv.created n (Or.inl old))
    · omega
    · exact Nat.lt_succ_of_lt (inv.created n (Or.inr old))
  · simpa using inv.full

theorem intake_tabled {s : Runtime σ γ} (slots : ∀ i f, s.fibs i = some f → i < s.nfib)
    (n : Nat) : s.intake.Tabled n ↔ s.Tabled n ∨ n ∈ s.queued := by
  rw [intake_eq]
  constructor
  · rintro ⟨j, f, live, rfl⟩
    rcases takenIn_some live with ⟨old, _⟩ | ⟨k, g, found, _, rfl⟩
    · exact Or.inl ⟨j, f, old, rfl⟩
    · exact Or.inr (List.mem_map.mpr ⟨g, List.mem_of_getElem? found, rfl⟩)
  · rintro (⟨j, f, live, rfl⟩ | member)
    · refine ⟨j, f, ?_, rfl⟩
      exact (takenIn_outside (Or.inl (slots j f live))).trans live
    · obtain ⟨g, waiting, rfl⟩ := List.mem_map.mp member
      obtain ⟨k, inside, found⟩ := List.mem_iff_getElem.mp waiting
      refine ⟨s.nfib + k, { g with slot := s.nfib + k }, ?_, rfl⟩
      change s.takenIn s.newq (s.nfib + k) = _
      rw [takenIn_inside (Nat.le_add_right _ _) (by omega), Nat.add_sub_cancel_left,
        List.getElem?_eq_getElem inside, found]
      rfl

theorem queued_once {s : Runtime σ γ} (once : s.queued.Nodup) {k l : Nat} {f g : Fiber σ}
    (first : s.newq[k]? = some f) (second : s.newq[l]? = some g)
    (equal : f.number = g.number) : k = l := by
  obtain ⟨insideF, entryF⟩ := List.getElem?_eq_some_iff.mp first
  obtain ⟨insideG, entryG⟩ := List.getElem?_eq_some_iff.mp second
  have length : s.queued.length = s.newq.length := List.length_map ..
  have insideK : k < s.queued.length := by omega
  have insideL : l < s.queued.length := by omega
  have same : s.queued[k] = s.queued[l] := by
    simp only [queued, List.getElem_map, entryF, entryG]
    exact equal
  exact (once.getElem_inj_iff).mp same

theorem intake_tableInv {s : Runtime σ γ} (inv : s.TableInv)
    (room : s.nfib + s.newq.length ≤ maxFib) : s.intake.TableInv := by
  have inTable : ∀ i f, s.fibs i = some f → i < s.nfib := fun i f live =>
    (inv.place.slots i f live).2
  have tabled := intake_tabled inTable
  have queued : s.intake.queued = [] := by rw [intake_eq]; rfl
  have freed : s.intake.freed = s.freed := by rw [intake_eq]
  have created : s.intake.gConnFibers = s.gConnFibers := by rw [intake_eq]
  refine ⟨⟨?_, ?_, ?_, ?_, ?_, ?_, ?_, ?_⟩, ⟨?_, ?_⟩, ?_, ?_⟩
  · intro n below
    rw [queued, tabled, freed]
    rw [created] at below
    rcases inv.place.somewhere n below with member | tabled | freed
    · exact Or.inr (Or.inl (Or.inr member))
    · exact Or.inr (Or.inl (Or.inl tabled))
    · exact Or.inr (Or.inr freed)
  · rw [queued]
    exact List.nodup_nil
  · intro i j f g first second equal
    rw [intake_eq] at first second
    rcases takenIn_some first with ⟨oldF, _⟩ | ⟨k, f₀, foundF, rfl, rfl⟩
    · rcases takenIn_some second with ⟨oldG, _⟩ | ⟨l, g₀, foundG, rfl, rfl⟩
      · exact inv.place.tabledOnce i j f g oldF oldG equal
      · have member : f.number ∈ s.queued :=
          equal ▸ List.mem_map.mpr ⟨g₀, List.mem_of_getElem? foundG, rfl⟩
        exact absurd ⟨i, f, oldF, rfl⟩ (inv.place.queuedNotTabled _ member)
    · rcases takenIn_some second with ⟨oldG, _⟩ | ⟨l, g₀, foundG, rfl, rfl⟩
      · have member : g.number ∈ s.queued :=
          equal ▸ List.mem_map.mpr ⟨f₀, List.mem_of_getElem? foundF, rfl⟩
        exact absurd ⟨j, g, oldG, rfl⟩ (inv.place.queuedNotTabled _ member)
      · rw [queued_once inv.place.queuedOnce foundF foundG equal]
  · rw [freed]
    exact inv.place.freedOnce
  · simp [queued]
  · simp [queued]
  · intro n someplace
    rw [freed]
    rcases (tabled n).mp someplace with old | member
    · exact inv.place.tabledNotFreed n old
    · exact inv.place.queuedNotFreed n member
  · intro i f live
    rw [intake_eq] at live ⊢
    change f.slot = i ∧ i < s.nfib + s.newq.length
    rcases takenIn_some live with ⟨old, _⟩ | ⟨k, g, found, rfl, rfl⟩
    · have slot := inv.place.slots i f old
      exact ⟨slot.1, by omega⟩
    · have inside := (List.getElem?_eq_some_iff.mp found).1
      exact ⟨rfl, by omega⟩
  · rw [intake_eq]
    exact inv.bounds.1
  · rw [intake_eq]
    intro k member
    rw [List.mem_append, List.mem_range'_1] at member
    rcases member with old | new
    · exact inv.bounds.2 k old
    · omega
  · intro n someplace
    rw [queued, tabled, freed] at someplace
    rw [created]
    rcases someplace with none | (old | member) | freed
    · cases none
    · exact inv.created n (Or.inr (Or.inl old))
    · exact inv.created n (Or.inl member)
    · exact inv.created n (Or.inr (Or.inr freed))
  · rw [intake_eq]
    exact room

theorem free_tableInv {s s' : Runtime σ γ} {i : Nat} {f : Fiber σ} (inv : s.TableInv)
    (live : s.fibs i = some f) (fibs : s'.fibs = Function.update s.fibs i none)
    (freed : s'.freed = s.freed ++ [f.number]) (stores : s'.fibsStores = s.fibsStores ++ [i])
    (rest : s'.newq = s.newq ∧ s'.nfib = s.nfib ∧ s'.gConnFibers = s.gConnFibers ∧
      s'.newqStores = s.newqStores) : s'.TableInv := by
  obtain ⟨newq, nfib, created, newqStores⟩ := rest
  have queued : s'.queued = s.queued := by rw [Runtime.queued, newq, Runtime.queued]
  have others : ∀ j g, s'.fibs j = some g → s.fibs j = some g ∧ j ≠ i := by
    intro j g present
    rw [fibs] at present
    by_cases here : j = i
    · subst here
      simp at present
    · rw [Function.update_of_ne here] at present
      exact ⟨present, here⟩
  have tabled : ∀ n, s'.Tabled n ↔ s.Tabled n ∧ n ≠ f.number := by
    intro n
    constructor
    · rintro ⟨j, g, present, rfl⟩
      obtain ⟨old, apart⟩ := others j g present
      exact ⟨⟨j, g, old, rfl⟩, fun equal =>
        apart (inv.place.tabledOnce j i g f old live equal)⟩
    · rintro ⟨⟨j, g, old, rfl⟩, other⟩
      have apart : j ≠ i := by
        intro here
        subst here
        rw [live, Option.some.injEq] at old
        exact other (congrArg Fiber.number old).symm
      exact ⟨j, g, by rw [fibs, Function.update_of_ne apart, old], rfl⟩
  have wasTabled : s.Tabled f.number := ⟨i, f, live, rfl⟩
  refine ⟨⟨?_, ?_, ?_, ?_, ?_, ?_, ?_, ?_⟩, ⟨?_, ?_⟩, ?_, ?_⟩
  · intro n below
    rw [queued, tabled, freed, List.mem_append, List.mem_singleton]
    rcases inv.place.somewhere n (created ▸ below) with member | old | gone
    · exact Or.inl member
    · by_cases last : n = f.number
      · exact Or.inr (Or.inr (Or.inr last))
      · exact Or.inr (Or.inl ⟨old, last⟩)
    · exact Or.inr (Or.inr (Or.inl gone))
  · exact queued ▸ inv.place.queuedOnce
  · intro j k g h first second equal
    exact inv.place.tabledOnce j k g h (others j g first).1 (others k h second).1 equal
  · rw [freed, List.nodup_append]
    refine ⟨inv.place.freedOnce, List.nodup_singleton _, ?_⟩
    intro n member m new
    rw [List.mem_singleton] at new
    subst new
    intro equal
    exact inv.place.tabledNotFreed _ wasTabled (equal ▸ member)
  · intro n member
    rw [tabled]
    exact fun both => inv.place.queuedNotTabled n (queued ▸ member) both.1
  · intro n member
    rw [queued] at member
    rw [freed, List.mem_append, List.mem_singleton]
    rintro (old | last)
    · exact inv.place.queuedNotFreed n member old
    · exact inv.place.queuedNotTabled n member (last ▸ wasTabled)
  · intro n someplace
    rw [tabled] at someplace
    rw [freed, List.mem_append, List.mem_singleton]
    rintro (old | last)
    · exact inv.place.tabledNotFreed n someplace.1 old
    · exact someplace.2 last
  · intro j g present
    rw [nfib]
    exact inv.place.slots j g (others j g present).1
  · exact newqStores ▸ inv.bounds.1
  · rw [stores]
    intro k member
    rw [List.mem_append, List.mem_singleton] at member
    rcases member with old | new
    · exact inv.bounds.2 k old
    · have inside := (inv.place.slots i f live).2
      have full := inv.full
      omega
  · intro n someplace
    rw [queued, tabled, freed, List.mem_append, List.mem_singleton] at someplace
    rw [created]
    rcases someplace with member | ⟨old, _⟩ | gone | last
    · exact inv.created n (Or.inl member)
    · exact inv.created n (Or.inr (Or.inl old))
    · exact inv.created n (Or.inr (Or.inr gone))
    · exact last ▸ inv.created _ (Or.inr (Or.inl wasTabled))
  · exact nfib ▸ inv.full

end Runtime

open TransparentOffload.Runtime

/-- A step that finds room keeps the table's invariant. -/
theorem step_tableInv {c : Config σ γ} {s s' : Runtime σ γ} {a : Act} (inv : s.TableInv)
    (room : s.RoomFor a) (taken : step c s a = some s') : s'.TableInv := by
  cases step_table taken with
  | create start => exact create_tableInv inv room start
  | intake pc => exact intake_tableInv inv (room pc)
  | free pc live done fibs freed stores rest =>
    exact free_tableInv inv live fibs freed stores rest
  | steady creates intakes same => exact same.tableInv inv

/-- A step that finds no room loses its fiber or writes past the table. -/
theorem step_without_room {c : Config σ γ} {s s' : Runtime σ γ} {a : Act} (inv : s.TableInv)
    (full : ¬ s.RoomFor a) (taken : step c s a = some s') :
    ¬ (s'.OnePlace ∧ s'.InBounds) := by
  rintro ⟨place, bounds⟩
  cases step_table taken with
  | create start =>
    change ¬ s.newq.length < maxFib at full
    have lost := place.somewhere s.gConnFibers (by simp)
    rw [pthreadCreate_queued_full full, pthreadCreate_tabled, pthreadCreate_freed] at lost
    exact Nat.lt_irrefl _ (inv.created _ lost)
  | intake pc =>
    have beyond : ¬ s.nfib + s.newq.length ≤ maxFib := fun fits => full fun _ => fits
    have last : s.nfib + s.newq.length - 1 ∈ s.intake.fibsStores := by
      rw [intake_eq]
      apply List.mem_append_right
      rw [List.mem_range'_1]
      have := inv.full
      omega
    have := bounds.2 _ last
    omega
  | free pc =>
    apply full
    intro pc'
    rw [pc] at pc'
    cases pc'
  | steady creates intakes same =>
    apply full
    cases a with
    | create arg => exact absurd rfl (creates arg)
    | carrier out => exact fun pc => absurd pc (intakes out rfl)
    | _ => trivial

/-- Conservation of fibers and the bounds of both arrays hold in every state of
a run exactly when every create found the queue short of `MAXFIB` and every
intake found room above `nfib`. -/
theorem fibers_conserved_iff_room (c : Config σ γ) (mem : γ) (detOn : Bool)
    (kinds : MutexId → MutexKind) (acts : List Act) (s : Runtime σ γ)
    (ran : runActs c (init mem detOn kinds) acts = some s) :
    Machine.Always (step c) (fun t => t.OnePlace ∧ t.InBounds) (init mem detOn kinds) acts ↔
      Machine.Guarded (step c) RoomFor (init mem detOn kinds) acts :=
  Machine.always_iff_guarded (H := fun _ _ => True) (fun _ inv => ⟨inv.place, inv.bounds⟩)
    (fun _ _ _ inv _ room taken => step_tableInv inv room taken)
    (fun _ _ _ inv _ full taken => step_without_room inv full taken)
    (init_tableInv mem detOn kinds) (Machine.guarded_of_mem (fun _ _ _ => trivial) _) ran

/-- Thread functions that return at once. -/
def returnsAtOnce : Config Unit Unit :=
  { app := ⟨fun _ => (), fun _ => .ret⟩, gEnforce := false, gRealmutex := false
    ssl := .absent, transform := id }

/-- Creates one fiber and drives the carrier through the pass that frees it. -/
def oneLife : List Act := .create 0 :: List.replicate 11 (.carrier .quiet)

theorem oneLife_conserved_iff_room : ∃ s,
    runActs returnsAtOnce (init () false fun _ => .normal) oneLife = some s ∧
    (Machine.Always (step returnsAtOnce) (fun t => t.OnePlace ∧ t.InBounds)
        (init () false fun _ => .normal) oneLife ↔
      Machine.Guarded (step returnsAtOnce) RoomFor (init () false fun _ => .normal) oneLife) :=
  ⟨_, rfl, fibers_conserved_iff_room _ _ _ _ _ _ rfl⟩

/-- A burst of creates between two intakes only fills the queue. -/
theorem creates_run {c : Config σ γ} (n : Nat) {s : Runtime σ γ}
    (room : s.newq.length + n ≤ maxFib) :
    ∃ t, runActs c s (List.replicate n (.create 0)) = some t ∧
      (s.TableInv → t.TableInv) ∧ t.newq.length = s.newq.length + n ∧ t.nfib = s.nfib ∧
      t.freed = s.freed ∧ t.pc = s.pc := by
  induction n generalizing s with
  | zero => exact ⟨s, rfl, id, rfl, rfl, rfl, rfl⟩
  | succ n ih =>
    have here : s.newq.length < maxFib := by omega
    have length : (s.pthreadCreate (c.app.entry 0)).newq.length = s.newq.length + 1 := by
      simp [pthreadCreate, here]
    obtain ⟨t, ran, inv', length', nfib, freed, pc⟩ :=
      ih (s := s.pthreadCreate (c.app.entry 0)) (by omega)
    refine ⟨t, ?_, fun inv => inv' (create_tableInv inv here _), by omega, ?_, ?_, ?_⟩
    · rw [List.replicate_succ, runActs, Machine.run_cons_of_step rfl]
      exact ran
    · rw [nfib, pthreadCreate_nfib]
    · rw [freed, pthreadCreate_freed]
    · rw [pc]
      simp [pthreadCreate, here]

/-- 8193 creates between two intakes lose a fiber; and 8192 creates after one
fiber has come and gone make the next intake write `fibs[8192]`. -/
theorem burst_and_age_break_table :
    (∃ s, runActs returnsAtOnce (init () false fun _ => .normal)
        (List.replicate 8192 (.create 0) ++ [.create 0]) = some s ∧
      ¬ (s.OnePlace ∧ s.InBounds)) ∧
    ∃ s, runActs returnsAtOnce (init () false fun _ => .normal)
        (oneLife ++ (List.replicate 8192 (.create 0) ++ [.carrier .quiet])) = some s ∧
      8192 ∈ s.fibsStores ∧ 0 ∈ s.freed ∧ ¬ (s.OnePlace ∧ s.InBounds) := by
  constructor
  · obtain ⟨t, ran, inv, length, _⟩ := creates_run (c := returnsAtOnce)
      (s := init () false fun _ => .normal) 8192 (Nat.le_refl 8192)
    have full : ¬ t.RoomFor (.create 0) := by
      change ¬ t.newq.length < maxFib
      rw [length]
      decide
    have before := inv (init_tableInv () false fun _ => .normal)
    refine ⟨t.pthreadCreate (), ?_, step_without_room (c := returnsAtOnce) before full rfl⟩
    rw [runActs, Machine.run_snoc ran]
    rfl
  · obtain ⟨old, lived, nfib, freed, newq, pc⟩ : ∃ old,
        runActs returnsAtOnce (init () false fun _ => .normal) oneLife = some old ∧
          old.nfib = 1 ∧ old.freed = [0] ∧ old.newq = [] ∧ old.pc = .intake :=
      ⟨_, rfl, rfl, rfl, rfl, rfl⟩
    obtain ⟨t, ran, _, length, nfib', freed', pc'⟩ :=
      creates_run (c := returnsAtOnce) (s := old) 8192 (by rw [newq]; exact Nat.le_refl 8192)
    have past : 8192 ∈ t.intake.fibsStores := by
      rw [intake_eq]
      apply List.mem_append_right
      rw [List.mem_range'_1, nfib', nfib, length, newq]
      decide
    refine ⟨t.intake, ?_, past, ?_, fun both => absurd (both.2.2 _ past) (by decide)⟩
    · rw [runActs, Machine.run_append_of_run lived, Machine.run_snoc ran]
      change t.carrier returnsAtOnce .quiet = _
      rw [carrier, pc', pc]
    · rw [intake_eq]
      change 0 ∈ t.freed
      rw [freed', freed]
      decide

end TransparentOffload
