import Mathlib.Logic.Function.Basic

set_option autoImplicit false

/- The page-protection detector. A page is named by the index `page_index`
computes for it; a write to a read-only page enters `handler` first. -/
namespace TransparentOffload

def maxPg : Nat := 65536

/-- `struct det_fib`. -/
structure DetFib where
  parkClk : Nat
  active : Bool
  deriving DecidableEq, Repr

/-- The detector's globals and the protection of each page. -/
structure Detector where
  detOn : Bool
  detConflicts : Nat
  detFaults : Nat
  gclk : Nat
  pver : Nat → Nat
  writable : Nat → Bool

namespace Detector

/-- The state before `det_init`. -/
def off : Detector := ⟨false, 0, 0, 0, fun _ => 0, fun _ => true⟩

/-- `protect_regions(PROT_READ)`. -/
def protectRegions (d : Detector) : Detector := { d with writable := fun _ => false }

def detReprotect (d : Detector) : Detector := if d.detOn then d.protectRegions else d

def detPark (d : Detector) (df : DetFib) : Detector × DetFib :=
  if d.detOn then (d.protectRegions, { df with parkClk := d.gclk }) else (d, df)

/-- The `SIGSEGV` handler for a write to page `gp` by the fiber of `curDf`. -/
def handler (d : Detector) (curDf : DetFib) (gp : Nat) : Detector :=
  let counted :=
    if gp < maxPg then
      let conflict := curDf.active && decide (d.pver gp > curDf.parkClk)
      { d with
        detConflicts := if conflict then d.detConflicts + 1 else d.detConflicts
        gclk := d.gclk + 1
        pver := Function.update d.pver gp (d.gclk + 1) }
    else d
  { counted with
    detFaults := counted.detFaults + 1
    writable := Function.update counted.writable gp true }

/-- A write to page `gp`: it faults exactly when the page is read-only. -/
def store (d : Detector) (curDf : DetFib) (gp : Nat) : Detector :=
  if d.writable gp then d else d.handler curDf gp

/-- The writes of a stretch of plain code, in order. -/
def stores (d : Detector) (curDf : DetFib) (pages : List Nat) : Detector :=
  pages.foldl (fun d gp => d.store curDf gp) d

@[simp] theorem detReprotect_detConflicts (d : Detector) :
    d.detReprotect.detConflicts = d.detConflicts := by
  unfold detReprotect; split <;> rfl

@[simp] theorem detPark_detConflicts (d : Detector) (df : DetFib) :
    (d.detPark df).1.detConflicts = d.detConflicts := by
  unfold detPark; split <;> rfl

theorem store_writable {d : Detector} {gp : Nat} (writable : d.writable gp = true)
    (curDf : DetFib) : d.store curDf gp = d := by
  rw [store, if_pos writable]

/-- A write that faults on a page with a version. -/
theorem store_inside {d : Detector} {gp : Nat} (fault : d.writable gp = false)
    (inside : gp < maxPg) (curDf : DetFib) : d.store curDf gp =
      { d with
        detConflicts := if curDf.active && decide (d.pver gp > curDf.parkClk)
          then d.detConflicts + 1 else d.detConflicts
        detFaults := d.detFaults + 1
        gclk := d.gclk + 1
        pver := Function.update d.pver gp (d.gclk + 1)
        writable := Function.update d.writable gp true } := by
  simp [store, fault, handler, inside]

/-- A write that faults on a page without one. -/
theorem store_outside {d : Detector} {gp : Nat} (fault : d.writable gp = false)
    (outside : ¬ gp < maxPg) (curDf : DetFib) : d.store curDf gp =
      { d with
        detFaults := d.detFaults + 1
        writable := Function.update d.writable gp true } := by
  simp [store, fault, handler, outside]

/-- The first write to a page after `det_reprotect` faults. -/
theorem store_reprotected {d : Detector} (on : d.detOn = true) {gp : Nat} (inside : gp < maxPg)
    (curDf : DetFib) : d.detReprotect.store curDf gp =
      { d with
        detConflicts := if curDf.active && decide (d.pver gp > curDf.parkClk)
          then d.detConflicts + 1 else d.detConflicts
        detFaults := d.detFaults + 1
        gclk := d.gclk + 1
        pver := Function.update d.pver gp (d.gclk + 1)
        writable := Function.update (fun _ => false) gp true } := by
  rw [detReprotect, if_pos on, store_inside rfl inside]
  rfl

/-- A write leaves its page writable, and every other page as it was. -/
theorem store_writable_iff (d : Detector) (curDf : DetFib) (gp p : Nat) :
    (d.store curDf gp).writable p = true ↔ d.writable p = true ∨ p = gp := by
  by_cases open_ : d.writable gp = true
  · rw [store_writable open_]
    constructor
    · exact Or.inl
    · intro either
      rcases either with before | rfl
      · exact before
      · exact open_
  · rw [store, if_neg open_]
    unfold handler
    by_cases here : p = gp
    · subst here
      simp
    · simp only [Function.update_of_ne here, here, or_false]
      split <;> rfl

theorem stores_writable_iff (d : Detector) (curDf : DetFib) (pages : List Nat) (p : Nat) :
    (d.stores curDf pages).writable p = true ↔ d.writable p = true ∨ p ∈ pages := by
  induction pages generalizing d with
  | nil => simp [stores]
  | cons gp rest ih =>
    change ((d.store curDf gp).stores curDf rest).writable p = true ↔ _
    rw [ih, store_writable_iff, List.mem_cons, or_assoc]

theorem store_detOn (d : Detector) (curDf : DetFib) (gp : Nat) :
    (d.store curDf gp).detOn = d.detOn := by
  unfold store handler
  dsimp only
  split
  · rfl
  · split <;> rfl

theorem stores_detOn (d : Detector) (curDf : DetFib) (pages : List Nat) :
    (d.stores curDf pages).detOn = d.detOn := by
  induction pages generalizing d with
  | nil => rfl
  | cons gp rest ih => exact (ih (d.store curDf gp)).trans (d.store_detOn curDf gp)

theorem le_handler_detConflicts (d : Detector) (curDf : DetFib) (gp : Nat) :
    d.detConflicts ≤ (d.handler curDf gp).detConflicts := by
  unfold handler
  dsimp only
  split
  · dsimp only
    split <;> omega
  · exact Nat.le_refl _

theorem le_store_detConflicts (d : Detector) (curDf : DetFib) (gp : Nat) :
    d.detConflicts ≤ (d.store curDf gp).detConflicts := by
  unfold store
  split
  · exact Nat.le_refl _
  · exact d.le_handler_detConflicts curDf gp

/-- Conflicts are only ever added. -/
theorem le_stores_detConflicts (d : Detector) (curDf : DetFib) (pages : List Nat) :
    d.detConflicts ≤ (d.stores curDf pages).detConflicts := by
  induction pages generalizing d with
  | nil => exact Nat.le_refl _
  | cons gp rest ih => exact Nat.le_trans (d.le_store_detConflicts curDf gp) (ih _)

end Detector

end TransparentOffload
