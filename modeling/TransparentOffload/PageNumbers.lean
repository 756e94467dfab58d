import TransparentOffload.Detector
import Mathlib.Algebra.BigOperators.Group.List.Basic
import Mathlib.Algebra.Group.Int.Defs
import Mathlib.Algebra.Group.Nat.Defs
import Mathlib.Algebra.GroupWithZero.Nat
import Mathlib.Data.Finset.Card
import Mathlib.Data.Finset.Range
import Mathlib.Data.List.Infix
import Mathlib.Data.List.Nodup

set_option autoImplicit false

/- The numbers `page_index` gives to the pages of the protected regions. The pages
of all regions, laid end to end, are the version slots in order; the scan over the
regions computes the place of a page in that row without building it. -/
namespace TransparentOffload

def maxReg : Nat := 8

/-- One pair of `rlo` and `rhi`. -/
structure Region where
  lo : UInt64
  hi : UInt64
  deriving DecidableEq, Repr

namespace Region

/-- The addresses of a region. -/
def Holds (r : Region) (a : UInt64) : Prop := r.lo ≤ a ∧ a < r.hi

instance (r : Region) (a : UInt64) : Decidable (r.Holds a) := inferInstanceAs (Decidable (_ ∧ _))

/-- The bounds of the region are bounds of pages. -/
structure Aligned (pg : UInt64) (r : Region) : Prop where
  ordered : r.lo ≤ r.hi
  lo_page : pg.toNat ∣ r.lo.toNat
  hi_page : pg.toNat ∣ r.hi.toNat

/-- The pages of a region, in order. -/
def pages (pg : UInt64) (r : Region) : List Nat :=
  List.range' (r.lo.toNat / pg.toNat) ((r.hi - r.lo) / pg).toNat

end Region

/-- What `rlo`, `rhi` and `nreg` hold: few regions, of whole pages, and no address in two
of them. -/
structure WellPlaced (pg : UInt64) (regions : List Region) : Prop where
  few : regions.length ≤ maxReg
  aligned : ∀ r ∈ regions, r.Aligned pg
  apart : regions.Pairwise fun r s => ∀ a, ¬ (r.Holds a ∧ s.Holds a)

/-- A line of `/proc/self/maps` in which `sscanf` finds the range and the permissions. -/
structure MapsLine where
  lo : UInt64
  hi : UInt64
  perms : List Char
  path : List Char
  deriving DecidableEq, Repr

/-- The body of the loop of `det_init`: the data of the executable, and the anonymous
segment right after it. -/
def takeLine (exe : List Char) (regions : List Region) (line : MapsLine) : List Region :=
  let p := line.path.dropWhile (· = ' ')
  let isexe := exe <:+: p
  let isbss := p = []
  if line.perms[0]? = some 'r' ∧ line.perms[1]? = some 'w' ∧ (isexe ∨ isbss) ∧
      regions.length < maxReg then
    if isexe ∨ regions.getLast?.map Region.hi = some line.lo
    then regions ++ [⟨line.lo, line.hi⟩] else regions
  else regions

/-- The regions `det_init` finds. -/
def detInitRegions (exe : List Char) (maps : List MapsLine) : List Region :=
  maps.foldl (takeLine exe) []

/-- The regions of `det_init_region`. -/
def detInitRegion (base len : UInt64) : List Region := [⟨base, base + len⟩]

/-- The loop of `page_index`. `uintptr_t` and `PG` meet in unsigned arithmetic, and what
`base`, `npg` and `*outpg` take is converted to `long`. -/
def pageIndexFrom (pg a : UInt64) (base : Int64) : List Region → Option Int64
  | [] => none
  | r :: rest =>
    let npg := ((r.hi - r.lo) / pg).toInt64
    if r.lo ≤ a ∧ a < r.hi then some (base.toUInt64 + (a - r.lo) / pg).toInt64
    else pageIndexFrom pg a (base + npg) rest

def pageIndex (pg : UInt64) (regions : List Region) (a : UInt64) : Option Int64 :=
  pageIndexFrom pg a 0 regions

/-- `handler` at address `a`: an address outside the regions is a real fault, which the
detector leaves to the default action. -/
def Detector.fault (pg : UInt64) (regions : List Region) (d : Detector) (curDf : DetFib)
    (a : UInt64) : Detector :=
  match pageIndex pg regions a with
  | some gp => d.handler curDf gp.toInt.toNat
  | none => d

/-- The handler gives a version to one page only. -/
theorem Detector.handler_pver_of_ne (d : Detector) (curDf : DetFib) {gp page : Nat}
    (other : page ≠ gp) : (d.handler curDf gp).pver page = d.pver page := by
  by_cases inside : gp < maxPg
  · simp [Detector.handler, inside, Function.update_of_ne other]
  · simp [Detector.handler, inside]

/-- The pages of the regions, laid end to end. -/
def slots (pg : UInt64) (regions : List Region) : List Nat := regions.flatMap (Region.pages pg)

/-- The number of pages of the regions. -/
def totalPages (pg : UInt64) (regions : List Region) : Nat :=
  (regions.map fun r => (r.hi.toNat - r.lo.toNat) / pg.toNat).sum

namespace Region

variable {pg : UInt64} {r : Region}

theorem Aligned.pages_length (aligned : r.Aligned pg) :
    (r.pages pg).length = (r.hi.toNat - r.lo.toNat) / pg.toNat := by
  have size : (r.hi - r.lo).toNat = r.hi.toNat - r.lo.toNat :=
    UInt64.toNat_sub_of_le _ _ aligned.ordered
  simp [pages, size]

/-- The addresses of an aligned region are those of its pages. -/
theorem Aligned.mem_pages (aligned : r.Aligned pg) (positive : 0 < pg.toNat) (a : UInt64) :
    a.toNat / pg.toNat ∈ r.pages pg ↔ r.Holds a := by
  have size : (r.hi - r.lo).toNat = r.hi.toNat - r.lo.toNat :=
    UInt64.toNat_sub_of_le _ _ aligned.ordered
  have ordered : r.lo.toNat ≤ r.hi.toNat := UInt64.le_iff_toNat_le.mp aligned.ordered
  obtain ⟨first, lo⟩ := aligned.lo_page
  obtain ⟨last, hi⟩ := aligned.hi_page
  have firstPage : r.lo.toNat / pg.toNat = first := by
    rw [lo, Nat.mul_div_cancel_left _ positive]
  have count : (r.hi.toNat - r.lo.toNat) / pg.toNat = last - first := by
    rw [lo, hi, ← Nat.mul_sub, Nat.mul_div_cancel_left _ positive]
  have above : first ≤ a.toNat / pg.toNat ↔ r.lo.toNat ≤ a.toNat := by
    rw [Nat.le_div_iff_mul_le positive, lo, Nat.mul_comm]
  have below : a.toNat / pg.toNat < last ↔ a.toNat < r.hi.toNat := by
    rw [Nat.div_lt_iff_lt_mul positive, hi, Nat.mul_comm]
  have rising : first ≤ last := by
    rw [lo, hi] at ordered
    exact Nat.le_of_mul_le_mul_left ordered positive
  rw [pages, List.mem_range'_1, UInt64.toNat_div, size, firstPage, count, Holds,
    UInt64.le_iff_toNat_le, UInt64.lt_iff_toNat_lt, ← above, ← below]
  omega

end Region

/-- A word taken as a `long` has the bits of its value. -/
theorem toInt64_eq_ofNat (word : UInt64) : word.toInt64 = Int64.ofNat word.toNat := by
  rw [← UInt64.toInt64_ofNat', UInt64.ofNat_toNat]

theorem idxOf_range' {first count page : Nat} (inside : page ∈ List.range' first count) :
    (List.range' first count).idxOf page = page - first := by
  obtain ⟨low, high⟩ := List.mem_range'_1.mp inside
  have place : page - first < (List.range' first count).length := by
    rw [List.length_range']
    omega
  have there : (List.range' first count)[page - first] = page := by
    rw [List.getElem_range']
    omega
  have distinct : (List.range' first count).Nodup := List.nodup_range'
  have found := distinct.idxOf_getElem (page - first) place
  rwa [there] at found

section

variable {pg : UInt64} {regions : List Region}

theorem mem_slots (positive : 0 < pg.toNat) (aligned : ∀ r ∈ regions, r.Aligned pg) (a : UInt64) :
    a.toNat / pg.toNat ∈ slots pg regions ↔ ∃ r ∈ regions, r.Holds a := by
  rw [slots, List.mem_flatMap]
  constructor
  · intro ⟨r, member, inside⟩
    exact ⟨r, member, ((aligned r member).mem_pages positive a).mp inside⟩
  · intro ⟨r, member, holds⟩
    exact ⟨r, member, ((aligned r member).mem_pages positive a).mpr holds⟩

/-- An address in the first region: its page, counted from the start of the region. -/
theorem pageIndexFrom_here {r : Region} {a : UInt64} (positive : 0 < pg.toNat)
    (aligned : r.Aligned pg) (holds : r.Holds a) (before : Nat) (rest : List Region) :
    pageIndexFrom pg a (Int64.ofNat before) (r :: rest) =
      some (Int64.ofNat (before + (r.pages pg).idxOf (a.toNat / pg.toNat))) := by
  have inside := (aligned.mem_pages positive a).mpr holds
  have offset : ((a - r.lo) / pg).toNat = a.toNat / pg.toNat - r.lo.toNat / pg.toNat := by
    obtain ⟨first, lo⟩ := aligned.lo_page
    rw [UInt64.toNat_div, UInt64.toNat_sub_of_le _ _ holds.1, lo, Nat.sub_mul_div_of_le _ _ _
      (by rw [← lo]; exact UInt64.le_iff_toNat_le.mp holds.1), Nat.mul_div_cancel_left _ positive]
  have place : (r.pages pg).idxOf (a.toNat / pg.toNat) = ((a - r.lo) / pg).toNat := by
    rw [offset]
    exact idxOf_range' inside
  have inRange : r.lo ≤ a ∧ a < r.hi := holds
  rw [pageIndexFrom, if_pos inRange, place, Int64.toUInt64_ofNat',
    UInt64.toInt64_add, UInt64.toInt64_ofNat', toInt64_eq_ofNat, Int64.ofNat_add]

/-- The scan counts the pages of the regions it has passed. -/
theorem pageIndexFrom_eq (positive : 0 < pg.toNat) (aligned : ∀ r ∈ regions, r.Aligned pg)
    (a : UInt64) (before : Nat) :
    pageIndexFrom pg a (Int64.ofNat before) regions =
      if a.toNat / pg.toNat ∈ slots pg regions
      then some (Int64.ofNat (before + (slots pg regions).idxOf (a.toNat / pg.toNat)))
      else none := by
  induction regions generalizing before with
  | nil => simp [pageIndexFrom, slots]
  | cons r rest ih =>
    have here : r.Aligned pg := aligned r List.mem_cons_self
    have later : ∀ s ∈ rest, s.Aligned pg := fun s member =>
      aligned s (List.mem_cons_of_mem r member)
    have split : slots pg (r :: rest) = r.pages pg ++ slots pg rest := by simp [slots]
    by_cases holds : r.Holds a
    · have inside := (here.mem_pages positive a).mpr holds
      rw [pageIndexFrom_here positive here holds, split, List.idxOf_append_of_mem inside,
        if_pos (List.mem_append_left _ inside)]
    · have outside : a.toNat / pg.toNat ∉ r.pages pg := by
        rw [here.mem_pages positive a]
        exact holds
      have passed : Int64.ofNat before + ((r.hi - r.lo) / pg).toInt64 =
          Int64.ofNat (before + (r.pages pg).length) := by
        rw [Int64.ofNat_add, Region.pages, List.length_range', toInt64_eq_ofNat]
      have scan : pageIndexFrom pg a (Int64.ofNat before) (r :: rest) =
          pageIndexFrom pg a (Int64.ofNat (before + (r.pages pg).length)) rest := by
        have outOfRange : ¬ (r.lo ≤ a ∧ a < r.hi) := holds
        rw [pageIndexFrom, if_neg outOfRange, passed]
      rw [scan, ih later, split, List.idxOf_append_of_notMem outside, Nat.add_assoc]
      simp [outside]

theorem pageIndex_eq (positive : 0 < pg.toNat) (aligned : ∀ r ∈ regions, r.Aligned pg)
    (a : UInt64) :
    pageIndex pg regions a =
      if a.toNat / pg.toNat ∈ slots pg regions
      then some (Int64.ofNat ((slots pg regions).idxOf (a.toNat / pg.toNat))) else none := by
  have scan := pageIndexFrom_eq positive aligned a 0
  rwa [Nat.zero_add] at scan

/-- A page of a region starts at an address of the region. -/
theorem Region.Aligned.address_of_page {r : Region} (aligned : r.Aligned pg)
    (positive : 0 < pg.toNat) {page : Nat} (inside : page ∈ r.pages pg) :
    ∃ a, a.toNat / pg.toNat = page ∧ page * pg.toNat < r.hi.toNat ∧ r.Holds a := by
  have below : page * pg.toNat < r.hi.toNat := by
    obtain ⟨last, hi⟩ := aligned.hi_page
    obtain ⟨first, lo⟩ := aligned.lo_page
    have size : (r.hi - r.lo).toNat = r.hi.toNat - r.lo.toNat :=
      UInt64.toNat_sub_of_le _ _ aligned.ordered
    have placed := List.mem_range'_1.mp inside
    rw [UInt64.toNat_div, size, lo, hi, ← Nat.mul_sub, Nat.mul_div_cancel_left _ positive,
      Nat.mul_div_cancel_left _ positive] at placed
    rw [hi, Nat.mul_comm]
    apply Nat.mul_lt_mul_of_pos_left _ positive
    omega
  have start : (UInt64.ofNat (page * pg.toNat)).toNat = page * pg.toNat :=
    UInt64.toNat_ofNat_of_lt' (Nat.lt_trans below r.hi.toNat_lt)
  have pageOf : (UInt64.ofNat (page * pg.toNat)).toNat / pg.toNat = page := by
    rw [start, Nat.mul_div_cancel _ positive]
  refine ⟨_, pageOf, below, (aligned.mem_pages positive _).mp ?_⟩
  rwa [pageOf]

theorem slots_length (aligned : ∀ r ∈ regions, r.Aligned pg) :
    (slots pg regions).length = totalPages pg regions := by
  rw [slots, List.length_flatMap, totalPages]
  congr 1
  apply List.map_congr_left
  intro r member
  exact (aligned r member).pages_length

/-- No page has two places. -/
theorem slots_nodup (positive : 0 < pg.toNat) (placed : WellPlaced pg regions) :
    (slots pg regions).Nodup := by
  rw [slots, List.nodup_flatMap]
  constructor
  · intro r _
    exact List.nodup_range'
  · apply placed.apart.imp_of_mem
    intro r s inR inS apart page inFirst inSecond
    obtain ⟨a, pageOf, _, holds⟩ := (placed.aligned r inR).address_of_page positive inFirst
    apply apart a
    constructor
    · exact holds
    · apply ((placed.aligned s inS).mem_pages positive a).mp
      rwa [pageOf]

/-- The regions fit in the address space, so `base` never leaves the range of a `long`. -/
theorem totalPages_lt (pageSize : 1 < pg.toNat) (placed : WellPlaced pg regions) :
    totalPages pg regions < 2 ^ 63 := by
  have positive : 0 < pg.toNat := by omega
  have low : (slots pg regions).toFinset ⊆ Finset.range (2 ^ 63 - 1) := by
    intro page member
    rw [List.mem_toFinset, slots, List.mem_flatMap] at member
    obtain ⟨r, inside, member⟩ := member
    obtain ⟨_, _, below, _⟩ := (placed.aligned r inside).address_of_page positive member
    obtain ⟨last, hi⟩ := (placed.aligned r inside).hi_page
    have top : r.hi.toNat < 2 ^ 64 := r.hi.toNat_lt
    rw [hi, Nat.mul_comm page] at below
    have earlier : page < last := Nat.lt_of_mul_lt_mul_left below
    have doubled : 2 * last ≤ pg.toNat * last := Nat.mul_le_mul_right last pageSize
    rw [Finset.mem_range]
    omega
  have count := Finset.card_le_card low
  rw [List.toFinset_card_of_nodup (slots_nodup positive placed), Finset.card_range,
    slots_length placed.aligned] at count
  omega

end

section

variable {pg : UInt64} {exe : List Char}

theorem takeLine_eq (exe : List Char) (regions : List Region) (line : MapsLine) :
    takeLine exe regions line = regions ∨
      regions.length < maxReg ∧ takeLine exe regions line = regions ++ [⟨line.lo, line.hi⟩] := by
  unfold takeLine
  dsimp only
  split
  · rename_i taken
    split
    · exact .inr ⟨taken.2.2.2, rfl⟩
    · exact .inl rfl
  · exact .inl rfl

/-- The kernel lists mappings of whole pages that do not overlap. -/
structure Mapped (pg : UInt64) (maps : List MapsLine) : Prop where
  aligned : ∀ line ∈ maps, (Region.mk line.lo line.hi).Aligned pg
  apart : maps.Pairwise fun first second =>
    ∀ a, ¬ ((Region.mk first.lo first.hi).Holds a ∧ (Region.mk second.lo second.hi).Holds a)

theorem foldl_takeLine_wellPlaced {maps : List MapsLine} {regions : List Region}
    (mapped : Mapped pg maps) (placed : WellPlaced pg regions)
    (fresh : ∀ r ∈ regions, ∀ line ∈ maps, ∀ a,
      ¬ (r.Holds a ∧ (Region.mk line.lo line.hi).Holds a)) :
    WellPlaced pg (maps.foldl (takeLine exe) regions) := by
  induction maps generalizing regions with
  | nil => exact placed
  | cons line maps ih =>
    have later : Mapped pg maps :=
      ⟨fun other member => mapped.aligned other (List.mem_cons_of_mem line member),
        (List.pairwise_cons.mp mapped.apart).2⟩
    have ahead := (List.pairwise_cons.mp mapped.apart).1
    rw [List.foldl_cons]
    rcases takeLine_eq exe regions line with skipped | ⟨room, taken⟩
    · rw [skipped]
      apply ih later placed
      intro r member other inLater
      exact fresh r member other (List.mem_cons_of_mem line inLater)
    · rw [taken]
      apply ih later
      · refine ⟨by simp; omega, ?_, ?_⟩
        · intro r member
          rcases List.mem_append.mp member with old | new
          · exact placed.aligned r old
          · cases List.mem_singleton.mp new
            exact mapped.aligned line List.mem_cons_self
        · apply List.pairwise_append.mpr
          refine ⟨placed.apart, List.pairwise_singleton _ _, ?_⟩
          intro r member s new
          cases List.mem_singleton.mp new
          exact fresh r member line List.mem_cons_self
      · intro r member other inLater
        rcases List.mem_append.mp member with old | new
        · exact fresh r old other (List.mem_cons_of_mem line inLater)
        · cases List.mem_singleton.mp new
          exact ahead other inLater

/-- What `det_init` finds has its pages numbered one to one. -/
theorem detInitRegions_wellPlaced {maps : List MapsLine} (mapped : Mapped pg maps) :
    WellPlaced pg (detInitRegions exe maps) := by
  apply foldl_takeLine_wellPlaced mapped
  · exact ⟨by simp, by simp, List.Pairwise.nil⟩
  · simp

theorem detInitRegion_wellPlaced {base len : UInt64} (ends : base.toNat + len.toNat < 2 ^ 64)
    (base_page : pg.toNat ∣ base.toNat) (len_page : pg.toNat ∣ len.toNat) :
    WellPlaced pg (detInitRegion base len) := by
  have hi : (base + len).toNat = base.toNat + len.toNat := by
    rw [UInt64.toNat_add, Nat.mod_eq_of_lt ends]
  refine ⟨by simp [detInitRegion, maxReg], ?_, List.pairwise_singleton _ _⟩
  intro r member
  cases List.mem_singleton.mp member
  constructor
  · rw [UInt64.le_iff_toNat_le, hi]
    exact Nat.le_add_right _ _
  · exact base_page
  · show pg.toNat ∣ (base + len).toNat
    rw [hi]
    exact Nat.dvd_add base_page len_page

end

section

variable {pg : UInt64} {regions : List Region}

/-- Where `page_index` succeeds, its number is the place of the page among the slots. -/
theorem pageIndex_toInt (pageSize : 1 < pg.toNat) (placed : WellPlaced pg regions) {a : UInt64}
    {gp : Int64} (found : pageIndex pg regions a = some gp) :
    a.toNat / pg.toNat ∈ slots pg regions ∧
      gp.toInt = (slots pg regions).idxOf (a.toNat / pg.toNat) := by
  have positive : 0 < pg.toNat := by omega
  rw [pageIndex_eq positive placed.aligned] at found
  by_cases inside : a.toNat / pg.toNat ∈ slots pg regions
  · have place := List.idxOf_lt_length_of_mem inside
    have total := totalPages_lt pageSize placed
    rw [slots_length placed.aligned] at place
    rw [if_pos inside] at found
    refine ⟨inside, ?_⟩
    rw [← Option.some.inj found]
    exact Int64.toInt_ofNat_of_lt (Nat.lt_trans place total)
  · rw [if_neg inside] at found
    cases found

/-- Every place of the slots is the number of an address. -/
theorem pageIndex_onto (pageSize : 1 < pg.toNat) (placed : WellPlaced pg regions) {slot : Nat}
    (below : slot < totalPages pg regions) :
    ∃ a gp, pageIndex pg regions a = some gp ∧ gp.toInt = slot := by
  have positive : 0 < pg.toNat := by omega
  have inRow : slot < (slots pg regions).length := by rwa [slots_length placed.aligned]
  have member := List.getElem_mem inRow
  obtain ⟨r, inside, paged⟩ := List.mem_flatMap.mp member
  obtain ⟨a, pageOf, _, _⟩ := (placed.aligned r inside).address_of_page positive paged
  have found : pageIndex pg regions a =
      some (Int64.ofNat ((slots pg regions).idxOf (slots pg regions)[slot])) := by
    rw [pageIndex_eq positive placed.aligned, pageOf, if_pos member]
  refine ⟨a, _, found, ?_⟩
  rw [(pageIndex_toInt pageSize placed found).2, pageOf,
    (slots_nodup positive placed).idxOf_getElem slot inRow]

theorem pageIndex_isSome (positive : 0 < pg.toNat) (placed : WellPlaced pg regions) (a : UInt64) :
    (pageIndex pg regions a).isSome ↔ ∃ r ∈ regions, r.Holds a := by
  rw [← mem_slots positive placed.aligned, pageIndex_eq positive placed.aligned]
  by_cases inside : a.toNat / pg.toNat ∈ slots pg regions <;> simp [inside]

theorem pageIndex_eq_iff (pageSize : 1 < pg.toNat) (placed : WellPlaced pg regions)
    {a b : UInt64} {i j : Int64} (first : pageIndex pg regions a = some i)
    (second : pageIndex pg regions b = some j) :
    i = j ↔ a.toNat / pg.toNat = b.toNat / pg.toNat := by
  obtain ⟨member, left⟩ := pageIndex_toInt pageSize placed first
  obtain ⟨_, right⟩ := pageIndex_toInt pageSize placed second
  rw [← Int64.toInt_inj, left, right, Int.natCast_inj]
  exact List.idxOf_inj member

theorem pageIndex_range (pageSize : 1 < pg.toNat) (placed : WellPlaced pg regions) (i : Int64) :
    (∃ a, pageIndex pg regions a = some i) ↔ 0 ≤ i.toInt ∧ i.toInt < totalPages pg regions := by
  constructor
  · intro ⟨a, found⟩
    obtain ⟨member, place⟩ := pageIndex_toInt pageSize placed found
    have below := List.idxOf_lt_length_of_mem member
    rw [slots_length placed.aligned] at below
    omega
  · intro ⟨low, high⟩
    have below : i.toInt.toNat < totalPages pg regions := by omega
    obtain ⟨a, gp, found, value⟩ := pageIndex_onto pageSize placed below
    have same : gp = i := by
      apply Int64.toInt_inj.mp
      omega
    exact ⟨a, by rw [found, same]⟩

/-- A fault gives no version to a page it is not on. -/
theorem fault_pver_other (pageSize : 1 < pg.toNat) (placed : WellPlaced pg regions)
    (d : Detector) (curDf : DetFib) {a b : UInt64} {j : Int64}
    (covered : pageIndex pg regions b = some j)
    (apart : a.toNat / pg.toNat ≠ b.toNat / pg.toNat) :
    (d.fault pg regions curDf a).pver j.toInt.toNat = d.pver j.toInt.toNat := by
  rw [Detector.fault]
  cases found : pageIndex pg regions a with
  | none => rfl
  | some i =>
    have different : i ≠ j := by
      rw [Ne, pageIndex_eq_iff pageSize placed found covered]
      exact apart
    have low := ((pageIndex_range pageSize placed i).mp ⟨a, found⟩).1
    have low' := ((pageIndex_range pageSize placed j).mp ⟨b, covered⟩).1
    have other : j.toInt.toNat ≠ i.toInt.toNat := by
      rw [Ne, ← Int64.toInt_inj] at different
      omega
    exact d.handler_pver_of_ne curDf other

/-- The version slots and the covered pages are in one-to-one correspondence. -/
theorem pageIndex_numbers_pages (pageSize : 1 < pg.toNat) (placed : WellPlaced pg regions) :
    (∀ a, (pageIndex pg regions a).isSome ↔ ∃ r ∈ regions, r.Holds a) ∧
      (∀ a b i j, pageIndex pg regions a = some i → pageIndex pg regions b = some j →
        (i = j ↔ a.toNat / pg.toNat = b.toNat / pg.toNat)) ∧
      (∀ i : Int64, (∃ a, pageIndex pg regions a = some i) ↔
        0 ≤ i.toInt ∧ i.toInt < totalPages pg regions) ∧
      ∀ (d : Detector) (curDf : DetFib) (a b : UInt64) (j : Int64),
        pageIndex pg regions b = some j → a.toNat / pg.toNat ≠ b.toNat / pg.toNat →
        (d.fault pg regions curDf a).pver j.toInt.toNat = d.pver j.toInt.toNat := by
  have positive : 0 < pg.toNat := by omega
  refine ⟨pageIndex_isSome positive placed, ?_, pageIndex_range pageSize placed, ?_⟩
  · intro a b i j first second
    exact pageIndex_eq_iff pageSize placed first second
  · intro d curDf a b j covered apart
    exact fault_pver_other pageSize placed d curDf covered apart

end

/-- What the kernel lists of a program: its code, its data, the segment behind them, and a
library's data. -/
def programMaps : List MapsLine :=
  [⟨0x1000, 0x3000, ['r', '-', 'x'], [' ', '/', 's']⟩,
    ⟨0x3000, 0x5000, ['r', 'w', '-'], [' ', '/', 's']⟩, ⟨0x5000, 0x8000, ['r', 'w', '-'], []⟩,
    ⟨0x9000, 0xb000, ['r', 'w', '-'], [' ', '/', 'l']⟩]

theorem programMaps_mapped : Mapped 4096 programMaps := by
  constructor
  · intro line member
    simp only [programMaps, List.mem_cons, List.not_mem_nil, or_false] at member
    rcases member with rfl | rfl | rfl | rfl <;> exact ⟨by decide, by decide, by decide⟩
  · apply List.Pairwise.imp (R := fun first second : MapsLine => first.hi ≤ second.lo)
    · intro first second below a both
      have under : a < first.hi := both.1.2
      have above : second.lo ≤ a := both.2.1
      rw [UInt64.le_iff_toNat_le] at below above
      rw [UInt64.lt_iff_toNat_lt] at under
      omega
    · decide

/-- `det_init` takes two of the four mappings, whose five pages have the numbers up to 4. -/
theorem twoRegions_numbered :
    detInitRegions ['/', 's'] programMaps = [⟨0x3000, 0x5000⟩, ⟨0x5000, 0x8000⟩] ∧
      ∀ i : Int64, (∃ a, pageIndex 4096 (detInitRegions ['/', 's'] programMaps) a = some i) ↔
        0 ≤ i.toInt ∧ i.toInt < 5 :=
  ⟨by decide, (pageIndex_numbers_pages (by decide)
    (detInitRegions_wellPlaced programMaps_mapped)).2.2.1⟩

/-- The region of a caller that comes with whole pages. -/
example : ∀ i : Int64, (∃ a, pageIndex 4096 (detInitRegion 0x20000 0x3000) a = some i) ↔
    0 ≤ i.toInt ∧ i.toInt < 3 :=
  pageIndex_range (by decide) (detInitRegion_wellPlaced (by decide) (by decide) (by decide))

end TransparentOffload
