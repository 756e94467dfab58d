import Mathlib.Data.Nat.Bitwise
import Mathlib.Tactic.Ring
import TransparentOffload.ErrQueue
import TransparentOffload.Kernel

set_option autoImplicit false

/- `coop_err`: coroutines of one OS thread that stamp `errno` and the OpenSSL error queue,
yield, and look whether they find their own stamps. The scheduler resumes them in turn. -/
namespace TransparentOffload.CoopErr

/-- `SAVE`, `ROUNDS` (no rounds if it is negative) and `NCO`. -/
structure Config where
  save : Bool
  rounds : Nat
  nco : Nat

def errbuf : Nat := 64
def errLibUser : Nat := 128

/-- Where a coroutine is: not yet started, in the `coro_yield` of round `r`, or past its
loop with `done` set. -/
inductive Place
  | start
  | yielded (r : Nat)
  | ended
  deriving DecidableEq, Repr

/-- `struct coro`; `savedCodes` is the part of `saved_codes` in use. -/
structure Coro where
  place : Place
  savedErrno : Errno
  savedCodes : List Nat
  deriving DecidableEq, Repr

/-- The thread's `errno` and error queue, the coroutines, and the three counts. -/
structure State where
  errno : Errno
  errq : ErrQueue
  co : Nat → Coro
  checks : Nat
  corruptionErrno : Nat
  corruptionErr : Nat

def State.init : State := ⟨0, [], fun _ => ⟨.start, 0, []⟩, 0, 0, 0⟩

/-- `err_drain`: the read that finds the buffer full has already removed its code. -/
def errDrain : ErrQueue → List Nat → List Nat × ErrQueue
  | [], buf => (buf, [])
  | e :: rest, buf =>
    if e.code ≠ 0 ∧ buf.length < errbuf then errDrain rest (buf ++ [e.code]) else (buf, rest)

/-- `err_restore`, behind `ERR_clear_error`. -/
def errRestore (i : Nat) (codes : List Nat) : ErrQueue := ErrQueue.refill i codes

/-- `ERR_peek_last_error`: the newest code, zero on an empty queue. -/
def peekLast (q : ErrQueue) : Nat := (q.getLast?.map ErrEntry.code).getD 0

def myErrno (i : Nat) : Errno := 1000 + i
def myReason (i : Nat) : Nat := 0x100 + i

namespace State

def setCoro (s : State) (i : Nat) (c : Coro) : State :=
  { s with co := Function.update s.co i c }

/-- What a coroutine sets before its yield. -/
def stamp (s : State) (i : Nat) : State :=
  { s with errno := myErrno i, errq := ErrQueue.put [] ⟨errPack errLibUser (myReason i), i⟩ }

/-- `coro_yield` up to its switch. -/
def yieldOut (save : Bool) (s : State) (i r : Nat) : State :=
  if save then
    { s with errq := (errDrain s.errq []).2 }.setCoro i
      { place := .yielded r, savedErrno := s.errno, savedCodes := (errDrain s.errq []).1 }
  else s.setCoro i { s.co i with place := .yielded r }

/-- `coro_yield` behind its switch. -/
def yieldIn (save : Bool) (s : State) (i : Nat) : State :=
  if save then
    { s with errno := (s.co i).savedErrno, errq := errRestore i (s.co i).savedCodes }
  else s

/-- What a coroutine looks at behind its yield. -/
def check (s : State) (i : Nat) : State :=
  { s with
    checks := s.checks + 1
    corruptionErrno := if s.errno ≠ myErrno i then s.corruptionErrno + 1 else s.corruptionErrno
    corruptionErr :=
      if errReason (peekLast s.errq) ≠ myReason i then s.corruptionErr + 1
      else s.corruptionErr }

/-- The loop test of `coro_body` with round `r`, up to the next switch. -/
def enter (c : Config) (s : State) (i r : Nat) : State :=
  if r < c.rounds then (s.stamp i).yieldOut c.save i r
  else s.setCoro i { s.co i with place := .ended }

/-- `swapcontext(&sched_ctx, &co[i].ctx)`: coroutine `i` runs until it switches back. -/
def resume (c : Config) (s : State) (i : Nat) : State :=
  match (s.co i).place with
  | .start => s.enter c i 0
  | .yielded r => ((s.yieldIn c.save i).check i).enter c i (r + 1)
  | .ended => s

/-- One round of the scheduler's inner loop, with its count `live`. -/
def turn (c : Config) (s : State × Nat) (i : Nat) : State × Nat :=
  if (s.1.co i).place = .ended then s
  else
    let t := s.1.resume c i
    (t, if (t.co i).place = .ended then s.2 else s.2 + 1)

def pass (c : Config) (s : State) : State × Nat := (List.range c.nco).foldl (turn c) (s, 0)

end State

/-- The scheduler's `while(live>0)`, for at most so many passes. -/
def loop (c : Config) : Nat → State → Option State
  | 0, _ => none
  | fuel + 1, s => if 0 < (s.pass c).2 then loop c fuel (s.pass c).1 else some (s.pass c).1

/-- `main`, which starts with `live=NCO`. -/
def main (c : Config) (fuel : Nat) : Option State :=
  if 0 < c.nco then loop c fuel .init else some .init

/-- The code of a coroutine's stamp. -/
def stampCode (i : Nat) : Nat := errPack errLibUser (myReason i)

theorem errReason_pack (lib : Nat) {reason : Nat} (small : reason < 2 ^ 23) :
    errReason (errPack lib reason) = reason := by
  unfold errReason errPack
  rw [Nat.and_two_pow_sub_one_eq_mod reason 23, Nat.and_two_pow_sub_one_eq_mod _ 23,
    Nat.mod_eq_of_lt small, ← Nat.shiftLeft_add_eq_or_of_lt small, Nat.shiftLeft_eq]
  omega

theorem errLib_pack {lib reason : Nat} (known : lib < 2 ^ 8) (small : reason < 2 ^ 23) :
    errLib (errPack lib reason) = lib := by
  unfold errLib errPack
  rw [Nat.and_two_pow_sub_one_eq_mod reason 23, Nat.and_two_pow_sub_one_eq_mod lib 8,
    Nat.and_two_pow_sub_one_eq_mod _ 8, Nat.mod_eq_of_lt small, Nat.mod_eq_of_lt known,
    ← Nat.shiftLeft_add_eq_or_of_lt small, Nat.shiftLeft_eq, Nat.shiftRight_eq_div_pow]
  omega

/-- Coroutines whose markers fit the reason field. -/
def Marked (i : Nat) : Prop := myReason i < 2 ^ 23

theorem errReason_stampCode {i : Nat} (marked : Marked i) : errReason (stampCode i) = myReason i :=
  errReason_pack errLibUser marked

theorem stampCode_ne_zero {i : Nat} (marked : Marked i) : stampCode i ≠ 0 := by
  intro zero
  have reason := errReason_stampCode marked
  rw [zero] at reason
  unfold myReason at reason
  change 0 = _ at reason
  omega

/-- Two coroutines never leave the same mark. -/
theorem marks_differ {i j : Nat} (marked : Marked i) (apart : i ≠ j) :
    errReason (stampCode i) ≠ myReason j := by
  rw [errReason_stampCode marked]
  unfold myReason
  omega

@[simp] theorem stamp_errq (s : State) (i : Nat) : (s.stamp i).errq = [⟨stampCode i, i⟩] := by
  simp [State.stamp, ErrQueue.put, errNumErrors, stampCode]

/-- What is drained of a coroutine's own stamp is its code. -/
theorem errDrain_stamp {i : Nat} (marked : Marked i) :
    errDrain [⟨stampCode i, i⟩] [] = ([stampCode i], []) := by
  simp [errDrain, stampCode_ne_zero marked, errbuf]

/-- Raising the drained code again makes the queue what it was. -/
theorem errRestore_stamp {i : Nat} (marked : Marked i) :
    errRestore i [stampCode i] = [⟨stampCode i, i⟩] := by
  have packed : errPack (errLib (stampCode i)) (errReason (stampCode i)) = stampCode i := by
    rw [errReason_stampCode marked, stampCode, errLib_pack (by decide) marked]
  simp [errRestore, ErrQueue.refill, packed, ErrQueue.put, errNumErrors]

/-- What a parked coroutine will find: its saved state, or whatever the thread has. -/
def Finds (save : Bool) (s : State) (i : Nat) (errno : Errno) (code : Nat) : Prop :=
  if save then (s.co i).savedErrno = errno ∧ (s.co i).savedCodes = [code]
  else s.errno = errno ∧ ∃ j, s.errq = [⟨code, j⟩]

namespace State

variable {c : Config} {s : State} {i : Nat}

/-- A coroutine that goes on with another round has stamped and yielded. -/
structure Stamped (c : Config) (s t : State) (i r : Nat) : Prop where
  place : (t.co i).place = .yielded r
  others : ∀ j, j ≠ i → t.co j = s.co j
  saved : c.save = true → (t.co i).savedErrno = myErrno i ∧ (t.co i).savedCodes = [stampCode i]
  thread : c.save = false → t.errno = myErrno i ∧ t.errq = [⟨stampCode i, i⟩]
  counts : t.checks = s.checks ∧ t.corruptionErrno = s.corruptionErrno ∧
    t.corruptionErr = s.corruptionErr

theorem enter_more {r : Nat} (marked : Marked i) (more : r < c.rounds) :
    Stamped c s (s.enter c i r) i r := by
  unfold enter
  rw [if_pos more, yieldOut, stamp_errq, errDrain_stamp marked]
  split
  · rename_i save
    refine ⟨?_, ?_, ?_, ?_, rfl, rfl, rfl⟩
    · simp [setCoro]
    · intro j other
      exact Function.update_of_ne other ..
    · intro _
      simp [setCoro, stamp]
    · simp [save]
  · rename_i naive
    refine ⟨?_, ?_, ?_, ?_, rfl, rfl, rfl⟩
    · simp [setCoro]
    · intro j other
      exact Function.update_of_ne other ..
    · intro save
      exact absurd save naive
    · intro _
      exact ⟨rfl, stamp_errq s i⟩

/-- One that is through has only set `done`. -/
theorem enter_last {r : Nat} (last : c.rounds ≤ r) :
    s.enter c i r = s.setCoro i { s.co i with place := .ended } :=
  if_neg (Nat.not_lt.mpr last)

/-- A coroutine that finds its own stamp counts nothing but the check. -/
theorem check_own (marked : Marked i) (own : Finds c.save s i (myErrno i) (stampCode i)) :
    ((s.yieldIn c.save i).check i).checks = s.checks + 1 ∧
      ((s.yieldIn c.save i).check i).corruptionErrno = s.corruptionErrno ∧
      ((s.yieldIn c.save i).check i).corruptionErr = s.corruptionErr := by
  unfold Finds at own
  unfold yieldIn
  split at own
  · rename_i save
    simp [save, check, own.1, own.2, errRestore_stamp marked, peekLast,
      errReason_stampCode marked]
  · rename_i naive
    obtain ⟨errno, j, queue⟩ := own
    simp [naive, check, errno, queue, peekLast, errReason_stampCode marked]

/-- One that finds another's counts it twice. -/
theorem check_other {j : Nat} (marked : Marked j) (apart : j ≠ i)
    (naive : c.save = false) (errno : s.errno = myErrno j)
    (queue : s.errq = [⟨stampCode j, j⟩]) :
    ((s.yieldIn c.save i).check i).checks = s.checks + 1 ∧
      ((s.yieldIn c.save i).check i).corruptionErrno = s.corruptionErrno + 1 ∧
      ((s.yieldIn c.save i).check i).corruptionErr = s.corruptionErr + 1 := by
  have numbers : myErrno j ≠ myErrno i := by
    show 1000 + j ≠ 1000 + i
    omega
  simp [naive, yieldIn, check, errno, queue, peekLast, numbers, marks_differ marked apart]

end State

/-- Where a coroutine is after so many turns. -/
def placeAfter (c : Config) : Nat → Place
  | 0 => .start
  | r + 1 => if r < c.rounds then .yielded r else .ended

/-- The checks made in front of turn `i` of pass `p`. -/
def checksBefore (c : Config) : Nat → Nat → Nat
  | 0, _ => 0
  | q + 1, i => q * c.nco + i

/-- Who stamped the thread's state last, in front of turn `i` of pass `p`. -/
def lastStamp (c : Config) (p i : Nat) : Nat :=
  if p < c.rounds ∧ 0 < i then i - 1 else c.nco - 1

/-- The corruptions counted: without `SAVE` every check but the very last one. -/
def corruptionsBefore (c : Config) (p i : Nat) : Nat :=
  if c.save then 0
  else if p = c.rounds ∧ i = c.nco then checksBefore c p i - 1
  else checksBefore c p i

/-- The state in front of turn `i` of pass `p`, with the count `live`. -/
structure Standing (c : Config) (p i : Nat) (s : State × Nat) : Prop where
  places : ∀ j < c.nco, (s.1.co j).place = placeAfter c (if j < i then p + 1 else p)
  live : s.2 = if p < c.rounds then i else 0
  checks : s.1.checks = checksBefore c p i
  saved : c.save = true → ∀ j < c.nco, ∀ r, (s.1.co j).place = .yielded r →
    (s.1.co j).savedErrno = myErrno j ∧ (s.1.co j).savedCodes = [stampCode j]
  thread : c.save = false → 0 < c.rounds → 0 < p ∨ 0 < i →
    s.1.errno = myErrno (lastStamp c p i) ∧
      s.1.errq = [⟨stampCode (lastStamp c p i), lastStamp c p i⟩]
  errnos : s.1.corruptionErrno = corruptionsBefore c p i
  errs : s.1.corruptionErr = corruptionsBefore c p i

section Turns

variable {c : Config} {p i : Nat} {s : State × Nat}

@[simp] theorem checked_co (save : Bool) (s : State) (i : Nat) :
    ((s.yieldIn save i).check i).co = s.co := by
  unfold State.yieldIn State.check
  split <;> rfl

/-- The state in which a coroutine comes to its loop test. -/
def looked (c : Config) (p i : Nat) (s : State) : State :=
  if p = 0 then s else (s.yieldIn c.save i).check i

theorem resume_eq (inside : i < c.nco) (within : p ≤ c.rounds) (standing : Standing c p i s) :
    s.1.resume c i = (looked c p i s.1).enter c i p := by
  have place := standing.places i inside
  rw [if_neg (Nat.lt_irrefl i)] at place
  unfold State.resume looked
  cases p with
  | zero =>
    rw [place]
    rfl
  | succ q =>
    rw [placeAfter, if_pos (show q < c.rounds by omega)] at place
    rw [place, if_neg (Nat.succ_ne_zero q)]

/-- The last stamp is the coroutine's own only in the very last turn. -/
theorem lastStamp_eq_iff (several : 2 ≤ c.nco) (within : p ≤ c.rounds) :
    lastStamp c p i = i ↔ p = c.rounds ∧ i + 1 = c.nco := by
  unfold lastStamp
  split <;> omega

/-- A turn's check, if it makes one, raises the counts as it should. -/
theorem looked_counts (several : 2 ≤ c.nco) (marked : ∀ j < c.nco, Marked j)
    (inside : i < c.nco) (within : p ≤ c.rounds) (standing : Standing c p i s) :
    (looked c p i s.1).checks = checksBefore c p (i + 1) ∧
      (looked c p i s.1).corruptionErrno = corruptionsBefore c p (i + 1) ∧
      (looked c p i s.1).corruptionErr = corruptionsBefore c p (i + 1) := by
  have before : corruptionsBefore c p i = if c.save then 0 else checksBefore c p i := by
    unfold corruptionsBefore
    rw [if_neg (show ¬ (p = c.rounds ∧ i = c.nco) by omega)]
  cases p with
  | zero =>
    have none_ : ∀ j, corruptionsBefore c 0 j = 0 := by
      intro j
      simp [corruptionsBefore, checksBefore]
    refine ⟨standing.checks, ?_, ?_⟩
    · rw [none_]
      exact standing.errnos.trans (none_ i)
    · rw [none_]
      exact standing.errs.trans (none_ i)
  | succ q =>
    have more : checksBefore c (q + 1) (i + 1) = checksBefore c (q + 1) i + 1 := by
      simp only [checksBefore]
      omega
    have shown : looked c (q + 1) i s.1 = (s.1.yieldIn c.save i).check i :=
      if_neg (Nat.succ_ne_zero q)
    rw [shown]
    by_cases save : c.save = true
    · have place := standing.places i inside
      rw [if_neg (Nat.lt_irrefl i), placeAfter, if_pos (show q < c.rounds by omega)] at place
      have own : Finds c.save s.1 i (myErrno i) (stampCode i) := by
        rw [Finds, if_pos save]
        exact standing.saved save i inside q place
      obtain ⟨checks, errnos, errs⟩ := State.check_own (marked i inside) own
      rw [checks, errnos, errs, standing.checks, standing.errnos, standing.errs, more]
      simp [corruptionsBefore, save]
    · rw [Bool.not_eq_true] at save
      obtain ⟨errno, queue⟩ := standing.thread save (by omega) (Or.inl (Nat.succ_pos q))
      have after : corruptionsBefore c (q + 1) (i + 1) =
          if lastStamp c (q + 1) i = i then checksBefore c (q + 1) i
          else checksBefore c (q + 1) i + 1 := by
        unfold corruptionsBefore
        rw [save, more]
        simp only [Bool.false_eq_true, ↓reduceIte, lastStamp_eq_iff several within]
        split <;> rfl
      rw [save] at before
      by_cases mine : lastStamp c (q + 1) i = i
      · have own : Finds c.save s.1 i (myErrno i) (stampCode i) := by
          rw [mine] at errno queue
          rw [Finds, save]
          exact ⟨errno, i, queue⟩
        obtain ⟨checks, errnos, errs⟩ := State.check_own (marked i inside) own
        rw [checks, errnos, errs, standing.checks, standing.errnos, standing.errs, more, after,
          if_pos mine, before]
        exact ⟨rfl, rfl, rfl⟩
      · have other : Marked (lastStamp c (q + 1) i) := by
          apply marked
          unfold lastStamp
          split <;> omega
        obtain ⟨checks, errnos, errs⟩ := State.check_other other mine save errno queue
        rw [checks, errnos, errs, standing.checks, standing.errnos, standing.errs, more, after,
          if_neg mine, before]
        exact ⟨rfl, rfl, rfl⟩

/-- A turn brings the coroutines to the next turn of the pass. -/
theorem turn_standing (several : 2 ≤ c.nco) (marked : ∀ j < c.nco, Marked j)
    (inside : i < c.nco) (within : p ≤ c.rounds) (standing : Standing c p i s) :
    Standing c p (i + 1) (State.turn c s i) := by
  obtain ⟨checks, errnos, errs⟩ := looked_counts several marked inside within standing
  have co : (looked c p i s.1).co = s.1.co := by
    unfold looked
    split
    · rfl
    · exact checked_co ..
  have thread : c.save = false → (looked c p i s.1).errno = s.1.errno ∧
      (looked c p i s.1).errq = s.1.errq := by
    intro naive
    unfold looked State.yieldIn State.check
    rw [naive]
    split <;> exact ⟨rfl, rfl⟩
  have here : (s.1.co i).place ≠ .ended := by
    rw [standing.places i inside, if_neg (Nat.lt_irrefl i)]
    cases p with
    | zero => simp [placeAfter]
    | succ q => simp [placeAfter, show q < c.rounds by omega]
  have places : ∀ {t : State} {place : Place}, (t.co i).place = place →
      place = placeAfter c (p + 1) → (∀ j, j ≠ i → t.co j = s.1.co j) →
      ∀ j < c.nco, (t.co j).place = placeAfter c (if j < i + 1 then p + 1 else p) := by
    intro t place now fits others j known
    by_cases mine : j = i
    · subst mine
      rw [now, fits, if_pos (Nat.lt_succ_self j)]
    · rw [others j mine, standing.places j known]
      congr 1
      exact if_congr (by omega) rfl rfl
  unfold State.turn
  rw [if_neg here, resume_eq inside within standing]
  by_cases more : p < c.rounds
  · have stamped := State.enter_more (s := looked c p i s.1) (marked i inside) more
    have now : placeAfter c (p + 1) = .yielded p := if_pos more
    have others : ∀ j, j ≠ i → (((looked c p i s.1).enter c i p).co j) = s.1.co j := by
      intro j other
      rw [stamped.others j other, co]
    refine ⟨places stamped.place now.symm others, ?_, ?_, ?_, ?_, ?_, ?_⟩
    · dsimp only
      rw [stamped.place, standing.live, if_pos more, if_pos more]
      rfl
    · exact stamped.counts.1.trans checks
    · intro save j known r yielded
      by_cases mine : j = i
      · subst mine
        exact stamped.saved save
      · dsimp only at yielded ⊢
        rw [others j mine] at yielded ⊢
        exact standing.saved save j known r yielded
    · intro naive _ _
      have last : lastStamp c p (i + 1) = i := by simp [lastStamp, more]
      rw [last]
      exact stamped.thread naive
    · exact stamped.counts.2.1.trans errnos
    · exact stamped.counts.2.2.trans errs
  · have ended : placeAfter c (p + 1) = .ended := if_neg more
    rw [State.enter_last (Nat.not_lt.mp more)]
    have place : (((looked c p i s.1).setCoro i
        { (looked c p i s.1).co i with place := .ended }).co i).place = .ended := by
      simp [State.setCoro]
    have others : ∀ j, j ≠ i → ((looked c p i s.1).setCoro i
        { (looked c p i s.1).co i with place := .ended }).co j = s.1.co j := by
      intro j other
      rw [← co]
      exact Function.update_of_ne other ..
    refine ⟨places place ended.symm others, ?_, checks, ?_, ?_, errnos, errs⟩
    · dsimp only
      rw [place, if_pos rfl, standing.live, if_neg more, if_neg more]
    · intro save j known r yielded
      by_cases mine : j = i
      · subst mine
        dsimp only at yielded
        rw [place] at yielded
        cases yielded
      · dsimp only at yielded ⊢
        rw [others j mine] at yielded ⊢
        exact standing.saved save j known r yielded
    · intro naive some_ _
      have last : lastStamp c p (i + 1) = lastStamp c p i := by simp [lastStamp, more]
      obtain ⟨errno, queue⟩ := standing.thread naive some_ (Or.inl (by omega))
      rw [last, ← errno, ← queue]
      exact thread naive

/-- A pass gives every coroutine its turn. -/
theorem pass_standing (several : 2 ≤ c.nco) (marked : ∀ j < c.nco, Marked j)
    (within : p ≤ c.rounds) {s : State} (standing : Standing c p 0 (s, 0)) :
    Standing c p c.nco (s.pass c) := by
  have turns : ∀ n ≤ c.nco,
      Standing c p n ((List.range n).foldl (State.turn c) (s, 0)) := by
    intro n
    induction n with
    | zero => exact fun _ => standing
    | succ n ih =>
      intro inside
      rw [List.range_succ, List.foldl_append, List.foldl_cons, List.foldl_nil]
      exact turn_standing several marked inside within (ih (by omega))
  exact turns c.nco (Nat.le_refl _)

/-- The end of a pass that is not the last one is the start of the next one. -/
theorem next_standing (more : p < c.rounds) (several : 2 ≤ c.nco) {s : State} {live : Nat}
    (standing : Standing c p c.nco (s, live)) : Standing c (p + 1) 0 (s, 0) := by
  have count : checksBefore c p c.nco = checksBefore c (p + 1) 0 := by
    cases p with
    | zero => simp [checksBefore]
    | succ q =>
      simp only [checksBefore]
      ring
  have lost : corruptionsBefore c p c.nco = corruptionsBefore c (p + 1) 0 := by
    unfold corruptionsBefore
    rw [count, if_neg (show ¬ (p = c.rounds ∧ c.nco = c.nco) by omega),
      if_neg (show ¬ (p + 1 = c.rounds ∧ 0 = c.nco) by omega)]
  refine ⟨?_, ?_, standing.checks.trans count, standing.saved, ?_, standing.errnos.trans lost,
    standing.errs.trans lost⟩
  · intro j known
    rw [standing.places j known, if_pos known, if_neg (Nat.not_lt_zero j)]
  · split <;> rfl
  · intro naive some_ _
    have last : lastStamp c (p + 1) 0 = lastStamp c p c.nco := by
      unfold lastStamp
      rw [if_neg (by omega), if_pos (by omega)]
    rw [last]
    exact standing.thread naive some_ (Or.inr (by omega))

/-- The scheduler's loop, from the start of a pass. -/
theorem loop_counts (several : 2 ≤ c.nco) (marked : ∀ j < c.nco, Marked j) {fuel : Nat} {s : State}
    (within : p ≤ c.rounds) (enough : c.rounds < p + fuel) (standing : Standing c p 0 (s, 0)) :
    ∃ t live, loop c fuel s = some t ∧ Standing c c.rounds c.nco (t, live) := by
  induction fuel generalizing p s with
  | zero => omega
  | succ fuel ih =>
    have after := pass_standing several marked within standing
    rw [loop]
    by_cases more : p < c.rounds
    · have live : 0 < (s.pass c).2 := by
        rw [after.live, if_pos more]
        omega
      rw [if_pos live]
      exact ih more (by omega) (next_standing more several after)
    · have live : ¬ 0 < (s.pass c).2 := by
        rw [after.live, if_neg more]
        exact Nat.lt_irrefl 0
      rw [if_neg live]
      have last : p = c.rounds := by omega
      subst last
      exact ⟨_, _, rfl, after⟩

end Turns

/-- The experiment, for any number of rounds and of coroutines whose markers fit: it ends
with every coroutine done and a check for each round of each. With the state saved and
restored at the yields no check fails. Without, every check finds another coroutine's
`errno` and error code, except for the last check of all. -/
theorem experiment_counts (c : Config) (several : 2 ≤ c.nco) (marked : ∀ j < c.nco, Marked j)
    (fuel : Nat) (enough : c.rounds < fuel) : ∃ s, main c fuel = some s ∧
      (∀ j < c.nco, (s.co j).place = .ended) ∧ s.checks = c.rounds * c.nco ∧
      s.corruptionErrno = (if c.save then 0 else c.rounds * c.nco - 1) ∧
      s.corruptionErr = (if c.save then 0 else c.rounds * c.nco - 1) := by
  have start : Standing c 0 0 (State.init, 0) := by
    refine ⟨fun _ _ => rfl, by simp, rfl, ?_, ?_, ?_, ?_⟩
    · intro _ j _ r yielded
      cases yielded
    · intro _ _ some_
      omega
    · simp [corruptionsBefore, checksBefore, State.init]
    · simp [corruptionsBefore, checksBefore, State.init]
  obtain ⟨s, live, ended, standing⟩ :=
    loop_counts several marked (Nat.zero_le _) (show c.rounds < 0 + fuel by omega) start
  have count : checksBefore c c.rounds c.nco = c.rounds * c.nco := by
    cases rounds : c.rounds with
    | zero => simp [checksBefore]
    | succ q =>
      simp only [checksBefore]
      ring
  refine ⟨s, ?_, ?_, standing.checks.trans count, ?_, ?_⟩
  · rw [main, if_pos (by omega)]
    exact ended
  · intro j known
    rw [standing.places j known, if_pos known, placeAfter, if_neg (Nat.lt_irrefl _)]
  · rw [← count]
    simpa [corruptionsBefore] using standing.errnos
  · rw [← count]
    simpa [corruptionsBefore] using standing.errs

/-- Two coroutines as in the source, three rounds, nothing saved. -/
theorem naive_three_rounds : ∃ s, main ⟨false, 3, 2⟩ 4 = some s ∧
    (∀ j < 2, (s.co j).place = .ended) ∧ s.checks = 3 * 2 ∧ s.corruptionErrno = 3 * 2 - 1 ∧
      s.corruptionErr = 3 * 2 - 1 :=
  experiment_counts ⟨false, 3, 2⟩ (by decide) (by unfold Marked; decide) 4 (by decide)

end TransparentOffload.CoopErr
