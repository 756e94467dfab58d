import TransparentOffload.Answers
import TransparentOffload.PageTracking
import TransparentOffload.Undetected

set_option autoImplicit false

/- Receiving into protected memory. The kernel copies what a call receives into the
buffer of the program; a page that is mapped read-only makes that call fail. -/
namespace TransparentOffload

variable {σ γ : Type}

def efault : Errno := 14

/-- The buffers of the receiving calls of a program: `page ctx k` is the protected
page byte `k` of the buffer lies in, if it does, and `copy` stores what is received. -/
structure Buffers (σ γ : Type) where
  page : σ → Nat → Option Nat
  copy : σ → Bytes → γ → γ

/-- The protected pages of the first `n` bytes. -/
def Buffers.pages (b : Buffers σ γ) (ctx : σ) (n : Nat) : List Nat :=
  (List.range n).filterMap (b.page ctx)

namespace Runtime

/-- The pages the step stores to. -/
def storedNow (c : Config σ γ) (s : Runtime σ γ) : List Nat :=
  match s.pc with
  | .slice i =>
    match s.fibs i with
    | some f =>
      match f.place, c.app.code f.ctx with
      | .app, .code writes _ => writes
      | _, _ => []
    | none => []
  | _ => []

end Runtime

open TransparentOffload.Runtime

/-- The process: the runtime, the pages the running fiber has stored to since it was
switched in, and what each socket call has returned to which fiber. -/
structure Process (σ γ : Type) where
  runtime : Runtime σ γ
  written : List Nat
  results : List (Nat × IoRet)

def Process.init (mem : γ) (detOn : Bool) (kinds : MutexId → MutexKind) : Process σ γ :=
  ⟨Runtime.init mem detOn kinds, [], []⟩

/-- The kernel's choice once it has looked at the pages of the buffer. -/
def copyOut (c : Config σ γ) (b : Buffers σ γ) (s : Runtime σ γ) (out : Out) : Out :=
  match answer c s out with
  | some (_, ctx, .data bs) =>
    if (b.pages ctx bs.length).all s.det.writable then out else { out with io := .fail efault }
  | _ => out

/-- What the answer leaves in memory. -/
def received (b : Buffers σ γ) : Option (Nat × σ × IoRet) → γ → γ
  | some (_, ctx, .data bs), mem => b.copy ctx bs mem
  | _, mem => mem

/-- What is returned; `EAGAIN` never is. -/
def returned : Option (Nat × σ × IoRet) → List (Nat × IoRet)
  | some (i, _, r) => if r = .err eagain then [] else [(i, r)]
  | none => []

def bufStep (c : Config σ γ) (b : Buffers σ γ) (s : Process σ γ) : Act → Option (Process σ γ)
  | .carrier out =>
    let out := copyOut c b s.runtime out
    let answered := answer c s.runtime out
    (step c s.runtime (.carrier out)).map fun t =>
      { runtime := { t with mem := received b answered t.mem }
        written := storedNow c s.runtime ++
          if s.runtime.pc.running = none then [] else s.written
        results := returned answered ++ s.results }
  | a => (step c s.runtime a).map fun t => { s with runtime := t }

/-- What the program can see: the results of its calls, the memory, and the state of
each thread function. -/
def Process.observed (s : Process σ γ) : List (Nat × IoRet) × γ × (Nat → Option σ) :=
  (s.results, s.runtime.mem, fun i => (s.runtime.fibs i).map Fiber.ctx)

/-- Data is only copied to pages that the fiber has itself stored to since it was
switched in. -/
def CopiesUnprotected (c : Config σ γ) (b : Buffers σ γ) (s : Process σ γ) : Act → Prop
  | .carrier out => ∀ i ctx bs, answer c s.runtime out = some (i, ctx, .data bs) →
      ∀ p ∈ b.pages ctx bs.length, p ∈ s.written
  | _ => True

namespace Runtime

/-- A call that would receive data can fail with `EFAULT` instead. -/
theorem Answered.fault {c : Config σ γ} {s : Runtime σ γ} {out : Out} {i : Nat} {f : Fiber σ}
    {op : IoOp} {fd : Fd} {k : IoRet → σ} {bs : Bytes}
    (answered : Answered c s out i f op fd k (.data bs)) :
    Answered c s { out with io := .fail efault } i f op fd k (.err efault) := by
  obtain ⟨pc, live, code, place, past, sock, real⟩ := answered
  refine ⟨pc, live, code, place, past, s.ioSock f.place fd, ?_⟩
  cases op <;> rfl

theorem answer_undetected {c : Config σ γ} {s : Runtime σ γ} (quiet : s.det.detConflicts = 0)
    (out : Out) : answer c s.undetected out = answer c s out := by
  have pc : s.undetected.pc = s.pc := rfl
  unfold answer
  rw [pc]
  cases s.pc with
  | slice i =>
    dsimp only
    rw [undetected_fibs]
    cases s.fibs i with
    | none => rfl
    | some f =>
      have ctx : f.undetected.ctx = f.ctx := rfl
      dsimp only [Option.map_some]
      rw [ctx]
      cases c.app.code f.ctx with
      | io op fd k =>
        have calls : s.undetected.makesCall c f.undetected op = s.makesCall c f op := by
          unfold makesCall
          rw [enforcing_undetected quiet]
          rfl
        dsimp only
        rw [calls]
        rfl
      | _ => rfl
  | _ => rfl

theorem storedNow_undetected (c : Config σ γ) (s : Runtime σ γ) :
    storedNow c s.undetected = storedNow c s := by
  have pc : s.undetected.pc = s.pc := rfl
  unfold storedNow
  rw [pc]
  cases s.pc with
  | slice i =>
    dsimp only
    rw [undetected_fibs]
    cases s.fibs i with
    | none => rfl
    | some f => rfl
  | _ => rfl

/-- The pages of the detector as the stores of the running fiber explain them. -/
structure Stored (c : Config σ γ) (s : Runtime σ γ) (written : List Nat) : Prop where
  formed : Formed c s
  on : s.det.detOn = true
  pages : ∀ i, s.pc = .slice i → ∀ p, s.det.writable p = true ↔ p ∈ written

theorem step_stored {c : Config σ γ} {s s' : Runtime σ γ} {written : List Nat} {out : Out}
    (inv : Stored c s written) (taken : step c s (.carrier out) = some s') :
    Stored c s' (storedNow c s ++ if s.pc.running = none then [] else written) := by
  have formed := step_formed inv.formed taken
  by_cases sliced : ∃ i, s.pc = .slice i
  · obtain ⟨i, pc⟩ := sliced
    obtain ⟨f, live, slice⟩ := step_slice pc taken
    have running : (if s.pc.running = none then [] else written) = written := by
      rw [pc]
      rfl
    rw [running]
    by_cases plain : f.place = .app ∧ ∃ writes next, c.app.code f.ctx = .code writes next
    · obtain ⟨place, writes, next, code⟩ := plain
      have stored : storedNow c s = writes := by simp only [storedNow, pc, live, place, code]
      have det : s'.det = s.det.stores f.df writes := by rw [slice_code slice code]; rfl
      refine ⟨formed, by rw [det, Detector.stores_detOn, inv.on], ?_⟩
      intro _ _ p
      rw [det, stored, Detector.stores_writable_iff, inv.pages i pc, List.mem_append, or_comm]
    by_cases offloads : f.place = .app ∧ ∃ buf k, c.app.code f.ctx = .accelEncrypt buf k
    · obtain ⟨place, buf, k, code⟩ := offloads
      rcases slice_accel slice code with ⟨_, rfl⟩ | ⟨id, elsewhere, _⟩
      · refine ⟨formed, ?_, fun _ away => by cases away⟩
        change (s.det.detPark f.df).1.detOn = true
        rw [Detector.detPark, if_pos inv.on]
        exact inv.on
      · rw [place] at elsewhere
        cases elsewhere
    · have stored : storedNow c s = [] := by
        simp only [storedNow, pc, live]
        split
        · rename_i writes next place code
          exact absurd ⟨place, writes, next, code⟩ plain
        · rfl
      have det := (slice_det slice
        (fun writes next place code => plain ⟨place, writes, next, code⟩)
        (fun buf k place code => offloads ⟨place, buf, k, code⟩)).1
      rw [stored, List.nil_append]
      refine ⟨formed, by rw [det, inv.on], ?_⟩
      intro _ _ p
      rw [det]
      exact inv.pages i pc p
  · have stored : storedNow c s ++ (if s.pc.running = none then [] else written) = [] := by
      unfold storedNow
      cases pc : s.pc with
      | slice i => exact absurd ⟨i, pc⟩ sliced
      | _ => rfl
    rw [stored]
    by_cases switched : ∃ i f, s.pc = .run i ∧ s.fibs i = some f ∧ f.Runnable
    · obtain ⟨i, f, pc, live, runnable⟩ := switched
      rw [step_run inv.formed pc live runnable, Option.some.injEq] at taken
      obtain ⟨errno, errq, same⟩ := switchIn_frame c s i f
      have det : s'.det = s.det.protectRegions := by
        rw [← taken, same]
        exact if_pos inv.on
      refine ⟨formed, by rw [det]; exact inv.on, ?_⟩
      intro _ _ p
      rw [det]
      simp [Detector.protectRegions]
    · have aside : s.Aside (.carrier out) := by
        intro out' i _
        refine ⟨fun pc => sliced ⟨i, pc⟩, ?_⟩
        exact fun f pc live runnable => switched ⟨i, f, pc, live, runnable⟩
      refine ⟨formed, by rw [aside_det taken aside]; exact inv.on, ?_⟩
      intro i pc
      have away := aside_running taken aside rfl
      rw [pc] at away
      cases away

theorem Stored.mem {c : Config σ γ} {s : Runtime σ γ} {written : List Nat}
    (stored : Stored c s written) (mem : γ) : Stored c { s with mem := mem } written :=
  ⟨⟨stored.formed.slots, stored.formed.queue, stored.formed.running, stored.formed.fits⟩,
    stored.on, stored.pages⟩

/-- Steps of the other parties store nothing. -/
theorem Stored.other {c : Config σ γ} {s s' : Runtime σ γ} {a : Act} {written : List Nat}
    (stored : Stored c s written) (taken : step c s a = some s')
    (other : ∀ out, a ≠ .carrier out) : Stored c s' written := by
  have aside : s.Aside a := fun out i carrier => absurd carrier (other out)
  have det := aside_det taken aside
  have pc := (step_other taken other).1
  exact ⟨step_formed stored.formed taken, det ▸ stored.on, fun i here p =>
    det ▸ stored.pages i (pc ▸ here) p⟩

end Runtime

/-- The process as it would be with `RT_DETECT` unset. -/
def Process.undetected (s : Process σ γ) : Process σ γ :=
  { s with runtime := s.runtime.undetected }

/-- Two runs of one program, with the detector and without. -/
structure Twins (c : Config σ γ) (s t : Process σ γ) : Prop where
  stored : Stored c s.runtime s.written
  erased : t = s.undetected

theorem init_twins (c : Config σ γ) (mem : γ) (kinds : MutexId → MutexKind) :
    Twins c (.init mem true kinds) (.init mem false kinds) := by
  refine ⟨⟨init_formed c mem true kinds, rfl, ?_⟩, rfl⟩
  intro i pc
  cases pc

/-- Without the detector every page is writable. -/
theorem copyOut_undetected {c : Config σ γ} {b : Buffers σ γ} (s : Runtime σ γ) (out : Out) :
    copyOut c b s.undetected out = out := by
  unfold copyOut
  split
  · exact if_pos (List.all_eq_true.mpr fun _ _ => rfl)
  · rfl

theorem copyOut_unprotected {c : Config σ γ} {b : Buffers σ γ} {s : Process σ γ} {out : Out}
    (stored : Stored c s.runtime s.written) (unprotected : CopiesUnprotected c b s (.carrier out)) :
    copyOut c b s.runtime out = out := by
  unfold copyOut
  split
  · rename_i i ctx bs found
    obtain ⟨f, op, fd, k, answered, _⟩ := answer_eq_some.mp found
    apply if_pos
    rw [List.all_eq_true]
    intro p member
    exact (stored.pages i answered.pc p).mpr (unprotected i ctx bs found p member)
  · rfl

/-- While data is only copied to unprotected pages the two runs stay in lockstep. -/
theorem twins_lockstep {c : Config σ γ} {b : Buffers σ γ} {s t : Process σ γ} {a : Act}
    (twins : Twins c s t) (quiet : s.runtime.det.detConflicts = 0)
    (unprotected : CopiesUnprotected c b s a) :
    Option.Rel (Twins c) (bufStep c b s a) (bufStep c b t a) := by
  obtain ⟨stored, rfl⟩ := twins
  by_cases carrier : ∃ out, a = .carrier out
  · obtain ⟨out, rfl⟩ := carrier
    unfold bufStep
    dsimp only [Process.undetected]
    rw [copyOut_undetected, copyOut_unprotected stored unprotected, answer_undetected quiet,
      storedNow_undetected, step_undetected quiet]
    cases taken : step c s.runtime (.carrier out) with
    | none => exact .none
    | some u => exact .some ⟨(step_stored stored taken).mem _, rfl⟩
  · have other : ∀ out, a ≠ .carrier out := fun out same => carrier ⟨out, same⟩
    have plain : ∀ v : Process σ γ, bufStep c b v a =
        (step c v.runtime a).map fun u => { v with runtime := u } := by
      intro v
      cases a with
      | carrier out => exact absurd rfl (other out)
      | _ => rfl
    rw [plain, plain]
    dsimp only [Process.undetected]
    rw [step_undetected quiet]
    cases taken : step c s.runtime a with
    | none => exact .none
    | some u => exact .some ⟨stored.other taken other, rfl⟩

/-- A copy to a protected page shows: the call fails under the detector alone. -/
theorem protected_copy_shows {c : Config σ γ} {b : Buffers σ γ} {s t : Process σ γ} {a : Act}
    (twins : Twins c s t) (quiet : s.runtime.det.detConflicts = 0)
    (hit : ¬ CopiesUnprotected c b s a) :
    (bufStep c b s a).map Process.observed ≠ (bufStep c b t a).map Process.observed := by
  obtain ⟨stored, rfl⟩ := twins
  cases a with
  | carrier out =>
    simp only [CopiesUnprotected, not_forall] at hit
    obtain ⟨i, ctx, bs, found, p, member, unwritten⟩ := hit
    obtain ⟨f, op, fd, k, answered, here⟩ := answer_eq_some.mp found
    have closed : ¬ (b.pages ctx bs.length).all s.runtime.det.writable = true := by
      rw [List.all_eq_true]
      exact fun all => unwritten ((stored.pages i answered.pc p).mp (all p member))
    have faults : copyOut c b s.runtime out = { out with io := .fail efault } := by
      unfold copyOut
      rw [found]
      exact if_neg closed
    have answer' : answer c s.runtime { out with io := .fail efault } =
        some (i, ctx, .err efault) := answer_eq_some.mpr ⟨f, op, fd, k, answered.fault, here⟩
    obtain ⟨u, taken, _⟩ := answered.fault.taken
    obtain ⟨v, plain, _⟩ := answered.taken
    unfold bufStep
    dsimp only [Process.undetected]
    rw [copyOut_undetected, answer_undetected quiet, storedNow_undetected, step_undetected quiet,
      faults, answer', found, taken, plain]
    intro same
    have results := congrArg Prod.fst (Option.some.inj same)
    have first := (List.cons.inj results).1
    cases first
  | _ => exact absurd trivial hit

/-- As long as no conflict is counted, a program sees the same with `RT_DETECT` on and
off after every part of a run exactly when every receiving call that gets data finds
the pages of its buffer stored to by its fiber since that was switched in. -/
theorem same_observed_iff_copies_unprotected (c : Config σ γ) (b : Buffers σ γ) (mem : γ)
    (kinds : MutexId → MutexKind) (acts : List Act)
    (quiet : Machine.Always (bufStep c b) (fun s => s.runtime.det.detConflicts = 0)
      (.init mem true kinds) acts) :
    Machine.Agree (bufStep c b) (bufStep c b) Process.observed Process.observed
        (.init mem true kinds) (.init mem false kinds) acts ↔
      Machine.Guarded (bufStep c b) (CopiesUnprotected c b) (.init mem true kinds) acts := by
  apply Machine.agree_iff_guarded (R := Twins c) _ _ _ (init_twins c mem kinds) quiet
  · intro s t twins
    obtain ⟨_, rfl⟩ := twins
    unfold Process.observed Process.undetected
    dsimp only
    refine Prod.ext rfl (Prod.ext rfl ?_)
    funext i
    change (s.runtime.fibs i).map Fiber.ctx =
      ((s.runtime.fibs i).map Fiber.undetected).map Fiber.ctx
    rw [Option.map_map]
    rfl
  · exact fun s t a twins none unprotected => twins_lockstep twins none unprotected
  · exact fun s t a twins none hit => protected_copy_shows twins none hit

/-- A thread that receives one byte into a global variable. -/
def globalReader : Config (Option IoRet) UInt8 :=
  { app :=
      { entry := fun _ => none
        code := fun at_ => match at_ with
          | none => .io (.read 1) 5 some
          | some _ => .ret }
    gEnforce := false, gRealmutex := false, ssl := .init, transform := id }

/-- The variable is the first byte of page 0. -/
def globalBuffer : Buffers (Option IoRet) UInt8 :=
  { page := fun _ k => if k = 0 then some 0 else none
    copy := fun _ bs old => bs.headD old }

/-- The byte is there when the thread calls `read`. -/
def oneByte : List Act :=
  .create 0 :: .arrive 5 [7] ::
    (List.replicate 8 (.carrier .quiet) ++ [.carrier { Out.quiet with io := .part 1 }])

theorem oneByte_same_iff :
    Machine.Agree (bufStep globalReader globalBuffer) (bufStep globalReader globalBuffer)
        Process.observed Process.observed (.init 0 true fun _ => .normal)
        (.init 0 false fun _ => .normal) oneByte ↔
      Machine.Guarded (bufStep globalReader globalBuffer)
        (CopiesUnprotected globalReader globalBuffer) (.init 0 true fun _ => .normal) oneByte :=
  same_observed_iff_copies_unprotected globalReader globalBuffer 0 (fun _ => .normal) oneByte
    (by decide +kernel)

/-- Under the detector the same `read` fails with `EFAULT` and the byte stays unread. -/
theorem read_into_global_fails : ∃ s t,
    Machine.run (bufStep globalReader globalBuffer) (.init 0 true fun _ => .normal) oneByte =
      some s ∧
    Machine.run (bufStep globalReader globalBuffer) (.init 0 false fun _ => .normal) oneByte =
      some t ∧
    s.runtime.det.detConflicts = 0 ∧ s.results = [(0, .err efault)] ∧ s.runtime.mem = 0 ∧
    t.results = [(0, .data [7])] ∧ t.runtime.mem = 7 ∧
    ¬ Machine.Agree (bufStep globalReader globalBuffer) (bufStep globalReader globalBuffer)
        Process.observed Process.observed (.init 0 true fun _ => .normal)
        (.init 0 false fun _ => .normal) oneByte := by
  refine ⟨_, _, rfl, rfl, rfl, rfl, rfl, rfl, rfl, ?_⟩
  intro agree
  have same := Option.some.inj (agree oneByte List.prefix_rfl)
  have results := congrArg Prod.fst same
  revert results
  decide

end TransparentOffload
