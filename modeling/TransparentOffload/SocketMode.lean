import TransparentOffload.Answers

set_option autoImplicit false

/- The mode of a descriptor: `setnb` forces `O_NONBLOCK` on every socket a fiber
uses, and the interposers go by the kernel's answer alone. The mode the program
itself asked for is kept beside the runtime, which never reads it. -/
namespace TransparentOffload

variable {σ γ : Type}

/-- `MSG_DONTWAIT` among the flags of the call. -/
def IoOp.dontwait : IoOp → Bool
  | .recv _ dontwait | .recvfrom _ dontwait | .send _ dontwait | .sendto _ dontwait => dontwait
  | .read _ | .write _ => false

/-- The bytes a sending call is given. -/
def IoOp.payload : IoOp → Option Bytes
  | .write bs | .send bs _ | .sendto bs _ => some bs
  | .read _ | .recv .. | .recvfrom .. => none

/-- The runtime, and whether the program has set `O_NONBLOCK` on each descriptor. -/
structure Moded (σ γ : Type) where
  runtime : Runtime σ γ
  asked : Fd → Bool

/-- `fcntl(fd, F_SETFL, ..)` is not interposed; the rest are the runtime's own steps. -/
inductive ModeAct
  | fcntl (fd : Fd) (nonblock : Bool)
  | act (a : Act)

/-- The flag the program sets is the one `setnb` sets. -/
def modeStep (c : Config σ γ) (s : Moded σ γ) : ModeAct → Option (Moded σ γ)
  | .fcntl fd nonblock =>
    some
      { runtime := s.runtime.setSock fd { s.runtime.socks fd with nonblock := nonblock }
        asked := Function.update s.asked fd nonblock }
  | .act a => (step c s.runtime a).map fun t => { s with runtime := t }

def Moded.init (mem : γ) (detOn : Bool) (kinds : MutexId → MutexKind) : Moded σ γ :=
  ⟨Runtime.init mem detOn kinds, fun _ => false⟩

/-- A call that may not wait: on a descriptor the program made non-blocking, or
with `MSG_DONTWAIT`. -/
def Moded.nonblocking (s : Moded σ γ) (op : IoOp) (fd : Fd) : Bool := s.asked fd || op.dontwait

open TransparentOffload.Runtime

/-- The descriptor's mode is kept in this step: a sending call that may wait returns
a count only when that is all its bytes, and a call that may not wait returns the
`EAGAIN` it is answered with. -/
def KeepsMode (c : Config σ γ) (s : Moded σ γ) : ModeAct → Prop
  | .act (.carrier out) => ∀ i f op fd k r t, Answered c s.runtime out i f op fd k r →
      step c s.runtime (.carrier out) = some t →
      (s.nonblocking op fd = false → ∀ bs n, op.payload = some bs → r = .count n →
        t.Returned i (k r) → n = bs.length) ∧
      (s.nonblocking op fd = true → r = .err eagain → t.Returned i (k r))
  | _ => True

/-- The kernel takes all the bytes of a sending call that may wait whenever it takes
any, and answers no `EAGAIN` to a call that may not. -/
def WholeAnswers (c : Config σ γ) (s : Moded σ γ) : ModeAct → Prop
  | .act (.carrier out) => ∀ i f op fd k r, Answered c s.runtime out i f op fd k r →
      (s.nonblocking op fd = false → ∀ bs n, op.payload = some bs → r = .count n →
        n = bs.length) ∧
      (s.nonblocking op fd = true → r ≠ .err eagain)
  | _ => True

/-- The interposers never look at the mode that was asked for. -/
theorem keepsMode_iff {c : Config σ γ} (s : Moded σ γ) (a : ModeAct) :
    KeepsMode c s a ↔ WholeAnswers c s a := by
  cases a with
  | fcntl fd nonblock => exact Iff.rfl
  | act a =>
    cases a with
    | carrier out =>
      constructor
      · intro keeps i f op fd k r answered
        obtain ⟨t, taken, result⟩ := answered.taken
        obtain ⟨whole, passed⟩ := keeps i f op fd k r t answered taken
        constructor
        · intro blocking bs n payload counted
          apply whole blocking bs n payload counted
          rcases result with ⟨again, _⟩ | ⟨_, returned⟩
          · rw [counted] at again
            cases again
          · exact returned
        · intro nonblocking again
          have returned := passed nonblocking again
          rcases result with ⟨_, parked⟩ | ⟨ready, _⟩
          · rw [returned.1] at parked
            cases parked
          · exact ready again
      · intro answers i f op fd k r t answered _
        obtain ⟨whole, never⟩ := answers i f op fd k r answered
        exact ⟨fun blocking bs n payload counted _ => whole blocking bs n payload counted,
          fun nonblocking again => absurd again (never nonblocking)⟩
    | _ => exact Iff.rfl

/-- In every run, the interposed calls keep the modes of all descriptors exactly when
the kernel never accepts part of what a blocking call sends and never answers
`EAGAIN` to a non-blocking one. -/
theorem mode_kept_iff_whole_answers (c : Config σ γ) (mem : γ) (detOn : Bool)
    (kinds : MutexId → MutexKind) (acts : List ModeAct) :
    Machine.Guarded (modeStep c) (KeepsMode c) (.init mem detOn kinds) acts ↔
      Machine.Guarded (modeStep c) (WholeAnswers c) (.init mem detOn kinds) acts :=
  Machine.guarded_congr (fun s a _ => keepsMode_iff s a) (fun _ _ _ _ _ => trivial) trivial

/-- Threads that send four bytes on descriptor 5, or read a byte from descriptor 7. -/
def writerReader : Config Nat Unit :=
  { app :=
      { entry := fun arg => arg
        code := fun at_ => match at_ with
          | 0 => .io (.write [1, 2, 3, 4]) 5 fun r => match r with
            | .count n => 10 + n
            | _ => 10
          | 1 => .io (.read 1) 7 fun _ => 20
          | _ => .ret }
    gEnforce := false, gRealmutex := false, ssl := .init, transform := id }

def modeStart : Moded Nat Unit := .init () false fun _ => .normal

/-- One thread, from its creation to its first call. -/
def firstCall (arg : Nat) : List ModeAct :=
  .act (.create arg) :: List.replicate 8 (.act (.carrier .quiet))

/-- `write` returns 2 of 4 bytes on a descriptor the program left blocking, and a
`read` answered `EAGAIN` is parked on one the program made non-blocking. -/
theorem short_write_returned_and_eagain_parked :
    (∃ s t f, Machine.run (modeStep writerReader) modeStart (firstCall 0) = some s ∧
      s.asked 5 = false ∧
      modeStep writerReader s (.act (.carrier { Out.quiet with io := .part 2 })) = some t ∧
      t.runtime.fibs 0 = some f ∧ f.ctx = 10 + 2 ∧
      ¬ KeepsMode writerReader s (.act (.carrier { Out.quiet with io := .part 2 }))) ∧
    ∃ s t f, Machine.run (modeStep writerReader) modeStart (.fcntl 7 true :: firstCall 1) = some s ∧
      s.asked 7 = true ∧ modeStep writerReader s (.act (.carrier .quiet)) = some t ∧
      t.runtime.fibs 0 = some f ∧ f.state = .waitIo ∧
      ¬ KeepsMode writerReader s (.act (.carrier .quiet)) := by
  constructor
  · refine ⟨_, _, _, rfl, rfl, rfl, rfl, rfl, ?_⟩
    intro keeps
    have past : ∀ {s : Runtime Nat Unit} {f : Fiber Nat},
        ¬ WaitsForLock writerReader s f (.write [1, 2, 3, 4]) := by
      intro s f waits
      obtain ⟨n, reading⟩ := waits.1
      cases reading
    have short := (keeps 0 _ (.write [1, 2, 3, 4]) 5 _ (.count 2) _
      ⟨rfl, rfl, rfl, Or.inl rfl, past, ⟨_, rfl⟩⟩ rfl).1
      rfl [1, 2, 3, 4] 2 rfl rfl ⟨rfl, _, rfl, rfl, rfl⟩
    cases short
  · refine ⟨_, _, _, rfl, rfl, rfl, rfl, rfl, ?_⟩
    intro keeps
    have passed := (keeps 0 _ (.read 1) 7 _ (.err eagain) _
      ⟨rfl, rfl, rfl, Or.inl rfl, fun waits => Bool.noConfusion waits.2.1, ⟨_, rfl⟩⟩ rfl).2 rfl rfl
    cases passed.1

end TransparentOffload
