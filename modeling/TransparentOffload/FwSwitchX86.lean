import TransparentOffload.FiberSwitches

set_option autoImplicit false

/- The x86_64 half of `fw_switch.S`, and its block of `fw_fiber_make`. Of the registers
the model has those that the code names, and `rip`, the address of the next instruction. -/
namespace TransparentOffload.FwFiber.X86

open ByteMemory Coroutines

structure Regs where
  rsp : Word
  rbp : Word
  rbx : Word
  r12 : Word
  r13 : Word
  r14 : Word
  r15 : Word
  rdi : Word
  rsi : Word
  rip : Word
  deriving DecidableEq, Repr

def pushq (cpu : Cpu Regs) (v : Word) : Cpu Regs :=
  { regs := { cpu.regs with rsp := cpu.regs.rsp - 8 }
    mem := writeWord cpu.mem (cpu.regs.rsp - 8) v }

section Pushq

variable (cpu : Cpu Regs) (v : Word)

@[simp] theorem pushq_mem : (pushq cpu v).mem = writeWord cpu.mem (cpu.regs.rsp - 8) v := rfl
@[simp] theorem pushq_rsp : (pushq cpu v).regs.rsp = cpu.regs.rsp - 8 := rfl
@[simp] theorem pushq_rbp : (pushq cpu v).regs.rbp = cpu.regs.rbp := rfl
@[simp] theorem pushq_rbx : (pushq cpu v).regs.rbx = cpu.regs.rbx := rfl
@[simp] theorem pushq_r12 : (pushq cpu v).regs.r12 = cpu.regs.r12 := rfl
@[simp] theorem pushq_r13 : (pushq cpu v).regs.r13 = cpu.regs.r13 := rfl
@[simp] theorem pushq_r14 : (pushq cpu v).regs.r14 = cpu.regs.r14 := rfl
@[simp] theorem pushq_r15 : (pushq cpu v).regs.r15 = cpu.regs.r15 := rfl
@[simp] theorem pushq_rdi : (pushq cpu v).regs.rdi = cpu.regs.rdi := rfl
@[simp] theorem pushq_rsi : (pushq cpu v).regs.rsi = cpu.regs.rsi := rfl

end Pushq

/-- `set` puts the word that comes off the stack into its register. -/
def popq (cpu : Cpu Regs) (set : Regs → Word → Regs) : Cpu Regs :=
  { cpu with
    regs := set { cpu.regs with rsp := cpu.regs.rsp + 8 } (readWord cpu.mem cpu.regs.rsp) }

@[simp] theorem popq_mem (cpu : Cpu Regs) (set : Regs → Word → Regs) :
    (popq cpu set).mem = cpu.mem := rfl

@[simp] theorem popq_regs (cpu : Cpu Regs) (set : Regs → Word → Regs) : (popq cpu set).regs =
    set { cpu.regs with rsp := cpu.regs.rsp + 8 } (readWord cpu.mem cpu.regs.rsp) := rfl

def call (cpu : Cpu Regs) (target : Word) : Cpu Regs :=
  let cpu := pushq cpu cpu.regs.rip
  { cpu with regs := { cpu.regs with rip := target } }

section Call

variable (cpu : Cpu Regs) (target : Word)

@[simp] theorem call_mem : (call cpu target).mem =
    writeWord cpu.mem (cpu.regs.rsp - 8) cpu.regs.rip := rfl
@[simp] theorem call_rsp : (call cpu target).regs.rsp = cpu.regs.rsp - 8 := rfl
@[simp] theorem call_rdi : (call cpu target).regs.rdi = cpu.regs.rdi := rfl
@[simp] theorem call_rip : (call cpu target).regs.rip = target := rfl

end Call

def ret (cpu : Cpu Regs) : Cpu Regs := popq cpu fun r v => { r with rip := v }

/-- The pushes of `fw_ctx_swap`. -/
def saveRegs (cpu : Cpu Regs) : Cpu Regs :=
  let cpu := pushq cpu cpu.regs.rbp
  let cpu := pushq cpu cpu.regs.rbx
  let cpu := pushq cpu cpu.regs.r12
  let cpu := pushq cpu cpu.regs.r13
  let cpu := pushq cpu cpu.regs.r14
  pushq cpu cpu.regs.r15

/-- Its pops. -/
def restoreRegs (cpu : Cpu Regs) : Cpu Regs :=
  let cpu := popq cpu fun r v => { r with r15 := v }
  let cpu := popq cpu fun r v => { r with r14 := v }
  let cpu := popq cpu fun r v => { r with r13 := v }
  let cpu := popq cpu fun r v => { r with r12 := v }
  let cpu := popq cpu fun r v => { r with rbx := v }
  popq cpu fun r v => { r with rbp := v }

/-- `movq %rsp, (%rdi)` and `movq %rsi, %rsp`. -/
def switchStack (cpu : Cpu Regs) : Cpu Regs :=
  let cpu := { cpu with mem := writeWord cpu.mem cpu.regs.rdi cpu.regs.rsp }
  { cpu with regs := { cpu.regs with rsp := cpu.regs.rsi } }

def fwCtxSwap (cpu : Cpu Regs) : Cpu Regs :=
  ret (restoreRegs (switchStack (saveRegs cpu)))

/-- The call of `fw_ctx_swap`, wherever it lies, with its two arguments. -/
def callSwap (cpu : Cpu Regs) (save restore : Word) : Cpu Regs :=
  let cpu := { cpu with regs := { cpu.regs with rdi := save, rsi := restore } }
  fwCtxSwap (pushq cpu cpu.regs.rip)

/-- `fw_fiber_trampoline` up to the call of `fw_fiber_start`, in it. -/
def fwFiberTrampoline (sym : Symbols) (cpu : Cpu Regs) : Cpu Regs :=
  let cpu := { cpu with regs := { cpu.regs with rdi := cpu.regs.r15 } }
  let cpu := { cpu with regs := { cpu.regs with rsp := cpu.regs.rsp &&& ~~~0xF } }
  call { cpu with regs := { cpu.regs with rip := sym.afterCall } } sym.fwFiberStart

/-- The registers that a call keeps, and where it returns to, as the frame has them. -/
def kept (r : Regs) : List Word := [r.r15, r.r14, r.r13, r.r12, r.rbx, r.rbp, r.rip]

/-- The words at `sp[0]` to `sp[6]` of a new stack. -/
def firstWords (sym : Symbols) (f : Word) : List Word :=
  [f, 0, 0, 0, 0, 0, sym.fwFiberTrampoline]

def firstFrame (sym : Symbols) (m : Mem) (top f : Word) : Mem × Word :=
  let sp := top - 64
  (storeWords m sp (firstWords sym f), sp)

/-- What runs once a switch has returned. -/
def land (sym : Symbols) (cpu : Cpu Regs) : Cpu Regs :=
  if cpu.regs.rip = sym.fwFiberTrampoline then fwFiberTrampoline sym cpu else cpu

section Swap

variable (cpu : Cpu Regs) (save restore : Word)

/-- The memory once the return address and the registers have been pushed. -/
def framed (cpu : Cpu Regs) : Mem :=
  let sp := cpu.regs.rsp
  let r := cpu.regs
  writeWord (writeWord (writeWord (writeWord (writeWord (writeWord (writeWord cpu.mem
    (sp - 8) r.rip) (sp - 8 - 8) r.rbp) (sp - 8 - 8 - 8) r.rbx) (sp - 8 - 8 - 8 - 8) r.r12)
    (sp - 8 - 8 - 8 - 8 - 8) r.r13) (sp - 8 - 8 - 8 - 8 - 8 - 8) r.r14)
    (sp - 8 - 8 - 8 - 8 - 8 - 8 - 8) r.r15

/-- The processor between the pushes and the pops. -/
def swapped : Cpu Regs :=
  let cpu := { cpu with regs := { cpu.regs with rdi := save, rsi := restore } }
  switchStack (saveRegs (pushq cpu cpu.regs.rip))

theorem swapped_mem : (swapped cpu save restore).mem =
    writeWord (framed cpu) save (cpu.regs.rsp - 8 - 8 - 8 - 8 - 8 - 8 - 8) := by
  simp [swapped, switchStack, saveRegs, framed]

theorem swapped_rsp : (swapped cpu save restore).regs.rsp = restore := by
  simp [swapped, switchStack, saveRegs]

theorem callSwap_eq : callSwap cpu save restore = ret (restoreRegs (swapped cpu save restore)) :=
  rfl

/-- The pops change no memory. -/
theorem callSwap_mem : (callSwap cpu save restore).mem =
    writeWord (framed cpu) save (cpu.regs.rsp - 8 - 8 - 8 - 8 - 8 - 8 - 8) := by
  rw [callSwap_eq, ← swapped_mem cpu save restore]
  simp only [ret, restoreRegs, popq_mem]

theorem frame_sp (sp : Word) : sp - 8 - 8 - 8 - 8 - 8 - 8 - 8 = sp - BitVec.ofNat 64 56 := by
  bv_omega

theorem framed_stored :
    Stored (framed cpu) (cpu.regs.rsp - BitVec.ofNat 64 56) (kept cpu.regs) := by
  have none : Stored cpu.mem cpu.regs.rsp [] := trivial
  rw [← frame_sp]
  exact ((((((none.push _ (by simp)).push _ (by simp)).push _ (by simp)).push _ (by simp)).push _
    (by simp)).push _ (by simp)).push _ (by simp)

theorem framed_outside {x : Word} (outside : x ∉ below cpu.regs.rsp 56) :
    framed cpu x = cpu.mem x := by
  have apart : ∀ a : Word, (a - (cpu.regs.rsp - BitVec.ofNat 64 56)).toNat ≤ 48 →
      x ∉ wordAt a := by
    intro a near member
    apply outside
    change (x - a).toNat < 8 at member
    change (x - (cpu.regs.rsp - BitVec.ofNat 64 56)).toNat < 56
    bv_omega
  rw [framed, writeWord_outside _ _ (apart _ (by bv_omega)),
    writeWord_outside _ _ (apart _ (by bv_omega)), writeWord_outside _ _ (apart _ (by bv_omega)),
    writeWord_outside _ _ (apart _ (by bv_omega)), writeWord_outside _ _ (apart _ (by bv_omega)),
    writeWord_outside _ _ (apart _ (by bv_omega)), writeWord_outside _ _ (apart _ (by bv_omega))]

/-- The words that the pops find are what the registers are again. -/
theorem pops (cpu : Cpu Regs) : kept (ret (restoreRegs cpu)).regs =
    [readWord cpu.mem cpu.regs.rsp, readWord cpu.mem (cpu.regs.rsp + 8),
      readWord cpu.mem (cpu.regs.rsp + 8 + 8), readWord cpu.mem (cpu.regs.rsp + 8 + 8 + 8),
      readWord cpu.mem (cpu.regs.rsp + 8 + 8 + 8 + 8),
      readWord cpu.mem (cpu.regs.rsp + 8 + 8 + 8 + 8 + 8),
      readWord cpu.mem (cpu.regs.rsp + 8 + 8 + 8 + 8 + 8 + 8)] := by
  simp only [kept, ret, restoreRegs, popq_regs, popq_mem]

theorem pops_stored {ws : List Word} (length : ws.length = 7)
    (stored : Stored cpu.mem cpu.regs.rsp ws) : kept (ret (restoreRegs cpu)).regs = ws ∧
      (ret (restoreRegs cpu)).regs.rsp = cpu.regs.rsp + BitVec.ofNat 64 56 := by
  match ws, length with
  | [r15, r14, r13, r12, rbx, rbp, rip], _ =>
    obtain ⟨first, second, third, fourth, fifth, sixth, seventh, _⟩ := stored
    constructor
    · rw [pops, first, second, third, fourth, fifth, sixth, seventh]
    · simp only [ret, restoreRegs, popq_regs]
      bv_omega

end Swap

/-- The trampoline pushes into what was the frame it was found in. -/
theorem land_outside (sym : Symbols) (cpu : Cpu Regs) {x : Word}
    (outside : x ∉ below cpu.regs.rsp 56) : (land sym cpu).mem x = cpu.mem x := by
  unfold land
  split
  · rw [fwFiberTrampoline, call_mem]
    apply writeWord_outside
    intro member
    apply outside
    have rounded := toNat_and_not cpu.regs.rsp (k := 4) (by omega)
    change (cpu.regs.rsp &&& ~~~0xF).toNat = _ at rounded
    change (x - ((cpu.regs.rsp &&& ~~~0xF) - 8)).toNat < 8 at member
    change (x - (cpu.regs.rsp - BitVec.ofNat 64 56)).toNat < 56
    generalize cpu.regs.rsp &&& ~~~0xF = aligned at rounded member
    bv_omega
  · rfl

/-- What the x86_64 build of the library runs. -/
def port (sym : Symbols) : Port Regs where
  sp := Regs.rsp
  kept := kept
  words := 7
  frame := 56
  call := callSwap
  kept_length _ := rfl
  fits := by decide
  bounded := by decide
  outside := by
    intro cpu save restore x outside cell
    rw [callSwap_mem, writeWord_outside _ _ cell]
    exact framed_outside cpu outside
  saves := by
    intro cpu save restore apart
    rw [callSwap_mem, frame_sp]
    refine ⟨readWord_writeWord _ _ _, (framed_stored cpu).congr (n := 56) (by simp [kept])
      (by decide) ?_⟩
    intro x framed
    symm
    exact writeWord_outside _ _ fun cell => apart x cell framed
  restores := by
    intro cpu save restore ws length stored
    rw [callSwap_mem, ← swapped_mem cpu save restore, ← swapped_rsp cpu save restore] at stored
    rw [callSwap_eq, ← swapped_rsp cpu save restore]
    exact pops_stored _ length stored
  firstFrame := firstFrame sym
  firstBytes := 64
  firstWords := firstWords sym
  land := land sym
  firstBytes_bounds := by decide
  firstWords_length _ := rfl
  firstFrame_outside := by
    intro m top f x outside
    exact storeWords_outside m (n := 64) (by simp [firstWords]) (by decide) outside
  firstFrame_sp _ _ _ := rfl
  firstFrame_stored := by
    intro m top f
    exact stored_storeWords m (top - 64) (firstWords sym f) (by simp [firstWords])
  land_outside := fun cpu _ outside => land_outside sym cpu outside

section Port

variable (sym : Symbols)

@[simp] theorem port_sp : (port sym).sp = Regs.rsp := rfl
@[simp] theorem port_kept : (port sym).kept = kept := rfl
@[simp] theorem port_firstWords : (port sym).firstWords = firstWords sym := rfl
@[simp] theorem port_land : (port sym).land = land sym := rfl

end Port

/-- The registers that are as they were, with the stack pointer and the place in the code. -/
structure Preserved (r r' : Regs) : Prop where
  rbx : r'.rbx = r.rbx
  rbp : r'.rbp = r.rbp
  r12 : r'.r12 = r.r12
  r13 : r'.r13 = r.r13
  r14 : r'.r14 = r.r14
  r15 : r'.r15 = r.r15
  rsp : r'.rsp = r.rsp
  rip : r'.rip = r.rip

theorem preserved_of_kept {r r' : Regs} (same : kept r' = kept r) (rsp : r'.rsp = r.rsp) :
    Preserved r r' := by
  unfold kept at same
  simp only [List.cons.injEq, and_true] at same
  obtain ⟨r15, r14, r13, r12, rbx, rbp, rip⟩ := same
  exact ⟨rbx, rbp, r12, r13, r14, r15, rsp, rip⟩

/-- In the trampoline the fiber becomes the argument, and the stack is aligned for the
call. -/
theorem land_trampoline (sym : Symbols) {cpu : Cpu Regs}
    (here : cpu.regs.rip = sym.fwFiberTrampoline) :
    (land sym cpu).regs.rip = sym.fwFiberStart ∧ (land sym cpu).regs.rdi = cpu.regs.r15 ∧
      ((land sym cpu).regs.rsp + 8).toNat % 16 = 0 := by
  rw [land, if_pos here]
  simp only [fwFiberTrampoline, call_rip, call_rdi, call_rsp, BitVec.sub_add_cancel, true_and]
  have rounded := toNat_and_not cpu.regs.rsp (k := 4) (by omega)
  change (cpu.regs.rsp &&& ~~~0xF).toNat = _ at rounded
  rw [rounded]
  omega

/-- However many fibers are made, whatever they do on their stacks and in whatever order
they switch: a resumed fiber goes on behind its last switch with the registers and the
stack pointer it had there; a new fiber enters `fw_fiber_start` through the trampoline,
with itself as the argument and the stack aligned; and a fiber whose entry returns
resumes its link. -/
theorem context_switch_preserves (sym : Symbols) (cpu : Cpu Regs) (self : Word) (stack : Region)
    (separate : (Region.mk self fwFiberBytes).Apart stack) (acts : List (Act Regs))
    (s₁ : Sys Regs)
    (ran : Machine.run (step (port sym)) (init cpu self stack separate) acts = some s₁) :
    (∀ f a s₂ between s₃ b s₄, Away (port sym) f s₁ a s₂ between s₃ b s₄ →
      Preserved s₁.cpu.regs (returned (port sym) s₃ f).regs ∧
      s₄.cpu = land sym (returned (port sym) s₃ f)) ∧
    (∀ f a s₂ between s₃ b s₄, FirstIn (port sym) f s₁ a s₂ between s₃ b s₄ →
      (returned (port sym) s₃ f).regs.rip = sym.fwFiberTrampoline ∧
      (returned (port sym) s₃ f).regs.r15 = f ∧ s₄.cpu.regs.rip = sym.fwFiberStart ∧
      s₄.cpu.regs.rdi = f ∧ (s₄.cpu.regs.rsp + 8).toNat % 16 = 0) ∧
    (∀ f stackSize entry arg link base s₂ acts' s₃,
      step (port sym) s₁ (.make f stackSize entry arg link base) = some s₂ →
      Machine.run (step (port sym)) s₂ acts' = some s₃ → s₃.cur.cell = f → link ≠ 0 →
      step (port sym) s₃ .finish = step (port sym) s₃ (.switch link) ∧
      ∀ t ∈ s₃.tasks, t.cell = link → link ≠ f →
        (below s₃.cpu.regs.rsp 56).Sub s₃.cur.stack →
          ∃ s₄, step (port sym) s₃ .finish = some s₄ ∧ s₄.cur.cell = link) := by
  have formed : WellFormed (port sym).toSwitcher s₁ :=
    run_wellFormed (init_wellFormed (port sym) cpu self stack separate) ran
  refine ⟨?_, ?_, ?_⟩
  · intro f a s₂ between s₃ b s₄ away
    obtain ⟨kept, rsp, landed⟩ := away.returned formed
    rw [port_kept] at kept
    rw [port_sp] at rsp
    rw [port_land] at landed
    exact ⟨preserved_of_kept kept rsp, landed⟩
  · intro f a s₂ between s₃ b s₄ first
    obtain ⟨kept, landed⟩ := first.returned formed
    rw [port_kept, port_firstWords] at kept
    rw [port_land] at landed
    unfold X86.kept firstWords at kept
    simp only [List.cons.injEq, and_true] at kept
    obtain ⟨r15, _, _, _, _, _, rip⟩ := kept
    obtain ⟨start, argument, aligned⟩ := land_trampoline sym rip
    rw [landed]
    exact ⟨rip, r15, start, argument.trans r15, aligned⟩
  · intro f stackSize entry arg link base s₂ acts' s₃ made ran' running linked
    have same := finish_switches formed made ran' running linked
    refine ⟨same, ?_⟩
    intro t known cell other room
    rw [same]
    subst cell
    exact switchTo_of_known known (running ▸ other) room

/-- The bootstrap fiber, with its stack and its registers. -/
def bootstrapStack : Region := ⟨0x7fff0000, 65536⟩

def bootstrapCpu : Cpu Regs :=
  ⟨⟨0x7fffe000, 1, 2, 3, 4, 5, 6, 0, 0, 0x400000⟩, fun _ => 0⟩

theorem bootstrap_separate : (Region.mk 0x10000 fwFiberBytes).Apart bootstrapStack := by decide

def sampleSymbols : Symbols := ⟨0x401000, 0x40100c, 0x402000⟩

def bootstrap : Sys Regs := init bootstrapCpu 0x10000 bootstrapStack bootstrap_separate

def makesFiber : List (Act Regs) := [.make 0x11000 16384 0x403000 7 0x10000 0x200000]

/-- The new fiber sets every register and changes a byte of its stack. -/
def fiberWorks : Act Regs :=
  .work ⟨0x203f00, 11, 12, 13, 14, 15, 16, 17, 18, 0x400100⟩ [(0x203f00, 0xff)]

/-- The states of a run in which the new fiber is switched to, works and finishes. -/
def afterMaking : Sys Regs :=
  (Machine.run (step (port sampleSymbols)) bootstrap makesFiber).get (by decide +kernel)

def afterSwitching : Sys Regs :=
  (step (port sampleSymbols) afterMaking (.switch 0x11000)).get (by decide +kernel)

def afterWorking : Sys Regs :=
  (step (port sampleSymbols) afterSwitching fiberWorks).get (by decide +kernel)

def afterFinishing : Sys Regs :=
  (step (port sampleSymbols) afterWorking .finish).get (by decide +kernel)

/-- The fiber starts with itself as the argument, and its end resumes the bootstrap fiber
with the registers it had. -/
theorem context_switch_preserves_bootstrap :
    afterSwitching.cpu.regs.rip = 0x402000 ∧ afterSwitching.cpu.regs.rdi = 0x11000 ∧
      Preserved afterMaking.cpu.regs (returned (port sampleSymbols) afterWorking 0x10000).regs ∧
      step (port sampleSymbols) afterWorking .finish =
        step (port sampleSymbols) afterWorking (.switch 0x10000) ∧
      afterFinishing.cur.cell = 0x10000 := by
  have made : Machine.run (step (port sampleSymbols)) bootstrap makesFiber = some afterMaking :=
    (Option.some_get _).symm
  have switched : step (port sampleSymbols) afterMaking (.switch 0x11000) = some afterSwitching :=
    (Option.some_get _).symm
  have worked : step (port sampleSymbols) afterSwitching fiberWorks = some afterWorking :=
    (Option.some_get _).symm
  have finished : step (port sampleSymbols) afterWorking .finish = some afterFinishing :=
    (Option.some_get _).symm
  have atStart := context_switch_preserves sampleSymbols bootstrapCpu 0x10000 bootstrapStack
    bootstrap_separate [] bootstrap rfl
  have atSwitch := context_switch_preserves sampleSymbols bootstrapCpu 0x10000 bootstrapStack
    bootstrap_separate makesFiber afterMaking made
  have make : step (port sampleSymbols) bootstrap
      (.make 0x11000 16384 0x403000 7 0x10000 0x200000) = some afterMaking := by
    rw [← made, makesFiber, Machine.run_one]
  have first : FirstIn (port sampleSymbols) 0x11000 bootstrap
      (.make 0x11000 16384 0x403000 7 0x10000 0x200000) afterMaking [] afterMaking
      (.switch 0x11000) afterSwitching :=
    { makes := ⟨_, _, _, _, _, rfl⟩
      made := make
      aside := ⟨rfl, by decide +kernel⟩
      back := switched
      resumed := by decide +kernel }
  have away : Away (port sampleSymbols) 0x10000 afterMaking (.switch 0x11000) afterSwitching
      [fiberWorks] afterWorking .finish afterFinishing :=
    { running := by decide +kernel
      out := switched
      aside := ⟨by rw [Machine.run_one, worked], by decide +kernel⟩
      back := finished
      resumed := by decide +kernel }
  obtain ⟨_, _, start, argument, _⟩ := atStart.2.1 _ _ _ _ _ _ _ first
  obtain ⟨link, _⟩ := atStart.2.2 0x11000 16384 0x403000 7 0x10000 0x200000 afterMaking
    [.switch 0x11000, fiberWorks] afterWorking make
    (by rw [Machine.run_cons_of_step switched, Machine.run_one, worked]) (by decide +kernel)
    (by decide)
  exact ⟨start, argument, (atSwitch.1 _ _ _ _ _ _ _ away).1, link, away.resumed⟩

end TransparentOffload.FwFiber.X86
