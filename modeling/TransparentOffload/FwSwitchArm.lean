import TransparentOffload.FiberSwitches
import Mathlib.Logic.Function.Basic

set_option autoImplicit false

/- The AArch64 half of `fw_switch.S`, and its block of `fw_fiber_make`. `pc` is the
address of the next instruction. -/
namespace TransparentOffload.FwFiber.Arm

open ByteMemory Coroutines

structure Regs where
  x : Fin 31 → Word
  sp : Word
  pc : Word
  v : Fin 32 → BitVec 128

def Regs.setX (r : Regs) (t : Fin 31) (w : Word) : Regs := { r with x := Function.update r.x t w }

section SetX

variable (r : Regs) (t : Fin 31) (w : Word)

@[simp] theorem setX_x (u : Fin 31) : (r.setX t w).x u = if u = t then w else r.x u :=
  Function.update_apply ..
@[simp] theorem setX_sp : (r.setX t w).sp = r.sp := rfl
@[simp] theorem setX_pc : (r.setX t w).pc = r.pc := rfl
@[simp] theorem setX_v : (r.setX t w).v = r.v := rfl

end SetX

/-- `stp`, with its offset from `sp`. -/
def stp (cpu : Cpu Regs) (t u : Fin 31) (offset : Word) : Cpu Regs :=
  { cpu with mem := storeWords cpu.mem (cpu.regs.sp + offset) [cpu.regs.x t, cpu.regs.x u] }

/-- `ldp`. -/
def ldp (cpu : Cpu Regs) (t u : Fin 31) (offset : Word) : Cpu Regs :=
  { cpu with
    regs := (cpu.regs.setX t (readWord cpu.mem (cpu.regs.sp + offset))).setX u
      (readWord cpu.mem (cpu.regs.sp + offset + 8)) }

section Pairs

variable (cpu : Cpu Regs) (t u : Fin 31) (offset : Word)

@[simp] theorem stp_regs : (stp cpu t u offset).regs = cpu.regs := rfl
@[simp] theorem stp_mem : (stp cpu t u offset).mem =
    storeWords cpu.mem (cpu.regs.sp + offset) [cpu.regs.x t, cpu.regs.x u] := rfl
@[simp] theorem ldp_mem : (ldp cpu t u offset).mem = cpu.mem := rfl
@[simp] theorem ldp_regs : (ldp cpu t u offset).regs =
    (cpu.regs.setX t (readWord cpu.mem (cpu.regs.sp + offset))).setX u
      (readWord cpu.mem (cpu.regs.sp + offset + 8)) := rfl

end Pairs

/-- `bl` leaves the return address in `x30`. -/
def bl (cpu : Cpu Regs) (target : Word) : Cpu Regs :=
  { cpu with regs := { cpu.regs.setX 30 cpu.regs.pc with pc := target } }

def ret (cpu : Cpu Regs) : Cpu Regs := { cpu with regs := { cpu.regs with pc := cpu.regs.x 30 } }

/-- `fw_ctx_swap` up to its last `stp`. -/
def saveRegs (cpu : Cpu Regs) : Cpu Regs :=
  let cpu := { cpu with regs := { cpu.regs with sp := cpu.regs.sp - 112 } }
  let cpu := stp cpu 19 20 0
  let cpu := stp cpu 21 22 16
  let cpu := stp cpu 23 24 32
  let cpu := stp cpu 25 26 48
  let cpu := stp cpu 27 28 64
  stp cpu 29 30 80

/-- Its part from the first `ldp` to the `ret`. -/
def restoreRegs (cpu : Cpu Regs) : Cpu Regs :=
  let cpu := ldp cpu 19 20 0
  let cpu := ldp cpu 21 22 16
  let cpu := ldp cpu 23 24 32
  let cpu := ldp cpu 25 26 48
  let cpu := ldp cpu 27 28 64
  let cpu := ldp cpu 29 30 80
  { cpu with regs := { cpu.regs with sp := cpu.regs.sp + 112 } }

/-- `mov x2, sp`, `str x2, [x0]` and `mov sp, x1`. -/
def switchStack (cpu : Cpu Regs) : Cpu Regs :=
  let cpu := { cpu with regs := cpu.regs.setX 2 cpu.regs.sp }
  let cpu := { cpu with mem := writeWord cpu.mem (cpu.regs.x 0) (cpu.regs.x 2) }
  { cpu with regs := { cpu.regs with sp := cpu.regs.x 1 } }

def fwCtxSwap (cpu : Cpu Regs) : Cpu Regs :=
  ret (restoreRegs (switchStack (saveRegs cpu)))

/-- The call of `fw_ctx_swap`, wherever it lies, with its two arguments. -/
def callSwap (cpu : Cpu Regs) (save restore : Word) : Cpu Regs :=
  let cpu := { cpu with regs := (cpu.regs.setX 0 save).setX 1 restore }
  fwCtxSwap { cpu with regs := cpu.regs.setX 30 cpu.regs.pc }

/-- `fw_fiber_trampoline` up to the call of `fw_fiber_start`, in it. -/
def fwFiberTrampoline (sym : Symbols) (cpu : Cpu Regs) : Cpu Regs :=
  let cpu := { cpu with regs := cpu.regs.setX 0 (cpu.regs.x 19) }
  bl { cpu with regs := { cpu.regs with pc := sym.afterCall } } sym.fwFiberStart

/-- The registers that the frame keeps, and where the call returns to. -/
def kept (r : Regs) : List Word :=
  [r.x 19, r.x 20, r.x 21, r.x 22, r.x 23, r.x 24, r.x 25, r.x 26, r.x 27, r.x 28, r.x 29, r.pc]

/-- The words at `sp[0]` to `sp[11]` of a new stack. -/
def firstWords (sym : Symbols) (f : Word) : List Word :=
  [f, 0, 0, 0, 0, 0, 0, 0, 0, 0, 0, sym.fwFiberTrampoline]

def firstFrame (sym : Symbols) (m : Mem) (top f : Word) : Mem × Word :=
  let sp := top - 112
  let m := fill m ⟨sp, 112⟩ 0
  let m := writeWord m sp f
  (writeWord m (sp + 88) sym.fwFiberTrampoline, sp)

/-- What runs once a switch has returned. -/
def land (sym : Symbols) (cpu : Cpu Regs) : Cpu Regs :=
  if cpu.regs.pc = sym.fwFiberTrampoline then fwFiberTrampoline sym cpu else cpu

section Swap

variable (cpu : Cpu Regs) (save restore : Word)

/-- The processor between the stores and the loads. -/
def swapped : Cpu Regs :=
  let cpu := { cpu with regs := (cpu.regs.setX 0 save).setX 1 restore }
  switchStack (saveRegs { cpu with regs := cpu.regs.setX 30 cpu.regs.pc })

theorem callSwap_eq : callSwap cpu save restore = ret (restoreRegs (swapped cpu save restore)) :=
  rfl

/-- The pairs are stored one behind the other. -/
theorem saveRegs_mem :
    (saveRegs cpu).mem = storeWords cpu.mem (cpu.regs.sp - 112)
      [cpu.regs.x 19, cpu.regs.x 20, cpu.regs.x 21, cpu.regs.x 22, cpu.regs.x 23, cpu.regs.x 24,
        cpu.regs.x 25, cpu.regs.x 26, cpu.regs.x 27, cpu.regs.x 28, cpu.regs.x 29,
        cpu.regs.x 30] := by
  simp [saveRegs, storeWords, BitVec.add_assoc]

@[simp] theorem saveRegs_regs :
    (saveRegs cpu).regs = { cpu.regs with sp := cpu.regs.sp - 112 } := by
  simp [saveRegs]

theorem swapped_mem : (swapped cpu save restore).mem =
    writeWord (storeWords cpu.mem (cpu.regs.sp - 112) (kept cpu.regs)) save
      (cpu.regs.sp - 112) := by
  simp [swapped, switchStack, saveRegs_mem, kept]

theorem swapped_sp : (swapped cpu save restore).regs.sp = restore := by
  simp [swapped, switchStack]

/-- The switch does not touch the SIMD and floating-point registers. -/
theorem callSwap_v : (callSwap cpu save restore).regs.v = cpu.regs.v := by
  simp [callSwap, fwCtxSwap, ret, restoreRegs, switchStack]

/-- The loads change no memory. -/
theorem callSwap_mem : (callSwap cpu save restore).mem = (swapped cpu save restore).mem := by
  rw [callSwap_eq]
  simp only [ret, restoreRegs, ldp_mem]

/-- The words that the loads find are what the registers are again. -/
theorem loads_stored {ws : List Word} (length : ws.length = 12)
    (stored : Stored cpu.mem cpu.regs.sp ws) : kept (ret (restoreRegs cpu)).regs = ws ∧
      (ret (restoreRegs cpu)).regs.sp = cpu.regs.sp + BitVec.ofNat 64 112 := by
  match ws, length with
  | [a, b, c, d, e, f, g, h, i, j, k, l], _ =>
    simp only [stored_cons, BitVec.add_assoc, BitVec.ofNat_eq_ofNat, BitVec.reduceAdd] at stored
    obtain ⟨x19, x20, x21, x22, x23, x24, x25, x26, x27, x28, x29, pc, _⟩ := stored
    constructor
    · simp [kept, ret, restoreRegs, BitVec.add_assoc, *]
    · simp [ret, restoreRegs]

end Swap

/-- The first frame is cleared, but for two of its words. -/
theorem firstFrame_stored (sym : Symbols) (m : Mem) (top f : Word) :
    Stored (firstFrame sym m top f).1 (firstFrame sym m top f).2 (firstWords sym f) := by
  have cleared : Stored (fill m ⟨top - 112, 112⟩ 0) (top - 112) (List.replicate 12 0) := by
    apply stored_zero (by omega)
    intro x member
    apply if_pos
    change (x - (top - 112)).toNat < 96 at member
    change (x - (top - 112)).toNat < 112
    omega
  have fiber := cleared.set f (i := 0) (by simp) (by simp)
  have trampoline := fiber.set sym.fwFiberTrampoline (i := 11) (by simp) (by simp)
  rw [Nat.mul_zero, BitVec.add_zero] at trampoline
  exact trampoline

theorem firstFrame_outside (sym : Symbols) (m : Mem) (top f : Word) {x : Word}
    (outside : x ∉ below top 112) : (firstFrame sym m top f).1 x = m x := by
  have apart : ∀ a : Word, (a - (top - 112)).toNat ≤ 104 → x ∉ wordAt a := by
    intro a near member
    apply outside
    change (x - a).toNat < 8 at member
    change (x - (top - 112)).toNat < 112
    bv_omega
  unfold firstFrame
  dsimp only
  rw [writeWord_outside _ _ (apart _ (by bv_omega)), writeWord_outside _ _ (apart _ (by bv_omega))]
  exact fill_outside m 0 outside

/-- The trampoline stores nothing. -/
theorem land_mem (sym : Symbols) (cpu : Cpu Regs) : (land sym cpu).mem = cpu.mem := by
  unfold land
  split <;> rfl

/-- What the AArch64 build of the library runs. -/
def port (sym : Symbols) : Port Regs where
  sp := Regs.sp
  kept := kept
  words := 12
  frame := 112
  call := callSwap
  kept_length _ := rfl
  fits := by decide
  bounded := by decide
  outside := by
    intro cpu save restore x outside cell
    rw [callSwap_mem, swapped_mem, writeWord_outside _ _ cell]
    exact storeWords_outside cpu.mem (n := 112) (by simp [kept]) (by decide) outside
  saves := by
    intro cpu save restore apart
    rw [callSwap_mem, swapped_mem]
    refine ⟨readWord_writeWord _ _ _, ?_⟩
    apply (stored_storeWords cpu.mem (cpu.regs.sp - 112) (kept cpu.regs) (by simp [kept])).congr
      (n := 112) (by simp [kept]) (by decide)
    intro x framed
    symm
    exact writeWord_outside _ _ fun cell => apart x cell framed
  restores := by
    intro cpu save restore ws length stored
    rw [callSwap_mem] at stored
    rw [← swapped_sp cpu save restore] at stored
    rw [callSwap_eq, ← swapped_sp cpu save restore]
    exact loads_stored _ length stored
  firstFrame := firstFrame sym
  firstBytes := 112
  firstWords := firstWords sym
  land := land sym
  firstBytes_bounds := by decide
  firstWords_length _ := rfl
  firstFrame_outside := fun m top f _ outside => firstFrame_outside sym m top f outside
  firstFrame_sp _ _ _ := rfl
  firstFrame_stored := firstFrame_stored sym
  land_outside := fun cpu x _ => by rw [land_mem]

section Port

variable (sym : Symbols)

@[simp] theorem port_sp : (port sym).sp = Regs.sp := rfl
@[simp] theorem port_kept : (port sym).kept = kept := rfl
@[simp] theorem port_call : (port sym).call = callSwap := rfl
@[simp] theorem port_firstWords : (port sym).firstWords = firstWords sym := rfl
@[simp] theorem port_land : (port sym).land = land sym := rfl

end Port

/-- The low halves of `v8` to `v15`. -/
def d8ToD15 (r : Regs) : List Word :=
  [r.v 8, r.v 9, r.v 10, r.v 11, r.v 12, r.v 13, r.v 14, r.v 15].map fun q => q.setWidth 64

/-- What a called function must preserve is as it was, and so is the place in the code. -/
structure Preserved (r r' : Regs) : Prop where
  x : ∀ t, 19 ≤ t → t ≤ 29 → r'.x t = r.x t
  sp : r'.sp = r.sp
  pc : r'.pc = r.pc
  d : d8ToD15 r' = d8ToD15 r

/-- In the run each resumed fiber finds what it left, and each new one its `fw_fiber`. -/
structure Honours (sym : Symbols) (s₀ : Sys Regs) (acts : List (Act Regs)) : Prop where
  resumed : ∀ f s₁ between s₃, Resumes (port sym) s₀ acts f s₁ between s₃ →
    Preserved s₁.cpu.regs (returned (port sym) s₃ f).regs
  started : ∀ f s₃, Starts (port sym) s₀ acts f s₃ →
    (returned (port sym) s₃ f).regs.pc = sym.fwFiberTrampoline ∧
    (returned (port sym) s₃ f).regs.x 19 = f

/-- The registers `d8` to `d15` once the fibers have done `acts`, `d` being there first. -/
def d8ToD15After (d : List Word) (acts : List (Act Regs)) : List Word :=
  acts.foldl (fun d a => match a with | .work regs _ => d8ToD15 regs | _ => d) d

/-- The fibers that ran in between have left `d8` to `d15` as they were, or put them back. -/
def Leaves (s₁ : Sys Regs) (between : List (Act Regs)) : Prop :=
  d8ToD15After (d8ToD15 s₁.cpu.regs) between = d8ToD15 s₁.cpu.regs

section Steps

variable {sym : Symbols} {s s' : Sys Regs}

theorem land_v (cpu : Cpu Regs) : (land sym cpu).regs.v = cpu.regs.v := by
  unfold land
  split <;> rfl

theorem returned_v (f : Word) : (returned (port sym) s f).regs.v = s.cpu.regs.v := by
  unfold returned fwFiberSwitch
  rw [port_call, callSwap_v]

theorem switchTo_v {to_ : Word} (switched : switchTo (port sym) s to_ = some s') :
    s'.cpu.regs.v = s.cpu.regs.v := by
  obtain ⟨t, _, _, _, _, landed⟩ := switchTo_eq_some switched
  rw [landed, port_land]
  dsimp only
  rw [land_v]
  exact returned_v to_

/-- Only the work of a fiber changes `d8` to `d15`. -/
theorem step_d8ToD15 {a : Act Regs} (taken : step (port sym) s a = some s') :
    d8ToD15 s'.cpu.regs = d8ToD15After (d8ToD15 s.cpu.regs) [a] := by
  cases a with
  | make =>
    obtain ⟨_, _, _, _, rfl⟩ := step_make_eq_some taken
    rfl
  | work =>
    obtain ⟨_, rfl⟩ := step_work_eq_some taken
    rfl
  | switch to_ =>
    have switched : switchTo (port sym) s to_ = some s' := taken
    simp only [d8ToD15, switchTo_v switched, d8ToD15After, List.foldl_cons, List.foldl_nil]
  | finish =>
    have switched := step_finish_eq_some taken
    simp only [d8ToD15, switchTo_v switched, d8ToD15After, List.foldl_cons, List.foldl_nil]

theorem run_d8ToD15 {acts : List (Act Regs)}
    (ran : Machine.run (step (port sym)) s acts = some s') :
    d8ToD15 s'.cpu.regs = d8ToD15After (d8ToD15 s.cpu.regs) acts := by
  induction acts generalizing s with
  | nil =>
    cases ran
    rfl
  | cons a rest ih =>
    obtain ⟨u, taken, ran⟩ := Machine.run_cons_eq_some.mp ran
    rw [ih ran, step_d8ToD15 taken]
    rfl

/-- A resumed fiber finds in `d8` to `d15` what the others have left there. -/
theorem resumes_d8ToD15 {s₀ s₁ s₃ : Sys Regs} {acts between : List (Act Regs)} {f : Word}
    (resumes : Resumes (port sym) s₀ acts f s₁ between s₃) :
    d8ToD15 (returned (port sym) s₃ f).regs =
      d8ToD15After (d8ToD15 s₁.cpu.regs) between := by
  cases resumes with
  | @intro _ _ _ _ _ _ _ s₂ _ _ reached away =>
    have left : s₁.cur.cell ≠ s₂.cur.cell := fun same =>
      away.aside.2.head (same.symm.trans away.running)
    have out : d8ToD15 s₂.cpu.regs = d8ToD15 s₁.cpu.regs := by
      simp only [d8ToD15, switchTo_v (step_switches away.out left rfl)]
    have back : d8ToD15 (returned (port sym) s₃ f).regs = d8ToD15 s₃.cpu.regs := by
      simp only [d8ToD15, returned_v]
    rw [back, run_d8ToD15 away.aside.1, out]

theorem d8ToD15After_of_forall {d : List Word} {acts : List (Act Regs)}
    (keeps : ∀ a ∈ acts, d8ToD15After d [a] = d) : d8ToD15After d acts = d := by
  induction acts with
  | nil => rfl
  | cons a rest ih =>
    have here := keeps a List.mem_cons_self
    change d8ToD15After (d8ToD15After d [a]) rest = d
    rw [here]
    exact ih fun b later => keeps b (List.mem_cons_of_mem a later)

/-- Where no fiber ever changes `d8` to `d15`, they are left as they were. -/
theorem leaves_of_forall {s₀ s₁ s₃ : Sys Regs} {acts between : List (Act Regs)} {f : Word}
    (keeps : ∀ a ∈ acts, d8ToD15After (d8ToD15 s₀.cpu.regs) [a] = d8ToD15 s₀.cpu.regs)
    (resumes : Resumes (port sym) s₀ acts f s₁ between s₃) : Leaves s₁ between := by
  cases resumes with
  | @intro front _ rest a b _ _ _ _ _ reached _ =>
    have before : d8ToD15 s₁.cpu.regs = d8ToD15 s₀.cpu.regs := by
      rw [run_d8ToD15 reached]
      exact d8ToD15After_of_forall fun c member => keeps c (by simp [member])
    unfold Leaves
    rw [before]
    exact d8ToD15After_of_forall fun c member => keeps c (by simp [member])

end Steps

theorem kept_eq (r : Regs) :
    kept r = ((List.finRange 31).filter fun t => 19 ≤ t ∧ t ≤ 29).map r.x ++ [r.pc] := rfl

theorem preserved_of_kept {r r' : Regs} (same : kept r' = kept r) (sp : r'.sp = r.sp)
    (d : d8ToD15 r' = d8ToD15 r) : Preserved r r' := by
  rw [kept_eq, kept_eq] at same
  obtain ⟨x, pc⟩ := List.append_inj same (by rw [List.length_map, List.length_map])
  refine ⟨?_, sp, List.singleton_inj.mp pc, d⟩
  intro t low high
  apply List.map_inj_left.mp x t
  simp [low, high]

/-- However many fibers are made and however they switch, a resumed fiber finds all that
a called function must preserve exactly if the low halves of `v8` to `v15` are those it
left, since the switch neither saves nor restores them. -/
theorem switch_honours_iff (sym : Symbols) (cpu : Cpu Regs) (self : Word) (stack : Region)
    (separate : (Region.mk self fwFiberBytes).Apart stack) (acts : List (Act Regs)) :
    Honours sym (init cpu self stack separate) acts ↔
      ∀ f s₁ between s₃,
        Resumes (port sym) (init cpu self stack separate) acts f s₁ between s₃ →
          Leaves s₁ between := by
  have formed := init_wellFormed (port sym) cpu self stack separate
  constructor
  · intro honours f s₁ between s₃ resumes
    have kept := (honours.resumed f s₁ between s₃ resumes).d
    rw [resumes_d8ToD15 resumes] at kept
    exact kept
  · intro leaves
    constructor
    · intro f s₁ between s₃ resumes
      have d := (resumes_d8ToD15 resumes).trans (leaves f s₁ between s₃ resumes)
      cases resumes with
      | intro reached away =>
        obtain ⟨kept, sp, _⟩ := away.returned (run_wellFormed formed reached)
        rw [port_kept] at kept
        rw [port_sp] at sp
        exact preserved_of_kept kept sp d
    · intro f s₃ starts
      cases starts with
      | intro reached first =>
        have kept := (first.returned (run_wellFormed formed reached)).1
        rw [port_kept, port_firstWords] at kept
        unfold Arm.kept firstWords at kept
        simp only [List.cons.injEq, and_true] at kept
        exact ⟨kept.2.2.2.2.2.2.2.2.2.2.2, kept.1⟩

def sampleSymbols : Symbols := ⟨0x401000, 0x401008, 0x402000⟩

def bootstrapStack : Region := ⟨0x7fff0000, 65536⟩

def bootstrapCpu : Cpu Regs := ⟨⟨fun _ => 1, 0x7fffe000, 0x400000, fun _ => 2⟩, fun _ => 0⟩

theorem bootstrap_separate : (Region.mk 0x10000 fwFiberBytes).Apart bootstrapStack := by decide

def bootstrap : Sys Regs := init bootstrapCpu 0x10000 bootstrapStack bootstrap_separate

/-- A fiber is made and switched to, works until its SIMD registers are `v`, and switches
back. -/
def roundTrip (v : Fin 32 → BitVec 128) : List (Act Regs) :=
  [.make 0x11000 16384 0x403000 7 0x10000 0x200000, .switch 0x11000,
    .work ⟨fun _ => 3, 0x203f00, 0x400100, v⟩ [], .switch 0x10000]

/-- A fiber that leaves the SIMD registers alone. -/
theorem switch_honours_iff_untouched : Honours sampleSymbols bootstrap (roundTrip fun _ => 2) := by
  apply (switch_honours_iff sampleSymbols bootstrapCpu 0x10000 bootstrapStack bootstrap_separate
    (roundTrip fun _ => 2)).mpr
  intro f s₁ between s₃ resumes
  apply leaves_of_forall _ resumes
  simp only [roundTrip, List.forall_mem_cons]
  exact ⟨rfl, rfl, rfl, rfl, by simp⟩

/-- The states of the run in which the fiber leaves 5. -/
def afterMaking : Sys Regs :=
  (Machine.run (step (port sampleSymbols)) bootstrap ((roundTrip fun _ => 5).take 1)).get
    (by decide +kernel)

def afterSwitching : Sys Regs :=
  (step (port sampleSymbols) afterMaking (.switch 0x11000)).get (by decide +kernel)

def afterWorking : Sys Regs :=
  (step (port sampleSymbols) afterSwitching
    (.work ⟨fun _ => 3, 0x203f00, 0x400100, fun _ => 5⟩ [])).get (by decide +kernel)

def afterReturning : Sys Regs :=
  (step (port sampleSymbols) afterWorking (.switch 0x10000)).get (by decide +kernel)

/-- The bootstrap fiber goes on with the 5 that the other fiber has in `d8`. -/
theorem resumed_with_foreign_d8 : ¬ Honours sampleSymbols bootstrap (roundTrip fun _ => 5) := by
  intro honours
  have made : Machine.run (step (port sampleSymbols)) bootstrap ((roundTrip fun _ => 5).take 1) =
      some afterMaking := (Option.some_get _).symm
  have switched : step (port sampleSymbols) afterMaking (.switch 0x11000) = some afterSwitching :=
    (Option.some_get _).symm
  have worked : step (port sampleSymbols) afterSwitching
      (.work ⟨fun _ => 3, 0x203f00, 0x400100, fun _ => 5⟩ []) = some afterWorking :=
    (Option.some_get _).symm
  have returns : step (port sampleSymbols) afterWorking (.switch 0x10000) = some afterReturning :=
    (Option.some_get _).symm
  have away : Away (port sampleSymbols) 0x10000 afterMaking (.switch 0x11000) afterSwitching
      [.work ⟨fun _ => 3, 0x203f00, 0x400100, fun _ => 5⟩ []] afterWorking (.switch 0x10000)
      afterReturning :=
    { running := by decide +kernel
      out := switched
      aside := ⟨by rw [Machine.run_one, worked], by decide +kernel⟩
      back := returns
      resumed := by decide +kernel }
  have resumes : Resumes (port sampleSymbols) bootstrap (roundTrip fun _ => 5) 0x10000 afterMaking
      [.work ⟨fun _ => 3, 0x203f00, 0x400100, fun _ => 5⟩ []] afterWorking := .intro made away
  have d := (honours.resumed _ _ _ _ resumes).d
  revert d
  decide +kernel

end TransparentOffload.FwFiber.Arm
