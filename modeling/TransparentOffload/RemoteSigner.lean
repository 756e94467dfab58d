import TransparentOffload.Kernel
import TransparentOffload.Lib.Dialogue
import TransparentOffload.Lib.Run

set_option autoImplicit false

/- `libaccel_remote`: the calls of one thread, which sends the first 32 bytes of a buffer to
`remote_hsm` and puts the front of the answer in their place. The connection stays
for the next call. Each system call is a step whose outcome the kernel and the peer choose. -/
namespace TransparentOffload

/-- `remote_hsm`: each 32 bytes of a connection are signed, and the signature has 256 bytes.
A signature may depend on the connection and on the request's number there. -/
structure RemoteHsm where
  sign : Nat → Nat → Bytes → Bytes
  length : ∀ c i digest, (sign c i digest).length = 256

/-- What `conn` answers on a connection. -/
def RemoteHsm.conn (hsm : RemoteHsm) (c : Nat) : Dialogue.Rule UInt8 := ⟨32, by decide, hsm.sign c⟩

/-- Where `accel_encrypt` is: in `connect_remote`, in the `rw_all` that writes the digest
with `d` bytes of it behind, in the one that reads with `d` bytes of the signature behind,
or in front of its last `memcpy`. `again` is the second try. -/
inductive RemoteStage
  | connect (again : Bool)
  | write (again : Bool) (d : Nat)
  | read (d : Nat)
  | copy (d : Nat)
  deriving DecidableEq, Repr

/-- A call of `accel_encrypt(buf, n)` with its array `sig`. `asked` is history: how many
bytes were sent on the connection in front of the digest. -/
structure RemoteCall where
  buf : Bytes
  n : Nat
  sig : Bytes
  asked : Nat
  stage : RemoteStage
  deriving DecidableEq, Repr

/-- `digest`. -/
def RemoteCall.digest (k : RemoteCall) : Bytes := k.buf.take 32

/-- The buffer once `sig` is copied over its front. -/
def RemoteCall.result (k : RemoteCall) : Bytes :=
  let m := if 32 < k.n then 32 else k.n
  k.sig.take m ++ k.buf.drop m

/-- `sock`, the connections so far, and on each of them the bytes that were sent and the
count of those that were read. -/
structure Remote where
  sock : Option Nat
  made : Nat
  sent : Nat → Bytes
  got : Nat → Nat
  call : Option RemoteCall

namespace Remote

def start : Remote := ⟨none, 0, fun _ => [], fun _ => 0, none⟩

def goto (s : Remote) (k : RemoteCall) (stage : RemoteStage) : Remote :=
  { s with call := some { k with stage := stage } }

/-- A thread with no call open begins one; `sig` is not initialized. -/
def accelEncrypt (s : Remote) (buf : Bytes) (n : Nat) (sig : Bytes) : Option Remote :=
  if s.call = none ∧ 32 ≤ n ∧ n ≤ buf.length ∧ sig.length = 256 then
    match s.sock with
    | none => some { s with call := some ⟨buf, n, sig, 0, .connect false⟩ }
    | some c => some { s with call := some ⟨buf, n, sig, (s.sent c).length, .write false 0⟩ }
  else none

/-- `connect_remote`; where it fails the call returns. -/
def connectRemote (s : Remote) (k : RemoteCall) (again ok : Bool) : Remote :=
  if ok then
    { s with sock := some s.made, made := s.made + 1 }.goto { k with asked := 0 } (.write again 0)
  else { s with sock := none, call := none }

/-- One `write` of `rw_all`: some bytes of the digest, or a failure. The first failure
closes the socket, the second one is not looked at. -/
def write (s : Remote) (k : RemoteCall) (c : Nat) (again : Bool) (d : Nat) :
    Option Nat → Option Remote
  | some m =>
    if 0 < m ∧ d + m ≤ 32 then
      some ({ s with
        sent := Function.update s.sent c (s.sent c ++ (k.digest.drop d).take m) }.goto k
          (if d + m = 32 then .read 0 else .write again (d + m)))
    else none
  | none =>
    if again then some (s.goto k (.read 0))
    else some ({ s with sock := none }.goto k (.connect true))

/-- One `read` of `rw_all`: the next bytes of the answers, or a failure, which is not
looked at either. -/
def read (hsm : RemoteHsm) (s : Remote) (k : RemoteCall) (c d : Nat) :
    Option Nat → Option Remote
  | some m =>
    let owed := (hsm.conn c).owed (s.sent c)
    if 0 < m ∧ d + m ≤ 256 ∧ s.got c + m ≤ owed.length then
      some ({ s with got := Function.update s.got c (s.got c + m) }.goto
        { k with sig := k.sig.take d ++ (owed.drop (s.got c)).take m ++ k.sig.drop (d + m) }
        (if d + m = 256 then .copy 256 else .read (d + m)))
    else none
  | none => some (s.goto k (.copy d))

end Remote

/-- A call, its system calls, and its return. -/
inductive RemoteAct
  | call (buf : Bytes) (n : Nat) (sig : Bytes)
  | connect (ok : Bool)
  | write (out : Option Nat)
  | read (out : Option Nat)
  | copy
  deriving DecidableEq, Repr

namespace Remote

/-- A step of the thread; one that is not where it is has no step. -/
def step (hsm : RemoteHsm) (s : Remote) : RemoteAct → Option Remote
  | .call buf n sig => s.accelEncrypt buf n sig
  | .connect ok =>
    match s.call with
    | some k =>
      match k.stage with
      | .connect again => some (s.connectRemote k again ok)
      | _ => none
    | none => none
  | .write out =>
    match s.call, s.sock with
    | some k, some c =>
      match k.stage with
      | .write again d => s.write k c again d out
      | _ => none
    | _, _ => none
  | .read out =>
    match s.call, s.sock with
    | some k, some c =>
      match k.stage with
      | .read d => s.read hsm k c d out
      | _ => none
    | _, _ => none
  | .copy =>
    match s.call with
    | some k =>
      match k.stage with
      | .copy _ => some { s with call := none }
      | _ => none
    | none => none

section Inversion

variable {hsm : RemoteHsm} {s t : Remote}

theorem step_connect_eq_some {ok : Bool} (taken : step hsm s (.connect ok) = some t) :
    ∃ k again, s.call = some k ∧ k.stage = .connect again ∧ t = s.connectRemote k again ok := by
  rw [step] at taken
  split at taken
  · rename_i k called
    split at taken
    · rename_i again stage
      exact ⟨k, again, called, stage, (Option.some.inj taken).symm⟩
    · cases taken
  · cases taken

theorem step_write_eq_some {out : Option Nat} (taken : step hsm s (.write out) = some t) :
    ∃ k c again d, s.call = some k ∧ s.sock = some c ∧ k.stage = .write again d ∧
      s.write k c again d out = some t := by
  rw [step] at taken
  split at taken
  · rename_i k c called connected
    split at taken
    · rename_i again d stage
      exact ⟨k, c, again, d, called, connected, stage, taken⟩
    · cases taken
  · cases taken

theorem step_read_eq_some {out : Option Nat} (taken : step hsm s (.read out) = some t) :
    ∃ k c d, s.call = some k ∧ s.sock = some c ∧ k.stage = .read d ∧
      s.read hsm k c d out = some t := by
  rw [step] at taken
  split at taken
  · rename_i k c called connected
    split at taken
    · rename_i d stage
      exact ⟨k, c, d, called, connected, stage, taken⟩
    · cases taken
  · cases taken

theorem step_copy_eq_some (taken : step hsm s .copy = some t) :
    ∃ k d, s.call = some k ∧ k.stage = .copy d ∧ t = { s with call := none } := by
  rw [step] at taken
  split at taken
  · rename_i k called
    split at taken
    · rename_i d stage
      exact ⟨k, d, called, stage, (Option.some.inj taken).symm⟩
    · cases taken
  · cases taken

end Inversion

end Remote

end TransparentOffload
