import Mathlib.Algebra.Group.Nat.Defs
import TransparentOffload.AccelBackends
import TransparentOffload.Lib.Streams

set_option autoImplicit false

/- An offload as the programs on CUDA streams issue it: the copy to the device, the
launch of `aes_ctr` on whole blocks, the copy back, and for those that poll a record of
their event. -/
namespace TransparentOffload.GpuStream

open LibAccelGpu (Op)
open Streams (Queue)

/-- The buffer of the host and that of the device. -/
structure Bufs where
  h : Bytes
  d : Bytes
  deriving DecidableEq, Repr

/-- What an operation of an offload of `size` bytes does. -/
def apply (size : Nat) : Op → Bufs → Bufs
  | .copyToDevice, m => { m with d := m.h }
  | .aesCtr, m => { m with d := Aes.aesCtr (Aes.keyExpand LibAccelGpu.key) 0 (size / 16) m.d }
  | .copyToHost, m => { m with h := m.d }
  | .record, m => m

/-- `cudaEventQuery` on the event that was recorded last. -/
def recorded (s : Queue Bufs Op) : Bool := !s.pending.contains .record

/-- What the device makes of a message. -/
def cipher (size : Nat) (data : Bytes) : Bytes :=
  Aes.aesCtr (Aes.keyExpand LibAccelGpu.key) 0 (size / 16) data

theorem length_cipher (size : Nat) (data : Bytes) : (cipher size data).length = data.length := by
  rw [cipher, Aes.aesCtr, List.length_mapIdx]

/-- A launch of whole blocks encrypts as OpenSSL does. -/
theorem evp_eq_cipher (evp : Bytes → Bytes → Bytes → Bytes)
    (documented : ∀ key iv data, key.length = 16 → iv.length = 16 →
      evp key iv data = LibAccel.aes128Ctr key iv data) {data : Bytes} {size : Nat}
    (whole : data.length = size) (blocks : size % 16 = 0) (int : size < 2 ^ 31) :
    evp LibAccelGpu.key (List.replicate 16 0) data = cipher size data := by
  have host := LibAccelGpu.aesCtr_cpu evp documented data size int
  unfold LibAccel.aesCtr at host
  rw [List.take_of_length_le (Nat.le_of_eq whole), List.drop_of_length_le (Nat.le_of_eq whole),
    List.append_nil, List.append_nil] at host
  rw [host, cipher, Aes.aesCtr]
  apply List.ext_getElem?
  intro k
  rw [List.getElem?_mapIdx, List.getElem?_mapIdx]
  by_cases inside : k < size
  · have block : k / 16 < size / 16 := by omega
    simp only [if_pos block, LibAccelGpu.keyByte]
  · rw [List.getElem?_eq_none (by omega)]
    rfl

/-- What was issued of an offload, and that the stream works it off from `start`. -/
def Issued (size : Nat) (start : Bufs) (issued : List Op) (stream : Queue Bufs Op) : Prop :=
  stream.settled (apply size) = issued.foldl (fun m op => apply size op m) start ∧
    (stream.pending = [] ∨ stream.pending.getLast? = issued.getLast?)

variable {size : Nat} {start : Bufs} {issued : List Op} {stream stream' : Queue Bufs Op}

theorem Issued.nothing (idle : stream.pending = []) : Issued size stream.mem [] stream :=
  ⟨Queue.settled_idle idle, Or.inl idle⟩

/-- A stream without the record at its end has worked off what was issued. -/
theorem Issued.idle (progress : Issued size start issued stream)
    (last : issued.getLast? = some .record) (done : recorded stream = true) :
    stream.pending = [] := by
  rcases progress.2 with idle | same
  · exact idle
  · have member : Op.record ∈ stream.pending := List.mem_of_getLast? (same.trans last)
    simp [recorded, member] at done

/-- Then its memory is what the operations make of the start. -/
theorem Issued.mem_eq (progress : Issued size start issued stream) (idle : stream.pending = []) :
    stream.mem = issued.foldl (fun m op => apply size op m) start := by
  rw [← Queue.settled_idle idle, progress.1]

theorem Issued.execute (before : Issued size start issued stream)
    (taken : stream.execute (apply size) = some stream') : Issued size start issued stream' := by
  obtain ⟨op, pending, _⟩ := Queue.execute_eq_some.mp taken
  refine ⟨(Queue.settled_execute taken).trans before.1, ?_⟩
  rcases before.2 with idle | last
  · rw [idle] at pending
    cases pending
  · cases found : issued.getLast? with
    | none =>
      rw [found, List.getLast?_eq_none_iff, pending] at last
      cases last
    | some op => exact Queue.getLast_execute taken (last.trans found)

theorem Issued.issue (before : Issued size start issued stream) (op : Op) :
    Issued size start (issued ++ [op]) (stream.issue op) := by
  refine ⟨?_, ?_⟩
  · rw [Queue.settled_issue, before.1, List.foldl_append]
    rfl
  · right
    rw [Queue.issue, List.getLast?_append, List.getLast?_append]
    rfl

/-- A stream that executes had something to do. -/
theorem busy (taken : stream.execute (apply size) = some stream') : stream.pending ≠ [] := by
  obtain ⟨op, pending, _⟩ := Queue.execute_eq_some.mp taken
  rw [pending]
  exact List.cons_ne_nil op _

end TransparentOffload.GpuStream
