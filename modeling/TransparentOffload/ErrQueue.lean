import Mathlib.Data.List.Basic

set_option autoImplicit false

/- OpenSSL's per-thread error queue and the packed codes in it. -/
namespace TransparentOffload

def errNumErrors : Nat := 16

/-- A packed code; a pushed one is never zero, which is how `ERR_get_error`
reports an empty queue. -/
structure ErrCode where
  packed : Nat
  nonzero : packed ≠ 0
  deriving DecidableEq, Repr

/-- The library and reason fields, as `tls_restore` extracts them. -/
def errLib (e : Nat) : Nat := (e >>> 23) &&& 0xFF
def errReason (e : Nat) : Nat := e &&& 0x7FFFFF

/-- `ERR_PACK(lib,0,reason)`. -/
def errPack (lib reason : Nat) : Nat := ((lib &&& 0xFF) <<< 23) ||| (reason &&& 0x7FFFFF)

/-- One queue entry with the slot of the fiber that pushed it. -/
structure ErrEntry where
  code : Nat
  pusher : Nat
  deriving DecidableEq, Repr

/-- Oldest entry first. -/
abbrev ErrQueue := List ErrEntry

namespace ErrQueue

/-- `ERR_put_error`: a full queue drops its oldest entry. -/
def put (q : ErrQueue) (e : ErrEntry) : ErrQueue :=
  if q.length + 1 < errNumErrors then q ++ [e] else (q ++ [e]).tail

/-- `ERR_get_error`: the oldest code, zero on an empty queue. -/
def get : ErrQueue → Nat × ErrQueue
  | [] => (0, [])
  | e :: rest => (e.code, rest)

/-- The loop of `tls_save`: codes are read off the queue into `errbuf`. The
read that finds the buffer full has already removed its code. -/
def drain : ErrQueue → List Nat → List Nat × ErrQueue
  | [], buf => (buf, [])
  | e :: rest, buf =>
    if e.code ≠ 0 ∧ buf.length < 16 then drain rest (buf ++ [e.code]) else (buf, rest)

/-- The loop of `tls_restore` after `ERR_clear_error`. -/
def refill (pusher : Nat) (codes : List Nat) : ErrQueue :=
  codes.foldl (fun q e => q.put ⟨errPack (errLib e) (errReason e), pusher⟩) []

/-- What the queue shows of its entries: libraries and reasons, in order. -/
def shown (q : ErrQueue) : List (Nat × Nat) := q.map fun e => (errLib e.code, errReason e.code)

/-- What every queue of pushed codes satisfies. -/
structure Valid (q : ErrQueue) : Prop where
  short : q.length < errNumErrors
  nonzero : ∀ e ∈ q, e.code ≠ 0

theorem valid_nil : Valid [] := ⟨by decide, by simp⟩

theorem Valid.put {q : ErrQueue} (valid : q.Valid) (code : ErrCode) (pusher : Nat) :
    (q.put ⟨code.packed, pusher⟩).Valid := by
  have members : ∀ e ∈ q ++ [⟨code.packed, pusher⟩], e.code ≠ 0 := by
    intro e member
    rcases List.mem_append.mp member with old | new
    · exact valid.nonzero e old
    · rw [List.mem_singleton] at new
      exact new ▸ code.nonzero
  unfold ErrQueue.put
  split
  · rename_i room
    exact ⟨by simpa using room, members⟩
  · refine ⟨?_, fun e member => members e (List.mem_of_mem_tail member)⟩
    have short := valid.short
    simp only [List.length_tail, List.length_append, List.length_singleton]
    omega

theorem mem_put {q : ErrQueue} {e e' : ErrEntry} (member : e' ∈ q.put e) : e' ∈ q ++ [e] := by
  unfold ErrQueue.put at member
  split at member
  · exact member
  · exact List.mem_of_mem_tail member

theorem mem_get {q : ErrQueue} {e : ErrEntry} (member : e ∈ q.get.2) : e ∈ q := by
  cases q with
  | nil => exact member
  | cons first rest => exact List.mem_cons_of_mem first member

theorem Valid.get {q : ErrQueue} (valid : q.Valid) : q.get.2.Valid := by
  cases q with
  | nil => exact valid_nil
  | cons e rest =>
    have short := valid.short
    refine ⟨?_, fun e' member => valid.nonzero e' (List.mem_cons_of_mem e member)⟩
    change rest.length < errNumErrors
    simp only [List.length_cons] at short
    omega

/-- Draining into a buffer with room for the whole queue leaves nothing in it. -/
theorem drain_empties {q : ErrQueue} (nonzero : ∀ e ∈ q, e.code ≠ 0) (buf : List Nat)
    (room : buf.length + q.length ≤ 16) : q.drain buf = (buf ++ q.map ErrEntry.code, []) := by
  induction q generalizing buf with
  | nil => simp [drain]
  | cons e rest ih =>
    have head := nonzero e List.mem_cons_self
    have tail : ∀ e' ∈ rest, e'.code ≠ 0 :=
      fun e' member => nonzero e' (List.mem_cons_of_mem e member)
    simp only [List.length_cons] at room
    have fits : e.code ≠ 0 ∧ buf.length < 16 := ⟨head, by omega⟩
    rw [drain, if_pos fits,
      ih tail _ (by simp only [List.length_append, List.length_singleton]; omega)]
    simp

theorem Valid.drain {q : ErrQueue} (valid : q.Valid) : q.drain [] = (q.map ErrEntry.code, []) := by
  have short := valid.short
  have room : ([] : List Nat).length + q.length ≤ 16 := by
    unfold errNumErrors at short
    simp only [List.length_nil]
    omega
  simpa using drain_empties valid.nonzero [] room

end ErrQueue

end TransparentOffload
