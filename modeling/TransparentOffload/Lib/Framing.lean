import Mathlib.Data.List.Basic

set_option autoImplicit false

/- Messages behind a header of fixed width that gives their length, and the reader that
takes a stream of them apart. -/

/-- How a length is written and read back. -/
structure Framing (α : Type*) where
  width : Nat
  head : Nat → List α
  size : List α → Nat
  limit : Nat
  positive : 0 < width
  length_head : ∀ n, (head n).length = width
  size_head : ∀ n ≤ limit, size (head n) = n

namespace Framing

variable {α : Type*} (f : Framing α)

/-- A message behind its header. -/
def encode (message : List α) : List α := f.head message.length ++ message

/-- The messages of a stream, one after the other. -/
def stream (messages : List (List α)) : List α := (messages.map f.encode).flatten

/-- The whole messages in front of a stream, at most so many. -/
def decode : Nat → List α → List (List α)
  | 0, _ => []
  | rounds + 1, s =>
    let n := f.size (s.take f.width)
    if f.width ≤ s.length ∧ f.width + n ≤ s.length then
      (s.drop f.width).take n :: decode rounds (s.drop (f.width + n))
    else []

/-- All whole messages of a stream; each takes at least its header. -/
def messages (s : List α) : List (List α) := f.decode s.length s

variable {f}

theorem length_encode (message : List α) :
    (f.encode message).length = f.width + message.length := by
  rw [encode, List.length_append, f.length_head]

@[simp] theorem stream_nil : f.stream [] = [] := rfl

theorem stream_cons (message : List α) (rest : List (List α)) :
    f.stream (message :: rest) = f.encode message ++ f.stream rest := rfl

theorem stream_append (first second : List (List α)) :
    f.stream (first ++ second) = f.stream first ++ f.stream second := by
  simp [stream]

theorem stream_snoc (first : List (List α)) (message : List α) :
    f.stream (first ++ [message]) = f.stream first ++ f.encode message := by
  rw [stream_append, stream_cons, stream_nil, List.append_nil]

theorem decode_short {s : List α} (short : s.length < f.width) (rounds : Nat) :
    f.decode rounds s = [] := by
  cases rounds with
  | zero => rfl
  | succ rounds =>
    rw [decode]
    apply if_neg
    omega

/-- A header without the whole of its message is no message. -/
theorem decode_cut {n : Nat} (fits : n ≤ f.limit) {body : List α} (cut : body.length < n)
    (rounds : Nat) : f.decode rounds (f.head n ++ body) = [] := by
  cases rounds with
  | zero => rfl
  | succ rounds =>
    have head : (f.head n ++ body).take f.width = f.head n := List.take_left' (f.length_head n)
    have whole : (f.head n ++ body).length = f.width + body.length := by
      rw [List.length_append, f.length_head]
    rw [decode, head, f.size_head n fits]
    apply if_neg
    omega

end Framing
