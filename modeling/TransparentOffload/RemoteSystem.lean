import TransparentOffload.Lib.Refinement
import TransparentOffload.RemoteAnswers
import TransparentOffload.RemoteHsm

set_option autoImplicit false

/- `libaccel_remote` and `remote_hsm` at the two ends of a network that delivers in order.
The client reads what the threads of the signer have written. -/
namespace TransparentOffload

/-- The calls of the client's thread, and the signer's thread of each connection. -/
structure RemoteSystem where
  client : Remote
  conns : Nat → HsmConn

/-- A step of the client, of the network towards the signer, or of one of its threads. -/
inductive SystemAct
  | client (a : RemoteAct)
  | deliver (c m : Nat)
  | hangup (c : Nat)
  | server (c : Nat) (out : IoOut)
  deriving DecidableEq, Repr

namespace RemoteSystem

def start : RemoteSystem := ⟨.start, fun _ => .fresh⟩

def setConn (s : RemoteSystem) (c : Nat) (h : HsmConn) : RemoteSystem :=
  { s with conns := Function.update s.conns c h }

/-- What the client has sent on a connection and the signer's end has not yet got. -/
def pending (s : RemoteSystem) (c : Nat) : Bytes :=
  (s.client.sent c).drop (s.conns c).sock.arrived.length

/-- One `read` of the client's `rw_all`: the next bytes that the thread at the other end
has written. -/
def readFrom (stream : Bytes) (s : Remote) (k : RemoteCall) (c d m : Nat) : Option Remote :=
  if 0 < m ∧ d + m ≤ 256 ∧ s.got c + m ≤ stream.length then
    some ({ s with got := Function.update s.got c (s.got c + m) }.goto
      { k with sig := k.sig.take d ++ (stream.drop (s.got c)).take m ++ k.sig.drop (d + m) }
      (if d + m = 256 then .copy 256 else .read (d + m)))
  else none

def clientRead (s : RemoteSystem) (m : Nat) : Option Remote :=
  match s.client.call, s.client.sock with
  | some k, some c =>
    match k.stage with
    | .read d => readFrom (s.conns c).sock.tx s.client k c d m
    | _ => none
  | _, _ => none

/-- One step. The other end of a closed connection is told so behind its last byte. -/
def step (hsm : RemoteHsm) (s : RemoteSystem) : SystemAct → Option RemoteSystem
  | .client (.read (some m)) => (s.clientRead m).map fun client => { s with client := client }
  | .client a => (s.client.step hsm a).map fun client => { s with client := client }
  | .deliver c m =>
    if 0 < m ∧ m ≤ (s.pending c).length then
      some (s.setConn c
        { s.conns c with sock := (s.conns c).sock.arrive ((s.pending c).take m) })
    else none
  | .hangup c =>
    if c < s.client.made ∧ s.client.sock ≠ some c ∧ s.pending c = [] then
      some (s.setConn c { s.conns c with sock := (s.conns c).sock.hangup })
    else none
  | .server c out =>
    if c < s.client.made then
      ((s.conns c).step (hsm.sign c) out).map fun h => s.setConn c h
    else none

/-- The client's own steps. -/
def label : SystemAct → Option RemoteAct
  | .client a => some a
  | .deliver _ _ | .hangup _ | .server _ _ => none

/-- Every thread of the signer answers its connection, of which it has got a part. -/
structure Linked (hsm : RemoteHsm) (s : RemoteSystem) : Prop where
  sound : ∀ c, (s.conns c).Sound hsm c
  delivered : ∀ c, (s.conns c).sock.arrived <+: s.client.sent c

section Steps

variable {hsm : RemoteHsm} {s t : RemoteSystem}

/-- A client only sends more. -/
theorem step_sent {s t : Remote} {a : RemoteAct} (taken : s.step hsm a = some t) (c : Nat) :
    s.sent c <+: t.sent c := by
  cases a with
  | call buf n sig =>
    rw [Remote.step, Remote.accelEncrypt] at taken
    split at taken
    · split at taken <;> cases taken
      all_goals exact List.prefix_rfl
    · cases taken
  | connect ok =>
    obtain ⟨k, again, _, _, rfl⟩ := Remote.step_connect_eq_some taken
    cases ok <;> exact List.prefix_rfl
  | write out =>
    obtain ⟨k, c', again, d, _, _, _, written⟩ := Remote.step_write_eq_some taken
    cases out with
    | none =>
      rw [Remote.write] at written
      split at written <;> cases written
      all_goals exact List.prefix_rfl
    | some m =>
      rw [Remote.write] at written
      split at written
      · cases written
        show s.sent c <+: Function.update s.sent c' _ c
        by_cases same : c = c'
        · subst same
          rw [Function.update_self]
          exact List.prefix_append ..
        · rw [Function.update_of_ne same]
      · cases written
  | read out =>
    obtain ⟨k, c', d, _, _, _, answered⟩ := Remote.step_read_eq_some taken
    cases out with
    | none =>
      cases answered
      exact List.prefix_rfl
    | some m =>
      rw [Remote.read] at answered
      split at answered
      · cases answered
        exact List.prefix_rfl
      · cases answered
  | copy =>
    obtain ⟨_, _, _, _, rfl⟩ := Remote.step_copy_eq_some taken
    exact List.prefix_rfl

/-- Bytes of a stream are those of any longer one. -/
theorem take_drop_of_prefix {short long : Bytes} (front : short <+: long) {n m : Nat}
    (inside : n + m ≤ short.length) : (short.drop n).take m = (long.drop n).take m := by
  obtain ⟨rest, rfl⟩ := front
  rw [List.drop_append_of_le_length (by omega), List.take_append_of_le_length]
  rw [List.length_drop]
  omega

/-- What the client reads off the wire is what the connection owes it. -/
theorem clientRead_refines {client : Remote} {m : Nat} (linked : Linked hsm s)
    (taken : s.clientRead m = some client) :
    s.client.step hsm (.read (some m)) = some client := by
  unfold clientRead at taken
  rw [Remote.step]
  cases called : s.client.call with
  | none =>
    rw [called] at taken
    cases taken
  | some k =>
    cases connected : s.client.sock with
    | none =>
      rw [called, connected] at taken
      cases taken
    | some c =>
      rw [called, connected] at taken
      dsimp only at taken ⊢
      cases stage : k.stage with
      | read d =>
        rw [stage] at taken
        dsimp only at taken
        unfold readFrom at taken
        split at taken
        · rename_i fits
          have part : (s.conns c).sock.tx <+: (hsm.conn c).owed (s.client.sent c) := by
            obtain ⟨rest, more⟩ := linked.delivered c
            rw [← more]
            exact (linked.sound c).tx_isPrefix.trans (Dialogue.owed_append ..)
          have most := part.length_le
          show s.client.read hsm k c d (some m) = some client
          rw [Remote.read]
          rw [if_pos ⟨fits.1, fits.2.1, by omega⟩, ← take_drop_of_prefix part fits.2.2]
          exact taken
        · cases taken
      | connect | write | copy =>
        rw [stage] at taken
        cases taken

theorem Linked.client (linked : Linked hsm s) {client : Remote} {a : RemoteAct}
    (taken : s.client.step hsm a = some client) : Linked hsm { s with client := client } :=
  ⟨linked.sound, fun c => (linked.delivered c).trans (step_sent taken c)⟩

/-- A connection whose thread still answers it and has got no more than was sent. -/
theorem Linked.setConn (linked : Linked hsm s) {c : Nat} {h : HsmConn} (sound : h.Sound hsm c)
    (delivered : h.sock.arrived <+: s.client.sent c) : Linked hsm (s.setConn c h) := by
  refine ⟨?_, ?_⟩
  · intro c'
    show HsmConn.Sound hsm c' (Function.update s.conns c h c')
    by_cases same : c' = c
    · subst same
      rwa [Function.update_self]
    · rw [Function.update_of_ne same]
      exact linked.sound c'
  · intro c'
    show (Function.update s.conns c h c').sock.arrived <+: s.client.sent c'
    by_cases same : c' = c
    · subst same
      rwa [Function.update_self]
    · rw [Function.update_of_ne same]
      exact linked.delivered c'

theorem start_linked (hsm : RemoteHsm) : Linked hsm start :=
  ⟨fun c => .start hsm c, fun _ => List.prefix_rfl⟩

/-- Every step keeps the ends of the connections together, and is the client's step
against the signer that `hsm` describes or leaves the client as it is. -/
theorem step_linked {a : SystemAct} (linked : Linked hsm s) (taken : s.step hsm a = some t) :
    Linked hsm t ∧ match label a with
      | some b => s.client.step hsm b = some t.client
      | none => t.client = s.client := by
  cases a with
  | client a =>
    have moved : ∃ client, s.client.step hsm a = some client ∧ t = { s with client := client } := by
      cases a with
      | read out =>
        cases out with
        | some m =>
          obtain ⟨client, read, rfl⟩ := Option.map_eq_some_iff.mp taken
          exact ⟨client, clientRead_refines linked read, rfl⟩
        | none =>
          obtain ⟨client, read, rfl⟩ := Option.map_eq_some_iff.mp taken
          exact ⟨client, read, rfl⟩
      | call | connect | write | copy =>
        obtain ⟨client, read, rfl⟩ := Option.map_eq_some_iff.mp taken
        exact ⟨client, read, rfl⟩
    obtain ⟨client, moved, rfl⟩ := moved
    exact ⟨linked.client moved, moved⟩
  | deliver c m =>
    rw [step] at taken
    split at taken
    · cases taken
      refine ⟨linked.setConn ((linked.sound c).arrive _) ?_, rfl⟩
      obtain ⟨rest, more⟩ := linked.delivered c
      show (s.conns c).sock.arrived ++ (s.pending c).take m <+: s.client.sent c
      rw [pending, ← more, List.drop_left]
      exact (List.prefix_append_right_inj _).mpr (List.take_prefix m rest)
    · cases taken
  | hangup c =>
    rw [step] at taken
    split at taken
    · cases taken
      exact ⟨linked.setConn (linked.sound c).hangup (linked.delivered c), rfl⟩
    · cases taken
  | server c out =>
    rw [step] at taken
    split at taken
    · obtain ⟨h, moved, rfl⟩ := Option.map_eq_some_iff.mp taken
      refine ⟨linked.setConn ((linked.sound c).step moved) ?_, rfl⟩
      rw [HsmConn.step_arrived moved]
      exact linked.delivered c
    · cases taken

/-- Seen from its client, the system is a client of the signer that `hsm` describes. -/
theorem refines (hsm : RemoteHsm) :
    Machine.Refines (step hsm) (Remote.step hsm) client label (Linked hsm) := by
  refine ⟨?_, ?_, ?_⟩
  · exact fun s a t linked taken => (step_linked linked taken).1
  · intro s a t b linked taken labelled
    have moved := (step_linked linked taken).2
    rwa [labelled] at moved
  · intro s a t linked taken labelled
    have moved := (step_linked linked taken).2
    rwa [labelled] at moved

end Steps

end RemoteSystem

end TransparentOffload
