import TransparentOffload.RemoteSigner

set_option autoImplicit false

/- `remote_hsm`: the thread of one connection, which reads 32 bytes, signs them and writes
the 256 bytes of the signature. `EVP_PKEY_sign` is the signer's function; `served` counts
its calls. -/
namespace TransparentOffload

/-- Where `conn` is: in `readn` with a part of the digest, in front of the signature, in
`writen` with `s` bytes of it behind, or past its `close`. -/
inductive HsmStage
  | reading (digest : Bytes)
  | signing (digest : Bytes)
  | writing (sig : Bytes) (s : Nat)
  | closed
  deriving DecidableEq, Repr

/-- A connection's thread and its end of the connection. -/
structure HsmConn where
  sock : Socket
  served : Nat
  stage : HsmStage
  deriving DecidableEq, Repr

namespace HsmConn

def fresh : HsmConn := ⟨.fresh, 0, .reading []⟩

/-- `readn` goes on with an answer. -/
def afterRead (h : HsmConn) (digest : Bytes) : IoRet → HsmConn
  | .data bs =>
    if bs = [] then { h with stage := .closed }
    else if (digest ++ bs).length < 32 then { h with stage := .reading (digest ++ bs) }
    else { h with stage := .signing (digest ++ bs) }
  | .err _ | .count _ => { h with stage := .closed }

/-- `writen` goes on with an answer. -/
def afterWrite (h : HsmConn) (sig : Bytes) (s : Nat) : IoRet → HsmConn
  | .count m =>
    if m = 0 then { h with stage := .closed }
    else if s + m < 256 then { h with stage := .writing sig (s + m) }
    else { h with served := h.served + 1, stage := .reading [] }
  | .err _ | .data _ => { h with stage := .closed }

/-- A step of `conn`; `out` is the kernel's choice at a system call. -/
def step (sign : Nat → Bytes → Bytes) (h : HsmConn) (out : IoOut) : Option HsmConn :=
  match h.stage with
  | .reading digest =>
    (h.sock.realRead (32 - digest.length) false out).map fun answer =>
      { h with sock := answer.1 }.afterRead digest answer.2
  | .signing digest => some { h with stage := .writing (sign h.served digest) 0 }
  | .writing sig s =>
    (h.sock.realWrite (sig.drop s) false out).map fun answer =>
      { h with sock := answer.1 }.afterWrite sig s answer.2
  | .closed => none

@[simp] theorem afterRead_sock (h : HsmConn) (digest : Bytes) (r : IoRet) :
    (h.afterRead digest r).sock = h.sock := by
  unfold afterRead
  cases r
  all_goals
    dsimp only
    repeat' split
    all_goals rfl

@[simp] theorem afterWrite_sock (h : HsmConn) (sig : Bytes) (s : Nat) (r : IoRet) :
    (h.afterWrite sig s r).sock = h.sock := by
  unfold afterWrite
  cases r
  all_goals
    dsimp only
    repeat' split
    all_goals rfl

/-- What has arrived on a connection is not its thread's to change. -/
theorem step_arrived {sign : Nat → Bytes → Bytes} {h h' : HsmConn} {out : IoOut}
    (taken : h.step sign out = some h') : h'.sock.arrived = h.sock.arrived := by
  unfold step at taken
  split at taken
  · obtain ⟨⟨sock, r⟩, real, rfl⟩ := Option.map_eq_some_iff.mp taken
    rw [afterRead_sock]
    rcases Socket.realRead_answer real with ⟨_, _, _, _, arrived, _⟩ | ⟨_, rfl⟩
    · exact arrived
    · rfl
  · cases taken
    rfl
  · obtain ⟨⟨sock, r⟩, real, rfl⟩ := Option.map_eq_some_iff.mp taken
    rw [afterWrite_sock]
    rcases Socket.realWrite_answer real with ⟨_, _, _, _, arrived, _⟩ | ⟨_, rfl⟩
    · exact arrived
    · rfl
  · cases taken

/-- The thread's end of the stream. -/
def wire (h : HsmConn) : Dialogue.Wire UInt8 := ⟨h.sock.arrived, h.sock.rx, h.sock.tx⟩

/-- Its place among the requests of the connection. -/
def place (h : HsmConn) : Dialogue.Stage UInt8 :=
  match h.stage with
  | .reading digest | .signing digest => .reading digest
  | .writing sig s => .writing sig s
  | .closed => .gone

/-- The thread answers the connection's requests, and its loops are inside their bounds. -/
structure Sound (hsm : RemoteHsm) (c : Nat) (h : HsmConn) : Prop where
  serves : Dialogue.Serves (hsm.conn c) h.wire h.served h.place
  reading : ∀ digest, h.stage = .reading digest → digest.length < 32
  signing : ∀ digest, h.stage = .signing digest → digest.length = 32
  writing : ∀ sig s, h.stage = .writing sig s → sig.length = 256

namespace Sound

variable {hsm : RemoteHsm} {c : Nat} {h h' : HsmConn}

theorem start (hsm : RemoteHsm) (c : Nat) : Sound hsm c fresh := by
  refine ⟨.start _, ?_, nofun, nofun⟩
  rintro digest ⟨⟩
  decide

/-- A thread that has closed its connection leaves what it has written. -/
theorem closed (sound : Sound hsm c h) (sock : Socket)
    (same : (⟨sock.arrived, sock.rx, sock.tx⟩ : Dialogue.Wire UInt8) = h.wire) :
    Sound hsm c { h with sock := sock, stage := .closed } := by
  refine ⟨?_, nofun, nofun, nofun⟩
  show Dialogue.Serves (hsm.conn c) ⟨sock.arrived, sock.rx, sock.tx⟩ h.served .gone
  rw [same]
  exact sound.serves.quit

theorem arrive (sound : Sound hsm c h) (bs : Bytes) :
    Sound hsm c { h with sock := h.sock.arrive bs } :=
  ⟨sound.serves.arrive bs, sound.reading, sound.signing, sound.writing⟩

theorem hangup (sound : Sound hsm c h) : Sound hsm c { h with sock := h.sock.hangup } :=
  ⟨sound.serves, sound.reading, sound.signing, sound.writing⟩

/-- The thread's next step keeps it in its dialogue. -/
theorem step {out : IoOut} (sound : Sound hsm c h)
    (taken : h.step (hsm.sign c) out = some h') : Sound hsm c h' := by
  unfold HsmConn.step at taken
  cases stage : h.stage with
  | reading digest =>
    rw [stage] at taken
    obtain ⟨⟨sock, r⟩, real, rfl⟩ := Option.map_eq_some_iff.mp taken
    have short := sound.reading digest stage
    have serves := sound.serves
    rw [place, stage] at serves
    dsimp only at serves ⊢
    rcases Socket.realRead_answer real with ⟨bs, rfl, most, unread, arrived, tx⟩ | ⟨⟨e, rfl⟩, rfl⟩
    · have next := serves.read (show h.sock.rx = bs ++ sock.rx from unread)
        (show digest.length + bs.length ≤ 32 by omega)
      unfold afterRead
      dsimp only
      split
      · rename_i eof
        subst eof
        apply sound.closed sock
        rw [wire, arrived, tx, show h.sock.rx = sock.rx from unread]
      · split
        · rename_i more
          refine ⟨?_, ?_, nofun, nofun⟩
          · show Dialogue.Serves (hsm.conn c) ⟨sock.arrived, sock.rx, sock.tx⟩ h.served _
            rw [arrived, tx]
            exact next
          · rintro digest' ⟨⟩
            exact more
        · rename_i whole
          refine ⟨?_, nofun, ?_, nofun⟩
          · show Dialogue.Serves (hsm.conn c) ⟨sock.arrived, sock.rx, sock.tx⟩ h.served _
            rw [arrived, tx]
            exact next
          · rintro digest' ⟨⟩
            rw [List.length_append] at whole ⊢
            omega
    · exact sound.closed _ rfl
  | signing digest =>
    rw [stage] at taken
    cases taken
    have serves := sound.serves
    rw [place, stage] at serves
    refine ⟨serves.turn (sound.signing digest stage), nofun, nofun, ?_⟩
    rintro sig s ⟨⟩
    exact hsm.length c h.served digest
  | writing sig s =>
    rw [stage] at taken
    obtain ⟨⟨sock, r⟩, real, rfl⟩ := Option.map_eq_some_iff.mp taken
    have size := sound.writing sig s stage
    have serves := sound.serves
    rw [place, stage] at serves
    dsimp only at serves ⊢
    rcases Socket.realWrite_answer real with ⟨m, rfl, most, tx, arrived, rx⟩ | ⟨⟨e, rfl⟩, rfl⟩
    · have next := serves.write m
      have wired : (⟨sock.arrived, sock.rx, sock.tx⟩ : Dialogue.Wire UInt8) =
          ⟨h.sock.arrived, h.sock.rx, h.sock.tx ++ (sig.drop s).take m⟩ := by
        rw [arrived, rx, tx]
      unfold afterWrite
      dsimp only
      split
      · rename_i none_
        subst none_
        apply sound.closed sock
        rw [wired, wire, List.take_zero, List.append_nil]
      · split
        · refine ⟨?_, nofun, nofun, ?_⟩
          · show Dialogue.Serves (hsm.conn c) ⟨sock.arrived, sock.rx, sock.tx⟩ h.served _
            rw [wired]
            exact next
          · rintro sig' s' ⟨⟩
            exact size
        · rename_i last
          refine ⟨?_, ?_, nofun, nofun⟩
          · show Dialogue.Serves (hsm.conn c) ⟨sock.arrived, sock.rx, sock.tx⟩ (h.served + 1) _
            rw [wired]
            exact next.done (by omega)
          · rintro digest ⟨⟩
            decide
    · exact sound.closed _ rfl
  | closed =>
    rw [stage] at taken
    cases taken

/-- All that the thread has written is a part of the connection's signatures. -/
theorem tx_isPrefix (sound : Sound hsm c h) :
    h.sock.tx <+: (hsm.conn c).owed h.sock.arrived := sound.serves.tx_isPrefix

/-- A thread that waits for its next request has written all of them. -/
theorem all_answered (sound : Sound hsm c h) {digest : Bytes}
    (waiting : h.stage = .reading digest) (unread : h.sock.rx = []) :
    h.sock.tx = (hsm.conn c).owed h.sock.arrived := by
  have serves := sound.serves
  rw [place, waiting] at serves
  exact serves.all_answered unread (sound.reading digest waiting)

end Sound

end HsmConn

end TransparentOffload
