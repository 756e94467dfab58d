import TransparentOffload.Lib.Framing
import TransparentOffload.SpoaAcks
import TransparentOffload.SpopFrames

set_option autoImplicit false

/- `spoa_agent` on the wire: `conn_thread` reads a header and a payload in the pieces in
which they arrive, and a frame is written in the pieces that the kernel takes, under the
lock of its connection. The connections stay open and no write fails; the frames a thread
has dealt with and those that are written whole are what the agent's own state counts. -/
namespace TransparentOffload

/-- Where `conn_thread` is in its loop: in the `readn` of the header or in that of the
payload, behind both, in `send_agent_hello` with the lock, or behind the loop. -/
inductive SpoaReader
  | header (hdr : Bytes)
  | payload (flen : Nat) (pl : Bytes)
  | whole (pl : Bytes)
  | greeting (pl : Bytes)
  | left (rest : Bytes)
  deriving DecidableEq, Repr

/-- The agent, its ends of the connections, the places of their threads, and how much of
the frame that is being written on a connection has been taken by the kernel. -/
structure SpoaWire where
  agent : Spoa
  socks : Nat → Socket
  readers : Nat → SpoaReader
  put : Nat → Nat

/-- What the agent does with a frame follows what the loops over the thread's buffer find
in it, whatever else is in that buffer. -/
theorem Spoa.readFrame_header {s t : Spoa} {c : Nat} {payload : Bytes}
    (taken : s.readFrame c payload = some t) (pl : Nat → UInt8) :
    ∃ k h, s.conns c = some k ∧ Spop.header (Spop.received pl payload) 9 = some h ∧
      { s with received := (c, payload) :: s.received }.dispatch c k h.type h.sid h.fid =
        some t := by
  unfold readFrame at taken
  split at taken
  · rename_i k type sid fid live parsed
    obtain ⟨h, run, rfl, rfl, rfl⟩ : ∃ h, Spop.header (Spop.received pl payload) 9 = some h ∧
        h.type = type ∧ h.sid = sid ∧ h.fid = fid := Spop.header_of_parse parsed
    split at taken
    · exact ⟨k, h, live, run, taken⟩
    · cases taken
  · cases taken

/-- The steps of HAProxy, of `main`, of the connections' threads and of the workers. -/
inductive SpoaWireAct
  | arrive (c : Nat) (bs : Bytes)
  | accept (fd : Fd)
  | read (c : Nat) (out : IoOut)
  | dispatch (c : Nat)
  | greet (c m : Nat)
  | take (w : Nat)
  | lock (w : Nat)
  | write (w m : Nat)
  | unlock (w : Nat)
  deriving DecidableEq, Repr

namespace SpoaWire

def start : SpoaWire := ⟨.start, fun _ => .fresh, fun _ => .header [], fun _ => 0⟩

def setSock (s : SpoaWire) (c : Nat) (k : Socket) : SpoaWire :=
  { s with socks := Function.update s.socks c k }

def setReader (s : SpoaWire) (c : Nat) (r : SpoaReader) : SpoaWire :=
  { s with readers := Function.update s.readers c r }

def setPut (s : SpoaWire) (c n : Nat) : SpoaWire := { s with put := Function.update s.put c n }

def helloPayload : Bytes := Spop.agentHelloPayload 16380

/-- `break`, with what was read of a frame. -/
def leave (s : SpoaWire) (c : Nat) (rest : Bytes) : Option SpoaWire :=
  (s.agent.leave c).map fun agent => { s with agent := agent }.setReader c (.left rest)

/-- `readn(c->fd,hdr,4)` goes on with an answer; behind it the length is looked at. -/
def afterHeader (s : SpoaWire) (c : Nat) (hdr : Bytes) : IoRet → Option SpoaWire
  | .data bs =>
    if bs = [] then s.leave c hdr
    else if (hdr ++ bs).length < 4 then some (s.setReader c (.header (hdr ++ bs)))
    else
      let flen := Spop.ntohl (hdr ++ bs)
      if flen = 0 ∨ Spoa.maxFrame < flen then s.leave c (hdr ++ bs)
      else some (s.setReader c (.payload flen []))
  | .err _ | .count _ => s.leave c hdr

/-- `readn(c->fd,pl,flen)` goes on with an answer. -/
def afterPayload (s : SpoaWire) (c flen : Nat) (pl : Bytes) : IoRet → Option SpoaWire
  | .data bs =>
    if bs = [] then s.leave c (Spop.htonl flen ++ pl)
    else if (pl ++ bs).length < flen then some (s.setReader c (.payload flen (pl ++ bs)))
    else some (s.setReader c (.whole (pl ++ bs)))
  | .err _ | .count _ => s.leave c (Spop.htonl flen ++ pl)

/-- A `read` of a connection's thread. -/
def read (s : SpoaWire) (c : Nat) (out : IoOut) : Option SpoaWire :=
  (s.agent.conns c).bind fun k =>
    if k.phase = .reading then
      match s.readers c with
      | .header hdr =>
        ((s.socks c).realRead (4 - hdr.length) false out).bind fun answer =>
          (s.setSock c answer.1).afterHeader c hdr answer.2
      | .payload flen pl =>
        ((s.socks c).realRead (flen - pl.length) false out).bind fun answer =>
          (s.setSock c answer.1).afterPayload c flen pl answer.2
      | _ => none
    else none

/-- The thread is through with a frame. -/
def readFrame (s : SpoaWire) (c : Nat) (pl : Bytes) : Option SpoaWire :=
  (s.agent.readFrame c pl).map fun agent =>
    { s with agent := agent }.setReader c (.header [])

/-- What `conn_thread` does with a frame; for a HELLO it takes the lock first. -/
def dispatch (s : SpoaWire) (c : Nat) : Option SpoaWire :=
  match s.agent.conns c, s.readers c with
  | some k, .whole pl =>
    match Spop.parse pl with
    | some (type, _) =>
      if type = Spop.ftHaproxyHello then
        if k.wlk = none ∧ k.phase = .reading then some (s.setReader c (.greeting pl)) else none
      else s.readFrame c pl
    | none => none
  | _, _ => none

/-- One `write` of `writen`, and what follows the last one. -/
def writeFrame (s : SpoaWire) (c m : Nat) (payload : Bytes)
    (done : SpoaWire → Option SpoaWire) : Option SpoaWire :=
  ((s.socks c).realWrite ((Spop.frame payload).drop (s.put c)) false (.part m)).bind fun answer =>
    if s.put c + m < (Spop.frame payload).length then
      some ((s.setSock c answer.1).setPut c (s.put c + m))
    else done ((s.setSock c answer.1).setPut c 0)

/-- `send_agent_hello`, up to and with its unlock. -/
def greet (s : SpoaWire) (c m : Nat) : Option SpoaWire :=
  match s.readers c with
  | .greeting pl => s.writeFrame c m helloPayload fun s => s.readFrame c pl
  | _ => none

/-- The lock of a connection whose thread is in `send_agent_hello` is not free. -/
def lock (s : SpoaWire) (w : Nat) : Option SpoaWire :=
  (s.agent.pool.held w).bind fun j =>
    match s.readers j.c with
    | .greeting _ => none
    | _ => (s.agent.lock w).map fun agent => { s with agent := agent }

/-- `send_ack` with the lock: the descriptor leads to some connection. -/
def write (s : SpoaWire) (w m : Nat) : Option SpoaWire :=
  (s.agent.pool.held w).bind fun j => (s.agent.conns j.c).bind fun k =>
    (s.agent.fds k.fd).bind fun c =>
      if k.wlk = some w then
        s.writeFrame c m (Spop.ackPayload j.sid j.fid) fun s =>
          (s.agent.write w).map fun agent => { s with agent := agent }
      else none

/-- One step of the agent with `nw` workers, or of the peer of a connection. -/
def step (nw : Nat) (s : SpoaWire) : SpoaWireAct → Option SpoaWire
  | .arrive c bs => some (s.setSock c ((s.socks c).arrive bs))
  | .accept fd => (s.agent.accept fd).map fun agent => { s with agent := agent }
  | .read c out => s.read c out
  | .dispatch c => s.dispatch c
  | .greet c m => s.greet c m
  | .take w =>
    if w < nw then (s.agent.take w).map fun agent => { s with agent := agent } else none
  | .lock w => s.lock w
  | .write w m => s.write w m
  | .unlock w => (s.agent.unlock w).map fun agent => { s with agent := agent }

end SpoaWire

end TransparentOffload
