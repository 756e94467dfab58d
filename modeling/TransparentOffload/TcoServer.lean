import TransparentOffload.Kernel
import TransparentOffload.Lib.Dialogue
import TransparentOffload.Lib.Run

set_option autoImplicit false

/- `tco_server`: the coroutine server, one thread with a fiber for each connection, and
the blocking server with a thread for each. A connection is named by its number in the
order of acceptance, and its socket by that number. -/
namespace TransparentOffload.Tco

/-- `REQ`. -/
def req : Nat := 256

/-- `MAXCONN`. -/
def maxConn : Nat := 4096

/-- The loop of `transform` and of `seqmask`, which differ in their shift. -/
def keystream (shift : UInt32) : UInt32 → Bytes → Bytes
  | _, [] => []
  | k, b :: rest =>
    let k := k * 1664525 + 1013904223
    (b ^^^ (k >>> shift).toUInt8) :: keystream shift k rest

def transform (b : Bytes) : Bytes := keystream 17 0x9e3779b9 b

def seqmask (b : Bytes) (s : UInt32) : Bytes := keystream 13 s b

/-- `struct slot`; its deadline only says when the device comes to it. -/
structure Slot where
  active : Bool
  done : Bool
  deriving DecidableEq, Repr

/-- Where a handler is: in its reads with what it has of a request, at the offload of a
request, in its writes, or behind its loop. -/
inductive Place
  | reading (buf : Bytes)
  | offload (buf : Bytes)
  | writing (buf : Bytes) (put : Nat)
  | ended
  deriving DecidableEq, Repr

/-- What both handlers do with a transformed request. -/
def masked (stateful : Bool) (buf : Bytes) (seq : UInt32) : Bytes × UInt32 :=
  if stateful then (seqmask (transform buf) seq, seq + 1) else (transform buf, seq)

/-- The replies of the protocol: request `k` is masked with its number. -/
def rule (stateful : Bool) : Dialogue.Rule UInt8 :=
  { width := req, positive := by decide
    answer := fun k request =>
      if stateful then seqmask (transform request) (UInt32.ofNat k) else transform request }

/-- The replies to all requests that have arrived whole. -/
def replies (stateful : Bool) (arrived : Bytes) : Bytes := (rule stateful).owed arrived

namespace Coro

inductive CState
  | runnable
  | waitIo
  | waitOff
  | dead
  deriving DecidableEq, Repr

/-- `struct conn`, with the place of its fiber. -/
structure Conn where
  fd : Fd
  idx : Nat
  state : CState
  ioEv : Events
  seq : UInt32
  place : Place
  deriving DecidableEq, Repr

/-- Where `run_coro` is: in the loop over offloads, at the events of an `epoll_wait` of
which so many may still come, in the loop over fibers, in a fiber, or behind its switch. -/
inductive Pc
  | offloads (i : Nat)
  | poll (left : Nat)
  | run (i : Nat)
  | fiber (i : Nat)
  | back (i : Nat)
  deriving DecidableEq, Repr

structure Server where
  conns : Nat → Option Conn
  nconns : Nat
  epoll : Epoll
  slots : Nat → Slot
  socks : Nat → Socket
  gDone : Nat
  pc : Pc

def Server.init : Server :=
  { conns := fun _ => none, nconns := 0, epoll := .empty, slots := fun _ => ⟨false, false⟩
    socks := fun _ => .fresh, gDone := 0, pc := .offloads 0 }

namespace Server

def setConn (s : Server) (i : Nat) (c : Conn) : Server :=
  { s with conns := Function.update s.conns i (some c) }

def setSock (s : Server) (i : Nat) (k : Socket) : Server :=
  { s with socks := Function.update s.socks i k }

def goto (s : Server) (pc : Pc) : Server := { s with pc := pc }

/-- `accept` and `conn_new`, or `close` when the table is full; the kernel gives a
descriptor that is not open. -/
def accept (s : Server) (fd : Fd) : Option Server :=
  match s.pc, s.epoll fd with
  | .poll _, none =>
    if s.nconns < maxConn then
      some { s with
        conns := Function.update s.conns s.nconns
          (some ⟨fd, s.nconns, .runnable, .empty, 0, .reading []⟩)
        nconns := s.nconns + 1
        epoll := (s.epoll.ctlAdd fd ⟨.inp, s.nconns, true⟩).getD s.epoll
        socks := Function.update s.socks s.nconns (s.socks s.nconns).setnb }
    else some s
  | _, _ => none

/-- An event is reported for an armed registration, whoever waits for it or not. -/
def event (s : Server) (fd : Fd) : Option Server :=
  match s.pc, s.epoll.pending fd with
  | .poll (left + 1), some i =>
    let s := { s with epoll := s.epoll.disarm fd, pc := .poll left }
    match s.conns i with
    | some c => if c.state = .waitIo then some (s.setConn i { c with state := .runnable }) else some s
    | none => some s
  | _, _ => none

/-- `co_yield_io`. -/
def coYieldIo (s : Server) (i : Nat) (c : Conn) (ev : Events) : Server :=
  { s with
    epoll := (s.epoll.ctlMod c.fd ⟨ev, i, true⟩).getD s.epoll
    conns := Function.update s.conns i (some { c with ioEv := ev, state := .waitIo })
    pc := .back i }

/-- `co_offload` up to its switch. -/
def coOffload (s : Server) (i : Nat) (c : Conn) (buf : Bytes) : Server :=
  { s with
    slots := Function.update s.slots c.idx ⟨true, false⟩
    conns := Function.update s.conns i (some { c with state := .waitOff, place := .offload buf })
    pc := .back i }

/-- `serve` leaves its loop. -/
def die (s : Server) (i : Nat) (c : Conn) : Server :=
  { s with
    conns := Function.update s.conns i (some { c with state := .dead, place := .ended })
    pc := .back i }

/-- `co_read_n` goes on with the answer of its `read`, and `serve` with its result. -/
def afterRead (s : Server) (i : Nat) (c : Conn) (buf : Bytes) : IoRet → Server
  | .data bs =>
    if bs = [] then s.die i c
    else if (buf ++ bs).length < req then s.setConn i { c with place := .reading (buf ++ bs) }
    else s.coOffload i c (buf ++ bs)
  | .err e => if e = eagain then s.coYieldIo i c .inp else s.die i c
  | .count _ => s.die i c

/-- `co_write_n` goes on with the answer of its `write`, and `serve` with its result. -/
def afterWrite (s : Server) (i : Nat) (c : Conn) (buf : Bytes) (put : Nat) : IoRet → Server
  | .count n =>
    if put + n < req then s.setConn i { c with place := .writing buf (put + n) }
    else { s.setConn i { c with place := .reading [] } with gDone := s.gDone + 1 }
  | .err e => if e = eagain then s.coYieldIo i c .out else s.die i c
  | .data _ => s.die i c

/-- The next step of a fiber that is switched in. -/
def fiber (stateful : Bool) (s : Server) (i : Nat) (c : Conn) (out : IoOut) : Option Server :=
  match c.place with
  | .reading buf =>
    ((s.socks i).realRead (req - buf.length) false out).map fun answer =>
      (s.setSock i answer.1).afterRead i c buf answer.2
  | .offload buf =>
    let reply := masked stateful buf c.seq
    some (s.setConn i { c with seq := reply.2, place := .writing reply.1 0 })
  | .writing buf put =>
    ((s.socks i).realWrite (buf.drop put) false out).map fun answer =>
      (s.setSock i answer.1).afterWrite i c buf put answer.2
  | .ended => none

/-- One step of the loop over offloads. -/
def offloads (s : Server) (i : Nat) : Server :=
  if i < s.nconns then
    match s.conns i with
    | some c =>
      if c.state = .waitOff ∧ (s.slots c.idx).done then
        { s with
          conns := Function.update s.conns i (some { c with state := .runnable })
          slots := Function.update s.slots c.idx { s.slots c.idx with active := false }
          pc := .offloads (i + 1) }
      else s.goto (.offloads (i + 1))
    | none => s.goto (.offloads (i + 1))
  else s.goto (.poll 256)

/-- One step of the loop over fibers. -/
def run (s : Server) (i : Nat) : Server :=
  if i < s.nconns then
    match s.conns i with
    | some c => if c.state = .runnable then s.goto (.fiber i) else s.goto (.run (i + 1))
    | none => s.goto (.run (i + 1))
  else s.goto (.offloads 0)

/-- Behind the switch: `EPOLL_CTL_DEL`, `close` and `free` of a dead connection. -/
def back (s : Server) (i : Nat) : Server :=
  match s.conns i with
  | some c =>
    if c.state = .dead then
      { s with
        epoll := s.epoll.ctlDel c.fd
        conns := Function.update s.conns i none
        pc := .run (i + 1) }
    else s.goto (.run (i + 1))
  | none => s.goto (.run (i + 1))

/-- The server's thread goes on; `out` is the kernel's choice at a system call. -/
def turn (stateful : Bool) (s : Server) (out : IoOut) : Option Server :=
  match s.pc with
  | .offloads i => some (s.offloads i)
  | .poll _ => some (s.goto (.run 0))
  | .run i => some (s.run i)
  | .fiber i => (s.conns i).bind fun c => s.fiber stateful i c out
  | .back i => some (s.back i)

end Server

end Coro

/-- What happens to either server: a peer sends or hangs up, the device comes to a slot,
a connection is accepted, an event is reported, and the server's threads go on. -/
inductive TcoAct
  | arrive (i : Nat) (bs : Bytes)
  | hangup (i : Nat)
  | device (slot : Nat)
  | accept (fd : Fd)
  | event (fd : Fd)
  | turn (i : Nat) (out : IoOut)
  deriving DecidableEq, Repr

/-- The coroutine server. The device's checks and its store are not one step, so it may
be late and find the slot in use again. -/
def Coro.step (stateful : Bool) (s : Coro.Server) : TcoAct → Option Coro.Server
  | .arrive i bs => some (s.setSock i ((s.socks i).arrive bs))
  | .hangup i => some (s.setSock i (s.socks i).hangup)
  | .device slot =>
    some { s with slots := Function.update s.slots slot { s.slots slot with done := true } }
  | .accept fd => s.accept fd
  | .event fd => s.event fd
  | .turn _ out => s.turn stateful out

namespace Block

/-- A thread of `block_conn`. -/
structure Thread where
  fd : Fd
  seq : UInt32
  place : Place
  deriving DecidableEq, Repr

structure Server where
  threads : Nat → Option Thread
  accepted : Nat
  slots : Nat → Slot
  socks : Nat → Socket
  gDone : Nat

def Server.init : Server :=
  { threads := fun _ => none, accepted := 0, slots := fun _ => ⟨false, false⟩
    socks := fun _ => .fresh, gDone := 0 }

namespace Server

/-- The slot of a thread. -/
def efdSlot (t : Thread) : Nat := t.fd % maxConn

def setThread (s : Server) (i : Nat) (t : Thread) : Server :=
  { s with threads := Function.update s.threads i (some t) }

def setSock (s : Server) (i : Nat) (k : Socket) : Server :=
  { s with socks := Function.update s.socks i k }

/-- One round of `run_block`. -/
def accept (s : Server) (fd : Fd) : Server :=
  { s.setThread s.accepted ⟨fd, 0, .reading []⟩ with accepted := s.accepted + 1 }

/-- The loop over `read`, and behind it the submission. -/
def afterRead (s : Server) (i : Nat) (t : Thread) (buf : Bytes) : IoRet → Server
  | .data bs =>
    if bs = [] then s.setThread i { t with place := .ended }
    else if (buf ++ bs).length < req then s.setThread i { t with place := .reading (buf ++ bs) }
    else
      { s.setThread i { t with place := .offload (buf ++ bs) } with
        slots := Function.update s.slots (efdSlot t) ⟨true, false⟩ }
  | .err _ | .count _ => s.setThread i { t with place := .ended }

/-- The loop over `write`. -/
def afterWrite (s : Server) (i : Nat) (t : Thread) (buf : Bytes) (put : Nat) : IoRet → Server
  | .count n =>
    if n = 0 then s.setThread i { t with place := .ended }
    else if put + n < req then s.setThread i { t with place := .writing buf (put + n) }
    else { s.setThread i { t with place := .reading [] } with gDone := s.gDone + 1 }
  | .err _ | .data _ => s.setThread i { t with place := .ended }

/-- The next step of a thread; one whose offload is not done sleeps and looks again. -/
def thread (stateful : Bool) (s : Server) (i : Nat) (t : Thread) (out : IoOut) : Option Server :=
  match t.place with
  | .reading buf =>
    ((s.socks i).realRead (req - buf.length) false out).map fun answer =>
      (s.setSock i answer.1).afterRead i t buf answer.2
  | .offload buf =>
    if (s.slots (efdSlot t)).done then
      let reply := masked stateful buf t.seq
      some { s.setThread i { t with seq := reply.2, place := .writing reply.1 0 } with
        slots := Function.update s.slots (efdSlot t)
          { s.slots (efdSlot t) with active := false } }
    else some s
  | .writing buf put =>
    ((s.socks i).realWrite (buf.drop put) false out).map fun answer =>
      (s.setSock i answer.1).afterWrite i t buf put answer.2
  | .ended => none

end Server

end Block

/-- The blocking server, where no events are asked for. -/
def Block.step (stateful : Bool) (s : Block.Server) : TcoAct → Option Block.Server
  | .arrive i bs => some (s.setSock i ((s.socks i).arrive bs))
  | .hangup i => some (s.setSock i (s.socks i).hangup)
  | .device slot =>
    some { s with slots := Function.update s.slots slot { s.slots slot with done := true } }
  | .accept fd => some (s.accept fd)
  | .event _ => none
  | .turn i out => (s.threads i).bind fun t => s.thread stateful i t out

end TransparentOffload.Tco
