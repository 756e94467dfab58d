import TransparentOffload.GpuStreams
import TransparentOffload.TcoClients
import TransparentOffload.Lib.Parties

set_option autoImplicit false

/- `tco_server_gpu`: the two servers again, with an offload that the GPU carries out on
a stream of the connection, in the buffer that the sockets use as well. -/
namespace TransparentOffload.TcoGpu

open GpuStream (Bufs Issued cipher recorded)
open LibAccelGpu (Op opsOfSubmit)
open Streams (Queue)
open Tco (TcoAct maxConn wire)
open Tco.Coro (CState)

/-- `REQ`. -/
def req : Nat := 4096

/-- What `cudaMallocHost` and `cudaMalloc` hand out for a connection. -/
structure Room where
  bufs : Bufs
  size : bufs.h.length = req

/-- Where a handler is: in its reads with so many bytes, in the calls of an offload, behind
them, in its writes, or behind its loop. -/
inductive Place
  | reading (got : Nat)
  | issue (rest : List Op)
  | offload
  | writing (put : Nat)
  | ended
  deriving DecidableEq, Repr

/-- `buf` after a `read` to `buf+got`. -/
def stored (h : Bytes) (got : Nat) (bs : Bytes) : Bytes :=
  h.take got ++ bs ++ h.drop (got + bs.length)

def store (stream : Queue Bufs Op) (got : Nat) (bs : Bytes) : Queue Bufs Op :=
  { stream with mem := { stream.mem with h := stored stream.mem.h got bs } }

namespace Coro

/-- `struct conn`, with the place of its fiber. -/
structure Conn where
  fd : Fd
  idx : Nat
  state : CState
  ioEv : Events
  place : Place
  stream : Queue Bufs Op
  deriving DecidableEq, Repr

structure Server where
  rooms : Nat → Room
  conns : Nat → Option Conn
  nconns : Nat
  epoll : Epoll
  socks : Nat → Socket
  gDone : Nat
  pc : Tco.Coro.Pc

def Server.init (rooms : Nat → Room) : Server :=
  { rooms := rooms, conns := fun _ => none, nconns := 0, epoll := .empty, socks := fun _ => .fresh
    gDone := 0, pc := .offloads 0 }

namespace Server

def setConn (s : Server) (i : Nat) (c : Conn) : Server :=
  { s with conns := Function.update s.conns i (some c) }

def setSock (s : Server) (i : Nat) (k : Socket) : Server :=
  { s with socks := Function.update s.socks i k }

def goto (s : Server) (pc : Tco.Coro.Pc) : Server := { s with pc := pc }

/-- `accept` and `conn_new`, or `close` when the table is full; the kernel gives a
descriptor that is not open. -/
def accept (s : Server) (fd : Fd) : Option Server :=
  match s.pc, s.epoll fd with
  | .poll _, none =>
    if s.nconns < maxConn then
      some { s with
        conns := Function.update s.conns s.nconns
          (some ⟨fd, s.nconns, .runnable, .empty, .reading 0, ⟨[], (s.rooms s.nconns).bufs⟩⟩)
        nconns := s.nconns + 1
        epoll := (s.epoll.ctlAdd fd ⟨.inp, s.nconns, true⟩).getD s.epoll
        socks := Function.update s.socks s.nconns (s.socks s.nconns).setnb }
    else some s
  | _, _ => none

/-- An event is reported for an armed registration, whoever waits for it or not. -/
def event (s : Server) (fd : Fd) : Option Server :=
  match s.pc, s.epoll.pending fd with
  | .poll (left + 1), some i =>
    let s := { s with epoll := s.epoll.disarm fd, pc := .poll left }
    match s.conns i with
    | some c =>
      if c.state = .waitIo then some (s.setConn i { c with state := .runnable }) else some s
    | none => some s
  | _, _ => none

/-- `co_yield_io`. -/
def coYieldIo (s : Server) (i : Nat) (c : Conn) (ev : Events) : Server :=
  { s with
    epoll := (s.epoll.ctlMod c.fd ⟨ev, i, true⟩).getD s.epoll
    conns := Function.update s.conns i (some { c with ioEv := ev, state := .waitIo })
    pc := .back i }

/-- `serve` leaves its loop. -/
def die (s : Server) (i : Nat) (c : Conn) : Server :=
  { s with
    conns := Function.update s.conns i (some { c with state := .dead, place := .ended })
    pc := .back i }

/-- `co_read_n` goes on with the answer of its `read`, and `serve` with its result. -/
def afterRead (s : Server) (i : Nat) (c : Conn) (got : Nat) : IoRet → Server
  | .data bs =>
    if bs = [] then s.die i c
    else
      let c := { c with stream := store c.stream got bs }
      if got + bs.length < req then s.setConn i { c with place := .reading (got + bs.length) }
      else s.setConn i { c with place := .issue opsOfSubmit }
  | .err e => if e = eagain then s.coYieldIo i c .inp else s.die i c
  | .count _ => s.die i c

/-- `co_write_n` goes on with the answer of its `write`, and `serve` with its result. -/
def afterWrite (s : Server) (i : Nat) (c : Conn) (put : Nat) : IoRet → Server
  | .count n =>
    if put + n < req then s.setConn i { c with place := .writing (put + n) }
    else { s.setConn i { c with place := .reading 0 } with gDone := s.gDone + 1 }
  | .err e => if e = eagain then s.coYieldIo i c .out else s.die i c
  | .data _ => s.die i c

/-- The next step of a fiber that is switched in. -/
def fiber (s : Server) (i : Nat) (c : Conn) (out : IoOut) : Option Server :=
  match c.place with
  | .reading got =>
    ((s.socks i).realRead (req - got) false out).map fun answer =>
      (s.setSock i answer.1).afterRead i c got answer.2
  | .issue (op :: rest) =>
    some (s.setConn i { c with stream := c.stream.issue op, place := .issue rest })
  | .issue [] => some ((s.setConn i { c with state := .waitOff, place := .offload }).goto (.back i))
  | .offload => some (s.setConn i { c with place := .writing 0 })
  | .writing put =>
    ((s.socks i).realWrite (c.stream.mem.h.drop put) false out).map fun answer =>
      (s.setSock i answer.1).afterWrite i c put answer.2
  | .ended => none

/-- One step of the loop over offloads, which polls the event of a connection. -/
def offloads (s : Server) (i : Nat) : Server :=
  if i < s.nconns then
    match s.conns i with
    | some c =>
      if c.state = .waitOff ∧ recorded c.stream then
        (s.setConn i { c with state := .runnable }).goto (.offloads (i + 1))
      else s.goto (.offloads (i + 1))
    | none => s.goto (.offloads (i + 1))
  else s.goto (.poll 256)

/-- One step of the loop over fibers. -/
def run (s : Server) (i : Nat) : Server :=
  if i < s.nconns then
    match s.conns i with
    | some c => if c.state = .runnable then s.goto (.fiber i) else s.goto (.run (i + 1))
    | none => s.goto (.run (i + 1))
  else s.goto (.offloads 0)

/-- Behind the switch: `EPOLL_CTL_DEL`, `close` and `free` of a dead connection. -/
def back (s : Server) (i : Nat) : Server :=
  match s.conns i with
  | some c =>
    if c.state = .dead then
      { s with
        epoll := s.epoll.ctlDel c.fd
        conns := Function.update s.conns i none
        pc := .run (i + 1) }
    else s.goto (.run (i + 1))
  | none => s.goto (.run (i + 1))

/-- The server's thread goes on; `out` is the kernel's choice at a system call. -/
def turn (s : Server) (out : IoOut) : Option Server :=
  match s.pc with
  | .offloads i => some (s.offloads i)
  | .poll _ => some (s.goto (.run 0))
  | .run i => some (s.run i)
  | .fiber i => (s.conns i).bind fun c => s.fiber i c out
  | .back i => some (s.back i)

/-- The stream of a connection carries out its next operation. -/
def device (s : Server) (i : Nat) : Option Server :=
  (s.conns i).bind fun c => (c.stream.execute (GpuStream.apply req)).map fun stream =>
    s.setConn i { c with stream := stream }

end Server

/-- The coroutine server by itself. -/
def step (s : Server) : TcoAct → Option Server
  | .device i => s.device i
  | .accept fd => s.accept fd
  | .event fd => s.event fd
  | .turn _ out => s.turn out
  | .arrive .. | .hangup _ => none

end Coro

namespace Block

/-- A thread of `block_conn`. -/
structure Thread where
  fd : Fd
  place : Place
  stream : Queue Bufs Op
  deriving DecidableEq, Repr

structure Server where
  rooms : Nat → Room
  threads : Nat → Option Thread
  accepted : Nat
  socks : Nat → Socket
  gDone : Nat

def Server.init (rooms : Nat → Room) : Server :=
  { rooms := rooms, threads := fun _ => none, accepted := 0, socks := fun _ => .fresh, gDone := 0 }

/-- What `block_conn` puts on its stream, which it then waits for as a whole. -/
def offloadOps : List Op := [.copyToDevice, .aesCtr, .copyToHost]

namespace Server

def setThread (s : Server) (i : Nat) (t : Thread) : Server :=
  { s with threads := Function.update s.threads i (some t) }

def setSock (s : Server) (i : Nat) (k : Socket) : Server :=
  { s with socks := Function.update s.socks i k }

/-- One round of `run_block`. -/
def accept (s : Server) (fd : Fd) : Server :=
  { s.setThread s.accepted ⟨fd, .reading 0, ⟨[], (s.rooms s.accepted).bufs⟩⟩ with
    accepted := s.accepted + 1 }

/-- The loop over `read`. -/
def afterRead (s : Server) (i : Nat) (t : Thread) (got : Nat) : IoRet → Server
  | .data bs =>
    if bs = [] then s.setThread i { t with place := .ended }
    else
      let t := { t with stream := store t.stream got bs }
      if got + bs.length < req then s.setThread i { t with place := .reading (got + bs.length) }
      else s.setThread i { t with place := .issue offloadOps }
  | .err _ | .count _ => s.setThread i { t with place := .ended }

/-- The loop over `write`. -/
def afterWrite (s : Server) (i : Nat) (t : Thread) (put : Nat) : IoRet → Server
  | .count n =>
    if n = 0 then s.setThread i { t with place := .ended }
    else if put + n < req then s.setThread i { t with place := .writing (put + n) }
    else { s.setThread i { t with place := .reading 0 } with gDone := s.gDone + 1 }
  | .err _ | .data _ => s.setThread i { t with place := .ended }

/-- The next step of a thread; `cudaStreamSynchronize` returns when nothing is left. -/
def thread (s : Server) (i : Nat) (t : Thread) (out : IoOut) : Option Server :=
  match t.place with
  | .reading got =>
    ((s.socks i).realRead (req - got) false out).map fun answer =>
      (s.setSock i answer.1).afterRead i t got answer.2
  | .issue (op :: rest) =>
    some (s.setThread i { t with stream := t.stream.issue op, place := .issue rest })
  | .issue [] => some (s.setThread i { t with place := .offload })
  | .offload =>
    if t.stream.pending = [] then some (s.setThread i { t with place := .writing 0 }) else none
  | .writing put =>
    ((s.socks i).realWrite (t.stream.mem.h.drop put) false out).map fun answer =>
      (s.setSock i answer.1).afterWrite i t put answer.2
  | .ended => none

/-- The stream of a thread carries out its next operation. -/
def device (s : Server) (i : Nat) : Option Server :=
  (s.threads i).bind fun t => (t.stream.execute (GpuStream.apply req)).map fun stream =>
    s.setThread i { t with stream := stream }

end Server

/-- The blocking server by itself, where no events are asked for. -/
def step (s : Server) : TcoAct → Option Server
  | .device i => s.device i
  | .accept fd => some (s.accept fd)
  | .turn i out => (s.threads i).bind fun t => s.thread i t out
  | .event _ | .arrive .. | .hangup _ => none

end Block

end TransparentOffload.TcoGpu
