import TransparentOffload.Kernel
import TransparentOffload.Lib.Clients
import TransparentOffload.Lib.Counters
import TransparentOffload.Lib.Run

set_option autoImplicit false

/- `client_thread` of the two servers' programs, and a whole program: client threads at
the other ends of a server's connections. A client is named by the number of its
connection. -/
namespace TransparentOffload.ClientThread

/-- What the clients of a program send and expect: `NCONN` threads, `PIPE` requests at a
time (none if it is negative), and the request and reply of a sequence number. -/
structure Load where
  req : Nat
  pipe : Nat
  nconn : Nat
  request : UInt32 → Bytes
  expected : UInt32 → Bytes

/-- Where a client is: at its loop test, in the writes of the request `seq+k`, in the
reads of its reply, or behind `out`. -/
inductive Place
  | top
  | sending (k put : Nat)
  | receiving (k : Nat) (rsp : Bytes)
  | out
  deriving DecidableEq, Repr

/-- A client; `taken` counts what it has read of what the server wrote. -/
structure Client where
  place : Place
  seq : UInt32
  taken : Nat
  deriving DecidableEq, Repr

/-- A server: its own steps, and its ends of the connections. -/
structure Host (σ α : Type) where
  init : σ
  step : σ → α → Option σ
  socks : σ → Nat → Socket
  setSock : σ → Nat → Socket → σ

structure Program (σ : Type) where
  server : σ
  clients : Nat → Client
  cliStop : Bool
  cliOk : Nat
  cliBad : Nat

def Program.init {σ α : Type} (host : Host σ α) : Program σ :=
  { server := host.init, clients := fun _ => ⟨.top, 0, 0⟩, cliStop := false, cliOk := 0
    cliBad := 0 }

/-- The client's end of a connection. The server may be gone when nothing is left. -/
def peer (k : Socket) (taken : Nat) : Socket :=
  { arrived := k.tx, rx := k.tx.drop taken, tx := k.arrived, hup := true, nonblock := false }

inductive ProgramAct (α : Type)
  | server (a : α)
  | client (i : Nat) (out : IoOut)
  | stop
  deriving DecidableEq, Repr

namespace Program

variable {σ α : Type}

def setClient (s : Program σ) (i : Nat) (c : Client) : Program σ :=
  { s with clients := Function.update s.clients i c }

/-- `close(fd)` behind `out`. -/
def leave (host : Host σ α) (s : Program σ) (i : Nat) (c : Client) : Program σ :=
  { s.setClient i { c with place := .out } with
    server := host.setSock s.server i (host.socks s.server i).hangup }

/-- The `write` loop goes on with an answer, and behind it the loop over requests. -/
def afterWrite (load : Load) (host : Host σ α) (s : Program σ) (i : Nat) (c : Client)
    (k put : Nat) : IoRet → Program σ
  | .count m =>
    if m = 0 then s.leave host i c
    else
      let sent := ((load.request (c.seq + UInt32.ofNat k)).drop put).take m
      { s.setClient i { c with
          place :=
            if put + m < load.req then .sending k (put + m)
            else if k + 1 < load.pipe then .sending (k + 1) 0
            else .receiving 0 [] } with
        server := host.setSock s.server i ((host.socks s.server i).arrive sent) }
  | .err _ | .data _ => s.leave host i c

/-- The `read` loop goes on with an answer, and behind it the comparison and the loop
over replies. -/
def afterRead (load : Load) (host : Host σ α) (s : Program σ) (i : Nat) (c : Client) (k : Nat)
    (rsp : Bytes) : IoRet → Program σ
  | .data bs =>
    if bs = [] then s.leave host i c
    else
      let taken := c.taken + bs.length
      if (rsp ++ bs).length < load.req then
        s.setClient i { c with taken := taken, place := .receiving k (rsp ++ bs) }
      else
        let next :=
          if k + 1 < load.pipe then { c with taken := taken, place := .receiving (k + 1) [] }
          else { c with taken := taken, place := .top, seq := c.seq + UInt32.ofNat load.pipe }
        if rsp ++ bs = load.expected (c.seq + UInt32.ofNat k) then
          { s.setClient i next with cliOk := s.cliOk + 1 }
        else { s.setClient i next with cliBad := s.cliBad + 1 }
  | .err _ | .count _ => s.leave host i c

/-- A client's next step; `out` is the kernel's choice at a system call. -/
def client (load : Load) (host : Host σ α) (s : Program σ) (i : Nat) (out : IoOut) :
    Option (Program σ) :=
  let c := s.clients i
  match c.place with
  | .top =>
    if s.cliStop then some (s.leave host i c)
    else if 0 < load.pipe then some (s.setClient i { c with place := .sending 0 0 })
    else some s
  | .sending k put =>
    ((peer (host.socks s.server i) c.taken).realWrite
      ((load.request (c.seq + UInt32.ofNat k)).drop put) false out).map fun answer =>
        s.afterWrite load host i c k put answer.2
  | .receiving k rsp =>
    ((peer (host.socks s.server i) c.taken).realRead (load.req - rsp.length) false out).map
      fun answer => s.afterRead load host i c k rsp answer.2
  | .out => none

end Program

/-- One step of the whole program. -/
def step {σ α : Type} (load : Load) (host : Host σ α) (s : Program σ) :
    ProgramAct α → Option (Program σ)
  | .server a => (host.step s.server a).map fun server => { s with server := server }
  | .client i out => if i < load.nconn then s.client load host i out else none
  | .stop => some { s with cliStop := true }

/-- Whatever a client makes of the bytes it reads, it has taken them. -/
theorem taken_afterRead {σ α : Type} (load : Load) (host : Host σ α) (s : Program σ) (i : Nat)
    (c : Client) (k : Nat) (rsp : Bytes) {bs : Bytes} (some_ : bs ≠ []) :
    ((s.afterRead load host i c k rsp (.data bs)).clients i).taken = c.taken + bs.length := by
  have own (c' : Client) : (Function.update s.clients i c' i).taken = c'.taken := by
    rw [Function.update_self]
  unfold Program.afterRead
  dsimp only
  rw [if_neg some_]
  split
  · exact own _
  · split <;> split <;> exact own _

/-- A client in its reads takes as much as it asks for of what the server wrote. -/
theorem step_receives {σ α : Type} {load : Load} {host : Host σ α} {s : Program σ}
    {i k m : Nat} {rsp : Bytes} (inside : i < load.nconn)
    (place : (s.clients i).place = .receiving k rsp) (positive : 0 < m)
    (wanted : rsp.length + m ≤ load.req)
    (there : (s.clients i).taken + m ≤ (host.socks s.server i).tx.length) :
    ∃ t, step load host s (.client i (.part m)) = some t ∧
      (t.clients i).taken = (s.clients i).taken + m := by
  have unread : m ≤ ((host.socks s.server i).tx.drop (s.clients i).taken).length := by
    rw [List.length_drop]
    omega
  have bytes : (((host.socks s.server i).tx.drop (s.clients i).taken).take m).length = m := by
    rw [List.length_take]
    omega
  have some_ : ((host.socks s.server i).tx.drop (s.clients i).taken).take m ≠ [] := by
    intro none_
    rw [none_] at bytes
    exact absurd bytes (Nat.ne_of_lt positive)
  have read : (peer (host.socks s.server i) (s.clients i).taken).realRead
      (load.req - rsp.length) false (.part m) =
        some ({ peer (host.socks s.server i) (s.clients i).taken with
          rx := ((host.socks s.server i).tx.drop (s.clients i).taken).drop m },
          .data (((host.socks s.server i).tx.drop (s.clients i).taken).take m)) :=
    if_pos ⟨by omega, unread, Or.inl positive⟩
  refine ⟨s.afterRead load host i (s.clients i) k rsp
    (.data (((host.socks s.server i).tx.drop (s.clients i).taken).take m)), ?_, ?_⟩
  · unfold step Program.client
    dsimp only
    rw [if_pos inside, place]
    dsimp only
    rw [read]
    rfl
  · rw [taken_afterRead load host s i _ k rsp some_, bytes]

/-- The request of a number. -/
def Load.asks (load : Load) (n : Nat) : Bytes := load.request (UInt32.ofNat n)

/-- A rule by which the replies are what the clients expect. -/
structure Load.Meets (load : Load) (rule : Dialogue.Rule UInt8) : Prop where
  width : rule.width = load.req
  even : rule.Even load.asks
  expected : ∀ n, rule.answer n (load.asks n) = load.expected (UInt32.ofNat n)

/-- A server that keeps an invariant by which each connection carries replies of the
rule in the order of the requests; its own steps only ever add to what it wrote. -/
structure Host.Replies {σ α : Type} (host : Host σ α) (rule : Dialogue.Rule UInt8)
    (Sound : σ → Prop) : Prop where
  init : Sound host.init
  fresh : ∀ i, host.socks host.init i = .fresh
  step : ∀ {s t a}, Sound s → host.step s a = some t → Sound t
  arrive : ∀ {s} i bs, Sound s → Sound (host.setSock s i ((host.socks s i).arrive bs))
  hangup : ∀ {s} i, Sound s → Sound (host.setSock s i (host.socks s i).hangup)
  tx_isPrefix : ∀ {s} i, Sound s → (host.socks s i).tx <+: rule.owed (host.socks s i).arrived
  adds : ∀ {s t a}, host.step s a = some t → ∀ i,
    (host.socks t i).arrived = (host.socks s i).arrived ∧
      (host.socks s i).tx <+: (host.socks t i).tx
  socks_setSock : ∀ s i k, host.socks (host.setSock s i k) = Function.update (host.socks s) i k

/-- A client that has been through `n` requests before its round, and its connection. -/
def Asks (load : Load) (k : Socket) (c : Client) : Prop :=
  ∃ n, c.seq = UInt32.ofNat n ∧
    match c.place with
    | .top => k.arrived = Dialogue.asked load.asks n ∧ Dialogue.Hears load.req k.tx c.taken n []
    | .sending j put => j < load.pipe ∧ put < load.req ∧
        k.arrived = Dialogue.asked load.asks (n + j) ++ (load.asks (n + j)).take put ∧
        Dialogue.Hears load.req k.tx c.taken n []
    | .receiving j rsp => j < load.pipe ∧ rsp.length < load.req ∧
        k.arrived = Dialogue.asked load.asks (n + load.pipe) ∧
        Dialogue.Hears load.req k.tx c.taken (n + j) rsp
    | .out => True

structure Inv {σ α : Type} (load : Load) (host : Host σ α) (Sound : σ → Prop) (s : Program σ) :
    Prop where
  sound : Sound s.server
  asks : ∀ i, Asks load (host.socks s.server i) (s.clients i)
  good : s.cliBad = 0
  counted : s.cliOk = ∑ i ∈ Finset.range load.nconn, (s.clients i).taken / load.req

section Invariant

open Dialogue (asked Hears)

variable {σ α : Type} {load : Load} {host : Host σ α} {rule : Dialogue.Rule UInt8}
  {Sound : σ → Prop} {s t : Program σ} {k k' : Socket} {c : Client} {i : Nat}

theorem number_add (n j : Nat) : UInt32.ofNat n + UInt32.ofNat j = UInt32.ofNat (n + j) :=
  (UInt32.ofNat_add n j).symm

/-- The server goes on at its end. -/
theorem Asks.extend (asks : Asks load k c) (arrived : k'.arrived = k.arrived)
    (tx : k.tx <+: k'.tx) : Asks load k' c := by
  obtain ⟨n, seq, at_⟩ := asks
  refine ⟨n, seq, ?_⟩
  cases place : c.place with
  | top =>
    rw [place] at at_
    exact ⟨arrived.trans at_.1, at_.2.extend tx⟩
  | sending j put =>
    rw [place] at at_
    exact ⟨at_.1, at_.2.1, arrived.trans at_.2.2.1, at_.2.2.2.extend tx⟩
  | receiving j rsp =>
    rw [place] at at_
    exact ⟨at_.1, at_.2.1, arrived.trans at_.2.2.1, at_.2.2.2.extend tx⟩
  | out => trivial

/-- Whole answers among the bytes that a client has taken. -/
theorem taken_div {tx part : Bytes} {w taken j : Nat} (hears : Hears w tx taken j part)
    (short : part.length < w) : taken / w = j := by
  rw [hears.position, Nat.mul_comm, Nat.mul_add_div (by omega), Nat.div_eq_of_lt short,
    Nat.add_zero]

/-- One client has moved, and nothing else but its connection. -/
theorem Inv.moved {c' : Client} (inv : Inv load host Sound s) (inside : i < load.nconn)
    (clients : t.clients = Function.update s.clients i c') (sound : Sound t.server)
    (others : ∀ j, j ≠ i → host.socks t.server j = host.socks s.server j)
    (asks : Asks load (host.socks t.server i) c') (good : t.cliBad = s.cliBad)
    (counted : t.cliOk + (s.clients i).taken / load.req = s.cliOk + c'.taken / load.req) :
    Inv load host Sound t := by
  refine ⟨sound, ?_, good.trans inv.good, ?_⟩
  · intro j
    rw [clients]
    by_cases mine : j = i
    · rw [mine, Function.update_self]
      exact asks
    · rw [Function.update_of_ne mine, others j mine]
      exact inv.asks j
  · have replies : (fun j => (Function.update s.clients i c' j).taken / load.req) =
        Function.update (fun j => (s.clients j).taken / load.req) i (c'.taken / load.req) := by
      funext j
      by_cases mine : j = i
      · rw [mine, Function.update_self, Function.update_self]
      · rw [Function.update_of_ne mine, Function.update_of_ne mine]
    have total : (Finset.range load.nconn).sum
        (Function.update (fun j => (s.clients j).taken / load.req) i (c'.taken / load.req)) +
          (s.clients i).taken / load.req =
        ∑ j ∈ Finset.range load.nconn, (s.clients j).taken / load.req + c'.taken / load.req :=
      Counters.sum_update inside _ _
    have before := inv.counted
    rw [clients, replies]
    omega

theorem others_setSock (replies : host.Replies rule Sound) (server : σ) (k : Socket) (j : Nat)
    (other : j ≠ i) : host.socks (host.setSock server i k) j = host.socks server j := by
  rw [replies.socks_setSock, Function.update_of_ne other]

theorem leave_inv (replies : host.Replies rule Sound) (inv : Inv load host Sound s)
    (inside : i < load.nconn) : Inv load host Sound (s.leave host i (s.clients i)) := by
  obtain ⟨n, seq, _⟩ := inv.asks i
  exact inv.moved inside rfl (replies.hangup i inv.sound)
    (others_setSock replies s.server _) ⟨n, seq, trivial⟩ rfl rfl

theorem afterWrite_inv {j put : Nat} {r : IoRet} (replies : host.Replies rule Sound)
    (meets : load.Meets rule) (inv : Inv load host Sound s) (inside : i < load.nconn)
    (place : (s.clients i).place = .sending j put)
    (fits : ∀ m, r = .count m → put + m ≤ load.req) :
    Inv load host Sound (s.afterWrite load host i (s.clients i) j put r) := by
  unfold Program.afterWrite
  split
  · rename_i m
    have fits := fits m rfl
    split
    · exact leave_inv replies inv inside
    · dsimp only
      obtain ⟨n, seq, at_⟩ := inv.asks i
      rw [place] at at_
      obtain ⟨turn, short, arrived, hears⟩ := at_
      have mine : host.socks (host.setSock s.server i ((host.socks s.server i).arrive
          (((load.request ((s.clients i).seq + UInt32.ofNat j)).drop put).take m))) i =
          (host.socks s.server i).arrive (((load.asks (n + j)).drop put).take m) := by
        rw [replies.socks_setSock, Function.update_self, seq, number_add]
        rfl
      have sent : (host.socks s.server i).arrived ++ ((load.asks (n + j)).drop put).take m =
          asked load.asks (n + j) ++ (load.asks (n + j)).take (put + m) := by
        rw [arrived, List.append_assoc, List.take_add]
      refine inv.moved inside rfl (replies.arrive i _ inv.sound)
        (others_setSock replies s.server _) ?_ rfl rfl
      change Asks load (host.socks (host.setSock s.server i _) i) _
      rw [mine]
      refine ⟨n, seq, ?_⟩
      dsimp only
      by_cases more : put + m < load.req
      · rw [if_pos more]
        exact ⟨turn, more, sent, hears⟩
      · have whole : (host.socks s.server i).arrived ++
            ((load.asks (n + j)).drop put).take m = asked load.asks (n + j + 1) := by
          rw [sent, Dialogue.asked_succ, List.take_of_length_le]
          rw [meets.even.asks, meets.width]
          omega
        rw [if_neg more]
        by_cases next : j + 1 < load.pipe
        · rw [if_pos next]
          refine ⟨next, Nat.zero_lt_of_lt short, ?_, hears⟩
          rw [List.take_zero, List.append_nil]
          exact whole
        · rw [if_neg next]
          have last : n + j + 1 = n + load.pipe := by omega
          exact ⟨Nat.zero_lt_of_lt turn, Nat.zero_lt_of_lt short, last ▸ whole, hears⟩
  · exact leave_inv replies inv inside
  · exact leave_inv replies inv inside

/-- A whole reply is what the client expects. -/
theorem reply_expected {n j : Nat} {reply : Bytes} (replies : host.Replies rule Sound)
    (meets : load.Meets rule) (sound : Sound s.server) {taken : Nat}
    (arrived : (host.socks s.server i).arrived = asked load.asks n)
    (hears : Hears load.req (host.socks s.server i).tx taken j reply)
    (whole : reply.length = load.req) : reply = load.expected (UInt32.ofNat j) := by
  have position := hears.position
  have behind := hears.behind
  have bytes := hears.bytes
  rw [whole, ← meets.width] at bytes
  have answer := Dialogue.answer_heard meets.even (n := n) (j := j)
    (by rw [arrived]) (replies.tx_isPrefix i sound) (by rw [meets.width]; omega)
  rw [← meets.expected, ← answer]
  exact bytes.symm

theorem afterRead_inv {j : Nat} {rsp : Bytes} {r : IoRet} (replies : host.Replies rule Sound)
    (meets : load.Meets rule) (inv : Inv load host Sound s) (inside : i < load.nconn)
    (place : (s.clients i).place = .receiving j rsp)
    (fits : ∀ bs, r = .data bs → bs.length ≤ load.req - rsp.length ∧
      ∃ rest, (host.socks s.server i).tx.drop (s.clients i).taken = bs ++ rest) :
    Inv load host Sound (s.afterRead load host i (s.clients i) j rsp r) := by
  unfold Program.afterRead
  split
  · rename_i bs
    obtain ⟨size, rest, unread⟩ := fits bs rfl
    split
    · exact leave_inv replies inv inside
    · dsimp only
      obtain ⟨n, seq, at_⟩ := inv.asks i
      rw [place] at at_
      obtain ⟨turn, short, arrived, hears⟩ := at_
      have later := hears.take unread
      have before := taken_div hears short
      split
      · rename_i more
        refine inv.moved inside rfl inv.sound (fun _ _ => rfl) ⟨n, seq, turn, more, arrived, later⟩
          rfl ?_
        rw [before, taken_div later more]
        rfl
      · rename_i full
        have whole : (rsp ++ bs).length = load.req := by
          rw [List.length_append] at full ⊢
          omega
        have next := later.next whole
        have after := taken_div next (Nat.zero_lt_of_lt short)
        have same := reply_expected replies meets inv.sound arrived later whole
        rw [seq, number_add, if_pos same]
        refine inv.moved inside rfl inv.sound (fun _ _ => rfl) ?_ rfl ?_
        · by_cases again : j + 1 < load.pipe
          · rw [if_pos again]
            exact ⟨n, rfl, again, Nat.zero_lt_of_lt short, arrived, next⟩
          · rw [if_neg again]
            have last : n + j + 1 = n + load.pipe := by omega
            refine ⟨n + load.pipe, ?_, arrived, last ▸ next⟩
            rw [number_add]
        · split
          · rw [before, after]
            exact Nat.add_right_comm ..
          · rw [before, after]
            exact Nat.add_right_comm ..
  · exact leave_inv replies inv inside
  · exact leave_inv replies inv inside

theorem client_inv {out : IoOut} (replies : host.Replies rule Sound) (meets : load.Meets rule)
    (inv : Inv load host Sound s) (inside : i < load.nconn)
    (taken : s.client load host i out = some t) : Inv load host Sound t := by
  unfold Program.client at taken
  dsimp only at taken
  split at taken
  · rename_i place
    obtain ⟨n, seq, at_⟩ := inv.asks i
    rw [place] at at_
    have positive := meets.width ▸ rule.positive
    split at taken
    · rw [Option.some.injEq] at taken
      exact taken ▸ leave_inv replies inv inside
    · split at taken
      · rename_i some_
        rw [Option.some.injEq] at taken
        subst taken
        refine inv.moved inside rfl inv.sound (fun _ _ => rfl) ?_ rfl rfl
        refine ⟨n, seq, some_, positive, ?_, at_.2⟩
        rw [List.take_zero, List.append_nil]
        exact at_.1
      · rw [Option.some.injEq] at taken
        exact taken ▸ inv
  · rename_i j put place
    obtain ⟨⟨k', r⟩, answer, rfl⟩ := Option.map_eq_some_iff.mp taken
    refine afterWrite_inv replies meets inv inside place ?_
    intro m counted
    dsimp only at counted
    subst counted
    rcases Socket.realWrite_answer answer with ⟨m', same, most, _⟩ | ⟨⟨e, failed⟩, _⟩
    · cases same
      obtain ⟨n, seq, at_⟩ := inv.asks i
      rw [place] at at_
      have size := meets.even.asks (n + j)
      rw [seq, number_add, List.length_drop] at most
      rw [Load.asks, meets.width] at size
      have short := at_.2.1
      omega
    · cases failed
  · rename_i j rsp place
    obtain ⟨⟨k', r⟩, answer, rfl⟩ := Option.map_eq_some_iff.mp taken
    refine afterRead_inv replies meets inv inside place ?_
    intro bs data
    dsimp only at data
    subst data
    rcases Socket.realRead_answer answer with ⟨bs', same, most, unread, _⟩ | ⟨⟨e, failed⟩, _⟩
    · cases same
      exact ⟨most, k'.rx, unread⟩
    · cases failed
  · cases taken

theorem step_inv {a : ProgramAct α} (replies : host.Replies rule Sound) (meets : load.Meets rule)
    (inv : Inv load host Sound s) (taken : step load host s a = some t) :
    Inv load host Sound t := by
  cases a with
  | server a =>
    obtain ⟨server, moved, rfl⟩ := Option.map_eq_some_iff.mp taken
    refine ⟨replies.step inv.sound moved, ?_, inv.good, inv.counted⟩
    intro i
    have added := replies.adds moved i
    exact (inv.asks i).extend added.1 added.2
  | client i out =>
    rw [step] at taken
    split at taken
    · rename_i inside
      exact client_inv replies meets inv inside taken
    · cases taken
  | stop =>
    rw [step, Option.some.injEq] at taken
    subst taken
    exact ⟨inv.sound, inv.asks, inv.good, inv.counted⟩

theorem init_inv (replies : host.Replies rule Sound) : Inv load host Sound (.init host) := by
  refine ⟨replies.init, ?_, rfl, ?_⟩
  · intro i
    change Asks load (host.socks host.init i) ⟨.top, 0, 0⟩
    rw [replies.fresh]
    exact ⟨0, rfl, rfl, Hears.start _ _⟩
  · simp [Program.init]

/-- In every run of a whole program whose server replies in order, no client counts a
bad reply, and the good ones are all that were read. -/
theorem reached_inv {acts : List (ProgramAct α)} (replies : host.Replies rule Sound)
    (meets : load.Meets rule)
    (reached : Machine.run (step load host) (.init host) acts = some s) :
    Inv load host Sound s :=
  Machine.invariant_reached (fun _ _ _ inv taken => step_inv replies meets inv taken)
    (init_inv replies) reached

end Invariant

end TransparentOffload.ClientThread
