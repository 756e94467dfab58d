import TransparentOffload.ClientThreads
import TransparentOffload.TcoAnswers

set_option autoImplicit false

/- The whole of `tco_server`: its clients against either of its servers. -/
namespace TransparentOffload.Tco

open ClientThread (Load Host Program ProgramAct)

/-- `base`. -/
def base : Bytes := (List.range req).map fun i => UInt8.ofNat (i * 131 + 7)

/-- A request carries its number in its first byte. -/
def request (number : UInt32) : Bytes := base.set 0 number.toUInt8

/-- `exp`. -/
def expected (stateful : Bool) (number : UInt32) : Bytes :=
  if stateful then seqmask (transform (request number)) number else transform (request number)

def load (stateful : Bool) (pipe nconn : Nat) : Load :=
  ⟨req, pipe, nconn, request, expected stateful⟩

/-- What a server does by itself; the rest of its actions are its clients'. -/
def TcoAct.own : TcoAct → Bool
  | .arrive .. | .hangup _ => false
  | .device _ | .accept _ | .event _ | .turn .. => true

def coroHost (stateful : Bool) : Host Coro.Server TcoAct :=
  { init := .init, step := fun s a => if a.own then Coro.step stateful s a else none
    socks := Coro.Server.socks, setSock := Coro.Server.setSock }

def blockHost (stateful : Bool) : Host Block.Server TcoAct :=
  { init := .init, step := fun s a => if a.own then Block.step stateful s a else none
    socks := Block.Server.socks, setSock := Block.Server.setSock }

theorem load_meets (stateful : Bool) (pipe nconn : Nat) :
    (load stateful pipe nconn).Meets (rule stateful) where
  width := rfl
  even := by
    refine ⟨?_, ?_⟩
    · intro k
      change (base.set 0 _).length = req
      rw [List.length_set, base, List.length_map, List.length_range]
    · intro k block size
      rw [length_answer, size]
  expected := fun n => by cases stateful <;> rfl

/-- One end of a connection has only gone on. -/
def Adds (k k' : Socket) : Prop := k'.arrived = k.arrived ∧ k.tx <+: k'.tx

theorem Adds.refl (k : Socket) : Adds k k := ⟨rfl, List.prefix_rfl⟩

theorem adds_update {socks : Nat → Socket} {k : Socket} {i : Nat} (adds : Adds (socks i) k)
    (j : Nat) : Adds (socks j) (Function.update socks i k j) := by
  by_cases mine : j = i
  · rw [mine, Function.update_self]
    exact adds
  · rw [Function.update_of_ne mine]
    exact .refl _

theorem adds_realRead {k k' : Socket} {n : Nat} {dontwait : Bool} {out : IoOut} {r : IoRet}
    (answer : k.realRead n dontwait out = some (k', r)) : Adds k k' := by
  rcases Socket.realRead_answer answer with ⟨_, _, _, _, arrived, tx⟩ | ⟨_, rfl⟩
  · exact ⟨arrived, by rw [tx]⟩
  · exact .refl _

theorem adds_realWrite {k k' : Socket} {bs : Bytes} {dontwait : Bool} {out : IoOut} {r : IoRet}
    (answer : k.realWrite bs dontwait out = some (k', r)) : Adds k k' := by
  rcases Socket.realWrite_answer answer with ⟨_, _, _, tx, arrived, _⟩ | ⟨_, rfl⟩
  · exact ⟨arrived, tx ▸ List.prefix_append _ _⟩
  · exact .refl _

namespace Coro

variable {stateful : Bool} {s t : Server} {i : Nat} {out : IoOut}

theorem socks_afterRead (s : Server) (i : Nat) (c : Conn) (buf : Bytes) (r : IoRet) :
    (s.afterRead i c buf r).socks = s.socks := by
  unfold Server.afterRead
  split
  · split
    · rfl
    · split <;> rfl
  · split <;> rfl
  · rfl

theorem socks_afterWrite (s : Server) (i : Nat) (c : Conn) (buf : Bytes) (put : Nat) (r : IoRet) :
    (s.afterWrite i c buf put r).socks = s.socks := by
  unfold Server.afterWrite
  split <;> first | rfl | (split <;> rfl)

theorem fiber_adds {c : Conn} (taken : s.fiber stateful i c out = some t) (j : Nat) :
    Adds (s.socks j) (t.socks j) := by
  unfold Server.fiber at taken
  split at taken
  · obtain ⟨⟨k, r⟩, answer, rfl⟩ := Option.map_eq_some_iff.mp taken
    rw [socks_afterRead]
    exact adds_update (adds_realRead answer) j
  · rw [Option.some.injEq] at taken
    subst taken
    exact .refl _
  · obtain ⟨⟨k, r⟩, answer, rfl⟩ := Option.map_eq_some_iff.mp taken
    rw [socks_afterWrite]
    exact adds_update (adds_realWrite answer) j
  · cases taken

/-- The loops of the dispatcher do not touch the sockets. -/
theorem turn_adds (taken : s.turn stateful out = some t) (j : Nat) :
    Adds (s.socks j) (t.socks j) := by
  unfold Server.turn at taken
  split at taken
  · rw [Option.some.injEq] at taken
    subst taken
    unfold Server.offloads
    split
    · split
      · split <;> exact .refl _
      · exact .refl _
    · exact .refl _
  · rw [Option.some.injEq] at taken
    subst taken
    exact .refl _
  · rw [Option.some.injEq] at taken
    subst taken
    unfold Server.run
    split
    · split
      · split <;> exact .refl _
      · exact .refl _
    · exact .refl _
  · obtain ⟨c, _, ran⟩ := Option.bind_eq_some_iff.mp taken
    exact fiber_adds ran j
  · rw [Option.some.injEq] at taken
    subst taken
    unfold Server.back
    split
    · split <;> exact .refl _
    · exact .refl _

theorem step_adds {a : TcoAct} (own : a.own = true) (taken : step stateful s a = some t) (j : Nat) :
    Adds (s.socks j) (t.socks j) := by
  cases a with
  | arrive | hangup => cases own
  | device slot =>
    rw [step, Option.some.injEq] at taken
    subst taken
    exact .refl _
  | accept fd =>
    rw [step, Server.accept] at taken
    split at taken
    · split at taken <;> rw [Option.some.injEq] at taken <;> subst taken
      · exact adds_update (k := (s.socks s.nconns).setnb) ⟨rfl, List.prefix_rfl⟩ j
      · exact .refl _
    · cases taken
  | event fd =>
    rw [step, Server.event] at taken
    split at taken
    · dsimp only at taken
      split at taken
      · split at taken <;> rw [Option.some.injEq] at taken <;> subst taken <;> exact .refl _
      · rw [Option.some.injEq] at taken
        subst taken
        exact .refl _
    · cases taken
  | turn i out => exact turn_adds taken j

theorem host_replies (stateful : Bool) :
    (coroHost stateful).Replies (rule stateful) (Sound stateful) where
  init := init_sound
  fresh := fun _ => rfl
  step := by
    intro s t a sound taken
    change (if a.own then step stateful s a else none) = some t at taken
    split at taken
    · exact step_sound sound taken
    · cases taken
  arrive := fun _ bs sound => arrive_sound bs sound
  hangup := fun _ sound => hangup_sound sound
  tx_isPrefix := fun i sound => sound.tx_isPrefix i
  adds := by
    intro s t a taken i
    change (if a.own then step stateful s a else none) = some t at taken
    split at taken
    · rename_i own
      exact step_adds own taken i
    · cases taken
  socks_setSock := fun _ _ _ => rfl

end Coro

namespace Block

variable {stateful : Bool} {s t : Server} {i : Nat} {out : IoOut}

theorem socks_afterRead (s : Server) (i : Nat) (h : Thread) (buf : Bytes) (r : IoRet) :
    (s.afterRead i h buf r).socks = s.socks := by
  unfold Server.afterRead
  split
  · split
    · rfl
    · split <;> rfl
  · rfl
  · rfl

theorem socks_afterWrite (s : Server) (i : Nat) (h : Thread) (buf : Bytes) (put : Nat)
    (r : IoRet) : (s.afterWrite i h buf put r).socks = s.socks := by
  unfold Server.afterWrite
  split
  · split
    · rfl
    · split <;> rfl
  · rfl
  · rfl

theorem thread_adds {h : Thread} (taken : s.thread stateful i h out = some t) (j : Nat) :
    Adds (s.socks j) (t.socks j) := by
  unfold Server.thread at taken
  split at taken
  · obtain ⟨⟨k, r⟩, answer, rfl⟩ := Option.map_eq_some_iff.mp taken
    rw [socks_afterRead]
    exact adds_update (adds_realRead answer) j
  · split at taken <;> rw [Option.some.injEq] at taken <;> subst taken <;> exact .refl _
  · obtain ⟨⟨k, r⟩, answer, rfl⟩ := Option.map_eq_some_iff.mp taken
    rw [socks_afterWrite]
    exact adds_update (adds_realWrite answer) j
  · cases taken

theorem step_adds {a : TcoAct} (own : a.own = true) (taken : step stateful s a = some t) (j : Nat) :
    Adds (s.socks j) (t.socks j) := by
  cases a with
  | arrive | hangup => cases own
  | device slot =>
    rw [step, Option.some.injEq] at taken
    subst taken
    exact .refl _
  | accept fd =>
    rw [step, Option.some.injEq] at taken
    subst taken
    exact .refl _
  | event fd => cases taken
  | turn i out =>
    obtain ⟨h, _, ran⟩ := Option.bind_eq_some_iff.mp taken
    exact thread_adds ran j

theorem host_replies (stateful : Bool) :
    (blockHost stateful).Replies (rule stateful) (Sound stateful) where
  init := init_sound
  fresh := fun _ => rfl
  step := by
    intro s t a sound taken
    change (if a.own then step stateful s a else none) = some t at taken
    split at taken
    · exact step_sound sound taken
    · cases taken
  arrive := fun _ bs sound => arrive_sound bs sound
  hangup := fun _ sound => hangup_sound sound
  tx_isPrefix := fun i sound => sound.tx_isPrefix i
  adds := by
    intro s t a taken i
    change (if a.own then step stateful s a else none) = some t at taken
    split at taken
    · rename_i own
      exact step_adds own taken i
    · cases taken
  socks_setSock := fun _ _ _ => rfl

end Block

/-- The program's own check: in every run of its clients against either server, none
counts a bad reply, and `cli_ok` counts each whole reply that was read. -/
theorem clients_find_no_bad_reply (stateful : Bool) (pipe nconn : Nat) :
    (∀ acts s, Machine.run (ClientThread.step (load stateful pipe nconn) (coroHost stateful))
        (.init (coroHost stateful)) acts = some s →
      s.cliBad = 0 ∧ s.cliOk = ∑ i ∈ Finset.range nconn, (s.clients i).taken / req) ∧
    (∀ acts s, Machine.run (ClientThread.step (load stateful pipe nconn) (blockHost stateful))
        (.init (blockHost stateful)) acts = some s →
      s.cliBad = 0 ∧ s.cliOk = ∑ i ∈ Finset.range nconn, (s.clients i).taken / req) := by
  constructor
  · intro acts s reached
    have inv := ClientThread.reached_inv (Coro.host_replies stateful)
      (load_meets stateful pipe nconn) reached
    exact ⟨inv.good, inv.counted⟩
  · intro acts s reached
    have inv := ClientThread.reached_inv (Block.host_replies stateful)
      (load_meets stateful pipe nconn) reached
    exact ⟨inv.good, inv.counted⟩

/-- The one client sends its request, the coroutine server serves it, and the client
reads the reply. -/
def roundTrip : List (ProgramAct TcoAct) :=
  [.client 0 .again, .client 0 (.part 200), .client 0 (.part 56)] ++
    ([go .again, .accept 5, go .again, go .again, go (.part req), go .again, go .again, .device 0,
      go .again, go .again, go .again, go .again, go .again, go (.part req)] : List TcoAct).map
        .server ++ [.client 0 (.part 100), .client 0 (.part 156)]

/-- The same with the thread of the connection. -/
def roundTripBlocking : List (ProgramAct TcoAct) :=
  [.client 0 .again, .client 0 (.part 200), .client 0 (.part 56)] ++
    ([.accept 5, go (.part req), .device 5, go .again, go (.part req)] : List TcoAct).map
        .server ++ [.client 0 (.part 100), .client 0 (.part 156)]

def afterRoundTrip : Program Coro.Server :=
  (Machine.run (ClientThread.step (load true 1 1) (coroHost true)) (.init (coroHost true))
    roundTrip).get (by decide +kernel)

def afterRoundTripBlocking : Program Block.Server :=
  (Machine.run (ClientThread.step (load true 1 1) (blockHost true)) (.init (blockHost true))
    roundTripBlocking).get (by decide +kernel)

theorem roundTrip_finds_no_bad_reply :
    (afterRoundTrip.cliOk = 1 ∧ afterRoundTrip.cliBad = 0) ∧
    afterRoundTripBlocking.cliOk = 1 ∧ afterRoundTripBlocking.cliBad = 0 := by
  have both := clients_find_no_bad_reply true 1 1
  have coro := both.1 roundTrip afterRoundTrip (Option.some_get _).symm
  have block := both.2 roundTripBlocking afterRoundTripBlocking (Option.some_get _).symm
  refine ⟨⟨?_, coro.1⟩, ?_, block.1⟩
  · rw [coro.2]
    decide +kernel
  · rw [block.2]
    decide +kernel

end TransparentOffload.Tco
