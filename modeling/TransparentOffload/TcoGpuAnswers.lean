import TransparentOffload.TcoServerGpu

set_option autoImplicit false

/- Nobody but the stream touches the buffer of an offload until it is over, so both
servers answer each request with its ciphertext, and their clients find it. -/
namespace TransparentOffload.TcoGpu

open ClientThread (Load Host Program)
open Dialogue (Serves Upholds Wire)
open GpuStream (Bufs Issued cipher recorded)
open LibAccelGpu (Op opsOfSubmit)
open Streams (Queue)
open Tco (TcoAct wire wire_others wire_self wire_hangup upholds_arrive)

/-- The replies of the protocol. -/
def rule : Dialogue.Rule UInt8 :=
  { width := req, positive := by decide, answer := fun _ request => cipher req request }

/-- What has been issued of an offload of a request, with the request in the buffer. -/
def Offloads (w : Wire UInt8) (n : Nat) (issued : List Op) (stream : Queue Bufs Op) : Prop :=
  ∃ start : Bufs, start.h.length = req ∧ Serves rule w n (.reading start.h) ∧
    Issued req start issued stream

/-- A handler at this place serves its connection; `ops` is what it issues. -/
def Stands (ops : List Op) (p : Place) (stream : Queue Bufs Op) (w : Wire UInt8) : Prop :=
  ∃ n, match p with
    | .reading got => got < req ∧ stream.pending = [] ∧ stream.mem.h.length = req ∧
        Serves rule w n (.reading (stream.mem.h.take got))
    | .issue rest => ∃ issued, issued ++ rest = ops ∧ Offloads w n issued stream
    | .offload => Offloads w n ops stream
    | .writing put => stream.pending = [] ∧ stream.mem.h.length = req ∧
        Serves rule w n (.writing stream.mem.h put)
    | .ended => Serves rule w n .gone

section Stands

variable {ops : List Op} {p : Place} {stream stream' : Queue Bufs Op} {w : Wire UInt8}
  {k k' : Socket} {got put : Nat} {r : IoRet} {out : IoOut}

theorem Stands.gone (stands : Stands ops p stream w) : ∃ n, Serves rule w n .gone := by
  obtain ⟨n, at_⟩ := stands
  refine ⟨n, ?_⟩
  cases p with
  | reading got => exact at_.2.2.2.quit
  | issue rest =>
    obtain ⟨_, _, _, _, serves, _⟩ := at_
    exact serves.quit
  | offload =>
    obtain ⟨_, _, serves, _⟩ := at_
    exact serves.quit
  | writing put => exact at_.2.2.quit
  | ended => exact at_

theorem Stands.tx_isPrefix (stands : Stands ops p stream w) : w.tx <+: rule.owed w.arrived := by
  obtain ⟨n, serves⟩ := stands.gone
  exact serves.tx_isPrefix

theorem Stands.arrive (stands : Stands ops p stream w) (more : Bytes) :
    Stands ops p stream ⟨w.arrived ++ more, w.rx ++ more, w.tx⟩ := by
  obtain ⟨n, at_⟩ := stands
  refine ⟨n, ?_⟩
  cases p with
  | reading got => exact ⟨at_.1, at_.2.1, at_.2.2.1, at_.2.2.2.arrive more⟩
  | issue rest =>
    obtain ⟨issued, all, start, size, serves, progress⟩ := at_
    exact ⟨issued, all, start, size, serves.arrive more, progress⟩
  | offload =>
    obtain ⟨start, size, serves, progress⟩ := at_
    exact ⟨start, size, serves.arrive more, progress⟩
  | writing put => exact ⟨at_.1, at_.2.1, at_.2.2.arrive more⟩
  | ended => exact Serves.arrive at_ more

/-- The stream goes on, which it only does during an offload. -/
theorem Stands.device (stands : Stands ops p stream w)
    (taken : stream.execute (GpuStream.apply req) = some stream') : Stands ops p stream' w := by
  have busy := GpuStream.busy taken
  obtain ⟨n, at_⟩ := stands
  refine ⟨n, ?_⟩
  cases p with
  | reading got => exact absurd at_.2.1 busy
  | issue rest =>
    obtain ⟨issued, all, start, size, serves, progress⟩ := at_
    exact ⟨issued, all, start, size, serves, progress.execute taken⟩
  | offload =>
    obtain ⟨start, size, serves, progress⟩ := at_
    exact ⟨start, size, serves, progress.execute taken⟩
  | writing put => exact absurd at_.1 busy
  | ended => exact at_

theorem length_stored {h bs : Bytes} (size : h.length = req) (fits : got + bs.length ≤ req) :
    (stored h got bs).length = req := by
  rw [stored, List.length_append, List.length_append, List.length_take, List.length_drop]
  omega

theorem take_stored {h bs : Bytes} (fits : got ≤ h.length) :
    (stored h got bs).take (got + bs.length) = h.take got ++ bs := by
  have front : (h.take got ++ bs).length = got + bs.length := by
    rw [List.length_append, List.length_take]
    omega
  rw [stored, ← front, List.take_left]

/-- The next bytes of a request, or an answer that changes nothing. -/
theorem Stands.afterRead (stands : Stands ops (.reading got) stream (wire k))
    (answer : k.realRead (req - got) false out = some (k', r)) :
    (∀ bs, r = .data bs →
      (got + bs.length < req →
        Stands ops (.reading (got + bs.length)) (store stream got bs) (wire k')) ∧
      (¬ got + bs.length < req → Stands ops (.issue ops) (store stream got bs) (wire k'))) ∧
    (∀ e, r = .err e → Stands ops (.reading got) stream (wire k')) ∧
    Stands ops .ended stream (wire k') := by
  obtain ⟨n, short, idle, size, serves⟩ := stands
  rcases Socket.realRead_answer answer with ⟨bs, rfl, most, rx, arrived, tx⟩ | ⟨⟨e, rfl⟩, rfl⟩
  · have front : (stream.mem.h.take got).length = got := by
      rw [List.length_take]
      omega
    have next := serves.read rx (by change _ ≤ req; omega)
    have same : (⟨(wire k).arrived, k'.rx, (wire k).tx⟩ : Wire UInt8) = wire k' := by
      unfold wire
      rw [arrived, tx]
    rw [same] at next
    have long : (stored stream.mem.h got bs).length = req := length_stored size (by omega)
    have kept : (stored stream.mem.h got bs).take (got + bs.length) = stream.mem.h.take got ++ bs :=
      take_stored (by omega)
    refine ⟨?_, nofun, n, next.quit⟩
    intro bs' equal
    cases equal
    refine ⟨?_, ?_⟩
    · intro less
      refine ⟨n, less, idle, long, ?_⟩
      change Serves rule (wire k') n (.reading ((stored stream.mem.h got bs).take _))
      rw [kept]
      exact next
    · intro full
      refine ⟨n, [], rfl, (store stream got bs).mem, long, ?_, Issued.nothing idle⟩
      have all : (stored stream.mem.h got bs).take (got + bs.length) = stored stream.mem.h got bs :=
        List.take_of_length_le (by omega)
      change Serves rule (wire k') n (.reading (stored stream.mem.h got bs))
      rw [← all, kept]
      exact next
  · exact ⟨nofun, fun _ _ => ⟨n, short, idle, size, serves⟩, n, serves.quit⟩

/-- A call of the offload. -/
theorem Stands.issue {op : Op} {rest : List Op}
    (stands : Stands ops (.issue (op :: rest)) stream w) :
    Stands ops (.issue rest) (stream.issue op) w := by
  obtain ⟨n, issued, all, start, size, serves, progress⟩ := stands
  refine ⟨n, issued ++ [op], ?_, start, size, serves, progress.issue op⟩
  rw [List.append_assoc]
  exact all

theorem Stands.issued (stands : Stands ops (.issue []) stream w) :
    Stands ops .offload stream w := by
  obtain ⟨n, issued, all, offloads⟩ := stands
  rw [List.append_nil] at all
  exact ⟨n, all ▸ offloads⟩

/-- The operations leave the ciphertext in the buffer of the host. -/
def Encrypts (ops : List Op) : Prop :=
  ∀ m : Bufs, (ops.foldl (fun m op => GpuStream.apply req op m) m).h = cipher req m.h

/-- An offload that is over has left the reply in the buffer. -/
theorem Stands.answered (encrypts : Encrypts ops) (stands : Stands ops .offload stream w)
    (idle : stream.pending = []) : Stands ops (.writing 0) stream w := by
  obtain ⟨n, start, size, serves, progress⟩ := stands
  have reply : stream.mem.h = rule.answer n start.h := by
    rw [progress.mem_eq idle]
    exact encrypts start
  refine ⟨n, idle, ?_, ?_⟩
  · rw [reply]
    exact (GpuStream.length_cipher req start.h).trans size
  · rw [reply]
    exact serves.turn size

/-- The next bytes of a reply, or an answer that changes nothing. -/
theorem Stands.afterWrite (stands : Stands ops (.writing put) stream (wire k))
    (answer : k.realWrite (stream.mem.h.drop put) false out = some (k', r)) :
    (∀ m, r = .count m →
      Stands ops (.writing (put + m)) stream (wire k') ∧
      (¬ put + m < req → Stands ops (.reading 0) stream (wire k'))) ∧
    (∀ e, r = .err e → Stands ops (.writing put) stream (wire k')) ∧
    Stands ops .ended stream (wire k') := by
  obtain ⟨n, idle, size, serves⟩ := stands
  rcases Socket.realWrite_answer answer with ⟨m, rfl, _, tx, arrived, rx⟩ | ⟨⟨e, rfl⟩, rfl⟩
  · have next := serves.write m
    have same : (⟨(wire k).arrived, (wire k).rx, (wire k).tx ++ (stream.mem.h.drop put).take m⟩ :
        Wire UInt8) = wire k' := by
      unfold wire
      rw [arrived, rx, tx]
    rw [same] at next
    refine ⟨?_, nofun, n, next.quit⟩
    intro m' equal
    cases equal
    refine ⟨⟨n, idle, size, next⟩, ?_⟩
    intro full
    refine ⟨n + 1, by decide, idle, size, ?_⟩
    rw [List.take_zero]
    exact next.done (by omega)
  · exact ⟨nofun, fun _ _ => ⟨n, idle, size, serves⟩, n, serves.quit⟩

end Stands

/-- The kernel can take a whole reply in one write. -/
theorem realWrite_whole (k : Socket) {h : Bytes} (size : h.length = req) : ∃ k',
    k.realWrite (h.drop 0) false (.part req) = some (k', .count req) ∧
      k'.tx.length = k.tx.length + req := by
  have fits : req ≤ (h.drop 0).length := by rw [List.drop_zero, size]
  refine ⟨{ k with tx := k.tx ++ (h.drop 0).take req }, if_pos ⟨fits, Or.inl (by decide)⟩, ?_⟩
  dsimp only
  rw [List.drop_zero, List.length_append, List.length_take, size, Nat.min_self]

namespace Coro

/-- A connection whose offload is on its way waits for it. -/
def Conn.Parked (c : Conn) : Prop :=
  c.place = .offload → c.state = .waitOff ∨ c.state = .runnable ∧ c.stream.pending = []

def Conn.Stands (c : Conn) (w : Wire UInt8) : Prop :=
  TcoGpu.Stands opsOfSubmit c.place c.stream w ∧ c.Parked

/-- The fiber that is switched in is runnable. -/
def Running (s : Server) : Prop :=
  ∀ i, s.pc = .fiber i → ∃ c, s.conns i = some c ∧ c.state = .runnable

structure Inv (s : Server) : Prop where
  upholds : Upholds rule Conn.Stands s.nconns s.conns fun i => wire (s.socks i)
  running : Running s

variable {s t : Server} {c c' : Conn} {i got put : Nat} {k : Socket} {r : IoRet} {out : IoOut}

theorem encrypts : Encrypts opsOfSubmit := fun _ => rfl

theorem Conn.Stands.arrive {w : Wire UInt8} (stands : c.Stands w) (more : Bytes) :
    c.Stands ⟨w.arrived ++ more, w.rx ++ more, w.tx⟩ := ⟨stands.1.arrive more, stands.2⟩

/-- One connection has changed. -/
theorem Inv.moved (inv : Inv s) (live : s.conns i = some c)
    (conns : t.conns = Function.update s.conns i (some c')) (nconns : t.nconns = s.nconns)
    (socks : ∀ j, j ≠ i → wire (t.socks j) = wire (s.socks j))
    (stands : c'.Stands (wire (t.socks i))) (running : Running t) : Inv t := by
  refine ⟨?_, running⟩
  rw [nconns]
  refine inv.upholds.moved (i := i) (h := c') ?_ ?_ ?_ stands
  · rw [live]
    exact Option.some_ne_none c
  · intro j other
    rw [conns, Function.update_of_ne other]
    exact ⟨rfl, socks j other⟩
  · rw [conns, Function.update_self]

/-- No fiber is switched in. -/
theorem running_away (away : ∀ i, t.pc ≠ .fiber i) : Running t := fun i pc => absurd pc (away i)

/-- The fiber goes on. -/
theorem running_on (pc : t.pc = .fiber i) (live : t.conns i = some c')
    (state : c'.state = .runnable) : Running t := by
  intro j here
  have same : j = i := by
    rw [pc] at here
    cases here
    rfl
  exact ⟨c', same ▸ live, state⟩

/-- A step of the dispatcher that leaves every connection alone. -/
theorem Inv.aside (inv : Inv s) (conns : t.conns = s.conns) (nconns : t.nconns = s.nconns)
    (socks : t.socks = s.socks) (running : Running t) : Inv t := by
  refine ⟨?_, running⟩
  rw [conns, nconns, socks]
  exact inv.upholds

section Fiber

variable (inv : Inv s) (pc : s.pc = .fiber i) (live : s.conns i = some c)
  (state : c.state = .runnable)

include inv pc live state

theorem afterRead_inv (place : c.place = .reading got)
    (answer : (s.socks i).realRead (req - got) false out = some (k, r)) :
    Inv ((s.setSock i k).afterRead i c got r) := by
  have stands := (inv.upholds.stands live).1
  rw [place] at stands
  obtain ⟨more, same, gone⟩ := stands.afterRead answer
  have mine : wire ((s.setSock i k).socks i) = wire k := wire_self rfl
  have others : ∀ j, j ≠ i → wire ((s.setSock i k).socks j) = wire (s.socks j) :=
    wire_others rfl
  have died : Inv ((s.setSock i k).die i c) :=
    inv.moved live rfl rfl others ⟨mine ▸ gone, nofun⟩ (running_away nofun)
  unfold Server.afterRead
  split
  · rename_i bs
    split
    · exact died
    · dsimp only
      split
      · rename_i less
        exact inv.moved live rfl rfl others ⟨mine ▸ (more bs rfl).1 less, nofun⟩
          (running_on pc (Function.update_self ..) state)
      · rename_i full
        exact inv.moved live rfl rfl others ⟨mine ▸ (more bs rfl).2 full, nofun⟩
          (running_on pc (Function.update_self ..) state)
  · rename_i e
    split
    · refine inv.moved live rfl rfl others ⟨?_, ?_⟩ (running_away nofun)
      · dsimp only
        rw [place]
        exact mine ▸ same e rfl
      · intro parked
        cases place.symm.trans parked
    · exact died
  · exact died

theorem afterWrite_inv (place : c.place = .writing put)
    (answer : (s.socks i).realWrite (c.stream.mem.h.drop put) false out = some (k, r)) :
    Inv ((s.setSock i k).afterWrite i c put r) := by
  have stands := (inv.upholds.stands live).1
  rw [place] at stands
  obtain ⟨more, same, gone⟩ := stands.afterWrite answer
  have mine : wire ((s.setSock i k).socks i) = wire k := wire_self rfl
  have others : ∀ j, j ≠ i → wire ((s.setSock i k).socks j) = wire (s.socks j) :=
    wire_others rfl
  have died : Inv ((s.setSock i k).die i c) :=
    inv.moved live rfl rfl others ⟨mine ▸ gone, nofun⟩ (running_away nofun)
  unfold Server.afterWrite
  split
  · rename_i n
    split
    · exact inv.moved live rfl rfl others ⟨mine ▸ (more n rfl).1, nofun⟩
        (running_on pc (Function.update_self ..) state)
    · rename_i full
      exact inv.moved live rfl rfl others ⟨mine ▸ (more n rfl).2 full, nofun⟩
        (running_on pc (Function.update_self ..) state)
  · rename_i e
    split
    · refine inv.moved live rfl rfl others ⟨?_, ?_⟩ (running_away nofun)
      · dsimp only
        rw [place]
        exact mine ▸ same e rfl
      · intro parked
        cases place.symm.trans parked
    · exact died
  · exact died

theorem fiber_inv (taken : s.fiber i c out = some t) : Inv t := by
  have stands := inv.upholds.stands live
  have kept : ∀ j, j ≠ i → wire (s.socks j) = wire (s.socks j) := fun _ _ => rfl
  unfold Server.fiber at taken
  split at taken
  · rename_i got place
    obtain ⟨⟨k, r⟩, answer, rfl⟩ := Option.map_eq_some_iff.mp taken
    exact afterRead_inv inv pc live state place answer
  · rename_i op rest place
    rw [Option.some.injEq] at taken
    subst taken
    rw [Conn.Stands, place] at stands
    exact inv.moved live rfl rfl kept ⟨stands.1.issue, nofun⟩
      (running_on pc (Function.update_self ..) state)
  · rename_i place
    rw [Option.some.injEq] at taken
    subst taken
    rw [Conn.Stands, place] at stands
    exact inv.moved live rfl rfl kept ⟨stands.1.issued, fun _ => Or.inl rfl⟩ (running_away nofun)
  · rename_i place
    rw [Option.some.injEq] at taken
    subst taken
    have idle : c.stream.pending = [] := by
      rcases stands.2 place with waits | ended
      · rw [state] at waits
        cases waits
      · exact ended.2
    rw [Conn.Stands, place] at stands
    exact inv.moved live rfl rfl kept ⟨stands.1.answered encrypts idle, nofun⟩
      (running_on pc (Function.update_self ..) state)
  · rename_i put place
    obtain ⟨⟨k, r⟩, answer, rfl⟩ := Option.map_eq_some_iff.mp taken
    exact afterWrite_inv inv pc live state place answer
  · cases taken

end Fiber

theorem offloads_inv (inv : Inv s) : Inv (s.offloads i) := by
  unfold Server.offloads
  split
  · split
    · rename_i c live
      split
      · rename_i ended
        refine inv.moved live rfl rfl (fun _ _ => rfl) ?_ (running_away nofun)
        have stands := inv.upholds.stands live
        refine ⟨stands.1, ?_⟩
        intro parked
        have inside := stands.1
        change c.place = .offload at parked
        rw [parked] at inside
        obtain ⟨_, _, _, _, progress⟩ := inside
        exact Or.inr ⟨rfl, progress.idle rfl ended.2⟩
      · exact inv.aside rfl rfl rfl (running_away nofun)
    · exact inv.aside rfl rfl rfl (running_away nofun)
  · exact inv.aside rfl rfl rfl (running_away nofun)

theorem run_inv (inv : Inv s) : Inv (s.run i) := by
  unfold Server.run
  split
  · split
    · rename_i c live
      split
      · rename_i state
        exact inv.aside rfl rfl rfl (running_on rfl live state)
      · exact inv.aside rfl rfl rfl (running_away nofun)
    · exact inv.aside rfl rfl rfl (running_away nofun)
  · exact inv.aside rfl rfl rfl (running_away nofun)

theorem back_inv (inv : Inv s) : Inv (s.back i) := by
  unfold Server.back
  split
  · split
    · refine ⟨inv.upholds.left ?_, running_away nofun⟩
      intro h live
      exact (inv.upholds.stands live).1.gone
    · exact inv.aside rfl rfl rfl (running_away nofun)
  · exact inv.aside rfl rfl rfl (running_away nofun)

theorem turn_inv (inv : Inv s) (taken : s.turn out = some t) : Inv t := by
  unfold Server.turn at taken
  split at taken
  · rw [Option.some.injEq] at taken
    exact taken ▸ offloads_inv inv
  · rw [Option.some.injEq] at taken
    exact taken ▸ inv.aside rfl rfl rfl (running_away nofun)
  · rw [Option.some.injEq] at taken
    exact taken ▸ run_inv inv
  · rename_i i pc
    obtain ⟨c, live, ran⟩ := Option.bind_eq_some_iff.mp taken
    obtain ⟨c', here, state⟩ := inv.running i pc
    rw [live, Option.some.injEq] at here
    subst here
    exact fiber_inv inv pc live state ran
  · rw [Option.some.injEq] at taken
    exact taken ▸ back_inv inv

theorem accept_inv {fd : Fd} (inv : Inv s) (taken : s.accept fd = some t) : Inv t := by
  unfold Server.accept at taken
  split at taken
  · rename_i left polling _
    split at taken <;> rw [Option.some.injEq] at taken <;> subst taken
    · have same : (fun j => wire (Function.update s.socks s.nconns (s.socks s.nconns).setnb j)) =
          fun j => wire (s.socks j) := by
        funext j
        by_cases mine : j = s.nconns
        · rw [mine, Function.update_self]
          rfl
        · rw [Function.update_of_ne mine]
      refine ⟨?_, ?_⟩
      · dsimp only
        rw [same]
        refine inv.upholds.accepted ?_
        intro w serves
        refine ⟨⟨0, by decide, rfl, (s.rooms s.nconns).size, ?_⟩, nofun⟩
        rw [List.take_zero]
        exact serves
      · intro i pc
        cases polling.symm.trans pc
    · exact inv
  · cases taken

theorem event_inv {fd : Fd} (inv : Inv s) (taken : s.event fd = some t) : Inv t := by
  unfold Server.event at taken
  split at taken
  · dsimp only at taken
    split at taken
    · rename_i c live
      split at taken <;> rw [Option.some.injEq] at taken <;> subst taken
      · rename_i waits
        refine inv.moved live rfl rfl (fun _ _ => rfl) ?_ (running_away nofun)
        have stands := inv.upholds.stands live
        refine ⟨stands.1, ?_⟩
        intro parked
        rcases stands.2 parked with off | on
        · rw [waits] at off
          cases off
        · rw [waits] at on
          cases on.1
      · exact inv.aside rfl rfl rfl (running_away nofun)
    · rw [Option.some.injEq] at taken
      exact taken ▸ inv.aside rfl rfl rfl (running_away nofun)
  · cases taken

theorem device_inv (inv : Inv s) (taken : s.device i = some t) : Inv t := by
  obtain ⟨c, live, moved⟩ := Option.bind_eq_some_iff.mp taken
  obtain ⟨stream, executed, rfl⟩ := Option.map_eq_some_iff.mp moved
  have stands := inv.upholds.stands live
  refine inv.moved live rfl rfl (fun _ _ => rfl) ⟨stands.1.device executed, ?_⟩ ?_
  · intro parked
    rcases stands.2 parked with waits | ended
    · exact Or.inl waits
    · exact absurd ended.2 (GpuStream.busy executed)
  · intro j pc
    obtain ⟨c', here, state⟩ := inv.running j pc
    by_cases mine : j = i
    · subst mine
      rw [live, Option.some.injEq] at here
      subst here
      exact ⟨_, Function.update_self .., state⟩
    · exact ⟨c', (Function.update_of_ne mine ..).trans here, state⟩

theorem step_inv {a : TcoAct} (inv : Inv s) (taken : step s a = some t) : Inv t := by
  cases a with
  | arrive | hangup => cases taken
  | device i => exact device_inv inv taken
  | accept fd => exact accept_inv inv taken
  | event fd => exact event_inv inv taken
  | turn i out => exact turn_inv inv taken

open Tco (Adds adds_update adds_realRead adds_realWrite)

theorem socks_afterRead (s : Server) (i : Nat) (c : Conn) (got : Nat) (r : IoRet) :
    (s.afterRead i c got r).socks = s.socks := by
  unfold Server.afterRead
  split
  · split
    · rfl
    · dsimp only
      split <;> rfl
  · split <;> rfl
  · rfl

theorem socks_afterWrite (s : Server) (i : Nat) (c : Conn) (put : Nat) (r : IoRet) :
    (s.afterWrite i c put r).socks = s.socks := by
  unfold Server.afterWrite
  split <;> first | rfl | (split <;> rfl)

theorem fiber_adds (taken : s.fiber i c out = some t) (j : Nat) :
    Adds (s.socks j) (t.socks j) := by
  unfold Server.fiber at taken
  split at taken
  · obtain ⟨⟨k, r⟩, answer, rfl⟩ := Option.map_eq_some_iff.mp taken
    rw [socks_afterRead]
    exact adds_update (adds_realRead answer) j
  · rw [Option.some.injEq] at taken
    exact taken ▸ Adds.refl _
  · rw [Option.some.injEq] at taken
    exact taken ▸ Adds.refl _
  · rw [Option.some.injEq] at taken
    exact taken ▸ Adds.refl _
  · obtain ⟨⟨k, r⟩, answer, rfl⟩ := Option.map_eq_some_iff.mp taken
    rw [socks_afterWrite]
    exact adds_update (adds_realWrite answer) j
  · cases taken

/-- The loops of the dispatcher do not touch the sockets. -/
theorem socks_loops (s : Server) (i : Nat) : (s.offloads i).socks = s.socks ∧
    (s.run i).socks = s.socks ∧ (s.back i).socks = s.socks := by
  refine ⟨?_, ?_, ?_⟩
  · unfold Server.offloads
    split
    · split
      · split <;> rfl
      · rfl
    · rfl
  · unfold Server.run
    split
    · split
      · split <;> rfl
      · rfl
    · rfl
  · unfold Server.back
    split
    · split <;> rfl
    · rfl

theorem turn_adds (taken : s.turn out = some t) (j : Nat) : Adds (s.socks j) (t.socks j) := by
  unfold Server.turn at taken
  split at taken
  · rename_i i _
    rw [Option.some.injEq] at taken
    rw [← taken, (socks_loops s i).1]
    exact .refl _
  · rw [Option.some.injEq] at taken
    exact taken ▸ Adds.refl _
  · rename_i i _
    rw [Option.some.injEq] at taken
    rw [← taken, (socks_loops s i).2.1]
    exact .refl _
  · obtain ⟨c, _, ran⟩ := Option.bind_eq_some_iff.mp taken
    exact fiber_adds ran j
  · rename_i i _
    rw [Option.some.injEq] at taken
    rw [← taken, (socks_loops s i).2.2]
    exact .refl _

theorem step_adds {a : TcoAct} (taken : step s a = some t) (j : Nat) :
    Adds (s.socks j) (t.socks j) := by
  cases a with
  | arrive | hangup => cases taken
  | device i =>
    obtain ⟨c, _, moved⟩ := Option.bind_eq_some_iff.mp taken
    obtain ⟨stream, _, rfl⟩ := Option.map_eq_some_iff.mp moved
    exact .refl _
  | accept fd =>
    rw [step, Server.accept] at taken
    split at taken
    · split at taken <;> rw [Option.some.injEq] at taken <;> subst taken
      · exact adds_update (k := (s.socks s.nconns).setnb) ⟨rfl, List.prefix_rfl⟩ j
      · exact .refl _
    · cases taken
  | event fd =>
    rw [step, Server.event] at taken
    split at taken
    · dsimp only at taken
      split at taken
      · split at taken <;> rw [Option.some.injEq] at taken <;> subst taken <;> exact .refl _
      · rw [Option.some.injEq] at taken
        exact taken ▸ Adds.refl _
    · cases taken
  | turn i out => exact turn_adds taken j

def host (rooms : Nat → Room) : Host Server TcoAct :=
  { init := .init rooms, step := step, socks := Server.socks, setSock := Server.setSock }

/-- A whole reply that the kernel takes in one write. -/
theorem step_replies (inv : Inv s) (pc : s.pc = .fiber i) (live : s.conns i = some c)
    (place : c.place = .writing 0) (n : Nat) : ∃ t, step s (.turn n (.part req)) = some t ∧
      (t.socks i).tx.length = (s.socks i).tx.length + req := by
  have stands := (inv.upholds.stands live).1
  rw [place] at stands
  obtain ⟨_, _, size, _⟩ := stands
  obtain ⟨k, answer, tx⟩ := realWrite_whole (s.socks i) size
  refine ⟨(s.setSock i k).afterWrite i c 0 (.count req), ?_, ?_⟩
  · unfold step
    dsimp only
    rw [Server.turn, pc]
    dsimp only
    rw [live, Option.bind_some, Server.fiber]
    rw [place]
    dsimp only
    rw [answer]
    rfl
  · rw [socks_afterWrite, Server.setSock]
    dsimp only
    rw [Function.update_self, tx]

theorem host_replies (rooms : Nat → Room) : (host rooms).Replies rule Inv where
  init := ⟨Upholds.start, running_away nofun⟩
  fresh := fun _ => rfl
  step := step_inv
  arrive := fun _ bs inv =>
    ⟨upholds_arrive bs inv.upholds fun _ stands => stands.arrive bs, inv.running⟩
  hangup := by
    intro s i inv
    refine ⟨?_, inv.running⟩
    change Upholds rule Conn.Stands s.nconns s.conns
      fun j => wire (Function.update s.socks i (s.socks i).hangup j)
    rw [wire_hangup]
    exact inv.upholds
  tx_isPrefix := fun i inv => inv.upholds.tx_isPrefix (fun _ _ stands => stands.1.tx_isPrefix) i
  adds := step_adds
  socks_setSock := fun _ _ _ => rfl

end Coro

namespace Block

def Thread.Stands (h : Thread) (w : Wire UInt8) : Prop :=
  TcoGpu.Stands offloadOps h.place h.stream w

def Inv (s : Server) : Prop :=
  Upholds rule Thread.Stands s.accepted s.threads fun i => wire (s.socks i)

variable {s t : Server} {h h' : Thread} {i got put : Nat} {k : Socket} {r : IoRet} {out : IoOut}

theorem encrypts : Encrypts offloadOps := fun _ => rfl

/-- One thread has gone on. -/
theorem Inv.moved (inv : Inv s) (live : s.threads i = some h)
    (threads : t.threads = Function.update s.threads i (some h'))
    (accepted : t.accepted = s.accepted)
    (socks : ∀ j, j ≠ i → wire (t.socks j) = wire (s.socks j))
    (stands : h'.Stands (wire (t.socks i))) : Inv t := by
  unfold Inv
  rw [accepted]
  refine Upholds.moved (i := i) (h := h') inv ?_ ?_ ?_ stands
  · rw [live]
    exact Option.some_ne_none h
  · intro j other
    rw [threads, Function.update_of_ne other]
    exact ⟨rfl, socks j other⟩
  · rw [threads, Function.update_self]

section Thread

variable (inv : Inv s) (live : s.threads i = some h)

include inv live

theorem afterRead_inv (place : h.place = .reading got)
    (answer : (s.socks i).realRead (req - got) false out = some (k, r)) :
    Inv ((s.setSock i k).afterRead i h got r) := by
  have stands := Upholds.stands inv live
  rw [Thread.Stands, place] at stands
  obtain ⟨more, same, gone⟩ := stands.afterRead answer
  have mine : wire ((s.setSock i k).socks i) = wire k := wire_self rfl
  have others : ∀ j, j ≠ i → wire ((s.setSock i k).socks j) = wire (s.socks j) :=
    wire_others rfl
  have ended : Inv ((s.setSock i k).setThread i { h with place := .ended }) :=
    inv.moved live rfl rfl others (mine ▸ gone)
  unfold Server.afterRead
  split
  · rename_i bs
    split
    · exact ended
    · dsimp only
      split
      · rename_i less
        exact inv.moved live rfl rfl others (mine ▸ (more bs rfl).1 less)
      · rename_i full
        exact inv.moved live rfl rfl others (mine ▸ (more bs rfl).2 full)
  · exact ended
  · exact ended

theorem afterWrite_inv (place : h.place = .writing put)
    (answer : (s.socks i).realWrite (h.stream.mem.h.drop put) false out = some (k, r)) :
    Inv ((s.setSock i k).afterWrite i h put r) := by
  have stands := Upholds.stands inv live
  rw [Thread.Stands, place] at stands
  obtain ⟨more, same, gone⟩ := stands.afterWrite answer
  have mine : wire ((s.setSock i k).socks i) = wire k := wire_self rfl
  have others : ∀ j, j ≠ i → wire ((s.setSock i k).socks j) = wire (s.socks j) :=
    wire_others rfl
  have ended : Inv ((s.setSock i k).setThread i { h with place := .ended }) :=
    inv.moved live rfl rfl others (mine ▸ gone)
  unfold Server.afterWrite
  split
  · rename_i n
    split
    · exact ended
    · split
      · exact inv.moved live rfl rfl others (mine ▸ (more n rfl).1)
      · rename_i full
        exact inv.moved live rfl rfl others (mine ▸ (more n rfl).2 full)
  · exact ended
  · exact ended

theorem thread_inv (taken : s.thread i h out = some t) : Inv t := by
  have stands := Upholds.stands inv live
  have kept : ∀ j, j ≠ i → wire (s.socks j) = wire (s.socks j) := fun _ _ => rfl
  unfold Server.thread at taken
  split at taken
  · rename_i got place
    obtain ⟨⟨k, r⟩, answer, rfl⟩ := Option.map_eq_some_iff.mp taken
    exact afterRead_inv inv live place answer
  · rename_i op rest place
    rw [Option.some.injEq] at taken
    subst taken
    rw [Thread.Stands, place] at stands
    exact inv.moved live rfl rfl kept stands.issue
  · rename_i place
    rw [Option.some.injEq] at taken
    subst taken
    rw [Thread.Stands, place] at stands
    exact inv.moved live rfl rfl kept stands.issued
  · rename_i place
    split at taken
    · rename_i idle
      rw [Option.some.injEq] at taken
      subst taken
      rw [Thread.Stands, place] at stands
      exact inv.moved live rfl rfl kept (stands.answered encrypts idle)
    · cases taken
  · rename_i put place
    obtain ⟨⟨k, r⟩, answer, rfl⟩ := Option.map_eq_some_iff.mp taken
    exact afterWrite_inv inv live place answer
  · cases taken

end Thread

theorem step_inv {a : TcoAct} (inv : Inv s) (taken : step s a = some t) : Inv t := by
  cases a with
  | arrive | hangup | event => cases taken
  | device i =>
    obtain ⟨h, live, moved⟩ := Option.bind_eq_some_iff.mp taken
    obtain ⟨stream, executed, rfl⟩ := Option.map_eq_some_iff.mp moved
    exact inv.moved live rfl rfl (fun _ _ => rfl) ((Upholds.stands inv live).device executed)
  | accept fd =>
    rw [step, Option.some.injEq] at taken
    subst taken
    refine Upholds.accepted inv ?_
    intro w serves
    refine ⟨0, by decide, rfl, (s.rooms s.accepted).size, ?_⟩
    rw [List.take_zero]
    exact serves
  | turn i out =>
    obtain ⟨h, live, ran⟩ := Option.bind_eq_some_iff.mp taken
    exact thread_inv inv live ran

open Tco (Adds adds_update adds_realRead adds_realWrite)

theorem socks_afterRead (s : Server) (i : Nat) (h : Thread) (got : Nat) (r : IoRet) :
    (s.afterRead i h got r).socks = s.socks := by
  unfold Server.afterRead
  split
  · split
    · rfl
    · dsimp only
      split <;> rfl
  · rfl
  · rfl

theorem socks_afterWrite (s : Server) (i : Nat) (h : Thread) (put : Nat) (r : IoRet) :
    (s.afterWrite i h put r).socks = s.socks := by
  unfold Server.afterWrite
  split
  · split
    · rfl
    · split <;> rfl
  · rfl
  · rfl

theorem thread_adds (taken : s.thread i h out = some t) (j : Nat) :
    Adds (s.socks j) (t.socks j) := by
  unfold Server.thread at taken
  split at taken
  · obtain ⟨⟨k, r⟩, answer, rfl⟩ := Option.map_eq_some_iff.mp taken
    rw [socks_afterRead]
    exact adds_update (adds_realRead answer) j
  · rw [Option.some.injEq] at taken
    exact taken ▸ Adds.refl _
  · rw [Option.some.injEq] at taken
    exact taken ▸ Adds.refl _
  · split at taken
    · rw [Option.some.injEq] at taken
      exact taken ▸ Adds.refl _
    · cases taken
  · obtain ⟨⟨k, r⟩, answer, rfl⟩ := Option.map_eq_some_iff.mp taken
    rw [socks_afterWrite]
    exact adds_update (adds_realWrite answer) j
  · cases taken

theorem step_adds {a : TcoAct} (taken : step s a = some t) (j : Nat) :
    Adds (s.socks j) (t.socks j) := by
  cases a with
  | arrive | hangup | event => cases taken
  | device i =>
    obtain ⟨h, _, moved⟩ := Option.bind_eq_some_iff.mp taken
    obtain ⟨stream, _, rfl⟩ := Option.map_eq_some_iff.mp moved
    exact .refl _
  | accept fd =>
    rw [step, Option.some.injEq] at taken
    exact taken ▸ Adds.refl _
  | turn i out =>
    obtain ⟨h, _, ran⟩ := Option.bind_eq_some_iff.mp taken
    exact thread_adds ran j

def host (rooms : Nat → Room) : Host Server TcoAct :=
  { init := .init rooms, step := step, socks := Server.socks, setSock := Server.setSock }

/-- A whole reply that the kernel takes in one write. -/
theorem step_replies (inv : Inv s) (live : s.threads i = some h)
    (place : h.place = .writing 0) : ∃ t, step s (.turn i (.part req)) = some t ∧
      (t.socks i).tx.length = (s.socks i).tx.length + req := by
  have stands := Upholds.stands inv live
  rw [Thread.Stands, place] at stands
  obtain ⟨_, _, size, _⟩ := stands
  obtain ⟨k, answer, tx⟩ := realWrite_whole (s.socks i) size
  refine ⟨(s.setSock i k).afterWrite i h 0 (.count req), ?_, ?_⟩
  · unfold step
    dsimp only
    rw [live, Option.bind_some, Server.thread]
    rw [place]
    dsimp only
    rw [answer]
    rfl
  · rw [socks_afterWrite, Server.setSock]
    dsimp only
    rw [Function.update_self, tx]

theorem host_replies (rooms : Nat → Room) : (host rooms).Replies rule Inv where
  init := Upholds.start
  fresh := fun _ => rfl
  step := step_inv
  arrive := fun _ bs inv => upholds_arrive bs inv fun _ stands => TcoGpu.Stands.arrive stands bs
  hangup := by
    intro s i inv
    change Upholds rule Thread.Stands s.accepted s.threads
      fun j => wire (Function.update s.socks i (s.socks i).hangup j)
    rw [wire_hangup]
    exact inv
  tx_isPrefix := fun i inv =>
    Upholds.tx_isPrefix inv (fun _ _ stands => TcoGpu.Stands.tx_isPrefix stands) i
  adds := step_adds
  socks_setSock := fun _ _ _ => rfl

end Block

/-- `transform`, the clients' oracle. -/
def transform (evp : Bytes → Bytes → Bytes → Bytes) (b : Bytes) : Bytes :=
  evp LibAccelGpu.key (List.replicate 16 0) b

/-- `req` of a client. -/
def request : Bytes := (List.range req).map fun i => UInt8.ofNat (i * 131 + 7)

/-- Each client sends the same request again, one at a time. -/
def load (evp : Bytes → Bytes → Bytes → Bytes) (nconn : Nat) : Load :=
  ⟨req, 1, nconn, fun _ => request, fun _ => transform evp request⟩

theorem length_request : request.length = req := by
  rw [request, List.length_map, List.length_range]

theorem load_meets (evp : Bytes → Bytes → Bytes → Bytes)
    (documented : ∀ key iv data, key.length = 16 → iv.length = 16 →
      evp key iv data = LibAccel.aes128Ctr key iv data) (nconn : Nat) :
    (load evp nconn).Meets rule := by
  have width : rule.width = req := rfl
  have asks : ∀ n, (load evp nconn).asks n = request := by
    intro n
    rw [Load.asks, load]
  have even : rule.Even (load evp nconn).asks := by
    refine ⟨?_, ?_⟩
    · intro n
      rw [asks, length_request, width]
    · intro _ block size
      exact (GpuStream.length_cipher req block).trans size
  refine ⟨width, even, ?_⟩
  intro n
  have blocks : req % 16 = 0 := by decide
  have int : req < 2 ^ 31 := by decide
  have same := GpuStream.evp_eq_cipher evp documented length_request blocks int
  rw [asks, load, rule]
  dsimp only
  rw [transform, same]

/-- In every run of either whole program, what the server has written on a connection is
a part of the ciphertexts of its requests, in their order, and no client finds anything
but what OpenSSL makes of its request. -/
theorem gpu_servers_answer_as_openssl (evp : Bytes → Bytes → Bytes → Bytes)
    (documented : ∀ key iv data, key.length = 16 → iv.length = 16 →
      evp key iv data = LibAccel.aes128Ctr key iv data) (rooms : Nat → Room) (nconn : Nat) :
    (∀ acts s, Machine.run (ClientThread.step (load evp nconn) (Coro.host rooms))
        (.init (Coro.host rooms)) acts = some s →
      (∀ i, (s.server.socks i).tx <+: rule.owed (s.server.socks i).arrived) ∧
      s.cliBad = 0 ∧ s.cliOk = ∑ i ∈ Finset.range nconn, (s.clients i).taken / req) ∧
    (∀ acts s, Machine.run (ClientThread.step (load evp nconn) (Block.host rooms))
        (.init (Block.host rooms)) acts = some s →
      (∀ i, (s.server.socks i).tx <+: rule.owed (s.server.socks i).arrived) ∧
      s.cliBad = 0 ∧ s.cliOk = ∑ i ∈ Finset.range nconn, (s.clients i).taken / req) := by
  have meets := load_meets evp documented nconn
  constructor
  · intro acts s reached
    have replies := Coro.host_replies rooms
    have inv := ClientThread.reached_inv replies meets reached
    exact ⟨fun i => replies.tx_isPrefix i inv.sound, inv.good, inv.counted⟩
  · intro acts s reached
    have replies := Block.host_replies rooms
    have inv := ClientThread.reached_inv replies meets reached
    exact ⟨fun i => replies.tx_isPrefix i inv.sound, inv.good, inv.counted⟩

def zeroRooms (_ : Nat) : Room := ⟨⟨List.replicate req 0, []⟩, List.length_replicate⟩

def turns (n : Nat) : List (ClientThread.ProgramAct TcoAct) :=
  List.replicate n (.server (Tco.go .again))

/-- A client sends a request, which goes through an offload up to its first write. -/
def oneOffload : List (ClientThread.ProgramAct TcoAct) :=
  [.client 0 .again, .client 0 (.part req)] ++ turns 1 ++ [.server (.accept 5)] ++ turns 2 ++
    [.server (Tco.go (.part req))] ++ turns 7 ++ List.replicate 4 (.server (.device 0)) ++ turns 5

/-- The same with the thread of the connection. -/
def oneOffloadBlocking : List (ClientThread.ProgramAct TcoAct) :=
  [.client 0 .again, .client 0 (.part req), .server (.accept 5), .server (Tco.go (.part req))] ++
    turns 4 ++ List.replicate 3 (.server (.device 0)) ++ turns 1

def afterOffload : Program Coro.Server :=
  (Machine.run (ClientThread.step (load LibAccel.aes128Ctr 1) (Coro.host zeroRooms))
    (.init (Coro.host zeroRooms)) oneOffload).get (by decide +kernel)

theorem afterOffload_reached :
    Machine.run (ClientThread.step (load LibAccel.aes128Ctr 1) (Coro.host zeroRooms))
      (.init (Coro.host zeroRooms)) oneOffload = some afterOffload := (Option.some_get _).symm

def afterOffloadBlocking : Program Block.Server :=
  (Machine.run (ClientThread.step (load LibAccel.aes128Ctr 1) (Block.host zeroRooms))
    (.init (Block.host zeroRooms)) oneOffloadBlocking).get (by decide +kernel)

theorem afterOffloadBlocking_reached :
    Machine.run (ClientThread.step (load LibAccel.aes128Ctr 1) (Block.host zeroRooms))
      (.init (Block.host zeroRooms)) oneOffloadBlocking = some afterOffloadBlocking :=
  (Option.some_get _).symm

/-- The server writes the reply at once, and the client reads it at once. -/
def reply : List (ClientThread.ProgramAct TcoAct) :=
  [.server (Tco.go (.part req)), .client 0 (.part req)]

theorem reply_taken {σ : Type} {evp : Bytes → Bytes → Bytes → Bytes} {host : Host σ TcoAct}
    {acts : List (ClientThread.ProgramAct TcoAct)} {s : Program σ} {t : σ}
    (reached : Machine.run (ClientThread.step (load evp 1) host) (.init host) acts = some s)
    (place : (s.clients 0).place = .receiving 0 []) (taken : (s.clients 0).taken = 0)
    (written : host.step s.server (Tco.go (.part req)) = some t)
    (there : req ≤ (host.socks t 0).tx.length) :
    ∃ u, Machine.run (ClientThread.step (load evp 1) host) (.init host) (acts ++ reply) = some u ∧
      (u.clients 0).taken = req := by
  have first : ClientThread.step (load evp 1) host s (.server (Tco.go (.part req))) =
      some { s with server := t } := by
    unfold ClientThread.step
    dsimp only
    rw [written]
    rfl
  have unread : (s.clients 0).taken + req ≤ (host.socks t 0).tx.length := by
    rw [taken, Nat.zero_add]
    exact there
  obtain ⟨u, second, all⟩ : ∃ u,
      ClientThread.step (load evp 1) host { s with server := t } (.client 0 (.part req)) = some u ∧
        (u.clients 0).taken = (s.clients 0).taken + req :=
    ClientThread.step_receives Nat.one_pos place (by decide) (Nat.le_refl _) unread
  refine ⟨u, ?_, ?_⟩
  · rw [reply, Machine.run_append_of_run reached, Machine.run_cons_of_step first,
      Machine.run_cons_of_step second]
    rfl
  · rw [all, taken, Nat.zero_add]

theorem Coro.reply_taken {acts : List (ClientThread.ProgramAct TcoAct)} {s : Program Coro.Server}
    {c : Coro.Conn} (reached : Machine.run (ClientThread.step (load LibAccel.aes128Ctr 1)
      (Coro.host zeroRooms)) (.init (Coro.host zeroRooms)) acts = some s)
    (place : (s.clients 0).place = .receiving 0 []) (taken : (s.clients 0).taken = 0)
    (pc : s.server.pc = .fiber 0) (live : s.server.conns 0 = some c)
    (writing : c.place = .writing 0) :
    ∃ u, Machine.run (ClientThread.step (load LibAccel.aes128Ctr 1) (Coro.host zeroRooms))
        (.init (Coro.host zeroRooms)) (acts ++ reply) = some u ∧ (u.clients 0).taken = req := by
  have inv := ClientThread.reached_inv (Coro.host_replies zeroRooms)
    (load_meets LibAccel.aes128Ctr (fun _ _ _ _ _ => rfl) 1) reached
  obtain ⟨t, written, tx⟩ := Coro.step_replies inv.sound pc live writing 0
  have there : req ≤ (t.socks 0).tx.length := by
    rw [tx]
    exact Nat.le_add_left ..
  exact TcoGpu.reply_taken reached place taken written there

theorem Block.reply_taken {acts : List (ClientThread.ProgramAct TcoAct)}
    {s : Program Block.Server} {h : Block.Thread}
    (reached : Machine.run (ClientThread.step (load LibAccel.aes128Ctr 1)
      (Block.host zeroRooms)) (.init (Block.host zeroRooms)) acts = some s)
    (place : (s.clients 0).place = .receiving 0 []) (taken : (s.clients 0).taken = 0)
    (live : s.server.threads 0 = some h) (writing : h.place = .writing 0) :
    ∃ u, Machine.run (ClientThread.step (load LibAccel.aes128Ctr 1) (Block.host zeroRooms))
        (.init (Block.host zeroRooms)) (acts ++ reply) = some u ∧ (u.clients 0).taken = req := by
  have inv := ClientThread.reached_inv (Block.host_replies zeroRooms)
    (load_meets LibAccel.aes128Ctr (fun _ _ _ _ _ => rfl) 1) reached
  obtain ⟨t, written, tx⟩ := Block.step_replies inv.sound live writing
  have there : req ≤ (t.socks 0).tx.length := by
    rw [tx]
    exact Nat.le_add_left ..
  exact TcoGpu.reply_taken reached place taken written there

theorem oneOffload_answers_as_openssl :
    (∃ s, Machine.run (ClientThread.step (load LibAccel.aes128Ctr 1) (Coro.host zeroRooms))
        (.init (Coro.host zeroRooms)) (oneOffload ++ reply) = some s ∧
      s.cliBad = 0 ∧ s.cliOk = 1) ∧
    ∃ s, Machine.run (ClientThread.step (load LibAccel.aes128Ctr 1) (Block.host zeroRooms))
        (.init (Block.host zeroRooms)) (oneOffloadBlocking ++ reply) = some s ∧
      s.cliBad = 0 ∧ s.cliOk = 1 := by
  have both := gpu_servers_answer_as_openssl LibAccel.aes128Ctr (fun _ _ _ _ _ => rfl) zeroRooms 1
  constructor
  · obtain ⟨c, live, writing⟩ : ∃ c, afterOffload.server.conns 0 = some c ∧ c.place = .writing 0 :=
      Option.map_eq_some_iff.mp (by decide +kernel)
    obtain ⟨s, ran, taken⟩ := Coro.reply_taken afterOffload_reached (by decide +kernel)
      (by decide +kernel) (by decide +kernel) live writing
    have found := both.1 _ s ran
    refine ⟨s, ran, found.2.1, ?_⟩
    rw [found.2.2, Finset.sum_range_one, taken]
    decide
  · obtain ⟨h, live, writing⟩ : ∃ h, afterOffloadBlocking.server.threads 0 = some h ∧
        h.place = .writing 0 := Option.map_eq_some_iff.mp (by decide +kernel)
    obtain ⟨s, ran, taken⟩ := Block.reply_taken afterOffloadBlocking_reached
      (by decide +kernel) (by decide +kernel) live writing
    have found := both.2 _ s ran
    refine ⟨s, ran, found.2.1, ?_⟩
    rw [found.2.2, Finset.sum_range_one, taken]
    decide

end TransparentOffload.TcoGpu
