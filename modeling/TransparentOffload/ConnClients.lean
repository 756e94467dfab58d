import TransparentOffload.AccelBackends
import TransparentOffload.ClientThreads
import TransparentOffload.TcoClients
import TransparentOffload.Transparency

set_option autoImplicit false

/- `client` against `conn_server` under the runtime, with the operation of `libaccel` on
the device: the load test of the repository as a whole. -/
namespace TransparentOffload.ConnServer

open ClientThread (Load Host Program ProgramAct)
open TransparentOffload.Runtime
open Tco (Adds adds_update adds_realRead adds_realWrite)

/-- The library functions behind the two operations of the device. -/
structure Library where
  evp : Bytes → Bytes → Bytes → Bytes
  compress2 : Bytes → Bytes
  uncompress : Bytes → Bytes

/-- What is documented of them. -/
structure Library.Documented (lib : Library) : Prop where
  evp : ∀ key iv data, key.length = 16 → iv.length = 16 →
    lib.evp key iv data = LibAccel.aes128Ctr key iv data
  zlib : ∀ data, lib.uncompress (lib.compress2 data) = data

/-- `ACCEL_OP` is `zip`, for the server and its clients. -/
def transform (lib : Library) (zip : Bool) (buf : Bytes) : Bytes :=
  if zip then lib.uncompress (lib.compress2 buf) else LibAccel.aesCtr lib.evp buf buf.length

/-- `req` of `cli`. -/
def request : Bytes := (List.range req).map fun i => UInt8.ofNat (i * 131 + 7)

/-- `exp` of `cli`. -/
def expected (lib : Library) (zip : Bool) : Bytes :=
  if zip then request else lib.evp LibAccelGpu.key (List.replicate 16 0) request

/-- Each client sends the same request again, one at a time. -/
def load (lib : Library) (zip : Bool) (nconn : Nat) : Load :=
  ⟨req, 1, nconn, fun _ => request, fun _ => expected lib zip⟩

def rule (transform : Bytes → Bytes) : Dialogue.Rule UInt8 :=
  { width := req, positive := req_pos, answer := fun _ => transform }

theorem responses_eq (transform : Bytes → Bytes) (arrived : Bytes) :
    responses transform arrived = (rule transform).owed arrived := by
  unfold responses Dialogue.Rule.owed Dialogue.Rule.answers rule
  rw [List.flatMap_def]
  congr 1
  apply List.ext_getElem?
  intro k
  simp

theorem length_request : request.length = req := by
  rw [request, List.length_map, List.length_range]

section Library

variable {lib : Library} (documented : lib.Documented) (zip : Bool)

include documented

theorem length_transform (buf : Bytes) : (transform lib zip buf).length = buf.length := by
  cases zip with
  | true =>
    change (lib.uncompress (lib.compress2 buf)).length = _
    rw [documented.zlib]
  | false =>
    change (LibAccel.aesCtr lib.evp buf buf.length).length = _
    have same := documented.evp LibAccelGpu.key (List.replicate 16 0) buf rfl rfl
    rw [LibAccel.aesCtr, List.take_length, List.drop_length, List.append_nil, same,
      LibAccel.aes128Ctr, List.length_mapIdx]

theorem transform_request : transform lib zip request = expected lib zip := by
  cases zip with
  | true => exact documented.zlib request
  | false =>
    change LibAccel.aesCtr lib.evp request request.length = lib.evp _ _ request
    rw [LibAccel.aesCtr, List.take_length, List.drop_length, List.append_nil]

end Library

theorem load_meets {lib : Library} (documented : lib.Documented) (zip : Bool) (nconn : Nat) :
    (load lib zip nconn).Meets (rule (transform lib zip)) := by
  have asks : ∀ n, (load lib zip nconn).asks n = request := by
    intro n
    rw [Load.asks, load]
  refine ⟨rfl, ⟨?_, ?_⟩, ?_⟩
  · intro n
    rw [asks, length_request, rule]
  · intro _ block size
    exact (length_transform documented zip block).trans size
  · intro n
    rw [asks, load, rule]
    exact transform_request documented zip

/-- What the server does by itself; the rest of its actions are its clients'. -/
def own : Act → Bool
  | .arrive .. | .hangup _ => false
  | _ => true

/-- The server under the runtime, and the descriptors it was given so far. -/
structure Preloaded where
  runtime : Runtime Conn Unit
  used : List Fd

/-- Its device keeps the contract, and each connection has a descriptor of its own. -/
def host (gEnforce : Bool) (ssl : SslSyms) (transform : Bytes → Bytes) (detOn : Bool)
    (kinds : MutexId → MutexKind) : Host Preloaded Act :=
  { init := ⟨Runtime.init () detOn kinds, []⟩
    step := fun s a =>
      if own a ∧ DeviceContract s.runtime a ∧ ∀ fd ∈ created a, fd ∉ s.used then
        (TransparentOffload.step (config gEnforce ssl transform) s.runtime a).map
          fun runtime => ⟨runtime, s.used ++ (created a).toList⟩
      else none
    socks := fun s => s.runtime.socks
    setSock := fun s fd k => { s with runtime := s.runtime.setSock fd k } }

section Adds

variable {gEnforce : Bool} {ssl : SslSyms} {transform : Bytes → Bytes} {s s' : Runtime Conn Unit}

theorem adds_ioSock (s : Runtime Conn Unit) (place : Place) (fd : Fd) {k : Socket}
    (adds : Adds (s.ioSock place fd) k) : Adds (s.socks fd) k := by
  have same := ioSock_blocking s place fd
  have arrived : (s.ioSock place fd).arrived = (s.socks fd).arrived :=
    congrArg (fun k => k.arrived) same
  have tx : (s.ioSock place fd).tx = (s.socks fd).tx :=
    congrArg (fun k => k.tx) same
  exact ⟨adds.1.trans arrived, tx ▸ adds.2⟩

/-- A socket call of a fiber takes from its connection or writes to it. -/
theorem slice_io_adds {i : Nat} {f : Fiber Conn} {out : Out} {op : IoOp} {fd : Fd}
    {k : IoRet → Conn} (taken : Slice (config gEnforce ssl transform) s i f out s')
    (code : connThread f.ctx = .io op fd k)
    (adds : ∀ {k k' : Socket} {r : IoRet}, op.real k out.io = some (k', r) → Adds k k') (fd' : Fd) :
    Adds (s.socks fd') (s'.socks fd') := by
  rcases slice_io taken code with ⟨_, rfl⟩ | ⟨owner, sock, r, place, moved, real, parked | done⟩
  · exact .refl _
  · obtain ⟨_, rfl⟩ := parked
    exact adds_update (adds_ioSock s f.place fd (adds real)) fd'
  · obtain ⟨_, rfl⟩ := done
    exact adds_update (adds_ioSock s f.place fd (adds real)) fd'

theorem slice_adds {i : Nat} {f : Fiber Conn} {out : Out}
    (taken : Slice (config gEnforce ssl transform) s i f out s') (fd : Fd) :
    Adds (s.socks fd) (s'.socks fd) := by
  have code : ∀ {t : Conn}, f.ctx = t → (config gEnforce ssl transform).app.code f.ctx =
      connThread t := by
    intro t same
    rw [same]
    rfl
  cases at_ : f.ctx with
  | reading => exact slice_io_adds taken (code at_) adds_realRead fd
  | writing => exact slice_io_adds taken (code at_) adds_realWrite fd
  | encrypting =>
    rcases slice_accel taken (code at_) with ⟨_, rfl⟩ | ⟨id, _, rfl⟩
    · exact .refl _
    · exact .refl _
  | closing =>
    have closed := slice_close taken (code at_)
    subst closed
    exact .refl _
  | returned =>
    have returned := slice_ret taken (code at_)
    subst returned
    exact .refl _

theorem step_adds {a : Act} (mine : own a = true)
    (taken : TransparentOffload.step (config gEnforce ssl transform) s a = some s') (fd : Fd) :
    Adds (s.socks fd) (s'.socks fd) := by
  cases stepped taken with
  | create arg =>
    unfold pthreadCreate
    dsimp only
    split <;> exact .refl _
  | reserveNone | reserve | publish | threadLock | threadUnlock | device => exact .refl _
  | socket _ _ peer =>
    rcases peer with ⟨_, rfl, _⟩ | ⟨rfl, _⟩ <;> cases mine
  | @round out _ round =>
    cases round with
    | intake pc =>
      rw [intake_eq]
      exact .refl _
    | slice pc live slice => exact slice_adds slice fd
    | epoll pc =>
      obtain ⟨epoll, fibs, same⟩ := deliverAll_frame s out.events
      rw [epollWait, same]
      exact .refl _
    | switchIn pc =>
      obtain ⟨errno, errq, same⟩ := switchIn_frame (config gEnforce ssl transform) s _ _
      rw [same]
      exact .refl _
    | goOn | offloadDone | drain | expire | free => exact .refl _

end Adds

/-- The runtime's part of the invariant of a program. -/
def Sound (gEnforce : Bool) (ssl : SslSyms) (transform : Bytes → Bytes) (s : Preloaded) : Prop :=
  ServerInv gEnforce ssl transform s.used s.runtime

theorem Sound.step {gEnforce : Bool} {ssl : SslSyms} {transform : Bytes → Bytes} {s : Preloaded}
    {runtime : Runtime Conn Unit} {a : Act} (sound : Sound gEnforce ssl transform s)
    (contract : DeviceContract s.runtime a) (fresh : ∀ fd, created a = some fd → fd ∉ s.used)
    (taken : TransparentOffload.step (config gEnforce ssl transform) s.runtime a = some runtime) :
    Sound gEnforce ssl transform ⟨runtime, s.used ++ (created a).toList⟩ where
  formed := step_formed sound.formed taken
  results := step_offloadResults sound.formed sound.results contract taken
  serving := (step_connStep sound.formed sound.results taken).serving sound.serving fresh

theorem host_replies (gEnforce : Bool) (ssl : SslSyms) {transform : Bytes → Bytes}
    (inPlace : ∀ bs, (transform bs).length = bs.length) (detOn : Bool)
    (kinds : MutexId → MutexKind) :
    (host gEnforce ssl transform detOn kinds).Replies (rule transform)
      (Sound gEnforce ssl transform) where
  init := init_serverInv gEnforce ssl transform detOn kinds
  fresh := fun _ => rfl
  step := by
    intro s t a sound taken
    change (if _ then _ else none) = some t at taken
    split at taken
    · rename_i allowed
      obtain ⟨runtime, moved, rfl⟩ := Option.map_eq_some_iff.mp taken
      exact sound.step allowed.2.1 allowed.2.2 moved
    · cases taken
  arrive := by
    intro s fd bs sound
    have next := sound.step (a := .arrive fd bs) trivial (by nofun) rfl
    rwa [show s.used ++ (created (.arrive fd bs)).toList = s.used from List.append_nil _] at next
  hangup := by
    intro s fd sound
    have next := sound.step (a := .hangup fd) trivial (by nofun) rfl
    rwa [show s.used ++ (created (.hangup fd)).toList = s.used from List.append_nil _] at next
  tx_isPrefix := by
    intro s fd sound
    obtain ⟨t, reached, _⟩ := sound.serving.stock fd
    rw [← responses_eq]
    have written := reached.tx_isPrefix inPlace
    exact written
  adds := by
    intro s t a taken fd
    change (if _ then _ else none) = some t at taken
    split at taken
    · rename_i allowed
      obtain ⟨runtime, moved, rfl⟩ := Option.map_eq_some_iff.mp taken
      exact step_adds allowed.1 moved fd
    · cases taken
  socks_setSock := fun _ _ _ => rfl

/-- The load test as a whole: however the carrier, the device and the clients take turns,
and whether the detector and the enforcement are on or off, no client counts a bad reply
of the preloaded server, and `ok` counts each whole reply that was read. -/
theorem preloaded_server_passes_load_test (lib : Library) (documented : lib.Documented)
    (zip gEnforce : Bool) (ssl : SslSyms) (detOn : Bool) (kinds : MutexId → MutexKind)
    (nconn : Nat) (acts : List (ProgramAct Act)) (s : Program Preloaded)
    (reached : Machine.run
      (ClientThread.step (load lib zip nconn) (host gEnforce ssl (transform lib zip) detOn kinds))
      (.init (host gEnforce ssl (transform lib zip) detOn kinds)) acts = some s) :
    s.cliBad = 0 ∧ s.cliOk = ∑ i ∈ Finset.range nconn, (s.clients i).taken / req := by
  have replies := host_replies gEnforce ssl (length_transform documented zip) detOn kinds
  have inv := ClientThread.reached_inv replies (load_meets documented zip nconn) reached
  exact ⟨inv.good, inv.counted⟩

/-- The library in the mode that leaves each buffer as it was. -/
def zipLibrary : Library := ⟨LibAccel.aes128Ctr, id, id⟩

/-- The server takes a connection and serves one request. -/
def oneService : List Act :=
  [.create 5] ++ List.replicate 8 (.carrier .quiet) ++
    [.carrier { Out.quiet with io := .part req }] ++ List.replicate 3 (.carrier .quiet) ++
    [.device 0] ++ List.replicate 2 (.carrier .quiet) ++
    [.carrier { Out.quiet with done := true }] ++ List.replicate 6 (.carrier .quiet) ++
    [.carrier { Out.quiet with io := .part req }]

/-- One client sends its request, is served, and reads the reply in two parts. -/
def oneRoundTrip : List (ProgramAct Act) :=
  [.client 5 .again, .client 5 (.part req)] ++ oneService.map .server ++
    [.client 5 (.part 4000), .client 5 (.part 96)]

set_option maxRecDepth 20000 in
theorem oneRoundTrip_passes_load_test : ∃ s,
    Machine.run
      (ClientThread.step (load zipLibrary true 6)
        (host false .absent (transform zipLibrary true) false fun _ => .normal))
      (.init (host false .absent (transform zipLibrary true) false fun _ => .normal))
      oneRoundTrip = some s ∧ (s.clients 5).taken = req ∧ s.cliBad = 0 ∧ s.cliOk = 1 := by
  have documented : zipLibrary.Documented := ⟨fun _ _ _ _ _ => rfl, fun _ => rfl⟩
  have served : (Machine.run
      (ClientThread.step (load zipLibrary true 6)
        (host false .absent (transform zipLibrary true) false fun _ => .normal))
      (.init (host false .absent (transform zipLibrary true) false fun _ => .normal))
      oneRoundTrip).map (fun s => ((s.clients 5).taken, s.cliOk)) = some (req, 1) := by
    decide +kernel
  obtain ⟨s, ran, read⟩ := Option.map_eq_some_iff.mp served
  rw [Prod.mk.injEq] at read
  have passed := preloaded_server_passes_load_test zipLibrary documented true false .absent false
    (fun _ => .normal) 6 oneRoundTrip s ran
  exact ⟨s, ran, read.1, passed.1, read.2⟩

end TransparentOffload.ConnServer
