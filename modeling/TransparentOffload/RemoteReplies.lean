import TransparentOffload.RemoteSystem

set_option autoImplicit false

/- A client of `remote_hsm` whose reads do not fail: each call reads its answer to the end,
so that the next one finds nothing in front of its own. -/
namespace TransparentOffload

namespace Remote

variable {hsm : RemoteHsm} {s t : Remote}

/-- Where an open call stands on its connection: the bytes read are those of earlier
answers and then its own; a second try that could not send all of its digest has nothing
to read. -/
def Reads (s : Remote) (c : Nat) (k : RemoteCall) : RemoteStage → Prop
  | .connect _ => True
  | .write _ _ => k.asked % 32 = 0 ∧ s.got c = 8 * k.asked
  | .read d =>
    (k.asked % 32 = 0 ∧ (s.sent c).length = k.asked + 32 ∧ s.got c = 8 * k.asked + d) ∨
      (s.sent c).length < 32 ∧ s.got c = 0 ∧ d = 0
  | .copy d => d = 256 ∧ (s.sent c).length % 32 = 0 ∧ s.got c = 8 * (s.sent c).length

/-- Between two calls every answer of the open connection has been read. -/
def Even (s : Remote) : Prop := ∀ c, s.sock = some c →
  match s.call with
  | none => (s.sent c).length % 32 = 0 ∧ s.got c = 8 * (s.sent c).length
  | some k => s.Reads c k k.stage

theorem even_of_closed (closed : s.sock = none) : Even s := by
  intro c connected
  rw [closed] at connected
  cases connected

theorem even_of_call {k : RemoteCall} {c : Nat} (called : s.call = some k)
    (connected : s.sock = some c) (here : s.Reads c k k.stage) : Even s := by
  intro c' connected'
  rw [connected, Option.some.injEq] at connected'
  subst connected'
  rw [called]
  exact here

theorem Even.reads (even : Even s) {k : RemoteCall} {c : Nat} {stage : RemoteStage}
    (called : s.call = some k) (connected : s.sock = some c) (at_ : k.stage = stage) :
    s.Reads c k stage := by
  have here := even c connected
  rw [called] at here
  exact at_ ▸ here

/-- So what a call has read is of its own answer. -/
theorem Even.clean (even : Even s) : Clean s := by
  intro k c called connected
  cases stage : k.stage with
  | connect | write => trivial
  | read d =>
    intro some_
    rcases even.reads called connected stage with ⟨whole, sent, got⟩ | ⟨_, _, none_⟩
    · exact ⟨by omega, by omega⟩
    · omega
  | copy d =>
    obtain ⟨rfl, whole, got⟩ := even.reads called connected stage
    exact ⟨by decide, whole, by omega⟩

/-- Every step but a failing read leaves the connection so. -/
theorem Even.step {a : RemoteAct} (even : Even s) (sound : Sound hsm s)
    (unbroken : a ≠ .read none) (taken : s.step hsm a = some t) : Even t := by
  cases a with
  | call buf n sig =>
    rw [Remote.step, accelEncrypt] at taken
    split at taken
    · rename_i idle
      split at taken
      · rename_i closed
        cases taken
        exact even_of_closed closed
      · rename_i c connected
        cases taken
        have here := even c connected
        rw [idle.1] at here
        exact even_of_call rfl connected here
    · cases taken
  | connect ok =>
    obtain ⟨k, again, called, stage, rfl⟩ := step_connect_eq_some taken
    cases ok with
    | true =>
      refine even_of_call (c := s.made) rfl rfl ⟨rfl, ?_⟩
      exact (sound.fresh s.made (Nat.le_refl _)).2
    | false => exact even_of_closed rfl
  | write out =>
    obtain ⟨k, c, again, d, called, connected, stage, written⟩ := step_write_eq_some taken
    obtain ⟨whole, got⟩ := even.reads called connected stage
    have sizes := sound.sizes k called
    have size := length_digest (k := k) (by omega)
    have standing := sound.standing k called
    unfold Standing at standing
    rw [stage] at standing
    obtain ⟨c', connected', part, sent, _, first⟩ := standing
    rw [connected, Option.some.injEq] at connected'
    subst connected'
    cases out with
    | some m =>
      rw [write] at written
      split at written
      · rename_i fits
        cases written
        refine even_of_call (c := c) rfl ?_ ?_
        · exact connected
        · by_cases all : d + m = 32
          · rw [if_pos all]
            left
            simp only [goto]
            rw [Function.update_self, List.length_append, List.length_take, List.length_drop]
            omega
          · rw [if_neg all]
            exact ⟨whole, got⟩
      · cases written
    | none =>
      rw [write] at written
      split at written
      · rename_i second
        cases written
        refine even_of_call (c := c) rfl ?_ (Or.inr ⟨?_, ?_, rfl⟩)
        · exact connected
        · show (s.sent c).length < 32
          rw [sent, first second]
          omega
        · show s.got c = 0
          rw [got, first second]
      · cases written
        exact even_of_closed rfl
  | read out =>
    cases out with
    | none => exact absurd rfl unbroken
    | some m =>
      obtain ⟨k, c, d, called, connected, stage, answered⟩ := step_read_eq_some taken
      have owed := length_answers hsm c (s.sent c)
      rw [read] at answered
      split at answered
      · rename_i fits
        cases answered
        refine even_of_call (c := c) rfl ?_ ?_
        · exact connected
        · rcases even.reads called connected stage with ⟨whole, sent, got⟩ | ⟨short, got, rfl⟩
          · by_cases all : d + m = 256
            · rw [if_pos all]
              refine ⟨rfl, ?_, ?_⟩
              · show (s.sent c).length % 32 = 0
                omega
              · show Function.update s.got c (s.got c + m) c = 8 * (s.sent c).length
                rw [Function.update_self]
                omega
            · rw [if_neg all]
              refine Or.inl ⟨whole, sent, ?_⟩
              show Function.update s.got c (s.got c + m) c = 8 * k.asked + (d + m)
              rw [Function.update_self]
              omega
          · omega
      · cases answered
  | copy =>
    obtain ⟨k, d, called, stage, rfl⟩ := step_copy_eq_some taken
    intro c connected
    exact (even.reads called connected stage).2

end Remote

namespace RemoteSystem

variable {hsm : RemoteHsm} {s : RemoteSystem}

/-- What a call copies to its buffer is the front of a signature of its own digest. -/
def OwnSignature (hsm : RemoteHsm) (s : RemoteSystem) : SystemAct → Prop
  | .client .copy => ∀ k d, s.client.call = some k → k.stage = .copy d →
      ∃ c i, k.result = (hsm.sign c i k.digest).take 32 ++ k.buf.drop 32
  | _ => True

/-- When all that a waiting client has sent has arrived, and the thread at the other end
waits for more, the rest of the answer is on its way; unless the second try of a call
could not send its digest. -/
def AnswerThere (s : RemoteSystem) : Prop :=
  ∀ k c d digest, s.client.call = some k → s.client.sock = some c → k.stage = .read d →
    s.pending c = [] → (s.conns c).stage = .reading digest → (s.conns c).sock.rx = [] →
    (s.conns c).sock.tx.length = s.client.got c + (256 - d) ∨ (s.client.sent c).length < 32

theorem answerThere (linked : Linked hsm s) (sound : s.client.Sound hsm) (even : s.client.Even) :
    AnswerThere s := by
  intro k c d digest called connected stage delivered waiting unread
  rcases even.reads called connected stage with ⟨whole, sent, got⟩ | ⟨short, _⟩
  · left
    have standing := sound.standing k called
    unfold Remote.Standing at standing
    rw [stage] at standing
    obtain ⟨c', reading⟩ := standing
    have inside := reading.inside
    have arrived : (s.conns c).sock.arrived = s.client.sent c := by
      obtain ⟨rest, more⟩ := linked.delivered c
      rw [pending, ← more, List.drop_left] at delivered
      rw [← more, delivered, List.append_nil]
    rw [(linked.sound c).all_answered waiting unread, arrived, Remote.length_answers]
    omega
  · exact Or.inr short

/-- In every run of a client of `remote_hsm` in which none of the client's reads fails, in
whatever pieces the bytes travel and however often a write fails: each call copies the
front of a signature of its own digest, and no call waits for an answer that is not there
once both sides wait. -/
theorem remote_calls_get_own_signatures (hsm : RemoteHsm) (acts : List SystemAct)
    (unbroken : ∀ a ∈ acts, a ≠ .client (.read none)) :
    Machine.Guarded (step hsm) (OwnSignature hsm) start acts ∧
      Machine.Always (step hsm) AnswerThere start acts := by
  have allowed : Machine.Guarded (step hsm)
      (fun _ a => ∀ b, label a = some b → b ≠ .read none) start acts := by
    apply Machine.guarded_of_mem
    intro a member _ b labelled
    cases a with
    | client a =>
      cases labelled
      rintro rfl
      exact unbroken _ member rfl
    | deliver | hangup | server => cases labelled
  have kept : ∀ u b v, Remote.Sound hsm u ∧ u.Even → b ≠ .read none →
      u.step hsm b = some v → Remote.Sound hsm v ∧ v.Even :=
    fun u b v inv own moved => ⟨Remote.step_sound inv.1 moved, inv.2.step inv.1 own moved⟩
  have all := (refines hsm).always kept (start_linked hsm)
    ⟨Remote.start_sound, Remote.even_of_closed rfl⟩ allowed
  refine ⟨all.guards ?_, all.mono ?_⟩
  · intro s a inv
    unfold OwnSignature
    split
    · intro k d called stage
      obtain ⟨c, _, own⟩ := Remote.ownReply_of_clean inv.2.1 inv.2.2.clean k d called stage
      exact ⟨c, _, own⟩
    · trivial
  · exact fun s inv => answerThere inv.1 inv.2.1 inv.2.2

/-- A signer whose signatures tell the connection and the request's number there. -/
def numberingHsm : RemoteHsm where
  sign c i digest := UInt8.ofNat c :: UInt8.ofNat i :: List.replicate 254 (digest.headD 0)
  length _ _ _ := by rw [List.length_cons, List.length_cons, List.length_replicate]

/-- A call whose first write fails, its second try on a new connection, and a call on the
same connection. -/
def secondTry : List SystemAct :=
  [.client (.call (Remote.request 7) 32 Remote.noSig), .client (.connect true),
    .client (.write none), .client (.connect true), .client (.write (some 20)), .deliver 1 20,
    .server 1 (.part 20), .client (.write (some 12)), .deliver 1 12, .server 1 (.part 12),
    .server 1 .again, .server 1 (.part 256), .client (.read (some 100)),
    .client (.read (some 156)), .client .copy,
    .client (.call (Remote.request 8) 32 Remote.noSig), .client (.write (some 32)),
    .deliver 1 32, .server 1 (.part 32), .server 1 .again, .server 1 (.part 256),
    .client (.read (some 256))]

theorem secondTry_gets_own_signature :
    (Machine.run (step numberingHsm) start secondTry).map
        (fun s => s.client.call.map RemoteCall.result) =
      some (some (1 :: 1 :: List.replicate 30 8)) ∧
      Machine.Guarded (step numberingHsm) (OwnSignature numberingHsm) start
        (secondTry ++ [.client .copy]) ∧
      Machine.Always (step numberingHsm) AnswerThere start (secondTry ++ [.client .copy]) :=
  ⟨by decide +kernel, remote_calls_get_own_signatures numberingHsm
    (secondTry ++ [.client .copy]) (by decide)⟩

end RemoteSystem

end TransparentOffload
