import TransparentOffload.SpoaStreams

set_option autoImplicit false

/- An ACK for each NOTIFY, on the wire of its own connection, whatever the pieces in which
frames are read and written and whoever writes them. -/
namespace TransparentOffload.SpoaWire

variable {s t : SpoaWire} {c : Nat} {payload : Bytes}

/-- The agent, its ends of the connections, and its threads agree. -/
structure Sound (s : SpoaWire) : Prop where
  agent : s.agent.Sound
  sending : ∀ c, Sending s c
  receiving : ∀ c, Receiving s c
  greeting : ∀ c, (s.readers c).greets = true → s.agent.lockOf c = none

theorem start_sound : Sound start := by
  refine ⟨Spoa.start_sound, ?_, ?_, ?_⟩
  · intro c
    refine ⟨rfl, ?_, fun _ => rfl, ?_⟩
    · intro payload some_
      cases some_
    · intro payload member
      cases member
  · intro c
    refine ⟨rfl, Nat.zero_lt_succ 3, ?_⟩
    intro payload member
    cases member
  · intro c greets
    cases greets

theorem writing_same (reader : (t.readers c).greets = (s.readers c).greets)
    (acking : t.agent.acking c = s.agent.acking c) : t.writing c = s.writing c := by
  rw [writing, writing, reader, acking]

theorem sentOn_same {a b : Spoa} (sent : b.sent = a.sent) (c : Nat) : b.sentOn c = a.sentOn c := by
  rw [Spoa.sentOn, sent]
  rfl

theorem receivedOn_same {a b : Spoa} (received : b.received = a.received) (c : Nat) :
    b.receivedOn c = a.receivedOn c := by
  rw [Spoa.receivedOn, received]
  rfl

/-- A step of the agent that nobody sees on a connection. -/
theorem Sound.aside (sound : Sound s) (agent : t.agent.Sound) (socks : t.socks = s.socks)
    (readers : t.readers = s.readers) (put : t.put = s.put)
    (acking : ∀ c, t.agent.acking c = s.agent.acking c)
    (locks : ∀ c, s.agent.lockOf c = none → t.agent.lockOf c = none)
    (received : t.agent.received = s.agent.received) (sent : t.agent.sent = s.agent.sent) :
    Sound t := by
  refine ⟨agent, ?_, ?_, ?_⟩
  · intro c
    exact (sound.sending c).same (by rw [socks]) (by rw [put])
      (writing_same (by rw [readers]) (acking c)) (sentOn_same sent c)
  · intro c
    exact (sound.receiving c).same (by rw [socks]) (by rw [socks]) (by rw [readers])
      (receivedOn_same received c)
  · intro c greets
    rw [readers] at greets
    exact locks c (sound.greeting c greets)

/-- A step at one connection leaves the others as they are. -/
structure Elsewhere (s t : SpoaWire) (c : Nat) : Prop where
  socks : ∀ c', c' ≠ c → t.socks c' = s.socks c'
  readers : ∀ c', c' ≠ c → t.readers c' = s.readers c'
  put : ∀ c', c' ≠ c → t.put c' = s.put c'
  acking : ∀ c', c' ≠ c → t.agent.acking c' = s.agent.acking c'
  locks : ∀ c', c' ≠ c → t.agent.lockOf c' = s.agent.lockOf c'
  sent : ∀ c', c' ≠ c → t.agent.sentOn c' = s.agent.sentOn c'
  received : ∀ c', c' ≠ c → t.agent.receivedOn c' = s.agent.receivedOn c'

/-- So only that connection has to be looked at. -/
theorem Sound.moved (sound : Sound s) (agent : t.agent.Sound) (sending : Sending t c)
    (receiving : Receiving t c)
    (greeting : (t.readers c).greets = true → t.agent.lockOf c = none)
    (elsewhere : Elsewhere s t c) : Sound t := by
  refine ⟨agent, ?_, ?_, ?_⟩
  · intro c'
    by_cases same : c' = c
    · exact same ▸ sending
    · apply (sound.sending c').same
      · rw [elsewhere.socks c' same]
      · exact elsewhere.put c' same
      · exact writing_same (by rw [elsewhere.readers c' same]) (elsewhere.acking c' same)
      · exact elsewhere.sent c' same
  · intro c'
    by_cases same : c' = c
    · exact same ▸ receiving
    · apply (sound.receiving c').same
      · rw [elsewhere.socks c' same]
      · rw [elsewhere.socks c' same]
      · exact elsewhere.readers c' same
      · exact elsewhere.received c' same
  · intro c' greets
    by_cases same : c' = c
    · subst same
      exact greeting greets
    · rw [elsewhere.readers c' same] at greets
      rw [elsewhere.locks c' same]
      exact sound.greeting c' greets

theorem arrive_sound {bs : Bytes} (sound : Sound s) :
    Sound (s.setSock c ((s.socks c).arrive bs)) := by
  have own : (s.setSock c ((s.socks c).arrive bs)).socks c = (s.socks c).arrive bs :=
    Function.update_self ..
  have before := sound.receiving c
  refine sound.moved (c := c) sound.agent ?_ ?_ ?_ ?_
  · refine (sound.sending c).same ?_ rfl rfl rfl
    rw [own]
    rfl
  · refine ⟨?_, before.placed, before.fit⟩
    rw [own]
    show (s.socks c).arrived ++ bs = _ ++ ((s.socks c).rx ++ bs)
    rw [before.rx, List.append_assoc]
    rfl
  · exact sound.greeting c
  · exact ⟨fun c' apart => Function.update_of_ne apart .., fun _ _ => rfl, fun _ _ => rfl,
      fun _ _ => rfl, fun _ _ => rfl, fun _ _ => rfl, fun _ _ => rfl⟩

/-- A thread that leaves its loop changes nothing of the agent that a frame is about. -/
theorem Reads.kept {reader : SpoaReader} (reads : Reads s t c reader) :
    t.agent.pool.running = s.agent.pool.running ∧
      (∀ c, t.agent.lockOf c = s.agent.lockOf c) ∧ t.agent.received = s.agent.received ∧
      t.agent.sent = s.agent.sent := by
  rcases reads.agent with same | left
  · rw [same]
    exact ⟨rfl, fun _ => rfl, rfl, rfl⟩
  · have locks := Spoa.leave_lockOf left
    obtain ⟨k, _, _, same⟩ := Spoa.leave_spec left
    exact ⟨by rw [same]; rfl, locks, by rw [same]; rfl, by rw [same]; rfl⟩

theorem read_sound (nw : Nat) {out : IoOut} (sound : Sound s) (taken : s.read c out = some t) :
    Sound t := by
  obtain ⟨quiet, socket, reader, reads, tx, arrived, bytes⟩ :=
    read_spec (sound.receiving c).placed taken
  have agent : t.agent.Sound := by
    rcases reads.agent with same | left
    · rw [same]
      exact sound.agent
    · exact sound.agent.step nw (a := .leave c) (by simp) left
  obtain ⟨running, locks, received, sent⟩ := reads.kept
  have acking := Spoa.acking_same running locks
  have own : t.socks c = socket := by
    rw [reads.socks]
    exact Function.update_self ..
  have place : t.readers c = reader := by
    rw [reads.readers, Function.update_self]
  have before := sound.receiving c
  refine sound.moved (c := c) agent ?_ ?_ ?_ ?_
  · apply (sound.sending c).same
    · rw [own, tx]
    · rw [reads.put]
      rfl
    · exact writing_same (by rw [place, reads.greets, quiet]) (acking c)
    · exact sentOn_same sent c
  · refine ⟨?_, place ▸ reads.placed, ?_⟩
    · rw [own, arrived, before.rx, receivedOn_same received c, place, List.append_assoc, bytes,
        List.append_assoc]
      rfl
    · rw [receivedOn_same received c]
      exact before.fit
  · intro greets
    rw [place, reads.greets] at greets
    cases greets
  · refine ⟨?_, ?_, ?_, fun c' _ => acking c', fun c' _ => locks c',
      fun c' _ => sentOn_same sent c', fun c' _ => receivedOn_same received c'⟩
    · intro c' apart
      rw [reads.socks]
      exact Function.update_of_ne apart ..
    · intro c' apart
      rw [reads.readers]
      exact Function.update_of_ne apart ..
    · intro c' _
      rw [reads.put]
      rfl

/-- The thread has the lock for its HELLO now. -/
theorem hello_sound {pl : Bytes} (sound : Sound s) (place : s.readers c = .whole pl)
    (agent : t.agent = s.agent) (socks : t.socks = s.socks) (put : t.put = s.put)
    (free : s.agent.lockOf c = none)
    (readers : t.readers = Function.update s.readers c (.greeting pl))
    (hello : (Spop.parse pl).map Prod.fst = some Spop.ftHaproxyHello) : Sound t := by
  have own : t.readers c = .greeting pl := by
    rw [readers, Function.update_self]
  have before := sound.receiving c
  have small : pl.length ≤ Spoa.maxFrame := by
    have placed := before.placed
    rwa [place] at placed
  refine sound.moved (c := c) (agent ▸ sound.agent) ?_ ?_ ?_ ?_
  · apply (sound.sending c).begin helloPayload
    · rw [socks]
    · rw [put]
    · rw [writing, place, Spoa.acking, free]
      rfl
    · rw [writing, own]
      rfl
    · rw [agent]
  · refine ⟨?_, own ▸ ⟨small, hello⟩, agent ▸ before.fit⟩
    rw [socks, agent, own, before.rx, place]
    rfl
  · intro _
    rw [agent]
    exact free
  · refine ⟨fun c' _ => by rw [socks], ?_, fun c' _ => by rw [put], fun c' _ => by rw [agent],
      fun c' _ => by rw [agent], fun c' _ => by rw [agent], fun c' _ => by rw [agent]⟩
    intro c' apart
    rw [readers]
    exact Function.update_of_ne apart ..

theorem dispatch_sound (nw : Nat) (sound : Sound s) (taken : s.dispatch c = some t) :
    Sound t := by
  obtain ⟨pl, place, socks, put, step⟩ := dispatch_spec taken
  rcases step with ⟨agent, free, readers, hello⟩ | ⟨read, readers, other⟩
  · exact hello_sound sound place agent socks put free readers hello
  · obtain ⟨locks, running, _, received, sent⟩ := Spoa.readFrame_spec sound.agent.wired read
    rw [if_neg other] at sent
    have acking := Spoa.acking_same running locks
    have receiveds := Spoa.receivedOn_cons received
    have own : t.readers c = .header [] := by
      rw [readers, Function.update_self]
    have small : pl.length ≤ Spoa.maxFrame := by
      have placed := (sound.receiving c).placed
      rwa [place] at placed
    refine sound.moved (c := c)
      (sound.agent.step nw (a := .frame c pl) (by simp) read) ?_ ?_ ?_ ?_
    · apply (sound.sending c).same
      · rw [socks]
      · rw [put]
      · exact writing_same (by rw [own, place]; rfl) (acking c)
      · exact sentOn_same sent c
    · refine (sound.receiving c).through ?_ ?_ ?_ small own ?_
      · rw [socks]
      · rw [socks]
      · rw [place]
        rfl
      · rw [receiveds, if_pos rfl]
    · intro greets
      rw [own] at greets
      cases greets
    · refine ⟨fun c' _ => by rw [socks], ?_, fun c' _ => by rw [put], fun c' _ => acking c',
        fun c' _ => locks c', fun c' _ => sentOn_same sent c', ?_⟩
      · intro c' apart
        rw [readers]
        exact Function.update_of_ne apart ..
      · intro c' apart
        rw [receiveds, if_neg apart]

/-- A piece in the middle of the frame that the owner of the lock is writing. -/
theorem piece_sound {m : Nat} {socket : Socket} (sound : Sound s)
    (writing : s.writing c = some payload)
    (tx : socket.tx = (s.socks c).tx ++ ((Spop.frame payload).drop (s.put c)).take m)
    (arrived : socket.arrived = (s.socks c).arrived) (rx : socket.rx = (s.socks c).rx)
    (more : s.put c + m < (Spop.frame payload).length) :
    Sound ((s.setSock c socket).setPut c (s.put c + m)) := by
  have own : ((s.setSock c socket).setPut c (s.put c + m)).socks c = socket :=
    Function.update_self ..
  refine sound.moved (c := c) sound.agent ?_ ?_ ?_ ?_
  · refine (sound.sending c).piece writing rfl ?_ (Function.update_self ..) more rfl
    rw [own, tx]
  · exact (sound.receiving c).same (by rw [own, arrived]) (by rw [own, rx]) rfl rfl
  · exact sound.greeting c
  · exact ⟨fun c' apart => Function.update_of_ne apart .., fun _ _ => rfl,
      fun c' apart => Function.update_of_ne apart .., fun _ _ => rfl, fun _ _ => rfl,
      fun _ _ => rfl, fun _ _ => rfl⟩

theorem greet_sound (nw : Nat) {m : Nat} (sound : Sound s) (taken : s.greet c m = some t) :
    Sound t := by
  unfold greet at taken
  split at taken
  · rename_i pl place
    obtain ⟨socket, tx, arrived, rx, ends⟩ := writeFrame_spec taken
    have writing_ : s.writing c = some helloPayload := by
      rw [writing, place]
      rfl
    have placed := (sound.receiving c).placed
    rw [place] at placed
    rcases ends with ⟨more, rfl⟩ | ⟨last, through⟩
    · exact piece_sound sound writing_ tx arrived rx more
    · obtain ⟨agent, read, rfl⟩ := Option.map_eq_some_iff.mp through
      obtain ⟨locks, running, _, received, sent⟩ := Spoa.readFrame_spec sound.agent.wired read
      rw [if_pos placed.2] at sent
      have acking := Spoa.acking_same running locks
      have sents := Spoa.sentOn_cons sent
      have receiveds := Spoa.receivedOn_cons received
      have free : agent.lockOf c = none :=
        (locks c).trans (sound.greeting c (by rw [place]; rfl))
      have own : Function.update s.socks c socket c = socket := Function.update_self ..
      refine sound.moved (c := c) (sound.agent.step nw (a := .frame c pl) (by simp) read)
        ?_ ?_ ?_ ?_
      · refine (sound.sending c).finish writing_ ?_ ((congrArg Socket.tx own).trans tx)
          (Function.update_self ..) last (Or.inl rfl) ((sents c).trans (if_pos rfl))
        show (if (Function.update s.readers c _ c).greets then _ else agent.acking c) = none
        rw [Function.update_self, Spoa.acking, free]
        rfl
      · exact (sound.receiving c).through ((congrArg Socket.arrived own).trans arrived)
          ((congrArg Socket.rx own).trans rx) (by rw [place]; rfl) placed.1
          (Function.update_self ..) ((receiveds c).trans (if_pos rfl))
      · exact fun _ => free
      · exact ⟨fun c' apart => Function.update_of_ne apart ..,
          fun c' apart => Function.update_of_ne apart ..,
          fun c' apart => Function.update_of_ne apart .., fun c' _ => acking c',
          fun c' _ => locks c', fun c' apart => (sents c').trans (if_neg apart),
          fun c' apart => (receiveds c').trans (if_neg apart)⟩
  · cases taken

theorem lock_sound (nw : Nat) {w : Nat} (sound : Sound s) (taken : s.lock w = some t) :
    Sound t := by
  obtain ⟨j, held, rest⟩ := Option.bind_eq_some_iff.mp taken
  have free_ : (s.readers j.c).greets = false ∧
      (s.agent.lock w).map (fun agent => { s with agent := agent }) = some t := by
    cases place : s.readers j.c with
    | greeting pl =>
      rw [place] at rest
      cases rest
    | header _ | payload _ _ | whole _ | left _ =>
      rw [place] at rest
      exact ⟨rfl, rest⟩
  obtain ⟨quiet, ends⟩ := free_
  obtain ⟨agent, locked, rfl⟩ := Option.map_eq_some_iff.mp ends
  obtain ⟨j', held', free, _, received, sent, locks, acking⟩ := Spoa.lock_acking locked
  obtain rfl : j = j' := by rwa [held, Option.some.injEq] at held'
  refine sound.moved (c := j.c) (sound.agent.step nw (a := .lock w) (by simp) locked)
    ?_ ?_ ?_ ?_
  · refine (sound.sending j.c).begin (Spop.ackPayload j.sid j.fid) rfl rfl ?_ ?_ ?_
    · rw [writing, quiet, Spoa.acking, free]
      rfl
    · show (if (s.readers j.c).greets then _ else agent.acking j.c) = _
      rw [quiet, acking, if_pos rfl]
      rfl
    · exact sentOn_same sent j.c
  · exact (sound.receiving j.c).same rfl rfl rfl (receivedOn_same received j.c)
  · intro greets
    have here : (s.readers j.c).greets = true := greets
    rw [quiet] at here
    cases here
  · exact ⟨fun _ _ => rfl, fun _ _ => rfl, fun _ _ => rfl,
      fun c' apart => (acking c').trans (if_neg apart),
      fun c' apart => (locks c').trans (if_neg apart), fun c' _ => sentOn_same sent c',
      fun c' _ => receivedOn_same received c'⟩

/-- The last piece of an ACK, behind which its worker has no job. -/
theorem ack_sound (nw : Nat) {w m : Nat} {agent : Spoa} {socket : Socket} (sound : Sound s)
    {j : SpoaJob} (held : s.agent.pool.held w = some j) (quiet : (s.readers j.c).greets = false)
    (writing : s.writing j.c = some (Spop.ackPayload j.sid j.fid))
    (tx : socket.tx = (s.socks j.c).tx ++
      ((Spop.frame (Spop.ackPayload j.sid j.fid)).drop (s.put j.c)).take m)
    (arrived : socket.arrived = (s.socks j.c).arrived) (rx : socket.rx = (s.socks j.c).rx)
    (last : (Spop.frame (Spop.ackPayload j.sid j.fid)).length ≤ s.put j.c + m)
    (write : s.agent.write w = some agent) :
    Sound { (s.setSock j.c socket).setPut j.c 0 with agent := agent } := by
  have acking := Spoa.write_acking sound.agent.wired sound.agent.open_ sound.agent.locked
    write held
  obtain ⟨j', held', _, locks, _, _, received, sent⟩ :=
    Spoa.write_spec sound.agent.wired sound.agent.open_ write
  obtain rfl : j = j' := by rwa [held, Option.some.injEq] at held'
  have sents := Spoa.sentOn_cons sent
  have own : Function.update s.socks j.c socket j.c = socket := Function.update_self ..
  refine sound.moved (c := j.c) (sound.agent.step nw (a := .write w) (by simp) write)
    ?_ ?_ ?_ ?_
  · refine (sound.sending j.c).finish writing ?_ ((congrArg Socket.tx own).trans tx)
      (Function.update_self ..) last (Or.inr ⟨j.sid, j.fid, rfl⟩)
      ((sents j.c).trans (if_pos rfl))
    show (if (s.readers j.c).greets then _ else agent.acking j.c) = none
    rw [quiet]
    exact (acking j.c).trans (if_pos rfl)
  · exact (sound.receiving j.c).same ((congrArg Socket.arrived own).trans arrived)
      ((congrArg Socket.rx own).trans rx) rfl (receivedOn_same received j.c)
  · intro greets
    have here : (s.readers j.c).greets = true := greets
    rw [quiet] at here
    cases here
  · exact ⟨fun c' apart => Function.update_of_ne apart .., fun _ _ => rfl,
      fun c' apart => Function.update_of_ne apart ..,
      fun c' apart => (acking c').trans (if_neg apart), fun c' _ => locks c',
      fun c' apart => (sents c').trans (if_neg apart), fun c' _ => receivedOn_same received c'⟩

theorem write_sound (nw : Nat) {w m : Nat} (sound : Sound s) (taken : s.write w m = some t) :
    Sound t := by
  obtain ⟨j, held, rest⟩ := Option.bind_eq_some_iff.mp taken
  obtain ⟨k, live, rest⟩ := Option.bind_eq_some_iff.mp rest
  obtain ⟨c, leads, rest⟩ := Option.bind_eq_some_iff.mp rest
  have open_ := sound.agent.open_ j.c k live
  rw [sound.agent.wired.open_ j.c k live open_, Option.some.injEq] at leads
  subst leads
  split at rest
  · rename_i own
    have owner : s.agent.lockOf j.c = some w := (Spoa.lockOf_eq live).trans own
    have quiet : (s.readers j.c).greets = false := by
      by_contra greets
      have free := sound.greeting j.c (by simpa using greets)
      rw [owner] at free
      cases free
    have writing_ : s.writing j.c = some (Spop.ackPayload j.sid j.fid) := by
      rw [writing, quiet, Spoa.acking, owner, Option.bind_some, held]
      rfl
    obtain ⟨socket, tx, arrived, rx, ends⟩ := writeFrame_spec rest
    rcases ends with ⟨more, rfl⟩ | ⟨last, written⟩
    · exact piece_sound sound writing_ tx arrived rx more
    · obtain ⟨agent, write, rfl⟩ := Option.map_eq_some_iff.mp written
      exact ack_sound nw sound held quiet writing_ tx arrived rx last write
  · cases rest

theorem step_sound {nw : Nat} {a : SpoaWireAct} (sound : Sound s)
    (taken : s.step nw a = some t) : Sound t := by
  cases a with
  | arrive c bs =>
    cases taken
    exact arrive_sound sound
  | accept fd =>
    obtain ⟨agent, accepted, rfl⟩ := Option.map_eq_some_iff.mp taken
    have locks := Spoa.accept_lockOf sound.agent.wired accepted
    obtain ⟨pool, _, received, sent⟩ := Spoa.accept_eq accepted
    refine sound.aside ?_ rfl rfl rfl (Spoa.acking_same (congrArg _ pool) locks) ?_ received sent
    · exact sound.agent.step nw (a := .accept fd) (by simp) accepted
    · exact fun c free => (locks c).trans free
  | read c out => exact read_sound nw sound taken
  | dispatch c => exact dispatch_sound nw sound taken
  | greet c m => exact greet_sound nw sound taken
  | take w =>
    rw [step] at taken
    split at taken
    · rename_i worker
      obtain ⟨agent, took, rfl⟩ := Option.map_eq_some_iff.mp taken
      have acking := Spoa.take_acking sound.agent.locked took
      have act : s.agent.step nw (.take w) = some agent := (if_pos worker).trans took
      have after := sound.agent.step nw (by simp) act
      obtain ⟨_, pool, _, rfl⟩ := Spoa.take_spec took
      exact sound.aside after rfl rfl rfl acking (fun _ free => free) rfl rfl
    · cases taken
  | lock w => exact lock_sound nw sound taken
  | write w m => exact write_sound nw sound taken
  | unlock w =>
    obtain ⟨agent, unlocked, rfl⟩ := Option.map_eq_some_iff.mp taken
    have acking := Spoa.unlock_acking sound.agent.locked unlocked
    have after := sound.agent.step nw (a := .unlock w) (by simp) unlocked
    obtain ⟨c, k, _, _, rfl⟩ := Spoa.unlock_spec unlocked
    exact sound.aside after rfl rfl rfl (fun c => (acking c).1) (fun c => (acking c).2) rfl rfl

/-- A NOTIFY finds a slot of the ring that holds no other job. -/
def RoomFor (s : SpoaWire) : SpoaWireAct → Prop
  | .dispatch c => ∀ pl, s.readers c = .whole pl → s.agent.RoomFor (.frame c pl)
  | _ => True

/-- A frame that is no NOTIFY needs no room. -/
theorem roomFor_hello {a : Spoa} {pl : Bytes}
    (hello : (Spop.parse pl).map Prod.fst = some Spop.ftHaproxyHello) :
    a.RoomFor (.frame c pl) := by
  intro j notified
  obtain ⟨⟨type, ids⟩, parsed, rfl⟩ := Option.map_eq_some_iff.mp hello
  rw [SpoaAct.notified, Spoa.idsOf_parse parsed, if_neg (by decide)] at notified
  cases notified

/-- Each step is one of the agent's own, or none of them. -/
theorem step_agent {nw : Nat} {a : SpoaWireAct} (sound : Sound s) (taken : s.step nw a = some t) :
    t.agent = s.agent ∨ ∃ b, s.agent.step nw b = some t.agent ∧ (∀ c, b ≠ .close c) ∧
      (s.RoomFor a → s.agent.RoomFor b) := by
  have quiet : ∀ {b : SpoaAct}, b.notified = none → s.agent.RoomFor b := by
    intro b none_ j notified
    rw [none_] at notified
    cases notified
  cases a with
  | arrive c bs =>
    cases taken
    exact Or.inl rfl
  | accept fd =>
    obtain ⟨agent, accepted, rfl⟩ := Option.map_eq_some_iff.mp taken
    exact Or.inr ⟨.accept fd, accepted, by simp, fun _ => quiet rfl⟩
  | read c out =>
    obtain ⟨_, socket, reader, reads, _⟩ := read_spec (sound.receiving c).placed taken
    rcases reads.agent with same | left
    · exact Or.inl same
    · exact Or.inr ⟨.leave c, left, by simp, fun _ => quiet rfl⟩
  | dispatch c =>
    obtain ⟨pl, place, _, _, ⟨same, _⟩ | ⟨read, _⟩⟩ := dispatch_spec taken
    · exact Or.inl same
    · exact Or.inr ⟨.frame c pl, read, by simp, fun room => room pl place⟩
  | greet c m =>
    change s.greet c m = some t at taken
    unfold greet at taken
    split at taken
    · rename_i pl place
      obtain ⟨socket, _, _, _, ⟨_, rfl⟩ | ⟨_, through⟩⟩ := writeFrame_spec taken
      · exact Or.inl rfl
      · obtain ⟨agent, read, rfl⟩ := Option.map_eq_some_iff.mp through
        have placed := (sound.receiving c).placed
        rw [place] at placed
        exact Or.inr ⟨.frame c pl, read, by simp, fun _ => roomFor_hello placed.2⟩
    · cases taken
  | take w =>
    rw [step] at taken
    split at taken
    · rename_i worker
      obtain ⟨agent, took, rfl⟩ := Option.map_eq_some_iff.mp taken
      exact Or.inr ⟨.take w, (if_pos worker).trans took, by simp, fun _ => quiet rfl⟩
    · cases taken
  | lock w =>
    obtain ⟨j, _, rest⟩ := Option.bind_eq_some_iff.mp taken
    split at rest
    · cases rest
    · obtain ⟨agent, locked, rfl⟩ := Option.map_eq_some_iff.mp rest
      exact Or.inr ⟨.lock w, locked, by simp, fun _ => quiet rfl⟩
  | write w m =>
    obtain ⟨j, _, rest⟩ := Option.bind_eq_some_iff.mp taken
    obtain ⟨k, _, rest⟩ := Option.bind_eq_some_iff.mp rest
    obtain ⟨c, _, rest⟩ := Option.bind_eq_some_iff.mp rest
    split at rest
    · obtain ⟨socket, _, _, _, ⟨_, rfl⟩ | ⟨_, written⟩⟩ := writeFrame_spec rest
      · exact Or.inl rfl
      · obtain ⟨agent, write, rfl⟩ := Option.map_eq_some_iff.mp written
        exact Or.inr ⟨.write w, write, by simp, fun _ => quiet rfl⟩
    · cases rest
  | unlock w =>
    obtain ⟨agent, unlocked, rfl⟩ := Option.map_eq_some_iff.mp taken
    exact Or.inr ⟨.unlock w, unlocked, by simp, fun _ => quiet rfl⟩

/-- With room for each NOTIFY the agent goes on accounting for all of them. -/
theorem step_accounted {nw : Nat} {a : SpoaWireAct} (sound : Sound s)
    (accounted : s.agent.Accounted) (room : s.RoomFor a) (taken : s.step nw a = some t) :
    t.agent.Accounted := by
  rcases step_agent sound taken with same | ⟨b, moved, stays, fits⟩
  · rw [same]
    exact accounted
  · exact Spoa.step_accounted sound.agent.wired sound.agent.open_ accounted stays (fits room) moved

theorem Built.small (built : Built payload) : payload.length ≤ spop.limit := by
  show payload.length ≤ 2 ^ 32 - 1
  rcases built with rfl | ⟨sid, fid, rfl⟩
  · decide +kernel
  · have first := (Spop.encVarint_varint sid).2.2
    have second := (Spop.encVarint_varint fid).2.2
    rw [Spop.ackPayload_length]
    omega

instance (s : SpoaWire) : ∀ a, Decidable (s.RoomFor a)
  | .dispatch c =>
    match place : s.readers c with
    | .whole pl => decidable_of_iff (s.agent.RoomFor (.frame c pl)) (by simp [RoomFor, place])
    | .header _ | .payload _ _ | .greeting _ | .left _ => isTrue (by simp [RoomFor, place])
  | .arrive _ _ | .accept _ | .read _ _ | .greet _ _ | .take _ | .lock _ | .write _ _
  | .unlock _ => isTrue trivial

end TransparentOffload.SpoaWire
