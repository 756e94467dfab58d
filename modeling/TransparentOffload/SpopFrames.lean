import TransparentOffload.SpopCodec

set_option autoImplicit false

/- How `conn_thread` takes a frame apart. Its buffer is reused, so what stands behind a
frame is what earlier frames, or `malloc`, have left there. -/
namespace TransparentOffload.Spop

/-- `ntohl` of the four bytes in `hdr`. -/
def ntohl : Bytes → Nat
  | [a, b, c, d] => a.toNat <<< 24 + b.toNat <<< 16 + c.toNat <<< 8 + d.toNat
  | _ => 0

/-- `pl` after `readn(c->fd, pl, flen)`. -/
def received (pl : Nat → UInt8) (payload : Bytes) : Nat → UInt8 :=
  fun i => payload.getD i (pl i)

/-- What `conn_thread` has in its variables before it looks at the type, with the
places of `pl` it has read and the amounts it has shifted by. -/
structure Header where
  type : UInt8
  sid : UInt64
  fid : UInt64
  off : Nat
  reads : List Nat
  shifts : List Nat
  deriving DecidableEq, Repr

/-- The type, a jump over the flags, and the two ids, for at most so many rounds of
each loop. -/
def header (pl : Nat → UInt8) (rounds : Nat) : Option Header :=
  (decVarintAt pl rounds 5).bind fun sid =>
    (decVarintAt pl rounds sid.off).map fun fid =>
      { type := pl 0, sid := sid.value, fid := fid.value, off := fid.off
        reads := 0 :: (sid.reads ++ fid.reads), shifts := sid.shifts ++ fid.shifts }

/-- What a frame makes `conn_thread` do before it reads the next one. -/
inductive FrameAct
  | hello
  | job (sid fid : UInt64)
  | discon
  | next
  deriving DecidableEq, Repr

def Header.act (h : Header) : FrameAct :=
  if h.type = ftHaproxyHello then .hello
  else if h.type = ftNotify then .job h.sid h.fid
  else if h.type = ftHaproxyDiscon then .discon
  else .next

/-- The payload has the fields that `conn_thread` takes from it. -/
def HasFields (payload : Bytes) : Prop :=
  ∃ type flags sid fid rest, payload = type :: (flags ++ (sid ++ (fid ++ rest))) ∧
    flags.length = 4 ∧ Varint sid ∧ Varint fid

/-- It has them, and neither id is longer than a 64-bit value needs. -/
def WellFormed (payload : Bytes) : Prop :=
  ∃ type flags sid fid rest, payload = type :: (flags ++ (sid ++ (fid ++ rest))) ∧
    flags.length = 4 ∧ Varint sid ∧ Varint fid ∧ sid.length ≤ 10 ∧ fid.length ≤ 10

/-- The parse comes to its end, having read no byte but the frame's and shifted by less
than 64, and what it acts on is in the frame. -/
def ParsedInside (pl : Nat → UInt8) (payload : Bytes) : Prop :=
  ∃ rounds h, header (received pl payload) rounds = some h ∧
    (∀ i ∈ h.reads, i < payload.length) ∧ (∀ r ∈ h.shifts, r < 64) ∧
    (h.act ≠ .next → HasFields payload)

theorem holds_received (pl : Nat → UInt8) (front s : Bytes) :
    Holds (received pl (front ++ s)) front.length s := by
  induction s generalizing front with
  | nil => trivial
  | cons x s ih =>
    refine ⟨by simp [received], ?_⟩
    have shifted := ih (front ++ [x])
    rwa [List.append_assoc, List.length_append, List.length_singleton] at shifted

/-- Bytes in memory below the frame's end are bytes of the frame. -/
theorem eq_of_holds_received {pl : Nat → UInt8} {payload s : Bytes} {off : Nat}
    (held : Holds (received pl payload) off s) (inside : off + s.length ≤ payload.length) :
    payload.drop off = s ++ payload.drop (off + s.length) := by
  induction s generalizing off with
  | nil => simp
  | cons x s ih =>
    simp only [List.length_cons] at inside
    have here : off < payload.length := by omega
    have byte : payload[off] = x := by
      have first := held.1
      simpa [received, here] using first
    have rest := ih held.2 (by omega)
    have places : off + 1 + s.length = off + (s.length + 1) := by omega
    rw [List.drop_eq_getElem_cons here, byte, rest, places, List.length_cons, List.cons_append]

/-- The parse of a frame that has the fields. -/
theorem header_received (pl : Nat → UInt8) (type : UInt8) {flags sid fid : Bytes} (rest : Bytes)
    (four : flags.length = 4) (sidCode : Varint sid) (fidCode : Varint fid) (rounds : Nat)
    (enough : sid.length ≤ rounds + 1) (enough' : fid.length ≤ rounds + 1) :
    ∃ v w, header (received pl (type :: (flags ++ (sid ++ (fid ++ rest))))) rounds =
        some ⟨type, v, w, 5 + sid.length + fid.length,
          0 :: (List.range' 5 sid.length ++ List.range' (5 + sid.length) fid.length),
          List.range' 4 (sid.length - 1) 7 ++ List.range' 4 (fid.length - 1) 7⟩ ∧
      (sid.length ≤ 10 → v = UInt64.ofNat (varintValue sid)) ∧
      (fid.length ≤ 10 → w = UInt64.ofNat (varintValue fid)) := by
  have front : (type :: flags).length = 5 := by simp [four]
  have held : Holds (received pl ((type :: flags) ++ (sid ++ (fid ++ rest)))) 5
      (sid ++ (fid ++ rest)) := front ▸ holds_received ..
  obtain ⟨sidHeld, later⟩ := holds_append.mp held
  obtain ⟨fidHeld, _⟩ := holds_append.mp later
  obtain ⟨v, first, value⟩ := sidCode.decVarintAt_eq rounds sidHeld enough
  obtain ⟨w, second, value'⟩ := fidCode.decVarintAt_eq rounds fidHeld enough'
  refine ⟨v, w, ?_, value, value'⟩
  rw [header, ← List.cons_append, first, Option.bind_some, second, Option.map_some]
  rfl

/-- What any parse that returned has read: two varints in memory. -/
theorem header_some {pl : Nat → UInt8} {rounds : Nat} {h : Header}
    (returned : header pl rounds = some h) :
    ∃ sid fid, Varint sid ∧ Varint fid ∧ Holds pl 5 (sid ++ fid) ∧
      h.reads = 0 :: (List.range' 5 sid.length ++ List.range' (5 + sid.length) fid.length) ∧
      h.shifts = List.range' 4 (sid.length - 1) 7 ++ List.range' 4 (fid.length - 1) 7 := by
  obtain ⟨first, run, tail⟩ := Option.bind_eq_some_iff.mp returned
  obtain ⟨second, run', fields⟩ := Option.map_eq_some_iff.mp tail
  obtain ⟨sid, sidCode, sidHeld, enough⟩ := decVarintAt_varint run
  obtain ⟨v, shape, _⟩ := sidCode.decVarintAt_eq rounds sidHeld enough
  obtain rfl : first = _ := Option.some.inj (run.symm.trans shape)
  obtain ⟨fid, fidCode, fidHeld, enough'⟩ := decVarintAt_varint run'
  obtain ⟨w, shape', _⟩ := fidCode.decVarintAt_eq rounds fidHeld enough'
  obtain rfl : second = _ := Option.some.inj (run'.symm.trans shape')
  refine ⟨sid, fid, sidCode, fidCode, holds_append.mpr ⟨sidHeld, fidHeld⟩, ?_, ?_⟩
  · rw [← fields]
  · rw [← fields]

theorem shifts_lt_iff {n : Nat} : (∀ r ∈ List.range' 4 (n - 1) 7, r < 64) ↔ n ≤ 10 := by
  simp only [List.mem_range']
  constructor
  · intro small
    by_contra long
    have last := small (4 + 7 * 9) ⟨9, by omega, rfl⟩
    omega
  · rintro short r ⟨i, within, rfl⟩
    omega

/-- Whatever a buffer still has in it, the parse of a frame stays inside that frame just
when the frame has its fields and neither id is too long. -/
theorem parsedInside_iff_wellFormed (pl : Nat → UInt8) (payload : Bytes)
    (nonempty : 0 < payload.length) : ParsedInside pl payload ↔ WellFormed payload := by
  constructor
  · rintro ⟨rounds, h, returned, inside, small, _⟩
    obtain ⟨sid, fid, sidCode, fidCode, held, reads, shifts⟩ := header_some returned
    rw [reads] at inside
    rw [shifts] at small
    have sidShort := shifts_lt_iff.mp fun r mem => small r (List.mem_append_left _ mem)
    have fidShort := shifts_lt_iff.mp fun r mem => small r (List.mem_append_right _ mem)
    have positive := List.length_pos_iff.mpr fidCode.ne_nil
    have lastRead : 5 + sid.length + (fid.length - 1) < payload.length := by
      apply inside
      simp only [List.mem_cons, List.mem_append, List.mem_range']
      exact Or.inr (Or.inr ⟨fid.length - 1, by omega, by omega⟩)
    have ids : payload.drop 5 = (sid ++ fid) ++ payload.drop (5 + (sid ++ fid).length) := by
      apply eq_of_holds_received held
      rw [List.length_append]
      omega
    obtain ⟨type, behind, rfl⟩ := List.exists_cons_of_length_pos nonempty
    have places : 5 + (sid ++ fid).length = 4 + (sid ++ fid).length + 1 := by omega
    have dropped : behind.drop 4 = sid ++ (fid ++ behind.drop (4 + (sid ++ fid).length)) := by
      rwa [places, List.drop_succ_cons, List.drop_succ_cons, List.append_assoc] at ids
    have parts : type :: behind =
        type :: (behind.take 4 ++ (sid ++ (fid ++ behind.drop (4 + (sid ++ fid).length)))) := by
      rw [← dropped, List.take_append_drop]
    refine ⟨type, behind.take 4, sid, fid, _, parts, ?_, sidCode, fidCode,
      sidShort, fidShort⟩
    simp only [List.length_cons] at lastRead
    rw [List.length_take]
    omega
  · rintro ⟨type, flags, sid, fid, rest, rfl, four, sidCode, fidCode, sidShort, fidShort⟩
    obtain ⟨v, w, run, _⟩ := header_received pl type rest four sidCode fidCode 9 sidShort fidShort
    refine ⟨9, _, run, ?_, ?_, fun _ => ⟨_, _, _, _, _, rfl, four, sidCode, fidCode⟩⟩
    · simp only [List.mem_cons, List.mem_append, List.mem_range', List.length_cons,
        List.length_append]
      rintro i (rfl | ⟨k, within, rfl⟩ | ⟨k, within, rfl⟩)
      · omega
      · omega
      · omega
    · intro r mem
      rcases List.mem_append.mp mem with mem | mem
      · exact shifts_lt_iff.mpr sidShort r mem
      · exact shifts_lt_iff.mpr fidShort r mem

theorem parsedInside_iff_wellFormed_notify :
    ParsedInside (fun _ => 255) [3, 0, 0, 0, 1, 7, 9] ↔ WellFormed [3, 0, 0, 0, 1, 7, 9] :=
  parsedInside_iff_wellFormed (fun _ => 255) [3, 0, 0, 0, 1, 7, 9] (by decide)

/-- A NOTIFY cut to its first byte, behind a whole one: the ids of the frame before are
read again and a job is queued for them. -/
theorem cut_notify_repeats_job :
    ∃ h, header (received (received (fun _ => 0) [3, 0, 0, 0, 1, 7, 9]) [3]) 0 = some h ∧
      5 ∈ h.reads ∧ h.act = .job 7 9 ∧ ¬ HasFields [3] ∧
      ¬ ParsedInside (received (fun _ => 0) [3, 0, 0, 0, 1, 7, 9]) [3] := by
  refine ⟨⟨3, 7, 9, 7, [0, 5, 6], []⟩, rfl, by decide, by decide, ?_, ?_⟩
  · rintro ⟨type, flags, sid, fid, rest, parts, four, _, _⟩
    have length := congrArg List.length parts
    simp only [List.length_cons, List.length_append, List.length_nil] at length
    omega
  · rintro ⟨rounds, h, returned, inside, _⟩
    obtain ⟨sid, fid, sidCode, _, _, reads, _⟩ := header_some returned
    have positive := List.length_pos_iff.mpr sidCode.ne_nil
    have first : 5 ∈ h.reads := by
      rw [reads]
      simp only [List.mem_cons, List.mem_append, List.mem_range']
      exact Or.inr (Or.inl ⟨0, positive, rfl⟩)
    have bound := inside 5 first
    simp at bound

/-- The agent of the connection model takes the well-formed frames. -/
theorem parse_eq_some_iff {payload : Bytes} {type : UInt8} {sid fid : UInt64} :
    parse payload = some (type, sid, fid) ↔
      ∃ flags s t rest, payload = type :: (flags ++ (s ++ (t ++ rest))) ∧ flags.length = 4 ∧
        (Varint s ∧ s.length ≤ 10 ∧ sid = UInt64.ofNat (varintValue s)) ∧
        Varint t ∧ t.length ≤ 10 ∧ fid = UInt64.ofNat (varintValue t) := by
  constructor
  · intro taken
    unfold parse at taken
    split at taken
    · rename_i first a b c d ids
      obtain ⟨⟨v, behind⟩, sidRead, later⟩ := Option.bind_eq_some_iff.mp taken
      obtain ⟨⟨w, rest⟩, fidRead, fields⟩ := Option.map_eq_some_iff.mp later
      obtain ⟨rfl, rfl, rfl⟩ : first = type ∧ v = sid ∧ w = fid := by simpa using fields
      obtain ⟨s, parts, sidCode, sidShort, sidValue⟩ := decVarint_eq_some_iff.mp sidRead
      obtain ⟨t, parts', fidCode, fidShort, fidValue⟩ := decVarint_eq_some_iff.mp fidRead
      refine ⟨[a, b, c, d], s, t, rest, ?_, rfl, ⟨sidCode, sidShort, sidValue⟩, fidCode,
        fidShort, fidValue⟩
      have later_bytes : behind = t ++ rest := parts'
      rw [parts, later_bytes]
      rfl
    · cases taken
  · rintro ⟨flags, s, t, rest, rfl, four, ⟨sidCode, sidShort, rfl⟩, fidCode, fidShort, rfl⟩
    match flags, four with
    | [a, b, c, d], _ =>
      have sidRead := decVarint_eq_some_iff.mpr
        ⟨s, rfl (a := s ++ (t ++ rest)), sidCode, sidShort, rfl⟩
      have fidRead := decVarint_eq_some_iff.mpr ⟨t, rfl (a := t ++ rest), fidCode, fidShort, rfl⟩
      simp only [List.cons_append, List.nil_append, parse]
      rw [sidRead, Option.bind_some, fidRead, Option.map_some]

/-- On those the loops over memory compute what the parse of the list does. -/
theorem header_of_parse {pl : Nat → UInt8} {payload : Bytes} {type : UInt8} {sid fid : UInt64}
    (taken : parse payload = some (type, sid, fid)) :
    ∃ h, header (received pl payload) 9 = some h ∧ h.type = type ∧ h.sid = sid ∧ h.fid = fid := by
  obtain ⟨flags, s, t, rest, rfl, four, ⟨sidCode, sidShort, rfl⟩, fidCode, fidShort, rfl⟩ :=
    parse_eq_some_iff.mp taken
  obtain ⟨v, w, run, sidValue, fidValue⟩ := header_received pl type rest four sidCode
    fidCode 9 sidShort fidShort
  exact ⟨_, run, rfl, sidValue sidShort, fidValue fidShort⟩

theorem parse_isSome_iff {payload : Bytes} : (parse payload).isSome ↔ WellFormed payload := by
  constructor
  · intro taken
    obtain ⟨⟨type, sid, fid⟩, fields⟩ := Option.isSome_iff_exists.mp taken
    obtain ⟨flags, s, t, rest, parts, four, ⟨sidCode, sidShort, _⟩, fidCode, fidShort, _⟩ :=
      parse_eq_some_iff.mp fields
    exact ⟨type, flags, s, t, rest, parts, four, sidCode, fidCode, sidShort, fidShort⟩
  · rintro ⟨type, flags, s, t, rest, parts, four, sidCode, fidCode, sidShort, fidShort⟩
    exact Option.isSome_iff_exists.mpr ⟨_, parse_eq_some_iff.mpr
      ⟨flags, s, t, rest, parts, four, ⟨sidCode, sidShort, rfl⟩, fidCode, fidShort, rfl⟩⟩

instance (payload : Bytes) : Decidable (WellFormed payload) :=
  decidable_of_iff _ parse_isSome_iff

theorem ntohl_htonl {n : Nat} (fits : n < 2 ^ 32) : ntohl (htonl n) = n := by
  have cut (k : Nat) : (UInt8.ofNat k).toNat = k % 256 := UInt8.toNat_ofNat'
  simp only [htonl, ntohl, cut, Nat.shiftRight_eq_div_pow, Nat.shiftLeft_eq]
  omega

theorem ackPayload_length (sid fid : UInt64) :
    (ackPayload sid fid).length = 5 + (encVarint sid).length + (encVarint fid).length := by
  simp [ackPayload, htonl]
  omega

/-- `dec_varint` behind any bytes and before any others undoes `enc_varint`, which in
turn gives back every varint of a 64-bit value; so the agent's own parse of its ACK finds
the ids and the end of the frame. -/
theorem varint_code_and_ack_frames :
    (∀ (v : UInt64) (front : Bytes) (pl : Nat → UInt8), ∃ d,
      decVarintAt (received pl (front ++ encVarint v)) 9 front.length = some d ∧ d.value = v ∧
        d.off = front.length + (encVarint v).length ∧ (encVarint v).length ≤ 10) ∧
    (∀ s, Varint s → varintValue s < 2 ^ 64 → ∀ (front : Bytes) (pl : Nat → UInt8), ∃ d,
      decVarintAt (received pl (front ++ s)) 9 front.length = some d ∧
        d.value.toNat = varintValue s ∧ encVarint d.value = s) ∧
    (∀ (sid fid : UInt64) (pl : Nat → UInt8), ∃ h,
      ntohl ((frame (ackPayload sid fid)).take 4) = (ackPayload sid fid).length ∧
      header (received pl ((frame (ackPayload sid fid)).drop 4)) 9 = some h ∧
        h.type = ftAck ∧ h.sid = sid ∧ h.fid = fid ∧ h.off = (ackPayload sid fid).length ∧
        (ackPayload sid fid).length ≤ 64 ∧ (frame (ackPayload sid fid)).length ≤ 80) := by
  refine ⟨?_, ?_, ?_⟩
  · intro v front pl
    obtain ⟨code, value, short⟩ := encVarint_varint v
    obtain ⟨w, run, decoded⟩ := code.decVarintAt_eq 9 (holds_received pl front _) short
    refine ⟨_, run, ?_, rfl, short⟩
    rw [decoded short, value, UInt64.ofNat_toNat]
  · intro s code fits front pl
    have written := code.encVarint_value fits
    have short : s.length ≤ 10 := by
      rw [← written]
      exact (encVarint_varint _).2.2
    obtain ⟨w, run, decoded⟩ := code.decVarintAt_eq 9 (holds_received pl front _) short
    refine ⟨_, run, ?_, ?_⟩
    · rw [decoded short]
      exact UInt64.toNat_ofNat_of_lt' fits
    · rw [decoded short, written]
  · intro sid fid pl
    obtain ⟨sidCode, sidValue, sidShort⟩ := encVarint_varint sid
    obtain ⟨fidCode, fidValue, fidShort⟩ := encVarint_varint fid
    have length := ackPayload_length sid fid
    have flags : (htonl 1).length = 4 := rfl
    have four : (htonl (ackPayload sid fid).length).length = 4 := rfl
    have whole : (frame (ackPayload sid fid)).length = 4 + (ackPayload sid fid).length := by
      rw [frame, List.length_append, four]
    have head : (frame (ackPayload sid fid)).take 4 = htonl (ackPayload sid fid).length :=
      List.take_left' four
    have payload : (frame (ackPayload sid fid)).drop 4 =
        ftAck :: (htonl 1 ++ (encVarint sid ++ (encVarint fid ++ []))) := by
      rw [List.append_nil]
      exact List.drop_left' four
    obtain ⟨v, w, run, first, second⟩ := header_received pl ftAck [] flags sidCode fidCode 9
      sidShort fidShort
    refine ⟨_, ?_, payload ▸ run, rfl, ?_, ?_, length.symm, by omega, by omega⟩
    · rw [head, ntohl_htonl (by omega)]
    · change v = sid
      rw [first sidShort, sidValue, UInt64.ofNat_toNat]
    · change w = fid
      rw [second fidShort, fidValue, UInt64.ofNat_toNat]

theorem varint_code_and_ack_frames_240 : ∃ d,
    decVarintAt (received (fun _ => 0) ([] ++ [240, 0])) 9 0 = some d ∧
      d.value.toNat = 240 ∧ encVarint d.value = [240, 0] :=
  varint_code_and_ack_frames.2.1 [240, 0] (.long (by decide) (.last (by decide))) (by decide) []
    (fun _ => 0)

end TransparentOffload.Spop
