import TransparentOffload.RemoteSigner

set_option autoImplicit false

/- Which answer a call of `libaccel_remote` copies: its own, as long as no read fails
early and no connection with an answer left on it is read again. -/
namespace TransparentOffload.Remote

variable {hsm : RemoteHsm} {s t : Remote}

/-- The connection and the count of bytes read, while `accel_encrypt` waits for its answer. -/
def waiting (s : Remote) : Option (Nat × Nat) :=
  match s.call, s.sock with
  | some k, some c =>
    match k.stage with
    | .read d => some (c, d)
    | _ => none
  | _, _ => none

/-- Whole requests were sent, and what is still to come is the rest of one answer. -/
def Aligned (s : Remote) (c d : Nat) : Prop :=
  (s.sent c).length % 32 = 0 ∧ s.got c + 256 = 8 * (s.sent c).length + d

instance (s : Remote) (c d : Nat) : Decidable (Aligned s c d) :=
  inferInstanceAs (Decidable (_ ∧ _))

/-- A read finds nothing of an earlier answer in front of its own, and fails only once the
first 32 bytes are there. -/
def Intact (s : Remote) : RemoteAct → Prop
  | .read (some _) => ∀ p ∈ s.waiting, Aligned s p.1 p.2
  | .read none => ∀ p ∈ s.waiting, 32 ≤ p.2
  | _ => True

instance (s : Remote) : ∀ a, Decidable (Intact s a)
  | .read (some _) => inferInstanceAs (Decidable (∀ p ∈ s.waiting, Aligned s p.1 p.2))
  | .read none => inferInstanceAs (Decidable (∀ p ∈ s.waiting, 32 ≤ p.2))
  | .call _ _ _ | .connect _ | .write _ | .copy => isTrue trivial

/-- The call's digest is a whole request, and the bytes it has read are the first ones of
the answer to that request. -/
structure FromOwn (s : Remote) (k : RemoteCall) (c d : Nat) : Prop where
  open_ : s.sock = some c
  enough : 32 ≤ d
  request : (s.sent c).drop k.asked = k.digest
  whole : k.asked % 32 = 0
  place : s.got c = 8 * k.asked + d

/-- What a call copies over the front of its buffer is the front of the answer to its own
digest. A call that returns without the copy leaves the buffer. -/
def OwnReply (hsm : RemoteHsm) (s : Remote) : RemoteAct → Prop
  | .copy => ∀ k d, s.call = some k → k.stage = .copy d → ∃ c, FromOwn s k c d ∧
      k.result = (hsm.sign c (k.asked / 32) k.digest).take 32 ++ k.buf.drop 32
  | _ => True

/-- A call behind its writes: the digest was sent whole, or the second try sent a part
of it on a new connection; `sig` begins with the last bytes read there. -/
structure Reading (hsm : RemoteHsm) (s : Remote) (k : RemoteCall) (c d : Nat) : Prop where
  open_ : s.sock = some c
  read : d ≤ s.got c
  inside : d ≤ 256
  bytes : k.sig.take d = (((hsm.conn c).owed (s.sent c)).drop (s.got c - d)).take d
  digest : (s.sent c).drop k.asked = k.digest ∨ k.asked = 0 ∧ (s.sent c).length < 32

/-- Where an open call stands. -/
def Standing (hsm : RemoteHsm) (s : Remote) (k : RemoteCall) : Prop :=
  match k.stage with
  | .connect _ => s.sock = none
  | .write again d => ∃ c, s.sock = some c ∧ d < 32 ∧ (s.sent c).length = k.asked + d ∧
      (s.sent c).drop k.asked = k.digest.take d ∧ (again = true → k.asked = 0)
  | .read d | .copy d => ∃ c, Reading hsm s k c d

structure Sound (hsm : RemoteHsm) (s : Remote) : Prop where
  fresh : ∀ c, s.made ≤ c → s.sent c = [] ∧ s.got c = 0
  made : ∀ c, s.sock = some c → c < s.made
  got : ∀ c, s.got c ≤ ((hsm.conn c).owed (s.sent c)).length
  sizes : ∀ k, s.call = some k → 32 ≤ k.n ∧ k.n ≤ k.buf.length ∧ k.sig.length = 256
  standing : ∀ k, s.call = some k → Standing hsm s k

theorem length_digest {k : RemoteCall} (long : 32 ≤ k.buf.length) : k.digest.length = 32 := by
  rw [RemoteCall.digest, List.length_take]
  omega

theorem start_sound : Sound hsm start :=
  ⟨fun _ _ => ⟨rfl, rfl⟩, nofun, fun _ => Nat.zero_le _, nofun, nofun⟩

/-- The answers on a connection, by the count of its requests. -/
theorem length_answers (hsm : RemoteHsm) (c : Nat) (sent : Bytes) :
    ((hsm.conn c).owed sent).length = sent.length / 32 * 256 :=
  Dialogue.length_owed _ (hsm.length c) sent

theorem accelEncrypt_sound {buf sig : Bytes} {n : Nat} (sound : Sound hsm s)
    (taken : s.accelEncrypt buf n sig = some t) : Sound hsm t := by
  unfold accelEncrypt at taken
  split at taken
  · rename_i idle
    obtain ⟨_, least, most, whole⟩ := idle
    split at taken
    · rename_i closed
      cases taken
      refine ⟨sound.fresh, sound.made, sound.got, ?_, ?_⟩
      · rintro k ⟨⟩
        exact ⟨least, most, whole⟩
      · rintro k ⟨⟩
        exact closed
    · rename_i c connected
      cases taken
      refine ⟨sound.fresh, sound.made, sound.got, ?_, ?_⟩
      · rintro k ⟨⟩
        exact ⟨least, most, whole⟩
      · rintro k ⟨⟩
        exact ⟨c, connected, by decide, rfl, by simp, nofun⟩
  · cases taken

theorem connectRemote_sound {k : RemoteCall} {again : Bool} (ok : Bool) (sound : Sound hsm s)
    (called : s.call = some k) : Sound hsm (s.connectRemote k again ok) := by
  have new := sound.fresh s.made (Nat.le_refl _)
  cases ok with
  | true =>
    refine ⟨fun c later => sound.fresh c (Nat.le_of_succ_le later), ?_, sound.got, ?_, ?_⟩
    · rintro c ⟨⟩
      exact Nat.lt_succ_self _
    · rintro k' ⟨⟩
      exact sound.sizes k called
    · rintro k' ⟨⟩
      refine ⟨s.made, rfl, by decide, ?_, ?_, fun _ => rfl⟩
      · change (s.sent s.made).length = 0 + 0
        rw [new.1]
        rfl
      · change (s.sent s.made).drop 0 = _
        rw [new.1]
        rfl
  | false => exact ⟨sound.fresh, nofun, sound.got, nofun, nofun⟩

theorem write_sound {k : RemoteCall} {c d : Nat} {again : Bool} {out : Option Nat}
    (sound : Sound hsm s) (called : s.call = some k) (stage : k.stage = .write again d)
    (connected : s.sock = some c) (taken : s.write k c again d out = some t) : Sound hsm t := by
  have sizes := sound.sizes k called
  have size := length_digest (k := k) (by omega)
  have standing := sound.standing k called
  unfold Standing at standing
  rw [stage] at standing
  obtain ⟨c', same, below, length, part, retry⟩ := standing
  obtain rfl : c' = c := by rw [connected, Option.some.injEq] at same; exact same.symm
  cases out with
  | some m =>
    rw [write] at taken
    split at taken
    · rename_i fits
      cases taken
      have more : (s.sent c').drop k.asked ++ (k.digest.drop d).take m = k.digest.take (d + m) := by
        rw [part, List.take_add]
      have sent : (s.sent c' ++ (k.digest.drop d).take m).drop k.asked = k.digest.take (d + m) := by
        rw [List.drop_append_of_le_length (by omega), more]
      have count : (s.sent c' ++ (k.digest.drop d).take m).length = k.asked + (d + m) := by
        rw [List.length_append, List.length_take, List.length_drop]
        omega
      have grown := (Dialogue.owed_append (hsm.conn c') (s.sent c')
        ((k.digest.drop d).take m)).length_le
      refine ⟨?_, sound.made, ?_, ?_, ?_⟩
      · intro c later
        have below := sound.made c' connected
        change s.made ≤ c at later
        have other : c ≠ c' := by omega
        change Function.update s.sent c' _ c = [] ∧ s.got c = 0
        rw [Function.update_of_ne other]
        exact sound.fresh c later
      · intro c
        change s.got c ≤ ((hsm.conn c).owed (Function.update s.sent c' _ c)).length
        by_cases own : c = c'
        · rw [own, Function.update_self]
          exact Nat.le_trans (sound.got c') grown
        · rw [Function.update_of_ne own]
          exact sound.got c
      · rintro k' ⟨⟩
        exact sizes
      · rintro k' ⟨⟩
        by_cases all : d + m = 32
        · have whole : k.digest.take (d + m) = k.digest := List.take_of_length_le (by omega)
          simp only [Standing, goto, if_pos all]
          refine ⟨c', connected, Nat.zero_le _, Nat.zero_le _, rfl, Or.inl ?_⟩
          change (Function.update s.sent c' _ c').drop k.asked = k.digest
          rw [Function.update_self, sent, whole]
        · simp only [Standing, goto, if_neg all]
          refine ⟨c', connected, by omega, ?_, ?_, retry⟩
          · rw [Function.update_self, count]
          · rw [Function.update_self, sent]
            rfl
    · cases taken
  | none =>
    rw [write] at taken
    split at taken
    · rename_i second
      cases taken
      refine ⟨sound.fresh, sound.made, sound.got, ?_, ?_⟩
      · rintro k' ⟨⟩
        exact sizes
      · rintro k' ⟨⟩
        have first := retry second
        exact ⟨c', connected, Nat.zero_le _, Nat.zero_le _, rfl, Or.inr ⟨first, by
          change (s.sent c').length < 32
          omega⟩⟩
    · cases taken
      refine ⟨sound.fresh, nofun, sound.got, ?_, ?_⟩
      · rintro k' ⟨⟩
        exact sizes
      · rintro k' ⟨⟩
        rfl

theorem read_sound {k : RemoteCall} {c d : Nat} {out : Option Nat}
    (sound : Sound hsm s) (called : s.call = some k) (reading : Reading hsm s k c d)
    (taken : s.read hsm k c d out = some t) : Sound hsm t := by
  have sizes := sound.sizes k called
  cases out with
  | some m =>
    rw [read] at taken
    split at taken
    · rename_i fits
      cases taken
      have start := reading.read
      have next : (k.sig.take d ++ (((hsm.conn c).owed (s.sent c)).drop (s.got c)).take m ++
          k.sig.drop (d + m)).take (d + m) =
            (((hsm.conn c).owed (s.sent c)).drop (s.got c + m - (d + m))).take (d + m) := by
        have front : (k.sig.take d).length = d := by rw [List.length_take]; omega
        have new : ((((hsm.conn c).owed (s.sent c)).drop (s.got c)).take m).length = m := by
          rw [List.length_take, List.length_drop]
          omega
        have place : s.got c + m - (d + m) = s.got c - d := by omega
        have behind : s.got c - d + d = s.got c := by omega
        rw [List.take_left' (by rw [List.length_append, front, new]), reading.bytes, place,
          List.take_add, List.drop_drop, behind]
      refine ⟨?_, sound.made, ?_, ?_, ?_⟩
      · intro c' later
        have below := sound.made c reading.open_
        change s.made ≤ c' at later
        have other : c' ≠ c := by omega
        change s.sent c' = [] ∧ Function.update s.got c _ c' = 0
        rw [Function.update_of_ne other]
        exact sound.fresh c' later
      · intro c'
        change Function.update s.got c _ c' ≤ _
        by_cases own : c' = c
        · rw [own, Function.update_self]
          exact fits.2.2
        · rw [Function.update_of_ne own]
          exact sound.got c'
      · rintro k' ⟨⟩
        refine ⟨sizes.1, sizes.2.1, ?_⟩
        simp only [List.length_append, List.length_take, List.length_drop]
        omega
      · have after : Reading hsm { s with got := Function.update s.got c (s.got c + m) }
            { k with
              sig := k.sig.take d ++ (((hsm.conn c).owed (s.sent c)).drop (s.got c)).take m ++
                k.sig.drop (d + m) } c (d + m) := by
          refine ⟨reading.open_, ?_, fits.2.1, ?_, reading.digest⟩
          · change d + m ≤ Function.update s.got c (s.got c + m) c
            rw [Function.update_self]
            omega
          · dsimp only
            rw [Function.update_self]
            exact next
        rintro k' ⟨⟩
        by_cases all : d + m = 256
        · simp only [Standing, goto, if_pos all]
          rw [← all]
          exact ⟨c, after.open_, after.read, after.inside, after.bytes, after.digest⟩
        · simp only [Standing, goto, if_neg all]
          exact ⟨c, after.open_, after.read, after.inside, after.bytes, after.digest⟩
    · cases taken
  | none =>
    cases taken
    refine ⟨sound.fresh, sound.made, sound.got, ?_, ?_⟩
    · rintro k' ⟨⟩
      exact sizes
    · rintro k' ⟨⟩
      exact ⟨c, reading.open_, reading.read, reading.inside, reading.bytes, reading.digest⟩

theorem step_sound {a : RemoteAct} (sound : Sound hsm s) (taken : step hsm s a = some t) :
    Sound hsm t := by
  cases a with
  | call buf n sig => exact accelEncrypt_sound sound taken
  | connect ok =>
    obtain ⟨k, again, called, _, rfl⟩ := step_connect_eq_some taken
    exact connectRemote_sound ok sound called
  | write out =>
    obtain ⟨k, c, again, d, called, connected, stage, written⟩ := step_write_eq_some taken
    exact write_sound sound called stage connected written
  | read out =>
    obtain ⟨k, c, d, called, connected, stage, answered⟩ := step_read_eq_some taken
    have standing := sound.standing k called
    unfold Standing at standing
    rw [stage] at standing
    obtain ⟨c', reading⟩ := standing
    have same := reading.open_
    rw [connected, Option.some.injEq] at same
    exact read_sound sound called (same ▸ reading) answered
  | copy =>
    obtain ⟨_, _, _, _, rfl⟩ := step_copy_eq_some taken
    exact ⟨sound.fresh, sound.made, sound.got, nofun, nofun⟩

/-- What an open call has read on its connection, if anything, is of its own answer; and
once it is done reading, the front of the answer is there. -/
def Clean (s : Remote) : Prop :=
  ∀ k c, s.call = some k → s.sock = some c →
    match k.stage with
    | .read d => 0 < d → Aligned s c d
    | .copy d => 32 ≤ d ∧ Aligned s c d
    | _ => True

theorem clean_of_idle (idle : s.call = none) : Clean s := by
  intro k c called
  rw [idle] at called
  cases called

/-- A call that is not behind its writes has read nothing. -/
theorem clean_of_stage {k : RemoteCall} (called : s.call = some k)
    (early : (∃ again, k.stage = .connect again) ∨ (∃ again d, k.stage = .write again d) ∨
      k.stage = .read 0) : Clean s := by
  intro k' c called' _
  rw [called, Option.some.injEq] at called'
  subst called'
  rcases early with ⟨again, stage⟩ | ⟨again, d, stage⟩ | stage
  · rw [stage]
    trivial
  · rw [stage]
    trivial
  · rw [stage]
    exact fun positive => absurd positive (Nat.lt_irrefl 0)

/-- A read keeps what was read so far aligned, or not. -/
theorem read_clean {k : RemoteCall} {c d : Nat} {out : Option Nat} (called : s.call = some k)
    (connected : s.sock = some c) (stage : k.stage = .read d)
    (taken : s.read hsm k c d out = some t) :
    Clean t ↔ Clean s ∧ Intact s (.read out) := by
  have place : s.waiting = some (c, d) := by simp [waiting, called, connected, stage]
  have before : Clean s ↔ (0 < d → Aligned s c d) := by
    constructor
    · intro clean
      have here := clean k c called connected
      rwa [stage] at here
    · intro here k' c' called' connected'
      rw [called, Option.some.injEq] at called'
      rw [connected, Option.some.injEq] at connected'
      subst called' connected'
      rwa [stage]
  cases out with
  | some m =>
    have intact : Intact s (.read (some m)) ↔ Aligned s c d := by simp [Intact, place]
    rw [read] at taken
    split at taken
    · rename_i fits
      cases taken
      have moved : Aligned { s with got := Function.update s.got c (s.got c + m) } c (d + m) ↔
          Aligned s c d := by
        unfold Aligned
        dsimp only
        rw [Function.update_self]
        omega
      rw [before, intact, ← moved]
      constructor
      · intro clean
        have here := clean _ c rfl connected
        have aligned : Aligned { s with got := Function.update s.got c (s.got c + m) } c
            (d + m) := by
          by_cases all : d + m = 256
          · simp only [goto, if_pos all] at here
            rw [all]
            exact here.2
          · simp only [goto, if_neg all] at here
            exact here (by omega)
        exact ⟨fun _ => aligned, aligned⟩
      · rintro ⟨_, aligned⟩ k' c' ⟨⟩ connected'
        change s.sock = some c' at connected'
        rw [connected, Option.some.injEq] at connected'
        subst connected'
        by_cases all : d + m = 256
        · rw [all] at aligned
          simp only [goto, if_pos all]
          exact ⟨by decide, aligned⟩
        · simp only [goto, if_neg all]
          exact fun _ => aligned
    · cases taken
  | none =>
    have intact : Intact s (.read none) ↔ 32 ≤ d := by simp [Intact, place]
    cases taken
    rw [before, intact]
    constructor
    · intro clean
      have here : 32 ≤ d ∧ Aligned s c d := clean _ c rfl connected
      exact ⟨fun _ => here.2, here.1⟩
    · rintro ⟨aligned, enough⟩ k' c' ⟨⟩ connected'
      change s.sock = some c' at connected'
      rw [connected, Option.some.injEq] at connected'
      subst connected'
      exact ⟨enough, aligned (by omega)⟩

/-- Every step but the return: what was read is clean behind it when it was clean before it
and the step met the condition. -/
theorem step_clean {a : RemoteAct} (stays : a ≠ .copy) (taken : step hsm s a = some t) :
    Clean t ↔ Clean s ∧ Intact s a := by
  cases a with
  | call buf n sig =>
    rw [step, accelEncrypt] at taken
    split at taken
    · rename_i idle
      refine iff_of_true ?_ ⟨clean_of_idle idle.1, trivial⟩
      split at taken <;> cases taken
      · exact clean_of_stage rfl (Or.inl ⟨_, rfl⟩)
      · exact clean_of_stage rfl (Or.inr (Or.inl ⟨_, _, rfl⟩))
    · cases taken
  | connect ok =>
    obtain ⟨k, again, called, stage, rfl⟩ := step_connect_eq_some taken
    apply iff_of_true _ ⟨clean_of_stage called (Or.inl ⟨_, stage⟩), trivial⟩
    cases ok with
    | true => exact clean_of_stage rfl (Or.inr (Or.inl ⟨_, _, rfl⟩))
    | false => exact clean_of_idle rfl
  | write out =>
    obtain ⟨k, c, again, d, called, connected, stage, written⟩ := step_write_eq_some taken
    apply iff_of_true _ ⟨clean_of_stage called (Or.inr (Or.inl ⟨_, _, stage⟩)), trivial⟩
    cases out with
    | some m =>
      rw [write] at written
      split at written
      · cases written
        by_cases all : d + m = 32
        · exact clean_of_stage rfl (Or.inr (Or.inr (if_pos all)))
        · exact clean_of_stage rfl (Or.inr (Or.inl ⟨_, _, if_neg all⟩))
      · cases written
    | none =>
      rw [write] at written
      split at written <;> cases written
      · exact clean_of_stage rfl (Or.inr (Or.inr rfl))
      · exact clean_of_stage rfl (Or.inl ⟨_, rfl⟩)
  | read out =>
    obtain ⟨k, c, d, called, connected, stage, answered⟩ := step_read_eq_some taken
    exact read_clean called connected stage answered
  | copy => exact absurd rfl stays

/-- The answer to a request that was sent whole, behind whole requests. -/
theorem answer_eq (hsm : RemoteHsm) (c : Nat) (front digest : Bytes)
    (whole : front.length % 32 = 0) (size : digest.length = 32) :
    ((hsm.conn c).owed (front ++ digest)).drop (8 * front.length) =
      hsm.sign c (front.length / 32) digest := by
  have answers : (hsm.conn c).owed (front ++ digest) =
      (hsm.conn c).owed front ++ hsm.sign c (front.length / 32) digest :=
    Dialogue.owed_snoc (hsm.conn c) whole size
  have length := length_answers hsm c front
  have place : 8 * front.length = ((hsm.conn c).owed front).length := by
    rw [length]
    omega
  rw [answers, place, List.drop_left]

/-- Behind its reads a call has found its own answer if what it has read is clean. -/
theorem ownReply_of_clean (sound : Sound hsm s) (clean : Clean s) : OwnReply hsm s .copy := by
  intro k d called stage
  have sizes := sound.sizes k called
  have long := length_digest (k := k) (by omega)
  have standing := sound.standing k called
  unfold Standing at standing
  rw [stage] at standing
  obtain ⟨c, reading⟩ := standing
  have here := clean k c called reading.open_
  rw [stage] at here
  obtain ⟨enough, whole, place⟩ := here
  have request : (s.sent c).drop k.asked = k.digest := by
    rcases reading.digest with request | ⟨first, short⟩
    · exact request
    · have none_ := sound.got c
      have read := reading.read
      rw [length_answers, Nat.div_eq_of_lt short] at none_
      omega
  have count := congrArg List.length request
  rw [List.length_drop, long] at count
  have sent : s.sent c = (s.sent c).take k.asked ++ k.digest := by
    rw [← request, List.take_append_drop]
  have front : ((s.sent c).take k.asked).length = k.asked := by
    rw [List.length_take]
    omega
  have answer := answer_eq hsm c ((s.sent c).take k.asked) k.digest (by omega) long
  rw [front, ← sent] at answer
  have own : FromOwn s k c d := ⟨reading.open_, enough, request, by omega, by omega⟩
  refine ⟨c, own, ?_⟩
  have start : s.got c - d = 8 * k.asked := by omega
  have bytes := congrArg (List.take 32) reading.bytes
  rw [start, answer, List.take_take, List.take_take, Nat.min_eq_left enough] at bytes
  have amount : (if 32 < k.n then 32 else k.n) = 32 := by split <;> omega
  rw [RemoteCall.result, amount, bytes]

/-- And a call that returns its own answer has read nothing else. -/
theorem clean_of_ownReply (sound : Sound hsm s) (taken : step hsm s .copy = some t)
    (own : OwnReply hsm s .copy) : Clean s := by
  obtain ⟨k, d, called, stage, _⟩ := step_copy_eq_some taken
  intro k' c called' connected
  rw [called, Option.some.injEq] at called'
  subst called'
  obtain ⟨c', from_, _⟩ := own k d called stage
  have same := from_.open_
  rw [connected, Option.some.injEq] at same
  subst same
  have sizes := sound.sizes k called
  have count := congrArg List.length from_.request
  rw [List.length_drop, length_digest (k := k) (by omega)] at count
  rw [stage]
  have whole := from_.whole
  have place := from_.place
  exact ⟨from_.enough, by omega, by omega⟩

theorem copy_idle (taken : step hsm s .copy = some t) : t.call = none := by
  obtain ⟨_, _, _, _, rfl⟩ := step_copy_eq_some taken
  rfl

/-- A run whose reads meet the condition stays clean. -/
theorem always_clean (hsm : RemoteHsm) (acts : List RemoteAct)
    (intact : Machine.Guarded (step hsm) Intact start acts) :
    Machine.Always (step hsm) (fun s => Sound hsm s ∧ Clean s) start acts := by
  apply Machine.always_of_invariant _ ⟨start_sound, clean_of_idle rfl⟩ intact
  intro s a t before here taken
  refine ⟨step_sound before.1 taken, ?_⟩
  by_cases back : a = .copy
  · subst back
    exact clean_of_idle (copy_idle taken)
  · exact (step_clean back taken).mpr ⟨before.2, here⟩

/-- From the end of a run back: calls that returned their own answers have read nothing
else, so all their reads met the condition. -/
theorem intact_of_ownReply {acts : List RemoteAct} (sound : Sound hsm s)
    (own : Machine.Guarded (step hsm) (OwnReply hsm) s acts)
    (reached : Machine.run (step hsm) s acts = some t) (last : Clean t) :
    Clean s ∧ Machine.Guarded (step hsm) Intact s acts := by
  induction acts generalizing s with
  | nil =>
    rw [Machine.run_nil, Option.some.injEq] at reached
    exact ⟨reached ▸ last, trivial⟩
  | cons a rest ih =>
    obtain ⟨u, taken, onward⟩ := Machine.run_cons_eq_some.mp reached
    obtain ⟨clean, guarded⟩ := ih (step_sound sound taken) (own.2 u taken) onward
    have here : Clean s ∧ Intact s a := by
      by_cases back : a = .copy
      · subst back
        exact ⟨clean_of_ownReply sound taken own.1, trivial⟩
      · exact (step_clean back taken).mp clean
    refine ⟨here.1, here.2, ?_⟩
    intro v taken'
    rw [taken, Option.some.injEq] at taken'
    exact taken' ▸ guarded

/-- As long as every read finds its own answer and fails only behind the first 32 bytes of
it, each call leaves its buffer or puts the front of its own answer there; and a run at
whose end every call has returned with that was such a run. -/
theorem own_reply_iff_intact (hsm : RemoteHsm) (acts : List RemoteAct) :
    (Machine.Guarded (step hsm) Intact start acts →
      Machine.Guarded (step hsm) (OwnReply hsm) start acts) ∧
    ∀ s, Machine.run (step hsm) start acts = some s → s.call = none →
      (Machine.Guarded (step hsm) (OwnReply hsm) start acts ↔
        Machine.Guarded (step hsm) Intact start acts) := by
  have forward (intact : Machine.Guarded (step hsm) Intact start acts) :
      Machine.Guarded (step hsm) (OwnReply hsm) start acts := by
    apply (always_clean hsm acts intact).guards
    intro s a sound
    cases a with
    | copy => exact ownReply_of_clean sound.1 sound.2
    | call | connect | write | read => trivial
  refine ⟨forward, ?_⟩
  intro s reached idle
  exact ⟨fun own => (intact_of_ownReply start_sound own reached (clean_of_idle idle)).2, forward⟩

/-- A signer whose signature repeats the first byte of the digest. -/
def echoHsm : RemoteHsm := ⟨fun _ _ digest => List.replicate 256 (digest.headD 0), fun _ _ _ =>
  List.length_replicate⟩

/-- A buffer of 32 equal bytes. -/
def request (b : UInt8) : Bytes := List.replicate 32 b

/-- The array before it is read into. -/
def noSig : Bytes := List.replicate 256 0xee

/-- Two calls whose system calls all succeed, some of them in parts. -/
def healthy : List RemoteAct :=
  [.call (request 1) 32 noSig, .connect true, .write (some 20), .write (some 12), .read (some 256),
    .copy, .call (request 2) 32 noSig, .write (some 32), .read (some 100), .read (some 156), .copy]

def afterHealthy : Remote := (Machine.run (step echoHsm) start healthy).get (by decide +kernel)

theorem own_reply_iff_intact_healthy :
    (Machine.Guarded (step echoHsm) (OwnReply echoHsm) start healthy ↔
      Machine.Guarded (step echoHsm) Intact start healthy) ∧
    Machine.Guarded (step echoHsm) (OwnReply echoHsm) start healthy := by
  have same := (own_reply_iff_intact echoHsm healthy).2 afterHealthy (Option.some_get _).symm
    (by decide +kernel)
  exact ⟨same, same.mpr (by decide +kernel)⟩

/-- The first read is interrupted, the second call reads the first answer. -/
def interrupted : List RemoteAct :=
  [.call (request 1) 32 noSig, .connect true, .write (some 32), .read none, .copy,
    .call (request 2) 32 noSig, .write (some 32), .read (some 256)]

def afterInterrupted : Remote :=
  (Machine.run (step echoHsm) start interrupted).get (by decide +kernel)

/-- The second buffer gets the signature of the first one's digest. -/
theorem interrupted_shifts_replies :
    Machine.run (step echoHsm) start interrupted = some afterInterrupted ∧
      afterInterrupted.call.map RemoteCall.result = some (request 1) ∧
      ¬ Machine.Guarded (step echoHsm) (OwnReply echoHsm) start (interrupted ++ [.copy]) := by
  have reached : Machine.run (step echoHsm) start interrupted = some afterInterrupted :=
    (Option.some_get _).symm
  refine ⟨reached, by decide +kernel, ?_⟩
  intro guarded
  have own := ((Machine.Guarded.append reached).mp guarded).2.1
  obtain ⟨k, called, buf, stage⟩ : ∃ k, afterInterrupted.call = some k ∧ k.result = request 1 ∧
      k.stage = .copy 256 ∧ k.digest = request 2 ∧ k.buf.drop 32 = [] :=
    ⟨_, (Option.some_get (by decide +kernel)).symm, by decide +kernel, by decide +kernel,
      by decide +kernel, by decide +kernel⟩
  obtain ⟨c, _, answer⟩ := own k 256 called stage.1
  rw [buf, stage.2.1, stage.2.2] at answer
  revert answer
  change request 1 = (List.replicate 256 2).take 32 ++ [] → False
  decide

end TransparentOffload.Remote
