import Metering.Proofs.Transit
import Metering.Proofs.Turns

set_option autoImplicit false

/-! # How long a message is received

The sequence number of a packet is a byte that counts those to come, so packets that follow each other are
at most 256, and each is waited for with the retries of the link: a message is received from that many packets
at most (`Linked.receiveMessage_bounded`). But the retries are given anew to every packet, and once a response
is spoiled its sequence numbers are not looked at any more. It is received for as long as packets come that are
not last (`Linked.receiveMessage_unbounded`). -/

namespace Metering

/-- The packets that were heard: accepted, known already, damaged, or of a bad length. -/
def LinkStatistics.heard (n : LinkStatistics) : Nat := n.received + n.duplicates + n.checksumErrors + n.lengthErrors

namespace Linked

open Step (Moves Same)

variable {α β : Type} {s s' t u : Linked} {a a' : Assembly} {p : Packet} {crc : UInt16}

def heard (s : Linked) : Nat := s.link.statistics.heard

/-- The packets that were accepted. -/
def received (s : Linked) : Nat := s.link.statistics.received

/-- The packets that were not those to come next. -/
def misses (s : Linked) : Nat := s.link.statistics.sequenceErrors

/-- The tries at each packet. -/
def tries (s : Linked) : Nat := s.link.parameters.retries.toNat + 1

/-! ## Counting -/

/-- What a link goes by, and what it has counted. -/
def tally (s : Linked) : LinkParameters × LinkStatistics := (s.link.parameters, s.link.statistics)

/-- So many packets more were accepted, and at most so many were heard. -/
structure Counts (received heard : Nat) (s s' : Linked) : Prop where
  parameters : s'.link.parameters = s.link.parameters
  received : s'.received = s.received + received
  misses : s.misses ≤ s'.misses
  heard : s'.heard ≤ s.heard + heard

namespace Counts

variable {k l m n : Nat}

theorem same (h : Counts k n s t) (kept : u.tally = t.tally) : Counts k n s u := by
  obtain ⟨parameters, statistics⟩ := Prod.mk.inj kept
  have received : u.received = t.received := congrArg LinkStatistics.received statistics
  have misses : u.misses = t.misses := congrArg LinkStatistics.sequenceErrors statistics
  have heard : u.heard = t.heard := congrArg LinkStatistics.heard statistics
  exact ⟨parameters.trans h.parameters, received ▸ h.received, misses ▸ h.misses, heard ▸ h.heard⟩

theorem refl (s : Linked) : Counts 0 0 s s := ⟨rfl, rfl, Nat.le_refl _, Nat.le_refl _⟩

theorem of_tally (kept : t.tally = s.tally) : Counts 0 0 s t := (refl s).same kept

theorem le (h : Counts k m s t) (less : m ≤ n) : Counts k n s t :=
  ⟨h.parameters, h.received, h.misses, Nat.le_trans h.heard (Nat.add_le_add_left less _)⟩

theorem trans (h : Counts k m s t) (h' : Counts l n t u) : Counts (k + l) (m + n) s u where
  parameters := h'.parameters.trans h.parameters
  received := by rw [h'.received, h.received, Nat.add_assoc]
  misses := Nat.le_trans h.misses h'.misses
  heard := by
    have := h.heard
    have := h'.heard
    omega

theorem tries_eq (h : Counts k m s t) : t.tries = s.tries := by rw [tries, tries, h.parameters]

theorem bind {x : Step Linked α} {f : α → Step Linked β} (hx : Moves (Counts 0 m) x)
    (hf : ∀ a, Moves (Counts 0 n) (f a)) : Moves (Counts 0 (m + n)) (x >>= f) := by
  intro s
  have first := hx s
  rw [Step.run_bind]
  rcases hr : x.run s with ⟨e | a, t⟩ <;> rw [hr] at first
  · exact first.le (Nat.le_add_right m n)
  · exact first.trans (hf a t)

theorem of_same {x : Step Linked α} (h : Moves (Same tally) x) : Moves (Counts 0 0) x := fun s => of_tally (h s)

end Counts

theorem onChannel_tally (x : Step Channel α) : Moves (Same tally) (onChannel x) := fun _ => rfl

theorem parameters_tally : Moves (Same tally) parameters := .bind .get fun _ => .pure _

theorem turnAround_tally : Moves (Same tally) turnAround := .bind parameters_tally fun _ => onChannel_tally _

theorem writeControl_tally (byte : UInt8) : Moves (Same tally) (writeControl byte) :=
  .bind parameters_tally fun _ => .bind (onChannel_tally _) fun _ => .pure _

theorem refuse_tally : Moves (Same tally) refuse :=
  .bind turnAround_tally fun _ => .bind .get fun _ => .ite (writeControl_tally _) (.pure _)

/-! ## One packet -/

/-- A step that reads a packet counts it as bad at most, and then it fails. -/
def Judges (x : Step Linked α) : Prop :=
  ∀ s, match x.run s with
    | (.ok _, t) => t.tally = s.tally
    | (.error _, t) => Counts 0 1 s t

namespace Judges

theorem of_same {x : Step Linked α} (h : Moves (Same tally) x) : Judges x := by
  intro s
  have kept := h s
  rcases hr : x.run s with ⟨e | a, t⟩ <;> rw [hr] at kept
  · exact (Counts.of_tally kept).le (Nat.zero_le 1)
  · exact kept

theorem bind {x : Step Linked α} {f : α → Step Linked β} (hx : Judges x) (hf : ∀ a, Judges (f a)) :
    Judges (x >>= f) := by
  intro s
  have first := hx s
  rw [Step.run_bind]
  rcases hr : x.run s with ⟨e | a, t⟩ <;> rw [hr] at first
  · exact first
  · have second := hf a t
    dsimp only at first ⊢
    rcases hr : (f a).run t with ⟨e | b, u⟩ <;> rw [hr] at second
    · exact (Counts.of_tally first).trans second
    · exact second.trans first

/-- What is counted once in front of a fault. -/
theorem of_fault {x : Step Linked α} (counts : Moves (Counts 0 1) x) (fails : ∀ s a t, x.run s ≠ (.ok a, t)) :
    Judges x := by
  intro s
  have counted := counts s
  rcases run : x.run s with ⟨e | a, t⟩
  · rwa [run] at counted
  · exact absurd run (fails s a t)

end Judges

theorem count_counts {f : LinkStatistics → LinkStatistics} (received : ∀ n, (f n).received = n.received)
    (missed : ∀ n, n.sequenceErrors ≤ (f n).sequenceErrors) (one : ∀ n, (f n).heard ≤ n.heard + 1) :
    Moves (Counts 0 1) (count f) :=
  fun s => ⟨rfl, received s.link.statistics, missed s.link.statistics, one s.link.statistics⟩

theorem refuseLength_judges (length : Nat) : Judges (refuseLength length) := by
  refine .of_fault ?_ fun s _ t => refuseLength_ne_ok length s t
  refine Counts.bind (m := 1) (n := 0) ?_ fun _ => Counts.of_same ?_
  · exact count_counts (fun _ => rfl) (fun _ => Nat.le_refl _) fun _ => Nat.le_refl _
  · exact .bind parameters_tally fun p => .bind (onChannel_tally _) fun _ => .bind (onChannel_tally _) fun _ => .throw _

theorem receivePacket_judges (acceptDamaged : Bool) : Judges (receivePacket acceptDamaged) := by
  refine .bind (.of_same parameters_tally) fun p => ?_
  refine .bind (.of_same (onChannel_tally _)) fun _ => ?_
  refine .bind (.of_same (onChannel_tally _)) fun header => ?_
  refine .bind (.of_same .get) fun s => ?_
  have rest : Judges (do
      let rest ← onChannel (Channel.readExact (announcedLength header + 2) p.intercharacter)
      let data := rest.take (announcedLength header)
      let crc := UInt16.ofNat (Bytes.ofLittleEndian (rest.drop (announcedLength header)))
      if crc ≠ Crc.ofBytes ([startByte] ++ header ++ data) ∧ !acceptDamaged then
        count fun s => { s with checksumErrors := s.checksumErrors + 1 }
        throw (.frameInvalid .checksum)
      turnAround
      return (Packet.read header data, crc)) := by
    refine .bind (.of_same (onChannel_tally _)) fun rest => ?_
    dsimp only
    split
    · refine .of_fault ?_ fun s _ t failed => ?_
      · refine Counts.bind (m := 1) (n := 0) ?_ fun _ => Counts.of_same (.throw_bind _ _)
        exact count_counts (fun _ => rfl) (fun _ => Nat.le_refl _) fun n => by simp only [LinkStatistics.heard]; omega
      · obtain ⟨_, _, _, failed⟩ := Step.run_bind_ok.1 failed
        exact absurd failed Step.run_throw_ne_ok
    · exact .bind (.of_same turnAround_tally) fun _ => .of_same (.pure _)
  dsimp only
  split
  · exact .bind (refuseLength_judges _) fun _ => rest
  · exact rest

/-! ## Waiting for a packet -/

/-- What waiting for a packet comes to with so many retries. The packet goes with the response as it was, unless it
was not the one to come next. -/
def Awaited (a : Assembly) (retries : Nat) (s : Linked) : Except Fault Accepted → Linked → Prop
  | .ok (some (_, _, a')), s' => Counts 0 retries s s' ∧ (a' = a ∨ s.misses < s'.misses)
  | .ok none, s' => Counts 0 (retries + 1) s s'
  | .error _, s' => Counts 0 (retries + 1) s s'

/-- A try that gave no packet takes one of the retries. -/
theorem Awaited.after {retries : Nat} {r : Except Fault Accepted} (tried : Counts 0 1 s t)
    (rest : Awaited a retries t r s') : Awaited a (retries + 1) s r s' := by
  have more {n : Nat} (h : Counts 0 n t s') : Counts 0 (n + 1) s s' := by
    have both := tried.trans h
    rwa [Nat.add_comm 1] at both
  match r, rest with
  | .ok (some _), ⟨counts, kept⟩ => exact ⟨more counts, kept.imp_right (Nat.lt_of_le_of_lt tried.misses)⟩
  | .ok none, counts => exact more counts
  | .error _, counts => exact more counts

theorem tryPacket_awaited {lost : Bool} {again : Option (Bool → Step Linked Accepted)} {retries : Nat}
    (rest : ∀ next, again = some next → ∀ lost t, Counts 0 1 s t →
      Awaited a retries s ((next lost).run t).1 ((next lost).run t).2) :
    Awaited a retries s ((tryPacket a lost again).run s).1 ((tryPacket a lost again).run s).2 := by
  have judged := receivePacket_judges a.spoiled s
  unfold tryPacket
  rw [Step.run_outcome_bind]
  rcases hr : (receivePacket a.spoiled).run s with ⟨e | ⟨p, crc⟩, t⟩ <;> rw [hr] at judged
  · dsimp only at judged ⊢
    have ended {u : Linked} (kept : u.tally = t.tally) : Counts 0 (retries + 1) s u :=
      (judged.same kept).le (Nat.le_add_left 1 retries)
    rw [Step.run_get_bind]
    split
    · exact ended rfl
    split
    · exact ended rfl
    split
    · exact ended rfl
    split
    · exact ended rfl
    have kept := refuse_tally t
    rw [Step.run_bind]
    rcases hr : refuse.run t with ⟨e' | _, u⟩ <;> rw [hr] at kept
    · exact ended kept
    cases again with
    | none => exact ended kept
    | some next => exact rest next rfl lost u (judged.same kept)
  · dsimp only at judged ⊢
    have read : Counts 0 retries s t := (Counts.of_tally judged).le (Nat.zero_le _)
    split
    · exact ⟨read, .inl rfl⟩
    rw [Step.run_get_bind]
    cases standing t.link.lastReceived p.control.toggle crc with
    | new => exact ⟨read, .inl rfl⟩
    | duplicate =>
      -- the repeat is heard, and the try is over
      have heard : Counts 0 1 s (repeated t) :=
        have counted : Counts 0 1 t (repeated t) := ⟨rfl, rfl, Nat.le_refl _, by
          simp only [Linked.heard, LinkStatistics.heard, repeated]
          omega⟩
        (Counts.of_tally judged).trans counted
      have kept := writeControl_tally ackByte (repeated t)
      have noted : (count fun n => { n with duplicates := n.duplicates + 1 }).run t = (.ok (), repeated t) := rfl
      dsimp only
      rw [Step.run_bind_of_ok noted, Step.run_bind]
      rcases hr : (writeControl ackByte).run (repeated t) with ⟨e | _, u⟩ <;> rw [hr] at kept
      · exact (heard.same kept).le (Nat.le_add_left 1 retries)
      cases again with
      | none => exact (heard.same kept).le (Nat.le_add_left 1 retries)
      | some next => exact rest next rfl _ u (heard.same kept)
    | misplaced =>
      have one : s.misses < t.misses + 1 := Nat.lt_succ_of_le read.misses
      exact ⟨⟨read.parameters, read.received, Nat.le_of_lt one, read.heard⟩, .inr one⟩

/-- **A packet that is awaited** comes after as many others as there are retries, at most. -/
theorem awaitPacket_awaited (a : Assembly) (retries : Nat) (lost : Bool) (s : Linked) :
    Awaited a retries s ((awaitPacket a retries lost).run s).1 ((awaitPacket a retries lost).run s).2 := by
  induction retries generalizing lost s with
  | zero => exact tryPacket_awaited nofun
  | succ retries ih =>
    refine tryPacket_awaited fun next again lost t tried => ?_
    obtain rfl := Option.some.inj again
    exact .after tried (ih lost t)

/-! ## Rounds -/

/-- The packets that may still follow. -/
def Assembly.left (a : Assembly) : Nat :=
  match a.previous with
  | none => 256
  | some previous => previous.toNat

/-- A packet that follows, and is not the last, leaves fewer to come. -/
theorem left_add (follows : breaksSequence a p = false) (more : p.isLast = false) :
    1 ≤ (a.add p).left ∧ (1 ≤ a.left → (a.add p).left < a.left) := by
  obtain ⟨multi, some⟩ : p.control.isMulti = true ∧ p.sequence ≠ 0 := by simpa [Packet.isLast] using more
  have left : (a.add p).left = p.sequence.toNat := rfl
  have positive : p.sequence.toNat ≠ 0 := fun zero => some (UInt8.toNat_inj.1 zero)
  rw [left]
  refine ⟨Nat.pos_of_ne_zero positive, fun before => ?_⟩
  unfold breaksSequence at follows
  unfold Assembly.left at before ⊢
  cases known : a.previous with
  | none => exact p.sequence.toNat_lt
  | some previous =>
    rw [known] at follows before
    have next : previous - 1 = p.sequence := by
      split at follows
      · simpa using follows
      · cases follows
    have one : (1 : UInt8) ≤ previous := UInt8.le_iff_toNat_le.2 before
    rw [← next, UInt8.toNat_sub_of_le _ _ one]
    exact Nat.sub_lt before Nat.one_pos

/-- What a round comes to. If it goes on, it has accepted a packet; and then one was missed, the response was
spoiled, or fewer are left to come. -/
def Rounded (a : Assembly) (s : Linked) : Except Fault (Assembly ⊕ Received) → Linked → Prop
  | .ok (.inl a'), s' => Counts 1 s.tries s s' ∧
      (s.misses < s'.misses ∨ a.spoiled = true ∨ a'.spoiled = false ∧ 1 ≤ a'.left ∧ (1 ≤ a.left → a'.left < a.left))
  | .ok (.inr _), s' => ∃ k ≤ 1, Counts k s.tries s s'
  | .error _, s' => ∃ k ≤ 1, Counts k s.tries s s'

/-- The link when a packet broke the sequence. -/
def missing (l : Link) : Link :=
  { l.forget with statistics := { l.statistics with sequenceErrors := l.statistics.sequenceErrors + 1 } }

theorem place_spoiled (spoiled : a.spoiled = true) (p : Packet) (crc : UInt16) (s : Linked) :
    (place a p crc).run s = (.ok a, s) := by
  unfold place
  rw [if_pos spoiled]
  rfl

theorem place_breaks (sound : a.spoiled = false) (breaks : breaksSequence a p = true) (crc : UInt16) (c : Channel)
    (l : Link) : (place a p crc).run ⟨c, l⟩ = (.ok { a with spoiled := true }, ⟨c, missing l⟩) := by
  unfold place
  rw [sound, if_neg Bool.false_ne_true, if_pos breaks]
  rfl

theorem place_counts (a : Assembly) (p : Packet) (crc : UInt16) (s : Linked) :
    ∃ a' s', (place a p crc).run s = (.ok a', s') ∧ Counts 0 0 s s' ∧
      (s.misses < s'.misses ∨ a.spoiled = true ∨
        breaksSequence a p = false ∧ a' = a.add p ∧ a'.spoiled = false) := by
  by_cases spoiled : a.spoiled
  · exact ⟨a, s, place_spoiled spoiled p crc s, .refl s, .inr (.inl spoiled)⟩
  replace spoiled : a.spoiled = false := Bool.eq_false_iff.2 spoiled
  by_cases breaks : breaksSequence a p
  · exact ⟨_, _, place_breaks spoiled breaks crc s.channel s.link, ⟨rfl, rfl, Nat.le_succ _, Nat.le_refl _⟩,
      .inl (Nat.lt_succ_self _)⟩
  · unfold place
    rw [spoiled, if_neg Bool.false_ne_true, if_neg breaks]
    exact ⟨_, _, rfl, .of_tally rfl, .inr (.inr ⟨Bool.eq_false_iff.2 breaks, rfl, spoiled⟩)⟩

/-- The link when a packet was accepted. -/
def noting (l : Link) (p : Packet) : Link :=
  { l with statistics := { l.statistics with received := l.statistics.received + 1 }, incomingIdentity := p.identity }

/-- A packet that came is noted and acknowledged, and then it is placed. -/
theorem receiveRound_awaited
    (awaited : (awaitPacket a s.link.parameters.retries.toNat false).run s = (.ok (some (p, crc, a')), t)) :
    (receiveRound a).run s = (do
      writeControl ackByte
      let a ← place a' p crc
      if p.isLast then return .inr (if a.spoiled then .repeatRequest else .message a.message)
      else return .inl a : Step Linked (Assembly ⊕ Received)).run ⟨t.channel, noting t.link p⟩ := by
  have known : parameters.run s = (.ok s.link.parameters, s) := rfl
  unfold receiveRound
  rw [Step.run_bind_of_ok known, Step.run_bind_of_ok awaited]
  rfl

/-- **One packet takes one round**, and no more tries than there are. -/
theorem receiveRound_rounded (a : Assembly) (s : Linked) :
    Rounded a s ((receiveRound a).run s).1 ((receiveRound a).run s).2 := by
  have waited := awaitPacket_awaited a s.link.parameters.retries.toNat false s
  have known : parameters.run s = (.ok s.link.parameters, s) := rfl
  rcases awaited : (awaitPacket a s.link.parameters.retries.toNat false).run s with ⟨e | _ | ⟨p, crc, a1⟩, t⟩
  all_goals rw [awaited] at waited
  · unfold receiveRound
    rw [Step.run_bind_of_ok known, Step.run_bind_of_error awaited]
    exact ⟨0, Nat.zero_le 1, waited⟩
  · unfold receiveRound
    rw [Step.run_bind_of_ok known, Step.run_bind_of_ok awaited]
    exact ⟨0, Nat.zero_le 1, waited⟩
  rw [receiveRound_awaited awaited]
  obtain ⟨waited, which⟩ := waited
  have counted : Counts 1 1 t ⟨t.channel, noting t.link p⟩ :=
    ⟨rfl, rfl, Nat.le_refl _, by simp only [Linked.heard, LinkStatistics.heard, noting]; omega⟩
  generalize (⟨t.channel, noting t.link p⟩ : Linked) = u at counted
  rw [Step.run_bind]
  have kept := writeControl_tally ackByte u
  rcases hr : (writeControl ackByte).run u with ⟨e | _, v⟩ <;> rw [hr] at kept
  · exact ⟨1, Nat.le_refl 1, waited.trans (counted.same kept)⟩
  obtain ⟨a2, w, placed, counts, how⟩ := place_counts a1 p crc v
  have after : Counts 1 1 t w := (counted.same kept).trans counts
  dsimp only
  rw [Step.run_bind_of_ok placed]
  by_cases last : p.isLast
  · rw [if_pos last]
    exact ⟨1, Nat.le_refl 1, waited.trans after⟩
  rw [if_neg last]
  refine ⟨waited.trans after, ?_⟩
  obtain rfl | missed := which
  · obtain missed | spoiled | ⟨follows, rfl, sound⟩ := how
    · exact .inl (Nat.lt_of_le_of_lt (waited.trans (counted.same kept)).misses missed)
    · exact .inr (.inl spoiled)
    · exact .inr (.inr ⟨sound, left_add follows (Bool.eq_false_iff.2 last)⟩)
  · exact .inl (Nat.lt_of_lt_of_le missed after.misses)

/-! ## The message -/

/-- What the rounds have heard: for each packet that was accepted as many as there are tries, and as many at the end.
While the packets follow each other, those that are left bound the rounds. -/
def Bounded (a : Assembly) (s s' : Linked) : Prop :=
  ∃ n, Counts n (s.tries * (n + 1)) s s' ∧
    (s'.misses = s.misses → a.spoiled = false → 1 ≤ a.left → n ≤ a.left ∧ s'.heard ≤ s.heard + s.tries * a.left)

/-- One round more, whichever way it ends. -/
theorem Bounded.last {k : Nat} (few : k ≤ 1) (counts : Counts k s.tries s s') : Bounded a s s' :=
  ⟨k, counts.le (Nat.le_mul_of_pos_right _ (Nat.succ_pos k)), fun _ _ left =>
    ⟨Nat.le_trans few left, (counts.le (Nat.le_mul_of_pos_right _ left)).heard⟩⟩

theorem Bounded.more (round : Rounded a s (.ok (.inl a')) t) (rest : Bounded a' t s') : Bounded a s s' := by
  obtain ⟨counts, how⟩ := round
  obtain ⟨n, counts', bounded⟩ := rest
  rw [counts.tries_eq] at counts' bounded
  refine ⟨1 + n, (counts.trans counts').le (Nat.le_of_eq ?_), fun same sound left => ?_⟩
  · rw [Nat.add_comm 1 n, Nat.mul_succ s.tries (n + 1), Nat.add_comm]
  have := counts.misses
  have := counts'.misses
  obtain missed | spoiled | ⟨sound', left', fewer⟩ := how
  · omega
  · rw [sound] at spoiled
    cases spoiled
  obtain ⟨few, heard⟩ := bounded (by omega) sound' left'
  have fewer := fewer left
  have budget := Nat.mul_le_mul_left s.tries fewer
  rw [Nat.mul_succ] at budget
  have first := counts.heard
  omega

theorem bounded_of_loops {r : Except Fault Received} (loops : Step.Loops True receiveRound a s r s') :
    Bounded a s s' := by
  induction loops with
  | @last a s s' b run =>
    have round := receiveRound_rounded a s
    rw [run] at round
    obtain ⟨k, few, counts⟩ := round
    exact .last few counts
  | @failed a s s' e run =>
    have round := receiveRound_rounded a s
    rw [run] at round
    obtain ⟨k, few, counts⟩ := round
    exact .last few counts
  | @more a a' s t s' r run rest ih =>
    have round := receiveRound_rounded a s
    rw [run] at round
    exact .more round ih
  | @givenUp a a' s s' run allowed =>
    have round := receiveRound_rounded a s
    rw [run] at round
    exact .last (Nat.le_refl 1) round.1

/-- **A message is received from a bounded number of packets**, as long as they follow each other. -/
theorem receiveMessage_bounded {r : Except Fault Received} (run : receiveMessage.run s = (r, s')) :
    s'.heard ≤ s.heard + s.tries * (s'.received - s.received + 1) ∧
      (s'.misses = s.misses → s'.received ≤ s.received + 256 ∧ s'.heard ≤ s.heard + s.tries * 256) := by
  have loops : Step.Loops True receiveRound {} s (receiveMessage.run s).1 (receiveMessage.run s).2 := by
    unfold receiveMessage
    rw [Step.run_get_bind]
    have shrinks {a a' : Assembly} {s t : Linked} (_ : (receiveRound a).run s = (.ok (.inl a'), t)) :
        True ∨ (fun _ => 0 : Assembly → Nat) a' < (fun _ => 0 : Assembly → Nat) a := .inl trivial
    exact Step.repeatWhileFed_loops shrinks (Nat.le_refl _) fun _ _ => Nat.zero_le _
  rw [run] at loops
  obtain ⟨n, counts, bounded⟩ := bounded_of_loops loops
  have received : s'.received = s.received + n := counts.received
  constructor
  · have : s'.received - s.received = n := by omega
    rw [this]
    exact counts.heard
  · intro same
    obtain ⟨few, heard⟩ := bounded same rfl (by decide)
    exact ⟨received ▸ Nat.add_le_add_left few _, heard⟩

/-- A link that hears a frame without data, and another one upon each refusal. -/
def emptyFrames : Linked where
  channel :=
    { line :=
        { isClosed := false
          arrivals := [(0, .data [startByte, 0, 0, 0, 0, 0])]
          answers := List.replicate 4 fun _ =>
            [(Duration.ofMillis 10, .arrival (.data [startByte, 0, 0, 0, 0, 0]))] }
      connected := true }
  link := .ofParameters (.ofConfig {})

theorem receiveMessage_bounded_emptyFrames :
    (receiveMessage.run emptyFrames).2.heard = 4 ∧ emptyFrames.tries = 4 ∧
      (receiveMessage.run emptyFrames).2.received ≤ emptyFrames.received + 256 ∧
      (receiveMessage.run emptyFrames).2.heard ≤ emptyFrames.heard + emptyFrames.tries * 256 := by
  have counted : (receiveMessage.run emptyFrames).2.heard = 4 ∧
      (receiveMessage.run emptyFrames).2.misses = emptyFrames.misses := by decide +kernel
  obtain ⟨-, bounded⟩ := receiveMessage_bounded (Prod.mk.eta (p := receiveMessage.run emptyFrames)).symm
  exact ⟨counted.1, rfl, bounded counted.2⟩

/-! ## Packets that are taken -/

/-- A packet that is read is taken as it is, if the response is spoiled, or if it is new. -/
theorem tryPacket_taken {lost : Bool} {again : Option (Bool → Step Linked Accepted)}
    (read : (receivePacket a.spoiled).run s = (.ok (p, crc), t))
    (free : a.spoiled = true ∨ standing t.link.lastReceived p.control.toggle crc = .new) :
    (tryPacket a lost again).run s = (.ok (some (p, crc, a)), t) := by
  unfold tryPacket
  rw [Step.run_outcome_bind, read]
  dsimp only
  split
  · rfl
  next sound =>
    rw [Step.run_get_bind, free.resolve_left sound]
    rfl

theorem receiveRound_taken {v : Linked} (read : (receivePacket a.spoiled).run s = (.ok (p, crc), t))
    (free : a.spoiled = true ∨ standing t.link.lastReceived p.control.toggle crc = .new)
    (sent : (writeControl ackByte).run ⟨t.channel, noting t.link p⟩ = (.ok (), u))
    (placed : (place a p crc).run u = (.ok a', v)) :
    (receiveRound a).run s =
      (.ok (if p.isLast then .inr (if a'.spoiled then .repeatRequest else .message a'.message) else .inl a'), v) := by
  have awaited : (awaitPacket a s.link.parameters.retries.toNat false).run s = (.ok (some (p, crc, a)), t) := by
    cases s.link.parameters.retries.toNat with
    | zero => exact tryPacket_taken read free
    | succ retries => exact tryPacket_taken read free
  rw [receiveRound_awaited awaited, Step.run_bind_of_ok sent, Step.run_bind_of_ok placed]
  split <;> rfl

end Linked

/-! ## Spoiled responses -/

namespace Channel

theorem fillTo_held {c : Channel} {wanted : Nat} (held : wanted ≤ c.input.length) (patience : Patience) :
    (fillTo wanted patience).run c = (.ok (), c) := by
  unfold fillTo rounds
  rw [Step.run_get_bind, Step.run_get_bind, Step.repeatUpTo, Step.run_bind_of_ok (fillRound_of_enough held _ _)]
  rfl

/-- What is in the ring is read at once. -/
theorem readExact_held {c : Channel} {count : Nat} (connected : c.connected = true) (held : count ≤ c.input.length)
    (timeout : Duration) :
    (readExact count timeout).run c = (.ok (c.input.toList.take count), { c with input := c.input.discard count }) := by
  unfold readExact readExactly
  rw [Step.run_bind_of_ok (ensureConnected_run connected), Step.run_outcome_bind, fillTo_held held]
  exact take_run count c

end Channel

namespace Flood

/-- A frame with one byte of data. -/
structure Frame where
  control : UInt8
  sequence : UInt8
  checksum : UInt8 × UInt8
  deriving DecidableEq, Repr

namespace Frame

variable (x : Frame)

def header : Bytes := [0, x.control, x.sequence, 0, 1]

def rest : Bytes := [0, x.checksum.1, x.checksum.2]

def bytes : Bytes := startByte :: (x.header ++ x.rest)

/-- The packet of the frame, whatever its checksum. -/
def packet : Packet where
  identity := 0
  control := ⟨x.control⟩
  sequence := x.sequence
  data := [0]

def crc : UInt16 := .ofNat (Bytes.ofLittleEndian [x.checksum.1, x.checksum.2])

end Frame

end Flood

/-- A channel on which frames come as fast as they are read. -/
structure Flood where
  frames : List Flood.Frame
  ring : Ring := .empty
  heard : List Bytes := []
  history : List (Moment × LineEntry) := []
  statistics : ChannelStatistics := {}

namespace Flood

open Channel

def channel (f : Flood) : Channel where
  line :=
    { isClosed := false
      arrivals := f.frames.map fun x => (0, .data x.bytes)
      heard := f.heard
      history := f.history }
  connected := true
  input := f.ring
  statistics := f.statistics

variable {f : Flood} {x : Frame} {frames : List Frame}

/-- What is taken out of the ring changes nothing else. -/
theorem channel_ring (f : Flood) (ring : Ring) : { f.channel with input := ring } = channel { f with ring } := rfl

theorem sleep_run : (sleep 0).run f.channel = (.ok (), f.channel) := rfl

theorem write_run (byte : UInt8) (timeout : Duration) :
    (write [byte] timeout).run f.channel =
      (.ok 1, channel { f with
        history := (0, .message [byte]) :: f.history
        statistics := { f.statistics with sent := f.statistics.sent + 1 } }) := by
  have items : ∀ a ∈ f.channel.line.arrivals, a.2 ≠ .data [] := by
    intro a mem none
    obtain ⟨x, -, rfl⟩ := List.mem_map.1 mem
    cases Arrival.data.inj none
  exact Channel.write_run ⟨rfl, rfl, rfl, items⟩ ⟨rfl, .inl rfl, Nat.zero_le _, rfl, rfl⟩ byte

/-- The next frame is moved into the ring. -/
def taken (f : Flood) (x : Frame) (frames : List Frame) : Flood where
  frames
  ring := f.ring.put x.bytes
  heard := x.bytes :: f.heard
  history := f.history
  statistics := { f.statistics with received := f.statistics.received + x.bytes.length }

theorem fill_run (arrives : f.frames = x :: frames) (deadline : Moment) :
    (fill deadline).run f.channel = (.ok .data, (f.taken x frames).channel) := by
  have whole : x.bytes.take readChunk = x.bytes := rfl
  have nothing : x.bytes.drop readChunk = [] := rfl
  have first : f.channel.line.arrivals = (0, .data x.bytes) :: frames.map fun x => (0, .data x.bytes) := by
    simp only [channel, arrives, List.map_cons]
  rw [fill_filled rfl rfl first (Nat.zero_le _), filled, Line.taken, whole, nothing]
  rfl

/-- The start byte of the next frame is read, and what follows it is in the ring then. -/
theorem readStart_run (arrives : f.frames = x :: frames) (empty : f.ring.toList = []) (timeout : Duration) :
    ∃ g : Flood, (readStart [startByte] timeout).run f.channel = (.ok startByte, g.channel) ∧ g.frames = frames ∧
      g.ring.toList = x.header ++ x.rest := by
  generalize hd : f.channel.now + timeout = deadline
  -- the ring holds nothing, so the first round waits for the frame
  generalize hc : (f.ring.discardUntil [startByte]).2 = cleared
  have gone : cleared.toList = [] := by rw [← hc, Ring.toList_discardUntil, empty, List.dropWhile_nil]
  generalize hg : taken { f with ring := cleared } x frames = g
  have held : g.ring.toList = x.bytes := by
    rw [← hg]
    show (cleared.put x.bytes).toList = x.bytes
    rw [Ring.toList_put, gone, List.nil_append]
  obtain ⟨k, first⟩ : ∃ k, (startRound [startByte] deadline 0).run f.channel = (.ok (.inl k), g.channel) := by
    have round := startRound_run [startByte] deadline 0 f.channel
    have filled := fill_run (f := { f with ring := cleared }) arrives deadline
    have ring : f.channel.input = f.ring := rfl
    rw [ring, hc, gone, channel_ring] at round
    rw [round, ← hg]
    exact ⟨_, Step.run_bind_of_ok filled⟩
  -- the second one finds it
  generalize hs : (g.ring.discardUntil [startByte]).2 = started
  have found : started.toList = startByte :: (x.header ++ x.rest) := by
    rw [← hs, Ring.toList_discardUntil, held]
    rfl
  have second : (startRound [startByte] deadline k).run g.channel =
      (.ok (.inr startByte), channel { g with ring := started }) := by
    have round := startRound_run [startByte] deadline k g.channel
    have ring : g.channel.input = g.ring := rfl
    rwa [ring, hs, found, channel_ring] at round
  have waiting : f.channel.line.waiting ≠ 0 := by
    simp only [channel, arrives, List.map_cons, Line.waiting, List.foldr_cons, Arrival.size, Frame.bytes,
      List.length_cons]
    omega
  obtain ⟨fuel, waiting⟩ := Nat.exists_eq_succ_of_ne_zero waiting
  refine ⟨{ g with ring := started.discard 1 }, ?_, hg ▸ rfl, ?_⟩
  · have wait : (waitStart [startByte] timeout).run f.channel = (.ok startByte, channel { g with ring := started }) := by
      unfold waitStart rounds
      rw [Step.run_bind_of_ok (ensureConnected_run rfl), Step.run_get_bind, Step.run_get_bind, hd, waiting,
        Step.repeatUpTo, Step.run_bind_of_ok first]
      dsimp only
      rw [Step.repeatUpTo, Step.run_bind_of_ok second]
      rfl
    unfold readStart
    rw [Step.run_bind_of_ok wait]
    rfl
  · rw [Ring.toList_discard]
    exact congrArg (List.drop 1) found

/-- What is in the ring is read. -/
theorem readExact_run {part more : Bytes} (held : f.ring.toList = part ++ more) (timeout : Duration) :
    ∃ g : Flood, (readExact part.length timeout).run f.channel = (.ok part, g.channel) ∧ g.frames = f.frames ∧
      g.ring.toList = more := by
  have enough : part.length ≤ f.channel.input.length := by
    rw [← Ring.length_toList]
    show part.length ≤ f.ring.toList.length
    rw [held, List.length_append]
    exact Nat.le_add_right _ _
  have read := readExact_held (c := f.channel) rfl enough timeout
  have front : f.channel.input.toList.take part.length = part := by
    show f.ring.toList.take part.length = part
    rw [held, List.take_left]
  rw [front] at read
  exact ⟨{ f with ring := f.ring.discard part.length }, read, rfl, by rw [Ring.toList_discard, held, List.drop_left]⟩

/-- The packet of the next frame is read. -/
theorem receivePacket_run {l : Link} (arrives : f.frames = x :: frames) (empty : f.ring.toList = [])
    (quick : l.parameters.turnaround = 0) (fits : 1 ≤ l.maxData) {acceptDamaged : Bool}
    (good : acceptDamaged = true ∨ x.crc = Crc.ofBytes ([startByte] ++ x.header ++ [0])) :
    ∃ g : Flood, (Linked.receivePacket acceptDamaged).run ⟨f.channel, l⟩ = (.ok (x.packet, x.crc), ⟨g.channel, l⟩) ∧
      g.frames = frames ∧ g.ring.toList = [] := by
  obtain ⟨g1, started, rfl, held⟩ := readStart_run arrives empty l.parameters.acknowledgement
  obtain ⟨g2, headed, same, held⟩ := readExact_run held l.parameters.intercharacter
  obtain ⟨g3, rested, same', held⟩ := readExact_run (held.trans (List.append_nil _).symm) l.parameters.intercharacter
  refine ⟨g3, ?_, same'.trans same, held⟩
  rw [Linked.receivePacket_parts (s := ⟨f.channel, l⟩) started headed rfl Nat.one_ne_zero fits rested, if_neg]
  · have turned : Linked.turnAround.run ⟨g3.channel, l⟩ = (.ok (), ⟨g3.channel, l⟩) := by
      have known : Linked.parameters.run ⟨g3.channel, l⟩ = (.ok l.parameters, ⟨g3.channel, l⟩) := rfl
      unfold Linked.turnAround
      rw [Step.run_bind_of_ok known, quick]
      exact Linked.onChannel_run (s := ⟨g3.channel, l⟩) sleep_run
    rw [Step.run_bind_of_ok turned]
    rfl
  · rintro ⟨wrong, strict⟩
    rcases good with rfl | good
    · cases strict
    · exact wrong good

theorem writeControl_run (byte : UInt8) (f : Flood) (l : Link) :
    ∃ g : Flood, (Linked.writeControl byte).run ⟨f.channel, l⟩ = (.ok (), ⟨g.channel, l⟩) ∧ g.frames = f.frames ∧
      g.ring = f.ring := by
  have known : Linked.parameters.run ⟨f.channel, l⟩ = (.ok l.parameters, ⟨f.channel, l⟩) := rfl
  have sent := Linked.onChannel_run (s := ⟨f.channel, l⟩) (write_run byte l.parameters.acknowledgement)
  unfold Linked.writeControl
  rw [Step.run_bind_of_ok known, Step.run_bind_of_ok sent]
  exact ⟨_, rfl, rfl, rfl⟩

/-- A round takes the next packet, if the response is spoiled, or if the packet is new and its checksum right. -/
theorem receiveRound_run {a a' : Linked.Assembly} {l l' : Link} (arrives : f.frames = x :: frames)
    (empty : f.ring.toList = []) (quick : l.parameters.turnaround = 0) (fits : 1 ≤ l.maxData)
    (good : a.spoiled = true ∨ x.crc = Crc.ofBytes ([startByte] ++ x.header ++ [0]))
    (free : a.spoiled = true ∨ Linked.standing l.lastReceived x.packet.control.toggle x.crc = .new)
    (placed : ∀ c, (Linked.place a x.packet x.crc).run ⟨c, Linked.noting l x.packet⟩ = (.ok a', ⟨c, l'⟩)) :
    ∃ g : Flood, (Linked.receiveRound a).run ⟨f.channel, l⟩ =
        (.ok (if x.packet.isLast then .inr (if a'.spoiled then .repeatRequest else .message a'.message) else .inl a'),
          ⟨g.channel, l'⟩) ∧
      g.frames = frames ∧ g.ring.toList = [] := by
  obtain ⟨g, read, rest, empty⟩ := receivePacket_run arrives empty quick fits good
  obtain ⟨g', sent, same, ring⟩ := writeControl_run ackByte g (Linked.noting l x.packet)
  exact ⟨g', Linked.receiveRound_taken read free sent (placed _), same.trans rest, ring ▸ empty⟩

/-- After a frame was read less waits. -/
theorem waiting_lt {g : Flood} (l l' : Link) (arrives : f.frames = x :: g.frames) (empty : g.ring.toList = []) :
    Linked.waiting ⟨g.channel, l'⟩ < Linked.waiting ⟨f.channel, l⟩ := by
  have none : g.channel.input.length = 0 := by
    show g.ring.length = 0
    rw [← Ring.length_toList, empty, List.length_nil]
  unfold Linked.waiting
  rw [none]
  simp only [channel, arrives, List.map_cons, Line.waiting, List.foldr_cons, Arrival.size, Frame.bytes,
    List.length_cons]
  omega

/-- **A spoiled response is received** up to its last packet, however many come before. -/
theorem rounds_spoiled {a : Linked.Assembly} {l : Link} {y : Frame} (spoiled : a.spoiled = true)
    (more : ∀ x ∈ frames, x.packet.isLast = false) (last : y.packet.isLast = true)
    (arrive : f.frames = frames ++ [y]) (empty : f.ring.toList = []) (quick : l.parameters.turnaround = 0)
    (fits : 1 ≤ l.maxData) :
    ∃ s', Step.Rounds Linked.answersLeft Linked.waiting Linked.receiveRound a ⟨f.channel, l⟩ .repeatRequest s' ∧
      s'.received = l.statistics.received + frames.length + 1 := by
  induction frames generalizing f l with
  | nil =>
    obtain ⟨g, run, -, -⟩ := receiveRound_run arrive empty quick fits (.inl spoiled) (.inl spoiled) fun c =>
      Linked.place_spoiled spoiled _ _ _
    rw [if_pos last, if_pos spoiled] at run
    exact ⟨_, .last run, rfl⟩
  | cons x frames ih =>
    obtain ⟨g, run, rest, empty⟩ := receiveRound_run arrive empty quick fits (.inl spoiled) (.inl spoiled) fun c =>
      Linked.place_spoiled spoiled _ _ _
    rw [more x List.mem_cons_self, if_neg Bool.false_ne_true] at run
    obtain ⟨s', rounds, received⟩ := ih (l := Linked.noting l x.packet)
      (fun x mem => more x (List.mem_cons_of_mem _ mem)) rest empty quick fits
    refine ⟨s', .more run (.inr ⟨rfl, waiting_lt l _ (by rw [arrive, rest]; rfl) empty⟩) rounds, ?_⟩
    rw [received, List.length_cons]
    show l.statistics.received + 1 + frames.length + 1 = _
    omega

/-- A frame in the middle of a message, and one that is a message of its own. -/
def stray : Frame := { control := 0x80, sequence := 1, checksum := (0xFF, 0xA7) }

def closing : Frame := { control := 0, sequence := 0, checksum := (0x11, 0x31) }

/-- A link that hears so many frames out of place, and then the last one. -/
def strays (n : Nat) : Linked where
  channel := channel { frames := stray :: (List.replicate n stray ++ [closing]) }
  link := .ofParameters { LinkParameters.ofConfig {} with turnaround := 0 }

theorem receiveMessage_strays (n : Nat) :
    ∃ s', Linked.receiveMessage.run (strays n) = (.ok .repeatRequest, s') ∧ s'.received = n + 2 := by
  have right : stray.crc = Crc.ofBytes ([startByte] ++ stray.header ++ [0]) := by
    rw [Crc.ofBytes_eq]
    decide +kernel
  have fits : 1 ≤ (strays 0).link.maxData := by decide
  have empty : Ring.empty.toList = [] := List.eq_nil_of_length_eq_zero (Ring.length_toList _)
  -- the first one spoils the response
  have placed (c : Channel) := Linked.place_breaks (a := {}) (p := stray.packet) rfl rfl stray.crc c
    (Linked.noting (strays n).link stray.packet)
  obtain ⟨g, run, rest, empty⟩ := receiveRound_run (f := { frames := stray :: (List.replicate n stray ++ [closing]) })
    (a := {}) (l := (strays n).link) rfl empty rfl fits (.inr right) (.inr rfl) placed
  obtain ⟨s', rounds, received⟩ := rounds_spoiled (a := { spoiled := true }) (y := closing)
    (l := Linked.missing (Linked.noting (strays n).link stray.packet)) rfl
    (fun x mem => by rw [List.eq_of_mem_replicate mem]; rfl) rfl rest empty rfl fits
  have all : Step.Rounds Linked.answersLeft Linked.waiting Linked.receiveRound {} (strays n) .repeatRequest s' :=
    .more run (.inr ⟨rfl, waiting_lt _ _ (by rw [rest]) empty⟩) rounds
  refine ⟨s', ?_, ?_⟩
  · unfold Linked.receiveMessage
    rw [Step.run_get_bind]
    exact Step.repeatWhileFed_run all (Nat.le_refl _)
  · rw [received, List.length_replicate]
    show 1 + n + 1 = n + 2
    omega

end Flood

namespace Linked

/-- **The retries do not bound how long a spoiled response is received.** -/
theorem receiveMessage_unbounded :
    ¬ ∃ bound : UInt8 → Nat, ∀ s : Linked,
      (receiveMessage.run s).2.heard ≤ s.heard + bound s.link.parameters.retries := by
  rintro ⟨bound, bounded⟩
  generalize hn : bound (Flood.strays 0).link.parameters.retries = n
  obtain ⟨s', run, received⟩ := Flood.receiveMessage_strays n
  have few := bounded (Flood.strays n)
  have retries : (Flood.strays n).link.parameters.retries = (Flood.strays 0).link.parameters.retries := rfl
  have fresh : (Flood.strays n).heard = 0 := rfl
  rw [run, retries, hn, fresh] at few
  have : s'.received ≤ s'.heard := by
    simp only [Linked.received, Linked.heard, LinkStatistics.heard]
    omega
  dsimp only at few
  omega

end Linked

end Metering
