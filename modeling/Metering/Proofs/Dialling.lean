import Mathlib.Data.List.Chain
import Metering.Proofs.Deaf
import Metering.Proofs.Words

set_option autoImplicit false

/-! # Dialling, however the answers are cut

A line brings the answer of a modem in reads, and the modem listens only until it understands a reply (`Modem.listen`,
`Modem.receive_run`). What comes behind that is dropped by the next command, or heard with the next answer. So it
depends on the cuts what is understood, which words are quoted in a fault, what speed the port takes on, and what is
left for the next answer to begin with.

None of these depends on the cuts if the answers are `Modem.Plain`. A reply is then understood in a beginning of a text
only if the whole text says it; exactly such texts are understood alike however they are cut (`Modem.clear_iff`). Words
that are used are on one line, and come with the reply. And what follows a reply comes without a pause that the next
command would take for its end. Two runs over the same plain answers, each cut in its own way, are compared exchange by
exchange (`Modem.ask_alike`): all they send is the same, since what sends is deaf to the clock and to what is heard.

An answer that is cut behind `CONNECT` is not plain: the speed printed there is never seen. -/

namespace Metering

open ModemReply (isBlank recognize?)
open Line (Deaf Port Waited)

/-! ## Answers in pieces -/

namespace Chunks

variable {d d' : Chunks} {p : Duration × Bytes}

/-- The bytes of all items. -/
def bytes (d : Chunks) : Bytes := d.flatMap (·.2)

/-- The text a modem hears in them. -/
def text (d : Chunks) : List Char := d.bytes.map Modem.heardChar

@[simp] theorem text_nil : text [] = [] := rfl

@[simp] theorem text_cons : text (p :: d) = p.2.map Modem.heardChar ++ text d := by simp [text, bytes]

/-- Every item is taken by one read, and comes within the timeout. -/
structure InTime (timeout : Duration) (d : Chunks) : Prop extends d.Ordered where
  fits : ∀ p ∈ d, p.2.length ≤ Modem.readChunk
  timely : ∀ p ∈ d, p.1 ≤ timeout

instance (timeout : Duration) (d : Chunks) : Decidable (d.InTime timeout) :=
  decidable_of_iff
    (((∀ p ∈ d, p.2 ≠ []) ∧ d.Pairwise (·.1 ≤ ·.1)) ∧ (∀ p ∈ d, p.2.length ≤ Modem.readChunk) ∧ ∀ p ∈ d, p.1 ≤ timeout)
    ⟨fun ⟨⟨full, order⟩, fits, timely⟩ => ⟨⟨full, order⟩, fits, timely⟩,
      fun h => ⟨⟨h.some, h.order⟩, h.fits, h.timely⟩⟩

end Chunks

namespace Modem

variable {α : Type} {m m' : Modem} {d d' : Chunks} {heard : List Char} {reply : ModemReply} {timeout : Duration}

/-- An answer at the moment in which it is understood. -/
structure Hearing where
  reply : ModemReply
  /-- What came before, and was not understood. -/
  heard : List Char
  /-- The read that made it understood. -/
  read : Duration × Bytes
  behind : Chunks

namespace Hearing

def piece (h : Hearing) : List Char := h.read.2.map heardChar

end Hearing

/-- An answer is listened to until a reply is recognised, `heard` having come before. -/
def listen (heard : List Char) : Chunks → Option Hearing
  | [] => none
  | read :: behind =>
    match recognize? (heard ++ read.2.map heardChar) with
    | some reply => some { reply, heard, read, behind }
    | none => listen (heard ++ read.2.map heardChar) behind

/-- What is understood was not understood before. -/
theorem listen_some {h : Hearing} (early : recognize? heard = none) (understood : listen heard d = some h) :
    recognize? h.heard = none ∧ recognize? (h.heard ++ h.piece) = some h.reply ∧
      heard ++ d.text = h.heard ++ h.piece ++ h.behind.text ∧ (∀ p ∈ h.read :: h.behind, p ∈ d) := by
  induction d generalizing heard with
  | nil => cases understood
  | cons p d ih =>
    rw [Chunks.text_cons, ← List.append_assoc]
    unfold listen at understood
    cases here : recognize? (heard ++ p.2.map heardChar) with
    | some reply =>
      rw [here] at understood
      obtain rfl := Option.some.inj understood
      exact ⟨early, here, rfl, fun _ mem => mem⟩
    | none =>
      rw [here] at understood
      obtain ⟨before, now, whole, within⟩ := ih here understood
      exact ⟨before, now, whole, fun p mem => List.mem_cons_of_mem _ (within p mem)⟩

theorem listen_none (early : recognize? heard = none) :
    listen heard d = none ↔ recognize? (heard ++ d.text) = none := by
  induction d generalizing heard with
  | nil => simp [listen, early]
  | cons p d ih =>
    rw [Chunks.text_cons, ← List.append_assoc]
    unfold listen
    cases here : recognize? (heard ++ p.2.map heardChar) with
    | some reply =>
      refine iff_of_false (fun none => by cases none) fun none => ?_
      rw [ModemReply.recognize?_eq_none_of_append none] at here
      cases here
    | none => exact ih here

/-- A clear text is understood as what it says. -/
theorem reply_of_clear (clear : Clear d.text) : (listen [] d).map (·.reply) = recognize? d.text := by
  cases understood : listen [] d with
  | none => exact ((listen_none rfl).1 understood).symm
  | some h =>
    obtain ⟨-, here, whole, -⟩ := listen_some rfl understood
    exact (clear _ ⟨h.behind.text, whole.symm⟩ h.reply here).symm

/-- **Clear texts** are those that are understood alike however they are cut. -/
theorem clear_iff (d : Chunks) :
    Clear d.text ↔ ∀ d' : Chunks, d'.bytes = d.bytes → (listen [] d').map (·.reply) = recognize? d.text := by
  constructor
  · intro clear d' same
    have text : d'.text = d.text := by rw [Chunks.text, Chunks.text, same]
    rw [← text] at clear ⊢
    exact reply_of_clear clear
  · intro alike part begins reply here
    -- a first read brings the part
    have front : part = (d.bytes.take part.length).map heardChar := by
      rw [List.map_take]
      exact List.prefix_iff_eq_take.1 begins
    have two := alike [(0, d.bytes.take part.length), (0, d.bytes.drop part.length)] (by simp [Chunks.bytes])
    unfold listen at two
    rw [List.nil_append, ← front, here] at two
    exact two.symm

/-! ## Draining -/

theorem onLine_run (x : Step Line α) (m : Modem) :
    (onLine x).run m = ((x.run m.line).1, { m with line := (x.run m.line).2 }) := rfl

/-- A run of the line with a known end. -/
theorem onLine_of_run {x : Step Line α} {r : Except Fault α} {l : Line} (run : x.run m.line = (r, l)) :
    (onLine x).run m = (r, { m with line := l }) := by
  rw [onLine_run, run]

/-- All that comes are data, and a read takes each item as a whole. -/
def Legible (arrivals : List (Moment × Arrival)) : Prop :=
  ∀ a ∈ arrivals, ∃ bytes, a.2 = .data bytes ∧ bytes ≠ [] ∧ bytes.length ≤ readChunk

/-- What comes never pauses for longer than it takes to be drained. -/
def Trickles : Moment → List (Moment × Arrival) → Prop
  | _, [] => True
  | now, a :: rest => a.1 ≤ now + drainTime ∧ Trickles (max now a.1) rest

theorem Trickles.later {arrivals : List (Moment × Arrival)} {now now' : Moment} (h : Trickles now arrivals)
    (le : now ≤ now') : Trickles now' arrivals := by
  induction arrivals generalizing now now' with
  | nil => trivial
  | cons a rest ih =>
    obtain ⟨first, more⟩ := h
    exact ⟨Nat.le_trans first (Nat.add_le_add_right le _),
      ih more (Nat.max_le.2 ⟨Nat.le_trans le (Nat.le_max_left _ _), Nat.le_max_right _ _⟩)⟩

theorem Legible.length_le {l : Line} (h : Legible l.arrivals) : l.arrivals.length ≤ l.waiting := by
  unfold Line.waiting
  generalize l.arrivals = arrivals at h ⊢
  induction arrivals with
  | nil => exact Nat.le_refl _
  | cons a rest ih =>
    obtain ⟨bytes, data, some, -⟩ := h a List.mem_cons_self
    have size : 0 < a.2.size := by
      rw [data]
      exact List.length_pos_iff.2 some
    have more := ih fun b mem => h b (List.mem_cons_of_mem _ mem)
    rw [List.length_cons, List.foldr_cons]
    omega

/-- One round of draining. -/
def drainRound (_ : Unit) : Step Modem (Unit ⊕ Unit) := do
  match ← onLine (Line.read ((← get).line.now + drainTime) false readChunk) with
  | .data _ => return .inl ()
  | .ended => throw .disconnected
  | _ => return .inr ()

theorem drain_eq : drain = rounds drainRound () := rfl

theorem drainRounds_run {fuel : Nat} (legible : Legible m.line.arrivals) (left : m.line.arrivals.length < fuel) :
    ∃ l, (Step.repeatUpTo drainRound fuel ()).run m = (.ok (), { m with line := l }) ∧ Waited m.line l ∧
      Legible l.arrivals ∧ (Trickles m.line.now m.line.arrivals → l.arrivals = []) := by
  induction fuel generalizing m with
  | zero => exact absurd left (Nat.not_lt_zero _)
  | succ fuel ih =>
    unfold Step.repeatUpTo
    by_cases silent : ∀ a ∈ m.line.arrivals.head?, max m.line.now (m.line.now + drainTime) < a.1
    · obtain ⟨l, read, waited, same⟩ := Line.read_elapsed readChunk silent
      have round : (drainRound ()).run m = (.ok (.inr ()), { m with line := l }) := by
        unfold drainRound
        rw [Step.run_get_bind, Step.run_bind_of_ok (onLine_of_run read)]
        rfl
      rw [Step.run_bind_of_ok round]
      refine ⟨l, rfl, waited, same ▸ legible, fun trickles => ?_⟩
      rw [same]
      cases here : m.line.arrivals with
      | nil => rfl
      | cons a rest =>
        rw [here] at trickles silent
        have late := silent a rfl
        rw [Nat.max_eq_right (Nat.le_add_right _ _)] at late
        exact absurd trickles.1 (Nat.not_le_of_lt late)
    · obtain ⟨a, first, timely⟩ :
          ∃ a, m.line.arrivals.head? = some a ∧ a.1 ≤ max m.line.now (m.line.now + drainTime) := by
        simpa using silent
      obtain ⟨rest, here⟩ := List.head?_eq_some_iff.1 first
      obtain ⟨t, item⟩ := a
      have all := legible
      rw [here] at all
      obtain ⟨bytes, data, -, fits⟩ := all _ List.mem_cons_self
      obtain rfl : item = .data bytes := data
      obtain ⟨l, read, waited, arrivals, now⟩ := Line.read_data here timely fits
      have round : (drainRound ()).run m = (.ok (.inl ()), { m with line := l }) := by
        unfold drainRound
        rw [Step.run_get_bind, Step.run_bind_of_ok (onLine_of_run read)]
        rfl
      rw [Step.run_bind_of_ok round]
      have more : Legible l.arrivals := by
        rw [arrivals]
        exact fun b mem => all b (List.mem_cons_of_mem _ mem)
      have fewer : l.arrivals.length < fuel := by
        rw [here, List.length_cons] at left
        rw [arrivals]
        omega
      obtain ⟨l', run, waited', legible', drained⟩ := ih (m := { m with line := l }) more fewer
      refine ⟨l', run, waited.trans waited', legible', fun trickles => drained ?_⟩
      rw [here] at trickles
      dsimp only
      rw [arrivals, now]
      exact trickles.2

theorem drain_run (legible : Legible m.line.arrivals) :
    ∃ l, drain.run m = (.ok (), { m with line := l }) ∧ Waited m.line l ∧ Legible l.arrivals ∧
      (Trickles m.line.now m.line.arrivals → l.arrivals = []) := by
  rw [drain_eq]
  exact drainRounds_run legible (Nat.lt_succ_of_le legible.length_le)

/-! ## One answer -/

/-- The fault of an answer that was not understood. -/
def unanswered (text : List Char) : Fault :=
  let said := trim (lastLine text)
  .modem (if said.isEmpty then .noResponse else .unknownResponse (String.ofList said))

/-- How a wait for an answer ends that comes as `d`, counted from `base`, behind `heard`. -/
inductive Reception (heard : List Char) (d : Chunks) (base : Moment) (m : Modem) :
    Except Fault ModemReply × Modem → Prop
  | understood {h : Hearing} {l : Line} (hearing : listen heard d = some h) (waited : Waited m.line l)
      (arrivals : l.arrivals = h.behind.arrivals base) (now : base + h.read.1 ≤ l.now) :
      Reception heard d base m
        (.ok h.reply, { m with line := l, lastReply := onOneLine (lastLine h.heard ++ h.piece) })
  | silent {l : Line} (hearing : listen heard d = none) (waited : Waited m.line l) :
      Reception heard d base m (.error (unanswered (heard ++ d.text)), { m with line := l })

theorem replyRound_silent (none : m.line.arrivals = []) (deadline : Moment) (heard : List Char) : ∃ l,
    (replyRound deadline (lastLine heard)).run m = (.error (unanswered heard), { m with line := l }) ∧
      Waited m.line l := by
  have late : ∀ a ∈ m.line.arrivals.head?, max m.line.now deadline < a.1 := by simp [none]
  obtain ⟨l, read, waited, -⟩ := Line.read_elapsed readChunk late
  refine ⟨l, ?_, waited⟩
  unfold replyRound
  rw [Step.run_bind_of_ok (onLine_of_run read)]
  rfl

theorem replyRound_data {t deadline : Moment} {bytes : Bytes} {rest : List (Moment × Arrival)}
    (here : m.line.arrivals = (t, .data bytes) :: rest) (timely : t ≤ deadline) (fits : bytes.length ≤ readChunk)
    (early : recognize? heard = none) :
    ∃ l, Waited m.line l ∧ l.arrivals = rest ∧ t ≤ l.now ∧
      (replyRound deadline (lastLine heard)).run m = match recognize? (heard ++ bytes.map heardChar) with
        | some reply => (.ok (.inr reply),
            { m with line := l, lastReply := onOneLine (lastLine heard ++ bytes.map heardChar) })
        | none => (.ok (.inl (lastLine (heard ++ bytes.map heardChar))), { m with line := l }) := by
  obtain ⟨l, read, waited, arrivals, now⟩ := Line.read_data here (Nat.le_trans timely (Nat.le_max_right _ _)) fits
  refine ⟨l, waited, arrivals, now ▸ Nat.le_max_right _ _, ?_⟩
  unfold replyRound
  rw [Step.run_bind_of_ok (onLine_of_run read)]
  dsimp only
  rw [robust_recognize?.trim_eq, ModemReply.recognize?_window early]
  cases recognize? (heard ++ bytes.map heardChar) with
  | some reply => rfl
  | none =>
    dsimp only
    rw [lastLine_lastLine_append]
    rfl

theorem Reception.of_waited {l : Line} {base : Moment} {r : Except Fault ModemReply × Modem} (waited : Waited m.line l)
    (h : Reception heard d base { m with line := l } r) : Reception heard d base m r := by
  cases h with
  | understood hearing waited' arrivals now => exact .understood hearing (waited.trans waited') arrivals now
  | silent hearing waited' => exact .silent hearing (waited.trans waited')

theorem Reception.of_read {p : Duration × Bytes} {base : Moment} {r : Except Fault ModemReply × Modem}
    (early : recognize? (heard ++ p.2.map heardChar) = none) (h : Reception (heard ++ p.2.map heardChar) d base m r) :
    Reception heard (p :: d) base m r := by
  have same : listen heard (p :: d) = listen (heard ++ p.2.map heardChar) d := by rw [listen, early]
  cases h with
  | understood hearing waited arrivals now => exact .understood (same.trans hearing) waited arrivals now
  | silent hearing waited =>
    have silent : Reception heard (p :: d) base m _ := .silent (same.trans hearing) waited
    rwa [Chunks.text_cons, ← List.append_assoc] at silent

theorem replyRounds_run {base deadline : Moment} {fuel : Nat} (early : recognize? heard = none)
    (fits : ∀ p ∈ d, p.2.length ≤ readChunk) (timely : ∀ p ∈ d, base + p.1 ≤ deadline)
    (arrivals : m.line.arrivals = d.arrivals base) (left : d.length < fuel) :
    Reception heard d base m ((Step.repeatUpTo (replyRound deadline) fuel (lastLine heard)).run m) := by
  -- on the reads that are still to come; what was heard before was not understood
  induction d generalizing m heard fuel with
  | nil =>
    obtain ⟨fuel, rfl⟩ := Nat.exists_eq_succ_of_ne_zero (Nat.ne_of_gt left)
    obtain ⟨l, round, waited⟩ := replyRound_silent arrivals deadline heard
    unfold Step.repeatUpTo
    rw [Step.run_bind_of_error round]
    have silent : Reception heard [] base m _ := .silent rfl waited
    rwa [Chunks.text_nil, List.append_nil] at silent
  | cons p d ih =>
    obtain ⟨fuel, rfl⟩ := Nat.exists_eq_succ_of_ne_zero (Nat.ne_of_gt (Nat.lt_of_le_of_lt (Nat.zero_le _) left))
    obtain ⟨l, waited, rest, now, round⟩ := replyRound_data arrivals (timely p List.mem_cons_self)
      (fits p List.mem_cons_self) early
    unfold Step.repeatUpTo
    cases here : recognize? (heard ++ p.2.map heardChar) with
    | some reply =>
      rw [here] at round
      rw [Step.run_bind_of_ok round]
      have hearing : listen heard (p :: d) = some ⟨reply, heard, p, d⟩ := by rw [listen, here]
      exact .understood hearing waited rest now
    | none =>
      rw [here] at round
      rw [Step.run_bind_of_ok round]
      have more := ih (m := { m with line := l }) here (fun q mem => fits q (List.mem_cons_of_mem _ mem))
        (fun q mem => timely q (List.mem_cons_of_mem _ mem)) rest (Nat.lt_of_succ_lt_succ left)
      exact (more.of_waited waited).of_read here

theorem legible_arrivals (some : ∀ p ∈ d, p.2 ≠ []) (fits : ∀ p ∈ d, p.2.length ≤ readChunk) (base : Moment) :
    Legible (d.arrivals base) := by
  intro a mem
  obtain ⟨p, there, rfl⟩ := List.mem_map.1 mem
  exact ⟨p.2, rfl, some p there, fits p there⟩

/-- **One answer** that comes in time is understood with the first read that lets a reply be recognised. -/
theorem receive_run (inTime : d.InTime timeout) (arrivals : m.line.arrivals = d.arrivals m.line.now) :
    Reception [] d m.line.now m ((receive timeout).run m) := by
  have legible := legible_arrivals inTime.some inTime.fits m.line.now
  rw [← arrivals] at legible
  have count : d.length = m.line.arrivals.length := by rw [arrivals, Chunks.arrivals, List.length_map]
  have left : d.length < m.line.waiting + 1 := Nat.lt_succ_of_le (count ▸ legible.length_le)
  have timely : ∀ p ∈ d, m.line.now + p.1 ≤ m.line.now + timeout :=
    fun p mem => Nat.add_le_add_left (inTime.timely p mem) _
  have run : (receive timeout).run m =
      (Step.repeatUpTo (replyRound (m.line.now + timeout)) (m.line.waiting + 1) (lastLine [])).run m := rfl
  rw [run]
  exact replyRounds_run rfl inTime.fits timely arrivals left

/-! ## What an answer has to be like -/

/-- The words beside the reply go into a fault. -/
def quotes (dials : Bool) : ModemReply → Bool
  | .error => true
  | .connect => !dials
  | .ok => dials
  | _ => false

/-- Another command follows the reply. -/
def proceeds (dials : Bool) : ModemReply → Bool
  | .ok => !dials
  | .busy => dials
  | _ => false

/-- The number beside the reply becomes the speed of the port. -/
def tunes (s : ModemSettings) (dials : Bool) (reply : ModemReply) : Bool :=
  dials && s.matchConnectBaud && decide (reply = .connect)

/-- An answer to the init string, or to the number, that is understood alike however it is cut. -/
structure Plain (s : ModemSettings) (dials : Bool) (d : Chunks) : Prop where
  inTime : d.InTime (if dials then s.dialTimeout else s.commandTimeout)
  clear : Clear d.text
  oneLine : ∀ reply ∈ recognize? d.text, quotes dials reply = true → OneLine d.text
  announces : ∀ reply ∈ recognize? d.text, tunes s dials reply = true → Announces d.text
  /-- The words that are used come with the reply. -/
  complete : ∀ h ∈ listen [] d, (quotes dials h.reply || tunes s dials h.reply) = true →
    ∀ c ∈ h.behind.text, isBlank c = true
  /-- What comes behind the reply is drained before the next command. -/
  prompt : ∀ h ∈ listen [] d, proceeds dials h.reply = true →
    (h.read :: h.behind).IsChain fun p q => q.1 ≤ p.1 + drainTime

instance (s : ModemSettings) (dials : Bool) (d : Chunks) : Decidable (Plain s dials d) :=
  decidable_of_iff
    (d.InTime (if dials then s.dialTimeout else s.commandTimeout) ∧ Clear d.text ∧
      (∀ reply ∈ recognize? d.text, quotes dials reply = true → OneLine d.text) ∧
      (∀ reply ∈ recognize? d.text, tunes s dials reply = true → Announces d.text) ∧
      (∀ h ∈ listen [] d, (quotes dials h.reply || tunes s dials h.reply) = true → h.behind.text.all isBlank = true) ∧
      ∀ h ∈ listen [] d, proceeds dials h.reply = true →
        (h.read :: h.behind).IsChain fun p q => q.1 ≤ p.1 + drainTime)
    ⟨fun ⟨inTime, clear, line, first, complete, prompt⟩ => ⟨inTime, clear, line, first,
        fun h mem used => List.all_eq_true.1 (complete h mem used), prompt⟩,
      fun h => ⟨h.inTime, h.clear, h.oneLine, h.announces,
        fun g mem used => List.all_eq_true.2 (h.complete g mem used), h.prompt⟩⟩

/-- The same texts, cut in two ways, as the answers to init strings and numbers in turn. -/
inductive Told (s : ModemSettings) : (dials : Bool) → List FarAnswer → List FarAnswer → Prop
  | nil (dials : Bool) : Told s dials [] []
  | cons {dials : Bool} {answer answer' : FarAnswer} {answers answers' : List FarAnswer}
      (told : ∀ messages, ∃ d d' : Chunks, answer messages = d.events ∧ answer' messages = d'.events ∧
        d'.bytes = d.bytes ∧ Plain s dials d ∧ Plain s dials d')
      (rest : Told s (!dials) answers answers') : Told s dials (answer :: answers) (answer' :: answers')

variable {s : ModemSettings} {dials : Bool} {h : Hearing} {answers answers' : List FarAnswer} {port : Port}

theorem plain_nil (s : ModemSettings) (dials : Bool) : Plain s dials [] where
  inTime := ⟨⟨by simp, .nil⟩, by simp, by simp⟩
  clear := by decide
  oneLine _ none := by cases none
  announces _ none := by cases none
  complete _ none := by cases none
  prompt _ none := by cases none

/-- The next answers, whatever was sent. -/
theorem Told.next (h : Told s dials answers answers') (messages : List Bytes) :
    ∃ d d' : Chunks, Line.answered answers messages = d.events ∧ Line.answered answers' messages = d'.events ∧
      d'.bytes = d.bytes ∧ Plain s dials d ∧ Plain s dials d' ∧ Told s (!dials) answers.tail answers'.tail := by
  cases h with
  | nil => exact ⟨[], [], rfl, rfl, rfl, plain_nil s dials, plain_nil s dials, .nil _⟩
  | cons told rest =>
    obtain ⟨d, d', events, events', same, plain, plain'⟩ := told messages
    exact ⟨d, d', events, events', same, plain, plain', rest⟩

namespace Plain

theorem reply_eq (plain : Plain s dials d) (hearing : listen [] d = some h) : recognize? d.text = some h.reply := by
  rw [← reply_of_clear plain.clear, hearing]
  rfl

/-- The words that go into a fault are those of the whole answer. -/
theorem quoted (plain : Plain s dials d) (hearing : listen [] d = some h) (quotes : quotes dials h.reply = true) :
    onOneLine (lastLine h.heard ++ h.piece) = onOneLine d.text := by
  obtain ⟨early, here, whole, -⟩ := listen_some rfl hearing
  rw [List.nil_append] at whole
  have line := plain.oneLine _ (plain.reply_eq hearing) quotes
  rw [whole] at line ⊢
  exact onOneLine_window line (plain.complete _ hearing (by rw [quotes, Bool.true_or])) early (by simp [here])

/-- The number is the one that the whole answer prints. -/
theorem speed (plain : Plain s dials d) (hearing : listen [] d = some h) (tunes : tunes s dials h.reply = true) :
    connectBaud? (onOneLine (lastLine h.heard ++ h.piece)) = announced? d.text := by
  obtain ⟨early, here, whole, -⟩ := listen_some rfl hearing
  rw [List.nil_append] at whole
  have line := plain.announces _ (plain.reply_eq hearing) tunes
  rw [connectBaud?_onOneLine]
  rw [whole] at line ⊢
  exact announced?_window line (plain.complete _ hearing (by rw [tunes, Bool.or_true])) early

theorem legible (plain : Plain s dials d) (hearing : listen [] d = some h) (base : Moment) :
    Legible (h.behind.arrivals base) := by
  obtain ⟨-, -, -, within⟩ := listen_some rfl hearing
  have inside : ∀ p ∈ h.behind, p ∈ d := fun p mem => within p (List.mem_cons_of_mem _ mem)
  exact legible_arrivals (fun p mem => plain.inTime.some p (inside p mem))
    (fun p mem => plain.inTime.fits p (inside p mem)) base

end Plain

/-- Data without long pauses are drained as they come. -/
theorem trickles_of_chain {p : Duration × Bytes} {base now : Moment} (started : base + p.1 ≤ now)
    (chain : (p :: d).IsChain fun p q => q.1 ≤ p.1 + drainTime) : Trickles now (d.arrivals base) := by
  induction d generalizing p now with
  | nil => trivial
  | cons q d ih =>
    obtain ⟨next, chain⟩ := List.isChain_cons_cons.1 chain
    refine ⟨?_, ih (Nat.le_max_right _ _) chain⟩
    have late : base + q.1 ≤ base + p.1 + drainTime := by
      rw [Nat.add_assoc]
      exact Nat.add_le_add_left next base
    exact Nat.le_trans late (Nat.add_le_add_right started _)

/-! ## One exchange -/

/-- A command as it is sent. -/
def commandLine (command : String) : Bytes := command.toUTF8.toList ++ [0x0D]

/-- A command and the wait for its answer. -/
def ask (command : String) (timeout : Duration) : Step Modem ModemReply := do
  send command
  receive timeout

/-- A modem that can be sent a command: what is still heard of the last answer will be drained. -/
structure Ready (m : Modem) : Prop where
  noEcho : m.line.autoEcho = false
  legible : Legible m.line.arrivals
  trickles : Trickles m.line.now m.line.arrivals

/-- Two modems that did the same and will be told the same. -/
structure Paired (dials : Bool) (m m' : Modem) : Prop where
  sending : m'.line.sending = m.line.sending
  settings : m'.settings = m.settings
  ready : Ready m
  ready' : Ready m'
  told : Told m.settings dials m.line.answers m'.line.answers

/-- Two runs ended alike, and did the same to the medium. -/
structure SameEnd (r r' : Except Fault α × Modem) : Prop where
  result : r'.1 = r.1
  sending : r'.2.line.sending = r.2.line.sending

/-- The modem `n` after the first of `answers`, which was `d`. -/
structure Answered (s : ModemSettings) (dials : Bool) (answers : List FarAnswer) (port : Port)
    (d : Chunks) (reply : ModemReply) (n : Modem) : Prop where
  settings : n.settings = s
  left : n.line.answers = answers.tail
  port : n.line.port = port
  events : Line.answered answers n.line.messages = d.events
  recognised : recognize? d.text = some reply
  legible : Legible n.line.arrivals
  trickles : proceeds dials reply = true → Trickles n.line.now n.line.arrivals
  quoted : quotes dials reply = true → n.lastReply = onOneLine d.text
  speed : tunes s dials reply = true → connectBaud? n.lastReply = announced? d.text

/-- Two modems ended alike, and if they understood a reply, it was the same in both. -/
structure Matched (s : ModemSettings) (dials : Bool) (answers answers' : List FarAnswer)
    (port : Port) (r r' : Except Fault ModemReply × Modem) : Prop extends SameEnd r r' where
  understood : ∀ reply, r.1 = .ok reply → ∃ d d' : Chunks, d'.text = d.text ∧
    Answered s dials answers port d reply r.2 ∧ Answered s dials answers' port d' reply r'.2 ∧
    Told s (!dials) answers.tail answers'.tail

theorem send_run (command : String) (ready : Ready m) :
    ∃ l, Waited m.line l ∧ l.arrivals = [] ∧ ∀ r l', (Line.dispatch (commandLine command)).run l = (r, l') →
      (send command).run m = (r, { m with line := l' }) := by
  obtain ⟨l, drained, waited, -, empty⟩ := drain_run ready.legible
  refine ⟨l, waited, empty ready.trickles, fun r l' run => ?_⟩
  have both : (do
      onLine (Line.writeAll (commandLine command))
      let _ ← onLine (Line.flush none) : Step Modem Unit).run { m with line := l } = (r, { m with line := l' }) := by
    have one := onLine_of_run (m := { m with line := l }) run
    rw [← one, onLine_run, Line.dispatch, Step.run_bind, Step.run_bind, onLine_run]
    rcases (Line.writeAll (commandLine command)).run l with ⟨e | u, t⟩
    · rfl
    · dsimp only
      rw [Step.run_bind, Step.run_bind, onLine_run]
      dsimp only
      rcases (Line.flush none).run t with ⟨e | u, t'⟩ <;> rfl
  unfold send
  rw [Step.run_bind_of_ok drained]
  exact both

/-- A modem that was sent a command, and to which the first of `answers`, which is `d`, is on its way. -/
structure Awaiting (s : ModemSettings) (answers : List FarAnswer) (port : Port) (d : Chunks)
    (m : Modem) : Prop where
  settings : m.settings = s
  left : m.line.answers = answers.tail
  port : m.line.port = port
  events : Line.answered answers m.line.messages = d.events
  arrivals : m.line.arrivals = d.arrivals m.line.now

/-- A command was sent, and the answer to it is on its way. -/
theorem Ready.awaiting (ready : Ready m) {bytes : Bytes} {l sent : Line} (full : bytes ≠ []) (waited : Waited m.line l)
    (quiet : l.arrivals = []) (run : (Line.dispatch bytes).run l = (.ok (), sent)) (ordered : d.Ordered)
    (events : Line.answered m.line.answers sent.messages = d.events) :
    Awaiting m.settings m.line.answers m.line.port d { m with line := sent } := by
  have port := Line.port_of_sending waited.sending
  have noEcho : l.autoEcho = false := (congrArg Port.autoEcho port).trans ready.noEcho
  rw [← waited.answers, ← port]
  rw [← waited.answers] at events
  obtain ⟨left, kept, arrivals⟩ := Line.dispatch_answered quiet noEcho full run ordered events
  exact ⟨rfl, left, kept, events, arrivals⟩

/-- What a modem is like that has heard the answer. -/
theorem Plain.answered (plain : Plain s dials d) (waiting : Awaiting s answers port d m)
    (hearing : listen [] d = some h) {l : Line} (waited : Waited m.line l)
    (behind : l.arrivals = h.behind.arrivals m.line.now) (started : m.line.now + h.read.1 ≤ l.now) :
    Answered s dials answers port d h.reply
      { m with line := l, lastReply := onOneLine (lastLine h.heard ++ h.piece) } where
  settings := waiting.settings
  left := waited.answers.trans waiting.left
  port := (Line.port_of_sending waited.sending).trans waiting.port
  events := by
    rw [← waiting.events]
    exact congrArg _ (Line.messages_of_sending waited.sending)
  recognised := plain.reply_eq hearing
  legible := behind ▸ plain.legible hearing m.line.now
  trickles proceeds := behind ▸ trickles_of_chain started (plain.prompt h hearing proceeds)
  quoted := plain.quoted hearing
  speed := plain.speed hearing

/-- **One answer** that comes in two ways is understood alike. -/
theorem receive_alike (waiting : Awaiting s answers port d m) (waiting' : Awaiting s answers' port d' m')
    (sending : m'.line.sending = m.line.sending) (text : d'.text = d.text) (plain : Plain s dials d)
    (plain' : Plain s dials d') (told : Told s (!dials) answers.tail answers'.tail) :
    Matched s dials answers answers' port ((receive (if dials then s.dialTimeout else s.commandTimeout)).run m)
      ((receive (if dials then s.dialTimeout else s.commandTimeout)).run m') := by
  have received := receive_run plain.inTime waiting.arrivals
  have received' := receive_run plain'.inTime waiting'.arrivals
  generalize (receive (if dials then s.dialTimeout else s.commandTimeout)).run m = r at received ⊢
  generalize (receive (if dials then s.dialTimeout else s.commandTimeout)).run m' = r' at received' ⊢
  -- both understand, or both do not: the text decides
  cases received with
  | @understood h l hearing waited behind started =>
    cases received' with
    | @understood h' l' hearing' waited' behind' started' =>
      have reply : h'.reply = h.reply :=
        Option.some.inj ((plain'.reply_eq hearing').symm.trans (text ▸ plain.reply_eq hearing))
      have one := plain.answered waiting hearing waited behind started
      have other := plain'.answered waiting' hearing' waited' behind' started'
      rw [reply] at other
      refine ⟨⟨congrArg Except.ok reply, waited'.sending.trans (sending.trans waited.sending.symm)⟩, fun r ok => ?_⟩
      obtain rfl := Except.ok.inj ok
      exact ⟨d, d', text, one, other, told⟩
    | silent hearing' waited' =>
      have none := (listen_none rfl).1 hearing'
      rw [List.nil_append, text, plain.reply_eq hearing] at none
      cases none
  | silent hearing waited =>
    cases received' with
    | @understood h' l' hearing' waited' behind' started' =>
      have none := (listen_none rfl).1 hearing
      rw [List.nil_append, ← text, plain'.reply_eq hearing'] at none
      cases none
    | silent hearing' waited' =>
      rw [text]
      exact ⟨⟨rfl, waited'.sending.trans (sending.trans waited.sending.symm)⟩, fun reply none => by cases none⟩

/-- **One exchange** ends alike in two modems that are told the same. -/
theorem ask_alike (paired : Paired dials m m') (command : String) :
    Matched m.settings dials m.line.answers m'.line.answers m.line.port
      ((ask command (if dials then m.settings.dialTimeout else m.settings.commandTimeout)).run m)
      ((ask command (if dials then m.settings.dialTimeout else m.settings.commandTimeout)).run m') := by
  obtain ⟨l, waited, quiet, sends⟩ := send_run command paired.ready
  obtain ⟨l', waited', quiet', sends'⟩ := send_run command paired.ready'
  have same : l'.sending = l.sending := waited'.sending.trans (paired.sending.trans waited.sending.symm)
  obtain ⟨result, sending⟩ := (Line.dispatch_deaf (commandLine command)).alike same
  rcases dispatched : (Line.dispatch (commandLine command)).run l with ⟨r, sent⟩
  rcases dispatched' : (Line.dispatch (commandLine command)).run l' with ⟨r', sent'⟩
  rw [dispatched, dispatched'] at result sending
  obtain rfl : r' = r := result
  replace sending : sent'.sending = sent.sending := sending
  have run := sends _ _ dispatched
  have run' := sends' _ _ dispatched'
  unfold ask
  cases r' with
  | error e =>
    rw [Step.run_bind_of_error run, Step.run_bind_of_error run']
    exact ⟨⟨rfl, sending⟩, fun reply none => by cases none⟩
  | ok u =>
    rw [Step.run_bind_of_ok run, Step.run_bind_of_ok run']
    obtain ⟨d, d', events, events', bytes, plain, plain', rest⟩ := paired.told.next sent.messages
    have text : d'.text = d.text := by rw [Chunks.text, Chunks.text, bytes]
    rw [← Line.messages_of_sending sending] at events'
    have full : commandLine command ≠ [] := by simp [commandLine]
    have waiting := paired.ready.awaiting full waited quiet dispatched plain.inTime.toOrdered events
    have waiting' := paired.ready'.awaiting full waited' quiet' dispatched' plain'.inTime.toOrdered events'
    have same' : Awaiting m.settings m'.line.answers m.line.port d' { m' with line := sent' } := by
      rw [← paired.settings, ← Line.port_of_sending paired.sending]
      exact waiting'
    exact receive_alike waiting same' sending text plain plain' rest

/-! ## Dialling -/

/-- A reply that is not wanted gives a fault, and only some faults quote the answer. -/
theorem unwanted_congr (dials : Bool) {said said' : String} (other : reply ≠ if dials then .connect else .ok)
    (same : quotes dials reply = true → said' = said) : unwanted reply said' = unwanted reply said := by
  cases reply with
  | noCarrier | noDialTone | busy | noAnswer | ring => rfl
  | error => rw [same rfl]
  | connect =>
    cases dials with
    | true => exact absurd rfl other
    | false => rw [same rfl]
  | ok =>
    cases dials with
    | true => rw [same rfl]
    | false => exact absurd rfl other

theorem Answered.unwanted_eq (one : Answered s dials answers port d reply m)
    (other : Answered s dials answers' port d' reply m') (text : d'.text = d.text)
    (refused : reply ≠ if dials then .connect else .ok) : unwanted reply m'.lastReply = unwanted reply m.lastReply :=
  unwanted_congr dials refused fun quotes => by rw [one.quoted quotes, other.quoted quotes, onOneLine, onOneLine, text]

/-- Modems that understood the same answer can be sent the next command. -/
theorem Answered.paired (one : Answered s dials answers port d reply m)
    (other : Answered s dials answers' port d' reply m') (next : proceeds dials reply = true)
    (noEcho : port.autoEcho = false) (sending : m'.line.sending = m.line.sending)
    (told : Told s (!dials) answers.tail answers'.tail) : Paired (!dials) m m' where
  sending := sending
  settings := other.settings.trans one.settings.symm
  ready := ⟨(congrArg Port.autoEcho one.port).trans noEcho, one.legible, one.trickles next⟩
  ready' := ⟨(congrArg Port.autoEcho other.port).trans noEcho, other.legible, other.trickles next⟩
  told := by
    rw [one.settings, one.left, other.left]
    exact told

/-- What becomes of an attempt after the answer to the init string. -/
def afterInit (s : ModemSettings) : Except Fault ModemReply × Modem → Except Fault ModemReply × Modem
  | (.ok .ok, n) => (ask (s.dialPrefix ++ s.phoneNumber) s.dialTimeout).run n
  | (.ok reply, n) => (.error (unwanted reply n.lastReply), n)
  | (.error e, n) => (.error e, n)

theorem afterInit_unwanted (other : reply ≠ .ok) (s : ModemSettings) (n : Modem) :
    afterInit s (.ok reply, n) = (.error (unwanted reply n.lastReply), n) := by
  cases reply with
  | ok => exact absurd rfl other
  | connect | noCarrier | error | noDialTone | busy | noAnswer | ring => rfl

/-- An attempt begins with the init string. -/
theorem attempt_run (m : Modem) :
    attempt.run m = afterInit m.settings ((ask m.settings.initString m.settings.commandTimeout).run m) := by
  unfold attempt ask
  rw [Step.run_get_bind]
  dsimp only
  rw [Step.run_bind, Step.run_bind]
  rcases (send m.settings.initString).run m with ⟨e | u, t⟩
  · rfl
  dsimp only
  rw [Step.run_bind]
  rcases (receive m.settings.commandTimeout).run t with ⟨e | reply, n⟩
  · rfl
  · cases reply <;> rfl

/-- **One attempt** ends alike in two modems that are told the same. -/
theorem attempt_alike (paired : Paired false m m') :
    Matched m.settings true m.line.answers.tail m'.line.answers.tail m.line.port (attempt.run m) (attempt.run m') := by
  have first := ask_alike paired m.settings.initString
  rw [if_neg Bool.false_ne_true] at first
  rw [attempt_run, attempt_run, paired.settings]
  generalize (ask m.settings.initString m.settings.commandTimeout).run m = r at first ⊢
  generalize (ask m.settings.initString m.settings.commandTimeout).run m' = r' at first ⊢
  obtain ⟨r, n⟩ := r
  obtain ⟨r', n'⟩ := r'
  obtain rfl : r' = r := first.result
  have sending : n'.line.sending = n.line.sending := first.sending
  cases r' with
  | error e => exact ⟨⟨rfl, sending⟩, fun reply none => by cases none⟩
  | ok reply =>
    obtain ⟨d, d', text, one, other, told⟩ := first.understood reply rfl
    replace one : Answered m.settings false m.line.answers m.line.port d reply n := one
    replace other : Answered m.settings false m'.line.answers m.line.port d' reply n' := other
    by_cases fine : reply = .ok
    · obtain rfl := fine
      have next : Paired true n n' := one.paired other rfl paired.ready.noEcho sending told
      have second := ask_alike next (m.settings.dialPrefix ++ m.settings.phoneNumber)
      rwa [one.settings, one.left, other.left, one.port, if_pos rfl] at second
    · rw [afterInit_unwanted fine, afterInit_unwanted fine, one.unwanted_eq other text fine]
      exact ⟨⟨rfl, sending⟩, fun reply none => by cases none⟩

/-- The line with the speed that a connected modem printed. -/
def tuned (m : Modem) : Line :=
  if m.settings.matchConnectBaud then
    match connectBaud? m.lastReply with
    | some baud => ((Line.setBaud baud).run m.line).2
    | none => m.line
  else m.line

theorem sleep_run (time : Duration) (m : Modem) :
    ∃ l, (sleep time).run m = (.ok (), { m with line := l }) ∧ Waited m.line l ∧ l.arrivals = m.line.arrivals := by
  obtain ⟨waited, same⟩ := Line.waited_pause (m.line.now + time) m.line
  exact ⟨_, rfl, waited, same⟩

theorem settle_eq (m : Modem) :
    settle.run m = (sleep settleTime >>= fun _ => drain).run { m with line := tuned m } := by
  unfold settle tuned
  rw [Step.run_get_bind]
  dsimp only
  cases m.settings.matchConnectBaud with
  | false => rw [if_neg Bool.false_ne_true, if_neg Bool.false_ne_true]
  | true =>
    rw [if_pos rfl, if_pos rfl]
    cases connectBaud? m.lastReply with
    | none => rfl
    | some baud => rw [Step.run_outcome_bind, onLine_run]

/-- The speed is set, or not, and the modem is left alone for a while. -/
theorem settle_run (legible : Legible m.line.arrivals) :
    ∃ l, settle.run m = (.ok (), { m with line := l }) ∧ Waited (tuned m) l := by
  have kept : (tuned m).arrivals = m.line.arrivals := by
    unfold tuned
    split
    · split
      · rw [Line.setBaud_run]
        split <;> rfl
      · rfl
    · rfl
  obtain ⟨slept, run, waited, same⟩ := sleep_run settleTime { m with line := tuned m }
  obtain ⟨l, drained, waited', -⟩ := drain_run (m := { m with line := slept }) (same.trans kept ▸ legible)
  rw [settle_eq, Step.run_bind_of_ok run]
  exact ⟨l, drained, waited.trans waited'⟩

theorem tuned_sending (settings : m'.settings = m.settings) (sending : m'.line.sending = m.line.sending)
    (speed : m.settings.matchConnectBaud = true → connectBaud? m'.lastReply = connectBaud? m.lastReply) :
    (tuned m').sending = (tuned m).sending := by
  unfold tuned
  rw [settings]
  split
  next wanted =>
    rw [speed wanted]
    cases connectBaud? m.lastReply with
    | none => exact sending
    | some baud => exact ((Line.setBaud_deaf baud).alike sending).2
  · exact sending

/-- Setting the speed is no message, and is not answered. -/
theorem tuned_kept (m : Modem) : (tuned m).answers = m.line.answers ∧ (tuned m).messages = m.line.messages := by
  unfold tuned
  split
  · split
    next baud _ =>
      rw [Line.setBaud_run]
      split
      · exact ⟨rfl, by simp [Line.messages, Line.note]⟩
      · exact ⟨rfl, by simp [Line.messages, Line.note]⟩
    · exact ⟨rfl, rfl⟩
  · exact ⟨rfl, rfl⟩

/-- The speed of a port behind the text with which the modem was connected. -/
def speedAfter (s : ModemSettings) (port : Port) (text : List Char) : Option Nat :=
  if s.matchConnectBaud && !port.baudRefused then (announced? text).or port.baud else port.baud

theorem tuned_baud (h : Answered s true answers port d .connect m) :
    (tuned m).baud = speedAfter s port d.text := by
  have speed := h.speed
  rw [← h.port, speedAfter, tuned, h.settings]
  unfold tunes at speed
  cases wanted : s.matchConnectBaud with
  | false => rfl
  | true =>
    rw [wanted] at speed
    rw [if_pos rfl, speed rfl]
    have refused : m.line.port.baudRefused = m.line.baudRefused := rfl
    have before : m.line.port.baud = m.line.baud := rfl
    rw [refused, before]
    cases announced? d.text with
    | none => cases m.line.baudRefused <;> rfl
    | some baud =>
      dsimp only
      rw [Line.setBaud_run]
      cases m.line.baudRefused <;> rfl

/-- The line of a modem that was connected by the last answer it was given, at the speed which that answer prints. -/
def Connected (s : ModemSettings) (answers : List FarAnswer) (port : Port) (l : Line) : Prop :=
  ∃ before answer, ∃ d : Chunks, answers = before ++ answer :: l.answers ∧ answer l.messages = d.events ∧
    recognize? d.text = some .connect ∧ l.baud = speedAfter s port d.text

/-- An attempt uses up two answers. -/
theorem Answered.used (h : Answered s dials answers.tail port d reply m) :
    ∃ first second, answers = first :: second :: m.line.answers ∧ second m.line.messages = d.events := by
  have events := h.events
  rw [h.left]
  match answers with
  | [] | [_] =>
    obtain rfl : d = [] := List.map_eq_nil_iff.1 events.symm
    cases h.recognised
  | first :: second :: rest => exact ⟨first, second, rfl, events⟩

/-- A connection by a later answer, as it is seen from before the attempt that used up the first two. -/
theorem Connected.earlier {l l' : Line} (h : Connected s l.answers l.port l')
    (one : Answered s true answers.tail port d reply m) (waited : Waited m.line l) : Connected s answers port l' := by
  obtain ⟨before, answer, last, used, events, recognised, speed⟩ := h
  obtain ⟨first, second, uses, -⟩ := one.used
  refine ⟨first :: second :: before, answer, last, ?_, events, recognised, ?_⟩
  · rw [uses, ← waited.answers, used]
    rfl
  · rw [speed, Line.port_of_sending waited.sending, one.port]

theorem connect_of_error {e : Fault} {n : Modem} (run : attempt.run m = (.error e, n)) (retries : Nat) :
    (connect retries).run m = (.error e, n) := by
  cases retries <;> exact Step.run_bind_of_error run

theorem connect_of_connect {n : Modem} (run : attempt.run m = (.ok .connect, n)) (retries : Nat) :
    (connect retries).run m = settle.run n := by
  cases retries <;> exact Step.run_bind_of_ok run

theorem connect_of_busy {n : Modem} (run : attempt.run m = (.ok .busy, n)) (retries : Nat) :
    (connect (retries + 1)).run m = (sleep n.settings.busyRetryDelay >>= fun _ => connect retries).run n :=
  Step.run_bind_of_ok run

theorem connect_of_other {n : Modem} (run : attempt.run m = (.ok reply, n)) (other : reply ≠ .connect) {retries : Nat}
    (last : reply = .busy → retries = 0) : (connect retries).run m = (.error (unwanted reply n.lastReply), n) := by
  cases retries with
  | zero =>
    refine (Step.run_bind_of_ok run).trans ?_
    cases reply with
    | connect => exact absurd rfl other
    | noCarrier | error | noDialTone | busy | noAnswer | ok | ring => rfl
  | succ retries =>
    refine (Step.run_bind_of_ok run).trans ?_
    cases reply with
    | connect => exact absurd rfl other
    | busy => cases last rfl
    | noCarrier | error | noDialTone | noAnswer | ok | ring => rfl

theorem Ready.slept (ready : Ready m) {l : Line} (waited : Waited m.line l) (same : l.arrivals = m.line.arrivals) :
    Ready { m with line := l } where
  noEcho := (congrArg Port.autoEcho (Line.port_of_sending waited.sending)).trans ready.noEcho
  legible := same ▸ ready.legible
  trickles := (same ▸ ready.trickles).later waited.now_le

theorem Paired.slept (paired : Paired dials m m') {l l' : Line} (waited : Waited m.line l) (waited' : Waited m'.line l')
    (same : l.arrivals = m.line.arrivals) (same' : l'.arrivals = m'.line.arrivals) :
    Paired dials { m with line := l } { m' with line := l' } where
  sending := waited'.sending.trans (paired.sending.trans waited.sending.symm)
  settings := paired.settings
  ready := paired.ready.slept waited same
  ready' := paired.ready'.slept waited' same'
  told := by
    dsimp only
    rw [waited.answers, waited'.answers]
    exact paired.told

/-- Two modems connect alike, or fail alike, and if they connect the port has the speed that was printed. -/
structure ConnectAlike (retries : Nat) (m m' : Modem) : Prop extends
    SameEnd ((connect retries).run m) ((connect retries).run m') where
  connected : ((connect retries).run m).1 = .ok () →
    Connected m.settings m.line.answers m.line.port ((connect retries).run m).2.line

/-- Both modems are connected, and settle. -/
theorem settle_alike (one : Answered s true answers.tail port d .connect m)
    (other : Answered s true answers' port d' .connect m') (text : d'.text = d.text)
    (sending : m'.line.sending = m.line.sending) :
    SameEnd (settle.run m) (settle.run m') ∧ Connected s answers port (settle.run m).2.line := by
  obtain ⟨l, run, waited⟩ := settle_run one.legible
  obtain ⟨l', run', waited'⟩ := settle_run other.legible
  have tuned : (tuned m').sending = (tuned m).sending := by
    refine tuned_sending (other.settings.trans one.settings.symm) sending fun wanted => ?_
    have tunes : tunes s true .connect = true := by
      rw [one.settings] at wanted
      simp [Modem.tunes, wanted]
    rw [one.speed tunes, other.speed tunes, text]
  rw [run, run']
  refine ⟨⟨rfl, waited'.sending.trans (tuned.trans waited.sending.symm)⟩, ?_⟩
  obtain ⟨first, second, used, events⟩ := one.used
  obtain ⟨answers_kept, messages_kept⟩ := tuned_kept m
  have messages : l.messages = m.line.messages := (Line.messages_of_sending waited.sending).trans messages_kept
  have baud : l.baud = (Modem.tuned m).baud := congrArg Port.baud (Line.port_of_sending waited.sending)
  refine ⟨[first], second, d, ?_, ?_, one.recognised, baud.trans (tuned_baud one)⟩
  · dsimp only
    rw [waited.answers, answers_kept]
    exact used
  · dsimp only
    rw [messages]
    exact events

theorem connectAlike_of_again (paired : Paired false m m') {retries : Nat}
    (again : ∀ left, retries = left + 1 → ∀ m m', Paired false m m' → ConnectAlike left m m') :
    ConnectAlike retries m m' := by
  have step := attempt_alike paired
  rcases tried : attempt.run m with ⟨r, n⟩
  rcases tried' : attempt.run m' with ⟨r', n'⟩
  rw [tried, tried'] at step
  obtain rfl : r' = r := step.result
  have sending : n'.line.sending = n.line.sending := step.sending
  cases r' with
  | error e =>
    constructor
    · rw [connect_of_error tried, connect_of_error tried']
      exact ⟨rfl, sending⟩
    · rw [connect_of_error tried]
      intro none
      cases none
  | ok reply =>
    obtain ⟨d, d', text, one, other, told⟩ := step.understood reply rfl
    replace one : Answered m.settings true m.line.answers.tail m.line.port d reply n := one
    replace other : Answered m.settings true m'.line.answers.tail m.line.port d' reply n' := other
    by_cases connects : reply = .connect
    · obtain rfl := connects
      obtain ⟨same, connected⟩ := settle_alike one other text sending
      constructor
      · rw [connect_of_connect tried, connect_of_connect tried']
        exact same
      · rw [connect_of_connect tried]
        exact fun _ => connected
    by_cases redials : reply = .busy ∧ retries ≠ 0
    · obtain ⟨rfl, more⟩ := redials
      obtain ⟨left, rfl⟩ := Nat.exists_eq_succ_of_ne_zero more
      have next : Paired false n n' := one.paired other rfl paired.ready.noEcho sending told
      obtain ⟨l, slept, waited, same⟩ := sleep_run n.settings.busyRetryDelay n
      obtain ⟨l', slept', waited', same'⟩ := sleep_run n'.settings.busyRetryDelay n'
      have later := again left rfl _ _ (next.slept waited waited' same same')
      have run := (connect_of_busy tried left).trans (Step.run_bind_of_ok slept)
      have run' := (connect_of_busy tried' left).trans (Step.run_bind_of_ok slept')
      constructor
      · rw [run, run']
        exact later.toSameEnd
      · rw [run]
        intro ok
        have connected := later.connected ok
        refine Connected.earlier ?_ one waited
        rw [← one.settings]
        exact connected
    · have last : reply = .busy → retries = 0 := fun busy => Classical.not_not.1 fun more => redials ⟨busy, more⟩
      constructor
      · rw [connect_of_other tried connects last, connect_of_other tried' connects last,
          one.unwanted_eq other text connects]
        exact ⟨rfl, sending⟩
      · rw [connect_of_other tried connects last]
        intro none
        cases none

/-- **Connecting** ends alike in two modems that are told the same, and then the port has the speed that was printed. -/
theorem connect_alike (paired : Paired false m m') (retries : Nat) : ConnectAlike retries m m' := by
  induction retries generalizing m m' with
  | zero => exact connectAlike_of_again paired fun left none => by cases none
  | succ retries ih =>
    refine connectAlike_of_again paired fun left same m m' paired => ?_
    obtain rfl := Nat.succ.inj same
    exact ih paired

theorem dial_alike (paired : Paired false m m') :
    SameEnd (dial.run m) (dial.run m') ∧
      ((dial.run m).1 = .ok () → Connected m.settings m.line.answers m.line.port (dial.run m).2.line) := by
  have connects := connect_alike paired m.settings.busyRetries.toNat
  unfold dial
  rw [Step.run_get_bind, Step.run_get_bind, paired.settings]
  dsimp only
  by_cases nobody : m.settings.phoneNumber.isEmpty = true
  · rw [if_pos nobody]
    exact ⟨⟨rfl, paired.sending⟩, fun none => by cases none⟩
  · rw [if_neg nobody]
    exact ⟨connects.toSameEnd, connects.connected⟩

/-- A modem that is opened dials; if that fails, the line is closed. -/
def afterDial : Except Fault Unit × Modem → Except Fault Unit × Modem
  | (.ok (), n) => (.ok (), n)
  | (.error e, n) => (.error e, { n with line := (Line.close.run n.line).2 })

theorem openUp_run (m : Modem) :
    openUp.run m = match Line.openUp.run m.line with
      | (.ok (), line) => afterDial (dial.run { m with line, lastReply := "" })
      | (.error e, line) => (.error e, { m with line, lastReply := "" }) := by
  unfold openUp
  rw [Step.run_modify_bind, Step.run_bind, onLine_run]
  rcases Line.openUp.run m.line with ⟨e | u, l⟩
  · rfl
  dsimp only
  rw [Step.run_outcome_bind]
  rcases dial.run { m with line := l, lastReply := "" } with ⟨e | u, n⟩
  · rfl
  · rfl

theorem ready_of_quiet (noEcho : m.line.autoEcho = false) (quiet : m.line.arrivals = []) : Ready m := by
  refine ⟨noEcho, ?_, ?_⟩
  · rw [quiet]
    intro a none
    cases none
  · rw [quiet]
    trivial

/-- **Opening** ends alike with two lines on which the same will be told. -/
theorem openUp_alike (last last' : String) (l l' : Line) (sending : l'.sending = l.sending)
    (noEcho : l.autoEcho = false) (quiet : l.arrivals = []) (quiet' : l'.arrivals = [])
    (told : Told s false l.answers l'.answers) :
    SameEnd (openUp.run ⟨l, s, last⟩) (openUp.run ⟨l', s, last'⟩) ∧
      ((openUp.run ⟨l, s, last⟩).1 = .ok () → Connected s l.answers l.port (openUp.run ⟨l, s, last⟩).2.line) := by
  rw [openUp_run, openUp_run]
  dsimp only
  obtain ⟨result, left⟩ := Line.openUp_deaf.alike sending
  have kept := Line.openUp_listening l
  have kept' := Line.openUp_listening l'
  generalize Line.openUp.run l = opened at result left kept ⊢
  generalize Line.openUp.run l' = opened' at result left kept' ⊢
  obtain ⟨r, l1⟩ := opened
  obtain ⟨r', l1'⟩ := opened'
  obtain rfl : r' = r := result
  replace left : l1'.sending = l1.sending := left
  cases r' with
  | error e => exact ⟨⟨rfl, left⟩, fun none => by cases none⟩
  | ok u =>
    simp only [Step.Same, Line.listening, Prod.mk.injEq] at kept kept'
    obtain ⟨arrivals, answers, port⟩ := kept
    obtain ⟨arrivals', answers', port'⟩ := kept'
    have silent : l1.arrivals = [] := arrivals.trans quiet
    have silent' : l1'.arrivals = [] := arrivals'.trans quiet'
    have mute : l1.autoEcho = false := (congrArg Port.autoEcho port).trans noEcho
    have mute' : l1'.autoEcho = false := (congrArg Port.autoEcho (Line.port_of_sending left)).trans mute
    have paired : Paired false ⟨l1, s, ""⟩ ⟨l1', s, ""⟩ := {
      sending := left
      settings := rfl
      ready := ready_of_quiet mute silent
      ready' := ready_of_quiet mute' silent'
      told := by
        dsimp only
        rw [answers, answers']
        exact told }
    obtain ⟨same, connected⟩ := dial_alike paired
    dsimp only at same connected ⊢
    rw [answers, port] at connected
    generalize dial.run ⟨l1, s, ""⟩ = dialled at same connected ⊢
    generalize dial.run ⟨l1', s, ""⟩ = dialled' at same ⊢
    obtain ⟨r, n⟩ := dialled
    obtain ⟨r', n'⟩ := dialled'
    obtain rfl : r' = r := same.result
    cases r' with
    | ok u => exact ⟨same, connected⟩
    | error e => exact ⟨⟨rfl, (Line.close_deaf.alike same.sending).2⟩, fun none => by cases none⟩

/-- How often the number was dialled. -/
def dialled (s : ModemSettings) (l : Line) : Nat :=
  l.messages.count (commandLine (s.dialPrefix ++ s.phoneNumber))

/-- **Dialling does not depend on how the answers are cut**: opening a modem has the same result, does the same to the
medium and leaves the port at the same speed, which is the one that is printed behind `CONNECT` if it is wanted. -/
theorem openUp_cut {l : Line} (last : String) (noEcho : l.autoEcho = false) (quiet : l.arrivals = [])
    (told : Told s false answers answers') :
    let cut := openUp.run ⟨{ l with answers }, s, last⟩
    let cut' := openUp.run ⟨{ l with answers := answers' }, s, last⟩
    cut'.1 = cut.1 ∧ cut'.2.line.entries = cut.2.line.entries ∧ dialled s cut'.2.line = dialled s cut.2.line ∧
      cut'.2.line.baud = cut.2.line.baud ∧ (cut.1 = .ok () → Connected s answers l.port cut.2.line) := by
  obtain ⟨same, connected⟩ :=
    openUp_alike last last { l with answers } { l with answers := answers' } rfl noEcho quiet quiet told
  have sending := same.sending
  intro cut cut'
  refine ⟨same.result, Line.entries_of_sending sending, ?_, ?_, connected⟩
  · rw [dialled, Line.messages_of_sending sending, dialled]
  · exact congrArg Port.baud (Line.port_of_sending sending)

/-! ## Two runs of each kind -/

/-- A modem that is dialled again once, and whose speed is taken on. -/
def cautious : ModemSettings :=
  { ModemSettings.ofNumber { portName := "/dev/ttyS0", baud := 1200 } "5551234" with
    busyRetries := 1
    matchConnectBaud := true }

/-- A text that comes as one read, so many milliseconds after the command. -/
def said (time : Nat) (text : String) : Duration × Bytes := (Duration.ofMillis time, text.toUTF8.toList)

/-- An answer that does not depend on what was sent. -/
def spoken (d : Chunks) : FarAnswer := fun _ => d.events

/-- A line on which these answers are given. -/
def lineWith (answers : List Chunks) : Line := { answers := answers.map spoken }

/-- A busy number is dialled again, and the speed is taken on, in one piece and in several. -/
theorem openUp_cut_redialled :
    let whole := [[said 5 "\r\nOK\r\n"], [said 900 "BUSY\r\n"], [said 5 "OK\r\n"], [said 900 "ATD\r\nCONNECT 9600\r\n"]]
    let pieces := [[said 5 "\r\nO", said 9 "K\r", said 12 "\n"], [said 700 "B", said 800 "USY\r\n"], [said 5 "OK\r\n"],
      [said 500 "ATD\r\n", said 600 "CON", said 700 "NECT 9600\r", said 999 "\n"]]
    Told cautious false (whole.map spoken) (pieces.map spoken) ∧
      let cut := openUp.run ⟨lineWith whole, cautious, ""⟩
      let cut' := openUp.run ⟨lineWith pieces, cautious, ""⟩
      (cut.1 = .ok () ∧ dialled cautious cut.2.line = 2 ∧ cut.2.line.baud = some 9600) ∧
        cut'.1 = cut.1 ∧ cut'.2.line.entries = cut.2.line.entries ∧
          dialled cautious cut'.2.line = dialled cautious cut.2.line ∧ cut'.2.line.baud = cut.2.line.baud ∧
          (cut.1 = .ok () → Connected cautious (whole.map spoken) (lineWith []).port cut.2.line) := by
  intro whole pieces
  have told : Told cautious false (whole.map spoken) (pieces.map spoken) :=
    .cons (fun _ => ⟨_, _, rfl, rfl, by decide +kernel, by decide +kernel, by decide +kernel⟩) <|
    .cons (fun _ => ⟨_, _, rfl, rfl, by decide +kernel, by decide +kernel, by decide +kernel⟩) <|
    .cons (fun _ => ⟨_, _, rfl, rfl, by decide +kernel, by decide +kernel, by decide +kernel⟩) <|
    .cons (fun _ => ⟨_, _, rfl, rfl, by decide +kernel, by decide +kernel, by decide +kernel⟩) <| .nil false
  exact ⟨told, by decide +kernel, openUp_cut (l := lineWith []) "" rfl rfl told⟩

/-- **The speed is missed** where the answer is cut behind `CONNECT`. -/
theorem openUp_cut_speed :
    let whole := [[said 5 "OK\r\n"], [said 900 "CONNECT 9600\r\n"]]
    let pieces := [[said 5 "OK\r\n"], [said 900 "CONNECT", said 900 " 9600\r\n"]]
    pieces.map Chunks.bytes = whole.map Chunks.bytes ∧
      (∀ d ∈ whole ++ pieces, Chunks.InTime cautious.commandTimeout d ∧ Chunks.InTime cautious.dialTimeout d) ∧
      let cut := openUp.run ⟨lineWith whole, cautious, ""⟩
      let cut' := openUp.run ⟨lineWith pieces, cautious, ""⟩
      (cut.1 = .ok () ∧ cut.2.line.baud = some 9600) ∧ cut'.1 = .ok () ∧ cut'.2.line.baud = none := by
  decide +kernel

end Modem

end Metering
