import Mathlib.Logic.Relation
import Metering.Proofs.Sizes
import Metering.Proofs.Tempo

set_option autoImplicit false

/-! # A client asks only what fits

All that a client sends over packets goes out with a request. Its requests for tables keep to the limits of the
link as it finds it, and while the sizes of the link change, at the start of a session, its requests are brief.
So every request fits the packets that are agreed on when it is sent (`Client.Asks`), whatever the operation and
whatever the meter answers (`Client.requests_fit`). -/

namespace Metering

open Link (Sizes)
open Relation (ReflTransGen)
open Step (Moves Same)

theorem Linked.sizes_of_terms {s s' : Linked} (same : s'.terms = s.terms) : s'.link.sizes = s.link.sizes :=
  congrArg (fun t => (⟨t.1.packetSize, t.1.maxPackets, t.2.1, t.2.2⟩ : Sizes)) same

namespace Client

variable {α : Type}

/-! ## What is asked -/

/-- The sizes of the packet link, if there is one. -/
def sizes (c : Client) : Option Sizes :=
  match c.wire with
  | .packets link => some link.sizes
  | .apdus _ => none

/-- One thing that a client does: it sends a request that fits the sizes that hold, which are such as `P` says, and
receives the response, or its link takes on other sizes, or it sends nothing and the sizes stay. -/
inductive Asks (P : Sizes → Prop) : Client → Client → Prop
  | request {c : Client} {s : Sizes} {r : Request} (sizes : c.sizes = some s) (such : P s) (fits : s.Fits r) :
      Asks P c ((onLink (Linked.request r.bytes)).run c).2
  | identify {c : Client} {s : Sizes} (sizes : c.sizes = some s) (such : P s) (fits : s.Fits .identify) :
      Asks P c ((onLinked (.invalidState .identifyNeedsPackets)
        (Linked.requestWithMinimum Request.identify.bytes (Identification.minLength + 1))).run c).2
  | call {c : Client} {link : Link} (wire : c.wire = .packets link) (call : Link.Call) :
      Asks P c { c with wire := .packets (call.step.run link).2 }
  | silent {c c' : Client} (sizes : c'.sizes = c.sizes)
      (quiet : c'.channel.line.written = c.channel.line.written) : Asks P c c'

/-- The client has a packet link, whose sizes are such as `P` says. -/
def Meets (P : Sizes → Prop) (c : Client) : Prop := ∃ s, c.sizes = some s ∧ P s

/-- From sizes such as `P` says a client asks only what fits, and they stay such. -/
def Asked (P : Sizes → Prop) (c c' : Client) : Prop := c.Meets P → c'.Meets P ∧ ReflTransGen (Asks P) c c'

theorem Asks.mono {P Q : Sizes → Prop} (h : ∀ s, P s → Q s) {c c' : Client} (asks : Asks P c c') : Asks Q c c' := by
  cases asks with
  | request sizes such fits => exact .request sizes (h _ such) fits
  | identify sizes such fits => exact .identify sizes (h _ such) fits
  | call wire call => exact .call wire call
  | silent sizes quiet => exact .silent sizes quiet

instance (P : Sizes → Prop) : IsPreorder Client (Asked P) where
  refl _ meets := ⟨meets, .refl⟩
  trans _ _ _ h h' meets := by
    obtain ⟨between, first⟩ := h meets
    obtain ⟨after, second⟩ := h' between
    exact ⟨after, first.trans second⟩

theorem sizes_eq_some {c : Client} {s : Sizes} :
    c.sizes = some s ↔ ∃ link, c.wire = .packets link ∧ link.sizes = s := by
  rcases hw : c.wire with link | a <;> simp [sizes, hw]

theorem limits_of_sizes {c : Client} {s : Sizes} (h : c.sizes = some s) : c.limits = s.limits := by
  obtain ⟨link, wire, rfl⟩ := sizes_eq_some.1 h
  simp only [limits, maxRead, maxWrite, maxPartialWrite, wire]
  rfl

theorem onLinked_sizes (otherwise : Fault) {x : Step Linked α} (h : Moves (Same Linked.terms) x) :
    Moves (Same sizes) (onLinked otherwise x) := by
  refine .get_bind fun c => ?_
  rcases hw : c.wire with link | a
  · have kept : (x.run ⟨c.channel, link⟩).2.link.sizes = link.sizes := Linked.sizes_of_terms (h ⟨c.channel, link⟩)
    dsimp only
    rw [Step.run_set_bind, Step.run_ofExcept]
    simp only [Same, sizes, hw, kept]
  · exact refl_of (Same sizes) c

theorem onLink_sizes {x : Step Linked α} (h : Moves (Same Linked.terms) x) : Moves (Same sizes) (onLink x) :=
  .bind .get fun _ => onLinked_sizes _ h

section Asking

variable {P : Sizes → Prop}

/-! ## Steps that send nothing -/

theorem asked_of_silent {c c' : Client} (sizes : c'.sizes = c.sizes)
    (quiet : c'.channel.line.written = c.channel.line.written) : Asked P c c' := by
  rintro ⟨s, hs, hP⟩
  exact ⟨⟨s, sizes.trans hs, hP⟩, .single (.silent sizes quiet)⟩

theorem recorded_asked (c : Client) (t : Transaction) : Asked P c { c with exchanges := t :: c.exchanges } :=
  asked_of_silent rfl rfl

theorem onChannel_asked {x : Step Channel α} (h : Channel.Silent x) : Moves (Asked P) (onChannel x) :=
  .within h fun _ _ quiet => asked_of_silent rfl quiet

theorem onAssociated_asked (x : Step Associated α) : Moves (Asked P) (onAssociated x) := by
  refine .get_bind fun c => ?_
  rcases hw : c.wire with link | a
  · exact refl_of (Asked P) c
  · rintro ⟨s, hs, -⟩
    simp [sizes, hw] at hs

theorem changeLink_asked {f : Link → Link} (h : ∀ l, (f l).sizes = l.sizes) : Moves (Asked P) (changeLink f) := by
  refine .modify fun c => ?_
  rcases hw : c.wire with link | a
  · exact asked_of_silent (by simp [sizes, hw, h link]) rfl
  · exact refl_of (Asked P) c

theorem parameters_asked : Moves (Asked P) (onLink Linked.parameters) := by
  refine .get_bind fun c => ?_
  rcases hw : c.wire with link | a
  · have kept : ((onLinked (.invalidState (.noPacketLink c.dialect.name)) Linked.parameters).run c).2 = c := by
      unfold onLinked
      rw [Step.run_get_bind, hw]
      dsimp only
      rw [Step.run_set_bind, Step.run_ofExcept]
      simp only [Linked.parameters, Step.run_get_bind, Step.run_pure, ← hw]
    rw [kept]
    exact refl_of (Asked P) c
  · unfold onLinked
    rw [Step.run_get_bind, hw]
    exact refl_of (Asked P) c

theorem setDeadline_asked (deadline : Option Moment) : Moves (Asked P) (setDeadline deadline) :=
  .modify fun _ => asked_of_silent rfl rfl

theorem shutdown_asked : Moves (Asked P) shutdown := by
  intro c
  rw [shutdown_run]
  refine asked_of_silent ?_ (Channel.close_silent c.channel)
  rcases hw : c.wire with link | a <;> simp [sizes, wiped, hw]

/-! ## Steps that ask -/

theorem request_asked {r : Request} (fits : ∀ s, P s → s.Fits r) :
    Moves (Asked P) (onLink (Linked.request r.bytes)) := by
  rintro c ⟨s, hs, hP⟩
  have same := onLink_sizes (Linked.converses_terms.request r.bytes) c
  exact ⟨⟨s, same.trans hs, hP⟩, .single (.request hs hP (fits s hP))⟩

theorem serviceFrame_asked : ServiceFrame (fun r => ∀ s, P s → s.Fits r) (Asked P) where
  requested fits := request_asked fits
  associated _ := onAssociated_asked _
  slept d := onChannel_asked (Channel.silent_of_quiet (Channel.sleep_quiet d))
  unreported := changeLink_asked fun _ => rfl
  noted _ _ := asked_of_silent rfl rfl
  exchanged _ _ _ _ _ _ since := trans_of _ since (recorded_asked _ _)

end Asking

/-! ## Transfers -/

variable {config : Config}

/-- During a transfer the sizes stay as they are. -/
theorem operationFrame_asked {s : Sizes} (within : s.Within config) :
    OperationFrame (fun r => ∀ t, t = s → t.Fits r) (Asked (· = s)) where
  toCallFrame := serviceFrame_asked.calls
  waits made t ht := ht ▸ within.fits_brief (Request.brief_wait made)
  limited := by
    intro c c' h meets
    refine h (fun r keeps t ht => ?_) meets
    obtain ⟨_, hs, rfl⟩ := meets
    rw [limits_of_sizes hs] at keeps
    exact ht ▸ within.fits_keeps keeps
  forgot := changeLink_asked fun _ => rfl
  bounded := setDeadline_asked
  closed := shutdown_asked

/-! ## Starts -/

theorem identified_asked (valid : config.validate = .ok ()) :
    Moves (Asked (Sizes.Within config)) askIdentity := by
  rintro c ⟨s, hs, within⟩
  obtain ⟨link, wire, rfl⟩ := sizes_eq_some.1 hs
  -- the link starts over first
  have start : Asks (Sizes.Within config) c { c with wire := .packets (Link.Call.reset.step.run link).2 } :=
    .call wire .reset
  have within' := Link.within_call valid within .reset
  generalize ht : ({ c with wire := .packets (Link.Call.reset.step.run link).2 } : Client) = t at start
  have sizes : t.sizes = some (Link.Call.reset.step.run link).2.sizes := by rw [← ht]; rfl
  have asks := Asks.identify sizes within' (within'.fits_brief Request.brief_identify)
  have same := onLinked_sizes (.invalidState .identifyNeedsPackets)
    (Linked.converses_terms.requestWithMinimum Request.identify.bytes (Identification.minLength + 1)) t
  have run : askIdentity.run c =
      (onLinked (.invalidState .identifyNeedsPackets)
        (Linked.requestWithMinimum Request.identify.bytes (Identification.minLength + 1))).run t := by
    rw [← ht]
    unfold askIdentity onLinked
    rw [Step.run_get_bind, Step.run_get_bind, wire]
    rfl
  rw [run]
  exact ⟨⟨_, same.trans sizes, within'⟩, .head start (.single asks)⟩

theorem agreed_asked (valid : config.validate = .ok ()) (packetSize : UInt16) (maxPackets : UInt8) :
    Moves (Asked (Sizes.Within config)) (onLink (do
      let size ← Linked.onLink (Link.applyNegotiated packetSize maxPackets)
      return (size, (← get).link.maxPackets))) := by
  rintro c ⟨s, hs, within⟩
  obtain ⟨link, wire, rfl⟩ := sizes_eq_some.1 hs
  have run : ((onLink (do
      let size ← Linked.onLink (Link.applyNegotiated packetSize maxPackets)
      return (size, (← get).link.maxPackets))).run c).2 =
      { c with wire := .packets ((Link.Call.applyNegotiated packetSize maxPackets).step.run link).2 } := by
    unfold onLink onLinked
    rw [Step.run_get_bind, Step.run_get_bind, wire]
    dsimp only
    rw [Step.run_set_bind, Step.run_ofExcept, Link.Call.step, Linked.onLink, Step.run_bind, Step.run_bind, Step.run_within]
    rcases (Link.applyNegotiated packetSize maxPackets).run link with ⟨r, link'⟩
    cases r <;> rfl
  rw [run]
  exact ⟨⟨_, rfl, Link.within_call valid within _⟩, .single (.call wire _)⟩

theorem startFrame_asked (valid : config.validate = .ok ()) :
    StartFrame (fun r => ∀ s : Sizes, s.Within config → s.Fits r) (Asked (Sizes.Within config)) where
  toServiceFrame := serviceFrame_asked
  brief brief _ within := within.fits_brief brief
  told _ since := trans_of _ since (recorded_asked _ _)
  identified := identified_asked valid
  agreed := agreed_asked valid
  tuned speed := onChannel_asked (Channel.setBaud_silent speed)
  forgot := changeLink_asked fun _ => rfl
  moved _ _ _ := asked_of_silent rfl rfl
  recognised _ _ := asked_of_silent rfl rfl
  begun := onAssociated_asked _
  loggedOn := onAssociated_asked _
  opened := onChannel_asked Channel.openUp_silent
  closed := shutdown_asked

theorem timingSetup_asked (valid : config.validate = .ok ()) : Moves (Asked (Sizes.Within config)) timingSetup :=
  timingSetup_frame (startFrame_asked valid).toSessionFrame parameters_asked
    (fun _ _ _ _ => changeLink_asked fun _ => rfl) fun _ => .modify fun _ => asked_of_silent rfl rfl

/-- **Requests fit what was agreed on.** Whatever a meter answers to negotiate, packet size and count stay within
what was configured, and a refused answer changes neither. A client that has agreed on them asks only what fits,
whatever is asked of it, and during a transfer what fits these very sizes. -/
theorem requests_fit (valid : config.validate = .ok ()) (calls : List Link.Call) {link : Link}
    (after : (Link.ofParameters (.ofConfig config)).after calls = link) :
    link.sizes.Within config ∧
      (∀ (call : Link.Call) (e : Fault), (call.step.run link).1 = .error e → (call.step.run link).2 = link) ∧
      ∀ c : Client, c.sizes = some link.sizes →
        (∀ o : Operation, (o.step.run c).2.Meets (Sizes.Within config) ∧
          ReflTransGen (Asks (Sizes.Within config)) c (o.step.run c).2) ∧
        ∀ (t : Transfer) (timeout : Option Duration),
          ReflTransGen (Asks (· = link.sizes)) c ((Operation.transfer t timeout).step.run c).2 := by
  have within : link.sizes.Within config := after ▸ Link.within_after valid calls
  refine ⟨within, fun _ _ => Link.call_run_error, ?_⟩
  intro c sizes
  have meets : c.Meets (Sizes.Within config) := ⟨_, sizes, within⟩
  have transferred (t : Transfer) (timeout : Option Duration) :
      Asked (· = link.sizes) c ((Operation.transfer t timeout).step.run c).2 :=
    transfer_frame (operationFrame_asked within) t timeout (fun _ _ _ => asked_of_silent rfl rfl) c
  constructor
  · intro o
    cases o with
    | start => exact startSession_frame (startFrame_asked valid) (timingSetup_asked valid) c meets
    | finish => exact endSession_frame (startFrame_asked valid) c meets
    | transfer t timeout =>
      obtain ⟨⟨_, kept, rfl⟩, asked⟩ := transferred t timeout ⟨_, sizes, rfl⟩
      have weaken (c c' : Client) (asks : Asks (· = link.sizes) c c') : Asks (Sizes.Within config) c c' :=
        asks.mono fun _ same => same ▸ within
      exact ⟨⟨_, kept, within⟩, ReflTransGen.mono weaken _ _ asked⟩
  · intro t timeout
    exact (transferred t timeout ⟨_, sizes, rfl⟩).2

/-- A link whose meter has agreed on two packets of 64 bytes. The answer after that was refused. -/
def narrow : Link :=
  (Link.ofParameters (.ofConfig {})).after
    [.applyNegotiated 1024 200, .reset, .applyNegotiated 64 2, .applyNegotiated 16 1]

/-- A session on it. -/
def narrowSession : Client where
  dialect := .c1218
  config := {}
  channel := { line := { isClosed := false }, connected := true }
  phase := .active
  wire := .packets narrow

/-- A table with more bytes than two such packets hold. -/
def wideTable : Descriptor := { number := 3, access := .full, expectedSize := some 300 }

/-- Of the table only 108 bytes are asked for at once, which two packets hold with what stands around them. -/
theorem requests_fit_narrow :
    ({} : Config).validate = .ok () ∧ narrowSession.sizes = some ⟨1024, 255, 64, 2⟩ ∧
      ReflTransGen (Asks (· = narrow.sizes)) narrowSession
        ((Operation.transfer (.read wideTable) none).step.run narrowSession).2 ∧
      ((Operation.transfer (.read wideTable) none).step.run narrowSession).2.channel.line.messages.head? =
        some [startByte, 0, 0, 0, 0, 8, 0x3F, 0, 3, 0, 0, 0, 0, 108, 141, 174] := by
  have valid : ({} : Config).validate = .ok () := rfl
  have made : (Link.ofParameters (.ofConfig {})).after
      [.applyNegotiated 1024 200, .reset, .applyNegotiated 64 2, .applyNegotiated 16 1] = narrow := rfl
  obtain ⟨-, -, asked⟩ := requests_fit valid _ made
  refine ⟨valid, by rfl, (asked narrowSession rfl).2 (.read wideTable) none, ?_⟩
  decide +kernel

end Client

end Metering
