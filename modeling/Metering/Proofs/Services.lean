import Metering.Client.Tables
import Metering.Proofs.Exchange
import Metering.Proofs.Pace
import Metering.Proofs.Requests
import Metering.Proofs.Splitting

set_option autoImplicit false

/-! # What services leave alone

Services do to a client what they do on its wire, and they note what they did. A relation that both
respect (`Client.Frame`) is respected by all that is made of services: the transfers of tables,
procedures and waits. So, whatever a service does on the wire, and however it ends, it leaves the phase
of the client where it was and the keys where they are (`Client.frame_core`). -/

namespace Metering

open Step (Moves Same)

/-! ## Associations -/

theorem SecurityContext.nextVector_key : Moves (Same key) nextVector := by
  intro c
  unfold nextVector
  simp only [Step.run_get_bind, Step.run_set_bind]
  cases c.lastVector with
  | none => rfl
  | some last =>
    dsimp only
    split
    · split <;> rfl
    · rfl

namespace Association

/-- The keys of an association, wherever they are. -/
def keys (a : Association) : Bytes × Option SecretKey := (a.options.securityKey, a.security.map (·.key))

theorem keys_of_outgoing {a a' : Association} (h : a'.outgoing = a.outgoing) : a'.keys = a.keys := by
  have options : a'.options = a.options := congrArg (·.identity.settings.options) h
  have security : a'.security = a.security := congrArg (·.security) h
  rw [keys, keys, options, security]

theorem chooseSeal_keys : Moves (Same keys) chooseSeal := by
  intro a
  unfold chooseSeal
  rw [Step.run_get_bind]
  split
  next _ s secured _ =>
    -- a new vector changes the context but not its key
    have kept := SecurityContext.nextVector_key s
    rcases hn : SecurityContext.nextVector.run s with ⟨r, s'⟩
    rw [hn] at kept
    have chosen : ((chooseAuthentication s).run a).2.keys = a.keys := by
      have renewed : ({ a with security := some s' } : Association).keys = a.keys := by
        rw [keys, keys, secured, Option.map_some, Option.map_some, kept]
      unfold chooseAuthentication
      rw [Step.run_get_bind]
      split
      · rfl
      · simp only [hn]
        rw [Step.run_modify_bind]
        cases r <;> exact renewed
    split
    · rfl
    · rw [Step.run_bind]
      rcases hc : (chooseAuthentication s).run a with ⟨r, a'⟩
      rw [hc] at chosen
      cases r <;> exact chosen
  next => rfl

theorem build_keys (o : Acse.Outgoing) : Moves (Same keys) (build o) :=
  .bind chooseSeal_keys fun _ => .bind .get fun _ => .ofExcept _

theorem advanceId_keys (a : Association) : a.advanceId.keys = a.keys := by
  unfold advanceId
  split <;> rfl

theorem afterLogon_keys (a : Association) : a.afterLogon.keys = a.keys := by
  unfold afterLogon
  split <;> rfl

theorem beginSession_keys (a : Association) : a.beginSession.keys = a.keys := rfl

end Association

namespace Associated

theorem prepare_keys (a : Association) : (prepare a).keys = a.keys := by
  unfold prepare
  split
  · dsimp only
    split <;> rfl
  · rfl

/-- The keys of the association at work. -/
def keys (s : Associated) : Bytes × Option SecretKey := s.association.keys

theorem keys_of_association {α : Type} {x : Step Associated α} (h : Moves (Same association) x) :
    Moves (Same keys) x :=
  h.mono fun _ _ same => congrArg Association.keys same

theorem pack_keys (services : List Bytes) : Moves (Same keys) (pack services) :=
  .bind (.modify fun s => prepare_keys s.association) fun _ => .bind .get fun _ =>
    .within (Association.build_keys _) fun _ _ => id

theorem exchange_keys (services : List Bytes) : Moves (Same keys) (exchange services) := by
  have attempted : Moves (Same keys) (attempt services) :=
    .bind (pack_keys services) fun _ => .bind (keys_of_association (send_association _)) fun _ =>
      keys_of_association (awaitReply_association _)
  refine .bind attempted fun answer => .bind (.modify fun s => Association.advanceId_keys _) fun _ => ?_
  exact (openAnswer_outgoing services answer).mono fun _ _ => Association.keys_of_outgoing

theorem request_keys (service : Bytes) : Moves (Same keys) (request service) := by
  refine .bind (exchange_keys _) fun responses => ?_
  cases responses with
  | nil => exact .throw _
  | cons response rest => exact .pure _

end Associated

/-! ## Services -/

namespace Client

variable {α : Type}

/-- The keys of a client, wherever they are: in the configuration, on its own and on the wire. -/
structure Secrets where
  config : Config
  authenticationKey : Option SecretKey
  wire : Option (Bytes × Option SecretKey)

/-- Where a client stands, and its keys. -/
structure Core where
  phase : Phase
  refusals : Nat
  secrets : Secrets

def secrets (c : Client) : Secrets where
  config := c.config
  authenticationKey := c.authenticationKey
  wire := match c.wire with
    | .packets _ => none
    | .apdus a => some a.keys

def core (c : Client) : Core := ⟨c.phase, c.refusals, c.secrets⟩

theorem core_eq_iff {c c' : Client} :
    c'.core = c.core ↔ c'.phase = c.phase ∧ c'.refusals = c.refusals ∧ c'.secrets = c.secrets := by
  rw [core, core, Core.mk.injEq]

theorem onChannel_core (x : Step Channel α) : Moves (Same core) (onChannel x) := fun _ => rfl

theorem onLinked_core (otherwise : Fault) (x : Step Linked α) : Moves (Same core) (onLinked otherwise x) := by
  refine .get_bind fun c => ?_
  rcases hw : c.wire with link | a
  · dsimp only
    rw [Step.run_set_bind, Step.run_ofExcept]
    simp only [Same, core, secrets, hw]
  · exact refl_of (Same core) c

theorem onLink_core (x : Step Linked α) : Moves (Same core) (onLink x) :=
  .bind .get fun _ => onLinked_core _ x

theorem onAssociated_core {x : Step Associated α} (h : Moves (Same Associated.keys) x) :
    Moves (Same core) (onAssociated x) := by
  refine .get_bind fun c => ?_
  rcases hw : c.wire with link | a
  · exact refl_of (Same core) c
  · have kept : (x.run ⟨c.channel, a⟩).2.association.keys = a.keys := h ⟨c.channel, a⟩
    dsimp only
    rw [Step.run_set_bind, Step.run_ofExcept]
    simp only [Same, core, secrets, hw, kept]

theorem changeLink_core (f : Link → Link) : Moves (Same core) (changeLink f) := by
  refine .modify fun c => ?_
  rcases hw : c.wire with link | a <;> simp only [Same, core, secrets, hw]

/-! ### Relations that services respect -/

/-- What a client notes of what was done, but for the services and the number of procedures. -/
structure Notes where
  progress : Progress
  percents : List Nat
  negotiated : Option Negotiated

def notes (c : Client) : Notes where
  progress := c.progress
  percents := c.percents
  negotiated := c.negotiated

/-- The client with other notes. -/
def noted (c : Client) (n : Notes) : Client :=
  { c with
    progress := n.progress
    percents := n.percents
    negotiated := n.negotiated }

/-- A relation between clients that notes respect, and so does what keeps the pace of the wire. -/
structure Frame (R : Client → Client → Prop) : Prop where
  linked {α : Type} (otherwise : Fault) {x : Step Linked α} (h : Linked.KeepsPace x) : Moves R (onLinked otherwise x)
  associated (service : Bytes) : Moves R (onAssociated (Associated.request service))
  channel {α : Type} {x : Step Channel α} (h : Channel.KeepsPace x) : Moves R (onChannel x)
  changed {f : Link → Link} (h : ∀ l, (f l).parameters = l.parameters) : Moves R (changeLink f)
  noted (c : Client) (n : Notes) : R c (c.noted n)
  recorded (c : Client) (t : Transaction) : R c { c with exchanges := t :: c.exchanges }

theorem frame_core : Frame (Same core) where
  linked otherwise _ _ := onLinked_core otherwise _
  associated _ := onAssociated_core (Associated.request_keys _)
  channel _ := onChannel_core _
  changed _ := changeLink_core _
  noted _ _ := rfl
  recorded _ _ := rfl

/-- A part of a client that has nothing to do with channel and wire, nor with what services note. -/
def Aloof {γ : Type} (f : Client → γ) : Prop :=
  ∀ (c : Client) (channel : Channel) (wire : Wire) (n : Notes) (exchanges : List Transaction),
    f { c.noted n with channel, wire, exchanges } = f c

section Aloof

variable {γ : Type} {f : Client → γ} (aloof : Aloof f)

include aloof

theorem onLinked_same (otherwise : Fault) (x : Step Linked α) : Moves (Same f) (onLinked otherwise x) := by
  refine .get_bind fun c => ?_
  rcases c.wire with link | a
  · dsimp only
    rw [Step.run_set_bind, Step.run_ofExcept]
    exact aloof c _ _ c.notes c.exchanges
  · exact refl_of (Same f) c

theorem onAssociated_same (x : Step Associated α) : Moves (Same f) (onAssociated x) := by
  refine .get_bind fun c => ?_
  rcases c.wire with link | a
  · exact refl_of (Same f) c
  · dsimp only
    rw [Step.run_set_bind, Step.run_ofExcept]
    exact aloof c _ _ c.notes c.exchanges

theorem changeLink_same (g : Link → Link) : Moves (Same f) (changeLink g) := by
  refine .modify fun c => ?_
  rcases c.wire with link | a
  · exact aloof c c.channel _ c.notes c.exchanges
  · exact refl_of (Same f) c

theorem frame_same : Frame (Same f) where
  linked otherwise _ _ := onLinked_same aloof otherwise _
  associated _ := onAssociated_same aloof _
  channel _ := fun c => aloof c _ c.wire c.notes c.exchanges
  changed _ := changeLink_same aloof _
  noted c n := aloof c c.channel c.wire n c.exchanges
  recorded c t := aloof c c.channel c.wire c.notes (t :: c.exchanges)

end Aloof

/-- A relation between clients that is respected by what the wire does for requests among those of `A`. -/
structure WireFrame (A : Request → Prop) (R : Client → Client → Prop) : Prop where
  requested {r : Request} (h : A r) : Moves R (onLink (Linked.request r.bytes))
  associated (service : Bytes) : Moves R (onAssociated (Associated.request service))
  unreported : Moves R (changeLink ({ · with reports := [] }))
  noted (c : Client) (n : Notes) : R c (c.noted n)

/-- A relation between clients that services respect whose requests are among those of `A`. -/
structure ServiceFrame (A : Request → Prop) (R : Client → Client → Prop) : Prop extends WireFrame A R where
  slept (d : Duration) : Moves R (onChannel (Channel.sleep d))
  exchanged {request : Request} (h : A request) {reporting : Bool} {before after : Client} {r : Except Fault Bytes}
    (carried : (carry reporting request.bytes).run before = (r, after)) (since : R before after) :
    R before { after with
      exchanges := ⟨request, r, (before.channel, before.wire), (after.channel, after.wire)⟩ :: after.exchanges }

/-- The most table data that one request or response carries. -/
def limits (c : Client) : LinkLimits := ⟨c.maxRead, c.maxWrite, c.maxPartialWrite⟩

/-- A relation between clients that services respect when they are run whole, with their repetitions. -/
structure CallFrame (A : Request → Prop) (R : Client → Client → Prop) : Prop where
  called {r : Request} (h : A r) (reporting : Bool) : Moves R (do
    transactRepeatedly reporting r (← get).config.applicationRetries.toNat)
  slept (d : Duration) : Moves R (onChannel (Channel.sleep d))
  noted (c : Client) (n : Notes) : R c (c.noted n)

/-- A relation that transfers respect, too: requests for tables are among those of `A` where they keep to the
limits of the client. -/
structure TableFrame (A : Request → Prop) (R : Client → Client → Prop) : Prop extends CallFrame A R where
  limited {c c' : Client} (h : (∀ r : Request, r.Keeps c.limits → A r) → R c c') : R c c'

/-- The same of a relation that each part of a service respects. -/
structure TransferFrame (A : Request → Prop) (R : Client → Client → Prop) : Prop extends ServiceFrame A R where
  limited {c c' : Client} (h : (∀ r : Request, r.Keeps c.limits → A r) → R c c') : R c c'

/-- A relation that does not depend on the number of procedures. -/
def Renumbers (R : Client → Client → Prop) : Prop := ∀ (c : Client) (n : UInt8), R c { c with procedureSequence := n }

section Respected

variable {A : Request → Prop} {R : Client → Client → Prop} [IsPreorder Client R]

theorem Frame.onLink (frame : Frame R) {x : Step Linked α} (h : Linked.KeepsPace x) : Moves R (onLink x) :=
  .bind .get fun _ => frame.linked _ h

/-- What keeps the pace of the wire may ask for anything. -/
theorem Frame.transfers (frame : Frame R) : TransferFrame (fun _ => True) R where
  requested _ := frame.onLink (Linked.request_pace _)
  associated := frame.associated
  slept _ := frame.channel (Channel.sleep_pace _)
  unreported := frame.changed fun _ => rfl
  noted := frame.noted
  exchanged _ _ _ _ _ _ since := trans_of R since (frame.recorded _ _)
  limited h := h fun _ _ => trivial

theorem Frame.services (frame : Frame R) : ServiceFrame (fun _ => True) R := frame.transfers.toServiceFrame

theorem Frame.wires (frame : Frame R) : WireFrame (fun _ => True) R := frame.services.toWireFrame

theorem ensureActive_frame : Moves R ensureActive := by
  refine .bind .get fun c => ?_
  exact .ite (.throw _) (.pure _)

omit [IsPreorder Client R] in
theorem follow_frame (noted : ∀ (c : Client) (n : Notes), R c (c.noted n)) (f : Progress → List Nat × Progress) :
    Moves R (follow f) :=
  .modify fun c => noted c { c.notes with progress := _, percents := _ }

section Wired

variable (frame : WireFrame A R)

include frame

theorem takeReports_frame (reporting : Bool) : Moves R (takeReports reporting) := by
  refine .bind .get fun c => ?_
  rcases c.wire with link | a
  · have reported : Moves R (link.reports.forM fun received => follow (·.report received)) := by
      induction link.reports with
      | nil => exact .pure _
      | cons received rest ih => exact .bind (follow_frame frame.noted _) fun _ => ih
    exact .ite (.bind reported fun _ => frame.unreported) frame.unreported
  · exact .pure _

theorem carry_frame (reporting : Bool) {request : Request} (h : A request) :
    Moves R (carry reporting request.bytes) := by
  refine .bind .get fun c => ?_
  rcases c.wire with link | a
  · exact .bind (.outcome (frame.requested h)) fun _ => .bind (takeReports_frame frame _) fun _ => .ofExcept _
  · refine .bind (frame.associated _) fun _ => ?_
    exact .ite (.bind (follow_frame frame.noted _) fun _ => .pure _) (.pure _)

end Wired

section Serviced

variable (frame : ServiceFrame A R)

include frame

theorem exchange_frame (reporting : Bool) {request : Request} (h : A request) :
    Moves R (exchange reporting request) := by
  refine .get_bind fun before => ?_
  have since := carry_frame frame.toWireFrame reporting h before
  rcases carried : (carry reporting request.bytes).run before with ⟨r, after⟩
  rw [carried] at since
  rw [Step.run_outcome_bind, carried]
  unfold note
  rw [Step.run_modify_bind, Step.run_ofExcept]
  exact frame.exchanged h carried since

theorem transactRepeatedly_frame (reporting : Bool) {request : Request} (h : A request) (retries : Nat) :
    Moves R (transactRepeatedly reporting request retries) := by
  induction retries with
  | zero => exact .bind (exchange_frame frame _ h) fun _ => .ofExcept _
  | succ retries ih =>
    refine .bind (exchange_frame frame _ h) fun response => ?_
    cases Response.results response with
    | ok results => exact .pure _
    | error e =>
      dsimp only
      split
      · exact .throw_bind _ _
      · exact .bind .get fun _ => .bind (frame.slept _) fun _ => ih

/-- **A service** respects what the wire and the notes respect. -/
theorem transact_frame {request : Request} (h : A request) : Moves R (transact request) :=
  .bind .get fun _ => transactRepeatedly_frame frame _ h _

end Serviced

/-- What each part of a service respects the whole service does. -/
theorem ServiceFrame.calls (frame : ServiceFrame A R) : CallFrame A R where
  called h reporting := .bind .get fun _ => transactRepeatedly_frame frame reporting h _
  slept := frame.slept
  noted := frame.noted

theorem TransferFrame.tables (frame : TransferFrame A R) : TableFrame A R where
  toCallFrame := frame.toServiceFrame.calls
  limited := frame.limited

/-! ## Transfers -/

variable (frame : CallFrame A R)

include frame

omit [IsPreorder Client R] in
theorem beginProgress_frame (total : Nat) : Moves R (beginProgress total) :=
  .modify fun c => frame.noted c { c.notes with progress := _ }

theorem readAtOnce_frame (number : UInt16) (offset : Option UInt32) (total : Nat) {request : Request} (h : A request) :
    Moves R (readAtOnce number offset total request) := by
  refine .bind (beginProgress_frame frame _) fun _ => ?_
  refine .bind (frame.called h true) fun _ => .bind (.ofExcept _) fun _ => ?_
  exact .bind (follow_frame frame.noted _) fun _ => .pure _

section Pieces

variable {limits : LinkLimits} (kept : ∀ r : Request, r.Keeps limits → A r)

include kept

theorem readPiece_frame {r : PieceRead} (short : r.limit ≤ limits.maxRead) (read : PiecesRead) :
    Moves R (readPiece r read) := by
  unfold readPiece
  dsimp only
  split
  · exact .pure _
  refine .ofExcept_bind fun request made => ?_
  have asked : min (r.count - read.1.length) r.limit % 0x10000 ≤ limits.maxRead :=
    Nat.le_trans (Nat.mod_le _ _) (Nat.le_trans (Nat.min_le_right _ _) short)
  refine .bind (frame.called (kept _ (.readPartial made asked)) true) fun _ => ?_
  refine .bind (.ofExcept _) fun _ => ?_
  refine .bind (.modify fun c => frame.noted c { c.notes with progress := _ }) fun _ => ?_
  split
  · split
    · exact .throw_bind _ _
    · exact .pure _
  · exact .pure _

theorem readPieces_frame {r : PieceRead} (short : r.limit ≤ limits.maxRead) : Moves R (readPieces r) := by
  refine .bind (beginProgress_frame frame _) fun _ => .bind .get fun _ => ?_
  refine .bind (.repeatWhileFed (readPiece_frame frame kept short) _ _) fun _ => ?_
  exact .bind (follow_frame frame.noted _) fun _ => .pure _

theorem writePieces_frame (number : UInt16) (place : Nat) {pieces : List Bytes}
    (short : ∀ piece ∈ pieces, piece.length ≤ limits.maxPartialWrite) : Moves R (writePieces number place pieces) := by
  induction pieces generalizing place with
  | nil => exact .pure _
  | cons piece rest ih =>
    refine .ofExcept_bind fun request made => ?_
    have asked : A request := kept _ (.writePartial made (short piece List.mem_cons_self))
    refine .bind (frame.called asked false) fun _ => ?_
    exact .bind (.modify fun c => frame.noted c { c.notes with progress := _ }) fun _ =>
      .bind (follow_frame frame.noted _) fun _ => ih _ fun piece later => short piece (List.mem_cons_of_mem _ later)

theorem writeInPieces_frame (number : UInt16) (offset : Nat) (data : Bytes) :
    Moves R (writeInPieces number offset data limits.maxPartialWrite) := by
  unfold writeInPieces
  split
  · exact .throw_bind _ _
  next room =>
    have short : ∀ piece ∈ Bytes.chunks limits.maxPartialWrite data, piece.length ≤ limits.maxPartialWrite :=
      fun piece h => (Bytes.mem_chunks (Nat.pos_of_ne_zero room) h).2
    exact .bind (beginProgress_frame frame _) fun _ => .bind (writePieces_frame frame kept _ _ short) fun _ =>
      follow_frame frame.noted _

end Pieces

end Respected

section Transferred

variable {A : Request → Prop} {R : Client → Client → Prop} [IsPreorder Client R] (frame : TableFrame A R)

include frame

/-- **A read of a table** respects what its requests do, and these keep to the limits. -/
theorem readActive_frame (d : Descriptor) : Moves R (readActive d) := by
  refine .bind (.ofExcept _) fun _ => .bind ensureActive_frame fun _ => .get_bind fun c => frame.limited fun kept => ?_
  have pieces (r : PieceRead) (h : r.limit = c.limits.maxRead) : Moves R (readPieces r) :=
    readPieces_frame frame.toCallFrame kept (Nat.le_of_eq h)
  cases d.access with
  | full =>
    dsimp only
    split
    · exact pieces _ rfl c
    · exact readAtOnce_frame frame.toCallFrame _ _ _ (kept _ (.readFull _)) c
  | range offset count =>
    dsimp only
    split
    · exact pieces _ rfl c
    next fits =>
      have short : count.toNat % 0x10000 ≤ c.limits.maxRead := Nat.le_trans (Nat.mod_le _ _) (Nat.not_lt.1 fits)
      have atOnce : Moves R (do
          let request ← Step.ofExcept (Request.readPartial d.wireNumber offset.toNat (count.toNat % 0x10000))
          readAtOnce d.wireNumber (some offset) count.toNat request) :=
        .ofExcept_bind fun request made => readAtOnce_frame frame.toCallFrame _ _ _ (kept _ (.readPartial made short))
      exact atOnce c

/-- **A write of a table** respects what its requests do, and these keep to the limits. -/
theorem writeActive_frame (d : Descriptor) (data : Bytes) : Moves R (writeActive d data) := by
  refine .bind (.ofExcept _) fun _ => .bind ensureActive_frame fun _ => .get_bind fun c => frame.limited fun kept => ?_
  have atOnce (r : Except Fault Request) (hr : ∀ request, r = .ok request → A request) : Moves R (do
      let _ ← transact (← Step.ofExcept r) : Step Client Unit) :=
    .ofExcept_bind fun request made => .bind (frame.called (hr request made) false) fun _ => .pure _
  have inPieces (offset : Nat) : Moves R (writeInPieces d.wireNumber offset data c.maxPartialWrite) :=
    writeInPieces_frame frame.toCallFrame kept _ _ _
  cases d.access with
  | full =>
    dsimp only
    split
    next fits => exact atOnce _ (fun request made => kept _ (.writeFull made fits)) c
    next => exact inPieces _ c
  | range offset count =>
    dsimp only
    split
    next fits => exact atOnce _ (fun request made => kept _ (.writePartial made fits)) c
    next => exact inPieces _ c

theorem procedureResult_frame (number : UInt16) (sequence : UInt8) (request : Bytes) :
    Moves R (procedureResult number sequence request) := by
  refine .bind (readActive_frame frame _) fun _ => .bind (.ofExcept _) fun response => ?_
  exact .ite (.throw_bind _ _) (.pure _)

theorem awaitProcedure_frame (number : UInt16) (sequence : UInt8) (request : Bytes) (retries : Nat) :
    Moves R (awaitProcedure number sequence request retries) := by
  induction retries with
  | zero => exact .bind (procedureResult_frame frame _ _ _) fun _ => .ofExcept _
  | succ retries ih =>
    refine .bind (procedureResult_frame frame _ _ _) fun result => ?_
    cases result with
    | ok data => exact .pure _
    | error e =>
      dsimp only
      split
      · exact .throw_bind _ _
      · exact .bind .get fun _ => .bind (frame.slept _) fun _ => ih

theorem procedureActive_frame (numbered : Renumbers R) (number : UInt16) (parameters : Bytes) :
    Moves R (procedureActive number parameters) := by
  refine .bind ensureActive_frame fun _ => .get_bind fun c => ?_
  dsimp only
  rw [Step.run_set_bind]
  refine trans_of R (numbered c (c.procedureSequence + 1)) ?_
  exact (Moves.bind (writeActive_frame frame _ _) fun _ => awaitProcedure_frame frame _ _ _ _) _

end Transferred

theorem waitActive_frame {A : Request → Prop} {R : Client → Client → Prop} [IsPreorder Client R] (frame : CallFrame A R)
    (waits : ∀ {r : Request} {seconds : Nat}, Request.wait seconds = .ok r → A r) (seconds : Nat) :
    Moves R (waitActive seconds) :=
  .ofExcept_bind fun _ made => .bind ensureActive_frame fun _ =>
    .bind (frame.called (waits made) false) fun _ => .pure _

end Client

end Metering
