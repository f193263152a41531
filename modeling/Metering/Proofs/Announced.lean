import Metering.Proofs.Envelope
import Metering.Proofs.Nonces
import Metering.Proofs.Sending
import Metering.Proofs.Waits

set_option autoImplicit false

/-! # Announcing the vector

The key and vector of a session are sent along with the first sealed APDU. The association takes it
that they were as soon as it has chosen them, which is before the APDU is built and before it is
written. So the meter learns them exactly when the exchange that chose them puts its whole APDU on
the line, or nothing sealed follows it (`announced_iff`). A request that is refused for its length
after the seal was chosen leaves the meter without a vector (`not_announced_oversized`). -/

namespace Metering

open Step (Moves Same)

/-! ## The element in the bytes -/

namespace Acse

theorem Authentication.element_append_inj {a b : Authentication} {x y : Bytes}
    (h : a.element ++ x = b.element ++ y) : a = b := by
  obtain ⟨same, -⟩ := List.append_inj h (a.length_element.trans b.length_element.symm)
  obtain ⟨front, vector⟩ := List.append_inj same (by simp)
  obtain ⟨front, -⟩ := List.append_inj front (by simp)
  obtain ⟨-, keyId⟩ := List.append_inj front rfl
  refine trailer_inj ?_
  rw [Authentication.trailer, Authentication.trailer, List.singleton_inj.1 keyId, vector]

namespace Outgoing

variable {o : Outgoing} {p : Parameters} {apdu : Bytes}

/-- The bytes of an APDU have the element of a key and vector behind the addressing. -/
def Announces (o : Outgoing) (p : Parameters) (apdu : Bytes) (v : Authentication) : Prop :=
  ∃ addresses elements rest, addressing (o.address p) = .ok addresses ∧
    elements = addresses ++ (v.element ++ rest) ∧ apdu = element apduTag elements.length elements

/-- An APDU that was built has the element exactly if its seal is sent along. -/
theorem announces_iff {s : Seal} (secure : p.mode.isSecure = true) (h : o.build p (some s) = .ok apdu)
    (v : Authentication) : o.Announces p apdu v ↔ s.sendAuthentication = true ∧ s.authentication = v := by
  have short := length_le_of_build h
  have largest := p.maxOutgoing.toNat_lt
  obtain ⟨addresses, plain, contents, elements, haddresses, -, -, helements, rfl⟩ := build_parts h
  have sent : sentWith p (some s) = if s.sendAuthentication then some s.authentication else none := if_pos secure
  constructor
  · rintro ⟨addresses', elements', rest, haddresses', helements', same⟩
    obtain rfl := Except.ok.inj (haddresses.symm.trans haddresses')
    -- the length in front says how much the elements are
    obtain ⟨-, same⟩ := List.cons.inj same
    have length := congrArg List.length same
    simp only [List.length_cons, List.length_append] at short length
    obtain ⟨-, rfl⟩ := Ber.lengthBytes_append_inj (by omega) (by omega) same
    have behind := List.append_cancel_left (helements.symm.trans helements')
    cases announced : s.sendAuthentication with
    | true =>
      rw [sent, if_pos announced] at behind
      exact ⟨rfl, Authentication.element_append_inj (by simpa [authenticationElement] using behind)⟩
    | false =>
      rw [sent, if_neg (by simp [announced])] at behind
      have tags := congrArg List.head? behind
      simp [authenticationElement, bodyHeader, element, Authentication.element, bodyTag, authenticationTag] at tags
  · rintro ⟨announced, rfl⟩
    refine ⟨addresses, elements, bodyHeader (control p) plain.length (tailLength p) ++ contents, haddresses, ?_, rfl⟩
    rw [helements, sent, if_pos announced]
    simp [authenticationElement]

end Outgoing

end Acse

/-! ## What goes to the line -/

theorem Channel.writeApdu_follows (apdu : Bytes) (turnaround timeout : Duration) :
    Moves Follows (writeApdu apdu turnaround timeout) := by
  have written : Moves Follows (do let _ ← write apdu timeout : Step Channel Unit) := by
    refine .bind (fun c => ?_) fun _ => .pure _
    obtain ⟨n, consumed, put⟩ := write_puts apdu timeout c
    exact ⟨consumed, _, put⟩
  exact .ite (.bind ((sleep_quiet _).mono fun _ _ quiet => quiet.reads.follows) fun _ => written) written

namespace Associated

/-- The line took some bytes more. -/
def Proceeds (s s' : Associated) : Prop := s.channel.Follows s'.channel

instance : IsPreorder Associated Proceeds where
  refl s := refl_of Channel.Follows s.channel
  trans _ _ _ := trans_of Channel.Follows

theorem Proceeds.isPrefix {s s' : Associated} (h : Proceeds s s') :
    s.channel.line.written <+: s'.channel.line.written := by
  obtain ⟨-, sent, -, -, -, written⟩ := h
  exact ⟨sent, written.symm⟩

theorem send_proceeds (apdu : Bytes) : Moves Proceeds (send apdu) :=
  .bind .get fun _ => .within (Channel.writeApdu_follows _ _ _) fun _ _ follows => follows

theorem awaitOnce_proceeds {again : Option (Step Associated (Option Acse.Incoming))}
    (h : ∀ next ∈ again, Moves Proceeds next) : Moves Proceeds (awaitOnce again) := by
  refine .bind (.outcome (receive_reads.mono fun _ _ reads => reads.follows)) fun r => ?_
  cases r with
  | ok incoming => exact .pure _
  | error e =>
    refine .bind .get fun s => .ite (.throw_bind _ _) (.ite (.pure _) ?_)
    cases again with
    | none => exact .throw _
    | some next => exact .ite (h next rfl) (.throw _)

theorem awaitReply_proceeds (apdu : Bytes) : Moves Proceeds (awaitReply apdu) := by
  have awaited (retries : Nat) : Moves Proceeds (awaitAnswer apdu retries) := by
    induction retries with
    | zero => exact awaitOnce_proceeds nofun
    | succ retries ih =>
      refine awaitOnce_proceeds fun next h => ?_
      obtain rfl := Option.some.inj h
      exact .bind (send_proceeds apdu) fun _ => ih
  exact .bind .get fun _ => .ite (.pure _) (awaited _)

end Associated

/-! ## What an exchange tells the meter -/

namespace Association

theorem chooseAuthentication_error {c : SecurityContext} {a a' : Association} {e : Fault}
    (h : (chooseAuthentication c).run a = (.error e, a')) : a'.authentication = a.authentication := by
  unfold chooseAuthentication at h
  rw [Step.run_get_bind] at h
  split at h
  · cases h
  · rcases hn : SecurityContext.nextVector.run c with ⟨r, c'⟩
    simp only [hn] at h
    cases r with
    | error e => exact (congrArg (·.2.authentication) h).symm
    | ok iv => cases h

/-- Where no seal comes of it nothing is put in force. -/
theorem chooseSeal_none {a : Association} (h : ∀ s, (chooseSeal.run a).1 ≠ .ok (some s)) :
    (chooseSeal.run a).2.authentication = a.authentication := by
  revert h
  unfold chooseSeal
  rw [Step.run_get_bind]
  split
  next _ c _ _ =>
    by_cases cleared : c.isCleared
    · rw [if_pos cleared]
      exact fun _ => rfl
    rw [if_neg cleared]
    simp only [Step.run_bind]
    rcases chose : (chooseAuthentication c).run a with ⟨r, a'⟩
    cases r with
    | error e => exact fun _ => chooseAuthentication_error chose
    | ok chosen => exact fun h => absurd rfl (h ⟨c.eax, chosen.1, chosen.2⟩)
  next => exact fun _ => rfl

end Association

namespace Exchanged

open Association

/-- A sealed APDU went to the line, whole or in part, under a key and vector. -/
def Uses (e : Exchanged) (v : Acse.Authentication) : Prop :=
  e.transmitted.isSome ∧ ∃ s, e.chosen.1 = .ok (some s) ∧ s.authentication = v

/-- The APDU that went to the line names a key and vector in front of its body. -/
def Names (e : Exchanged) (v : Acse.Authentication) : Prop :=
  ∃ apdu, e.transmitted = some apdu ∧ e.request.Announces e.association.parameters apdu v

/-- All bytes of the APDU went to the line. -/
def delivers (e : Exchanged) : Bool :=
  match ((Associated.pack e.call.services).run e.start).1 with
  | .ok apdu => (e.call.channel.line.written ++ apdu).isPrefixOf
      ((Associated.attempt e.call.services).run e.start).2.channel.line.written
  | .error _ => false

/-- The exchange takes a vector to be announced. -/
def Draws (e : Exchanged) (v : Acse.Authentication) : Prop :=
  ∃ s, e.chosen.1 = .ok (some s) ∧ s.authentication = v ∧ s.sendAuthentication = true

/-- The key and vector that the seal of an exchange was chosen with, and whether they are sent along. -/
def sealedUnder (e : Exchanged) : Option (Acse.Authentication × Bool) :=
  match e.chosen.1 with
  | .ok (some s) => some (s.authentication, s.sendAuthentication)
  | _ => none

theorem chosen_of_sealedUnder {e : Exchanged} {v : Acse.Authentication} {announced : Bool}
    (h : e.sealedUnder = some (v, announced)) :
    ∃ s, e.chosen.1 = .ok (some s) ∧ s.authentication = v ∧ s.sendAuthentication = announced := by
  unfold sealedUnder at h
  split at h
  next s chose =>
    obtain ⟨rfl, rfl⟩ := Prod.mk.inj (Option.some.inj h)
    exact ⟨s, chose, rfl, rfl⟩
  next => cases h

theorem names_iff {e : Exchanged} {s : Acse.Seal} (sent : e.transmitted.isSome) (chose : e.chosen.1 = .ok (some s))
    (v : Acse.Authentication) : e.Names v ↔ s.sendAuthentication = true ∧ s.authentication = v := by
  obtain ⟨apdu, sent⟩ := Option.isSome_iff_exists.1 sent
  obtain ⟨s', chose', built⟩ := packed_ok (packed_of_transmitted sent)
  obtain rfl := Except.ok.inj (chose.symm.trans chose')
  have secure := chooseSeal_secure chose
  rw [prepare_parameters] at secure
  rw [← Acse.Outgoing.announces_iff secure built v]
  constructor
  · rintro ⟨apdu', sent', named⟩
    rwa [Option.some.inj (sent.symm.trans sent')]
  · exact fun named => ⟨apdu, sent, named⟩

/-- An exchange that was answered, or needed no answer, had its whole APDU written. -/
theorem delivers_of_comesThrough {e : Exchanged} (h : e.comesThrough = true) : e.delivers = true := by
  unfold comesThrough Associated.comesThrough at h
  unfold delivers
  rcases hrun : (Associated.attempt e.call.services).run e.start with ⟨r, u⟩
  rw [hrun] at h
  cases r with
  | error f => cases h
  | ok answer =>
    obtain ⟨apdu, t, packed, rest⟩ := Step.run_bind_ok.1 hrun
    obtain ⟨_, w, sent, rest⟩ := Step.run_bind_ok.1 rest
    rw [packed]
    -- packing leaves the channel, sending puts the APDU on it, and waiting adds at most more of the same
    have still : t.channel = e.call.channel := by
      rw [Associated.pack_run] at packed
      exact congrArg (·.channel) (Prod.mk.inj packed).2.symm
    obtain ⟨-, -, -, -, written⟩ := Associated.send_ok sent
    have more := ((Associated.awaitReply_proceeds apdu).of_run rest).isPrefix
    rw [written, still] at more
    exact List.isPrefixOf_iff_prefix.2 more

theorem transmitted_of_delivers {e : Exchanged} (h : e.delivers = true) : e.transmitted.isSome := by
  unfold delivers at h
  split at h
  next apdu packed =>
    obtain ⟨s, -, built⟩ := packed_ok packed
    obtain ⟨-, -, -, elements, -, -, -, -, rfl⟩ := Acse.Outgoing.build_parts built
    have longer := (List.isPrefixOf_iff_prefix.1 h).length_le
    unfold transmitted
    dsimp only
    rw [if_neg, packed]
    · rfl
    · intro same
      rw [same, List.length_append, List.length_cons] at longer
      omega
  next => cases h

/-- Without sessions every vector is announced. -/
theorem sendAuthentication_of_sessionless {e : Exchanged} {s : Acse.Seal}
    (sessionless : e.association.options.sessionless = true) (chose : e.chosen.1 = .ok (some s)) :
    s.sendAuthentication = true :=
  ((chooseSeal_new (prepare_of_sessionless sessionless).1).2 s chose).1

/-- Within a session a vector comes in force by being drawn. -/
theorem draws_of_after {e : Exchanged} {v : Acse.Authentication} (session : e.association.options.sessionless = false)
    (before : e.association.authentication ≠ some v) (after : e.after.authentication = some v) : e.Draws v := by
  have left := e.after_sealing.2
  rw [after, chosen, Associated.prepare_of_session session] at left
  have unset : e.association.authentication = none := by
    cases ha : e.association.authentication with
    | none => rfl
    | some w =>
      rw [(chooseSeal_announced ha).1] at left
      exact absurd left.symm before
  rw [Draws, chosen, Associated.prepare_of_session session]
  rcases hc : (chooseSeal.run e.association).1 with f | _ | s
  · rw [chooseSeal_none (by simp [hc]), unset] at left
    cases left
  · rw [chooseSeal_none (by simp [hc]), unset] at left
    cases left
  · obtain ⟨announced, put, -⟩ := (chooseSeal_new unset).2 s hc
    exact ⟨s, rfl, Option.some.inj (put.symm.trans left.symm), announced⟩

end Exchanged

/-! ## Runs of an association -/

/-- What is done with an association between the start of a session and its end. -/
inductive Act where
  | exchange (call : Call)
  | logon

/-- The exchanges among some acts, oldest first. -/
def exchangesIn : Association → List Act → List Exchanged
  | _, [] => []
  | a, .exchange call :: rest => ⟨a, call⟩ :: exchangesIn (Exchanged.after ⟨a, call⟩) rest
  | a, .logon :: rest => exchangesIn a.afterLogon rest

section Runs

variable {I : Association → Prop} {a : Association} {acts : List Act} {i j : Nat} {e e' : Exchanged}

/-- What every exchange and logon carries on is found by all exchanges. -/
theorem exchangesIn_inv (step : ∀ e : Exchanged, I e.association → I e.after) (logon : ∀ a, I a → I a.afterLogon)
    (ha : I a) (he : e ∈ exchangesIn a acts) : I e.association := by
  induction acts generalizing a with
  | nil => cases he
  | cons act rest ih =>
    cases act with
    | logon => exact ih (logon a ha) he
    | exchange call =>
      rcases List.mem_cons.1 he with rfl | he
      · exact ha
      · exact ih (step ⟨a, call⟩ ha) he

/-- What an exchange leaves behind, and every exchange and logon carries on, is found by all later ones. -/
theorem exchangesIn_later (step : ∀ e : Exchanged, I e.association → I e.after)
    (logon : ∀ a, I a → I a.afterLogon) (hij : i < j) (he : (exchangesIn a acts)[i]? = some e)
    (he' : (exchangesIn a acts)[j]? = some e') (left : I e.after) : I e'.association := by
  induction acts generalizing a i j with
  | nil => simp [exchangesIn] at he
  | cons act rest ih =>
    cases act with
    | logon => exact ih hij he he'
    | exchange call =>
      obtain ⟨j, rfl⟩ := Nat.exists_eq_succ_of_ne_zero (Nat.ne_zero_of_lt hij)
      cases i with
      | zero =>
        obtain rfl := Option.some.inj he
        exact exchangesIn_inv step logon left (List.mem_of_getElem? he')
      | succ i => exact ih (Nat.lt_of_succ_lt_succ hij) he he'

/-- What an exchange finds, and was not so at the start, was brought about by an exchange before, if
logon does not. -/
theorem exchangesIn_origin (logon : ∀ a, I a.afterLogon → I a) (ha : ¬ I a)
    (he : (exchangesIn a acts)[j]? = some e) (found : I e.association) :
    ∃ (i : Nat) (e' : Exchanged), i < j ∧ (exchangesIn a acts)[i]? = some e' ∧ ¬ I e'.association ∧ I e'.after := by
  induction acts generalizing a j with
  | nil => simp [exchangesIn] at he
  | cons act rest ih =>
    cases act with
    | logon => exact ih (fun h => ha (logon a h)) he
    | exchange call =>
      cases j with
      | zero =>
        obtain rfl := Option.some.inj he
        exact absurd found ha
      | succ j =>
        by_cases left : I (Exchanged.after ⟨a, call⟩)
        · exact ⟨0, _, Nat.succ_pos j, rfl, ha, left⟩
        · obtain ⟨i, e', lt, he', brought⟩ := ih left he
          exact ⟨i + 1, e', Nat.succ_lt_succ lt, he', brought⟩

theorem exchangesIn_sessionless (he : e ∈ exchangesIn a acts) :
    e.association.options.sessionless = a.options.sessionless :=
  exchangesIn_inv (I := fun b => b.options.sessionless = a.options.sessionless)
    (fun e h => (congrArg (·.options.sessionless) e.after_settings).trans h)
    (fun b h => (congrArg (·.options.sessionless) (Association.afterLogon_settings b)).trans h) rfl he

end Runs

/-! ## When the meter knows the vector -/

/-- The meter is told: the first sealed APDU that goes to the line names the key and vector it is
sealed under, and each one that does not has an earlier one that was written whole and named them. -/
structure Announced (l : List Exchanged) : Prop where
  first : ∀ (i : Nat) (e : Exchanged) (v : Acse.Authentication), l[i]? = some e → e.Uses v →
    (∀ (j : Nat) (e' : Exchanged) (w : Acse.Authentication), j < i → l[j]? = some e' → ¬ e'.Uses w) → e.Names v
  later : ∀ (j : Nat) (e : Exchanged) (v : Acse.Authentication), l[j]? = some e → e.Uses v → ¬ e.Names v →
    ∃ (i : Nat) (e' : Exchanged), i < j ∧ l[i]? = some e' ∧ e'.Uses v ∧ e'.Names v ∧ e'.delivers = true

namespace Association

/-- An association at the start of a session, or as it was made. -/
def Begins (a : Association) : Prop :=
  (∃ (config : Config) (clock : UInt64) (entropy : Nat → UInt32), ofConfig config clock entropy = .ok a) ∨
    ∃ b : Association, a = b.beginSession

/-- Nothing was announced then. -/
theorem Begins.authentication {a : Association} (h : a.Begins) : a.authentication = none := by
  obtain ⟨config, clock, entropy, made⟩ | ⟨b, rfl⟩ := h
  · obtain ⟨security, -, made⟩ := Step.except_bind_ok.1 made
    obtain rfl := Except.ok.inj made
    rfl
  · rfl

end Association

section Announcing

variable {a : Association} {acts : List Act} {i j : Nat} {e e' : Exchanged} {v : Acse.Authentication}

/-- Where the vector is not named, a session goes on, and it was drawn before. -/
theorem exists_draws (unset : a.authentication = none) (he : (exchangesIn a acts)[j]? = some e) (uses : e.Uses v)
    (unnamed : ¬ e.Names v) :
    a.options.sessionless = false ∧
      ∃ (i : Nat) (e' : Exchanged), i < j ∧ (exchangesIn a acts)[i]? = some e' ∧ e'.Draws v := by
  obtain ⟨sent, s, chose, rfl⟩ := uses
  rw [Exchanged.names_iff sent chose] at unnamed
  have kept := exchangesIn_sessionless (List.mem_of_getElem? he)
  have session : e.association.options.sessionless = false := by
    rw [← Bool.not_eq_true]
    exact fun h => unnamed ⟨Exchanged.sendAuthentication_of_sessionless h chose, rfl⟩
  refine ⟨kept.symm.trans session, ?_⟩
  have force : e.association.authentication = some s.authentication := by
    obtain ⟨-, sent⟩ := Exchanged.inForce_of_chosen session chose
    rw [Exchanged.chosen, Associated.prepare_of_session session] at chose
    cases ha : e.association.authentication with
    | none => exact absurd ⟨by rw [sent, ha]; rfl, rfl⟩ unnamed
    | some w => rw [((Association.chooseSeal_announced ha).2 s chose).1]
  obtain ⟨i, e', lt, he', before, after⟩ := exchangesIn_origin
    (I := fun b => b.authentication = some s.authentication)
    (fun b h => by unfold Association.afterLogon at h; split at h <;> exact h) (by simp [unset]) he force
  have session' := (exchangesIn_sessionless (List.mem_of_getElem? he')).trans (kept.symm.trans session)
  exact ⟨i, e', lt, he', Exchanged.draws_of_after session' before after⟩

/-- Within a session a vector is drawn once. -/
theorem draws_once (session : a.options.sessionless = false) (he : (exchangesIn a acts)[i]? = some e)
    (he' : (exchangesIn a acts)[j]? = some e') {w : Acse.Authentication} (draws : e.Draws v) (draws' : e'.Draws w) :
    i = j := by
  have apart {i j : Nat} {e e' : Exchanged} {v w : Acse.Authentication} (hij : i < j)
      (he : (exchangesIn a acts)[i]? = some e) (he' : (exchangesIn a acts)[j]? = some e') (draws : e.Draws v) :
      ¬ e'.Draws w := by
    rintro ⟨s', chose', -, sent'⟩
    obtain ⟨s, chose, -, -⟩ := draws
    obtain ⟨force, -⟩ := Exchanged.inForce_of_chosen
      ((exchangesIn_sessionless (List.mem_of_getElem? he)).trans session) chose
    obtain ⟨session', later⟩ := exchangesIn_later (fun _ => Exchanged.inForce_after)
      (fun _ => Exchanged.inForce_afterLogon) hij he he' force
    rw [(Exchanged.inForce_of_chosen session' chose').2, later] at sent'
    cases sent'
  rcases Nat.lt_trichotomy i j with lt | same | lt
  · exact absurd draws' (apart lt he he' draws)
  · exact same
  · exact absurd draws (apart lt he' he draws')

/-- **When the meter knows the vector**, in every run of an association from its start, with or
without sessions, whatever the exchanges send and whatever becomes of them: exactly if an exchange
that draws a vector writes its whole APDU, or no sealed APDU that goes to the line later leaves its
vector unnamed. -/
theorem announced_iff (begins : a.Begins) (acts : List Act) :
    Announced (exchangesIn a acts) ↔
      ∀ (i j : Nat) (e e' : Exchanged) (v w : Acse.Authentication), i < j → (exchangesIn a acts)[i]? = some e →
        (exchangesIn a acts)[j]? = some e' → e.Draws v → e'.Uses w → ¬ e'.Names w → e.delivers = true := by
  constructor
  · intro announced i j e e' v w hij he he' draws uses unnamed
    obtain ⟨session, -⟩ := exists_draws begins.authentication he' uses unnamed
    obtain ⟨k, e'', -, he'', ⟨sent, s, chose, -⟩, names, delivered⟩ := announced.later j e' w he' uses unnamed
    -- the APDU that named the vector is that of the exchange which drew it
    have drew : e''.Draws s.authentication := ⟨s, chose, rfl, ((Exchanged.names_iff sent chose w).1 names).1⟩
    obtain rfl := draws_once session he he'' draws drew
    obtain rfl := Option.some.inj (he.symm.trans he'')
    exact delivered
  · intro delivers
    have later (j : Nat) (e : Exchanged) (v : Acse.Authentication) (he : (exchangesIn a acts)[j]? = some e)
        (uses : e.Uses v) (unnamed : ¬ e.Names v) : ∃ (i : Nat) (e' : Exchanged), i < j ∧
          (exchangesIn a acts)[i]? = some e' ∧ e'.Uses v ∧ e'.Names v ∧ e'.delivers = true := by
      obtain ⟨-, i, e', lt, he', draws⟩ := exists_draws begins.authentication he uses unnamed
      have delivered := delivers i j e' e v v lt he' he draws uses unnamed
      have sent := Exchanged.transmitted_of_delivers delivered
      obtain ⟨s, chose, same, announced⟩ := draws
      exact ⟨i, e', lt, he', ⟨sent, s, chose, same⟩, (Exchanged.names_iff sent chose v).2 ⟨announced, same⟩, delivered⟩
    refine ⟨fun i e v he uses first => ?_, later⟩
    by_contra unnamed
    obtain ⟨j, e', lt, he', uses', -⟩ := later i e v he uses unnamed
    exact first j e' v lt he' uses'

end Announcing

/-! ### A request that is too long

The meter answers on exceptions only, so nothing is heard of it. APDUs have at most 80 bytes. -/

/-- A session of an association that encrypts and sends no more than 80 bytes. -/
def narrowSession : Association :=
  let a := SessionRun.encryptedAssociation
  { a with parameters := { a.parameters with maxOutgoing := 80, response := .onException } }.beginSession

/-- A request of some length, and after logon a read. -/
def thenRead (length : Nat) : List Act :=
  [.exchange { SessionRun.unanswered 0 0 with services := [List.replicate length 0x40] }, .logon,
   .exchange (SessionRun.unanswered 1 1)]

/-- After a short request the read goes without the vector, which the meter knows. -/
theorem announced_short :
    narrowSession.Begins ∧ Announced (exchangesIn narrowSession (thenRead 3)) ∧
      ∃ e, (exchangesIn narrowSession (thenRead 3))[1]? = some e ∧ e.Uses ⟨1, 5⟩ ∧ ¬ e.Names ⟨1, 5⟩ := by
  have begins : narrowSession.Begins := .inr ⟨_, rfl⟩
  refine ⟨begins, (announced_iff begins (thenRead 3)).2 ?_, ?_⟩
  · intro i j e e' v w hij he he' _ _ _
    have hj : j < 2 := (List.getElem?_eq_some_iff.1 he').1
    obtain rfl : i = 0 := by omega
    obtain rfl := Option.some.inj he
    exact Exchanged.delivers_of_comesThrough (by decide +kernel)
  · obtain ⟨e, he⟩ : ∃ e, (exchangesIn narrowSession (thenRead 3))[1]? = some e := ⟨_, rfl⟩
    have sent : e.transmitted.isSome = true ∧ e.sealedUnder = some (⟨1, 5⟩, false) := by
      obtain rfl := Option.some.inj he
      decide +kernel
    obtain ⟨s, chose, same, unannounced⟩ := Exchanged.chosen_of_sealedUnder sent.2
    refine ⟨e, he, ⟨sent.1, s, chose, same⟩, fun names => ?_⟩
    rw [((Exchanged.names_iff sent.1 chose _).1 names).1] at unannounced
    cases unannounced

/-- **A request that was refused keeps the vector from the meter.** The first one is too long and never
goes out, and the read after it, the first APDU on the line, does not name the vector it is sealed under. -/
theorem not_announced_oversized :
    narrowSession.Begins ∧ narrowSession.parameters.mode = .encrypted ∧
      ¬ Announced (exchangesIn narrowSession (thenRead 60)) := by
  refine ⟨.inr ⟨_, rfl⟩, rfl, fun announced => ?_⟩
  obtain ⟨e, he⟩ : ∃ e, (exchangesIn narrowSession (thenRead 60))[0]? = some e := ⟨_, rfl⟩
  obtain ⟨e', he'⟩ : ∃ e, (exchangesIn narrowSession (thenRead 60))[1]? = some e := ⟨_, rfl⟩
  have refused : e.transmitted = none := by
    obtain rfl := Option.some.inj he
    decide +kernel
  have sent : e'.transmitted.isSome = true ∧ e'.sealedUnder = some (⟨1, 5⟩, false) := by
    obtain rfl := Option.some.inj he'
    decide +kernel
  obtain ⟨s, chose, same, unannounced⟩ := Exchanged.chosen_of_sealedUnder sent.2
  have names := announced.first 1 e' ⟨1, 5⟩ he' ⟨sent.1, s, chose, same⟩ ?_
  · rw [((Exchanged.names_iff sent.1 chose _).1 names).1] at unannounced
    cases unannounced
  · intro j e'' w hj he'' uses
    obtain rfl : j = 0 := by omega
    obtain rfl := Option.some.inj (he.symm.trans he'')
    rw [Exchanged.Uses, refused] at uses
    cases uses.1

end Metering
