import Metering.Proofs.Answered
import Metering.Proofs.Ciphers

set_option autoImplicit false

/-! # What a start has shown

A start that succeeds has made, in this very start, the services its configuration asks for, and each was
answered (`Client.handshakeCompleted_of_startSession`): the meter's ticket came back encrypted twice under the
configured key, the password was accepted, or the answer to logon carries the tag it has under the configured
key. The steps of a start in between forget none of it (`Client.Continues`), and those over a telephone line
keep the ticket that identify brought. -/

namespace Metering

open Step (Moves Same)

namespace Client

variable {dialect : Dialect} {config : Config} {c d c' : Client} {request : Request}

/-! ## Passwords -/

/-- Between two states of a client a service was carried out. -/
def CarriedOut (request : Request) (c c' : Client) : Prop := ∃ t results, Made c c' t ∧ t.Answered request results

theorem security_answered (goes : c.GoesBy dialect config) (h : security.run c = (.ok (), c')) :
    ∃ t results, Made c c' t ∧ t.Answered (.security config.paddedPassword) results ∧
      t.before.2.Serves dialect config := by
  have sent {d : Client} (goes' : d.GoesBy dialect config) {f : Except Fault Bytes → Step Client Unit}
      (hok : ∀ results, f (.ok results) = pure ()) (herror : ∀ e, f (.error e) = throw (refusedPassword e))
      (h : ((transact (.security c.config.paddedPassword)).outcome >>= f).run d = (.ok (), c')) :
      ∃ t results, Made d c' t ∧ t.Answered (.security config.paddedPassword) results ∧
        t.before.2.Serves dialect config := by
    have same : c.config.paddedPassword = config.paddedPassword := by rw [goes.configured]; rfl
    rw [same, Step.run_outcome_bind] at h
    rcases hr : (transact (.security config.paddedPassword)).run d with ⟨r, e⟩
    rw [hr] at h
    cases r with
    | error e =>
      rw [herror] at h
      exact absurd h Step.run_throw_ne_ok
    | ok results =>
      rw [hok] at h
      obtain ⟨-, rfl⟩ := Prod.mk.inj h
      obtain ⟨t, made, answered, served⟩ := transact_answered goes' hr
      exact ⟨t, results, made, answered, served⟩
  unfold security at h
  rw [Step.run_get_bind] at h
  dsimp only at h
  split at h
  · obtain ⟨_, d, moved, h⟩ := Step.run_bind_ok.1 h
    have on : Continues dialect config c d := (moveTo_frame startFrame_continues _).of_run moved
    obtain ⟨t, results, made, rest⟩ := sent (on.goesBy goes) (fun _ => rfl) (fun _ => rfl) h
    exact ⟨t, results, made.earlier on.grown, rest⟩
  · exact sent goes (fun _ => rfl) (fun _ => rfl) h

/-! ## Tickets -/

/-- The meter proved to know the key of a configuration: it told that it takes part in authentication, with a
ticket of one block, and answered the encrypted ticket by encrypting that again. -/
def ProvedKey (config : Config) (c c' : Client) : Prop :=
  ∃ cipher identified response identification feature encrypted twice answered rest,
    TicketCipher.ofKey ⟨config.telephone.authenticationKey⟩ = .ok cipher ∧
    Made c c' identified ∧ identified.Identified response ∧
    Response.parse Identification.takeWithFeatures response = .ok identification ∧
    identification.tickets = some feature ∧ feature.canAuthenticate = true ∧
    feature.ticket.length = cipher.blockSize ∧ cipher.encrypt feature.ticket = .ok encrypted ∧
    cipher.encrypt encrypted = .ok twice ∧ Made c c' answered ∧
    answered.Answered (.authenticate config.telephone.authenticationKeyId encrypted)
      (UInt8.ofNat (cipher.blockSize + 1) :: config.telephone.authenticationKeyId :: (twice ++ rest))

theorem identify_identified {withFeatures : Bool} (h : (identify withFeatures).run c = (.ok (), c')) :
    ∃ t response i, Made c c' t ∧ t.Identified response ∧ c'.identification = some i ∧
      Response.parse (if withFeatures then Identification.takeWithFeatures else Identification.take) response = .ok i := by
  unfold identify at h
  rw [Step.run_get_bind, Step.run_outcome_bind] at h
  rcases hw : c.wire with link | a
  · rw [onLinked_run _ hw] at h
    dsimp only at h
    obtain ⟨_, d, noted, h⟩ := Step.run_bind_ok.1 h
    obtain ⟨-, rfl⟩ := Prod.mk.inj noted
    obtain ⟨response, heard, h⟩ := Step.run_ofExcept_bind_ok.1 h
    obtain ⟨i, parsed, h⟩ := Step.run_ofExcept_bind_ok.1 h
    obtain ⟨-, rfl⟩ := Prod.mk.inj h
    exact ⟨_, response, i, ⟨[_], rfl, List.mem_singleton_self _⟩,
      ⟨rfl, heard, _, _, _, _, congrArg (Prod.mk _) hw, rfl, Step.run_eq_of_fst heard⟩, rfl, parsed⟩
  · have failed : (onLinked (.invalidState .identifyNeedsPackets) (do
        Linked.changeLink Link.reset
        Linked.requestWithMinimum Request.identify.bytes (Identification.minLength + 1))).run c =
        (.error (.invalidState .identifyNeedsPackets), c) := by
      unfold onLinked
      rw [Step.run_get_bind, hw]
      rfl
    rw [failed] at h
    obtain ⟨_, d, -, h⟩ := Step.run_bind_ok.1 h
    obtain ⟨response, none, -⟩ := Step.run_ofExcept_bind_ok.1 h
    cases none

theorem provenKey_ok (goes : c.GoesBy dialect config) {key : SecretKey} (h : c.provenKey = .ok key) :
    key = ⟨config.telephone.authenticationKey⟩ := by
  unfold provenKey at h
  split at h
  next held found =>
    split at h
    · cases h
    next left =>
      obtain rfl := Except.ok.inj h
      exact (goes.proves _ found).resolve_left (by simpa using left)
  · cases h

theorem ticket_ok {ticket : Bytes} {i : Identification} (known : c.identification = some i) (h : c.ticket = .ok ticket) :
    ∃ feature, i.tickets = some feature ∧ feature.canAuthenticate = true ∧ feature.ticket = ticket := by
  unfold Client.ticket at h
  rw [known] at h
  split at h
  next feature found =>
    split at h
    next takesPart => exact ⟨feature, found, takesPart, Except.ok.inj h⟩
    · cases h
  · cases h

/-- An answer that is accepted is the encrypted ticket, encrypted again. -/
theorem checkProof_ok {key : SecretKey} {cipher : TicketCipher} (known : TicketCipher.ofKey key = .ok cipher)
    {keyId : UInt8} {encrypted : Bytes} {answer : TicketAnswer} (size : answer.data.length = answer.length.toNat - 1)
    (h : checkProof cipher keyId encrypted answer = .ok ()) :
    answer.length = UInt8.ofNat (cipher.blockSize + 1) ∧ answer.keyId = keyId ∧
      cipher.encrypt encrypted = .ok answer.data := by
  unfold checkProof at h
  split at h
  · cases h
  next fits =>
    rw [not_or, Decidable.not_not, Decidable.not_not] at fits
    obtain ⟨decrypted, opened, h⟩ := Step.except_bind_ok.1 h
    split at h
    · cases h
    next same =>
      obtain rfl := Decidable.not_not.1 same
      refine ⟨?_, fits.2, TicketCipher.encrypt_of_decrypt known (by omega) opened⟩
      rw [← fits.1, UInt8.ofNat_toNat]

theorem authenticate_ok (goes : c.GoesBy dialect config) {i : Identification} (known : c.identification = some i)
    (h : authenticate.run c = (.ok (), c')) :
    ∃ cipher feature encrypted twice answered rest,
      TicketCipher.ofKey ⟨config.telephone.authenticationKey⟩ = .ok cipher ∧ i.tickets = some feature ∧
      feature.canAuthenticate = true ∧ feature.ticket.length = cipher.blockSize ∧
      cipher.encrypt feature.ticket = .ok encrypted ∧ cipher.encrypt encrypted = .ok twice ∧ Made c c' answered ∧
      answered.Answered (.authenticate config.telephone.authenticationKeyId encrypted)
        (UInt8.ofNat (cipher.blockSize + 1) :: config.telephone.authenticationKeyId :: (twice ++ rest)) := by
  have keyId : c.config.telephone.authenticationKeyId = config.telephone.authenticationKeyId := by rw [goes.configured]
  unfold authenticate at h
  rw [Step.run_get_bind] at h
  obtain ⟨ticket, given, h⟩ := Step.run_ofExcept_bind_ok.1 h
  obtain ⟨key, held, h⟩ := Step.run_ofExcept_bind_ok.1 h
  obtain rfl := provenKey_ok goes held
  obtain ⟨feature, offered, takesPart, rfl⟩ := ticket_ok known given
  dsimp only at h
  obtain ⟨cipher, made, h⟩ := Step.run_ofExcept_bind_ok.1 h
  split at h
  · exact absurd (Prod.mk.inj h).1 (by simp)
  next block =>
    obtain ⟨encrypted, once, h⟩ := Step.run_ofExcept_bind_ok.1 h
    rw [Step.run_outcome_bind, keyId] at h
    rcases hr : (transact (.authenticate config.telephone.authenticationKeyId encrypted)).run c with ⟨r, d⟩
    rw [hr] at h
    cases r with
    | error e =>
      dsimp only at h
      split at h
      · obtain ⟨_, _, _, h⟩ := Step.run_bind_ok.1 h
        exact absurd h Step.run_throw_ne_ok
      · exact absurd h Step.run_throw_ne_ok
    | ok results =>
      obtain ⟨answer, parsed, h⟩ := Step.run_ofExcept_bind_ok.1 h
      obtain ⟨checked, rfl⟩ := Prod.mk.inj ((Step.run_ofExcept _ _).symm.trans h)
      obtain ⟨answered, asked, answers, -⟩ := transact_answered goes hr
      obtain ⟨rest, rfl, size⟩ := TicketAnswer.parse_take parsed
      obtain ⟨length, same, again⟩ := checkProof_ok made size checked
      rw [length, same] at answers
      exact ⟨cipher, feature, encrypted, answer.data, answered, rest, made, offered, takesPart,
        Decidable.not_not.1 block, once, again, asked, answers⟩

/-! ## Starts -/

theorem CarriedOut.earlier (h : CarriedOut request d c') (grown : c.exchanges <:+ d.exchanges) :
    CarriedOut request c c' := by
  obtain ⟨t, results, made, answered⟩ := h
  exact ⟨t, results, made.earlier grown, answered⟩

/-- Where the password is to be sent, a session is active only behind it. -/
theorem secureAndActivate_ok {issueSecurity : Bool} (goes : c.GoesBy dialect config) (issued : issueSecurity = true)
    (h : (do
      if issueSecurity then security
      moveTo .active : Step Client Unit).run c = (.ok (), c')) : CarriedOut (.security config.paddedPassword) c c' := by
  rw [issued] at h
  obtain ⟨_, d, sent, moved⟩ := Step.run_bind_ok.1 h
  obtain ⟨t, results, made, answered, -⟩ := security_answered goes sent
  have on : Continues dialect config d c' := (moveTo_frame startFrame_continues _).of_run moved
  exact ⟨t, results, made.later on.grown, answered⟩

theorem startDirect_ok (goes : c.GoesBy dialect config) (issued : config.issueSecurity = true)
    (h : startDirect.run c = (.ok (), c')) : CarriedOut (.security config.paddedPassword) c c' := by
  have rest {d : Client} (on : Continues dialect config c d) (h : (do
      if (← get).config.issueSecurity then security
      moveTo .active : Step Client Unit).run d = (.ok (), c')) : CarriedOut (.security config.paddedPassword) c c' := by
    have goes' := on.goesBy goes
    rw [Step.run_get_bind] at h
    exact (secureAndActivate_ok goes' (by rw [goes'.configured]; exact issued) h).earlier on.grown
  unfold startDirect at h
  rw [Step.run_get_bind] at h
  obtain ⟨_, d, identified, h⟩ := Step.run_bind_ok.1 h
  have known : Continues dialect config c d :=
    (identify_frame startFrame_continues.toSessionFrame startFrame_continues.recognised false).of_run identified
  rw [Step.run_outcome_bind] at h
  have loggedOn : Continues dialect config d (negotiateAndLogon.run d).2 := negotiateAndLogon_frame startFrame_continues d
  rcases hr : negotiateAndLogon.run d with ⟨r, e⟩
  rw [hr] at h loggedOn
  cases r with
  | ok u => exact rest (trans_of _ known loggedOn) h
  | error e' =>
    dsimp only at h
    rw [Step.run_get_bind] at h
    split at h
    · obtain ⟨_, _, failed, -⟩ := Step.run_bind_ok.1 h
      exact absurd failed Step.run_throw_ne_ok
    · obtain ⟨_, f, restarted, h⟩ := Step.run_bind_ok.1 h
      have again : Continues dialect config e f := (restartAt_frame startFrame_continues _).of_run restarted
      exact rest (trans_of _ known (trans_of _ loggedOn again)) h

/-! ### What the meter told is not forgotten -/

theorem aloof_identification : Aloof identification := fun _ _ _ _ _ => rfl

theorem negotiate_identification (withBaud : Bool) : Moves (Same identification) (negotiate withBaud) := by
  have moved : Moves (Same identification) (moveTo .negotiating) := by
    refine .get_bind fun c => ?_
    cases c.phase.moveTo .negotiating <;> rfl
  exact .bind moved fun _ => agree_frame (frame_same aloof_identification).session withBaud

/-- What a start on a telephone line does last. -/
def showKey (config : Config) : Step Client Unit := do
  if config.telephone.enableAuthentication then authenticate
  else if config.issueSecurity then security
  moveTo .active

/-- A start on a telephone line comes from identify to its last part by steps that keep what was told. -/
theorem startTelephone_parts (goes : c.GoesBy dialect config) (h : startTelephone.run c = (.ok (), c')) :
    ∃ d e, (identify true).run c = (.ok (), d) ∧ Continues dialect config d e ∧
      e.identification = d.identification ∧ (showKey config).run e = (.ok (), c') := by
  have loggedOn {d : Client} (h : (logon >>= fun _ => showKey config).run d = (.ok (), c')) :
      ∃ e, Continues dialect config d e ∧ e.identification = d.identification ∧ (showKey config).run e = (.ok (), c') := by
    obtain ⟨_, e, done, h⟩ := Step.run_bind_ok.1 h
    exact ⟨e, (logon_frame startFrame_continues.toSessionFrame).of_run done,
      (logon_frame (frame_same aloof_identification).session).of_run done, h⟩
  have negotiated {d : Client} (h : (do
      if config.issueNegotiate then negotiate false
      logon
      showKey config : Step Client Unit).run d = (.ok (), c')) :
      ∃ e, Continues dialect config d e ∧ e.identification = d.identification ∧ (showKey config).run e = (.ok (), c') := by
    dsimp only at h
    split at h
    · obtain ⟨_, f, done, h⟩ := Step.run_bind_ok.1 h
      obtain ⟨e, on, same, rest⟩ := loggedOn h
      exact ⟨e, trans_of _ ((negotiate_frame startFrame_continues false).of_run done) on,
        same.trans ((negotiate_identification false).of_run done), rest⟩
    · exact loggedOn h
  unfold startTelephone at h
  rw [Step.run_get_bind, goes.configured] at h
  obtain ⟨_, d, identified, h⟩ := Step.run_bind_ok.1 h
  refine ⟨d, ?_⟩
  dsimp only at h
  split at h
  · obtain ⟨_, f, done, h⟩ := Step.run_bind_ok.1 h
    obtain ⟨e, on, same, rest⟩ := negotiated h
    exact ⟨e, identified, trans_of _ (timingSetup_continues.of_run done) on,
      same.trans ((timingSetup_same aloof_identification).of_run done), rest⟩
  · obtain ⟨e, on, same, rest⟩ := negotiated h
    exact ⟨e, identified, on, same, rest⟩

theorem startTelephone_proved (goes : c.GoesBy dialect config) (proving : config.telephone.enableAuthentication = true)
    (h : startTelephone.run c = (.ok (), c')) : ProvedKey config c c' := by
  obtain ⟨d, e, told, on, same, h⟩ := startTelephone_parts goes h
  have known : Continues dialect config c d :=
    (identify_frame startFrame_continues.toSessionFrame startFrame_continues.recognised true).of_run told
  obtain ⟨t, response, i, made, identified, learnt, parsed⟩ := identify_identified told
  unfold showKey at h
  rw [proving] at h
  obtain ⟨_, f, proof, moved⟩ := Step.run_bind_ok.1 h
  have shown : Continues dialect config e f := (authenticate_frame startFrame_continues.toSessionFrame).of_run proof
  have active : Continues dialect config f c' := (moveTo_frame startFrame_continues _).of_run moved
  obtain ⟨cipher, feature, encrypted, twice, answered, rest, ofKey, offered, takesPart, block, once, again, made', answers⟩ :=
    authenticate_ok (on.goesBy (known.goesBy goes)) (same.trans learnt) proof
  exact ⟨cipher, t, response, i, feature, encrypted, twice, answered, rest, ofKey,
    made.later (on.grown.trans (shown.grown.trans active.grown)), identified, parsed, offered, takesPart, block, once,
    again, (made'.earlier (known.grown.trans on.grown)).later active.grown, answers⟩

theorem startTelephone_accepted (goes : c.GoesBy dialect config)
    (without : config.telephone.enableAuthentication = false) (issued : config.issueSecurity = true)
    (h : startTelephone.run c = (.ok (), c')) : CarriedOut (.security config.paddedPassword) c c' := by
  obtain ⟨d, e, told, on, -, h⟩ := startTelephone_parts goes h
  have known : Continues dialect config c d :=
    (identify_frame startFrame_continues.toSessionFrame startFrame_continues.recognised true).of_run told
  unfold showKey at h
  rw [without] at h
  exact (secureAndActivate_ok (on.goesBy (known.goesBy goes)) issued h).earlier (known.grown.trans on.grown)

/-- Between two states of a client a service was carried out, and its answer was verified. -/
def VerifiedOut (request : Request) (o : NetworkOptions) (c c' : Client) : Prop :=
  ∃ t results, Made c c' t ∧ t.Answered request results ∧ t.Verified o

section Network

variable (goes : c.GoesBy .c1222 config) (secure : config.network.securityMode.isSecure = true)
  (always : config.network.responseControl = .always) (session : config.network.sessionless = false)

include goes secure always session

theorem logonWithIdle_verified (h : logonWithIdle.run c = (.ok (), c')) :
    VerifiedOut (.logonWithIdle config.userId config.paddedUser config.network.sessionIdleTimeout) config.network c c' := by
  have same : c.config.paddedUser = config.paddedUser := by rw [goes.configured]; rfl
  unfold logonWithIdle at h
  rw [Step.run_get_bind] at h
  dsimp only at h
  rw [same, goes.configured] at h
  obtain ⟨results, d, ran, h⟩ := Step.run_bind_ok.1 h
  obtain ⟨_, -, h⟩ := Step.run_ofExcept_bind_ok.1 h
  obtain ⟨-, rfl⟩ := Prod.mk.inj h
  obtain ⟨t, made, answered, served⟩ := transact_answered goes ran
  exact ⟨t, results, made, answered, answered.verified served secure always session⟩

theorem startNetwork_verified (h : startNetwork.run c = (.ok (), c')) :
    VerifiedOut (.logonWithIdle config.userId config.paddedUser config.network.sessionIdleTimeout) config.network c c' ∧
      (config.issueSecurity = true → VerifiedOut (.security config.paddedPassword) config.network c c') := by
  unfold startNetwork at h
  rw [Step.run_get_bind, goes.configured] at h
  obtain ⟨_, d, begun, h⟩ := Step.run_bind_ok.1 h
  have first : Continues .c1222 config c d := startFrame_continues.begun.of_run begun
  dsimp only at h
  rw [session] at h
  obtain ⟨_, e, loggedOn, h⟩ := Step.run_bind_ok.1 h
  obtain ⟨_, f, counted, h⟩ := Step.run_bind_ok.1 h
  have logon : Moves (Continues .c1222 config) logonWithIdle :=
    .bind .get fun _ => .bind (transact_frame frame_continues.services trivial) fun _ => .bind (.ofExcept _) fun _ => .pure _
  have second : Continues .c1222 config d e := logon.of_run loggedOn
  have third : Continues .c1222 config e f := startFrame_continues.loggedOn.of_run counted
  have before : Continues .c1222 config c f := trans_of _ first (trans_of _ second third)
  -- what is left keeps what was made, with the password or without
  have last : Moves (Continues .c1222 config) (if config.issueSecurity && !false then security else moveTo .securityHandshake) :=
    .ite (security_frame startFrame_continues) (moveTo_frame startFrame_continues _)
  obtain ⟨u, g, shown, moved⟩ : ∃ u g,
      (if config.issueSecurity && !false then security else moveTo .securityHandshake).run f = (.ok u, g) ∧
        (moveTo .active).run g = (.ok (), c') := by
    split at h
    next issued => rw [if_pos issued]; exact Step.run_bind_ok.1 h
    next issued => rw [if_neg issued]; exact Step.run_bind_ok.1 h
  have fourth : Continues .c1222 config f g := last.of_run shown
  have fifth : Continues .c1222 config g c' := (moveTo_frame startFrame_continues _).of_run moved
  constructor
  · obtain ⟨t, results, made, answered, verified⟩ :=
      logonWithIdle_verified (first.goesBy goes) secure always session loggedOn
    exact ⟨t, results, (made.earlier first.grown).later (third.grown.trans (fourth.grown.trans fifth.grown)), answered,
      verified⟩
  · intro issued
    rw [issued] at shown
    obtain ⟨t, results, made, answered, served⟩ := security_answered (before.goesBy goes) shown
    exact ⟨t, results, (made.earlier before.grown).later fifth.grown, answered,
      answered.verified served secure always session⟩

end Network

/-! ## Sessions -/

/-- A start that succeeds went the way of its dialect, after the channel was opened. -/
theorem bringUp_ok (goes : c.GoesBy dialect config) (h : bringUp.run c = (.ok (), c')) :
    ∃ d, Continues dialect config c d ∧ (match dialect with
      | .c1218 => startDirect
      | .c1221 => startTelephone
      | .c1222 => startNetwork).run d = (.ok (), c') := by
  have moved {d : Client} {x : Step Client Unit} (on : Continues dialect config c d)
      (h : (moveTo .identifying >>= fun _ => x).run d = (.ok (), c')) :
      ∃ e, Continues dialect config c e ∧ x.run e = (.ok (), c') := by
    obtain ⟨_, e, done, h⟩ := Step.run_bind_ok.1 h
    exact ⟨e, trans_of _ on ((moveTo_frame startFrame_continues _).of_run done), h⟩
  unfold bringUp at h
  rw [Step.run_get_bind, goes.speaks] at h
  have onward {x : Step Client Unit} (h : (do
      if !c.channel.connected then onChannel Channel.openUp
      moveTo .identifying
      x : Step Client Unit).run c = (.ok (), c')) : ∃ d, Continues dialect config c d ∧ x.run d = (.ok (), c') := by
    dsimp only at h
    split at h
    · obtain ⟨_, d, opened, h⟩ := Step.run_bind_ok.1 h
      exact moved (startFrame_continues.opened.of_run opened) h
    · exact moved (refl_of _ c) h
  cases dialect with
  | c1218 => exact onward h
  | c1221 => exact onward h
  | c1222 => exact onward h

/-- What the configuration of a session asks of its start. -/
structure HandshakeCompleted (dialect : Dialect) (config : Config) (c c' : Client) : Prop where
  proved : dialect = .c1221 → config.telephone.enableAuthentication = true → ProvedKey config c c'
  accepted : config.issueSecurity = true →
    dialect = .c1218 ∨ dialect = .c1221 ∧ config.telephone.enableAuthentication = false →
    CarriedOut (.security config.paddedPassword) c c'
  verified : dialect = .c1222 → config.network.securityMode.isSecure = true →
    config.network.responseControl = .always → config.network.sessionless = false →
    VerifiedOut (.logonWithIdle config.userId config.paddedUser config.network.sessionIdleTimeout) config.network c c' ∧
      (config.issueSecurity = true → VerifiedOut (.security config.paddedPassword) config.network c c')

/-- **No session without its handshake.** Whatever was done with a client before, whatever its meter does and
whatever became of a first attempt at another line speed, a start succeeds only if it completed, itself, the
handshake that its configuration asks for. -/
theorem handshakeCompleted_of_startSession (reached : ReachedBy dialect config c)
    (h : startSession.run c = (.ok (), c')) : HandshakeCompleted dialect config c c' := by
  have goes := reached.goesBy
  obtain ⟨d, on, h⟩ := bringUp_ok goes (startSession_ok h).2
  have goes' := on.goesBy goes
  refine ⟨?_, ?_, ?_⟩
  · rintro rfl proving
    obtain ⟨cipher, t, response, i, feature, encrypted, twice, answered, rest, ofKey, made, identified, parsed, offered,
      takesPart, block, once, again, made', answers⟩ := startTelephone_proved goes' proving h
    exact ⟨cipher, t, response, i, feature, encrypted, twice, answered, rest, ofKey, made.earlier on.grown, identified,
      parsed, offered, takesPart, block, once, again, made'.earlier on.grown, answers⟩
  · rintro issued (rfl | ⟨rfl, without⟩)
    · exact (startDirect_ok goes' issued h).earlier on.grown
    · exact (startTelephone_accepted goes' without issued h).earlier on.grown
  · rintro rfl secure always session
    obtain ⟨⟨t, results, made, verified⟩, password⟩ := startNetwork_verified goes' secure always session h
    refine ⟨⟨t, results, made.earlier on.grown, verified⟩, fun issued => ?_⟩
    obtain ⟨t, results, made, verified⟩ := password issued
    exact ⟨t, results, made.earlier on.grown, verified⟩

/-- A session over a telephone line in which a key of eight bytes is proved. -/
def proving : Config where
  issueNegotiate := false
  telephone :=
    { enableAuthentication := true, authenticationKey := List.replicate 8 0x5A, authenticationKeyId := 2 }

/-- A line with a meter that offers a ticket, answers logon, and proves the key. -/
def provingLine : Line where
  answers := [
    fun _ => [(10, .arrival (.data (ackByte :: frameBytes ⟨0, ⟨0⟩, 0, [0, 2, 1, 0, 2, 1, 0, 8, 1, 2, 3, 4, 5, 6, 7, 8, 0]⟩)))],
    fun _ => [],
    fun _ => [(10, .arrival (.data (ackByte :: frameBytes ⟨0, ⟨0x20⟩, 0, [0]⟩)))],
    fun _ => [],
    fun _ => [(10, .arrival (.data (ackByte :: frameBytes ⟨0, ⟨0⟩, 0, [0, 9, 2, 88, 132, 50, 101, 74, 94, 49, 165]⟩)))],
    fun _ => []]

theorem handshakeCompleted_proving : ∃ c c', ReachedBy .c1221 proving c ∧ startSession.run c = (.ok (), c') ∧
    HandshakeCompleted .c1221 proving c c' ∧ ProvedKey proving c c' := by
  have started : ((ofConfig (.ofLine provingLine) .c1221 proving 0 fun _ => 0).toOption.map
      fun c => (startSession.run c).1.toBool) = some true := by decide +kernel
  rcases made : ofConfig (.ofLine provingLine) .c1221 proving 0 (fun _ => 0) with e | c
  · rw [made] at started
    cases started
  rw [made] at started
  rcases run : startSession.run c with ⟨r, c'⟩
  cases r with
  | error e =>
    have failed : (startSession.run c).1.toBool = true := Option.some.inj started
    rw [run] at failed
    cases failed
  | ok u =>
    have completed := handshakeCompleted_of_startSession (.new made) run
    exact ⟨c, c', .new made, run, completed, completed.proved rfl rfl⟩

end Client

end Metering
