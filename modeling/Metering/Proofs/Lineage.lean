import Metering.Proofs.Tempo
import Metering.Proofs.Verified

set_option autoImplicit false

/-! # What clients keep of their configuration

A client takes the keys of its configuration over when it is made, and from then on it keeps them or
wipes them; it never comes by others. Its association works with the key of the configuration, or with
none (`Association.Serves`). So all the clients of one configuration go by it (`Client.GoesBy`), whatever
operations were run and whatever the line did, and none of them forgets a service that it handed to the
wire (`Client.Continues`). -/

namespace Metering

open Step (Moves Same Preserves)

/-! ## Associations -/

namespace Association

/-- What the associations of a configuration do not change. -/
def settingsOf (config : Config) : Settings where
  parameters := .ofOptions config.network
  options := { config.network with securityKey := [] }
  leadingSecurity :=
    if config.network.sessionless && config.issueSecurity then
      some (Request.securityWithUser config.paddedPassword config.userId).bytes
    else none

/-- The association is one of a configuration. Its key is that of the configuration, if it was not wiped. -/
structure Serves (config : Config) (a : Association) : Prop where
  settings : a.settings = settingsOf config
  security : ∀ s ∈ a.security, s.isCleared = true ∨
    s.key = ⟨config.network.securityKey⟩ ∧ s.keyId = config.network.securityKeyId ∧ s.key.eax = .ok s.eax

variable {config : Config} {a a' : Association}

theorem Serves.parameters (h : a.Serves config) : a.parameters = .ofOptions config.network :=
  congrArg (·.parameters) h.settings

theorem Serves.options (h : a.Serves config) : a.options = { config.network with securityKey := [] } :=
  congrArg (·.options) h.settings

theorem Serves.of_outgoing (h : a.Serves config) (same : a'.outgoing = a.outgoing) : a'.Serves config where
  settings := (congrArg (·.identity.settings) same).trans h.settings
  security := by
    rw [show a'.security = a.security from congrArg (·.security) same]
    exact h.security

/-- A context may change, as long as its key and what works under it do not. -/
theorem Serves.of_keys (h : a.Serves config) (settings : a'.settings = a.settings)
    (eax : a'.security.map SecurityContext.keys = a.security.map SecurityContext.keys)
    (key : a'.security.map (·.key) = a.security.map (·.key)) : a'.Serves config where
  settings := settings.trans h.settings
  security := by
    intro s' hs'
    rw [hs'] at eax key
    obtain ⟨s, hs, same⟩ := Option.map_eq_some_iff.1 eax.symm
    rw [hs] at key
    obtain ⟨keyId, works⟩ := Prod.mk.inj same
    have kept : s'.key = s.key := Option.some.inj key
    rw [SecurityContext.isCleared, kept, ← keyId, ← works]
    exact h.security s hs

theorem Serves.advanceId (h : a.Serves config) : a.advanceId.Serves config := by
  unfold Association.advanceId
  split <;> exact ⟨h.settings, h.security⟩

theorem Serves.beginSession (h : a.Serves config) : a.beginSession.Serves config := ⟨h.settings, h.security⟩

theorem Serves.afterLogon (h : a.Serves config) : a.afterLogon.Serves config := by
  unfold Association.afterLogon
  split
  · exact h
  · exact ⟨h.settings, h.security⟩

theorem Serves.endSession (h : a.Serves config) : a.endSession.Serves config := by
  refine ⟨h.settings, fun s' hs' => ?_⟩
  obtain ⟨s, -, rfl⟩ := Option.map_eq_some_iff.1 hs'
  left
  unfold SecurityContext.clear SecurityContext.isCleared
  dsimp only
  cases s.key.clear.eax with
  | ok eax => exact s.key.isCleared_clear
  | error e => exact s.key.isCleared_clear

theorem serves_of_ofConfig {clock : UInt64} {entropy : Nat → UInt32} (h : ofConfig config clock entropy = .ok a) :
    a.Serves config := by
  unfold ofConfig at h
  obtain ⟨security, found, h⟩ := Step.except_bind_ok.1 h
  obtain rfl := Except.ok.inj h
  refine ⟨rfl, fun s hs => .inr ?_⟩
  obtain rfl : security = some s := hs
  unfold contextOf at found
  split at found
  · obtain ⟨key, taken, found⟩ := Step.except_bind_ok.1 found
    obtain ⟨context, made, found⟩ := Step.except_bind_ok.1 found
    obtain ⟨eax, works, made⟩ := Step.except_bind_ok.1 made
    obtain rfl := Except.ok.inj made
    unfold SecretKey.aes128 SecretKey.ofBytes at taken
    split at taken
    · obtain rfl := Except.ok.inj taken
      obtain rfl := Option.some.inj (Except.ok.inj found)
      cases config.network.initializationVector with
      | none => exact ⟨rfl, rfl, works⟩
      | some iv => exact ⟨rfl, rfl, works⟩
    · cases taken
  · cases found

end Association

namespace Associated

variable {config : Config}

theorem exchange_serves (services : List Bytes) :
    Moves (Preserves fun s => s.association.Serves config) (exchange services) := by
  intro s serves
  have opening := pack_opening services s
  have keys : ((pack services).run s).2.association.keys = s.association.keys := pack_keys services s
  have packed : ((pack services).run s).2.association.Serves config :=
    serves.of_keys (congrArg (·.settings) opening) (congrArg (·.keys) opening) (congrArg Prod.snd keys)
  have left := exchange_outgoing services s
  split at left
  · exact packed.advanceId.of_outgoing left
  · exact packed.of_outgoing left

theorem request_serves (service : Bytes) : Moves (Preserves fun s => s.association.Serves config) (request service) := by
  refine .bind (exchange_serves _) fun responses => ?_
  cases responses with
  | nil => exact .throw _
  | cons response rest => exact .pure _

end Associated

/-- The wire is one of a configuration for a dialect. -/
def Wire.Serves (dialect : Dialect) (config : Config) : Wire → Prop
  | .packets _ => dialect.capabilities.framing = .packet
  | .apdus a => dialect.capabilities.framing = .apdu ∧ a.Serves config

namespace Client

variable {α : Type} {dialect : Dialect} {config : Config}

/-! ## Clients -/

/-- The client is one of a configuration for a dialect. The key it proves is that of the configuration,
if it was not wiped. -/
structure GoesBy (dialect : Dialect) (config : Config) (c : Client) : Prop where
  speaks : c.dialect = dialect
  configured : c.config = { config with telephone.authenticationKey := [], network.securityKey := [] }
  proves : ∀ key ∈ c.authenticationKey, key.isCleared = true ∨ key = ⟨config.telephone.authenticationKey⟩
  wired : c.wire.Serves dialect config

theorem goesBy_of_ofConfig {channel : Channel} {clock : UInt64} {entropy : Nat → UInt32} {c : Client}
    (h : ofConfig channel dialect config clock entropy = .ok c) : c.GoesBy dialect config := by
  unfold ofConfig at h
  obtain ⟨_, -, h⟩ := Step.except_bind_ok.1 h
  obtain ⟨wire, wired, h⟩ := Step.except_bind_ok.1 h
  have serves : wire.Serves dialect config := by
    unfold wireFor at wired
    split at wired
    next framing =>
      obtain rfl := Except.ok.inj wired
      exact framing
    next framing =>
      cases ha : Association.ofConfig config clock entropy with
      | error e =>
        rw [ha] at wired
        cases wired
      | ok a =>
        rw [ha] at wired
        obtain rfl := Except.ok.inj wired
        exact ⟨framing, Association.serves_of_ofConfig ha⟩
  dsimp only at h
  split at h
  · obtain ⟨key, taken, h⟩ := Step.except_bind_ok.1 h
    obtain rfl := Except.ok.inj h
    refine ⟨rfl, rfl, fun k hk => .inr ?_, serves⟩
    obtain rfl : key = some k := hk
    unfold SecretKey.ofBytes at taken
    split at taken
    · exact (Option.some.inj (Except.ok.inj taken)).symm
    · cases taken
  · obtain ⟨key, taken, h⟩ := Step.except_bind_ok.1 h
    obtain rfl := Except.ok.inj h
    obtain rfl := Except.ok.inj taken
    exact ⟨rfl, rfl, nofun, serves⟩

/-- No service is forgotten, and a client of a configuration stays one. -/
structure Continues (dialect : Dialect) (config : Config) (c c' : Client) : Prop where
  grown : c.exchanges <:+ c'.exchanges
  goesBy : c.GoesBy dialect config → c'.GoesBy dialect config

instance : IsPreorder Client (Continues dialect config) where
  refl _ := ⟨List.suffix_refl _, id⟩
  trans _ _ _ h h' := ⟨h.grown.trans h'.grown, h'.goesBy ∘ h.goesBy⟩

/-- Only the channel and the wire were worked on. -/
theorem Continues.of_wire {c : Client} {channel : Channel} {wire : Wire}
    (serves : c.wire.Serves dialect config → wire.Serves dialect config) :
    Continues dialect config c { c with channel, wire } :=
  ⟨List.suffix_refl _, fun h => ⟨h.speaks, h.configured, h.proves, serves h.wired⟩⟩

theorem onLinked_continues (otherwise : Fault) (x : Step Linked α) :
    Moves (Continues dialect config) (onLinked otherwise x) := by
  refine .get_bind fun c => ?_
  rcases hw : c.wire with link | a
  · dsimp only
    rw [Step.run_set_bind, Step.run_ofExcept]
    exact .of_wire fun framing => by rwa [hw] at framing
  · exact refl_of (Continues dialect config) c

theorem onAssociated_continues {x : Step Associated α}
    (h : Moves (Preserves fun s => s.association.Serves config) x) :
    Moves (Continues dialect config) (onAssociated x) := by
  refine .get_bind fun c => ?_
  rcases hw : c.wire with link | a
  · exact refl_of (Continues dialect config) c
  · dsimp only
    rw [Step.run_set_bind, Step.run_ofExcept]
    refine .of_wire fun serves => ?_
    rw [hw] at serves
    exact ⟨serves.1, h ⟨c.channel, a⟩ serves.2⟩

theorem onChannel_continues (x : Step Channel α) : Moves (Continues dialect config) (onChannel x) :=
  fun _ => .of_wire id

theorem changeLink_continues (f : Link → Link) : Moves (Continues dialect config) (changeLink f) := by
  refine .modify fun c => ?_
  rcases hw : c.wire with link | a
  · exact .of_wire fun framing => by rwa [hw] at framing
  · exact refl_of (Continues dialect config) c

theorem frame_continues : Frame (Continues dialect config) where
  linked otherwise _ _ := onLinked_continues otherwise _
  associated _ := onAssociated_continues (Associated.request_serves _)
  channel _ := onChannel_continues _
  changed _ := changeLink_continues _
  noted _ _ := ⟨List.suffix_refl _, fun h => ⟨h.speaks, h.configured, h.proves, h.wired⟩⟩
  recorded _ _ := ⟨List.suffix_cons _ _, fun h => ⟨h.speaks, h.configured, h.proves, h.wired⟩⟩

theorem renumbers_continues : Renumbers (Continues dialect config) :=
  fun _ _ => ⟨List.suffix_refl _, fun h => ⟨h.speaks, h.configured, h.proves, h.wired⟩⟩

theorem shutdown_continues : Moves (Continues dialect config) shutdown := by
  intro c
  rw [shutdown_run]
  refine ⟨List.suffix_refl _, fun h => ⟨h.speaks, h.configured, fun key hkey => .inl ?_, ?_⟩⟩
  · obtain ⟨k, -, rfl⟩ := Option.map_eq_some_iff.1 hkey
    exact k.isCleared_clear
  · have serves := h.wired
    rcases hw : c.wire with link | a
    · rw [hw] at serves
      exact serves
    · rw [hw] at serves
      exact ⟨serves.1, serves.2.endSession⟩

theorem startFrame_continues : StartFrame (fun _ => True) (Continues dialect config) where
  toSessionFrame := frame_continues.session
  moved _ _ _ := ⟨List.suffix_refl _, fun h => ⟨h.speaks, h.configured, h.proves, h.wired⟩⟩
  recognised _ _ := ⟨List.suffix_refl _, fun h => ⟨h.speaks, h.configured, h.proves, h.wired⟩⟩
  begun := onAssociated_continues (.modify fun _ serves => serves.beginSession)
  loggedOn := onAssociated_continues (.modify fun _ serves => serves.afterLogon)
  opened := onChannel_continues _
  closed := shutdown_continues

theorem operationFrame_continues : OperationFrame (fun _ => True) (Continues dialect config) where
  toTableFrame := frame_continues.transfers.tables
  waits _ := trivial
  forgot := changeLink_continues _
  bounded _ := .modify fun _ => .of_wire id
  closed := shutdown_continues

theorem timingSetup_continues : Moves (Continues dialect config) timingSetup :=
  timingSetup_frame frame_continues.session (frame_continues.onLink Linked.parameters_pace)
    (fun _ _ _ _ => changeLink_continues _) fun _ => .modify fun _ => .of_wire id

/-! ## Runs -/

/-- The clients of all runs of one configuration: a new client, and what operations make of it one after
the other. Between them the line does what it wants, and the caller may reset the channel or ask for
progress. -/
inductive ReachedBy (dialect : Dialect) (config : Config) : Client → Prop
  | new {channel : Channel} {clock : UInt64} {entropy : Nat → UInt32} {c : Client}
      (made : ofConfig channel dialect config clock entropy = .ok c) : ReachedBy dialect config c
  | meanwhile {c : Client} (before : ReachedBy dialect config c) (channel : Channel) (watched : Bool) :
      ReachedBy dialect config { c with channel, watched }
  | after {c : Client} (before : ReachedBy dialect config c) (o : Operation) :
      ReachedBy dialect config (o.step.run c).2

theorem ReachedBy.reached {c : Client} (h : ReachedBy dialect config c) : Reached c := by
  induction h with
  | new made => exact .new made
  | meanwhile _ channel watched ih => exact .meanwhile ih channel watched
  | after _ o ih => exact .after ih o

theorem operation_continues (o : Operation) : Moves (Continues dialect config) o.step := by
  cases o with
  | start => exact startSession_frame startFrame_continues timingSetup_continues
  | transfer t timeout => exact transfer_frame operationFrame_continues t timeout fun _ => renumbers_continues
  | finish => exact endSession_frame startFrame_continues

/-- **The clients of a configuration go by it.** -/
theorem ReachedBy.goesBy {c : Client} (h : ReachedBy dialect config c) : c.GoesBy dialect config := by
  induction h with
  | new made => exact goesBy_of_ofConfig made
  | meanwhile _ _ _ ih => exact ⟨ih.speaks, ih.configured, ih.proves, ih.wired⟩
  | after _ o ih => exact (operation_continues o _).goesBy ih

end Client

end Metering
