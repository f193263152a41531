import Mathlib.Algebra.Group.Nat.Defs
import Metering.Proofs.Exchange
import Metering.Proofs.Line

set_option autoImplicit false

/-! # Runs of exchanges

A session is a run of exchanges up to logon and a run of exchanges after it. Each exchange finds
the association that the one before left, and a channel that is any at all: what the meter sends
late, twice or in another order is what the channel still holds when the exchange starts, and what
will arrive on it.

Ids are counted by the exchanges that came through (`invocationId_exchangesFrom`), so two exchanges
carry one id exactly when none from the one up to the other came through, or when the random ids
before logon meet the count after it (`SessionRun.id_eq_iff`). -/

namespace Metering

open Step (Moves Same)

/-! ## Exchanges made -/

/-- One call: the channel as it is then, and the services to send. -/
structure Call where
  channel : Channel
  services : List Bytes

/-- An exchange that was made under the association it found. -/
structure Exchanged where
  association : Association
  call : Call

namespace Exchanged

/-- The state in which the exchange started. -/
def start (e : Exchanged) : Associated := ⟨e.call.channel, e.association⟩

/-- The invocation id of its APDU. -/
def id (e : Exchanged) : UInt32 := (Associated.prepare e.association).invocationId

/-- The APDU was answered, or needed no answer. -/
def comesThrough (e : Exchanged) : Bool := Associated.comesThrough e.call.services e.start

/-- The APDU that was accepted as the answer. -/
def accepted (e : Exchanged) : Option Acse.Incoming :=
  (((Associated.attempt e.call.services).run e.start).1.toOption).join

/-- What the caller is told. -/
def result (e : Exchanged) : Except Fault (List Bytes) :=
  ((Associated.exchange e.call.services).run e.start).1

/-- The association that the next exchange finds. -/
def after (e : Exchanged) : Association :=
  ((Associated.exchange e.call.services).run e.start).2.association

/-- The APDU, if any byte of it went to the line. -/
def transmitted (e : Exchanged) : Option Bytes :=
  let line := ((Associated.attempt e.call.services).run e.start).2.channel.line
  if line.written = e.call.channel.line.written then none
  else ((Associated.pack e.call.services).run e.start).1.toOption

end Exchanged

/-! ## One step of a run -/

namespace Associated

theorem pack_identity (services : List Bytes) (s : Associated) :
    ((pack services).run s).2.association.identity = (prepare s.association).identity :=
  Association.build_identity _ _

theorem prepare_of_session {a : Association} (h : a.options.sessionless = false) : prepare a = a := by
  simp [prepare, h]

end Associated

namespace Association

theorem advanceId_settings (a : Association) : a.advanceId.settings = a.settings := by
  unfold advanceId
  split <;> rfl

theorem advanceId_of_session {a : Association} (h : a.options.sessionless = false) :
    a.advanceId = { a with invocationId := a.invocationId + 1 } := by
  simp [advanceId, h]

theorem afterLogon_settings (a : Association) : a.afterLogon.settings = a.settings := by
  unfold afterLogon
  split <;> rfl

theorem prepare_settings (a : Association) : (Associated.prepare a).settings = a.settings := by
  unfold Associated.prepare
  dsimp only
  split
  · split <;> rfl
  · rfl

end Association

namespace Exchanged

open Association

theorem after_outgoing (e : Exchanged) :
    e.after.outgoing =
      if e.comesThrough then
        ((Associated.pack e.call.services).run e.start).2.association.advanceId.outgoing
      else ((Associated.pack e.call.services).run e.start).2.association.outgoing :=
  Associated.exchange_outgoing _ _

theorem after_settings (e : Exchanged) : e.after.settings = e.association.settings := by
  have packed := congrArg (·.settings) (Associated.pack_identity e.call.services e.start)
  have left := congrArg (·.identity.settings) e.after_outgoing
  refine Eq.trans ?_ (packed.trans (prepare_settings e.association))
  split at left
  · exact left.trans (advanceId_settings _)
  · exact left

/-- Within a session the id moves on by one if the exchange came through, and stays otherwise. -/
theorem after_invocationId {e : Exchanged} (h : e.association.options.sessionless = false) :
    e.after.invocationId =
      if e.comesThrough then e.association.invocationId + 1 else e.association.invocationId := by
  have packed := Associated.pack_identity e.call.services e.start
  rw [show e.start.association = e.association from rfl, Associated.prepare_of_session h] at packed
  have options := congrArg (·.settings.options.sessionless) packed
  have id := congrArg (·.invocationId) packed
  have left := congrArg (·.identity.invocationId) e.after_outgoing
  refine Eq.trans left ?_
  split
  · rw [advanceId_of_session (options.trans h)]
    exact congrArg (· + 1) id
  · exact id

end Exchanged

/-! ## Runs -/

/-- The exchanges of a list of calls, oldest first. -/
def exchangesFrom : Association → List Call → List Exchanged
  | _, [] => []
  | a, call :: rest => ⟨a, call⟩ :: exchangesFrom (Exchanged.after ⟨a, call⟩) rest

/-- The association that a list of calls leaves. -/
def associationAfter : Association → List Call → Association
  | a, [] => a
  | a, call :: rest => associationAfter (Exchanged.after ⟨a, call⟩) rest

/-- How many exchanges of a list came through. -/
def throughCount (l : List Exchanged) : Nat := l.countP (·.comesThrough)

/-- A session: the exchanges up to logon, and those after it. -/
structure SessionRun where
  /-- The association before the session. -/
  association : Association
  toLogon : List Call
  afterLogon : List Call

namespace SessionRun

/-- The association at the start of the session. -/
def begun (r : SessionRun) : Association := r.association.beginSession

/-- The exchanges up to logon. -/
def early (r : SessionRun) : List Exchanged := exchangesFrom r.begun r.toLogon

/-- The association once logon succeeded. -/
def loggedOn (r : SessionRun) : Association := (associationAfter r.begun r.toLogon).afterLogon

/-- The exchanges after logon. -/
def late (r : SessionRun) : List Exchanged := exchangesFrom r.loggedOn r.afterLogon

/-- All exchanges, oldest first. -/
def exchanges (r : SessionRun) : List Exchanged := r.early ++ r.late

/-- The number of calls. -/
def calls (r : SessionRun) : Nat := r.toLogon.length + r.afterLogon.length

end SessionRun

@[simp] theorem length_exchangesFrom (a : Association) (calls : List Call) :
    (exchangesFrom a calls).length = calls.length := by
  induction calls generalizing a with
  | nil => rfl
  | cons call rest ih => simp [exchangesFrom, ih]

/-- What every exchange carries on holds of the associations that a run finds and leaves. -/
theorem exchangesFrom_inv {I : Association → Prop} (h : ∀ e : Exchanged, I e.association → I e.after)
    {a : Association} (ha : I a) (calls : List Call) :
    (∀ e ∈ exchangesFrom a calls, I e.association) ∧ I (associationAfter a calls) := by
  induction calls generalizing a with
  | nil => exact ⟨by simp [exchangesFrom], ha⟩
  | cons call rest ih =>
    obtain ⟨found, left⟩ := ih (h ⟨a, call⟩ ha)
    refine ⟨?_, left⟩
    intro e he
    rcases List.mem_cons.1 he with rfl | he
    · exact ha
    · exact found e he

/-- What an exchange leaves behind, and every exchange and logon carry on, is found by all later
ones. -/
theorem exchangesFrom_later {I : Association → Prop} (h : ∀ e : Exchanged, I e.association → I e.after)
    {a : Association} (calls : List Call) {i : Nat} {e : Exchanged}
    (he : (exchangesFrom a calls)[i]? = some e) (left : I e.after) :
    (∀ (j : Nat) (e' : Exchanged), i < j → (exchangesFrom a calls)[j]? = some e' → I e'.association) ∧
      I (associationAfter a calls) := by
  -- the exchange in question is the first of the calls, or one of the rest
  induction calls generalizing a i with
  | nil => simp [exchangesFrom] at he
  | cons call rest ih =>
    cases i with
    | zero =>
      obtain rfl := Option.some.inj he
      obtain ⟨found, last⟩ := exchangesFrom_inv h left rest
      refine ⟨?_, last⟩
      intro j e' hj he'
      obtain ⟨j, rfl⟩ := Nat.exists_eq_succ_of_ne_zero (by omega : j ≠ 0)
      exact found e' (List.mem_of_getElem? he')
    | succ i =>
      obtain ⟨found, last⟩ := ih he
      refine ⟨?_, last⟩
      intro j e' hj he'
      obtain ⟨j, rfl⟩ := Nat.exists_eq_succ_of_ne_zero (by omega : j ≠ 0)
      exact found j e' (by omega) he'

theorem settings_exchangesFrom (a : Association) (calls : List Call) :
    (∀ e ∈ exchangesFrom a calls, e.association.settings = a.settings) ∧
      (associationAfter a calls).settings = a.settings :=
  exchangesFrom_inv (I := fun b => b.settings = a.settings)
    (fun e h => e.after_settings.trans h) rfl calls

/-- **The id of an exchange counts the exchanges before it that came through.** -/
theorem invocationId_exchangesFrom {a : Association} (h : a.options.sessionless = false)
    (calls : List Call) {i : Nat} {e : Exchanged} (he : (exchangesFrom a calls)[i]? = some e) :
    e.association.invocationId =
      a.invocationId + UInt32.ofNat (throughCount ((exchangesFrom a calls).take i)) := by
  induction calls generalizing a i with
  | nil => simp [exchangesFrom] at he
  | cons call rest ih =>
    cases i with
    | zero =>
      obtain rfl := Option.some.inj he
      simp [throughCount]
    | succ i =>
      have options : (Exchanged.after ⟨a, call⟩).options.sessionless = false :=
        (congrArg (·.options.sessionless) (Exchanged.after_settings ⟨a, call⟩)).trans h
      -- the first exchange moves the id on exactly if it came through
      rw [ih options he, Exchanged.after_invocationId h]
      simp only [exchangesFrom, throughCount, List.take_succ_cons, List.countP_cons]
      split
      · rw [UInt32.ofNat_add, UInt32.add_assoc, UInt32.add_comm 1]
        rfl
      · rfl

/-! ## Two exchanges under one id -/

/-- The exchanges from number `i` up to number `j`, that one left out. -/
def between (l : List Exchanged) (i j : Nat) : List Exchanged := (l.take j).drop i

/-- No exchange from one to another came through exactly when their counts agree. -/
theorem throughCount_take_eq_iff (l : List Exchanged) {i j : Nat} (h : i ≤ j) :
    throughCount (l.take i) = throughCount (l.take j) ↔
      ∀ e ∈ between l i j, e.comesThrough = false := by
  -- the longer part is the shorter one and what lies between
  have parts : l.take j = l.take i ++ between l i j := by
    have := List.take_append_drop i (l.take j)
    rw [List.take_take, Nat.min_eq_left h] at this
    exact this.symm
  rw [parts, throughCount, throughCount, List.countP_append]
  constructor
  · intro eq e he
    have none := List.countP_eq_zero.1 (by omega : List.countP (·.comesThrough) (between l i j) = 0)
    simpa using none e he
  · intro none
    have zero : List.countP (·.comesThrough) (between l i j) = 0 :=
      List.countP_eq_zero.2 fun e he => by simp [none e he]
    omega

theorem throughCount_take_le (l : List Exchanged) (i : Nat) : throughCount (l.take i) ≤ l.length :=
  Nat.le_trans List.countP_le_length (List.length_take_le' i l)

/-- Numbers below `2 ^ 32` are told apart after being added to an id. -/
theorem add_ofNat_inj {id : UInt32} {m n : Nat} (hm : m < 2 ^ 32) (hn : n < 2 ^ 32) :
    id + UInt32.ofNat m = id + UInt32.ofNat n ↔ m = n := by
  rw [UInt32.add_right_inj, UInt32.ofNat_eq_iff_mod_eq_toNat, UInt32.toNat_ofNat',
    Nat.mod_eq_of_lt hm, Nat.mod_eq_of_lt hn]

namespace SessionRun

/-- Two exchanges carry one id. Within a phase that is so when no exchange from the one up to the
other came through; across logon when the random ids before it meet the count after it. -/
def Repeats (r : SessionRun) (i j : Nat) : Prop :=
  if j < r.early.length ∨ r.early.length ≤ i then
    ∀ e ∈ between r.exchanges i j, e.comesThrough = false
  else
    r.begun.invocationId + UInt32.ofNat (throughCount (r.early.take i)) =
      UInt32.ofNat (throughCount (r.late.take (j - r.early.length)))

variable {r : SessionRun} {i j : Nat} {e e' : Exchanged}

theorem loggedOn_settings (r : SessionRun) : r.loggedOn.settings = r.association.settings :=
  (Association.afterLogon_settings _).trans (settings_exchangesFrom r.begun r.toLogon).2

/-- Every exchange of a session goes by its settings. -/
theorem exchanges_settings (he : e ∈ r.exchanges) : e.association.settings = r.association.settings := by
  rcases List.mem_append.1 he with he | he
  · exact (settings_exchangesFrom r.begun r.toLogon).1 e he
  · exact ((settings_exchangesFrom r.loggedOn r.afterLogon).1 e he).trans r.loggedOn_settings

theorem exchanges_early (hi : i < r.early.length) : r.exchanges[i]? = r.early[i]? :=
  List.getElem?_append_left hi

theorem exchanges_late (hi : r.early.length ≤ i) :
    r.exchanges[i]? = r.late[i - r.early.length]? :=
  List.getElem?_append_right hi

/-- What an exchange leaves behind is found by every later one of the session, if exchanges and
logon carry it on. -/
theorem exchanges_later {I : Association → Prop} (h : ∀ e : Exchanged, I e.association → I e.after)
    (logon : ∀ a, I a → I a.afterLogon) (hij : i < j) (he : r.exchanges[i]? = some e)
    (he' : r.exchanges[j]? = some e') (left : I e.after) : I e'.association := by
  by_cases hi : r.early.length ≤ i
  · rw [exchanges_late hi] at he
    rw [exchanges_late (by omega)] at he'
    exact (exchangesFrom_later h r.afterLogon he left).1 _ e' (by omega) he'
  rw [exchanges_early (by omega)] at he
  obtain ⟨found, last⟩ := exchangesFrom_later h r.toLogon he left
  by_cases hj : j < r.early.length
  · rw [exchanges_early hj] at he'
    exact found j e' hij he'
  · rw [exchanges_late (by omega)] at he'
    exact (exchangesFrom_inv h (logon _ last) r.afterLogon).1 e' (List.mem_of_getElem? he')

theorem between_early (hj : j ≤ r.early.length) : between r.exchanges i j = between r.early i j := by
  rw [between, between, exchanges, List.take_append_of_le_length hj]

theorem between_late (hi : r.early.length ≤ i) (hij : i ≤ j) :
    between r.exchanges i j = between r.late (i - r.early.length) (j - r.early.length) := by
  rw [between, between, exchanges, List.take_append, List.take_of_length_le (by omega),
    List.drop_append, List.drop_of_length_le hi, List.nil_append]

section Session

variable (session : r.association.options.sessionless = false)

include session

theorem id_early (hi : i < r.early.length) (he : r.exchanges[i]? = some e) :
    e.association.invocationId = r.begun.invocationId + UInt32.ofNat (throughCount (r.early.take i)) := by
  rw [exchanges_early hi] at he
  have options : r.begun.options.sessionless = false := session
  exact invocationId_exchangesFrom options r.toLogon he

theorem id_late (hi : r.early.length ≤ i) (he : r.exchanges[i]? = some e) :
    e.association.invocationId =
      0 + UInt32.ofNat (throughCount (r.late.take (i - r.early.length))) := by
  have logged : r.loggedOn.options.sessionless = false :=
    (congrArg (·.options.sessionless) r.loggedOn_settings).trans session
  have left : (associationAfter r.begun r.toLogon).options.sessionless = false :=
    (congrArg (·.options.sessionless) (settings_exchangesFrom r.begun r.toLogon).2).trans session
  have zero : r.loggedOn.invocationId = 0 := by simp [loggedOn, Association.afterLogon, left]
  rw [exchanges_late hi] at he
  have counted := invocationId_exchangesFrom logged r.afterLogon he
  rwa [zero] at counted

theorem id_eq (he : e ∈ r.exchanges) : e.id = e.association.invocationId := by
  have options : e.association.options.sessionless = false :=
    (congrArg (·.options.sessionless) (exchanges_settings he)).trans session
  rw [Exchanged.id, Associated.prepare_of_session options]

/-- **When two exchanges carry one id.** -/
theorem id_eq_iff (few : r.calls < 2 ^ 32) (hij : i < j) (he : r.exchanges[i]? = some e)
    (he' : r.exchanges[j]? = some e') : e.id = e'.id ↔ r.Repeats i j := by
  have lengths : r.early.length + r.late.length < 2 ^ 32 := by
    simpa [early, late, calls] using few
  rw [id_eq session (List.mem_of_getElem? he), id_eq session (List.mem_of_getElem? he'), Repeats]
  have bound := fun (l : List Exchanged) k => throughCount_take_le l k
  by_cases hj : j < r.early.length
  · -- both before logon
    rw [if_pos (.inl hj), id_early session (by omega) he, id_early session hj he',
      between_early (by omega), ← throughCount_take_eq_iff _ (Nat.le_of_lt hij)]
    exact add_ofNat_inj (by have := bound r.early i; omega) (by have := bound r.early j; omega)
  by_cases hi : r.early.length ≤ i
  · -- both after logon
    rw [if_pos (.inr hi), id_late session hi he, id_late session (by omega) he',
      between_late hi (Nat.le_of_lt hij), ← throughCount_take_eq_iff _ (by omega)]
    exact add_ofNat_inj (by have := bound r.late (i - r.early.length); omega)
      (by have := bound r.late (j - r.early.length); omega)
  · -- one before and one after logon
    rw [if_neg (by omega), id_early session (by omega) he, id_late session (by omega) he',
      UInt32.zero_add]

end Session

end SessionRun

end Metering
