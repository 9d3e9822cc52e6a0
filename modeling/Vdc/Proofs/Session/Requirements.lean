import Vdc.Proofs.Session.Callbacks
import Vdc.Proofs.Session.Keeping

/-!
# Messages that lack a field

`Payload.missing` names the fields that a message needs and lacks. An endpoint answers a message
with an id that lacks a field by saying that data is missing, whatever the kind of the message and
however much of it is missing, and does nothing else about it (`reports_handle`).

One kind is an exception: a handshake that lacks its name or its version is passed over without a
word, like one with the wrong version (`not_reported_handshake`).
-/

namespace Vdc

variable {σ : Type}

namespace Directive

theorem ofScene_of_missing {notice : SceneNotice}
    (h : (notice.required.filter (!·.2)).map (·.1) ≠ []) (id : RequestId)
    (make : List String → Int32 → Scope → Callback) : ofScene id notice make = lacking id := by
  rcases notice with ⟨_ | ⟨dsuid, dsuids⟩, _ | scene, scope⟩
  case cons.some => exact absurd rfl h
  all_goals rfl

theorem ofPropertyRequest_none (id : RequestId) (elements : List Element)
    (make : String → Property → Property → Callback) :
    ofPropertyRequest id none elements make = lacking id := by
  by_cases hid : id = reservedId
  · simp only [ofPropertyRequest, lacking, refusal, if_pos hid]
  · simp only [ofPropertyRequest, if_neg hid]

/-- All that is asked for with a message that lacks a field is to be told so, unless it is a
handshake. -/
theorem ofMessage_of_missing {m : Message} (hmissing : m.payload.missing ≠ [])
    (hkind : m.payload.kind ≠ .requestHello) (own : String) :
    ofMessage own m = lacking m.id := by
  obtain ⟨id, payload⟩ := m
  cases payload with
  | requestHello => exact absurd rfl hkind
  | ping dsuid | remove dsuid =>
    cases dsuid with
    | none => rfl
    | some => exact absurd rfl hmissing
  | callScene | saveScene | undoScene | setLocalPriority | callMinScene =>
    simp only [ofMessage]
    exact ofScene_of_missing hmissing id _
  | identify dsuids scope =>
    cases dsuids with
    | nil => rfl
    | cons => exact absurd rfl hmissing
  | setControlValue notice =>
    rcases notice with ⟨_ | ⟨dsuid, dsuids⟩, _ | name, _ | value, scope⟩
    case cons.some.some => exact absurd rfl hmissing
    all_goals rfl
  | setChannelValue notice =>
    rcases notice with ⟨_ | ⟨dsuid, dsuids⟩, applyNow, _ | channel, _ | value, scope⟩
    case cons.some.some => exact absurd rfl hmissing
    all_goals rfl
  | getProperty dsuid elements | setProperty dsuid elements =>
    cases dsuid with
    | none =>
      simp only [ofMessage]
      exact ofPropertyRequest_none id elements _
    | some => exact absurd rfl hmissing
  | _ => exact absurd rfl hmissing

end Directive

/-- A handshake that lacks its name or its version introduces nobody. -/
theorem introduction?_of_missing {payload : List UInt8} {id : RequestId} {hello : Hello}
    (hdecode : Message.decode payload = .ok ⟨id, .requestHello hello⟩)
    (hmissing : (Payload.requestHello hello).missing ≠ []) (version : UInt32) :
    introduction? version payload = none := by
  rcases hello with ⟨_ | name, _ | offered⟩
  case some.some => exact absurd rfl hmissing
  all_goals simp [introduction?, hdecode]

namespace Session

variable {s s' : Session σ}

/-- What is done about a message that lacks a field. -/
structure Reports (s : Session σ) (m : Message) (s' : Session σ) : Prop where
  /-- Unless it is a handshake, a message with an id is answered once, with the code that data is
  missing. -/
  answered : m.id ≠ reservedId → m.payload.kind ≠ .requestHello →
    s.transport.Takes (.genericResponse m.id .missingData) →
      Sends [.genericResponse m.id .missingData] s s'
  /-- A message without an id is not answered, and neither is a handshake. -/
  unanswered : m.id = reservedId ∨ m.payload.kind = .requestHello → Sends [] s s'
  /-- The application does not hear of it. -/
  uncalled : callsOf s'.journal = callsOf s.journal
  /-- The connection, the state and the pending requests are what they were. -/
  keeps : Keeps s s'

/-- A message with an id that gets through and lacks a field is answered with the code that data is
missing, unless it is a handshake, and nothing else is done about it. -/
theorem reports_handle (app : Application σ) {payload : List UInt8} {m : Message}
    (hdecode : Message.decode payload = .ok m) (hadmission : s.state.admission m = .deliver)
    (hmissing : m.payload.missing ≠ []) : s.Reports m (s.handle app payload) := by
  have htaken : Sends [] s (s.note (.handled payload)) := .note s _ rfl
  have hkept : Keeps s (s.note (.handled payload)) := .note s _
  obtain ⟨id, said⟩ := m
  by_cases hkind : said.kind = .requestHello
  · cases said with
    | requestHello hello =>
      have hnone := introduction?_of_missing hdecode hmissing s.apiVersion
      rw [handle_of_declined app hdecode (.inl hnone)]
      exact ⟨fun _ hother => absurd rfl hother, fun _ => htaken, rfl, hkept⟩
    | _ => cases hkind
  · have hdirective : Directive.ofPayload s.dsuid s.state payload = Directive.lacking id := by
      rw [Directive.ofPayload_of_decode hdecode, hadmission]
      exact Directive.ofMessage_of_missing hmissing hkind s.dsuid
    rw [handle, hdirective, Directive.lacking, Directive.refusal]
    by_cases hid : id = reservedId
    · rw [if_pos hid]
      exact ⟨fun hother => absurd hid hother, fun _ => htaken, rfl, hkept⟩
    · rw [if_neg hid]
      exact ⟨fun _ _ htakes => htaken.trans (.of_takes htakes),
        fun hnever => absurd hnever (not_or.2 ⟨hid, hkind⟩), callsOf_send _ _,
        hkept.trans (.of_send _ _)⟩

/-- A notice about the value of a channel names no device and has no value, but it has an id. -/
theorem reports_handle_notice :
    ∃ (s : Session Unit) (payload : List UInt8) (m : Message),
      Message.decode payload = .ok m ∧ s.state.admission m = .deliver ∧
        m.payload.missing = ["dsuid", "value"] ∧ m.id ≠ reservedId ∧
        s.transport.Takes (.genericResponse m.id .missingData) ∧
        s.Reports m (s.handle .default payload) := by
  let s : Session Unit := { new "own" .default () 0 with
    transport := { Transport.listen 4096 0 with held := some (.fresh "peer") }
    state := .active "P" }
  let m : Message := ⟨5, .setChannelValue ⟨[], false, some 1, none, ⟨none, none⟩⟩⟩
  have hdecode : Message.decode m.toJson.render = .ok m := by
    rw [Message.decode_render (by decide), if_pos (by decide)]
  refine ⟨s, m.toJson.render, m, hdecode, rfl, rfl, nofun, by decide +kernel, ?_⟩
  exact reports_handle .default hdecode rfl (by decide)

end Session

namespace Endpoint

open Session

/-- A peer begins with a handshake that has an id and lacks its name. The connection would take an
answer, but none is sent. -/
theorem not_reported_handshake :
    ∃ e : Endpoint Unit, start .default () "own" .default none 0 = .ready e ∧
      ∃ inputs payload m, Message.decode payload = .ok m ∧
        (e.run inputs).session.state = .connected ∧
        (e.run inputs).session.state.admission m = .deliver ∧
        m.payload.missing = ["dsuid"] ∧ m.id ≠ reservedId ∧
        (e.run inputs).session.transport.Takes (.genericResponse m.id .missingData) ∧
        ¬ Sends [.genericResponse m.id .missingData] (e.run inputs).session
          ((e.run inputs).session.handle e.application payload) := by
  have h : start .default () "own" .default none 0 =
      .ready ⟨.default, Session.new "own" .default () 0, none, false⟩ := rfl
  let m : Message := ⟨1, .requestHello ⟨none, some 2⟩⟩
  have hdecode : Message.decode m.toJson.render = .ok m := by
    rw [Message.decode_render (by decide), if_pos (by decide)]
  refine ⟨_, h, [.arrive (.fresh "peer"), .work], m.toJson.render, m, hdecode, by decide +kernel,
    by decide +kernel, rfl, nofun, by decide +kernel, fun hanswered => ?_⟩
  have hnone := introduction?_of_missing hdecode nofun Config.default.apiVersion
  rw [handle_of_declined _ hdecode (.inl hnone)] at hanswered
  have hsame := hanswered.unique (.note _ _ rfl)
  cases hsame

end Endpoint

end Vdc
