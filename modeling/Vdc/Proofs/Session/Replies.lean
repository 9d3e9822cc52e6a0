import Vdc.Proofs.Session.Handshake
import Vdc.Proofs.Session.Output

/-!
# Replies

An endpoint without devices answers a payload at most once, and always under the id that the payload
came with. `Directive.reply?` is the one message that a directive is answered with; what is asked
for with a payload decides it (`reply?_ofPayload`), and carrying the directive out sends that
message or, if the connection does not take it, nothing (`answers_obey`).
-/

namespace Vdc

/-- The id that a payload came with: that of its message or, if it is none, the one that can still
be made out. -/
def Message.idOf? (payload : List UInt8) : Option RequestId :=
  match decode payload with
  | .ok m => some m.id
  | .error _ => peekId? payload

namespace MessageKind

/-- Kinds of requests that are answered whatever else they say. -/
def isAnswered : MessageKind → Bool
  | .remove | .getProperty | .setProperty => true
  | _ => false

/-- Kinds that an endpoint sends and is not to receive. -/
def isForManager : MessageKind → Bool
  | .responseHello | .pong | .announceContainer | .announceDevice | .vanish | .identifyDevice
  | .propertyResponse | .pushProperty => true
  | _ => false

end MessageKind

/-- The code that an endpoint without devices answers a request about properties with. -/
def propertyAnswerCode (dsuid : Option String) (elements : List Element) : ResultCode :=
  match dsuid, Property.ofElements? elements with
  | none, _ => .missingData
  | some _, .ok _ => .notImplemented
  | some _, .error _ => .invalidValueType

/-- The code that it answers any such request with. -/
def Payload.answerCode : Payload → ResultCode
  | .remove (some _) => .forbidden
  | .getProperty dsuid elements | .setProperty dsuid elements => propertyAnswerCode dsuid elements
  | _ => .missingData

/-- A message is turned down with an answer only if it has an id. -/
theorem SessionState.id_ne_of_reject {state : SessionState} {m : Message}
    (h : state.admission m = .reject) : m.id ≠ reservedId := by
  cases state with
  | disconnected | active => cases h
  | connected =>
    simp only [admission] at h
    split at h
    · cases h
    · split at h
      · assumption
      · cases h

namespace Directive

variable {own : String} {version : UInt32}

/-- What an endpoint without devices answers a directive with. -/
def reply? (own : String) (version : UInt32) : Directive → Option Message
  | .ignore | .part _ | .complete _ _ => none
  | .refuse id code => some (.genericResponse id code)
  | .greet id hello =>
    match SessionState.checkHello version id hello with
    | .ok _ => some ⟨id, .responseHello own⟩
    | .error _ => none
  | .pong dsuid => some (.notification (.pong dsuid))
  | .remove id _ => if id = reservedId then none else some (.genericResponse id .forbidden)
  | .deliver (.getProperty _ _ response) =>
    some (.genericResponse response.requestId .notImplemented)
  | .deliver (.setProperty _ _ response) =>
    if response.requestId = reservedId then none
    else some (.genericResponse response.requestId .notImplemented)
  | .deliver _ => none

/-! ## What payloads are answered with -/

theorem reply?_refusal (id : RequestId) (code : ResultCode) :
    (refusal id code).reply? own version =
      if id = reservedId then none else some (.genericResponse id code) := by
  unfold refusal
  split <;> rfl

/-- A notice about a scene is answered only if it lacks a field. -/
theorem reply?_ofScene (id : RequestId) (notice : SceneNotice)
    {callback : List String → Int32 → Scope → Callback}
    (hquiet : ∀ dsuids scene scope,
      (deliver (callback dsuids scene scope)).reply? own version = none)
    {m : Message} (h : (ofScene id notice callback).reply? own version = some m) :
    m.id = id ∧ id ≠ reservedId := by
  unfold ofScene at h
  split at h
  · rw [lacking, reply?_refusal] at h
    split at h
    · cases h
    · next hid => exact ⟨Option.some.inj h ▸ rfl, hid⟩
  · rw [lacking, reply?_refusal] at h
    split at h
    · cases h
    · next hid => exact ⟨Option.some.inj h ▸ rfl, hid⟩
  · rw [hquiet] at h
    cases h

/-- A request about properties that has an id is answered under it with its code. -/
theorem reply?_ofPropertyRequest {id : RequestId} (hid : id ≠ reservedId) (dsuid : Option String)
    (elements : List Element) {callback : String → Property → Property → Callback}
    (hanswered : ∀ dsuid tree, (deliver (callback dsuid tree (.forRequest id))).reply? own version =
      some (.genericResponse id .notImplemented)) :
    (ofPropertyRequest id dsuid elements callback).reply? own version =
      some (.genericResponse id (propertyAnswerCode dsuid elements)) := by
  unfold ofPropertyRequest propertyAnswerCode
  rw [if_neg hid]
  cases dsuid with
  | none => exact (reply?_refusal id .missingData).trans (if_neg hid)
  | some dsuid =>
    cases Property.ofElements? elements with
    | ok tree => exact hanswered dsuid tree
    | error e => rfl

/-- A request that is answered whatever it says, and has an id, is answered with its code. -/
theorem reply?_of_isAnswered {m : Message} (hid : m.id ≠ reservedId)
    (hkind : m.payload.kind.isAnswered = true) (own : String) (version : UInt32) :
    (ofMessage own m).reply? own version =
      some (.genericResponse m.id m.payload.answerCode) := by
  obtain ⟨id, payload⟩ := m
  cases payload with
  | remove dsuid =>
    cases dsuid with
    | none => exact (reply?_refusal id .missingData).trans (if_neg hid)
    | some dsuid => exact if_neg hid
  | getProperty dsuid elements => exact reply?_ofPropertyRequest hid dsuid elements fun _ _ => rfl
  | setProperty dsuid elements =>
    exact reply?_ofPropertyRequest hid dsuid elements fun _ _ => if_neg hid
  | _ => cases hkind

/-- What is answered to a message is the pong for the endpoint itself, or has the id of the
message. -/
theorem reply?_ofMessage {m reply : Message}
    (h : (ofMessage own m).reply? own version = some reply) :
    (reply = .notification (.pong own) ∧ m.payload = .ping (some own)) ∨
      (reply.id = m.id ∧ m.id ≠ reservedId) := by
  have hrefusal {code : ResultCode} (h : (refusal m.id code).reply? own version = some reply) :
      reply.id = m.id ∧ m.id ≠ reservedId := by
    rw [reply?_refusal] at h
    split at h
    · cases h
    · next hid => exact ⟨Option.some.inj h ▸ rfl, hid⟩
  obtain ⟨id, payload⟩ := m
  have hanswered {payload : Payload} (hid : id ≠ reservedId)
      (hkind : payload.kind.isAnswered = true)
      (h : (ofMessage own ⟨id, payload⟩).reply? own version = some reply) :
      reply.id = id ∧ id ≠ reservedId := by
    rw [reply?_of_isAnswered (m := ⟨id, payload⟩) hid hkind] at h
    exact ⟨Option.some.inj h ▸ rfl, hid⟩
  cases payload with
  | requestHello hello =>
    simp only [ofMessage, reply?] at h
    split at h
    · next hcheck =>
      obtain rfl := Option.some.inj h
      exact .inr ⟨rfl, (SessionState.checkHello_eq_ok_iff.1 hcheck).1⟩
    · cases h
  | bye => cases h
  | ping dsuid =>
    cases dsuid with
    | none => exact .inr (hrefusal h)
    | some dsuid =>
      simp only [ofMessage] at h
      split at h
      · next hown => exact .inl ⟨hown ▸ (Option.some.inj h).symm, by rw [hown]⟩
      · cases h
  | remove dsuid =>
    by_cases hid : id = reservedId
    · cases dsuid <;> simp [ofMessage, lacking, refusal, hid, reply?] at h
    · exact .inr (hanswered hid rfl h)
  | genericResponse =>
    simp only [ofMessage] at h
    split at h <;> cases h
  | callScene | saveScene | undoScene | setLocalPriority | callMinScene =>
    simp only [ofMessage] at h
    exact .inr (reply?_ofScene id _ (fun _ _ _ => rfl) h)
  | identify dsuids scope =>
    cases dsuids with
    | nil => exact .inr (hrefusal h)
    | cons => cases h
  | setControlValue notice =>
    rcases notice with ⟨_ | ⟨dsuid, dsuids⟩, _ | name, _ | value, scope⟩ <;>
      first | cases h | exact .inr (hrefusal h)
  | setChannelValue notice =>
    rcases notice with ⟨_ | ⟨dsuid, dsuids⟩, applyNow, _ | channel, _ | value, scope⟩ <;>
      first | cases h | exact .inr (hrefusal h)
  | getProperty dsuid elements | setProperty dsuid elements =>
    by_cases hid : id = reservedId
    · simp [ofMessage, ofPropertyRequest, hid, reply?] at h
    · exact .inr (hanswered hid rfl h)
  | _ => exact .inr (hrefusal h)

/-- What is answered to a payload is the pong for the endpoint itself, or has the id that the
payload came with. -/
theorem reply?_ofPayload {state : SessionState} {payload : List UInt8} {reply : Message}
    (h : (ofPayload own state payload).reply? own version = some reply) :
    (reply = .notification (.pong own) ∧
        ∃ id, Message.decode payload = .ok ⟨id, .ping (some own)⟩) ∨
      (reply.id ≠ reservedId ∧ Message.idOf? payload = some reply.id) := by
  cases hdecode : Message.decode payload with
  | error e =>
    simp only [ofPayload, hdecode] at h
    split at h
    · cases h
    · rw [reply?_refusal] at h
      split at h
      · cases h
      · next hid =>
        obtain rfl := Option.some.inj h
        cases hpeek : Message.peekId? payload with
        | none => exact absurd (by rw [hpeek]; rfl) hid
        | some id =>
          rw [hpeek] at hid
          exact .inr ⟨hid, by rw [Message.idOf?, hdecode]; exact hpeek⟩
  | ok m =>
    have hidOf : Message.idOf? payload = some m.id := by rw [Message.idOf?, hdecode]
    rw [ofPayload_of_decode hdecode] at h
    cases hadmission : state.admission m with
    | deliver =>
      rw [hadmission] at h
      rcases reply?_ofMessage h with ⟨hpong, hping⟩ | ⟨hsame, hid⟩
      · exact .inl ⟨hpong, m.id, by rw [← hping]⟩
      · exact .inr ⟨hsame ▸ hid, hsame ▸ hidOf⟩
    | drop =>
      rw [hadmission] at h
      cases h
    | reject =>
      rw [hadmission] at h
      have hid := SessionState.id_ne_of_reject hadmission
      obtain rfl := Option.some.inj h
      exact .inr ⟨hid, hidOf⟩

/-- A farewell and a reply are not answered. -/
theorem reply?_of_farewell {state : SessionState} {payload : List UInt8} {m : Message}
    (hdecode : Message.decode payload = .ok m)
    (hkind : m.payload.kind = .bye ∨ m.payload.kind = .genericResponse) :
    (ofPayload own state payload).reply? own version = none := by
  have hmessage : (ofMessage own m).reply? own version = none := by
    obtain ⟨id, payload⟩ := m
    cases payload with
    | bye => rfl
    | genericResponse =>
      simp only [ofMessage]
      split <;> rfl
    | _ => rcases hkind with hkind | hkind <;> cases hkind
  have hprecedes : SessionState.precedesSession m.payload.kind = true := by
    rcases hkind with hkind | hkind <;> rw [hkind] <;> rfl
  rw [ofPayload_of_decode hdecode]
  cases state with
  | disconnected => rfl
  | connected =>
    rw [SessionState.admission, if_pos hprecedes]
    exact hmessage
  | active => exact hmessage

/-- A payload that is no message is refused if an id can be made out. -/
theorem ofPayload_of_error {state : SessionState} {payload : List UInt8} {e : Error}
    {id : RequestId} (hdecode : Message.decode payload = .error e)
    (hidOf : Message.idOf? payload = some id) (hid : id ≠ reservedId) :
    ofPayload own state payload = .refuse id .messageUnknown := by
  have hpeek : Message.peekId? payload = some id := by rwa [Message.idOf?, hdecode] at hidOf
  have hempty : payload.isEmpty = false := by
    cases payload with
    | nil =>
      have hnone : Message.peekId? [] = none := rfl
      rw [hnone] at hpeek
      cases hpeek
    | cons => rfl
  simp [ofPayload, hempty, hdecode, hpeek, refusal, hid]

/-- A message that only a session manager is to receive is refused if it has an id. -/
theorem ofMessage_of_isForManager {m : Message} (hid : m.id ≠ reservedId)
    (hkind : m.payload.kind.isForManager = true) (own : String) :
    ofMessage own m = .refuse m.id .messageUnknown := by
  obtain ⟨id, payload⟩ := m
  cases payload with
  | responseHello | pong | announceContainer | announceDevice | vanish | identifyDevice
  | propertyResponse | pushProperty => exact if_neg hid
  | _ => cases hkind

end Directive

/-! ## Carrying directives out -/

namespace Session

variable {σ : Type} {s s' s'' : Session σ}

/-- One message is sent or none; it is sent if the held connection takes it. -/
def Answers (reply : Option Message) (s s' : Session σ) : Prop :=
  ∃ replies, Sends replies s s' ∧ replies.Sublist reply.toList ∧
    ∀ m, reply = some m → s.transport.Takes m → replies = [m]

namespace Answers

variable {reply : Option Message}

theorem none (h : Sends [] s s') : Answers .none s s' :=
  ⟨[], h, List.nil_sublist _, nofun⟩

/-- Nothing was sent before the answer. -/
theorem after (h : Answers reply s' s'') (h' : Sends [] s s') (ht : s'.transport = s.transport) :
    Answers reply s s'' := by
  obtain ⟨replies, hsends, hsub, htakes⟩ := h
  exact ⟨replies, h'.trans hsends, hsub, ht ▸ htakes⟩

theorem of_attempt (s : Session σ) (m : Message) :
    Answers (some m) s (s.attempt (s.transmit m)).2 := by
  cases hs : s.transmit m with
  | ok s' =>
    refine ⟨[m], .of_transmit hs, List.Sublist.refl _, fun m' hm' _ => ?_⟩
    rw [Option.some.inj hm']
  | error e =>
    refine ⟨[], .refl s, List.nil_sublist _, fun m' hm' htakes => ?_⟩
    obtain ⟨s', hs'⟩ := exists_transmit htakes
    rw [← Option.some.inj hm', hs] at hs'
    cases hs'

end Answers

/-- Calling an application without devices back sends at most the answer to a property request. -/
theorem answers_call (s : Session σ) (callback : Callback) :
    Answers ((Directive.deliver callback).reply? s.dsuid s.apiVersion) s
      (s.call .default callback) := by
  have hcalled : Sends [] s (s.note (.called callback s.status)) := .note s _ rfl
  cases callback with
  | getProperty dsuid query response =>
    exact (Answers.of_attempt _ _).after hcalled rfl
  | setProperty dsuid values response =>
    simp only [Directive.reply?, call, Application.default, Application.defaultReaction,
      Script.tell, run, send]
    split
    · exact .none hcalled
    · exact (Answers.of_attempt _ _).after hcalled rfl
  | _ => exact .none hcalled

/-- Doing what a directive asks for sends what it is answered with, as far as the connection takes
it. -/
theorem answers_obey (directive : Directive)
    (hsilent : ∀ request ∈ s.pending.entries, ∀ outcome, (request.completion outcome).IsSilent) :
    Answers (directive.reply? s.dsuid s.apiVersion) s (s.obey .default directive) := by
  cases directive with
  | ignore => exact .none (.refl s)
  | refuse | pong => exact .of_attempt s _
  | deliver callback => exact answers_call s callback
  | greet id hello =>
    simp only [Directive.reply?, obey, greet]
    cases SessionState.checkHello s.apiVersion id hello with
    | error e => exact .none (.refl s)
    | ok peer =>
      have hanswer := Answers.of_attempt s ⟨id, .responseHello s.dsuid⟩
      cases hs : s.transmit ⟨id, .responseHello s.dsuid⟩ with
      | error e => simpa only [attempt, hs] using hanswer
      | ok s' =>
        rw [hs] at hanswer
        obtain ⟨replies, hsends, hreplies⟩ := hanswer
        have hopened :
            Sends [] s' ((s'.opened peer).note (.called .hello (s'.opened peer).status)) :=
          .none rfl rfl ⟨[.called .hello (s'.opened peer).status], rfl, rfl⟩
        have hgreeted := hsends.trans hopened
        rw [List.append_nil] at hgreeted
        exact ⟨replies, hgreeted, hreplies⟩
  | part dsuid =>
    exact .none ((Sends.of_disconnect hsilent).trans (.note _ _ rfl))
  | remove id dsuid =>
    have hcalled : Sends [] s (s.note (.called (.remove dsuid) s.status)) := .note s _ rfl
    simp only [Directive.reply?, obey, remove]
    split
    · exact .none hcalled
    · exact (Answers.of_attempt _ _).after hcalled rfl
  | complete id code =>
    refine .none ?_
    simp only [obey, complete, RequestCache.take]
    split
    · next request pending htake =>
      have hfound : s.pending.entries.find? (·.id == id) = some request := congrArg Prod.fst htake
      have hrequest := hsilent request (List.mem_of_find?_eq_some hfound)
      have htaken : Sends [] s { s with pending := pending } := .none rfl rfl ⟨[], rfl, rfl⟩
      exact htaken.trans (Sends.trans (.note _ _ rfl) (.of_run (hrequest _) _))
    · exact .refl s

/-! ## The discipline of replies -/

/-- How a payload may be answered, and when it is answered in any case. -/
structure WellAnswered (s : Session σ) (payload : List UInt8) (replies : List Message) : Prop where
  /-- A payload is answered once at most. -/
  length_le : replies.length ≤ 1
  /-- Apart from the pong for the endpoint itself, an answer has the id that the payload came with,
  which is not the reserved one. -/
  sameId : ∀ reply ∈ replies,
    (reply = .notification (.pong s.dsuid) ∧
        ∃ id, Message.decode payload = .ok ⟨id, .ping (some s.dsuid)⟩) ∨
      (reply.id ≠ reservedId ∧ Message.idOf? payload = some reply.id)
  /-- Without an id nothing but such a pong is sent. -/
  unnumbered : Message.idOf? payload = none ∨ Message.idOf? payload = some reservedId →
    ∀ reply ∈ replies, reply = .notification (.pong s.dsuid)
  /-- A farewell and a reply are not answered. -/
  final : ∀ m, Message.decode payload = .ok m →
    m.payload.kind = .bye ∨ m.payload.kind = .genericResponse → replies = []
  /-- A payload that is no message is answered if it has an id. -/
  unknown : ∀ e id, Message.decode payload = .error e → Message.idOf? payload = some id →
    id ≠ reservedId → s.transport.Takes (.genericResponse id .messageUnknown) →
      replies = [.genericResponse id .messageUnknown]
  /-- In an open session a request for the removal or the properties of a device is answered if it
  has an id. -/
  request : ∀ peer m, s.state = .active peer → Message.decode payload = .ok m →
    m.payload.kind.isAnswered = true → m.id ≠ reservedId →
    s.transport.Takes (.genericResponse m.id m.payload.answerCode) →
      replies = [.genericResponse m.id m.payload.answerCode]
  /-- In an open session a message that only a session manager is to receive is refused if it has an
  id. -/
  misdirected : ∀ peer m, s.state = .active peer → Message.decode payload = .ok m →
    m.payload.kind.isForManager = true → m.id ≠ reservedId →
    s.transport.Takes (.genericResponse m.id .messageUnknown) →
      replies = [.genericResponse m.id .messageUnknown]

/-- An endpoint without devices, whose completions send nothing, answers every payload at most once
and under its own id. -/
theorem wellAnswered_handle (s : Session σ) (payload : List UInt8)
    (hsilent : ∀ request ∈ s.pending.entries, ∀ outcome, (request.completion outcome).IsSilent) :
    ∃ replies, Sends replies s (s.handle .default payload) ∧ s.WellAnswered payload replies := by
  have hnoted : Sends [] s (s.note (.handled payload)) := .note s _ rfl
  obtain ⟨replies, hsends, hsub, htakes⟩ :=
    (answers_obey (s := s.note (.handled payload)) (Directive.ofPayload s.dsuid s.state payload)
      hsilent).after hnoted rfl
  have hreply {reply : Message} (hmem : reply ∈ replies) :=
    Directive.reply?_ofPayload (Option.mem_toList.1 (hsub.subset hmem))
  have hactive {peer : String} {m : Message} (hstate : s.state = .active peer)
      (hdecode : Message.decode payload = .ok m) :
      Directive.ofPayload s.dsuid s.state payload = Directive.ofMessage s.dsuid m := by
    rw [Directive.ofPayload_of_decode hdecode, hstate]
    rfl
  refine ⟨replies, hsends, ?_, fun reply hmem => hreply hmem, fun hid reply hmem => ?_,
    fun m hdecode hkind => ?_, fun e id hdecode hidOf hid htake => ?_,
    fun peer m hstate hdecode hkind hid htake => ?_,
    fun peer m hstate hdecode hkind hid htake => ?_⟩
  · refine Nat.le_trans hsub.length_le ?_
    cases Directive.reply? s.dsuid s.apiVersion (Directive.ofPayload s.dsuid s.state payload) <;>
      simp
  · rcases hreply hmem with ⟨hpong, -⟩ | ⟨hne, hidOf⟩
    · exact hpong
    · rw [hidOf] at hid
      rcases hid with hid | hid
      · cases hid
      · exact absurd (Option.some.inj hid) hne
  · have hnone : (Directive.ofPayload s.dsuid s.state payload).reply? s.dsuid s.apiVersion = none :=
      Directive.reply?_of_farewell hdecode hkind
    refine List.eq_nil_iff_forall_not_mem.2 fun reply hmem => ?_
    have hsome := Option.mem_toList.1 (hsub.subset hmem)
    exact absurd (hsome.symm.trans hnone) nofun
  · refine htakes _ ?_ htake
    rw [Directive.ofPayload_of_error hdecode hidOf hid]
    rfl
  · refine htakes _ ?_ htake
    refine (congrArg (Directive.reply? s.dsuid s.apiVersion) (hactive hstate hdecode)).trans ?_
    exact Directive.reply?_of_isAnswered hid hkind s.dsuid s.apiVersion
  · refine htakes _ ?_ htake
    refine (congrArg (Directive.reply? s.dsuid s.apiVersion) (hactive hstate hdecode)).trans ?_
    rw [Directive.ofMessage_of_isForManager hid hkind]
    rfl

/-- A peer asks for properties while a request is pending, whose completion sends nothing. -/
theorem wellAnswered_handle_query :
    ∃ (s : Session Unit) (payload : List UInt8) (replies : List Message),
      Message.encode ⟨7, .getProperty (some "lamp") []⟩ = .ok payload ∧ s.state = .active "P" ∧
        s.pending.size = 1 ∧ replies = [.genericResponse 7 .notImplemented] ∧
        Sends replies s (s.handle .default payload) ∧ s.WellAnswered payload replies := by
  let s : Session Unit := { new "own" .default () 0 with
    transport := { Transport.listen 4096 0 with held := some (.fresh "peer") }
    state := .active "P"
    pending := ⟨[⟨1, 0, fun _ => .done⟩], 0, 0, 0⟩ }
  let query : Message := ⟨7, .getProperty (some "lamp") []⟩
  have hsilent : ∀ request ∈ s.pending.entries, ∀ outcome,
      (request.completion outcome).IsSilent := by
    intro request hrequest _
    obtain rfl := List.mem_singleton.1 hrequest
    trivial
  obtain ⟨replies, hsends, hanswered⟩ := wellAnswered_handle s query.toJson.render hsilent
  have hdecode : Message.decode query.toJson.render = .ok query :=
    Message.decode_of_encode (m := query) rfl (by decide)
  have hreplies := hanswered.request "P" query rfl hdecode rfl (by decide) (by decide +kernel)
  exact ⟨s, query.toJson.render, replies, rfl, rfl, rfl, hreplies, hsends, hanswered⟩

end Session

end Vdc
