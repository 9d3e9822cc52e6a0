import Vdc.Proofs.Session.Coherence

/-!
# Handshakes

A session is open exactly if somebody introduced himself on the connection that is held and was
answered, and it is open with the last one who did. `greetings` reads these peers from a journal,
by what a payload says and which answer was sent, without regard to how an endpoint comes to its
decisions. `Session.Greeted` is the invariant that ties the state of a session to it, at every
moment of a run and not only at its end.
-/

namespace Vdc

/-! ## What payloads ask for -/

/-- A handshake is acceptable if it has an id, the version of the endpoint and a name that is not
empty. -/
theorem SessionState.checkHello_eq_ok_iff {version : UInt32} {id : RequestId} {hello : Hello}
    {peer : String} :
    checkHello version id hello = .ok peer ↔
      id ≠ reservedId ∧ hello.apiVersion = some version ∧ hello.dsuid = some peer ∧ peer ≠ "" := by
  obtain ⟨dsuid, apiVersion⟩ := hello
  unfold checkHello
  by_cases hid : id = reservedId
  · simp [hid]
  cases apiVersion with
  | none => simp [hid]
  | some offered =>
    by_cases hversion : offered = version
    · cases dsuid with
      | none => simp [hid, hversion]
      | some name =>
        by_cases hname : name = ""
        · simp [hid, hversion, hname]
        · have hpeer : name = peer → peer ≠ "" := fun h => h ▸ hname
          simpa [hid, hversion, hname] using hpeer
    · simp [hid, hversion]

/-- Who introduces himself with a payload to an endpoint of some version, and the id under which. -/
def introduction? (version : UInt32) (payload : List UInt8) : Option (RequestId × String) :=
  match Message.decode payload with
  | .ok ⟨id, .requestHello ⟨some name, some offered⟩⟩ =>
    if id ≠ reservedId ∧ offered = version ∧ name ≠ "" then some (id, name) else none
  | _ => none

/-- An introduction is a handshake that is acceptable. -/
theorem introduction?_eq_some_iff {version : UInt32} {payload : List UInt8} {id : RequestId}
    {peer : String} :
    introduction? version payload = some (id, peer) ↔
      ∃ hello, Message.decode payload = .ok ⟨id, .requestHello hello⟩ ∧
        SessionState.checkHello version id hello = .ok peer := by
  simp only [SessionState.checkHello_eq_ok_iff]
  unfold introduction?
  split
  · next id' name offered hdecode =>
    simp only [hdecode, Except.ok.injEq, Message.mk.injEq, Payload.requestHello.injEq]
    grind
  · next hother =>
    refine ⟨nofun, ?_⟩
    rintro ⟨⟨dsuid, apiVersion⟩, hdecode, -, rfl, rfl, -⟩
    exact absurd hdecode (hother id peer version)

/-- A payload that is a message is one whatever the state; the state decides what is done about
it. -/
theorem Directive.ofPayload_of_decode {own : String} {state : SessionState} {payload : List UInt8}
    {m : Message} (hdecode : Message.decode payload = .ok m) :
    ofPayload own state payload =
      match state.admission m with
      | .deliver => ofMessage own m
      | .drop => .ignore
      | .reject => .refuse m.id .serviceNotAvailable := by
  have hempty : payload.isEmpty = false := by
    cases payload with
    | nil =>
      have hmalformed : Message.decode [] = .error (.protocol .malformed) := rfl
      rw [hmalformed] at hdecode
      cases hdecode
    | cons => rfl
  cases hadmission : state.admission m <;> simp [ofPayload, hempty, hdecode, hadmission]

/-- What asks for more than to be refused or passed over is a message that has got through. -/
theorem Directive.of_ofPayload {own : String} {state : SessionState} {payload : List UInt8}
    {directive : Directive} (h : ofPayload own state payload = directive)
    (hignore : directive ≠ .ignore) (hrefuse : ∀ id code, directive ≠ .refuse id code) :
    ∃ m, Message.decode payload = .ok m ∧ state.admission m = .deliver ∧
      ofMessage own m = directive := by
  cases hdecode : Message.decode payload with
  | error e =>
    simp only [ofPayload, hdecode, refusal] at h
    split at h
    · exact absurd h.symm hignore
    · split at h
      · exact absurd h.symm hignore
      · exact absurd h.symm (hrefuse _ _)
  | ok m =>
    rw [ofPayload_of_decode hdecode] at h
    cases hadmission : state.admission m with
    | deliver => exact ⟨m, rfl, hadmission, by simpa only [hadmission] using h⟩
    | drop => simp only [hadmission] at h; exact absurd h.symm hignore
    | reject => simp only [hadmission] at h; exact absurd h.symm (hrefuse _ _)

/-- A callback that is made in an open session. -/
def Callback.IsInSession : Callback → Prop
  | .hello | .bye _ => False
  | _ => True

/-- What is asked for in an open session, and neither begins nor ends one. -/
def Directive.IsInSession : Directive → Prop
  | .greet _ _ | .part _ | .complete _ _ => False
  | .deliver callback => callback.IsInSession
  | _ => True

/-- All that gets through only in an open session asks for no more than such a session allows. -/
theorem Directive.isInSession_ofMessage (own : String) {m : Message}
    (h : SessionState.precedesSession m.payload.kind = false) : (ofMessage own m).IsInSession := by
  have hrefusal (id : RequestId) (code : ResultCode) : (refusal id code).IsInSession := by
    unfold refusal
    split <;> trivial
  obtain ⟨id, payload⟩ := m
  cases payload with
  | genericResponse | requestHello | bye => cases h
  | _ =>
    simp only [ofMessage, ofScene, ofPropertyRequest, lacking]
    repeat' split
    all_goals first | exact hrefusal _ _ | trivial

/-- A session is asked for with a handshake only. -/
theorem Directive.ofMessage_eq_greet {own : String} {m : Message} {id : RequestId} {hello : Hello}
    (h : ofMessage own m = .greet id hello) : m = ⟨id, .requestHello hello⟩ := by
  have hprecedes : SessionState.precedesSession m.payload.kind ≠ false := fun hnot =>
    absurd (isInSession_ofMessage own hnot) (by simp [h, IsInSession])
  obtain ⟨id', payload⟩ := m
  cases payload with
  | requestHello =>
    obtain ⟨rfl, rfl⟩ := Directive.greet.inj h
    rfl
  | bye => cases h
  | genericResponse =>
    simp only [ofMessage] at h
    split at h <;> cases h
  | _ => exact absurd rfl hprecedes

/-- The end of a session is asked for with a farewell only. -/
theorem Directive.ofMessage_eq_part {own : String} {m : Message} {dsuid : Option String}
    (h : ofMessage own m = .part dsuid) : m.payload = .bye dsuid := by
  have hprecedes : SessionState.precedesSession m.payload.kind ≠ false := fun hnot =>
    absurd (isInSession_ofMessage own hnot) (by simp [h, IsInSession])
  obtain ⟨id', payload⟩ := m
  cases payload with
  | bye =>
    obtain rfl := Directive.part.inj h
    rfl
  | requestHello => cases h
  | genericResponse =>
    simp only [ofMessage] at h
    split at h <;> cases h
  | _ => exact absurd rfl hprecedes

/-- What gets through before a session asks for no callback at once. -/
theorem Directive.callback?_ofMessage {own : String} {m : Message} {callback : Callback}
    (h : (ofMessage own m).callback? = some callback) :
    SessionState.precedesSession m.payload.kind = false := by
  obtain ⟨id, payload⟩ := m
  cases payload with
  | requestHello | bye => cases h
  | genericResponse =>
    simp only [ofMessage] at h
    split at h <;> cases h
  | _ => rfl

/-- A callback is made at once only in an open session, and it is one of such a session. -/
theorem Directive.of_callback? {own : String} {state : SessionState} {payload : List UInt8}
    {directive : Directive} {callback : Callback} (h : ofPayload own state payload = directive)
    (hcallback : directive.callback? = some callback) :
    (∃ peer, state = .active peer) ∧ callback.IsInSession := by
  obtain ⟨m, -, hadmission, rfl⟩ := of_ofPayload h (by rintro rfl; cases hcallback)
    (by rintro id code rfl; cases hcallback)
  have hprecedes := callback?_ofMessage hcallback
  refine ⟨?_, ?_⟩
  · cases state with
    | disconnected => cases hadmission
    | connected =>
      simp only [SessionState.admission, hprecedes] at hadmission
      split at hadmission
      · contradiction
      · split at hadmission <;> cases hadmission
    | active peer => exact ⟨peer, rfl⟩
  · have hsession := isInSession_ofMessage own hprecedes
    cases hm : ofMessage own m with
    | deliver callback' =>
      rw [hm] at hcallback hsession
      obtain rfl := Option.some.inj hcallback
      exact hsession
    | remove id dsuid =>
      rw [hm] at hcallback
      obtain rfl := Option.some.inj hcallback
      trivial
    | _ =>
      rw [hm] at hcallback
      cases hcallback

/-! ## Introductions in a journal -/

variable {σ : Type}

/-- Who introduced himself and was answered, if these are the last two things that happened. -/
def answered? (own : String) (version : UInt32) : List (Event σ) → Option String
  | .sent ⟨id, .responseHello name⟩ :: .handled payload :: _ =>
    match introduction? version payload with
    | some (id', peer) => if id' = id ∧ name = own then some peer else none
    | none => none
  | _ => none

/-- Those who introduced themselves on the connection that is held and were answered, the last one
first. -/
def greetings (own : String) (version : UInt32) : List (Event σ) → List String
  | [] => []
  | .accepted _ :: _ | .closed _ :: _ => []
  | event :: past => (answered? own version (event :: past)).toList ++ greetings own version past

/-- An event that neither answers a handshake nor begins or ends a connection. -/
def Event.IsQuiet : Event σ → Prop
  | .accepted _ | .closed _ => False
  | event => ¬ event.IsGreeting

/-- The application was called back. -/
def Event.IsCall : Event σ → Prop
  | .called _ _ => True
  | _ => False

theorem Event.isQuiet_called (callback : Callback) (status : Status) :
    (Event.called (σ := σ) callback status).IsQuiet := fun h => h

section

variable {own : String} {version : UInt32} {event : Event σ}

theorem answered?_cons_of_quiet (h : event.IsQuiet) (past : List (Event σ)) :
    answered? own version (event :: past) = none := by
  cases event with
  | sent m =>
    obtain ⟨id, payload⟩ := m
    cases payload <;> first | exact absurd rfl h | rfl
  | _ => rfl

theorem greetings_cons_of_quiet (h : event.IsQuiet) (past : List (Event σ)) :
    greetings own version (event :: past) = greetings own version past := by
  have hnone : answered? own version (event :: past) = none := answered?_cons_of_quiet h past
  cases event with
  | accepted | closed => exact h.elim
  | _ => rw [greetings, hnone, Option.toList_none, List.nil_append] <;> simp

/-- Who was answered last comes first. -/
theorem greetings_of_answered {peer : String} {past : List (Event σ)}
    (h : answered? own version (event :: past) = some peer) :
    greetings own version (event :: past) = peer :: greetings own version past := by
  cases event with
  | sent => rw [greetings, h, Option.toList_some, List.singleton_append] <;> simp
  | _ => cases h

/-- What was answered is an introduction that was taken up right before. -/
theorem exists_handled_of_answered {m : Message} {peer : String} {past : List (Event σ)}
    (h : answered? own version (.sent m :: past) = some peer) :
    ∃ id payload before, m = ⟨id, .responseHello own⟩ ∧ past = .handled payload :: before ∧
      introduction? version payload = some (id, peer) := by
  unfold answered? at h
  split at h
  · next id name payload before hjournal =>
    obtain ⟨hsent, rfl⟩ := List.cons.inj hjournal
    obtain rfl := Event.sent.inj hsent
    cases hintroduction : introduction? version payload with
    | none => simp [hintroduction] at h
    | some introduction =>
      obtain ⟨id', peer'⟩ := introduction
      simp only [hintroduction, Option.ite_none_right_eq_some, Option.some.injEq] at h
      obtain ⟨⟨rfl, rfl⟩, rfl⟩ := h
      exact ⟨id', payload, before, rfl, rfl, hintroduction⟩
  · cases h

theorem head?_greetings_of_answered {peer : String} {past : List (Event σ)}
    (h : answered? own version past = some peer) :
    (greetings own version past).head? = some peer := by
  cases past with
  | nil => cases h
  | cons event past => rw [greetings_of_answered h, List.head?_cons]

end

/-- A handshake that asked for a session and is answered is an introduction. -/
theorem answered?_of_checkHello {version : UInt32} {payload : List UInt8} {id : RequestId}
    {hello : Hello} {peer : String}
    (hdecode : Message.decode payload = .ok ⟨id, .requestHello hello⟩)
    (hcheck : SessionState.checkHello version id hello = .ok peer) (own : String)
    (past : List (Event σ)) :
    answered? own version (.sent ⟨id, .responseHello own⟩ :: .handled payload :: past) =
      some peer := by
  have hintroduction := introduction?_eq_some_iff.2 ⟨hello, hdecode, hcheck⟩
  simp [answered?, hintroduction]

/-- An event agrees with what came before it: what was seen of the state is what the introductions
say, the callback for a handshake comes right after the answer to it, and the one for a farewell
after nothing but the end of the connection. -/
structure Event.InOrder (own : String) (version : UInt32) (event : Event σ)
    (past : List (Event σ)) : Prop where
  state : ∀ status, event.status? = some status →
    status.state.peer? = (greetings own version past).head?
  hello : ∀ peer, answered? own version past = some peer → ∃ status, event = .called .hello status
  answer : ∀ status, event = .called .hello status →
    ∃ peer, answered? own version past = some peer
  farewell : ∀ dsuid status, event = .called (.bye dsuid) status →
    status.state = .disconnected ∧ ∃ between payload before id name,
      past = between ++ .handled payload :: before ∧ (∀ event ∈ between, event.IsParting) ∧
        Message.decode payload = .ok ⟨id, .bye name⟩
  session : ∀ callback status, event = .called callback status → callback.IsInSession →
    ∃ peer, status.state = .active peer

/-- Whoever was answered is called back about next, if anything has happened since. -/
theorem exists_called_of_answered {own : String} {version : UInt32} {past journal : List (Event σ)}
    (horder : Throughout (Event.InOrder own version) journal)
    (hidle : answered? own version journal = none) (hsuffix : past <:+ journal) {peer : String}
    (hanswered : answered? own version past = some peer) :
    ∃ status, .called .hello status :: past <:+ journal := by
  obtain ⟨later, hjournal⟩ := hsuffix
  rcases List.eq_nil_or_concat later with rfl | ⟨later, event, rfl⟩
  · rw [← hjournal, List.nil_append, hanswered] at hidle
    cases hidle
  · have hsuffix : event :: past <:+ journal :=
      ⟨later, by rw [← hjournal, List.concat_eq_append, List.append_assoc, List.singleton_append]⟩
    obtain ⟨status, rfl⟩ := (throughout_iff.1 horder event past hsuffix).hello peer hanswered
    exact ⟨status, hsuffix⟩

namespace Session

/-- The state of a session is what the introductions on its connection say, and was so whenever the
application could look. -/
structure Greeted (s : Session σ) : Prop where
  now : s.state.peer? = (greetings s.dsuid s.apiVersion s.journal).head?
  /-- Whoever was answered was called back about as well. -/
  idle : answered? s.dsuid s.apiVersion s.journal = none
  before : Throughout (Event.InOrder s.dsuid s.apiVersion) s.journal

namespace Greeted

variable {s s' : Session σ}

/-- Noting down an event that is in order changes nothing about the introductions. -/
theorem note (h : s.Greeted) (event : Event σ) (hquiet : event.IsQuiet)
    (horder : event.InOrder s.dsuid s.apiVersion s.journal) : (s.note event).Greeted where
  now := h.now.trans (congrArg List.head? (greetings_cons_of_quiet hquiet s.journal).symm)
  idle := answered?_cons_of_quiet hquiet s.journal
  before := ⟨horder, h.before⟩

/-- Everything but the callbacks is in order if what it shows of the session is so. -/
theorem inOrder (h : s.Greeted) (event : Event σ) (hcalled : ¬ event.IsCall)
    (hstatus : event.status? = none ∨ event.status? = some s.status) :
    event.InOrder s.dsuid s.apiVersion s.journal where
  state status hseen := by
    rcases hstatus with hnone | hsome
    · rw [hnone] at hseen
      cases hseen
    · rw [hsome] at hseen
      obtain rfl := Option.some.inj hseen
      exact h.now
  hello peer hpeer := by
    rw [h.idle] at hpeer
    cases hpeer
  answer status heq := absurd (heq ▸ trivial) hcalled
  farewell dsuid status heq := absurd (heq ▸ trivial) hcalled
  session callback status heq := absurd (heq ▸ trivial) hcalled

theorem transmit (h : s.Greeted) {m : Message} (hkind : m.payload.kind ≠ .responseHello)
    (hs : s.transmit m = .ok s') : s'.Greeted := by
  obtain ⟨_, transport, -, -, rfl⟩ := transmit_eq_ok hs
  have hwritten : { s with transport := transport }.Greeted := ⟨h.now, h.idle, h.before⟩
  exact hwritten.note (.sent m) hkind (hwritten.inOrder _ id (.inl rfl))

/-! ## What the moves preserve -/

theorem act (h : s.Greeted) (hact : Act s s') : s'.Greeted := by
  cases hact with
  | remember | happen => exact ⟨h.now, h.idle, h.before⟩
  | inspect => exact h.note (.inspected s.status) id (h.inOrder _ id (.inr rfl))
  | send what =>
    rcases s.send_cases what with hs | ⟨m, hkind, hs⟩
    · rw [hs]
      exact h
    · exact h.transmit hkind hs
  | announce subject completion =>
    have hdraw : { s with lastId := s.nextId }.Greeted := ⟨h.now, h.idle, h.before⟩
    rcases s.announce_cases subject completion with ⟨e, hs⟩ | ⟨s', ht, hs⟩
    · rw [hs]
      exact hdraw.note (.declined s.nextId e) id (hdraw.inOrder _ id (.inl rfl))
    · have hkind : subject.payload.kind ≠ .responseHello := by cases subject <;> nofun
      have hsent : s'.Greeted := hdraw.transmit hkind ht
      rcases hs with ⟨e, -, hs⟩ | ⟨pending, -, hs⟩ <;> rw [hs]
      · exact hsent.note (.declined s.nextId e) id (hsent.inOrder _ id (.inl rfl))
      · have hregistered : { s' with pending := pending }.Greeted :=
          ⟨hsent.now, hsent.idle, hsent.before⟩
        exact hregistered.note (.registered _ _ _) id (hregistered.inOrder _ id (.inl rfl))

/-- A payload that was taken up has not been answered. -/
theorem taken (h : s.Greeted) (payload : List UInt8) (transport : Transport) :
    (s.taken payload transport).Greeted := by
  have hread : { s with transport := transport }.Greeted := ⟨h.now, h.idle, h.before⟩
  exact hread.note (.handled payload) id (hread.inOrder _ id (.inl rfl))

/-- A handshake is answered, its peer put on record, and the application called back. -/
theorem greet (h : s.Greeted) {id : RequestId} {hello : Hello} {peer : String}
    (hasked : s.Asked (.greet id hello))
    (hcheck : SessionState.checkHello s.apiVersion id hello = .ok peer)
    (hs : s.transmit ⟨id, .responseHello s.dsuid⟩ = .ok s') :
    ((s'.opened peer).note (.called .hello (s'.opened peer).status)).Greeted := by
  obtain ⟨_, transport, -, -, rfl⟩ := transmit_eq_ok hs
  obtain ⟨payload, past, hjournal, hdirective⟩ := hasked
  obtain ⟨m, hdecode, -, hm⟩ := Directive.of_ofPayload hdirective nofun nofun
  obtain rfl := Directive.ofMessage_eq_greet hm
  have hanswered : answered? s.dsuid s.apiVersion
      (.sent ⟨id, .responseHello s.dsuid⟩ :: s.journal) = some peer := by
    rw [hjournal]
    exact answered?_of_checkHello hdecode hcheck s.dsuid past
  have hgreetings : greetings s.dsuid s.apiVersion
      (.sent ⟨id, .responseHello s.dsuid⟩ :: s.journal) =
        peer :: greetings s.dsuid s.apiVersion s.journal := greetings_of_answered hanswered
  have hsent := h.inOrder (.sent ⟨id, .responseHello s.dsuid⟩) (fun h => h) (.inl rfl)
  refine ⟨?_, answered?_cons_of_quiet (Event.isQuiet_called _ _) _,
    ⟨fun status hseen => ?_, fun _ _ => ⟨_, rfl⟩, fun _ _ => ⟨peer, hanswered⟩, fun _ _ => nofun,
      fun callback status heq hsession => ?_⟩, hsent, h.before⟩
  · have hlast (status : Status) : greetings s.dsuid s.apiVersion (.called .hello status ::
        .sent ⟨id, .responseHello s.dsuid⟩ :: s.journal) =
          peer :: greetings s.dsuid s.apiVersion s.journal :=
      (greetings_cons_of_quiet (Event.isQuiet_called _ _) _).trans hgreetings
    exact (congrArg List.head? (hlast _)).symm
  · obtain rfl := Option.some.inj hseen
    exact (congrArg List.head? hgreetings).symm
  · obtain ⟨rfl, -⟩ := Event.called.inj heq
    exact hsession.elim

/-- The application is called back in an open session. -/
theorem call (h : s.Greeted) {directive : Directive} {callback : Callback}
    (hasked : s.Asked directive) (hcallback : directive.callback? = some callback) :
    (s.note (.called callback s.status)).Greeted := by
  obtain ⟨payload, past, hjournal, hdirective⟩ := hasked
  obtain ⟨hactive, hsession⟩ := Directive.of_callback? hdirective hcallback
  refine h.note _ (Event.isQuiet_called _ _) ⟨fun status hseen => ?_, fun peer hpeer => ?_,
    fun status heq => ?_, fun dsuid status heq => ?_, fun callback' status heq _ => ?_⟩
  · obtain rfl := Option.some.inj hseen
    exact h.now
  · rw [h.idle] at hpeer
    cases hpeer
  · obtain ⟨rfl, -⟩ := Event.called.inj heq
    exact hsession.elim
  · obtain ⟨rfl, -⟩ := Event.called.inj heq
    exact hsession.elim
  · obtain ⟨-, rfl⟩ := Event.called.inj heq
    exact hactive

/-- The application is told of a farewell when the connection has ended. -/
theorem farewell (h : s.Greeted) {before : Session σ} {dsuid : Option String}
    (hasked : before.Asked (.part dsuid)) (hnotes : Notes Event.IsParting before s)
    (hstate : s.state = .disconnected) (name : String) :
    (s.note (.called (.bye name) s.status)).Greeted := by
  obtain ⟨payload, past, hjournal, hdirective⟩ := hasked
  obtain ⟨⟨id, m⟩, hdecode, -, hm⟩ := Directive.of_ofPayload hdirective nofun nofun
  obtain rfl : m = .bye dsuid := Directive.ofMessage_eq_part hm
  obtain ⟨between, hbetween, hparting⟩ := hnotes
  rw [hjournal] at hbetween
  refine h.note _ (Event.isQuiet_called _ _) ⟨fun status hseen => ?_, fun peer hpeer => ?_,
    fun _ => nofun, fun name' status heq => ?_, fun callback status heq hsession => ?_⟩
  · obtain rfl := Option.some.inj hseen
    exact h.now
  · rw [h.idle] at hpeer
    cases hpeer
  · obtain ⟨-, rfl⟩ := Event.called.inj heq
    exact ⟨hstate, between, payload, past, id, dsuid, hbetween, hparting, hdecode⟩
  · obtain ⟨rfl, -⟩ := Event.called.inj heq
    exact hsession.elim

/-- With a connection its introductions are over. -/
theorem hangUp (h : s.Greeted) (hcoherent : s.Coherent) :
    { s.resetTransport with
      state := .disconnected, pending := s.pending.flush.2 }.Greeted := by
  cases hheld : s.transport.held with
  | none =>
    -- Without a connection there was no session that could end.
    have hstate := (hcoherent.pending_of_unheld hheld).1
    have hnow := h.now
    rw [hstate] at hnow
    simp only [resetTransport, hheld]
    exact ⟨hnow, h.idle, h.before⟩
  | some link =>
    simp only [resetTransport, hheld]
    exact ⟨rfl, rfl, h.inOrder (.closed link.name) id (.inl rfl), h.before⟩

theorem move {m m' : Moment σ} (h : m.session.Greeted) (hcoherent : m.session.Coherent)
    (hmove : Move m m') : m'.session.Greeted := by
  cases hmove with
  | act owed hact => exact h.act hact
  | finish s request expiry => exact h.note (.completed _ _ _ _) id (h.inOrder _ id (.inr rfl))
  | sweep s =>
    have hswept := h.note (.swept s.clock) id (h.inOrder _ id (.inl rfl))
    exact ⟨hswept.now, hswept.idle, hswept.before⟩
  | accept s newcomer waiting =>
    exact ⟨rfl, rfl, h.inOrder (.accepted newcomer.name) id (.inl rfl), h.before⟩
  | turnAway => exact ⟨h.now, h.idle, h.before⟩
  | reject s newcomer =>
    have hrejected := h.note (.rejected newcomer.name) id (h.inOrder _ id (.inl rfl))
    exact ⟨hrejected.now, hrejected.idle, hrejected.before⟩
  | take s payload transport => exact h.taken payload transport
  | answer s payload transport id code request =>
    have htaken := h.taken payload transport
    have hanswered : { s.taken payload transport with
        pending := (s.pending.take id).2 }.Greeted := ⟨htaken.now, htaken.idle, htaken.before⟩
    exact hanswered.note (.completed _ _ _ _) (fun h => h)
      (hanswered.inOrder _ (fun h => h) (.inr rfl))
  | greet id hello peer hasked hcheck hs => exact h.greet hasked hcheck hs
  | call hasked hcallback => exact h.call hasked hcallback
  | farewell dsuid hasked hnotes hparted => exact h.farewell hasked hnotes hparted.2 _
  | hangUp s => exact h.hangUp hcoherent
  | withdraw s =>
    have hwithdrawn := h.note .withdrawn id (h.inOrder _ id (.inl rfl))
    exact ⟨hwithdrawn.now, hwithdrawn.idle, hwithdrawn.before⟩

end Greeted

/-- A session that is new has not met anybody. -/
theorem greeted_new (dsuid : String) (config : Config) (memory : σ) (now : Nat) :
    (new dsuid config memory now).Greeted := ⟨rfl, rfl, trivial⟩

/-- A handshake that is not acceptable, or whose answer cannot be sent, comes to nothing. -/
theorem handle_of_declined (app : Application σ) {s : Session σ} {payload : List UInt8}
    {id : RequestId} {hello : Hello}
    (hdecode : Message.decode payload = .ok ⟨id, .requestHello hello⟩)
    (hdeclined : introduction? s.apiVersion payload = none ∨
      ∀ s', (s.note (.handled payload)).transmit ⟨id, .responseHello s.dsuid⟩ ≠ .ok s') :
    s.handle app payload = s.note (.handled payload) := by
  have hgreet : (s.note (.handled payload)).greet app id hello = s.note (.handled payload) := by
    simp only [greet, note]
    cases hcheck : SessionState.checkHello s.apiVersion id hello with
    | error e => rfl
    | ok peer =>
      rcases hdeclined with hnone | hfails
      · rw [introduction?_eq_some_iff.2 ⟨hello, hdecode, hcheck⟩] at hnone
        cases hnone
      · cases hs : (s.note (.handled payload)).transmit ⟨id, .responseHello s.dsuid⟩ with
        | ok s' => exact absurd hs (hfails s')
        | error e =>
          simp only [note] at hs
          simp only [hs]
  simp only [handle, Directive.ofPayload_of_decode hdecode]
  cases hstate : s.state with
  | disconnected => rfl
  | connected | active => exact hgreet

end Session

/-- A session is open with a peer if its state says so. -/
theorem SessionState.peer?_eq_some_iff {state : SessionState} {peer : String} :
    state.peer? = some peer ↔ state = .active peer := by
  cases state <;> simp [peer?]

namespace Endpoint

variable {app : Application σ} {memory : σ} {dsuid : String} {config : Config}
  {announcer : Option Announcer} {port : UInt16} {e : Endpoint σ}

/-- Whom an endpoint named `own` has a session with, and how it came to that. -/
structure KnowsPeers (own : String) (version : UInt32) (e : Endpoint σ) : Prop where
  /-- The session is open with the last one who introduced himself on the held connection and was
  answered, if anybody did. -/
  active_iff : ∀ peer, e.session.state = .active peer ↔
    (greetings own version e.session.journal).head? = some peer
  /-- It was so whenever the application was called or looked. -/
  seen_iff : ∀ event past status, event :: past <:+ e.session.journal →
    event.status? = some status →
      ∀ peer, status.state = .active peer ↔ (greetings own version past).head? = some peer
  /-- After every introduction that was answered the application is called back, with the session
  open. -/
  called : ∀ past peer, past <:+ e.session.journal → answered? own version past = some peer →
    ∃ status, .called .hello status :: past <:+ e.session.journal ∧ status.state = .active peer
  /-- It is called back so after nothing else. -/
  answered : ∀ status past, .called .hello status :: past <:+ e.session.journal →
    ∃ peer, answered? own version past = some peer
  /-- A handshake that is no introduction, or that cannot be answered, comes to nothing. -/
  declined : ∀ (s : Session σ) payload id hello,
    Message.decode payload = .ok ⟨id, .requestHello hello⟩ →
    introduction? s.apiVersion payload = none ∨
      (∀ s', (s.note (.handled payload)).transmit ⟨id, .responseHello s.dsuid⟩ ≠ .ok s') →
    s.handle e.application payload = s.note (.handled payload)

/-- At every moment of a run the state of the session is what the introductions on its connection
say. -/
theorem greeted_run (h : start app memory dsuid config announcer port = .ready e)
    (inputs : List (Input σ)) :
    (e.run inputs).session.Greeted ∧ (e.run inputs).session.dsuid = dsuid ∧
      (e.run inputs).session.apiVersion = config.apiVersion := by
  have hmoves := moves_inputs e inputs
  have hkept : (e.run inputs).session.Coherent ∧ (e.run inputs).session.Greeted := by
    refine hmoves.preserve (P := fun m => m.session.Coherent ∧ m.session.Greeted)
      (fun hmove h => ⟨h.1.move hmove, h.2.move h.1 hmove⟩) ?_
    rw [(of_start h).1]
    exact ⟨Session.coherent_new dsuid config memory 0, Session.greeted_new dsuid config memory 0⟩
  have hsettings := hmoves.settings_eq
  rw [(of_start h).1] at hsettings
  simp only [Session.settings, Prod.mk.injEq] at hsettings
  exact ⟨hkept.2, hsettings.1, hsettings.2.1⟩

/-- Whatever an endpoint takes after its start, its session is open exactly with the last one who
introduced himself on the connection that is held and was answered. -/
theorem knowsPeers_run (h : start app memory dsuid config announcer port = .ready e)
    (inputs : List (Input σ)) : (e.run inputs).KnowsPeers dsuid config.apiVersion := by
  obtain ⟨hgreeted, hdsuid, hversion⟩ := greeted_run h inputs
  have hbefore := throughout_iff.1 hgreeted.before
  have hnow := hgreeted.now
  have hidle := hgreeted.idle
  rw [hdsuid, hversion] at hnow hidle hbefore
  refine ⟨fun peer => ?_, fun event past status hsuffix hstatus peer => ?_,
    fun past peer hsuffix hpeer => ?_, fun status past hsuffix => ?_,
    fun s payload id hello => Session.handle_of_declined _⟩
  · rw [← SessionState.peer?_eq_some_iff, hnow]
  · rw [← SessionState.peer?_eq_some_iff, (hbefore event past hsuffix).state status hstatus]
  · -- Something came after the answer, and that can only be the callback.
    obtain ⟨later, hjournal⟩ := hsuffix
    rcases List.eq_nil_or_concat later with rfl | ⟨later, event, rfl⟩
    · rw [← hjournal, List.nil_append, hpeer] at hidle
      cases hidle
    · have hsuffix : event :: past <:+ (e.run inputs).session.journal :=
        ⟨later, by rw [← hjournal, List.concat_eq_append, List.append_assoc, List.singleton_append]⟩
      have horder := hbefore event past hsuffix
      obtain ⟨status, rfl⟩ := horder.hello peer hpeer
      refine ⟨status, hsuffix, SessionState.peer?_eq_some_iff.1 ?_⟩
      exact (horder.state status rfl).trans (head?_greetings_of_answered hpeer)
  · exact (hbefore _ past hsuffix).answer status rfl

/-- The frame of a message, if it has one. -/
def frameOf (m : Message) : List UInt8 :=
  (m.encode.bind (Frame.serialize Frame.maxLength)).toOption.getD []

/-- An application that counts how often it is called back. -/
def counting : Application Nat := ⟨fun _ => .remember (· + 1) .done, fun _ _ => false⟩

/-- A peer introduces itself under the name `P`, and the application is called back once. -/
theorem knowsPeers_run_introduction :
    ∃ e : Endpoint Nat, start counting 0 "own" .default none 0 = .ready e ∧
      ∃ inputs, (e.run inputs).session.state = .active "P" ∧ (e.run inputs).session.memory = 1 ∧
        (e.run inputs).KnowsPeers "own" Config.default.apiVersion := by
  have h : start counting 0 "own" .default none 0 =
      .ready ⟨counting, Session.new "own" .default 0 0, none, false⟩ := rfl
  refine ⟨_, h, [.arrive (.fresh "peer"), .work,
    .deliver "peer" (frameOf ⟨1, .requestHello ⟨some "P", some 2⟩⟩), .work], by decide +kernel,
    by decide +kernel, ?_⟩
  exact knowsPeers_run h _

end Endpoint

end Vdc
