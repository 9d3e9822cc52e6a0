import Vdc.Proofs.Session.Coherence

/-!
# Requests as a ledger

Of all that makes up a session, four things decide what becomes of its requests: the last id, the
pending requests, the owed completions and the journal. A ledger is these four, and `Turn` is what
one move can do to them. `Move.turn` derives the turns from the moves once; everything about
requests is then proved turn by turn.

A request leaves the pending ones on one of three ways, with a reply, at a search for requests that
are too old, and with its connection. The last two end several requests at once, whose completions
run later, so they are one kind of turn.
-/

namespace Vdc

open Session

variable {σ : Type}

/-- What decides the fate of requests. -/
structure Ledger (σ : Type) where
  lastId : RequestId
  entries : List (PendingRequest (Outcome → Script σ))
  owed : List (PendingRequest (Outcome → Script σ) × Expiry)
  journal : List (Event σ)

/-- The ledger of a moment. -/
def Session.Moment.ledger (m : Moment σ) : Ledger σ :=
  ⟨m.session.lastId, m.session.pending.entries, m.owed, m.session.journal⟩

namespace Ledger

/-- The ids that are pending. -/
def ids (l : Ledger σ) : List RequestId := l.entries.map PendingRequest.id

/-- The id of the next request. -/
def nextId (l : Ledger σ) : RequestId :=
  freeId (fun id => l.entries.any (·.id == id)) (l.entries.length + 1) l.lastId

end Ledger

/-- An event that neither uses up an id nor ends a request. -/
def Event.IsIdle (event : Event σ) : Prop :=
  event.announced? = none ∧ event.completed? = none

/-- What one move can do to a ledger. -/
inductive Turn (timeout : Nat) : Ledger σ → Ledger σ → Prop
  | idle (l : Ledger σ) (new : List (Event σ)) (hidle : ∀ event ∈ new, event.IsIdle)
      (hspares : ∀ event ∈ new, ∀ request ∈ l.entries, event.Spares request.id)
      (howed : l.owed ≠ [] → ∀ event ∈ new, event.IsScripted) :
      Turn timeout l { l with journal := new ++ l.journal }
  | decline (l : Ledger σ) (sent : List Message) (e : Error) :
      Turn timeout l { l with
        lastId := l.nextId
        journal := .declined l.nextId e :: (sent.map .sent ++ l.journal) }
  | register (l : Ledger σ) (m : Message) (created : Nat) (completion : Outcome → Script σ)
      (link : String) (hlink : connectionOf l.journal = some link) (hid : l.nextId ≠ reservedId)
      (hfree : l.nextId ∉ l.ids) :
      Turn timeout l { l with
        lastId := l.nextId
        entries := l.entries ++ [⟨l.nextId, created, completion⟩]
        journal := .registered l.nextId created completion :: .sent m :: l.journal }
  | finish (l : Ledger σ) (request : PendingRequest (Outcome → Script σ)) (expiry : Expiry)
      (status : Status) :
      Turn timeout { l with owed := (request, expiry) :: l.owed } { l with
        journal := .completed request.id (outcomeOf expiry) request.completion status :: l.journal }
  | expire (l : Ledger σ) (trigger : Event σ) (expiry : Expiry)
      (expired kept : List (PendingRequest (Outcome → Script σ))) (howed : l.owed = [])
      (hperm : (expired ++ kept).Perm l.entries) (hidle : trigger.IsIdle)
      (hspares : ∀ request ∈ kept, trigger.Spares request.id)
      (hends : ∀ request ∈ expired, ∀ link, connectionOf l.journal = some link →
        Ends timeout request link trigger (outcomeOf expiry)) :
      Turn timeout l { l with
        entries := kept
        owed := expired.map (·, expiry)
        journal := trigger :: l.journal }
  | answer (l : Ledger σ) (payload : List UInt8) (code : ResultCode)
      (request : PendingRequest (Outcome → Script σ)) (status : Status)
      (before after kept : List (PendingRequest (Outcome → Script σ))) (howed : l.owed = [])
      (hentries : l.entries = before ++ request :: after) (hkept : kept = before ++ after)
      (hreply : RepliesTo payload request.id code) :
      Turn timeout l { l with
        entries := kept
        journal := .completed request.id (.answered code) request.completion status ::
          .handled payload :: l.journal }

namespace Turn

variable {timeout : Nat}

/-- Nothing happens to the ledger. -/
theorem refl (l : Ledger σ) : Turn timeout l l :=
  idle l [] (by simp) (by simp) (by simp)

/-- One event is noted down that ends no request. -/
theorem note (l : Ledger σ) {event : Event σ} (hidle : event.IsIdle)
    (hspares : ∀ request ∈ l.entries, event.Spares request.id)
    (howed : l.owed ≠ [] → event.IsScripted) :
    Turn timeout l { l with journal := event :: l.journal } := by
  refine idle l [event] ?_ ?_ ?_
  · simpa using hidle
  · simpa using hspares
  · simpa using howed

end Turn

namespace Session

/-- What an attempt to make a request returns stands at the head of the journal: the id of a request
that was made, with its completion, or the error of one that was not. -/
theorem announce_journal (s : Session σ) (subject : Subject) (completion : Outcome → Script σ) :
    (∃ (e : Error) (sent : List Message), (s.announce subject completion).1 = .error e ∧
      (s.announce subject completion).2.journal =
        .declined s.nextId e :: (sent.map .sent ++ s.journal) ∧
      (s.announce subject completion).2.pending = s.pending) ∨
    ∃ m, (s.announce subject completion).1 = .ok s.nextId ∧
      (s.announce subject completion).2.journal =
        .registered s.nextId s.clock completion :: .sent m :: s.journal ∧
      s.pending.register s.nextId completion s.clock =
        .ok (s.announce subject completion).2.pending ∧
      ∃ link, s.transport.held = some link := by
  rcases s.announce_cases subject completion with ⟨e, hs⟩ | ⟨s', ht, hs⟩
  · exact .inl ⟨e, [], by rw [hs], by rw [hs]; rfl, by rw [hs]; rfl⟩
  · obtain ⟨_, transport, -, hwrite, rfl⟩ := transmit_eq_ok ht
    obtain ⟨_, link, -, hheld, -, -⟩ := Transport.writeFrame_eq_ok hwrite
    rcases hs with ⟨e, -, hs⟩ | ⟨pending, hregister, hs⟩
    · exact .inl ⟨e, [_], by rw [hs], by rw [hs]; rfl, by rw [hs]; rfl⟩
    · exact .inr ⟨_, by rw [hs], by rw [hs]; rfl, by rw [hs]; exact hregister, link, hheld⟩

theorem lastId_announce (s : Session σ) (subject : Subject) (completion : Outcome → Script σ) :
    (s.announce subject completion).2.lastId = s.nextId := by
  rcases s.announce_cases subject completion with ⟨e, hs⟩ | ⟨s', ht, hs⟩
  · rw [hs]
    rfl
  · obtain ⟨_, _, -, -, rfl⟩ := transmit_eq_ok ht
    rcases hs with ⟨e, -, hs⟩ | ⟨pending, -, hs⟩ <;> rw [hs] <;> rfl

/-! ## The connection in the journal -/

/-- The journal tells which connection is held. -/
def Tracked (s : Session σ) : Prop :=
  connectionOf s.journal = s.transport.held.map Link.name

theorem Tracked.transmit {s s' : Session σ} (h : s.Tracked) {m : Message}
    (hs : s.transmit m = .ok s') : s'.Tracked := by
  obtain ⟨_, transport, -, hwrite, rfl⟩ := transmit_eq_ok hs
  obtain ⟨_, link, -, hheld, -, rfl⟩ := Transport.writeFrame_eq_ok hwrite
  simpa only [Tracked, note, connectionOf, hheld, Option.map_some] using h

theorem Tracked.act {s s' : Session σ} (h : s.Tracked) (hact : Act s s') : s'.Tracked := by
  cases hact with
  | remember | inspect => exact h
  | happen happening => exact h.trans (s.transport.name_happen happening).symm
  | send what =>
    rcases s.send_cases what with hs | ⟨m, -, hs⟩
    · rw [hs]
      exact h
    · exact h.transmit hs
  | announce subject completion =>
    have hdraw : { s with lastId := s.nextId }.Tracked := h
    rcases s.announce_cases subject completion with ⟨e, hs⟩ | ⟨s', ht, hs⟩
    · rw [hs]
      exact hdraw
    · have hsent : s'.Tracked := hdraw.transmit ht
      rcases hs with ⟨e, -, hs⟩ | ⟨pending, -, hs⟩ <;> rw [hs] <;> exact hsent

theorem Tracked.taken {s : Session σ} (h : s.Tracked) {payload : List UInt8}
    {transport : Transport} (hread : s.transport.readFrame = (.frame payload, transport)) :
    (s.taken payload transport).Tracked := by
  obtain ⟨link, consumed, hheld, -, rfl⟩ := Transport.readFrame_eq_frame hread
  simpa only [Tracked, Session.taken, note, connectionOf, hheld, Option.map_some] using h

theorem Tracked.move {m m' : Moment σ} (h : m.session.Tracked) (hmove : Move m m') :
    m'.session.Tracked := by
  cases hmove with
  | act owed hact => exact h.act hact
  | finish | sweep | turnAway | reject | call | farewell => exact h
  | accept => rfl
  | take s payload transport hread | answer s payload transport id code request hread =>
    exact h.taken hread
  | @greet s s' id hello peer hasked hcheck hs =>
    have hsent : s'.Tracked := h.transmit hs
    exact hsent
  | hangUp s =>
    have hunheld := s.held_resetTransport
    have hjournal : connectionOf s.resetTransport.journal = none := by
      cases hheld : s.transport.held with
      | none => simpa only [resetTransport, hheld, Tracked, Option.map_none] using h
      | some link => simp only [resetTransport, hheld, note, connectionOf]
    simp only [Tracked, hunheld, hjournal, Option.map_none]
  | withdraw s hnone =>
    simpa only [Tracked, note, connectionOf, Transport.close, Transport.reset, hnone] using h

/-! ## The turns of a ledger -/

/-- A message that is sent leaves the pending requests as they are. -/
theorem pending_of_transmit {s s' : Session σ} {m : Message} (h : s.transmit m = .ok s') :
    s'.pending = s.pending := by
  obtain ⟨_, _, -, -, rfl⟩ := transmit_eq_ok h
  rfl

theorem Act.responseTimeout_eq {s s' : Session σ} (hact : Act s s') :
    s'.pending.responseTimeout = s.pending.responseTimeout := by
  cases hact with
  | remember | happen | inspect => rfl
  | send what =>
    rcases s.send_cases what with hs | ⟨m, -, hs⟩
    · rw [hs]
    · rw [pending_of_transmit hs]
  | announce subject completion =>
    rcases s.announce_journal subject completion with
      ⟨e, sent, -, -, hpending⟩ | ⟨m, -, -, hregister, -⟩
    · rw [hpending]
    · obtain ⟨-, -, hpending⟩ := RequestCache.register_eq_ok.1 hregister
      rw [hpending]

/-- No move changes how long is waited for a reply. -/
theorem Move.responseTimeout_eq {m m' : Moment σ} (hmove : Move m m') :
    m'.session.pending.responseTimeout = m.session.pending.responseTimeout := by
  cases hmove with
  | act owed hact => exact hact.responseTimeout_eq
  | finish | accept | turnAway | reject | take | answer | call | farewell | hangUp | withdraw => rfl
  | sweep s =>
    simp only [RequestCache.sweep, RequestCache.flush]
    split
    · rfl
    · split <;> rfl
  | @greet s s' id hello peer hasked hcheck hs =>
    have hpending : s'.pending = s.pending := pending_of_transmit hs
    exact congrArg RequestCache.responseTimeout hpending

theorem Act.turn {timeout : Nat} {s s' : Session σ} (hact : Act s s') (htracked : s.Tracked)
    (owed : List (PendingRequest (Outcome → Script σ) × Expiry)) :
    Turn timeout (Moment.mk s owed).ledger (Moment.mk s' owed).ledger := by
  cases hact with
  | remember | happen => exact .refl (Moment.mk s owed).ledger
  | inspect =>
    exact .note (Moment.mk s owed).ledger ⟨rfl, rfl⟩ (fun _ _ => trivial) fun _ => trivial
  | send what =>
    rcases s.send_cases what with hs | ⟨m, -, hs⟩
    · rw [hs]
      exact .refl (Moment.mk s owed).ledger
    · obtain ⟨_, transport, -, -, hs'⟩ := transmit_eq_ok hs
      rw [hs']
      exact .note (Moment.mk s owed).ledger ⟨rfl, rfl⟩ (fun _ _ => trivial) fun _ => trivial
  | announce subject completion =>
    have hlast := s.lastId_announce subject completion
    rcases s.announce_journal subject completion with
      ⟨e, sent, -, hjournal, hpending⟩ | ⟨m, -, hjournal, hregister, link, hheld⟩
    · have hledger : (Moment.mk (s.announce subject completion).2 owed).ledger =
          { (Moment.mk s owed).ledger with
            lastId := s.nextId
            journal := .declined s.nextId e :: (sent.map .sent ++ s.journal) } := by
        simp only [Moment.ledger, hlast, hjournal, hpending]
      rw [hledger]
      exact .decline (Moment.mk s owed).ledger sent e
    · obtain ⟨hid, hfree, hpending⟩ := RequestCache.register_eq_ok.1 hregister
      have hledger : (Moment.mk (s.announce subject completion).2 owed).ledger =
          { (Moment.mk s owed).ledger with
            lastId := s.nextId
            entries := s.pending.entries ++ [⟨s.nextId, s.clock, completion⟩]
            journal := .registered s.nextId s.clock completion :: .sent m :: s.journal } := by
        simp only [Moment.ledger, hlast, hjournal, hpending]
      rw [hledger]
      refine .register (Moment.mk s owed).ledger m s.clock completion link.name ?_ hid ?_
      · exact htracked.trans (by rw [hheld, Option.map_some])
      · have hnext : (Moment.mk s owed).ledger.nextId = s.nextId := rfl
        rw [hnext]
        simpa [RequestCache.contains, Ledger.ids, Moment.ledger] using hfree

/-- Every move of a session that is coherent and tracked is a turn of its ledger. -/
theorem Move.turn {m m' : Moment σ} (hmove : Move m m') (hcoherent : m.session.Coherent)
    (htracked : m.session.Tracked) (hids : reservedId ∉ m.ledger.ids) :
    Turn m.session.pending.responseTimeout m.ledger m'.ledger := by
  cases hmove with
  | act owed hact => exact hact.turn htracked owed
  | finish s request expiry owed => exact .finish (Moment.mk s owed).ledger request expiry s.status
  | sweep s =>
    have hconnected : s.transport.isConnected = false → s.pending.entries = [] := fun hnone =>
      (hcoherent.pending_of_unheld (by simpa [Transport.isConnected] using hnone)).2
    obtain ⟨expired, howed, hperm, hage⟩ := s.pending.sweep_spec s.clock hconnected
    rw [Moment.ledger, howed]
    refine .expire (Moment.mk s []).ledger (.swept s.clock) .timedOut expired _ rfl hperm ?_ ?_ ?_
    · exact ⟨rfl, rfl⟩
    · exact fun _ _ => trivial
    · exact fun request hrequest _ _ => hage request hrequest
  | accept s newcomer waiting hwaiting hnone =>
    have hempty : s.pending.entries = [] := (hcoherent.pending_of_unheld hnone).2
    refine .note (Moment.mk s []).ledger ⟨rfl, rfl⟩ ?_ fun howed => absurd rfl howed
    simp [Moment.ledger, hempty]
  | turnAway s => exact .refl (Moment.mk s []).ledger
  | reject s =>
    exact .note (Moment.mk s []).ledger ⟨rfl, rfl⟩ (fun _ _ => trivial)
      fun howed => absurd rfl howed
  | take s payload transport hread hdirective =>
    obtain ⟨link, consumed, hheld, -, rfl⟩ := Transport.readFrame_eq_frame hread
    refine .note (Moment.mk s []).ledger ⟨rfl, rfl⟩ ?_ fun howed => absurd rfl howed
    -- Were the payload a reply to a pending request, that request would have been taken out.
    intro request hrequest code hreply
    have hid : request.id ≠ reservedId := by
      intro hreserved
      exact hids (List.mem_map.2 ⟨request, hrequest, hreserved⟩)
    have hnone := hdirective request.id code
      (Directive.ofPayload_eq_complete_iff.2 ⟨hcoherent.state_ne_of_held hheld, hid, hreply⟩)
    have hfound := List.find?_eq_none.1 hnone request hrequest
    exact hfound (beq_self_eq_true request.id)
  | answer s payload transport id code request hread hdirective htake =>
    obtain ⟨-, -, hreply⟩ := Directive.ofPayload_eq_complete_iff.1 hdirective
    obtain ⟨rfl, before, after, hentries, hrest⟩ := RequestCache.take_eq_some htake
    exact .answer (Moment.mk s []).ledger payload code request _ before after _ rfl hentries hrest
      hreply
  | @greet s s' id hello peer hasked hcheck hs =>
    -- The answer and the callback are two events of one move.
    obtain ⟨_, transport, -, -, rfl⟩ := transmit_eq_ok hs
    refine .idle (Moment.mk s []).ledger [.called .hello _, .sent _] ?_ ?_
      fun howed => absurd rfl howed
    · simp [Event.IsIdle, Event.announced?, Event.completed?]
    · simp [Event.Spares]
  | @call s =>
    exact .note (Moment.mk s []).ledger ⟨rfl, rfl⟩ (fun _ _ => trivial)
      fun howed => absurd rfl howed
  | @farewell before s =>
    exact .note (Moment.mk s []).ledger ⟨rfl, rfl⟩ (fun _ _ => trivial)
      fun howed => absurd rfl howed
  | hangUp s =>
    cases hheld : s.transport.held with
    | none =>
      -- Without a connection there is nothing to close and nothing to fail.
      have hempty : s.pending.entries = [] := (hcoherent.pending_of_unheld hheld).2
      have hkeep : s.resetTransport = s := by simp only [resetTransport, hheld]
      have hturn : Turn s.pending.responseTimeout (Moment.mk s []).ledger (Moment.mk s []).ledger :=
        .refl _
      simpa only [hkeep, RequestCache.flush, Moment.ledger, hempty, List.map_nil] using hturn
    | some link =>
      have hclosed : s.resetTransport = { s with transport := s.transport.reset }.note
          (.closed link.name) := by simp only [resetTransport, hheld]
      rw [hclosed]
      refine .expire (Moment.mk s []).ledger (.closed link.name) .disconnected s.pending.entries []
        rfl ?_ ⟨rfl, rfl⟩ ?_ ?_
      · rw [List.append_nil]
        exact .refl _
      · simp
      · -- The connection that is closed is the one that the journal has as held.
        intro request _ name hname
        have hlink : some name = some link.name := by
          rw [← hname]
          exact htracked.trans (by rw [hheld, Option.map_some])
        exact (Option.some.inj hlink).symm
  | withdraw s hnone =>
    exact .note (Moment.mk s []).ledger ⟨rfl, rfl⟩ (fun _ _ => trivial)
      fun howed => absurd rfl howed

end Session

end Vdc
