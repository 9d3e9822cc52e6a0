import Vdc.Endpoint

/-!
# Bystanders

Connections that wait, and those that were turned away or closed, have no part in a session. Two
sessions are `Alike` if they differ in nothing else, and everything an endpoint does with the
connection it holds keeps them so: it sends the same on it, calls the application back alike, and
comes to the same results.
-/

namespace Vdc

variable {σ : Type}

/-- A connection was turned away. -/
def Event.isRejection : Event σ → Bool
  | .rejected _ => true
  | _ => false

/-- What was noted down about the session itself. -/
def withoutRejections (journal : List (Event σ)) : List (Event σ) :=
  journal.filter (!·.isRejection)

/-- Writing a frame has nothing to do with the connections that are not held. -/
theorem Transport.writeFrame_beside (t : Transport) (waiting past : List Link)
    (payload : List UInt8) :
    { t with waiting := waiting, past := past }.writeFrame payload =
      (t.writeFrame payload).map fun t => { t with waiting := waiting, past := past } := by
  unfold writeFrame
  cases t.held with
  | none => rfl
  | some link =>
    cases Frame.serialize t.frameLimit payload with
    | error e => simp [bind, Except.bind, Except.map]
    | ok frame =>
      cases hwrite : link.write frame with
      | error e => simp [bind, Except.bind, hwrite, Except.map]
      | ok link' => simp [bind, Except.bind, hwrite, Except.map, pure, Except.pure]

/-- Neither has reading a frame. -/
theorem Transport.readFrame_beside (t : Transport) (waiting past : List Link) :
    ∃ t', { t with waiting := waiting, past := past }.readFrame = (t.readFrame.1, t') ∧
      ∀ payload, t.readFrame.1 = .frame payload →
        t' = { t.readFrame.2 with waiting := waiting, past := past } := by
  unfold readFrame
  cases t.held with
  | none => exact ⟨_, rfl, nofun⟩
  | some link =>
    cases hread : link.readFrame t.frameLimit t.ioTimeout with
    | bytes payload link' =>
      simp only [hread]
      exact ⟨_, rfl, fun _ _ => rfl⟩
    | failed | waiting =>
      simp only [hread]
      exact ⟨_, rfl, nofun⟩

namespace Session

/-- Two sessions differ in nothing but the connections that have no part in them. -/
inductive Alike (s : Session σ) : Session σ → Prop
  | intro (waiting past : List Link) (journal : List (Event σ))
      (h : withoutRejections journal = withoutRejections s.journal) :
      Alike s { s with
        transport := { s.transport with waiting := waiting, past := past }
        journal := journal }

namespace Alike

variable {s s' : Session σ}

theorem refl (s : Session σ) : Alike s s := ⟨s.transport.waiting, s.transport.past, s.journal, rfl⟩

theorem status_eq (h : Alike s s') : s'.status = s.status := by
  cases h
  rfl

theorem memory_eq (h : Alike s s') : s'.memory = s.memory := by
  cases h
  rfl

theorem pending_eq (h : Alike s s') : s'.pending = s.pending := by
  cases h
  rfl

theorem withState (h : Alike s s') (state : SessionState) :
    Alike { s with state := state } { s' with state := state } := by
  obtain ⟨waiting, past, journal, hjournal⟩ := h
  exact ⟨waiting, past, journal, hjournal⟩

theorem withPending (h : Alike s s') (pending : RequestCache (Outcome → Script σ)) :
    Alike { s with pending := pending } { s' with pending := pending } := by
  obtain ⟨waiting, past, journal, hjournal⟩ := h
  exact ⟨waiting, past, journal, hjournal⟩

theorem note (h : Alike s s') (event : Event σ) : Alike (s.note event) (s'.note event) := by
  obtain ⟨waiting, past, journal, hjournal⟩ := h
  refine ⟨waiting, past, event :: journal, ?_⟩
  simp only [withoutRejections, Session.note, List.filter_cons] at hjournal ⊢
  rw [hjournal]

theorem happen (h : Alike s s') (happening : Happening) :
    Alike (s.happen happening) (s'.happen happening) := by
  obtain ⟨waiting, past, journal, hjournal⟩ := h
  cases happening <;> exact ⟨_, past, journal, hjournal⟩

/-! ## Sending -/

theorem transmit (h : Alike s s') (m : Message) :
    (∃ t t', s.transmit m = .ok t ∧ s'.transmit m = .ok t' ∧ Alike t t') ∨
      ∃ e, s.transmit m = .error e ∧ s'.transmit m = .error e := by
  obtain ⟨waiting, past, journal, hjournal⟩ := h
  simp only [Session.transmit]
  cases m.encode with
  | error e => exact .inr ⟨e, rfl, rfl⟩
  | ok payload =>
    have hwrite := s.transport.writeFrame_beside waiting past payload
    cases hs : s.transport.writeFrame payload with
    | error e =>
      rw [hs] at hwrite
      exact .inr ⟨e, by simp only [bind, Except.bind, hs],
        by simp only [bind, Except.bind, hwrite, Except.map]⟩
    | ok transport =>
      rw [hs] at hwrite
      refine .inl ⟨_, _, by simp only [bind, Except.bind, hs]; rfl,
        by simp only [bind, Except.bind, hwrite, Except.map]; rfl, ?_⟩
      have hsent : Alike { s with transport := transport } { s with
          transport := { transport with waiting := waiting, past := past }
          journal := journal } := ⟨waiting, past, journal, hjournal⟩
      exact hsent.note (.sent m)

theorem attempt (h : Alike s s') {result result' : Except Error (Session σ)}
    (hresult : (∃ t t', result = .ok t ∧ result' = .ok t' ∧ Alike t t') ∨
      ∃ e, result = .error e ∧ result' = .error e) :
    (s'.attempt result').1 = (s.attempt result).1 ∧
      Alike (s.attempt result).2 (s'.attempt result').2 := by
  rcases hresult with ⟨t, t', rfl, rfl, ht⟩ | ⟨e, rfl, rfl⟩
  · exact ⟨rfl, ht⟩
  · exact ⟨rfl, h⟩

theorem transmitProperty (h : Alike s s') (tree : Property) :
    (∃ t t', s.transmitProperty tree = .ok t ∧ s'.transmitProperty tree = .ok t' ∧ Alike t t') ∨
      ∃ e, s.transmitProperty tree = .error e ∧ s'.transmitProperty tree = .error e := by
  simp only [Session.transmitProperty]
  split
  · exact .inr ⟨_, rfl, rfl⟩
  · exact h.transmit _

theorem send (h : Alike s s') (what : Outgoing) :
    (s'.send what).1 = (s.send what).1 ∧ Alike (s.send what).2 (s'.send what).2 := by
  cases what with
  | pong | vanished | identify | push | generic => exact h.attempt (h.transmit _)
  | property tree => exact h.attempt (h.transmitProperty tree)
  | propertySet tree code =>
    simp only [Session.send]
    split
    · exact ⟨rfl, h⟩
    · exact h.attempt (h.transmit _)
  | rows rows =>
    simp only [Session.send, sendRows]
    split
    · exact h.attempt (h.transmitProperty _)
    · split
      · exact ⟨rfl, h⟩
      · rcases h.transmit (.genericResponse rows.requestId .noContentForArray) with
          ⟨t, t', hs, hs', ht⟩ | ⟨e, hs, hs'⟩
        · rw [hs, hs']
          exact ⟨rfl, ht⟩
        · rw [hs, hs']
          exact ⟨rfl, h⟩

theorem announce (h : Alike s s') (subject : Subject) (completion : Outcome → Script σ) :
    (s'.announce subject completion).1 = (s.announce subject completion).1 ∧
      Alike (s.announce subject completion).2 (s'.announce subject completion).2 := by
  have hnext : s'.nextId = s.nextId := by
    cases h
    rfl
  have hdraw : Alike { s with lastId := s.nextId } { s' with lastId := s.nextId } := by
    obtain ⟨waiting, past, journal, hjournal⟩ := h
    exact ⟨waiting, past, journal, hjournal⟩
  simp only [Session.announce, hnext]
  rcases hdraw.transmit ⟨s.nextId, subject.payload⟩ with ⟨t, t', hs, hs', ht⟩ | ⟨e, hs, hs'⟩
  · rw [hs, hs']
    have hregister : t'.pending.register s.nextId completion t'.clock =
        t.pending.register s.nextId completion t.clock := by
      cases ht
      rfl
    simp only [hregister]
    cases t.pending.register s.nextId completion t.clock with
    | error e => exact ⟨rfl, ht.note _⟩
    | ok pending =>
      have hregistered := (ht.withPending pending).note (.registered s.nextId t.clock completion)
      cases ht
      exact ⟨rfl, hregistered⟩
  · rw [hs, hs']
    exact ⟨rfl, hdraw.note _⟩

/-! ## Running -/

theorem run (script : Script σ) (h : Alike s s') :
    Alike (Session.run script s) (Session.run script s') := by
  induction script generalizing s s' with
  | done => exact h
  | remember change next ih =>
    refine ih ?_
    obtain ⟨waiting, past, journal, hjournal⟩ := h
    exact ⟨waiting, past, journal, hjournal⟩
  | «recall» next ih =>
    simp only [Session.run, h.memory_eq]
    exact ih _ h
  | meanwhile happening next ih => exact ih (h.happen happening)
  | inspect next ih =>
    simp only [Session.run, h.status_eq]
    exact ih _ (h.note _)
  | send what next ih =>
    obtain ⟨hresult, hsent⟩ := h.send what
    simp only [Session.run, hresult]
    exact ih _ hsent
  | announce subject completion next _ ih =>
    obtain ⟨hresult, hannounced⟩ := h.announce subject completion
    simp only [Session.run, hresult]
    exact ih _ hannounced

theorem finish (h : Alike s s') (request : PendingRequest (Outcome → Script σ))
    (outcome : Outcome) : Alike (s.finish request outcome) (s'.finish request outcome) := by
  simp only [Session.finish, h.status_eq]
  exact (h.note _).run _

theorem abandon (h : Alike s s') (requests : List (PendingRequest (Outcome → Script σ) × Expiry)) :
    Alike (s.abandon requests) (s'.abandon requests) := by
  induction requests generalizing s s' with
  | nil => exact h
  | cons request rest ih => exact ih (h.finish request.1 (outcomeOf request.2))

theorem resetTransport (h : Alike s s') : Alike s.resetTransport s'.resetTransport := by
  have hsame : s'.transport.held = s.transport.held := by
    cases h
    rfl
  cases hheld : s.transport.held with
  | none => simpa only [Session.resetTransport, hsame, hheld] using h
  | some link =>
    obtain ⟨waiting, past, journal, hjournal⟩ := h
    have hreset : Alike
        { s with transport := { s.transport with
          held := none, past := link.shutDown :: s.transport.past } }
        { s with
          transport := { s.transport with
            waiting := waiting, held := none, past := link.shutDown :: past }
          journal := journal } := ⟨waiting, link.shutDown :: past, journal, hjournal⟩
    simpa only [Session.resetTransport, Transport.reset, hheld] using
      hreset.note (.closed link.name)

theorem disconnect (h : Alike s s') :
    s'.disconnect.1 = s.disconnect.1 ∧ Alike s.disconnect.2 s'.disconnect.2 := by
  have hreset := h.resetTransport
  refine ⟨congrArg (SessionState.peer? ∘ Status.state) h.status_eq, ?_⟩
  simp only [Session.disconnect, hreset.pending_eq]
  exact ((hreset.withState .disconnected).withPending _).abandon _

theorem complete (h : Alike s s') (id : RequestId) (code : ResultCode) :
    Alike (s.complete id code) (s'.complete id code) := by
  simp only [Session.complete, h.pending_eq]
  split
  · exact (h.withPending _).finish _ _
  · exact h

/-! ## Taking frames up -/

theorem call (h : Alike s s') (app : Application σ) (callback : Callback) :
    Alike (s.call app callback) (s'.call app callback) := by
  simp only [Session.call, h.status_eq]
  exact (h.note _).run _

theorem greet (h : Alike s s') (app : Application σ) (id : RequestId) (hello : Hello) :
    Alike (s.greet app id hello) (s'.greet app id hello) := by
  have hsettings : s'.apiVersion = s.apiVersion ∧ s'.dsuid = s.dsuid := by
    cases h
    exact ⟨rfl, rfl⟩
  simp only [Session.greet, hsettings.1, hsettings.2]
  split
  · exact h
  · next peer _ =>
    rcases h.transmit ⟨id, .responseHello s.dsuid⟩ with ⟨t, t', hs, hs', ht⟩ | ⟨e, hs, hs'⟩
    · rw [hs, hs']
      exact (ht.withState (.active peer)).call app .hello
    · rw [hs, hs']
      exact h

theorem obey (h : Alike s s') (app : Application σ) (directive : Directive) :
    Alike (s.obey app directive) (s'.obey app directive) := by
  cases directive with
  | ignore => exact h
  | refuse | pong => exact (h.send _).2
  | greet id hello => exact h.greet app id hello
  | part dsuid =>
    obtain ⟨hpeer, hparted⟩ := h.disconnect
    simp only [Session.obey, Session.part, hpeer]
    exact hparted.call app _
  | remove id dsuid =>
    have hcalled := h.call app (.remove dsuid)
    simp only [Session.obey, Session.remove, hcalled.memory_eq]
    split
    · exact hcalled
    · exact (hcalled.send _).2
  | complete id code => exact h.complete id code
  | deliver callback => exact h.call app callback

/-- Reading from the connection that is held comes to the same whoever else there is. -/
theorem receive (h : Alike s s') (app : Application σ) :
    Alike (Endpoint.receive app s) (Endpoint.receive app s') := by
  have hparted := h.disconnect.2
  obtain ⟨waiting, past, journal, hjournal⟩ := h
  obtain ⟨transport', hs', htransport⟩ := s.transport.readFrame_beside waiting past
  simp only [Endpoint.receive]
  rcases hs : s.transport.readFrame with ⟨payload | e | _, transport⟩ <;>
    rw [hs] at hs' htransport <;> simp only [hs']
  · obtain rfl := htransport payload rfl
    have htaken : Alike { s with transport := transport } { s with
        transport := { transport with waiting := waiting, past := past }
        journal := journal } := ⟨waiting, past, journal, hjournal⟩
    exact (htaken.note (.handled payload)).obey app _
  · exact hparted
  · exact ⟨waiting, past, journal, hjournal⟩

end Alike

end Session

end Vdc
