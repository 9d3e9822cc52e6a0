import Mathlib.Logic.Relation
import Vdc.Endpoint
import Vdc.Proofs.RequestCache
import Vdc.Proofs.Session.Journal
import Vdc.Proofs.Transport

/-!
# The moves of a session

Everything that an endpoint does to its session is a course of a few kinds of moves. `Session.Act`
has the moves of scripts and `Session.Move` those of the endpoint around them; `moves_inputs` is the
statement that a whole run is such a course. What every move preserves therefore holds after every
run, at any moment in which the application is called.

The completions of several requests are run one after the other, after all of them have left the
pending ones. A moment is for this reason a session together with the requests whose completions
are still owed.
-/

namespace Vdc

namespace Session

variable {σ : Type}

/-! ## What sending comes to -/

/-- A message that is sent was encoded and written, and only the transport and the journal
change. -/
theorem transmit_eq_ok {s s' : Session σ} {m : Message} (h : s.transmit m = .ok s') :
    ∃ payload transport, m.encode = .ok payload ∧ s.transport.writeFrame payload = .ok transport ∧
      s' = { s with transport := transport }.note (.sent m) := by
  unfold transmit at h
  cases he : m.encode with
  | error e => rw [he] at h; cases h
  | ok payload =>
    rw [he] at h
    cases hw : s.transport.writeFrame payload with
    | error e => simp [bind, Except.bind, hw] at h
    | ok transport =>
      simp only [bind, Except.bind, hw, pure, Except.pure, Except.ok.injEq] at h
      exact ⟨payload, transport, rfl, hw, h.symm⟩

/-- An application's send leaves the session as it is or sends one message, which answers no
handshake. -/
theorem send_cases (s : Session σ) (what : Outgoing) :
    (s.send what).2 = s ∨
      ∃ m, m.payload.kind ≠ .responseHello ∧ s.transmit m = .ok (s.send what).2 := by
  have hattempt (m : Message) (hkind : m.payload.kind ≠ .responseHello) :
      (s.attempt (s.transmit m)).2 = s ∨
        ∃ m', m'.payload.kind ≠ .responseHello ∧
          s.transmit m' = .ok (s.attempt (s.transmit m)).2 := by
    cases h : s.transmit m with
    | ok s' => exact .inr ⟨m, hkind, h⟩
    | error e => exact .inl rfl
  have htree (tree : Property) : (s.attempt (s.transmitProperty tree)).2 = s ∨
      ∃ m', m'.payload.kind ≠ .responseHello ∧
        s.transmit m' = .ok (s.attempt (s.transmitProperty tree)).2 := by
    unfold transmitProperty
    split
    · exact .inl rfl
    · exact hattempt _ (by simp [Payload.kind])
  cases what with
  | pong | vanished | identify | push | generic =>
    exact hattempt _ (by simp [Message.notification, Message.genericResponse, Payload.kind])
  | property tree => exact htree tree
  | propertySet tree code =>
    simp only [send]
    split
    · exact .inl rfl
    · exact hattempt _ (by simp [Message.genericResponse, Payload.kind])
  | rows rows =>
    simp only [send, sendRows]
    split
    · exact htree _
    · split
      · exact .inl rfl
      · split
        · next h => exact .inr ⟨_, by simp [Message.genericResponse, Payload.kind], h⟩
        · exact .inl rfl

/-- A request takes the next id. It is declined before it is sent or, if the id is not free, after
that; else it is sent and registered. -/
theorem announce_cases (s : Session σ) (subject : Subject) (completion : Outcome → Script σ) :
    (∃ e, s.announce subject completion =
      (.error e, { s with lastId := s.nextId }.note (.declined s.nextId e))) ∨
    ∃ s', { s with lastId := s.nextId }.transmit ⟨s.nextId, subject.payload⟩ = .ok s' ∧
      ((∃ e, s'.pending.register s.nextId completion s'.clock = .error e ∧
        s.announce subject completion = (.error e, s'.note (.declined s.nextId e))) ∨
      ∃ pending, s'.pending.register s.nextId completion s'.clock = .ok pending ∧
        s.announce subject completion = (.ok s.nextId,
          { s' with pending := pending }.note (.registered s.nextId s'.clock completion))) := by
  cases ht : { s with lastId := s.nextId }.transmit ⟨s.nextId, subject.payload⟩ with
  | error e => exact .inl ⟨e, by simp only [announce, ht]⟩
  | ok s' =>
    refine .inr ⟨s', rfl, ?_⟩
    cases hr : s'.pending.register s.nextId completion s'.clock with
    | error e => exact .inl ⟨e, rfl, by simp only [announce, ht, hr]⟩
    | ok pending => exact .inr ⟨pending, rfl, by simp only [announce, ht, hr]⟩

/-! ## The moves -/

/-- One thing that a script does, or that happens meanwhile. -/
inductive Act : Session σ → Session σ → Prop
  | remember (s : Session σ) (change : σ → σ) : Act s { s with memory := change s.memory }
  | happen (s : Session σ) (happening : Happening) : Act s (s.happen happening)
  | inspect (s : Session σ) : Act s (s.note (.inspected s.status))
  | send (s : Session σ) (what : Outgoing) : Act s (s.send what).2
  | announce (s : Session σ) (subject : Subject) (completion : Outcome → Script σ) :
      Act s (s.announce subject completion).2

/-- A session, and the requests whose completions are still to be run. -/
structure Moment (σ : Type) where
  session : Session σ
  owed : List (PendingRequest (Outcome → Script σ) × Expiry)

/-- The session when the completion of a request is about to run. -/
def begun (s : Session σ) (request : PendingRequest (Outcome → Script σ)) (outcome : Outcome) :
    Session σ :=
  s.note (.completed request.id outcome request.completion s.status)

/-- The session when the payload of a frame has been read and nothing done about it yet. -/
def taken (s : Session σ) (payload : List UInt8) (transport : Transport) : Session σ :=
  { s with transport := transport }.note (.handled payload)

/-- The session when a handshake has been answered and its peer is on record. -/
def opened (s : Session σ) (peer : String) : Session σ := { s with state := .active peer }

/-- One thing that an endpoint does to its session. While completions are owed, only they and what
their scripts do can be next. -/
inductive Move : Moment σ → Moment σ → Prop
  | act {s s' : Session σ} (owed : List (PendingRequest (Outcome → Script σ) × Expiry))
      (h : Act s s') : Move ⟨s, owed⟩ ⟨s', owed⟩
  | finish (s : Session σ) (request : PendingRequest (Outcome → Script σ)) (expiry : Expiry)
      (owed : List (PendingRequest (Outcome → Script σ) × Expiry)) :
      Move ⟨s, (request, expiry) :: owed⟩ ⟨s.begun request (outcomeOf expiry), owed⟩
  | sweep (s : Session σ) :
      Move ⟨s, []⟩
        ⟨{ s.note (.swept s.clock) with
            pending := (s.pending.sweep s.clock s.transport.isConnected).2 },
          (s.pending.sweep s.clock s.transport.isConnected).1⟩
  | accept (s : Session σ) (newcomer : Link) (waiting : List Link)
      (hwaiting : s.transport.waiting = newcomer :: waiting) (h : s.transport.held = none)
      (hlistening : s.transport.listening = true) :
      Move ⟨s, []⟩
        ⟨{ s with
            transport := { s.transport with waiting := waiting, held := some newcomer }
            state := .connected }.note (.accepted newcomer.name), []⟩
  | turnAway (s : Session σ) (newcomer closed : Link) (waiting : List Link)
      (hwaiting : s.transport.waiting = newcomer :: waiting) (hheld : s.transport.held ≠ none)
      (reject : List UInt8) (error : Error) (hreject : rejection = .ok reject)
      (h : s.transport.turnAway reject newcomer = (.error error, closed)) :
      Move ⟨s, []⟩
        ⟨{ s with transport := { s.transport with
            waiting := waiting, past := closed :: s.transport.past } }, []⟩
  | reject (s : Session σ) (newcomer closed : Link) (waiting : List Link)
      (hwaiting : s.transport.waiting = newcomer :: waiting) (hheld : s.transport.held ≠ none)
      (reject : List UInt8) (link : Link) (hreject : rejection = .ok reject)
      (h : s.transport.turnAway reject newcomer = (.ok link, closed)) :
      Move ⟨s, []⟩
        ⟨{ s with transport := { s.transport with
            waiting := waiting, past := closed :: s.transport.past } }.note
          (.rejected newcomer.name), []⟩
  | take (s : Session σ) (payload : List UInt8) (transport : Transport)
      (hread : s.transport.readFrame = (.frame payload, transport))
      (hdirective : ∀ id code, Directive.ofPayload s.dsuid s.state payload = .complete id code →
        (s.pending.take id).1 = none) :
      Move ⟨s, []⟩ ⟨s.taken payload transport, []⟩
  | answer (s : Session σ) (payload : List UInt8) (transport : Transport) (id : RequestId)
      (code : ResultCode) (request : PendingRequest (Outcome → Script σ))
      (hread : s.transport.readFrame = (.frame payload, transport))
      (hdirective : Directive.ofPayload s.dsuid s.state payload = .complete id code)
      (htake : (s.pending.take id).1 = some request) :
      Move ⟨s, []⟩
        ⟨{ s.taken payload transport with pending := (s.pending.take id).2 }.begun request
          (.answered code), []⟩
  | greet {s s' : Session σ} (id : RequestId) (hello : Hello) (peer : String)
      (hasked : s.Asked (.greet id hello))
      (hcheck : SessionState.checkHello s.apiVersion id hello = .ok peer)
      (h : s.transmit ⟨id, .responseHello s.dsuid⟩ = .ok s') :
      Move ⟨s, []⟩ ⟨(s'.opened peer).note (.called .hello (s'.opened peer).status), []⟩
  | call {s : Session σ} {directive : Directive} {callback : Callback}
      (hasked : s.Asked directive) (hcallback : directive.callback? = some callback) :
      Move ⟨s, []⟩ ⟨s.note (.called callback s.status), []⟩
  | farewell {before s : Session σ} (dsuid : Option String) (hasked : before.Asked (.part dsuid))
      (hnotes : Notes Event.IsParting before s)
      (hparted : s.transport.held = none ∧ s.state = .disconnected) :
      Move ⟨s, []⟩ ⟨s.note (.called (.bye ((dsuid.or before.state.peer?).getD "")) s.status), []⟩
  | hangUp (s : Session σ) :
      Move ⟨s, []⟩
        ⟨{ s.resetTransport with state := .disconnected, pending := s.pending.flush.2 },
          s.pending.flush.1⟩
  | withdraw (s : Session σ) (h : s.transport.held = none) :
      Move ⟨s, []⟩ ⟨{ s with transport := s.transport.close }.note .withdrawn, []⟩

/-- Some moves, one after the other. -/
abbrev Moves : Moment σ → Moment σ → Prop := Relation.ReflTransGen Move

/-- What every move preserves is preserved by all of them. -/
theorem Moves.preserve {P : Moment σ → Prop} (hmove : ∀ {m m'}, Move m m' → P m → P m')
    {m m' : Moment σ} (h : Moves m m') (hm : P m) : P m' := by
  induction h with
  | refl => exact hm
  | tail _ hlast ih => exact hmove hlast ih

/-! ## What never changes -/

/-- What a session was opened with: its name, its version, and how it reads frames. -/
def settings (s : Session σ) : String × UInt32 × Nat × Nat :=
  (s.dsuid, s.apiVersion, s.transport.frameLimit, s.transport.ioTimeout)

theorem settings_of_transmit {s s' : Session σ} {m : Message} (h : s.transmit m = .ok s') :
    s'.settings = s.settings := by
  obtain ⟨_, _, -, hwrite, rfl⟩ := transmit_eq_ok h
  obtain ⟨_, _, -, -, -, rfl⟩ := Transport.writeFrame_eq_ok hwrite
  rfl

theorem Act.settings_eq {s s' : Session σ} (h : Act s s') : s'.settings = s.settings := by
  cases h with
  | remember | inspect => rfl
  | happen happening => cases happening <;> rfl
  | send what =>
    rcases s.send_cases what with h | ⟨m, -, h⟩
    · rw [h]
    · exact settings_of_transmit h
  | announce subject completion =>
    rcases s.announce_cases subject completion with ⟨e, h⟩ | ⟨s', ht, h⟩
    · rw [h]
      rfl
    · have hannounced : s'.settings = s.settings :=
        settings_of_transmit (s := { s with lastId := s.nextId }) ht
      rcases h with ⟨e, -, h⟩ | ⟨pending, -, h⟩ <;> rw [h] <;> exact hannounced

theorem Move.settings_eq {m m' : Moment σ} (h : Move m m') :
    m'.session.settings = m.session.settings := by
  cases h with
  | act owed hact => exact hact.settings_eq
  | finish | sweep | accept | turnAway | reject | call | farewell => rfl
  | take s payload transport hread | answer s payload transport id code request hread =>
    obtain ⟨_, _, -, -, rfl⟩ := Transport.readFrame_eq_frame hread
    rfl
  | @greet s s' id hello peer hasked hcheck hs =>
    have hsent : s'.settings = s.settings := settings_of_transmit hs
    exact hsent
  | hangUp s =>
    cases hheld : s.transport.held with
    | none => simp only [resetTransport, hheld, settings]
    | some link =>
      simp only [resetTransport, Transport.reset, hheld]
      rfl
  | withdraw s hnone =>
    simp only [Transport.close, Transport.reset, hnone]
    rfl

theorem Moves.settings_eq {m m' : Moment σ} (h : Moves m m') :
    m'.session.settings = m.session.settings :=
  h.preserve (P := (·.session.settings = m.session.settings))
    (fun hmove h => hmove.settings_eq.trans h) rfl

/-! ## Without a connection -/

/-- Without a connection nothing can be sent. -/
theorem transmit_ne_ok_of_unheld {s s' : Session σ} (hs : s.transport.held = none) (m : Message) :
    s.transmit m ≠ .ok s' := by
  intro h
  obtain ⟨_, _, -, hwrite, -⟩ := transmit_eq_ok h
  obtain ⟨_, _, -, hheld, -⟩ := Transport.writeFrame_eq_ok hwrite
  rw [hs] at hheld
  cases hheld

/-- Without a connection a script changes neither the state nor the pending requests, and it gets no
connection. -/
theorem Act.of_unheld {s s' : Session σ} (h : Act s s') (hs : s.transport.held = none) :
    s'.transport.held = none ∧ s'.state = s.state ∧ s'.pending = s.pending := by
  cases h with
  | remember | inspect => exact ⟨hs, rfl, rfl⟩
  | happen happening =>
    refine ⟨?_, rfl, rfl⟩
    have h := s.transport.name_happen happening
    rwa [hs, Option.map_none, Option.map_eq_none_iff] at h
  | send what =>
    rcases s.send_cases what with h | ⟨m, -, h⟩
    · rw [h]
      exact ⟨hs, rfl, rfl⟩
    · exact absurd h (transmit_ne_ok_of_unheld hs m)
  | announce subject completion =>
    rcases s.announce_cases subject completion with ⟨e, h⟩ | ⟨s', h, -⟩
    · rw [h]
      exact ⟨hs, rfl, rfl⟩
    · exact absurd h (transmit_ne_ok_of_unheld (s := { s with lastId := s.nextId }) hs _)

/-- A script is a course of acts. -/
theorem acts_run (script : Script σ) (s : Session σ) :
    Relation.ReflTransGen Act s (run script s) := by
  induction script generalizing s with
  | done => exact .refl
  | remember change next ih => exact .head (.remember s change) (ih _)
  | «recall» next ih => exact ih _ s
  | meanwhile happening next ih => exact .head (.happen s happening) (ih _)
  | inspect next ih => exact .head (.inspect s) (ih _ _)
  | send what next ih => exact .head (.send s what) (ih _ _)
  | announce subject completion next _ ih => exact .head (.announce s subject completion) (ih _ _)

theorem run_of_unheld (script : Script σ) {s : Session σ} (hs : s.transport.held = none) :
    (run script s).transport.held = none ∧ (run script s).state = s.state ∧
      (run script s).pending = s.pending := by
  have h := acts_run script s
  generalize run script s = s' at h ⊢
  induction h with
  | refl => exact ⟨hs, rfl, rfl⟩
  | tail _ hlast ih =>
    obtain ⟨hheld, hstate, hpending⟩ := hlast.of_unheld ih.1
    exact ⟨hheld, hstate.trans ih.2.1, hpending.trans ih.2.2⟩

theorem abandon_of_unheld (requests : List (PendingRequest (Outcome → Script σ) × Expiry))
    {s : Session σ} (hs : s.transport.held = none) :
    (s.abandon requests).transport.held = none ∧ (s.abandon requests).state = s.state ∧
      (s.abandon requests).pending = s.pending := by
  induction requests generalizing s with
  | nil => exact ⟨hs, rfl, rfl⟩
  | cons request rest ih =>
    have hrun := run_of_unheld (request.1.completion (outcomeOf request.2))
      (s := s.begun request.1 (outcomeOf request.2)) hs
    have hrest := ih hrun.1
    exact ⟨hrest.1, hrest.2.1.trans hrun.2.1, hrest.2.2.trans hrun.2.2⟩

theorem held_resetTransport (s : Session σ) : s.resetTransport.transport.held = none := by
  unfold resetTransport
  split
  · next h => simp only [note, Transport.reset, h]
  · next h => exact h

/-- When a connection has ended there is no connection, no session and nothing pending. -/
theorem of_disconnect (s : Session σ) :
    s.disconnect.2.transport.held = none ∧ s.disconnect.2.state = .disconnected ∧
      s.disconnect.2.pending.entries = [] := by
  have h := abandon_of_unheld s.resetTransport.pending.flush.1
    (s := { s.resetTransport with
      state := .disconnected, pending := s.resetTransport.pending.flush.2 }) s.held_resetTransport
  exact ⟨h.1, h.2.1, congrArg RequestCache.entries h.2.2⟩

/-! ## What the operations note down -/

theorem Act.notes {s s' : Session σ} (h : Act s s') :
    Notes (fun event => event.IsScripted ∧ ¬ event.IsGreeting) s s' := by
  have hsent {s s' : Session σ} {m : Message} (hkind : m.payload.kind ≠ .responseHello)
      (h : s.transmit m = .ok s') :
      Notes (fun event => event.IsScripted ∧ ¬ event.IsGreeting) s s' := by
    obtain ⟨_, _, -, -, rfl⟩ := transmit_eq_ok h
    exact .single (.sent m) ⟨trivial, hkind⟩ rfl
  cases h with
  | remember | happen => exact .of_eq rfl
  | inspect => exact .single (.inspected s.status) ⟨trivial, id⟩ rfl
  | send what =>
    rcases s.send_cases what with h | ⟨m, hkind, h⟩
    · exact .of_eq (by rw [h])
    · exact hsent hkind h
  | announce subject completion =>
    rcases s.announce_cases subject completion with ⟨e, h⟩ | ⟨s', ht, h⟩
    · exact .single (.declined s.nextId e) ⟨trivial, id⟩ (by rw [h]; rfl)
    · have hannounced : Notes (fun event => event.IsScripted ∧ ¬ event.IsGreeting) s s' :=
        hsent (s := { s with lastId := s.nextId }) (by cases subject <;> simp [Subject.payload,
          Payload.kind]) ht
      refine hannounced.trans ?_
      rcases h with ⟨e, -, h⟩ | ⟨pending, -, h⟩
      · exact .single (.declined s.nextId e) ⟨trivial, id⟩ (by rw [h]; rfl)
      · exact .single (.registered s.nextId s'.clock completion) ⟨trivial, id⟩
          (by rw [h]; rfl)

theorem notes_run (script : Script σ) (s : Session σ) :
    Notes Event.IsScripted s (run script s) := by
  have h := acts_run script s
  generalize run script s = s' at h ⊢
  induction h with
  | refl => exact .of_eq rfl
  | tail _ hlast ih => exact ih.trans (hlast.notes.mono fun _ h => h.1)

theorem notes_abandon (requests : List (PendingRequest (Outcome → Script σ) × Expiry))
    (s : Session σ) : Notes Event.IsScripted s (s.abandon requests) := by
  induction requests generalizing s with
  | nil => exact .of_eq rfl
  | cons request rest ih =>
    have hbegun : Notes Event.IsScripted s (s.begun request.1 (outcomeOf request.2)) :=
      .single (.completed _ _ _ _) trivial rfl
    exact (hbegun.trans (notes_run _ _)).trans (ih _)

theorem notes_disconnect (s : Session σ) : Notes Event.IsParting s s.disconnect.2 := by
  have hreset : Notes Event.IsParting s s.resetTransport := by
    unfold resetTransport
    split
    · next link h => exact .single (.closed link.name) trivial rfl
    · exact .of_eq rfl
  have hflushed : Notes Event.IsParting s { s.resetTransport with
      state := .disconnected, pending := s.resetTransport.pending.flush.2 } := hreset
  exact hflushed.trans ((notes_abandon _ _).mono fun _ h => h.isParting)

theorem notes_send (s : Session σ) (what : Outgoing) :
    Notes Event.IsScripted s (s.send what).2 :=
  (Act.send s what).notes.mono fun _ h => h.1

theorem notes_sweep (s : Session σ) : Notes Event.IsRoutine s s.sweep := by
  have hswept : Notes Event.IsRoutine s { s.note (.swept s.clock) with
      pending := (s.pending.sweep s.clock s.transport.isConnected).2 } :=
    .single (.swept s.clock) trivial rfl
  exact hswept.trans ((notes_abandon _ _).mono fun _ h => h.isParting.isRoutine)

theorem notes_call (app : Application σ) (s : Session σ) (callback : Callback) :
    Notes Event.IsRoutine s (s.call app callback) := by
  have hcalled : Notes Event.IsRoutine s (s.note (.called callback s.status)) :=
    .single (.called callback s.status) trivial rfl
  exact hcalled.trans ((notes_run _ _).mono fun _ h => h.isParting.isRoutine)

theorem notes_acceptIncoming (s : Session σ) : Notes Event.IsRoutine s s.acceptIncoming := by
  unfold acceptIncoming
  split
  · exact .of_eq rfl
  · split
    · exact .single (.accepted _) trivial rfl
    · exact .single (.rejected _) trivial rfl
    · exact .of_eq rfl

theorem notes_greet (app : Application σ) (s : Session σ) (id : RequestId) (hello : Hello) :
    Notes Event.IsRoutine s (s.greet app id hello) := by
  unfold greet
  split
  · exact .of_eq rfl
  · split
    · exact .of_eq rfl
    · next h =>
      obtain ⟨_, _, -, -, rfl⟩ := transmit_eq_ok h
      exact .trans (.single (.sent ⟨id, .responseHello s.dsuid⟩) trivial rfl) (notes_call app _ _)

theorem notes_complete (s : Session σ) (id : RequestId) (code : ResultCode) :
    Notes Event.IsScripted s (s.complete id code) := by
  unfold complete
  split
  · next request pending _ =>
    have hbegun : Notes Event.IsScripted s
        ({ s with pending := pending }.begun request (.answered code)) :=
      .single (.completed _ _ _ _) trivial rfl
    exact hbegun.trans (notes_run _ _)
  · exact .of_eq rfl

/-- Whatever a payload asks for, no other payload is taken up in carrying it out. -/
theorem notes_obey (app : Application σ) (s : Session σ) (directive : Directive) :
    Notes Event.IsRoutine s (s.obey app directive) := by
  cases directive with
  | ignore => exact .of_eq rfl
  | refuse | pong => exact (notes_send s _).mono fun _ h => h.isParting.isRoutine
  | greet id hello => exact notes_greet app s id hello
  | part dsuid => exact (s.notes_disconnect.mono fun _ h => h.isRoutine).trans (notes_call app _ _)
  | complete id code => exact (notes_complete s id code).mono fun _ h => h.isParting.isRoutine
  | deliver callback => exact notes_call app s callback
  | remove id dsuid =>
    have hcalled := notes_call app s (.remove dsuid)
    simp only [obey, remove]
    split
    · exact hcalled
    · exact hcalled.trans ((notes_send _ _).mono fun _ h => h.isParting.isRoutine)

/-! ## What the operations come to -/

theorem moves_run (script : Script σ) (s : Session σ)
    (owed : List (PendingRequest (Outcome → Script σ) × Expiry)) :
    Moves ⟨s, owed⟩ ⟨run script s, owed⟩ :=
  (acts_run script s).lift (Moment.mk · owed) fun _ _ h => .act owed h

/-- Owed completions are run until none is owed. -/
theorem moves_abandon (requests : List (PendingRequest (Outcome → Script σ) × Expiry))
    (s : Session σ) : Moves ⟨s, requests⟩ ⟨s.abandon requests, []⟩ := by
  induction requests generalizing s with
  | nil => exact .refl
  | cons request rest ih =>
    obtain ⟨request, expiry⟩ := request
    exact .head (.finish s request expiry rest)
      ((moves_run (request.completion (outcomeOf expiry)) _ rest).trans (ih _))

theorem moves_sweep (s : Session σ) : Moves ⟨s, []⟩ ⟨s.sweep, []⟩ :=
  .head (.sweep s) (moves_abandon _ _)

theorem moves_disconnect (s : Session σ) : Moves ⟨s, []⟩ ⟨s.disconnect.2, []⟩ := by
  have hreset : s.resetTransport.pending = s.pending := by
    unfold resetTransport
    split <;> rfl
  have h := Relation.ReflTransGen.head (Move.hangUp s) (moves_abandon _ _)
  simpa only [disconnect, hreset] using h

/-- What is asked for with one callback is that callback. -/
theorem moves_call (app : Application σ) {s : Session σ} {directive : Directive}
    {callback : Callback} (hasked : s.Asked directive)
    (hcallback : directive.callback? = some callback) :
    Moves ⟨s, []⟩ ⟨s.call app callback, []⟩ :=
  .head (.call hasked hcallback) (moves_run _ _ [])

theorem moves_send (s : Session σ) (what : Outgoing) : Moves ⟨s, []⟩ ⟨(s.send what).2, []⟩ :=
  .single (.act [] (.send s what))

theorem moves_greet (app : Application σ) {s : Session σ} {id : RequestId} {hello : Hello}
    (hasked : s.Asked (.greet id hello)) : Moves ⟨s, []⟩ ⟨s.greet app id hello, []⟩ := by
  unfold greet
  split
  · exact .refl
  · next peer hcheck =>
    split
    · exact .refl
    · next s' h => exact .head (.greet id hello peer hasked hcheck h) (moves_run _ _ [])

theorem moves_part (app : Application σ) {s : Session σ} {dsuid : Option String}
    (hasked : s.Asked (.part dsuid)) : Moves ⟨s, []⟩ ⟨s.part app dsuid, []⟩ :=
  (moves_disconnect s).trans
    (.head (.farewell dsuid hasked s.notes_disconnect
      ⟨s.of_disconnect.1, s.of_disconnect.2.1⟩) (moves_run _ _ []))

theorem moves_remove (app : Application σ) {s : Session σ} {id : RequestId} {dsuid : String}
    (hasked : s.Asked (.remove id dsuid)) : Moves ⟨s, []⟩ ⟨s.remove app id dsuid, []⟩ := by
  refine (moves_call app hasked rfl).trans ?_
  unfold remove
  split
  · exact .refl
  · exact moves_send _ _

/-- A frame is taken up together with the completion that it answers, if it answers one; what else
it asks for comes after it. -/
theorem moves_handle (app : Application σ) (s : Session σ) {payload : List UInt8}
    {transport : Transport} (hread : s.transport.readFrame = (.frame payload, transport)) :
    Moves ⟨s, []⟩ ⟨{ s with transport := transport }.handle app payload, []⟩ := by
  have htake (hdirective : ∀ id code, Directive.ofPayload s.dsuid s.state payload
      = .complete id code → (s.pending.take id).1 = none) :
      Moves ⟨s, []⟩ ⟨s.taken payload transport, []⟩ :=
    .single (.take s payload transport hread hdirective)
  have hasked {directive : Directive}
      (hd : Directive.ofPayload s.dsuid s.state payload = directive) :
      (s.taken payload transport).Asked directive := ⟨payload, s.journal, rfl, hd⟩
  change Moves ⟨s, []⟩
    ⟨(s.taken payload transport).obey app (Directive.ofPayload s.dsuid s.state payload), []⟩
  cases hd : Directive.ofPayload s.dsuid s.state payload with
  | complete id code =>
    cases hp : (s.pending.take id).1 with
    | none =>
      -- A reply to no pending request is passed over, like any frame that asks for nothing.
      have hkeep : (s.taken payload transport).complete id code = s.taken payload transport := by
        simp only [complete]
        split
        · next h =>
          have := congrArg Prod.fst h
          simp only [taken, note] at this
          rw [hp] at this
          cases this
        · rfl
      rw [obey, hkeep]
      refine htake fun id' code' h => ?_
      obtain ⟨rfl, -⟩ := Directive.complete.inj (hd.symm.trans h)
      exact hp
    | some request =>
      -- The request leaves the pending ones and its completion begins in one move.
      have hrun : (s.taken payload transport).complete id code =
          run (request.completion (.answered code))
            ({ s.taken payload transport with pending := (s.pending.take id).2 }.begun request
              (.answered code)) := by
        have : (s.taken payload transport).pending.take id =
            (some request, (s.pending.take id).2) := by rw [← hp]; rfl
        simp only [complete, this]
        rfl
      rw [obey, hrun]
      exact .head (.answer s payload transport id code request hread hd hp) (moves_run _ _ [])
  | ignore => exact htake (by simp [hd])
  | refuse id code => exact (htake (by simp [hd])).trans (moves_send _ _)
  | greet id hello => exact (htake (by simp [hd])).trans (moves_greet app (hasked hd))
  | part dsuid => exact (htake (by simp [hd])).trans (moves_part app (hasked hd))
  | pong dsuid => exact (htake (by simp [hd])).trans (moves_send _ _)
  | remove id dsuid => exact (htake (by simp [hd])).trans (moves_remove app (hasked hd))
  | deliver callback => exact (htake (by simp [hd])).trans (moves_call app (hasked hd) rfl)

theorem moves_acceptIncoming (s : Session σ) : Moves ⟨s, []⟩ ⟨s.acceptIncoming, []⟩ := by
  unfold acceptIncoming
  cases hreject : rejection with
  | error e => exact .refl
  | ok reject =>
    rcases s.transport.accept_cases reject with
      ⟨e, h⟩ | ⟨newcomer, waiting, hwaiting, ⟨hnone, hlistening, h⟩ | ⟨hheld, h⟩⟩
    · simp only [h]
      exact .refl
    · simp only [h]
      exact .single (.accept s newcomer waiting hwaiting hnone hlistening)
    · simp only [h]
      rcases hturned : s.transport.turnAway reject newcomer with ⟨error | link, closed⟩
      · exact .single
          (.turnAway s newcomer closed waiting hwaiting hheld reject error hreject hturned)
      · exact .single (.reject s newcomer closed waiting hwaiting hheld reject link hreject hturned)

end Session

namespace Endpoint

open Session

variable {σ : Type}

theorem moves_receive (app : Application σ) (s : Session σ) :
    Moves ⟨s, []⟩ ⟨receive app s, []⟩ := by
  unfold receive
  split
  · next hread => exact moves_handle app s hread
  · exact moves_disconnect s
  · exact .refl

theorem moves_meanwhile (happenings : List Happening) (s : Session σ) :
    Moves ⟨s, []⟩ ⟨happenings.foldl Session.happen s, []⟩ := by
  induction happenings generalizing s with
  | nil => exact .refl
  | cons happening rest ih => exact .head (.act [] (.happen s happening)) (ih _)

theorem moves_workSession (app : Application σ) (meanwhile : List Happening) (s : Session σ) :
    Moves ⟨s, []⟩ ⟨workSession app meanwhile s, []⟩ := by
  -- One poll, after the sweep, tells both whether to accept and whether to read.
  refine (moves_sweep s).trans ((moves_meanwhile meanwhile s.sweep).trans ?_)
  generalize hs : meanwhile.foldl Session.happen s.sweep = s'
  simp only [workSession, hs]
  cases s'.transport.poll.incoming <;> cases s'.transport.poll.readable <;>
    simp only [if_true, Bool.false_eq_true, if_false]
  · exact .refl
  · exact moves_receive app s'
  · exact moves_acceptIncoming s'
  · exact (moves_acceptIncoming s').trans (moves_receive app _)

theorem moves_step (e : Endpoint σ) (input : Input σ) :
    Moves ⟨e.session, []⟩ ⟨(e.step input).2.session, []⟩ := by
  cases input with
  | work meanwhile =>
    simp only [step, work]
    split
    · exact .refl
    · exact moves_workSession _ _ _
  | perform script => exact moves_run script _ []
  | close =>
    simp only [step, close]
    split
    · exact .refl
    · refine (moves_disconnect e.session).tail (.withdraw _ (of_disconnect _).1)
  | happen happening => exact .single (.act [] (.happen _ happening))

/-- Whatever an endpoint takes is a course of moves of its session. -/
theorem moves_inputs (e : Endpoint σ) (inputs : List (Input σ)) :
    Moves ⟨e.session, []⟩ ⟨(e.run inputs).session, []⟩ := by
  induction inputs generalizing e with
  | nil => exact .refl
  | cons input rest ih => exact (moves_step e input).trans (ih _)

end Endpoint

end Vdc
