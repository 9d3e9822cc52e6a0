import Vdc.Proofs.Session.Handshake

/-!
# What gets through to an application

An application is called back only in an open session, with one exception, the farewell, of which it
hears when the connection that it came over has ended. Before a session is open, whatever is neither
a handshake nor a farewell nor a reply is refused, and has no other consequence.
-/

namespace Vdc

variable {σ : Type}

/-- A callback is that of a handshake, that of a farewell, or one of an open session. -/
theorem Callback.cases_session (callback : Callback) :
    callback = .hello ∨ (∃ dsuid, callback = .bye dsuid) ∨ callback.IsInSession := by
  cases callback with
  | hello => exact .inl rfl
  | bye dsuid => exact .inr (.inl ⟨dsuid, rfl⟩)
  | _ => exact .inr (.inr trivial)

namespace Session

/-- What does not belong to the time before a session is refused then: with an id it is answered
with an error, and without one with nothing. -/
theorem handle_of_connected (app : Application σ) {s : Session σ} {payload : List UInt8}
    {m : Message} (hstate : s.state = .connected) (hdecode : Message.decode payload = .ok m)
    (hkind : SessionState.precedesSession m.payload.kind = false) :
    s.handle app payload =
      if m.id = reservedId then s.note (.handled payload)
      else (s.note (.handled payload)).reply m.id .serviceNotAvailable := by
  simp only [handle, Directive.ofPayload_of_decode hdecode, hstate, SessionState.admission, hkind]
  by_cases hid : m.id = reservedId
  · simp [hid, obey]
  · simp [hid, obey]

end Session

namespace Endpoint

variable {app : Application σ} {memory : σ} {dsuid : String} {config : Config}
  {announcer : Option Announcer} {port : UInt16} {e : Endpoint σ}

/-- What an endpoint named `own` lets through to its application. -/
structure GatesCallbacks (own : String) (version : UInt32) (e : Endpoint σ) : Prop where
  /-- Every callback but that of a farewell is made in an open session, which somebody who
  introduced himself on the same connection has been answered to open. -/
  session : ∀ callback status past, .called callback status :: past <:+ e.session.journal →
    (∀ dsuid, callback ≠ .bye dsuid) →
      ∃ peer, status.state = .active peer ∧ (greetings own version past).head? = some peer
  /-- The callback of a farewell is made without a connection, and since the farewell was taken up
  there was nothing but the end of the connection. -/
  farewell : ∀ dsuid status past, .called (.bye dsuid) status :: past <:+ e.session.journal →
    status.state = .disconnected ∧ ∃ between payload before id name,
      past = between ++ .handled payload :: before ∧ (∀ event ∈ between, event.IsParting) ∧
        Message.decode payload = .ok ⟨id, .bye name⟩
  /-- Before a session is open a message with an id that is no handshake, no farewell and no reply
  is answered once, with an error, and has no other consequence. -/
  refused : ∀ (s s' : Session σ) payload m, s.state = .connected →
    Message.decode payload = .ok m → m.payload.kind ≠ .requestHello → m.payload.kind ≠ .bye →
    m.payload.kind ≠ .genericResponse → m.id ≠ reservedId →
    (s.note (.handled payload)).transmit (Message.genericResponse m.id .serviceNotAvailable) =
      .ok s' → s.handle e.application payload = s'
  /-- Without an id it has no consequence at all. -/
  dropped : ∀ (s : Session σ) payload m, s.state = .connected →
    Message.decode payload = .ok m → m.payload.kind ≠ .requestHello → m.payload.kind ≠ .bye →
    m.payload.kind ≠ .genericResponse → m.id = reservedId →
      s.handle e.application payload = s.note (.handled payload)

/-- Whatever an endpoint takes after its start, its application hears only of what happens in an
open session, and of farewells. -/
theorem gatesCallbacks_run (h : start app memory dsuid config announcer port = .ready e)
    (inputs : List (Input σ)) : (e.run inputs).GatesCallbacks dsuid config.apiVersion := by
  obtain ⟨hgreeted, hdsuid, hversion⟩ := greeted_run h inputs
  have hbefore := throughout_iff.1 hgreeted.before
  rw [hdsuid, hversion] at hbefore
  have hprecedes {m : Message} (hhello : m.payload.kind ≠ .requestHello)
      (hbye : m.payload.kind ≠ .bye) (hreply : m.payload.kind ≠ .genericResponse) :
      SessionState.precedesSession m.payload.kind = false := by
    cases hkind : m.payload.kind <;> first | rfl | contradiction
  refine ⟨fun callback status past hsuffix hbye => ?_, fun dsuid status past hsuffix =>
      (hbefore _ past hsuffix).farewell dsuid status rfl,
    fun s s' payload m hstate hdecode hhello hbye hreply hid hs => ?_,
    fun s payload m hstate hdecode hhello hbye hreply hid => ?_⟩
  · have horder := hbefore _ past hsuffix
    have hseen := horder.state status rfl
    have hactive : ∃ peer, status.state = .active peer := by
      rcases callback.cases_session with rfl | ⟨dsuid, rfl⟩ | hsession
      · obtain ⟨peer, hpeer⟩ := horder.answer status rfl
        refine ⟨peer, SessionState.peer?_eq_some_iff.1 (hseen.trans ?_)⟩
        exact head?_greetings_of_answered hpeer
      · exact absurd rfl (hbye dsuid)
      · exact horder.session callback status rfl hsession
    obtain ⟨peer, hpeer⟩ := hactive
    exact ⟨peer, hpeer, hseen.symm.trans (SessionState.peer?_eq_some_iff.2 hpeer)⟩
  · rw [Session.handle_of_connected _ hstate hdecode (hprecedes hhello hbye hreply), if_neg hid]
    simp only [Session.reply, Session.send, Session.attempt, hs]
  · rw [Session.handle_of_connected _ hstate hdecode (hprecedes hhello hbye hreply), if_pos hid]

/-- A peer pings a device before it has introduced itself, and again afterwards. -/
theorem gatesCallbacks_run_pings :
    ∃ e : Endpoint Unit, start .default () "own" .default none 0 = .ready e ∧
      ∃ inputs, (e.run inputs).session.journal.filterMap Event.status? =
          [⟨"own", .active "P", true, 0⟩, ⟨"own", .active "P", true, 0⟩] ∧
        (e.run inputs).GatesCallbacks "own" Config.default.apiVersion := by
  have h : start .default () "own" .default none 0 =
      .ready ⟨.default, Session.new "own" .default () 0, none, false⟩ := rfl
  refine ⟨_, h, [.arrive (.fresh "peer"), .work,
    .deliver "peer" (frameOf ⟨1, .ping (some "D")⟩), .work,
    .deliver "peer" (frameOf ⟨2, .requestHello ⟨some "P", some 2⟩⟩), .work,
    .deliver "peer" (frameOf ⟨3, .ping (some "D")⟩), .work], by decide +kernel, ?_⟩
  exact gatesCallbacks_run h _

end Endpoint

end Vdc
