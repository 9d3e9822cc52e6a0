import Vdc.Proofs.Session.Ledger

/-!
# The connections of a run

The journal of a session tells which connection is held. `Event.InPlace` says what this means for
what was noted down: a connection is accepted only when none is held and turned away only when one
is, only the held one is closed, read and written, and whoever looked saw whether there was one.
-/

namespace Vdc

variable {σ : Type}

/-- An event agrees with the connection that was held, or was not, when it happened. -/
def Event.InPlace : Event σ → List (Event σ) → Prop
  | .accepted _, past => connectionOf past = none
  | .closed link, past => connectionOf past = some link
  | .rejected _, past | .handled _, past | .sent _, past => ∃ link, connectionOf past = some link
  | .completed _ _ _ status, past | .called _ status, past | .inspected status, past =>
    status.connected = (connectionOf past).isSome
  | _, _ => True

/-- What was seen at an event is whether a connection was held. -/
theorem Event.InPlace.connected_eq {event : Event σ} {past : List (Event σ)}
    (h : event.InPlace past) {status : Status} (hseen : event.status? = some status) :
    status.connected = (connectionOf past).isSome := by
  cases event with
  | completed | called | inspected =>
    obtain rfl := Option.some.inj hseen
    exact h
  | _ => cases hseen

namespace Session

variable {s s' : Session σ}

theorem Tracked.connected_eq (h : s.Tracked) :
    s.status.connected = (connectionOf s.journal).isSome := by
  rw [h, Option.isSome_map]
  rfl

theorem Tracked.of_held (h : s.Tracked) {link : Link} (hheld : s.transport.held = some link) :
    connectionOf s.journal = some link.name := by
  rw [h, hheld, Option.map_some]

/-- Every event agrees with the connection that was held. -/
def InPlace (s : Session σ) : Prop := Throughout Event.InPlace s.journal

namespace InPlace

theorem transmit (h : s.InPlace) (htracked : s.Tracked) {m : Message}
    (hs : s.transmit m = .ok s') : s'.InPlace := by
  obtain ⟨_, _, -, hwrite, rfl⟩ := transmit_eq_ok hs
  obtain ⟨_, link, -, hheld, -, -⟩ := Transport.writeFrame_eq_ok hwrite
  exact ⟨⟨_, htracked.of_held hheld⟩, h⟩

theorem act (h : s.InPlace) (htracked : s.Tracked) (hact : Act s s') : s'.InPlace := by
  cases hact with
  | remember | happen => exact h
  | inspect => exact ⟨htracked.connected_eq, h⟩
  | send what =>
    rcases s.send_cases what with hs | ⟨m, -, hs⟩
    · rw [hs]
      exact h
    · exact h.transmit htracked hs
  | announce subject completion =>
    rcases s.announce_cases subject completion with ⟨e, hs⟩ | ⟨s', ht, hs⟩
    · rw [hs]
      exact ⟨trivial, h⟩
    · have hsent : s'.InPlace := transmit (s := { s with lastId := s.nextId }) h htracked ht
      rcases hs with ⟨e, -, hs⟩ | ⟨pending, -, hs⟩ <;> rw [hs] <;> exact ⟨trivial, hsent⟩

theorem move {m m' : Moment σ} (h : m.session.InPlace) (htracked : m.session.Tracked)
    (hmove : Move m m') : m'.session.InPlace := by
  cases hmove with
  | act owed hact => exact h.act htracked hact
  | finish | call | farewell => exact ⟨htracked.connected_eq, h⟩
  | sweep | withdraw => exact ⟨trivial, h⟩
  | reject s newcomer closed waiting hwaiting hheld =>
    obtain ⟨link, hlink⟩ := Option.ne_none_iff_exists'.1 hheld
    exact ⟨⟨link.name, htracked.of_held hlink⟩, h⟩
  | accept s newcomer waiting hwaiting hnone =>
    have hfree : connectionOf s.journal = none := by rw [htracked, hnone, Option.map_none]
    exact ⟨hfree, h⟩
  | turnAway => exact h
  | take s payload transport hread =>
    obtain ⟨link, -, hheld, -, -⟩ := Transport.readFrame_eq_frame hread
    exact ⟨⟨link.name, htracked.of_held hheld⟩, h⟩
  | answer s payload transport id code request hread hdirective htake =>
    obtain ⟨link, -, hheld, -, -⟩ := Transport.readFrame_eq_frame hread
    have htaken : (s.taken payload transport).Tracked := htracked.taken hread
    exact ⟨htaken.connected_eq, ⟨link.name, htracked.of_held hheld⟩, h⟩
  | @greet s s' id hello peer hasked hcheck hs =>
    have hsent : s'.Tracked := htracked.transmit hs
    have hplaced : s'.InPlace := h.transmit htracked hs
    exact ⟨hsent.connected_eq, hplaced⟩
  | hangUp s =>
    cases hheld : s.transport.held with
    | none => simpa only [resetTransport, hheld, InPlace] using h
    | some link =>
      simp only [resetTransport, hheld, InPlace]
      exact ⟨htracked.of_held hheld, h⟩

end InPlace

end Session

namespace Endpoint

open Session

variable {app : Application σ} {memory : σ} {dsuid : String} {config : Config}
  {announcer : Option Announcer} {port : UInt16} {e : Endpoint σ}

/-- At every moment of a run the connection is the one that the journal tells. -/
theorem inPlace_run (h : start app memory dsuid config announcer port = .ready e)
    (inputs : List (Input σ)) :
    (e.run inputs).session.Coherent ∧ (e.run inputs).session.Tracked ∧
      (e.run inputs).session.InPlace := by
  refine (moves_inputs e inputs).preserve
    (P := fun m => m.session.Coherent ∧ m.session.Tracked ∧ m.session.InPlace)
    (fun hmove h => ⟨h.1.move hmove, h.2.1.move hmove, h.2.2.move h.2.1 hmove⟩) ?_
  rw [(of_start h).1]
  exact ⟨Session.coherent_new dsuid config memory 0, rfl, trivial⟩

end Endpoint

end Vdc
