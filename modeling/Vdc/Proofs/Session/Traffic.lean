import Vdc.Proofs.Session.Handshake

/-!
# Traffic

What passes over the connections of a session depends on its transport and shows in its journal.
`Lines` are these two, and `Traffic` is what can happen to them, one thing at a time: connections
are accepted, turned away and closed, frames are read and written, and whatever else is noted down
leaves the connections alone. `Move.traffic` derives the traffic from the moves once; what holds of
the connections is then proved for each kind of traffic.

An endpoint answers a handshake only when it took up an introduction right before, so traffic knows
the endpoint's name and version.
-/

namespace Vdc

open Session

variable {σ : Type}

/-- Events that are about a connection. -/
def Event.IsTraffic : Event σ → Prop
  | .accepted _ | .rejected _ | .handled _ | .sent _ | .closed _ => True
  | _ => False

/-- The connections of a session and what was noted down. -/
structure Lines (σ : Type) where
  transport : Transport
  journal : List (Event σ)

/-- The lines of a session. -/
def Session.lines (s : Session σ) : Lines σ := ⟨s.transport, s.journal⟩

/-- One thing that happens to the lines of an endpoint. -/
inductive Traffic (own : String) (version : UInt32) : Lines σ → Lines σ → Prop
  | note (l : Lines σ) (event : Event σ) (h : ¬ event.IsTraffic) :
      Traffic own version l { l with journal := event :: l.journal }
  | happen (l : Lines σ) (happening : Happening) :
      Traffic own version l { l with transport := l.transport.happen happening }
  | send (l : Lines σ) (m : Message) (payload : List UInt8) (transport : Transport)
      (hencode : m.encode = .ok payload) (hwrite : l.transport.writeFrame payload = .ok transport)
      (hgreeting : m.payload.kind = .responseHello →
        ∃ peer, answered? own version (.sent m :: l.journal) = some peer) :
      Traffic own version l ⟨transport, .sent m :: l.journal⟩
  | accept (l : Lines σ) (newcomer : Link) (waiting : List Link)
      (hwaiting : l.transport.waiting = newcomer :: waiting) (hfree : l.transport.held = none)
      (hlistening : l.transport.listening = true) :
      Traffic own version l
        ⟨{ l.transport with waiting := waiting, held := some newcomer },
          .accepted newcomer.name :: l.journal⟩
  | turnAway (l : Lines σ) (newcomer closed : Link) (waiting : List Link) (reject : List UInt8)
      (result : Except Error Link) (hwaiting : l.transport.waiting = newcomer :: waiting)
      (hheld : l.transport.held ≠ none) (hreject : rejection = .ok reject)
      (h : l.transport.turnAway reject newcomer = (result, closed)) :
      Traffic own version l
        ⟨{ l.transport with waiting := waiting, past := closed :: l.transport.past },
          (result.toOption.map fun _ => .rejected newcomer.name).toList ++ l.journal⟩
  | take (l : Lines σ) (payload : List UInt8) (transport : Transport)
      (hread : l.transport.readFrame = (.frame payload, transport)) :
      Traffic own version l ⟨transport, .handled payload :: l.journal⟩
  | hangUp (l : Lines σ) (link : Link) (hheld : l.transport.held = some link) :
      Traffic own version l
        ⟨{ l.transport with held := none, past := link.shutDown :: l.transport.past },
          .closed link.name :: l.journal⟩
  | close (l : Lines σ) (hfree : l.transport.held = none) :
      Traffic own version l { l with transport := { l.transport with
        listening := false
        waiting := []
        past := l.transport.waiting.map Link.shutDown ++ l.transport.past } }

/-- Some traffic, one thing after the other. -/
abbrev Traffics (own : String) (version : UInt32) : Lines σ → Lines σ → Prop :=
  Relation.ReflTransGen (Traffic own version)

/-- What all traffic preserves is preserved by the traffic of a run. -/
theorem Traffics.preserve {own : String} {version : UInt32} {P : Lines σ → Prop}
    (hstep : ∀ {l l'}, Traffic own version l l' → P l → P l') {l l' : Lines σ}
    (h : Traffics own version l l') (hl : P l) : P l' := by
  induction h with
  | refl => exact hl
  | tail _ hlast ih => exact hstep hlast ih

namespace Session

variable {own : String} {version : UInt32}

theorem traffics_transmit {s s' : Session σ} {m : Message} (hs : s.transmit m = .ok s')
    (hgreeting : m.payload.kind = .responseHello →
      ∃ peer, answered? own version (.sent m :: s.journal) = some peer) :
    Traffics own version s.lines s'.lines := by
  obtain ⟨payload, transport, hencode, hwrite, rfl⟩ := transmit_eq_ok hs
  exact .single (.send s.lines m payload transport hencode hwrite hgreeting)

theorem Act.traffics {s s' : Session σ} (hact : Act s s') :
    Traffics own version s.lines s'.lines := by
  have hsent {s s' : Session σ} {m : Message} (hkind : m.payload.kind ≠ .responseHello)
      (hs : s.transmit m = .ok s') : Traffics own version s.lines s'.lines :=
    traffics_transmit hs fun h => absurd h hkind
  cases hact with
  | remember => exact .refl
  | happen happening => exact .single (.happen s.lines happening)
  | inspect => exact .single (.note s.lines (.inspected s.status) id)
  | send what =>
    rcases s.send_cases what with hs | ⟨m, hkind, hs⟩
    · rw [hs]
    · exact hsent hkind hs
  | announce subject completion =>
    rcases s.announce_cases subject completion with ⟨e, hs⟩ | ⟨s', ht, hs⟩
    · rw [hs]
      exact .single (.note s.lines (.declined s.nextId e) id)
    · have hkind : subject.payload.kind ≠ .responseHello := by cases subject <;> nofun
      have hannounced : Traffics own version s.lines s'.lines :=
        hsent (s := { s with lastId := s.nextId }) hkind ht
      rcases hs with ⟨e, -, hs⟩ | ⟨pending, -, hs⟩ <;> rw [hs]
      · exact hannounced.tail (.note s'.lines (.declined s.nextId e) id)
      · exact hannounced.tail (.note s'.lines (.registered s.nextId s'.clock completion) id)

/-- Every move of a session is traffic on its lines, or leaves them as they are. -/
theorem Move.traffics {m m' : Moment σ} (hmove : Move m m') :
    Traffics m.session.dsuid m.session.apiVersion m.session.lines m'.session.lines := by
  cases hmove with
  | act owed hact => exact hact.traffics
  | finish s request expiry owed => exact .single (.note s.lines (.completed _ _ _ s.status) id)
  | sweep s => exact .single (.note s.lines (.swept s.clock) id)
  | @call s directive callback => exact .single (.note s.lines (.called callback s.status) id)
  | @farewell before s dsuid => exact .single (.note s.lines (.called (.bye _) s.status) id)
  | accept s newcomer waiting hwaiting hfree hlistening =>
    exact .single (.accept s.lines newcomer waiting hwaiting hfree hlistening)
  | turnAway s newcomer closed waiting hwaiting hheld reject error hreject h =>
    exact .single (.turnAway s.lines newcomer closed waiting reject (.error error) hwaiting hheld
      hreject h)
  | reject s newcomer closed waiting hwaiting hheld reject link hreject h =>
    exact .single (.turnAway s.lines newcomer closed waiting reject (.ok link) hwaiting hheld
      hreject h)
  | take s payload transport hread => exact .single (.take s.lines payload transport hread)
  | answer s payload transport id code request hread =>
    have htaken : Traffics s.dsuid s.apiVersion s.lines
        ⟨transport, .handled payload :: s.journal⟩ :=
      .single (.take s.lines payload transport hread)
    exact htaken.tail (.note _ (.completed _ _ _ _) (fun h => h))
  | @greet s s' id hello peer hasked hcheck hs =>
    obtain ⟨payload, past, hjournal, hdirective⟩ := hasked
    obtain ⟨m, hdecode, -, hm⟩ := Directive.of_ofPayload hdirective nofun nofun
    obtain rfl := Directive.ofMessage_eq_greet hm
    have hanswered : answered? s.dsuid s.apiVersion
        (.sent ⟨id, .responseHello s.dsuid⟩ :: s.journal) = some peer := by
      rw [hjournal]
      exact answered?_of_checkHello hdecode hcheck s.dsuid past
    have hsent := traffics_transmit hs fun _ => ⟨peer, hanswered⟩
    exact hsent.tail (.note s'.lines (.called .hello _) fun h => h)
  | hangUp s =>
    cases hheld : s.transport.held with
    | none =>
      simp only [resetTransport, hheld]
      exact .refl
    | some link =>
      simp only [resetTransport, Transport.reset, hheld]
      exact .single (.hangUp s.lines link hheld)
  | withdraw s hfree =>
    have hreset : s.transport.reset = s.transport := by simp only [Transport.reset, hfree]
    simp only [Transport.close, hreset]
    exact (Relation.ReflTransGen.single (.close s.lines hfree)).tail (.note _ .withdrawn id)

/-- Moves are traffic, at an endpoint whose name and version stay what they are. -/
theorem Moves.traffics {m m' : Moment σ} (h : Moves m m') (hdsuid : m.session.dsuid = own)
    (hversion : m.session.apiVersion = version) :
    Traffics own version m.session.lines m'.session.lines := by
  induction h with
  | refl => exact .refl
  | @tail before after hbefore hlast ih =>
    have hsettings := Moves.settings_eq hbefore
    simp only [settings, Prod.mk.injEq] at hsettings
    have hmore := hlast.traffics
    rw [hsettings.1, hsettings.2.1, hdsuid, hversion] at hmore
    exact ih.trans hmore

end Session

/-- Whatever an endpoint does after its start is traffic on lines without connections. -/
theorem Endpoint.traffics_of_moves {app : Application σ} {memory : σ} {dsuid : String}
    {config : Config} {announcer : Option Announcer} {port : UInt16} {e : Endpoint σ}
    (h : start app memory dsuid config announcer port = .ready e) {m : Moment σ}
    (hmoves : Moves ⟨e.session, []⟩ m) :
    Traffics dsuid config.apiVersion ⟨.listen config.frameLimit config.ioTimeout, []⟩
      m.session.lines := by
  have hsession := (of_start h).1
  have htraffic : Traffics dsuid config.apiVersion e.session.lines m.session.lines :=
    hmoves.traffics (by rw [hsession]; rfl) (by rw [hsession]; rfl)
  rwa [hsession] at htraffic

end Vdc
