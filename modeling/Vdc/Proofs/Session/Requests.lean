import Vdc.Proofs.Session.Keeping
import Vdc.Proofs.Session.Newcomers
import Vdc.Proofs.Session.Sending

/-!
# What registers requests and announces devices

Only an announcement registers a request, and only the announcement of a device announces one.
Whatever else a session does is plain: it may send messages and call the application, but none of
its events is of either kind. An announcement itself sends one message or none, and if it registers
a request, it does so right after the message.

A completion may be nothing at all. Where those are that are run, a search for requests that are too
old changes only which requests are pending, and the end of a connection sends nothing.
-/

namespace Vdc

variable {σ : Type}

namespace Event

/-- A device was announced. -/
def AnnouncesDevice : Event σ → Prop
  | .sent m => m.payload.kind = .announceDevice
  | _ => False

/-- No request was registered, and no device was announced. -/
def IsPlain (event : Event σ) : Prop := event.registered? = none ∧ ¬ event.AnnouncesDevice

/-- No request was registered, and nothing was sent. -/
def IsMute (event : Event σ) : Prop := event.registered? = none ∧ event.message? = none

theorem IsMute.isPlain {event : Event σ} (h : event.IsMute) : event.IsPlain := by
  cases event with
  | sent m => cases h.2
  | _ => exact ⟨h.1, id⟩

end Event

/-- No send of an application announces a device. -/
theorem Outgoing.kind_ne_announceDevice {what : Outgoing} {m : Message}
    (h : what.message? = some m) : m.payload.kind ≠ .announceDevice := by
  cases what with
  | rows given =>
    obtain ⟨tree, -, rfl⟩ := Option.map_eq_some_iff.1 h
    nofun
  | _ =>
    obtain rfl := Option.some.inj h
    nofun

/-- The held connection takes what is not too long, if it takes bytes. -/
theorem Transport.takes_of_writable {t : Transport} {m : Message} {link : Link}
    (hheld : t.held = some link) (hwritable : link.writable = true)
    (hlimit : t.frameLimit ≤ Frame.maxLength) (hfinite : ∀ d ∈ m.doubles, d.isFinite = true)
    (hlength : m.toJson.render.length ≤ t.frameLimit) : t.Takes m := by
  obtain ⟨frame, hframe⟩ : ∃ frame, Frame.serialize t.frameLimit m.toJson.render = .ok frame :=
    ⟨_, if_neg (by omega)⟩
  have hwrite : t.writeFrame m.toJson.render =
      .ok { t with held := some { link with written := link.written ++ frame } } := by
    simp only [writeFrame, hheld, hframe, Link.write, hwritable, bind, Except.bind, if_true]
    rfl
  exact ⟨_, _, Message.encode_eq_ok hfinite, hwrite⟩

namespace Session

variable {s s' : Session σ}

/-! ## What is plain -/

theorem Notes.isPlain (h : Notes Event.IsMute s s') : Notes Event.IsPlain s s' :=
  h.mono fun _ hevent => hevent.isPlain

theorem plain_transmit {m : Message} (h : s.transmit m = .ok s')
    (hkind : m.payload.kind ≠ .announceDevice) : Notes Event.IsPlain s s' := by
  obtain ⟨payload, transport, -, -, rfl⟩ := transmit_eq_ok h
  exact .single (.sent m) ⟨rfl, hkind⟩ rfl

theorem plain_send (s : Session σ) (what : Outgoing) : Notes Event.IsPlain s (s.send what).2 := by
  rcases s.send_result what with ⟨m, sent, hmessage, hm, hsend⟩ | ⟨e, hsend⟩ |
    ⟨rows, e, sent, -, -, -, hm, hsend⟩
  · rw [hsend]
    exact plain_transmit hm (Outgoing.kind_ne_announceDevice hmessage)
  · rw [hsend]
    exact .of_eq rfl
  · rw [hsend]
    exact plain_transmit hm nofun

theorem plain_run {script : Script σ} (h : script.RequestsNothing) (s : Session σ) :
    Notes Event.IsPlain s (run script s) := by
  induction script generalizing s with
  | done => exact .of_eq rfl
  | remember change next ih => exact ih h { s with memory := change s.memory }
  | «recall» next ih => exact ih _ (h _) s
  | meanwhile happening next ih => exact ih h (s.happen happening)
  | inspect next ih =>
    have hinspected : Notes Event.IsPlain s (s.note (.inspected s.status)) :=
      .single (.inspected s.status) ⟨rfl, id⟩ rfl
    exact hinspected.trans (ih _ (h _) _)
  | send what next ih => exact (plain_send s what).trans (ih _ (h _) _)
  | announce => exact h.elim

theorem plain_call {app : Application σ} {callback : Callback}
    (h : (app.react callback).RequestsNothing) (s : Session σ) :
    Notes Event.IsPlain s (s.call app callback) := by
  have hcalled : Notes Event.IsPlain s (s.note (.called callback s.status)) :=
    .single (.called callback s.status) ⟨rfl, id⟩ rfl
  exact hcalled.trans (plain_run h _)

theorem mute_acceptIncoming (s : Session σ) : Notes Event.IsMute s s.acceptIncoming := by
  unfold acceptIncoming
  split
  · exact .of_eq rfl
  · split
    · exact .single (.accepted _) ⟨rfl, rfl⟩ rfl
    · exact .single (.rejected _) ⟨rfl, rfl⟩ rfl
    · exact .of_eq rfl

/-! ## Completions that do nothing -/

/-- A session does nothing when a request of its ends without an answer. -/
def EndsQuietly (s : Session σ) : Prop :=
  ∀ request ∈ s.pending.entries, ∀ expiry, request.completion (outcomeOf expiry) = .done

theorem finish_of_done {request : PendingRequest (Outcome → Script σ)} {outcome : Outcome}
    (h : request.completion outcome = .done) (s : Session σ) :
    s.finish request outcome = s.begun request outcome := by
  rw [finish, h]
  rfl

/-- If the completions do nothing, it is only noted down that the requests ended. -/
theorem abandon_of_done {requests : List (PendingRequest (Outcome → Script σ) × Expiry)}
    (h : ∀ request ∈ requests, request.1.completion (outcomeOf request.2) = .done)
    (s : Session σ) : ∃ ended, (∀ event ∈ ended, event.IsMute) ∧
      s.abandon requests = { s with journal := ended ++ s.journal } := by
  induction requests generalizing s with
  | nil => exact ⟨[], List.forall_mem_nil _, rfl⟩
  | cons request rest ih =>
    obtain ⟨hfirst, hrest⟩ := List.forall_mem_cons.1 h
    obtain ⟨ended, hended, habandoned⟩ := ih hrest (s.begun request.1 (outcomeOf request.2))
    refine ⟨ended ++ [.completed request.1.id (outcomeOf request.2) request.1.completion s.status],
      ?_, ?_⟩
    · refine List.forall_mem_append.2 ⟨hended, List.forall_mem_singleton.2 ⟨rfl, rfl⟩⟩
    · rw [List.append_assoc]
      exact (congrArg (abandon · rest) (finish_of_done hfirst s)).trans habandoned

/-- A search for requests that are too old changes which are pending, and nothing else. -/
theorem EndsQuietly.sweep_eq (h : s.EndsQuietly) :
    ∃ pending ended, (∀ event ∈ ended, event.IsMute) ∧
      s.sweep = { s with pending := pending, journal := ended ++ s.journal } := by
  have hmem := (s.pending.mem_of_sweep s.clock s.transport.isConnected).1
  obtain ⟨ended, hended, habandoned⟩ := abandon_of_done
    (fun request hrequest => h request.1 (hmem request hrequest) request.2)
    { s.note (.swept s.clock) with pending := (s.pending.sweep s.clock s.transport.isConnected).2 }
  refine ⟨(s.pending.sweep s.clock s.transport.isConnected).2, ended ++ [.swept s.clock], ?_, ?_⟩
  · exact List.forall_mem_append.2 ⟨hended, List.forall_mem_singleton.2 ⟨rfl, rfl⟩⟩
  · rw [List.append_assoc]
    exact habandoned

/-- The end of a connection sends nothing, and registers nothing. -/
theorem EndsQuietly.mute_disconnect (h : s.EndsQuietly) :
    Notes Event.IsMute s s.disconnect.2 := by
  have hreset : Notes Event.IsMute s s.resetTransport ∧
      s.resetTransport.pending = s.pending := by
    unfold resetTransport
    split
    · exact ⟨.single (.closed _) ⟨rfl, rfl⟩ rfl, rfl⟩
    · exact ⟨.of_eq rfl, rfl⟩
  have hflushed : ∀ request ∈ s.resetTransport.pending.flush.1,
      request.1.completion (outcomeOf request.2) = .done := by
    intro request hrequest
    rw [hreset.2] at hrequest
    obtain ⟨pending, hpending, rfl⟩ := List.mem_map.1 hrequest
    exact h pending hpending .disconnected
  obtain ⟨ended, hended, habandoned⟩ := abandon_of_done hflushed
    { s.resetTransport with state := .disconnected, pending := s.resetTransport.pending.flush.2 }
  exact hreset.1.trans ⟨ended, congrArg Session.journal habandoned, hended⟩

/-! ## Announcements -/

/-- An announcement that is sent writes its message, and then it is noted down whether the request
was registered. -/
theorem announce_of_transmit {subject : Subject} {sent : Session σ}
    (h : { s with lastId := s.nextId }.transmit ⟨s.nextId, subject.payload⟩ = .ok sent)
    (completion : Outcome → Script σ) :
    Sends [⟨s.nextId, subject.payload⟩] s (s.announce subject completion).2 ∧
      ∃ event, (event = .registered s.nextId s.clock completion ∨
          ∃ e, event = .declined s.nextId e) ∧
        (s.announce subject completion).2.journal =
          event :: .sent ⟨s.nextId, subject.payload⟩ :: s.journal := by
  have hsends : Sends [⟨s.nextId, subject.payload⟩] { s with lastId := s.nextId } sent :=
    .of_transmit h
  have hsent : Sends [⟨s.nextId, subject.payload⟩] s sent :=
    ⟨hsends.frameLimit_eq, hsends.noted, hsends.output⟩
  obtain ⟨payload, transport, -, -, rfl⟩ := transmit_eq_ok h
  simp only [announce, h]
  split
  · next e _ => exact ⟨hsent.trans (.note _ (.declined s.nextId e) rfl), _, .inr ⟨e, rfl⟩, rfl⟩
  · next pending _ =>
    refine ⟨hsent.trans (.none rfl rfl ⟨[.registered s.nextId s.clock completion], rfl, rfl⟩), _,
      .inl rfl, rfl⟩

/-- An announcement sends its message, or nothing is sent and nothing registered. -/
theorem announce_sends (s : Session σ) (subject : Subject) (completion : Outcome → Script σ) :
    (Sends [] s (s.announce subject completion).2 ∧
      Notes Event.IsMute s (s.announce subject completion).2) ∨
    (Sends [⟨s.nextId, subject.payload⟩] s (s.announce subject completion).2 ∧
      ∃ event, (event = .registered s.nextId s.clock completion ∨
          ∃ e, event = .declined s.nextId e) ∧
        (s.announce subject completion).2.journal =
          event :: .sent ⟨s.nextId, subject.payload⟩ :: s.journal) := by
  cases ht : { s with lastId := s.nextId }.transmit ⟨s.nextId, subject.payload⟩ with
  | error e =>
    simp only [announce, ht]
    exact .inl ⟨.none rfl rfl ⟨[.declined s.nextId e], rfl, rfl⟩,
      .single (.declined s.nextId e) ⟨rfl, rfl⟩ rfl⟩
  | ok sent => exact .inr (announce_of_transmit ht completion)

/-- An announcement is sent if the held connection takes its frame. -/
theorem Sends.of_announce {subject : Subject} (h : s.transport.Takes ⟨s.nextId, subject.payload⟩)
    (completion : Outcome → Script σ) :
    Sends [⟨s.nextId, subject.payload⟩] s (s.announce subject completion).2 := by
  obtain ⟨sent, hsent⟩ := exists_transmit (s := { s with lastId := s.nextId }) h
  exact (announce_of_transmit hsent completion).1

/-! ## Between two inputs -/

namespace Sends

variable {messages : List Message}

/-- What was noted down as sent is among what was sent. -/
theorem mem_of_sent (h : Sends messages s s') {new : List (Event σ)}
    (hjournal : s'.journal = new ++ s.journal) {m : Message} (hm : .sent m ∈ new) :
    m ∈ messages := by
  obtain ⟨new', hjournal', hmessages⟩ := h.noted
  obtain rfl : new = new' := List.append_cancel_right (hjournal.symm.trans hjournal')
  have hmem : m ∈ new.filterMap Event.message? := List.mem_filterMap.2 ⟨_, hm, rfl⟩
  rwa [hmessages, List.mem_reverse] at hmem

theorem of_meanwhile (meanwhile : List Happening) (s : Session σ) :
    Sends [] s (meanwhile.foldl Session.happen s) := by
  induction meanwhile generalizing s with
  | nil => exact .refl s
  | cons happening rest ih =>
    have hsilent : (Script.meanwhile happening (.done : Script σ)).IsSilent := trivial
    exact (of_run hsilent s).trans (ih _)

end Sends

/-- What happens without the endpoint's doing changes the transport and the clock. -/
theorem foldl_happen_eq (meanwhile : List Happening) (s : Session σ) : ∃ transport clock,
    meanwhile.foldl Session.happen s = { s with transport := transport, clock := clock } := by
  induction meanwhile generalizing s with
  | nil => exact ⟨s.transport, s.clock, rfl⟩
  | cons happening rest ih =>
    obtain ⟨transport, clock, hrest⟩ := ih (s.happen happening)
    exact ⟨transport, clock, hrest⟩

end Session

namespace Endpoint

open Session

/-- When a work cycle looks what is ready, nothing was sent in it so far, if the requests that it
gave up end quietly. -/
theorem polled_of_endsQuietly {e : Endpoint σ} (h : e.session.EndsQuietly)
    (meanwhile : List Happening) :
    Notes Event.IsMute e.session (e.polled meanwhile) ∧
      (e.polled meanwhile).memory = e.session.memory ∧
      Sends [] e.session (e.polled meanwhile) := by
  obtain ⟨pending, ended, hended, hsweep⟩ := h.sweep_eq
  have hswept : Sends [] e.session e.session.sweep := by
    rw [hsweep]
    exact .none rfl rfl ⟨ended, rfl, List.filterMap_eq_nil_iff.2 fun event hevent =>
      (hended event hevent).2⟩
  refine ⟨?_, ?_, hswept.trans (.of_meanwhile meanwhile _)⟩
  · obtain ⟨transport, clock, hpolled⟩ := foldl_happen_eq meanwhile e.session.sweep
    rw [polled, hpolled, hsweep]
    exact ⟨ended, rfl, hended⟩
  · obtain ⟨transport, clock, hpolled⟩ := foldl_happen_eq meanwhile e.session.sweep
    rw [polled, hpolled, hsweep]

end Endpoint

end Vdc
