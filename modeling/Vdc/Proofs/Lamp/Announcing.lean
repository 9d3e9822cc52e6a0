import Vdc.Proofs.Dsuid
import Vdc.Proofs.Lamp.Answers
import Vdc.Proofs.Session.Requests

/-!
# When the lamp is announced

The lamp is announced by the completion of one request only, the announcement of its container, and
only if that was answered with `ERR_OK`. So every announcement of the lamp is made in a work cycle
that takes up such an answer, to a request that is pending still.

Two facts carry this. The requests that are registered are those for the container and for the lamp,
each right after its message and with its completion (`Lamp.Registers`); since pending requests are
waited for, this tells all about them from the journal. And one input does one of three things: it
announces nothing, the container, or the lamp after such an answer (`Lamp.Course`).
-/

namespace Vdc

namespace Lamp

open Session Endpoint

/-- What becomes of the announcement of a container when it ends. -/
def onContainer (own : String) (outcome : Outcome) : Script Lamp :=
  if outcome = .answered .ok then announceLamp own else .done

/-- What the lamp announces, and what is done when that has ended. -/
inductive Makes (own : String) : Subject → (Outcome → Script Lamp) → Prop
  | container : Makes own (.container own) (onContainer own)
  | device (dsuid : String) : Makes own (.device own dsuid) fun _ => .done

/-- A request is registered right after its message was sent, and is one that the lamp makes. -/
def IsMade (own : String) : Event Lamp → List (Event Lamp) → Prop
  | .registered id _ completion, past => ∃ subject before,
      past = .sent ⟨id, subject.payload⟩ :: before ∧ Makes own subject completion
  | _, _ => True

/-- All requests of a session are such as the lamp makes. -/
def Registers (own : String) (s : Session Lamp) : Prop := Throughout (IsMade own) s.journal

/-- The container was announced on a connection, and its request has been waited for since. -/
def Announced (own : String) (request : PendingRequest (Outcome → Script Lamp)) (link : String)
    (journal : List (Event Lamp)) : Prop :=
  ∃ since before, journal = since ++ .registered request.id request.created request.completion ::
      .sent ⟨request.id, .announceContainer own⟩ :: before ∧
    connectionOf before = some link ∧ ∀ event ∈ since, event.Spares request.id

variable {own dsuid : String} {subject : Subject} {completion : Outcome → Script Lamp}
  {outcome : Outcome} {s s' s'' : Session Lamp} {payload : List UInt8}

namespace Makes

/-- Without `ERR_OK` nothing is done. -/
theorem eq_done (h : Makes own subject completion) (houtcome : outcome ≠ .answered .ok) :
    completion outcome = .done := by
  cases h with
  | container => exact if_neg houtcome
  | device => rfl

/-- The completion for the container belongs to the container. -/
theorem eq_container (h : Makes own subject (onContainer own)) : subject = .container own := by
  generalize hcompletion : onContainer own = completion at h
  cases h with
  | container => rfl
  | device =>
    have hok := congrFun hcompletion (.answered .ok)
    rw [onContainer, if_pos rfl] at hok
    cases hok

theorem eq_onContainer (h : Makes own subject completion)
    (hsubject : subject.payload = .announceContainer own) : completion = onContainer own := by
  cases h with
  | container => rfl
  | device => cases hsubject

end Makes

namespace Registers

theorem of_notes (h : Registers own s) (hnotes : Notes Event.IsPlain s s') : Registers own s' := by
  obtain ⟨new, hjournal, hnew⟩ := hnotes
  unfold Registers
  rw [hjournal]
  refine h.append fun event hevent past => ?_
  cases event with
  | registered => cases (hnew _ hevent).1
  | _ => trivial

theorem announce (h : Registers own s) (hmakes : Makes own subject completion) :
    Registers own (s.announce subject completion).2 := by
  rcases s.announce_sends subject completion with ⟨-, hmute⟩ | ⟨-, event, hevent, hjournal⟩
  · exact h.of_notes hmute.isPlain
  · unfold Registers
    rw [hjournal]
    refine ⟨?_, trivial, h⟩
    rcases hevent with rfl | ⟨e, rfl⟩
    · exact ⟨subject, s.journal, rfl, hmakes⟩
    · trivial

end Registers

/-! ## One input -/

/-- What an operation comes to: the container is announced, or the lamp, or neither; and the lamp
only under a condition. -/
inductive Course (own : String) (condition : Prop) (s : Session Lamp) : Session Lamp → Prop
  | plain {s' : Session Lamp} (h : Notes Event.IsPlain s s') : Course own condition s s'
  | container {called : Session Lamp} (h : Notes Event.IsPlain s called) :
      Course own condition s (called.announce (.container own) (onContainer own)).2
  | lamp {called : Session Lamp} (dsuid : String) (h : Notes Event.IsPlain s called)
      (hcondition : condition) :
      Course own condition s (called.announce (.device own dsuid) fun _ => .done).2

namespace Course

variable {condition condition' : Prop}

theorem mono (h : Course own condition s s') (hcondition : condition → condition') :
    Course own condition' s s' := by
  cases h with
  | plain h => exact .plain h
  | container h => exact .container h
  | lamp dsuid h hlamp => exact .lamp dsuid h (hcondition hlamp)

theorem after (h : Course own condition s' s'') (hbefore : Notes Event.IsPlain s s') :
    Course own condition s s'' := by
  cases h with
  | plain h => exact .plain (hbefore.trans h)
  | container h => exact .container (hbefore.trans h)
  | lamp dsuid h hlamp => exact .lamp dsuid (hbefore.trans h) hlamp

theorem registers (h : Course own condition s s') (hs : Registers own s) : Registers own s' := by
  cases h with
  | plain h => exact hs.of_notes h
  | container h => exact (hs.of_notes h).announce .container
  | lamp dsuid h => exact (hs.of_notes h).announce (.device dsuid)

/-- A device is announced under the condition only. -/
theorem notes (h : Course own condition s s') :
    Notes (fun event => event.AnnouncesDevice → condition) s s' := by
  have hplain {s s' : Session Lamp} (h : Notes Event.IsPlain s s') :
      Notes (fun event => event.AnnouncesDevice → condition) s s' :=
    h.mono fun event hevent hdevice => absurd hdevice hevent.2
  have hannounce (called : Session Lamp) (subject : Subject) (completion : Outcome → Script Lamp)
      (hdevice : subject.payload.kind = .announceDevice → condition) :
      Notes (fun event => event.AnnouncesDevice → condition) called
        (called.announce subject completion).2 := by
    rcases called.announce_sends subject completion with ⟨-, hmute⟩ | ⟨-, event, hevent, hjournal⟩
    · exact hplain hmute.isPlain
    · refine ⟨[event, .sent ⟨called.nextId, subject.payload⟩], hjournal, ?_⟩
      refine List.forall_mem_cons.2 ⟨fun hevent' => ?_, List.forall_mem_singleton.2 hdevice⟩
      rcases hevent with rfl | ⟨e, rfl⟩
      · exact hevent'.elim
      · exact hevent'.elim
  cases h with
  | plain h => exact hplain h
  | container h => exact (hplain h).trans (hannounce _ _ _ nofun)
  | lamp dsuid h hlamp => exact (hplain h).trans (hannounce _ _ _ fun _ => hlamp)

end Course

/-- When it is called back for anything but a handshake, the lamp announces nothing. -/
theorem requestsNothing_react {callback : Callback} (h : callback ≠ .hello) :
    (application.react callback).RequestsNothing := by
  cases callback with
  | hello => exact absurd rfl h
  | ping target =>
    intro lamp
    dsimp only
    split
    · exact fun _ => trivial
    · trivial
  | callScene dsuids scene =>
    simp only [application, react]
    split <;> trivial
  | setChannelValue =>
    simp only [application, react]
    split <;> trivial
  | getProperty target query response =>
    intro lamp status
    dsimp only
    repeat' split
    all_goals exact fun _ => trivial
  | setProperty target values response =>
    intro lamp
    dsimp only
    split <;> exact fun _ => trivial
  | _ => trivial

theorem course_call {condition : Prop} (s : Session Lamp) (hown : s.dsuid = own)
    (callback : Callback) : Course own condition s (s.call application callback) := by
  subst hown
  by_cases hhello : callback = .hello
  · subst hhello
    have hcalled : Notes Event.IsPlain s
        ((s.note (.called .hello s.status)).note (.inspected s.status)) :=
      ⟨[.inspected s.status, .called .hello s.status], rfl, by
        simp [Event.IsPlain, Event.registered?, Event.AnnouncesDevice]⟩
    exact .container hcalled
  · exact .plain (plain_call (requestsNothing_react hhello) s)

/-- A payload accepts a container whose announcement is pending. -/
def Accepts (own : String) (s : Session Lamp) (payload : List UInt8)
    (request : PendingRequest (Outcome → Script Lamp)) : Prop :=
  request ∈ s.pending.entries ∧ request.completion = onContainer own ∧
    RepliesTo payload request.id .ok

/-- The pending requests are such as the lamp makes. -/
def Awaits (own : String) (s : Session Lamp) : Prop :=
  ∀ request ∈ s.pending.entries, ∃ subject, Makes own subject request.completion

theorem Awaits.endsQuietly (h : Awaits own s) : s.EndsQuietly := by
  intro request hrequest expiry
  obtain ⟨subject, hmakes⟩ := h request hrequest
  exact hmakes.eq_done (by cases expiry <;> nofun)

/-- The answer to a request for the container announces the lamp. -/
theorem complete_of_accepts {request : PendingRequest (Outcome → Script Lamp)}
    {pending : RequestCache (Outcome → Script Lamp)} {id : RequestId}
    (htake : s.pending.take id = (some request, pending))
    (hcompletion : request.completion = onContainer own) :
    s.complete id .ok = ((begun { s with pending := pending } request (.answered .ok)).announce
      (.device own s.memory.dsuid) fun _ => .done).2 := by
  rw [complete_of_take htake, hcompletion]
  rfl

theorem handle_of_accepts {request : PendingRequest (Outcome → Script Lamp)}
    {pending : RequestCache (Outcome → Script Lamp)}
    (hdirective : Directive.ofPayload s.dsuid s.state payload = .complete request.id .ok)
    (htake : s.pending.take request.id = (some request, pending))
    (hcompletion : request.completion = onContainer own) :
    s.handle application payload =
      ((begun { s.note (.handled payload) with pending := pending } request
        (.answered .ok)).announce (.device own s.memory.dsuid) fun _ => .done).2 := by
  rw [handle, hdirective]
  exact complete_of_accepts (s := s.note (.handled payload)) htake hcompletion

/-- What taking up a payload comes to. -/
theorem course_handle (hawaits : Awaits own s) (hown : s.dsuid = own) (payload : List UInt8) :
    Course own (∃ request, Accepts own s payload request) s (s.handle application payload) := by
  have htaken : Notes Event.IsPlain s (s.note (.handled payload)) :=
    .single (.handled payload) ⟨rfl, id⟩ rfl
  refine Course.after ?_ htaken
  unfold handle
  cases hd : Directive.ofPayload s.dsuid s.state payload with
  | ignore => exact .plain (.of_eq rfl)
  | refuse id code => exact .plain (plain_send _ _)
  | greet id hello =>
    simp only [obey, greet]
    split
    · exact .plain (.of_eq rfl)
    · next peer _ =>
      split
      · exact .plain (.of_eq rfl)
      · next sent hsent =>
        have hsent' : Notes Event.IsPlain (s.note (.handled payload)) sent :=
          plain_transmit hsent (by simp [Payload.kind])
        have hopened : Notes Event.IsPlain (s.note (.handled payload))
            { sent with state := .active peer } := hsent'
        have hdsuid : sent.dsuid = s.dsuid := congrArg Prod.fst (settings_of_transmit hsent)
        refine Course.after ?_ hopened
        exact course_call { sent with state := .active peer } (hdsuid.trans hown) .hello
  | part dsuid =>
    have hquiet : (s.note (.handled payload)).EndsQuietly := hawaits.endsQuietly
    have hended := hquiet.mute_disconnect.isPlain
    exact .plain (hended.trans (plain_call (requestsNothing_react (by simp)) _))
  | pong dsuid => exact .plain (plain_send _ _)
  | remove id dsuid =>
    have hcalled : Notes Event.IsPlain (s.note (.handled payload))
        ((s.note (.handled payload)).call application (.remove dsuid)) :=
      plain_call (requestsNothing_react (by simp)) _
    simp only [obey, remove]
    split
    · exact .plain hcalled
    · exact .plain (hcalled.trans (plain_send _ _))
  | complete id code =>
    obtain ⟨-, -, hreply⟩ := Directive.ofPayload_eq_complete_iff.1 hd
    rw [obey]
    rcases htake : (s.note (.handled payload)).pending.take id with ⟨_ | request, pending⟩
    · rw [complete, htake]
      exact .plain (.of_eq rfl)
    · obtain ⟨rfl, before, after, hentries, -⟩ :=
        RequestCache.take_eq_some (congrArg Prod.fst htake)
      have hrequest : request ∈ s.pending.entries := by
        have hmem : request ∈ (s.note (.handled payload)).pending.entries := by
          rw [hentries]
          exact List.mem_append_right _ List.mem_cons_self
        exact hmem
      have hbegun (outcome : Outcome) : Notes Event.IsPlain (s.note (.handled payload))
          (begun { s.note (.handled payload) with pending := pending } request outcome) :=
        .single (.completed request.id outcome request.completion _) ⟨rfl, id⟩ rfl
      obtain ⟨subject, hmakes⟩ := hawaits request hrequest
      by_cases haccepts : code = .ok ∧ request.completion = onContainer own
      · obtain ⟨rfl, hcompletion⟩ := haccepts
        rw [complete_of_accepts htake hcompletion]
        exact .lamp _ (hbegun _) ⟨request, hrequest, hcompletion, hreply⟩
      · have hdone : request.completion (.answered code) = .done := by
          generalize request.completion = completion at hmakes haccepts
          cases hmakes with
          | container => exact if_neg fun hok => haccepts ⟨Outcome.answered.inj hok, rfl⟩
          | device => rfl
        rw [complete_of_take htake, hdone]
        exact .plain (hbegun _)
  | deliver callback => exact course_call (s.note (.handled payload)) hown callback

/-- A work cycle takes up the acceptance of a container: `ERR_OK` stands at the front of what is
unread on the held connection, and answers an announcement of the container that was sent on this
connection and is pending. -/
structure TakesAcceptance (own : String) (e : Endpoint Lamp) (meanwhile : List Happening)
    (link : Link) (request : PendingRequest (Outcome → Script Lamp)) : Prop where
  held : (e.polled meanwhile).transport.held = some link
  framed : ∃ payload consumed, RepliesTo payload request.id .ok ∧
    Frame.parse (e.polled meanwhile).transport.frameLimit link.unread = .complete payload consumed
  pending : request ∈ (e.polled meanwhile).pending.entries
  announced : Announced own request link.name (e.polled meanwhile).journal

/-- The session of a lamp is in order: its requests are kept as those of any session are, and all
were made for the container named `own` or for the lamp in it. -/
structure Orderly (own : String) (s : Session Lamp) : Prop where
  kept : (Moment.mk s []).Kept Config.default.responseTimeout
  dsuid_eq : s.dsuid = own
  registers : Registers own s

section

variable {request : PendingRequest (Outcome → Script Lamp)} {link : Link}

namespace Orderly

theorem of_moves (h : Orderly own s) (hmoves : Moves ⟨s, []⟩ ⟨s', []⟩)
    (hregisters : Registers own s') : Orderly own s' where
  kept := hmoves.preserve (fun hmove h => h.move hmove) h.kept
  dsuid_eq := (congrArg Prod.fst hmoves.settings_eq).trans h.dsuid_eq
  registers := hregisters

/-- The journal tells of a pending request for which message it was made and on which connection. -/
theorem made_of_pending (h : Orderly own s) (hrequest : request ∈ s.pending.entries) :
    ∃ subject since before, Makes own subject request.completion ∧
      s.journal = since ++ .registered request.id request.created request.completion ::
        .sent ⟨request.id, subject.payload⟩ :: before ∧
      connectionOf before = s.transport.held.map Link.name ∧
      ∀ event ∈ since, event.Spares request.id := by
  obtain ⟨name, hawaited⟩ := h.kept.founded.pending request hrequest
  have hname : s.transport.held.map Link.name = some name :=
    h.kept.tracked.symm.trans hawaited.connectionOf_eq
  obtain ⟨since, past, hjournal, hlink, hsince⟩ := hawaited
  obtain ⟨subject, before, rfl, hmakes⟩ :=
    throughout_iff.1 h.registers _ past ⟨since, hjournal.symm⟩
  exact ⟨subject, since, before, hmakes, hjournal, hlink.trans hname.symm, hsince⟩

theorem awaits (h : Orderly own s) : Awaits own s := by
  intro request hrequest
  obtain ⟨subject, -, -, hmakes, -⟩ := h.made_of_pending hrequest
  exact ⟨subject, hmakes⟩

/-- A pending request with the completion for the container was made for it on the held
connection. -/
theorem announced_of_pending (h : Orderly own s) (hheld : s.transport.held = some link)
    (hrequest : request ∈ s.pending.entries) (hcompletion : request.completion = onContainer own) :
    Announced own request link.name s.journal := by
  obtain ⟨subject, since, before, hmakes, hjournal, hlink, hsince⟩ := h.made_of_pending hrequest
  rw [hcompletion] at hmakes
  obtain rfl := hmakes.eq_container
  rw [hheld] at hlink
  exact ⟨since, before, hjournal, hlink, hsince⟩

/-- A request that was made for the container has the completion for it. -/
theorem completion_eq (h : Orderly own s) {name : String}
    (hannounced : Announced own request name s.journal) :
    request.completion = onContainer own := by
  obtain ⟨since, before, hjournal, -, -⟩ := hannounced
  obtain ⟨subject, before', hsent, hmakes⟩ :=
    throughout_iff.1 h.registers _ _ ⟨since, hjournal.symm⟩
  have hpayload : Payload.announceContainer own = subject.payload :=
    congrArg Message.payload (Event.sent.inj (List.cons.inj hsent).1)
  exact hmakes.eq_onContainer hpayload.symm

/-- A pending request is the one that is taken out under its id. -/
theorem take_of_pending (h : Orderly own s) (hrequest : request ∈ s.pending.entries) :
    request.id ≠ reservedId ∧ ∃ pending, s.pending.take request.id = (some request, pending) := by
  have hid : request.id ∈ s.pending.ids := List.mem_map.2 ⟨request, hrequest, rfl⟩
  obtain ⟨before, found, after, hentries, hfound, -, htake⟩ := RequestCache.take_of_mem hid
  have hmem : found ∈ s.pending.entries := by
    rw [hentries]
    exact List.mem_append_right _ List.mem_cons_self
  obtain rfl := List.inj_on_of_nodup_map h.kept.sound.nodup hmem hrequest hfound
  exact ⟨fun hreserved => h.kept.sound.unreserved (hreserved ▸ hid), _, htake⟩

end Orderly

/-! ## Work cycles and other inputs -/

variable {e : Endpoint Lamp} {meanwhile : List Happening}

theorem Orderly.polled (h : Orderly own e.session) (meanwhile : List Happening) :
    Orderly own (e.polled meanwhile) := by
  have hplain := (polled_of_endsQuietly h.awaits.endsQuietly meanwhile).1.isPlain
  exact h.of_moves ((moves_sweep _).trans (moves_meanwhile meanwhile _))
    (h.registers.of_notes hplain)

/-- What reading from the held connection comes to. -/
theorem course_receive (hawaits : Awaits own s) (hown : s.dsuid = own) :
    Course own (∃ link payload consumed request, s.transport.held = some link ∧
        Frame.parse s.transport.frameLimit link.unread = .complete payload consumed ∧
        Accepts own s payload request) s (receive application s) := by
  unfold receive
  split
  · next payload transport hread =>
    obtain ⟨link, consumed, hheld, hparse, -⟩ := Transport.readFrame_eq_frame hread
    have hhandled := course_handle (s := { s with transport := transport }) hawaits hown payload
    have hbefore : Notes Event.IsPlain s { s with transport := transport } := .of_eq rfl
    refine (hhandled.mono ?_).after hbefore
    rintro ⟨request, haccepts⟩
    exact ⟨link, payload, consumed, request, hheld, hparse, haccepts⟩
  · exact .plain hawaits.endsQuietly.mute_disconnect.isPlain
  · exact .plain (.of_eq rfl)

theorem course_work (happ : e.application = application) (hopen : e.isClosed = false)
    (h : Orderly own e.session) (meanwhile : List Happening) :
    Course own (∃ link request, TakesAcceptance own e meanwhile link request) e.session
      (e.step (.work meanwhile)).2.session := by
  have hpolled := h.polled meanwhile
  refine Course.after ?_ (polled_of_endsQuietly h.awaits.endsQuietly meanwhile).1.isPlain
  cases hheld : (e.polled meanwhile).transport.held with
  | none =>
    -- There is nothing to read from, so a connection is accepted at most.
    have hready : ¬ (e.polled meanwhile).transport.poll.readable = true := by
      rw [Transport.poll, hheld, Option.any_none]
      exact Bool.false_ne_true
    rw [session_work hopen, workSession]
    rw [← polled, if_neg hready]
    split
    · exact .plain (mute_acceptIncoming _).isPlain
    · exact .plain (.of_eq rfl)
  | some link =>
    obtain ⟨waiting, past, new, crowded, hnew, hcrowded, hwork⟩ :=
      session_work_of_held hopen hheld
    have hbefore : Notes Event.IsPlain (e.polled meanwhile) crowded := by
      refine ⟨new, by rw [hcrowded], ?_⟩
      rcases hnew with rfl | ⟨name, rfl⟩
      · exact List.forall_mem_nil _
      · exact List.forall_mem_singleton.2 ⟨rfl, id⟩
    have hpending : crowded.pending = (e.polled meanwhile).pending := by rw [hcrowded]
    have htransport : crowded.transport.held = some link ∧
        crowded.transport.frameLimit = (e.polled meanwhile).transport.frameLimit := by
      rw [hcrowded]
      exact ⟨hheld, rfl⟩
    have hawaits : Awaits own crowded := by
      rw [Awaits, hpending]
      exact hpolled.awaits
    have hown : crowded.dsuid = own := by
      rw [hcrowded]
      exact hpolled.dsuid_eq
    rw [hwork, happ]
    split
    · refine ((course_receive hawaits hown).mono ?_).after hbefore
      rintro ⟨link', payload, consumed, request, hlink, hparse, hrequest, hcompletion, hreply⟩
      obtain rfl := Option.some.inj (htransport.1.symm.trans hlink)
      rw [htransport.2] at hparse
      rw [hpending] at hrequest
      exact ⟨link, request, hheld, ⟨payload, consumed, hreply, hparse⟩, hrequest,
        hpolled.announced_of_pending hheld hrequest hcompletion⟩
    · exact .plain hbefore

/-- Without a script of somebody else, the lamp is announced only in a work cycle that takes up the
acceptance of the container. -/
theorem course_step (happ : e.application = application) (h : Orderly own e.session)
    {input : Input Lamp} (hscript : ∀ script, input ≠ .perform script) :
    Course own (∃ meanwhile link request, input = .work meanwhile ∧
      TakesAcceptance own e meanwhile link request) e.session (e.step input).2.session := by
  cases input with
  | work meanwhile =>
    cases hopen : e.isClosed with
    | true =>
      refine .plain (.of_eq ?_)
      simp only [step, work, hopen, if_true]
    | false =>
      refine (course_work happ hopen h meanwhile).mono ?_
      rintro ⟨link, request, htakes⟩
      exact ⟨meanwhile, link, request, rfl, htakes⟩
  | perform script => exact absurd rfl (hscript script)
  | close =>
    simp only [step, close]
    split
    · exact .plain (.of_eq rfl)
    · have hended := h.awaits.endsQuietly.mute_disconnect.isPlain
      exact .plain (hended.trans (.single .withdrawn ⟨rfl, id⟩ rfl))
  | happen happening => exact .plain (.of_eq rfl)

theorem orderly_inputs (happ : e.application = application) (h : Orderly own e.session)
    {inputs : List (Input Lamp)} (hscripts : ∀ script, .perform script ∉ inputs) :
    Orderly own (e.run inputs).session := by
  induction inputs generalizing e with
  | nil => exact h
  | cons input rest ih =>
    have hcourse := course_step happ h fun script hscript =>
      hscripts script (hscript ▸ List.mem_cons_self)
    exact ih ((e.application_step input).trans happ)
      (h.of_moves (moves_step e input) (hcourse.registers h.registers))
      fun script hscript => hscripts script (List.mem_cons_of_mem _ hscript)

/-- Whatever happens to the endpoint of a lamp, its session is in order. -/
theorem orderly_run {name : String} {port : UInt16} {inputs : List (Input Lamp)}
    (hstart : start own dsuid name port = .ready e)
    (hscripts : ∀ script, .perform script ∉ inputs) : Orderly own (e.run inputs).session := by
  refine orderly_inputs (application_of_start hstart) ?_ hscripts
  rw [(of_start hstart).1]
  exact ⟨Moment.kept_new .., rfl, trivial⟩

/-- A work cycle that takes up the acceptance of the container tries once to announce the lamp, and
sends nothing else. -/
theorem session_work_of_takes (happ : e.application = application) (hopen : e.isClosed = false)
    (h : Orderly own e.session) (htakes : TakesAcceptance own e meanwhile link request) :
    ∃ called consumed, Sends [] e.session called ∧
      called.transport.held = some { link with unread := link.unread.drop consumed } ∧
      (e.step (.work meanwhile)).2.session =
        (called.announce (.device own e.session.memory.dsuid) fun _ => .done).2 := by
  obtain ⟨-, hmemory, hsends⟩ := polled_of_endsQuietly h.awaits.endsQuietly meanwhile
  have hpolled := h.polled meanwhile
  obtain ⟨payload, consumed, hreply, hparse⟩ := htakes.framed
  obtain ⟨s, transport, journal, rfl, hlink, hbefore, hwork⟩ :=
    session_work_of_complete hopen htakes.held hparse
  obtain ⟨hid, pending, htake⟩ := hpolled.take_of_pending htakes.pending
  have hdirective : Directive.ofPayload (e.polled meanwhile).dsuid (e.polled meanwhile).state
      payload = .complete request.id .ok :=
    Directive.ofPayload_eq_complete_iff.2
      ⟨hpolled.kept.coherent.state_ne_of_held htakes.held, hid, hreply⟩
  rw [hwork, happ, handle_of_accepts (s := { e.polled meanwhile with
    transport := transport, journal := journal }) hdirective htake
      (hpolled.completion_eq htakes.announced), ← hmemory]
  refine ⟨_, consumed, ?_, hlink, rfl⟩
  exact (hsends.trans hbefore).trans (.none rfl rfl ⟨[_, _], rfl, rfl⟩)

end

/-! ## The announcement fits into a frame -/

theorem length_quote_of_isSpelling {text : String} (h : Dsuid.IsSpelling text) :
    (Json.quote text).length = 36 := by
  have hplain : Hex.digits.all fun c => decide (String.utf8EncodeChar c = [c.toNat.toUInt8] ∧
      Json.escape c.toNat.toUInt8 = [c.toNat.toUInt8]) := by
    decide +kernel
  rw [Json.length_quote_of_plain fun c hc =>
    ⟨_, of_decide_eq_true (List.all_eq_true.1 hplain c (h.2 c hc))⟩, h.1]

/-- The announcement of a lamp that is named by a dSUID is short, if its container is too. -/
theorem length_announceDevice_le (hown : Dsuid.IsSpelling own) (hdsuid : Dsuid.IsSpelling dsuid)
    (id : RequestId) :
    (Message.mk id (.announceDevice dsuid own)).toJson.render.length ≤ 200 := by
  have htext (text : String) : (Json.text text).render = Json.quote text := rfl
  have hkeys : (Json.quote "dsuid").length = 7 ∧ (Json.quote "vdc_dsuid").length = 11 := by decide
  have hpayload : (Payload.announceDevice dsuid own).toJson.render.length = 95 := by
    have hrecord : (Payload.announceDevice dsuid own).toJson =
        Json.record [("dsuid", some (.text dsuid)), ("vdc_dsuid", some (.text own))] := rfl
    rw [hrecord, Json.length_render_record ⟨_, List.mem_cons_self, rfl⟩]
    simp only [List.map_cons, List.map_nil, List.sum_cons, List.sum_nil, Json.fieldLength,
      Option.elim_some, htext, length_quote_of_isSpelling hown, length_quote_of_isSpelling hdsuid,
      hkeys]
    rfl
  have hkind : (Json.quote MessageKind.announceDevice.name).length = 26 := by decide
  have hmessage := Message.length_render_le ⟨id, .announceDevice dsuid own⟩
  simp only [hpayload, Payload.kind, hkind] at hmessage
  omega

/-- The container and the lamp are named by dSUIDs. -/
def Identity.IsSpelled (identity : Identity) : Prop :=
  Dsuid.IsSpelling identity.container ∧ Dsuid.IsSpelling identity.lamp

theorem Settings.isSpelled_defaultIdentity : defaultIdentity.IsSpelled :=
  ⟨Dsuid.exists_parse_iff.1 ⟨_, rfl⟩, Dsuid.exists_parse_iff.1 ⟨_, rfl⟩⟩

/-- Whatever the settings ask for, the container and the lamp are named by dSUIDs. -/
theorem Settings.isSpelled_of_identity {settings : Settings} {random identity : Identity}
    (hrandom : random.IsSpelled) (h : settings.identity random = .ok identity) :
    identity.IsSpelled := by
  cases hsettings : settings.dsuid with
  | some text =>
    cases hparse : Dsuid.parse text with
    | error e =>
      simp only [Settings.identity, hsettings, hparse] at h
      cases h
    | ok normal =>
      obtain ⟨bytes, -, hsize, rfl⟩ := Dsuid.parse_eq_ok_iff.1 hparse
      obtain ⟨front, last, hfront, rfl⟩ := Dsuid.exists_append_singleton hsize
      rw [Dsuid.identity_of_parse random hsettings hparse (Dsuid.sibling_ofBytes front last)] at h
      cases h
      exact ⟨Dsuid.exists_parse_iff.1 ⟨_, Dsuid.parse_ofBytes_append hfront _⟩,
        Dsuid.exists_parse_iff.1 ⟨_, Dsuid.parse_ofBytes_append hfront _⟩⟩
  | none =>
    rw [Settings.identity, hsettings] at h
    obtain rfl := Except.ok.inj h
    split
    · exact hrandom
    · exact isSpelled_defaultIdentity

/-! ## Runs -/

/-- How an endpoint announces the lamp named `dsuid` in the container `own`. -/
structure AnnouncesAccepted (own dsuid : String) (e : Endpoint Lamp) : Prop where
  /-- Every announcement of a device is made in a work cycle that takes up the acceptance of the
  container. It is the lamp that is announced, and the cycle sends nothing else. -/
  caused : ∀ input, (∀ script, input ≠ .perform script) →
    ∃ new, (e.step input).2.session.journal = new ++ e.session.journal ∧
      ∀ m, .sent m ∈ new → m.payload.kind = .announceDevice →
        m.payload = .announceDevice dsuid own ∧ ∃ meanwhile link request,
          input = .work meanwhile ∧ TakesAcceptance own e meanwhile link request ∧
          Sends [m] e.session (e.step input).2.session
  /-- On a connection that takes bytes each acceptance has the lamp announced once. -/
  once : ∀ meanwhile link request, TakesAcceptance own e meanwhile link request →
    link.writable = true → ∃ id,
      Sends [⟨id, .announceDevice dsuid own⟩] e.session (e.step (.work meanwhile)).2.session
  /-- A request that ends in another way, because it is refused or too old or its connection is
  gone, has nothing announced: that it ended is noted down, and nothing else happens. -/
  spent : ∀ request ∈ e.session.pending.entries, ∀ outcome, outcome ≠ .answered .ok →
    ∀ s : Session Lamp, s.finish request outcome = s.begun request outcome

/-- Whatever happens to the endpoint of the lamp, the lamp is announced once for each time that its
container is accepted, and not otherwise. -/
theorem announcesAccepted_run {settings : Settings} {random identity : Identity} {port : UInt16}
    {e : Endpoint Lamp} {inputs : List (Input Lamp)} (hrandom : random.IsSpelled)
    (hidentity : settings.identity random = .ok identity)
    (h : settings.openOn identity port = .ok e) (hscripts : ∀ script, .perform script ∉ inputs) :
    AnnouncesAccepted identity.container identity.lamp (e.run inputs) := by
  obtain ⟨hown, hlamp⟩ := Settings.isSpelled_of_identity hrandom hidentity
  obtain ⟨own, dsuid⟩ := identity
  dsimp only at hown hlamp ⊢
  have hstart : start own dsuid settings.name port = .ready e := by
    unfold Settings.openOn at h
    split at h <;> cases h
    assumption
  have happ := (application_run e inputs).trans (application_of_start hstart)
  have horderly := orderly_run hstart hscripts
  have hlimit : (e.run inputs).session.transport.frameLimit = Config.default.frameLimit := by
    have hsettings := (moves_inputs e inputs).settings_eq
    rw [(of_start hstart).1] at hsettings
    exact congrArg (·.2.2.1) hsettings
  have hannounces {meanwhile : List Happening} {link : Link}
      {request : PendingRequest (Outcome → Script Lamp)}
      (htakes : TakesAcceptance own (e.run inputs) meanwhile link request) :
      ∃ called consumed, Sends [] (e.run inputs).session called ∧
        called.transport.held = some { link with unread := link.unread.drop consumed } ∧
        ((e.run inputs).step (.work meanwhile)).2.session =
          (called.announce (.device own dsuid) fun _ => .done).2 := by
    have hopen := isClosed_of_held
      (unheld_of_isClosed (e := e) inputs (by simp [(of_start hstart).2])) htakes.held
    have hwork := session_work_of_takes happ hopen horderly htakes
    rwa [(fits_run hstart hscripts).1] at hwork
  refine ⟨fun input hscript => ?_, fun meanwhile link request htakes hwritable => ?_,
    fun request hrequest outcome houtcome s => ?_⟩
  · obtain ⟨new, hjournal, hdevices⟩ := (course_step happ horderly hscript).notes
    refine ⟨new, hjournal, fun m hm hkind => ?_⟩
    obtain ⟨meanwhile, link, request, rfl, htakes⟩ := hdevices _ hm hkind
    obtain ⟨called, -, hbefore, -, hwork⟩ := hannounces htakes
    -- The announcement that was sent can only be the one that this cycle tries to send.
    rcases called.announce_sends (.device own dsuid) (fun _ => .done) with
      ⟨hsends, -⟩ | ⟨hsends, -⟩
    · rw [← hwork] at hsends
      cases (hbefore.trans hsends).mem_of_sent hjournal hm
    · rw [← hwork] at hsends
      obtain rfl := List.mem_singleton.1 ((hbefore.trans hsends).mem_of_sent hjournal hm)
      exact ⟨rfl, meanwhile, link, request, rfl, htakes, hbefore.trans hsends⟩
  · obtain ⟨called, consumed, hbefore, hheld, hwork⟩ := hannounces htakes
    have hcalled := hbefore.frameLimit_eq.trans hlimit
    have hlength := length_announceDevice_le hown hlamp called.nextId
    have htaken : called.transport.Takes ⟨called.nextId, (Subject.device own dsuid).payload⟩ := by
      refine Transport.takes_of_writable hheld hwritable ?_ nofun ?_
      · rw [hcalled]
        decide
      · rw [hcalled]
        exact Nat.le_trans hlength (by decide)
    rw [hwork]
    exact ⟨called.nextId, hbefore.trans (.of_announce htaken fun _ => .done)⟩
  · obtain ⟨subject, hmakes⟩ := horderly.awaits request hrequest
    exact finish_of_done (hmakes.eq_done houtcome) s

/-- A peer introduces itself and accepts the container. -/
theorem announcesAccepted_run_accepted :
    ∃ e, Settings.openOn ⟨none, false, none, productName⟩ Settings.defaultIdentity 49500 = .ok e ∧
      ∃ inputs, (∀ script, .perform script ∉ inputs) ∧
        (e.run inputs).session.journal.filterMap Event.message? =
          [⟨2, .announceDevice "198C033E330755E78015F97AD093DD1C01"
              "198C033E330755E78015F97AD093DD1C00"⟩,
            ⟨1, .announceContainer "198C033E330755E78015F97AD093DD1C00"⟩,
            ⟨1, .responseHello "198C033E330755E78015F97AD093DD1C00"⟩] ∧
        AnnouncesAccepted "198C033E330755E78015F97AD093DD1C00"
          "198C033E330755E78015F97AD093DD1C01" (e.run inputs) := by
  have hidentity : Settings.identity ⟨none, false, none, productName⟩ Settings.defaultIdentity =
      .ok Settings.defaultIdentity := rfl
  refine ⟨_, rfl, greeting ++ [.deliver "peer" (frameOf (.genericResponse 1 .ok)), .work], ?_,
    by decide +kernel, ?_⟩
  · simp [greeting]
  · exact announcesAccepted_run Settings.isSpelled_defaultIdentity hidentity rfl
      (by simp [greeting])

end Lamp

end Vdc
