import Vdc.Session.Basic
import Vdc.Session.Directive

/-!
# What a journal says

The journal of a session has its last event first, so what came before an event is the rest of the
list. `Awaited` and `Due` read the course of one request off it: from its registration to now no
reply to it was taken up and its connection did not end; and a request is due when, after such a
course, something ended it and nothing but scripts has run since. `Session.Notes` says what an
operation adds to the journal.

A request is answered by the payload of a frame, if that decodes to a generic response with its id.
`Directive.ofPayload_eq_complete_iff` is the statement that an endpoint takes exactly those for
replies.
-/

namespace Vdc

/-- A payload is the reply to a request, with a code. -/
def RepliesTo (payload : List UInt8) (id : RequestId) (code : ResultCode) : Prop :=
  ∃ description, Message.decode payload = .ok ⟨id, .genericResponse code description⟩

/-- A payload is the reply to one request. -/
theorem RepliesTo.unique {payload : List UInt8} {id id' : RequestId} {code code' : ResultCode}
    (h : RepliesTo payload id code) (h' : RepliesTo payload id' code') :
    id = id' ∧ code = code' := by
  obtain ⟨description, hdecode⟩ := h
  obtain ⟨description', hdecode'⟩ := h'
  rw [hdecode, Except.ok.injEq, Message.mk.injEq, Payload.genericResponse.injEq] at hdecode'
  exact ⟨hdecode'.1, hdecode'.2.1⟩

theorem RepliesTo.ne_nil {payload : List UInt8} {id : RequestId} {code : ResultCode}
    (h : RepliesTo payload id code) : payload ≠ [] := by
  rintro rfl
  obtain ⟨description, hdecode⟩ := h
  have hmalformed : Message.decode [] = .error (.protocol .malformed) := rfl
  rw [hmalformed] at hdecode
  cases hdecode

/-- Only a generic response is handed to a request, and one without an id is not. -/
theorem Directive.ofMessage_eq_complete {own : String} {m : Message} {id : RequestId}
    {code : ResultCode} (h : ofMessage own m = .complete id code) :
    id ≠ reservedId ∧ ∃ description, m = ⟨id, .genericResponse code description⟩ := by
  have hrefusal (id' : RequestId) (code' : ResultCode) :
      refusal id' code' ≠ .complete id code := by
    unfold refusal
    split <;> simp
  obtain ⟨id', payload⟩ := m
  cases payload with
  | genericResponse code' description =>
    by_cases hid : id' = reservedId
    · simp [ofMessage, hid] at h
    · simp only [ofMessage, hid, if_false, complete.injEq] at h
      obtain ⟨rfl, rfl⟩ := h
      exact ⟨hid, description, rfl⟩
  | _ =>
    refine absurd h ?_
    simp only [ofMessage, ofScene, ofPropertyRequest, lacking]
    repeat' split
    all_goals first | contradiction | exact hrefusal _ _ | simp

/-- A payload is handed to a request exactly if there is a connection and the payload is a reply
that has an id. -/
theorem Directive.ofPayload_eq_complete_iff {own : String} {state : SessionState}
    {payload : List UInt8} {id : RequestId} {code : ResultCode} :
    ofPayload own state payload = .complete id code ↔
      state ≠ .disconnected ∧ id ≠ reservedId ∧ RepliesTo payload id code := by
  constructor
  · intro h
    unfold ofPayload at h
    split at h
    · cases h
    · cases hdecode : Message.decode payload with
      | error e =>
        simp only [hdecode, refusal] at h
        split at h <;> cases h
      | ok m =>
        simp only [hdecode] at h
        cases hadmission : state.admission m with
        | deliver =>
          simp only [hadmission] at h
          obtain ⟨hid, description, rfl⟩ := ofMessage_eq_complete h
          refine ⟨?_, hid, description, hdecode⟩
          rintro rfl
          cases hadmission
        | drop | reject => simp [hadmission] at h
  · rintro ⟨hstate, hid, hreply⟩
    have hempty : payload.isEmpty = false := by simpa using hreply.ne_nil
    obtain ⟨description, hdecode⟩ := hreply
    have hadmission : state.admission ⟨id, .genericResponse code description⟩ = .deliver := by
      cases state with
      | disconnected => exact absurd rfl hstate
      | connected | active => rfl
    simp [ofPayload, hempty, hdecode, hadmission, ofMessage, hid]

/-- The callback that is made at once when a directive is carried out. -/
def Directive.callback? : Directive → Option Callback
  | .deliver callback => some callback
  | .remove _ dsuid => some (.remove dsuid)
  | _ => none

variable {σ : Type}

namespace Event

/-- The request that was made. -/
def registered? : Event σ → Option RequestId
  | .registered id _ _ => some id
  | _ => none

/-- The id that an announcement used up, whether the request was made or not. -/
def announced? : Event σ → Option RequestId
  | .registered id _ _ => some id
  | .declined id _ => some id
  | _ => none

/-- The request whose completion was run. -/
def completed? : Event σ → Option RequestId
  | .completed id _ _ _ => some id
  | _ => none

/-- Events that scripts bring about. -/
def IsScripted : Event σ → Prop
  | .sent _ | .registered _ _ _ | .declined _ _ | .inspected _ | .completed _ _ _ _ => True
  | _ => False

/-- The answer to a handshake. No script sends it. -/
def IsGreeting : Event σ → Prop
  | .sent m => m.payload.kind = .responseHello
  | _ => False

/-- Events that the end of a connection brings about: it is closed, and completions run. -/
def IsParting : Event σ → Prop
  | .closed _ => True
  | event => event.IsScripted

theorem IsScripted.isParting {event : Event σ} (h : event.IsScripted) : event.IsParting := by
  cases event <;> trivial

/-- Events of work cycles, apart from the payloads that are taken up. -/
def IsRoutine : Event σ → Prop
  | .handled _ | .withdrawn => False
  | _ => True

theorem IsParting.isRoutine {event : Event σ} (h : event.IsParting) : event.IsRoutine := by
  cases event <;> trivial

/-- A request with an id is still waited for after an event: the connection is the same, and the
event is no reply. -/
def Spares (id : RequestId) : Event σ → Prop
  | .accepted _ | .closed _ => False
  | .handled payload => ∀ code, ¬ RepliesTo payload id code
  | _ => True

theorem IsScripted.spares {event : Event σ} (h : event.IsScripted) (id : RequestId) :
    event.Spares id := by
  cases event <;> trivial

end Event

/-- The connection that was held after some events. -/
def connectionOf : List (Event σ) → Option String
  | [] => none
  | .accepted link :: _ => some link
  | .closed _ :: _ => none
  | _ :: past => connectionOf past

theorem connectionOf_cons_of_spares {event : Event σ} {id : RequestId} (h : event.Spares id)
    (past : List (Event σ)) : connectionOf (event :: past) = connectionOf past := by
  cases event <;> first | rfl | exact h.elim

theorem connectionOf_append_of_spares {new : List (Event σ)} {id : RequestId}
    (h : ∀ event ∈ new, event.Spares id) (past : List (Event σ)) :
    connectionOf (new ++ past) = connectionOf past := by
  induction new with
  | nil => rfl
  | cons event rest ih =>
    rw [List.cons_append, connectionOf_cons_of_spares (h event List.mem_cons_self)]
    exact ih fun event hevent => h event (List.mem_cons_of_mem _ hevent)

/-- A request was made on a connection and has been waited for since. -/
def Awaited (request : PendingRequest (Outcome → Script σ)) (link : String)
    (journal : List (Event σ)) : Prop :=
  ∃ since before, journal = since ++
      .registered request.id request.created request.completion :: before ∧
    connectionOf before = some link ∧ ∀ event ∈ since, event.Spares request.id

namespace Awaited

variable {request : PendingRequest (Outcome → Script σ)} {link : String}
  {journal : List (Event σ)}

/-- A request that is waited for stays so while every event spares it. -/
theorem append (h : Awaited request link journal) {new : List (Event σ)}
    (hnew : ∀ event ∈ new, event.Spares request.id) : Awaited request link (new ++ journal) := by
  obtain ⟨since, before, rfl, hlink, hsince⟩ := h
  refine ⟨new ++ since, before, (List.append_assoc ..).symm, hlink, fun event hevent => ?_⟩
  exact (List.mem_append.1 hevent).elim (hnew event) (hsince event)

/-- The connection that a request was made on is held as long as the request is waited for. -/
theorem connectionOf_eq (h : Awaited request link journal) : connectionOf journal = some link := by
  obtain ⟨since, before, rfl, hlink, hsince⟩ := h
  rwa [connectionOf_append_of_spares hsince]

theorem registered_mem (h : Awaited request link journal) :
    Event.registered request.id request.created request.completion ∈ journal := by
  obtain ⟨since, before, rfl, -, -⟩ := h
  simp

end Awaited

/-- What ends a request that was made on a connection, and how: a reply with its id, a search at
which its age is strictly above the timeout, or the end of the connection. -/
def Ends (timeout : Nat) (request : PendingRequest (Outcome → Script σ)) (link : String) :
    Event σ → Outcome → Prop
  | .handled payload, .answered code => RepliesTo payload request.id code
  | .swept now, .timedOut => timeout < now - request.created
  | .closed name, .disconnected => name = link
  | _, _ => False

/-- A request was waited for until it ended, and only scripts have run since. -/
def Due (timeout : Nat) (request : PendingRequest (Outcome → Script σ)) (outcome : Outcome)
    (journal : List (Event σ)) : Prop :=
  ∃ later trigger earlier link, journal = later ++ trigger :: earlier ∧
    (∀ event ∈ later, event.IsScripted) ∧ Awaited request link earlier ∧
    Ends timeout request link trigger outcome

namespace Due

variable {timeout : Nat} {request : PendingRequest (Outcome → Script σ)} {outcome : Outcome}
  {journal : List (Event σ)}

/-- A request stays due while scripts run. -/
theorem append (h : Due timeout request outcome journal) {new : List (Event σ)}
    (hnew : ∀ event ∈ new, event.IsScripted) : Due timeout request outcome (new ++ journal) := by
  obtain ⟨later, trigger, earlier, link, rfl, hlater, hrest⟩ := h
  refine ⟨new ++ later, trigger, earlier, link, (List.append_assoc ..).symm, fun event hevent => ?_,
    hrest⟩
  exact (List.mem_append.1 hevent).elim (hnew event) (hlater event)

theorem registered_mem (h : Due timeout request outcome journal) :
    Event.registered request.id request.created request.completion ∈ journal := by
  obtain ⟨later, trigger, earlier, link, rfl, -, hawaited, -⟩ := h
  exact List.mem_append_right _ (List.mem_cons_of_mem _ hawaited.registered_mem)

/-- After a reply was taken up, and before anything but scripts has run, only the request it replies
to is due. -/
theorem eq_of_handled {between past : List (Event σ)} {payload : List UInt8}
    (h : Due timeout request outcome (between ++ .handled payload :: past))
    (hbetween : ∀ event ∈ between, event.IsScripted) :
    ∃ code, outcome = .answered code ∧ RepliesTo payload request.id code := by
  obtain ⟨later, trigger, earlier, link, hjournal, hlater, -, hends⟩ := h
  have htrigger : ¬ trigger.IsScripted := by
    intro hscripted
    cases trigger <;> first | exact hscripted | exact hends
  -- Both lists start with what scripts did, and go on with something that they did not.
  have hsame : trigger = .handled payload := by
    induction between generalizing later with
    | nil =>
      cases later with
      | nil => exact (List.cons.inj hjournal).1.symm
      | cons event rest =>
        obtain ⟨rfl, -⟩ := List.cons.inj hjournal
        exact (hlater _ List.mem_cons_self).elim
    | cons event rest ih =>
      cases later with
      | nil =>
        obtain ⟨rfl, -⟩ := List.cons.inj hjournal
        exact absurd (hbetween _ List.mem_cons_self) htrigger
      | cons event' rest' =>
        exact ih (fun event hevent => hbetween event (List.mem_cons_of_mem _ hevent)) rest'
          (List.cons.inj hjournal).2
          (fun event hevent => hlater event (List.mem_cons_of_mem _ hevent))
  subst hsame
  cases outcome with
  | answered code => exact ⟨code, rfl, hends⟩
  | timedOut | disconnected => exact hends.elim

end Due

/-! ## Events and what came before them -/

/-- Every event of a journal is as it should be after what came before it. -/
def Throughout (good : Event σ → List (Event σ) → Prop) : List (Event σ) → Prop
  | [] => True
  | event :: past => good event past ∧ Throughout good past

theorem throughout_iff {good : Event σ → List (Event σ) → Prop} {journal : List (Event σ)} :
    Throughout good journal ↔ ∀ event past, event :: past <:+ journal → good event past := by
  induction journal with
  | nil => simp [Throughout]
  | cons event past ih =>
    simp only [Throughout, ih, List.suffix_cons_iff]
    constructor
    · rintro ⟨hevent, hpast⟩ event' past' (heq | hsuffix)
      · obtain ⟨rfl, rfl⟩ := List.cons.inj heq
        exact hevent
      · exact hpast event' past' hsuffix
    · intro h
      exact ⟨h event past (.inl rfl), fun event' past' hsuffix => h event' past' (.inr hsuffix)⟩

theorem Throughout.of_suffix {good : Event σ → List (Event σ) → Prop}
    {past journal : List (Event σ)} (h : Throughout good journal) (hsuffix : past <:+ journal) :
    Throughout good past :=
  throughout_iff.2 fun event before hbefore => throughout_iff.1 h event before
    (hbefore.trans hsuffix)

theorem Throughout.append {good : Event σ → List (Event σ) → Prop} {new journal : List (Event σ)}
    (h : Throughout good journal) (hnew : ∀ event ∈ new, ∀ past, good event past) :
    Throughout good (new ++ journal) := by
  induction new with
  | nil => exact h
  | cons event rest ih =>
    exact ⟨hnew event List.mem_cons_self _,
      ih fun event hevent => hnew event (List.mem_cons_of_mem _ hevent)⟩

/-! ## What is added to a journal -/

namespace Session

variable {P Q : Event σ → Prop} {s s' s'' : Session σ}

/-- The journal gets new events only, all of one kind. -/
def Notes (P : Event σ → Prop) (s s' : Session σ) : Prop :=
  ∃ new, s'.journal = new ++ s.journal ∧ ∀ event ∈ new, P event

namespace Notes

theorem of_eq (h : s'.journal = s.journal) : Notes P s s' := ⟨[], h, by simp⟩

theorem single (event : Event σ) (hevent : P event) (h : s'.journal = event :: s.journal) :
    Notes P s s' := ⟨[event], h, by simpa using hevent⟩

theorem trans (h : Notes P s s') (h' : Notes P s' s'') : Notes P s s'' := by
  obtain ⟨new, hjournal, hnew⟩ := h
  obtain ⟨new', hjournal', hnew'⟩ := h'
  refine ⟨new' ++ new, by rw [hjournal', hjournal, List.append_assoc], fun event hevent => ?_⟩
  exact (List.mem_append.1 hevent).elim (hnew' event) (hnew event)

theorem mono (h : Notes P s s') (hPQ : ∀ event, P event → Q event) : Notes Q s s' := by
  obtain ⟨new, hjournal, hnew⟩ := h
  exact ⟨new, hjournal, fun event hevent => hPQ event (hnew event hevent)⟩

end Notes

/-- The last that happened is that a payload was taken up which asks for something. -/
def Asked (s : Session σ) (directive : Directive) : Prop :=
  ∃ payload past, s.journal = .handled payload :: past ∧
    Directive.ofPayload s.dsuid s.state payload = directive

end Session

end Vdc
