import Vdc.Proofs.Session.Keeping
import Vdc.Proofs.Session.Sending

/-!
# The order in which a connection ends

A connection ends with a farewell, with a frame that cannot be read, or because its endpoint is
closed. In all three cases the connection, the state and the pending requests are given up first.
Then the completions of the requests run in the order of registration, and whatever they attempt to
send fails. Only after that, and only for a farewell, the application is called back
(`endsInOrder_of_parting`).

Nothing a script does brings back a connection, so an ended session stays one. `Session.Rests` is
what is left to scripts then, and everything about completions is told from it.
-/

namespace Vdc

variable {σ : Type}

/-- What can be seen of a session that has ended. -/
def Status.ended (own : String) : Status := ⟨own, .disconnected, false, 0⟩

/-- Events of scripts that nobody hears: a request is not made, or the ended session is looked
at. -/
def Event.IsUnheard (own : String) : Event σ → Prop
  | .declined _ _ => True
  | .inspected status => status = .ended own
  | _ => False

/-- Whatever a script attempts to send or announce from a session on fails. Of a failed send nothing
remains, and of a failed announcement only that its id is used up. -/
def Script.Fails : Script σ → Session σ → Prop
  | .done, _ => True
  | .remember change next, s => next.Fails { s with memory := change s.memory }
  | .recall next, s => (next s.memory).Fails s
  | .meanwhile happening next, s => next.Fails (s.happen happening)
  | .inspect next, s => (next s.status).Fails (s.note (.inspected s.status))
  | .send what next, s =>
    ∃ e, s.send what = (.error e, s) ∧ (next (.error e)).Fails s
  | .announce subject completion next, s =>
    ∃ e s', s' = { s with lastId := s.nextId }.note (.declined s.nextId e) ∧
      s.announce subject completion = (.error e, s') ∧ (next (.error e)).Fails s'

/-- The course of the completions of some requests that end with their connection, the last event
first. Each begins with the ended session in view, and nothing is heard of it before the next. -/
inductive EndingCourse (own : String) :
    List (PendingRequest (Outcome → Script σ)) → List (Event σ) → Prop
  | nil : EndingCourse own [] []
  | cons {request : PendingRequest (Outcome → Script σ)}
      {rest : List (PendingRequest (Outcome → Script σ))} {talk later : List (Event σ)}
      (htalk : ∀ event ∈ talk, event.IsUnheard own) (hlater : EndingCourse own rest later) :
      EndingCourse own (request :: rest)
        (later ++ (talk ++
          [.completed request.id .disconnected request.completion (.ended own)]))

namespace Session

variable {s s' s'' : Session σ}

/-! ## Scripts without a connection -/

/-- Without a connection every send fails, and nothing happens. -/
theorem send_of_unheld (hs : s.transport.held = none) (what : Outgoing) :
    ∃ e, s.send what = (.error e, s) := by
  rcases s.send_result what with ⟨m, s', -, h, -⟩ | h | ⟨_, _, s', -, -, -, h, -⟩
  · exact absurd h (transmit_ne_ok_of_unheld hs m)
  · exact h
  · exact absurd h (transmit_ne_ok_of_unheld hs _)

/-- Without a connection no request is made, but its id is used up. -/
theorem announce_of_unheld (hs : s.transport.held = none) (subject : Subject)
    (completion : Outcome → Script σ) :
    ∃ e, s.announce subject completion =
      (.error e, { s with lastId := s.nextId }.note (.declined s.nextId e)) := by
  rcases s.announce_cases subject completion with h | ⟨s', h, -⟩
  · exact h
  · exact absurd h (transmit_ne_ok_of_unheld (s := { s with lastId := s.nextId }) hs _)

/-- Without a connection everything fails that a script attempts. -/
theorem fails_of_unheld (script : Script σ) (hs : s.transport.held = none) : script.Fails s := by
  induction script generalizing s with
  | done => trivial
  | remember change next ih => exact ih hs
  | «recall» next ih => exact ih _ hs
  | meanwhile happening next ih => exact ih ((Act.happen s happening).of_unheld hs).1
  | inspect next ih => exact ih _ hs
  | send what next ih =>
    obtain ⟨e, h⟩ := send_of_unheld hs what
    exact ⟨e, h, ih _ hs⟩
  | announce subject completion next _ ih =>
    obtain ⟨e, h⟩ := announce_of_unheld hs subject completion
    exact ⟨e, _, rfl, h, ih _ hs⟩

/-- No connection is held, no session is open and no request is pending. -/
structure Ended (s : Session σ) : Prop where
  held : s.transport.held = none
  state : s.state = .disconnected
  pending : s.pending.entries = []

theorem Ended.status_eq (h : s.Ended) : s.status = .ended s.dsuid := by
  simp only [status, Status.ended, Transport.isConnected, RequestCache.size, h.held, h.state,
    h.pending, Option.isSome_none, List.length_nil]

theorem Ended.reset_eq (h : s.Ended) : s.transport.reset = s.transport := by
  simp only [Transport.reset, h.held]

/-- A session that has ended stays so when its endpoint listens no longer. -/
theorem Ended.close (h : s.Ended) :
    ({ s with transport := s.transport.close }.note .withdrawn).Ended where
  held := by simp only [note, Transport.close, h.reset_eq, h.held]
  state := h.state
  pending := h.pending

/-- What scripts leave as it was in a session that has ended. -/
structure Rests (s s' : Session σ) : Prop where
  ended : s'.Ended
  dsuid_eq : s'.dsuid = s.dsuid
  past_eq : s'.transport.past = s.transport.past
  notes : Notes (Event.IsUnheard s.dsuid) s s'

namespace Rests

theorem refl (h : s.Ended) : Rests s s := ⟨h, rfl, rfl, .of_eq rfl⟩

theorem trans (h : Rests s s') (h' : Rests s' s'') : Rests s s'' where
  ended := h'.ended
  dsuid_eq := h'.dsuid_eq.trans h.dsuid_eq
  past_eq := h'.past_eq.trans h.past_eq
  notes := by
    have hnotes := h'.notes
    rw [h.dsuid_eq] at hnotes
    exact h.notes.trans hnotes

theorem of_act (hs : s.Ended) (hact : Act s s') : Rests s s' := by
  obtain ⟨hheld, hstate, hpending⟩ := hact.of_unheld hs.held
  have hended : s'.Ended :=
    ⟨hheld, hstate.trans hs.state, (congrArg RequestCache.entries hpending).trans hs.pending⟩
  refine ⟨hended, congrArg Prod.fst hact.settings_eq, hact.grows.past, ?_⟩
  cases hact with
  | remember | happen => exact .of_eq rfl
  | inspect => exact .single (.inspected s.status) hs.status_eq rfl
  | send what =>
    obtain ⟨e, h⟩ := send_of_unheld hs.held what
    exact .of_eq (by rw [h])
  | announce subject completion =>
    obtain ⟨e, h⟩ := announce_of_unheld hs.held subject completion
    exact .single (.declined s.nextId e) trivial (by rw [h]; rfl)

theorem of_run (hs : s.Ended) (script : Script σ) : Rests s (run script s) := by
  have h := acts_run script s
  generalize run script s = s' at h ⊢
  induction h with
  | refl => exact .refl hs
  | tail _ hlast ih => exact ih.trans (.of_act ih.ended hlast)

end Rests

/-! ## The completions -/

/-- The completions of requests that end with their connection run in order, each of them in an
ended session. -/
theorem Ended.exists_course (hs : s.Ended)
    (requests : List (PendingRequest (Outcome → Script σ))) :
    ∃ course, (s.abandon (requests.map (·, .disconnected))).journal = course ++ s.journal ∧
      EndingCourse s.dsuid requests course := by
  induction requests generalizing s with
  | nil => exact ⟨[], rfl, .nil⟩
  | cons request rest ih =>
    have hbegun : (s.begun request .disconnected).Ended := ⟨hs.held, hs.state, hs.pending⟩
    have hrun := Rests.of_run hbegun (request.completion .disconnected)
    obtain ⟨talk, hjournal, htalk⟩ := hrun.notes
    obtain ⟨later, hlast, hlater⟩ := ih hrun.ended
    rw [hrun.dsuid_eq] at hlater
    refine ⟨_, ?_, .cons htalk hlater⟩
    have hfirst : (s.begun request .disconnected).journal =
        .completed request.id .disconnected request.completion (.ended s.dsuid) :: s.journal := by
      rw [← hs.status_eq]
      rfl
    have hbegin : s.abandon ((request :: rest).map (·, .disconnected)) =
        (run (request.completion .disconnected) (s.begun request .disconnected)).abandon
          (rest.map (·, .disconnected)) := rfl
    rw [hbegin, hlast, hjournal, hfirst]
    simp only [List.append_assoc, List.singleton_append]

/-- The session when its connection, its state and its requests have been given up and nothing else
has been done yet. -/
def cutOff (s : Session σ) : Session σ :=
  { s.resetTransport with state := .disconnected, pending := s.pending.flush.2 }

theorem ended_cutOff (s : Session σ) : s.cutOff.Ended := ⟨s.held_resetTransport, rfl, rfl⟩

/-- The connection that is held is closed, and its end noted down. -/
theorem journal_cutOff (s : Session σ) :
    s.cutOff.journal = s.transport.held.toList.map (.closed ·.name) ++ s.journal := by
  cases hheld : s.transport.held with
  | none => simp only [cutOff, resetTransport, hheld, Option.toList_none, List.map_nil,
      List.nil_append]
  | some link => simp only [cutOff, resetTransport, hheld, note, Option.toList_some, List.map_cons,
      List.map_nil, List.singleton_append]

theorem disconnect_eq (s : Session σ) :
    s.disconnect = (s.state.peer?, s.cutOff.abandon (s.pending.entries.map (·, .disconnected))) := by
  have hreset : s.resetTransport.pending = s.pending := by
    unfold resetTransport
    split <;> rfl
  simp only [disconnect, hreset]
  rfl

theorem dsuid_cutOff (s : Session σ) : s.cutOff.dsuid = s.dsuid := by
  unfold cutOff resetTransport
  split <;> rfl

/-! ## The end of a connection -/

/-- A connection ends. With a farewell it is noted whom that names, if anyone. -/
inductive Parting : Application σ → Session σ → Option (Option String) → Session σ → Prop
  /-- A farewell is taken up. -/
  | farewell {app : Application σ} {s : Session σ} {payload : List UInt8} {id : RequestId}
      {dsuid : Option String} (hstate : s.state ≠ .disconnected)
      (hdecode : Message.decode payload = .ok ⟨id, .bye dsuid⟩) :
      Parting app (s.note (.handled payload)) (some dsuid) (s.handle app payload)
  /-- A frame cannot be read. -/
  | unreadable {app : Application σ} {s : Session σ} {error : Error}
      (hread : s.transport.readFrame.1 = .failed error) :
      Parting app s none (Endpoint.receive app s)
  /-- The endpoint is closed. -/
  | close {e : Endpoint σ} (hopen : e.isClosed = false) :
      Parting e.application e.session none e.close.session

/-- What the end of a connection comes to, with a callback at its end or without. -/
structure EndsInOrder (s : Session σ) (callback : Option Callback) (s' : Session σ) : Prop where
  ended : s'.Ended
  /-- The connection is closed with what had been written on it. -/
  closed : ∀ link, s.transport.held = some link → link.shutDown ∈ s'.transport.past
  /-- First the connection is closed, then the completions run, and then the callback is made. Of
  what is done in the callback nothing is heard. -/
  journal : ∃ talk course, s'.journal = talk ++ (callback.toList.map (.called · (.ended s.dsuid)) ++
      (course ++ (s.transport.held.toList.map (.closed ·.name) ++ s.journal))) ∧
    EndingCourse s.dsuid s.pending.entries course ∧
    ∀ event ∈ talk, event.IsUnheard s.dsuid ∨ event = .withdrawn
  /-- Everything fails that a completion attempts to send. -/
  fails : ∀ before request after, s.pending.entries = before ++ request :: after →
    (request.completion .disconnected).Fails
      ((s.cutOff.abandon (before.map (·, .disconnected))).begun request .disconnected)

theorem ended_disconnect (s : Session σ) : s.disconnect.2.Ended :=
  ⟨s.of_disconnect.1, s.of_disconnect.2.1, s.of_disconnect.2.2⟩

theorem dsuid_disconnect (s : Session σ) : s.disconnect.2.dsuid = s.dsuid :=
  congrArg Prod.fst (moves_disconnect s).settings_eq

/-- Whatever follows the completions, the connection has ended in order if the session stays ended
and nobody hears of anything but the callback. -/
theorem EndsInOrder.of_disconnect (s : Session σ) (talk : List (Event σ))
    {callback : Option Callback} (hended : s'.Ended)
    (hpast : s.disconnect.2.transport.past ⊆ s'.transport.past)
    (hjournal : s'.journal =
      talk ++ (callback.toList.map (.called · (.ended s.dsuid)) ++ s.disconnect.2.journal))
    (htalk : ∀ event ∈ talk, event.IsUnheard s.dsuid ∨ event = .withdrawn) :
    EndsInOrder s callback s' where
  ended := hended
  closed link hheld := by
    refine hpast ?_
    rw [past_disconnect hheld]
    exact List.mem_cons_self
  journal := by
    obtain ⟨course, hcompleted, hcourse⟩ := s.ended_cutOff.exists_course s.pending.entries
    rw [s.dsuid_cutOff] at hcourse
    refine ⟨talk, course, ?_, hcourse, htalk⟩
    rw [hjournal, s.disconnect_eq, hcompleted, s.journal_cutOff]
  fails before request after _ :=
    fails_of_unheld _ (abandon_of_unheld _ s.ended_cutOff.held).1

/-- A farewell ends the connection, and then the application is called back. -/
theorem endsInOrder_part (app : Application σ) (s : Session σ) (dsuid : Option String) :
    EndsInOrder s (some (.bye ((dsuid.or s.state.peer?).getD ""))) (s.part app dsuid) := by
  generalize hcallback : Callback.bye ((dsuid.or s.state.peer?).getD "") = callback
  have hended := s.ended_disconnect
  have hcalled : (s.disconnect.2.note (.called callback (.ended s.dsuid))).Ended :=
    ⟨hended.held, hended.state, hended.pending⟩
  have hpart : s.part app dsuid =
      run (app.react callback) (s.disconnect.2.note (.called callback (.ended s.dsuid))) := by
    rw [← s.dsuid_disconnect, ← hended.status_eq, ← hcallback]
    rfl
  have hrest := Rests.of_run hcalled (app.react callback)
  obtain ⟨talk, hjournal, htalk⟩ := hrest.notes
  have hown : (s.disconnect.2.note (.called callback (.ended s.dsuid))).dsuid = s.dsuid :=
    s.dsuid_disconnect
  rw [hown] at htalk
  rw [hpart]
  exact .of_disconnect s talk hrest.ended (hrest.past_eq ▸ List.Subset.refl _) hjournal
    fun event hevent => .inl (htalk event hevent)

/-- A frame that cannot be read ends the connection. -/
theorem receive_of_failed (app : Application σ) {error : Error}
    (hread : s.transport.readFrame.1 = .failed error) :
    Endpoint.receive app s = s.disconnect.2 := by
  unfold Endpoint.receive
  split
  · next h =>
    rw [h] at hread
    cases hread
  · rfl
  · next h =>
    rw [h] at hread
    cases hread

/-- When a connection ends, its state and its requests are given up before any completion runs. Each
request that was pending is completed once, in the order of registration, and whatever the
completions attempt to send fails. After them the application is called back if a farewell was the
cause, with the name in it or else that of the peer, and otherwise it is not. -/
theorem endsInOrder_of_parting {app : Application σ} {farewell : Option (Option String)}
    (h : Parting app s farewell s') :
    EndsInOrder s (farewell.map fun dsuid => .bye ((dsuid.or s.state.peer?).getD "")) s' := by
  cases h with
  | @farewell _ s payload id dsuid hstate hdecode =>
    have hdirective : Directive.ofPayload s.dsuid s.state payload = .part dsuid :=
      Directive.ofPayload_eq_part_iff.2 ⟨hstate, id, hdecode⟩
    have hparted : s.handle app payload = (s.note (.handled payload)).part app dsuid := by
      rw [handle, hdirective]
      rfl
    rw [hparted]
    exact endsInOrder_part app _ dsuid
  | unreadable hread =>
    rw [receive_of_failed app hread]
    exact .of_disconnect s [] s.ended_disconnect (List.Subset.refl _) rfl
      (List.forall_mem_nil _)
  | @close e hopen =>
    have hclose : e.close.session =
        { e.session.disconnect.2 with
          transport := e.session.disconnect.2.transport.close }.note .withdrawn := by
      simp only [Endpoint.close, hopen, Bool.false_eq_true, if_false]
    have hended := e.session.ended_disconnect
    rw [hclose]
    refine .of_disconnect e.session [.withdrawn] hended.close ?_ rfl (by simp)
    simp only [note, Transport.close, hended.reset_eq]
    exact List.subset_append_right _ _

/-- Two requests are pending when the peer leaves without its name. The first completion attempts to
send a pong and to announce a container. -/
theorem endsInOrder_of_parting_unnamed :
    ∃ (app : Application (List String)) (s : Session (List String)) (payload : List UInt8),
      Message.encode (.notification (.bye none)) = .ok payload ∧ s.pending.ids = [4, 6] ∧
        (s.handle app payload).memory = ["unsent", "unmade", "second", "bye P"] ∧
        EndsInOrder (s.note (.handled payload)) (some (.bye "P")) (s.handle app payload) := by
  let app : Application (List String) :=
    { Application.default with
      react := fun
        | .bye dsuid => .remember (· ++ [s!"bye {dsuid}"]) .done
        | _ => .done }
  let first : Outcome → Script (List String) := fun _ =>
    .send (.pong "D") fun sent => .remember (· ++ [if sent.isOk then "sent" else "unsent"]) <|
      .announce (.container "own") (fun _ => .done) fun made =>
        .remember (· ++ [if made.isOk then "made" else "unmade"]) .done
  let s : Session (List String) := { new "own" .default [] 0 with
    transport := { Transport.listen 4096 0 with held := some (.fresh "peer") }
    state := .active "P"
    pending := ⟨[⟨4, 0, first⟩, ⟨6, 1, fun _ => .remember (· ++ ["second"]) .done⟩], 0, 0, 0⟩ }
  have hdecode : Message.decode (Message.notification (.bye none)).toJson.render =
      .ok ⟨reservedId, .bye none⟩ := by
    rw [Message.decode_render (by decide), if_pos (by decide)]
    rfl
  refine ⟨app, s, (Message.notification (.bye none)).toJson.render, rfl, rfl, by decide +kernel, ?_⟩
  exact endsInOrder_of_parting (.farewell (s := s) nofun hdecode)

end Session

end Vdc
