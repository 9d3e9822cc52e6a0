import Vdc.Proofs.Message.Framing
import Vdc.Proofs.Session.Stream

/-!
# What is written on a connection

`Session.Sends` says what an operation writes: some messages, each as one frame, the journal has
them in the same order, and nothing else goes out. Scripts that neither send nor announce write
nothing, however long they take.
-/

namespace Vdc

variable {σ : Type}

/-- The message that was sent. -/
def Event.message? : Event σ → Option Message
  | .sent m => some m
  | _ => none

/-- Scripts that send nothing and announce nothing. -/
def Script.IsSilent : Script σ → Prop
  | .done => True
  | .remember _ next => next.IsSilent
  | .recall next => ∀ memory, (next memory).IsSilent
  | .meanwhile _ next => next.IsSilent
  | .inspect next => ∀ status, (next status).IsSilent
  | .send _ _ => False
  | .announce _ _ _ => False

namespace Transport

/-- What was written on the connection that is held or, if none is, on the one that was closed
last. -/
def output (t : Transport) : List UInt8 :=
  ((t.held.or t.past.head?).map Link.written).getD []

/-- The held connection takes the frame of a message. -/
def Takes (t : Transport) (m : Message) : Prop :=
  ∃ payload t', m.encode = .ok payload ∧ t.writeFrame payload = .ok t'

instance (t : Transport) (m : Message) : Decidable (t.Takes m) :=
  decidable_of_iff ((m.encode.bind t.writeFrame).isOk = true) <| by
    unfold Takes
    cases m.encode with
    | error e => simp [Except.bind, Except.isOk, Except.toBool]
    | ok payload =>
      cases hwrite : t.writeFrame payload <;>
        simp [Except.bind, Except.isOk, Except.toBool, hwrite]

theorem output_of_held {t : Transport} {link : Link} (h : t.held = some link) :
    t.output = link.written := by
  simp [output, h]

/-- What happens without the endpoint's doing writes nothing. -/
theorem output_happen (t : Transport) (happening : Happening) :
    (t.happen happening).output = t.output := by
  have hupdate (name : String) (f : Link → Link) (hf : ∀ l, (f l).written = l.written) :
      (t.update name f).output = t.output := by
    cases hheld : t.held with
    | none => simp only [output, update, hheld, Option.map_none, Option.none_or]
    | some l =>
      simp only [output, update, hheld, Option.map_some, Option.some_or, Option.getD_some]
      split
      · exact hf l
      · rfl
  cases happening with
  | elapse | arrive => rfl
  | deliver | finish | jam | ease => exact hupdate _ _ fun _ => rfl

end Transport

namespace Session

/-- Some messages are sent, the last one last, and nothing else is written. -/
structure Sends (messages : List Message) (s s' : Session σ) : Prop where
  frameLimit_eq : s'.transport.frameLimit = s.transport.frameLimit
  noted : ∃ new, s'.journal = new ++ s.journal ∧ new.filterMap Event.message? = messages.reverse
  output : ∃ bytes, Message.Framed s.transport.frameLimit messages bytes ∧
    s'.transport.output = s.transport.output ++ bytes

namespace Sends

variable {messages messages' : List Message} {s s' s'' : Session σ}

/-- Nothing is sent. -/
theorem none (hlimit : s'.transport.frameLimit = s.transport.frameLimit)
    (houtput : s'.transport.output = s.transport.output)
    (hnoted : ∃ new, s'.journal = new ++ s.journal ∧ new.filterMap Event.message? = []) :
    Sends [] s s' :=
  ⟨hlimit, hnoted, [], .nil, by rw [houtput, List.append_nil]⟩

theorem refl (s : Session σ) : Sends [] s s := none rfl rfl ⟨[], rfl, rfl⟩

theorem note (s : Session σ) (event : Event σ) (h : event.message? = Option.none) :
    Sends [] s (s.note event) :=
  none rfl rfl ⟨[event], rfl, List.filterMap_cons_none h⟩

theorem trans (h : Sends messages s s') (h' : Sends messages' s' s'') :
    Sends (messages ++ messages') s s'' := by
  obtain ⟨new, hjournal, hnew⟩ := h.noted
  obtain ⟨new', hjournal', hnew'⟩ := h'.noted
  obtain ⟨bytes, hframed, houtput⟩ := h.output
  obtain ⟨bytes', hframed', houtput'⟩ := h'.output
  rw [h.frameLimit_eq] at hframed'
  refine ⟨h'.frameLimit_eq.trans h.frameLimit_eq, ⟨new' ++ new, ?_, ?_⟩, bytes ++ bytes',
    hframed.append hframed', ?_⟩
  · rw [hjournal', hjournal, List.append_assoc]
  · rw [List.filterMap_append, hnew, hnew', List.reverse_append]
  · rw [houtput', houtput, List.append_assoc]

/-- What was sent is told by what was noted down. -/
theorem unique (h : Sends messages s s') (h' : Sends messages' s s') : messages = messages' := by
  obtain ⟨new, hjournal, hnew⟩ := h.noted
  obtain ⟨new', hjournal', hnew'⟩ := h'.noted
  obtain rfl : new = new' := List.append_cancel_right (hjournal.symm.trans hjournal')
  exact List.reverse_injective (hnew.symm.trans hnew')

/-- One message is sent. -/
theorem of_transmit {m : Message} (h : s.transmit m = .ok s') : Sends [m] s s' := by
  obtain ⟨payload, transport, hencode, hwrite, rfl⟩ := transmit_eq_ok h
  obtain ⟨frame, link, hframe, hheld, -, rfl⟩ := Transport.writeFrame_eq_ok hwrite
  refine ⟨rfl, ⟨[.sent m], rfl, rfl⟩, frame, .single hencode hframe, ?_⟩
  rw [Transport.output_of_held hheld]
  rfl

theorem of_run {script : Script σ} (h : script.IsSilent) (s : Session σ) :
    Sends [] s (run script s) := by
  induction script generalizing s with
  | done => exact .refl s
  | remember change next ih =>
    have hremember : Sends [] s { s with memory := change s.memory } :=
      .none rfl rfl ⟨[], rfl, rfl⟩
    exact hremember.trans (ih h _)
  | «recall» next ih => exact ih _ (h _) s
  | meanwhile happening next ih =>
    have hlimit : (s.happen happening).transport.frameLimit = s.transport.frameLimit := by
      cases happening <;> rfl
    have hhappen : Sends [] s (s.happen happening) :=
      .none hlimit (s.transport.output_happen happening) ⟨[], rfl, rfl⟩
    exact hhappen.trans (ih h _)
  | inspect next ih => exact (Sends.note s (.inspected s.status) rfl).trans (ih _ (h _) _)
  | send | announce => exact h.elim

theorem of_abandon {requests : List (PendingRequest (Outcome → Script σ) × Expiry)}
    (h : ∀ request ∈ requests, ∀ outcome, (request.1.completion outcome).IsSilent)
    (s : Session σ) : Sends [] s (s.abandon requests) := by
  induction requests generalizing s with
  | nil => exact .refl s
  | cons request rest ih =>
    obtain ⟨hfirst, hrest⟩ := List.forall_mem_cons.1 h
    have hbegun : Sends [] s (s.begun request.1 (outcomeOf request.2)) := .note s _ rfl
    exact (hbegun.trans (of_run (hfirst _) _)).trans (ih hrest _)

/-- The end of a connection writes nothing, apart from what the completions send. -/
theorem of_disconnect
    (h : ∀ request ∈ s.pending.entries, ∀ outcome, (request.completion outcome).IsSilent) :
    Sends [] s s.disconnect.2 := by
  have hreset : Sends [] s s.resetTransport ∧ s.resetTransport.pending = s.pending := by
    unfold resetTransport
    cases hheld : s.transport.held with
    | none => exact ⟨.refl s, rfl⟩
    | some link =>
      refine ⟨.none ?_ ?_ ⟨[.closed link.name], rfl, rfl⟩, rfl⟩
      · simp only [Session.note, Transport.reset, hheld]
      · simp only [Session.note, Transport.reset, Transport.output, hheld]
        rfl
  have hflushed : Sends [] s { s.resetTransport with
      state := .disconnected, pending := s.resetTransport.pending.flush.2 } :=
    ⟨hreset.1.frameLimit_eq, hreset.1.noted, hreset.1.output⟩
  refine hflushed.trans (of_abandon (fun request hrequest outcome => ?_) _)
  rw [hreset.2] at hrequest
  obtain ⟨pending, hpending, rfl⟩ := List.mem_map.1 hrequest
  exact h pending hpending outcome

end Sends

/-- Sending comes to an error if the held connection does not take the frame, and only then. -/
theorem exists_transmit {s : Session σ} {m : Message} (h : s.transport.Takes m) :
    ∃ s', s.transmit m = .ok s' := by
  obtain ⟨payload, transport, hencode, hwrite⟩ := h
  exact ⟨_, by simp only [transmit, hencode, hwrite, bind, Except.bind]; rfl⟩

/-- A message that the held connection takes is sent by an attempt to send it. -/
theorem Sends.of_takes {s : Session σ} {m : Message} (h : s.transport.Takes m) :
    Sends [m] s (s.attempt (s.transmit m)).2 := by
  obtain ⟨s', hs⟩ := exists_transmit h
  rw [hs]
  exact .of_transmit hs

end Session

end Vdc
