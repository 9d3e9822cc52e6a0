import Vdc.Probe.Basic
import Vdc.Proofs.Client
import Vdc.Proofs.Message.Length
import Vdc.Proofs.Reception

/-!
# A probe that receives over and over

A watch and a ping go by receipts: each message that arrives is acknowledged if it is an
announcement, until the answer to the ping is there or the connection is lost. `serves` says what
comes of that in the course of any events on the connection, however the bytes of the stream are cut
into portions and reads. What was received are the first messages of the stream, what was sent are
their acknowledgements, and the other messages are still there or still to come.

It is proved by induction on the events. `turn_receive` tells what a single receipt can come to, and
everything that the induction needs of the state is what stays of the stream, which only a receipt
takes anything off. `not_goesOn` adds that the probe does come to an end if it is given the time.
-/

namespace Vdc

namespace Manager

variable {m : Manager} {reads : List Nat} {bytes later : List UInt8} {messages : List Message}

/-! ## A stream of messages -/

/-- Some bytes are the frames of some messages, and perhaps the beginning of one more frame. -/
def Brings (bytes : List UInt8) (messages : List Message) : Prop :=
  (∃ needed, (Frame.split defaultFrameLimit bytes).2 = .incomplete needed) ∧
    (Frame.payloads defaultFrameLimit bytes).map Message.decode = messages.map .ok

namespace Brings

/-- The frame at the front is that of the first message. -/
theorem exists_cons (h : Brings bytes messages) {payload : List UInt8} {consumed : Nat}
    (hparse : Frame.parse defaultFrameLimit bytes = .complete payload consumed) :
    ∃ first rest, messages = first :: rest ∧ Message.decode payload = .ok first ∧
      Brings (bytes.drop consumed) rest := by
  obtain ⟨⟨needed, hlast⟩, hmessages⟩ := h
  rw [Frame.split_of_complete hparse] at hlast
  rw [Frame.payloads_of_complete hparse, List.map_cons] at hmessages
  cases messages with
  | nil => cases hmessages
  | cons first rest =>
    obtain ⟨hfirst, hrest⟩ := List.cons.inj hmessages
    exact ⟨first, rest, rfl, hfirst, ⟨needed, hlast⟩, hrest⟩

theorem parse_ne_invalid (h : Brings bytes messages) (fault : ProtocolFault) :
    Frame.parse defaultFrameLimit bytes ≠ .invalid fault := by
  intro hparse
  obtain ⟨needed, hlast⟩ := h.1
  rw [Frame.split_of_ne_complete (by simp [hparse]), hparse] at hlast
  cases hlast

theorem eq_nil (h : Brings bytes messages) {needed : Nat}
    (hparse : Frame.parse defaultFrameLimit bytes = .incomplete needed) : messages = [] := by
  have hmessages := h.2
  rw [Frame.payloads_eq_nil (by simp [hparse]), List.map_nil] at hmessages
  exact List.map_eq_nil_iff.1 hmessages.symm

end Brings

theorem Exhausts.mono {n n' : Nat} (h : Exhausts reads n) (hle : n' ≤ n) : Exhausts reads n' := by
  induction reads generalizing n n' with
  | nil => exact h
  | cons size rest ih =>
    rcases h with ⟨hsize, rfl⟩ | h
    · exact .inl ⟨hsize, Nat.le_zero.1 hle⟩
    · exact .inr (ih h (by omega))

/-- A receipt only reads. -/
theorem link_receive (m : Manager) (reads : List Nat) :
    (m.receive reads).manager.link.written = m.link.written ∧
      (m.receive reads).manager.link.writable = m.link.writable ∧
      (m.receive reads).manager.link.ended = m.link.ended := by
  fun_induction receive m reads with
  | case1 | case2 | case3 | case5 | case6 => exact ⟨rfl, rfl, rfl⟩
  | case4 m needed hneeded rest ih => exact ih
  | case7 m needed hneeded size rest hsize hunread ih => exact ih

/-- A session manager after it has written some bytes. -/
def wrote (m : Manager) (bytes : List UInt8) : Manager :=
  { m with link := { m.link with written := m.link.written ++ bytes } }

theorem send_of_writable {message : Message} {payload frame : List UInt8}
    (hwritable : m.link.writable = true) (hencode : message.encode = .ok payload)
    (hframe : Frame.serialize defaultFrameLimit payload = .ok frame) :
    m.send message = .ok (m.wrote frame) := by
  have hwrite : m.link.write frame = .ok { m.link with written := m.link.written ++ frame } :=
    if_pos hwritable
  simp only [send, hencode, hframe, hwrite, bind, Except.bind]
  rfl

/-- What a receipt from a stream of messages comes to, whatever comes later. -/
inductive Brought (m : Manager) (reads : List Nat) (later : List UInt8) :
    List Message → Except Error Message → Manager → Prop
  /-- The first of the messages. -/
  | message {first : Message} {rest : List Message} {m' : Manager}
      (hrest : Brings (m'.stream ++ later) rest) (hlength : m'.stream.length ≤ m.stream.length) :
      Brought m reads later (first :: rest) (.ok first) m'
  /-- The end of the stream, if there is nothing more to come. -/
  | ended {m' : Manager} (hended : m.link.ended = true) :
      Brought m reads later [] (.error (.transport .unexpectedEof)) m'
  /-- Nothing, if the time is up. -/
  | timeout {messages : List Message} {m' : Manager} (hstream : m'.stream = m.stream)
      (hreads : Exhausts reads m.link.unread.length → m.link.ended = false ∧
        ∃ needed, Frame.parse defaultFrameLimit m.stream = .incomplete needed) :
      Brought m reads later messages (.error .timeout) m'

theorem brought_receive (h : Brings (m.stream ++ later) messages)
    (hlater : m.link.ended = true → later = []) (reads : List Nat) :
    Brought m reads later messages (m.receive reads).result (m.receive reads).manager := by
  have houtcome := outcome_receive m reads
  generalize m.receive reads = receipt at houtcome ⊢
  cases houtcome with
  | @payload payload consumed m' left hparse hstream hended =>
    obtain ⟨first, rest, rfl, hdecode, hrest⟩ := h.exists_cons (Frame.parse_append hparse later)
    rw [List.drop_append_of_le_length (Frame.consumed_le hparse), ← hstream] at hrest
    rw [hdecode]
    exact .message hrest (by rw [hstream, List.length_drop]; exact Nat.sub_le _ _)
  | @fault fault m' left hparse hstream hended =>
    have hfront : Frame.parse defaultFrameLimit m.stream = .invalid fault :=
      hstream ▸ Frame.parse_append_of_invalid hparse m'.link.unread
    exact absurd (Frame.parse_append_of_invalid hfront later) (h.parse_ne_invalid fault)
  | ended hparse hstream hover hended =>
    rw [hlater hover, List.append_nil] at h
    obtain rfl := h.eq_nil hparse
    exact .ended hover
  | timeout hstream hended hreads => exact .timeout hstream hreads

end Manager

namespace Probe

open Manager (Event)

variable {p p' p'' : Probe} {m : Message} {messages messages' : List Message}
  {events : List Manager.Event} {later : List UInt8}

/-! ## What happens to the probe -/

/-- The probe after an event on its connection. -/
def advance (p : Probe) : Manager.Event → Probe
  | .receive reads => (p.step reads).1
  | .deliver bytes => { p with manager := p.manager.step (.deliver bytes) }
  | .finish => { p with manager := p.manager.step .finish }

/-- The probe after some events, in their order. -/
def after (p : Probe) (events : List Manager.Event) : Probe := events.foldl advance p

/-- What an event results in, if it is a receipt of a probe that has not ended. -/
def result? (p : Probe) : Manager.Event → Option (Except Error Message)
  | .receive reads => if p.ending?.isNone then some (p.manager.receive reads).result else none
  | .deliver _ | .finish => none

/-- What the receipts among some events result in. -/
def results (p : Probe) : List Manager.Event → List (Except Error Message)
  | [] => []
  | event :: rest => (p.result? event).toList ++ (p.advance event).results rest

/-- The messages that are received in the course of some events. -/
def received (p : Probe) (events : List Manager.Event) : List Message :=
  (p.results events).filterMap Except.toOption

/-- From one state of the probe to another some messages have been sent, and nothing else. -/
def Sends (p p' : Probe) (messages : List Message) : Prop :=
  ∃ frames, Message.Framed defaultFrameLimit messages frames ∧
    p'.manager.link.written = p.manager.link.written ++ frames

namespace Sends

theorem of_eq (h : p'.manager.link.written = p.manager.link.written) : p.Sends p' [] :=
  ⟨[], .nil, by rw [h, List.append_nil]⟩

theorem trans (h : p.Sends p' messages) (h' : p'.Sends p'' messages') :
    p.Sends p'' (messages ++ messages') := by
  obtain ⟨frames, hframes, hwritten⟩ := h
  obtain ⟨frames', hframes', hwritten'⟩ := h'
  exact ⟨frames ++ frames', hframes.append hframes', by
    rw [hwritten', hwritten, List.append_assoc]⟩

end Sends

/-! ## Taking messages -/

/-- A message announces a container or a device and waits for an answer. -/
def IsAnnouncement (m : Message) : Prop :=
  (m.payload.kind = .announceContainer ∨ m.payload.kind = .announceDevice) ∧ m.id ≠ reservedId

instance (m : Message) : Decidable (IsAnnouncement m) :=
  inferInstanceAs (Decidable (_ ∧ _))

theorem acknowledgement?_eq (m : Message) : acknowledgement? m =
    if IsAnnouncement m then some (.genericResponse m.id .ok) else none := by
  obtain ⟨id, payload⟩ := m
  by_cases hid : id = reservedId
  · cases payload <;> simp [acknowledgement?, IsAnnouncement, Payload.kind, hid]
  · cases payload <;> simp [acknowledgement?, IsAnnouncement, Payload.kind, hid]

namespace Phase

/-- The phases in which everything that arrives is acknowledged at once. -/
inductive Attends : Phase → Prop
  | watching : Attends .watching
  | pinging (dsuid : String) : Attends (.pinging dsuid)

/-- A message is what a phase waits for. -/
def IsLast (phase : Phase) (m : Message) : Prop :=
  ∃ dsuid, phase = .pinging dsuid ∧ m.payload = .pong dsuid

/-- How the probe ends if the connection is lost in a phase. -/
def onLoss : Phase → Ending
  | .pinging _ => .failed "No pong" (some (.transport .unexpectedEof))
  | _ => .done

end Phase

/-- What was waited for is not acknowledged. -/
theorem acknowledgement?_of_isLast {phase : Phase} (h : phase.IsLast m) :
    acknowledgement? m = none := by
  obtain ⟨dsuid, -, hpayload⟩ := h
  rw [acknowledgement?, hpayload]

/-- An acknowledgement is short enough for every frame. -/
theorem exists_frame_of_acknowledgement {answer : Message} (h : acknowledgement? m = some answer) :
    ∃ payload frame, answer.encode = .ok payload ∧
      Frame.serialize defaultFrameLimit payload = .ok frame := by
  obtain ⟨⟨-, hid⟩, rfl⟩ : IsAnnouncement m ∧ .genericResponse m.id .ok = answer := by
    rw [acknowledgement?_eq] at h
    exact Option.ite_none_right_eq_some.1 h |>.imp_right Option.some.inj
  have hfinite : ∀ d ∈ (Message.genericResponse m.id .ok).doubles, d.isFinite = true :=
    List.forall_mem_nil _
  have hlength := Message.length_genericResponse_le hid .ok
  have hlimit : 200 ≤ defaultFrameLimit := by decide
  have hmax : 200 ≤ Frame.maxLength := by decide
  obtain ⟨frame, hframe⟩ := Frame.exists_serialize_iff.2
    ⟨Nat.le_trans hlength hlimit, Nat.le_trans hlength hmax⟩
  exact ⟨_, frame, Message.encode_eq_ok hfinite, hframe⟩

/-- Acknowledging writes the acknowledgement, if there is one, and changes nothing else. -/
theorem acknowledge_eq (hwritable : p.manager.link.writable = true) (m : Message) :
    ∃ frames, Message.Framed defaultFrameLimit (acknowledgement? m).toList frames ∧
      p.acknowledge m (fun p => p) = { p with manager := p.manager.wrote frames } := by
  cases h : acknowledgement? m with
  | none =>
    refine ⟨[], .nil, ?_⟩
    simp only [acknowledge, h, Manager.wrote, List.append_nil]
  | some answer =>
    obtain ⟨payload, frame, hencode, hframe⟩ := exists_frame_of_acknowledgement h
    refine ⟨frame, .single hencode hframe, ?_⟩
    simp only [acknowledge, h, proceed, Manager.send_of_writable hwritable hencode hframe]

/-- A message is what was waited for, or it is acknowledged and the phase goes on. -/
theorem take_of_attends (h : p.phase.Attends) (hwritable : p.manager.link.writable = true)
    (m : Message) :
    (p.phase.IsLast m ∧ (p.take m).phase = .ended .done ∧ (p.take m).manager = p.manager) ∨
      (¬ p.phase.IsLast m ∧ (p.take m).phase = p.phase ∧ ∃ frames,
        Message.Framed defaultFrameLimit (acknowledgement? m).toList frames ∧
          (p.take m).manager = p.manager.wrote frames) := by
  obtain ⟨manager, command, phase, output⟩ := p
  obtain ⟨frames, hframes, hacknowledge⟩ :=
    acknowledge_eq (p := printJson ⟨manager, command, phase, output⟩ m.toJson) hwritable m
  cases h with
  | watching =>
    refine .inr ⟨nofun, ?_, frames, hframes, ?_⟩
    · rw [take, hacknowledge]
      rfl
    · rw [take, hacknowledge]
      rfl
  | pinging dsuid =>
    by_cases hlast : m.payload = .pong dsuid
    · refine .inl ⟨⟨dsuid, rfl, hlast⟩, ?_, ?_⟩
      · simp only [take, if_pos hlast]
        rfl
      · simp only [take, if_pos hlast]
        rfl
    · have hnot : ¬ Phase.IsLast (.pinging dsuid) m := by
        rintro ⟨dsuid', hphase, hpayload⟩
        obtain rfl := Phase.pinging.inj hphase
        exact hlast hpayload
      refine .inr ⟨hnot, ?_, frames, hframes, ?_⟩
      · simp only [take, if_neg hlast, hacknowledge]
        rfl
      · simp only [take, if_neg hlast, hacknowledge]
        rfl

/-! ## Receiving over and over -/

theorem after_cons (p : Probe) (event : Manager.Event) (rest : List Manager.Event) :
    p.after (event :: rest) = (p.advance event).after rest := rfl

theorem after_append (p : Probe) (before later : List Manager.Event) :
    p.after (before ++ later) = (p.after before).after later := List.foldl_append

/-- A probe that has ended neither receives nor writes. -/
theorem after_of_ended {ending : Ending} (h : p.phase = .ended ending)
    (events : List Manager.Event) : p.results events = [] ∧
      (p.after events).phase = .ended ending ∧
        (p.after events).manager.link.written = p.manager.link.written := by
  induction events generalizing p with
  | nil => exact ⟨rfl, h, rfl⟩
  | cons event rest ih =>
    have hadvance : p.result? event = none ∧ (p.advance event).phase = .ended ending ∧
        (p.advance event).manager.link.written = p.manager.link.written := by
      cases event with
      | deliver bytes =>
        refine ⟨rfl, h, ?_⟩
        simp only [advance, Manager.step]
        split <;> rfl
      | finish => exact ⟨rfl, h, rfl⟩
      | receive reads =>
        simp only [result?, advance, step, ending?, h]
        exact ⟨rfl, trivial, trivial⟩
    obtain ⟨hresult, hphase, hwritten⟩ := hadvance
    obtain ⟨hresults, hphase', hwritten'⟩ := ih hphase
    refine ⟨?_, hphase', hwritten'.trans hwritten⟩
    rw [results, hresult, hresults]
    rfl

/-- The connection is still as it was: it takes bytes or does not, and its peer has finished or has
not. -/
def Keeps (p p' : Probe) : Prop :=
  p'.manager.link.writable = p.manager.link.writable ∧
    p'.manager.link.ended = p.manager.link.ended

/-- What one receipt from a stream of messages comes to, whatever comes later. -/
inductive Turn (p : Probe) (reads : List Nat) (later : List UInt8) (p' : Probe) :
    List Message → Except Error Message → Prop
  /-- The first of the messages is what was waited for. -/
  | last {first : Message} {rest : List Message} (hlast : p.phase.IsLast first)
      (hphase : p'.phase = .ended .done) (hsends : p.Sends p' []) :
      Turn p reads later p' (first :: rest) (.ok first)
  /-- The first of the messages is acknowledged, and the rest is still to come. -/
  | message {first : Message} {rest : List Message} (hlast : ¬ p.phase.IsLast first)
      (hphase : p'.phase = p.phase) (hsends : p.Sends p' (acknowledgement? first).toList)
      (hkeeps : p.Keeps p') (hrest : Manager.Brings (p'.manager.stream ++ later) rest)
      (hlength : p'.manager.stream.length ≤ p.manager.stream.length) :
      Turn p reads later p' (first :: rest) (.ok first)
  /-- The connection is lost after the last message. -/
  | loss (hended : p.manager.link.ended = true) (hphase : p'.phase = .ended p.phase.onLoss)
      (hsends : p.Sends p' []) : Turn p reads later p' [] (.error (.transport .unexpectedEof))
  /-- The time is up, which a watch takes no notice of. -/
  | timeout {messages : List Message}
      (hwatching : p.phase = .watching → p'.phase = p.phase ∧ p.Sends p' [] ∧ p.Keeps p' ∧
        p'.manager.stream = p.manager.stream)
      (hreads : Manager.Exhausts reads p.manager.link.unread.length →
        p.manager.link.ended = false ∧
          ∃ needed, Frame.parse defaultFrameLimit p.manager.stream = .incomplete needed) :
      Turn p reads later p' messages (.error .timeout)

theorem advance_receive (h : p.phase.Attends) (reads : List Nat) :
    p.result? (.receive reads) = some (p.manager.receive reads).result ∧
      p.advance (.receive reads) = match (p.manager.receive reads).result with
        | .ok m => take { p with manager := (p.manager.receive reads).manager } m
        | .error e => miss { p with manager := (p.manager.receive reads).manager } e := by
  obtain ⟨manager, command, phase, output⟩ := p
  cases h with
  | watching => exact ⟨rfl, rfl⟩
  | pinging dsuid => exact ⟨rfl, rfl⟩

theorem miss_unexpectedEof (h : p.phase.Attends) :
    p.miss (.transport .unexpectedEof) = p.finish p.phase.onLoss := by
  obtain ⟨manager, command, phase, output⟩ := p
  cases h with
  | watching => rfl
  | pinging dsuid => rfl

theorem turn_receive (h : p.phase.Attends) (hwritable : p.manager.link.writable = true)
    (hbrings : Manager.Brings (p.manager.stream ++ later) messages)
    (hlater : p.manager.link.ended = true → later = []) (reads : List Nat) :
    ∃ result, p.result? (.receive reads) = some result ∧
      p.Turn reads later (p.advance (.receive reads)) messages result := by
  obtain ⟨hresult, hadvance⟩ := advance_receive h reads
  have hbrought := Manager.brought_receive hbrings hlater reads
  obtain ⟨hwritten, hstill, hended⟩ := p.manager.link_receive reads
  refine ⟨_, hresult, ?_⟩
  rw [hadvance]
  generalize (p.manager.receive reads).result = result at *
  generalize (p.manager.receive reads).manager = m' at *
  cases hbrought with
  | @message first messages m' hrest hlength =>
    rcases take_of_attends (p := { p with manager := m' }) h (hstill.trans hwritable) first with
      ⟨hlast, hphase, hmanager⟩ | ⟨hlast, hphase, frames, hframes, hmanager⟩
    · exact .last hlast hphase (.of_eq (by rw [hmanager]; exact hwritten))
    · have hstream : Manager.stream (take { p with manager := m' } first).manager = m'.stream := by
        rw [hmanager]
        rfl
      refine .message hlast hphase ⟨frames, hframes, ?_⟩ ⟨?_, ?_⟩ (hstream ▸ hrest)
        (hstream ▸ hlength)
      · rw [hmanager, ← hwritten]
        rfl
      · rw [hmanager, ← hstill]
        rfl
      · rw [hmanager, ← hended]
        rfl
  | @ended m' hover =>
    have hmiss := miss_unexpectedEof (p := { p with manager := m' }) h
    exact .loss hover (congrArg Probe.phase hmiss)
      (.of_eq ((congrArg (·.manager.link.written) hmiss).trans hwritten))
  | @timeout messages m' hstream hreads =>
    refine .timeout (fun hwatching => ?_) hreads
    have hsame : miss { p with manager := m' } .timeout = { p with manager := m' } := by
      simp only [miss, hwatching, if_true]
    dsimp only
    rw [hsame]
    exact ⟨rfl, .of_eq hwritten, ⟨hstill, hended⟩, hstream⟩

/-! ## Runs -/

/-- The peer of a probe has finished by the end of some events. -/
def Finishes (p : Probe) (events : List Manager.Event) : Prop :=
  p.manager.link.ended = true ∨ .finish ∈ events

/-- A probe goes on: what it has not received of some messages is still there or still to come. -/
structure GoesOn (p : Probe) (events : List Manager.Event) (more : List UInt8)
    (messages : List Message) : Prop where
  phase : (p.after events).phase = p.phase
  not_last : ∀ m ∈ p.received events, ¬ p.phase.IsLast m
  writable : (p.after events).manager.link.writable = true
  ended_iff : (p.after events).manager.link.ended = true ↔ p.Finishes events
  rest : ∃ rest, messages = p.received events ++ rest ∧
    Manager.Brings ((p.after events).manager.stream ++ more) rest

/-- What comes of events on the connection of a probe that attends to everything that arrives. -/
structure Serves (p : Probe) (events : List Manager.Event) (more : List UInt8)
    (messages : List Message) : Prop where
  receives : p.received events <+: messages
  sends : p.Sends (p.after events) ((p.received events).filterMap acknowledgement?)
  phase : p.GoesOn events more messages ∨
    -- It has received what it was waiting for,
    ((p.after events).phase = .ended .done ∧ ∃ front last, p.received events = front ++ [last] ∧
      p.phase.IsLast last ∧ ∀ m ∈ front, ¬ p.phase.IsLast m) ∨
    -- or has lost the connection.
    ((p.after events).phase = .ended p.phase.onLoss ∧ p.received events = messages ∧
      (∀ m ∈ messages, ¬ p.phase.IsLast m) ∧ p.Finishes events)

theorem received_cons {result : Option (Except Error Message)} {event : Manager.Event}
    (h : p.result? event = result) (rest : List Manager.Event) :
    p.received (event :: rest) =
      (result.bind Except.toOption).toList ++ (p.advance event).received rest := by
  rw [received, results, h, List.filterMap_append, received]
  rcases result with _ | _ | _ <;> rfl

/-- What comes of some events of which the first brings the probe to its end. -/
theorem over_cons {result : Option (Except Error Message)} {event : Manager.Event}
    {ending : Ending} (hresult : p.result? event = result)
    (hphase : (p.advance event).phase = .ended ending) (hsends : p.Sends (p.advance event) [])
    (rest : List Manager.Event) :
    p.received (event :: rest) = (result.bind Except.toOption).toList ∧
      (p.after (event :: rest)).phase = .ended ending ∧ p.Sends (p.after (event :: rest)) [] := by
  obtain ⟨hnone, hphase', hwritten⟩ := after_of_ended hphase rest
  refine ⟨?_, hphase', hsends.trans (.of_eq hwritten)⟩
  have hreceived : (p.advance event).received rest = [] := by rw [received, hnone]; rfl
  rw [received_cons hresult, hreceived, List.append_nil]

theorem Serves.nil (hwritable : p.manager.link.writable = true) {more : List UInt8}
    (hbrings : Manager.Brings (p.manager.stream ++ more) messages) : p.Serves [] more messages :=
  ⟨List.nil_prefix, .of_eq rfl, .inl ⟨rfl, nofun, hwritable, by simp [after, Finishes],
    messages, rfl, hbrings⟩⟩

/-- What is received in an event, if it is a message that is acknowledged, comes in front of what
comes of the rest. -/
theorem Serves.cons {event : Manager.Event} {rest : List Manager.Event} {more : List UInt8}
    {result : Option (Except Error Message)} (hresult : p.result? event = result)
    (hfirst : ∀ m ∈ result.bind Except.toOption, ¬ p.phase.IsLast m)
    (hphase : (p.advance event).phase = p.phase)
    (hsends : p.Sends (p.advance event)
      ((result.bind Except.toOption).bind acknowledgement?).toList)
    (hfinishes : (p.advance event).Finishes rest ↔ p.Finishes (event :: rest))
    (h : (p.advance event).Serves rest more messages) :
    p.Serves (event :: rest) more ((result.bind Except.toOption).toList ++ messages) := by
  have hreceived := received_cons hresult rest
  generalize result.bind Except.toOption = first at *
  obtain ⟨hreceives, hgoes, hcourse⟩ := h
  have hfronts : ∀ {front : List Message}, (∀ m ∈ front, ¬ (p.advance event).phase.IsLast m) →
      ∀ m ∈ first.toList ++ front, ¬ p.phase.IsLast m := fun hfront =>
    List.forall_mem_append.2 ⟨fun m hm => hfirst m (Option.mem_toList.1 hm), hphase ▸ hfront⟩
  refine ⟨?_, ?_, ?_⟩
  · rw [hreceived]
    exact (List.prefix_append_right_inj _).2 hreceives
  · have hanswers : first.toList.filterMap acknowledgement? =
        (first.bind acknowledgement?).toList := by
      cases first with
      | none => rfl
      | some m => cases hm : acknowledgement? m <;> simp [hm]
    rw [hreceived, List.filterMap_append, hanswers]
    exact hsends.trans hgoes
  · rcases hcourse with ⟨hphase', hnone, hwritable, hended, left, hleft, hbrings⟩ |
      ⟨hdone, front, last, hfront, hlast, hnone⟩ | ⟨hlost, hall, hnone, hover⟩
    · refine .inl ⟨hphase'.trans hphase, ?_, hwritable, hended.trans hfinishes, left, ?_, hbrings⟩
      · rw [hreceived]
        exact hfronts hnone
      · rw [hreceived, hleft, List.append_assoc]
    · refine .inr (.inl ⟨hdone, first.toList ++ front, last, ?_, hphase ▸ hlast, hfronts hnone⟩)
      rw [hreceived, hfront, List.append_assoc]
    · refine .inr (.inr ⟨hlost.trans (by rw [hphase]), ?_, hfronts hnone, hfinishes.1 hover⟩)
      rw [hreceived, hall]

/-- Receiving over and over comes to the messages of the stream, as long as there are receipts and
none of them is in vain. -/
theorem serves (h : p.phase.Attends) (hwritable : p.manager.link.writable = true)
    {more : List UInt8} (hmore : p.Finishes events → more = [])
    (hbrings : Manager.Brings (p.manager.stream ++ (p.manager.coming events ++ more)) messages)
    (hpatient : p.phase = .watching ∨ .error .timeout ∉ p.results events) :
    p.Serves events more messages := by
  induction events generalizing p messages with
  | nil =>
    have hnothing : p.manager.coming [] = [] := by
      unfold Manager.coming
      split <;> rfl
    rw [hnothing, List.nil_append] at hbrings
    exact .nil hwritable hbrings
  | cons event rest ih =>
    cases event with
    | deliver bytes =>
      have hlink : (p.manager.step (.deliver bytes)).link.ended = p.manager.link.ended ∧
          (p.manager.step (.deliver bytes)).link.written = p.manager.link.written ∧
          (p.manager.step (.deliver bytes)).link.writable = p.manager.link.writable := by
        simp only [Manager.step]
        split <;> exact ⟨rfl, rfl, rfl⟩
      obtain ⟨hended, hwritten, hstill⟩ := hlink
      have hfinishes : (p.advance (.deliver bytes)).Finishes rest ↔
          p.Finishes (.deliver bytes :: rest) := by
        simp only [Finishes, advance, hended, List.mem_cons, reduceCtorEq, false_or]
      rw [← List.append_assoc, ← Manager.stream_deliver, List.append_assoc] at hbrings
      have hserves := ih (p := p.advance (.deliver bytes)) h (hstill.trans hwritable)
        (fun hover => hmore (hfinishes.1 hover)) hbrings hpatient
      exact .cons rfl (by rintro m ⟨⟩) rfl (.of_eq hwritten) hfinishes hserves
    | finish =>
      have hfinishes : (p.advance .finish).Finishes rest ↔ p.Finishes (.finish :: rest) :=
        ⟨fun _ => .inr List.mem_cons_self, fun _ => .inl rfl⟩
      rw [← Manager.coming_finish] at hbrings
      have hserves := ih (p := p.advance .finish) h hwritable
        (fun hover => hmore (hfinishes.1 hover)) hbrings hpatient
      exact .cons rfl (by rintro m ⟨⟩) rfl (.of_eq rfl) hfinishes hserves
    | receive reads =>
      have hnothing : p.manager.link.ended = true → p.manager.coming rest ++ more = [] := by
        intro hover
        rw [Manager.coming, if_pos hover, hmore (.inl hover), List.append_nil]
      obtain ⟨result, hresult, hturn⟩ := turn_receive h hwritable hbrings hnothing reads
      have hresults : p.results (.receive reads :: rest) =
          result :: (p.advance (.receive reads)).results rest := by
        rw [results, hresult]
        rfl
      rw [hresults] at hpatient
      have hfinishes (hkeeps : p.Keeps (p.advance (.receive reads))) :
          (p.advance (.receive reads)).Finishes rest ↔ p.Finishes (.receive reads :: rest) := by
        simp only [Finishes, hkeeps.2, List.mem_cons, reduceCtorEq, false_or]
      have hcoming (hkeeps : p.Keeps (p.advance (.receive reads))) :
          (p.advance (.receive reads)).manager.coming rest = p.manager.coming rest := by
        rw [Manager.coming, hkeeps.2, Manager.coming]
      cases hturn with
      | @last first messages hlast hphase hsends =>
        obtain ⟨hreceived, hphase', hsends'⟩ := over_cons hresult hphase hsends rest
        have hfirst : p.received (.receive reads :: rest) = [first] := hreceived
        have hanswers : [first].filterMap acknowledgement? = [] := by
          rw [List.filterMap_cons, acknowledgement?_of_isLast hlast, List.filterMap_nil]
        refine ⟨hfirst ▸ List.prefix_append [first] messages, ?_, .inr (.inl ⟨hphase', [], first,
          hfirst, hlast, List.forall_mem_nil _⟩)⟩
        rwa [hfirst, hanswers]
      | @message first messages hlast hphase hsends hkeeps hrest hlength =>
        have hserves : (p.advance (.receive reads)).Serves rest more messages :=
          ih (hphase ▸ h) (hkeeps.1.trans hwritable)
            (fun hover => hmore ((hfinishes hkeeps).1 hover))
            (by rw [hcoming hkeeps]; exact hrest)
            (hpatient.imp hphase.trans fun hnone hmem => hnone (List.mem_cons_of_mem _ hmem))
        exact .cons hresult (by rintro m ⟨⟩; exact hlast) hphase hsends (hfinishes hkeeps) hserves
      | loss hended hphase hsends =>
        obtain ⟨hreceived, hphase', hsends'⟩ := over_cons hresult hphase hsends rest
        have hnone : p.received (.receive reads :: rest) = [] := hreceived
        refine ⟨hnone ▸ List.nil_prefix, ?_, .inr (.inr ⟨hphase', hnone, List.forall_mem_nil _,
          .inl hended⟩)⟩
        rwa [hnone]
      | @timeout messages hwatching hreads =>
        have hwatch : p.phase = .watching := hpatient.resolve_right fun hnone =>
          hnone List.mem_cons_self
        obtain ⟨hphase, hsends, hkeeps, hstream⟩ := hwatching hwatch
        have hserves : (p.advance (.receive reads)).Serves rest more messages :=
          ih (hphase ▸ h) (hkeeps.1.trans hwritable)
            (fun hover => hmore ((hfinishes hkeeps).1 hover))
            (by rw [hcoming hkeeps, hstream]; exact hbrings) (.inl (hphase.trans hwatch))
        exact .cons hresult (by rintro m ⟨⟩) hphase hsends (hfinishes hkeeps) hserves

/-- With receipts enough, each of them with time for all that is there, the probe comes to an end:
either what it is waiting for is there, or the end of the stream is. -/
theorem ends_of_receipts {turns : List (List Nat)} {size : Nat} (h : p.phase.Attends)
    (hwritable : p.manager.link.writable = true)
    (hbrings : Manager.Brings p.manager.stream messages)
    (hcomes : p.manager.link.ended = true ∨ ∃ m ∈ messages, p.phase.IsLast m)
    (hsize : p.manager.stream.length ≤ size)
    (hreads : ∀ reads ∈ turns, Manager.Exhausts reads size)
    (hlength : messages.length < turns.length) :
    .error .timeout ∉ p.results (turns.map .receive) ∧
      ∃ ending, (p.after (turns.map .receive)).phase = .ended ending := by
  induction turns generalizing p messages with
  | nil => exact absurd hlength (Nat.not_lt_zero _)
  | cons reads rest ih =>
    obtain ⟨hfirst, hrests⟩ := List.forall_mem_cons.1 hreads
    rw [← List.append_nil p.manager.stream] at hbrings
    obtain ⟨result, hresult, hturn⟩ := turn_receive h hwritable hbrings (fun _ => rfl) reads
    rw [List.append_nil] at hbrings
    rw [List.map_cons, results, hresult, after_cons, Option.toList_some, List.singleton_append]
    cases hturn with
    | last hlast hphase hsends =>
      obtain ⟨hnone, hphase', -⟩ := after_of_ended hphase (rest.map .receive)
      rw [hnone]
      exact ⟨by simp, .done, hphase'⟩
    | @message first messages hlast hphase hsends hkeeps hrest hshorter =>
      rw [List.append_nil] at hrest
      have hcomes' : (p.advance (.receive reads)).manager.link.ended = true ∨
          ∃ m ∈ messages, (p.advance (.receive reads)).phase.IsLast m := by
        rw [hkeeps.2, hphase]
        refine hcomes.imp_right fun ⟨m, hm, hwaits⟩ => ⟨m, ?_, hwaits⟩
        exact (List.mem_cons.1 hm).resolve_left fun heq => hlast (heq ▸ hwaits)
      obtain ⟨hnone, hends⟩ := ih (hphase ▸ h) (hkeeps.1.trans hwritable) hrest hcomes'
        (Nat.le_trans hshorter hsize) hrests (Nat.lt_of_succ_lt_succ hlength)
      exact ⟨by simpa using hnone, hends⟩
    | loss hended hphase hsends =>
      obtain ⟨hnone, hphase', -⟩ := after_of_ended hphase (rest.map .receive)
      rw [hnone]
      exact ⟨by simp, _, hphase'⟩
    | timeout hwatching hwait =>
      -- There was time enough, so nothing can be left, and nothing can be on the way.
      exfalso
      have hunread : p.manager.link.unread.length ≤ size := by
        refine Nat.le_trans ?_ hsize
        rw [Manager.stream, List.length_append]
        exact Nat.le_add_left _ _
      obtain ⟨hopen, needed, hincomplete⟩ := hwait (hfirst.mono hunread)
      obtain rfl := hbrings.eq_nil hincomplete
      rcases hcomes with hended | ⟨m, hm, -⟩
      · rw [hended] at hopen
        cases hopen
      · cases hm

theorem results_append (p : Probe) (before later : List Manager.Event) :
    p.results (before ++ later) = p.results before ++ (p.after before).results later := by
  induction before generalizing p with
  | nil => rfl
  | cons event rest ih => rw [List.cons_append, results, results, ih, after_cons, List.append_assoc]

/-- Receipts add nothing to what is still to come. -/
theorem coming_append_receive (m : Manager) (events : List Manager.Event)
    (turns : List (List Nat)) : m.coming (events ++ turns.map .receive) = m.coming events := by
  have hnone : Manager.written (turns.map .receive) = [] := by
    induction turns with
    | nil => rfl
    | cons reads rest ih => exact ih
  have hwritten : Manager.written (events ++ turns.map .receive) = Manager.written events := by
    induction events with
    | nil => exact hnone
    | cons event rest ih =>
      cases event with
      | deliver bytes => exact congrArg (bytes ++ ·) ih
      | finish => rfl
      | receive reads => exact ih
  rw [Manager.coming, hwritten, Manager.coming]

/-- After some events receipts enough bring the probe to its end. -/
theorem not_goesOn {turns : List (List Nat)} (h : p.phase.Attends)
    (hwritable : p.manager.link.writable = true)
    (hbrings : Manager.Brings (p.manager.stream ++ p.manager.coming events) messages)
    (hpatient : p.phase = .watching ∨ .error .timeout ∉ p.results events)
    (hcomes : p.Finishes events ∨ ∃ m ∈ messages, p.phase.IsLast m)
    (hreads : ∀ reads ∈ turns, Manager.Exhausts reads (p.after events).manager.stream.length)
    (hlength : messages.length < turns.length) :
    p.Serves (events ++ turns.map .receive) [] messages ∧
      ¬ p.GoesOn (events ++ turns.map .receive) [] messages := by
  have hbrings' : Manager.Brings (p.manager.stream ++ (p.manager.coming events ++ []))
      messages := by rwa [List.append_nil]
  have hserves := serves h hwritable (fun _ => rfl) hbrings' hpatient
  have hends : .error .timeout ∉ (p.after events).results (turns.map .receive) ∧
      ∃ ending, ((p.after events).after (turns.map .receive)).phase = .ended ending := by
    rcases hserves.phase with hgoes | ⟨hdone, -⟩ | ⟨hlost, -⟩
    · obtain ⟨rest, hrest, hleft⟩ := hgoes.rest
      rw [List.append_nil] at hleft
      refine ends_of_receipts (hgoes.phase ▸ h) hgoes.writable hleft ?_ (Nat.le_refl _) hreads ?_
      · rw [hgoes.ended_iff, hgoes.phase]
        refine hcomes.imp_right fun ⟨m, hm, hlast⟩ => ⟨m, ?_, hlast⟩
        rw [hrest, List.mem_append] at hm
        exact hm.resolve_left fun hreceived => hgoes.not_last m hreceived hlast
      · rw [hrest, List.length_append] at hlength
        omega
    · obtain ⟨hnone, hphase, -⟩ := after_of_ended hdone (turns.map .receive)
      exact ⟨hnone ▸ List.not_mem_nil, _, hphase⟩
    · obtain ⟨hnone, hphase, -⟩ := after_of_ended hlost (turns.map .receive)
      exact ⟨hnone ▸ List.not_mem_nil, _, hphase⟩
  obtain ⟨hnone, ending, hended⟩ := hends
  rw [← after_append] at hended
  refine ⟨serves h hwritable (fun _ => rfl) ?_ (hpatient.imp_right fun hearlier => ?_), ?_⟩
  · rwa [coming_append_receive]
  · rw [results_append, List.mem_append, not_or]
    exact ⟨hearlier, hnone⟩
  · intro hgoes
    rw [hgoes.phase] at hended
    rw [hended] at h
    cases h

end Probe

end Vdc
