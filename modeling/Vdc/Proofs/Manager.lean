import Mathlib.Algebra.GroupWithZero.Nat
import Vdc.Manager
import Vdc.Proofs.Frame

/-!
# Waiting for an answer

A session manager numbers its requests and the endpoint numbers its own, each from one on, so the
same number is in use in both directions. `Manager.receiveResponse` goes by the number alone:
`receiveResponse_spec` says that it returns the first message with the number, whatever that is, and
hands out everything before it. It returns an answer, with everything else handed out, exactly if
that first message is an answer.
-/

namespace Vdc

/-- A payload that an endpoint answers a request with. -/
def Payload.isAnswer : Payload → Bool
  | .genericResponse _ _ | .responseHello _ | .propertyResponse _ => true
  | _ => false

/-- A message answers a request: it has its id, and a payload to answer with. -/
def Message.Answers (m : Message) (id : RequestId) : Prop :=
  m.id = id ∧ m.payload.isAnswer = true

namespace Manager

/-- All that has arrived and is not used up. -/
def stream (m : Manager) : List UInt8 := m.buffer ++ m.link.unread

/-- What the frames that have arrived are read as. -/
def arrivals (m : Manager) : List (Except Error Message) :=
  (Frame.payloads defaultFrameLimit m.stream).map Message.decode

/-- What waiting for an answer is to come to: an answer, and every message that arrived before it
handed out once and in order. -/
def ReturnsAnswer (id : RequestId) (messages : List Message)
    (outcome : List Message × Receipt Message) : Prop :=
  ∃ answer rest, outcome.2.result = .ok answer ∧ answer.Answers id ∧
    messages = outcome.1 ++ answer :: rest ∧ ∀ other ∈ outcome.1, ¬ other.Answers id

/-! ## One receipt -/

/-- A frame in the buffer is at the front of the stream, and taking it off leaves the rest. -/
theorem parse_stream {m : Manager} {payload : List UInt8} {consumed : Nat}
    (h : Frame.parse defaultFrameLimit m.buffer = .complete payload consumed) :
    Frame.parse defaultFrameLimit m.stream = .complete payload consumed ∧
      stream { m with buffer := m.buffer.drop consumed } = m.stream.drop consumed :=
  ⟨Frame.parse_append h m.link.unread,
    (List.drop_append_of_le_length (Frame.consumed_le h)).symm⟩

/-- A frame in the buffer is the first that has arrived. -/
theorem arrivals_of_complete {m : Manager} {payload : List UInt8} {consumed : Nat}
    (h : Frame.parse defaultFrameLimit m.buffer = .complete payload consumed) :
    m.arrivals =
      Message.decode payload :: arrivals { m with buffer := m.buffer.drop consumed } := by
  obtain ⟨hfront, hstream⟩ := parse_stream h
  rw [arrivals, Frame.payloads_of_complete hfront, List.map_cons, ← hstream, arrivals]

theorem stream_of_unread {m : Manager} (h : m.link.unread = []) : m.stream = m.buffer := by
  rw [stream, h, List.append_nil]

/-- Nothing has arrived if the buffer holds all there is and no frame in it is complete. -/
theorem arrivals_eq_nil_of_unread {m : Manager} {needed : Nat} (hunread : m.link.unread = [])
    (h : Frame.parse defaultFrameLimit m.buffer = .incomplete needed) : m.arrivals = [] := by
  have hnone : Frame.payloads defaultFrameLimit m.stream = [] := by
    refine Frame.payloads_eq_nil fun payload consumed hcomplete => ?_
    rw [stream_of_unread hunread, h] at hcomplete
    cases hcomplete
  rw [arrivals, hnone, List.map_nil]

/-- A read moves bytes to the buffer and leaves the stream as it is. -/
theorem stream_read (m : Manager) (size : Nat) :
    stream { m with
      buffer := m.buffer ++ m.link.unread.take size
      link := { m.link with unread := m.link.unread.drop size } } = m.stream := by
  simp only [stream, List.append_assoc, List.take_append_drop]

/-- A receipt takes the first arrival, or takes nothing and fails. -/
theorem receive_spec (m : Manager) (reads : List Nat) :
    m.arrivals = (m.receive reads).result :: (m.receive reads).manager.arrivals ∨
      (m.receive reads).manager.arrivals = m.arrivals ∧
        ∃ e, (m.receive reads).result = .error e := by
  -- A frame in the buffer is the first arrival; every read before it leaves the stream as it is.
  fun_induction receive m reads with
  | case1 reads m payload consumed hcomplete => exact .inl (arrivals_of_complete hcomplete)
  | case2 | case3 | case5 | case6 => exact .inr ⟨rfl, _, rfl⟩
  | case4 m needed hneeded rest ih => exact ih
  | case7 m needed hneeded size rest hsize hunread ih =>
    simpa only [arrivals, stream_read] using ih

/-- With reads enough for all that is unread, a receipt takes the first arrival if there is one. -/
theorem receive_of_reads {m : Manager} {reads : List Nat} (harrivals : m.arrivals ≠ [])
    (hreads : m.link.unread.length ≤ reads.sum) :
    m.arrivals = (m.receive reads).result :: (m.receive reads).manager.arrivals ∧
      (m.receive reads).manager.link.unread.length ≤ (m.receive reads).reads.sum := by
  fun_induction receive m reads with
  | case1 reads m payload consumed hcomplete => exact ⟨arrivals_of_complete hcomplete, hreads⟩
  | case2 reads m fault hinvalid =>
    refine absurd ?_ harrivals
    have hnone : Frame.payloads defaultFrameLimit m.stream = [] := by
      refine Frame.payloads_eq_nil fun payload consumed hcomplete => ?_
      rw [stream, Frame.parse_append_of_invalid hinvalid] at hcomplete
      cases hcomplete
    rw [arrivals, hnone, List.map_nil]
  | case3 m needed hneeded =>
    -- No read is left, so nothing was unread, and the buffer holds no frame.
    have hunread : m.link.unread = [] := List.eq_nil_of_length_eq_zero (by simpa using hreads)
    exact absurd (arrivals_eq_nil_of_unread hunread hneeded) harrivals
  | case4 m needed hneeded rest ih => exact ih harrivals (by simpa using hreads)
  | case5 m needed hneeded size rest hsize hunread
  | case6 m needed hneeded size rest hsize hunread =>
    exact absurd (arrivals_eq_nil_of_unread (by simpa using hunread) hneeded) harrivals
  | case7 m needed hneeded size rest hsize hunread ih =>
    have hread := ih (by simpa only [arrivals, stream_read] using harrivals) (by
      rw [List.sum_cons] at hreads
      rw [List.length_drop]
      omega)
    simpa only [arrivals, stream_read] using hread

/-! ## Until the answer -/

/-- Whatever the reads, what is handed out are the first arrivals, none of them with the id, and
what is returned has the id and is the next. -/
theorem receiveResponse_arrivals (m : Manager) (id : RequestId) (reads : List Nat) :
    (∀ other ∈ (m.receiveResponse id reads).1, other.id ≠ id) ∧
      ∃ rest, m.arrivals = (m.receiveResponse id reads).1.map .ok ++ rest ∧
        ∀ answer, (m.receiveResponse id reads).2.result = .ok answer →
          answer.id = id ∧ ∃ later, rest = .ok answer :: later := by
  -- Each receipt takes one arrival, so one step puts it in front of what the rest comes to.
  fun_induction receiveResponse m id reads with
  | case1 m reads e herror => exact ⟨by simp, m.arrivals, by simp, fun answer h => by cases h⟩
  | case2 m reads answer hok hid =>
    refine ⟨by simp, m.arrivals, by simp, fun answer' h => ?_⟩
    rw [hok] at h
    cases h
    rcases m.receive_spec reads with htaken | ⟨-, e, he⟩
    · exact ⟨hid, _, by rw [htaken, hok]⟩
    · rw [hok] at he
      cases he
  | case3 m reads other hok hid others last hrest ih =>
    rw [hrest] at ih
    obtain ⟨hothers, rest, hrests, hlast⟩ := ih
    refine ⟨List.forall_mem_cons.2 ⟨hid, hothers⟩, rest, ?_, hlast⟩
    rcases m.receive_spec reads with htaken | ⟨-, e, he⟩
    · rw [htaken, hok, hrests, List.map_cons, List.cons_append]
    · rw [hok] at he
      cases he

theorem receiveResponse_of_ok {m : Manager} {reads : List Nat} {message : Message}
    (id : RequestId) (h : (m.receive reads).result = .ok message) :
    m.receiveResponse id reads =
      if message.id = id then ([], m.receive reads)
      else
        (message :: (receiveResponse (m.receive reads).manager id (m.receive reads).reads).1,
          (receiveResponse (m.receive reads).manager id (m.receive reads).reads).2) := by
  rw [receiveResponse]
  split
  · next e herror =>
    rw [h] at herror
    cases herror
  · next message' hok =>
    rw [h] at hok
    cases hok
    rfl

/-- With reads enough for all that is unread, the first message with the id is returned. -/
theorem receiveResponse_of_reads {m : Manager} {id : RequestId} {reads : List Nat}
    {before : List Message} {answer : Message} {later : List (Except Error Message)}
    (harrivals : m.arrivals = before.map .ok ++ .ok answer :: later)
    (hbefore : ∀ other ∈ before, other.id ≠ id) (hanswer : answer.id = id)
    (hreads : m.link.unread.length ≤ reads.sum) :
    (m.receiveResponse id reads).2.result = .ok answer := by
  induction before generalizing m reads with
  | nil =>
    obtain ⟨htaken, -⟩ := receive_of_reads (by simp [harrivals]) hreads
    rw [harrivals] at htaken
    have hok := (List.cons.inj htaken).1.symm
    rw [receiveResponse_of_ok id hok, if_pos hanswer]
    exact hok
  | cons other rest ih =>
    obtain ⟨htaken, hreads'⟩ := receive_of_reads (by simp [harrivals]) hreads
    rw [harrivals] at htaken
    obtain ⟨hok, hrest⟩ := List.cons.inj htaken
    obtain ⟨hother, hrests⟩ := List.forall_mem_cons.1 hbefore
    rw [receiveResponse_of_ok id hok.symm, if_neg hother]
    exact ih hrest.symm hrests hreads'

/-- A session manager that waits for the answer to a request hands out messages in the order of
their arrival, each once, and returns the first with the id. With that every message but the answer
is handed out exactly if that first message is an answer. -/
theorem receiveResponse_spec {m : Manager} {messages : List Message} (id : RequestId)
    (reads : List Nat) (hstream : m.arrivals = messages.map .ok) :
    (m.receiveResponse id reads).1 <+: messages.takeWhile (·.id != id) ∧
      (∀ answer, (m.receiveResponse id reads).2.result = .ok answer →
        (m.receiveResponse id reads).1 = messages.takeWhile (·.id != id) ∧
          messages.find? (·.id == id) = some answer ∧
          (ReturnsAnswer id messages (m.receiveResponse id reads) ↔
            answer.payload.isAnswer = true)) ∧
      (m.link.unread.length ≤ reads.sum → ∀ answer, messages.find? (·.id == id) = some answer →
        (m.receiveResponse id reads).2.result = .ok answer) := by
  obtain ⟨hothers, rest, hrest, hlast⟩ := receiveResponse_arrivals m id reads
  obtain ⟨others, tail, rfl, hhanded, rfl⟩ := List.map_eq_append_iff.1 (hstream.symm.trans hrest)
  obtain rfl : others = (m.receiveResponse id reads).1 :=
    (List.map_inj_right fun _ _ h => Except.ok.inj h).1 hhanded
  have hpass : ∀ other ∈ (m.receiveResponse id reads).1, (other.id != id) = true := by
    intro other hmem
    simpa using hothers other hmem
  rw [List.takeWhile_append_of_pos hpass]
  refine ⟨List.prefix_append _ _, fun answer hresult => ?_, fun hreads answer hfind => ?_⟩
  · obtain ⟨hid, later, htail⟩ := hlast answer hresult
    obtain ⟨answer', tail, rfl, hanswer, -⟩ := List.map_eq_cons_iff.1 htail
    obtain rfl : answer' = answer := Except.ok.inj hanswer
    have hmiss : (m.receiveResponse id reads).1.find? (·.id == id) = none :=
      List.find?_eq_none.2 fun other hmem => by simpa using hothers other hmem
    refine ⟨by simp [hid], by simp [hmiss, hid], ?_⟩
    constructor
    · rintro ⟨answer', -, hresult', hanswers, -⟩
      rw [hresult] at hresult'
      cases hresult'
      exact hanswers.2
    · intro hkind
      exact ⟨answer', tail, hresult, ⟨hid, hkind⟩, rfl, fun other hmem h => hothers other hmem h.1⟩
  · obtain ⟨hid, before, after, hmessages, hbefore⟩ := List.find?_eq_some_iff_append.1 hfind
    have harrivals : m.arrivals = before.map .ok ++ .ok answer :: after.map .ok := by
      rw [hstream, hmessages, List.map_append, List.map_cons]
    refine receiveResponse_of_reads harrivals (fun other hmem => ?_) (by simpa using hid) hreads
    simpa using hbefore other hmem

/-! ## Two streams -/

/-- A session manager on a connection over which messages were sent to it; one that cannot be sent
is left out. -/
def sentTo (messages : List Message) : Manager :=
  let far := messages.foldl (fun m message => (m.send message).toOption.getD m)
    (onLink (.fresh "far"))
  onLink ((Link.fresh "near").deliver far.link.written)

theorem eq_ok_of_toOption {α : Type} {result : Except Error α} {a : α}
    (h : result.toOption = some a) : result = .ok a := by
  cases result with
  | error e => cases h
  | ok message' => exact congrArg Except.ok (Option.some.inj h)

theorem eq_map_ok_of_toOption {results : List (Except Error Message)} {messages : List Message}
    (h : results.map Except.toOption = messages.map some) : results = messages.map .ok := by
  induction results generalizing messages with
  | nil => simpa using h.symm
  | cons result rest ih =>
    cases messages with
    | nil => cases h
    | cons message messages =>
      obtain ⟨hfirst, hrest⟩ := List.cons.inj h
      rw [eq_ok_of_toOption hfirst, ih hrest, List.map_cons]

/-- The reply to a request comes after a notification, and is returned with that handed out. -/
theorem receiveResponse_after_pong :
    (sentTo [.notification (.pong "D1"), .genericResponse 1 .ok]).arrivals =
        [.ok (.notification (.pong "D1")), .ok (.genericResponse 1 .ok)] ∧
      ReturnsAnswer 1 [.notification (.pong "D1"), .genericResponse 1 .ok]
        ((sentTo [.notification (.pong "D1"), .genericResponse 1 .ok]).receiveResponse 1
          [4096]) := by
  have harrivals : (sentTo [.notification (.pong "D1"), .genericResponse 1 .ok]).arrivals =
      [Message.notification (.pong "D1"), .genericResponse 1 .ok].map .ok :=
    eq_map_ok_of_toOption (by decide +kernel)
  obtain ⟨-, hreturned, hreads⟩ := receiveResponse_spec 1 [4096] harrivals
  have hresult := hreads (by decide +kernel) (.genericResponse 1 .ok) (by decide +kernel)
  exact ⟨harrivals, (hreturned _ hresult).2.2.2 rfl⟩

/-- An announcement with the number of a request is returned for the answer, and the answer that
comes after it stays unread. -/
theorem receiveResponse_announcement :
    (sentTo [⟨1, .announceDevice "D2" "D1"⟩, ⟨1, .propertyResponse []⟩]).arrivals =
        [.ok ⟨1, .announceDevice "D2" "D1"⟩, .ok ⟨1, .propertyResponse []⟩] ∧
      (∃ answer ∈ [⟨1, .announceDevice "D2" "D1"⟩, ⟨1, .propertyResponse []⟩],
        Message.Answers answer 1) ∧
      ((sentTo [⟨1, .announceDevice "D2" "D1"⟩, ⟨1, .propertyResponse []⟩]).receiveResponse 1
        [4096]).2.result = .ok ⟨1, .announceDevice "D2" "D1"⟩ ∧
      ¬ ReturnsAnswer 1 [⟨1, .announceDevice "D2" "D1"⟩, ⟨1, .propertyResponse []⟩]
        ((sentTo [⟨1, .announceDevice "D2" "D1"⟩, ⟨1, .propertyResponse []⟩]).receiveResponse 1
          [4096]) := by
  have harrivals : (sentTo [⟨1, .announceDevice "D2" "D1"⟩, ⟨1, .propertyResponse []⟩]).arrivals =
      [⟨1, .announceDevice "D2" "D1"⟩, ⟨1, .propertyResponse []⟩].map .ok :=
    eq_map_ok_of_toOption (by decide +kernel)
  have hresult : ((sentTo [⟨1, .announceDevice "D2" "D1"⟩,
      ⟨1, .propertyResponse []⟩]).receiveResponse 1 [4096]).2.result =
        .ok ⟨1, .announceDevice "D2" "D1"⟩ := eq_ok_of_toOption (by decide +kernel)
  refine ⟨harrivals, ⟨⟨1, .propertyResponse []⟩, by simp, rfl, rfl⟩, hresult, ?_⟩
  rintro ⟨answer, rest, hanswer, ⟨-, hkind⟩, -⟩
  rw [hresult] at hanswer
  cases hanswer
  cases hkind

end Manager

end Vdc
