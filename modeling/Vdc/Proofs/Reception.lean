import Vdc.Proofs.Manager

/-!
# Messages from a stream, however it is cut

A session manager receives over and over while its peer writes. `receivesStream` says that neither
the portions in which the bytes come nor the times that it waits matter for what it receives: the
results other than the end of a waiting time are those of the frames of the whole stream, in order,
and then one error again and again. Bytes that come during a wait count as having come before it;
the reads bring them in any portions.

`Outcome` tells what one receipt can come to by what stands at the front of all that has come and is
not used up, `Manager.stream`. A read only moves the boundary between the two parts of that, the
buffer and what is unread, so it changes nothing about the outcome. The run follows from it by
induction over the events.
-/

namespace Vdc

/-- A payload that is not read as a message is malformed, and nothing else. -/
theorem Message.eq_malformed_of_decode {payload : List UInt8} {e : Error}
    (h : decode payload = .error e) : e = .protocol .malformed := by
  unfold decode at h
  split at h
  · cases h
  · exact (Except.error.inj h).symm

namespace Manager

variable {m : Manager} {reads : List Nat} {bytes whole : List UInt8}

/-! ## One receipt -/

/-- Reads bring some number of bytes and are not used up then: one more finds whether there is an
end. -/
def Exhausts : List Nat → Nat → Prop
  | [], _ => False
  | size :: rest, unread => (0 < size ∧ unread = 0) ∨ Exhausts rest (unread - size)

/-- What a receipt within some reads can come to. -/
inductive Outcome (m : Manager) (reads : List Nat) : Receipt Message → Prop
  /-- The payload at the front is read as a message, or is none; it is used up in any case. -/
  | payload {payload : List UInt8} {consumed : Nat} {m' : Manager} {left : List Nat}
      (hparse : Frame.parse defaultFrameLimit m.stream = .complete payload consumed)
      (hstream : m'.stream = m.stream.drop consumed) (hended : m'.link.ended = m.link.ended) :
      Outcome m reads ⟨Message.decode payload, m', left⟩
  /-- The length at the front is out of range, and is in the buffer. -/
  | fault {fault : ProtocolFault} {m' : Manager} {left : List Nat}
      (hparse : Frame.parse defaultFrameLimit m'.buffer = .invalid fault)
      (hstream : m'.stream = m.stream) (hended : m'.link.ended = m.link.ended) :
      Outcome m reads ⟨.error (.protocol fault.inStream), m', left⟩
  /-- There is no frame at the front, and there will be none. -/
  | ended {needed : Nat} {m' : Manager} {left : List Nat}
      (hparse : Frame.parse defaultFrameLimit m.stream = .incomplete needed)
      (hstream : m'.stream = m.stream) (hover : m.link.ended = true)
      (hended : m'.link.ended = m.link.ended) :
      Outcome m reads ⟨.error (.transport .unexpectedEof), m', left⟩
  /-- The time is up; with reads enough that is because there is no frame at the front yet. -/
  | timeout {m' : Manager} {left : List Nat} (hstream : m'.stream = m.stream)
      (hended : m'.link.ended = m.link.ended)
      (hreads : Exhausts reads m.link.unread.length → m.link.ended = false ∧
        ∃ needed, Frame.parse defaultFrameLimit m.stream = .incomplete needed) :
      Outcome m reads ⟨.error .timeout, m', left⟩

/-- A read changes nothing about what a receipt comes to. -/
theorem Outcome.of_read {m' : Manager} {rest : List Nat} {receipt : Receipt Message}
    (h : Outcome m' rest receipt) (hstream : m'.stream = m.stream)
    (hended : m'.link.ended = m.link.ended)
    (hreads : Exhausts reads m.link.unread.length → Exhausts rest m'.link.unread.length) :
    Outcome m reads receipt := by
  cases h with
  | payload hparse hrest hstill =>
    rw [hstream] at hparse hrest
    exact .payload hparse hrest (hstill.trans hended)
  | fault hparse hrest hstill => exact .fault hparse (hrest.trans hstream) (hstill.trans hended)
  | ended hparse hrest hover hstill =>
    rw [hstream] at hparse
    exact .ended hparse (hrest.trans hstream) (hended ▸ hover) (hstill.trans hended)
  | timeout hrest hstill hwait =>
    rw [hstream, hended] at hwait
    exact .timeout (hrest.trans hstream) (hstill.trans hended) fun h => hwait (hreads h)

theorem outcome_receive (m : Manager) (reads : List Nat) : Outcome m reads (m.receive reads) := by
  fun_induction receive m reads with
  | case1 reads m payload consumed hcomplete =>
    obtain ⟨hfront, hstream⟩ := parse_stream hcomplete
    exact .payload hfront hstream rfl
  | case2 reads m fault hinvalid => exact .fault hinvalid rfl rfl
  | case3 m needed hneeded => exact .timeout rfl rfl (absurd · id)
  | case4 m needed hneeded rest ih =>
    exact ih.of_read rfl rfl fun hreads => hreads.resolve_left fun h => Nat.lt_irrefl 0 h.1
  | case5 m needed hneeded size rest hsize hunread hended =>
    have hstream := stream_of_unread (List.isEmpty_iff.1 hunread)
    exact .ended (hstream ▸ hneeded) rfl hended rfl
  | case6 m needed hneeded size rest hsize hunread hended =>
    have hstream := stream_of_unread (List.isEmpty_iff.1 hunread)
    exact .timeout rfl rfl fun _ => ⟨Bool.not_eq_true _ ▸ hended, needed, hstream ▸ hneeded⟩
  | case7 m needed hneeded size rest hsize hunread ih =>
    refine ih.of_read (stream_read m size) rfl fun hreads => ?_
    have hsome : m.link.unread.length ≠ 0 := fun hnone =>
      hunread (List.isEmpty_iff.2 (List.eq_nil_of_length_eq_zero hnone))
    rw [List.length_drop]
    exact hreads.resolve_left fun h => hsome h.2

/-- A receipt without any time looks at the buffer only. -/
theorem receive_nil_of_buffer (m : Manager) (link : Link) :
    (m.receive []).manager.link = m.link ∧
      (receive { m with link := link } []).result = (m.receive []).result := by
  unfold receive
  cases Frame.parse defaultFrameLimit m.buffer with
  | complete | incomplete | invalid => exact ⟨rfl, rfl⟩

/-- A length out of range in the buffer is reported without a read. -/
theorem receive_of_invalid {fault : ProtocolFault}
    (h : Frame.parse defaultFrameLimit m.buffer = .invalid fault) (reads : List Nat) :
    m.receive reads = ⟨.error (.protocol fault.inStream), m, reads⟩ := by
  rw [receive.eq_def]
  simp only [h]

/-! ## Receiving over and over -/

/-- What happens on the connection of a session manager that receives over and over. -/
inductive Event where
  /-- Bytes come from the peer. -/
  | deliver (bytes : List UInt8)
  /-- The peer has finished writing. -/
  | finish
  /-- The next message is waited for. -/
  | receive (reads : List Nat)

/-- The session manager after an event. Nothing comes from a peer that has finished. -/
def step (m : Manager) : Event → Manager
  | .deliver bytes => if m.link.ended then m else { m with link := m.link.deliver bytes }
  | .finish => { m with link := { m.link with ended := true } }
  | .receive reads => (m.receive reads).manager

/-- The session manager after some events, in their order. -/
def after (m : Manager) (events : List Event) : Manager := events.foldl step m

/-- What an event results in, if it is a receipt. -/
def result? (m : Manager) : Event → Option (Except Error Message)
  | .receive reads => some (m.receive reads).result
  | .deliver _ | .finish => none

/-- What the receipts among some events result in. -/
def results (m : Manager) : List Event → List (Except Error Message)
  | [] => []
  | event :: rest => (m.result? event).toList ++ (m.step event).results rest

/-- Whether a result says that the time was up. -/
def isTimeout : Except Error Message → Bool
  | .error .timeout => true
  | _ => false

/-- All that a peer writes until it has finished. -/
def written : List Event → List UInt8
  | .deliver bytes :: rest => bytes ++ written rest
  | .receive _ :: rest => written rest
  | .finish :: _ | [] => []

/-- What is left to report after all frames of a stream. -/
def ending (whole : List UInt8) : Error :=
  match (Frame.split defaultFrameLimit whole).2 with
  | .invalid fault => .protocol fault.inStream
  | _ => .transport .unexpectedEof

/-- What the frames of a stream are read as, and then some reports of how it ends. -/
def course (whole : List UInt8) (reports : Nat) : List (Except Error Message) :=
  (Frame.payloads defaultFrameLimit whole).map Message.decode ++
    List.replicate reports (.error (ending whole))

theorem course_of_complete {payload : List UInt8} {consumed : Nat}
    (h : Frame.parse defaultFrameLimit whole = .complete payload consumed) (reports : Nat) :
    course whole reports = Message.decode payload :: course (whole.drop consumed) reports := by
  simp only [course, ending, Frame.payloads_of_complete h, Frame.split_of_complete h,
    List.map_cons, List.cons_append]

theorem course_of_invalid {fault : ProtocolFault}
    (h : Frame.parse defaultFrameLimit whole = .invalid fault) (reports : Nat) :
    course whole reports = List.replicate reports (.error (.protocol fault.inStream)) := by
  have hsplit : Frame.split defaultFrameLimit whole = ([], .invalid fault) := by
    rw [Frame.split_of_ne_complete (by simp [h]), h]
  simp only [course, ending, Frame.payloads, hsplit, List.map_nil, List.nil_append]

theorem course_of_incomplete {needed : Nat}
    (h : Frame.parse defaultFrameLimit whole = .incomplete needed) (reports : Nat) :
    course whole reports = List.replicate reports (.error (.transport .unexpectedEof)) := by
  have hsplit : Frame.split defaultFrameLimit whole = ([], .incomplete needed) := by
    rw [Frame.split_of_ne_complete (by simp [h]), h]
  simp only [course, ending, Frame.payloads, hsplit, List.map_nil, List.nil_append]

theorem course_prefix_succ (whole : List UInt8) (reports : Nat) :
    course whole reports <+: course whole (reports + 1) := by
  rw [course, course, List.replicate_succ', ← List.append_assoc]
  exact List.prefix_append _ _

theorem isTimeout_decode (payload : List UInt8) : isTimeout (Message.decode payload) = false := by
  cases hdecode : Message.decode payload with
  | ok message => rfl
  | error e =>
    obtain rfl := Message.eq_malformed_of_decode hdecode
    rfl

/-- All that is still to come, if a peer writes it that may have finished already. -/
def coming (m : Manager) (events : List Event) : List UInt8 :=
  if m.link.ended then [] else written events

theorem stream_deliver (m : Manager) (bytes : List UInt8) (rest : List Event) :
    (m.step (.deliver bytes)).stream ++ (m.step (.deliver bytes)).coming rest =
      m.stream ++ m.coming (.deliver bytes :: rest) := by
  by_cases hended : m.link.ended = true
  · simp only [step, coming, hended, if_true]
  · simp [step, coming, hended, Link.deliver, stream, written]

theorem coming_finish (m : Manager) (rest : List Event) :
    (m.step .finish).coming rest = m.coming (.finish :: rest) := by
  simp [step, coming, written]

/-- The results that are no timeouts are what the stream is read as: what is unused of it and all
that is still to come. -/
theorem results_prefix (events : List Event) (m : Manager) (more : List UInt8)
    (hmore : m.link.ended = true ∨ .finish ∈ events → more = []) :
    (m.results events).filter (!isTimeout ·) <+:
      course (m.stream ++ m.coming events ++ more) events.length := by
  induction events generalizing m with
  | nil => exact List.nil_prefix
  | cons event rest ih =>
    rw [List.length_cons]
    cases event with
    | deliver bytes =>
      have hended : (m.step (.deliver bytes)).link.ended = m.link.ended := by
        simp only [step]
        split <;> rfl
      have hrest := ih (m.step (.deliver bytes)) fun h =>
        hmore (h.imp (hended ▸ ·) (List.mem_cons_of_mem _))
      rw [stream_deliver] at hrest
      exact hrest.trans (course_prefix_succ _ _)
    | finish =>
      have hrest := ih (m.step .finish) fun _ => hmore (.inr List.mem_cons_self)
      rw [coming_finish] at hrest
      exact hrest.trans (course_prefix_succ _ _)
    | receive reads =>
      have houtcome := outcome_receive m reads
      have hrest := ih (m.receive reads).manager
      simp only [results, result?, step, Option.toList_some, List.singleton_append]
      generalize m.receive reads = receipt at houtcome hrest ⊢
      have hcoming : m.coming (.receive reads :: rest) = m.coming rest := rfl
      have hlater {m' : Manager} (hended : m'.link.ended = m.link.ended) :
          m'.coming rest = m.coming rest ∧
            (m'.link.ended = true ∨ .finish ∈ rest → more = []) := by
        refine ⟨by rw [coming, hended, coming], fun h => hmore ?_⟩
        exact h.imp (hended ▸ ·) (List.mem_cons_of_mem _)
      rw [hcoming, List.append_assoc]
      cases houtcome with
      | @payload payload consumed m' left hparse hstream hended =>
        obtain ⟨hsame, hnone⟩ := hlater hended
        have hdrop : (m.stream ++ (m.coming rest ++ more)).drop consumed =
            m'.stream ++ (m.coming rest ++ more) := by
          rw [List.drop_append_of_le_length (Frame.consumed_le hparse), hstream]
        rw [course_of_complete (Frame.parse_append hparse _), hdrop,
          List.filter_cons_of_pos (by simp [isTimeout_decode])]
        have htail := hrest hnone
        rw [hsame, List.append_assoc] at htail
        exact List.cons_prefix_cons.2 ⟨rfl, htail.trans (course_prefix_succ _ _)⟩
      | @fault fault m' left hparse hstream hended =>
        obtain ⟨hsame, hnone⟩ := hlater hended
        have hfront : Frame.parse defaultFrameLimit m.stream = .invalid fault :=
          hstream ▸ Frame.parse_append_of_invalid hparse m'.link.unread
        have htail := hrest hnone
        rw [hsame, hstream, List.append_assoc] at htail
        rw [course_of_invalid (Frame.parse_append_of_invalid hfront _)] at htail ⊢
        exact List.cons_prefix_cons.2 ⟨rfl, htail⟩
      | @ended needed m' left hparse hstream hover hended =>
        obtain ⟨hsame, hnone⟩ := hlater hended
        -- The stream has ended, so what is at its front now is all there is.
        have hnothing : m.coming rest ++ more = [] := by
          rw [coming, if_pos hover, hmore (.inl hover), List.append_nil]
        have htail := hrest hnone
        rw [hsame, hstream, List.append_assoc, hnothing, List.append_nil] at htail
        rw [hnothing, List.append_nil, course_of_incomplete hparse]
        rw [course_of_incomplete hparse] at htail
        exact List.cons_prefix_cons.2 ⟨rfl, htail⟩
      | @timeout m' left hstream hended =>
        obtain ⟨hsame, hnone⟩ := hlater hended
        have htail := hrest hnone
        rw [hsame, hstream, List.append_assoc] at htail
        rw [List.filter_cons_of_neg (by simp [isTimeout])]
        exact htail.trans (course_prefix_succ _ _)

/-! ## Single events of a run -/

theorem after_append (m : Manager) (before later : List Event) :
    m.after (before ++ later) = (m.after before).after later := List.foldl_append

/-- A length out of range stays at the front of the buffer, whatever happens. -/
theorem parse_after_of_invalid {fault : ProtocolFault} (events : List Event)
    (h : Frame.parse defaultFrameLimit m.buffer = .invalid fault) :
    Frame.parse defaultFrameLimit (m.after events).buffer = .invalid fault := by
  induction events generalizing m with
  | nil => exact h
  | cons event rest ih =>
    refine ih (m := m.step event) ?_
    cases event with
    | deliver bytes =>
      simp only [step]
      split <;> exact h
    | finish => exact h
    | receive reads =>
      rw [step, receive_of_invalid h]
      exact h

/-- Once a length out of range was reported every later receipt reports it, and reads nothing. -/
theorem receive_after_of_outOfSync {length limit : Nat}
    (h : (m.receive reads).result = .error (.protocol (.outOfSync length limit)))
    (between : List Event) (reads' : List Nat) :
    ((m.receive reads).manager.after between).receive reads' =
      ⟨.error (.protocol (.outOfSync length limit)), (m.receive reads).manager.after between,
        reads'⟩ := by
  have houtcome := outcome_receive m reads
  generalize m.receive reads = receipt at houtcome h ⊢
  cases houtcome with
  | payload => cases Message.eq_malformed_of_decode h
  | @fault fault m' left hparse =>
    have hfault : fault.inStream = .outOfSync length limit :=
      Error.protocol.inj (Except.error.inj h)
    rw [receive_of_invalid (parse_after_of_invalid between hparse), hfault]
  | ended | timeout => cases h

/-- A receipt that times out has used nothing up, and with reads enough there was nothing to use. -/
theorem receive_of_timeout (h : (m.receive reads).result = .error .timeout) :
    (m.receive reads).manager.stream = m.stream ∧
      (Exhausts reads m.link.unread.length → m.link.ended = false ∧
        ∃ needed, Frame.parse defaultFrameLimit m.stream = .incomplete needed) := by
  have houtcome := outcome_receive m reads
  generalize m.receive reads = receipt at houtcome h ⊢
  cases houtcome with
  | payload => cases Message.eq_malformed_of_decode h
  | fault | ended => cases h
  | timeout hstream _ hwait => exact ⟨hstream, hwait⟩

/-- The end of the stream is reported only when the peer has finished. -/
theorem finish_mem_of_unexpectedEof {events : List Event}
    (h : .error (.transport .unexpectedEof) ∈ m.results events) :
    m.link.ended = true ∨ .finish ∈ events := by
  induction events generalizing m with
  | nil => cases h
  | cons event rest ih =>
    have hstep : ∀ {m' : Manager}, m'.link.ended = m.link.ended →
        m'.link.ended = true ∨ .finish ∈ rest → m.link.ended = true ∨ .finish ∈ event :: rest :=
      fun hended hrest => hrest.imp (hended ▸ ·) (List.mem_cons_of_mem _)
    cases event with
    | deliver bytes =>
      refine hstep ?_ (ih h)
      simp only [step]
      split <;> rfl
    | finish => exact .inr List.mem_cons_self
    | receive reads =>
      have houtcome := outcome_receive m reads
      simp only [results, result?, step, Option.toList_some, List.singleton_append,
        List.mem_cons] at h
      generalize m.receive reads = receipt at houtcome h
      cases houtcome with
      | @payload payload consumed m' left _ _ hended =>
        refine hstep hended (ih (h.resolve_left fun heq => ?_))
        cases Message.eq_malformed_of_decode heq.symm
      | fault _ _ hended => exact hstep hended (ih (h.resolve_left nofun))
      | ended _ _ hover => exact .inl hover
      | timeout _ hended => exact hstep hended (ih (h.resolve_left nofun))

/-! ## All receipts -/

/-- What a session manager receives, from the moment it has connected, in the course of some
events. -/
structure ReceivesStream (name : String) (events : List Event) : Prop where
  /-- Whatever the peer goes on to write, the results other than timeouts are those of the whole
  stream: each of its payloads as it is read, in order, and then how the stream ends. -/
  in_order : ∀ more, (.finish ∈ events → more = []) →
    ((onLink (.fresh name)).results events).filter (!isTimeout ·) <+:
      course (written events ++ more) events.length
  /-- The stream is at an end only when the peer has finished. -/
  ends : .error (.transport .unexpectedEof) ∈ (onLink (.fresh name)).results events →
    .finish ∈ events
  /-- A timeout loses no bytes, -/
  timeout_loses_nothing : ∀ before reads later, events = before ++ .receive reads :: later →
    let m := (onLink (.fresh name)).after before
    (m.receive reads).result = .error .timeout → (m.receive reads).manager.stream = m.stream
  /-- and if there was time to read everything, there is nothing to report yet. -/
  timeout_only_of_nothing : ∀ before reads later, events = before ++ .receive reads :: later →
    let m := (onLink (.fresh name)).after before
    Exhausts reads m.link.unread.length → (m.receive reads).result = .error .timeout →
      m.link.ended = false ∧ ∃ needed, Frame.parse defaultFrameLimit m.stream = .incomplete needed
  /-- A length out of range is reported by every later receipt too, and none of them reads. -/
  stuck : ∀ before reads between reads' later length limit,
    events = before ++ .receive reads :: (between ++ .receive reads' :: later) →
    (((onLink (.fresh name)).after before).receive reads).result =
      .error (.protocol (.outOfSync length limit)) →
    let m := (onLink (.fresh name)).after (before ++ .receive reads :: between)
    m.receive reads' = ⟨.error (.protocol (.outOfSync length limit)), m, reads'⟩
  /-- A receipt without any time neither reads nor depends on what could be read. -/
  buffered : ∀ before later, events = before ++ .receive [] :: later →
    let m := (onLink (.fresh name)).after before
    (m.receive []).manager.link = m.link ∧
      ∀ link, (receive { m with link := link } []).result = (m.receive []).result

/-- What a session manager receives depends neither on how the stream is cut into reads nor on how
long it waits. -/
theorem receivesStream (name : String) (events : List Event) : ReceivesStream name events where
  in_order more hmore := by
    have hstart : (onLink (.fresh name)).stream ++ (onLink (.fresh name)).coming events =
        written events := rfl
    have hresults := results_prefix events (onLink (.fresh name)) more fun h =>
      hmore (h.resolve_left nofun)
    rwa [hstart] at hresults
  ends h := (finish_mem_of_unexpectedEof h).resolve_left nofun
  timeout_loses_nothing before reads later _ := by
    intro m h
    exact (receive_of_timeout h).1
  timeout_only_of_nothing before reads later _ := by
    intro m hreads h
    exact (receive_of_timeout h).2 hreads
  stuck before reads between reads' later length limit _ h := by
    intro m
    have hm : m = (((onLink (.fresh name)).after before).receive reads).manager.after between :=
      after_append _ before (.receive reads :: between)
    rw [hm]
    exact receive_after_of_outOfSync h between reads'
  buffered before later _ := by
    intro m
    exact ⟨(receive_nil_of_buffer m m.link).1, fun link => (receive_nil_of_buffer m link).2⟩

end Manager

end Vdc
