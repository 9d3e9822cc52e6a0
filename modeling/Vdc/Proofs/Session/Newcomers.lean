import Vdc.Manager
import Vdc.Proofs.Message.Framing
import Vdc.Proofs.Session.Bystanders
import Vdc.Proofs.Session.Connections
import Vdc.Proofs.Session.Stream
import Vdc.Proofs.Session.Traffic

/-!
# Newcomers

While a connection is held, every other one that arrives is accepted, told that the service is not
available, and shut down. `Link.TurnedAway` is what becomes of it, read at its far side too. To the
session it makes no difference: only the lists of connections and the journal change, and what is
read in the same work cycle comes to what it would have come to without (`Session.Alike`).
-/

namespace Vdc

/-! ## The far side of a connection -/

/-- The far side of a connection, when all that was written has arrived. -/
def Link.farSide (l : Link) : Manager :=
  .onLink { Link.fresh l.name with arrived := l.written, unread := l.written, ended := l.closed }

namespace Manager

/-- A frame that has arrived whole is received with one read. -/
theorem receive_of_frame {m : Manager} {limit size : Nat} {payload : List UInt8} (reads : List Nat)
    (hbuffer : m.buffer = []) (hframe : Frame.serialize limit payload = .ok m.link.unread)
    (hlimit : payload.length ≤ defaultFrameLimit) (hsize : m.link.unread.length ≤ size) :
    m.receive (size :: reads) =
      ⟨Message.decode payload, { m with link := { m.link with unread := [] } }, reads⟩ := by
  obtain ⟨⟨name, arrived, frame, ended, writable, written, closed⟩, buffer, lastId⟩ := m
  dsimp only at hbuffer hframe hsize
  subst hbuffer
  have hparse : Frame.parse defaultFrameLimit (frame ++ []) = .complete payload frame.length := by
    rw [Frame.parse_serialize hframe, if_neg (by omega)]
  rw [List.append_nil] at hparse
  have hnonempty : frame.isEmpty = false := by
    cases frame with
    | nil => cases hparse
    | cons => rfl
  have hpositive : 0 < frame.length := List.length_pos_iff.2 (List.isEmpty_eq_false_iff.1 hnonempty)
  obtain ⟨size, rfl⟩ : ∃ n, size = n + 1 := ⟨size - 1, by omega⟩
  have hfirst : Frame.parse defaultFrameLimit [] = .incomplete Frame.headerSize := rfl
  simp only [receive, hfirst, hnonempty, Bool.false_eq_true, if_false, List.nil_append,
    List.take_of_length_le hsize, List.drop_eq_nil_of_le hsize]
  rw [receive.eq_def]
  simp only [hparse, List.drop_length]

theorem fullReads_of_length_lt {m : Manager} (h : m.link.unread.length < readSize) :
    m.fullReads = [readSize, readSize] := by
  rw [fullReads, Nat.div_eq_of_lt h]
  rfl

/-- At the end of a stream nothing is received any more. -/
theorem receive_of_ended {m : Manager} (hbuffer : m.buffer = []) (hunread : m.link.unread = [])
    (hended : m.link.ended = true) :
    (m.receive m.fullReads).result = .error (.transport .unexpectedEof) := by
  rw [fullReads_of_length_lt (by rw [hunread]; decide)]
  simp [receive, readSize, hbuffer, hunread, hended, Frame.parse]

end Manager

namespace Link

variable {l : Link}

/-- The far side of a connection that was shut down unwritten finds the end of the stream. -/
theorem receive_farSide_of_nil (hwritten : l.written = []) (hclosed : l.closed = true) :
    (l.farSide.receive l.farSide.fullReads).result = .error (.transport .unexpectedEof) :=
  Manager.receive_of_ended rfl hwritten hclosed

/-- The far side of a connection that was shut down after one short frame receives its payload, and
then finds the end of the stream. -/
theorem receive_farSide_of_frame {limit : Nat} {payload : List UInt8}
    (hframe : Frame.serialize limit payload = .ok l.written) (hshort : payload.length ≤ 100)
    (hclosed : l.closed = true) :
    (l.farSide.receive l.farSide.fullReads).result = Message.decode payload ∧
      ((l.farSide.receive l.farSide.fullReads).manager.receive
        (l.farSide.receive l.farSide.fullReads).manager.fullReads).result =
          .error (.transport .unexpectedEof) := by
  have hlength : l.farSide.link.unread.length = payload.length + 2 :=
    Frame.length_of_serialize hframe
  have hread : l.farSide.receive l.farSide.fullReads = ⟨Message.decode payload,
      { l.farSide with link := { l.farSide.link with unread := [] } }, [Manager.readSize]⟩ := by
    rw [Manager.fullReads_of_length_lt (by rw [hlength, Manager.readSize]; omega)]
    exact Manager.receive_of_frame _ rfl hframe (by rw [defaultFrameLimit]; omega)
      (by rw [hlength, Manager.readSize]; omega)
  rw [hread]
  exact ⟨rfl, Manager.receive_of_ended rfl rfl hclosed⟩

end Link

/-! ## Turning away -/

/-- The refusal that a newcomer is told. -/
abbrev Message.refusal : Message := .genericResponse reservedId .serviceNotAvailable

/-- The refusal that a newcomer is told has a text that is understood. -/
theorem Session.exists_rejection : ∃ reject, rejection = .ok reject ∧ reject.length ≤ 100 ∧
    Message.encode (.genericResponse reservedId .serviceNotAvailable) = .ok reject ∧
    Message.decode reject = .ok (.genericResponse reservedId .serviceNotAvailable) :=
  ⟨_, rfl, by decide +kernel, rfl, by decide +kernel⟩

/-- What becomes of a newcomer at an endpoint with a frame limit. -/
structure Link.TurnedAway (limit : Nat) (newcomer closed : Link) : Prop where
  /-- It is shut down; nothing was read from it. -/
  shutDown : closed = { newcomer with written := closed.written, closed := true }
  /-- If the refusal is within the limit and the connection takes it, the frame of the refusal is
  all that was written, and its far side receives the refusal and then the end of the stream. -/
  told : ∀ reject, Session.rejection = .ok reject → reject.length ≤ limit →
    newcomer.writable = true →
      Message.Framed limit [.genericResponse reservedId .serviceNotAvailable] closed.written ∧
        ∃ far, closed.farSide.receive closed.farSide.fullReads = far ∧
          far.result = .ok (.genericResponse reservedId .serviceNotAvailable) ∧
          (far.manager.receive far.manager.fullReads).result = .error (.transport .unexpectedEof)
  /-- Otherwise nothing was written, and its far side finds the end of the stream only. -/
  untold : ∀ reject, Session.rejection = .ok reject →
    limit < reject.length ∨ newcomer.writable = false →
      closed.written = [] ∧
        (closed.farSide.receive closed.farSide.fullReads).result =
          .error (.transport .unexpectedEof)

/-- Turning a newcomer away comes to that, if nothing was written on it before. -/
theorem Transport.turnedAway (t : Transport) {reject : List UInt8} {newcomer : Link}
    (hreject : Session.rejection = .ok reject) (hunwritten : newcomer.written = []) :
    newcomer.TurnedAway t.frameLimit (t.turnAway reject newcomer).2 := by
  obtain ⟨reject', hrejection, hshort, hencode, hdecode⟩ := Session.exists_rejection
  obtain rfl : reject' = reject := Except.ok.inj (hrejection.symm.trans hreject)
  have hsame {reject : List UInt8} (h : Session.rejection = .ok reject) : reject = reject' :=
    Except.ok.inj (h.symm.trans hrejection)
  -- Nothing is written if the refusal is too long or the connection does not take it.
  have hsilent (hclosed : (t.turnAway reject' newcomer).2 = newcomer.shutDown)
      (hnot : reject'.length ≤ t.frameLimit → newcomer.writable = false) :
      newcomer.TurnedAway t.frameLimit (t.turnAway reject' newcomer).2 := by
    rw [hclosed]
    refine ⟨rfl, fun reject h hlimit hwritable => ?_, fun _ _ _ => ?_⟩
    · rw [hnot (hsame h ▸ hlimit)] at hwritable
      cases hwritable
    · exact ⟨hunwritten, Link.receive_farSide_of_nil hunwritten rfl⟩
  cases hframe : Frame.serialize t.frameLimit reject' with
  | error e =>
    refine hsilent (by simp only [turnAway, hframe]) fun hlimit => ?_
    have hfits : ¬ (t.frameLimit < reject'.length ∨ Frame.maxLength < reject'.length) := by
      rw [Frame.maxLength]
      omega
    simp only [Frame.serialize, if_neg hfits] at hframe
    cases hframe
  | ok frame =>
    cases hwritable : newcomer.writable with
    | false => exact hsilent (by simp [turnAway, hframe, Link.write, hwritable]) fun _ => hwritable
    | true =>
      have hclosed : (t.turnAway reject' newcomer).2 =
          { newcomer with written := frame, closed := true } := by
        simp [turnAway, hframe, Link.write, hwritable, hunwritten, Link.shutDown]
      rw [hclosed]
      have hread := Link.receive_farSide_of_frame
        (l := { newcomer with written := frame, closed := true }) hframe hshort rfl
      refine ⟨rfl, fun _ _ _ _ => ⟨.single hencode hframe, _, rfl, ?_, hread.2⟩,
        fun reject h hnot => ?_⟩
      · rw [hread.1, hdecode]
      · rcases hnot with hlong | hjammed
        · rw [hsame h] at hlong
          simp [Frame.serialize, hlong] at hframe
        · rw [hwritable] at hjammed
          cases hjammed

/-! ## What holds of the lines -/

/-- An endpoint that holds a connection listens, has written nothing on those that wait, and has
shut down those that it does not hold any more. -/
structure Lines.Exclusive {σ : Type} (l : Lines σ) : Prop where
  listening : l.transport.held ≠ none → l.transport.listening = true
  unwritten : ∀ link ∈ l.transport.waiting, link.written = []
  shutDown : ∀ link ∈ l.transport.past, link.closed = true

namespace Lines.Exclusive

variable {σ : Type} {own : String} {version : UInt32} {l l' : Lines σ}

theorem listen (frameLimit ioTimeout : Nat) :
    (⟨.listen frameLimit ioTimeout, []⟩ : Lines σ).Exclusive where
  listening _ := rfl
  unwritten := List.forall_mem_nil _
  shutDown := List.forall_mem_nil _

theorem update (h : l.Exclusive) (name : String) {f : Link → Link}
    (hf : ∀ link, (f link).written = link.written) :
    { l with transport := l.transport.update name f }.Exclusive where
  listening hheld := h.listening (by simpa [Transport.update] using hheld)
  unwritten link hlink := by
    obtain ⟨link', hlink', rfl⟩ := List.mem_map.1 hlink
    split
    · rw [hf]
      exact h.unwritten link' hlink'
    · exact h.unwritten link' hlink'
  shutDown := h.shutDown

theorem happen (h : l.Exclusive) (happening : Happening) :
    { l with transport := l.transport.happen happening }.Exclusive := by
  cases happening with
  | elapse => exact h
  | arrive link =>
    refine ⟨h.listening, fun link' hlink' => ?_, h.shutDown⟩
    rcases List.mem_append.1 hlink' with hold | hnew
    · exact h.unwritten link' hold
    · rw [List.mem_singleton.1 hnew]
  | deliver | finish | jam | ease => exact h.update _ fun _ => rfl

theorem traffic (h : l.Exclusive) (htraffic : Traffic own version l l') : l'.Exclusive := by
  cases htraffic with
  | note => exact ⟨h.listening, h.unwritten, h.shutDown⟩
  | happen happening => exact h.happen happening
  | send m payload transport hencode hwrite =>
    obtain ⟨frame, link, -, hheld, -, rfl⟩ := Transport.writeFrame_eq_ok hwrite
    exact ⟨fun _ => h.listening (by simp [hheld]), h.unwritten, h.shutDown⟩
  | accept newcomer waiting hwaiting hfree hlistening =>
    exact ⟨fun _ => hlistening, fun link hlink => h.unwritten link (by simp [hwaiting, hlink]),
      h.shutDown⟩
  | turnAway newcomer closed waiting reject result hwaiting hheld hreject hturned =>
    have hunwritten : newcomer.written = [] := h.unwritten newcomer (by simp [hwaiting])
    have hclosed := (l.transport.turnedAway hreject hunwritten).shutDown
    rw [hturned] at hclosed
    exact ⟨h.listening, fun link hlink => h.unwritten link (by simp [hwaiting, hlink]),
      List.forall_mem_cons.2 ⟨congrArg Link.closed hclosed, h.shutDown⟩⟩
  | take payload transport hread =>
    obtain ⟨link, consumed, hheld, -, rfl⟩ := Transport.readFrame_eq_frame hread
    exact ⟨fun _ => h.listening (by simp [hheld]), h.unwritten, h.shutDown⟩
  | hangUp link hheld =>
    exact ⟨fun hnone => absurd rfl hnone, h.unwritten, List.forall_mem_cons.2 ⟨rfl, h.shutDown⟩⟩
  | close hfree =>
    refine ⟨fun hheld => absurd hfree hheld, nofun, fun link hlink => ?_⟩
    rcases List.mem_append.1 hlink with hwaiting | hpast
    · obtain ⟨link', -, rfl⟩ := List.mem_map.1 hwaiting
      rfl
    · exact h.shutDown link hpast

end Lines.Exclusive

namespace Session

variable {σ : Type} {s : Session σ}

/-- A newcomer is turned away while a connection is held, and nothing else happens. -/
theorem acceptIncoming_of_crowd {link newcomer : Link} {waiting : List Link} {reject : List UInt8}
    (hreject : rejection = .ok reject) (hlistening : s.transport.listening = true)
    (hheld : s.transport.held = some link) (hwaiting : s.transport.waiting = newcomer :: waiting) :
    ∃ journal, (journal = s.journal ∨ journal = .rejected newcomer.name :: s.journal) ∧
      s.acceptIncoming = { s with
        transport := { s.transport with
          waiting := waiting
          past := (s.transport.turnAway reject newcomer).2 :: s.transport.past }
        journal := journal } := by
  unfold acceptIncoming
  simp only [hreject, Transport.accept, hlistening, hheld, hwaiting, Bool.not_true,
    Bool.false_eq_true, if_false]
  rcases s.transport.turnAway reject newcomer with ⟨error | link', closed⟩
  · exact ⟨_, .inl rfl, rfl⟩
  · exact ⟨_, .inr rfl, rfl⟩

/-- Whoever is accepted while a connection is held has no part in the session. -/
theorem alike_acceptIncoming {link : Link} (hheld : s.transport.held = some link) :
    Alike s s.acceptIncoming := by
  obtain ⟨waiting, past, new, hnew, haccepted⟩ := acceptIncoming_of_held hheld
  rw [haccepted]
  refine ⟨waiting, past, new ++ s.journal, ?_⟩
  rcases hnew with rfl | ⟨name, rfl⟩ <;> rfl

end Session

namespace Endpoint

open Session

variable {σ : Type} {app : Application σ} {memory : σ} {dsuid : String} {config : Config}
  {announcer : Option Announcer} {port : UInt16} {e : Endpoint σ}

/-- The session in a work cycle that has waited and is about to look what is ready. -/
def polled (e : Endpoint σ) (meanwhile : List Happening) : Session σ :=
  meanwhile.foldl Session.happen e.session.sweep

/-- How an endpoint keeps to one connection. -/
structure ExcludesNewcomers (limit : Nat) (e : Endpoint σ) : Prop where
  /-- A connection is accepted only when none is held. -/
  alone : ∀ link past, .accepted link :: past <:+ e.session.journal → connectionOf past = none
  /-- One is turned away only while another is held. -/
  crowded : ∀ link past, .rejected link :: past <:+ e.session.journal →
    ∃ held, connectionOf past = some held
  /-- Every connection that was accepted and is not held any more has been shut down. -/
  shutDown : ∀ link ∈ e.session.transport.past, link.closed = true
  /-- A work cycle that finds a connection held turns the newcomer away that has waited longest.
  That changes nothing but the lists of connections and the journal; then the cycle reads from the
  held connection as it would have. -/
  turnsAway : ∀ meanwhile link newcomer waiting,
    (e.polled meanwhile).transport.held = some link →
    (e.polled meanwhile).transport.waiting = newcomer :: waiting →
      ∃ closed journal, newcomer.TurnedAway limit closed ∧
        (journal = (e.polled meanwhile).journal ∨
          journal = .rejected newcomer.name :: (e.polled meanwhile).journal) ∧
        (e.polled meanwhile).acceptIncoming = { e.polled meanwhile with
          transport := { (e.polled meanwhile).transport with
            waiting := waiting, past := closed :: (e.polled meanwhile).transport.past }
          journal := journal } ∧
        (e.step (.work meanwhile)).2 = { e with
          session :=
            if link.isReadable then receive e.application (e.polled meanwhile).acceptIncoming
            else (e.polled meanwhile).acceptIncoming }
  /-- Whoever waits, a work cycle comes to what reading from the held connection alone comes to. -/
  undisturbed : ∀ meanwhile link, (e.polled meanwhile).transport.held = some link →
    Alike
      (if link.isReadable then receive e.application (e.polled meanwhile) else e.polled meanwhile)
      (e.step (.work meanwhile)).2.session

/-- What a run has come to when it looks what is ready. -/
theorem moves_polled (e : Endpoint σ) (inputs : List (Input σ)) (meanwhile : List Happening) :
    Moves ⟨e.session, []⟩ ⟨(e.run inputs).polled meanwhile, []⟩ :=
  (moves_inputs e inputs).trans ((moves_sweep _).trans (moves_meanwhile meanwhile _))

/-- What an endpoint was opened with holds then as well. -/
theorem settings_polled (h : start app memory dsuid config announcer port = .ready e)
    (inputs : List (Input σ)) (meanwhile : List Happening) :
    ((e.run inputs).polled meanwhile).settings =
      (dsuid, config.apiVersion, config.frameLimit, config.ioTimeout) := by
  rw [Moves.settings_eq (moves_polled e inputs meanwhile), (of_start h).1]
  rfl

/-- What holds of the lines of a run whenever it looks what is ready. -/
theorem exclusive_polled (h : start app memory dsuid config announcer port = .ready e)
    (inputs : List (Input σ)) (meanwhile : List Happening) :
    ((e.run inputs).polled meanwhile).lines.Exclusive ∧
      ((e.run inputs).polled meanwhile).transport.frameLimit = config.frameLimit := by
  have hsettings := settings_polled h inputs meanwhile
  simp only [Session.settings, Prod.mk.injEq] at hsettings
  exact ⟨(traffics_of_moves h (moves_polled e inputs meanwhile)).preserve
    (fun htraffic h => h.traffic htraffic) (.listen _ _), hsettings.2.2.1⟩

/-- A work cycle that finds a connection held accepts whoever waits and reads if there is anything
to be read. -/
theorem work_of_held (hopen : e.isClosed = false) (meanwhile : List Happening) {link : Link}
    (hheld : (e.polled meanwhile).transport.held = some link) :
    (e.step (.work meanwhile)).2 = { e with
      session :=
        if link.isReadable then
          receive e.application (if (e.polled meanwhile).transport.poll.incoming then
            (e.polled meanwhile).acceptIncoming else e.polled meanwhile)
        else if (e.polled meanwhile).transport.poll.incoming then
          (e.polled meanwhile).acceptIncoming
        else e.polled meanwhile } := by
  have hreadable : (e.polled meanwhile).transport.poll.readable = link.isReadable := by
    rw [Transport.poll, hheld, Option.any_some]
  simp only [step, work, hopen, workSession, ← hreadable, polled, Bool.false_eq_true, if_false]
  rfl

/-- A work cycle that finds a connection held may turn somebody away, and then reads from the held
connection if there is anything to be read. -/
theorem session_work_of_held (hopen : e.isClosed = false) {meanwhile : List Happening} {link : Link}
    (hheld : (e.polled meanwhile).transport.held = some link) :
    ∃ waiting past new s, (new = [] ∨ ∃ name, new = [.rejected name]) ∧
      s = { e.polled meanwhile with
        transport := { (e.polled meanwhile).transport with waiting := waiting, past := past }
        journal := new ++ (e.polled meanwhile).journal } ∧
      (e.step (.work meanwhile)).2.session =
        if link.isReadable then receive e.application s else s := by
  rw [work_of_held hopen meanwhile hheld]
  by_cases hincoming : (e.polled meanwhile).transport.poll.incoming = true
  · obtain ⟨waiting, past, new, hnew, haccepted⟩ := acceptIncoming_of_held hheld
    exact ⟨waiting, past, new, _, hnew, rfl, by simp only [if_pos hincoming, haccepted]⟩
  · exact ⟨_, _, [], e.polled meanwhile, .inl rfl, rfl, by simp only [if_neg hincoming]⟩

/-- Whatever an endpoint takes after its start, it keeps to one connection: every newcomer that
comes while it holds one is told so and shut down, and its session does not notice. -/
theorem excludesNewcomers_run (h : start app memory dsuid config announcer port = .ready e)
    (inputs : List (Input σ)) : (e.run inputs).ExcludesNewcomers config.frameLimit := by
  obtain ⟨-, -, hplaced⟩ := inPlace_run h inputs
  have hevent := throughout_iff.1 hplaced
  have hnow : (e.run inputs).session.lines.Exclusive :=
    (traffics_of_moves h (moves_inputs e inputs)).preserve (fun htraffic h => h.traffic htraffic)
      (.listen _ _)
  have hwork (meanwhile : List Happening) {link : Link}
      (hheld : ((e.run inputs).polled meanwhile).transport.held = some link) :=
    work_of_held (isClosed_of_held (unheld_of_isClosed inputs (by simp [(of_start h).2])) hheld)
      meanwhile hheld
  refine ⟨fun link past => hevent _ past, fun link past => hevent _ past, hnow.shutDown,
    fun meanwhile link newcomer waiting hheld hwaiting => ?_, fun meanwhile link hheld => ?_⟩
  · obtain ⟨hexclusive, hlimit⟩ := exclusive_polled h inputs meanwhile
    obtain ⟨reject, hreject, -⟩ := exists_rejection
    have hlistening : ((e.run inputs).polled meanwhile).transport.listening = true :=
      hexclusive.listening (by simp [Session.lines, hheld])
    have hunwritten := hexclusive.unwritten newcomer (by simp [Session.lines, hwaiting])
    have hincoming : ((e.run inputs).polled meanwhile).transport.poll.incoming = true := by
      simp [Transport.poll, hlistening, hwaiting]
    obtain ⟨journal, hjournal, haccepted⟩ :=
      acceptIncoming_of_crowd hreject hlistening hheld hwaiting
    refine ⟨_, journal, hlimit ▸ Transport.turnedAway _ hreject hunwritten, hjournal, haccepted, ?_⟩
    rw [hwork meanwhile hheld, hincoming]
    rfl
  · have haccepts : Alike ((e.run inputs).polled meanwhile)
        (if ((e.run inputs).polled meanwhile).transport.poll.incoming then
          ((e.run inputs).polled meanwhile).acceptIncoming
        else (e.run inputs).polled meanwhile) := by
      split
      · exact alike_acceptIncoming hheld
      · exact .refl _
    rw [hwork meanwhile hheld]
    dsimp only
    split
    · exact haccepts.receive _
    · exact haccepts

/-- A second connection arrives while a session is open, and a third behind it. -/
theorem excludesNewcomers_run_second :
    ∃ e : Endpoint Unit, start .default () "own" .default none 0 = .ready e ∧
      ∃ inputs, (e.run inputs).session.state = .active "P" ∧
        ((e.run inputs).polled []).transport.held.map Link.name = some "first" ∧
        ((e.run inputs).polled []).transport.waiting.map Link.name = ["second", "third"] ∧
        (e.run (inputs ++ [.work])).session.state = .active "P" ∧
        (e.run (inputs ++ [.work])).session.transport.past.map Link.name = ["second"] ∧
        (e.run inputs).ExcludesNewcomers Config.default.frameLimit := by
  have h : start .default () "own" .default none 0 =
      .ready ⟨.default, Session.new "own" .default () 0, none, false⟩ := rfl
  refine ⟨_, h, [.arrive (.fresh "first"), .work,
    .deliver "first" (frameOf ⟨1, .requestHello ⟨some "P", some 2⟩⟩), .work,
    .arrive (.fresh "second"), .arrive (.fresh "third")], by decide +kernel, by decide +kernel,
    by decide +kernel, by decide +kernel, by decide +kernel, ?_⟩
  exact excludesNewcomers_run h _

end Endpoint

end Vdc
