import Vdc.Proofs.Lamp.Replies
import Vdc.Proofs.Session.Newcomers

/-!
# How the lamp answers requests about properties

In every run a work cycle that takes up a request about properties sends the reply to it, and sends
nothing else, if the text of the reply is as long as a frame may be at most. If it is longer,
nothing is sent. This can happen only to a request that asks the lamp for its name, and only if the
text of that has more than 14000 bytes, `Lamp.answersFitting_run`. It does happen, since the request
that sets a name has less around the name than an answer that tells it, `Lamp.not_answersOnce_run`.
-/

namespace Vdc

variable {σ : Type}

/-- In an open session the application is called back for a request about properties. -/
theorem Session.handle_of_handsOut (app : Application σ) {s : Session σ} {payload : List UInt8}
    {m : Message} {callback : Callback} (hactive : s.state.isActive = true)
    (hdecode : Message.decode payload = .ok m) (h : m.HandsOut callback) :
    s.handle app payload = (s.note (.handled payload)).call app callback := by
  have hstate : s.state.admission m = .deliver := by
    cases hs : s.state with
    | active peer => rfl
    | _ =>
      rw [hs] at hactive
      cases hactive
  have hasks : Directive.ofMessage s.dsuid m = .deliver callback := by
    obtain ⟨id, payload⟩ := m
    obtain ⟨hid, dsuid, elements, tree, htree, ⟨hpayload, rfl⟩ | ⟨hpayload, rfl⟩⟩ := h
    · obtain rfl : payload = _ := hpayload
      simp only [Directive.ofMessage, Directive.ofPropertyRequest, if_neg hid, htree]
    · obtain rfl : payload = _ := hpayload
      simp only [Directive.ofMessage, Directive.ofPropertyRequest, if_neg hid, htree]
  simp only [handle, Directive.ofPayload_of_decode hdecode, hstate, hasks, obey]

/-- On a connection that takes bytes the text of a message decides alone whether it is sent. -/
theorem Session.attempt_of_writable {s : Session σ} {m : Message} {link : Link}
    (hheld : s.transport.held = some link) (hwritable : link.writable = true)
    (hlimit : s.transport.frameLimit ≤ Frame.maxLength)
    (hfinite : ∀ d ∈ m.doubles, d.isFinite = true) :
    (∃ written journal, (s.attempt (s.transmit m)).2 = { s with
      transport := { s.transport with held := some { link with written := written } }
      journal := journal }) ∧
    (m.toJson.render.length ≤ s.transport.frameLimit → Sends [m] s (s.attempt (s.transmit m)).2) ∧
    (s.transport.frameLimit < m.toJson.render.length →
      Sends [] s (s.attempt (s.transmit m)).2) := by
  have htext := Message.encode_eq_ok hfinite
  have hresult := s.transmits m
  generalize hsend : s.transmit m = result at hresult
  cases hresult with
  | nonFinite hd hinfinite => cases hinfinite.symm.trans (hfinite _ hd)
  | unconnected _ hfree => cases hfree.symm.trans hheld
  | tooLong hencode _ hlong =>
    obtain rfl := Except.ok.inj (htext.symm.trans hencode)
    refine ⟨⟨link.written, s.journal, ?_⟩, fun hfits => by omega, fun _ => .refl s⟩
    rw [← hheld]
    rfl
  | jammed _ hlink _ hjammed =>
    obtain rfl := Option.some.inj (hlink.symm.trans hheld)
    cases hjammed.symm.trans hwritable
  | sent hencode hlink hframe _ =>
    obtain rfl := Except.ok.inj (htext.symm.trans hencode)
    obtain rfl := Option.some.inj (hlink.symm.trans hheld)
    refine ⟨⟨_, _, rfl⟩, fun _ => .of_transmit hsend, fun hlong => ?_⟩
    rw [Frame.serialize, if_pos (.inl hlong)] at hframe
    cases hframe

namespace Endpoint

open Session

/-- A work cycle takes up a request about properties, for which it calls the application back: a
session is open, and the frame of the request stands at the front of what is unread on the held
connection, which takes bytes. -/
structure TakesRequest (e : Endpoint σ) (meanwhile : List Happening) (link : Link) (m : Message)
    (callback : Callback) : Prop where
  active : (e.polled meanwhile).state.isActive = true
  held : (e.polled meanwhile).transport.held = some link
  writable : link.writable = true
  framed : ∃ payload consumed, Message.decode payload = .ok m ∧
    Frame.parse (e.polled meanwhile).transport.frameLimit link.unread = .complete payload consumed
  asks : m.HandsOut callback

/-- A work cycle takes up the frame at the front of what is unread, and nothing else has happened
until then but that somebody may have been turned away. -/
theorem session_work_of_complete {e : Endpoint σ} (hopen : e.isClosed = false)
    {meanwhile : List Happening} {link : Link} {payload : List UInt8} {consumed : Nat}
    (hheld : (e.polled meanwhile).transport.held = some link)
    (hparse : Frame.parse (e.polled meanwhile).transport.frameLimit link.unread =
      .complete payload consumed) :
    ∃ s transport journal,
      s = { e.polled meanwhile with transport := transport, journal := journal } ∧
      transport.held = some { link with unread := link.unread.drop consumed } ∧
      Sends [] (e.polled meanwhile) s ∧
      (e.step (.work meanwhile)).2.session = s.handle e.application payload := by
  obtain ⟨waiting, past, new, s, hnew, rfl, hwork⟩ := session_work_of_held hopen hheld
  have hread := Transport.readFrame_of_complete
    (t := { (e.polled meanwhile).transport with waiting := waiting, past := past }) hheld hparse
  rw [hwork, if_pos (isReadable_of_complete hparse), receive, hread]
  refine ⟨{ e.polled meanwhile with
      transport := { (e.polled meanwhile).transport with
        waiting := waiting
        held := some { link with unread := link.unread.drop consumed }
        past := past }
      journal := new ++ (e.polled meanwhile).journal },
    _, _, rfl, rfl, .none rfl ?_ ⟨new, rfl, ?_⟩, rfl⟩
  · exact (Transport.output_of_held hheld).symm
  · rcases hnew with rfl | ⟨name, rfl⟩ <;> rfl

end Endpoint

namespace Lamp

open Session Endpoint

variable {e : Endpoint Lamp} {meanwhile : List Happening} {link : Link} {m reply : Message}
  {callback : Callback} {s s' : Session Lamp}

/-- What becomes of a session that holds a connection when a request is taken up. -/
structure Handles (callback : Callback) (reply : Message) (link : Link) (s s' : Session Lamp) :
    Prop where
  memory_eq : s'.memory = s.memory.after callback
  held : ∃ written, s'.transport.held = some { link with written := written }
  /-- A reply that fits into a frame is sent, and nothing else is. -/
  sends : reply.toJson.render.length ≤ s.transport.frameLimit → Sends [reply] s s'
  /-- One that does not fit is not sent, and nothing is sent in its place. -/
  drops : s.transport.frameLimit < reply.toJson.render.length → Sends [] s s'
  unchanged : ∃ transport memory journal,
    s' = { s with transport := transport, memory := memory, journal := journal }

/-- All that happens when a request is taken up. -/
theorem handles_handle {payload : List UInt8} (hactive : s.state.isActive = true)
    (hheld : s.transport.held = some link) (hwritable : link.writable = true)
    (hlimit : s.transport.frameLimit ≤ Frame.maxLength)
    (hfinite : s.memory.brightness.isFinite = true) (hdecode : Message.decode payload = .ok m)
    (h : m.HandsOut callback) (hreply : reply? s.dsuid s.memory callback = some reply) :
    Handles callback reply link s (s.handle application payload) := by
  obtain ⟨new, called, hnew, hcalled, hcall⟩ := call_eq (s := s.note (.handled payload)) h hreply
  have hbefore : Sends [] s called := by
    subst hcalled
    refine .none rfl rfl ⟨new ++ [.handled payload], by rw [List.append_assoc]; rfl, ?_⟩
    rw [List.filterMap_append, hnew]
    rfl
  obtain ⟨⟨written, journal, heq⟩, hsends, hdrops⟩ := attempt_of_writable (s := called)
    (hcalled ▸ hheld) hwritable (hcalled ▸ hlimit) (isFinite_reply hfinite h hreply)
  rw [handle_of_handsOut application hactive hdecode h, hcall]
  refine ⟨?_, ⟨written, by rw [heq]⟩, fun hfits => ?_, fun hlong => ?_, ?_⟩
  · rw [heq, hcalled]
    rfl
  · exact hbefore.trans (hsends (hcalled ▸ hfits))
  · exact hbefore.trans (hdrops (hcalled ▸ hlong))
  · rw [heq, hcalled]
    exact ⟨_, _, _, rfl⟩

/-- All that happens in a work cycle that takes up a request. -/
theorem handles_work {payload : List UInt8} {consumed : Nat} (happ : e.application = application)
    (hopen : e.isClosed = false) (hactive : (e.polled meanwhile).state.isActive = true)
    (hheld : (e.polled meanwhile).transport.held = some link) (hwritable : link.writable = true)
    (hlimit : (e.polled meanwhile).transport.frameLimit ≤ Frame.maxLength)
    (hfinite : (e.polled meanwhile).memory.brightness.isFinite = true)
    (hdecode : Message.decode payload = .ok m)
    (hparse : Frame.parse (e.polled meanwhile).transport.frameLimit link.unread =
      .complete payload consumed)
    (h : m.HandsOut callback)
    (hreply : reply? (e.polled meanwhile).dsuid (e.polled meanwhile).memory callback =
      some reply) :
    Handles callback reply { link with unread := link.unread.drop consumed } (e.polled meanwhile)
      (e.step (.work meanwhile)).2.session := by
  obtain ⟨s, transport, journal, rfl, hread, hbefore, hwork⟩ :=
    session_work_of_complete hopen hheld hparse
  have hhandles := handles_handle
    (s := { e.polled meanwhile with transport := transport, journal := journal }) hactive hread
    hwritable (hbefore.frameLimit_eq.le.trans hlimit) hfinite hdecode h hreply
  rw [hwork, happ]
  refine ⟨hhandles.memory_eq, hhandles.held, fun hfits => ?_, fun hlong => ?_, hhandles.unchanged⟩
  · exact hbefore.trans (hhandles.sends (hbefore.frameLimit_eq ▸ hfits))
  · exact hbefore.trans (hhandles.drops (hbefore.frameLimit_eq ▸ hlong))

/-! ## Runs -/

/-- Every request about properties that a work cycle takes up is answered by one frame with the id
of the request, and nothing else is sent. -/
def AnswersOnce (e : Endpoint Lamp) : Prop :=
  ∀ meanwhile link m callback, e.TakesRequest meanwhile link m callback →
    ∃ reply, reply.id = m.id ∧
      Sends [reply] (e.polled meanwhile) (e.step (.work meanwhile)).2.session

/-- How the lamp named `dsuid` in the container `own` answers requests about properties. -/
structure AnswersFitting (own dsuid : String) (limit : Nat) (e : Endpoint Lamp) : Prop where
  dsuid_eq : e.session.memory.dsuid = dsuid
  /-- There is a reply with the id of the request, and its text decides what is sent. If it fits
  into a frame, the reply is sent once, and nothing else is. If it does not, nothing is sent; but
  then the lamp is asked for its name, and that is long. -/
  answers : ∀ meanwhile link m callback, e.TakesRequest meanwhile link m callback →
    ∃ reply text, reply? own (e.polled meanwhile).memory callback = some reply ∧
      reply.id = m.id ∧ reply.encode = .ok text ∧
      (text.length ≤ limit →
        Sends [reply] (e.polled meanwhile) (e.step (.work meanwhile)).2.session) ∧
      (limit < text.length → Sends [] (e.polled meanwhile) (e.step (.work meanwhile)).2.session ∧
        (e.polled meanwhile).memory.IsAskedItsName callback ∧
        14000 < (Json.quote (e.polled meanwhile).memory.name).length)
  /-- In either case the name that was set is kept. -/
  keeps : ∀ meanwhile link m callback, e.TakesRequest meanwhile link m callback →
    (e.step (.work meanwhile)).2.session.memory = (e.polled meanwhile).memory.after callback

variable {own dsuid name : String} {port : UInt16} {inputs : List (Input Lamp)}

theorem application_run (e : Endpoint Lamp) (inputs : List (Input Lamp)) :
    (e.run inputs).application = e.application := by
  induction inputs generalizing e with
  | nil => rfl
  | cons input rest ih => exact (ih _).trans (e.application_step input)

/-- In every run the memory of the lamp is as it may be. -/
theorem fits_run (h : start own dsuid name port = .ready e)
    (hscripts : ∀ script, .perform script ∉ inputs) :
    (e.run inputs).session.memory.dsuid = dsuid ∧ ∀ meanwhile,
      ((e.run inputs).polled meanwhile).memory.brightness.isFinite = true := by
  obtain ⟨calls, hdisciplined⟩ := disciplined_run h (application_obeys dsuid)
    ⟨rfl, fun _ => isFinite_percent 0 (by decide)⟩
    (performs_of_forall (fun script hscript => absurd hscript (hscripts script)) e)
  refine ⟨hdisciplined.fits.1, fun meanwhile => ?_⟩
  have hpolled := hdisciplined.sweep.happen meanwhile
  have hoccasioned : ((e.run inputs).polled meanwhile).Occasioned :=
    Moves.preserve (P := fun m => m.session.Occasioned) (fun hmove hm => hm.move hmove)
      ((moves_sweep _).trans (moves_meanwhile meanwhile _)) (occasioned_run h inputs)
  -- The brightness was set to values that were read from payloads, and these are finite.
  refine hpolled.fits.2 fun callback hcallback => ?_
  exact setsFinite_of_mem_callsOf hoccasioned (hpolled.calls_eq.symm ▸ hcallback)

/-- Whatever happens to the endpoint of a lamp, a request about properties is answered once and with
its id if the answer fits into a frame; one that does not fit is not given at all. -/
theorem answersFitting_run (h : start own dsuid name port = .ready e)
    (hscripts : ∀ script, .perform script ∉ inputs) :
    AnswersFitting own dsuid Config.default.frameLimit (e.run inputs) := by
  obtain ⟨hdsuid, hfinite⟩ := fits_run h hscripts
  have hunheld := unheld_of_isClosed (e := e) inputs (by simp [(of_start h).2])
  have happ := (application_run e inputs).trans (application_of_start h)
  have hlimit (meanwhile : List Happening) :
      ((e.run inputs).polled meanwhile).transport.frameLimit = Config.default.frameLimit :=
    (exclusive_polled h inputs meanwhile).2
  have hown (meanwhile : List Happening) : ((e.run inputs).polled meanwhile).dsuid = own :=
    congrArg Prod.fst (settings_polled h inputs meanwhile)
  have hhandles {meanwhile : List Happening} {link : Link} {m reply : Message}
      {callback : Callback} (hrequest : (e.run inputs).TakesRequest meanwhile link m callback)
      (hreply : reply? own ((e.run inputs).polled meanwhile).memory callback = some reply) :
      ∃ rest, Handles callback reply { link with unread := rest }
        ((e.run inputs).polled meanwhile) ((e.run inputs).step (.work meanwhile)).2.session := by
    obtain ⟨payload, consumed, hdecode, hparse⟩ := hrequest.framed
    rw [← hown meanwhile] at hreply
    exact ⟨_, handles_work happ (isClosed_of_held hunheld hrequest.held) hrequest.active
      hrequest.held hrequest.writable (by rw [hlimit]; decide) (hfinite meanwhile) hdecode hparse
      hrequest.asks hreply⟩
  refine ⟨hdsuid, fun meanwhile link m callback hrequest => ?_,
    fun meanwhile link m callback hrequest => ?_⟩
  · obtain ⟨reply, hreply, hid⟩ :=
      exists_reply? own ((e.run inputs).polled meanwhile).memory hrequest.asks
    obtain ⟨rest, hhandled⟩ := hhandles hrequest hreply
    have htext := Message.encode_eq_ok (isFinite_reply (hfinite meanwhile) hrequest.asks hreply)
    refine ⟨reply, _, hreply, hid, htext, fun hfits => ?_, fun hlong => ?_⟩
    · exact hhandled.sends (by rwa [hlimit])
    · rcases length_reply_le (hfinite meanwhile) hrequest.asks hreply with hshort | ⟨hasked, hle⟩
      · exact absurd hlong (Nat.not_lt.2 (Nat.le_trans hshort (by decide)))
      · refine ⟨hhandled.drops (by rwa [hlimit]), hasked, ?_⟩
        have hframe : Config.default.frameLimit = 16384 := rfl
        omega
  · obtain ⟨reply, hreply, -⟩ :=
      exists_reply? own ((e.run inputs).polled meanwhile).memory hrequest.asks
    obtain ⟨rest, hhandled⟩ := hhandles hrequest hreply
    exact hhandled.memory_eq

/-- The endpoint of a lamp that has just been opened. -/
def opened : Endpoint Lamp where
  application := application
  session := Session.new "own" { Config.default with name := "dsvdc", port := 0 } (new "lamp") 0
  announcer := some ⟨[], some ⟨"dsvdc", ServiceRecord.vdcType, 0, ["dSUID=own"]⟩⟩
  isClosed := false

/-- A peer connects and introduces itself. -/
def greeting : List (Input Lamp) :=
  [.arrive (.fresh "peer"), .work,
    .deliver "peer" (frameOf ⟨1, .requestHello ⟨some "P", some 2⟩⟩), .work]

/-- A peer sets the name of the lamp and asks for it. -/
theorem answersFitting_run_named :
    start "own" "lamp" "dsvdc" 0 = .ready opened ∧
      ∃ inputs, (∀ script, .perform script ∉ inputs) ∧
        ((opened.run inputs).session.journal.filterMap Event.message?).take 2 =
          [⟨3, .propertyResponse [⟨some "name", some (.string "Desk"), []⟩]⟩,
            .genericResponse 2 .ok] ∧
        AnswersFitting "own" "lamp" Config.default.frameLimit (opened.run inputs) := by
  have h : start "own" "lamp" "dsvdc" 0 = .ready opened := rfl
  refine ⟨h, greeting ++ [
    .deliver "peer" (frameOf ⟨2, .setProperty (some "lamp")
      [⟨some "name", some (.string "Desk"), []⟩]⟩), .work,
    .deliver "peer" (frameOf ⟨3, .getProperty (some "lamp") [⟨some "name", none, []⟩]⟩), .work],
    by simp [greeting], by decide +kernel, ?_⟩
  exact answersFitting_run h (by simp [greeting])

/-! ## A name that is too long -/

/-- A session in which a peer may go on asking the lamp: it is open on a connection that takes
bytes, and it is too early to look for requests that are too old. -/
structure Attends (s : Session Lamp) (lamp : Lamp) (link : Link) : Prop where
  active : s.state.isActive = true
  memory_eq : s.memory = lamp
  held : s.transport.held = some link
  writable : link.writable = true
  frameLimit_eq : s.transport.frameLimit = Config.default.frameLimit
  early : s.clock - s.pending.lastSweep < s.pending.sweepInterval

/-- An endpoint in such a session, with nothing that is still unread. -/
structure Serves (e : Endpoint Lamp) (lamp : Lamp) : Prop where
  application_eq : e.application = application
  isOpen : e.isClosed = false
  attends : ∃ link, Attends e.session lamp link ∧ link.name = "peer" ∧ link.unread = []

/-- The frame of a message that is not too long is read as it was sent. -/
theorem parse_frameOf {limit : Nat} (hlimit : limit ≤ Frame.maxLength)
    (hfinite : ∀ d ∈ m.doubles, d.isFinite = true) (hlength : m.toJson.render.length ≤ limit) :
    Frame.parse limit (frameOf m) = .complete m.toJson.render (frameOf m).length := by
  obtain ⟨frame, hframe⟩ : ∃ frame, Frame.serialize Frame.maxLength m.toJson.render = .ok frame :=
    ⟨_, if_neg (by omega)⟩
  have hframeOf : frameOf m = frame := by
    rw [frameOf, Message.encode_eq_ok hfinite, Except.bind, hframe]
    rfl
  have hparse : Frame.parse limit (frame ++ []) = _ := Frame.parse_serialize hframe []
  rw [List.append_nil, if_neg (by omega)] at hparse
  rw [hframeOf, hparse]

/-- A session that holds a connection does not look for requests that are too old before it is time
to. -/
theorem sweep_of_early (hheld : s.transport.held = some link)
    (h : s.clock - s.pending.lastSweep < s.pending.sweepInterval) :
    s.sweep = s.note (.swept s.clock) := by
  have hconnected : s.transport.isConnected = true := by rw [Transport.isConnected, hheld]; rfl
  have hsweep : s.pending.sweep s.clock true = ([], s.pending) := by
    rw [RequestCache.sweep, if_neg (by decide), if_pos h]
  have hnoted : (s.note (.swept s.clock)).pending.sweep (s.note (.swept s.clock)).clock
      (s.note (.swept s.clock)).transport.isConnected = ([], s.pending) := by
    rw [← hsweep, ← hconnected]
    rfl
  simp only [Session.sweep, hnoted]
  rfl

variable {lamp : Lamp} {bytes rest : List UInt8}

/-- What arrives while a work cycle waits is there when it looks what is ready. -/
theorem Attends.deliver (h : Attends e.session lamp link) :
    Attends (e.polled [.deliver link.name bytes]) lamp (link.deliver bytes) := by
  have hpolled : e.polled [.deliver link.name bytes] =
      (e.session.note (.swept e.session.clock)).happen (.deliver link.name bytes) := by
    rw [polled, sweep_of_early h.held h.early]
    rfl
  rw [hpolled]
  refine ⟨h.active, h.memory_eq, ?_, h.writable, h.frameLimit_eq, h.early⟩
  simp only [Session.happen, Session.note, Transport.happen, Transport.update, h.held,
    Option.map_some, if_true]

/-- Such a session goes on when a request was taken up, whether the reply could be sent or not. -/
theorem Attends.handle (h : Attends s lamp link)
    (hhandles : Handles callback reply { link with unread := rest } s s') :
    ∃ link', Attends s' (lamp.after callback) link' ∧ link'.name = link.name ∧
      link'.unread = rest := by
  obtain ⟨transport, memory, journal, hunchanged⟩ := hhandles.unchanged
  obtain ⟨written, hheld⟩ := hhandles.held
  have hlimit : s'.transport.frameLimit = s.transport.frameLimit := by
    rcases Nat.lt_or_ge s.transport.frameLimit reply.toJson.render.length with hlong | hfits
    · exact (hhandles.drops hlong).frameLimit_eq
    · exact (hhandles.sends hfits).frameLimit_eq
  refine ⟨_, ⟨?_, ?_, hheld, h.writable, hlimit.trans h.frameLimit_eq, ?_⟩, rfl, rfl⟩
  · rw [hunchanged]
    exact h.active
  · rw [hhandles.memory_eq, h.memory_eq]
  · rw [hunchanged]
    exact h.early

/-- The peer asks once more. -/
theorem Serves.ask (h : Serves e lamp) (hfinite : lamp.brightness.isFinite = true)
    (hasks : m.HandsOut callback) (hdoubles : ∀ d ∈ m.doubles, d.isFinite = true)
    (hnesting : m.toJson.nesting ≤ Json.maxNesting)
    (hlength : m.toJson.render.length ≤ Config.default.frameLimit)
    (hreply : ∀ own, reply? own lamp callback = some reply) :
    ∃ link, e.TakesRequest [.deliver "peer" (frameOf m)] link m callback ∧
      (Config.default.frameLimit < reply.toJson.render.length →
        Sends [] (e.polled [.deliver "peer" (frameOf m)])
          (e.step (.work [.deliver "peer" (frameOf m)])).2.session) ∧
      Serves (e.step (.work [.deliver "peer" (frameOf m)])).2 (lamp.after callback) := by
  obtain ⟨link, hattends, hname, hunread⟩ := h.attends
  have hasked : Attends (e.polled [.deliver "peer" (frameOf m)]) lamp (link.deliver (frameOf m)) :=
    hname ▸ hattends.deliver
  have harrived : (link.deliver (frameOf m)).unread = frameOf m := by
    rw [Link.deliver, hunread]
    rfl
  have hparse : Frame.parse (e.polled [.deliver "peer" (frameOf m)]).transport.frameLimit
      (link.deliver (frameOf m)).unread = .complete m.toJson.render (frameOf m).length := by
    rw [hasked.frameLimit_eq, harrived]
    exact parse_frameOf (by decide) hdoubles hlength
  have hdecode : Message.decode m.toJson.render = .ok m := by
    rw [Message.decode_render hdoubles, if_pos hnesting]
  have hhandles := handles_work h.application_eq h.isOpen hasked.active hasked.held hasked.writable
    (by rw [hasked.frameLimit_eq]; decide) (by rw [hasked.memory_eq]; exact hfinite) hdecode hparse
    hasks (by rw [hasked.memory_eq]; exact hreply _)
  refine ⟨_, ⟨hasked.active, hasked.held, hasked.writable, ⟨_, _, hdecode, hparse⟩, hasks⟩,
    fun hlong => hhandles.drops (by rwa [hasked.frameLimit_eq]),
    (e.application_step _).trans h.application_eq, ?_, ?_⟩
  · simp only [step, work, h.isOpen, Bool.false_eq_true, if_false]
  · obtain ⟨link', hattends', hname', hunread'⟩ := hasked.handle hhandles
    refine ⟨link', hattends', hname'.trans hname, ?_⟩
    rw [hunread', harrived]
    exact List.drop_length

theorem serves_greeting : Serves (opened.run greeting) (new "lamp") := by
  have hlink : (opened.run greeting).session.transport.held.map
      (fun link => (link.name, link.unread, link.writable)) = some ("peer", [], true) := by
    decide +kernel
  obtain ⟨link, hheld, hlink⟩ := Option.map_eq_some_iff.1 hlink
  simp only [Prod.mk.injEq] at hlink
  obtain ⟨hname, hunread, hwritable⟩ := hlink
  have hattends : Attends (opened.run greeting).session (new "lamp") link :=
    ⟨by decide +kernel, by decide +kernel, hheld, hwritable, by decide +kernel, by decide +kernel⟩
  exact ⟨rfl, by decide +kernel, link, hattends, hname, hunread⟩

/-- The lamp is given a name. -/
def naming (name : String) : Message :=
  ⟨2, .setProperty (some "lamp") [⟨some "name", some (.string name), []⟩]⟩

/-- The lamp is asked for all its properties. -/
def asking : Message := ⟨3, .getProperty (some "lamp") []⟩

theorem length_render_naming (name : String) :
    (naming name).toJson.render.length = 114 + (Json.quote name).length := by
  have hnode : (Node.leaf (some "name") (.string name)).extent =
      38 + (Json.quote name).length := by
    have hkey : (Json.quote "name").length = 6 := by decide
    rw [Node.extent_leaf, Value.length_render_string, hkey]
    omega
  have hproperties : (Json.array [(Node.leaf (some "name")
      (.string name)).toElement.toJson]).render.length = 39 + (Json.quote name).length := by
    rw [Node.extent] at hnode
    rw [Json.length_render_array (List.cons_ne_nil _ _), List.map_singleton, List.sum_singleton]
    omega
  have hkeys : (Json.quote "dsuid").length = 7 ∧ (Json.text "lamp").render.length = 6 ∧
      (Json.quote "properties").length = 12 := by
    decide
  have hpayload : (naming name).payload.toJson.render.length = 69 + (Json.quote name).length := by
    have hrecord : (naming name).payload.toJson = Json.record [("dsuid", some (.text "lamp")),
        ("properties", some (.array [(Node.leaf (some "name")
          (.string name)).toElement.toJson]))] := rfl
    rw [hrecord, Json.length_render_record ⟨_, List.mem_cons_self, rfl⟩]
    simp only [List.map_cons, List.map_nil, List.sum_cons, List.sum_nil, Json.fieldLength,
      Option.elim_some, hproperties, hkeys]
    omega
  have hkind : (Json.quote (naming name).payload.kind.name).length = 27 := by
    rw [naming, Payload.kind]
    decide
  have hid : (naming name).id ≠ reservedId ∧ (Digits.ofNat (naming name).id.toNat).length = 1 := by
    show (2 : RequestId) ≠ reservedId ∧ (Digits.ofNat (2 : RequestId).toNat).length = 1
    decide +kernel
  rw [Message.length_render hid.1, hid.2, hkind, hpayload]
  omega

/-- All that a lamp tells of itself is longer than what sets its name. -/
theorem length_render_answer_ge (lamp : Lamp) :
    495 + (Json.quote lamp.name).length ≤
      (answer ⟨reservedId, []⟩ (.forRequest 3) lamp.properties).message.toJson.render.length := by
  have hnodes : (answer ⟨reservedId, []⟩ (.forRequest 3) lamp.properties).nodes =
      lamp.properties := rfl
  have htag : (answer ⟨reservedId, []⟩ (.forRequest 3) lamp.properties).requestId = 3 := rfl
  have hnumber : (Digits.ofNat (3 : RequestId).toNat).length = 1 := by decide +kernel
  rw [Property.length_message (by rw [htag]; decide) (by rw [hnodes]; nofun), hnodes, htag, hnumber,
    extents_properties]
  simp only [List.sum_cons]
  omega

/-- A peer that gives the lamp a name and then asks for everything gets no answer, if the name fits
into the request that sets it and not into the answer. -/
theorem not_answersOnce_of_name {name : String} (hfits : (Json.quote name).length ≤ 16270)
    (hlong : 15889 < (Json.quote name).length) :
    ¬ AnswersOnce (opened.run (greeting ++ [.work [.deliver "peer" (frameOf (naming name))]])) := by
  intro honce
  have hframe : Config.default.frameLimit = 16384 := rfl
  have hnesting : (naming name).toJson.nesting = 5 := rfl
  have hnaming : (naming name).HandsOut (.setProperty "lamp"
      ⟨reservedId, [.leaf (some "name") (.string name)]⟩ (.forRequest 2)) :=
    ⟨nofun, "lamp", _, _, rfl, .inr ⟨rfl, rfl⟩⟩
  have hasking : asking.HandsOut (.getProperty "lamp" ⟨reservedId, []⟩ (.forRequest 3)) :=
    ⟨nofun, "lamp", _, _, rfl, .inl ⟨rfl, rfl⟩⟩
  -- The name is set, with a request that fits, and the session stays open for the next one.
  obtain ⟨-, -, -, hnamed⟩ := serves_greeting.ask (isFinite_percent 0 (by decide)) hnaming nofun
    (by rw [hnesting]; decide) (by rw [length_render_naming]; omega) fun _ => rfl
  have hnamed : Serves (opened.run (greeting ++ [.work [.deliver "peer" (frameOf (naming name))]]))
      ⟨"lamp", percent 0, name⟩ := by
    rw [Endpoint.run, List.foldl_append]
    exact hnamed
  -- Then the answer to the next request does not fit, so nothing is sent.
  obtain ⟨link, hrequest, hdrops, -⟩ := hnamed.ask (isFinite_percent 0 (by decide)) hasking nofun
    (by decide +kernel) (by decide +kernel) fun _ => rfl
  obtain ⟨reply, -, hsends⟩ := honce _ link asking _ hrequest
  have hanswer := length_render_answer_ge ⟨"lamp", percent 0, name⟩
  have hlost := hdrops (by
    refine Nat.lt_of_lt_of_le ?_ hanswer
    dsimp only
    omega)
  cases hlost.unique hsends

/-- A name of 16000 bytes. -/
def longName : String := String.ofList (List.replicate 16000 'x')

/-- There is such a name. -/
theorem not_answersOnce_run :
    ∃ e : Endpoint Lamp, start "own" "lamp" "dsvdc" 0 = .ready e ∧
      ∃ inputs, (∀ script, .perform script ∉ inputs) ∧ ¬ AnswersOnce (e.run inputs) := by
  have hlength : (Json.quote longName).length = 16002 :=
    Json.length_quote_replicate (b := 0x78) (by decide) (by decide) 16000
  refine ⟨opened, rfl, greeting ++ [.work [.deliver "peer" (frameOf (naming longName))]], ?_, ?_⟩
  · simp [greeting]
  · exact not_answersOnce_of_name (by rw [hlength]; decide) (by rw [hlength]; decide)

end Lamp

end Vdc
