import Vdc.Proofs.Probe.Receiving

/-!
# Announcements that are acknowledged

An endpoint that announces something waits for an answer, so the probe acknowledges every
announcement that it sees. `acknowledges_announcements` says so for a watch and for a ping, whatever
the endpoint sends after the handshake: the frames that the probe writes are the acknowledgements of
what it has received, in order, and for a ping the ping before them. A watch ends with the
connection, and a ping with the first pong for its dSUID.
-/

namespace Vdc.Probe

variable {p : Probe} {m : Message} {messages : List Message} {events : List Manager.Event}

/-! ## Acknowledgements -/

/-- The answers that some messages wait for, in their order: one for each announcement. -/
def acknowledgements (messages : List Message) : List Message :=
  (messages.filter (IsAnnouncement ·)).map fun m => .genericResponse m.id .ok

theorem filterMap_acknowledgement? (messages : List Message) :
    messages.filterMap acknowledgement? = acknowledgements messages := by
  induction messages with
  | nil => rfl
  | cons m rest ih =>
    rw [List.filterMap_cons, acknowledgement?_eq, ih, acknowledgements, acknowledgements,
      List.filter_cons]
    by_cases hm : IsAnnouncement m <;> simp [hm]

/-! ## Watching and pinging -/

/-- The probe is still at it, and what it has not received of some messages is still there or still
to come. -/
def AwaitsRest (p : Probe) (phase : Phase) (more : List UInt8) (rest : List Message) : Prop :=
  p.phase = phase ∧ Manager.Brings (p.manager.stream ++ more) rest

/-- Some messages go up to the first pong for a dSUID. -/
def EndsWithPong (dsuid : String) (messages : List Message) : Prop :=
  ∃ front pong, messages = front ++ [pong] ∧ pong.payload = .pong dsuid ∧
    ∀ m ∈ front, m.payload ≠ .pong dsuid

/-- Receipts that bring the probe to an end: more of them than there are messages, each with time
for all that is there. -/
def Suffice (p : Probe) (messages : List Message) (turns : List (List Nat)) : Prop :=
  messages.length < turns.length ∧
    ∀ reads ∈ turns, Manager.Exhausts reads p.manager.stream.length

/-- What comes of a watch, of which some messages are the whole of what is sent to it. -/
structure Watches (p : Probe) (events : List Manager.Event) (more : List UInt8)
    (messages : List Message) : Prop where
  /-- The announcements that were received have been acknowledged, and nothing else was sent. -/
  sends : p.Sends (p.after events) (acknowledgements (p.received events))
  /-- It goes on until it has received everything and the peer has finished, and then ends well. -/
  phase :
    (∃ rest, messages = p.received events ++ rest ∧
      (p.after events).AwaitsRest .watching more rest) ∨
    ((p.after events).phase = .ended .done ∧ messages = p.received events ∧ p.Finishes events)
  /-- It ends well however the connection is lost. -/
  lost : ∀ receipt e, receipt.result = .error e → e.isConnectionLoss = true →
    ((p.after events).resume receipt).phase = .ended .done
  /-- Once the peer has finished it comes to its end. -/
  concludes : p.Finishes events → ∀ turns, (p.after events).Suffice messages turns →
    (p.after (events ++ turns.map .receive)).phase = .ended .done ∧
      messages = p.received (events ++ turns.map .receive)

/-- What comes of a ping that is sent from one state of the probe and leads to another. -/
structure Pings (p q : Probe) (dsuid : String) (events : List Manager.Event) (more : List UInt8)
    (messages : List Message) : Prop where
  /-- The ping was sent, the announcements that were received have been acknowledged, and nothing
  else was sent. -/
  sends : p.Sends (q.after events)
    (.notification (.ping (some dsuid)) :: acknowledgements (q.received events))
  /-- It goes on until it receives the first pong for its dSUID, and then ends well. If there is
  none, it fails in the end. -/
  phase :
    (∃ rest, messages = q.received events ++ rest ∧
      (∀ m ∈ q.received events, m.payload ≠ .pong dsuid) ∧
        (q.after events).AwaitsRest (.pinging dsuid) more rest) ∨
    ((q.after events).phase = .ended .done ∧ EndsWithPong dsuid (q.received events) ∧
      q.received events <+: messages) ∨
    ((q.after events).phase = .ended (.failed "No pong" (some (.transport .unexpectedEof))) ∧
      messages = q.received events ∧ (∀ m ∈ messages, m.payload ≠ .pong dsuid) ∧
        q.Finishes events)
  /-- If there is one and all has come, it comes to its end. -/
  concludes : (∃ m ∈ messages, m.payload = .pong dsuid) → more = [] →
    ∀ turns, (q.after events).Suffice messages turns →
      (q.after (events ++ turns.map .receive)).phase = .ended .done ∧
        EndsWithPong dsuid (q.received (events ++ turns.map .receive)) ∧
        q.received (events ++ turns.map .receive) <+: messages

theorem Phase.not_isLast_watching (m : Message) : ¬ Phase.IsLast .watching m := nofun

theorem Phase.isLast_pinging_iff {dsuid : String} :
    Phase.IsLast (.pinging dsuid) m ↔ m.payload = .pong dsuid := by
  constructor
  · rintro ⟨dsuid', hphase, hpayload⟩
    rwa [Phase.pinging.inj hphase]
  · exact fun h => ⟨dsuid, rfl, h⟩

theorem watches {more : List UInt8} (h : p.phase = .watching)
    (hwritable : p.manager.link.writable = true) (hmore : p.Finishes events → more = [])
    (hbrings : Manager.Brings (p.manager.stream ++ (p.manager.coming events ++ more)) messages) :
    p.Watches events more messages := by
  have hattends : p.phase.Attends := h ▸ .watching
  have hserves := serves hattends hwritable hmore hbrings (.inl h)
  have hphase {events : List Manager.Event} {more : List UInt8}
      (hserves : p.Serves events more messages) : p.GoesOn events more messages ∨
        ((p.after events).phase = .ended .done ∧ messages = p.received events ∧
          p.Finishes events) := by
    refine hserves.phase.imp_right fun hover => ?_
    rcases hover with ⟨-, front, last, -, hlast, -⟩ | ⟨hlost, hall, -, hfinishes⟩
    · exact absurd (h ▸ hlast) (Phase.not_isLast_watching last)
    · rw [h] at hlost
      exact ⟨hlost, hall.symm, hfinishes⟩
  refine ⟨?_, ?_, ?_, ?_⟩
  · rw [← filterMap_acknowledgement?]
    exact hserves.sends
  · refine (hphase hserves).imp_left fun hgoes => ?_
    obtain ⟨rest, hrest, hleft⟩ := hgoes.rest
    exact ⟨rest, hrest, hgoes.phase.trans h, hleft⟩
  · intro receipt e hresult hloss
    have hnot : e ≠ .timeout := by
      rintro rfl
      cases hloss
    rcases hphase hserves with hgoes | ⟨hdone, -⟩
    · have hwatching := hgoes.phase.trans h
      simp only [resume, hwatching, hresult, miss, if_neg hnot, hloss, if_true]
      rfl
    · simp only [resume, hdone]
  · rintro hfinishes turns ⟨hlength, hreads⟩
    rw [hmore hfinishes, List.append_nil] at hbrings
    obtain ⟨hserves', hnot⟩ := not_goesOn hattends hwritable hbrings (.inl h) (.inl hfinishes)
      hreads hlength
    obtain ⟨hdone, hall, -⟩ := (hphase hserves').resolve_left hnot
    exact ⟨hdone, hall⟩

theorem pings {q : Probe} {dsuid : String} {more : List UInt8} (h : q.phase = .pinging dsuid)
    (hsent : p.Sends q [.notification (.ping (some dsuid))])
    (hwritable : q.manager.link.writable = true) (hmore : q.Finishes events → more = [])
    (hbrings : Manager.Brings (q.manager.stream ++ (q.manager.coming events ++ more)) messages)
    (hpatient : .error .timeout ∉ q.results events) :
    p.Pings q dsuid events more messages := by
  have hattends : q.phase.Attends := h ▸ .pinging dsuid
  have hserves := serves hattends hwritable hmore hbrings (.inr hpatient)
  have hlast (m : Message) : q.phase.IsLast m ↔ m.payload = .pong dsuid := by
    rw [h]
    exact Phase.isLast_pinging_iff
  have hends {received : List Message} : (∃ front last, received = front ++ [last] ∧
      q.phase.IsLast last ∧ ∀ m ∈ front, ¬ q.phase.IsLast m) → EndsWithPong dsuid received := by
    rintro ⟨front, last, hreceived, hpong, hnone⟩
    exact ⟨front, last, hreceived, (hlast last).1 hpong, fun m hm => mt (hlast m).2 (hnone m hm)⟩
  refine ⟨?_, ?_, ?_⟩
  · rw [← filterMap_acknowledgement?]
    exact hsent.trans hserves.sends
  · rcases hserves.phase with hgoes | ⟨hdone, hfront⟩ | ⟨hlost, hall, hnone, hfinishes⟩
    · obtain ⟨rest, hrest, hleft⟩ := hgoes.rest
      exact .inl ⟨rest, hrest, fun m hm => mt (hlast m).2 (hgoes.not_last m hm),
        hgoes.phase.trans h, hleft⟩
    · exact .inr (.inl ⟨hdone, hends hfront, hserves.receives⟩)
    · rw [h] at hlost
      exact .inr (.inr ⟨hlost, hall.symm, fun m hm => mt (hlast m).2 (hnone m hm), hfinishes⟩)
  · rintro ⟨pong, hpong, hpayload⟩ rfl turns ⟨hlength, hreads⟩
    rw [List.append_nil] at hbrings
    have hcomes : ∃ m ∈ messages, q.phase.IsLast m := ⟨pong, hpong, (hlast pong).2 hpayload⟩
    obtain ⟨hserves', hnot⟩ := not_goesOn hattends hwritable hbrings (.inr hpatient) (.inr hcomes)
      hreads hlength
    rcases hserves'.phase.resolve_left hnot with ⟨hdone, hfront⟩ | ⟨-, -, hnone, -⟩
    · exact ⟨hdone, hends hfront, hserves'.receives⟩
    · exact absurd ((hlast pong).2 hpayload) (hnone pong hpong)

/-- After the handshake a watch acknowledges every announcement that it receives, in order, and ends
well with the connection. A ping does the same up to the first answer to it. -/
theorem acknowledges_announcements (p : Probe) (endpoint : String) (events : List Manager.Event)
    (more : List UInt8) (messages : List Message) (hwritable : p.manager.link.writable = true)
    (hmore : p.Finishes events → more = [])
    (hbrings : Manager.Brings (p.manager.stream ++ (p.manager.coming events ++ more)) messages) :
    (p.command = .watch → (p.begin endpoint).Watches events more messages) ∧
      ∀ target m, p.command = .ping target →
        p.manager.send (.notification (.ping (some (target.getD endpoint)))) = .ok m →
        .error .timeout ∉ (p.begin endpoint).results events →
          p.Pings (p.begin endpoint) (target.getD endpoint) events more messages := by
  constructor
  · intro hcommand
    have hbegin : p.begin endpoint = { p with phase := .watching } := by
      simp only [begin, hcommand]
    rw [hbegin]
    exact watches rfl hwritable hmore hbrings
  · intro target m hcommand hsend hpatient
    have hbegin : p.begin endpoint =
        { p with manager := m, phase := .pinging (target.getD endpoint) } := by
      simp only [begin, hcommand, proceed, hsend]
    obtain ⟨payload, frame, hencode, hframe, hm⟩ := Manager.send_eq_ok hsend
    subst hm
    rw [hbegin] at hpatient ⊢
    exact pings rfl ⟨frame, .single hencode hframe, rfl⟩ hwritable hmore hbrings hpatient

/-- A container and a device are announced, and two pings are answered. -/
def announced : List Message :=
  [⟨1, .announceContainer "D1"⟩, .notification (.pong "D1"), ⟨2, .announceDevice "D2" "D1"⟩,
    .notification (.pong "D2")]

/-- One receipt more than there are messages. -/
def receipts : List Manager.Event := List.replicate 5 (.receive [4096])

/-- A probe to which they were sent. -/
def hearing (command : Command) : Probe := ⟨Manager.sentTo announced, command, .watching, []⟩

theorem brings_announced {command : Command} {events : List Manager.Event}
    (h : (Manager.sentTo announced).coming events = []) :
    Manager.Brings ((hearing command).manager.stream ++
      ((hearing command).manager.coming events ++ [])) announced := by
  have hbrings : Manager.Brings (Manager.sentTo announced).stream announced :=
    ⟨⟨2, by decide +kernel⟩, Manager.eq_map_ok_of_toOption (by decide +kernel)⟩
  rw [hearing, h, List.append_nil, List.append_nil]
  exact hbrings

/-- A ping for the device acknowledges both announcements and ends with the second pong, and a watch
acknowledges them as well and ends with the connection. -/
theorem acknowledges_announcements_heard :
    (∃ p : Probe, p.command = .ping (some "D2") ∧ p.manager.link.writable = true ∧
      Manager.Brings (p.manager.stream ++ (p.manager.coming receipts ++ [])) announced ∧
      p.Pings (p.begin "D1") "D2" receipts [] announced ∧
      ((p.begin "D1").after receipts).phase = .ended .done ∧
      (p.begin "D1").received receipts = announced) ∧
    ∃ p : Probe, p.command = .watch ∧ p.manager.link.writable = true ∧
      Manager.Brings (p.manager.stream ++ (p.manager.coming (.finish :: receipts) ++ []))
        announced ∧
      (p.begin "D1").Watches (.finish :: receipts) [] announced ∧
      ((p.begin "D1").after (.finish :: receipts)).phase = .ended .done ∧
      (p.begin "D1").received (.finish :: receipts) = announced := by
  have hwritable (command : Command) : (hearing command).manager.link.writable = true := by
    have hlink : (Manager.sentTo announced).link.writable = true := by decide +kernel
    exact hlink
  have hping : Manager.Brings ((hearing (.ping (some "D2"))).manager.stream ++
      ((hearing (.ping (some "D2"))).manager.coming receipts ++ [])) announced :=
    brings_announced (by decide +kernel)
  have hwatch : Manager.Brings ((hearing .watch).manager.stream ++
      ((hearing .watch).manager.coming (.finish :: receipts) ++ [])) announced :=
    brings_announced (by decide +kernel)
  refine ⟨⟨hearing (.ping (some "D2")), rfl, hwritable _, hping, ?_, by decide +kernel,
    by decide +kernel⟩, hearing .watch, rfl, hwritable _, hwatch, ?_, by decide +kernel,
    by decide +kernel⟩
  · have hfinite : ∀ d ∈ (Message.notification (.ping (some "D2"))).doubles, d.isFinite = true :=
      List.forall_mem_nil _
    have hfits :
        (Message.notification (.ping (some "D2"))).toJson.render.length ≤ defaultFrameLimit ∧
          (Message.notification (.ping (some "D2"))).toJson.render.length ≤ Frame.maxLength := by
      decide +kernel
    obtain ⟨frame, hframe⟩ := Frame.exists_serialize_iff.2 hfits
    have hsend := Manager.send_of_writable (hwritable (.ping (some "D2")))
      (Message.encode_eq_ok hfinite) hframe
    have hpatient :
        .error .timeout ∉ ((hearing (.ping (some "D2"))).begin "D1").results receipts := by
      intro hmem
      have hall : (((hearing (.ping (some "D2"))).begin "D1").results receipts).all
          (!Manager.isTimeout ·) = true := by decide +kernel
      exact absurd (List.all_eq_true.1 hall _ hmem) (by decide)
    exact (acknowledges_announcements _ "D1" receipts [] announced (hwritable _) (fun _ => rfl)
      hping).2 (some "D2") _ rfl hsend hpatient
  · exact (acknowledges_announcements _ "D1" (.finish :: receipts) [] announced (hwritable .watch)
      (fun _ => rfl) hwatch).1 rfl

end Vdc.Probe
