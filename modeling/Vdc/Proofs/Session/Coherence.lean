import Vdc.Proofs.Session.Moves

/-!
# Coherence of a session

A session is made of three parts that are changed at different places: the transport, which holds a
connection or none, the state of the connection, and the requests that are pending. They agree
whenever anyone can look: a connection is held exactly in the states that have one, and no request
is pending without a connection.

The statement is about every status that the application saw, at each of its calls, at the start of
each completion and wherever a script looked, and about the session after every input.
-/

namespace Vdc

/-- The parts of a session agree: a connection is held exactly if the state has one, and without one
nothing is pending. -/
structure Status.Coherent (status : Status) : Prop where
  connected_iff : status.state ≠ .disconnected ↔ status.connected = true
  pending_eq_zero : status.state = .disconnected → status.pending = 0

/-- What could be seen of the session when the application was called or looked. -/
def Event.status? {σ : Type} : Event σ → Option Status
  | .completed _ _ _ status => some status
  | .called _ status => some status
  | .inspected status => some status
  | _ => none

namespace Session

variable {σ : Type}

/-- The session is coherent, and was so whenever the application could look. -/
structure Coherent (s : Session σ) : Prop where
  now : s.status.Coherent
  before : ∀ status ∈ s.journal.filterMap Event.status?, status.Coherent

namespace Coherent

variable {s : Session σ}

/-- Only what can be seen now matters for a change that notes nothing down. -/
theorem update (h : s.Coherent) {s' : Session σ} (hnow : s'.status.Coherent)
    (hjournal : s'.journal = s.journal) : s'.Coherent :=
  ⟨hnow, hjournal ▸ h.before⟩

/-- Noting down what can be seen of a coherent session, or nothing of it, keeps it coherent. -/
theorem note (h : s.Coherent) (event : Event σ)
    (hevent : event.status? = none ∨ event.status? = some s.status) :
    (s.note event).Coherent where
  now := h.now
  before status hmem := by
    rcases hevent with hs | hs <;> simp only [Session.note, List.filterMap_cons, hs] at hmem
    · exact h.before status hmem
    · rcases List.mem_cons.1 hmem with rfl | hmem
      · exact h.now
      · exact h.before status hmem

/-- A session with a connection has a state to match. -/
theorem state_ne_of_held (h : s.Coherent) {link : Link} (hs : s.transport.held = some link) :
    s.state ≠ .disconnected :=
  h.now.connected_iff.2 (by simp [status, Transport.isConnected, hs])

/-- A session without a connection has no pending requests. -/
theorem pending_of_unheld (h : s.Coherent) (hs : s.transport.held = none) :
    s.state = .disconnected ∧ s.pending.entries = [] := by
  have hstate : s.state = .disconnected := by
    refine Decidable.byContradiction fun hne => ?_
    have := h.now.connected_iff.1 hne
    simp [status, Transport.isConnected, hs] at this
  exact ⟨hstate, List.eq_nil_of_length_eq_zero (h.now.pending_eq_zero hstate)⟩

/-- A session with a connection is coherent in any state that has one. -/
theorem now_of_held {s' : Session σ} {link : Link} (hheld : s'.transport.held = some link)
    (hstate : s'.state ≠ .disconnected) : s'.status.Coherent where
  connected_iff := by simp [status, Transport.isConnected, hheld, hstate]
  pending_eq_zero hs := absurd hs hstate

/-- A message that is sent changes nothing that can be seen. -/
theorem transmit (h : s.Coherent) {s' : Session σ} {m : Message} (hs : s.transmit m = .ok s') :
    s'.Coherent ∧ ∃ link, s'.transport.held = some link := by
  obtain ⟨_, transport, -, hwrite, rfl⟩ := transmit_eq_ok hs
  obtain ⟨frame, link, -, hheld, -, rfl⟩ := Transport.writeFrame_eq_ok hwrite
  have hwritten : { s with transport := { s.transport with
      held := some { link with written := link.written ++ frame } } }.Coherent :=
    h.update (now_of_held rfl (h.state_ne_of_held hheld)) rfl
  exact ⟨hwritten.note (.sent m) (.inl rfl), _, rfl⟩

/-- A payload that has been read changes nothing that can be seen. -/
theorem taken (h : s.Coherent) (payload : List UInt8) {link link' : Link}
    (hheld : s.transport.held = some link) :
    (s.taken payload { s.transport with held := some link' }).Coherent := by
  have hread : { s with transport := { s.transport with held := some link' } }.Coherent :=
    h.update (now_of_held rfl (h.state_ne_of_held hheld)) rfl
  exact hread.note _ (.inl rfl)

/-! ## What the moves preserve -/

theorem act (h : s.Coherent) {s' : Session σ} (hact : Act s s') : s'.Coherent := by
  cases hact with
  | remember change => exact h.update h.now rfl
  | happen happening =>
    refine h.update ?_ rfl
    have hheld : (s.happen happening).transport.isConnected = s.transport.isConnected := by
      have := congrArg Option.isSome (s.transport.name_happen happening)
      rwa [Option.isSome_map, Option.isSome_map] at this
    have hstatus : (s.happen happening).status = s.status := by
      simp only [status, hheld]
      rfl
    exact hstatus ▸ h.now
  | inspect => exact h.note _ (.inr rfl)
  | send what =>
    rcases s.send_cases what with hs | ⟨m, -, hs⟩
    · rw [hs]
      exact h
    · exact (h.transmit hs).1
  | announce subject completion =>
    have hdraw : { s with lastId := s.nextId }.Coherent := h.update h.now rfl
    rcases s.announce_cases subject completion with ⟨e, hs⟩ | ⟨s', ht, hs⟩
    · rw [hs]
      exact hdraw.note _ (.inl rfl)
    · obtain ⟨h', link, hheld⟩ := hdraw.transmit ht
      rcases hs with ⟨e, -, hs⟩ | ⟨pending, -, hs⟩ <;> rw [hs]
      · exact h'.note _ (.inl rfl)
      · have hregistered : { s' with pending := pending }.Coherent :=
          h'.update (now_of_held hheld (h'.state_ne_of_held hheld)) rfl
        exact hregistered.note _ (.inl rfl)

theorem move {m m' : Moment σ} (h : m.session.Coherent) (hmove : Move m m') :
    m'.session.Coherent := by
  cases hmove with
  | act owed hact => exact h.act hact
  | finish s request expiry owed => exact h.note _ (.inr rfl)
  | sweep s =>
    -- A search takes requests out, so there are none after it where there were none before.
    have hswept : (s.note (.swept s.clock)).Coherent := h.note _ (.inl rfl)
    refine hswept.update ⟨hswept.now.connected_iff, fun hstate => ?_⟩ rfl
    have hempty : s.pending.entries = [] :=
      List.eq_nil_of_length_eq_zero (h.now.pending_eq_zero hstate)
    simp only [status, RequestCache.size, RequestCache.entries_sweep_of_empty hempty,
      List.length_nil]
  | accept s newcomer waiting hwaiting hnone =>
    have haccepted : { s with
        transport := { s.transport with waiting := waiting, held := some newcomer }
        state := .connected }.Coherent := h.update (now_of_held rfl (by simp)) rfl
    exact haccepted.note _ (.inl rfl)
  | turnAway s newcomer closed waiting => exact h.update h.now rfl
  | reject s newcomer closed waiting =>
    have hrejected : { s with transport := { s.transport with
        waiting := waiting, past := closed :: s.transport.past } }.Coherent := h.update h.now rfl
    exact hrejected.note _ (.inl rfl)
  | take s payload transport hread hdirective =>
    obtain ⟨link, consumed, hheld, -, rfl⟩ := Transport.readFrame_eq_frame hread
    exact h.taken payload hheld
  | answer s payload transport id code request hread hdirective htake =>
    obtain ⟨link, consumed, hheld, -, rfl⟩ := Transport.readFrame_eq_frame hread
    have hanswered : { s.taken payload { s.transport with
        held := some { link with unread := link.unread.drop consumed } } with
        pending := (s.pending.take id).2 }.Coherent :=
      (h.taken payload hheld).update (now_of_held rfl (h.state_ne_of_held hheld)) rfl
    exact hanswered.note _ (.inr rfl)
  | @greet s s' id hello peer hasked hcheck hs =>
    obtain ⟨h', link, hheld⟩ := h.transmit hs
    have hopened : (s'.opened peer).Coherent :=
      h'.update (now_of_held hheld (by simp [opened])) rfl
    exact hopened.note _ (.inr rfl)
  | call | farewell => exact h.note _ (.inr rfl)
  | hangUp s =>
    -- Connection, state and pending requests are given up together, before any completion runs.
    have hclosed : s.resetTransport.journal.filterMap Event.status? =
        s.journal.filterMap Event.status? := by
      unfold resetTransport
      split <;> rfl
    refine ⟨⟨?_, fun _ => rfl⟩, hclosed ▸ h.before⟩
    simp [status, Transport.isConnected, s.held_resetTransport]
  | withdraw s hnone =>
    have hreset : s.transport.reset = s.transport := by simp [Transport.reset, hnone]
    have hclosed : { s with transport := s.transport.close }.Coherent := by
      refine h.update ⟨?_, h.now.pending_eq_zero⟩ rfl
      simpa [status, Transport.close, Transport.isConnected, hreset] using h.now.connected_iff
    exact hclosed.note _ (.inl rfl)

end Coherent

/-- A session that is new is coherent. -/
theorem coherent_new (dsuid : String) (config : Config) (memory : σ) (now : Nat) :
    (new dsuid config memory now).Coherent where
  now := ⟨by simp [status, new, Transport.isConnected, Transport.listen], fun _ => rfl⟩
  before := by simp [new]

end Session

namespace Endpoint

variable {σ : Type} {app : Application σ} {memory : σ} {dsuid : String} {config : Config}
  {announcer : Option Announcer} {port : UInt16} {e : Endpoint σ}

/-- An endpoint opens with a session that is new. -/
theorem of_start (h : start app memory dsuid config announcer port = .ready e) :
    e.session = Session.new dsuid config memory 0 ∧ e.isClosed = false := by
  unfold start at h
  split at h
  · cases h
  · dsimp only at h
    split at h
    · cases h
      exact ⟨rfl, rfl⟩
    · split at h <;> cases h <;> exact ⟨rfl, rfl⟩

/-- Whatever an endpoint takes after its start, its session is coherent, was coherent at every call
of the application and wherever a script looked, and a script that runs without a connection leaves
nothing pending. -/
theorem coherent_run (h : start app memory dsuid config announcer port = .ready e)
    (inputs : List (Input σ)) :
    (e.run inputs).session.status.Coherent ∧
      (∀ event ∈ (e.run inputs).session.journal, ∀ status, event.status? = some status →
        status.Coherent) ∧
      ∀ script, (e.run inputs).session.state = .disconnected →
        ((e.run inputs).session.run script).state = .disconnected ∧
          ((e.run inputs).session.run script).pending.size = 0 := by
  have hstart : e.session.Coherent := by
    rw [(of_start h).1]
    exact Session.coherent_new dsuid config memory 0
  have hrun : (e.run inputs).session.Coherent :=
    (moves_inputs e inputs).preserve (P := (·.session.Coherent))
      (fun hmove h => h.move hmove) hstart
  refine ⟨hrun.now, fun event hevent status hstatus => ?_, fun script hstate => ?_⟩
  · exact hrun.before status (List.mem_filterMap.2 ⟨event, hevent, hstatus⟩)
  · have hunheld : (e.run inputs).session.transport.held = none := by
      cases hheld : (e.run inputs).session.transport.held with
      | none => rfl
      | some link => exact absurd hstate (hrun.state_ne_of_held hheld)
    obtain ⟨-, hsame, hpending⟩ := Session.run_of_unheld script hunheld
    rw [hsame, hpending]
    exact ⟨hstate, hrun.now.pending_eq_zero hstate⟩

/-- An endpoint without devices whose peer has just connected. -/
theorem coherent_run_default :
    ∃ e : Endpoint Unit, start .default () "own" .default none 0 = .ready e ∧
      (e.run [.arrive (.fresh "peer"), .work]).session.state = .connected ∧
      (e.run [.arrive (.fresh "peer"), .work]).session.status.Coherent := by
  have h : start .default () "own" .default none 0 =
      .ready ⟨.default, Session.new "own" .default () 0, none, false⟩ := rfl
  exact ⟨_, h, by decide +kernel, (coherent_run h _).1⟩

end Endpoint

end Vdc
