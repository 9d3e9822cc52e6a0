import Vdc.Proofs.Session.Cycle
import Vdc.Proofs.Session.Ledger
import Vdc.Proofs.Session.Output

/-!
# What a payload leaves as it was

Whatever the payload of a frame is, an endpoint without devices holds on to its connection, keeps
the state of its session and waits for the requests that it waited for before. The three exceptions
are a farewell, a handshake that is answered and a reply to a pending request, and each of them
changes only what it is about (`persists_handle`).

`Session.Keeps` is what all other operations have in common. Scripts have it as long as they
announce nothing, however much they send.
-/

namespace Vdc

variable {σ : Type}

/-- A payload is a farewell. -/
def IsFarewell (payload : List UInt8) : Prop :=
  ∃ id dsuid, Message.decode payload = .ok ⟨id, .bye dsuid⟩

/-! ## Payloads that ask for more than an answer -/

namespace Directive

variable {own : String} {state : SessionState} {payload : List UInt8}

/-- A session is asked for exactly with a handshake that comes over a connection. -/
theorem ofPayload_eq_greet_iff {id : RequestId} {hello : Hello} :
    ofPayload own state payload = .greet id hello ↔
      state ≠ .disconnected ∧ Message.decode payload = .ok ⟨id, .requestHello hello⟩ := by
  constructor
  · intro h
    obtain ⟨m, hdecode, hadmission, hm⟩ := of_ofPayload h nofun nofun
    obtain rfl := ofMessage_eq_greet hm
    refine ⟨?_, hdecode⟩
    rintro rfl
    cases hadmission
  · rintro ⟨hstate, hdecode⟩
    rw [ofPayload_of_decode hdecode]
    cases state with
    | disconnected => exact absurd rfl hstate
    | connected | active => rfl

/-- The end of a session is asked for exactly with a farewell that comes over a connection. -/
theorem ofPayload_eq_part_iff {dsuid : Option String} :
    ofPayload own state payload = .part dsuid ↔
      state ≠ .disconnected ∧ ∃ id, Message.decode payload = .ok ⟨id, .bye dsuid⟩ := by
  constructor
  · intro h
    obtain ⟨⟨id, said⟩, hdecode, hadmission, hm⟩ := of_ofPayload h nofun nofun
    obtain rfl : said = .bye dsuid := ofMessage_eq_part hm
    refine ⟨?_, id, hdecode⟩
    rintro rfl
    cases hadmission
  · rintro ⟨hstate, id, hdecode⟩
    rw [ofPayload_of_decode hdecode]
    cases state with
    | disconnected => exact absurd rfl hstate
    | connected | active => rfl

end Directive

/-! ## Operations that keep what a session stands on -/

/-- Scripts that announce nothing; they may send. -/
def Script.RequestsNothing : Script σ → Prop
  | .done => True
  | .remember _ next => next.RequestsNothing
  | .recall next => ∀ memory, (next memory).RequestsNothing
  | .meanwhile _ next => next.RequestsNothing
  | .inspect next => ∀ status, (next status).RequestsNothing
  | .send _ next => ∀ result, (next result).RequestsNothing
  | .announce _ _ _ => False

theorem Script.IsSilent.requestsNothing {script : Script σ} (h : script.IsSilent) :
    script.RequestsNothing := by
  induction script with
  | done => trivial
  | remember change next ih => exact ih h
  | «recall» next ih => exact fun memory => ih memory (h memory)
  | meanwhile happening next ih => exact ih h
  | inspect next ih => exact fun status => ih status (h status)
  | send | announce => exact h.elim

/-- An application without devices announces nothing. -/
theorem Application.requestsNothing_default (callback : Callback) :
    ((Application.default (σ := σ)).react callback).RequestsNothing := by
  cases callback with
  | getProperty | setProperty => exact fun _ => trivial
  | _ => trivial

namespace Session

variable {s s' s'' : Session σ}

/-- A session keeps what it stands on: the same connection is held and none was closed, and its
state, its pending requests and the id of its last request are what they were. -/
structure Keeps (s s' : Session σ) : Prop where
  held : s'.transport.held.map Link.name = s.transport.held.map Link.name
  past : s'.transport.past = s.transport.past
  state : s'.state = s.state
  pending : s'.pending = s.pending
  lastId : s'.lastId = s.lastId

namespace Keeps

theorem refl (s : Session σ) : Keeps s s := ⟨rfl, rfl, rfl, rfl, rfl⟩

theorem trans (h : Keeps s s') (h' : Keeps s' s'') : Keeps s s'' :=
  ⟨h'.held.trans h.held, h'.past.trans h.past, h'.state.trans h.state,
    h'.pending.trans h.pending, h'.lastId.trans h.lastId⟩

theorem note (s : Session σ) (event : Event σ) : Keeps s (s.note event) := ⟨rfl, rfl, rfl, rfl, rfl⟩

theorem happen (s : Session σ) (happening : Happening) : Keeps s (s.happen happening) := by
  refine ⟨s.transport.name_happen happening, ?_, rfl, rfl, rfl⟩
  cases happening <;> rfl

theorem of_transmit {m : Message} (h : s.transmit m = .ok s') : Keeps s s' := by
  obtain ⟨payload, transport, -, hwrite, rfl⟩ := transmit_eq_ok h
  obtain ⟨frame, link, -, hheld, -, rfl⟩ := Transport.writeFrame_eq_ok hwrite
  refine ⟨?_, rfl, rfl, rfl, rfl⟩
  simp only [Session.note, hheld, Option.map_some]

theorem of_send (s : Session σ) (what : Outgoing) : Keeps s (s.send what).2 := by
  rcases s.send_cases what with h | ⟨m, -, h⟩
  · rw [h]
    exact refl s
  · exact of_transmit h

theorem of_run {script : Script σ} (h : script.RequestsNothing) (s : Session σ) :
    Keeps s (run script s) := by
  induction script generalizing s with
  | done => exact refl s
  | remember change next ih =>
    have hremember : Keeps s { s with memory := change s.memory } := ⟨rfl, rfl, rfl, rfl, rfl⟩
    exact hremember.trans (ih h _)
  | «recall» next ih => exact ih _ (h _) s
  | meanwhile happening next ih => exact (happen s happening).trans (ih h _)
  | inspect next ih => exact (note s (.inspected s.status)).trans (ih _ (h _) _)
  | send what next ih => exact (of_send s what).trans (ih _ (h _) _)
  | announce => exact h.elim

theorem of_call {app : Application σ} {callback : Callback}
    (h : (app.react callback).RequestsNothing) (s : Session σ) :
    Keeps s (s.call app callback) :=
  (note s _).trans (of_run h _)

theorem of_abandon {requests : List (PendingRequest (Outcome → Script σ) × Expiry)}
    (h : ∀ request ∈ requests, ∀ outcome, (request.1.completion outcome).RequestsNothing)
    (s : Session σ) : Keeps s (s.abandon requests) := by
  induction requests generalizing s with
  | nil => exact refl s
  | cons request rest ih =>
    obtain ⟨hfirst, hrest⟩ := List.forall_mem_cons.1 h
    have hbegun : Keeps s (s.begun request.1 (outcomeOf request.2)) := note s _
    exact (hbegun.trans (of_run (hfirst _) _)).trans (ih hrest _)

theorem of_remove (s : Session σ) (id : RequestId) (dsuid : String) :
    Keeps s (s.remove .default id dsuid) := by
  have hcalled : Keeps s (s.call .default (.remove dsuid)) :=
    of_call (Application.requestsNothing_default _) s
  unfold remove
  split
  · exact hcalled
  · exact hcalled.trans (of_send _ _)

/-- What neither begins nor ends a session, and completes no request, keeps all of it. -/
theorem of_obey {directive : Directive} (h : directive.IsInSession) (s : Session σ) :
    Keeps s (s.obey .default directive) := by
  cases directive with
  | ignore => exact refl s
  | refuse | pong => exact of_send s _
  | remove id dsuid => exact of_remove s id dsuid
  | deliver callback => exact of_call (Application.requestsNothing_default callback) s
  | greet | part | complete => exact h.elim

end Keeps

/-- The end of a connection makes no request, unless a completion does. -/
theorem lastId_disconnect (h : ∀ request ∈ s.pending.entries, ∀ outcome,
    (request.completion outcome).RequestsNothing) : s.disconnect.2.lastId = s.lastId := by
  have hreset : s.resetTransport.lastId = s.lastId ∧ s.resetTransport.pending = s.pending := by
    unfold resetTransport
    split <;> exact ⟨rfl, rfl⟩
  refine Eq.trans (Keeps.of_abandon (fun request hrequest outcome => ?_) _).lastId hreset.1
  rw [hreset.2] at hrequest
  obtain ⟨pending, hpending, rfl⟩ := List.mem_map.1 hrequest
  exact h pending hpending outcome

theorem complete_of_take {id : RequestId} {code : ResultCode}
    {request : PendingRequest (Outcome → Script σ)} {pending : RequestCache (Outcome → Script σ)}
    (h : s.pending.take id = (some request, pending)) :
    s.complete id code = run (request.completion (.answered code))
      (begun { s with pending := pending } request (.answered code)) := by
  rw [complete, h]
  rfl

/-- A reply to no pending request is passed over. -/
theorem complete_of_not_mem {id : RequestId} {code : ResultCode} (h : id ∉ s.pending.ids) :
    s.complete id code = s := by
  rw [complete, RequestCache.take_of_not_mem h]

/-! ## What taking up a payload changes -/

/-- What taking up a payload does to the connection, the state and the requests of a session. -/
structure Persists (s : Session σ) (payload : List UInt8) (s' : Session σ) : Prop where
  /-- No request is made. -/
  lastId : s'.lastId = s.lastId
  /-- Unless the payload is a farewell, the same connection is held and none was closed. -/
  link : ¬ IsFarewell payload →
    s'.transport.held.map Link.name = s.transport.held.map Link.name ∧
      s'.transport.past = s.transport.past
  /-- Unless it is a farewell, or a handshake that is acceptable and can be answered, the state is
  what it was. -/
  state : ¬ IsFarewell payload →
    (∀ id peer, introduction? s.apiVersion payload = some (id, peer) →
      ¬ s.transport.Takes ⟨id, .responseHello s.dsuid⟩) → s'.state = s.state
  /-- Such a handshake opens a session. -/
  greeted : ∀ id peer, introduction? s.apiVersion payload = some (id, peer) →
    s.transport.Takes ⟨id, .responseHello s.dsuid⟩ → s'.state = .active peer
  /-- Unless it is a farewell, or the reply to a pending request, the same requests are pending. -/
  pending : ¬ IsFarewell payload →
    (∀ id code, RepliesTo payload id code → id ≠ reservedId → id ∉ s.pending.ids) →
      s'.pending = s.pending
  /-- The request that is replied to is taken out, and all others are as they were. -/
  replied : ∀ id code, RepliesTo payload id code → id ≠ reservedId → id ∈ s.pending.ids →
    ∃ before request after, s.pending.entries = before ++ request :: after ∧ request.id = id ∧
      id ∉ before.map (·.id) ∧ s'.pending = { s.pending with entries := before ++ after }
  /-- A farewell ends the connection, the session and the requests. -/
  parted : IsFarewell payload →
    s'.transport.held = none ∧ s'.state = .disconnected ∧ s'.pending.entries = []

namespace Persists

variable {payload : List UInt8}

/-- What keeps all a session stands on is right for a payload that asks for nothing else. -/
theorem of_keeps (h : Keeps s s') (hfarewell : ¬ IsFarewell payload)
    (hgreeted : ∀ id peer, introduction? s.apiVersion payload = some (id, peer) →
      ¬ s.transport.Takes ⟨id, .responseHello s.dsuid⟩)
    (hreplied : ∀ id code, RepliesTo payload id code → id ≠ reservedId → id ∉ s.pending.ids) :
    s.Persists payload s' where
  lastId := h.lastId
  link _ := ⟨h.held, h.past⟩
  state _ _ := h.state
  greeted id peer hintroduction htakes := absurd htakes (hgreeted id peer hintroduction)
  pending _ _ := h.pending
  replied id code hreply hid hmem := absurd hmem (hreplied id code hreply hid)
  parted h := absurd h hfarewell

/-- A handshake changes the state, and only if it is acceptable and can be answered. -/
theorem of_greet {id : RequestId} {hello : Hello} (hstate : s.state ≠ .disconnected)
    (hdecode : Message.decode payload = .ok ⟨id, .requestHello hello⟩) :
    s.Persists payload (s.handle .default payload) := by
  have hfarewell : ¬ IsFarewell payload := by
    rintro ⟨id', dsuid, hbye⟩
    rw [hdecode] at hbye
    cases hbye
  have hreply : ∀ id code, ¬ RepliesTo payload id code := by
    rintro id code ⟨description, hreply⟩
    rw [hdecode] at hreply
    cases hreply
  have hid {id' : RequestId} {peer : String}
      (h : introduction? s.apiVersion payload = some (id', peer)) : id' = id := by
    obtain ⟨hello', hdecode', -⟩ := introduction?_eq_some_iff.1 h
    rw [hdecode] at hdecode'
    cases hdecode'
    rfl
  have htaken : Keeps s (s.note (.handled payload)) := .note s _
  by_cases hdeclined : introduction? s.apiVersion payload = none ∨
      ∀ s', (s.note (.handled payload)).transmit ⟨id, .responseHello s.dsuid⟩ ≠ .ok s'
  · rw [handle_of_declined .default hdecode hdeclined]
    apply of_keeps htaken hfarewell
    · intro id' peer hintroduction htakes
      rcases hdeclined with hnone | hfails
      · rw [hnone] at hintroduction
        cases hintroduction
      · rw [hid hintroduction] at htakes
        obtain ⟨s'', hs⟩ := exists_transmit (s := s.note (.handled payload)) htakes
        exact hfails s'' hs
    · intro id' code h
      exact absurd h (hreply id' code)
  · simp only [not_or, not_forall, not_not] at hdeclined
    obtain ⟨hsome, s'', hs⟩ := hdeclined
    obtain ⟨⟨id', peer⟩, hintroduction⟩ := Option.ne_none_iff_exists'.1 hsome
    obtain rfl := hid hintroduction
    rw [handle_of_introduction .default hstate hintroduction hs]
    have hsent : Keeps s s'' := htaken.trans (.of_transmit hs)
    refine ⟨hsent.lastId, fun _ => ⟨hsent.held, hsent.past⟩, ?_, ?_, fun _ _ => hsent.pending,
      fun id code h => absurd h (hreply id code), fun h => absurd h hfarewell⟩
    · intro _ hnever
      obtain ⟨_, transport, hencode, hwrite, -⟩ := transmit_eq_ok hs
      exact absurd ⟨_, transport, hencode, hwrite⟩ (hnever _ peer hintroduction)
    · intro id peer' h _
      rw [hintroduction] at h
      obtain ⟨-, rfl⟩ := Prod.mk.inj (Option.some.inj h)
      rfl

/-- A reply takes out the request that it answers, if that is pending, and its completion keeps the
rest. -/
theorem of_reply {id : RequestId} {code : ResultCode} (hid : id ≠ reservedId)
    (hreply : RepliesTo payload id code)
    (hsilent : ∀ request ∈ s.pending.entries, ∀ outcome,
      (request.completion outcome).RequestsNothing) :
    s.Persists payload ((s.note (.handled payload)).complete id code) := by
  have hfarewell : ¬ IsFarewell payload := by
    rintro ⟨id', dsuid, hbye⟩
    obtain ⟨description, hdecode⟩ := hreply
    rw [hdecode] at hbye
    cases hbye
  have hgreeted : introduction? s.apiVersion payload = none := by
    obtain ⟨description, hdecode⟩ := hreply
    simp [introduction?, hdecode]
  by_cases hmem : id ∈ s.pending.ids
  · obtain ⟨before, request, after, hentries, hrequest, hbefore, htake⟩ :=
      RequestCache.take_of_mem hmem
    have hpending : request ∈ s.pending.entries := by
      rw [hentries]
      exact List.mem_append_right _ List.mem_cons_self
    rw [complete_of_take (s := s.note (.handled payload)) htake]
    have hfinish := Keeps.of_run (hsilent request hpending (.answered code))
      (begun { s.note (.handled payload) with
        pending := { s.pending with entries := before ++ after } } request (.answered code))
    refine ⟨hfinish.lastId, fun _ => ⟨hfinish.held, hfinish.past⟩, fun _ _ => hfinish.state, ?_,
      ?_, ?_, fun h => absurd h hfarewell⟩
    · intro id' peer h
      rw [hgreeted] at h
      cases h
    · intro _ hnever
      exact absurd hmem (hnever id code hreply hid)
    · intro id' code' hreply' _ _
      obtain ⟨rfl, -⟩ := hreply'.unique hreply
      exact ⟨before, request, after, hentries, hrequest, hbefore, hfinish.pending⟩
  · rw [complete_of_not_mem (s := s.note (.handled payload)) hmem]
    apply of_keeps (.note s _) hfarewell
    · intro id' peer h
      rw [hgreeted] at h
      cases h
    · intro id' code' hreply' _
      obtain ⟨rfl, -⟩ := hreply'.unique hreply
      exact hmem

/-- A farewell ends everything but the count of the requests. -/
theorem of_part (h : IsFarewell payload) (dsuid : Option String)
    (hsilent : ∀ request ∈ s.pending.entries, ∀ outcome,
      (request.completion outcome).RequestsNothing) :
    s.Persists payload ((s.note (.handled payload)).part .default dsuid) := by
  have hparted := (s.note (.handled payload)).of_disconnect
  have hlast : (s.note (.handled payload)).disconnect.2.lastId = s.lastId := by
    rw [lastId_disconnect]
    · rfl
    · exact hsilent
  obtain ⟨id, dsuid', hdecode⟩ := h
  refine ⟨hlast, fun h => absurd ⟨id, dsuid', hdecode⟩ h, fun h => absurd ⟨id, dsuid', hdecode⟩ h,
    ?_, fun h => absurd ⟨id, dsuid', hdecode⟩ h, ?_, fun _ => hparted⟩
  · intro id' peer hintroduction
    simp [introduction?, hdecode] at hintroduction
  · intro id' code hreply
    obtain ⟨description, hreply⟩ := hreply
    rw [hdecode] at hreply
    cases hreply

end Persists

/-- Taking up the payload of a frame keeps the connection, the state and the requests of a session,
except that a farewell ends them, that a handshake which is answered opens a session, and that a
reply takes out the request which it answers. -/
theorem persists_handle (s : Session σ) (payload : List UInt8) (hstate : s.state ≠ .disconnected)
    (hsilent : ∀ request ∈ s.pending.entries, ∀ outcome, (request.completion outcome).IsSilent) :
    s.Persists payload (s.handle .default payload) := by
  have hlocal : ∀ request ∈ s.pending.entries, ∀ outcome,
      (request.completion outcome).RequestsNothing :=
    fun request hrequest outcome => (hsilent request hrequest outcome).requestsNothing
  have htaken : Keeps s (s.note (.handled payload)) := .note s _
  have hother (h : (Directive.ofPayload s.dsuid s.state payload).IsInSession) :
      s.Persists payload (s.handle .default payload) := by
    -- None of the three payloads that change something asks for what a session allows.
    apply Persists.of_keeps (htaken.trans (.of_obey h _))
    · rintro ⟨id, dsuid, hdecode⟩
      rw [Directive.ofPayload_eq_part_iff.2 ⟨hstate, id, hdecode⟩] at h
      exact h
    · intro id peer hintroduction _
      obtain ⟨hello, hdecode, -⟩ := introduction?_eq_some_iff.1 hintroduction
      rw [Directive.ofPayload_eq_greet_iff.2 ⟨hstate, hdecode⟩] at h
      exact h
    · intro id code hreply hid _
      rw [Directive.ofPayload_eq_complete_iff.2 ⟨hstate, hid, hreply⟩] at h
      exact h
  cases hd : Directive.ofPayload s.dsuid s.state payload with
  | ignore | refuse | pong | remove => exact hother (by rw [hd]; trivial)
  | deliver callback =>
    have hcallback := (Directive.of_callback? hd rfl).2
    exact hother (by rw [hd]; exact hcallback)
  | greet id hello =>
    exact .of_greet hstate (Directive.ofPayload_eq_greet_iff.1 hd).2
  | part dsuid =>
    obtain ⟨-, id, hdecode⟩ := Directive.ofPayload_eq_part_iff.1 hd
    rw [handle, hd]
    exact .of_part ⟨id, dsuid, hdecode⟩ dsuid hlocal
  | complete id code =>
    obtain ⟨-, hid, hreply⟩ := Directive.ofPayload_eq_complete_iff.1 hd
    rw [handle, hd]
    exact .of_reply hid hreply hlocal

/-- A reply comes while three requests are pending, and the one in the middle is taken out. -/
theorem persists_handle_reply :
    ∃ (s : Session Nat) (payload : List UInt8),
      Message.encode (.genericResponse 5 .ok) = .ok payload ∧ s.pending.ids = [4, 5, 6] ∧
        s.state ≠ .disconnected ∧
        (s.handle .default payload).pending.ids = [4, 6] ∧
        (s.handle .default payload).memory = 1 ∧
        s.Persists payload (s.handle .default payload) := by
  let s : Session Nat := { new "own" .default 0 0 with
    transport := { Transport.listen 4096 0 with held := some (.fresh "peer") }
    state := .active "P"
    pending := ⟨[⟨4, 0, fun _ => .done⟩, ⟨5, 1, fun _ => .remember (· + 1) .done⟩,
      ⟨6, 2, fun _ => .done⟩], 0, 0, 0⟩ }
  refine ⟨s, (Message.genericResponse 5 .ok).toJson.render, rfl, rfl, nofun, by decide +kernel,
    by decide +kernel, ?_⟩
  refine persists_handle s _ nofun fun request hrequest outcome => ?_
  have hcases : request = ⟨4, 0, fun _ => .done⟩ ∨
      request = ⟨5, 1, fun _ => .remember (· + 1) .done⟩ ∨ request = ⟨6, 2, fun _ => .done⟩ := by
    simpa [s] using hrequest
  rcases hcases with rfl | rfl | rfl <;> trivial

end Session

end Vdc
